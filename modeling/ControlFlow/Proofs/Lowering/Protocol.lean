import ControlFlow.Proofs.Code.Drawn
import ControlFlow.Proofs.Lowering.Written
/-!
# The protocol of returns and block literals

In the graph of a tree a return is followed by a jump. The call that takes a block literal, and
every end of a run of its body, is followed by a branch without a condition between the body and the
block behind the call. Each body belongs to one block literal and one call; on every path the block
literal is made before the call, and the call before the body runs. No path leaves the graph without
a return.

The main result is `Lowering.keeps_protocol`.
-/

namespace ControlFlow

open Instruction (Demands allPassed allPassed_append)

namespace Graph

variable {g : Graph} {ns : List BlockName} {n m : BlockName}

/-- What a path has passed before it came to one of its blocks is a path. -/
lemma Path.split_of_mem (path : g.Path ns n) (hm : m ∈ ns) :
    ∃ earlier later, ns = earlier ++ m :: later ∧ g.Path earlier m := by
  induction path with
  | start => cases hm
  | @step ns k _ path _ ih =>
    rcases List.mem_append.1 hm with hm | hm
    · obtain ⟨earlier, later, rfl, first⟩ := ih hm
      exact ⟨earlier, later ++ [k], by simp, first⟩
    · obtain rfl : m = k := List.mem_singleton.1 hm
      exact ⟨ns, [], rfl, path⟩

/-- A block literal or a call names the block as the start of a body. -/
def NamesBody (g : Graph) (body : BlockName) : Prop :=
  ∃ block ∈ g.blocks, ∃ i ∈ block.instructions, i.closes body = true ∨ i.takes body = true

/-- The protocol of returns and block literals; `after` says which block follows the call that takes
a block literal, by the block where the body starts. -/
structure KeepsProtocol (g : Graph) (after : BlockName → BlockName) : Prop where
  /-- A return is followed by a jump. -/
  returns : ∀ n p v q, g.code n = p ++ .ret v :: q → ∃ target q', q = .jump target :: q'
  /-- A call that takes a block literal is followed by a branch without a condition. -/
  calls : ∀ n p dest callee args body q,
    g.code n = p ++ .send dest callee args (.body body) :: q →
      ∃ q', q = .branch none body (after body) :: q'
  /-- So is the end of a run of a body. -/
  resumes : ∀ n p v q, g.code n = p ++ .resume v :: q →
    ∃ body q', g.NamesBody body ∧ q = .branch none body (after body) :: q'
  /-- Branches without a condition stand nowhere else. -/
  branches : ∀ n p x y q, g.code n = p ++ .branch none x y :: q → y = after x ∧
    ∃ p', (∃ v, p = p' ++ [.resume v]) ∨
      ∃ dest callee args, p = p' ++ [.send dest callee args (.body x)]
  /-- Every body belongs to one block literal and one call. -/
  bodies : ∀ body, g.NamesBody body →
    g.count (Instruction.closes body) = 1 ∧ g.count (Instruction.takes body) = 1
  /-- On every path to a body the call is made, and before the call the block literal. -/
  entered : ∀ body ns, g.NamesBody body → g.Path ns body →
    ∃ earlier n later p call q closure, ns = earlier ++ n :: later ∧ g.code n = p ++ call :: q ∧
      call.takes body = true ∧ closure ∈ earlier.flatMap g.code ++ p ∧ closure.closes body = true
  /-- Every path to the exit passes a return. -/
  left : ∀ ns, g.Path ns .exit → ∃ n ∈ ns, ∃ v, .ret v ∈ g.code n

end Graph

variable {body : BlockName}

namespace Builder

variable {b : Builder} {before : BlockName → Set Milestone} {now : Set Milestone}

/-- What the label of a block says has been passed on every path to the block. -/
lemma Charted.passed (chart : b.Charted before now) {ns : List BlockName} {n : BlockName}
    (path : b.graph.Path ns n) :
    before n ⊆ before .enter ∪ allPassed (ns.flatMap b.graph.code) := by
  induction path with
  | start => exact Set.subset_union_left
  | @step ns n m _ e ih =>
    intro milestone hm
    rw [List.flatMap_append, allPassed_append, ← Set.union_assoc]
    rcases (chart.edges _ e).2.2 hm with hm | hm
    · exact Or.inl (ih hm)
    · exact Or.inr (by simpa using hm)

/-- On a path to a body the call has been made, and before it the block literal. -/
lemma Charted.entered (chart : b.Charted before now) (enter : before .enter = ∅)
    (mem : body ∈ b.bodies) {ns : List BlockName} (path : b.graph.Path ns body) :
    ∃ earlier n later p call q closure, ns = earlier ++ n :: later ∧
      b.graph.code n = p ++ call :: q ∧ call.takes body = true ∧
      closure ∈ earlier.flatMap b.graph.code ++ p ∧ closure.closes body = true := by
  have passed : ∀ {ns n}, b.graph.Path ns n →
      before n ⊆ allPassed (ns.flatMap b.graph.code) := by
    intro ns n path
    simpa [enter] using chart.passed path
  obtain ⟨call, hcall, called⟩ := passed path (chart.bodies body mem).2
  have takes := Instruction.takes_of_passes called
  -- the call stands in a block that the path has passed
  obtain ⟨n, hn, hc⟩ := List.mem_flatMap.1 hcall
  obtain ⟨earlier, later, rfl, first⟩ := path.split_of_mem hn
  obtain ⟨p, q, code⟩ := List.append_of_mem hc
  -- what the call awaits lies behind it, in its own block or in an earlier one
  have made : .made body ∈ before n ∪ allPassed p :=
    chart.ready n p call q code (Instruction.awaits_of_takes takes)
  obtain ⟨closure, hm, hp⟩ : .made body ∈ allPassed (earlier.flatMap b.graph.code ++ p) := by
    rw [allPassed_append]
    exact made.imp_left fun hm => passed first hm
  exact ⟨earlier, n, later, p, call, q, closure, rfl, code, takes, hm,
    Instruction.closes_of_passes hp⟩

end Builder

namespace Lowering

variable {host : Host} {types : String → Option Binding} {options : Options} {root : Node}
  {g : Graph}

/-- What lies behind the entry and the exit: a path comes to the exit with a value to return. -/
def rootLabels (n : BlockName) : Set Milestone := if n = .exit then {.returned} else ∅

lemma start_charted (options : Options) (root : Node) :
    (start options root).Charted rootLabels ∅ := by
  have code : ∀ n, (start options root).graph.code n = [] := by
    rintro (_ | _ | n) <;> rfl
  have names : (start options root).graph.names = [.enter, .exit] := rfl
  refine ⟨by simp [names], ?_, ?_, fun n p i q h => ?_, fun body hb => ?_, ?_⟩
  · intro n hn
    rcases List.mem_pair.1 hn with rfl | rfl <;> simp [Builder.Knows, BlockName.rank]
  · intro e he
    cases he
  · simp [code] at h
  · exact absurd hb (Nat.lt_irrefl 0)
  · rintro n ⟨⟩
    exact ⟨.head _, Set.empty_subset _⟩

/-- The graph of a tree has a chart, with nothing behind the entry and a return behind the exit. -/
lemma continues_of_build (h : build host types options root = .ok g) : ∃ b before, b.graph = g ∧
    Builder.Continues (start options root) rootLabels b before ∅ := by
  obtain ⟨v, c, t, b, hc, hl, rfl, -⟩ := run_lays (run_of_build h)
  have orderly : c.Orderly :=
    ((Plan.orderly_related _).everywhere root).value ⟨Set.univ, subset_rfl⟩ hc
  have lays : (Code.seq (.seq c (.emit (.ret v) (plain_ret v))) (.jump .return)).Lays .enter
      rootTargets (start options root) b := by
    cases hl .enter with
    | seq hc hr =>
      cases hr with
      | seq he hj => exact .seq (.seq hc he) hj
  have regular : (start options root).Regular := by
    rintro (_ | _ | n) <;> exact .nil
  have enter : (start options root).Leads rootLabels ∅ .enter :=
    ⟨by simp [Builder.Knows, BlockName.rank], by simp [rootLabels]⟩
  have exit : (start options root).Jumps rootLabels ∅ rootTargets := by
    intro kind n hn
    cases kind <;> cases hn
    exact ⟨by simp [Builder.Knows, BlockName.rank], by simp [rootLabels, JumpKind.passes]⟩
  have chart := start_charted options root
  obtain ⟨before, drawn⟩ := orderly.returns.drawn lays ⟨chart, regular⟩ enter exit
  exact ⟨b, before, rfl, drawn⟩

/-- A body that is named belongs to one block literal and one call: the graph of the entry and the
exit holds none, and what is added is fair. -/
lemma counts_of_namesBody {b : Builder} (fair : (start options root).Fair b)
    (names : b.graph.NamesBody body) : b.graph.count (Instruction.closes body) = 1 ∧
      b.graph.count (Instruction.takes body) = 1 := by
  obtain ⟨literals, calls⟩ : (start options root).literals body = 0 ∧
      (start options root).calls body = 0 := ⟨rfl, rfl⟩
  rcases fair body with ⟨closes, takes⟩ | ⟨-, closes, takes⟩
  · obtain ⟨block, hb, i, hi, hc | ht⟩ := names
    · exact absurd (closes.trans literals) ((Graph.count_pos _ _).2 ⟨block, hb, i, hi, hc⟩).ne'
    · exact absurd (takes.trans calls) ((Graph.count_pos _ _).2 ⟨block, hb, i, hi, ht⟩).ne'
  · rw [literals] at closes
    rw [calls] at takes
    exact ⟨closes, takes⟩

lemma namesBody_of_mem {b : Builder} (h : body ∈ b.bodies) : b.graph.NamesBody body := by
  obtain ⟨block, hb, i, hi, hc⟩ := (Graph.count_pos _ _).1 h
  exact ⟨block, hb, i, hi, Or.inl hc⟩

/-- **Returns and block literals keep their protocol**, in the graph of every tree. -/
theorem keeps_protocol (h : build host types options root = .ok g) : ∃ after, g.KeepsProtocol after := by
  obtain ⟨b, before, rfl, drawn⟩ := continues_of_build h
  have known : ∀ n ∈ [BlockName.enter, .exit], (start options root).Knows n := by
    simp [Builder.Knows, BlockName.rank]
  have enter : before .enter = ∅ := drawn.later.same .enter (known _ (.head _))
  have exit : before .exit = {.returned} := drawn.later.same .exit (known _ (.tail _ (.head _)))
  refine ⟨BlockName.previous, ?_, ?_, ?_, ?_, fun body => counts_of_namesBody drawn.fair, ?_, ?_⟩
  · intro n p v q code
    obtain ⟨j, q', rfl, hj⟩ := (drawn.tracked.regular n).followed code rfl rfl
    cases hj
    exact ⟨_, q', rfl⟩
  · intro n p dest callee args body q code
    obtain ⟨j, q', rfl, hj⟩ := (drawn.tracked.regular n).followed code rfl rfl
    cases hj
    exact ⟨q', rfl⟩
  · intro n p v q code
    obtain ⟨j, q', rfl, hj⟩ := (drawn.tracked.regular n).followed code rfl rfl
    cases hj with
    | resume _ mem => exact ⟨_, q', namesBody_of_mem mem, rfl⟩
  · intro n p x y q code
    obtain ⟨j, p', rfl, hj⟩ := (drawn.tracked.regular n).preceded code
    cases hj with
    | send dest callee args => exact ⟨rfl, p', Or.inr ⟨dest, callee, args, rfl⟩⟩
    | resume v => exact ⟨rfl, p', Or.inl ⟨v, rfl⟩⟩
  · intro body ns names path
    refine drawn.tracked.chart.entered enter ?_ path
    show 0 < b.graph.count (Instruction.closes body)
    rw [(counts_of_namesBody drawn.fair names).1]
    exact Nat.one_pos
  · intro ns path
    have passed := drawn.tracked.chart.passed path
    rw [enter, exit, Set.empty_union, Set.singleton_subset_iff] at passed
    obtain ⟨i, hi, hr⟩ := passed
    obtain ⟨v, rfl⟩ := Instruction.eq_ret_of_passes hr
    obtain ⟨n, hn, hi⟩ := List.mem_flatMap.1 hi
    exact ⟨n, hn, v, hi⟩

/-- A loop over the elements of a list that does nothing with them. -/
def skippedEach : Node :=
  .mk {} (.program [.mk {} (.forIn (.mk { binding := some ⟨"x", .localVar⟩ } (.varTarget "x"))
    (.mk { binding := some ⟨"xs", .localVar⟩ } (.varRef "xs")) [.mk {} (.nextWith [])])])

/-- Where `next` leads, a run of the body ends, and the branch behind it leads to the body or behind
the call. -/
theorem keeps_protocol_skippedEach : ∃ g, build .generous builtinTypes {} skippedEach = .ok g ∧
    g.Path [.enter, .numbered 2] (.numbered 3) ∧
    g.code (.numbered 3) = [.assign (.temporary 5) (.constant .nil), .resume (.temporary 5)] ++
      .branch none (.numbered 2) (.numbered 1) :: [] ∧
    ∃ after, after (.numbered 2) = .numbered 1 ∧ g.KeepsProtocol after := by
  obtain ⟨g, h, enters, leaves, code⟩ : ∃ g, build .generous builtinTypes {} skippedEach = .ok g ∧
      ⟨.enter, .numbered 2⟩ ∈ g.edges ∧ ⟨.numbered 2, .numbered 3⟩ ∈ g.edges ∧
      g.code (.numbered 3) = [.assign (.temporary 5) (.constant .nil), .resume (.temporary 5)] ++
        .branch none (.numbered 2) (.numbered 1) :: [] :=
    exists_of_build (by decide +kernel)
  obtain ⟨after, protocol⟩ := keeps_protocol h
  have follows := (protocol.branches _ _ _ _ _ code).1
  exact ⟨g, h, (Graph.Path.start.step enters).step leaves, code, after, follows.symm, protocol⟩

end Lowering

end ControlFlow
