import ControlFlow.Proofs.Code.Extends
import ControlFlow.Proofs.Code.Milestones
import ControlFlow.Proofs.Code.Orderly
/-!
# Charts of orderly code

While orderly code is laid out, a chart of the graph is drawn along with it. Every construct keeps
the labels of the blocks that were there before; its own blocks are labelled with what lay behind
its start, the body of a block literal with the block literal and its call as well. All demands of
instructions are met, and each block literal that is added is taken by one call.

The main result is `Code.Orderly.drawn`.
-/

namespace ControlFlow

open Instruction (Demands)

variable {T : JumpTargets} {l : BlockName}

namespace Builder

variable {b₀ b b' : Builder} {before₀ before before' : BlockName → Set Milestone}
  {now now' : Set Milestone} {n : BlockName} {i j : Instruction}

/-- The code of all blocks is regular. -/
def Regular (b : Builder) : Prop := ∀ n, Instruction.Regular b.bodies (b.graph.code n)

/-- What has been added is fair: the body of each new block literal starts at a new block, and one
call takes it. -/
def Fair (b b' : Builder) : Prop := ∀ body,
  (b'.literals body = b.literals body ∧ b'.calls body = b.calls body) ∨
  (body ∈ b.since b' ∧ b'.literals body = b.literals body + 1 ∧ b'.calls body = b.calls body + 1)

lemma Fair.of_count
    (h : ∀ body, b'.literals body = b.literals body ∧ b'.calls body = b.calls body) : b.Fair b' :=
  fun body => Or.inl (h body)

lemma Fair.still (count : ∀ p, b'.graph.count p = b.graph.count p) : b.Fair b' :=
  .of_count fun _ => ⟨count _, count _⟩

lemma Fair.trans (h : b₀.Fair b) (h' : b.Fair b') (next : b₀.nextBlock ≤ b.nextBlock)
    (next' : b.nextBlock ≤ b'.nextBlock) : b₀.Fair b' := by
  intro body
  rcases h body with ⟨hc, ht⟩ | ⟨new, hc, ht⟩
  · rw [← hc, ← ht]
    exact (h' body).imp_right fun ⟨new', rest⟩ => ⟨⟨new'.1, fun hk => new'.2 (hk.mono next)⟩, rest⟩
  · rcases h' body with ⟨hc', ht'⟩ | ⟨new', -⟩
    · exact Or.inr ⟨⟨new.1.mono next', new.2⟩, hc'.trans hc, ht'.trans ht⟩
    · exact absurd new.1 new'.2

lemma Fair.bodies_subset (h : b.Fair b') : b.bodies ⊆ b'.bodies := by
  intro body hb
  have hb : 0 < b.literals body := hb
  show 0 < b'.literals body
  rcases h body with ⟨hc, -⟩ | ⟨-, hc, -⟩ <;> omega

lemma Regular.still (h : b.Regular) (code : ∀ n, b'.graph.code n = b.graph.code n)
    (count : ∀ p, b'.graph.count p = b.graph.count p) : b'.Regular := by
  intro n
  rw [code]
  refine (h n).mono fun body hb => ?_
  show 0 < b'.graph.count (Instruction.closes body)
  rw [count]
  exact hb

/-- The graph is charted, and the code of all blocks is regular. -/
structure Tracked (b : Builder) (before : BlockName → Set Milestone) (now : Set Milestone) :
    Prop where
  chart : b.Charted before now
  regular : b.Regular

/-- The builder has gone on from an earlier one, and so has its chart. -/
structure Continues (b₀ : Builder) (before₀ : BlockName → Set Milestone) (b : Builder)
    (before : BlockName → Set Milestone) (now : Set Milestone) : Prop where
  later : b₀.Later before₀ b before
  fair : b₀.Fair b
  tracked : b.Tracked before now

/-- The builder has gone on from an earlier one, with some chart. -/
def Drawn (b₀ : Builder) (before₀ : BlockName → Set Milestone) (b : Builder)
    (now : Set Milestone) : Prop :=
  ∃ before, Continues b₀ before₀ b before now

lemma Continues.trans (h : Continues b₀ before₀ b before now)
    (h' : Continues b before b' before' now') : Continues b₀ before₀ b' before' now' :=
  ⟨h.later.trans h'.later, h.fair.trans h'.fair h.later.next h'.later.next, h'.tracked⟩

/-- From where a builder has got to, a thread goes on. -/
lemma Continues.andThen (h : Continues b₀ before₀ b before now) (r : Drawn b before b' now') :
    Drawn b₀ before₀ b' now' := by
  obtain ⟨before', c⟩ := r
  exact ⟨before', h.trans c⟩

/-! ## Single steps -/

lemma Tracked.emit (h : b.Tracked before now) (free : i.isFree = true) : (b.emit i).Regular := by
  obtain ⟨n, hn⟩ := b.exists_at_opened
  intro m
  have old := (h.regular m).mono (h.chart.bodies_subset_emit (i := i))
  rw [h.chart.code_emit_opened hn]
  split
  · exact .free old free
  · exact old

lemma at_emit (hn : b.opened.At n) (plain : i.isTerminator = false) : (b.emit i).At n := by
  rw [← emit_opened, emit_eq hn, At, plain]
  rfl

namespace Tracked

variable (h : b.Tracked before now)

include h

/-- A free instruction that makes no block literal. -/
lemma free (free : i.isFree = true) (other : ∀ body, i.closes body = false)
    (targets : ∀ t ∈ i.targets, b.Leads before now t) : Drawn b before (b.emit i) now := by
  have takes := Instruction.takes_eq_false free
  have awaits : i.awaits ⊆ now := by
    rw [Instruction.awaits_eq_empty takes]
    exact Set.empty_subset _
  obtain ⟨before', later, chart⟩ := h.chart.emit awaits (fun body hb => by simp [other] at hb)
    fun t ht => (targets t ht).mono Set.subset_union_left
  rw [Instruction.passes_eq_empty free other, Set.union_empty] at chart
  refine ⟨before', later, .of_count fun body => ?_, chart, h.emit free⟩
  simp [h.chart.count_emit, other, takes]

/-- An instruction and what it demands. -/
lemma demand (hij : Demands b.bodies i j) (awaits : i.awaits ⊆ now)
    (targets : ∀ t ∈ j.targets, b.Leads before (now ∪ i.passes) t) (now' : Set Milestone) :
    ∃ before', b.Later before ((b.emit i).emit j) before' ∧
      ((b.emit i).emit j).Tracked before' now' ∧ ∀ body,
        ((b.emit i).emit j).literals body = b.literals body ∧
        ((b.emit i).emit j).calls body = b.calls body + if i.takes body then 1 else 0 := by
  have first : i.targets = [] ∧ ∀ body, i.closes body = false := by
    cases hij <;> exact ⟨rfl, fun _ => rfl⟩
  have second : j.passes = ∅ ∧ j.awaits = ∅ ∧
      ∀ body, j.closes body = false ∧ j.takes body = false := by
    cases hij <;> exact ⟨rfl, rfl, fun _ => ⟨rfl, rfl⟩⟩
  obtain ⟨before₁, later₁, chart₁⟩ := h.chart.emit awaits (fun body hb => by simp [first] at hb)
    fun t ht => by simp [first] at ht
  obtain ⟨before₂, later₂, chart₂⟩ := chart₁.emit (i := j) (by simp [second])
    (fun body hb => by simp [second] at hb)
    fun t ht => ((targets t ht).later later₁).mono Set.subset_union_left
  refine ⟨before₂, later₁.trans later₂, ⟨chart₂.ended (current_emit _ hij.ends), fun m => ?_⟩,
    fun body => ?_⟩
  · -- both instructions go to the block that is current or opened now
    obtain ⟨n, hn⟩ := b.exists_at_opened
    have mono : b.bodies ⊆ ((b.emit i).emit j).bodies :=
      h.chart.bodies_subset_emit.trans chart₁.bodies_subset_emit
    have old := (h.regular m).mono mono
    rw [chart₁.code_emit (at_emit hn hij.plain), h.chart.code_emit_opened hn]
    split
    · rw [List.append_assoc]
      exact .demand old (hij.mono mono)
    · exact old
  · simp [h.chart.count_emit, chart₁.count_emit, first, second]

end Tracked

/-! ## Threads

What is known about blocks is said at the start of a thread, where their names are known. -/

variable {body after : BlockName} {b₁ b₂ b₃ : Builder} {v : Binding}

namespace Drawn

lemma refl (h : b.Tracked before now) : Drawn b before b now :=
  ⟨before, .refl, .of_count fun _ => ⟨rfl, rfl⟩, h⟩

variable (r : Drawn b₀ before₀ b now)

include r

/-- A thread goes on with another one. -/
lemma trans
    (h : ∀ before, b₀.Later before₀ b before → b.Tracked before now → Drawn b before b' now') :
    Drawn b₀ before₀ b' now' := by
  obtain ⟨before, c⟩ := r
  obtain ⟨before', c'⟩ := h before c.later c.tracked
  exact ⟨before', c.trans c'⟩

lemma bodies_subset : b₀.bodies ⊆ b.bodies := by
  obtain ⟨before, c⟩ := r
  exact c.fair.bodies_subset

/-- The graph and the counter of blocks stay the same. -/
lemma stand (graph : b'.graph = b.graph) (next : b'.nextBlock = b.nextBlock)
    (h : ∀ before, b₀.Later before₀ b before → b.Charted before now → b'.Charted before now') :
    Drawn b₀ before₀ b' now' := by
  refine r.trans fun before later t => ⟨before, ⟨next.ge, fun _ _ => rfl⟩, ?_, ?_, ?_⟩
  · exact .still (by simp [graph])
  · exact h before later t.chart
  · exact t.regular.still (by simp [graph]) (by simp [graph])

lemma note (e : Event) : Drawn b₀ before₀ (b.note e) now :=
  r.stand rfl rfl fun _ _ chart => chart.quiet rfl rfl rfl

lemma allocTemp : Drawn b₀ before₀ b.allocTemp.2 now :=
  r.stand rfl rfl fun _ _ chart => chart.quiet rfl rfl rfl

lemma suspend : Drawn b₀ before₀ b.suspend.2 now :=
  r.stand rfl rfl fun _ _ chart => chart.stand rfl rfl fun n hn => by cases hn

/-- Anything may be claimed where no block is current. -/
lemma ended (none : b.current = none) : Drawn b₀ before₀ b now' :=
  r.stand rfl rfl fun _ _ chart => chart.ended none

lemma free (free : i.isFree = true) (other : ∀ body, i.closes body = false)
    (targets : ∀ t ∈ i.targets, b₀.Leads before₀ now t) : Drawn b₀ before₀ (b.emit i) now :=
  r.trans fun _ later h => h.free free other fun t ht => (targets t ht).later later

lemma emit (quiet : i.isQuiet = true) : Drawn b₀ before₀ (b.emit i) now := by
  have facts : i.isFree = true ∧ i.targets = [] ∧ ∀ body, i.closes body = false := by
    cases i with
    | send dest callee args block => cases block <;> simp_all [Instruction.isQuiet,
        Instruction.isFree, Instruction.targets, Instruction.closes]
    | assign => exact ⟨rfl, rfl, fun _ => rfl⟩
    | _ => cases quiet
  exact r.free facts.1 facts.2.2 (by simp [facts])

lemma jump (hn : b₀.Leads before₀ now n) : Drawn b₀ before₀ (b.jump n) now :=
  r.free rfl (fun _ => rfl) (by simpa [Instruction.targets] using hn)

lemma branch {c : Binding} {x y : BlockName} (hx : b₀.Leads before₀ now x)
    (hy : b₀.Leads before₀ now y) : Drawn b₀ before₀ (b.branch (some c) x y) now :=
  r.free rfl (fun _ => rfl) (by simpa [Instruction.targets] using ⟨hx, hy⟩)

lemma branchOn (c : Binding) (on : Bool) {x y : BlockName} (hx : b₀.Leads before₀ now x)
    (hy : b₀.Leads before₀ now y) : Drawn b₀ before₀ (b.branchOn c on x y) now := by
  cases on with
  | true => exact r.branch hx hy
  | false => exact r.branch hy hx

/-- An instruction that is no call, and what it demands. -/
lemma demand (hij : Demands b.bodies i j) (other : ∀ body, i.takes body = false)
    (targets : ∀ t ∈ j.targets, b₀.Leads before₀ (now ∪ i.passes) t) :
    Drawn b₀ before₀ ((b.emit i).emit j) now := by
  refine r.trans fun before later h => ?_
  obtain ⟨before', later', tracked, count⟩ := h.demand hij
    (by simp [Instruction.awaits_eq_empty other]) (fun t ht => (targets t ht).later later) now
  exact ⟨before', later', .of_count fun body => by simp [count, other], tracked⟩

/-- A block is begun whose label is what lies behind here. -/
lemma startBlock (hn : b₀.Meets before₀ now n) : Drawn b₀ before₀ (b.startBlock n) now := by
  have begun : ∀ {b : Builder}, b.current = none → Drawn b₀ before₀ b now →
      Drawn b₀ before₀ (b.startBlock n) now := by
    intro b none r
    refine r.trans fun before later h => ?_
    have meets := hn.later later
    refine ⟨before, ?_, ?_, h.chart.begun none meets.knows meets.label.ge, ?_⟩
    all_goals rw [startBlock_eq none]
    · exact ⟨le_rfl, fun _ _ => rfl⟩
    · exact .still (by simp)
    · exact h.regular.still (by simp) (by simp)
  cases hb : b.current with
  | none => exact begun hb r
  | some m =>
    rw [startBlock_of_at hb]
    exact begun (b.current_jump n) (r.jump hn.leads)

lemma endRun (mem : body ∈ b.bodies) (previous : after = body.previous)
    (hb : b₀.Leads before₀ now body) (ha : b₀.Leads before₀ now after) :
    Drawn b₀ before₀ (b.endRun v body after) now := by
  rw [previous] at ha ⊢
  refine r.demand (.resume v mem) (fun _ => rfl) fun t ht => ?_
  rw [show (Instruction.resume v).passes = ∅ from rfl, Set.union_empty]
  rcases List.mem_pair.1 ht with rfl | rfl
  · exact hb
  · exact ha

lemma land (none : b.current = none) {landing : BlockName} (hl : b₀.Meets before₀ now landing)
    (mem : body ∈ b₀.bodies) (previous : after = body.previous) (hb : b₀.Leads before₀ now body)
    (ha : b₀.Leads before₀ now after) : Drawn b₀ before₀ (b.land landing body after) now' := by
  unfold Builder.land
  split
  · have r := (r.startBlock hl).allocTemp.emit
      (i := .assign (b.startBlock landing).allocTemp.1 (.constant .nil)) rfl
    exact (r.endRun (r.bodies_subset mem) previous hb ha).ended (current_endRun ..)
  · exact r.ended none

end Drawn

/-- The thread that starts where a builder has got to. -/
lemma Continues.here (h : Continues b₀ before₀ b before now) : Drawn b before b now :=
  .refl h.tracked

/-! ## New blocks -/

namespace Tracked

variable (h : b.Tracked before now)

include h

/-- A name is given out for a block with a given label. -/
lemma named (s : Set Milestone) (b₁ : Builder) (next : b₁.nextBlock = b.nextBlock + 1)
    (current : b₁.current = b.current)
    (graph : b₁.graph = b.graph ∨ b₁.graph = b.graph.addBlock b.fresh) :
    ∃ before₁, Continues b before b₁ before₁ now ∧ b₁.Meets before₁ s b.fresh := by
  have code : ∀ n, b₁.graph.code n = b.graph.code n := by rcases graph with hg | hg <;> simp [hg]
  have count : ∀ p, b₁.graph.count p = b.graph.count p := by rcases graph with hg | hg <;> simp [hg]
  refine ⟨Function.update before b.fresh s, ⟨⟨by omega, fun n hn => ?_⟩, ?_, ?_, ?_⟩, ?_, ?_⟩
  · exact Function.update_of_ne hn.ne_fresh _ _
  · exact .still count
  · exact h.chart.named_fresh s next graph (Or.inl current)
  · exact h.regular.still code count
  · simp [Knows, next, fresh, BlockName.rank]
  · exact Function.update_self ..

/-- A block is made. -/
lemma making (s : Set Milestone) :
    ∃ before₁, Continues b before b.created before₁ now ∧ b.created.Meets before₁ s b.fresh :=
  h.named s b.created rfl rfl (Or.inr rfl)

/-- Two blocks are made, with what lies behind here as their labels. -/
lemma making_two :
    ∃ before₁, Continues b before b.created.created before₁ now ∧
      b.created.created.Meets before₁ now b.fresh ∧
      b.created.created.Meets before₁ now b.created.fresh := by
  obtain ⟨before₁, c₁, first⟩ := h.making now
  obtain ⟨before₂, c₂, second⟩ := c₁.tracked.making now
  exact ⟨before₂, c₁.trans c₂, first.later c₂.later, second⟩

/-- Three blocks are made, with what lies behind here as their labels. -/
lemma making_three :
    ∃ before₁, Continues b before b.created.created.created before₁ now ∧
      b.created.created.created.Meets before₁ now b.fresh ∧
      b.created.created.created.Meets before₁ now b.created.fresh ∧
      b.created.created.created.Meets before₁ now b.created.created.fresh := by
  obtain ⟨before₁, c₁, first, second⟩ := h.making_two
  obtain ⟨before₂, c₂, third⟩ := c₁.tracked.making now
  exact ⟨before₂, c₁.trans c₂, first.later c₂.later, second.later c₂.later, third⟩

end Tracked

/-! ## Code -/

/-- What is laid out goes along with any chart in which it may lead to its label and to the targets
of jumps. -/
def Draws (l : BlockName) (T : JumpTargets) (b b' : Builder) : Prop :=
  ∀ ⦃before now⦄, b.Tracked before now → b.Leads before now l → b.Jumps before now T →
    Drawn b before b' now

lemma Drawn.code (r : Drawn b₀ before₀ b now) (h : Draws l T b b') (hl : b₀.Leads before₀ now l)
    (hT : b₀.Jumps before₀ now T) : Drawn b₀ before₀ b' now :=
  r.trans fun _ later tracked => h tracked (hl.later later) (hT.later later)

/-- The tests of a `select` are left open while its body is laid out. -/
lemma Draws.select (ht : Draws b.fresh T b.created b₁)
    (hb : Draws l T (b₁.suspend.2.startBlock b.fresh) b₂)
    (grown : Extends Set.univ Set.univ b₁.suspend.2 (b₂.jump l)) :
    Draws l T b ((b₂.jump l).resume b₁.suspend.1) := by
  intro before now h hl hT
  obtain ⟨before₁, start, body⟩ := h.making now
  have hT := hT.later start.later
  obtain ⟨before₂, tests⟩ := start.here.code ht body.leads hT
  refine start.andThen (tests.andThen ?_)
  have r : Drawn b₁ before₂ (b₂.jump l) now := by
    have r := tests.here.suspend.startBlock (body.later tests.later)
    have hl := (hl.later start.later).later tests.later
    exact (r.code hb hl (hT.later tests.later)).jump hl
  refine r.stand rfl rfl fun before₃ later chart => chart.stand rfl rfl fun n hn => ?_
  -- the block that was left open has lost nothing
  obtain ⟨mem, behind⟩ := tests.tracked.chart.current n hn
  refine ⟨grown.names n mem, behind.trans ?_⟩
  rw [later.same n (tests.tracked.chart.known n mem)]
  exact Set.union_subset_union_right _ (Instruction.allPassed_mono (grown.grows n))

/-- A call is added to a block literal, with code between the two and behind. -/
lemma Fair.around (new : ¬ b.Knows body) (known : b₁.Knows body)
    (next₁ : b.nextBlock ≤ b₁.nextBlock) (next₂ : b₁.nextBlock ≤ b₂.nextBlock)
    (next₃ : b₂.nextBlock ≤ b₃.nextBlock) (next₄ : b₃.nextBlock ≤ b'.nextBlock)
    (closure : ∀ name, b₁.literals name = b.literals name + (if body = name then 1 else 0) ∧
      b₁.calls name = b.calls name)
    (request : b₁.Fair b₂)
    (call : ∀ name, b₃.literals name = b₂.literals name ∧
      b₃.calls name = b₂.calls name + if body = name then 1 else 0)
    (rest : b₃.Fair b') : b.Fair b' := by
  intro name
  obtain ⟨hc₁, ht₁⟩ := closure name
  obtain ⟨hc₃, ht₃⟩ := call name
  by_cases h : body = name
  · -- the block literal itself: it is known by the time of the request, so nothing else names it
    subst h
    rw [if_pos rfl] at hc₁ ht₃
    have hk₃ : b₃.Knows body := known.mono (next₂.trans next₃)
    obtain ⟨hc₂, ht₂⟩ := (request body).resolve_right fun h => h.1.2 known
    obtain ⟨hc₄, ht₄⟩ := (rest body).resolve_right fun h => h.1.2 hk₃
    exact Or.inr ⟨⟨hk₃.mono next₄, new⟩, by omega, by omega⟩
  · rw [if_neg h] at hc₁ ht₃
    rcases request name with ⟨hc₂, ht₂⟩ | ⟨new₂, hc₂, ht₂⟩
    · rcases rest name with ⟨hc₄, ht₄⟩ | ⟨new₄, hc₄, ht₄⟩
      · exact Or.inl ⟨by omega, by omega⟩
      · refine Or.inr ⟨⟨new₄.1, fun hk => new₄.2 (hk.mono ?_)⟩, by omega, by omega⟩
        omega
    · have hk₃ : b₃.Knows name := new₂.1.mono next₃
      obtain ⟨hc₄, ht₄⟩ := (rest name).resolve_right fun h => h.1.2 hk₃
      exact Or.inr ⟨⟨hk₃.mono next₄, fun hk => new₂.2 (hk.mono next₁)⟩, by omega, by omega⟩

/-- What follows a call with a block literal: the body, the ends of its runs, the block behind. -/
lemma drawn_body {b₄ : Builder} {A : Set Milestone} (tracked : b₃.Tracked before A)
    (mem : body ∈ b₃.bodies) (previous : after = body.previous) (le : now ⊆ A)
    (hb : b₃.Meets before A body) (ha : b₃.Meets before now after) (hT : b₃.Jumps before now T)
    (h : Draws body (T.inLoop after b₃.fresh body)
      ((b₃.reserveBlock.2.note (.targetsNow (T.inLoop after b₃.fresh body))).startBlock body) b₄) :
    Drawn b₃ before ((((b₄.endRun v body after).note (.targetsRestored T)).land b₃.fresh body
      after).startBlock after) now := by
  obtain ⟨before₁, start, landing⟩ := tracked.named A b₃.reserveBlock.2 rfl rfl (Or.inl rfl)
  have hb := hb.later start.later
  have ha := ha.later start.later
  have haA := ha.leads.mono le
  have hT := ((hT.later start.later).mono le).inLoop haA landing.leads hb.leads
  refine start.andThen ?_
  have r := ((start.here.note _).startBlock hb).code h hb.leads hT
  have mem : body ∈ b₃.reserveBlock.2.bodies := mem
  have r := (r.endRun (v := v) (r.bodies_subset mem) previous hb.leads haA).note
    (.targetsRestored T)
  have none : ((b₄.endRun v body after).note (.targetsRestored T)).current = none :=
    current_endRun b₄ v body after
  exact (r.land none landing mem previous hb.leads haA).startBlock ha

/-- A block literal is made. The block behind its call is labelled with what lies behind here, and
its body with the block literal and the call as well. -/
lemma Tracked.literal (h : b.Tracked before now) (h₁ : after = b.fresh)
    (h₂ : b₁ = b.created.allocTemp.2) (h₃ : body = b₁.fresh) (closure : Binding)
    (params : List Parameter) (h₄ : b₂ = b₁.created.emit (.closure closure params body)) :
    ∃ before₂, b.Later before b₂ before₂ ∧ b₂.Tracked before₂ (now ∪ {.made body}) ∧
      b₂.Meets before₂ now after ∧
      b₂.Meets before₂ (now ∪ {.made body} ∪ {.called body}) body ∧
      ∀ name, b₂.literals name = b.literals name + (if body = name then 1 else 0) ∧
        b₂.calls name = b.calls name := by
  obtain ⟨before₁, c₁, ha⟩ := h.making now
  rw [← h₁] at ha
  have later₁ : b.created.Later before₁ b₁ before₁ := h₂ ▸ ⟨le_rfl, fun _ _ => rfl⟩
  have tracked₁ : b₁.Tracked before₁ now :=
    h₂ ▸ ⟨c₁.tracked.chart.quiet rfl rfl rfl, c₁.tracked.regular⟩
  obtain ⟨before₂, c₂, hb⟩ := tracked₁.making (now ∪ {.made body} ∪ {.called body})
  rw [← h₃] at hb
  have made : ∀ name, (Instruction.closure closure params body).closes name = true →
      b₁.created.Knows name ∧ .called name ∈ before₂ name := by
    intro name h
    obtain rfl : body = name := by simpa [Instruction.closes] using h
    exact ⟨hb.knows, by simp [hb.label]⟩
  obtain ⟨before₃, later₃, chart₃⟩ := c₂.tracked.chart.emit (Set.empty_subset _) made
    fun t ht => by cases ht
  have regular₃ := c₂.tracked.emit (i := .closure closure params body) rfl
  have counts : ∀ p, (b₁.created.emit (.closure closure params body)).graph.count p =
      b.graph.count p + if p (.closure closure params body) then 1 else 0 := by
    intro p
    rw [c₂.tracked.chart.count_emit, graph_created, Graph.count_addBlock, h₂]
    exact congrArg (· + _) (b.graph.count_addBlock p b.fresh)
  rw [← h₄] at later₃ chart₃ regular₃ counts
  have later := later₁.trans (c₂.later.trans later₃)
  refine ⟨before₃, c₁.later.trans later, ⟨chart₃, regular₃⟩, ha.later later, hb.later later₃, ?_⟩
  intro name
  rw [literals, calls, counts, counts]
  simp [Instruction.closes, Instruction.takes]

/-- A call with a block literal. -/
lemma Draws.blockCall {params : List Parameter} {closure : Binding} {dest : Option Binding}
    {callee : Callee} {args : Arguments} {b₄ : Builder} (h₁ : after = b.fresh)
    (h₂ : b₁ = b.created.allocTemp.2) (h₃ : body = b₁.fresh)
    (hr : Draws after T (b₁.created.emit (.closure closure params body)) b₂)
    (h₄ : b₃ = (b₂.emit (.send dest callee args (.body body))).branch none body after)
    (hb : Draws body (T.inLoop after b₃.fresh body)
      ((b₃.reserveBlock.2.note (.targetsNow (T.inLoop after b₃.fresh body))).startBlock body) b₄) :
    Draws l T b ((((b₄.endRun v body after).note (.targetsRestored T)).land b₃.fresh body
      after).startBlock after) := by
  intro before now h _ hT
  have previous : after = body.previous := by
    rw [h₁, h₃, h₂]
    rfl
  generalize hb₁ : b₁.created.emit (.closure closure params body) = made at hr
  obtain ⟨before₁, later₁, tracked₁, ha, hbody, count₁⟩ :=
    h.literal h₁ h₂ h₃ closure params hb₁.symm
  have known := hbody.knows
  have new : ¬ b.Knows body := by
    rw [h₃, h₂]
    exact fun hk => Knows.ne_fresh (hk.mono (Nat.le_succ _)) rfl
  -- the request
  obtain ⟨before₂, c₂⟩ := hr tracked₁ (ha.leads.mono Set.subset_union_left)
    ((hT.later later₁).mono Set.subset_union_left)
  have ha := ha.later c₂.later
  have hbody := hbody.later c₂.later
  have mem : body ∈ b₂.bodies := by
    refine c₂.fair.bodies_subset ?_
    show 0 < made.literals body
    rw [(count₁ body).1, if_pos rfl]
    exact Nat.succ_pos _
  -- the call, and the branch that it demands
  have targets : ∀ t ∈ (Instruction.branch none body body.previous).targets,
      b₂.Leads before₂ (now ∪ {.made body} ∪ {.called body}) t := by
    intro t ht
    rcases List.mem_pair.1 ht with rfl | rfl
    · exact hbody.leads
    · rw [← previous]
      exact ha.leads.mono (Set.subset_union_left.trans Set.subset_union_left)
  obtain ⟨before₃, later₃, tracked₃, count₃⟩ := c₂.tracked.demand
    (.send dest callee args mem) Set.subset_union_right targets
    (now ∪ {.made body} ∪ {.called body})
  rw [previous] at h₄
  rw [← Builder.branch, ← h₄] at later₃ tracked₃ count₃
  have mem : body ∈ b₃.bodies := by
    show 0 < b₃.literals body
    rw [(count₃ body).1]
    exact mem
  -- the body and what follows it
  obtain ⟨before₄, c₄⟩ := drawn_body (v := v) tracked₃ mem previous
    (Set.subset_union_left.trans Set.subset_union_left) (hbody.later later₃) (ha.later later₃)
    (hT.later (later₁.trans (c₂.later.trans later₃))) hb
  refine ⟨before₄, later₁.trans (c₂.later.trans (later₃.trans c₄.later)), ?_, c₄.tracked⟩
  refine .around new known later₁.next c₂.later.next later₃.next c₄.later.next count₁ c₂.fair
    (fun name => ?_) c₄.fair
  simpa [Instruction.takes] using count₃ name

end Builder

open Builder

/-- A copy of a clause for jumps of some kind has behind it what those jumps have. -/
lemma Copies.draws {inner inner' : JumpTargets} {kinds : List JumpKind} {b b' : Builder}
    {cs : List Copy} (h : Copies T kinds inner b cs inner' b')
    (hc : ∀ c ∈ cs, Draws c.landing T c.start c.done) {before : BlockName → Set Milestone}
    {now : Set Milestone} (tracked : b.Tracked before now) (ended : b.current = none)
    (hT : b.Jumps before now T) (hi : b.Jumps before now inner) :
    ∃ before', Continues b before b' before' now ∧ b'.Jumps before' now inner' ∧
      b'.current = none := by
  induction h generalizing before with
  | @nil inner b =>
    obtain ⟨before', c⟩ := Drawn.refl tracked
    exact ⟨before', c, hi.later c.later, ended⟩
  | inactive _ _ ih => exact ih hc tracked ended hT hi
  | @active kind kinds inner inner' b done b' cs target ht rest ih =>
    obtain ⟨before₁, start, landing⟩ := tracked.making (now ∪ kind.passes)
    have hT₁ := hT.later start.later
    have copy : Drawn b.created before₁ (done.jump target) now := by
      have r := ((start.here.ended ended).note (.redirected kind b.fresh)).startBlock landing
      have r := r.code (hc ⟨kind, target, b, done⟩ (.head _)) landing.leads
        (hT₁.mono Set.subset_union_left)
      exact (r.jump (hT₁ kind target ht)).ended (current_jump ..)
    obtain ⟨before₂, copy⟩ := copy
    have landing := landing.later copy.later
    have copy := start.trans copy
    have inner₂ : (done.jump target).Jumps before₂ now (inner.set kind b.fresh) := by
      intro kind' n hn
      rw [JumpTargets.get?_set] at hn
      split at hn
      · rename_i hk
        obtain rfl : b.fresh = n := Option.some.inj hn
        exact hk ▸ landing.leads
      · exact (hi kind' n hn).later copy.later
    obtain ⟨before₃, others, inner₃, ended₃⟩ := ih (fun c hc' => hc c (.tail _ hc')) copy.tracked
      (current_jump ..) (hT.later copy.later) inner₂
    exact ⟨before₃, copy.trans others, inner₃, ended₃⟩

/-- Statements with an `ensure` clause. -/
lemma Region.draws (r : Region) (hc : ∀ c ∈ r.copies, Draws c.landing r.targets c.start c.done)
    (hb : Draws r.bodyBlock r.bodyTargets r.bodyStart r.left)
    (he : Draws r.ensureBlock r.targets r.clauseStart r.done) :
    Draws l r.targets r.start r.finish := by
  intro before now h _ hT
  -- the entry and the copies
  obtain ⟨before₁, start, body⟩ := h.making now
  obtain ⟨before₂, entered⟩ := start.here.jump body.leads
  have entered' := start.trans entered
  have empty : (r.start.created.jump r.start.fresh).Jumps before₂ now {} := by
    intro kind n hn
    cases kind <;> cases hn
  obtain ⟨before₃, copies, inner, -⟩ := r.chain.draws hc entered.tracked
    (current_jump ..) (hT.later entered'.later) empty
  have landed := entered'.trans copies
  have body := (body.later entered.later).later copies.later
  have hT := hT.later landed.later
  refine landed.andThen ?_
  -- the statements
  have t := (landed.here.note (.targetsNow r.bodyTargets)).startBlock body
  have t := (t.code hb body.leads (hT.overlay inner)).note (.targetsRestored r.targets)
  refine t.trans fun before₄ later₄ tracked₄ => ?_
  -- the clause on the way through
  obtain ⟨before₅, made, ensure, after⟩ := tracked₄.making_two
  refine made.andThen ?_
  have t := (made.here.startBlock ensure).code he ensure.leads (hT.later (later₄.trans made.later))
  exact t.startBlock after

/-- **Orderly code keeps every chart.** -/
theorem Code.Orderly.drawn {c : Code} (orderly : c.Orderly) {b b' : Builder}
    (lays : c.Lays l T b b') : Draws l T b b' := by
  -- a name is charted when it is given out, before anything that leads to it is laid out
  induction orderly generalizing l T b b' with
  | skip =>
    cases lays
    exact fun _ _ h _ _ => .refl h
  | seq _ _ ihp ihq =>
    cases lays with
    | seq hp hq =>
      intro before now h hl hT
      exact (ihp hp h hl hT).code (ihq hq) hl hT
  | alloc =>
    cases lays
    exact fun _ _ h _ _ => (Drawn.refl h).allocTemp
  | emit quiet =>
    cases lays
    exact fun _ _ h _ _ => (Drawn.refl h).emit quiet
  | @jump kind other =>
    cases lays with
    | @jump _ _ target _ _ ht =>
      intro before now h _ hT
      have leads := hT kind target ht
      have none : kind.passes = ∅ := by
        cases kind with
        | «return» => exact absurd rfl other
        | _ => rfl
      rw [none, Set.union_empty] at leads
      exact (Drawn.refl h).jump leads
  | @returns p v plain _ ih =>
    cases lays with
    | seq hp hq =>
      cases hp with
      | seq hp he =>
        cases he
        cases hq with
        | @jump _ _ target _ _ ht' =>
          intro before now h hl hT
          have r := ih hp h hl hT
          refine r.demand (.ret v target) (fun _ => rfl) fun t ht => ?_
          obtain rfl : t = target := List.mem_singleton.1 ht
          exact hT .return t ht'
  | leave =>
    cases lays
    exact fun _ _ h hl _ => (Drawn.refl h).jump hl
  | @twoWays test first second c on _ _ _ iht ihf ihs =>
    cases lays with
    | @twoWays _ _ _ _ _ _ ifTrue ifFalse after _ _ b₁ b₂ b₃ h₁ h₂ h₃ ht hf hs =>
      intro before now h _ hT
      obtain ⟨before₁, start, m₁, m₂, m₃⟩ := h.making_three
      rw [← h₁] at m₁
      rw [← h₂] at m₂
      rw [← h₃] at m₃
      have hT := hT.later start.later
      refine start.andThen ?_
      have r := (start.here.code (iht ht) m₃.leads hT).branch (c := c) m₁.leads m₂.leads
      have r := (r.startBlock (n := if on then ifTrue else ifFalse)
        (by cases on <;> assumption)).code (ihf hf) m₃.leads hT
      have r := (r.jump m₃.leads).startBlock (n := if on then ifFalse else ifTrue)
        (by cases on <;> assumption)
      exact ((r.code (ihs hs) m₃.leads hT).jump m₃.leads).startBlock m₃
  | @detour c on way _ ihw =>
    cases lays with
    | detour h₁ h₂ hw =>
      intro before now h _ hT
      obtain ⟨before₁, start, m₁, m₂⟩ := h.making_two
      subst h₁ h₂
      have hT := hT.later start.later
      refine start.andThen ?_
      have r := (start.here.branchOn c on m₁.leads m₂.leads).startBlock m₁
      exact (r.code (ihw hw) m₂.leads hT).startBlock m₂
  | join _ ihw =>
    cases lays with
    | join h₁ hw =>
      intro before now h _ hT
      obtain ⟨before₁, start, m₁⟩ := h.making now
      rw [← h₁] at m₁
      exact start.andThen
        ((start.here.code (ihw hw) m₁.leads (hT.later start.later)).startBlock m₁)
  | @clause on _ _ c _ _ iht ihb =>
    cases lays with
    | clause h₁ ht hb =>
      intro before now h hl hT
      obtain ⟨before₁, start, m₁⟩ := h.making now
      rw [← h₁] at m₁
      have hl := hl.later start.later
      have hT := hT.later start.later
      refine start.andThen ?_
      have r := (start.here.code (iht ht) hl hT).branchOn c on m₁.leads hl
      exact ((r.startBlock m₁).code (ihb hb) hl hT).jump hl
  | @clauseElse on _ _ _ c _ _ _ iht ihb ihr =>
    cases lays with
    | clauseElse h₁ h₂ ht hb hr =>
      intro before now h hl hT
      obtain ⟨before₁, start, m₁, m₂⟩ := h.making_two
      subst h₁ h₂
      have hl := hl.later start.later
      have hT := hT.later start.later
      refine start.andThen ?_
      have r := (start.here.code (iht ht) hl hT).branchOn c on m₁.leads m₂.leads
      have r := ((r.startBlock m₁).code (ihb hb) hl hT).jump hl
      exact (r.startBlock m₂).code (ihr hr) hl hT
  | @test _ c _ ihi =>
    cases lays with
    | test h₁ hi =>
      intro before now h hl hT
      obtain ⟨before₁, start, m₁⟩ := h.making now
      rw [← h₁] at m₁
      have hl := hl.later start.later
      refine start.andThen ?_
      exact ((start.here.code (ihi hi) hl (hT.later start.later)).branch hl m₁.leads).startBlock m₁
  | select _ _ iht ihb =>
    cases lays with
    | @select _ _ _ _ _ _ b₁ b₂ h₁ ht hb =>
      subst h₁
      refine .select (iht ht) (ihb hb) ?_
      have begun : Extends Set.univ Set.univ b₁.suspend.2 (b₁.suspend.2.startBlock b.fresh) :=
        Extends.any.startBlock trivial trivial
      exact (begun.code_laid hb.growth trivial (Set.subset_univ _)).jump trivial
  | @loop on _ _ _ c c' _ _ _ iht ihb iha =>
    cases lays with
    | loop h₁ h₂ h₃ hT' ht hb ha =>
      intro before now h _ hT
      obtain ⟨before₁, start, m₁, m₂, m₃⟩ := h.making_three
      rw [← h₁] at m₁
      rw [← h₂] at m₂
      rw [← h₃] at m₃
      have hT := (hT.later start.later).inLoop m₂.leads m₃.leads m₁.leads
      rw [← hT'] at hT
      refine start.andThen ?_
      have r := ((start.here.note _).startBlock m₃).code (iht ht) m₂.leads hT
      have r := (r.branchOn c on m₁.leads m₂.leads).startBlock m₁
      have r := (r.code (ihb hb) m₂.leads hT).code (iha ha) m₂.leads hT
      exact ((r.branchOn c' on m₁.leads m₂.leads).note _).startBlock m₂
  | block _ ihb =>
    cases lays with
    | block h₁ hb =>
      intro before now h _ hT
      obtain ⟨before₁, start, m₁⟩ := h.making now
      rw [← h₁] at m₁
      refine start.andThen ?_
      have r := (start.here.jump m₁.leads).startBlock m₁
      exact r.code (ihb hb) m₁.leads (hT.later start.later)
  | guarded _ _ _ ihc ihb ihe =>
    cases lays with
    | @guarded _ _ _ _ r hc hb he =>
      exact r.draws (fun c hm => ihc c.kind (hc c hm)) (ihb hb) (ihe he)
  | blockCall _ _ ihr ihb =>
    cases lays with
    | blockCall h₁ h₂ h₃ h₄ hr h₅ h₆ hT hb =>
      subst h₆ hT
      exact .blockCall h₁ h₃ h₄ (ihr hr) h₅ (ihb hb)

end ControlFlow
