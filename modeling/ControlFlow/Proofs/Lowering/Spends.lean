import Mathlib.Tactic.Tauto
import ControlFlow.Proofs.Graph.Growth
import ControlFlow.Proofs.Lowering.Traced
/-!
# Walks that spend a binding

A walk is given some bindings to read and some to write, and it makes new temporaries. It spends a
binding if it reads it where it was given it to read, writes it where it was given it to write, and
treats it in both ways if it is one of the new temporaries. What the walk has not read may be left
in its result, for what follows to read.

In contrast to what `Construction.Related` says about walks, nothing may be forgotten here: a
binding that was given can be read more than once, but not less than once. Each operation of
lowering has its rule.

The subject of a `case` without candidates is read by nobody, so lowering does not spend it. What is
proved here is proved of traced walks, and excuses a binding that they take note of as such a subject.
-/

namespace ControlFlow

/-! ## Bindings of a graph -/

/-- All bindings that an instruction names. -/
def Instruction.bindings (i : Instruction) : List Binding :=
  i.dest?.toList ++ i.reads ++ match i with
    | .closure _ params _ => params.map (·.binding)
    | _ => []

/-- Only a block literal names more than it reads and writes. -/
lemma Instruction.named {i : Instruction} {v : Binding}
    (plain : ∀ dest params body, i ≠ .closure dest params body) (h : v ∈ i.bindings) :
    v ∈ i.reads ∨ i.dest? = some v := by
  cases i
  case closure => exact absurd rfl (plain _ _ _)
  all_goals
    simp only [bindings, List.append_nil, List.mem_append, Option.mem_toList] at h
    exact h.symm

namespace Graph

/-- An instruction of the graph names the binding. -/
def Names (g : Graph) (v : Binding) : Prop := ∃ n, ∃ i ∈ g.code n, v ∈ i.bindings

/-- An instruction of the graph reads the binding. -/
def Reads (g : Graph) (v : Binding) : Prop := ∃ n, ∃ i ∈ g.code n, v ∈ i.reads

/-- An instruction of the graph writes the binding. -/
def Writes (g : Graph) (v : Binding) : Prop := ∃ n, ∃ i ∈ g.code n, i.dest? = some v

/-- The binding holds a block literal of the graph. -/
def Encloses (g : Graph) (v : Binding) : Prop := ∃ n params body, .closure v params body ∈ g.code n

end Graph

namespace Builder

/-- The binding is a temporary that was handed out in between. -/
def Gives (v : Binding) (b b' : Builder) : Prop :=
  ∃ k, v = .temporary k ∧ b.nextTemp ≤ k ∧ k < b'.nextTemp

lemma gives_trans {v : Binding} {b c b' : Builder} (h : b.nextTemp ≤ c.nextTemp)
    (h' : c.nextTemp ≤ b'.nextTemp) : Gives v b b' ↔ Gives v b c ∨ Gives v c b' := by
  constructor
  · rintro ⟨k, rfl, first, last⟩
    by_cases earlier : k < c.nextTemp
    · exact Or.inl ⟨k, rfl, first, earlier⟩
    · exact Or.inr ⟨k, rfl, Nat.le_of_not_lt earlier, last⟩
  · rintro (⟨k, rfl, first, last⟩ | ⟨k, rfl, first, last⟩)
    · exact ⟨k, rfl, first, last.trans_le h'⟩
    · exact ⟨k, rfl, h.trans first, last⟩

lemma not_gives {v : Binding} {b b' : Builder} (same : b'.nextTemp = b.nextTemp) :
    ¬ Gives v b b' := by
  rintro ⟨k, -, first, last⟩
  omega

/-- The binding has been read, holds a block literal, or is excused. -/
def Settled (excused : Prop) (v : Binding) (b : Builder) : Prop :=
  excused ∨ b.graph.Reads v ∨ b.graph.Encloses v

/-- The instruction has been added from one builder to another that grew from it. -/
def Adds (b b' : Builder) (i : Instruction) : Prop :=
  ∃ n, i ∈ (b'.graph.code n).drop (b.graph.code n).length

/-- What has happened to a binding from one builder to another that grew from it: it has been read if
it was to be read or is new, unless it is left to be read, it has been written if it was to be
written or is new, and otherwise no instruction has been added that names it. -/
structure Spent (excused : Prop) (v : Binding) (read write left : Prop) (b b' : Builder) :
    Prop where
  grows : Extends Set.univ Set.univ b b'
  temps : b.nextTemp ≤ b'.nextTemp
  settled : read ∨ Gives v b b' → Settled excused v b' ∨ left
  written : write ∨ Gives v b b' → b'.graph.Writes v
  named : ∀ i, Adds b b' i → v ∈ i.bindings → read ∨ write ∨ Gives v b b'
  kept : left → read ∨ Gives v b b'

section

variable {b b' b₁ : Builder} {excused : Prop} {v : Binding} {S : Set BlockName} {i : Instruction}

lemma Adds.split {W : Set BlockName} (h : Extends W S b b₁) (h' : Extends W S b₁ b')
    (hi : Adds b b' i) : Adds b b₁ i ∨ Adds b₁ b' i := by
  obtain ⟨n, mem⟩ := hi
  obtain ⟨first, hf⟩ := h.grows n
  obtain ⟨last, hl⟩ := h'.grows n
  rw [← hl, ← hf, List.append_assoc, List.drop_left, List.mem_append] at mem
  refine mem.imp (fun mem => ⟨n, ?_⟩) fun mem => ⟨n, ?_⟩
  · rwa [← hf, List.drop_left]
  · rwa [← hl, List.drop_left]

lemma Extends.writes {W : Set BlockName} (h : Extends W S b b') (hw : b.graph.Writes v) :
    b'.graph.Writes v := by
  obtain ⟨n, i, mem, dest⟩ := hw
  exact ⟨n, i, (h.grows n).subset mem, dest⟩

lemma Extends.settled {W : Set BlockName} (h : Extends W S b b') (hr : Settled excused v b) :
    Settled excused v b' := by
  rcases hr with hr | ⟨n, i, mem, reads⟩ | ⟨n, params, body, mem⟩
  · exact Or.inl hr
  · exact Or.inr (Or.inl ⟨n, i, (h.grows n).subset mem, reads⟩)
  · exact Or.inr (Or.inr ⟨n, params, body, (h.grows n).subset mem⟩)

namespace Spent

variable {R P W Q L M : Prop}

lemma trans (h : Spent excused v R W L b b₁) (h' : Spent excused v (L ∨ P) Q M b₁ b') :
    Spent excused v (R ∨ P) (W ∨ Q) M b b' := by
  have gives := gives_trans (v := v) h.temps h'.temps
  refine ⟨h.grows.trans h'.grows (by simp) (by simp), h.temps.trans h'.temps,
    fun owed => ?_, fun owed => ?_, fun i added named => ?_, fun left => ?_⟩
  · rw [gives] at owed
    have owed : (R ∨ Gives v b b₁) ∨ P ∨ Gives v b₁ b' := by tauto
    rcases owed with owed | owed
    · rcases h.settled owed with settled | left
      · exact Or.inl (h'.grows.settled settled)
      · exact h'.settled (Or.inl (Or.inl left))
    · exact h'.settled (by tauto)
  · rw [gives] at owed
    have owed : (W ∨ Gives v b b₁) ∨ Q ∨ Gives v b₁ b' := by tauto
    rcases owed with owed | owed
    · exact h'.grows.writes (h.written owed)
    · exact h'.written owed
  · rcases added.split h.grows h'.grows with added | added
    · have before := h.named i added named
      tauto
    · have kept := h.kept
      have behind := h'.named i added named
      tauto
  · have kept := h.kept
    have behind := h'.kept left
    tauto

lemma excuse {excused' : Prop} (h : Spent excused v R W L b b') (excuses : excused → excused') :
    Spent excused' v R W L b b' :=
  { h with settled := fun owed => (h.settled owed).imp_left (Or.imp_left excuses) }

lemma congr (h : Spent excused v R W L b b') (hR : R ↔ P) (hW : W ↔ Q) :
    Spent excused v P Q L b b' := by
  rwa [← propext hR, ← propext hW]

/-- Something that has nothing to do with the binding, in front. -/
lemma behind (h : Spent excused v R W L b₁ b') (first : Spent excused v False False False b b₁) :
    Spent excused v R W L b b' :=
  (first.trans (h.congr (false_or R).symm.to_iff Iff.rfl)).congr (by simp) (by simp)

/-- Something that leaves what was left, at the end. -/
lemma before (h : Spent excused v R W L b b₁) (last : Spent excused v L False L b₁ b') :
    Spent excused v R W L b b' :=
  (h.trans (P := False) (last.congr (by simp) Iff.rfl)).congr (by simp) (by simp)

/-- Nothing is said in the graph, and no temporary is taken. -/
lemma still (grows : Extends Set.univ Set.univ b b') (temps : b'.nextTemp = b.nextTemp)
    (code : ∀ n, b'.graph.code n = b.graph.code n) : Spent excused v L False L b b' where
  grows := grows
  temps := temps.ge
  settled h := Or.inr (h.resolve_right (not_gives temps))
  written h := absurd (h.resolve_left id) (not_gives temps)
  named := by
    rintro i ⟨n, mem⟩
    simp [code] at mem
  kept := Or.inl

lemma suspend : Spent excused v False False False b b.suspend.2 :=
  still Extends.any.suspend rfl fun _ => rfl

lemma resume {name : Option BlockName} (names : ∀ n, name = some n → n ∈ b.graph.names) :
    Spent excused v False False False b (b.resume name) :=
  still (Extends.any.resume (by simp) fun _ => names) rfl fun _ => rfl

lemma refl : Spent excused v L False L b b :=
  still .any rfl fun _ => rfl

lemma note (e : Event) : Spent excused v L False L b (b.note e) :=
  still (Extends.any.note e) rfl fun _ => rfl

lemma created : Spent excused v False False False b b.created :=
  still Extends.any.created rfl (by simp)

lemma reserveBlock : Spent excused v False False False b b.reserveBlock.2 :=
  still Extends.any.reserveBlock rfl fun _ => rfl

lemma opened : Spent excused v False False False b b.opened := by
  cases hb : b.current with
  | some n =>
    rw [opened_of_at hb]
    exact refl
  | none =>
    refine still Extends.any.opened ?_ ?_ <;> rw [opened_eq hb]
    · rfl
    · simp

lemma begun {n : BlockName} (h : b.current = none) :
    Spent excused v False False False b (b.startBlock n) := by
  refine still (Extends.any.startBlock trivial trivial) ?_ ?_ <;> simp [startBlock_eq h]

/-- A temporary is handed out, to be written and to be read. -/
lemma allocTemp
    (h : Spent excused v (R ∨ .temporary b.nextTemp = v) (W ∨ .temporary b.nextTemp = v) L
      b.allocTemp.2 b') : Spent excused v R W L b b' := by
  have gives : Gives v b b' ↔ .temporary b.nextTemp = v ∨ Gives v b.allocTemp.2 b' := by
    have first : Gives v b b.allocTemp.2 ↔ .temporary b.nextTemp = v := by
      constructor
      · rintro ⟨k, rfl, le, lt⟩
        have same : k = b.nextTemp := Nat.le_antisymm (Nat.le_of_lt_succ lt) le
        rw [same]
      · rintro rfl
        exact ⟨_, rfl, le_rfl, Nat.lt_succ_self _⟩
    rw [gives_trans (c := b.allocTemp.2) (Nat.le_succ _) h.temps, first]
  refine ⟨Extends.any.allocTemp.trans h.grows (by simp) (by simp),
    (Nat.le_succ _).trans h.temps, fun owed => ?_, fun owed => ?_, fun i added named => ?_,
    fun left => ?_⟩
  · rw [gives] at owed
    exact h.settled (by tauto)
  · rw [gives] at owed
    exact h.written (by tauto)
  · have := h.named i added named
    rw [gives]
    tauto
  · have := h.kept left
    rw [gives]
    tauto

variable (rooted : b.Rooted)

include rooted

/-- An instruction writes what it says, and it reads what it says or is a block literal. -/
lemma emitted (reads : R → v ∈ i.reads ∨ ∃ params body, i = .closure v params body)
    (writes : W → i.dest? = some v) (names : v ∈ i.bindings → R ∨ W) :
    Spent excused v R W False b (b.emit i) := by
  obtain ⟨n, hn⟩ := b.exists_at_opened
  have first : Spent excused v False False False b b.opened := opened
  have code : (b.opened.emit i).graph.code n = b.opened.graph.code n ++ [i] := by
    rw [emit_eq hn]
    simp [Graph.code_push_self _ (first.grows.rooted rooted n hn)]
  have mem : i ∈ (b.opened.emit i).graph.code n := by simp [code]
  have same : ¬ Gives v b.opened (b.opened.emit i) := not_gives (by rw [emit_eq hn])
  rw [← emit_opened]
  refine .behind ?_ first
  refine ⟨Extends.any.emit (by simp), by rw [emit_eq hn], fun owed => ?_,
    fun owed => ?_, ?_, False.elim⟩
  · refine Or.inl (Or.inr ?_)
    rcases reads (by tauto) with reads | ⟨params, body, rfl⟩
    · exact Or.inl ⟨n, i, mem, reads⟩
    · exact Or.inr ⟨n, params, body, mem⟩
  · exact ⟨n, i, mem, writes (by tauto)⟩
  · rintro j ⟨m, hj⟩ named
    by_cases hm : m = n
    · subst hm
      rw [code, List.drop_left, List.mem_singleton] at hj
      subst hj
      have := names named
      tauto
    · simp [emit_eq hn, Graph.code_push_of_ne _ hm] at hj

lemma emit (i : Instruction) (params : v ∈ i.bindings → v ∈ i.reads ∨ i.dest? = some v) :
    Spent excused v (v ∈ i.reads) (i.dest? = some v) False b (b.emit i) :=
  emitted rooted Or.inl id params

lemma jump (n : BlockName) : Spent excused v False False False b (b.jump n) :=
  (emit rooted (.jump n) (Instruction.named nofun)).congr
    (by simp [Instruction.reads]) (by simp [Instruction.dest?])

lemma branch (c : Option Binding) (x y : BlockName) :
    Spent excused v (c = some v) False False b (b.branch c x y) := by
  refine (emit rooted (.branch c x y) (Instruction.named nofun)).congr ?_ ?_ <;>
    simp [Instruction.reads, Instruction.dest?]

lemma branchOn (c : Binding) (on : Bool) (x y : BlockName) :
    Spent excused v (c = v) False False b (b.branchOn c on x y) := by
  unfold Builder.branchOn
  split
  · exact (branch rooted (some c) x y).congr (by simp) Iff.rfl
  · exact (branch rooted (some c) y x).congr (by simp) Iff.rfl

lemma startBlock (n : BlockName) : Spent excused v False False False b (b.startBlock n) := by
  cases hb : b.current with
  | none => exact begun hb
  | some m =>
    rw [startBlock_of_at hb]
    exact (begun (b.current_jump n)).behind (jump rooted n)

lemma endRun (w : Binding) (x y : BlockName) :
    Spent excused v (w = v) False False b (b.endRun w x y) := by
  have first : Spent excused v (w = v) False False b (b.emit (.resume w)) := by
    refine (emit rooted (.resume w) ?_).congr ?_ ?_ <;>
      simp [Instruction.bindings, Instruction.reads, Instruction.dest?, eq_comm]
  exact first.before ((branch (first.grows.rooted rooted) none x y).congr (by simp) Iff.rfl)

/-- The value at the end of a run that was left by a jump is new, and is read there. -/
lemma land (landing x y : BlockName) :
    Spent excused v False False False b (b.land landing x y) := by
  unfold Builder.land
  split
  · have first : Spent excused v False False False b (b.startBlock landing) :=
      startBlock rooted landing
    have rooted₁ : (b.startBlock landing).allocTemp.2.Rooted := first.grows.rooted rooted
    have ended : Spent excused v False False False (b.startBlock landing)
        (((b.startBlock landing).allocTemp.2.loadConst (b.startBlock landing).allocTemp.1 .nil).endRun
          (b.startBlock landing).allocTemp.1 x y) := by
      refine allocTemp ?_
      generalize (b.startBlock landing).allocTemp.2 = b₁ at rooted₁
      change Spent excused v (False ∨ (b.startBlock landing).allocTemp.1 = v)
        (False ∨ (b.startBlock landing).allocTemp.1 = v) False b₁ _
      generalize (b.startBlock landing).allocTemp.1 = w
      have loaded : Spent excused v False (w = v) False b₁ (b₁.loadConst w .nil) := by
        refine (emit rooted₁ (.assign w (.constant .nil)) ?_).congr ?_ ?_ <;>
          simp [Instruction.bindings, Instruction.reads, Instruction.dest?, eq_comm]
      have last : Spent excused v _ _ _ _ _ := endRun (loaded.grows.rooted rooted₁) w x y
      exact (loaded.trans (last.congr (by simp) Iff.rfl)).congr Iff.rfl (by simp)
    exact ended.behind first
  · exact refl

end Spent

end

end Builder

/-! ## Walks -/

namespace WalkT

open Builder

variable {α β : Type} {v : Binding} {R P W Q : Prop}

/-- Whenever the walk ends with a result, it has spent the binding, which may be left in the
result. The binding is excused if the walk takes note of it as a subject. -/
def Spends (v : Binding) (read write : Prop) (x : Noting α) (left : α → Prop) : Prop :=
  ∀ ⦃b : Builder⦄ ⦃T : JumpTargets⦄ ⦃d : Nat⦄ ⦃a : α⦄ ⦃s' : WalkState⦄ ⦃V : List Visit⦄,
    b.Rooted → x.Ends ⟨b, T, d⟩ (.ok a) s' V →
      Spent (.subject v ∈ V) v read write (left a) b s'.builder

/-- The walk spends the binding and leaves nothing of it. -/
abbrev Clears (v : Binding) (read write : Prop) (x : Noting α) : Prop :=
  Spends v read write x fun _ => False

/-- The walk has nothing to do with the binding. -/
abbrev Ignores (v : Binding) (x : Noting α) : Prop := Clears v False False x

end WalkT

/-- The parts of an alternative have nothing to read, and write what all ways are to write. -/
def Alternative.Spends (v : Binding) (write : Prop) : Alternative Noting → Prop
  | .nothing => True
  | .last body => WalkT.Clears v False write body
  | .clause condition body rest =>
    WalkT.Spends v False False condition (· = v) ∧
      WalkT.Clears v False write body ∧ rest.Spends v write

/-- The parts of clauses write what all ways are to write, and each test reads what it is given. -/
def Clauses.Spends (v : Binding) (read write : Prop) : Clauses Noting → Prop
  | .last body => WalkT.Clears v False write body
  | .clause tests body rest =>
    (∀ t ∈ tests, WalkT.Spends v read False t (· = v)) ∧
      WalkT.Clears v False write body ∧ rest.Spends v read write

namespace WalkT

open Builder

variable {α β : Type} {v : Binding} {R P W Q : Prop}

namespace Spends

variable {x : Noting α} {f : α → Noting β} {L : α → Prop} {K : β → Prop}

lemma congr (h : Spends v R W x L) (hR : R ↔ P) (hW : W ↔ Q) : Spends v P Q x L :=
  fun _ _ _ _ _ _ rooted hx => (h rooted hx).congr hR hW

/-- What is left by a walk is to be read by the next one, and so is what the first walk was not
given. -/
lemma bind (hx : Spends v R W x L) (hf : ∀ a, Spends v (L a ∨ P) Q (f a) K) :
    Spends v (R ∨ P) (W ∨ Q) (x >>= f) K := by
  intro b T d r s' V rooted h
  obtain ⟨a, ⟨b₁, T₁, d₁⟩, V₁, V₂, h₁, h₂, rfl⟩ := h.of_bind_ok
  have first := (hx rooted h₁).excuse (List.mem_append_left V₂)
  exact first.trans ((hf a (first.grows.rooted rooted) h₂).excuse (List.mem_append_right V₁))

/-- What is left by a walk that was given nothing is to be read by the next one. -/
lemma feed (hx : Spends v False False x L) (hf : ∀ a, Spends v (L a ∨ R) W (f a) K) :
    Spends v R W (x >>= f) K :=
  (hx.bind hf).congr (by simp) (by simp)

lemma pure (a : α) : Spends v (L a) False (Pure.pure a) L := by
  intro b T d r s' V rooted h
  obtain ⟨⟨⟩, rfl, -⟩ := ends_pure.1 h
  exact .refl

lemma idle (a : α) : Ignores v (Pure.pure a : Noting α) := pure (L := fun _ => False) a

lemma failAt (info : Info) (fault : LowerFault) :
    Spends v R W (WalkT.failAt info fault : Noting α) L :=
  fun _ _ _ _ _ _ _ h => nomatch (ends_failAt.1 h).1

/-- A subject is read by the clauses, or is excused where they are bare. -/
lemma noticed {bare : Bool} {w : Binding} {L : Binding → Prop} (hL : L w ↔ w = v ∧ bare = false) :
    Spends v (w = v) False (WalkT.noticed bare w) L := by
  cases bare with
  | false => exact (pure w).congr (by simpa using hL) Iff.rfl
  | true =>
    intro b T d a s' V rooted h
    obtain ⟨⟨⟩, rfl, rfl⟩ := (ends_iff rfl).1 h
    have still : Spent (.subject v ∈ [Visit.subject w]) v False False False b b := .refl
    refine { still with settled := ?_, named := ?_, kept := ?_ }
    · rintro (rfl | given)
      · exact Or.inl (Or.inl (.head _))
      · exact absurd given (not_gives rfl)
    · exact fun i adds named => (still.named i adds named).imp_left False.elim
    · intro left
      exact absurd (hL.1 left).2 (by simp)

lemma build {g : Builder → Builder} (h : ∀ b, b.Rooted → Spent False v R W False b (g b)) :
    Clears v R W (WalkT.build g) := by
  intro b T d u s' V rooted hx
  obtain ⟨-, rfl, -⟩ := ends_build.1 hx
  exact (h b rooted).excuse False.elim

lemma take {g : Builder → α × Builder} (h : ∀ b, b.Rooted → Spent False v R W False b (g b).2) :
    Clears v R W (WalkT.take g) := by
  intro b T d a s' V rooted hx
  obtain ⟨-, rfl, -⟩ := ends_take.1 hx
  exact (h b rooted).excuse False.elim

lemma allocTemp_bind {f : Binding → Noting β} (hf : ∀ t, Spends v (R ∨ t = v) (W ∨ t = v) (f t) K) :
    Spends v R W (WalkT.allocTemp >>= f) K := by
  intro b T d r s' V rooted h
  have rooted' : b.allocTemp.2.Rooted := rooted
  exact .allocTemp (hf _ rooted' (ends_take_bind.1 h))

lemma nested {env : Environment} {info : Info} (h : Spends v R W x L) :
    Spends v R W (visiting info (WalkT.nested env info x)) L := by
  intro b T d a s' V rooted hx
  obtain ⟨V₁, walked, rfl⟩ := hx.of_visiting
  rcases walked.of_nested with ⟨_, ⟨⟩, -⟩ | ⟨s₁, inner, rfl⟩
  exact (h rooted inner).excuse (List.mem_append_left _)

/-- A walk behind one that has nothing to do with the binding. -/
lemma skip (hx : Ignores v x) (hf : ∀ a, Spends v R W (f a) K) : Spends v R W (x >>= f) K :=
  hx.feed fun a => (hf a).congr (false_or R).symm.to_iff Iff.rfl

/-- A walk, and then another one with what both were given. -/
lemma andThen {y : Noting β} (hx : Clears v R W x) (hy : Spends v P Q y K) :
    Spends v (R ∨ P) (W ∨ Q) (x >>= fun _ => y) K :=
  hx.bind fun _ => hy.congr (by simp) Iff.rfl

lemma withTargets {T : JumpTargets} (h : Spends v R W x L) :
    Spends v R W (WalkT.withTargets T x) L := by
  intro b T₀ d a s' V rooted hx
  obtain ⟨s₁, inner, rfl⟩ := hx.of_withTargets
  have rooted' : (b.note (.targetsNow (T₀.overlay T))).Rooted := rooted
  exact ((h rooted' inner).before (.note (.targetsRestored T₀))).behind
    (.note (.targetsNow (T₀.overlay T)))

lemma note (e : Event) : Ignores v (WalkT.note e) := build fun _ _ => .note e

lemma createBlock : Ignores v WalkT.createBlock := take fun _ _ => .created

lemma reserveBlock : Ignores v WalkT.reserveBlock := take fun _ _ => .reserveBlock

lemma startBlock (n : BlockName) : Ignores v (WalkT.startBlock n) :=
  build fun _ rooted => .startBlock rooted n

lemma jump (n : BlockName) : Ignores v (WalkT.jump n) := build fun _ rooted => .jump rooted n

lemma branch (c : Option Binding) (x y : BlockName) :
    Clears v (c = some v) False (WalkT.branch c x y) :=
  build fun _ rooted => .branch rooted c x y

lemma branchOn (c : Binding) (on : Bool) (x y : BlockName) :
    Clears v (c = v) False (WalkT.branchOn c on x y) :=
  build fun _ rooted => .branchOn rooted c on x y

lemma emit (i : Instruction) (params : v ∈ i.bindings → v ∈ i.reads ∨ i.dest? = some v) :
    Clears v (v ∈ i.reads) (i.dest? = some v) (WalkT.emit i) :=
  build fun _ rooted => .emit rooted i params

variable {params : List Parameter}

/-- A block literal need not be read. -/
lemma emit_closure (dest : Binding) (body : BlockName) (clean : ∀ p ∈ params, p.binding ≠ v) :
    Clears v (dest = v) (dest = v) (WalkT.emit (.closure dest params body)) := by
  refine build fun _ rooted => .emitted rooted ?_ ?_ ?_
  · rintro rfl
    exact Or.inr ⟨params, body, rfl⟩
  · rintro rfl
    rfl
  · simp only [Instruction.bindings, Instruction.dest?, Instruction.reads, Option.toList_some,
      List.append_nil, List.singleton_append, List.mem_cons, List.mem_map]
    rintro (rfl | ⟨p, hp, rfl⟩)
    · exact Or.inl rfl
    · exact absurd rfl (clean p hp)

lemma endRun (w : Binding) (x y : BlockName) : Clears v (w = v) False (WalkT.endRun w x y) :=
  build fun _ rooted => .endRun rooted w x y

lemma get_bind {f : WalkState → Noting β} (hf : ∀ s, Spends v R W (f s) K) :
    Spends v R W (get >>= f) K :=
  fun _ _ _ _ _ _ rooted h => hf _ rooted (ends_get_bind.1 h)

/-- A walk that leaves nothing, and then one that has nothing to do with the binding. -/
lemma followed {y : Noting Unit} (hx : Clears v R W x) (hy : Ignores v y) :
    Clears v R W (x >>= fun _ => y) :=
  (hx.andThen hy).congr (by simp) (by simp)

/-! ### Schemes -/

section

variable {c : Noting Binding} {y z : Noting Unit} {R₁ W₁ R₂ W₂ : Prop}

lemma twoWays (hc : Spends v R W c (· = v)) (on : Bool) (hy : Clears v R₁ W₁ y)
    (hz : Clears v R₂ W₂ z) : Clears v (R ∨ R₁ ∨ R₂) (W ∨ W₁ ∨ W₂) (WalkT.twoWays c on y z) := by
  refine .skip createBlock fun ifTrue => .skip createBlock fun ifFalse =>
    .skip createBlock fun after => hc.bind fun c => ?_
  have ways := hy.andThen (.skip (jump after) fun _ =>
    .skip (startBlock (if on then ifFalse else ifTrue)) fun _ =>
      hz.followed (.skip (jump after) fun _ => startBlock after))
  exact ((branch (some c) ifTrue ifFalse).andThen (.skip (startBlock _) fun _ => ways)).congr
    (by simp) (by simp)

lemma detour (c : Binding) (on : Bool) (hy : Clears v R W y) :
    Clears v (c = v ∨ R) W (WalkT.detour c on y) := by
  refine .skip createBlock fun taken => .skip createBlock fun after => ?_
  exact ((branchOn c on taken after).andThen (.skip (startBlock taken) fun _ =>
    hy.followed (startBlock after))).congr Iff.rfl (by simp)

lemma clause (after : BlockName) (on : Bool) (hc : Spends v False False c (· = v))
    (hy : Clears v False W y) {rest : Option (Noting Unit)} (hr : ∀ z ∈ rest, Clears v False W z) :
    Clears v False W (WalkT.clause after on c y rest) := by
  refine .skip createBlock fun taken => ?_
  cases rest with
  | none =>
    refine hc.feed fun c => ?_
    exact ((branchOn c on taken after).andThen (.skip (startBlock taken) fun _ =>
      hy.followed (jump after))).congr Iff.rfl (by simp)
  | some z =>
    refine .skip createBlock fun other => ?_
    refine hc.feed fun c => ?_
    have ways := hy.andThen (.skip (jump after) fun _ => .skip (startBlock other) fun _ => hr z rfl)
    exact ((branchOn c on taken other).andThen (.skip (startBlock taken) fun _ => ways)).congr
      (by simp) (by simp)

variable {a : Alternative Noting}

lemma alternative (after : BlockName) (h : a.Spends v W) :
    ∀ z ∈ WalkT.alternative after a, Clears v False W z := by
  induction a with
  | nothing => simp [WalkT.alternative]
  | last body =>
    rintro _ ⟨⟩
    exact Spends.followed h (jump after)
  | clause condition body rest ih =>
    rintro _ ⟨⟩
    exact clause after true h.1 h.2.1 (ih h.2.2)

lemma conditional (on : Bool) (hc : Spends v False False c (· = v)) (hy : Clears v False W y)
    (ha : a.Spends v W) : Clears v False W (WalkT.conditional on c y a) :=
  .skip createBlock fun after =>
    (clause after on hc hy (alternative after ha)).followed (startBlock after)

lemma tryTests (bodyBlock : BlockName) {tests : List (Noting Binding)}
    (h : ∀ t ∈ tests, Spends v R False t (· = v)) :
    Clears v (R ∧ tests.isEmpty = false) False (WalkT.tryTests bodyBlock tests) := by
  induction tests with
  | nil => exact (pure ()).congr (by simp) Iff.rfl
  | cons t tests ih =>
    obtain ⟨first, others⟩ := List.forall_mem_cons.1 h
    have one : Clears v R False (WalkT.tryTest bodyBlock t) := by
      refine .skip createBlock fun failed => ?_
      refine (first.bind (P := False) (Q := False) fun c => ?_).congr (by simp) (by simp)
      exact ((branch (some c) bodyBlock failed).followed (startBlock failed)).congr (by simp) Iff.rfl
    refine (one.andThen (ih others)).congr ?_ (by simp)
    simp only [List.isEmpty_cons, and_true]
    tauto

/-- A block that is left open is gone on with where the walk in between only adds to the graph. -/
lemma resumed {z : Noting β} (hy : Clears v R W y) (hz : Spends v P Q z K) :
    Spends v (R ∨ P) (W ∨ Q) (do let failed ← WalkT.suspend; y; WalkT.resume failed; z) K := by
  intro b T d r s' V rooted h
  obtain ⟨u, ⟨b₁, T₁, d₁⟩, V₁, V₂, h₁, h₂, rfl⟩ := (ends_take_bind.1 h).of_bind_ok
  rw [WalkT.resume, ends_build_bind] at h₂
  have inner := (hy (by rintro n ⟨⟩) h₁).excuse (List.mem_append_left V₂)
  have names : ∀ n, b.current = some n → n ∈ b₁.graph.names :=
    fun n hn => inner.grows.names n (rooted n hn)
  have last := (hz (b := b₁.resume b.suspend.1) names h₂).excuse (List.mem_append_right V₁)
  have all := inner.trans (P := P) ((last.behind (.resume names)).congr (by simp) Iff.rfl)
  exact all.behind .suspend

lemma clauses (after : BlockName) {cs : Clauses Noting} (h : cs.Spends v R W) :
    Clears v (R ∧ cs.isBare = false) W (WalkT.clauses after cs) := by
  induction cs with
  | last body => exact (Spends.followed h (jump after)).congr (by simp [Clauses.isBare]) Iff.rfl
  | clause tests body rest ih =>
    obtain ⟨ht, hb, hr⟩ := h
    refine .skip createBlock fun bodyBlock => ?_
    have walked : Clears v False W (do WalkT.startBlock bodyBlock; body; WalkT.jump after) :=
      .skip (startBlock bodyBlock) fun _ => hb.followed (jump after)
    have all := (tryTests bodyBlock ht).andThen (resumed walked (ih hr))
    simp only [bind_assoc] at all
    refine all.congr ?_ (by simp)
    simp only [Clauses.isBare, Bool.and_eq_false_iff]
    tauto

lemma loop (sense : LoopSense) (hc : Spends v False False c (· = v)) (hy : Ignores v y) :
    Ignores v (WalkT.loop sense c y) := by
  refine .skip createBlock fun bodyBlock => .skip createBlock fun after =>
    .skip createBlock fun pretest => ?_
  have test : Ignores v (WalkT.loopTest sense c bodyBlock after) :=
    hc.feed fun c => (branchOn c _ bodyBlock after).congr (by simp) Iff.rfl
  refine .skip (withTargets ?_) fun _ => startBlock after
  exact .skip (startBlock pretest) fun _ => .skip test fun _ => .skip (startBlock bodyBlock) fun _ =>
    .skip hy fun _ => test

lemma jumpOut (info : Info) (kind : JumpKind) (hy : Ignores v y) :
    Ignores v (WalkT.jumpOut info kind y) := by
  have target : Ignores v (WalkT.jumpTarget info kind) := by
    refine .get_bind fun s => ?_
    cases s.targets.get? kind with
    | some n => exact idle n
    | none => exact failAt info _
  exact .skip target fun n => .skip hy fun _ => jump n

lemma landings (outer : JumpTargets) (hy : Ignores v y) (kinds : List JumpKind)
    (inner : JumpTargets) : Ignores v (WalkT.landings outer y kinds inner) := by
  induction kinds generalizing inner with
  | nil => exact idle inner
  | cons kind kinds ih =>
    rw [WalkT.landings]
    split
    · exact ih inner
    · exact .skip createBlock fun landing => .skip (note _) fun _ =>
        .skip (startBlock landing) fun _ => .skip hy fun _ => .skip (jump _) fun _ => ih _

lemma unguarded (hy : Clears v R W y) : Clears v R W (WalkT.guarded y none) :=
  .skip createBlock fun bodyBlock => .skip (jump bodyBlock) fun _ =>
    .skip (startBlock bodyBlock) fun _ => hy

lemma guarded (hy : Clears v R W y) (hz : Ignores v z) : Clears v R W (WalkT.guarded y (some z)) := by
  refine .skip createBlock fun bodyBlock => .skip (jump bodyBlock) fun _ => .get_bind fun s => ?_
  refine .skip (landings s.targets hz JumpKind.all {}) fun inner => ?_
  have body : Clears v R W (WalkT.withTargets inner do WalkT.startBlock bodyBlock; y) :=
    withTargets (.skip (startBlock bodyBlock) fun _ => hy)
  exact body.followed (.skip createBlock fun ensureBlock => .skip createBlock fun after =>
    .skip (startBlock ensureBlock) fun _ => .skip hz fun _ => startBlock after)

lemma blockCall (clean : ∀ p ∈ params, p.binding ≠ v) (dest : Option Binding) (callee : Callee)
    {args : Noting Arguments} {body : Noting Binding}
    (ha : Spends v R W args fun a => v ∈ a.bindings)
    (hb : Spends v False False body (· = v)) :
    Clears v (v ∈ callee.bindings ∨ R) (W ∨ dest = some v)
      (WalkT.blockCall params dest callee args body) := by
  refine .skip createBlock fun after => .allocTemp_bind fun closure =>
    .skip createBlock fun bodyBlock => ?_
  have run : Ignores v (do
      WalkT.startBlock bodyBlock
      let w ← body
      WalkT.endRun w bodyBlock after) :=
    .skip (startBlock bodyBlock) fun _ => hb.feed fun w =>
      (endRun w bodyBlock after).congr (by simp) Iff.rfl
  have land : ∀ landing, Ignores v (WalkT.build (·.land landing bodyBlock after)) :=
    fun landing => build fun _ rooted => .land rooted landing bodyBlock after
  have behind : Ignores v (do
      WalkT.branch none bodyBlock after
      let landing ← WalkT.reserveBlock
      WalkT.withTargets ⟨some after, some landing, some bodyBlock, none⟩ do
        WalkT.startBlock bodyBlock
        let w ← body
        WalkT.endRun w bodyBlock after
      WalkT.build (·.land landing bodyBlock after)
      WalkT.startBlock after) :=
    .skip ((branch none bodyBlock after).congr (by simp) Iff.rfl) fun _ =>
      .skip reserveBlock fun landing => .skip (withTargets run) fun _ => .skip (land landing) fun _ =>
        startBlock after
  have sent : ∀ values, Clears v (v ∈ values.bindings ∨ v ∈ callee.bindings) (dest = some v)
      (WalkT.emit (.send dest callee values (.body bodyBlock))) := by
    intro values
    refine (emit (.send dest callee values (.body bodyBlock)) (Instruction.named nofun)).congr ?_
      Iff.rfl
    simp [Instruction.reads, BlockOperand.bindings, or_comm]
  have call := ha.bind fun values => (sent values).followed behind
  refine ((emit_closure closure bodyBlock clean).andThen call).congr ?_ ?_
  · tauto
  · tauto

end

end Spends

end WalkT

end ControlFlow
