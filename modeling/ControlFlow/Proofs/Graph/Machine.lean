import ControlFlow.Proofs.Graph.View
/-!
# Running a graph

A machine says what instructions do to its state and which ways a branch may take. A graph is run from
point to point, where a point is a block with the number of its instructions that are done.
-/

namespace ControlFlow

/-- What instructions do to a state, and which ways a branch may take. -/
structure Machine (σ : Type) where
  act : Instruction → σ → σ
  /-- Whether a branch may take its first way (`true`) or its second one. -/
  takes : Option Binding → σ → Bool → Prop

/-- A branch takes at most one way. -/
def Machine.Deterministic {σ : Type} (M : Machine σ) : Prop :=
  ∀ c s way way', M.takes c s way → M.takes c s way' → way = way'

/-- A block and the number of its instructions that are done. -/
structure Point where
  block : BlockName
  index : Nat

namespace Point

/-- The start of a block. -/
def start (n : BlockName) : Point := ⟨n, 0⟩

/-- The point behind one more instruction. -/
def next (p : Point) : Point := ⟨p.block, p.index + 1⟩

end Point

namespace Graph

variable {σ : Type}

/-- The instruction at a point. -/
def instruction? (g : Graph) (p : Point) : Option Instruction := (g.code p.block)[p.index]?

/-- One step of a run. -/
inductive Step (g : Graph) (M : Machine σ) : Point × σ → Point × σ → Prop where
  | act {p : Point} {s : σ} {i : Instruction} (h : g.instruction? p = some i)
      (plain : i.isTerminator = false) : Step g M (p, s) (p.next, M.act i s)
  | jump {p : Point} {s : σ} {target : BlockName} (h : g.instruction? p = some (.jump target)) :
      Step g M (p, s) (.start target, s)
  | branch {p : Point} {s : σ} {c : Option Binding} {ifTrue ifFalse : BlockName} {way : Bool}
      (h : g.instruction? p = some (.branch c ifTrue ifFalse)) (takes : M.takes c s way) :
      Step g M (p, s) (.start (if way then ifTrue else ifFalse), s)

/-- A number of steps. -/
inductive Run (g : Graph) (M : Machine σ) : Nat → Point × σ → Point × σ → Prop where
  | refl {C : Point × σ} : Run g M 0 C C
  | head {k : Nat} {C C₁ C₂ : Point × σ} (first : g.Step M C C₁) (rest : Run g M k C₁ C₂) :
      Run g M (k + 1) C C₂

variable {g : Graph} {M : Machine σ} {C C₁ C₂ : Point × σ} {j k : Nat}

lemma Step.run (h : g.Step M C C₁) : g.Run M 1 C C₁ := .head h .refl

section

variable {p : Point} {s : σ} (h : g.Step M (p, s) C)

include h

lemma Step.of_plain {i : Instruction} (hi : g.instruction? p = some i)
    (plain : i.isTerminator = false) : C = (p.next, M.act i s) := by
  cases h with
  | act hi' _ => rw [Option.mem_unique hi hi']
  | jump hi' =>
    obtain rfl := Option.mem_unique hi hi'
    cases plain
  | branch hi' _ =>
    obtain rfl := Option.mem_unique hi hi'
    cases plain

lemma Step.of_jump {n : BlockName} (hi : g.instruction? p = some (.jump n)) :
    C = (.start n, s) := by
  cases h with
  | act hi' plain =>
    obtain rfl := Option.mem_unique hi hi'
    cases plain
  | jump hi' => rw [Instruction.jump.inj (Option.mem_unique hi hi')]
  | branch hi' _ => cases Option.mem_unique hi hi'

lemma Step.of_branch {c : Option Binding} {x y : BlockName}
    (hi : g.instruction? p = some (.branch c x y)) :
    ∃ way, M.takes c s way ∧ C = (.start (if way then x else y), s) := by
  cases h with
  | act hi' plain =>
    obtain rfl := Option.mem_unique hi hi'
    cases plain
  | jump hi' => cases Option.mem_unique hi hi'
  | branch hi' takes =>
    obtain ⟨rfl, rfl, rfl⟩ := Instruction.branch.inj (Option.mem_unique hi hi')
    exact ⟨_, takes, rfl⟩

end

lemma Run.trans (h : g.Run M j C C₁) (h' : g.Run M k C₁ C₂) : g.Run M (j + k) C C₂ := by
  induction h with
  | refl => rwa [Nat.zero_add]
  | head first _ ih =>
    rw [Nat.add_right_comm]
    exact .head first (ih h')

/-- A run is a shorter run and what is left of it. -/
lemma Run.split (h : g.Run M (j + k) C C₂) : ∃ C₁, g.Run M j C C₁ ∧ g.Run M k C₁ C₂ := by
  induction j generalizing C with
  | zero => exact ⟨C, .refl, by rwa [Nat.zero_add] at h⟩
  | succ j ih =>
    rw [Nat.add_right_comm] at h
    cases h with
    | head first rest =>
      obtain ⟨C₁, h₁, h₂⟩ := ih rest
      exact ⟨C₁, .head first h₁, h₂⟩

/-- No step leads on from a point without an instruction. -/
lemma Run.eq_of_end {p : Point} {s : σ} (h : g.instruction? p = none) (r : g.Run M k (p, s) C) :
    k = 0 ∧ C = (p, s) := by
  cases r with
  | refl => exact ⟨rfl, rfl⟩
  | head first _ => cases first <;> simp_all

/-- A stretch of instructions that stay in their block is run from its start to its end. -/
lemma run_plain {n : BlockName} {before is behind : List Instruction} {s : σ}
    (code : g.code n = before ++ (is ++ behind)) (plain : ∀ i ∈ is, i.isTerminator = false) :
    g.Run M is.length (⟨n, before.length⟩, s)
      (⟨n, before.length + is.length⟩, is.foldl (fun s i => M.act i s) s) := by
  induction is generalizing before s with
  | nil => exact .refl
  | cons i is ih =>
    have here : g.instruction? ⟨n, before.length⟩ = some i := by simp [instruction?, code]
    have split : g.code n = (before ++ [i]) ++ (is ++ behind) := by simpa using code
    have rest := ih (s := M.act i s) split fun j hj => plain j (.tail _ hj)
    rw [List.length_append, List.length_singleton, Nat.add_assoc, Nat.add_comm 1] at rest
    exact .head (.act here (plain i (.head _))) rest

/-- A block that ends in a jump is run to the target of the jump. -/
lemma run_block {n m : BlockName} {is : List Instruction} {s : σ} (code : g.code n = is ++ [.jump m])
    (plain : ∀ i ∈ is, i.isTerminator = false) :
    g.Run M (is.length + 1) (.start n, s) (.start m, is.foldl (fun s i => M.act i s) s) := by
  have last : g.instruction? ⟨n, is.length⟩ = some (.jump m) := by simp [instruction?, code]
  have split : g.code n = [] ++ (is ++ [.jump m]) := code
  have body := run_plain (M := M) (s := s) split plain
  rw [List.length_nil, Nat.zero_add] at body
  exact body.trans (Step.jump last).run

/-! ## Machines that leave no choice -/

lemma Step.unique (hM : M.Deterministic) (h : g.Step M C C₁) (h' : g.Step M C C₂) : C₁ = C₂ := by
  cases h with
  | act hi plain => exact (h'.of_plain hi plain).symm
  | jump hi => exact (h'.of_jump hi).symm
  | branch hi takes =>
    obtain ⟨way, takes', rfl⟩ := h'.of_branch hi
    rw [hM _ _ _ _ takes takes']

lemma Run.unique (hM : M.Deterministic) (h : g.Run M k C C₁) (h' : g.Run M k C C₂) : C₁ = C₂ := by
  induction h with
  | refl =>
    cases h'
    rfl
  | head first _ ih =>
    cases h' with
    | head first' rest =>
      obtain rfl := first.unique hM first'
      exact ih rest

/-- Of two runs from the same point the longer one goes on from the end of the shorter one. -/
lemma Run.continues (hM : M.Deterministic) (h : g.Run M j C C₁) (h' : g.Run M k C C₂)
    (le : j ≤ k) : g.Run M (k - j) C₁ C₂ := by
  rw [← Nat.add_sub_of_le le] at h'
  obtain ⟨C', h₁, h₂⟩ := h'.split
  obtain rfl := h.unique hM h₁
  exact h₂

end Graph

end ControlFlow
