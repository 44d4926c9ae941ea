import Mathlib.Tactic.Common
import ControlFlow.Lowering.Walk
/-!
# How walks end

A walk that ends with a result is taken apart here into the walks that it consists of.
-/

namespace ControlFlow

namespace WalkT

variable {α β : Type} {s s' : WalkState} {a : α}

/-- The walk ends in a state with a result. -/
def Yields (w : Walk α) (s : WalkState) (a : α) (s' : WalkState) : Prop :=
  w.run.run s = (.ok a, s')

variable {b : Builder} {T : JumpTargets} {d : Nat} {w : Walk α} {info : Info} {r : β}

lemma yields_iff_run : w.Yields s a s' ↔ w.run.run s = (.ok a, s') := Iff.rfl

lemma exists_yields_of_isOk (h : (w.run.run s).1.isOk = true) : ∃ a s', w.Yields s a s' := by
  rcases hw : w.run.run s with ⟨_ | a, s'⟩
  · rw [hw] at h
    cases h
  · exact ⟨a, s', hw⟩

lemma yields_pure {a' : α} : (pure a : Walk α).Yields s a' s' ↔ a' = a ∧ s' = s := by
  simp only [Yields, ExceptT.run_pure, StateT.run_pure]
  exact ⟨fun h => by cases h; exact ⟨rfl, rfl⟩, fun ⟨h, h'⟩ => by rw [h, h']; rfl⟩

lemma yields_bind {x : Walk α} {f : α → Walk β} {b : β} :
    (x >>= f).Yields s b s' ↔ ∃ a s₁, x.Yields s a s₁ ∧ (f a).Yields s₁ b s' := by
  simp only [Yields, ExceptT.run_bind, StateT.run_bind]
  rcases hx : x.run.run s with ⟨r, s₁⟩
  cases r with
  | ok a =>
    constructor
    · exact fun h => ⟨a, s₁, rfl, h⟩
    · rintro ⟨_, _, h₁, h₂⟩
      cases h₁
      exact h₂
  | error e =>
    constructor
    · intro h
      cases h
    · rintro ⟨_, _, h₁, -⟩
      cases h₁

lemma yields_build {f : Builder → Builder} {u : Unit} :
    (build f).Yields ⟨b, T, d⟩ u s' ↔ s' = ⟨f b, T, d⟩ := by
  constructor
  · intro h
    cases h
    rfl
  · rintro rfl
    rfl

lemma yields_take {f : Builder → α × Builder} :
    (take f).Yields ⟨b, T, d⟩ a s' ↔ a = (f b).1 ∧ s' = ⟨(f b).2, T, d⟩ := by
  constructor
  · intro h
    cases h
    exact ⟨rfl, rfl⟩
  · rintro ⟨rfl, rfl⟩
    rfl

lemma yields_build_bind {f : Builder → Builder} {g : Unit → Walk β} :
    (build f >>= g).Yields ⟨b, T, d⟩ r s' ↔ (g ()).Yields ⟨f b, T, d⟩ r s' := Iff.rfl

lemma yields_take_bind {f : Builder → α × Builder} {g : α → Walk β} :
    (take f >>= g).Yields ⟨b, T, d⟩ r s' ↔ (g (f b).1).Yields ⟨(f b).2, T, d⟩ r s' := Iff.rfl

lemma yields_get_bind {g : WalkState → Walk β} :
    (get >>= g).Yields s r s' ↔ (g s).Yields s r s' := Iff.rfl

lemma not_yields_failAt {fault : LowerFault} : ¬ (failAt info fault : Walk α).Yields s a s' := by
  intro h
  cases h

lemma yields_jumpTarget {kind : JumpKind} {n : BlockName} :
    (jumpTarget info kind).Yields ⟨b, T, d⟩ n s' ↔ T.get? kind = some n ∧ s' = ⟨b, T, d⟩ := by
  unfold jumpTarget
  rw [yields_get_bind]
  cases T.get? kind with
  | some name =>
    rw [Option.some_inj, @eq_comm _ name n]
    exact yields_pure
  | none => exact ⟨fun h => absurd h not_yields_failAt, fun h => by simp at h⟩

lemma yields_nested_iff {env : Environment} :
    (nested env info w).Yields ⟨b, T, d⟩ a s' ↔ d < env.maxDepth ∧
      ∃ s₁, w.Yields ⟨b, T, d + 1⟩ a s₁ ∧ s' = { s₁ with depth := s₁.depth - 1 } := by
  unfold Yields nested
  simp only [ExceptT.run_mk, StateT.run]
  split
  · rename_i full
    exact iff_of_false (fun h => by cases h) fun h => absurd h.1 (Nat.not_lt.2 full)
  · rename_i free
    rcases hw : ExceptT.run w ⟨b, T, d + 1⟩ with ⟨r, s₁⟩
    constructor
    · intro h
      cases h
      exact ⟨Nat.not_le.1 free, s₁, rfl, rfl⟩
    · rintro ⟨-, _, inner, rfl⟩
      cases inner
      rfl

lemma yields_nested {env : Environment}
    (h : (nested env info w).Yields ⟨b, T, d⟩ a s') :
    ∃ s₁, w.Yields ⟨b, T, d + 1⟩ a s₁ ∧ s' = { s₁ with depth := s₁.depth - 1 } :=
  (yields_nested_iff.1 h).2

lemma yields_withTargets {overrides : JumpTargets} :
    (withTargets overrides w).Yields ⟨b, T, d⟩ a s' ↔
      ∃ s₁, w.Yields ⟨b.note (.targetsNow (T.overlay overrides)), T.overlay overrides, d⟩ a s₁ ∧
        s' = ⟨s₁.builder.note (.targetsRestored T), T, s₁.depth⟩ := by
  unfold Yields withTargets
  simp only [ExceptT.run_mk, StateT.run]
  rcases hw : ExceptT.run w
    ⟨b.note (.targetsNow (T.overlay overrides)), T.overlay overrides, d⟩ with ⟨r, s₁⟩
  constructor
  · intro h
    cases h
    exact ⟨s₁, rfl, rfl⟩
  · rintro ⟨_, inner, rfl⟩
    cases inner
    rfl

/-- Whenever the walk ends with a result, targets and depth are what they were. -/
def Steady (w : Walk α) : Prop :=
  ∀ b T d a s', w.Yields ⟨b, T, d⟩ a s' → ∃ b', s' = ⟨b', T, d⟩

end WalkT

end ControlFlow
