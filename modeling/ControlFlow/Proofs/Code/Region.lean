import ControlFlow.Lowering.Node
import ControlFlow.Lowering.Scheme
import ControlFlow.Proofs.Graph.Growth
import ControlFlow.Proofs.Lowering.Yields
/-!
# Regions

The layout of statements with an `ensure` clause, stage by stage: an entry jump, a copy of the clause
for each kind of jump that leads somewhere, the statements, and the clause once more for the way
through. `Region.Runs` says what is walked in each stage.
-/

namespace ControlFlow

/-- A copy of an `ensure` clause, which the jumps of one kind lead through. -/
structure Copy where
  kind : JumpKind
  /-- Where jumps of this kind lead outside. -/
  target : BlockName
  /-- The builder in front of the copy. -/
  before : Builder
  /-- The builder at the end of the clause. -/
  done : Builder

namespace Copy

variable (c : Copy)

/-- The block where jumps land. -/
def landing : BlockName := c.before.fresh

/-- The builder at the start of the clause. -/
def start : Builder :=
  (c.before.created.note (.redirected c.kind c.landing)).startBlock c.landing

/-- The builder behind the copy. -/
def after : Builder := c.done.jump c.target

/-- The blocks of the copy. -/
def blocks : Set BlockName := c.before.since c.after

end Copy

/-- Copies one behind the other, for those of some kinds of jumps that lead somewhere. They start with
the landings `inner` and end with `inner'`. -/
inductive Copies (T : JumpTargets) :
    List JumpKind → JumpTargets → Builder → List Copy → JumpTargets → Builder → Prop where
  | nil {inner : JumpTargets} {b : Builder} : Copies T [] inner b [] inner b
  | inactive {kind : JumpKind} {kinds : List JumpKind} {inner inner' : JumpTargets}
      {b b' : Builder} {cs : List Copy} (h : T.get? kind = none)
      (rest : Copies T kinds inner b cs inner' b') : Copies T (kind :: kinds) inner b cs inner' b'
  | active {kind : JumpKind} {kinds : List JumpKind} {inner inner' : JumpTargets}
      {b done b' : Builder} {cs : List Copy} {target : BlockName} (h : T.get? kind = some target)
      (rest : Copies T kinds (inner.set kind b.fresh) (done.jump target) cs inner' b') :
      Copies T (kind :: kinds) inner b (⟨kind, target, b, done⟩ :: cs) inner' b'

namespace Copies

variable {T inner inner' : JumpTargets} {kinds : List JumpKind} {b b' : Builder} {cs : List Copy}

lemma kind_mem (h : Copies T kinds inner b cs inner' b') : ∀ c ∈ cs, c.kind ∈ kinds := by
  induction h with
  | nil => simp
  | inactive _ _ ih => exact fun c hc => .tail _ (ih c hc)
  | active _ _ ih =>
    rintro c (_ | ⟨_, hc⟩)
    · exact .head _
    · exact .tail _ (ih c hc)

/-- Each copy leads where the jumps of its kind lead outside. -/
lemma target (h : Copies T kinds inner b cs inner' b') :
    ∀ c ∈ cs, T.get? c.kind = some c.target := by
  induction h with
  | nil => simp
  | inactive _ _ ih => exact ih
  | active ht _ ih =>
    rintro c (_ | ⟨_, hc⟩)
    · exact ht
    · exact ih c hc

end Copies

/-- The layout of statements with an `ensure` clause. -/
structure Region where
  /-- Where jumps lead outside. -/
  targets : JumpTargets
  start : Builder
  copies : List Copy
  /-- The landings of the copies. -/
  inner : JumpTargets
  /-- The builder behind the copies. -/
  landed : Builder
  /-- The builder at the end of the statements. -/
  left : Builder
  /-- The builder at the end of the clause on the way through. -/
  done : Builder
  chain : Copies targets JumpKind.all {} (start.created.jump start.fresh) copies inner landed

namespace Region

variable (r : Region)

/-- The block where the statements start. -/
def bodyBlock : BlockName := r.start.fresh

/-- Where jumps lead inside. -/
def bodyTargets : JumpTargets := r.targets.overlay r.inner

/-- The builder at the start of the statements. -/
def bodyStart : Builder := (r.landed.note (.targetsNow r.bodyTargets)).startBlock r.bodyBlock

/-- The builder behind the statements. -/
def restored : Builder := r.left.note (.targetsRestored r.targets)

/-- The block where the clause starts on the way through. -/
def ensureBlock : BlockName := r.restored.fresh

/-- The block behind the clause. -/
def after : BlockName := r.restored.created.fresh

/-- The builder at the start of the clause on the way through. -/
def clauseStart : Builder := r.restored.created.created.startBlock r.ensureBlock

/-- The builder behind all of it. -/
def finish : Builder := r.done.startBlock r.after

/-- The statements and the clause of the region are walked in its stages, at some depth. -/
structure Runs (depth : Nat) (body clause : Walk Unit) : Prop where
  copy : ∀ c ∈ r.copies, clause.Yields ⟨c.start, r.targets, depth⟩ () ⟨c.done, r.targets, depth⟩
  body : body.Yields ⟨r.bodyStart, r.bodyTargets, depth⟩ () ⟨r.left, r.bodyTargets, depth⟩
  clause : clause.Yields ⟨r.clauseStart, r.targets, depth⟩ () ⟨r.done, r.targets, depth⟩

end Region

namespace WalkT

variable {x y : Walk Unit} {b : Builder} {T : JumpTargets} {d : Nat} {s' : WalkState}

/-- Copies are walked one behind the other. -/
lemma yields_landings (hy : y.Steady) {kinds : List JumpKind} {inner inner' : JumpTargets}
    (h : (landings T y kinds inner).Yields ⟨b, T, d⟩ inner' s') :
    ∃ cs b', s' = ⟨b', T, d⟩ ∧ Copies T kinds inner b cs inner' b' ∧
      ∀ c ∈ cs, y.Yields ⟨c.start, T, d⟩ () ⟨c.done, T, d⟩ := by
  induction kinds generalizing b inner with
  | nil =>
    obtain ⟨rfl, rfl⟩ := yields_pure.1 h
    exact ⟨[], b, rfl, .nil, by simp⟩
  | cons kind kinds ih =>
    unfold landings at h
    cases ht : T.get? kind with
    | none =>
      rw [ht] at h
      obtain ⟨cs, b', rfl, chain, hcs⟩ := ih h
      exact ⟨cs, b', rfl, .inactive ht chain, hcs⟩
    | some target =>
      rw [ht] at h
      simp only [createBlock, note, startBlock, yields_take_bind, yields_build_bind] at h
      obtain ⟨_, _, hc, h⟩ := yields_bind.1 h
      obtain ⟨done, rfl⟩ := hy _ _ _ _ _ hc
      simp only [jump, yields_build_bind] at h
      obtain ⟨cs, b', rfl, chain, hcs⟩ := ih h
      refine ⟨_, b', rfl, .active ht chain, ?_⟩
      rintro c (_ | ⟨_, hc'⟩)
      · exact hc
      · exact hcs c hc'

/-- Statements with an `ensure` clause are walked in the stages of a region. -/
lemma yields_guarded (hx : x.Steady) (hy : y.Steady) {u : Unit}
    (h : (guarded x (some y)).Yields ⟨b, T, d⟩ u s') :
    ∃ r : Region, r.targets = T ∧ r.start = b ∧ r.Runs d x y ∧ s' = ⟨r.finish, T, d⟩ := by
  simp only [guarded, createBlock, jump, yields_take_bind, yields_build_bind, yields_get_bind] at h
  obtain ⟨inner, _, h₁, h⟩ := yields_bind.1 h
  obtain ⟨cs, landed, rfl, chain, copy⟩ := yields_landings hy h₁
  obtain ⟨_, _, h₂, h⟩ := yields_bind.1 h
  obtain ⟨s₂, body, rfl⟩ := yields_withTargets.1 h₂
  simp only [startBlock, yields_build_bind] at body
  obtain ⟨left, rfl⟩ := hx _ _ _ _ _ body
  simp only [startBlock, yields_take_bind, yields_build_bind] at h
  obtain ⟨_, _, clause, h⟩ := yields_bind.1 h
  obtain ⟨done, rfl⟩ := hy _ _ _ _ _ clause
  exact ⟨⟨T, b, cs, inner, landed, left, done, chain⟩, rfl, rfl, ⟨copy, body, clause⟩,
    yields_build.1 h⟩

end WalkT

end ControlFlow
