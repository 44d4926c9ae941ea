import Mathlib.Control.Monad.Writer
import ControlFlow.Lowering.Build
import ControlFlow.Proofs.Lowering.Schemes
/-!
# The visits of a run

While a tree is lowered, nodes are walked one behind the other and inside of each other. A traced walk
takes note of that: of every node that it walks, with the states before and behind, and of the subject
of every `case` without candidates. The visits of a run are what the traced walk over the whole tree
takes note of.

Traced walks are a variant of walks, and they end as walks do: `erase` forgets the notes.
-/

namespace ControlFlow

/-- What a traced walk takes note of. -/
inductive Visit where
  /-- A node has been walked, and the walk has ended with a result in some state, or with an error. -/
  | node (info : Info) (before : WalkState) (after : Option WalkState)
  /-- A `case` without candidates has this subject. -/
  | subject (v : Binding)
deriving DecidableEq

/-- Clauses without a test. -/
def Clauses.isBare {m : Type → Type} : Clauses m → Bool
  | .last _ => true
  | .clause tests _ rest => tests.isEmpty && rest.isBare

instance : LawfulMonad (Writer (List Visit)) :=
  LawfulMonad.mk' _ (fun _ => rfl) (fun _ _ => rfl)
    (fun _ _ _ => Prod.ext rfl (List.append_assoc _ _ _)) (fun _ _ => rfl) (fun _ _ => rfl)
    (fun _ _ => rfl) (fun _ _ => Prod.ext rfl (List.append_nil _)) (fun _ _ => rfl)

/-- Walks that take notes. -/
abbrev Noting := WalkT (Writer (List Visit))

namespace WalkT

variable {α β : Type}

/-- Takes note of a visit. -/
def remark (v : Visit) : Noting Unit := ExceptT.mk fun s => do
  tell [v]
  return (.ok (), s)

/-- Takes note of a node behind the walk over it, however this ends. -/
def visiting (info : Info) (walk : Noting α) : Noting α := ExceptT.mk fun s => do
  let (result, s') ← walk.run s
  tell [.node info s (result.toOption.map fun _ => s')]
  return (result, s')

/-- Takes note of a subject if its clauses are bare. -/
def noticed (bare : Bool) (v : Binding) : Noting Binding := do
  if bare then remark (.subject v)
  return v

/-- The subject of some clauses, of which note is taken if they have no candidates. -/
def observed (subject : Noting Binding) (clauses : Binding → Clauses Noting) : Noting Binding := do
  let v ← subject
  noticed (clauses v).isBare v

/-- Walks that take note of their visits. -/
def Variant.traced : Variant (Writer (List Visit)) :=
  { plain with
    nested := fun env info w => visiting info (WalkT.nested env info w)
    select := fun subject clauses => WalkT.select (observed subject clauses) clauses }

end WalkT

/-- Walks that take note of their visits. -/
abbrev Traced := WalkT.Varied WalkT.Variant.traced

/-- The visits of the lowering of a tree, whether it ends with a graph or not. -/
def Lowering.visits (types : String → Option Binding) (options : Options) (root : Node) :
    List Visit :=
  (((WalkT.Variant.traced.wholeTree ⟨types, options.maxDepth⟩ root).run.run
    (initial options root)).run).2

/-! ## How traced walks end -/

namespace WalkT

variable {α β : Type} {s s' : WalkState} {V : List Visit} {T : JumpTargets} {d : Nat} {b : Builder}
  {w : Noting α} {r : Except LowerError α} {info : Info}

/-- The walk ends in a state, with a result or an error, and has taken note of some visits. -/
def Ends (t : Noting α) (s : WalkState) (r : Except LowerError α) (s' : WalkState)
    (V : List Visit) : Prop :=
  (t.run.run s).run = ((r, s'), V)

lemma ends_iff {p : (Except LowerError α × WalkState) × List Visit} (h : (w.run.run s).run = p) :
    w.Ends s r s' V ↔ r = p.1.1 ∧ s' = p.1.2 ∧ V = p.2 := by
  rw [Ends, h]
  constructor
  · rintro rfl
    exact ⟨rfl, rfl, rfl⟩
  · rintro ⟨rfl, rfl, rfl⟩
    rfl

lemma exists_ends (w : Noting α) (s : WalkState) : ∃ r s' V, w.Ends s r s' V := ⟨_, _, _, rfl⟩

lemma ends_pure {a : α} :
    (pure a : Noting α).Ends s r s' V ↔ r = .ok a ∧ s' = s ∧ V = [] := ends_iff rfl

lemma ends_failAt {fault : LowerFault} : (failAt info fault : Noting α).Ends s r s' V ↔
    r = .error (.atNode info fault) ∧ s' = s ∧ V = [] := ends_iff rfl

lemma ends_build {f : Builder → Builder} {r : Except LowerError Unit} :
    (build f : Noting Unit).Ends ⟨b, T, d⟩ r s' V ↔ r = .ok () ∧ s' = ⟨f b, T, d⟩ ∧ V = [] :=
  ends_iff rfl

lemma ends_take {f : Builder → α × Builder} : (take f : Noting α).Ends ⟨b, T, d⟩ r s' V ↔
    r = .ok (f b).1 ∧ s' = ⟨(f b).2, T, d⟩ ∧ V = [] := ends_iff rfl

lemma writer_run_bind {γ δ : Type} (x : Writer (List Visit) γ) (f : γ → Writer (List Visit) δ) :
    (x >>= f).run = ((f x.run.1).run.1, x.run.2 ++ (f x.run.1).run.2) := rfl

section

variable {x : Noting α} {f : α → Noting β} {r : Except LowerError β} {s₁ : WalkState}
  {V₁ V₂ : List Visit}

lemma Ends.bind_error {e : LowerError} (h : x.Ends s (.error e) s' V) :
    (x >>= f).Ends s (.error e) s' V := by
  simp only [Ends, ExceptT.run_bind, StateT.run_bind, writer_run_bind]
  rw [h]
  exact congrArg (Prod.mk _) (List.append_nil V)

lemma Ends.bind_ok {a : α} (h : x.Ends s (.ok a) s₁ V₁) (h' : (f a).Ends s₁ r s' V₂) :
    (x >>= f).Ends s r s' (V₁ ++ V₂) := by
  simp only [Ends, ExceptT.run_bind, StateT.run_bind, writer_run_bind]
  rw [h]
  exact congrArg (fun p => (p.1, V₁ ++ p.2)) h'

lemma Ends.of_bind (h : (x >>= f).Ends s r s' V) : (∃ e, r = .error e ∧ x.Ends s (.error e) s' V) ∨
    ∃ a s₁ V₁ V₂, x.Ends s (.ok a) s₁ V₁ ∧ (f a).Ends s₁ r s' V₂ ∧ V = V₁ ++ V₂ := by
  obtain ⟨r₁, s₁, V₁, first⟩ := exists_ends x s
  cases r₁ with
  | error e =>
    obtain ⟨rfl, rfl, rfl⟩ := (ends_iff (first.bind_error (f := f))).1 h
    exact Or.inl ⟨e, rfl, first⟩
  | ok a =>
    obtain ⟨r₂, s₂, V₂, second⟩ := exists_ends (f a) s₁
    obtain ⟨rfl, rfl, rfl⟩ := (ends_iff (first.bind_ok second)).1 h
    exact Or.inr ⟨a, s₁, V₁, V₂, first, second, rfl⟩

lemma Ends.of_bind_ok {c : β} (h : (x >>= f).Ends s (.ok c) s' V) :
    ∃ a s₁ V₁ V₂, x.Ends s (.ok a) s₁ V₁ ∧ (f a).Ends s₁ (.ok c) s' V₂ ∧ V = V₁ ++ V₂ := by
  simpa using h.of_bind

lemma ends_take_bind {f : Builder → α × Builder} {g : α → Noting β} :
    (take f >>= g).Ends ⟨b, T, d⟩ r s' V ↔ (g (f b).1).Ends ⟨(f b).2, T, d⟩ r s' V := Iff.rfl

lemma ends_build_bind {f : Builder → Builder} {g : Unit → Noting β} :
    (build f >>= g).Ends ⟨b, T, d⟩ r s' V ↔ (g ()).Ends ⟨f b, T, d⟩ r s' V := Iff.rfl

lemma ends_get_bind {f : WalkState → Noting β} :
    (get >>= f).Ends s r s' V ↔ (f s).Ends s r s' V := Iff.rfl

end

lemma Ends.append_nil (h : w.Ends s r s' V) : w.Ends s r s' (V ++ []) := by
  rwa [List.append_nil]

/-- A walk behind which the state is changed, and note is taken of some visits. -/
lemma Ends.map {f : _ → Writer (List Visit) (Except LowerError α × WalkState)}
    (h : w.Ends s r s' V) : (w.run.run s >>= f : Writer (List Visit) _).run =
      ((f (r, s')).run.1, V ++ (f (r, s')).run.2) := by
  rw [writer_run_bind, h]

lemma Ends.of_nested {env : Environment} (h : (nested env info w).Ends ⟨b, T, d⟩ r s' V) :
    (∃ e, r = .error e ∧ s' = ⟨b, T, d⟩ ∧ V = []) ∨
      ∃ s₁, w.Ends ⟨b, T, d + 1⟩ r s₁ V ∧ s' = { s₁ with depth := s₁.depth - 1 } := by
  simp only [Ends, nested, ExceptT.run_mk, StateT.run] at h
  split at h
  · cases h
    exact Or.inl ⟨_, rfl, rfl, rfl⟩
  · obtain ⟨r₁, s₁, V₁, inner⟩ := exists_ends w ⟨b, T, d + 1⟩
    cases inner.map.symm.trans h
    exact Or.inr ⟨s₁, inner.append_nil, rfl⟩

lemma Ends.of_withTargets {overrides : JumpTargets}
    (h : (withTargets overrides w).Ends ⟨b, T, d⟩ r s' V) :
    ∃ s₁, w.Ends ⟨b.note (.targetsNow (T.overlay overrides)), T.overlay overrides, d⟩ r s₁ V ∧
      s' = ⟨s₁.builder.note (.targetsRestored T), T, s₁.depth⟩ := by
  simp only [Ends, withTargets, ExceptT.run_mk, StateT.run] at h
  obtain ⟨r₁, s₁, V₁, inner⟩ := exists_ends w
    ⟨b.note (.targetsNow (T.overlay overrides)), T.overlay overrides, d⟩
  cases inner.map.symm.trans h
  exact ⟨s₁, inner.append_nil, rfl⟩

lemma Ends.of_visiting (h : (visiting info w).Ends s r s' V) :
    ∃ V₁, w.Ends s r s' V₁ ∧ V = V₁ ++ [.node info s (r.toOption.map fun _ => s')] := by
  simp only [Ends, visiting, ExceptT.run_mk, StateT.run] at h
  obtain ⟨r₁, s₁, V₁, inner⟩ := exists_ends w s
  cases inner.map.symm.trans h
  exact ⟨V₁, inner, rfl⟩

/-! ## Forgetting the notes -/

/-- What a walk does besides taking notes. -/
def erase (t : Noting α) : Walk α := ExceptT.mk fun s => (t.run.run s).run.1

lemma Ends.erase (h : w.Ends s r s' V) : (erase w).run.run s = (r, s') := congrArg Prod.fst h

/-- A walk that does not take notes ends as the one that does. -/
lemma exists_ends_of_erase (h : (erase w).run.run s = (r, s')) : ∃ V, w.Ends s r s' V := by
  obtain ⟨r₁, s₁, V, ends⟩ := exists_ends w s
  cases ends.erase.symm.trans h
  exact ⟨V, ends⟩

lemma erase_bind (x : Noting α) (f : α → Noting β) :
    erase (x >>= f) = erase x >>= fun a => erase (f a) := by
  funext s
  obtain ⟨r₁, s₁, V₁, first⟩ := exists_ends x s
  change (erase (x >>= f)).run.run s = (erase x >>= fun a => erase (f a)).run.run s
  rw [ExceptT.run_bind, StateT.run_bind, first.erase]
  cases r₁ with
  | error e => exact first.bind_error.erase
  | ok a =>
    obtain ⟨r₂, s₂, V₂, second⟩ := exists_ends (f a) s₁
    exact (first.bind_ok second).erase.trans second.erase.symm

lemma erase_observed (subject : Noting Binding) (clauses : Binding → Clauses Noting) :
    erase (observed subject clauses) = erase subject := by
  have same : ∀ bare v, erase (noticed bare v) = pure v := by
    intro bare v
    cases bare <;> rfl
  simp only [observed, erase_bind, same, bind_pure]

/-- Every step does what it does without notes. -/
lemma erase_steps : AllSteps fun _ _ _ _ (w : Walk _) (t : Noting _) => w = erase t where
  pure a := rfl
  bind {_ _ _ _ _ _ _ t _ f} hx hf := by
    cases hx
    rw [erase_bind, funext hf]
  create {_ _ _ _ f f'} hf := by
    rw [erase_bind, funext hf]
    rfl
  reserve {_ _ _ _ f f'} hf := by
    rw [erase_bind, funext hf]
    rfl
  allocTemp := rfl
  emit _ _ := rfl
  start _ := rfl
  land _ _ _ := rfl
  aside hx hy := by
    cases hx
    cases hy
    simp only [erase_bind]
    rfl
  inLoop _ _ _ hx := by
    cases hx
    rfl
  note _ := rfl
  targets {_ _ _ _ f f'} hf := by
    rw [erase_bind, funext hf]
    rfl
  withTargets _ hx := by
    cases hx
    rfl

/-- Traced walks do what walks do. -/
lemma erase_related (env : Environment) : Construction.Related env env (fun _ => True)
    (Pairing.relation (fun _ _ _ _ (w : Walk _) (t : Noting _) => w = erase t) .plain .traced) := by
  refine erase_steps.related ⟨rfl, fun _ _ _ _ _ => rfl, ?_, fun hs hc => ?_⟩
  · intro _ _ α info w t hw
    cases hw 0 ∅
    funext s
    change (WalkT.nested env info (erase t)).run.run s =
      (erase (visiting info (WalkT.nested env info t))).run.run s
    by_cases full : env.maxDepth ≤ s.depth
    · simp only [WalkT.nested, visiting, erase, ExceptT.run_mk, StateT.run, if_pos full]
      rfl
    · simp only [WalkT.nested, visiting, erase, ExceptT.run_mk, StateT.run, if_neg full]
      rfl
  · exact erase_steps.select (fun P L => (hs P L).trans (erase_observed _ _).symm) hc

end WalkT

namespace Lowering

variable {env : Environment} {types : String → Option Binding} {options : Options} {root n : Node}
  {s s' : WalkState} {V : List Visit}

lemma erase_value (env : Environment) (n : Node) :
    (value env n : Walk Binding) = WalkT.erase (value env n : Traced Binding) :=
  ((WalkT.erase_related env).everywhere n).value ⟨Set.univ, subset_rfl⟩ 0 ∅

lemma erase_effect (env : Environment) (n : Node) :
    (effect env n : Walk Unit) = WalkT.erase (effect env n : Traced Unit) :=
  ((WalkT.erase_related env).everywhere n).effect ⟨Set.univ, subset_rfl⟩ 0 ∅

/-- The traced walk over a tree ends as the lowering of the tree does, with all visits noted. -/
lemma ends_visits {r : Except LowerError Unit} {s : WalkState}
    (ended : outcome types options root = (r, s)) :
    (WalkT.Variant.traced.wholeTree ⟨types, options.maxDepth⟩ root).Ends (initial options root) r s
      (visits types options root) := by
  have erased := WalkT.erase_steps.wholeTree (WalkT.erase_related ⟨types, options.maxDepth⟩) root
  obtain ⟨V, ends⟩ := WalkT.exists_ends_of_erase
    ((congrArg (fun w : Walk Unit => w.run.run (initial options root)) erased).symm.trans ended)
  rwa [show visits types options root = V from congrArg Prod.snd ends]

/-- Note is taken of a node that is walked for its effects. -/
lemma mem_of_effect {u : Unit} (h : (effect env n : Traced Unit).Ends s (.ok u) s' V) :
    .node n.info s (some s') ∈ V := by
  obtain ⟨info, kind⟩ := n
  obtain ⟨V₁, -, rfl⟩ := h.of_visiting
  exact List.mem_append_right _ (List.mem_singleton.2 rfl)

/-- Note is taken of a node that is walked for its value. -/
lemma mem_of_value {v : Binding} (h : (value env n : Traced Binding).Ends s (.ok v) s' V) :
    .node n.info s (some s') ∈ V := by
  obtain ⟨info, kind⟩ := n
  obtain ⟨V₁, -, rfl⟩ := h.of_visiting
  exact List.mem_append_right _ (List.mem_singleton.2 rfl)

/-- The statements of a program are walked for the value of the last one. -/
lemma exists_ends_of_program {info : Info} {stmts : List Node} {u : Unit}
    (ended : outcome types options (.mk info (.program stmts)) = (.ok u, s)) :
    ∃ v s' V, (body ⟨types, options.maxDepth⟩ stmts : Traced Binding).Ends
        { initial options (.mk info (.program stmts)) with depth := 1 } (.ok v) s' V ∧
      V ⊆ visits types options (.mk info (.program stmts)) := by
  obtain ⟨v, s₁, V₁, V₂, walked, -, split⟩ := (ends_visits ended).of_bind_ok
  obtain ⟨V, nested, rfl⟩ := walked.of_visiting
  rcases nested.of_nested with ⟨e, ⟨⟩, -⟩ | ⟨s', inner, -⟩
  refine ⟨v, s', V, inner, ?_⟩
  rw [split, List.append_assoc]
  exact List.subset_append_left _ _

end Lowering

end ControlFlow
