import ControlFlow.Proofs.Lowering.Congruence
import ControlFlow.Proofs.Lowering.Limit
/-!
# Places in trees and in errors

Walks look at the places of nodes only to put them into errors. So trees that are alike are lowered to
the same graph, or fail with the same fault. This is shown in two steps. Walks whose errors are looked
at in some view, such as one that forgets places, are a construction of their own, which makes of a
tree what is made without the view. And where places are forgotten, trees that are alike are the same
to this construction.
-/

namespace ControlFlow

namespace WalkT

variable {α β : Type} (view : LowerError → LowerError)

lemma adapt_apply (w : Walk α) (s : WalkState) :
    w.adapt view s = ((w s).1.mapError view, (w s).2) := rfl

lemma adapt_bind (w : Walk α) (f : α → Walk β) :
    ExceptT.adapt view (w >>= f) = w.adapt view >>= fun a => (f a).adapt view := by
  funext s
  have step : ∀ (v : Walk α) (g : α → Walk β), (v >>= g) s =
      match v s with
      | (.ok a, s') => g a s'
      | (.error e, s') => (.error e, s') := by
    intro v g
    show (ExceptT.bindCont g (v s).1) (v s).2 = _
    rcases v s with ⟨_ | _, _⟩ <;> rfl
  rw [adapt_apply, step, step, adapt_apply]
  rcases w s with ⟨_ | a, s'⟩
  · rfl
  · exact (adapt_apply view (f a) s').symm

/-- Walks whose errors are seen in a view. -/
def Variant.viewed : Variant Id where
  failAt info fault := throw (view (.atNode info fault))
  nested env info w := ExceptT.mk fun s =>
    if env.maxDepth ≤ s.depth then (.error (view (.atNode info (.depth env.maxDepth))), s)
    else deeper w s
  select := WalkT.select
  failAt_bind _ _ _ := rfl

/-- Every step does in a view what it does without it. -/
lemma adapt_steps : AllSteps fun _ _ _ _ (w w' : Walk _) => w' = w.adapt view where
  pure a := rfl
  bind {_ _ _ _ _ _ x _ f f'} hx hf := by
    cases hx
    obtain rfl : f' = fun a => (f a).adapt view := funext hf
    exact (adapt_bind view x f).symm
  create {_ _ _ _ f f'} hf := by
    obtain rfl : f' = fun a => (f a).adapt view := funext hf
    exact (adapt_bind view createBlock f).symm
  reserve {_ _ _ _ f f'} hf := by
    obtain rfl : f' = fun a => (f a).adapt view := funext hf
    exact (adapt_bind view reserveBlock f).symm
  allocTemp := rfl
  emit _ _ := rfl
  start _ := rfl
  land _ _ _ := rfl
  aside hx hy := by
    cases hx
    cases hy
    simp only [adapt_bind]
    rfl
  inLoop _ _ _ hx := by
    cases hx
    rfl
  note _ := rfl
  targets {_ _ _ _ f f'} hf := by
    obtain rfl : f' = fun T => (f T).adapt view := funext hf
    exact (adapt_bind view get fun s => f s.targets).symm
  withTargets _ hx := by
    cases hx
    rfl

/-- What is lowered in a view is what is lowered without it, seen in the view. -/
lemma wholeTree_viewed (env : Environment) (root : Node) :
    (Variant.viewed view).wholeTree env root = (Lowering.wholeTree env root).adapt view := by
  have related : Construction.Related env env (fun _ => True)
      (Pairing.relation (fun _ _ _ _ (w w' : Walk _) => w' = w.adapt view) .plain (.viewed view)) := by
    refine (adapt_steps view).related
      ⟨rfl, fun _ _ _ _ _ => rfl, ?_, (adapt_steps view).select⟩
    intro _ _ α info w w' hw
    cases hw 0 ∅
    funext s
    show _ = ((WalkT.nested env info w s).1.mapError view, (WalkT.nested env info w s).2)
    by_cases full : env.maxDepth ≤ s.depth
    · rw [show WalkT.nested env info w s = _ from nested_of_le info w full]
      exact if_pos full
    · rw [show WalkT.nested env info w s = _ from nested_of_lt info w full]
      exact if_neg full
  exact (adapt_steps view).wholeTree related root

end WalkT

namespace Lowering

open Construction WalkT

variable {types : String → Option Binding} {options : Options} {root root' : Node}

/-- Trees that are the same in a view are lowered to the same graph, or fail with the same error in
the view. -/
lemma build_of_same (host : Host) {view : LowerError → LowerError}
    (same : root.Same (Varied (.viewed view)) ⟨types, options.maxDepth⟩ root')
    (refused : ∀ reason, view (.atNode root.info (.noStack options reason)) =
      view (.atNode root'.info (.noStack options reason))) :
    (build host types options root).mapError view = (build host types options root').mapError view := by
  let env : Environment := ⟨types, options.maxDepth⟩
  have whole : (wholeTree env root).adapt view = (wholeTree env root').adapt view := by
    rw [← wholeTree_viewed, ← wholeTree_viewed]
    simp only [Variant.wholeTree, env, same.value]
  -- the journals of both walks start with different names of roots
  have starts : (initial options root).Alike (initial options root') := ⟨⟨_, rfl⟩, rfl, rfl⟩
  have agrees := (Agrees.steps fun _ => False).wholeTree
    (Agrees.related env env rfl le_rfl fun h => absurd rfl h) root _ _ starts
  rw [build, build, run, run]
  cases options.refusal? host with
  | some reason => exact congrArg Except.error (refused reason)
  | none =>
    rcases agrees with ⟨_, _, stopped, _⟩ | ⟨r, s, s', ended, ended', ⟨_, same_builder⟩, -⟩
    · exact stopped.elim
    · have outcomes := congrFun whole (initial options root')
      rw [adapt_apply, adapt_apply, show wholeTree env root _ = _ from ended'] at outcomes
      rw [show outcome types options root = _ from ended]
      rcases h : outcome types options root' with ⟨r', s₂⟩
      rw [show wholeTree env root' _ = _ from h] at outcomes
      obtain ⟨results, rfl⟩ := Prod.mk.inj outcomes
      cases r with
      | ok _ =>
        cases r' with
        | ok _ => simp only [conclude, same_builder]
        | error _ => cases results
      | error e =>
        cases r' with
        | ok _ => cases results
        | error e' => exact congrArg Except.error (Except.error.inj results)

end Lowering

/-! ## Trees that are alike -/

/-- An error without its place. -/
def LowerError.forget (e : LowerError) : LowerError := ⟨e.fault, none, none⟩

namespace Lowering

open WalkT

/-- Where places are forgotten, nodes fail and nest in the same way. -/
lemma like_forget {i j : Info} (scope : i.scope = j.scope) :
    i.Like (Varied (.viewed LowerError.forget)) j where
  scope := scope
  failAt _ := rfl
  nested _ _ := rfl
  jumpOut _ _ := rfl

lemma same_of_alike (env : Environment) {n n' : Node} (h : n.Alike n') :
    n.Same (Varied (.viewed LowerError.forget)) env n' := by
  induction n' using Node.induction_below generalizing n with
  | step n' ih =>
    obtain @⟨i, j, k, l, binding, scope, kind⟩ := h
    refine same_of_rel (like_forget scope.symm) ?_ (kind.imp_mem fun role c d _ mem alike =>
      ih d (.child (Kind.mem_children.2 ⟨role, mem⟩)) alike)
    rw [binding]
    cases kind <;> rfl

/-- Trees that are alike are lowered to the same graph, or fail with the same fault. -/
lemma build_alike (host : Host) (types : String → Option Binding) (options : Options)
    {root root' : Node}
    (h : root.Alike root') :
    (∃ g, build host types options root = .ok g ∧ build host types options root' = .ok g) ∨
      ∃ e e', build host types options root = .error e ∧ build host types options root' = .error e' ∧
        e.fault = e'.fault := by
  have same := build_of_same host (same_of_alike ⟨types, options.maxDepth⟩ h) fun _ => rfl
  rcases hr : build host types options root with e | g <;>
    rcases hr' : build host types options root' with e' | g' <;> rw [hr, hr'] at same
  · exact Or.inr ⟨e, e', rfl, rfl, (LowerError.mk.inj (Except.error.inj same)).1⟩
  · cases same
  · cases same
  · exact Or.inl ⟨g, rfl, by rw [Except.ok.inj same]⟩

end Lowering

end ControlFlow
