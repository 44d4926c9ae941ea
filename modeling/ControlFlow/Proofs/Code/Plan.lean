import ControlFlow.Lowering.Construction
import ControlFlow.Proofs.Code.Basic
import ControlFlow.Proofs.Syntax.Tree
/-!
# Plans

A plan says which structured code a lowering may give: the temporaries it may take are counted, the
kinds of jumps that are possible are known, and blocks do not occur. Plans are a `Construction`, so
every tree has its plan.

A plan may allow more than one code. What it leaves open is whether a call with a block literal takes
a temporary for the block where `next` lands, which depends on whether something leads there.
-/

namespace ControlFlow

/-- What code a lowering with a result in `α` may give: `p J t a c t'` says that with jumps of the
kinds in `J` and `t` as the next temporary it may give `c` with the result `a`, and that `t'` is
then the next temporary. -/
def Plan (α : Type) : Type := Set JumpKind → Nat → α → Code → Nat → Prop

namespace Plan

instance : Monad Plan where
  pure a := fun _ t a' c t' => a' = a ∧ c = .skip ∧ t' = t
  bind x f := fun J t b c t' =>
    ∃ a p t₁ q, x J t a p t₁ ∧ f a J t₁ b q t' ∧ c = .seq p q

/-- Code that leads to the label at its end. -/
def thenLeave (body : Plan Unit) : Plan Unit := fun J t u c t' =>
  ∃ p, body J t u p t' ∧ c = .seq p .leave

/-- One condition with its body, and what is done where the condition fails. -/
def clause (on : Bool) (condition : Plan Binding) (body : Plan Unit) :
    Option (Plan Unit) → Plan Unit
  | none => fun J t u c t' =>
    ∃ v p t₁ q, condition J t v p t₁ ∧ body J t₁ u q t' ∧ c = .clause on p v q
  | some rest => fun J t u c t' =>
    ∃ v p t₁ q t₂ r, condition J t v p t₁ ∧ body J t₁ () q t₂ ∧ rest J t₂ u r t' ∧
      c = .clauseElse on p v q r

/-- What follows the body of a conditional, if anything is left. -/
def alternative : Alternative Plan → Option (Plan Unit)
  | .nothing => none
  | .last body => some (thenLeave body)
  | .clause condition body rest => some (clause true condition body (alternative rest))

/-- Tests one after the other. -/
def tests : List (Plan Binding) → Plan Unit
  | [] => pure ()
  | x :: xs => fun J t u c t' =>
    ∃ v p t₁ q, x J t v p t₁ ∧ tests xs J t₁ u q t' ∧ c = .seq (.test p v) q

/-- The clauses of a `case`. -/
def clauses : Clauses Plan → Plan Unit
  | .last body => thenLeave body
  | .clause xs body rest => fun J t u c t' =>
    ∃ p t₁ q t₂ r, tests xs J t () p t₁ ∧ body J t₁ () q t₂ ∧ clauses rest J t₂ u r t' ∧
      c = .seq (.select p q) r

/-- The copies of an `ensure` clause, one for each of the given kinds of jumps that is possible. -/
def copies (clause : Plan Unit) (J : Set JumpKind) (f : JumpKind → Code) :
    List JumpKind → Nat → Nat → Prop
  | [], t, t' => t' = t
  | kind :: kinds, t, t' =>
    (kind ∈ J ∧ ∃ t₁, clause J t () (f kind) t₁ ∧ copies clause J f kinds t₁ t') ∨
      (kind ∉ J ∧ f kind = .skip ∧ copies clause J f kinds t t')

lemma copies_congr {clause : Plan Unit} {J : Set JumpKind} {f g : JumpKind → Code}
    {kinds : List JumpKind} (h : ∀ kind ∈ kinds, f kind = g kind) {t t' : Nat}
    (hf : copies clause J f kinds t t') : copies clause J g kinds t t' := by
  induction kinds generalizing t with
  | nil => exact hf
  | cons kind kinds ih =>
    rw [List.forall_mem_cons] at h
    rcases hf with ⟨hk, t₁, hc, hr⟩ | ⟨hk, hs, hr⟩
    · exact Or.inl ⟨hk, t₁, h.1 ▸ hc, ih h.2 hr⟩
    · exact Or.inr ⟨hk, h.1 ▸ hs, ih h.2 hr⟩

instance : Construction Plan where
  failAt _ _ := fun _ _ _ _ _ => False
  nested _ _ inner := inner
  allocTemp := fun _ t a c t' => a = .temporary t ∧ c = .alloc ∧ t' = t + 1
  emit i plain := fun _ t _ c t' => c = .emit i plain ∧ t' = t
  jumpOut _ kind before := fun J t u c t' =>
    kind ∈ J ∧ ∃ p, before J t u p t' ∧ c = .seq p (.jump kind)
  twoWays test on first second := fun J t u c t' =>
    ∃ v p t₁ q t₂ r, test J t v p t₁ ∧ first J t₁ () q t₂ ∧ second J t₂ u r t' ∧
      c = .twoWays p v on q r
  detour v on way := fun J t u c t' => ∃ p, way J t u p t' ∧ c = .detour v on p
  conditional on condition body rest := fun J t u c t' =>
    ∃ w, clause on condition body (alternative rest) J t u w t' ∧ c = .join w
  select subject cases := fun J t u c t' =>
    ∃ v p t₁ w, subject J t v p t₁ ∧ clauses (cases v) J t₁ u w t' ∧ c = .join (.seq p w)
  loop sense condition body := fun J t _ c t' =>
    ∃ v p t₁ q t₂ v' r, condition (J ∪ JumpKind.ofLoop) t v p t₁ ∧
      body (J ∪ JumpKind.ofLoop) t₁ () q t₂ ∧ condition (J ∪ JumpKind.ofLoop) t₂ v' r t' ∧
      c = .loop (sense = .whileTrue) p v q r v'
  guarded body ensure := fun J t u c t' =>
    match ensure with
    | none => ∃ p, body J t u p t' ∧ c = .block p
    | some clause =>
      ∃ f t₁ p t₂ q, copies clause J f JumpKind.all t t₁ ∧ body J t₁ () p t₂ ∧
        clause J t₂ u q t' ∧ c = .guarded f p q
  blockCall params dest callee args body := fun J t _ c t' =>
    ∃ values p t₁ v q t₂, args J (t + 1) values p t₁ ∧ body (J ∪ JumpKind.ofLoop) t₁ v q t₂ ∧
      (t' = t₂ ∨ t' = t₂ + 1) ∧
      c = .blockCall params (.temporary t) dest callee p values q v

end Plan

end ControlFlow
