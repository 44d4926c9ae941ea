import Mathlib.Tactic.Common
import ControlFlow.Lowering.Node
import ControlFlow.Proofs.Syntax.Shape
/-!
# Nodes that are lowered to the same

Two nodes are the same to a construction if nothing that lowering does with a node tells them apart:
as a value, as a statement, as an element, as a clause, as a block and as a target. A tree is lowered
to the same if nodes of it are replaced by nodes that are the same.
-/

namespace ControlFlow

open Construction Lowering

/-- Nodes with these annotations fail and nest in the same way, and stand in the same scope. -/
structure Info.Like (m : Type → Type) [Construction m] (i j : Info) : Prop where
  scope : i.scope = j.scope
  failAt {α : Type} (fault : LowerFault) : (failAt i fault : m α) = failAt j fault
  nested {α : Type} (env : Environment) (x : m α) : nested env i x = nested env j x
  jumpOut (kind : JumpKind) (x : m Unit) : jumpOut i kind x = jumpOut j kind x

lemma Info.Like.refl {m : Type → Type} [Construction m] (i : Info) : i.Like m i :=
  ⟨rfl, fun _ => rfl, fun _ _ => rfl, fun _ _ => rfl⟩

/-- Nodes that no part of lowering tells apart. -/
structure Node.Same (m : Type → Type) [Monad m] [Construction m] (env : Environment)
    (n n' : Node) : Prop where
  value : (value env n : m Binding) = value env n'
  effect : (effect env n : m Unit) = effect env n'
  splat : n.isSplat = n'.isSplat
  elements (klass array : Binding) (ns : List Node) :
    (elements env klass array (n :: ns) : m Unit) = elements env klass array (n' :: ns)
  discards (ns : List Node) : (discards env (n :: ns) : m Unit) = discards env (n' :: ns)
  alternative (result : Option Binding) :
    (alternative env result (some n) : Alternative m) = alternative env result (some n')
  clause (result : Option Binding) (subject : Binding) (unmatched : m Unit) (ns : List Node) :
    cases env result subject unmatched (n :: ns) = cases env result subject unmatched (n' :: ns)
  block (info : Info) (dest : Option Binding) (callee : Callee) (args : m Arguments)
    (pass : Option (m Binding)) :
    send info dest callee args pass (literal env (some n)) =
      send info dest callee args pass (literal env (some n'))
  assigned (info : Info) (v : Node) :
    (ownValue env info (.assign n v) : m Binding) = ownValue env info (.assign n' v)
  stored (info : Info) (v : Node) :
    (ownEffect env info (.assign n v) : m Unit) = ownEffect env info (.assign n' v)
  updated (info : Info) (result : Option Binding) (op : BinaryOp) (v : Node) :
    (construct env info result (.opAssign n op v) : m Unit) =
      construct env info result (.opAssign n' op v)
  counted (info : Info) (result : Option Binding) (iterable : Node) (ns : List Node) :
    (construct env info result (.forIn n iterable ns) : m Unit) =
      construct env info result (.forIn n' iterable ns)

namespace Lowering

variable {m : Type → Type} [Monad m] [Construction m] {env : Environment} {n n' n'' : Node}
  {ns ns' : List Node} {o o' : Option Node} {os os' : Option (List Node)} {i j : Info}
  {k l : Kind Node}

lemma same_refl (n : Node) : n.Same m env n := by
  constructor <;> intros <;> rfl

lemma same_symm (h : n.Same m env n') : n'.Same m env n := by
  obtain ⟨a, b, c, d, e, f, g, h, p, q, r, s⟩ := h
  constructor <;> intros <;> symm <;> apply_assumption

lemma same_trans (h : n.Same m env n') (h' : n'.Same m env n'') : n.Same m env n'' := by
  constructor <;> intros
  · exact h.value.trans h'.value
  · exact h.effect.trans h'.effect
  · exact h.splat.trans h'.splat
  · exact (h.elements ..).trans (h'.elements ..)
  · exact (h.discards _).trans (h'.discards _)
  · exact (h.alternative _).trans (h'.alternative _)
  · exact (h.clause ..).trans (h'.clause ..)
  · exact (h.block ..).trans (h'.block ..)
  · exact (h.assigned ..).trans (h'.assigned ..)
  · exact (h.stored ..).trans (h'.stored ..)
  · exact (h.updated ..).trans (h'.updated ..)
  · exact (h.counted ..).trans (h'.counted ..)

/-! ## Parts of nodes -/

variable (result : Option Binding) (like : i.Like m j)

section

variable (h : List.Forall₂ (Node.Same m env) ns ns')

include h

lemma body_congr : (body env ns : m Binding) = body env ns' := by
  induction h with
  | nil => rfl
  | cons head tail ih =>
    simp only [body, head.value, head.effect, ih]
    cases tail <;> rfl

lemma effects_congr : (effects env ns : m Unit) = effects env ns' := by
  induction h with
  | nil => rfl
  | cons head _ ih => simp only [effects, head.effect, ih]

lemma values_congr : (values env ns : m (List Binding)) = values env ns' := by
  induction h with
  | nil => rfl
  | cons head _ ih => simp only [values, head.value, ih]

lemma concat_congr (text : Binding) : (concat env text ns : m Binding) = concat env text ns' := by
  induction h generalizing text with
  | nil => rfl
  | cons head _ ih => simp only [concat, head.value, ih]

lemma candidates_congr (subject : Binding) :
    (candidates env subject ns : List (m Binding)) = candidates env subject ns' := by
  induction h with
  | nil => rfl
  | cons head _ ih => simp only [candidates, head.value, ih]

lemma elements_congr (klass array : Binding) :
    (elements env klass array ns : m Unit) = elements env klass array ns' := by
  induction h with
  | nil => rfl
  | @cons _ n' _ _ head _ ih =>
    rw [head.elements]
    obtain ⟨_, k⟩ := n'
    cases k <;> simp only [elements, ih]

lemma discards_congr : (discards env ns : m Unit) = discards env ns' := by
  induction h with
  | nil => rfl
  | @cons _ n' _ _ head _ ih =>
    rw [head.discards]
    obtain ⟨_, k⟩ := n'
    cases k <;> simp only [discards, ih]

lemma into_body_congr : (into result (body env ns) (effects env ns) : m Unit) =
      into result (body env ns') (effects env ns') := by
  rw [body_congr h, effects_congr h]

lemma cases_congr (subject : Binding) (unmatched : m Unit) :
    cases env result subject unmatched ns = cases env result subject unmatched ns' := by
  induction h with
  | nil => rfl
  | @cons _ n' _ _ head _ ih =>
    rw [head.clause]
    obtain ⟨_, k⟩ := n'
    cases k <;> simp only [cases, ih]

lemma splats_congr : ns.any (·.isSplat) = ns'.any (·.isSplat) := by
  induction h with
  | nil => rfl
  | cons head _ ih => rw [List.any_cons, List.any_cons, head.splat, ih]

include like in
lemma aggregate_congr :
    (aggregate env i fun klass array => elements env klass array ns : m Binding) =
      aggregate env j fun klass array => elements env klass array ns' := by
  simp only [aggregate, wellKnown, like.failAt, elements_congr h _ _]

include like in
lemma arguments_congr :
    (arguments ns (aggregate env i fun klass array => elements env klass array ns)
      (values env ns) : m Arguments) =
    arguments ns' (aggregate env j fun klass array => elements env klass array ns')
      (values env ns') := by
  rw [arguments, arguments, splats_congr h, values_congr h, aggregate_congr like h]

end

section

variable (h : Option.Rel (Node.Same m env) o o')

include h

lemma alternative_congr :
    (alternative env result o : Alternative m) = alternative env result o' := by
  cases h with
  | none => rfl
  | some h => exact h.alternative result

include like in
lemma receiver_congr : (receiver env i o : m Binding) = receiver env j o' := by
  cases h with
  | none => simp only [receiver, selfTemp, selfBinding, like.scope, like.failAt]
  | some h => exact h.value

lemma passed_congr : (passed env o : Option (m Binding)) = passed env o' := by
  cases h with
  | none => rfl
  | some h => simp only [passed, h.value]

include like in
lemma send_congr (dest : Option Binding) (callee : Callee)
    (args : m Arguments) (pass : Option (m Binding)) :
    send i dest callee args pass (literal env o) = send j dest callee args pass (literal env o') := by
  cases h with
  | none => rfl
  | @some _ n' h =>
    rw [h.block]
    cases (literal env (some n') : BlockLiteral m) <;> simp only [send, like.failAt]

end

lemma otherwise_congr (h : Option.Rel (List.Forall₂ (Node.Same m env)) os os') :
    (otherwise env result os : Alternative m) = otherwise env result os' := by
  cases h with
  | none => rfl
  | some h => simp only [otherwise, into_body_congr result h]

lemma remaining_congr (h : Option.Rel (List.Forall₂ (Node.Same m env)) os os') :
    (remaining env result os : m Unit) = remaining env result os' := by
  cases h with
  | none => rfl
  | some h => simp only [remaining, into_body_congr result h]

/-! ## Whole nodes -/

section

variable (binding : k.bound i.binding = l.bound j.binding)
  (kind : Kind.Rel (fun _ => Node.Same m env) k l)

include like kind in
lemma misplaced_congr {α : Type} (place : Place) :
    (failAt i (.misplaced k.tag place) : m α) = failAt j (.misplaced l.tag place) := by
  rw [like.failAt, kind.tag]

include binding kind in
lemma delivery_congr : k.delivery i = l.delivery j := by
  cases kind
  case varRef =>
    simp only [Kind.bound] at binding
    simp only [Kind.delivery, binding]
  all_goals rfl

include like binding kind

lemma ownValue_congr : (ownValue env i k : m Binding) = ownValue env j l := by
  have wrong := misplaced_congr like kind (α := Binding) .expression
  cases kind
  case program b => exact body_congr b
  case paren b => exact body_congr b
  case begin b => exact b.value
  case str parts => simp only [ownValue, concat_congr parts _]
  case embed b => simp only [ownValue, body_congr b]
  case regexp parts => simp only [ownValue, concat_congr parts _, wellKnown, like.failAt]
  case array items => exact aggregate_congr like items
  case selfRef => simp only [ownValue, selfTemp, selfBinding, like.scope, like.failAt]
  case varRef =>
    simp only [Kind.bound] at binding
    simp only [ownValue, resolved, binding, like.failAt]
  case varTarget =>
    simp only [Kind.bound] at binding
    simp only [ownValue, resolved, binding, like.failAt]
  case assign t t' _ _ target v =>
    rw [target.assigned]
    obtain ⟨_, k⟩ := t'
    cases k <;> simp only [ownValue, v.value, like.failAt]
  case binary left right => simp only [ownValue, left.value, right.value]
  case unary operand => simp only [ownValue, operand.value]
  case void => rfl
  case literal => rfl
  case content => rfl
  all_goals exact wrong

omit binding in
lemma ownEffect_congr : (ownEffect env i k : m Unit) = ownEffect env j l := by
  have wrong := misplaced_congr like kind (α := Unit) .statement
  cases kind
  case program b => exact effects_congr b
  case paren b => exact effects_congr b
  case begin b => exact b.effect
  case str parts => exact effects_congr parts
  case embed b => exact effects_congr b
  case regexp parts => exact effects_congr parts
  case array items => exact discards_congr items
  case assign t t' _ _ target v =>
    rw [target.stored]
    obtain ⟨_, k⟩ := t'
    cases k <;> simp only [ownEffect, v.value, like.failAt]
  case binary left right => simp only [ownEffect, left.value, right.value]
  case unary operand => simp only [ownEffect, operand.value]
  case void => rfl
  case selfRef => rfl
  case varRef => rfl
  case varTarget => rfl
  case literal => rfl
  case content => rfl
  all_goals exact wrong

omit binding in
/-- Constructs that lead several ways. -/
lemma construct_congr (result : Option Binding) :
    (construct env i result k : m Unit) = construct env j result l := by
  cases kind
  case command parts =>
    simp only [construct, concat_congr parts _, selfBinding, like.scope, like.failAt]
  case varRef => simp only [construct, selfTemp, selfBinding, like.scope, like.failAt]
  case opAssign t t' _ _ _ target v =>
    rw [target.updated]
    obtain ⟨_, k⟩ := t'
    cases k <;> simp only [construct, v.value, like.failAt]
  case binary left right => simp only [construct, left.value, right.value, right.effect]
  case ifThen c b a =>
    simp only [construct, c.value, into_body_congr result b, alternative_congr result a]
  case ifMod c b => simp only [construct, c.value, b.value, b.effect]
  case unlessThen c b o =>
    simp only [construct, c.value, into_body_congr result b, otherwise_congr result o]
  case unlessMod c b => simp only [construct, c.value, b.value, b.effect]
  case case subject clauses o =>
    simp only [construct, subject.value, remaining_congr result o, cases_congr result clauses _ _]
  case loop c b => simp only [construct, c.value, effects_congr b]
  case loopMod c b => simp only [construct, c.value, b.effect]
  case forIn t t' _ _ _ _ target iterable b =>
    rw [target.counted]
    obtain ⟨_, k⟩ := t'
    cases k <;> simp only [construct, iterable.value, body_congr b]
  case guarded b o =>
    cases o with
    | none => simp only [construct, into_body_congr result b]
    | some clause => simp only [construct, into_body_congr result b, effects_congr clause]
  case returnWith args =>
    simp only [construct, splats_congr args, args.length_eq, aggregate_congr like args,
      body_congr args, returnValue, like.jumpOut]
  case breakWith args => simp only [construct, discards_congr args, like.jumpOut]
  case nextWith args => simp only [construct, discards_congr args, like.jumpOut]
  case redo => simp only [construct, like.jumpOut]
  case call receiver args pass block =>
    simp only [construct, receiver_congr like receiver, passed_congr pass,
      arguments_congr like args, send_congr like block _ _ _ _]
  case super args pass block =>
    simp only [construct, passed_congr pass, arguments_congr like args,
      send_congr like block _ _ _ _]
  case zsuper block =>
    simp only [construct, like.scope]
    cases j.scope.bind (·.method) with
    | none => exact like.failAt _
    | some method =>
      simp only [send_congr like block _ _ _ _, passParameters, aggregate, wellKnown, like.failAt]
  all_goals rfl

/-- Nodes of the same kind are the same if their children are. -/
lemma same_of_rel : Node.Same m env (.mk i k) (.mk j l) := by
  have value : (value env (.mk i k) : m Binding) = value env (.mk j l) := by
    simp only [value, delivery_congr binding kind, ownValue_congr like binding kind,
      construct_congr like kind, like.nested]
  have effect : (effect env (.mk i k) : m Unit) = effect env (.mk j l) := by
    simp only [effect, delivery_congr binding kind, ownEffect_congr like kind,
      construct_congr like kind, like.nested]
  have wrong {α : Type} (place : Place) :
      (failAt i (.misplaced k.tag place) : m α) = failAt j (.misplaced l.tag place) :=
    misplaced_congr like kind place
  refine ⟨value, effect, ?_, ?_, ?_, ?_, ?_, ?_, ?_, ?_, ?_, ?_⟩
  · cases kind <;> rfl
  · intro klass array ns
    cases kind
    case splat inner => simp only [elements, inner.value]
    all_goals simp only [elements, value]
  · intro ns
    cases kind
    case splat inner => simp only [discards, inner.effect]
    all_goals simp only [discards, effect]
  · intro result
    cases kind
    case ifThen c b a =>
      simp only [alternative, c.value, into_body_congr result b, alternative_congr result a]
    case elsif c b a =>
      simp only [alternative, c.value, into_body_congr result b, alternative_congr result a]
    case ifMod c b => simp only [alternative, c.value, b.value, b.effect]
    case elseThen b => simp only [alternative, into_body_congr result b]
    all_goals exact congrArg Alternative.last (wrong _)
  · intro result subject unmatched ns
    cases kind
    case whenThen cs b =>
      simp only [cases, candidates_congr cs subject, into_body_congr result b]
    all_goals exact congrArg Clauses.last (wrong _)
  · intro info dest callee args pass
    cases kind
    case doBlock b => simp only [literal, body_congr b]
    all_goals simp only [literal, send, wrong]
  · intro info v
    cases kind
    case varTarget =>
      simp only [Kind.bound] at binding
      simp only [ownValue, assignVariable, resolved, binding, like.failAt]
    case fieldTarget r => simp only [ownValue, r.value]
    case multiTarget => rfl
    all_goals exact wrong _
  · intro info v
    cases kind
    case varTarget =>
      simp only [Kind.bound] at binding
      simp only [ownEffect, assignVariable, resolved, binding, like.failAt]
    case fieldTarget r => simp only [ownEffect, r.value]
    case multiTarget => rfl
    all_goals exact wrong _
  · intro info result op v
    cases kind
    case varTarget =>
      simp only [Kind.bound] at binding
      simp only [construct, updateVariable, resolved, binding, like.failAt]
    case fieldTarget r => simp only [construct, r.value]
    case multiTarget => rfl
    all_goals exact wrong _
  · intro info result iterable ns
    cases kind
    case varTarget =>
      simp only [Kind.bound] at binding
      simp only [construct, resolved, binding, like.failAt]
    case fieldTarget => exact like.failAt _
    case multiTarget => exact like.failAt _
    all_goals exact wrong _

end

end Lowering

end ControlFlow
