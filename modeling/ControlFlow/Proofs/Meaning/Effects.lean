import ControlFlow.Proofs.Meaning.Evaluator
import ControlFlow.Proofs.Syntax.Tree
/-!
# Values and effects

A node may be evaluated for its value or for its effects alone. What the two do to the world differs
only where a value takes calls to be made: at strings, interpolations, regular expressions and arrays.
A node is *even* if none of these stands where the value of the node comes from; then both ways have
the same effects in the same order.
-/

namespace ControlFlow

/-! ## Even nodes -/

/-- Whether the value of a construct may be that of a child in some role. All other children are
evaluated in the same way, no matter whether the value of the construct is wanted. -/
def Kind.HandsOn {α : Type} (role : Role) : Kind α → Prop
  | .program _ | .paren _ | .begin _ | .guarded .. | .ifMod .. | .unlessMod .. | .elseThen _
  | .whenThen .. => role = .body
  | .ifThen .. | .elsif .. => role = .body ∨ role = .alternative
  | .unlessThen .. => role = .body ∨ role = .otherwise
  | .case .. => role = .clause ∨ role = .otherwise
  | .binary _ op _ => op.shortCircuits = true ∧ role = .right
  | _ => False

/-- Whether it takes calls to make the value of a construct out of its parts, which are not made if
nobody wants the value. -/
def Kind.takesMaking {α : Type} : Kind α → Bool
  | .str _ | .embed _ | .regexp .. | .array _ => true
  | _ => false

/-- A node is even if strings, interpolations, regular expressions and arrays stand only inside of
operands, such as receivers, arguments, assigned values and conditions. -/
inductive Node.Even : Node → Prop where
  | mk {info : Info} {kind : Kind Node} (made : kind.takesMaking = false)
      (inner : ∀ role c, (role, c) ∈ kind.fields → kind.HandsOn role → Even c) : Even (.mk info kind)

lemma Node.even_mk {info : Info} {kind : Kind Node} : (Node.mk info kind).Even ↔
      kind.takesMaking = false ∧ ∀ f ∈ kind.fields, kind.HandsOn f.1 → f.2.Even := by
  constructor
  · rintro ⟨made, inner⟩
    exact ⟨made, fun f hf => inner f.1 f.2 hf⟩
  · rintro ⟨made, inner⟩
    exact .mk made fun role c hc => inner (role, c) hc

namespace Meaning

open Eval

/-! ## Evaluations with the same effects -/

/-- Two evaluations have ended in the same way and in the same world, maybe with other values. Nothing
is said where the first one has no meaning. -/
inductive Alike : Result Value × World → Result Value × World → Prop where
  | done (v v' : Value) (w : World) : Alike (.done v, w) (.done v', w)
  | jump (kind : JumpKind) (w : World) : Alike (.jump kind, w) (.jump kind, w)
  | cut (w : World) : Alike (.cut, w) (.cut, w)
  | wrong (w : World) (r : Result Value × World) : Alike (.wrong, w) r

lemma Alike.refl : ∀ r : Result Value × World, Alike r r
  | (.done v, w) => .done v v w
  | (.jump kind, w) => .jump kind w
  | (.cut, w) => .cut w
  | (.wrong, w) => .wrong w _

/-- Two evaluations have the same effects. -/
def Agrees (x y : Eval Value) : Prop := ∀ w, Alike (x w) (y w)

namespace Agrees

variable {x y : Eval Value}

lemma refl (x : Eval Value) : Agrees x x := fun _ => .refl _

lemma pure (v v' : Value) : Agrees (pure v) (pure v') := .done v v'

lemma wrong (y : Eval Value) : Agrees Eval.wrong y := fun w => .wrong w _

/-- A variable can be read without effects. -/
lemma read (b : Binding) (v : Value) : Agrees (read b) (Pure.pure v) := by
  intro w
  unfold Eval.read
  split
  · exact .done ..
  · exact .wrong ..

lemma bind {α : Type} (e : Eval α) {f g : α → Eval Value} (h : ∀ a, Agrees (f a) (g a)) :
    Agrees (e >>= f) (e >>= g) := by
  intro w
  rw [bind_apply, bind_apply]
  rcases e w with ⟨a | kind | _ | _, w'⟩
  · exact h a w'
  · exact .jump ..
  · exact .cut ..
  · exact .wrong ..

lemma ite {p : Prop} [Decidable p] {x' y' : Eval Value} (h : Agrees x y) (h' : Agrees x' y') :
    Agrees (if p then x else x') (if p then y else y') := by
  split
  · exact h
  · exact h'

lemma ensuring {α : Type} (h : Agrees x y) (clause : Eval α) :
    Agrees (ensuring x clause) (ensuring y clause) := by
  intro w
  have alike := h w
  unfold Eval.ensuring
  generalize x w = r, y w = r' at alike ⊢
  cases alike with
  | done v v' w' => exact bind clause (fun _ => pure v v') w'
  | jump kind w' => exact .refl _
  | cut w' => exact .cut w'
  | wrong w' => exact .wrong w' _

end Agrees

/-! ## Even nodes have the same effects in both ways -/

section

variable (types : String → Option Binding) (oracle : Oracle) (fuel : Nat)

/-- The two ways to evaluate a node have the same effects: as a statement, as the alternative of an
`if`, and as a clause of a `case`. -/
structure SameEffects (n : Node) : Prop where
  value : Agrees (eval types oracle fuel true n) (eval types oracle fuel false n)
  alternative :
    Agrees (alternative types oracle fuel true (some n)) (alternative types oracle fuel false (some n))
  clause : ∀ {subject : Value} {x y : Eval Value} {ns : List Node},
    Agrees (cases types oracle fuel true subject x ns) (cases types oracle fuel false subject y ns) →
    Agrees (cases types oracle fuel true subject x (n :: ns))
      (cases types oracle fuel false subject y (n :: ns))

end

variable {types : String → Option Binding} {oracle : Oracle} {fuel : Nat} {ns : List Node}

lemma agrees_statements (h : ∀ n ∈ ns, SameEffects types oracle fuel n) :
    Agrees (statements types oracle fuel true ns) (statements types oracle fuel false ns) := by
  induction ns with
  | nil =>
    simp only [statements]
    exact .refl _
  | cons n ns ih =>
    simp only [statements]
    exact .ite (h n (.head _)).value (.bind _ fun _ => ih fun m hm => h m (.tail _ hm))

lemma agrees_otherwise {other : Option (List Node)}
    (h : ∀ n ∈ other.getD [], SameEffects types oracle fuel n) :
    Agrees (otherwise types oracle fuel true other) (otherwise types oracle fuel false other) := by
  cases other with
  | none => exact .refl _
  | some ns => exact agrees_statements h

lemma agrees_alternative {other : Option Node} (h : ∀ n ∈ other, SameEffects types oracle fuel n) :
    Agrees (alternative types oracle fuel true other) (alternative types oracle fuel false other) := by
  cases other with
  | none => exact .refl _
  | some n => exact (h n rfl).alternative

lemma agrees_cases {subject : Value} {x y : Eval Value} (unmatched : Agrees x y)
    (h : ∀ n ∈ ns, SameEffects types oracle fuel n) :
    Agrees (cases types oracle fuel true subject x ns)
      (cases types oracle fuel false subject y ns) := by
  induction ns with
  | nil => exact unmatched
  | cons n ns ih => exact (h n (.head _)).clause (ih fun m hm => h m (.tail _ hm))

lemma agrees_if {test : Eval Value} {stmts : List Node} {other : Option Node}
    (body : ∀ n ∈ stmts, SameEffects types oracle fuel n)
    (alternatives : ∀ n ∈ other, SameEffects types oracle fuel n) :
    Agrees
      (test >>= fun v => if v.truthy then statements types oracle fuel true stmts
        else alternative types oracle fuel true other)
      (test >>= fun v => if v.truthy then statements types oracle fuel false stmts
        else alternative types oracle fuel false other) :=
  .bind _ fun _ => .ite (agrees_statements body) (agrees_alternative alternatives)

variable {info : Info}

lemma agrees_self (v : Value) : Agrees (self info) (pure v) := by
  unfold self
  split
  · exact .read _ v
  · exact .wrong _

lemma agrees_slot (v : Value) : Agrees (slot info) (pure v) := by
  unfold slot
  split
  · exact .read _ v
  · exact .wrong _

section

variable {kind : Kind Node} (inner : ∀ role c, (role, c) ∈ kind.fields → kind.HandsOn role →
  SameEffects types oracle fuel c)

include inner

/-- A construct has the same effects in both ways if the children that hand their value on have. -/
lemma agrees_eval (made : kind.takesMaking = false) :
    Agrees (eval types oracle fuel true (.mk info kind))
      (eval types oracle fuel false (.mk info kind)) := by
  cases kind with
  | str | embed | regexp | array => cases made
  | program stmts | paren stmts =>
    exact agrees_statements fun n hn => inner .body n (Kind.mem_inRole.2 ⟨rfl, hn⟩) rfl
  | begin n => exact (inner .body n (.head _) rfl).value
  | guarded stmts ensure =>
    have body : ∀ n ∈ stmts, SameEffects types oracle fuel n := fun n hn =>
      inner .body n (List.mem_append_left _ (Kind.mem_inRole.2 ⟨rfl, hn⟩)) rfl
    cases ensure with
    | none => exact agrees_statements body
    | some clause => exact (agrees_statements body).ensuring _
  | selfRef => exact agrees_self _
  | varRef name =>
    unfold eval
    cases info.binding with
    | none => exact .refl _
    | some b => exact .read b _
  | varTarget name => exact agrees_slot _
  | binary l op r =>
    refine .bind _ fun v => ?_
    split
    · exact .ite (.refl _) (inner .right r (.tail _ (.head _)) ⟨‹_›, rfl⟩).value
    · exact .refl _
  | ifThen c stmts other =>
    exact agrees_if (fun n hn => inner .body n (by simp [Kind.fields, hn]) (Or.inl rfl))
      fun n hn => inner .alternative n (by simpa [Kind.fields] using hn) (Or.inr rfl)
  | ifMod c n => exact .bind _ fun v => .ite (inner .body n (.tail _ (.head _)) rfl).value (.refl _)
  | unlessThen c stmts other =>
    exact .bind _ fun v => .ite
      (agrees_otherwise fun n hn => inner .otherwise n (by simp [Kind.fields, hn]) (Or.inr rfl))
      (agrees_statements fun n hn => inner .body n (by simp [Kind.fields, hn]) (Or.inl rfl))
  | unlessMod c n =>
    exact .bind _ fun v => .ite (.refl _) (inner .body n (.tail _ (.head _)) rfl).value
  | case n clauses other =>
    exact .bind _ fun v => agrees_cases
      (agrees_otherwise fun n hn => inner .otherwise n (by simp [Kind.fields, hn]) (Or.inr rfl))
      fun n hn => inner .clause n (by simp [Kind.fields, hn]) (Or.inl rfl)
  | assign target | opAssign target =>
    obtain ⟨info, kind⟩ := target
    cases kind <;> exact .refl _
  | call _ _ _ _ block | super _ _ block | zsuper block => cases block <;> exact .refl _
  | _ => exact .refl _

lemma agrees_alternative_mk :
    Agrees (alternative types oracle fuel true (some (.mk info kind)))
      (alternative types oracle fuel false (some (.mk info kind))) := by
  cases kind with
  | ifThen c stmts other | elsif c stmts other =>
    exact agrees_if (fun n hn => inner .body n (by simp [Kind.fields, hn]) (Or.inl rfl))
      fun n hn => inner .alternative n (by simpa [Kind.fields] using hn) (Or.inr rfl)
  | ifMod c n => exact .bind _ fun v => .ite (inner .body n (.tail _ (.head _)) rfl).value (.refl _)
  | elseThen stmts =>
    exact agrees_statements fun n hn => inner .body n (Kind.mem_inRole.2 ⟨rfl, hn⟩) rfl
  | _ => exact .wrong _

lemma agrees_clause {subject : Value} {x y : Eval Value}
    (h : Agrees (cases types oracle fuel true subject x ns)
      (cases types oracle fuel false subject y ns)) :
    Agrees (cases types oracle fuel true subject x (.mk info kind :: ns))
      (cases types oracle fuel false subject y (.mk info kind :: ns)) := by
  cases kind with
  | whenThen candidates stmts =>
    exact .bind _ fun found => .ite
      (agrees_statements fun n hn => inner .body n (by simp [Kind.fields, hn]) rfl) h
  | _ => exact .wrong _

end

/-- **An even node has the same effects, no matter whether its value is wanted.** -/
lemma sameEffects_of_even (types : String → Option Binding) (oracle : Oracle) (fuel : Nat) {n : Node}
    (h : n.Even) : SameEffects types oracle fuel n := by
  induction h with
  | mk made inner ih => exact ⟨agrees_eval ih made, agrees_alternative_mk ih, agrees_clause ih⟩

end Meaning

end ControlFlow
