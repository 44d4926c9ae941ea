import Mathlib.Logic.Function.Basic
import ControlFlow.Lowering.Jump
import ControlFlow.Syntax.Binding
import ControlFlow.Syntax.Constant
/-!
# What programs do

A program reads and assigns variables, calls methods, and returns a value. What a call does is up to
an *oracle*, which answers it with a value and with new values of the variables, and which may look
at all calls that were made before.

A piece of a program is an `Eval`: it changes the world, and then it is done with a result or makes a
jump. Loops need not end, so an evaluation may also be cut off.
-/

namespace ControlFlow.Meaning

/-! ## Values and calls -/

/-- A value: a constant, or an object that a call has made. -/
inductive Value where
  | constant (c : Constant)
  | object (id : Nat)
deriving DecidableEq, Inhabited

/-- The value `nil`. -/
abbrev Value.nil : Value := .constant .nil

/-- Whether a value counts as true: all do but `nil` and `false`. -/
def Value.truthy : Value → Bool
  | .constant .nil | .constant (.bool false) => false
  | _ => true

/-- Who a call is sent to. -/
inductive Callee where
  | method (receiver : Value) (name : String)
  | super
deriving DecidableEq

/-- The arguments of a call: one by one, or all in one array. -/
inductive Arguments where
  | positional (values : List Value)
  | vararg (array : Value)
deriving DecidableEq, Inhabited

/-- A call with the values that it passes. -/
structure Call where
  callee : Callee
  args : Arguments
  /-- The value that is passed as a block. -/
  block : Option Value
deriving DecidableEq

/-- A binding that is not a temporary. -/
abbrev Variable : Type := {b : Binding // b.kind ≠ .temporary}

/-- What calls do. Given all calls up to the one to be answered and the values of the variables, it
gives the result of that call and the new values of the variables. -/
abbrev Oracle : Type := List Call → (Variable → Value) → Value × (Variable → Value)

/-- What a program can observe and change. -/
structure World where
  vars : Variable → Value
  /-- All calls so far, in order. -/
  calls : List Call
  /-- The value that was returned last. -/
  returned : Option Value

/-- The world at the start of a program. -/
def World.initial (vars : Variable → Value) : World := ⟨vars, [], none⟩

/-- The result of a call, and the world behind it. -/
def World.call (w : World) (oracle : Oracle) (c : Call) : Value × World :=
  let answer := oracle (w.calls ++ [c]) w.vars
  (answer.1, { w with vars := answer.2, calls := w.calls ++ [c] })

/-! ## Evaluations -/

/-- How an evaluation ends. -/
inductive Result (α : Type) where
  | done (a : α)
  /-- With a jump to a construct around. -/
  | jump (kind : JumpKind)
  /-- Inside of a loop, where it is cut off. -/
  | cut
  /-- At something that has no meaning. -/
  | wrong

/-- An evaluation: it changes the world and ends in some way. -/
def Eval (α : Type) : Type := World → Result α × World

namespace Eval

instance : Monad Eval where
  pure a := fun w => (.done a, w)
  bind x f := fun w =>
    match x w with
    | (.done a, w') => f a w'
    | (.jump kind, w') => (.jump kind, w')
    | (.cut, w') => (.cut, w')
    | (.wrong, w') => (.wrong, w')

lemma bind_apply {α β : Type} (x : Eval α) (f : α → Eval β) (w : World) :
    (x >>= f) w = match x w with
      | (.done a, w') => f a w'
      | (.jump kind, w') => (.jump kind, w')
      | (.cut, w') => (.cut, w')
      | (.wrong, w') => (.wrong, w') := rfl

lemma bind_done {α β : Type} {x : Eval α} {f : α → Eval β} {a : α} {w w' : World}
    (h : x w = (.done a, w')) : (x >>= f) w = f a w' := by
  rw [bind_apply, h]

/-- Evaluations form a monad. -/
instance : LawfulMonad Eval := LawfulMonad.mk' _
  (fun x => by
    funext w
    change (x >>= pure) w = x w
    rw [bind_apply]
    rcases x w with ⟨_ | _ | _ | _, w'⟩ <;> rfl)
  (fun _ _ => rfl)
  (fun x f g => by
    funext w
    simp only [bind_apply]
    rcases x w with ⟨_ | _ | _ | _, w'⟩ <;> rfl)

/-- Makes a jump. -/
def leave {α : Type} (kind : JumpKind) : Eval α := fun w => (.jump kind, w)

/-- Is cut off. -/
def cut {α : Type} : Eval α := fun w => (.cut, w)

/-- Has no meaning. -/
def wrong {α : Type} : Eval α := fun w => (.wrong, w)

/-- Reads a variable. -/
def read (b : Binding) : Eval Value := fun w =>
  if h : b.kind ≠ .temporary then (.done (w.vars ⟨b, h⟩), w) else (.wrong, w)

/-- Assigns to a variable. -/
def write (b : Binding) (v : Value) : Eval Unit := fun w =>
  if h : b.kind ≠ .temporary then
    (.done (), { w with vars := Function.update w.vars ⟨b, h⟩ v })
  else (.wrong, w)

/-- Returns a value. -/
def record (v : Value) : Eval Unit := fun w => (.done (), { w with returned := some v })

/-- Makes a call. -/
def call (oracle : Oracle) (c : Call) : Eval Value := fun w =>
  (.done (w.call oracle c).1, (w.call oracle c).2)

/-- Statements and a clause that follows them however they end. -/
def ensuring {α β : Type} (body : Eval α) (clause : Eval β) : Eval α := fun w =>
  match body w with
  | (.done a, w') => (clause >>= fun _ => pure a) w'
  | (.jump kind, w') => (clause >>= fun _ => leave kind) w'
  | (.cut, w') => (.cut, w')
  | (.wrong, w') => (.wrong, w')

/-- A part of a loop with what follows it: a `break` in the part ends the loop, and a `next` or a
`redo` goes on with it. -/
def caught (part next redo : Eval Value) (andThen : Value → Eval Value) : Eval Value := fun w =>
  match part w with
  | (.done v, w') => andThen v w'
  | (.jump .break, w') => (.done .nil, w')
  | (.jump .next, w') => next w'
  | (.jump .redo, w') => redo w'
  | (.jump .return, w') => (.jump .return, w')
  | (.cut, w') => (.cut, w')
  | (.wrong, w') => (.wrong, w')

/-- The test of a loop, whose body is taken where the test comes out `on`. -/
def tested (on : Bool) (test fromTest fromBody : Eval Value) : Eval Value :=
  caught test fromTest fromBody fun v => if v.truthy = on then fromBody else pure .nil

/-- Up to `n` rounds of a loop, from its body on or from its test on. -/
def rounds (on : Bool) (test body : Eval Value) : Nat → (fromBody : Bool) → Eval Value
  | 0, _ => cut
  | n + 1, false => tested on test (rounds on test body n false) (rounds on test body n true)
  | n + 1, true =>
    caught body (rounds on test body n false) (rounds on test body n true) fun _ =>
      tested on test (rounds on test body n false) (rounds on test body n true)

end Eval

end ControlFlow.Meaning
