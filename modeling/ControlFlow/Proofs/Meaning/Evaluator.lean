import ControlFlow.Proofs.Meaning.World
import ControlFlow.Syntax.Node
/-!
# Evaluating syntax trees

What a syntax tree means, without a graph: `eval` runs a tree from left to right. A node may be
evaluated for its value or for its effects alone. The difference matters for literals: one whose value
nobody wants is not made, though what stands in it is still evaluated.

Blocks are not covered: a tree with a block literal or a `for` has no meaning here, and neither has one
with a node in a place that nodes of its kind are not made for.
-/

namespace ControlFlow.Meaning

open Eval

variable (types : String → Option Binding) (oracle : Oracle) (fuel : Nat)

/-! ## Calls, variables and arrays -/

/-- Calls a method. -/
def method (receiver : Value) (name : String) (args : List Value) : Eval Value :=
  call oracle ⟨.method receiver name, .positional args, none⟩

/-- Sends a value to the setter of an attribute. -/
def setter (receiver : Value) (name : String) (v : Value) : Eval Unit := do
  let _ ← method oracle receiver (name ++ "=") [v]

/-- The value of `self`. -/
def self (info : Info) : Eval Value :=
  match info.scope with
  | some scope => read scope.self
  | none => wrong

/-- The value of the variable of a node. -/
def slot (info : Info) : Eval Value :=
  match info.binding with
  | some b => read b
  | none => wrong

/-- Assigns to the variable of a node. -/
def fill (info : Info) (v : Value) : Eval Unit :=
  match info.binding with
  | some b => write b v
  | none => wrong

/-- The value of a registered type. -/
def registered (name : String) : Eval Value :=
  match types name with
  | some b => read b
  | none => wrong

/-- A new array. -/
def newArray : Eval Value := do
  let klass ← registered types "Array"
  method oracle klass "new" []

/-- A new array with what is added to it. -/
def array (elements : Value → Eval Unit) : Eval Value := do
  let a ← newArray types oracle
  elements a
  return a

/-- The arguments of a call: all in one array if one of them is spliced, otherwise one by one. -/
def arguments (args : List Node) (spliced : Eval Value) (plain : Eval (List Value)) :
    Eval Arguments :=
  if args.any (·.isSplat) then do
    let v ← spliced
    return .vararg v
  else do
    let vs ← plain
    return .positional vs

/-- Adds a value to an array. -/
def push (array v : Value) : Eval Unit := do
  let _ ← method oracle array "<<" [v]

/-- Adds all items of a value to an array; a value that is not an array is asked for its items. -/
def splice (array v : Value) : Eval Unit := do
  let klass ← registered types "Array"
  let isArray ← method oracle klass "===" [v]
  let items ← if isArray.truthy then pure v else method oracle v "to_a" []
  let _ ← method oracle array "concat" [items]

/-- The values of parameters. -/
def parameters : List Parameter → Eval (List Value)
  | [] => pure []
  | p :: ps => do
    let v ← read p.binding
    let vs ← parameters ps
    return v :: vs

/-- Adds the values of parameters to an array. -/
def pushParameters (array : Value) : List Parameter → Eval Unit
  | [] => pure ()
  | p :: ps => do
    let v ← read p.binding
    push oracle array v
    pushParameters array ps

/-- The arguments of a call that passes the parameters of a method on: the items of a rest parameter
stand in its place. -/
def passedOn (m : Signature) : Eval Arguments :=
  match m.restIndex? with
  | none => do
    let values ← parameters m.positional
    return .positional values
  | some rest => do
    let v ← array types oracle fun a => do
      pushParameters oracle a (m.positional.take rest)
      match m.positional.drop rest with
      | [] => pure ()
      | p :: ps => do
        let starred ← read p.binding
        splice types oracle a starred
        pushParameters oracle a ps
    return .vararg v

/-- Whether a left operand decides an operator that may leave out its right one. -/
def decides (op : BinaryOp) (v : Value) : Bool := v.truthy = (op = .or : Bool)

/-- The value of an operator whose left operand has been evaluated. -/
def combine (op : BinaryOp) (left : Value) (right : Eval Value) : Eval Value :=
  if op.shortCircuits then
    if decides op left then pure left else right
  else do
    let v ← right
    method oracle left op.method [v]

/-- The value of what is returned: one value, or all of them in an array. -/
def oneOrMany (args : List Node) (one many : Eval Value) : Eval Value :=
  if args.any (·.isSplat) || 1 < args.length then many else one

/-! ## Nodes -/

mutual

/-- Evaluates a node, for its value if that is `wanted`. -/
def eval (wanted : Bool) : Node → Eval Value
  | .mk info kind =>
    match kind with
    | .program stmts | .paren stmts => statements wanted stmts
    | .begin n => eval wanted n
    | .void => pure .nil
    | .literal c => pure (.constant c)
    | .content text => pure (.constant (.str text))
    | .str parts =>
      if wanted then concat (.constant (.str "")) parts else statements false parts
    | .embed stmts =>
      if wanted then do
        let v ← statements true stmts
        method oracle v "to_s" []
      else statements false stmts
    | .command parts => do
      let text ← concat (.constant (.str "")) parts
      let receiver ← self info
      method oracle receiver "`" [text]
    | .regexp parts options =>
      if wanted then do
        let text ← concat (.constant (.str "")) parts
        let klass ← registered types "Regexp"
        method oracle klass "new" [text, .constant (.str options)]
      else statements false parts
    | .array items => if wanted then array types oracle fun a => elements a items else discards items
    | .selfRef => if wanted then self info else pure .nil
    | .varRef name =>
      match info.binding with
      | some b => if wanted then read b else pure .nil
      | none => do
        let receiver ← self info
        method oracle receiver name []
    | .varTarget _ => if wanted then slot info else pure .nil
    | .assign (.mk target (.varTarget _)) n => do
      let v ← eval true n
      fill target v
      return v
    | .assign (.mk _ (.fieldTarget r name)) n => do
      let receiver ← eval true r
      let v ← eval true n
      setter oracle receiver name v
      return v
    | .opAssign (.mk _ (.fieldTarget r name)) op n => do
      let receiver ← eval true r
      let current ← method oracle receiver name []
      if op.shortCircuits then
        if decides op current then pure current
        else do
          let v ← eval true n
          setter oracle receiver name v
          return v
      else do
        let v ← eval true n
        let combined ← method oracle current op.method [v]
        setter oracle receiver name combined
        return combined
    | .opAssign (.mk target (.varTarget _)) op n => do
      let current ← slot target
      let combined ← combine oracle op current (eval true n)
      fill target combined
      return combined
    | .binary l op r => do
      let left ← eval true l
      if op.shortCircuits then
        if decides op left then pure left else eval wanted r
      else do
        let right ← eval true r
        method oracle left op.method [right]
    | .unary op n => do
      let v ← eval true n
      method oracle v op.method []
    | .ifThen c stmts other => do
      let v ← eval true c
      if v.truthy then statements wanted stmts else alternative wanted other
    | .ifMod c n => do
      let v ← eval true c
      if v.truthy then eval wanted n else pure .nil
    | .unlessThen c stmts other => do
      let v ← eval true c
      if v.truthy then otherwise wanted other else statements wanted stmts
    | .unlessMod c n => do
      let v ← eval true c
      if v.truthy then pure .nil else eval wanted n
    | .case n clauses other => do
      let subject ← eval true n
      cases wanted subject (otherwise wanted other) clauses
    | .loop sense c stmts =>
      rounds (sense = .whileTrue) (eval true c) (statements false stmts) fuel false
    | .loopMod sense c n => rounds (sense = .whileTrue) (eval true c) (eval false n) fuel false
    | .guarded stmts none => statements wanted stmts
    | .guarded stmts (some clause) => ensuring (statements wanted stmts) (statements false clause)
    | .returnWith args => do
      let v ← oneOrMany args (statements true args) (array types oracle fun a => elements a args)
      record v
      leave .return
    | .breakWith args => do
      let _ ← discards args
      leave .break
    | .nextWith args => do
      let _ ← discards args
      leave .next
    | .redo => leave .redo
    | .call r name args pass none => do
      let receiver ← receiver info r
      let values ← arguments args (array types oracle fun a => elements a args) (values args)
      let block ← passed pass
      call oracle ⟨.method receiver name, values, block⟩
    | .super args pass none => do
      let values ← arguments args (array types oracle fun a => elements a args) (values args)
      let block ← passed pass
      call oracle ⟨.super, values, block⟩
    | .zsuper none =>
      match info.scope.bind (·.method) with
      | none => wrong
      | some m => do
        let values ← passedOn types oracle m
        call oracle ⟨.super, values, none⟩
    | _ => wrong

/-- Evaluates statements; their value is that of the last one, or `nil`. -/
def statements (wanted : Bool) : List Node → Eval Value
  | [] => pure .nil
  | n :: ns =>
    if ns.isEmpty then eval wanted n
    else do
      let _ ← eval false n
      statements wanted ns

/-- A text with the values of further parts behind it. -/
def concat (text : Value) : List Node → Eval Value
  | [] => pure text
  | n :: ns => do
    let v ← eval true n
    let longer ← method oracle text "concat" [v]
    concat longer ns

/-- Adds elements to an array, and the items of those that are spliced. -/
def elements (array : Value) : List Node → Eval Unit
  | [] => pure ()
  | .mk _ (.splat n) :: ns => do
    let v ← eval true n
    splice types oracle array v
    elements array ns
  | n :: ns => do
    let v ← eval true n
    push oracle array v
    elements array ns

/-- Evaluates elements for their effects, spliced or not. -/
def discards : List Node → Eval Value
  | [] => pure .nil
  | .mk _ (.splat n) :: ns => do
    let _ ← eval false n
    discards ns
  | n :: ns => do
    let _ ← eval false n
    discards ns

/-- The values of nodes, in order. -/
def values : List Node → Eval (List Value)
  | [] => pure []
  | n :: ns => do
    let v ← eval true n
    let vs ← values ns
    return v :: vs

/-- What follows where the condition of an `if` fails. -/
def alternative (wanted : Bool) : Option Node → Eval Value
  | none => pure .nil
  | some (.mk _ (.ifThen c stmts other)) | some (.mk _ (.elsif c stmts other)) => do
    let v ← eval true c
    if v.truthy then statements wanted stmts else alternative wanted other
  | some (.mk _ (.ifMod c n)) => do
    let v ← eval true c
    if v.truthy then eval wanted n else pure .nil
  | some (.mk _ (.elseThen stmts)) => statements wanted stmts
  | some _ => wrong

/-- Statements for all cases that are left. -/
def otherwise (wanted : Bool) : Option (List Node) → Eval Value
  | none => pure .nil
  | some stmts => statements wanted stmts

/-- Tries clauses one after the other on a subject. -/
def cases (wanted : Bool) (subject : Value) (unmatched : Eval Value) : List Node → Eval Value
  | [] => unmatched
  | .mk _ (.whenThen candidates stmts) :: ns => do
    let found ← matching subject candidates
    if found then statements wanted stmts else cases wanted subject unmatched ns
  | _ :: _ => wrong

/-- Whether one of some candidates matches the subject; none is evaluated behind the first that
does. -/
def matching (subject : Value) : List Node → Eval Bool
  | [] => pure false
  | n :: ns => do
    let v ← eval true n
    let found ← method oracle v "===" [subject]
    if found.truthy then pure true else matching subject ns

/-- The receiver of a call: a value, or `self`. -/
def receiver (info : Info) : Option Node → Eval Value
  | none => self info
  | some n => eval true n

/-- The value that a call passes as its block. -/
def passed : Option Node → Eval (Option Value)
  | none => pure none
  | some n => do
    let v ← eval true n
    return some v

end

/-- Runs a program: the value of the tree is returned, unless the program has returned before. -/
def program (root : Node) : Eval Unit := do
  let v ← eval types oracle fuel true root
  record v

end ControlFlow.Meaning
