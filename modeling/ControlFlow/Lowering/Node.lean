import ControlFlow.Lowering.Operation
import ControlFlow.Lowering.Send
/-!
# Lowering of nodes

`value` lowers a node for its value and returns the temporary that holds it; `effect` lowers a node
whose value nobody needs. Both have the same effects in the same order. Constructs that lead several
ways are lowered by `construct` for both of them, with an optional binding for the result.

How a node delivers its value is its `Delivery`: some nodes have a rule of their own, some fill a
result in all of their branches, and some, such as loops and jumps, have no value but `nil`.
-/

namespace ControlFlow

/-- How a node delivers its value. -/
inductive Delivery where
  /-- By a rule of its own. -/
  | own
  /-- By filling a result on every way through it. -/
  | filled
  /-- By `nil`, behind its effects. -/
  | nothing
deriving DecidableEq, Repr, Inhabited

/-- How a node delivers its value. A variable without a binding is a call, and an operator that may
leave out its right operand leads two ways. -/
def Kind.delivery {α : Type} (info : Info) : Kind α → Delivery
  | .command _ | .opAssign .. | .ifThen .. | .ifMod .. | .unlessThen .. | .unlessMod .. | .case ..
  | .forIn .. | .guarded .. | .call .. | .super .. | .zsuper _ => .filled
  | .loop .. | .loopMod .. | .returnWith _ | .breakWith _ | .nextWith _ | .redo => .nothing
  | .varRef _ => if info.binding.isSome then .own else .filled
  | .binary _ op _ => if op.shortCircuits then .filled else .own
  | _ => .own

namespace Lowering

open Construction

variable {m : Type → Type} [Monad m] [Construction m]

/-- The arguments of a call: all in one array if one of them is spliced, otherwise one by one. -/
def arguments (args : List Node) (spliced : m Binding) (plain : m (List Binding)) : m Arguments :=
  if args.any (·.isSplat) then do
    let array ← spliced
    return .vararg array
  else do
    let vs ← plain
    return .positional vs

mutual

/-- Lowers a node for its value. -/
def value (env : Environment) : Node → m Binding
  | .mk info kind => nested env info do
    match kind.delivery info with
    | .own => ownValue env info kind
    | .filled => do
      let t ← allocTemp
      construct env info (some t) kind
      return t
    | .nothing => do
      construct env info none kind
      constTemp .nil

/-- Lowers a node for its effects alone. -/
def effect (env : Environment) : Node → m Unit
  | .mk info kind => nested env info do
    match kind.delivery info with
    | .own => ownEffect env info kind
    | .filled => construct env info none kind
    | .nothing => construct env info none kind

/-- The value of a node that delivers it by a rule of its own. -/
def ownValue (env : Environment) (info : Info) : Kind Node → m Binding
  | .program stmts => body env stmts
  | .paren stmts => body env stmts
  | .begin n => value env n
  | .void => constTemp .nil
  | .literal c => constTemp c
  | .content text => constTemp (.str text)
  | .str parts => do
    let start ← constTemp (.str "")
    concat env start parts
  | .embed stmts => do
    let v ← body env stmts
    callValue v "to_s" []
  | .regexp parts options => do
    let start ← constTemp (.str "")
    let text ← concat env start parts
    let options ← constTemp (.str options)
    let klass ← wellKnown env info "Regexp"
    callValue klass "new" [text, options]
  | .array items => aggregate env info fun klass array => elements env klass array items
  | .selfRef => selfTemp info "self"
  | .varRef _ => do
    let b ← resolved info "var-ref"
    readVariable b
  | .varTarget _ => do
    let b ← resolved info "var-field"
    readVariable b
  | .assign (.mk target (.varTarget _)) v => assignVariable target (value env v)
  | .assign (.mk _ (.fieldTarget r name)) v => assignField (value env r) name (value env v)
  | .assign (.mk _ (.multiTarget _)) _ => failAt info (.multipleAssign .expression)
  | .assign (.mk target kind) _ => failAt target (.misplaced kind.tag .assignmentTarget)
  | .binary l op r => do
    let lhs ← value env l
    let rhs ← value env r
    callValue lhs op.method [rhs]
  | .unary op n => do
    let v ← value env n
    callValue v op.method []
  | kind => failAt info (.misplaced kind.tag .expression)

/-- The effects of a node that delivers its value by a rule of its own. -/
def ownEffect (env : Environment) (info : Info) : Kind Node → m Unit
  | .program stmts => effects env stmts
  | .paren stmts => effects env stmts
  | .begin n => effect env n
  | .void | .selfRef | .varRef _ | .varTarget _ | .literal _ | .content _ => pure ()
  | .str parts => effects env parts
  | .regexp parts _ => effects env parts
  | .embed stmts => effects env stmts
  | .array items => discards env items
  | .assign (.mk target (.varTarget _)) v => do
    let _ ← assignVariable target (value env v)
  | .assign (.mk _ (.fieldTarget r name)) v => do
    let _ ← assignField (value env r) name (value env v)
  | .assign (.mk _ (.multiTarget _)) _ => failAt info (.multipleAssign .statement)
  | .assign (.mk target kind) _ => failAt target (.misplaced kind.tag .assignmentTarget)
  | .binary l op r => do
    let lhs ← value env l
    let rhs ← value env r
    call none lhs op.method [rhs]
  | .unary op n => do
    let v ← value env n
    call none v op.method []
  | kind => failAt info (.misplaced kind.tag .statement)

/-- A construct whose ways all fill the result, if there is one. -/
def construct (env : Environment) (info : Info) (result : Option Binding) :
    Kind Node → m Unit
  | .command parts => do
    let start ← constTemp (.str "")
    let text ← concat env start parts
    let receiver ← selfBinding info "xstr"
    call result receiver "`" [text]
  | .varRef name => do
    let receiver ← selfTemp info "var-ref"
    call result receiver name []
  | .opAssign (.mk _ (.fieldTarget r name)) op v =>
    updateField op (value env r) name (value env v) result
  | .opAssign (.mk target (.varTarget _)) op v => updateVariable op target (value env v) result
  | .opAssign (.mk _ (.multiTarget _)) _ _ => failAt info .multipleOpAssign
  | .opAssign (.mk target kind) _ _ => failAt target (.misplaced kind.tag .assignmentTarget)
  | .binary l op r => do
    let lhs ← value env l
    shortCircuit op lhs result (value env r) (effect env r)
  | .ifThen c stmts other =>
    conditional true (value env c) (into result (body env stmts) (effects env stmts))
      (alternative env result other)
  | .ifMod c n =>
    conditional true (value env c) (into result (value env n) (effect env n)) (nothingElse result)
  | .unlessThen c stmts other =>
    conditional false (value env c) (into result (body env stmts) (effects env stmts))
      (otherwise env result other)
  | .unlessMod c n =>
    conditional false (value env c) (into result (value env n) (effect env n)) (nothingElse result)
  | .case n clauses other =>
    select (value env n) fun subject => cases env result subject (remaining env result other) clauses
  | .loop sense c stmts => loop sense (value env c) (effects env stmts)
  | .loopMod sense c n => loop sense (value env c) (effect env n)
  | .forIn (.mk target (.varTarget _)) n stmts => do
    let slot ← resolved target "var-field"
    let receiver ← value env n
    blockCall [⟨slot, .required⟩] result (.method receiver "each") (pure (.positional []))
      (body env stmts)
  | .forIn (.mk target (.fieldTarget ..)) _ _ => failAt target .forField
  | .forIn (.mk target (.multiTarget _)) _ _ => failAt target .forMultiple
  | .forIn (.mk target kind) _ _ => failAt target (.misplaced kind.tag .loopTarget)
  | .guarded stmts none => guarded (into result (body env stmts) (effects env stmts)) none
  | .guarded stmts (some clause) =>
    guarded (into result (body env stmts) (effects env stmts)) (some (effects env clause))
  | .returnWith args =>
    returnValue info
      (if args.any (·.isSplat) || 1 < args.length then
        aggregate env info fun klass array => elements env klass array args
      else body env args)
  | .breakWith args => jumpOut info .break (discards env args)
  | .nextWith args => jumpOut info .next (discards env args)
  | .redo => jumpOut info .redo (pure ())
  | .call r method args blockPass block => do
    let receiver ← receiver env info r
    send info result (.method receiver method)
      (arguments args
        (aggregate env info fun klass array => elements env klass array args) (values env args))
      (passed env blockPass) (literal env block)
  | .super args blockPass block =>
    send info result .super
      (arguments args
        (aggregate env info fun klass array => elements env klass array args) (values env args))
      (passed env blockPass) (literal env block)
  | .zsuper block =>
    match info.scope.bind (·.method) with
    | none => failAt info .noMethod
    | some method =>
      send info result .super (passParameters env info method) none (literal env block)
  | _ => pure ()

/-- The value of statements: that of the last one, or `nil`. -/
def body (env : Environment) : List Node → m Binding
  | [] => constTemp .nil
  | n :: ns =>
    if ns.isEmpty then value env n
    else do
      effect env n
      body env ns

/-- The effects of statements, in order. -/
def effects (env : Environment) : List Node → m Unit
  | [] => pure ()
  | n :: ns => do
    effect env n
    effects env ns

/-- The values of nodes, in order. -/
def values (env : Environment) : List Node → m (List Binding)
  | [] => pure []
  | n :: ns => do
    let v ← value env n
    let vs ← values env ns
    return v :: vs

/-- A text with the values of further parts behind it. -/
def concat (env : Environment) (text : Binding) : List Node → m Binding
  | [] => pure text
  | n :: ns => do
    let v ← value env n
    let longer ← callValue text "concat" [v]
    concat env longer ns

/-- Adds the values of elements to an array, and the items of those that are spliced. -/
def elements (env : Environment) (klass array : Binding) : List Node → m Unit
  | [] => pure ()
  | .mk _ (.splat n) :: ns => do
    let v ← value env n
    spliceValue klass array v
    elements env klass array ns
  | n :: ns => do
    let v ← value env n
    pushValue array v
    elements env klass array ns

/-- The effects of elements, spliced or not. -/
def discards (env : Environment) : List Node → m Unit
  | [] => pure ()
  | .mk _ (.splat n) :: ns => do
    effect env n
    discards env ns
  | n :: ns => do
    effect env n
    discards env ns

/-- What follows the body of a conditional. -/
def alternative (env : Environment) (result : Option Binding) : Option Node → Alternative m
  | none => nothingElse result
  | some (.mk info kind) =>
    match kind with
    | .ifThen c stmts other =>
      .clause (value env c) (into result (body env stmts) (effects env stmts))
        (alternative env result other)
    | .elsif c stmts other =>
      .clause (value env c) (into result (body env stmts) (effects env stmts))
        (alternative env result other)
    | .ifMod c n =>
      .clause (value env c) (into result (value env n) (effect env n)) (nothingElse result)
    | .elseThen stmts => .last (into result (body env stmts) (effects env stmts))
    | kind => .last (failAt info (.misplaced kind.tag .conditionalClause))

/-- Statements for all cases that are left. -/
def otherwise (env : Environment) (result : Option Binding) : Option (List Node) → Alternative m
  | none => nothingElse result
  | some stmts => .last (into result (body env stmts) (effects env stmts))

/-- What is done where no clause of a `case` matches. -/
def remaining (env : Environment) (result : Option Binding) : Option (List Node) → m Unit
  | none => deliverNil result
  | some stmts => into result (body env stmts) (effects env stmts)

/-- The clauses of a `case`, in order, with what is done where none of them matches. -/
def cases (env : Environment) (result : Option Binding) (subject : Binding) (unmatched : m Unit) :
    List Node → Clauses m
  | [] => .last unmatched
  | .mk _ (.whenThen cs stmts) :: ns =>
    .clause (candidates env subject cs) (into result (body env stmts) (effects env stmts))
      (cases env result subject unmatched ns)
  | .mk info kind :: _ => .last (failAt info (.misplaced kind.tag .caseClause))

/-- The tests of the candidates of a clause against the subject, in order. -/
def candidates (env : Environment) (subject : Binding) : List Node → List (m Binding)
  | [] => []
  | n :: ns =>
    (do
      let v ← value env n
      callValue v "===" [subject]) :: candidates env subject ns

/-- The receiver of a call: a value, or `self`. -/
def receiver (env : Environment) (info : Info) : Option Node → m Binding
  | none => selfTemp info "call"
  | some n => value env n

/-- The block value of a call. -/
def passed (env : Environment) : Option Node → Option (m Binding)
  | none => none
  | some n => some (value env n)

/-- The block literal of a call. -/
def literal (env : Environment) : Option Node → BlockLiteral m
  | none => .absent
  | some (.mk _ (.doBlock params stmts)) => .present params (body env stmts)
  | some (.mk info kind) => .misplaced info kind.tag

end

end Lowering

end ControlFlow
