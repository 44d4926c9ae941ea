/-!
# Bindings, parameters and scopes

A *binding* is a place that holds a value: a variable of some kind, the receiver `self`, or a
temporary of the lowered code. A *scope* says what `self` is and which method, if any, is being
defined.
-/

namespace ControlFlow

/-- What kind of place a binding is. -/
inductive BindingKind where
  | localVar
  | instanceVar
  | globalVar
  | constant
  | selfRef
  | temporary
deriving DecidableEq, Repr, Inhabited

namespace BindingKind

/-- The name of a kind in JSON. -/
def name : BindingKind → String
  | .localVar => "Local"
  | .instanceVar => "Instance"
  | .globalVar => "Global"
  | .constant => "Constant"
  | .selfRef => "SelfRef"
  | .temporary => "Temporary"

end BindingKind

/-- A place that holds a value. -/
structure Binding where
  name : String
  kind : BindingKind
deriving DecidableEq, Repr, Inhabited

namespace Binding

/-- The receiver of a scope, by the name of the scope. -/
def selfRef (name : String) : Binding := ⟨name, .selfRef⟩

/-- The `n`-th temporary. -/
def temporary (n : Nat) : Binding := ⟨s!"%t{n}", .temporary⟩

/-- The text of a binding: its name, or `self<name>` for a receiver. -/
def render (b : Binding) : String :=
  match b.kind with
  | .selfRef => s!"self<{b.name}>"
  | _ => b.name

end Binding

/-- How a parameter takes its argument. -/
inductive ParameterKind where
  | required
  | optional
  /-- Takes all arguments that are left, as one array. -/
  | rest
  /-- A required parameter that follows a rest parameter. -/
  | post
  | block
deriving DecidableEq, Repr, Inhabited

namespace ParameterKind

/-- The name of a kind in JSON. -/
def name : ParameterKind → String
  | .required => "Required"
  | .optional => "Optional"
  | .rest => "Rest"
  | .post => "Post"
  | .block => "Block"

/-- The kind that the tag of a parameter form stands for. -/
def ofTag? : String → Option ParameterKind
  | "req" => some .required
  | "opt" => some .optional
  | "rest" => some .rest
  | "post" => some .post
  | "block" => some .block
  | _ => none

end ParameterKind

/-- A parameter of a method or of a block literal. -/
structure Parameter where
  binding : Binding
  kind : ParameterKind
deriving DecidableEq, Repr, Inhabited

/-- The name and the parameters of a method. -/
structure Signature where
  name : String
  params : List Parameter
deriving DecidableEq, Repr, Inhabited

namespace Signature

/-- The parameters that an implicit `super` passes on: all but the block parameters. -/
def positional (s : Signature) : List Parameter := s.params.filter (·.kind ≠ .block)

/-- The index of the first rest parameter among the positional ones. -/
def restIndex? (s : Signature) : Option Nat := s.positional.findIdx? (·.kind = .rest)

end Signature

/-- What surrounds an expression: the receiver `self` and the method being defined. -/
structure Scope where
  self : Binding
  method : Option Signature
deriving DecidableEq, Repr, Inhabited

/-- The scope of a text that declares none. -/
def Scope.main : Scope := ⟨.selfRef "main", none⟩

end ControlFlow
