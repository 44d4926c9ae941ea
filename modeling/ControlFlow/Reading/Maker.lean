import ControlFlow.Form.Bracket
import ControlFlow.Reading.Fault
import ControlFlow.Reading.Tag
import ControlFlow.Syntax.Node
/-!
# Making nodes from forms

What all readers of forms share: the file and the scope that every node gets, the count of the nodes
made so far, and the atoms that stand for names, texts, parameters and scopes.
-/

namespace ControlFlow

/-- What all nodes of one text have in common. -/
structure Setting where
  file : String
  scope : Scope
deriving DecidableEq, Repr, Inhabited

/-- Reading forms: it counts the nodes made and may end in an error. -/
abbrev Reader := StateT Nat (Except ReadError)

namespace Reading

/-- The error of a fault at a place of a file. -/
def errorAt (file : String) (e : Extent) (fault : ReadFault) : ReadError :=
  ⟨fault, some (Location.ofPosition file e.start), some (e.span file)⟩

/-- Fails at a form. -/
def failAt {α : Type} (s : Setting) (e : Extent) (fault : ReadFault) : Reader α :=
  throw (errorAt s.file e fault)

/-- A new node that is written at `e`. -/
def make (s : Setting) (e : Extent) (kind : Kind Node) (binding : Option Binding := none) :
    Reader Node := do
  let id := (← get) + 1
  set id
  return .mk ⟨id, some (Location.ofPosition s.file e.start), some (e.span s.file), binding,
    some s.scope⟩ kind

/-- Fails because a form has the wrong number of arguments. -/
def failArity {α : Type} (s : Setting) (e : Extent) (tag : String) (expected : Arity)
    (args : List Form) : Reader α :=
  failAt s e (.arity tag expected args.length)

/-- Why a form has no tag. -/
def untagged : Form → ReadFault
  | .atom .. => .atomForForm
  | .list _ [] => .emptyForm
  | .list _ (_ :: _) => .untagged

/-- The tag and the arguments of a form. -/
def split (s : Setting) (f : Form) : Reader (String × List Form) :=
  match f with
  | .list _ (.atom _ (.symbol tag) :: args) => return (tag, args)
  | _ => failAt s f.extent (untagged f)

/-- A name: a symbol or a quoted text. -/
def name (s : Setting) : Form → Reader String
  | .atom _ (.symbol n) => return n
  | .atom _ (.text n) => return n
  | f => failAt s f.extent .noName

/-- A quoted text. -/
def text (s : Setting) : Form → Reader String
  | .atom _ (.text t) => return t
  | f => failAt s f.extent .noText

/-- The parameter that a form declares. -/
def parameter (s : Setting) (f : Form) : Reader Parameter := do
  let (tag, args) ← split s f
  match args with
  | [n] =>
    match ParameterKind.ofTag? tag with
    | some kind => return ⟨⟨← name s n, .localVar⟩, kind⟩
    | none => failAt s f.extent (.parameterKind tag)
  | _ => failArity s f.extent tag (.exactly 1) args

/-- The method that a form declares. -/
def signature (s : Setting) (f : Form) : Reader Signature := do
  let (tag, args) ← split s f
  if tag ≠ "def" then
    failAt s f.extent (.notDef tag)
  else
    match args with
    | n :: params => return ⟨← name s n, ← params.mapM (parameter s)⟩
    | [] => failArity s f.extent tag (.atLeast 1) args

/-- The scope that a form declares. -/
def scope (s : Setting) (f : Form) : Reader Scope := do
  let (tag, args) ← split s f
  match args with
  | [n] => return ⟨.selfRef (← name s n), none⟩
  | [n, method] => return ⟨.selfRef (← name s n), some (← signature s method)⟩
  | _ => failArity s f.extent tag (.between 1 2) args

/-- The number that an argument spells, as the constant of a number form. -/
def number? (tag : Tag) : Form → Option Constant
  | .atom _ (.integer n) => if tag = .int then some (.integer n) else some (.float (.ofInt n))
  | .atom _ (.float x) => if tag = .int then none else some (.float x)
  | _ => none

/-- The expression that an atom stands for. -/
def atom (s : Setting) (e : Extent) : Atom → Reader Node
  | .integer n => make s e (.literal (.integer n))
  | .float x => make s e (.literal (.float x))
  | .text t => do
    let part ← make s e (.content t)
    make s e (.str [part])
  | .symbol n =>
    match n with
    | "nil" => make s e (.literal .nil)
    | "true" => make s e (.literal (.bool true))
    | "false" => make s e (.literal (.bool false))
    | "self" => make s e .selfRef
    | _ => failAt s e (.bareSymbol n)

end Reading

end ControlFlow
