import ControlFlow.Event
import ControlFlow.Form.Nesting
import ControlFlow.Reading.Expression
import ControlFlow.Source
/-!
# From text to syntax tree

A text is refused, in this order, if it is blank, if its lists nest too deep, if the stack for its
depth cannot be reserved, if it is not a sequence of forms, if a number in it is out of range, if it
does not hold exactly one form, and if that form is not one of the known ones.
-/

namespace ControlFlow.Reading

/-- The task of reading, as the journal names it. -/
def task : String := "flowgraph-read"

/-- What is wanted where the forms of a text cannot go on. -/
def wanted (u : Unmatched) : Wanted :=
  if u.inList then .item
  else if u.position = .origin then .document
  else .formOrEnd

/-- The forms of a text. -/
def forms (file content : String) : Except ReadError (List Form) :=
  let tokens := Tokens.ofText content
  match Form.ofTokens tokens with
  | .error u => .error ⟨.unmatched (wanted u), some (Location.ofPosition file u.position), none⟩
  | .ok fs =>
    match tokens.items.findSome? fun t => t.oversized?.map fun word => (t.extent, word) with
    | some (e, word) => .error (errorAt file e (.integerRange word))
    | none => .ok fs

/-- The tree of the forms of a text, of which there must be one. -/
def root (file : String) (fs : List Form) : Except ReadError Node :=
  match fs with
  | [f] => (program ⟨file, .main⟩ f).run' 0
  | _ :: extra :: _ => .error (errorAt file extra.extent (.topLevel fs.length))
  | [] => .error ⟨.topLevel 0, none, none⟩

/-- The tree of a text, and the journal of its reading. -/
def run (host : Host) (options : Options) (source : Source) :
    Except ReadError Node × Array Event :=
  if source.isEmpty then (.error ⟨.emptySource source.name, none, none⟩, #[])
  else
    match Nesting.excess? options.maxDepth source.content with
    | some p =>
      (.error ⟨.nesting options.maxDepth, some (Location.ofPosition source.name p), none⟩, #[])
    | none =>
      let start := Event.running task options.stackSize
      match options.refusal? host with
      | some reason => (.error ⟨.noStack options reason, none, none⟩, #[start])
      | none =>
        match forms source.name source.content with
        | .error e => (.error e, #[start])
        | .ok fs => (root source.name fs, #[start, .formsRead fs.length source.name])

/-- The tree of a text. -/
def read (host : Host) (options : Options) (source : Source) : Except ReadError Node :=
  (run host options source).1

end ControlFlow.Reading
