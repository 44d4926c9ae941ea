import ControlFlow.Json.Cursor
import ControlFlow.Options
/-!
# Options from JSON

The options are an object whose field `max_depth` holds the limit, or a list that holds at most the
limit. Other fields are skipped, and a missing limit is the usual one.
-/

namespace ControlFlow.Options

open Json (Scan)
open Json.Scan

/-- The name of the field of the limit. -/
def field : String := "max_depth"

/-- The type of the limit, as problems name it. -/
def limitType : String := "usize"

/-- The type of the options, as problems name it. -/
def optionsType : String := "struct BuildOptions"

/-- Fails because the limit is given twice. The place is behind the blanks that follow, and behind
the end of the object if that follows. -/
def failTwice : Scan (Option Nat) := do
  if (← peekToken?) = some '\x7d' then eat
  failHere (.duplicate field)

/-- Passes the colon of a field. -/
def colon : Scan Unit := do
  match ← peekToken? with
  | some ':' => eat
  | some _ => failAhead .wantColon
  | none => failAhead .endInObject

/-- Passes what stands before a further key and says whether there is one. -/
def moreFields (first : Bool) : Scan Bool := do
  match ← peekToken? with
  | none => failAhead .endInObject
  | some c =>
    if c = '\x7d' then return false
    else if first then
      if c = '"' then return true else failAhead .keyNotString
    else if c = ',' then do
      eat
      match ← peekToken? with
      | some '"' => return true
      | some '\x7d' => failAhead .trailingComma
      | some _ => failAhead .keyNotString
      | none => failAhead .endInValue
    else failAhead .wantObjectEnd

/-- The limit among the fields of an object, of which there are at most `fuel`. -/
def fields : Nat → Bool → Option Nat → Scan (Option Nat)
  | 0, _, found => return found
  | fuel + 1, first, found => do
    if ← moreFields first then
      eat
      let key ← string
      if key = field then
        if found.isSome then failTwice
        else do
          colon
          let n ← natural limitType
          fields fuel false (some n)
      else do
        colon
        skipValue
        fields fuel false found
    else return found

/-- The limit in a list, if there is one. -/
def item : Scan (Option Nat) := do
  match ← peekToken? with
  | some ']' => return none
  | some _ => do
    let n ← natural limitType
    return some n
  | none => failAhead .endInList

/-- Passes the end of a list. -/
def endList : Scan Unit := do
  match ← peekToken? with
  | some ']' => eat
  | some ',' => do
    eat
    match ← peekToken? with
    | some ']' => failAhead .trailingComma
    | _ => failAhead .trailing
  | some _ => failAhead .trailing
  | none => failAhead .endInList

/-- The options at the cursor. -/
def scan : Scan Options := do
  match ← peekToken? with
  | none => failAhead .endInValue
  | some '[' => do
    eat
    let found ← item
    endList
    return ⟨found.getD ({} : Options).maxDepth⟩
  | some '\x7b' => do
    eat
    let found ← fields ((← get).rest.length + 1) true none
    eat
    return ⟨found.getD ({} : Options).maxDepth⟩
  | some _ => failType optionsType

/-- The options of a whole text. -/
def parse (text : String) : Except Json.ReadProblem Options :=
  (do
    let o ← scan
    match ← peekToken? with
    | some _ => failAhead .trailing
    | none => return o : Scan Options).run' (.ofText text)

/-- The options of a text, if they pass validation. -/
def ofText (text : String) : Except Diagnostic Options :=
  match parse text with
  | .ok o => o.validate
  | .error p => .error
    { category := .config
      message := s!"parse build options: {p.render}"
      issuer := "flowgraph.config.from_json_str" }

end ControlFlow.Options
