import ControlFlow.Text.Position
/-!
# How deep lists nest

A scan over the characters of a text that keeps only the number of open lists. It stops at the first
opening bracket beyond a limit. Brackets inside comments and quoted texts do not count; in a quoted
text a backslash takes the character behind it along, whatever that is.
-/

namespace ControlFlow.Nesting

/-- Where the scan stands. -/
inductive Mode where
  | code
  | comment
  | quoted
  | escape
deriving DecidableEq, Repr, Inhabited

/-- The mode after a character. -/
def Mode.next : Mode → Char → Mode
  | code, c => if c = ';' then comment else if c = '"' then quoted else code
  | comment, c => if c = '\n' then code else comment
  | quoted, c => if c = '"' then code else if c = '\\' then escape else quoted
  | escape, _ => quoted

/-- The number of open lists after a character; a closing bracket too many is ignored. -/
def nextDepth (mode : Mode) (depth : Nat) (c : Char) : Nat :=
  match mode with
  | .code => if c = '(' then depth + 1 else if c = ')' then depth - 1 else depth
  | _ => depth

/-- The position of the first bracket that opens more than `limit` lists. -/
def scan (limit : Nat) (mode : Mode) (depth : Nat) (p : Position) : List Char → Option Position
  | [] => none
  | c :: cs =>
    let depth' := nextDepth mode depth c
    if depth < depth' ∧ limit < depth' then some p
    else scan limit (mode.next c) depth' (p.advance c) cs

/-- The position of the first bracket of a text that opens more than `limit` lists. -/
def excess? (limit : Nat) (text : String) : Option Position :=
  scan limit .code 0 .origin text.toList

end ControlFlow.Nesting
