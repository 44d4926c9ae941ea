import ControlFlow.Number.Binary64
import ControlFlow.Text.Position
/-!
# Forms

A form is an atom or a list of forms, together with the part of the text that it was read from. The
atoms written as words are numbers if the whole word is one, and symbols otherwise.
-/

namespace ControlFlow

/-- The part of a text from `start` up to, and not including, `stop`. -/
structure Extent where
  start : Position
  stop : Position
deriving DecidableEq, Repr, Inhabited

/-- The span of an extent in a named file. -/
def Extent.span (file : String) (e : Extent) : Span := .ofPositions file e.start e.stop

/-- The atoms of forms. -/
inductive Atom where
  | symbol (name : String)
  | text (value : String)
  | integer (value : Int)
  | float (value : Binary64)
deriving DecidableEq, Repr, Inhabited

/-- A form and its place in the text. -/
inductive Form where
  | atom (extent : Extent) (value : Atom)
  | list (extent : Extent) (items : List Form)
deriving Inhabited, Repr

namespace Form

/-- The place of a form in the text. -/
def extent : Form → Extent
  | atom e _ => e
  | list e _ => e

/-- The name of a symbol. -/
def symbol? : Form → Option String
  | atom _ (.symbol s) => some s
  | _ => none

/-- The value of a quoted text. -/
def text? : Form → Option String
  | atom _ (.text t) => some t
  | _ => none

/-- The symbol at the head of a list. -/
def tag? : Form → Option String
  | list _ (head :: _) => head.symbol?
  | _ => none

end Form

/-! ## Words -/

namespace Word

/-- The blanks between tokens. -/
def isGap (c : Char) : Bool := c = ' ' || c = '\t' || c = '\r' || c = '\n'

/-- The characters of words: all but blanks, brackets, quotes and the comment mark. -/
def isWordChar (c : Char) : Bool := !(isGap c || c = '(' || c = ')' || c = '"' || c = ';')

/-- Whether a text is one or more decimal digits. -/
def isDigits (cs : List Char) : Bool := !cs.isEmpty && cs.all Char.isDigit

/-- The number that decimal digits spell. -/
def natural (cs : List Char) : Nat := cs.foldl (fun n c => 10 * n + (c.toNat - '0'.toNat)) 0

/-- A word without its leading minus sign, and whether it has one. -/
def splitSign : List Char → Bool × List Char
  | '-' :: cs => (true, cs)
  | cs => (false, cs)

/-- The integer that a word spells, if all of it does: an optional minus sign and digits. -/
def integer? (word : List Char) : Option Int :=
  let (negative, digits) := splitSign word
  if isDigits digits then
    some (if negative then -(natural digits : Int) else natural digits)
  else none

/-- The floating-point number that a word spells, if all of it does: an optional minus sign, digits,
a point and digits. -/
def float? (word : List Char) : Option Binary64 :=
  let (negative, digits) := splitSign word
  let whole := digits.takeWhile (· ≠ '.')
  match digits.dropWhile (· ≠ '.') with
  | '.' :: fraction =>
    if isDigits whole && isDigits fraction then
      some (.ofDecimal negative (natural (whole ++ fraction)) (-(fraction.length : Int)))
    else none
  | _ => none

/-- Whether an integer fits in a machine word with a sign. -/
def inRange (n : Int) : Bool := -(Nat.pow 2 63 : Nat) ≤ n && n < (Nat.pow 2 63 : Nat)

end Word

/-- The atom that a word spells. -/
def Atom.ofWord (word : String) : Atom :=
  match Word.integer? word.toList with
  | some n => .integer n
  | none =>
    match Word.float? word.toList with
    | some x => .float x
    | none => .symbol word

end ControlFlow
