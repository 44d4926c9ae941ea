/-!
# Text without terminal control

A text for a terminal holds, beside what is to be seen, control characters and control sequences.
`Terminal.plain` is what remains of it where there is no terminal: printable characters outside
sequences, and blanks.

A sequence starts with the escape character and is read character by character; its `Mode` tells
which character ends it. Two rules go beyond this. A terminal obeys a control character in the midst
of a sequence, so that a blank there is seen; the text behind it is seen up to the next character
that is not, and there the sequence goes on. And a string ends with the terminator as a byte, also
where that byte is a part of a character.
-/

namespace ControlFlow.Terminal

/-- Where a terminal stands in a text. -/
inductive Mode where
  | text
  /-- Behind the escape character. -/
  | escape
  /-- In an escape sequence that goes on behind its first character. -/
  | longEscape
  /-- In a control sequence, which a letter or a similar character ends. -/
  | sequence
  /-- At the start of a device control. -/
  | deviceStart
  /-- In the parameters of a device control. -/
  | deviceParameters
  /-- Behind the parameters of a device control. -/
  | deviceKind
  /-- In a string, which the terminator ends. -/
  | string
  /-- In a command to the system, which the bell ends. -/
  | command
deriving DecidableEq, Repr, Inhabited

/-- Whether a character stands between two others, these included. -/
def between (first c last : Char) : Bool := first ≤ c && c ≤ last

/-- Whether a character is beyond ASCII. -/
def isWide (c : Char) : Bool := 0x80 ≤ c.toNat

/-- Whether a control character is a blank: a tab, or the end of a line or of a page. -/
def isBlankControl (c : Char) : Bool := c = '\t' || c = '\n' || c = '\x0c' || c = '\r'

/-- Whether the terminator of strings is among the bytes of a character. -/
def holdsTerminator (c : Char) : Bool := (String.utf8EncodeChar c).contains 0x9c

namespace Mode

/-- The mode behind a character. The escape character starts a sequence anywhere, and two control
characters end one. -/
def next (mode : Mode) (c : Char) : Mode :=
  if c = '\x1b' then .escape
  else if c = '\x18' ∨ c = '\x1a' then .text
  else
    match mode with
    | .text => .text
    | .escape =>
      if between ' ' c '/' then .longEscape
      else if c = '[' then .sequence
      else if c = ']' then .command
      else if c = 'P' then .deviceStart
      else if c = 'X' ∨ c = '^' ∨ c = '_' then .string
      else if between '0' c '~' then .text
      else .escape
    | .longEscape => if between '0' c '~' then .text else .longEscape
    | .sequence => if between '@' c '~' then .text else .sequence
    | .deviceStart =>
      if between ' ' c '/' then .deviceKind
      else if c = ':' ∨ between '@' c '~' then .string
      else if between '0' c '?' then .deviceParameters
      else .deviceStart
    | .deviceParameters =>
      if between ' ' c '/' then .deviceKind
      else if c = ':' ∨ between '<' c '~' then .string
      else .deviceParameters
    | .deviceKind => if between '0' c '~' then .string else .deviceKind
    | .string => if holdsTerminator c then .text else .string
    | .command => if c = '\x07' then .text else .command

/-- Whether a character is seen in a mode. -/
def shows (mode : Mode) (c : Char) : Bool :=
  match mode with
  | .text => isWide c || between ' ' c '~' || isBlankControl c
  | .escape | .longEscape | .sequence => isBlankControl c
  | _ => false

end Mode

/-- The characters that are seen. A character behind one that is seen (`seen`) is taken for text;
only one beyond ASCII leaves the sequence that may be open for good. -/
def visible : Mode → Bool → List Char → List Char
  | _, _, [] => []
  | mode, seen, c :: cs =>
    if seen && Mode.text.shows c then c :: visible (if isWide c then .text else mode) true cs
    else if mode.shows c then c :: visible mode true cs
    else visible (mode.next c) false cs

/-- What remains of a text where there is no terminal. -/
def plain (text : String) : String := String.ofList (visible .text false text.toList)

end ControlFlow.Terminal
