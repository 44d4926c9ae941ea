import ControlFlow.Number.Layout
import ControlFlow.Text.Quoted
/-!
# Reading JSON

A cursor moves over the bytes of a JSON text and keeps the line and the number of bytes of the line
that it has passed. A problem is reported either where the cursor stands (`failHere`) or one byte
ahead, where the byte that is not wanted ends (`failAhead`). Values that are not needed are checked
and skipped without being kept, however deep they nest.
-/

namespace ControlFlow.Json

/-- A place in the bytes of a text. -/
structure Cursor where
  rest : List UInt8
  line : Nat := 1
  /-- The bytes of the line that have been passed. -/
  column : Nat := 0
deriving DecidableEq, Repr, Inhabited

/-- What is wrong with a JSON text. -/
inductive Problem where
  | endInList
  | endInObject
  | endInString
  | endInValue
  | wantColon
  | wantListEnd
  | wantObjectEnd
  | wantWord
  | wantValue
  | badEscape
  | badNumber
  | numberRange
  | control
  | keyNotString
  | loneSurrogate
  | trailingComma
  | trailing
  | endOfHex
  /-- A value of the wrong type. -/
  | wrongType (found expected : String)
  /-- A value of the right type that is not allowed. -/
  | wrongValue (found expected : String)
  | duplicate (field : String)
deriving DecidableEq, Repr, Inhabited

/-- The text of a problem. -/
def Problem.render : Problem → String
  | endInList => "EOF while parsing a list"
  | endInObject => "EOF while parsing an object"
  | endInString => "EOF while parsing a string"
  | endInValue => "EOF while parsing a value"
  | wantColon => "expected `:`"
  | wantListEnd => "expected `,` or `]`"
  | wantObjectEnd => "expected `,` or `\x7d`"
  | wantWord => "expected ident"
  | wantValue => "expected value"
  | badEscape => "invalid escape"
  | badNumber => "invalid number"
  | numberRange => "number out of range"
  | control => "control character (\\u0000-\\u001F) found while parsing a string"
  | keyNotString => "key must be a string"
  | loneSurrogate => "lone leading surrogate in hex escape"
  | trailingComma => "trailing comma"
  | trailing => "trailing characters"
  | endOfHex => "unexpected end of hex escape"
  | wrongType found expected => s!"invalid type: {found}, expected {expected}"
  | wrongValue found expected => s!"invalid value: {found}, expected {expected}"
  | duplicate field => s!"duplicate field `{field}`"

/-- A problem and its place. -/
structure ReadProblem where
  problem : Problem
  line : Nat
  column : Nat
deriving DecidableEq, Repr, Inhabited

/-- The text of a problem and its place. -/
def ReadProblem.render (p : ReadProblem) : String :=
  s!"{p.problem.render} at line {p.line} column {p.column}"

/-- Reading from a cursor. -/
abbrev Scan := StateT Cursor (Except ReadProblem)

namespace Cursor

/-- The cursor at the start of a text. -/
def ofText (text : String) : Cursor := ⟨text.toUTF8.toList, 1, 0⟩

/-- The next byte as a character; bytes beyond ASCII are never confused with one of ASCII. -/
def peek? (c : Cursor) : Option Char := c.rest.head?.map fun b => Char.ofNat b.toNat

/-- The cursor behind the next byte. -/
def advance (c : Cursor) : Cursor :=
  match c.rest with
  | [] => c
  | b :: bs => if b = 10 then ⟨bs, c.line + 1, 0⟩ else ⟨bs, c.line, c.column + 1⟩

/-- The cursor behind the next `n` bytes. -/
def skip : Nat → Cursor → Cursor
  | 0, c => c
  | n + 1, c => skip n c.advance

/-- The number of bytes of the longest run of characters of a class at the cursor. -/
def run (p : Char → Bool) (c : Cursor) : Nat :=
  (c.rest.takeWhile fun b => p (Char.ofNat b.toNat)).length

/-- A problem at the cursor. -/
def problem (c : Cursor) (p : Problem) : ReadProblem := ⟨p, c.line, c.column⟩

end Cursor

namespace Scan

variable {α : Type}

/-- Fails where the cursor stands. -/
def failHere (p : Problem) : Scan α := do throw ((← get).problem p)

/-- Fails behind the next byte. -/
def failAhead (p : Problem) : Scan α := do throw ((← get).advance.problem p)

/-- The next byte, which is not passed. -/
def peek? : Scan (Option Char) := return (← get).peek?

/-- Passes the next byte. -/
def eat : Scan Unit := modify (·.advance)

/-- The next byte, which is passed. -/
def next? : Scan (Option Char) := modifyGet fun c => (c.peek?, c.advance)

/-- Blanks between the tokens of JSON. -/
def isBlank (c : Char) : Bool := c = ' ' || c = '\n' || c = '\t' || c = '\r'

/-- Passes blanks. -/
def blanks : Scan Unit := modify fun c => c.skip (c.run isBlank)

/-- The next byte behind blanks, which are passed. -/
def peekToken? : Scan (Option Char) := do
  blanks
  peek?

/-- The digits at the cursor, which are passed. -/
def digits : Scan (List Nat) := modifyGet fun c =>
  let n := c.run Char.isDigit
  ((c.rest.take n).map fun b => b.toNat - 48, c.skip n)

/-- The letters of a word. -/
def word : List Char → Scan Unit
  | [] => pure ()
  | expected :: more => do
    match ← next? with
    | none => failHere .endInValue
    | some c => if c = expected then word more else failHere .wantWord

/-! ## Strings -/

/-- The bytes of a character. -/
def bytesOf (code : Nat) : List UInt8 := (String.singleton (Char.ofNat code)).toUTF8.toList

/-- The value of a hexadecimal digit. -/
def hexValue? (b : UInt8) : Option Nat :=
  let n := b.toNat
  if 48 ≤ n ∧ n ≤ 57 then some (n - 48)
  else if 65 ≤ n ∧ n ≤ 70 then some (n - 55)
  else if 97 ≤ n ∧ n ≤ 102 then some (n - 87)
  else none

/-- Four hexadecimal digits. -/
def hex : Scan Nat := do
  let bytes := (← get).rest.take 4
  modify (·.skip 4)
  if bytes.length < 4 then failHere .endInString
  else
    match bytes.mapM hexValue? with
    | some ds => return ds.foldl (fun n d => 16 * n + d) 0
    | none => failHere .badEscape

/-- The byte that must follow inside an escape. -/
def escapeMark (expected : Char) : Scan Unit := do
  match ← peek? with
  | none => failHere .endInString
  | some c =>
    eat
    if c = expected then pure () else failHere .endOfHex

/-- The character of an escape with four digits; a leading surrogate must have a trailing one behind
it. -/
def unicode : Scan (List UInt8) := do
  let n ← hex
  if 0xDC00 ≤ n ∧ n ≤ 0xDFFF then failHere .loneSurrogate
  else if 0xD800 ≤ n ∧ n ≤ 0xDBFF then
    escapeMark '\\'
    escapeMark 'u'
    let n' ← hex
    if 0xDC00 ≤ n' ∧ n' ≤ 0xDFFF then
      return bytesOf ((n - 0xD800) * 0x400 + (n' - 0xDC00) + 0x10000)
    else failHere .loneSurrogate
  else return bytesOf n

/-- The character that a letter stands for behind a backslash. -/
def escaped? : Char → Option Nat
  | '"' => some 0x22
  | '\\' => some 0x5C
  | '/' => some 0x2F
  | 'b' => some 0x08
  | 'f' => some 0x0C
  | 'n' => some 0x0A
  | 'r' => some 0x0D
  | 't' => some 0x09
  | _ => none

/-- What stands behind a backslash. If the string is not kept, surrogates need not be in pairs. -/
def escape (keep : Bool) : Scan (List UInt8) := do
  match ← next? with
  | none => failHere .endInString
  | some 'u' => if keep then unicode else do
    let _ ← hex
    return []
  | some c =>
    match escaped? c with
    | some code => return bytesOf code
    | none => failHere .badEscape

/-- The bytes of a string up to its closing quote, which is passed; `done` holds those already read,
in reverse. -/
def stringBytes (keep : Bool) : Nat → List UInt8 → Scan (List UInt8)
  | 0, done => return done.reverse
  | fuel + 1, done => do
    match (← get).rest with
    | [] => failHere .endInString
    | b :: _ =>
      if b = 34 then do
        eat
        return done.reverse
      else if b = 92 then do
        eat
        let bytes ← escape keep
        stringBytes keep fuel (bytes.reverse ++ done)
      else if b < 32 then
        if keep then failAhead .control else failHere .control
      else do
        eat
        stringBytes keep fuel (b :: done)

/-- A string, the opening quote being passed. -/
def string : Scan String := do
  let bytes ← stringBytes true ((← get).rest.length + 1) []
  return (String.fromUTF8? ⟨bytes.toArray⟩).getD ""

/-- Passes a string, the opening quote being passed. -/
def skipString : Scan Unit := do
  let _ ← stringBytes false ((← get).rest.length + 1) []

/-! ## Numbers -/

/-- A number of JSON: an integer of one machine word, or a floating-point number. -/
inductive Number where
  | natural (n : Nat)
  | negative (n : Int)
  | float (x : Binary64)
deriving DecidableEq, Repr, Inhabited

/-- The largest machine word. -/
def largestWord : Nat := Nat.pow 2 64 - 1

/-- The largest exponent that is read to its end. -/
def largestExponent : Nat := Nat.pow 2 31 - 1

/-- The power of ten, rounded. -/
def powerOfTen (n : Nat) : Binary64 := .ofDecimal false 1 n

/-- `x * 10 ^ exponent`, rounded after each of at most `fuel` steps. Nothing is known of a number
that is too large. -/
def scaleByTen : Nat → Binary64 → Int → Option Binary64
  | 0, x, _ => some x
  | fuel + 1, x, exponent =>
    if exponent.natAbs ≤ 308 then
      if 0 ≤ exponent then
        let y := x.mulSize (powerOfTen exponent.natAbs)
        if y.isInfinite then none else some y
      else some (x.divSize (powerOfTen exponent.natAbs))
    else if x = .zero false then some x
    else if 0 ≤ exponent then none
    else scaleByTen fuel (x.divSize (powerOfTen 308)) (exponent + 308)

/-- `± significand * 10 ^ exponent` as a floating-point number, rounded step by step. -/
def ofParts (negative : Bool) (significand : Nat) (exponent : Int) : Scan Number := do
  match scaleByTen 4 (.ofRatio false significand 1) exponent with
  | some x => return .float (x.withSign negative)
  | none => failHere .numberRange

/-- The exponent of a number, from `value` on, and whether all of it was read. -/
def exponentDigits : Nat → Nat → Scan (Nat × Bool)
  | 0, value => return (value, true)
  | fuel + 1, value => do
    match ← peek? with
    | some c =>
      if c.isDigit then do
        eat
        let longer := 10 * value + (c.toNat - 48)
        if largestExponent < longer then return (value, false)
        else exponentDigits fuel longer
      else return (value, true)
    | none => return (value, true)

/-- The rest of a number from its exponent mark on. -/
def exponent (negative : Bool) (significand : Nat) (before : Int) : Scan Number := do
  eat
  let down := (← peek?) = some '-'
  if down ∨ (← peek?) = some '+' then eat
  match ← next? with
  | none => failHere .endInValue
  | some c =>
    if c.isDigit then
      let (value, whole) ← exponentDigits ((← get).rest.length + 1) (c.toNat - 48)
      if whole then
        ofParts negative significand (if down then before - value else before + value)
      else if significand ≠ 0 ∧ ¬down then failHere .numberRange
      else do
        let _ ← digits
        return .float (.zero negative)
    else failHere .badNumber

/-- Whether an exponent mark follows. -/
def atExponent : Scan Bool := do
  let c ← peek?
  return c = some 'e' || c = some 'E'

/-- Digits as long as the number fits a machine word: the number, how many digits were taken, and
the digits that were not. -/
def accumulate : Nat → Nat → List Nat → Nat × Nat × List Nat
  | value, count, [] => (value, count, [])
  | value, count, d :: ds =>
    let longer := 10 * value + d
    if largestWord < longer then (value, count, d :: ds) else accumulate longer (count + 1) ds

/-- The rest of a number from its point on. -/
def decimal (negative : Bool) (significand : Nat) (before : Int) : Scan Number := do
  eat
  let ds ← digits
  if ds.isEmpty then
    match ← peek? with
    | some _ => failAhead .badNumber
    | none => failAhead .endInValue
  else
    let (value, count, _) := accumulate significand 0 ds
    let power := before - count
    if ← atExponent then exponent negative value power else ofParts negative value power

/-- The rest of a number behind its first digits, which are kept as `significand * 10 ^ power`. -/
def afterDigits (negative : Bool) (significand power : Nat) : Scan Number := do
  match ← peek? with
  | some '.' => decimal negative significand power
  | some 'e' => exponent negative significand power
  | some 'E' => exponent negative significand power
  | _ =>
    if power ≠ 0 then ofParts negative significand power
    else if ¬negative then return .natural significand
    else if significand = 0 ∨ Nat.pow 2 63 < significand then
      return .float (.ofRatio true significand 1)
    else return .negative (-significand)

/-- A number behind its sign. -/
def number (negative : Bool) : Scan Number := do
  match ← next? with
  | none => failHere .endInValue
  | some c =>
    if c = '0' then
      match ← peek? with
      | some d => if d.isDigit then failAhead .badNumber else afterDigits negative 0 0
      | none => afterDigits negative 0 0
    else if c.isDigit then
      let ds ← digits
      let (value, _, rest) := accumulate (c.toNat - 48) 0 ds
      afterDigits negative value rest.length
    else failHere .badNumber

/-- Passes the rest of a number from its exponent mark on. -/
def skipExponent : Scan Unit := do
  eat
  let c ← peek?
  if c = some '+' ∨ c = some '-' then eat
  match ← next? with
  | some d => if d.isDigit then do let _ ← digits else failHere .badNumber
  | none => failHere .badNumber

/-- Passes a number behind its sign. -/
def skipNumber : Scan Unit := do
  match ← next? with
  | none => failHere .badNumber
  | some c =>
    if c = '0' then
      if ((← peek?).map Char.isDigit).getD false then failAhead .badNumber
    else if c.isDigit then
      let _ ← digits
    else failHere .badNumber
    if (← peek?) = some '.' then
      eat
      if (← digits).isEmpty then failAhead .badNumber
    if ← atExponent then skipExponent

/-! ## Values that are not needed -/

/-- What surrounds a value. -/
inductive Container where
  | list
  | object
deriving DecidableEq, Repr, Inhabited

namespace Container

/-- The byte that ends a container. -/
def close : Container → Char
  | list => ']'
  | object => '\x7d'

/-- What is wrong when a container is not gone on with. -/
def wantEnd : Container → Problem
  | list => .wantListEnd
  | object => .wantObjectEnd

/-- What is wrong when the text ends in a container. -/
def textEnds : Container → Problem
  | list => .endInList
  | object => .endInObject

end Container

/-- Passes the key of a field and its colon. -/
def skipKey : Scan Unit := do
  match ← peekToken? with
  | some '"' => do
    eat
    skipString
  | some _ => failAhead .keyNotString
  | none => failAhead .endInObject
  match ← peekToken? with
  | some ':' => eat
  | some _ => failAhead .wantColon
  | none => failAhead .endInObject

/-- Passes what stands before a value in a container. -/
def skipLead : Container → Scan Unit
  | .list => pure ()
  | .object => skipKey

/-- What is skipped next: a value, the first item of the innermost container, or what follows a
value. -/
inductive Phase where
  | value
  | first
  | after
deriving DecidableEq, Repr, Inhabited

/-- Passes a value inside of some containers and all that is left of these. Every three steps at
least one byte is passed. -/
def skipFrom : Nat → Phase → List Container → Scan Unit
  | 0, _, _ => pure ()
  | fuel + 1, .value, stack => do
    match ← peekToken? with
    | none => failAhead .endInValue
    | some '[' => do
      eat
      skipFrom fuel .first (.list :: stack)
    | some '\x7b' => do
      eat
      skipFrom fuel .first (.object :: stack)
    | some c => do
      if c = 'n' then do
        eat
        word ['u', 'l', 'l']
      else if c = 't' then do
        eat
        word ['r', 'u', 'e']
      else if c = 'f' then do
        eat
        word ['a', 'l', 's', 'e']
      else if c = '-' then do
        eat
        skipNumber
      else if c.isDigit then skipNumber
      else if c = '"' then do
        eat
        skipString
      else failAhead .wantValue
      skipFrom fuel .after stack
  | _ + 1, .first, [] => pure ()
  | fuel + 1, .first, container :: outer => do
    match ← peekToken? with
    | none => failAhead container.textEnds
    | some c =>
      if c = container.close then do
        eat
        skipFrom fuel .after outer
      else do
        skipLead container
        skipFrom fuel .value (container :: outer)
  | _ + 1, .after, [] => pure ()
  | fuel + 1, .after, container :: outer => do
    match ← peekToken? with
    | none => failAhead container.textEnds
    | some c =>
      if c = ',' then do
        eat
        skipLead container
        skipFrom fuel .value (container :: outer)
      else if c = container.close then do
        eat
        skipFrom fuel .after outer
      else failAhead container.wantEnd

/-- Passes a value. -/
def skipValue : Scan Unit := do skipFrom (3 * (← get).rest.length + 3) .value []

/-! ## Values of the wrong type -/

/-- The text of a number that is not wanted. -/
def Number.unexpected : Number → String
  | natural n => s!"integer `{n}`"
  | negative n => s!"integer `{n}`"
  | float x => s!"floating point `{ControlFlow.Number.json.write x}`"

/-- Fails because a value is not of the expected type. Scalars are passed first, the brackets of
lists and objects are not. -/
def failType (expected : String) : Scan α := do
  match ← peek? with
  | some 'n' => do
    eat
    word ['u', 'l', 'l']
    failHere (.wrongType "null" expected)
  | some 't' => do
    eat
    word ['r', 'u', 'e']
    failHere (.wrongType "boolean `true`" expected)
  | some 'f' => do
    eat
    word ['a', 'l', 's', 'e']
    failHere (.wrongType "boolean `false`" expected)
  | some '-' => do
    eat
    let n ← number true
    failHere (.wrongType n.unexpected expected)
  | some '"' => do
    eat
    let s ← string
    failHere (.wrongType s!"string {Text.quoted s}" expected)
  | some '[' => failHere (.wrongType "sequence" expected)
  | some '\x7b' => failHere (.wrongType "map" expected)
  | some c =>
    if c.isDigit then do
      let n ← number false
      failHere (.wrongType n.unexpected expected)
    else failAhead .wantValue
  | none => failAhead .wantValue

/-- A natural number of one machine word. -/
def natural (expected : String) : Scan Nat := do
  match ← peekToken? with
  | none => failAhead .endInValue
  | some c =>
    let n ←
      if c = '-' then do
        eat
        number true
      else if c.isDigit then number false
      else failType expected
    match n with
    | .natural n => return n
    | .negative _ => failHere (.wrongValue n.unexpected expected)
    | .float _ => failHere (.wrongType n.unexpected expected)

end Scan

end ControlFlow.Json
