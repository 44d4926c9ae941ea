import ControlFlow.Text.Terminal
/-!
# Command-line arguments

The arguments are understood from left to right. An option waits for its value, and a value that
has been given is looked at when the next argument that is understood arrives, or at the end: an
argument that is not understood is reported before a value that is wrong.
-/

namespace ControlFlow.Command

/-- What an argument can give. -/
inductive Slot where
  | file
  | format
  | config
  | maxDepth
  | output
  | verify
deriving DecidableEq, Repr, Inhabited

/-- How a slot is named in messages. -/
def Slot.render : Slot → String
  | file => "<file>"
  | format => "--format <FORMAT>"
  | config => "--config <FILE>"
  | maxDepth => "--max-depth <N>"
  | output => "--output <FILE>"
  | verify => "--verify"

/-- Why a text is not a natural number of one machine word. -/
inductive NumberFault where
  | empty
  | badDigit
  | tooLarge
deriving DecidableEq, Repr, Inhabited

/-- The text of a cause. -/
def NumberFault.render : NumberFault → String
  | empty => "cannot parse integer from empty string"
  | badDigit => "invalid digit found in string"
  | tooLarge => "number too large to fit in target type"

/-- The causes for which arguments are refused. -/
inductive UsageError where
  | unexpected (argument : String)
  | unknownCommand (name : String)
  | noFile
  | noValue (slot : Slot)
  /-- A value for a flag that takes none. -/
  | needlessValue (value flag : String)
  | repeated (slot : Slot)
  | badNumber (value : String) (slot : Slot) (cause : NumberFault)
deriving DecidableEq, Repr, Inhabited

/-- The message of a usage error. What comes from the arguments is shown as plain text. -/
def UsageError.message : UsageError → String
  | unexpected argument => s!"unexpected argument '{Terminal.plain argument}' found"
  | unknownCommand name => s!"unrecognized subcommand '{Terminal.plain name}'"
  | noFile => "the following required arguments were not provided:\n  " ++ Slot.file.render
  | noValue slot => s!"a value is required for '{slot.render}' but none was supplied"
  | needlessValue value flag =>
    s!"unexpected value '{Terminal.plain value}' for '{flag}' found; no more were expected"
  | repeated slot => s!"the argument '{slot.render}' cannot be used multiple times"
  | badNumber value slot cause =>
    s!"invalid value '{Terminal.plain value}' for '{slot.render}': {cause.render}"

/-- What is asked of the command `build`, as far as it is known. -/
structure BuildArguments where
  file : Option String := none
  format : Option String := none
  config : Option String := none
  maxDepth : Option Nat := none
  output : Option String := none
  verify : Bool := false
deriving DecidableEq, Repr, Inhabited

/-- What is asked of the program. -/
inductive Request where
  | build (file : String) (arguments : BuildArguments)
  | version
  | help
  | buildHelp
  /-- No command is given. -/
  | none
deriving DecidableEq, Repr, Inhabited

/-! ## Numbers -/

/-- The value of digits behind `value`. -/
def digitsValue : Nat → List Char → Except NumberFault Nat
  | value, [] => .ok value
  | value, c :: cs =>
    if c.isDigit then
      let longer := 10 * value + (c.toNat - '0'.toNat)
      if Nat.pow 2 64 ≤ longer then .error .tooLarge else digitsValue longer cs
    else .error .badDigit

/-- A natural number of one machine word. It may have a plus sign. -/
def number (text : String) : Except NumberFault Nat :=
  match text.toList with
  | [] => .error .empty
  | ['+'] => .error .badDigit
  | '+' :: cs => digitsValue 0 cs
  | cs => digitsValue 0 cs

/-! ## Arguments of `build` -/

/-- What has been understood so far. -/
structure Progress where
  arguments : BuildArguments := {}
  /-- The slot that the last argument was for, and the value if there is one yet. -/
  pending : Option (Slot × Option String) := none
deriving DecidableEq, Repr, Inhabited

namespace BuildArguments

/-- Whether a slot has its value. -/
def has (a : BuildArguments) : Slot → Bool
  | .file => a.file.isSome
  | .format => a.format.isSome
  | .config => a.config.isSome
  | .maxDepth => a.maxDepth.isSome
  | .output => a.output.isSome
  | .verify => a.verify

/-- The arguments with the value of a slot that has none. Paths of options are not empty. -/
def fill (a : BuildArguments) (slot : Slot) (value : String) : Except UsageError BuildArguments :=
  match slot with
  | .file => .ok { a with file := some value }
  | .format => .ok { a with format := some value }
  | .config => if value = "" then .error (.noValue .config) else .ok { a with config := some value }
  | .output => if value = "" then .error (.noValue .output) else .ok { a with output := some value }
  | .verify => .ok { a with verify := true }
  | .maxDepth =>
    match number value with
    | .ok n => .ok { a with maxDepth := some n }
    | .error cause => .error (.badNumber value .maxDepth cause)

/-- The arguments with one more value. A slot takes one value. -/
def give (a : BuildArguments) (slot : Slot) (value : String) : Except UsageError BuildArguments :=
  if a.has slot then .error (.repeated slot) else a.fill slot value

end BuildArguments

namespace Progress

/-- Looks at the value that is pending. -/
def settle (p : Progress) : Except UsageError BuildArguments :=
  match p.pending with
  | none => .ok p.arguments
  | some (slot, none) => .error (.noValue slot)
  | some (slot, some value) => p.arguments.give slot value

/-- A slot is to be given a value. -/
def await (p : Progress) (slot : Slot) (value : Option String) : Except UsageError Progress := do
  return ⟨← p.settle, some (slot, value)⟩

/-- A slot is given a value at once. -/
def giveNow (p : Progress) (slot : Slot) (value : String) : Except UsageError Progress := do
  return ⟨← (← p.settle).give slot value, none⟩

/-- An option, with the value that is attached to it. -/
def option (p : Progress) (slot : Slot) (attached : Option String) : Except UsageError Progress :=
  match attached with
  | some value => p.giveNow slot value
  | none => p.await slot none

/-- Whether an option still waits for its value. -/
def waits (p : Progress) : Option Slot :=
  match p.pending with
  | some (slot, none) => some slot
  | _ => none

/-- A word that is not an option, where no option waits for a value. -/
def positional (p : Progress) (word : String) : Except UsageError Progress :=
  let taken := p.arguments.has .file || p.pending.map (·.1) = some .file
  if taken then .error (.unexpected word) else p.await .file (some word)

end Progress

/-- A word split at its first equals sign. -/
def splitAtEquals (word : List Char) : List Char × Option (List Char) :=
  match word.dropWhile (· ≠ '=') with
  | [] => (word, none)
  | _ :: value => (word.takeWhile (· ≠ '='), some value)

/-- What an argument looks like. -/
inductive Shape where
  /-- Two dashes: options end here. -/
  | stop
  /-- A long option, and what stands behind its equals sign. -/
  | long (name : String) (attached : Option String)
  /-- A short option and the characters behind it. -/
  | short (letter : Char) (rest : List Char)
  | plain
deriving DecidableEq, Repr, Inhabited

/-- What an argument looks like. A dash alone is a plain word. -/
def Shape.ofWord (word : String) : Shape :=
  match word.toList with
  | ['-', '-'] => .stop
  | '-' :: '-' :: cs =>
    let (name, attached) := splitAtEquals cs
    .long (String.ofList name) (attached.map String.ofList)
  | '-' :: c :: cs => .short c cs
  | _ => .plain

/-- The value behind a short option; an equals sign before it does not count. -/
def attachedValue : List Char → Option String
  | [] => none
  | '=' :: cs => some (String.ofList cs)
  | cs => some (String.ofList cs)

/-- The slot of a long option that takes a value. -/
def Slot.ofLong? : String → Option Slot
  | "format" => some .format
  | "config" => some .config
  | "max-depth" => some .maxDepth
  | "output" => some .output
  | _ => none

/-- The slot of a short option. -/
def Slot.ofShort? : Char → Option Slot
  | 'f' => some .format
  | 'c' => some .config
  | 'o' => some .output
  | _ => none

/-- The request of arguments that have all been understood. -/
def BuildArguments.request (a : BuildArguments) : Except UsageError Request :=
  match a.file with
  | some file => .ok (.build file a)
  | none => .error .noFile

/-- The arguments of `build` behind two dashes. -/
def afterStop : Progress → List String → Except UsageError Request
  | p, [] => do (← p.settle).request
  | p, word :: words => do afterStop (← p.positional word) words

/-- The arguments of `build`. -/
def buildRequest : Progress → List String → Except UsageError Request
  | p, [] => do (← p.settle).request
  | p, word :: words =>
    match Shape.ofWord word with
    | .stop => afterStop p words
    | .long name attached =>
      match Slot.ofLong? name with
      | some slot => do buildRequest (← p.option slot attached) words
      | none =>
        if name = "verify" ∨ name = "help" then
          match attached with
          | some value => .error (.needlessValue value s!"--{name}")
          | none =>
            if name = "verify" then do buildRequest (← p.giveNow .verify "true") words
            else do
              let _ ← p.settle
              return .buildHelp
        else .error (.unexpected s!"--{name}")
    | .short letter rest =>
      match Slot.ofShort? letter with
      | some slot => do buildRequest (← p.option slot (attachedValue rest)) words
      | none =>
        if letter = 'h' then do
          let _ ← p.settle
          return .buildHelp
        else .error (.unexpected s!"-{letter}")
    | .plain =>
      match p.waits with
      | some slot => buildRequest { p with pending := some (slot, some word) } words
      | none => do buildRequest (← p.positional word) words

/-! ## Arguments of the program -/

/-- The commands that help is asked about. -/
def helpRequest : List String → Except UsageError Request
  | [] => .ok .help
  | "help" :: _ => .ok .help
  | ["build"] => .ok .buildHelp
  | "build" :: word :: _ => .error (.unknownCommand word)
  | word :: _ => .error (.unknownCommand word)

/-- A flag of the program, which takes no value. -/
def flag (name : String) (request : Request) (attached : Option String) :
    Except UsageError Request :=
  match attached with
  | some value => .error (.needlessValue value s!"--{name}")
  | none => .ok request

/-- What the arguments ask for. -/
def request : List String → Except UsageError Request
  | [] => .ok .none
  | "build" :: words => buildRequest {} words
  | "help" :: words => helpRequest words
  | word :: words =>
    match Shape.ofWord word with
    | .stop =>
      match words with
      | [] => .ok .none
      | next :: _ =>
        if next = "build" ∨ next = "help" then .error (.unexpected next)
        else .error (.unknownCommand next)
    | .long name attached =>
      if name = "version" then flag name .version attached
      else if name = "help" then flag name .help attached
      else .error (.unexpected s!"--{name}")
    | .short letter _ =>
      if letter = 'V' then .ok .version
      else if letter = 'h' then .ok .help
      else .error (.unexpected s!"-{letter}")
    | .plain => .error (.unknownCommand word)

end ControlFlow.Command
