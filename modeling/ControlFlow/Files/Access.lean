import ControlFlow.Options.Reader
import ControlFlow.Source
/-!
# Access to files

Loading and storing texts, whatever the files are kept in: a program that needs files is given a
`FileAccess` for its monad.
-/

namespace ControlFlow

/-- Why a file cannot be read or written. -/
inductive FileFault where
  | missing
  | isDirectory
  /-- A path goes on behind a file. -/
  | notDirectory
  | nameTooLong
  /-- A path holds the character zero. -/
  | zeroInName
  /-- The bytes of a file are not a text. -/
  | notText
  /-- Any other cause, in words. -/
  | other (cause : String)
deriving DecidableEq, Repr, Inhabited

/-- The text of a cause. -/
def FileFault.render : FileFault → String
  | missing => "No such file or directory (os error 2)"
  | isDirectory => "Is a directory (os error 21)"
  | notDirectory => "Not a directory (os error 20)"
  | nameTooLong => "File name too long (os error 36)"
  | zeroInName => "file name contained an unexpected NUL byte"
  | notText => "stream did not contain valid UTF-8"
  | other cause => cause

/-- Files that can be read and written in a monad. -/
structure FileAccess (m : Type → Type) where
  /-- The bytes of the file at a path. -/
  read : String → m (Except FileFault ByteArray)
  /-- Puts a text into the file at a path. -/
  write : String → String → m (Except FileFault Unit)

namespace FileAccess

variable {m : Type → Type} [Monad m]

/-- The text that bytes encode. -/
def decode (bytes : ByteArray) : Except FileFault String :=
  match String.fromUTF8? bytes with
  | some text => .ok text
  | none => .error .notText

/-- The text of the file at a path. -/
def readText (files : FileAccess m) (path : String) : m (Except FileFault String) := do
  return (← files.read path).bind decode

end FileAccess

variable {m : Type → Type} [Monad m]

/-- What is told about a source that cannot be read. -/
def Source.unreadable (path cause : String) : Diagnostic where
  category := .source
  message := s!"cannot read {path}: {cause}"
  issuer := "flowgraph.source.from_path"

/-- The source at a path. -/
def Source.load (files : FileAccess m) (path : String) : m (Except Diagnostic Source) := do
  match ← files.readText path with
  | .ok content => return .ok (.ofPath path content)
  | .error cause => return .error (unreadable path cause.render)

/-- What is told about options that cannot be read. -/
def Options.unreadable (path cause : String) : Diagnostic where
  category := .config
  message := s!"read build options {path}: {cause}"
  issuer := "flowgraph.config.from_file"

/-- The options in the file at a path. -/
def Options.load (files : FileAccess m) (path : String) : m (Except Diagnostic Options) := do
  match ← files.readText path with
  | .ok text => return ofText text
  | .error cause => return .error (unreadable path cause.render)

end ControlFlow
