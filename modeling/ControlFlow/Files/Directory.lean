import ControlFlow.Files.Access
/-!
# Directories in memory

A working directory with its files and folders, and what little is known of the folders around it:
they are there, and hold nothing but what has been put into them. Paths are followed step by step,
so that a path through a file or through a folder that is not there leads nowhere, whatever its
later steps are.
-/

namespace ControlFlow

/-- Where the names of a place start from. -/
inductive Anchor where
  /-- The root of all folders. -/
  | root
  /-- So many folders above the working directory. -/
  | above (levels : Nat)
deriving DecidableEq, Repr, Inhabited

/-- A place for a file or a folder: an anchor and the names that lead down from it. -/
structure FilePlace where
  anchor : Anchor
  names : List String := []
deriving DecidableEq, Repr, Inhabited

namespace FilePlace

/-- The working directory. -/
def here : FilePlace := ⟨.above 0, []⟩

/-- The place of a name in a folder. -/
def child (p : FilePlace) (name : String) : FilePlace := ⟨p.anchor, p.names ++ [name]⟩

/-- The folder around a place; the root is around itself. -/
def parent (p : FilePlace) : FilePlace :=
  if p.names.isEmpty then
    match p.anchor with
    | .root => p
    | .above levels => ⟨.above (levels + 1), []⟩
  else ⟨p.anchor, p.names.dropLast⟩

/-- Whether a step stays in its folder. -/
def isStay (step : String) : Bool := step = "" || step = "."

/-- The place that one step leads to. -/
def step (p : FilePlace) (s : String) : FilePlace :=
  if isStay s then p else if s = ".." then p.parent else p.child s

end FilePlace

/-- A working directory and what surrounds it. -/
structure Directory where
  files : List (FilePlace × ByteArray) := []
  folders : List FilePlace := []
deriving Inhabited

namespace Directory

/-- What there can be at a place. -/
inductive Entry where
  | file (bytes : ByteArray)
  | folder
deriving Inhabited

/-- Whether there is a folder. -/
def Entry.isFolder : Entry → Bool
  | .folder => true
  | .file _ => false

/-- What there is at a place. An anchor is always a folder. -/
def entry? (d : Directory) (p : FilePlace) : Option Entry :=
  match d.files.find? (·.1 = p) with
  | some (_, bytes) => some (.file bytes)
  | none => if p.names.isEmpty ∨ p ∈ d.folders then some .folder else none

/-- The longest name, in bytes. -/
def longestName : Nat := 255

/-- The longest path, in bytes. -/
def longestPath : Nat := 4095

/-- Follows steps from a place. Every step needs a folder to be taken in. -/
def follow (d : Directory) : FilePlace → List String → Except FileFault FilePlace
  | p, [] => .ok p
  | p, s :: steps =>
    match d.entry? p with
    | none => .error .missing
    | some (.file _) => .error .notDirectory
    | some .folder =>
      if longestName < s.utf8ByteSize then .error .nameTooLong else follow d (p.step s) steps

/-- Where a path starts. -/
def origin (path : String) : FilePlace := if path.startsWith "/" then ⟨.root, []⟩ else .here

/-- The steps of a path. -/
def steps (path : String) : Except FileFault (List String) :=
  if path.contains (Char.ofNat 0) then .error .zeroInName
  else if path = "" then .error .missing
  else if longestPath < path.utf8ByteSize then .error .nameTooLong
  else .ok (path.splitOn "/")

/-- The bytes of the file at a path. -/
def read (d : Directory) (path : String) : Except FileFault ByteArray := do
  let place ← d.follow (origin path) (← steps path)
  match d.entry? place with
  | some (.file bytes) => .ok bytes
  | some .folder => .error .isDirectory
  | none => .error .missing

/-- The directory with the given bytes at a place. -/
def put (d : Directory) (p : FilePlace) (bytes : ByteArray) : Directory :=
  { d with files := d.files.filter (·.1 ≠ p) ++ [(p, bytes)] }

/-- Steps without the empty ones behind the last slashes. -/
def trimmed (steps : List String) : List String := (steps.reverse.dropWhile (· = "")).reverse

/-- The directory with a text in the file at a path. The folder of the file must be there, and a
path that ends in a slash names no file. -/
def write (d : Directory) (path text : String) : Except FileFault Directory := do
  let all ← steps path
  let named := trimmed all
  let folder ← d.follow (origin path) (named.dropLast ++ ["."])
  match named.getLast? with
  | none => .error .isDirectory
  | some name =>
    if named.length < all.length ∨ FilePlace.isStay name ∨ name = ".." then .error .isDirectory
    else if longestName < name.utf8ByteSize then .error .nameTooLong
    else if (d.entry? (folder.child name)).any (·.isFolder) then .error .isDirectory
    else .ok (d.put (folder.child name) text.toUTF8)

/-- The directory with folders for steps from a place, and the place that they lead to. -/
def makeFolders : Directory → FilePlace → List String → Directory × FilePlace
  | d, p, [] => (d, p)
  | d, p, s :: steps =>
    let next := p.step s
    let made := if (d.entry? next).isNone then { d with folders := next :: d.folders } else d
    makeFolders made next steps

/-- The directory with a file at a path, and with the folders that lead to it. -/
def add (d : Directory) (path : String) (bytes : ByteArray) : Directory :=
  let named := trimmed (path.splitOn "/")
  let (made, folder) := d.makeFolders (origin path) named.dropLast
  made.put (folder.child (named.getLast?.getD "")) bytes

/-- Access to a directory that is kept as state. -/
def access : FileAccess (StateM Directory) where
  read path := return (← get).read path
  write path text := do
    match (← get).write path text with
    | .ok d =>
      set d
      return .ok ()
    | .error fault => return .error fault

end Directory

end ControlFlow
