import ControlFlow.Command.Build
/-!
# The program

The command line with the stacks and the files of the machine.
-/

namespace ControlFlow

/-- The number of an error of the machine, which may be given as its negative. -/
def errorNumber (code : UInt32) : Nat :=
  if code.toNat < Nat.pow 2 31 then code.toNat else Nat.pow 2 32 - code.toNat

/-- The cause of a failed access to a file. -/
def FileFault.ofError : IO.Error → FileFault
  | .noFileOrDirectory .. => .missing
  | .inappropriateType _ code _ => if errorNumber code = 20 then .notDirectory else .isDirectory
  | .invalidArgument _ code message =>
    if errorNumber code = 36 then .nameTooLong else .other message
  | .permissionDenied .. => .other "Permission denied (os error 13)"
  | e => .other (toString e)

/-- The stacks of the machine: as far as its address space goes. -/
def machineHost : Host := .below (Nat.pow 2 47) "Resource temporarily unavailable (os error 11)"

/-- Access to the files of the machine. -/
def machineFiles : FileAccess IO where
  read path := do
    try return .ok (← IO.FS.readBinFile path)
    catch e => return .error (.ofError e)
  write path text := do
    try
      IO.FS.writeFile path text
      return .ok ()
    catch e => return .error (.ofError e)

end ControlFlow

/-- Runs the program. -/
def main (arguments : List String) : IO UInt32 := do
  let outcome ← ControlFlow.Command.run ControlFlow.machineHost ControlFlow.machineFiles arguments
  IO.print outcome.output
  IO.eprint outcome.errors
  return outcome.status.toUInt32
