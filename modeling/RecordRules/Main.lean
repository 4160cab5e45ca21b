/-
# The command line

Reads the files that the arguments name, runs the trace and prints what it shows.
-/
import RecordRules.Trace

namespace RecordRules

/-- The number of a fault. The system gives it with either sign, a negative one as a 32-bit word. -/
def faultNumber (code : UInt32) : Nat := min code.toNat (2 ^ (32 : Nat) - code.toNat)

/-- What a fault of the system means for whoever reads a file. -/
def faultOf : IO.Error → ReadFault
  | .noFileOrDirectory .. => .absent
  | .permissionDenied .. => .denied
  | .inappropriateType _ code _ => if faultNumber code = 20 then .notFolder else .isFolder
  | .invalidArgument _ code details =>
    if faultNumber code = 36 then .nameTooLong else .other s!"{details} (os error {faultNumber code})"
  | .userError _ => .notText
  | fault => .other (toString fault)

/-- The text of a file, or why there is none. -/
def readText (file : String) : IO (Except ReadFault String) := do
  try
    return .ok (← IO.FS.readFile file)
  catch fault =>
    return .error (faultOf fault)

end RecordRules

/-- Runs a trace with the arguments of the command line. -/
def main (args : List String) : IO UInt32 := do
  let files := (args.drop 1).take 2
  let contents ← files.mapM fun file => return (file, ← RecordRules.readText file)
  let outcome := RecordRules.Trace.run
    (fun file => (contents.lookup file).getD (.error .absent)) args
  IO.print outcome.shown
  (← IO.getStdout).flush
  if let some failure := outcome.failure then
    IO.eprint failure.message
  return outcome.code.toUInt32
