import DynamicObjects.CommandLine

/-!
# The program

Runs the command line on the files, the standard input and the environment of the
process.
-/

namespace DynamicObjects.CommandLine

/-- The number of an error of the system, which is given with either sign. -/
def errorNumber (code : UInt32) : Nat := min code.toNat (0 - code).toNat

/-- The number and the text of an error of the system. -/
def systemError? : IO.Error → Option (Nat × String)
  | .alreadyExists _ code text | .inappropriateType _ code text | .invalidArgument _ code text
  | .noSuchThing _ code text | .permissionDenied _ code text | .resourceExhausted _ code text =>
    some (errorNumber code, text)
  | .noFileOrDirectory _ code text | .interrupted _ code text => some (errorNumber code, text)
  | .hardwareFault code text | .illegalOperation code text | .otherError code text
  | .protocolError code text | .resourceBusy code text | .resourceVanished code text
  | .timeExpired code text | .unsatisfiedConstraints code text
  | .unsupportedOperation code text => some (errorNumber code, text)
  | .unexpectedEof | .userError _ => none

/-- Why the system could not read a file. -/
def fileTrouble (e : IO.Error) : FileTrouble :=
  match systemError? e with
  | some (2, _) => .notFound
  | some (20, _) => .notDirectory
  | some (21, _) => .isDirectory
  | some (36, _) => .nameTooLong
  | some (code, text) => .other text.capitalize code
  | none => .other (toString e) 0

/-- The text that a reading action gives. -/
def readText (bytes : IO ByteArray) : IO (Except FileTrouble String) := do
  match (← bytes.toBaseIO) with
  | .error e => return .error (fileTrouble e)
  | .ok bytes =>
    match String.fromUTF8? bytes with
    | some text => return .ok text
    | none => return .error .notText

/-- The variables of the environment that set something. -/
def environmentNames : List String := ["EXTEND_WARN_REDECLARE", "EXTEND_REPORT_ERRORS", "EXTEND_LOG"]

/-- What the process sees of the outside. -/
def processSurroundings : IO (Surroundings IO) := do
  let environment ← environmentNames.filterMapM fun name => do
    return (← IO.getEnv name).map fun text => (name, text)
  return {
    fileText := fun path => readText (IO.FS.readBinFile path)
    inputText := readText do (← IO.getStdin).readBinToEnd
    environment }

end DynamicObjects.CommandLine

open DynamicObjects.CommandLine in
/-- Runs the command line and ends with its code. -/
def main (args : List String) : IO UInt32 := do
  let output ← run (← processSurroundings) args
  IO.print output.stdout
  IO.eprint output.stderr
  return output.code.toUInt32
