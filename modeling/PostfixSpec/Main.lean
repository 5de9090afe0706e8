import PostfixSpec.CommandLine.Run

/-!
# The program

The outer layer: it opens the property file if one is asked for, runs the command line on what it
finds, and writes the outcome.
-/

namespace PostfixSpec

/-- The number of a system error. Some are handed over negated, in two's complement. -/
def errorNumber (code : UInt32) : Nat :=
  if code.toNat < 0x80000000 then code.toNat else 0x100000000 - code.toNat

def systemErrorOf (code : UInt32) (text : String) : File.SystemError :=
  match errorNumber code with
  | 2 => .missing
  | 17 => .present
  | 20 => .notADirectory
  | 21 => .isADirectory
  | 36 => .nameTooLong
  | number => .other number text.capitalize

/-- The reason behind a failure to read a file. -/
def readErrorOf : IO.Error → File.SystemError
  | .noFileOrDirectory .. => .missing
  | .inappropriateType _ code text | .invalidArgument _ code text
  | .permissionDenied _ code text | .resourceExhausted _ code text
  | .noSuchThing _ code text | .alreadyExists _ code text
  | .interrupted _ code text => systemErrorOf code text
  | .otherError code text | .resourceBusy code text | .resourceVanished code text
  | .unsupportedOperation code text | .hardwareFault code text
  | .unsatisfiedConstraints code text | .illegalOperation code text
  | .protocolError code text | .timeExpired code text => systemErrorOf code text
  | .unexpectedEof => .other 5 "Input/output error"
  | .userError text => .other 5 text

def readFile (path : File.Path) : IO (Except File.SystemError (List UInt8)) := do
  try
    let bytes ← IO.FS.readBinFile path.toString
    return .ok bytes.toList
  catch error => return .error (readErrorOf error)

/-- Opens the property file that the arguments name, if they name one. -/
def openFor (args : List String) : IO File.Reader := do
  match CommandLine.readArguments args with
  | .ok { source := .property (some path), .. } =>
    let found ← readFile (File.Path.ofString path)
    return fun _ => found
  | _ => return fun _ => .error .missing

end PostfixSpec

def main (args : List String) : IO UInt32 := do
  let reader ← PostfixSpec.openFor args
  let outcome := PostfixSpec.CommandLine.run args reader
  (← IO.getStdout).putStr outcome.output.stdout
  (← IO.getStderr).putStr outcome.output.stderr
  if let some error := outcome.unexpected then (← IO.getStderr).putStrLn error.message
  return outcome.exitCode.toUInt32
