import PostfixSpec.File.Path
import PostfixSpec.Text.Literal

/-!
# System errors

What the operating system says when a path does not lead where it should. Each error has a number
and a text, and names the path it is about.
-/

namespace PostfixSpec.File

/-- Why the operating system refuses to open or to make something. -/
inductive SystemError where
  | missing
  | present
  | notADirectory
  | isADirectory
  | nameTooLong
  | other (number : Nat) (text : String)
  deriving DecidableEq

namespace SystemError

def number : SystemError → Nat
  | missing => 2
  | present => 17
  | notADirectory => 20
  | isADirectory => 21
  | nameTooLong => 36
  | other number _ => number

def text : SystemError → String
  | missing => "No such file or directory"
  | present => "File exists"
  | notADirectory => "Not a directory"
  | isADirectory => "Is a directory"
  | nameTooLong => "File name too long"
  | other _ text => text

/-- An error together with the path it is about. -/
def messageAt (error : SystemError) (path : Path) : String :=
  s!"[Errno {error.number}] {error.text}: " ++ Text.literal path.toString

end SystemError

/-- Anything that answers a path with the bytes of a file, or with the reason why there are none. -/
abbrev Reader := Path → Except SystemError (List UInt8)

end PostfixSpec.File
