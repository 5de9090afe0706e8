import PostfixSpec.File.SystemError
import PostfixSpec.Text.Character
import PostfixSpec.Text.Utf8

/-!
# Property files

A property file holds the text of one formula. Its bytes are decoded as a whole, its lines are ended
in one way, and blanks at both ends are dropped. A file with nothing else in it is an error.
-/

namespace PostfixSpec

/-- Why a property file gives no formula text. -/
inductive PropertyError where
  | notFound (path : File.Path)
  | unreadable (error : File.SystemError) (path : File.Path)
  | nullInPath
  | malformed (error : Text.Utf8.DecodeError)
  | empty
  deriving DecidableEq

def PropertyError.message : PropertyError → String
  | notFound path => "Property file not found: " ++ path.toString
  | unreadable error path => "Error reading property file: " ++ error.messageAt path
  | nullInPath => "embedded null byte"
  | malformed error => error.message
  | empty => "Property file is empty"

namespace Property

/-- The formula text in the characters of a property file. -/
def ofChars (cs : List Char) : Except PropertyError String :=
  let text := Text.strip (Text.unifyLineEnds cs)
  if text.isEmpty then .error .empty else .ok (String.ofList text)

def ofBytes (bytes : List UInt8) : Except PropertyError String :=
  match Text.Utf8.decode bytes with
  | .error error => .error (.malformed error)
  | .ok cs => ofChars cs

/-- Reads the property file at a path. A null character in the path is noticed before anything is
opened. -/
def read (reader : File.Reader) (path : File.Path) : Except PropertyError String :=
  if path.hasNull then .error .nullInPath
  else match reader path with
    | .error .missing => .error (.notFound path)
    | .error error => .error (.unreadable error path)
    | .ok bytes => ofBytes bytes

end Property

end PostfixSpec
