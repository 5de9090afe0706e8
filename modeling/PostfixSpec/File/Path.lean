/-!
# Paths

A path is where it starts and the names to follow from there. Its text is normalised: empty names
and single dots lead nowhere and are dropped, while double dots are kept, since what they mean
depends on the files.
-/

namespace PostfixSpec.File

/-- Where a path starts. Two leading slashes are told apart from one; three or more are not. -/
inductive Start where
  | here
  | root
  | doubleRoot
  deriving DecidableEq

/-- A start and the names to follow. -/
structure Path where
  start : Start
  names : List String
  deriving DecidableEq

namespace Path

def startOf : List Char → Start
  | '/' :: '/' :: '/' :: _ => .root
  | '/' :: '/' :: _ => .doubleRoot
  | '/' :: _ => .root
  | _ => .here

/-- What stands between the slashes of a text, empty pieces included. -/
def pieces : List Char → List (List Char)
  | [] => [[]]
  | '/' :: cs => [] :: pieces cs
  | c :: cs =>
    match pieces cs with
    | [] => [[c]]
    | piece :: rest => (c :: piece) :: rest

def ofString (s : String) : Path where
  start := startOf s.toList
  names := ((pieces s.toList).filter fun piece => piece != [] && piece != ['.']).map String.ofList

/-- The text of a path. A path that goes nowhere is a single dot. -/
def toString (p : Path) : String :=
  let names := "/".intercalate p.names
  match p.start with
  | .here => if p.names.isEmpty then "." else names
  | .root => "/" ++ names
  | .doubleRoot => "//" ++ names

/-- Whether the text of a path holds a null character. Such a path is not even looked up. -/
def hasNull (p : Path) : Bool := p.toString.toList.contains '\x00'

end Path

end PostfixSpec.File
