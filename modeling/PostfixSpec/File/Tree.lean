import PostfixSpec.File.SystemError

/-!
# File trees

A file tree holds what is known of a file system: some files and directories by the names that lead
to them from the root, and the directory in which a program works. A path is followed name by name,
double dots leading one directory up, and the first thing wrong on the way is what is told. A new
entry goes into a directory that is there already.
-/

namespace PostfixSpec.File

inductive Entry where
  | file (bytes : List UInt8)
  | directory
  deriving DecidableEq

/-- The names that lead to a place from the root, without detours. -/
abbrev Place := List String

/-- Files and directories by their places, the newest first, and the directory where paths start
that do not start at the root. -/
structure Tree where
  working : Place
  entries : List (Place × Entry)
  deriving DecidableEq

/-- The longest name that a directory can hold, in bytes. -/
def longestName : Nat := 255

/-- The length in bytes from which a path is too long as a whole. -/
def pathLimit : Nat := 4096

/-- Why an entry could not be made. -/
inductive MakeError where
  | nullInPath
  | system (error : SystemError) (path : Path)
  deriving DecidableEq

def MakeError.message : MakeError → String
  | nullInPath => "embedded null byte"
  | system error path => error.messageAt path

namespace Tree

/-- The directories at the root of every system. -/
def systemDirectories : List String :=
  ["bin", "dev", "etc", "home", "lib", "opt", "proc", "run", "sbin", "sys", "tmp", "usr", "var"]

/-- The directory in which a program works, empty at first: one for temporary files. Its name is
chosen anew every time, so no path spells it, and it is left empty here as no path has empty
names. -/
def workplace : Place := ["tmp", ""]

/-- A tree without entries of its own: only what every system has, an empty device among it, and
the directory in which a program works. -/
def bare : Tree where
  working := workplace
  entries :=
    [(workplace, .directory), (["dev", "null"], .file [])] ++
      systemDirectories.map (fun name => ([name], .directory)) ++ [([], .directory)]

def find? (tree : Tree) (place : Place) : Option Entry := tree.entries.lookup place

def start (tree : Tree) : Start → Place
  | .here => tree.working
  | .root | .doubleRoot => []

/-- The place that one more name leads to. The root is above itself. -/
def enter (tree : Tree) (place : Place) (name : String) : Except SystemError Place :=
  match tree.find? place with
  | none => .error .missing
  | some (.file _) => .error .notADirectory
  | some .directory =>
    if name = ".." then .ok place.dropLast
    else if longestName < name.utf8ByteSize then .error .nameTooLong
    else if (tree.find? (place ++ [name])).isSome then .ok (place ++ [name])
    else .error .missing

/-- The place that several names lead to, one after the other. -/
def follow (tree : Tree) (place : Place) (names : List String) : Except SystemError Place :=
  names.foldlM tree.enter place

/-- The bytes of the file that a path leads to. -/
def read (tree : Tree) : Reader := fun path => do
  if pathLimit ≤ path.toString.utf8ByteSize then throw .nameTooLong
  let place ← tree.follow (tree.start path.start) path.names
  match tree.find? place with
  | none => throw .missing
  | some .directory => throw .isADirectory
  | some (.file bytes) => return bytes

/-- A tree with an entry at a place, whatever was there before. -/
def put (tree : Tree) (place : Place) (entry : Entry) : Tree :=
  { tree with entries := (place, entry) :: tree.entries }

theorem find?_put (tree : Tree) (place other : Place) (entry : Entry) :
    (tree.put place entry).find? other =
      if other = place then some entry else tree.find? other := by
  by_cases h : other = place
  · simp [put, find?, h]
  · simp [put, find?, List.lookup_cons, beq_false_of_ne h, h]

/-- A tree with one more entry at the end of a path. A file may be written anew; a directory is made
only where there is nothing. The directory around the entry has to be there already: when nothing
is found, it is the last name alone that may be missing. -/
def make (tree : Tree) (path : Path) (entry : Entry) : Except SystemError Tree := do
  if pathLimit ≤ path.toString.utf8ByteSize then throw .nameTooLong
  let start := tree.start path.start
  match tree.follow start path.names with
  | .ok place =>
    match tree.find? place, entry with
    | some (.file _), .file _ => return tree.put place entry
    | _, .file _ => throw .isADirectory
    | _, .directory => throw .present
  | .error .missing =>
    let directory ← tree.follow start path.names.dropLast
    return tree.put (directory ++ path.names.getLast?.toList) entry
  | .error error => throw error

/-- The bare tree with entries made one after the other, up to the first that cannot be made. -/
def ofEntries (entries : List (Path × Entry)) : Except MakeError Tree :=
  entries.foldlM (fun tree (path, entry) =>
    if path.hasNull then .error .nullInPath
    else (tree.make path entry).mapError (.system · path)) bare

end Tree

end PostfixSpec.File
