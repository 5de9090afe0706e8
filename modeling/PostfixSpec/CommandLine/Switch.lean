import PostfixSpec.Text.Character

/-!
# Switches

The switches of the command line and the words that name them. Every switch has a long name; most
have a letter as well. A long name may be cut short as long as only one switch has it, and a letter
may be followed by more text in the same word.
-/

namespace PostfixSpec.CommandLine

inductive Switch where
  | help
  | formula
  | property
  | name
  | verbose
  | debug
  deriving DecidableEq

namespace Switch

/-- All switches, in the order in which messages list them. -/
def all : List Switch := [help, formula, property, name, verbose, debug]

def long : Switch → String
  | help => "--help"
  | formula => "--formula"
  | property => "--property"
  | name => "--true"
  | verbose => "--verbose"
  | debug => "--debug"

def letter? : Switch → Option Char
  | help => some 'h'
  | formula => some 'f'
  | property => some 'p'
  | name => some 't'
  | verbose => some 'v'
  | debug => none

def takesValue : Switch → Bool
  | formula | property | name => true
  | help | verbose | debug => false

/-- A switch by all its names. -/
def label (s : Switch) : String :=
  match s.letter? with
  | some c => "-" ++ String.singleton c ++ "/" ++ s.long
  | none => s.long

def ofLetter? (c : Char) : Option Switch := all.find? fun s => s.letter? == some c

def ofLong? (word : List Char) : Option Switch := all.find? fun s => s.long.toList == word

/-- The switches whose long names begin with a word. -/
def beginning (word : List Char) : List Switch := all.filter fun s => word.isPrefixOf s.long.toList

end Switch

/-- What a word of the command line is. -/
inductive Word where
  /-- A value, if a switch before it takes one. -/
  | value
  /-- A switch, named by its letter or by its long name, with text attached to it or not. -/
  | switch (s : Switch) (byLetter : Bool) (attached : Option (List Char))
  | stray
  /-- A beginning that several switches share. -/
  | ambiguous (candidates : List Switch)
  deriving DecidableEq

namespace Word

/-- Whether the characters behind a minus sign make a negative number. A line feed at the end does
not count. -/
def isNumber (cs : List Char) : Bool :=
  let body := if cs.getLast? = some '\n' then cs.dropLast else cs
  let whole := body.takeWhile Text.isDigit
  match body.dropWhile Text.isDigit with
  | [] => !whole.isEmpty
  | '.' :: fraction => !fraction.isEmpty && fraction.all Text.isDigit
  | _ => false

/-- A word that names no switch counts as a value when it is a negative number or holds a space. -/
def unnamed (rest : List Char) : Word :=
  if isNumber rest || rest.contains ' ' then value else stray

def named? : List Char → Option (Switch × Bool)
  | ['-', c] => (Switch.ofLetter? c).map (·, true)
  | word => (Switch.ofLong? word).map (·, false)

/-- What stands in front of the first equals sign, and behind it if there is one. -/
def splitEquals (word : List Char) : List Char × Option (List Char) :=
  match word.dropWhile (· != '=') with
  | [] => (word, none)
  | _ :: attached => (word.takeWhile (· != '='), some attached)

/-- What a word is that begins with two minus signs and is no exact name: the beginning of a long
name, up to the first equals sign. -/
def ofLongBeginning (word : List Char) : Word :=
  let (beginning, attached) := splitEquals word
  match Switch.beginning beginning with
  | [] => unnamed (word.drop 1)
  | [s] => switch s false attached
  | candidates => ambiguous candidates

/-- What a word is that begins with one minus sign and is no exact name: a letter with text attached
to it. -/
def ofLetterAttached (c : Char) (rest : List Char) : Word :=
  match Switch.ofLetter? c with
  | some s => switch s true (some rest)
  | none => unnamed (c :: rest)

/-- What a word is, the separator `--` apart. -/
def read (word : List Char) : Word :=
  match word with
  | '-' :: c :: rest =>
    match named? word with
    | some (s, byLetter) => switch s byLetter none
    | none =>
      match splitEquals word with
      | (exactly, some attached) =>
        match named? exactly with
        | some (s, byLetter) => switch s byLetter (some attached)
        | none => if c = '-' then ofLongBeginning word else ofLetterAttached c rest
      | (_, none) => if c = '-' then ofLongBeginning word else ofLetterAttached c rest
  | _ => value

end Word

end PostfixSpec.CommandLine
