import PostfixSpec.Formula.Token

/-!
# Scanning formula text

Formula text is split into the longest words and single signs, with blanks in between. The blanks
are space, tab, carriage return and line feed; letters and digits are those of the English alphabet.
Any other character is illegal and ends the scan: what follows it is never looked at.
-/

namespace PostfixSpec.Formula

/-- Whether a character may stand between tokens. -/
def isIgnored (c : Char) : Bool := c = ' ' || c = '\t' || c = '\r' || c = '\n'

/-- Whether a character may begin a word. -/
def isWordStart (c : Char) : Bool :=
  ('a' ≤ c && c ≤ 'z') || ('A' ≤ c && c ≤ 'Z') || c = '_'

/-- Whether a character may stand inside a word. -/
def isWordChar (c : Char) : Bool := isWordStart c || ('0' ≤ c && c ≤ '9')

/-- The symbol of a word: two words are constants, all others are names. -/
def wordSymbol (word : List Char) : Symbol :=
  if word = "true".toList then .constant true
  else if word = "false".toList then .constant false
  else .name (String.ofList word)

def signSymbol? (c : Char) : Option Symbol :=
  if c = '!' then some .negation
  else if c = '&' then some (.connective .conjunction)
  else if c = '|' then some (.connective .disjunction)
  else if c = '(' then some .opening
  else if c = ')' then some .closing
  else none

/-- A character that is neither ignored nor begins a token, and the number of characters before
it. -/
structure Illegal where
  char : Char
  position : Nat
  deriving DecidableEq

def Illegal.message (i : Illegal) : String :=
  s!"Illegal character '{i.char}' encountered at position {i.position}"

/-- The tokens of a text up to its end or to its first illegal character. -/
structure Scan where
  tokens : List Token
  illegal : Option Illegal
  deriving DecidableEq

/-- A scan with one more token in front. -/
def Scan.cons (token : Token) (scan : Scan) : Scan := { scan with tokens := token :: scan.tokens }

/-- Scans characters of which `position` others stand in front. -/
def scanFrom (position : Nat) : List Char → Scan
  | [] => ⟨[], none⟩
  | c :: cs =>
    if isIgnored c then scanFrom (position + 1) cs
    else if isWordStart c then
      let word := c :: cs.takeWhile isWordChar
      (scanFrom (position + word.length) (cs.dropWhile isWordChar)).cons
        ⟨wordSymbol word, position⟩
    else match signSymbol? c with
      | some symbol => (scanFrom (position + 1) cs).cons ⟨symbol, position⟩
      | none => ⟨[], some ⟨c, position⟩⟩
termination_by cs => cs.length
decreasing_by
  all_goals simp only [List.length_cons]
  · omega
  · exact Nat.lt_succ_of_le (List.dropWhile_sublist isWordChar).length_le
  · omega

def scan (text : String) : Scan := scanFrom 0 text.toList

end PostfixSpec.Formula
