/-!
# Classes of characters

Blanks separate words or lines in some script, or are separators among the control characters. A text
read from a file is stripped of them at both ends, and its lines are ended in one way only. Digits are
the decimal digits of all scripts of Unicode 14.
-/

namespace PostfixSpec.Text

/-! ### Blanks and line ends -/

/-- The ranges of blanks, both ends included. -/
def blankRanges : List (Nat × Nat) := [
  (0x09, 0x0d), (0x1c, 0x20), (0x85, 0x85), (0xa0, 0xa0), (0x1680, 0x1680), (0x2000, 0x200a),
  (0x2028, 0x2029), (0x202f, 0x202f), (0x205f, 0x205f), (0x3000, 0x3000)]

def isBlank (c : Char) : Bool :=
  blankRanges.any fun range => decide (range.1 ≤ c.toNat ∧ c.toNat ≤ range.2)

def stripStart (cs : List Char) : List Char := cs.dropWhile isBlank

def stripEnd (cs : List Char) : List Char := (stripStart cs.reverse).reverse

def strip (cs : List Char) : List Char := stripEnd (stripStart cs)

/-- Ends every line with a line feed alone: a carriage return counts as a line end of its own unless
a line feed follows it. -/
def unifyLineEnds : List Char → List Char
  | '\r' :: '\n' :: cs => '\n' :: unifyLineEnds cs
  | c :: cs => (if c = '\r' then '\n' else c) :: unifyLineEnds cs
  | [] => []

/-! ### Digits -/

/-- The digits zero, in order: every script has ten digits in a row. -/
def zeros : List Nat := [
    0x30, 0x660, 0x6f0, 0x7c0, 0x966, 0x9e6, 0xa66, 0xae6, 0xb66, 0xbe6, 0xc66, 0xce6, 0xd66,
    0xde6, 0xe50, 0xed0, 0xf20, 0x1040, 0x1090, 0x17e0, 0x1810, 0x1946, 0x19d0, 0x1a80, 0x1a90,
    0x1b50, 0x1bb0, 0x1c40, 0x1c50, 0xa620, 0xa8d0, 0xa900, 0xa9d0, 0xa9f0, 0xaa50, 0xabf0,
    0xff10, 0x104a0, 0x10d30, 0x11066, 0x110f0, 0x11136, 0x111d0, 0x112f0, 0x11450, 0x114d0,
    0x11650, 0x116c0, 0x11730, 0x118e0, 0x11950, 0x11c50, 0x11d50, 0x11da0, 0x16a60, 0x16ac0,
    0x16b50, 0x1d7ce, 0x1d7d8, 0x1d7e2, 0x1d7ec, 0x1d7f6, 0x1e140, 0x1e2f0, 0x1e950, 0x1fbf0]

def isDigit (c : Char) : Bool :=
  zeros.any fun first => decide (first ≤ c.toNat ∧ c.toNat < first + 10)

end PostfixSpec.Text
