import PostfixSpec.Encoding
import PostfixSpec.Formula.Token
import PostfixSpec.Leaf

/-!
# The grammar of formulas

A sentence is a chain of clauses joined by `|`, a clause a chain of literals joined by `&`, a
literal a negated literal or an atom, and an atom a name, a constant or a sentence between
parentheses. Chains lean to the left. Every derivation lists the symbols it derives and stands for
the specification composed along it.
-/

namespace PostfixSpec.Formula

mutual

/-- A derivation of clauses joined by disjunctions. -/
inductive Sentence where
  | clause (c : Clause)
  | or (s : Sentence) (c : Clause)

/-- A derivation of literals joined by conjunctions. -/
inductive Clause where
  | literal (l : Literal)
  | and (c : Clause) (l : Literal)

/-- A derivation of an atom behind any number of negations. -/
inductive Literal where
  | atom (a : Atom)
  | not (l : Literal)

/-- A derivation of a single operand. -/
inductive Atom where
  | name (value : String)
  | constant (value : Bool)
  | group (s : Sentence)

end

mutual

/-- The symbols that a sentence derives. -/
def Sentence.symbols : Sentence → List Symbol
  | .clause c => c.symbols
  | .or s c => s.symbols ++ .connective .disjunction :: c.symbols

def Clause.symbols : Clause → List Symbol
  | .literal l => l.symbols
  | .and c l => c.symbols ++ .connective .conjunction :: l.symbols

def Literal.symbols : Literal → List Symbol
  | .atom a => a.symbols
  | .not l => .negation :: l.symbols

def Atom.symbols : Atom → List Symbol
  | .name value => [.name value]
  | .constant value => [.constant value]
  | .group s => .opening :: s.symbols ++ [.closing]

end

mutual

/-- The specification composed along a sentence. -/
def Sentence.encode : Sentence → Encoding Leaf
  | .clause c => c.encode
  | .or s c => .combine .disjunction [s.encode, c.encode]

def Clause.encode : Clause → Encoding Leaf
  | .literal l => l.encode
  | .and c l => .combine .conjunction [c.encode, l.encode]

def Literal.encode : Literal → Encoding Leaf
  | .atom a => a.encode
  | .not l => l.encode.negate

def Atom.encode : Atom → Encoding Leaf
  | .name value => .leaf (.text value)
  | .constant value => .leaf (.bool value)
  | .group s => s.encode

end

end PostfixSpec.Formula
