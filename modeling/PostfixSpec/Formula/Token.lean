import PostfixSpec.Op

/-!
# Tokens of formula text

A formula is a sequence of symbols: names, the two constants, the three operators and parentheses. A
token is a symbol together with the place where it starts. A formula counts as one line whatever
line breaks it holds, and its places are counted in characters.
-/

namespace PostfixSpec.Formula

/-- A word or sign of a formula. -/
inductive Symbol where
  | name (value : String)
  | constant (value : Bool)
  | negation
  | connective (value : Connective)
  | opening
  | closing
  deriving DecidableEq

namespace Symbol

def text : Symbol → String
  | name value => value
  | constant true => "true"
  | constant false => "false"
  | negation => "!"
  | connective value => value.sign
  | opening => "("
  | closing => ")"

/-- The kind of a symbol, as messages name it. -/
def kind : Symbol → String
  | name _ => "ID"
  | constant true => "TRUE"
  | constant false => "FALSE"
  | negation => "NOT"
  | connective .conjunction => "AND"
  | connective .disjunction => "OR"
  | opening => "LPAREN"
  | closing => "RPAREN"

end Symbol

/-- A symbol and the number of characters before it. -/
structure Token where
  symbol : Symbol
  start : Nat
  deriving DecidableEq

namespace Token

/-- The number of characters before the end of a token. -/
def stop (token : Token) : Nat := token.start + token.symbol.text.length

/-- The line that every token is said to stand in. -/
def line (_token : Token) : Nat := 1

end Token

end PostfixSpec.Formula
