import PostfixSpec.Evaluator.Description

/-!
# Truth values and constants

The truth value of a specification once some names are known to hold and all others are known not to.
A specification over boolean leaves needs no names: it has evaluators of its own, for its truth value and
for a text in which connectives are written with doubled signs. These take a leaf that is no boolean as it
comes: its truth is that of any value, its text is written in small letters.
-/

namespace PostfixSpec

namespace Evaluator

/-- Answers with truth values: a boolean leaf is itself, a text holds when it is one of `names`, and
no other leaf does. -/
def assignment (names : List String) : Evaluator Id Leaf Bool where
  name := "Assignment"
  leaf
    | .bool b => b
    | .text s => names.contains s
    | _ => false
  negate operand := !operand
  join
    | .conjunction, operands => operands.all id
    | .disjunction, operands => operands.any id

/-- Answers with truth values; a lone leaf is its own answer. -/
def constantTruth : Evaluator Id Leaf Leaf where
  name := "ToBool"
  leaf value := value
  negate operand := .bool (!operand.truthy)
  join
    | .conjunction, operands => .bool (operands.all Leaf.truthy)
    | .disjunction, operands => .bool (operands.any Leaf.truthy)

/-- Answers with text. Small letters are those of the English alphabet. -/
def constantText : Evaluator Id Leaf String where
  name := "ToString"
  leaf value := value.display.map Char.toLower
  negate operand := "!" ++ operand
  join
    | _, [operand] => operand
    | connective, operands => parenthesised (connective.sign ++ connective.sign) operands

end Evaluator

/-- The truth value of a specification when exactly `names` hold. -/
def Specification.truth (spec : Specification Leaf) (names : List String) :
    Except EvaluationError Bool :=
  (spec.evaluate (Evaluator.assignment names)).run

end PostfixSpec
