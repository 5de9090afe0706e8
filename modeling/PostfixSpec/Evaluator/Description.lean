import PostfixSpec.Evaluator
import PostfixSpec.Leaf

/-!
# Descriptions

A specification as fully parenthesised formula text. A boolean leaf is written as a constant; every
other leaf is kept as it is, so the description of a lone integer is that integer. Only texts can be
joined, and joining a single operand leaves it alone.
-/

namespace PostfixSpec

/-- An operand that is no text among those to be joined. -/
structure JoinError where
  position : Nat
  operand : Leaf
  deriving DecidableEq

/-- The kind of a leaf, as messages name it. -/
def Leaf.kindName : Leaf → String
  | text _ => "str"
  | bool _ => "bool"
  | int _ => "int"
  | null => "NoneType"

def JoinError.message (e : JoinError) : String :=
  s!"sequence item {e.position}: expected str instance, {e.operand.kindName} found"

/-- The texts among operands, or the first operand that is none. -/
def Leaf.texts (position : Nat) : List Leaf → Except JoinError (List String)
  | [] => .ok []
  | text s :: rest => do
    let more ← texts (position + 1) rest
    return s :: more
  | operand :: _ => .error ⟨position, operand⟩

/-- Operands between parentheses with a sign between any two of them. -/
def parenthesised (sign : String) (operands : List String) : String :=
  "(" ++ (" " ++ sign ++ " ").intercalate operands ++ ")"

/-- Answers with formula text. -/
def Evaluator.description : Evaluator (Except JoinError) Leaf Leaf where
  name := "Description"
  leaf
    | .bool b => .ok (.text (if b then "true" else "false"))
    | value => .ok value
  negate operand := .ok (.text ("!" ++ operand.display))
  join
    | _, [operand] => .ok operand
    | connective, operands => do
      let texts ← Leaf.texts 0 operands
      return .text (parenthesised connective.sign texts)

inductive DescriptionError where
  | join (error : JoinError)
  | evaluation (error : EvaluationError)
  deriving DecidableEq

def DescriptionError.message : DescriptionError → String
  | join error => error.message
  | evaluation error => error.message

def Specification.description (spec : Specification Leaf) : Except DescriptionError Leaf :=
  match (spec.evaluate Evaluator.description).run with
  | .error error => .error (.join error)
  | .ok (.error error) => .error (.evaluation error)
  | .ok (.ok value) => .ok value

end PostfixSpec
