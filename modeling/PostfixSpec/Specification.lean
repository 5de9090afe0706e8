import PostfixSpec.Encoding

/-!
# Specifications

A specification is either an encoding or the zero specification, which stands for a condition that
was never given and cannot be used. Specifications are built from leaves by negation, conjunction
and disjunction; a composition fails exactly on unusable operands.
-/

namespace PostfixSpec

/-- A reusable boolean condition over leaves, or none at all. -/
inductive Specification (α : Type) where
  | zero
  | encoded (encoding : Encoding α)
  deriving DecidableEq

/-- What makes a composition impossible. -/
inductive CompositionError where
  | negatedZero
  | noOperands (connective : Connective)
  | zeroOperand (connective : Connective)
  deriving DecidableEq

/-- The operation that joins specifications, as messages name it. -/
def Connective.operationName : Connective → String
  | conjunction => "And"
  | disjunction => "Or"

def CompositionError.message : CompositionError → String
  | negatedZero => "Not: cannot use zero spec"
  | noOperands connective => connective.operationName ++ ": cannot combine 0 specifications"
  | zeroOperand connective => connective.operationName ++ ": cannot combine the zero specification"

namespace Specification

variable {α : Type}

/-- Two zero specifications are equal, encodings are compared, and an encoding is never zero. -/
instance instBEq [BEq α] : BEq (Specification α) where
  beq
    | zero, zero => true
    | encoded s, encoded t => s == t
    | _, _ => false

def leaf (value : α) : Specification α := encoded (.leaf value)

/-- The encoding of a specification that has one. -/
def encoding? : Specification α → Option (Encoding α)
  | zero => none
  | encoded e => some e

/-- The specification that holds when `spec` does not. -/
def negation : Specification α → Except CompositionError (Specification α)
  | zero => .error .negatedZero
  | encoded e => .ok (encoded e.negate)

/-- The encodings of all operands of a composition. Having no operand at all is reported before a
zero operand. -/
def operands (connective : Connective) (specs : List (Specification α)) :
    Except CompositionError (List (Encoding α)) :=
  if specs.isEmpty then .error (.noOperands connective)
  else match specs.mapM encoding? with
    | none => .error (.zeroOperand connective)
    | some parts => .ok parts

/-- The specification that joins `specs`. -/
def join (connective : Connective) (specs : List (Specification α)) :
    Except CompositionError (Specification α) :=
  (operands connective specs).map fun parts => encoded (.combine connective parts)

def conjunction (specs : List (Specification α)) : Except CompositionError (Specification α) :=
  join .conjunction specs

def disjunction (specs : List (Specification α)) : Except CompositionError (Specification α) :=
  join .disjunction specs

def describe : Specification α → String
  | zero => "Specification(zero)"
  | encoded e => e.describe

/-- How many different specifications a list holds. -/
def distinct [BEq α] (specs : List (Specification α)) : Nat := specs.eraseDups.length

end Specification

end PostfixSpec
