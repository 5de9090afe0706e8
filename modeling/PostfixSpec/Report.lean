import PostfixSpec.Evaluator.Constants
import PostfixSpec.Evaluator.Description
import PostfixSpec.Trace

/-!
# Reports of a run

A run describes a specification, evaluates it under the names that hold, and says what it found.
The result is a plain line, so no level holds it back; everything else is a record.
-/

namespace PostfixSpec.Report

/-- Why a run has no result. -/
inductive RunError where
  | description (error : DescriptionError)
  | evaluation (error : EvaluationError)
  /-- Something among the names that hold is no name. -/
  | nameless
  deriving DecidableEq

def RunError.message : RunError → String
  | description error => error.message
  | evaluation error => error.message
  | nameless => "unhashable type: 'list'"

/-- The names that hold, in the order of their characters. A name given twice is listed twice. -/
def nameList (names : List String) : String :=
  if names.isEmpty then "(none)"
  else ", ".intercalate (names.mergeSort fun a b => !decide (b < a))

/-- Says which formula was read and what it was compiled into. -/
def formulaLoaded (formula compiled : String) : Traced Unit := do
  Traced.log .info ("Formula: " ++ formula)
  Traced.log .debug ("Compiled into " ++ compiled)

def assignment (names : List String) : Traced Unit :=
  Traced.log .info ("True leaves: " ++ nameList names)

/-- The line that gives the result. -/
def resultLine (description : Leaf) (value : Bool) : String :=
  description.display ++ " => " ++ (Leaf.bool value).display

/-- Describes a specification, evaluates it, and reports the result. That every name is one is
noticed once the specification is described. -/
def run (spec : Specification Leaf) (names : List (Option String)) :
    ExceptT RunError Traced Bool := do
  ExceptT.lift (spec.announce Evaluator.description.name)
  let description ← ExceptT.mk (pure (spec.description.mapError .description))
  let some names := names.mapM id | throw .nameless
  ExceptT.lift (spec.announce (Evaluator.assignment names).name)
  let value ← ExceptT.mk (pure ((spec.truth names).mapError .evaluation))
  ExceptT.lift (assignment names)
  ExceptT.lift (Traced.say (.line (resultLine description value)))
  return value

end PostfixSpec.Report
