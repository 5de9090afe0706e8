import PostfixSpec.Evaluator.Constants

/-!
# Constant specifications as examples

A few specifications over the two constants, each shown with its value.
-/

namespace PostfixSpec.Examples

def constants : List (Encoding Leaf) :=
  let no := Encoding.leaf (.bool false)
  let yes := Encoding.leaf (.bool true)
  [no, yes, no.negate, yes.negate, .combine .conjunction [yes], .combine .disjunction [no, yes],
    .combine .conjunction [no, yes]]

/-- A constant specification and its value in one line, or the reason why it has none. -/
def line (e : Encoding Leaf) : Except EvaluationError String := do
  let text ← (e.evaluate Evaluator.constantText).run
  let truth ← (e.evaluate Evaluator.constantTruth).run
  return text ++ " => " ++ truth.display

/-- All examples, one line each. -/
def table : Except EvaluationError String := do
  let lines ← constants.mapM line
  return String.join (lines.map (· ++ "\n"))

end PostfixSpec.Examples
