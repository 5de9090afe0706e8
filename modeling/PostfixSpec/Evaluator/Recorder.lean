import PostfixSpec.Evaluator

/-!
# Recording evaluators

A recorder answers like another evaluator and keeps a list of the calls made to it, with their
arguments. It can be told to fail at one of its calls: that call is still recorded, and the failure
names it.
-/

namespace PostfixSpec

inductive Call (α β : Type) where
  | leaf (value : α)
  | negate (operand : β)
  | join (connective : Connective) (operands : List β)
  deriving DecidableEq

/-- What a call is named after. -/
def Call.name {α β : Type} : Call α β → String
  | leaf _ => "leaf"
  | negate _ => "not"
  | join .conjunction _ => "and"
  | join .disjunction _ => "or"

/-- The failure of a recorder at its call number `number`. -/
structure Interruption where
  callName : String
  number : Nat
  deriving DecidableEq

def Interruption.message (i : Interruption) : String := s!"{i.callName} call {i.number}"

/-- Computations that record calls and may be interrupted. The calls made so far are kept when they
are. -/
abbrev Recording (α β : Type) := ExceptT Interruption (StateM (List (Call α β)))

namespace Evaluator

variable {α β : Type}

/-- Records a call, then answers it, unless it is the call to fail at. Calls are numbered from one,
so zero fails never. -/
def answering (failAt : Nat) (call : Call α β) (answer : β) : Recording α β β := do
  let calls ← getModify (· ++ [call])
  if calls.length + 1 = failAt then throw ⟨call.name, failAt⟩
  return answer

/-- Answers like `ev` and records every call. -/
def recording (ev : Evaluator Id α β) (failAt : Nat) : Evaluator (Recording α β) α β where
  name := "Record"
  leaf value := answering failAt (.leaf value) (ev.leaf value)
  negate operand := answering failAt (.negate operand) (ev.negate operand)
  join connective operands :=
    answering failAt (.join connective operands) (ev.join connective operands)

end Evaluator

/-- The outcome of evaluating with a recorder, and the calls it recorded. -/
def Specification.record {α β : Type} (spec : Specification α) (ev : Evaluator Id α β)
    (failAt : Nat) : Except Interruption (Except EvaluationError β) × List (Call α β) :=
  (spec.evaluate (ev.recording failAt)).run.run.run []

end PostfixSpec
