import PostfixSpec.Specification

/-!
# Evaluators and the machine that drives them

An evaluator says what a leaf, a negation and a connective mean in some domain. Its answers may have
effects of any monad: counting, recording, failing. `Encoding.evaluate` reads the records once from
left to right over a stack of values, oldest value first, and answers with the value at the bottom.

The machine accepts every stream of records, well formed or not. A joining record takes as many top
values as it counts; the start of that slice counts from the other end of the stack once it is
negative, so it never fails.
-/

namespace PostfixSpec

/-- The meaning of a specification's parts: what leaves of type `α` and operators answer in `β`. The
name is what a trace calls the evaluator; it never changes an answer. -/
structure Evaluator (m : Type → Type) (α β : Type) where
  name : String
  leaf : α → m β
  negate : β → m β
  join : Connective → List β → m β

/-- Why a stream of records has no value, its evaluator's own failures apart. -/
inductive EvaluationError where
  | zero
  | leafOutOfRange
  | indexTooWide
  | negateNothing
  | noResult
  deriving DecidableEq

def EvaluationError.message : EvaluationError → String
  | zero => "Evaluate: cannot evaluate the zero specification"
  | leafOutOfRange => "tuple index out of range"
  | indexTooWide => "cannot fit 'int' into an index-sized integer"
  | negateNothing => "pop from empty list"
  | noResult => "list index out of range"

/-- Where the top `n` of `length` values begin. A start before the first value counts from the end
instead, and stops at the first value; a start behind the last value takes none. -/
def topStart (length : Nat) (n : Int) : Nat :=
  let start := (length : Int) - n
  if start < 0 then (start + length).toNat else min start.toNat length

/-- The values left below and the top values removed, oldest first. -/
def popTop {β : Type} (stack : List β) (n : Int) : List β × List β :=
  stack.splitAt (topStart stack.length n)

/-- The leaf at an index. A negative index counts from the end. -/
def leafAt? {α : Type} (leaves : List α) (index : Int) : Option α :=
  if 0 ≤ index then leaves[index.toNat]?
  else if -(leaves.length : Int) ≤ index then leaves[(index + leaves.length).toNat]?
  else none

/-- Whether a number can be an index at all: indices are signed words of 64 bits. -/
def isIndex (i : Int) : Bool := decide (-0x8000000000000000 ≤ i ∧ i < 0x8000000000000000)

/-- Why there is no leaf at an index. A number too wide for an index is told apart from an index
behind the last leaf. -/
def missingLeaf (index : Int) : EvaluationError :=
  if isIndex index then .leafOutOfRange else .indexTooWide

namespace Evaluator

variable {m : Type → Type} [Monad m] {α β : Type}

/-- The stack after one record. -/
def step (ev : Evaluator m α β) (leaves : List α) (stack : List β) :
    Op → ExceptT EvaluationError m (List β)
  | .leaf index => do
    let some value := leafAt? leaves index | throw (missingLeaf index)
    let answer ← ExceptT.lift (ev.leaf value)
    return stack ++ [answer]
  | .negate => do
    let some value := stack.getLast? | throw .negateNothing
    let answer ← ExceptT.lift (ev.negate value)
    return stack.dropLast ++ [answer]
  | .join connective count => do
    let (below, top) := popTop stack count
    let answer ← ExceptT.lift (ev.join connective top)
    return below ++ [answer]

def runOps (ev : Evaluator m α β) (leaves : List α) (stack : List β) (ops : List Op) :
    ExceptT EvaluationError m (List β) :=
  ops.foldlM (ev.step leaves) stack

end Evaluator

variable {m : Type → Type} [Monad m] {α β : Type}

/-- The value of an encoding: the bottom of the stack that its records leave. -/
def Encoding.evaluate (e : Encoding α) (ev : Evaluator m α β) : ExceptT EvaluationError m β := do
  let stack ← ev.runOps e.leaves [] e.ops
  match stack.head? with
  | some value => return value
  | none => throw .noResult

/-- The value of a specification. The zero specification has none. -/
def Specification.evaluate (spec : Specification α) (ev : Evaluator m α β) :
    ExceptT EvaluationError m β :=
  match spec with
  | .zero => throw .zero
  | .encoded e => e.evaluate ev

end PostfixSpec
