/-!
# Operation records

A specification lists its structure as records read from left to right over a stack of values. A
leaf record pushes the value of one leaf, a negation replaces the top value, and a joining record
replaces as many top values as it counts by their conjunction or disjunction.
-/

namespace PostfixSpec

/-- The two ways to join several values into one. -/
inductive Connective where
  | conjunction
  | disjunction
  deriving DecidableEq

/-- One operation record. Indices and counts are arbitrary integers: a record may be written by
hand, and only a replay says whether it makes sense. -/
inductive Op where
  | leaf (index : Int)
  | negate
  | join (connective : Connective) (count : Int)
  deriving DecidableEq

def Connective.sign : Connective → String
  | conjunction => "&"
  | disjunction => "|"

/-- The kind of record that joins by a connective, as messages name it. -/
def Connective.recordName : Connective → String
  | conjunction => "Conjunction"
  | disjunction => "Disjunction"

namespace Op

/-- A leaf record moved `offset` places up the list of leaves; other records point at no leaf and
stay as they are. -/
def rebased (offset : Int) : Op → Op
  | leaf index => leaf (index + offset)
  | op => op

@[simp] theorem rebased_leaf (offset i : Int) : (leaf i).rebased offset = leaf (i + offset) := rfl

@[simp] theorem rebased_zero (op : Op) : op.rebased 0 = op := by
  cases op <;> simp [rebased]

/-- Moving twice is moving by the sum. -/
theorem rebased_rebased (a b : Int) (op : Op) : (op.rebased a).rebased b = op.rebased (a + b) := by
  cases op <;> simp [rebased, Int.add_assoc]

/-- How many values a record takes from the stack. -/
def consumed : Op → Int
  | leaf _ => 0
  | negate => 1
  | join _ count => count

/-- How many values a record takes from the stack and how many it puts back. -/
def effect (op : Op) : Int × Int := (op.consumed, 1)

@[simp] theorem consumed_rebased (offset : Int) (op : Op) :
    (op.rebased offset).consumed = op.consumed := by
  cases op <;> rfl

/-- A record by the name of its kind and its number. -/
def describe : Op → String
  | leaf index => s!"LeafRef(index={index})"
  | negate => "Negate()"
  | join connective count => s!"{connective.recordName}(count={count})"

/-- A record in one word: the index of a leaf, or the sign of an operator and its count. -/
def sign : Op → String
  | leaf index => toString index
  | negate => "!"
  | join connective count => s!"{connective.sign}{count}"

end Op

end PostfixSpec
