/-!
# Leaf values

The basic conditions of a specification are values supplied by its client: texts, booleans, integers
or nothing at all. A leaf keeps the value exactly as given, so `true` and `1` stay distinguishable,
but they count as the same leaf when two specifications are compared.
-/

namespace PostfixSpec

/-- A basic condition, as its client supplied it. -/
inductive Leaf where
  | text (value : String)
  | bool (value : Bool)
  | int (value : Int)
  | null
  deriving DecidableEq

namespace Leaf

/-- The representative of a leaf among those equal to it: a boolean counts as one or zero, every
other value stands for itself. -/
def key : Leaf → Leaf
  | bool true => int 1
  | bool false => int 0
  | v => v

/-- Leaves are equal when their representatives are, so `true` equals one and nothing else of
another kind. -/
instance instBEq : BEq Leaf := ⟨fun a b => decide (a.key = b.key)⟩

theorem beq_iff {a b : Leaf} : (a == b) = true ↔ a.key = b.key := decide_eq_true_iff

/-- The text of a leaf inside a message or a description. -/
def display : Leaf → String
  | text s => s
  | bool true => "True"
  | bool false => "False"
  | int i => toString i
  | null => "None"

/-- Whether a leaf counts as holding: empty texts, zero and nothing do not. -/
def truthy : Leaf → Bool
  | text s => s != ""
  | bool b => b
  | int i => i != 0
  | null => false

end Leaf

end PostfixSpec
