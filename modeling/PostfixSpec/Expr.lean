import PostfixSpec.Encoding
import PostfixSpec.Evaluator

/-!
# Expression trees

A well-formed stream of records is the listing of a tree, operands before operators. `Expr.toOps`
lists a tree whose leaves are indices, `Expr.encode` builds the encoding of a tree of leaf values by
composition, and `Expr.fold` gives a tree its meaning by recursion, every operand before its
operator.
-/

namespace PostfixSpec

/-- A condition as a tree. -/
inductive Expr (α : Type) where
  | leaf (value : α)
  | negate (operand : Expr α)
  | join (connective : Connective) (operands : List (Expr α))

namespace Expr

variable {α β : Type}

mutual

/-- The records of a tree whose leaves are indices, operands before operators. -/
def toOps : Expr Int → List Op
  | leaf index => [.leaf index]
  | negate operand => operand.toOps ++ [.negate]
  | join connective operands => listToOps operands ++ [.join connective operands.length]

def listToOps : List (Expr Int) → List Op
  | [] => []
  | e :: es => e.toOps ++ listToOps es

end

mutual

/-- The same tree over other leaves. -/
def map (f : α → β) : Expr α → Expr β
  | leaf value => leaf (f value)
  | negate operand => negate (operand.map f)
  | join connective operands => join connective (mapList f operands)

def mapList (f : α → β) : List (Expr α) → List (Expr β)
  | [] => []
  | e :: es => e.map f :: mapList f es

end

mutual

/-- The encoding of a tree, built by composition. -/
def encode : Expr α → Encoding α
  | leaf value => .leaf value
  | negate operand => operand.encode.negate
  | join connective operands => .combine connective (encodeList operands)

def encodeList : List (Expr α) → List (Encoding α)
  | [] => []
  | e :: es => e.encode :: encodeList es

end

mutual

/-- The meaning of a tree: every operand is evaluated once, from left to right, before its
operator. -/
def fold {m : Type → Type} [Monad m] (ev : Evaluator m α β) : Expr α → m β
  | leaf value => ev.leaf value
  | negate operand => do ev.negate (← operand.fold ev)
  | join connective operands => do ev.join connective (← foldList ev operands)

def foldList {m : Type → Type} [Monad m] (ev : Evaluator m α β) : List (Expr α) → m (List β)
  | [] => pure []
  | e :: es => do
    let first ← e.fold ev
    let rest ← foldList ev es
    return first :: rest

end

mutual

/-- Whether every operator of a tree joins at least one operand. -/
def Proper : Expr α → Prop
  | leaf _ => True
  | negate operand => operand.Proper
  | join _ operands => operands ≠ [] ∧ ListProper operands

def ListProper : List (Expr α) → Prop
  | [] => True
  | e :: es => e.Proper ∧ ListProper es

end

end Expr

end PostfixSpec
