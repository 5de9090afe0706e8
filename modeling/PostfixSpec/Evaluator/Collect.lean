import PostfixSpec.Expr

/-!
# Collecting leaves

An evaluator of the identity monad answers each node from the answers of its operands alone, so its
folds obey plain recursive equations. One such evaluator collects leaves, in the order in which they are
evaluated, and the leaves of a tree are what it answers.
-/

namespace PostfixSpec

variable {α β : Type}

/-- Answers with the leaves below each node, from left to right. -/
def Evaluator.collect : Evaluator Id α (List α) where
  name := "Collect"
  leaf value := [value]
  negate values := values
  join _ operands := operands.flatten

namespace Expr

/-! ### Folds without effects -/

theorem foldList_eq_map (ev : Evaluator Id α β) (ts : List (Expr α)) :
    foldList ev ts = ts.map (fold ev) := by
  induction ts with
  | nil => rfl
  | cons t ts ih =>
      rw [foldList, ih]
      rfl

theorem fold_leaf (ev : Evaluator Id α β) (value : α) : (leaf value).fold ev = ev.leaf value := by
  rw [fold]

theorem fold_negate (ev : Evaluator Id α β) (t : Expr α) :
    t.negate.fold ev = ev.negate (t.fold ev) := by
  rw [fold]
  rfl

theorem fold_join (ev : Evaluator Id α β) (c : Connective) (ts : List (Expr α)) :
    (join c ts).fold ev = ev.join c (ts.map (fold ev)) := by
  rw [fold, foldList_eq_map]
  rfl

/-! ### Leaves -/

/-- The leaves of a tree from left to right. -/
def leaves (t : Expr α) : List α := Id.run (t.fold Evaluator.collect)

@[simp] theorem leaves_leaf (value : α) : (leaf value).leaves = [value] := fold_leaf _ value

@[simp] theorem leaves_negate (t : Expr α) : t.negate.leaves = t.leaves := fold_negate _ t

@[simp] theorem leaves_join (c : Connective) (ts : List (Expr α)) :
    (join c ts).leaves = ts.flatMap leaves :=
  (fold_join _ c ts).trans List.flatMap_def.symm

end Expr

end PostfixSpec
