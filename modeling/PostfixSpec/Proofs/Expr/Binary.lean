import PostfixSpec.Evaluator.Collect
import PostfixSpec.Proofs.Expr.Induction

/-!
# Binary trees

Formula text knows connectives of two operands only. The binary form of a tree says the same with
them: a connective of one operand is that operand, and one of more operands is the chain that joins
them two by two, leaning to the left. Trees that are binary already are their own binary form.
-/

namespace PostfixSpec

variable {α : Type}

namespace Expr

/-- Joins trees two by two from the left. A single tree is not joined at all. -/
def chain (c : Connective) : List (Expr α) → Expr α
  | [] => join c []
  | t :: ts => ts.foldl (fun joined t => join c [joined, t]) t

end Expr

/-- Answers with the binary forms of trees. -/
def Evaluator.binary : Evaluator Id α (Expr α) where
  name := "Binary"
  leaf := .leaf
  negate := .negate
  join := Expr.chain

namespace Expr

/-- The tree with a chain in place of every connective. -/
def binary (t : Expr α) : Expr α := Id.run (t.fold Evaluator.binary)

@[simp] theorem binary_leaf (value : α) : (leaf value).binary = leaf value := fold_leaf _ value

@[simp] theorem binary_negate (t : Expr α) : t.negate.binary = t.binary.negate := fold_negate _ t

@[simp] theorem binary_join (c : Connective) (ts : List (Expr α)) :
    (join c ts).binary = chain c (ts.map binary) := fold_join _ c ts

/-- Every connective of a tree joins exactly two operands. -/
inductive Binary : Expr α → Prop
  | leaf (value : α) : Binary (.leaf value)
  | negate {t : Expr α} : Binary t → Binary (.negate t)
  | join (c : Connective) {t u : Expr α} : Binary t → Binary u → Binary (.join c [t, u])

theorem Binary.proper {t : Expr α} (h : t.Binary) : t.Proper := by
  induction h with
  | leaf value => exact proper_leaf value
  | negate _ ih => exact proper_negate.mpr ih
  | join c _ _ iht ihu =>
      exact proper_join.mpr ⟨List.cons_ne_nil _ _, by simpa using ⟨iht, ihu⟩⟩

theorem Binary.binary_eq {t : Expr α} (h : t.Binary) : t.binary = t := by
  induction h with
  | leaf value => exact binary_leaf value
  | negate _ ih => rw [binary_negate, ih]
  | join c _ _ iht ihu =>
      rw [binary_join, List.map_cons, List.map_cons, List.map_nil, iht, ihu]
      rfl

theorem Binary.chain (c : Connective) {t : Expr α} {ts : List (Expr α)} (ht : t.Binary)
    (hts : ∀ u ∈ ts, u.Binary) : (Expr.chain c (t :: ts)).Binary := by
  induction ts generalizing t with
  | nil => exact ht
  | cons u ts ih =>
      obtain ⟨hu, hts⟩ := List.forall_mem_cons.mp hts
      exact ih (.join c ht hu) hts

/-- The binary form of a proper tree is binary. -/
theorem Proper.binary {t : Expr α} (h : t.Proper) : t.binary.Binary := by
  induction t with
  | leaf value => rw [binary_leaf]; exact .leaf value
  | negate t ih => rw [binary_negate]; exact .negate (ih (proper_negate.mp h))
  | join c ts ih =>
      obtain ⟨hne, hts⟩ := proper_join.mp h
      obtain ⟨t, ts, rfl⟩ := List.exists_cons_of_ne_nil hne
      have hbinary : ∀ u ∈ (t :: ts).map Expr.binary, u.Binary := by
        rw [List.forall_mem_map]
        exact fun u hu => ih u hu (hts u hu)
      rw [binary_join, List.map_cons]
      rw [List.map_cons, List.forall_mem_cons] at hbinary
      exact .chain c hbinary.1 hbinary.2

end Expr

end PostfixSpec
