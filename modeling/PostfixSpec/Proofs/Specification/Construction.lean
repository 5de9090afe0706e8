import PostfixSpec.Evaluator.Collect
import PostfixSpec.Proofs.Specification.Composition

/-!
# Constructing a specification along a tree

A nest of calls to the constructors is a tree, and making the calls is folding it: every operand is
constructed before its operator. The calls succeed exactly on proper trees. What they construct lists
the tree again, so it is evaluated by folding the tree, and its leaves are those of the tree.
-/

namespace PostfixSpec

variable {α β : Type}

/-- Answers with the specifications that the constructors make. -/
def Evaluator.composing : Evaluator (Except CompositionError) α (Specification α) where
  name := "Composing"
  leaf value := .ok (.leaf value)
  negate := Specification.negation
  join := Specification.join

namespace Expr

/-- The specification constructed along a tree. -/
def compose (t : Expr α) : Except CompositionError (Specification α) := t.fold Evaluator.composing

theorem compose_negate (t : Expr α) :
    t.negate.compose = (do Specification.negation (← t.compose)) := by
  rw [compose, fold]
  rfl

theorem compose_join (c : Connective) (ts : List (Expr α)) :
    (join c ts).compose = (do Specification.join c (← ts.mapM compose)) := by
  rw [compose, fold, foldList_eq]
  rfl

/-- Constructing along a proper tree succeeds, and gives the encoding of the tree. -/
theorem Proper.compose {t : Expr α} (h : t.Proper) : t.compose = .ok (.encoded t.encode) := by
  induction t with
  | leaf value => rw [encode_leaf]; rfl
  | negate t ih =>
      rw [compose_negate, ih (proper_negate.mp h), encode_negate]
      rfl
  | join c ts ih =>
      obtain ⟨hne, hts⟩ := proper_join.mp h
      have hoperands : ts.mapM Expr.compose = .ok ((ts.map encode).map Specification.encoded) := by
        rw [List.map_map]
        exact mapM_of_pure fun t ht => ih t ht (hts t ht)
      have hparts : ts.map encode ≠ [] := mt List.map_eq_nil_iff.mp hne
      rw [compose_join, hoperands, encode_join, ← Specification.join_encoded c hparts]
      rfl

/-- Constructing along a tree succeeds on proper trees only. -/
theorem proper_of_compose {t : Expr α} {spec : Specification α} (h : t.compose = .ok spec) :
    t.Proper := by
  induction t generalizing spec with
  | leaf value => exact proper_leaf value
  | negate t ih =>
      rw [compose_negate] at h
      obtain ⟨operand, hoperand, -⟩ := bind_eq_ok h
      exact proper_negate.mpr (ih hoperand)
  | join c ts ih =>
      rw [compose_join] at h
      obtain ⟨operands, hoperands, hjoin⟩ := bind_eq_ok h
      have hall : ts.map compose = operands.map .ok := map_eq_of_mapM_ok hoperands
      refine proper_join.mpr ⟨?_, fun t ht => ?_⟩
      · rintro rfl
        rw [List.map_eq_nil_iff.mp hall.symm] at hjoin
        exact nomatch hjoin
      · have hmem : t.compose ∈ operands.map Except.ok := hall ▸ List.mem_map_of_mem ht
        obtain ⟨operand, -, hoperand⟩ := List.mem_map.mp hmem
        exact ih t ht hoperand.symm

theorem compose_eq_ok_iff {t : Expr α} {spec : Specification α} :
    t.compose = .ok spec ↔ t.Proper ∧ spec = .encoded t.encode := by
  constructor
  · intro h
    have hproper := proper_of_compose h
    exact ⟨hproper, Except.ok.inj (h.symm.trans hproper.compose)⟩
  · rintro ⟨hproper, rfl⟩
    exact hproper.compose

/-! ### What is constructed -/

/-- The encoding of a tree lists the tree. -/
theorem lists_encode (t : Expr α) : t.encode.Lists t := by
  induction t with
  | leaf value => rw [encode_leaf]; exact Encoding.lists_leaf value
  | negate t ih => rw [encode_negate]; exact ih.negate
  | join c ts ih =>
      rw [encode_join]
      exact Encoding.lists_combine c
        (List.forall₂_map_left_iff.mpr (List.forall₂_same.mpr ih))

/-- What is constructed along a tree is evaluated by folding the tree. -/
theorem evaluate_encode {m : Type → Type} [Monad m] [LawfulMonad m] (t : Expr α)
    (ev : Evaluator m α β) :
    (Specification.encoded t.encode).evaluate ev = ExceptT.lift (t.fold ev) :=
  t.lists_encode.evaluate ev

theorem encode_leaves (t : Expr α) : t.encode.leaves = t.leaves := by
  induction t with
  | leaf value => simp [Encoding.leaf]
  | negate t ih => simpa [Encoding.negate] using ih
  | join c ts ih =>
      rw [encode_join, Encoding.combine_leaves, List.flatMap_map, leaves_join]
      exact List.flatMap_congr ih

end Expr

end PostfixSpec
