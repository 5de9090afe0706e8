import Mathlib.Data.List.Basic
import PostfixSpec.Expr

/-!
# Induction over trees

A tree holds a list of trees below each of its connectives, so its functions come in pairs, one for a
tree and one for a list of trees. Here every second function is read off its first, and one induction
principle gives the hypothesis for each operand. After this module nothing needs to know that the
definitions were mutual.
-/

namespace PostfixSpec

namespace Expr

variable {α β γ : Type}

/-- A property of all trees: it holds of leaves, and passes from operands to their operator. -/
@[elab_as_elim, induction_eliminator]
theorem induction {motive : Expr α → Prop}
    (leaf : ∀ value, motive (.leaf value))
    (negate : ∀ operand, motive operand → motive (.negate operand))
    (join : ∀ connective operands, (∀ operand ∈ operands, motive operand) →
      motive (.join connective operands))
    (t : Expr α) : motive t := by
  refine @Expr.rec α motive (fun ts => ∀ t ∈ ts, motive t) leaf negate join ?_ ?_ t
  · intro t ht
    exact absurd ht List.not_mem_nil
  · intro first rest hfirst hrest t ht
    rcases List.mem_cons.mp ht with rfl | ht
    · exact hfirst
    · exact hrest t ht

/-! ### Lists of trees -/

theorem listToOps_eq (ts : List (Expr Int)) : listToOps ts = ts.flatMap toOps := by
  induction ts with
  | nil => rfl
  | cons t ts ih => rw [listToOps, ih, List.flatMap_cons]

theorem mapList_eq (f : α → β) (ts : List (Expr α)) : mapList f ts = ts.map (map f) := by
  induction ts with
  | nil => rfl
  | cons t ts ih => rw [mapList, ih, List.map_cons]

theorem encodeList_eq (ts : List (Expr α)) : encodeList ts = ts.map encode := by
  induction ts with
  | nil => rfl
  | cons t ts ih => rw [encodeList, ih, List.map_cons]

theorem foldList_eq {m : Type → Type} [Monad m] [LawfulMonad m] (ev : Evaluator m α β)
    (ts : List (Expr α)) : foldList ev ts = ts.mapM (fold ev) := by
  induction ts with
  | nil => rfl
  | cons t ts ih => rw [foldList, ih, List.mapM_cons]

theorem listProper_iff {ts : List (Expr α)} : ListProper ts ↔ ∀ t ∈ ts, t.Proper := by
  induction ts with
  | nil => simp [ListProper]
  | cons t ts ih => rw [ListProper, ih, List.forall_mem_cons]

/-! ### Operators of trees -/

@[simp] theorem toOps_leaf (index : Int) : (leaf index).toOps = [.leaf index] := by rw [toOps]

@[simp] theorem toOps_negate (t : Expr Int) : t.negate.toOps = t.toOps ++ [.negate] := by
  rw [toOps]

@[simp] theorem toOps_join (c : Connective) (ts : List (Expr Int)) :
    (join c ts).toOps = ts.flatMap toOps ++ [.join c ts.length] := by
  rw [toOps, listToOps_eq]

@[simp] theorem map_leaf (f : α → β) (value : α) : (leaf value).map f = leaf (f value) := by
  rw [map]

@[simp] theorem map_negate (f : α → β) (t : Expr α) : t.negate.map f = (t.map f).negate := by
  rw [map]

@[simp] theorem map_join (f : α → β) (c : Connective) (ts : List (Expr α)) :
    (join c ts).map f = join c (ts.map (map f)) := by
  rw [map, mapList_eq]

@[simp] theorem encode_leaf (value : α) : (leaf value).encode = .leaf value := by rw [encode]

@[simp] theorem encode_negate (t : Expr α) : t.negate.encode = t.encode.negate := by rw [encode]

@[simp] theorem encode_join (c : Connective) (ts : List (Expr α)) :
    (join c ts).encode = .combine c (ts.map encode) := by
  rw [encode, encodeList_eq]

@[simp] theorem proper_leaf (value : α) : (leaf value).Proper := by
  rw [Proper]
  trivial

@[simp] theorem proper_negate {t : Expr α} : t.negate.Proper ↔ t.Proper := by rw [Proper]

@[simp] theorem proper_join {c : Connective} {ts : List (Expr α)} :
    (join c ts).Proper ↔ ts ≠ [] ∧ ∀ t ∈ ts, t.Proper := by
  rw [Proper, listProper_iff]

/-! ### Changing the leaves of a tree -/

theorem map_map (g : β → γ) (f : α → β) (t : Expr α) : (t.map f).map g = t.map (g ∘ f) := by
  induction t with
  | leaf value => simp
  | negate t ih => simp [ih]
  | join c ts ih => simpa using ih

@[simp] theorem map_id (t : Expr α) : t.map id = t := by
  induction t with
  | leaf value => simp
  | negate t ih => simp [ih]
  | join c ts ih => rw [map_join, List.map_congr_left ih, List.map_id']

@[simp] theorem proper_map {f : α → β} {t : Expr α} : (t.map f).Proper ↔ t.Proper := by
  induction t with
  | leaf value => simp
  | negate t ih => simpa using ih
  | join c ts ih =>
      simp only [map_join, proper_join, ne_eq, List.map_eq_nil_iff, List.forall_mem_map]
      exact and_congr_right fun _ => forall₂_congr ih

/-- Moving every index of a tree moves every record of its listing. -/
theorem toOps_map_add (offset : Int) (t : Expr Int) :
    (t.map (· + offset)).toOps = t.toOps.map (Op.rebased offset) := by
  induction t with
  | leaf index => simp
  | negate t ih => simp [ih, Op.rebased]
  | join c ts ih =>
      simp only [map_join, toOps_join, List.length_map, List.map_append, List.map_flatMap,
        List.flatMap_map, List.map_cons, List.map_nil, Op.rebased]
      rw [List.flatMap_congr ih]

end Expr

end PostfixSpec
