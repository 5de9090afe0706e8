import Mathlib.Data.List.Forall2
import PostfixSpec.Evaluator.Collect
import PostfixSpec.Proofs.Expr.Induction

/-!
# Shapes of trees

A tree is its shape and its leaves. The shape keeps the operators, how many operands each of them has
and in which order; the leaves are the rest. Two trees are alike when their shapes are the same and
their leaves correspond one by one, and that is so exactly if their roots agree and their operands are
alike in order.

Composition never looks at a leaf, so the records of an encoded tree depend on its shape alone.
-/

namespace PostfixSpec

variable {α β γ : Type}

namespace Expr

@[simp] theorem leaves_map (f : α → β) (t : Expr α) : (t.map f).leaves = t.leaves.map f := by
  induction t with
  | leaf value => simp
  | negate t ih => simpa using ih
  | join c ts ih =>
      rw [map_join, leaves_join, leaves_join, List.flatMap_map, List.map_flatMap]
      exact List.flatMap_congr ih

/-! ### Shapes -/

/-- What remains of a tree without the values of its leaves. -/
def shape (t : Expr α) : Expr Unit := t.map fun _ => ()

@[simp] theorem shape_leaf (value : α) : (leaf value).shape = leaf () := map_leaf _ value

@[simp] theorem shape_negate (t : Expr α) : t.negate.shape = t.shape.negate := map_negate _ t

@[simp] theorem shape_join (c : Connective) (ts : List (Expr α)) :
    (join c ts).shape = join c (ts.map shape) := map_join _ c ts

@[simp] theorem shape_map (f : α → β) (t : Expr α) : (t.map f).shape = t.shape := map_map _ f t

theorem length_leaves_of_shape_eq {t : Expr α} {u : Expr β} (h : t.shape = u.shape) :
    t.leaves.length = u.leaves.length := by
  have hleaves := congrArg (fun s => s.leaves.length) h
  simpa [shape] using hleaves

/-! ### Trees that are alike -/

/-- Two trees are alike when they have the same shape and their leaves correspond one by one. -/
structure Alike (r : α → β → Prop) (t : Expr α) (u : Expr β) : Prop where
  shape : t.shape = u.shape
  leaves : List.Forall₂ r t.leaves u.leaves

variable {r : α → β → Prop}

theorem alike_negate {t : Expr α} {u : Expr β} : Alike r t.negate u.negate ↔ Alike r t u := by
  constructor
  · rintro ⟨hshape, hleaves⟩
    rw [shape_negate, shape_negate, negate.injEq] at hshape
    rw [leaves_negate, leaves_negate] at hleaves
    exact ⟨hshape, hleaves⟩
  · rintro ⟨hshape, hleaves⟩
    exact ⟨by rw [shape_negate, shape_negate, hshape], by rwa [leaves_negate, leaves_negate]⟩

private theorem forall₂_append_iff {as bs : List α} {xs ys : List β} (h : as.length = xs.length) :
    List.Forall₂ r (as ++ bs) (xs ++ ys) ↔ List.Forall₂ r as xs ∧ List.Forall₂ r bs ys := by
  constructor
  · intro hall
    have hfirst := List.forall₂_take_append _ _ _ hall
    have hrest := List.forall₂_drop_append _ _ _ hall
    rw [← h, List.take_left] at hfirst
    rw [← h, List.drop_left] at hrest
    exact ⟨hfirst, hrest⟩
  · rintro ⟨hfirst, hrest⟩
    exact List.rel_append hfirst hrest

private theorem forall₂_alike_iff {ts : List (Expr α)} {us : List (Expr β)} :
    List.Forall₂ (Alike r) ts us
      ↔ ts.map shape = us.map shape ∧
        List.Forall₂ r (ts.flatMap Expr.leaves) (us.flatMap Expr.leaves) := by
  induction ts generalizing us with
  | nil =>
      rw [List.forall₂_nil_left_iff]
      constructor
      · rintro rfl
        exact ⟨rfl, .nil⟩
      · rintro ⟨hshapes, -⟩
        exact List.map_eq_nil_iff.mp hshapes.symm
  | cons t ts ih =>
      cases us with
      | nil => simp
      | cons u us =>
          rw [List.forall₂_cons, ih, List.map_cons, List.map_cons, List.cons.injEq,
            List.flatMap_cons, List.flatMap_cons]
          constructor
          · rintro ⟨⟨hshape, hleaves⟩, hshapes, hrest⟩
            exact ⟨⟨hshape, hshapes⟩, List.rel_append hleaves hrest⟩
          · rintro ⟨⟨hshape, hshapes⟩, hall⟩
            obtain ⟨hleaves, hrest⟩ :=
              (forall₂_append_iff (length_leaves_of_shape_eq hshape)).mp hall
            exact ⟨⟨hshape, hleaves⟩, hshapes, hrest⟩

/-- Joined trees are alike if and only if the connectives are the same and the operands are alike in
order. -/
theorem alike_join {c c' : Connective} {ts : List (Expr α)} {us : List (Expr β)} :
    Alike r (join c ts) (join c' us) ↔ c = c' ∧ List.Forall₂ (Alike r) ts us := by
  rw [forall₂_alike_iff]
  constructor
  · rintro ⟨hshape, hleaves⟩
    rw [shape_join, shape_join, join.injEq] at hshape
    rw [leaves_join, leaves_join] at hleaves
    exact ⟨hshape.1, hshape.2, hleaves⟩
  · rintro ⟨rfl, hshapes, hleaves⟩
    exact ⟨by rw [shape_join, shape_join, hshapes], by rwa [leaves_join, leaves_join]⟩

end Expr

/-! ### Composition does not look at leaves -/

attribute [ext] Encoding

namespace Encoding

/-- The same records over other leaves. -/
def map (f : α → β) (e : Encoding α) : Encoding β := ⟨e.ops, e.leaves.map f⟩

@[simp] theorem map_ops (f : α → β) (e : Encoding α) : (e.map f).ops = e.ops := rfl

@[simp] theorem map_leaves (f : α → β) (e : Encoding α) : (e.map f).leaves = e.leaves.map f := rfl

theorem movedOps_map (f : α → β) (offset : Nat) (parts : List (Encoding α)) :
    movedOps offset (parts.map (map f)) = movedOps offset parts := by
  induction parts generalizing offset with
  | nil => rfl
  | cons part parts ih =>
      rw [List.map_cons, movedOps, movedOps, map_ops, map_leaves, List.length_map, ih]

theorem combine_map (f : α → β) (c : Connective) (parts : List (Encoding α)) :
    combine c (parts.map (map f)) = (combine c parts).map f := by
  apply Encoding.ext
  · rw [map_ops, combine_ops, combine_ops, movedOps_map, List.length_map]
  · rw [map_leaves, combine_leaves, combine_leaves, List.map_flatMap, List.flatMap_map]
    rfl

end Encoding

namespace Expr

/-- Changing the leaves of a tree changes the leaves of its encoding and nothing else. -/
theorem encode_map (f : α → β) (t : Expr α) : (t.map f).encode = t.encode.map f := by
  induction t with
  | leaf value => simp [Encoding.leaf, Encoding.map]
  | negate t ih =>
      rw [map_negate, encode_negate, encode_negate, ih]
      rfl
  | join c ts ih =>
      rw [map_join, encode_join, encode_join, ← Encoding.combine_map, List.map_map, List.map_map]
      exact congrArg (Encoding.combine c) (List.map_congr_left ih)

/-- **The records of an encoded tree depend on its shape alone.** -/
theorem encode_ops_of_shape_eq {t : Expr α} {u : Expr β} (h : t.shape = u.shape) :
    t.encode.ops = u.encode.ops := by
  have hencode := congrArg (fun s => s.encode.ops) h
  simpa only [shape, encode_map, Encoding.map_ops] using hencode

end Expr

end PostfixSpec
