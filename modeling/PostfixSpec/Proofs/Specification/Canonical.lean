import Mathlib.Data.List.FinRange
import PostfixSpec.Proofs.Expr.Shape
import PostfixSpec.Proofs.Specification.Construction

/-!
# Canonical encodings are the encodings of trees

An encoding is canonical if its records can be read and name its leaves from the first to the last.
Every composition of canonical encodings is canonical again, because the records of a part are moved
exactly past the leaves before it. The other way round, a canonical encoding lists a tree whose places
are numbered from left to right, and this is how the encoding of a tree numbers them; so it is the
encoding of the tree that it lists.
-/

namespace PostfixSpec

variable {α β : Type}

/-! ### The leaf records of a stream -/

namespace Op

theorem references_cons (op : Op) (rest : List Op) :
    references (op :: rest) = references [op] ++ references rest := references_append [op] rest

theorem references_rebased (offset : Int) (ops : List Op) :
    references (ops.map (.rebased offset)) = (references ops).map (· + offset) := by
  induction ops with
  | nil => rfl
  | cons op rest ih =>
      rw [List.map_cons, references_cons, references_cons op rest, List.map_append, ih]
      cases op <;> rfl

theorem references_flatMap {ι : Type} (f : ι → List Op) (xs : List ι) :
    references (xs.flatMap f) = xs.flatMap fun x => references (f x) := List.filterMap_flatMap

end Op

/-- The listing of a tree refers to its leaves from left to right. -/
theorem Expr.references_listing {ι : Type} (index : ι → Int) (t : Expr ι) :
    Op.references (t.listing index) = t.leaves.map index := by
  induction t with
  | leaf i => rw [listing_leaf, leaves_leaf]; rfl
  | negate t ih =>
      rw [listing_negate, Op.references_append, ih, leaves_negate]
      exact List.append_nil _
  | join c ts ih =>
      rw [listing_join, Op.references_append, Op.references_flatMap, List.flatMap_congr ih,
        leaves_join, List.map_flatMap]
      exact List.append_nil _

namespace Encoding

/-! ### Compositions are well formed -/

theorem wellFormed_leaf (value : α) : (leaf value).WellFormed :=
  (lists_leaf value).wellFormed (Expr.proper_leaf value)

theorem WellFormed.negate {e : Encoding α} (h : e.WellFormed) : e.negate.WellFormed := by
  obtain ⟨t, ht, hlists⟩ := h.exists_lists
  exact hlists.negate.wellFormed (Expr.proper_negate.mpr ht)

theorem wellFormed_combine (c : Connective) {parts : List (Encoding α)} (hne : parts ≠ [])
    (h : ∀ e ∈ parts, e.WellFormed) : (combine c parts).WellFormed := by
  obtain ⟨ts, hlists, hproper⟩ := exists_lists_of_wellFormed h
  have hts : ts ≠ [] := by
    rintro rfl
    exact hne (List.forall₂_nil_right_iff.mp hlists)
  exact (lists_combine c hlists).wellFormed (Expr.proper_join.mpr ⟨hts, hproper⟩)

/-! ### Compositions are canonical -/

/-- Whether an encoding names its leaves in order, in records that can be read. -/
def Canonical (e : Encoding α) : Prop := Op.Canonical e.leaves.length e.ops

theorem canonical_iff {e : Encoding α} :
    e.Canonical ↔ Op.references e.ops = (List.range e.leaves.length).map Int.ofNat ∧ e.WellFormed :=
  ⟨fun h => ⟨h.1, h.wellFormed⟩, fun h => ⟨h.1, h.2.2⟩⟩

theorem canonical_leaf (value : α) : (leaf value).Canonical :=
  canonical_iff.mpr ⟨rfl, wellFormed_leaf value⟩

theorem Canonical.negate {e : Encoding α} (h : e.Canonical) : e.negate.Canonical := by
  obtain ⟨hreferences, hwell⟩ := canonical_iff.mp h
  refine canonical_iff.mpr ⟨?_, hwell.negate⟩
  rw [Encoding.negate, Op.references_append, hreferences]
  exact List.append_nil _

/-- Behind `offset` leaves the moved records name the leaves of their parts from `offset` on. -/
theorem references_movedOps {parts : List (Encoding α)} (h : ∀ e ∈ parts, e.Canonical)
    (offset : Nat) :
    Op.references (movedOps offset parts)
      = (List.range' offset (parts.flatMap (·.leaves)).length).map Int.ofNat := by
  induction parts generalizing offset with
  | nil => rfl
  | cons e parts ih =>
      obtain ⟨hfirst, hrest⟩ := List.forall_mem_cons.mp h
      have hmoved : (List.range e.leaves.length).map (Int.ofNat · + (offset : Int))
          = (List.range' offset e.leaves.length).map Int.ofNat := by
        rw [List.range'_eq_map_range, List.map_map]
        exact List.map_congr_left fun i _ => (Int.add_comm _ _).trans (Int.natCast_add _ _).symm
      rw [movedOps, Op.references_append, Op.references_rebased, (canonical_iff.mp hfirst).1,
        ih hrest, List.map_map, List.flatMap_cons, List.length_append, ← List.range'_append_1,
        List.map_append, ← hmoved]
      rfl

theorem canonical_combine (c : Connective) {parts : List (Encoding α)} (hne : parts ≠ [])
    (h : ∀ e ∈ parts, e.Canonical) : (combine c parts).Canonical := by
  have hwell := wellFormed_combine c hne fun e he => (canonical_iff.mp (h e he)).2
  refine canonical_iff.mpr ⟨?_, hwell⟩
  rw [combine_ops, combine_leaves, Op.references_append, references_movedOps h,
    List.range_eq_range']
  exact List.append_nil _

theorem canonical_map {f : α → β} {e : Encoding α} : (e.map f).Canonical ↔ e.Canonical := by
  rw [Canonical, Canonical, map_ops, map_leaves, List.length_map]

end Encoding

namespace Expr

theorem canonical_encode {t : Expr α} (h : t.Proper) : t.encode.Canonical := by
  induction t with
  | leaf value => rw [encode_leaf]; exact Encoding.canonical_leaf value
  | negate t ih => rw [encode_negate]; exact (ih (proper_negate.mp h)).negate
  | join c ts ih =>
      obtain ⟨hne, hts⟩ := proper_join.mp h
      rw [encode_join]
      refine Encoding.canonical_combine c (mt List.map_eq_nil_iff.mp hne) ?_
      rw [List.forall_mem_map]
      exact fun t ht => ih t ht (hts t ht)

/-! ### Every canonical encoding encodes a tree -/

/-- A tree whose places are numbered from left to right is encoded by its listing. -/
theorem encode_ops_of_leaves_eq_finRange {n : Nat} {t : Expr (Fin n)}
    (h : t.leaves = List.finRange n) : t.encode.ops = t.listing fun i => i.val := by
  obtain ⟨u, hlisting, hmap⟩ := t.lists_encode
  -- The encoding looks its leaves up in the leaves of `t`, and there every place stands at its number.
  have hget (i : Fin t.encode.leaves.length) : (t.encode.leaves.get i).val = i.val := by
    simp [encode_leaves, h]
  have hplaces : (fun i : Fin n => (i.val : Int)) ∘ t.encode.leaves.get = fun i => (i.val : Int) :=
    funext fun i => congrArg Int.ofNat (hget i)
  rw [← hlisting, listing, listing, ← hplaces, ← map_map, hmap]

end Expr

/-- **A canonical encoding encodes a tree.** -/
theorem Encoding.Canonical.exists_encode {e : Encoding α} (h : e.Canonical) :
    ∃ t : Expr α, t.Proper ∧ t.encode = e := by
  obtain ⟨hreferences, hwell⟩ := Encoding.canonical_iff.mp h
  obtain ⟨u, hproper, hlisting⟩ := Expr.exists_listing_of_wellFormed hwell
  have hindex : Function.Injective fun i : Fin e.leaves.length => (i.val : Int) :=
    fun i j hij => Fin.ext (Int.ofNat.inj hij)
  have hleaves : u.leaves = List.finRange e.leaves.length := by
    apply List.map_injective_iff.mpr hindex
    rw [← Expr.references_listing, hlisting, hreferences, ← List.map_coe_finRange_eq_range,
      List.map_map]
    rfl
  refine ⟨u.map e.leaves.get, Expr.proper_map.mpr hproper, ?_⟩
  rw [Expr.encode_map]
  apply Encoding.ext
  · exact (Expr.encode_ops_of_leaves_eq_finRange hleaves).trans hlisting
  · rw [Encoding.map_leaves, Expr.encode_leaves, hleaves, List.map_get_finRange]

end PostfixSpec
