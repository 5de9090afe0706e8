import PostfixSpec.Leaf
import PostfixSpec.Proofs.Expr.Depth
import PostfixSpec.Proofs.Expr.Shape
import PostfixSpec.Proofs.Specification.Construction

/-!
# Equal specifications are the same construction

Two specifications are compared by their records and by their leaves, which are flat lists. Still no
two different constructions collide: the records are a listing, a listing has one tree, and the leaf
indices in it do not matter for the shape of that tree. So equality of specifications is equality of
the trees along which they were constructed, up to equality of leaves.
-/

namespace PostfixSpec

variable {α β : Type}

/-! ### Leaves -/

/-- Leaves are equal if they are the same, or if one is a boolean and the other its number. -/
theorem Leaf.beq_iff_eq_or (a b : Leaf) :
    (a == b) = true ↔ a = b ∨ (∃ x : Bool, a = .bool x ∧ b = .int x.toInt) ∨
      ∃ x : Bool, a = .int x.toInt ∧ b = .bool x := by
  rw [Leaf.beq_iff]
  rcases a with s | (_ | _) | i | _ <;> rcases b with s' | (_ | _) | i' | _ <;>
    simp [Leaf.key, eq_comm]

theorem list_beq_iff_forall₂ [BEq α] {xs ys : List α} :
    (xs == ys) = true ↔ List.Forall₂ (fun x y => (x == y) = true) xs ys := by
  induction xs generalizing ys with
  | nil => cases ys <;> simp
  | cons x xs ih => cases ys <;> simp [ih]

/-! ### Encodings -/

theorem Expr.shape_eq_of_encode_ops {t : Expr α} {u : Expr β} (h : t.encode.ops = u.encode.ops) :
    t.shape = u.shape := by
  obtain ⟨v, hv, ht⟩ := t.lists_encode
  obtain ⟨w, hw, hu⟩ := u.lists_encode
  -- The two trees of places may be over different numbers of leaves: they meet as trees of indices.
  have hplaces := Expr.toOps_injective (hv.trans (h.trans hw.symm))
  calc
    t.shape = v.shape := (congrArg shape ht).symm.trans (shape_map _ v)
    _ = w.shape := by rw [← shape_map _ v, hplaces, shape_map]
    _ = u.shape := (shape_map _ w).symm.trans (congrArg shape hu)

/-- **The encoding is injective up to equality of leaves.** -/
theorem Expr.encode_beq_iff [BEq α] {t u : Expr α} :
    (t.encode == u.encode) = true ↔ Alike (fun a b => (a == b) = true) t u := by
  have hbeq : (t.encode == u.encode) = true
      ↔ t.encode.ops = u.encode.ops ∧ (t.encode.leaves == u.encode.leaves) = true :=
    (Bool.and_eq_true_iff).trans (and_congr_left' beq_iff_eq)
  rw [hbeq, encode_leaves, encode_leaves, list_beq_iff_forall₂]
  constructor
  · rintro ⟨hops, hleaves⟩
    exact ⟨shape_eq_of_encode_ops hops, hleaves⟩
  · rintro ⟨hshape, hleaves⟩
    exact ⟨encode_ops_of_shape_eq hshape, hleaves⟩

namespace Specification

/-- Whether the constructors make a specification along some tree. -/
def Constructed (s : Specification α) : Prop := ∃ t : Expr α, t.compose = .ok s

theorem Constructed.exists_expr {s : Specification α} (h : s.Constructed) :
    ∃ t : Expr α, s = .encoded t.encode := by
  obtain ⟨t, ht⟩ := h
  exact ⟨t, (Expr.compose_eq_ok_iff.mp ht).2⟩

theorem exists_exprs_of_constructed {specs : List (Specification α)}
    (h : ∀ s ∈ specs, s.Constructed) :
    ∃ ts : List (Expr α), specs = ts.map fun t => .encoded t.encode := by
  induction specs with
  | nil => exact ⟨[], rfl⟩
  | cons s specs ih =>
      obtain ⟨hfirst, hrest⟩ := List.forall_mem_cons.mp h
      obtain ⟨t, rfl⟩ := hfirst.exists_expr
      obtain ⟨ts, rfl⟩ := ih hrest
      exact ⟨t :: ts, rfl⟩

/-- **Equal specifications are the same construction.** Two specifications constructed along trees are
equal if and only if the trees have the same shape and pairwise equal leaves. So joined specifications
are equal if and only if the connectives are the same and the operands are as many and pairwise equal,
and negated ones if and only if the operands are equal. A leaf equals another one if both are the same
or one is a boolean and the other its number. -/
theorem beq_iff_same_construction [BEq α] :
    (∀ (t u : Expr α) (s s' : Specification α), t.compose = .ok s → u.compose = .ok s' →
      ((s == s') = true ↔
        t.shape = u.shape ∧ List.Forall₂ (fun a b => (a == b) = true) t.leaves u.leaves)) ∧
    (∀ (c c' : Connective) (xs ys : List (Specification α)), xs ≠ [] → ys ≠ [] →
      (∀ x ∈ xs, x.Constructed) → (∀ y ∈ ys, y.Constructed) →
      ∃ s s', join c xs = .ok s ∧ join c' ys = .ok s' ∧
        ((s == s') = true ↔ c = c' ∧ List.Forall₂ (fun x y => (x == y) = true) xs ys)) ∧
    (∀ x y : Specification α, x.Constructed → y.Constructed →
      ∃ s s', x.negation = .ok s ∧ y.negation = .ok s' ∧ ((s == s') = true ↔ (x == y) = true)) ∧
    ∀ a b : Leaf, (a == b) = true ↔ a = b ∨ (∃ x : Bool, a = .bool x ∧ b = .int x.toInt) ∨
      ∃ x : Bool, a = .int x.toInt ∧ b = .bool x := by
  refine ⟨?_, ?_, ?_, Leaf.beq_iff_eq_or⟩
  · intro t u s s' ht hu
    obtain ⟨-, rfl⟩ := Expr.compose_eq_ok_iff.mp ht
    obtain ⟨-, rfl⟩ := Expr.compose_eq_ok_iff.mp hu
    exact Expr.encode_beq_iff.trans ⟨fun h => ⟨h.shape, h.leaves⟩, fun h => ⟨h.1, h.2⟩⟩
  · intro c c' xs ys hxs_ne hys_ne hxs hys
    obtain ⟨ts, rfl⟩ := exists_exprs_of_constructed hxs
    obtain ⟨us, rfl⟩ := exists_exprs_of_constructed hys
    refine ⟨_, _, join_encode c (mt List.map_eq_nil_iff.mpr hxs_ne),
      join_encode c' (mt List.map_eq_nil_iff.mpr hys_ne), ?_⟩
    rw [List.forall₂_map_left_iff, List.forall₂_map_right_iff]
    refine Expr.encode_beq_iff.trans (Expr.alike_join.trans (and_congr_right' ⟨?_, ?_⟩))
    · exact fun h => h.imp fun _ _ => Expr.encode_beq_iff.mpr
    · exact fun h => h.imp fun _ _ => Expr.encode_beq_iff.mp
  · intro x y hx hy
    obtain ⟨t, rfl⟩ := hx.exists_expr
    obtain ⟨u, rfl⟩ := hy.exists_expr
    have hnegated := Expr.encode_beq_iff (t := t.negate) (u := u.negate)
    rw [Expr.encode_negate, Expr.encode_negate, Expr.alike_negate] at hnegated
    exact ⟨_, _, rfl, rfl, hnegated.trans Expr.encode_beq_iff.symm⟩

/-- Equality takes a boolean for its number and tells a connective from the other one. -/
theorem beq_iff_same_construction_numbers :
    (Expr.join .conjunction [.leaf (Leaf.bool true), .negate (.leaf (.text "q"))]).compose
        = .ok (.encoded ⟨[.leaf 0, .leaf 1, .negate, .join .conjunction 2],
            [.bool true, .text "q"]⟩) ∧
      (Expr.join .conjunction [.leaf (Leaf.int 1), .negate (.leaf (.text "q"))]).compose
        = .ok (.encoded ⟨[.leaf 0, .leaf 1, .negate, .join .conjunction 2],
            [.int 1, .text "q"]⟩) ∧
      (Specification.encoded ⟨[.leaf 0, .leaf 1, .negate, .join .conjunction 2],
          [.bool true, .text "q"]⟩
        == .encoded ⟨[.leaf 0, .leaf 1, .negate, .join .conjunction 2],
          [Leaf.int 1, .text "q"]⟩) = true ∧
      ∃ s s', join .conjunction [leaf (Leaf.text "p")] = .ok s ∧
        join .disjunction [leaf (Leaf.text "p")] = .ok s' ∧ (s == s') = false := by
  have ht : (Expr.join .conjunction [.leaf (Leaf.bool true), .negate (.leaf (.text "q"))]).compose
      = .ok (.encoded ⟨[.leaf 0, .leaf 1, .negate, .join .conjunction 2],
          [.bool true, .text "q"]⟩) := by rfl
  have hu : (Expr.join .conjunction [.leaf (Leaf.int 1), .negate (.leaf (.text "q"))]).compose
      = .ok (.encoded ⟨[.leaf 0, .leaf 1, .negate, .join .conjunction 2],
          [.int 1, .text "q"]⟩) := by rfl
  have hp : ∀ s ∈ [leaf (Leaf.text "p")], s.Constructed :=
    List.forall_mem_singleton.mpr ⟨.leaf (.text "p"), rfl⟩
  refine ⟨ht, hu, (beq_iff_same_construction.1 _ _ _ _ ht hu).mpr ⟨by simp, ?_⟩, ?_⟩
  · have hequal : (Leaf.bool true == Leaf.int 1) = true ∧ (Leaf.text "q" == Leaf.text "q") = true := by
      decide
    simpa using hequal
  · obtain ⟨s, s', hs, hs', hiff⟩ := beq_iff_same_construction.2.1 .conjunction .disjunction
      [leaf (Leaf.text "p")] [leaf (Leaf.text "p")] (List.cons_ne_nil _ _) (List.cons_ne_nil _ _) hp hp
    exact ⟨s, s', hs, hs', Bool.eq_false_iff.mpr fun h => nomatch (hiff.mp h).1⟩

end Specification

end PostfixSpec
