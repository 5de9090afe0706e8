import PostfixSpec.Proofs.Expr.Listing

/-!
# The running depth decides

Whether a stream of records lists a tree can be told from numbers alone: from the depth of the stack
after each record. A record finds its operands exactly if it leaves at least one value, so following
the depth without any check, and asking afterwards whether it was positive throughout, finds the same
streams as a replay that stops at the first record that runs short.
-/

namespace PostfixSpec

namespace Op

theorem depths_cons (depth : Int) (op : Op) (rest : List Op) :
    depths depth (op :: rest)
      = (depth - op.effect.1 + op.effect.2) :: depths (depth - op.effect.1 + op.effect.2) rest := rfl

/-- A record finds its operands if and only if it leaves at least one value. -/
theorem consumed_le_iff (depth : Int) (op : Op) :
    op.consumed ≤ depth ↔ 1 ≤ depth - op.effect.1 + op.effect.2 := by
  simp only [effect]
  omega

/-- **The checked replay reads off the running depth.** It ends at the last depth, provided that every
depth on the way is positive. -/
theorem replay_eq_some_iff {start final : Int} {ops : List Op} :
    replay start ops = some final
      ↔ (∀ depth ∈ depths start ops, 1 ≤ depth) ∧ (depths start ops).getLastD start = final := by
  induction ops generalizing start with
  | nil => simp [replay, depths]
  | cons op rest ih =>
      rw [depths_cons, List.forall_mem_cons, List.getLastD_cons, ← consumed_le_iff, and_assoc, ← ih,
        replay]
      by_cases henough : op.consumed ≤ start
      · simp [henough, effect]
      · simp [henough]

end Op

namespace Expr

theorem listing_id (t : Expr Int) : t.listing id = t.toOps := by
  rw [listing, map_id]

theorem toOps_injective : Function.Injective toOps := by
  intro t u h
  rw [← listing_id, ← listing_id] at h
  exact listing_injective Function.injective_id h

/-- **The running depth decides whether a stream lists a tree.** Let every count be positive. Then
the depth is positive after every record and one at the end if and only if the stream lists a tree, and
a stream never lists two trees. -/
theorem depths_iff_listing {ops : List Op} (h : ∀ op ∈ ops, op.HasOperands) :
    (((∀ depth ∈ Op.depths 0 ops, 1 ≤ depth) ∧ (Op.depths 0 ops).getLastD 0 = 1)
      ↔ ∃ t : Expr Int, t.toOps = ops) ∧
    ∀ t u : Expr Int, t.toOps = ops → u.toOps = ops → t = u := by
  rw [← Op.replay_eq_some_iff]
  refine ⟨⟨?_, ?_⟩, ?_⟩
  · intro hreplay
    obtain ⟨t, -, hlisting⟩ := exists_listing_of_replay (fun i _ => ⟨i, rfl⟩) h hreplay
    exact ⟨t, (listing_id t).symm.trans hlisting⟩
  · rintro ⟨t, rfl⟩
    rw [← listing_id]
    exact replay_listing id t (Int.le_refl 0)
  · intro t u ht hu
    exact toOps_injective (ht.trans hu.symm)

/-- A stream may close its operands in any grouping; two leaves without an operator are no tree. -/
theorem depths_iff_listing_nested :
    (∀ op ∈ [.leaf 4, .leaf (-1), .negate, .leaf 4, .join .disjunction 2, .join .conjunction 2],
        Op.HasOperands op) ∧
      (∃ t : Expr Int, t.toOps
        = [.leaf 4, .leaf (-1), .negate, .leaf 4, .join .disjunction 2, .join .conjunction 2]) ∧
      (∀ op ∈ [.leaf 0, .leaf 1], Op.HasOperands op) ∧
      ¬ ∃ t : Expr Int, t.toOps = [.leaf 0, .leaf 1] := by
  have hnested : ∀ op ∈ [.leaf 4, .leaf (-1), .negate, .leaf 4, .join .disjunction 2,
      .join .conjunction 2], Op.HasOperands op := by decide
  have hpair : ∀ op ∈ [.leaf 0, .leaf 1], Op.HasOperands op := by decide
  refine ⟨hnested, (depths_iff_listing hnested).1.mp (by decide), hpair, fun hlists => ?_⟩
  exact absurd ((depths_iff_listing hpair).1.mpr hlists) (by decide)

end Expr

end PostfixSpec
