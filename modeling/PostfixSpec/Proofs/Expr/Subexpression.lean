import Mathlib.Data.List.Infix
import PostfixSpec.Proofs.Expr.Depth

/-!
# The subexpression that a record ends

In a stream of records an operator stands behind its operands. So each record that finds its operands
ends a subexpression: the records up to it that leave one value and take none from before. There is
always just one such piece of the stream, wherever the stream itself stands.
-/

namespace PostfixSpec.Op

/-- The records at the end of a stream that leave one value and take none from before. -/
def subexpression (ops : List Op) : List Op :=
  (ops.tails.find? fun part => replay 0 part = some 1).getD []

/-! ### There is only one -/

/-- More values below change nothing but the depth. -/
theorem replay_add {depth final below : Int} {ops : List Op} (hbelow : 0 ≤ below)
    (h : replay depth ops = some final) : replay (depth + below) ops = some (final + below) := by
  induction ops generalizing depth with
  | nil => exact congrArg (some <| · + below) (Option.some.inj h)
  | cons op rest ih =>
      rw [replay] at h ⊢
      split at h
      case isFalse => exact absurd h (Option.some_ne_none final).symm
      case isTrue henough =>
        have hshift : depth + below - op.consumed + 1 = depth - op.consumed + 1 + below := by omega
        rw [if_pos (by omega), hshift]
        exact ih h

/-- A replay of at least one record leaves a value. -/
theorem pos_of_replay {depth final : Int} {ops : List Op} (hne : ops ≠ [])
    (h : replay depth ops = some final) : 1 ≤ final := by
  obtain ⟨hpos, hlast⟩ := replay_eq_some_iff.mp h
  obtain ⟨op, rest, rfl⟩ := List.exists_cons_of_ne_nil hne
  rw [depths_cons, List.getLastD_cons] at hlast
  rw [depths_cons] at hpos
  exact hpos final (hlast ▸ List.getLastD_mem_cons)

/-- Two pieces at the end of a stream that leave one value each are the same. -/
theorem eq_of_suffix {ops part other : List Op} (hpart : part <:+ ops) (hother : other <:+ ops)
    (hone : replay 0 part = some 1) (hone' : replay 0 other = some 1) : part = other := by
  wlog hshorter : part <:+ other generalizing part other
  · have hlonger := (List.suffix_or_suffix_of_suffix hpart hother).resolve_left hshorter
    exact (this hother hpart hone' hone hlonger).symm
  -- The records between the beginnings of the two leave no value, so there are none.
  obtain ⟨before, rfl⟩ := hshorter
  rw [replay_append] at hone'
  obtain ⟨depth, hbefore, hrest⟩ := Option.bind_eq_some_iff.mp hone'
  by_contra hne
  have hpos : 1 ≤ depth := by
    refine pos_of_replay ?_ hbefore
    rintro rfl
    exact hne rfl
  have hmore := replay_add (by omega : 0 ≤ depth) hone
  rw [Int.zero_add, hrest] at hmore
  have hsame := Option.some.inj hmore
  omega

theorem subexpression_eq {ops part : List Op} (hpart : part <:+ ops) (hone : replay 0 part = some 1) :
    subexpression ops = part := by
  have hsome : (ops.tails.find? fun part => replay 0 part = some 1).isSome :=
    List.find?_isSome.mpr ⟨part, (List.mem_tails part ops).mpr hpart, decide_eq_true hone⟩
  obtain ⟨found, hfound⟩ := Option.isSome_iff_exists.mp hsome
  rw [subexpression, hfound, Option.getD_some]
  have hfoundOne : replay 0 found = some 1 := by simpa using List.find?_some hfound
  exact eq_of_suffix ((List.mem_tails found ops).mp (List.mem_of_find?_eq_some hfound)) hpart
    hfoundOne hone

/-! ### There is one -/

theorem exists_subexpression {ops : List Op} (hne : ops ≠ []) (hcounts : ∀ op ∈ ops, op.HasOperands)
    {depth : Int} (h : replay 0 ops = some depth) :
    ∃ part, part <:+ ops ∧ replay 0 part = some 1 := by
  -- Joining all that is left gives the listing of a tree, and the last of its operands is the piece.
  have hdepth := pos_of_replay hne h
  have hclosed : replay 0 (ops ++ [.join .conjunction depth]) = some 1 := by
    rw [replay_append, h, Option.bind_some]
    simp [replay, consumed]
  have hoperands : ∀ op ∈ ops ++ [.join .conjunction depth], op.HasOperands :=
    List.forall_mem_append.mpr ⟨hcounts, List.forall_mem_singleton.mpr hdepth⟩
  obtain ⟨t, -, hlisting⟩ := Expr.exists_listing_of_replay (fun i _ => ⟨i, rfl⟩) hoperands hclosed
  rw [Expr.listing_eq] at hlisting
  obtain ⟨hlists, -⟩ := List.append_inj' hlisting rfl
  rcases List.eq_nil_or_concat t.operands with hnone | ⟨before, last, hlast⟩
  · exact absurd (by rw [← hlists, hnone, List.flatMap_nil]) hne
  · refine ⟨last.listing id, ?_, Expr.replay_listing id last (Int.le_refl 0)⟩
    rw [← hlists, hlast, List.concat_eq_append, List.flatMap_append, List.flatMap_singleton]
    exact List.suffix_append _ _

/-- **Each record ends just one subexpression.** Where a stream with positive counts does not run short,
exactly one piece at its end leaves one value and takes none from before. -/
theorem subexpression_eq_iff {ops part : List Op} (hne : ops ≠ [])
    (hcounts : ∀ op ∈ ops, op.HasOperands) {depth : Int} (h : replay 0 ops = some depth) :
    subexpression ops = part ↔ part <:+ ops ∧ replay 0 part = some 1 := by
  constructor
  · rintro rfl
    obtain ⟨part, hpart, hone⟩ := exists_subexpression hne hcounts h
    rw [subexpression_eq hpart hone]
    exact ⟨hpart, hone⟩
  · rintro ⟨hpart, hone⟩
    exact subexpression_eq hpart hone

/-! ### Where it stands -/

/-- What stands before a stream does not matter. -/
theorem subexpression_append (before : List Op) {ops : List Op} (hne : ops ≠ [])
    (hcounts : ∀ op ∈ ops, op.HasOperands) {depth : Int} (h : replay 0 ops = some depth) :
    subexpression (before ++ ops) = subexpression ops := by
  obtain ⟨hpart, hone⟩ := (subexpression_eq_iff hne hcounts h).mp rfl
  exact subexpression_eq (hpart.trans (List.suffix_append before ops)) hone

theorem replay_map_rebased (offset depth : Int) (ops : List Op) :
    replay depth (ops.map (·.rebased offset)) = replay depth ops := by
  induction ops generalizing depth with
  | nil => rfl
  | cons op rest ih => simp [replay, ih]

/-- Moving leaf references moves those of the subexpression. -/
theorem subexpression_map_rebased (offset : Int) (ops : List Op) :
    subexpression (ops.map (·.rebased offset)) = (subexpression ops).map (·.rebased offset) := by
  rw [subexpression, subexpression, List.map_tails, List.find?_map]
  simp only [Function.comp_def, replay_map_rebased]
  exact Option.getD_map (List.map (rebased offset)) [] _

end PostfixSpec.Op
