import Mathlib.Algebra.GroupWithZero.Nat
import Mathlib.Data.List.Nodup
import PostfixSpec.Proofs.Specification.Composition

/-!
# Compositions concatenate

The records of a composition are written into one buffer and its leaves into another, both sized before
the first write. The writes fill each buffer slot by slot, so nothing is written outside of it, twice,
or not at all, and what the buffers hold is the plain concatenation of the operands: the records of
each one moved past the leaves before it. None of this asks whether an operand makes sense.

Seen from one operand, its records stand somewhere inside those of the composition and point a number
of places further. A composition that stands inside another one is moved again, and the numbers add up.
-/

namespace PostfixSpec

variable {α : Type}

/-! ### Buffers -/

namespace Buffer

/-- Whether writes lay out some values in a buffer: no write misses the buffer, no slot is written twice
or never, and in the end each slot holds its value. -/
structure Fills (size : Nat) (writes : List (Nat × α)) (values : List α) : Prop where
  inRange : ∀ write ∈ writes, write.1 < size
  once : ∀ slot < size, (writes.map Prod.fst).count slot = 1
  contents : (fill size writes).toList = values.map some

theorem toList_of_freeze {slots : Array (Option α)} {values : List α}
    (h : freeze slots = some values) : slots.toList = values.map some := by
  rw [freeze, mapM_eq_some_iff, List.map_id] at h
  exact h

theorem fills_of_positions {size : Nat} {writes : List (Nat × α)}
    (h : writes.map Prod.fst = List.range size) : Fills size writes (writes.map Prod.snd) where
  inRange write hwrite := by
    have hslot : write.1 ∈ List.range size := h ▸ List.mem_map_of_mem hwrite
    exact List.mem_range.mp hslot
  once slot hslot := by
    rw [h]
    exact List.count_eq_one_of_mem List.nodup_range (List.mem_range.mpr hslot)
  contents := toList_of_freeze (freeze_fill h)

end Buffer

namespace Encoding

/-! ### Concatenation -/

/-- How many leaves stand before an operand. -/
def leavesBefore (parts : List (Encoding α)) (place : Nat) : Nat :=
  ((parts.take place).map fun part => part.leaves.length).sum

theorem movedOps_eq_flatten (offset : Nat) (parts : List (Encoding α)) :
    movedOps offset parts
      = (parts.mapIdx fun place part =>
          part.ops.map (.rebased ((offset + leavesBefore parts place : Nat) : Int))).flatten := by
  induction parts generalizing offset with
  | nil => rfl
  | cons part parts ih =>
      rw [movedOps, ih, List.mapIdx_cons, List.flatten_cons]
      simp [leavesBefore, Nat.add_assoc]

/-- **A composition is the concatenation of its parts,** the records of each moved past the leaves
before it, and the closing record. -/
theorem combine_ops_eq_flatten (c : Connective) (parts : List (Encoding α)) :
    (combine c parts).ops
      = (parts.mapIdx fun place part =>
          part.ops.map (.rebased (leavesBefore parts place))).flatten ++ [.join c parts.length] := by
  rw [combine_ops, movedOps_eq_flatten]
  simp

/-- The buffer of the records is filled with the records of the composition. -/
theorem fills_opWrites (c : Connective) (parts : List (Encoding α)) :
    Buffer.Fills (opCount parts) (opWrites (.join c parts.length) 0 0 parts) (combine c parts).ops := by
  have hfills := Buffer.fills_of_positions (opWrites_positions (.join c parts.length) parts)
  rwa [opWrites_values, ← combine_ops] at hfills

theorem fills_leafWrites (c : Connective) (parts : List (Encoding α)) :
    Buffer.Fills (leafCount parts) (leafWrites 0 parts) (combine c parts).leaves := by
  have hfills := Buffer.fills_of_positions (leafWrites_positions parts)
  rwa [leafWrites_values, ← combine_leaves c] at hfills

theorem opCount_eq (parts : List (Encoding α)) :
    opCount parts = (parts.map fun part => part.ops.length).sum + 1 := by
  induction parts with
  | nil => rfl
  | cons part parts ih => rw [opCount, ih, List.map_cons, List.sum_cons, Nat.add_assoc]

theorem leafCount_eq (parts : List (Encoding α)) :
    leafCount parts = (parts.map fun part => part.leaves.length).sum := by
  induction parts with
  | nil => rfl
  | cons part parts ih => rw [leafCount, ih, List.map_cons, List.sum_cons]

/-! ### One encoding inside another -/

/-- Whether the records of `part` stand in those of `whole` from place `start` on, pointing `offset`
places further, where its leaves stand. -/
structure Inside (part : Encoding α) (start offset : Nat) (whole : Encoding α) : Prop where
  ops : ∃ before after, whole.ops = before ++ part.ops.map (.rebased offset) ++ after ∧
    before.length = start
  leaves : ∃ before after, whole.leaves = before ++ part.leaves ++ after ∧ before.length = offset

theorem Inside.refl (e : Encoding α) : e.Inside 0 0 e where
  ops := by
    have hsame : e.ops.map (.rebased ((0 : Nat) : Int)) = e.ops :=
      (List.map_congr_left fun op _ => op.rebased_zero).trans (List.map_id' e.ops)
    exact ⟨[], [], by rw [hsame, List.nil_append, List.append_nil], rfl⟩
  leaves := ⟨[], [], by simp, rfl⟩

/-- **Places and offsets add up.** -/
theorem Inside.trans {part between whole : Encoding α} {start offset start' offset' : Nat}
    (h : part.Inside start offset between) (h' : between.Inside start' offset' whole) :
    part.Inside (start' + start) (offset' + offset) whole where
  ops := by
    obtain ⟨before, after, hbetween, rfl⟩ := h.ops
    obtain ⟨before', after', hwhole, rfl⟩ := h'.ops
    refine ⟨before' ++ before.map (Op.rebased offset'), after.map (Op.rebased offset') ++ after', ?_,
      by simp⟩
    have htwice : (part.ops.map (Op.rebased offset)).map (Op.rebased offset')
        = part.ops.map (.rebased ((offset' + offset : Nat) : Int)) := by
      rw [List.map_map]
      refine List.map_congr_left fun op _ => ?_
      rw [Function.comp_apply, Op.rebased_rebased, Int.natCast_add, Int.add_comm]
    rw [hwhole, hbetween, List.map_append, List.map_append, htwice]
    simp only [List.append_assoc]
  leaves := by
    obtain ⟨before, after, hbetween, rfl⟩ := h.leaves
    obtain ⟨before', after', hwhole, rfl⟩ := h'.leaves
    refine ⟨before' ++ before, after ++ after', ?_, List.length_append⟩
    rw [hwhole, hbetween]
    simp only [List.append_assoc]

theorem movedOps_append (offset : Nat) (parts more : List (Encoding α)) :
    movedOps offset (parts ++ more)
      = movedOps offset parts
        ++ movedOps (offset + (parts.map fun part => part.leaves.length).sum) more := by
  induction parts generalizing offset with
  | nil => rfl
  | cons part parts ih =>
      rw [List.cons_append, movedOps, movedOps, ih, List.map_cons, List.sum_cons, List.append_assoc,
        Nat.add_assoc]

theorem length_movedOps (offset : Nat) (parts : List (Encoding α)) :
    (movedOps offset parts).length = (parts.map fun part => part.ops.length).sum := by
  induction parts generalizing offset with
  | nil => rfl
  | cons part parts ih =>
      rw [movedOps, List.length_append, List.length_map, ih, List.map_cons, List.sum_cons]

/-- An operand stands inside a composition, behind the operands before it. -/
theorem inside_combine (c : Connective) (before : List (Encoding α)) (part : Encoding α)
    (after : List (Encoding α)) :
    part.Inside (before.map fun e => e.ops.length).sum (before.map fun e => e.leaves.length).sum
      (combine c (before ++ part :: after)) where
  ops := by
    let offset := (before.map fun e => e.leaves.length).sum
    refine ⟨movedOps 0 before, movedOps (offset + part.leaves.length) after
      ++ [.join c (before ++ part :: after).length], ?_, length_movedOps 0 before⟩
    rw [combine_ops, movedOps_append, movedOps, Nat.zero_add]
    simp only [List.append_assoc, offset]
  leaves := by
    refine ⟨before.flatMap (·.leaves), after.flatMap (·.leaves), ?_, List.length_flatMap⟩
    rw [combine_leaves, List.flatMap_append, List.flatMap_cons, List.append_assoc]

end Encoding

namespace Specification

/-! ### Compositions of compositions -/

/-- One level of a nested composition, around an operand that is left open. -/
structure Level (α : Type) where
  connective : Connective
  before : List (Encoding α)
  after : List (Encoding α)

/-- The composition of a level around an operand. -/
def Level.enclose (l : Level α) (operand : Specification α) :
    Except CompositionError (Specification α) :=
  join l.connective (l.before.map encoded ++ operand :: l.after.map encoded)

/-- How many records a level puts before its operand. -/
def Level.start (l : Level α) : Nat := (l.before.map fun e => e.ops.length).sum

/-- How many leaves a level puts before its operand. -/
def Level.offset (l : Level α) : Nat := (l.before.map fun e => e.leaves.length).sum

theorem Level.enclose_encoded (l : Level α) (part : Encoding α) :
    l.enclose (encoded part) = .ok (encoded (.combine l.connective (l.before ++ part :: l.after))) := by
  have hparts : l.before.map encoded ++ encoded part :: l.after.map encoded
      = (l.before ++ part :: l.after).map encoded := by simp
  rw [enclose, hparts]
  exact join_encoded l.connective (by simp)

/-- Through any number of levels, the innermost first, an operand ends up inside the composition at the
sum of what the levels put before it. -/
theorem exists_inside_of_levels (levels : List (Level α)) (part : Encoding α) :
    ∃ whole, levels.foldlM (fun operand l => l.enclose operand) (encoded part) = .ok (encoded whole) ∧
      part.Inside (levels.map Level.start).sum (levels.map Level.offset).sum whole := by
  induction levels generalizing part with
  | nil => exact ⟨part, rfl, .refl part⟩
  | cons l levels ih =>
      obtain ⟨whole, hwhole, hinside⟩ := ih (.combine l.connective (l.before ++ part :: l.after))
      refine ⟨whole, ?_, ?_⟩
      · rw [List.foldlM_cons, Level.enclose_encoded]
        exact hwhole
      · rw [List.map_cons, List.map_cons, List.sum_cons, List.sum_cons, Nat.add_comm l.start,
          Nat.add_comm l.offset]
        exact (Encoding.inside_combine l.connective l.before part l.after).trans hinside

/-- **Composition is concatenation.** Joining at least one operand that is not zero, well formed or not,
gives the leaves of the operands one after the other, and their records one after the other, each
moved past the leaves before its operand, with the closing record behind them. Both are written into
buffers of the size that the lengths of the operands add up to, each slot exactly once. An operand that
has gone through several compositions points further by what all of them put before it. -/
theorem join_concatenates :
    (∀ (c : Connective) (parts : List (Encoding α)), parts ≠ [] →
      ∃ whole, join c (parts.map encoded) = .ok (encoded whole) ∧
        whole.leaves = (parts.map fun part => part.leaves).flatten ∧
        whole.ops = (parts.mapIdx fun place part =>
            part.ops.map (.rebased (Encoding.leavesBefore parts place))).flatten
          ++ [.join c parts.length] ∧
        Buffer.Fills ((parts.map fun part => part.ops.length).sum + 1)
          (Encoding.opWrites (.join c parts.length) 0 0 parts) whole.ops ∧
        Buffer.Fills (parts.map fun part => part.leaves.length).sum
          (Encoding.leafWrites 0 parts) whole.leaves) ∧
    ∀ (levels : List (Level α)) (part : Encoding α),
      ∃ whole, levels.foldlM (fun operand l => l.enclose operand) (encoded part)
          = .ok (encoded whole) ∧
        part.Inside (levels.map Level.start).sum (levels.map Level.offset).sum whole := by
  refine ⟨fun c parts hne => ?_, exists_inside_of_levels⟩
  refine ⟨.combine c parts, join_encoded c hne, ?_, Encoding.combine_ops_eq_flatten c parts, ?_, ?_⟩
  · rw [Encoding.combine_leaves, List.flatMap_def]
  · rw [← Encoding.opCount_eq]
    exact Encoding.fills_opWrites c parts
  · rw [← Encoding.leafCount_eq]
    exact Encoding.fills_leafWrites c parts

/-- Operands may point at leaves that they do not have, count more values than there are, or hold
nothing at all. The last operand goes through two levels, behind one leaf and then behind two. -/
theorem join_concatenates_malformed :
    join .conjunction [encoded ⟨[.leaf (-1), .negate, .join .disjunction 7], ["p"]⟩, encoded ⟨[], []⟩,
        encoded ⟨[.leaf 5, .leaf 0], ["q", "r"]⟩]
      = .ok (encoded ⟨[.leaf (-1), .negate, .join .disjunction 7, .leaf 6, .leaf 1,
          .join .conjunction 3], ["p", "q", "r"]⟩) ∧
    ∃ whole, (do
        let inner ← join .disjunction [leaf "p", encoded ⟨[.leaf 4, .negate], ["q"]⟩]
        join .conjunction [encoded ⟨[], ["r", "s"]⟩, inner, leaf "t"]) = .ok (encoded whole) ∧
      Encoding.Inside ⟨[.leaf 4, .negate], ["q"]⟩ 1 3 whole := by
  constructor
  · obtain ⟨whole, hwhole, hleaves, hops, -, -⟩ := join_concatenates.1 .conjunction
      [⟨[.leaf (-1), .negate, .join .disjunction 7], ["p"]⟩, ⟨[], []⟩,
        ⟨[.leaf 5, .leaf 0], ["q", "r"]⟩] (List.cons_ne_nil _ _)
    obtain ⟨ops, leaves⟩ := whole
    cases hleaves
    cases hops
    exact hwhole
  · obtain ⟨whole, hwhole, hinside⟩ := join_concatenates.2
      [⟨.disjunction, [.leaf "p"], []⟩, ⟨.conjunction, [⟨[], ["r", "s"]⟩], [.leaf "t"]⟩]
      ⟨[.leaf 4, .negate], ["q"]⟩
    exact ⟨whole, hwhole, hinside⟩

end Specification

end PostfixSpec
