import PostfixSpec.Buffer
import PostfixSpec.Op

/-!
# Encodings

An encoding is a stream of operation records together with the leaves its records point at.
Combining encodings lays their records and leaves out one after the other, moves every leaf
reference up by the leaves before it, and closes the stream with one joining record.

The combination is written into buffers sized from the parts. `combine_ops` and `combine_leaves`
say that this is plain concatenation of the moved streams.
-/

namespace PostfixSpec

/-- A stream of records and the leaves they point at. Nothing ties the two together: encodings can
be written by hand. -/
structure Encoding (α : Type) where
  ops : List Op
  leaves : List α
  deriving DecidableEq

namespace Encoding

variable {α : Type}

/-- Encodings are equal when their records are the same and their leaves are pairwise equal. -/
instance instBEq [BEq α] : BEq (Encoding α) := ⟨fun s t => s.ops == t.ops && s.leaves == t.leaves⟩

def leaf (value : α) : Encoding α := ⟨[.leaf 0], [value]⟩

/-- The encoding that negates another one, over the same leaves. -/
def negate (e : Encoding α) : Encoding α := ⟨e.ops ++ [.negate], e.leaves⟩

/-- The numbers of leaves and of records, as messages give them. -/
def sizes (e : Encoding α) : String := s!"{e.leaves.length} leafs, {e.ops.length} ops"

/-- The text that stands for an encoding in messages. -/
def describe (e : Encoding α) : String :=
  s!"Specification(leafs={e.leaves.length}, ops={e.ops.length})"

/-- The records in one line, one word each. -/
def signs (e : Encoding α) : String := " ".intercalate (e.ops.map Op.sign)

/-- The number of records of a combination: those of its parts and the closing one. -/
def opCount : List (Encoding α) → Nat
  | [] => 1
  | part :: rest => part.ops.length + opCount rest

def leafCount : List (Encoding α) → Nat
  | [] => 0
  | part :: rest => part.leaves.length + leafCount rest

/-- The writes that lay out the records of `parts` from slot `start` on, each part moved past the
`offset` leaves before it, with `last` in the slot after them. -/
def opWrites (last : Op) : Nat → Nat → List (Encoding α) → List (Nat × Op)
  | start, _, [] => [(start, last)]
  | start, offset, part :: rest =>
    Buffer.place start (part.ops.map (·.rebased offset)) ++
      opWrites last (start + part.ops.length) (offset + part.leaves.length) rest

/-- The writes that lay out the leaves of `parts` from slot `start` on. -/
def leafWrites : Nat → List (Encoding α) → List (Nat × α)
  | _, [] => []
  | start, part :: rest =>
    Buffer.place start part.leaves ++ leafWrites (start + part.leaves.length) rest

/-- The records of `parts` one after the other, each part moved past the leaves before it. -/
def movedOps : Nat → List (Encoding α) → List Op
  | _, [] => []
  | offset, part :: rest =>
    part.ops.map (·.rebased offset) ++ movedOps (offset + part.leaves.length) rest

private theorem opWrites_positions_from (last : Op) (start offset : Nat)
    (parts : List (Encoding α)) :
    (opWrites last start offset parts).map Prod.fst = List.range' start (opCount parts) := by
  induction parts generalizing start offset with
  | nil => rfl
  | cons part rest ih =>
    rw [opWrites, List.map_append, Buffer.place_positions, ih, List.length_map, opCount,
      ← List.range'_append_1]

theorem opWrites_positions (last : Op) (parts : List (Encoding α)) :
    (opWrites last 0 0 parts).map Prod.fst = List.range (opCount parts) := by
  rw [opWrites_positions_from, List.range_eq_range']

private theorem leafWrites_positions_from (start : Nat) (parts : List (Encoding α)) :
    (leafWrites start parts).map Prod.fst = List.range' start (leafCount parts) := by
  induction parts generalizing start with
  | nil => rfl
  | cons part rest ih =>
    rw [leafWrites, List.map_append, Buffer.place_positions, ih, leafCount,
      ← List.range'_append_1]

theorem leafWrites_positions (parts : List (Encoding α)) :
    (leafWrites 0 parts).map Prod.fst = List.range (leafCount parts) := by
  rw [leafWrites_positions_from, List.range_eq_range']

theorem opWrites_values (last : Op) (start offset : Nat) (parts : List (Encoding α)) :
    (opWrites last start offset parts).map Prod.snd = movedOps offset parts ++ [last] := by
  induction parts generalizing start offset with
  | nil => rfl
  | cons part rest ih => simp [opWrites, movedOps, ih]

theorem leafWrites_values (start : Nat) (parts : List (Encoding α)) :
    (leafWrites start parts).map Prod.snd = parts.flatMap (·.leaves) := by
  induction parts generalizing start with
  | nil => rfl
  | cons part rest ih => simp [leafWrites, ih]

/-- The encoding that joins `parts`, laid out in buffers sized from their lengths. -/
def combine (connective : Connective) (parts : List (Encoding α)) : Encoding α where
  ops := Buffer.collect (opCount parts) (opWrites (.join connective parts.length) 0 0 parts)
    (opWrites_positions _ parts)
  leaves := Buffer.collect (leafCount parts) (leafWrites 0 parts) (leafWrites_positions parts)

/-- The records of a combination are the moved records of its parts and the closing one. -/
theorem combine_ops (connective : Connective) (parts : List (Encoding α)) :
    (combine connective parts).ops = movedOps 0 parts ++ [.join connective parts.length] :=
  (Buffer.collect_eq (opWrites_positions _ parts)).trans (opWrites_values _ 0 0 parts)

theorem combine_leaves (connective : Connective) (parts : List (Encoding α)) :
    (combine connective parts).leaves = parts.flatMap (·.leaves) :=
  (Buffer.collect_eq (leafWrites_positions parts)).trans (leafWrites_values 0 parts)

end Encoding

end PostfixSpec
