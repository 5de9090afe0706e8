import PostfixSpec.Op

/-!
# Replaying a stream of records

A stream can be checked without giving its records a meaning: only the number of values on the
stack is followed. A stream is well formed when no record needs more values than there are and
exactly one value is left. It is canonical when, besides, its leaf records name every leaf once and
in order, which is how compositions write it.
-/

namespace PostfixSpec.Op

/-- The number of values on the stack after each record, from `depth` on. It may go below zero:
nothing is checked here. -/
def depths : Int → List Op → List Int
  | _, [] => []
  | depth, op :: rest =>
    let after := depth - op.consumed + 1
    after :: depths after rest

/-- The number of values left by a stream in which no record needs more values than there are. -/
def replay : Int → List Op → Option Int
  | depth, [] => some depth
  | depth, op :: rest =>
    if op.consumed ≤ depth then replay (depth - op.consumed + 1) rest else none

/-- The indices of the leaf records, from left to right. -/
def references (ops : List Op) : List Int :=
  ops.filterMap fun
    | .leaf index => some index
    | _ => none

/-- Whether every leaf record points into a list of `n` leaves. -/
def inBounds (n : Nat) (ops : List Op) : Bool :=
  (references ops).all fun index => decide (0 ≤ index ∧ index < n)

/-- Whether a record that joins values joins at least one. -/
def HasOperands : Op → Prop
  | join _ count => 1 ≤ count
  | _ => True

instance : DecidablePred HasOperands := fun op => by
  cases op <;> unfold HasOperands <;> infer_instance

/-- A stream that can be read over `n` leaves: its references exist, its counts are positive, and
the replay never runs short and leaves one value. -/
def WellFormed (n : Nat) (ops : List Op) : Prop :=
  inBounds n ops = true ∧ (∀ op ∈ ops, op.HasOperands) ∧ replay 0 ops = some 1

/-- A stream as compositions write it: readable, with every leaf named once and in order. -/
def Canonical (n : Nat) (ops : List Op) : Prop :=
  references ops = (List.range n).map Int.ofNat ∧
    (∀ op ∈ ops, op.HasOperands) ∧ replay 0 ops = some 1

instance (n : Nat) (ops : List Op) : Decidable (WellFormed n ops) := by
  unfold WellFormed; infer_instance

instance (n : Nat) (ops : List Op) : Decidable (Canonical n ops) := by
  unfold Canonical; infer_instance

/-- A replay of two streams in a row is a replay of the second from where the first ends. -/
theorem replay_append (depth : Int) (ops more : List Op) :
    replay depth (ops ++ more) = (replay depth ops).bind fun after => replay after more := by
  induction ops generalizing depth with
  | nil => rfl
  | cons op rest ih =>
    simp only [List.cons_append, replay]
    split
    · exact ih _
    · rfl

@[simp] theorem references_append (ops more : List Op) :
    references (ops ++ more) = references ops ++ references more := List.filterMap_append

/-- A canonical stream is well formed. -/
theorem Canonical.wellFormed {n : Nat} {ops : List Op} (h : Canonical n ops) :
    WellFormed n ops := by
  refine ⟨?_, h.2⟩
  simp only [inBounds, h.1, List.all_map, List.all_eq_true, Function.comp_apply,
    decide_eq_true_eq, List.mem_range]
  intro i hi
  exact ⟨Int.natCast_nonneg i, Int.ofNat_lt.mpr hi⟩

end PostfixSpec.Op
