import PostfixSpec.Op.Replay
import PostfixSpec.Proofs.Evaluator.Call

/-!
# When an evaluation fails

With an evaluator that never fails, whatever state it keeps, an evaluation fails for the stream of
records alone. Every record leaves a value on the stack, so only the first record can find it empty. From
there on joining takes what there is, and negating finds a value. What is left to fail is a leaf record
whose index finds no leaf, and the first one of those decides.
-/

namespace PostfixSpec

variable {α β σ : Type}

/-! ### Indices that find no leaf -/

namespace Op

/-- Whether an index finds one of `n` leaves, counted from the end if it is negative. -/
def Finds (n : Nat) (index : Int) : Prop := -(n : Int) ≤ index ∧ index < n

instance (n : Nat) (index : Int) : Decidable (Finds n index) :=
  inferInstanceAs (Decidable (_ ∧ _))

theorem leafAt?_eq_none_iff {leaves : List α} {index : Int} :
    leafAt? leaves index = none ↔ ¬ Finds leaves.length index := by
  unfold leafAt? Finds
  split
  · rw [List.getElem?_eq_none_iff]
    omega
  · split
    · rw [List.getElem?_eq_none_iff]
      omega
    · simp only [true_iff]
      omega

/-- The first index among the leaf records that finds none of `n` leaves. -/
def firstMissing? (n : Nat) (ops : List Op) : Option Int :=
  (references ops).find? fun index => !decide (Finds n index)

theorem firstMissing?_eq_none_iff {n : Nat} {ops : List Op} :
    firstMissing? n ops = none ↔ ∀ index ∈ references ops, Finds n index := by
  simp [firstMissing?]

theorem firstMissing?_of_missing {n : Nat} {index : Int} (h : ¬ Finds n index) (ops : List Op) :
    firstMissing? n (.leaf index :: ops) = some index :=
  List.find?_cons_of_pos (by simp [h])

/-- A record that makes a call misses no leaf. -/
theorem firstMissing?_of_call {leaves : List α} {stack : List β} {op : Op}
    {made : Call α β × List β} (h : op.call leaves stack = .ok made) (ops : List Op) :
    firstMissing? leaves.length (op :: ops) = firstMissing? leaves.length ops := by
  cases op with
  | leaf index =>
      have hfinds : Finds leaves.length index := by
        refine Decidable.of_not_not fun hmissing => ?_
        rw [call, leafAt?_eq_none_iff.mpr hmissing] at h
        cases h
      exact List.find?_cons_of_neg (by simp [hfinds])
  | negate => rfl
  | join connective count => rfl

end Op

/-! ### Runs with a state -/

namespace Evaluator

variable (ev : Evaluator (StateM σ) α β) (leaves : List α)

theorem runOps_of_call {stack below : List β} {op : Op} {call : Call α β}
    (h : op.call leaves stack = .ok (call, below)) (ops : List Op) (s : σ) :
    ∃ answer s', (ev.runOps leaves stack (op :: ops)).run.run s
      = (ev.runOps leaves (below ++ [answer]) ops).run.run s' := by
  refine ⟨((ev.answer call).run s).1, ((ev.answer call).run s).2, ?_⟩
  rw [run_runOps_cons, h]
  rfl

theorem runOps_of_error {stack : List β} {op : Op} {error : EvaluationError}
    (h : op.call leaves stack = .error error) (ops : List Op) (s : σ) :
    (ev.runOps leaves stack (op :: ops)).run.run s = (.error error, s) := by
  rw [run_runOps_cons, h]
  rfl

/-- **A run that does not negate on an empty stack** fails at the first index that finds no leaf. If
there is none, it leaves a value, unless it had neither a record nor a value. -/
theorem runOps_outcome (stack : List β) {ops : List Op}
    (hfirst : stack = [] → ops.head? ≠ some .negate) (s : σ) :
    match ((ev.runOps leaves stack ops).run.run s).1 with
    | .ok after =>
      Op.firstMissing? leaves.length ops = none ∧ (after = [] → stack = [] ∧ ops = [])
    | .error error =>
      ∃ index, Op.firstMissing? leaves.length ops = some index ∧ error = missingLeaf index := by
  induction ops generalizing stack s with
  | nil => exact ⟨rfl, fun hempty => ⟨hempty, rfl⟩⟩
  | cons op ops ih =>
      cases hcall : op.call leaves stack with
      | error error =>
          rw [runOps_of_error ev leaves hcall]
          obtain ⟨index, rfl, hmissing, rfl⟩ | ⟨rfl, hempty, -⟩ := Op.call_eq_error_iff.mp hcall
          · exact ⟨index, Op.firstMissing?_of_missing (Op.leafAt?_eq_none_iff.mp hmissing) ops, rfl⟩
          · exact absurd rfl (hfirst hempty)
      | ok made =>
          obtain ⟨answer, s', hrun⟩ := runOps_of_call ev leaves hcall ops s
          rw [hrun, Op.firstMissing?_of_call hcall]
          -- The answer is on the stack now, so no record behind this one finds it empty.
          have hpushed : made.2 ++ [answer] ≠ [] := List.concat_ne_nil _ _
          have hrest := ih _ (fun hempty => absurd hempty hpushed) s'
          split at hrest
          next after => exact ⟨hrest.1, fun hempty => absurd (hrest.2 hempty).1 hpushed⟩
          next error => exact hrest

theorem runOps_of_negate (ops : List Op) (s : σ) :
    (ev.runOps leaves [] (.negate :: ops)).run.run s = (.error .negateNothing, s) :=
  runOps_of_error ev leaves rfl ops s

/-- Only a run without records leaves an empty stack. -/
theorem eq_nil_of_runOps {ops : List Op} {s s' : σ}
    (h : (ev.runOps leaves [] ops).run.run s = (.ok [], s')) : ops = [] := by
  have hhead : ops.head? ≠ some .negate := by
    intro hnegate
    obtain ⟨rest, rfl⟩ := List.head?_eq_some_iff.mp hnegate
    rw [runOps_of_negate] at h
    exact nomatch h
  have hrun := ev.runOps_outcome leaves [] (fun _ => hhead) s
  rw [h] at hrun
  exact (hrun.2 rfl).2

/-- A record that fails in a run names a leaf that is not there, or negates before all others. -/
theorem of_step_eq_error {before : List Op} {op : Op} {stack : List β} {s s' : σ}
    {error : EvaluationError} (hrun : (ev.runOps leaves [] before).run.run s = (.ok stack, s'))
    (hstep : ((ev.step leaves stack op).run.run s').1 = .error error) :
    (∃ index, op = .leaf index ∧ ¬ Op.Finds leaves.length index) ∨ op = .negate ∧ before = [] := by
  cases hcall : op.call leaves stack with
  | error failure =>
      obtain ⟨index, rfl, hmissing, -⟩ | ⟨rfl, rfl, -⟩ := Op.call_eq_error_iff.mp hcall
      · exact .inl ⟨index, rfl, Op.leafAt?_eq_none_iff.mp hmissing⟩
      · exact .inr ⟨rfl, eq_nil_of_runOps ev leaves hrun⟩
  | ok made =>
      rw [run_step, hcall] at hstep
      exact nomatch hstep

end Evaluator

/-! ### Evaluations -/

theorem EvaluationError.message_injective : Function.Injective EvaluationError.message := by
  intro a b h
  cases a <;> cases b <;> first | rfl | exact absurd h (by decide)

/-- The outcome of an evaluation that starts in a state, with an evaluator that never fails. -/
def Specification.outcome (spec : Specification α) (ev : Evaluator (StateM σ) α β) (start : σ) :
    Except EvaluationError β := ((spec.evaluate ev).run.run start).1

namespace Encoding

/-- Why an encoding has no value, read off its records. -/
def failure? (e : Encoding α) : Option EvaluationError :=
  match e.ops with
  | [] => some .noResult
  | .negate :: _ => some .negateNothing
  | ops => (Op.firstMissing? e.leaves.length ops).map missingLeaf

theorem failure?_of_head {e : Encoding α} (hne : e.ops ≠ []) (hhead : e.ops.head? ≠ some .negate) :
    e.failure? = (Op.firstMissing? e.leaves.length e.ops).map missingLeaf := by
  obtain ⟨op, ops, hops⟩ := List.exists_cons_of_ne_nil hne
  rw [failure?, hops]
  cases op with
  | negate => exact absurd (by rw [hops, List.head?_cons]) hhead
  | leaf index => rfl
  | join connective count => rfl

theorem outcome_encoded (e : Encoding α) (ev : Evaluator (StateM σ) α β) (start : σ) :
    (Specification.encoded e).outcome ev start
      = ((ev.runOps e.leaves [] e.ops).run.run start).1.bind bottom := by
  rw [Specification.outcome, Specification.evaluate, run_evaluate]
  rfl

/-- **An evaluation fails for the reason that the records give, and for no other.** -/
theorem outcome_eq (e : Encoding α) (ev : Evaluator (StateM σ) α β) (start : σ) :
    match (Specification.encoded e).outcome ev start with
    | .ok _ => e.failure? = none
    | .error error => e.failure? = some error := by
  rw [outcome_encoded]
  by_cases hne : e.ops = []
  · rw [failure?, hne]
    rfl
  by_cases hhead : e.ops.head? = some .negate
  · obtain ⟨ops, hops⟩ := List.head?_eq_some_iff.mp hhead
    rw [failure?, hops, ev.runOps_of_negate]
    rfl
  have hrun := ev.runOps_outcome e.leaves [] (fun _ => hhead) start
  rw [failure?_of_head hne hhead]
  split at hrun
  next after hafter =>
    obtain ⟨hnone, hempty⟩ := hrun
    obtain ⟨value, hvalue⟩ := exists_bottom (mt (fun h => (hempty h).2) hne)
    simp [hafter, hnone, Except.bind, hvalue]
  next error herror =>
    obtain ⟨index, hmissing, rfl⟩ := hrun
    rw [herror, hmissing]
    rfl

/-- **The reason is one of three,** and the first record decides between them. -/
theorem failure?_eq_some_iff {e : Encoding α} {error : EvaluationError} :
    e.failure? = some error ↔
      e.ops = [] ∧ error = .noResult ∨
      e.ops.head? = some .negate ∧ error = .negateNothing ∨
      e.ops.head? ≠ some .negate ∧
        ∃ index, Op.firstMissing? e.leaves.length e.ops = some index ∧ error = missingLeaf index := by
  by_cases hne : e.ops = []
  · simp [failure?, hne, Op.firstMissing?, Op.references, eq_comm]
  by_cases hhead : e.ops.head? = some .negate
  · obtain ⟨ops, hops⟩ := List.head?_eq_some_iff.mp hhead
    simp [failure?, hops, eq_comm]
  · rw [failure?_of_head hne hhead, Option.map_eq_some_iff]
    simp [hne, hhead, @eq_comm _ error]

theorem failure?_eq_none_iff {e : Encoding α} :
    e.failure? = none ↔ e.ops ≠ [] ∧ e.ops.head? ≠ some .negate ∧
      ∀ index ∈ Op.references e.ops, Op.Finds e.leaves.length index := by
  by_cases hne : e.ops = []
  · simp [failure?, hne]
  by_cases hhead : e.ops.head? = some .negate
  · obtain ⟨ops, hops⟩ := List.head?_eq_some_iff.mp hhead
    simp [failure?, hops]
  · simp [failure?_of_head hne hhead, hne, hhead, Op.firstMissing?_eq_none_iff]

end Encoding

/-- A missing leaf is reported in one of two ways, by the width of its index. -/
theorem eq_missingLeaf_iff {index : Int} {error : EvaluationError} :
    error = missingLeaf index ↔
      error = .leafOutOfRange ∧ (-0x8000000000000000 ≤ index ∧ index < 0x8000000000000000) ∨
        error = .indexTooWide ∧ ¬ (-0x8000000000000000 ≤ index ∧ index < 0x8000000000000000) := by
  have hindex : isIndex index = true
      ↔ -0x8000000000000000 ≤ index ∧ index < 0x8000000000000000 := decide_eq_true_iff
  rw [missingLeaf, ← hindex]
  cases isIndex index <;> simp

namespace Specification

/-- Whether an evaluation fails with a text. -/
def FailsWith (spec : Specification α) (ev : Evaluator (StateM σ) α β) (start : σ)
    (text : String) : Prop :=
  (spec.outcome ev start).mapError EvaluationError.message = .error text

theorem failsWith_message_iff {e : Encoding α} {ev : Evaluator (StateM σ) α β} {start : σ}
    (error : EvaluationError) :
    (encoded e).FailsWith ev start error.message ↔ e.failure? = some error := by
  have houtcome := e.outcome_eq ev start
  rw [FailsWith]
  split at houtcome
  next value hvalue =>
    rw [hvalue, houtcome]
    exact ⟨nofun, nofun⟩
  next failure hfailure =>
    rw [hfailure, houtcome]
    constructor
    · intro htext
      exact congrArg some (EvaluationError.message_injective (Except.error.inj htext))
    · intro hsame
      exact congrArg _ (congrArg EvaluationError.message (Option.some.inj hsame))

theorem exists_outcome_iff {e : Encoding α} {ev : Evaluator (StateM σ) α β} {start : σ} :
    (∃ value, (encoded e).outcome ev start = .ok value) ↔ e.failure? = none := by
  have houtcome := e.outcome_eq ev start
  split at houtcome
  next value hvalue => simp [hvalue, houtcome]
  next failure hfailure => simp [hfailure, houtcome]

/-- **When an evaluation fails, and with which text.** Let the evaluator keep any state and never fail.
No records at all leave no result; a negation in front finds nothing to negate; behind any other first
record, the first index that finds no leaf is reported, in one way if it fits a signed word of 64 bits
and in another if it does not. Every other stream has a value, whatever its counts are. So a record
that joins never fails in a run, and neither does a negation behind the first record. -/
theorem evaluate_fails_iff (e : Encoding α) (ev : Evaluator (StateM σ) α β) (start : σ) :
    ((encoded e).FailsWith ev start "list index out of range" ↔ e.ops = []) ∧
    ((encoded e).FailsWith ev start "pop from empty list" ↔ e.ops.head? = some .negate) ∧
    ((encoded e).FailsWith ev start "tuple index out of range" ↔
      e.ops.head? ≠ some .negate ∧
        ∃ index, Op.firstMissing? e.leaves.length e.ops = some index ∧
          (-0x8000000000000000 ≤ index ∧ index < 0x8000000000000000)) ∧
    ((encoded e).FailsWith ev start "cannot fit 'int' into an index-sized integer" ↔
      e.ops.head? ≠ some .negate ∧
        ∃ index, Op.firstMissing? e.leaves.length e.ops = some index ∧
          ¬ (-0x8000000000000000 ≤ index ∧ index < 0x8000000000000000)) ∧
    ((∃ value, (encoded e).outcome ev start = .ok value) ↔
      e.ops ≠ [] ∧ e.ops.head? ≠ some .negate ∧
        ∀ index ∈ Op.references e.ops, Op.Finds e.leaves.length index) ∧
    ∀ (before : List Op) (op : Op) (stack : List β) (s : σ) (error : EvaluationError),
      (ev.runOps e.leaves [] before).run.run start = (.ok stack, s) →
      ((ev.step e.leaves stack op).run.run s).1 = .error error →
      (∃ index, op = .leaf index ∧ ¬ Op.Finds e.leaves.length index) ∨
        op = .negate ∧ before = [] := by
  refine ⟨?_, ?_, ?_, ?_, exists_outcome_iff.trans Encoding.failure?_eq_none_iff,
    fun before op stack s error hrun hstep => ev.of_step_eq_error e.leaves hrun hstep⟩
  · refine (failsWith_message_iff .noResult).trans ?_
    simp [Encoding.failure?_eq_some_iff, eq_missingLeaf_iff]
  · refine (failsWith_message_iff .negateNothing).trans ?_
    simp [Encoding.failure?_eq_some_iff, eq_missingLeaf_iff]
  · refine (failsWith_message_iff .leafOutOfRange).trans ?_
    simp [Encoding.failure?_eq_some_iff, eq_missingLeaf_iff]
  · refine (failsWith_message_iff .indexTooWide).trans ?_
    simp [Encoding.failure?_eq_some_iff, eq_missingLeaf_iff]

/-- Whether an index finds a leaf does not decide the text alone: an index that is no signed word of 64
bits is not called out of range. -/
theorem evaluate_wide_index :
    ¬ ((encoded ⟨[.leaf 9223372036854775808], ["p"]⟩).FailsWith
          (⟨"Hold", fun _ => pure true, pure, fun _ _ => pure true⟩ :
            Evaluator (StateM Unit) String Bool) () "tuple index out of range" ↔
        [Op.leaf 9223372036854775808].head? ≠ some .negate ∧
          ∃ index ∈ Op.references [.leaf 9223372036854775808],
            ¬ (-(["p"].length : Int) ≤ index ∧ index < ["p"].length)) := by
  intro h
  have hmissing : ∃ index ∈ Op.references [.leaf 9223372036854775808],
      ¬ (-(["p"].length : Int) ≤ index ∧ index < ["p"].length) := ⟨_, List.mem_cons_self, by decide⟩
  have hfails := h.mpr ⟨by decide, hmissing⟩
  have htext : "cannot fit 'int' into an index-sized integer" = "tuple index out of range" :=
    Except.error.inj hfails
  exact absurd htext (by decide)

end Specification

end PostfixSpec
