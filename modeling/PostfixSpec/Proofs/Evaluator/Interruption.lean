import PostfixSpec.Evaluator.FunctionalText
import PostfixSpec.Proofs.Evaluator.Call
import PostfixSpec.Proofs.Evaluator.Fold

/-!
# Evaluations that are cut short

A recording evaluator keeps a state with a log, answers every call, and adds it to the log. Another one
that is identical except that it raises an exception at one call number runs along with it up to there:
both make the same calls with the same answers, because a record's call depends on the answers so far
and on nothing else. So the exception either comes up with the calls up to it in the log, or its number
is never reached and nothing changes, also if the stream fails for a reason of its own.
-/

namespace PostfixSpec

variable {α β τ ε : Type}

namespace Evaluator

/-- Whether an evaluator answers every call and adds it to its log. -/
def Logs (log : τ → List (Call α β)) (ev : Evaluator (ExceptT ε (StateM τ)) α β) : Prop :=
  ∀ call s, ∃ answer s', (ev.answer call).run.run s = (.ok answer, s') ∧ log s' = log s ++ [call]

/-- Whether `cut` is identical to `ev` except that it raises an exception at call number `k`, which it
still adds to its log. -/
structure InterruptedAt (log : τ → List (Call α β)) (k : Nat) (failure : Call α β → ε)
    (ev cut : Evaluator (ExceptT ε (StateM τ)) α β) : Prop where
  same : ∀ call s, (log s).length + 1 ≠ k →
    (cut.answer call).run.run s = (ev.answer call).run.run s
  raises : ∀ call s, (log s).length + 1 = k → ∃ s',
    (cut.answer call).run.run s = (.error (failure call), s') ∧ log s' = log s ++ [call]

/-! ### One record -/

section

variable (ev : Evaluator (ExceptT ε (StateM τ)) α β) {leaves : List α} {stack below : List β}
  {op : Op} {call : Call α β} {s s' : τ}

theorem runOps_of_no_call {error : EvaluationError} (h : op.call leaves stack = .error error)
    (ops : List Op) :
    (ev.runOps leaves stack (op :: ops)).run.run.run s = (.ok (.error error), s) := by
  rw [run_runOps_cons, h]
  rfl

theorem runOps_of_answer {answer : β} (h : op.call leaves stack = .ok (call, below))
    (hanswer : (ev.answer call).run.run s = (.ok answer, s')) (ops : List Op) :
    (ev.runOps leaves stack (op :: ops)).run.run.run s
      = (ev.runOps leaves (below ++ [answer]) ops).run.run.run s' := by
  rw [run_runOps_cons, h]
  simp only [ExceptT.run_bind, StateT.run_bind, hanswer]
  rfl

theorem runOps_of_raise {failure : ε} (h : op.call leaves stack = .ok (call, below))
    (hraise : (ev.answer call).run.run s = (.error failure, s')) (ops : List Op) :
    (ev.runOps leaves stack (op :: ops)).run.run.run s = (.error failure, s') := by
  rw [run_runOps_cons, h]
  simp only [ExceptT.run_bind, StateT.run_bind, hraise]
  rfl

end

/-! ### Runs -/

variable {log : τ → List (Call α β)} {ev cut : Evaluator (ExceptT ε (StateM τ)) α β}

/-- **A recording evaluator is never in the way.** A run with it ends for the stream alone, and adds one
call to the log for each record, unless a record fails. -/
theorem Logs.runOps (hlogs : ev.Logs log) (leaves : List α) (stack : List β) (ops : List Op) (s : τ) :
    ∃ outcome calls s', (ev.runOps leaves stack ops).run.run.run s = (.ok outcome, s') ∧
      log s' = log s ++ calls ∧ ∀ after, outcome = .ok after → calls.length = ops.length := by
  induction ops generalizing stack s with
  | nil => exact ⟨.ok stack, [], s, rfl, (List.append_nil _).symm, fun _ _ => rfl⟩
  | cons op ops ih =>
      cases hcall : op.call leaves stack with
      | error error =>
          exact ⟨.error error, [], s, ev.runOps_of_no_call hcall ops, (List.append_nil _).symm, nofun⟩
      | ok made =>
          obtain ⟨call, below⟩ := made
          obtain ⟨answer, between, hanswer, hlog⟩ := hlogs call s
          obtain ⟨outcome, calls, s', hrun, hrest, hlength⟩ := ih (below ++ [answer]) between
          refine ⟨outcome, call :: calls, s', (ev.runOps_of_answer hcall hanswer ops).trans hrun, ?_,
            fun after hafter => congrArg (· + 1) (hlength after hafter)⟩
          rw [hrest, hlog, List.append_assoc, List.singleton_append]

/-- **The interrupted run** goes along with the undisturbed one up to its call number. -/
theorem InterruptedAt.runOps {k : Nat} {failure : Call α β → ε}
    (hcut : InterruptedAt log k failure ev cut) (hlogs : ev.Logs log) (leaves : List α)
    {stack : List β} {ops : List Op} {s s' : τ} {outcome : Except EvaluationError (List β)}
    (hk : (log s).length < k)
    (hrun : (ev.runOps leaves stack ops).run.run.run s = (.ok outcome, s')) :
    ((log s').length < k → (cut.runOps leaves stack ops).run.run.run s = (.ok outcome, s')) ∧
    (k ≤ (log s').length → ∃ call last, (log s')[k - 1]? = some call ∧
      (cut.runOps leaves stack ops).run.run.run s = (.error (failure call), last) ∧
      log last = (log s').take k) := by
  induction ops generalizing stack s with
  | nil =>
      cases hrun
      exact ⟨fun _ => rfl, fun hreached => absurd hk (Nat.not_lt.mpr hreached)⟩
  | cons op ops ih =>
      cases hcall : op.call leaves stack with
      | error error =>
          rw [ev.runOps_of_no_call hcall] at hrun
          cases hrun
          exact ⟨fun _ => cut.runOps_of_no_call hcall ops,
            fun hreached => absurd hk (Nat.not_lt.mpr hreached)⟩
      | ok made =>
          obtain ⟨call, below⟩ := made
          obtain ⟨answer, between, hanswer, hlog⟩ := hlogs call s
          rw [ev.runOps_of_answer hcall hanswer] at hrun
          by_cases hnow : (log s).length + 1 = k
          · -- The call is the one to fail at, and the undisturbed log goes on from it.
            obtain ⟨last, hraise, hlast⟩ := hcut.raises call s hnow
            obtain ⟨_, calls, _, hrest, hcalls, -⟩ :=
              hlogs.runOps leaves (below ++ [answer]) ops between
            cases hrest.symm.trans hrun
            rw [hlog] at hcalls
            have hreached : k ≤ (log s').length := by
              rw [hcalls, List.length_append, List.length_append, List.length_singleton]
              omega
            refine ⟨fun hbefore => absurd hbefore (Nat.not_lt.mpr hreached), fun _ =>
              ⟨call, last, ?_, cut.runOps_of_raise hcall hraise ops, ?_⟩⟩
            · rw [hcalls, ← hnow]
              simp
            · have htaken : (log s ++ [call]).length = k := by
                rwa [List.length_append, List.length_singleton]
              rw [hcalls, hlast, List.take_left' htaken]
          · have hsame := (hcut.same call s hnow).trans hanswer
            have hlength : (log between).length < k := by
              rw [hlog, List.length_append, List.length_singleton]
              omega
            rw [cut.runOps_of_answer hcall hsame]
            exact ih hlength hrun

/-! ### Recorders -/

theorem answer_recording (ev : Evaluator Id α β) (failAt : Nat) (call : Call α β) :
    (ev.recording failAt).answer call = answering failAt call (ev.answer call) := by
  cases call <;> rfl

theorem run_answering (failAt : Nat) (call : Call α β) (answer : β) (before : List (Call α β)) :
    (answering failAt call answer).run.run before
      = (if before.length + 1 = failAt then .error ⟨call.name, failAt⟩ else .ok answer,
          before ++ [call]) := by
  change (if before.length + 1 = failAt then _ else _ : Recording α β β).run.run (before ++ [call])
    = _
  split <;> rfl

/-- A recorder keeps nothing but its log. -/
theorem logs_recording (ev : Evaluator Id α β) : (ev.recording 0).Logs id := by
  intro call before
  rw [answer_recording]
  exact ⟨ev.answer call, before ++ [call], Expr.run_answering_zero call _ before, rfl⟩

theorem interruptedAt_recording (ev : Evaluator Id α β) (k : Nat) :
    InterruptedAt id k (fun call => ⟨call.name, k⟩) (ev.recording 0) (ev.recording k) where
  same call before hnow := by
    have hnow : before.length + 1 ≠ k := hnow
    rw [answer_recording, answer_recording, run_answering, run_answering, if_neg hnow,
      if_neg (Nat.succ_ne_zero _)]
  raises call before hnow := by
    have hnow : before.length + 1 = k := hnow
    rw [answer_recording, run_answering, if_pos hnow]
    exact ⟨before ++ [call], rfl, rfl⟩

end Evaluator

/-! ### The main statement -/

namespace Specification

theorem run_evaluate_of_ok {e : Encoding α} {ev : Evaluator (ExceptT ε (StateM τ)) α β}
    {outcome : Except EvaluationError (List β)} {s s' : τ}
    (h : (ev.runOps e.leaves [] e.ops).run.run.run s = (.ok outcome, s')) :
    ((encoded e).evaluate ev).run.run.run s = (.ok (outcome.bind bottom), s') := by
  rw [evaluate, Encoding.run_evaluate, ExceptT.run_map, StateT.run_map, h]
  rfl

theorem run_evaluate_of_raise {e : Encoding α} {ev : Evaluator (ExceptT ε (StateM τ)) α β}
    {failure : ε} {s s' : τ}
    (h : (ev.runOps e.leaves [] e.ops).run.run.run s = (.error failure, s')) :
    ((encoded e).evaluate ev).run.run.run s = (.error failure, s') := by
  rw [evaluate, Encoding.run_evaluate, ExceptT.run_map, StateT.run_map, h]
  rfl

/-- The stream of a well-formed encoding never fails. -/
theorem exists_ok_of_wellFormed {e : Encoding α} (h : e.WellFormed)
    {ev : Evaluator (ExceptT ε (StateM τ)) α β} {outcome : Except EvaluationError β} {s s' : τ}
    (hrun : ((encoded e).evaluate ev).run.run.run s = (.ok outcome, s')) :
    ∃ value, outcome = .ok value := by
  obtain ⟨t, -, hlisting⟩ := Expr.exists_listing_of_wellFormed h
  rw [evaluate, Encoding.evaluate_of_listing hlisting, ExceptT.run_lift, ExceptT.run_map,
    StateT.run_map] at hrun
  generalize ((t.map e.leaves.get).fold ev).run.run s = folded at hrun
  obtain ⟨answer, last⟩ := folded
  cases answer with
  | error failure => cases hrun
  | ok value => exact ⟨value, (Except.ok.inj (Prod.mk.inj hrun).1).symm⟩

/-- **A failing call cuts an evaluation cleanly.** Let a recording evaluator start with an empty log, on
any specification: its run ends for the stream alone. With an evaluator that is identical except that it
raises an exception at call number `k`, the run ends with that exception and the first `k` of the calls
in the log, if there are as many; otherwise nothing changes. A well-formed encoding makes one call for
each record. -/
theorem evaluate_interrupted {log : τ → List (Call α β)} {k : Nat} {failure : Call α β → ε}
    {ev cut : Evaluator (ExceptT ε (StateM τ)) α β} (hlogs : ev.Logs log)
    (hcut : Evaluator.InterruptedAt log k failure ev cut) (hk : 1 ≤ k) {start : τ}
    (hstart : log start = []) (spec : Specification α) :
    ∃ outcome s, (spec.evaluate ev).run.run.run start = (.ok outcome, s) ∧
      (k ≤ (log s).length → ∃ call last, (log s)[k - 1]? = some call ∧
        (spec.evaluate cut).run.run.run start = (.error (failure call), last) ∧
        log last = (log s).take k) ∧
      ((log s).length < k → (spec.evaluate cut).run.run.run start = (.ok outcome, s)) ∧
      ∀ e, spec = encoded e → e.WellFormed → (log s).length = e.ops.length := by
  cases spec with
  | zero =>
      refine ⟨.error .zero, start, rfl, fun hreached => ?_, fun _ => rfl, nofun⟩
      rw [hstart] at hreached
      exact absurd hk (Nat.not_le.mpr (Nat.lt_succ_of_le hreached))
  | encoded e =>
      obtain ⟨outcome, calls, s, hrun, hcalls, hlength⟩ :=
        hlogs.runOps e.leaves ([] : List β) e.ops start
      rw [hstart, List.nil_append] at hcalls
      have hbefore : (log start).length < k := by
        rw [hstart]
        exact hk
      obtain ⟨hpast, hreached⟩ := hcut.runOps hlogs e.leaves hbefore hrun
      refine ⟨outcome.bind bottom, s, run_evaluate_of_ok hrun, fun hk => ?_,
        fun hk => run_evaluate_of_ok (hpast hk), fun e' he hwell => ?_⟩
      · obtain ⟨call, last, hcall, hraise, hlast⟩ := hreached hk
        exact ⟨call, last, hcall, run_evaluate_of_raise hraise, hlast⟩
      · cases he
        obtain ⟨value, hvalue⟩ := exists_ok_of_wellFormed hwell (run_evaluate_of_ok hrun)
        cases outcome with
        | error error => exact nomatch hvalue
        | ok after => rw [hcalls, hlength after rfl]

/-- A recorder on a stream whose last record finds no leaf. Failing at the second of its three calls
hides that; a fourth call is never made. -/
theorem evaluate_interrupted_malformed :
    (encoded ⟨[.leaf 0, .join .conjunction 5, .negate, .leaf 7], [.text "p"]⟩).record
        Evaluator.functionalText 2
      = (.error ⟨"and", 2⟩, [.leaf (.text "p"), .join .conjunction ["\"p\""]]) ∧
    (encoded ⟨[.leaf 0, .join .conjunction 5, .negate, .leaf 7], [.text "p"]⟩).record
        Evaluator.functionalText 4
      = (.ok (.error .leafOutOfRange),
          [.leaf (.text "p"), .join .conjunction ["\"p\""], .negate "and(\"p\")"]) := by
  let spec : Specification Leaf :=
    encoded ⟨[.leaf 0, .join .conjunction 5, .negate, .leaf 7], [.text "p"]⟩
  have hcalm : spec.record Evaluator.functionalText 0
      = (.ok (.error .leafOutOfRange),
          [.leaf (.text "p"), .join .conjunction ["\"p\""], .negate "and(\"p\")"]) := by
    decide +kernel
  have hempty : id ([] : List (Call Leaf String)) = [] := rfl
  have hcut (k : Nat) (hk : 1 ≤ k) := evaluate_interrupted
    (Evaluator.logs_recording Evaluator.functionalText)
    (Evaluator.interruptedAt_recording Evaluator.functionalText k) hk hempty spec
  constructor
  · obtain ⟨outcome, calls, hrun, hreached, -, -⟩ := hcut 2 (by decide)
    cases hrun.symm.trans hcalm
    obtain ⟨call, last, hcall, hraise, hlast⟩ := hreached (by decide)
    cases hcall
    cases hlast
    exact hraise
  · obtain ⟨outcome, calls, hrun, -, hpast, -⟩ := hcut 4 (by decide)
    cases hrun.symm.trans hcalm
    exact hpast (by decide)

end Specification

end PostfixSpec
