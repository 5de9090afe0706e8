import PostfixSpec.Evaluator.Recorder

/-!
# The call that a record makes

A record makes one call to the evaluator, with the values that it takes from the stack, or none if a
leaf or a value that it needs is missing. The stack and the leaves alone decide which. So a run is a row
of calls whose answers go onto the stack one after the other, until a record makes none.
-/

namespace PostfixSpec

variable {m : Type → Type} [Monad m] {α β : Type}

/-- What an evaluator answers to a call. -/
def Evaluator.answer (ev : Evaluator m α β) : Call α β → m β
  | .leaf value => ev.leaf value
  | .negate operand => ev.negate operand
  | .join connective operands => ev.join connective operands

/-- The call that a record makes on a stack and the values that it leaves below, or why it makes
none. -/
def Op.call (leaves : List α) (stack : List β) : Op → Except EvaluationError (Call α β × List β)
  | .leaf index =>
    match leafAt? leaves index with
    | some value => .ok (.leaf value, stack)
    | none => .error (missingLeaf index)
  | .negate =>
    match stack.getLast? with
    | some operand => .ok (.negate operand, stack.dropLast)
    | none => .error .negateNothing
  | .join connective count =>
    .ok (.join connective (popTop stack count).2, (popTop stack count).1)

/-- **A record without a call** names a leaf that is not there, or negates on an empty stack. -/
theorem Op.call_eq_error_iff {leaves : List α} {stack : List β} {op : Op} {error : EvaluationError} :
    op.call leaves stack = .error error ↔
      (∃ index, op = .leaf index ∧ leafAt? leaves index = none ∧ error = missingLeaf index) ∨
        op = .negate ∧ stack = [] ∧ error = .negateNothing := by
  cases op with
  | leaf index =>
      cases h : leafAt? leaves index with
      | some value => simp [call, h]
      | none => simp [call, h, eq_comm]
  | negate =>
      cases h : stack.getLast? with
      | some operand =>
          have hne : stack ≠ [] := by
            rintro rfl
            exact nomatch h
          simp [call, h, hne]
      | none => simp [call, List.getLast?_eq_none_iff.mp h, eq_comm]
  | join connective count => simp [call]

/-- The bottom of a stack, which is what a run answers with. -/
def bottom (stack : List β) : Except EvaluationError β :=
  match stack.head? with
  | some value => .ok value
  | none => .error .noResult

theorem exists_bottom {stack : List β} (h : stack ≠ []) : ∃ value, bottom stack = .ok value := by
  obtain ⟨value, rest, rfl⟩ := List.exists_cons_of_ne_nil h
  exact ⟨value, rfl⟩

namespace Evaluator

variable [LawfulMonad m] (ev : Evaluator m α β) (leaves : List α)

private theorem run_push (answered : m β) (below : List β) :
    (do
      let answer ← ExceptT.lift answered
      return below ++ [answer] : ExceptT EvaluationError m (List β)).run
        = (fun answer => .ok (below ++ [answer])) <$> answered := by
  rw [ExceptT.run_bind_lift, map_eq_pure_bind]
  rfl

/-- A record makes its call and pushes the answer, or fails where it makes none. -/
theorem run_step (stack : List β) (op : Op) :
    (ev.step leaves stack op).run
      = match op.call leaves stack with
        | .error error => pure (.error error)
        | .ok (call, below) => (fun answer => .ok (below ++ [answer])) <$> ev.answer call := by
  cases op with
  | leaf index =>
      rw [step, Op.call]
      cases leafAt? leaves index with
      | none => rfl
      | some value => exact run_push (ev.leaf value) stack
  | negate =>
      rw [step, Op.call]
      cases stack.getLast? with
      | none => rfl
      | some operand => exact run_push (ev.negate operand) stack.dropLast
  | join connective count => exact run_push _ _

/-- **One step of a run.** The first record makes its call, and the rest runs on with the answer. -/
theorem run_runOps_cons (stack : List β) (op : Op) (ops : List Op) :
    (ev.runOps leaves stack (op :: ops)).run
      = match op.call leaves stack with
        | .error error => pure (.error error)
        | .ok (call, below) =>
          ev.answer call >>= fun answer => (ev.runOps leaves (below ++ [answer]) ops).run := by
  have hcons : ev.runOps leaves stack (op :: ops)
      = ev.step leaves stack op >>= fun after => ev.runOps leaves after ops := List.foldlM_cons
  rw [hcons, ExceptT.run_bind, run_step]
  cases op.call leaves stack with
  | error error => simp
  | ok made => simp

end Evaluator

theorem Encoding.run_evaluate [LawfulMonad m] (e : Encoding α) (ev : Evaluator m α β) :
    (e.evaluate ev).run = (·.bind bottom) <$> (ev.runOps e.leaves [] e.ops).run := by
  rw [evaluate, ExceptT.run_bind, map_eq_pure_bind]
  refine bind_congr fun after => ?_
  cases after with
  | error error => rfl
  | ok stack => cases stack <;> rfl

end PostfixSpec
