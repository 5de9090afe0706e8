import PostfixSpec.Proofs.Evaluator.Call
import PostfixSpec.Proofs.Evaluator.Operands

/-!
# Evaluators that represent each other

If the answers of one evaluator represent those of another one, so do the values on its stack, record
after record: both make the same calls, on operands that represent each other, and where one finds no
leaf or nothing to negate, neither does the other. This holds of every stream, whether it lists a tree
or not, because a record's call depends on the number of values and not on what they are.
-/

namespace PostfixSpec

variable {m : Type → Type} [Monad m] {α β γ : Type}

/-- Whether an evaluator answers without an effect, at some leaves and at every operator, and its answers
represent those of an effect-free one. -/
structure Evaluator.Represents (ev : Evaluator m α γ) (plain : Evaluator Id α β) (represent : β → γ)
    (leaves : List α) : Prop where
  leaf : ∀ value ∈ leaves, ev.leaf value = pure (represent (plain.leaf value))
  negate : ∀ operand, ev.negate (represent operand) = pure (represent (plain.negate operand))
  join : ∀ c operands, ev.join c (operands.map represent) = pure (represent (plain.join c operands))

/-! ### Calls on represented operands -/

/-- The call on what represents the operands of a call. -/
def Call.map (represent : β → γ) : Call α β → Call α γ
  | leaf value => .leaf value
  | negate operand => .negate (represent operand)
  | join c operands => .join c (operands.map represent)

/-- A record makes the same call on represented values, and leaves the same values represented. -/
theorem Op.call_map (represent : β → γ) (leaves : List α) (stack : List β) (op : Op) :
    op.call leaves (stack.map represent)
      = (op.call leaves stack).map fun made => (made.1.map represent, made.2.map represent) := by
  cases op with
  | leaf index =>
      rw [call, call]
      cases leafAt? leaves index <;> rfl
  | negate =>
      rw [call, call, List.getLast?_map]
      cases stack.getLast? with
      | none => rfl
      | some operand =>
          rw [← List.map_dropLast]
          rfl
  | join c count =>
      rw [call, call, popTop_map]
      rfl

theorem mem_of_leafAt? {leaves : List α} {index : Int} {value : α}
    (h : leafAt? leaves index = some value) : value ∈ leaves := by
  rw [leafAt?] at h
  split at h
  · exact List.mem_of_getElem? h
  · split at h
    · exact List.mem_of_getElem? h
    · cases h

/-- A call on a leaf is made on one of the leaves. -/
theorem Op.mem_of_call_eq_leaf {leaves : List α} {stack below : List β} {op : Op} {value : α}
    (h : op.call leaves stack = .ok (.leaf value, below)) : value ∈ leaves := by
  cases op with
  | leaf index =>
      rw [call] at h
      split at h
      case h_1 found hfound =>
        cases h
        exact mem_of_leafAt? hfound
      case h_2 => cases h
  | negate =>
      rw [call] at h
      split at h <;> cases h
  | join c count => cases h

namespace Evaluator

variable {ev : Evaluator m α γ} {plain : Evaluator Id α β} {represent : β → γ} {leaves : List α}

theorem Represents.answer (h : ev.Represents plain represent leaves) {stack below : List β} {op : Op}
    {call : Call α β} (hcall : op.call leaves stack = .ok (call, below)) :
    ev.answer (call.map represent) = pure (represent (plain.answer call)) := by
  cases call with
  | leaf value => exact h.leaf value (Op.mem_of_call_eq_leaf hcall)
  | negate operand => exact h.negate operand
  | join c operands => exact h.join c operands

variable [LawfulMonad m]

/-- **The stacks of two runs represent each other** after any stream, or both runs fail for the same
reason. -/
theorem Represents.runOps (h : ev.Represents plain represent leaves) (stack : List β)
    (ops : List Op) :
    (ev.runOps leaves (stack.map represent) ops).run
      = pure ((Id.run (plain.runOps leaves stack ops).run).map (List.map represent)) := by
  induction ops generalizing stack with
  | nil => rfl
  | cons op ops ih =>
      rw [run_runOps_cons, run_runOps_cons, Op.call_map]
      cases hcall : op.call leaves stack with
      | error error => rfl
      | ok made =>
          obtain ⟨call, below⟩ := made
          -- The answer is pushed onto both stacks, so the rest starts from a represented stack again.
          let answer : β := plain.answer call
          have hpushed : below.map represent ++ [represent answer]
              = (below ++ [answer]).map represent := by
            rw [List.map_append, List.map_singleton]
          have hrest := ih (below ++ [answer])
          rw [← hpushed] at hrest
          show ev.answer (call.map represent) >>= _ = _
          rw [h.answer hcall, pure_bind]
          exact hrest

theorem bottom_map (stack : List β) : bottom (stack.map represent) = (bottom stack).map represent := by
  cases stack <;> rfl

/-- **Two evaluations represent each other,** or both fail for the same reason. -/
theorem Represents.evaluate {e : Encoding α} (h : ev.Represents plain represent e.leaves) :
    ((Specification.encoded e).evaluate ev).run
      = pure ((Id.run ((Specification.encoded e).evaluate plain).run).map represent) := by
  have hrun := h.runOps [] e.ops
  rw [List.map_nil] at hrun
  rw [Specification.evaluate, Specification.evaluate, Encoding.run_evaluate, Encoding.run_evaluate,
    hrun, map_pure]
  show pure _ = pure _
  congr 1
  show _ = Except.map represent ((Id.run (plain.runOps e.leaves [] e.ops).run).bind bottom)
  cases Id.run (plain.runOps e.leaves [] e.ops).run with
  | error error => rfl
  | ok stack => exact bottom_map stack

end Evaluator

end PostfixSpec
