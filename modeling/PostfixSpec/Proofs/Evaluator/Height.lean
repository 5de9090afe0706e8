import PostfixSpec.Proofs.Evaluator.Machine
import PostfixSpec.Proofs.Evaluator.Outcome

/-!
# The height of the stack

A replay follows the number of values without the values. It goes in step with the stack of a run for
as long as no record asks for more values than there are: every record then takes what it consumes and
leaves one value. The first record that asks for more joins values. Its slice begins before the first
value, and from there it is counted from the other end, so the record takes some of the values but never
as many as it counts. From that record on the stack is higher than the replay says.
-/

namespace PostfixSpec

variable {α β σ : Type}

/-! ### One record -/

/-- The values that a call is made on. -/
def Call.operands : Call α β → List β
  | leaf _ => []
  | negate operand => [operand]
  | join _ operands => operands

namespace Op

variable {leaves : List α} {stack below : List β} {op : Op} {call : Call α β}

/-- A record takes the operands of its call from the top and leaves the rest. -/
theorem stack_eq_of_call (h : op.call leaves stack = .ok (call, below)) :
    stack = below ++ call.operands := by
  cases op with
  | leaf index =>
      rw [Op.call] at h
      split at h
      · cases h
        exact (List.append_nil _).symm
      · cases h
  | negate =>
      rw [Op.call] at h
      split at h
      case h_1 operand hlast =>
        cases h
        exact (List.dropLast_append_getLast? operand hlast).symm
      case h_2 => cases h
  | join c count =>
      cases h
      exact (popTop_append_popTop stack count).symm

/-- A call replaces its operands by its answer. -/
theorem height_of_call (h : op.call leaves stack = .ok (call, below)) (answer : β) :
    ((below ++ [answer]).length : Int) = stack.length - call.operands.length + 1 := by
  rw [stack_eq_of_call h, List.length_append, List.length_append, List.length_singleton]
  omega

/-- **A record that finds what it consumes takes exactly that.** -/
theorem length_operands_of_call (h : op.call leaves stack = .ok (call, below))
    (hcount : 0 ≤ op.effect.1) (henough : op.effect.1 ≤ stack.length) :
    (call.operands.length : Int) = op.effect.1 := by
  cases op with
  | leaf index =>
      rw [Op.call] at h
      split at h <;> cases h
      rfl
  | negate =>
      rw [Op.call] at h
      split at h <;> cases h
      rfl
  | join c count =>
      cases h
      exact length_popTop_of_le hcount henough

/-- **A record that finds less than it consumes joins values,** and takes fewer than it counts. -/
theorem short_of_call (h : op.call leaves stack = .ok (call, below))
    (hshort : (stack.length : Int) < op.effect.1) :
    (∃ c count, op = .join c count) ∧ (call.operands.length : Int) < op.effect.1 := by
  cases op with
  | leaf index =>
      have hnone : (stack.length : Int) < 0 := hshort
      omega
  | negate =>
      have hone : (stack.length : Int) < 1 := hshort
      have hempty : stack = [] := List.length_eq_zero_iff.mp (by omega)
      rw [Op.call, hempty] at h
      cases h
  | join c count =>
      cases h
      exact ⟨⟨c, count, rfl⟩, length_popTop_lt hshort⟩

end Op

namespace Evaluator

variable (ev : Evaluator (StateM σ) α β) (leaves : List α)

/-- Every record of a stream that misses no leaf makes a call, unless it negates on an empty stack. -/
theorem exists_call {op : Op} {stack : List β}
    (hfinds : ∀ index, op = .leaf index → Op.Finds leaves.length index)
    (hnegate : op = .negate → stack ≠ []) :
    ∃ call below, op.call leaves stack = .ok (call, below) := by
  cases hcall : op.call leaves stack with
  | ok made => exact ⟨made.1, made.2, rfl⟩
  | error error =>
      obtain ⟨index, rfl, hmissing, -⟩ | ⟨rfl, hempty, -⟩ := Op.call_eq_error_iff.mp hcall
      · exact absurd (hfinds index rfl) (Op.leafAt?_eq_none_iff.mp hmissing)
      · exact absurd hempty (hnegate rfl)

/-- **The stack is as high as the replay says** after a stream in which no record asks for more values
than there are. -/
theorem exists_runOps_of_replay {ops : List Op} {stack : List β} {depth : Int}
    (hcounts : ∀ op ∈ ops, 0 ≤ op.effect.1)
    (hfinds : ∀ index, .leaf index ∈ ops → Op.Finds leaves.length index)
    (hreplay : Op.replay stack.length ops = some depth) (s : σ) :
    ∃ after s', (ev.runOps leaves stack ops).run.run s = (.ok after, s') ∧
      (after.length : Int) = depth := by
  induction ops generalizing stack s with
  | nil => exact ⟨stack, s, rfl, Option.some.inj hreplay⟩
  | cons op ops ih =>
      obtain ⟨hcount, hcounts⟩ := List.forall_mem_cons.mp hcounts
      rw [Op.replay] at hreplay
      split at hreplay
      case isFalse => cases hreplay
      case isTrue henough =>
        have hnegate : op = .negate → stack ≠ [] := by
          rintro rfl rfl
          have hone : (1 : Int) ≤ 0 := henough
          omega
        obtain ⟨call, below, hcall⟩ := exists_call leaves
          (fun index hindex => hfinds index (hindex ▸ List.mem_cons_self)) hnegate
        obtain ⟨answer, between, hrun⟩ := runOps_of_call ev leaves hcall ops s
        have hheight : ((below ++ [answer]).length : Int) = stack.length - op.consumed + 1 := by
          rw [Op.height_of_call hcall, Op.length_operands_of_call hcall hcount henough]
          rfl
        rw [hrun]
        exact ih hcounts (fun index hindex => hfinds index (List.mem_cons_of_mem op hindex))
          (hheight ▸ hreplay) between

/-- One more record behind a run makes its call on the stack that the run has left. -/
theorem runOps_snoc_of_call {before : List Op} {op : Op} {stack below : List β} {call : Call α β}
    {start s : σ} (hrun : (ev.runOps leaves [] before).run.run start = (.ok stack, s))
    (hcall : op.call leaves stack = .ok (call, below)) :
    (ev.runOps leaves [] (before ++ [op])).run.run start
      = (.ok (below ++ [((ev.answer call).run s).1]), ((ev.answer call).run s).2) := by
  rw [runOps_append, ExceptT.run_bind, StateT.run_bind, hrun]
  show (ev.runOps leaves stack [op]).run.run s = _
  rw [run_runOps_cons, hcall]
  rfl

end Evaluator

/-! ### The main statement -/

theorem Op.mem_references {ops : List Op} {index : Int} : index ∈ references ops ↔ .leaf index ∈ ops := by
  rw [references, List.mem_filterMap]
  constructor
  · rintro ⟨op, hop, hindex⟩
    cases op with
    | leaf i => exact Option.some.inj hindex ▸ hop
    | negate => cases hindex
    | join c count => cases hindex
  · intro hop
    exact ⟨.leaf index, hop, rfl⟩

/-- **The stack is as high as the replay says until a record asks for too much.** Let no count be
negative, let every leaf record find its leaf, and let the stream not begin with a negation. Let the
evaluator keep any state and never fail. As long as no record has asked for more values than there are,
the height of the stack is the depth of the replay. A record that finds what it consumes leaves the two
equal, and if it joins values, the evaluator is called with as many as it consumes. The first record that
asks for more joins values: the evaluator is called with fewer than it counts, and the stack is higher
than the replay says. -/
theorem Encoding.heights_until_short {e : Encoding α} (hcounts : ∀ op ∈ e.ops, 0 ≤ op.effect.1)
    (hfinds : ∀ index ∈ Op.references e.ops, Op.Finds e.leaves.length index)
    (hhead : e.ops.head? ≠ some .negate) (ev : Evaluator (StateM σ) α β) (start : σ)
    {before after : List Op} {op : Op} (hops : e.ops = before ++ op :: after) {depth : Int}
    (hreplay : Op.replay 0 before = some depth) :
    ∃ stack s, (ev.runOps e.leaves [] before).run.run start = (.ok stack, s) ∧
      (stack.length : Int) = depth ∧
      (∀ c count, op = .join c count → ∃ below operands, stack = below ++ operands ∧
        (ev.step e.leaves stack op).run
          = (fun answer => .ok (below ++ [answer])) <$> ev.join c operands ∧
        (op.effect.1 ≤ depth → (operands.length : Int) = op.effect.1) ∧
        (depth < op.effect.1 → (operands.length : Int) < count)) ∧
      ∃ stack' s', (ev.runOps e.leaves [] (before ++ [op])).run.run start = (.ok stack', s') ∧
        (op.effect.1 ≤ depth → (stack'.length : Int) = depth - op.effect.1 + op.effect.2) ∧
        (depth < op.effect.1 → (∃ c count, op = .join c count) ∧
          depth - op.effect.1 + op.effect.2 < stack'.length) := by
  have hmem : ∀ {o}, o ∈ before ++ op :: after → o ∈ e.ops := fun ho => hops ▸ ho
  have hfinds : ∀ index, .leaf index ∈ e.ops → Op.Finds e.leaves.length index :=
    fun index hindex => hfinds index (Op.mem_references.mpr hindex)
  have hempty : Op.replay ([] : List β).length before = some depth := hreplay
  obtain ⟨stack, s, hrun, rfl⟩ := ev.exists_runOps_of_replay e.leaves
    (fun o ho => hcounts o (hmem (List.mem_append_left _ ho)))
    (fun index hindex => hfinds index (hmem (List.mem_append_left _ hindex))) hempty start
  have hop : op ∈ e.ops := hmem (List.mem_append_right _ List.mem_cons_self)
  -- A run that has read a record leaves a value, so only the first record can find none to negate.
  have hnegate : op = .negate → stack ≠ [] := by
    rintro rfl rfl
    obtain rfl := ev.eq_nil_of_runOps e.leaves hrun
    exact hhead (by rw [hops]; rfl)
  obtain ⟨call, below, hcall⟩ := Evaluator.exists_call e.leaves
    (fun index hindex => hfinds index (hindex ▸ hop)) hnegate
  have hheight := Op.height_of_call hcall ((ev.answer call).run s).1
  refine ⟨stack, s, hrun, rfl, ?_, _, _, ev.runOps_snoc_of_call e.leaves hrun hcall,
    fun henough => ?_, fun hshort => ?_⟩
  · rintro c count rfl
    exact ⟨_, _, (popTop_append_popTop stack count).symm, ev.run_step e.leaves stack _,
      length_popTop_of_le (hcounts _ hop), length_popTop_lt⟩
  · rw [hheight, Op.length_operands_of_call hcall (hcounts op hop) henough]
    rfl
  · obtain ⟨hjoin, htaken⟩ := Op.short_of_call hcall hshort
    have hproduced : op.effect.2 = 1 := rfl
    exact ⟨hjoin, by omega⟩

/-- A connective of no operands and a leaf counted from the end keep in step. The last record asks three
values for five: it takes two of them, and leaves two where the replay is below zero. -/
theorem Encoding.heights_until_short_five :
    (∀ op ∈ [.leaf 0, .leaf (-1), .join .disjunction 0, .negate, .join .conjunction 5],
        0 ≤ (Op.effect op).1) ∧
      (∀ index ∈ Op.references [.leaf 0, .leaf (-1), .join .disjunction 0, .negate,
        .join .conjunction 5], Op.Finds ["p", "q"].length index) ∧
      Op.replay 0 [.leaf 0, .leaf (-1), .join .disjunction 0, .negate] = some 3 ∧
      ∃ stack, ((⟨"Tally", fun _ => pure 1, pure, fun _ operands => pure operands.length⟩ :
          Evaluator (StateM Unit) String Nat).runOps ["p", "q"] []
            [.leaf 0, .leaf (-1), .join .disjunction 0, .negate, .join .conjunction 5]).run.run ()
          = (.ok stack, ()) ∧ stack = [1, 2] ∧ (3 - 5 + 1 : Int) < stack.length := by
  let e : Encoding String := ⟨[.leaf 0, .leaf (-1), .join .disjunction 0, .negate,
    .join .conjunction 5], ["p", "q"]⟩
  have hcounts : ∀ op ∈ e.ops, 0 ≤ op.effect.1 := by decide
  have hfinds : ∀ index ∈ Op.references e.ops, Op.Finds e.leaves.length index := by decide
  have hreplay : Op.replay 0 [.leaf 0, .leaf (-1), .join .disjunction 0, .negate] = some 3 := by
    decide
  have hops : e.ops = [.leaf 0, .leaf (-1), .join .disjunction 0, .negate]
      ++ .join .conjunction 5 :: [] := rfl
  obtain ⟨_, _, -, -, -, stack, s, hrun, -, hshort⟩ :=
    heights_until_short hcounts hfinds (by decide)
      ⟨"Tally", fun _ => pure 1, pure, fun _ operands => pure operands.length⟩ () hops hreplay
  refine ⟨hcounts, hfinds, hreplay, stack, hrun, ?_, (hshort (by decide)).2⟩
  exact (Except.ok.inj (Prod.mk.inj hrun).1).symm

end PostfixSpec
