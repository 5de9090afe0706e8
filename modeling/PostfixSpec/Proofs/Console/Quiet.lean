import PostfixSpec.Console
import PostfixSpec.Formula.Parser
import PostfixSpec.Report

/-!
# What a fresh console shows

A console that is configured once has one handler of its own, and both let through the records from one
level on. So events below warnings are quiet: the default level shows none of them. Parsing says nothing
else, and neither does a report before its result.
-/

namespace PostfixSpec

/-! ### Outputs one after the other -/

namespace Output

@[ext] theorem ext {a b : Output} (hout : a.stdout = b.stdout) (herr : a.stderr = b.stderr) :
    a = b := by
  cases a
  cases b
  cases hout
  cases herr
  rfl

@[simp] theorem stdout_append (a b : Output) : (a ++ b).stdout = a.stdout ++ b.stdout := rfl

@[simp] theorem stderr_append (a b : Output) : (a ++ b).stderr = a.stderr ++ b.stderr := rfl

@[simp] theorem empty_append (a : Output) : empty ++ a = a :=
  ext String.empty_append String.empty_append

@[simp] theorem append_empty (a : Output) : a ++ empty = a :=
  ext String.append_empty String.append_empty

theorem append_assoc (a b c : Output) : a ++ b ++ c = a ++ (b ++ c) :=
  ext String.append_assoc String.append_assoc

theorem concat_append (xs ys : List Output) : concat (xs ++ ys) = concat xs ++ concat ys := by
  induction xs with
  | nil => exact (empty_append _).symm
  | cons x xs ih =>
      show x ++ concat (xs ++ ys) = x ++ concat xs ++ concat ys
      rw [ih, append_assoc]

theorem concat_singleton (x : Output) : concat [x] = x := append_empty x

end Output

/-! ### A console configured once -/

namespace Console

theorem writeAll_append (c : Console) (xs ys : List Event) :
    c.writeAll (xs ++ ys) = c.writeAll xs ++ c.writeAll ys := by
  rw [writeAll, List.map_append, Output.concat_append]
  rfl

theorem writeAll_singleton (c : Console) (event : Event) : c.writeAll [event] = c.write event :=
  Output.concat_singleton _

/-- A fresh console shows the records from its level on. -/
theorem write_record (debug verbose : Bool) (level : Level) (message : String) :
    (initial.configure debug verbose).write (.record level message)
      = if (levelOf debug verbose).number ≤ level.number
        then .line (formatRecord level.number message) else .empty := by
  have hconsole : initial.configure debug verbose
      = ⟨levelOf debug verbose, [.console 0 (levelOf debug verbose)], some 0, 1, none⟩ := rfl
  rw [hconsole, write, emit]
  by_cases hlevel : (levelOf debug verbose).number ≤ level.number
  · rw [if_neg (Int.not_lt.mpr hlevel), if_pos hlevel]
    show Output.concat [handle _ _ _] = _
    rw [Output.concat_singleton, handle, if_pos hlevel]
  · rw [if_pos (Int.not_le.mp hlevel), if_neg hlevel]

/-- Errors are shown at every level, as they are. -/
theorem write_error (debug verbose : Bool) (message : String) :
    (initial.configure debug verbose).write (.record .error message) = .line message := by
  rw [write_record, if_pos (by cases debug <;> cases verbose <;> decide)]
  rfl

end Console

/-! ### Quiet events -/

/-- A record below warnings. -/
def Event.Quiet : Event → Prop
  | .record level _ => level.number < Level.warning.number
  | .line _ => False

/-- At the default level quiet events leave no trace. -/
theorem Console.writeAll_quiet {events : List Event} (h : ∀ event ∈ events, event.Quiet) :
    (initial.configure false false).writeAll events = .empty := by
  induction events with
  | nil => rfl
  | cons event events ih =>
      obtain ⟨hevent, hevents⟩ := List.forall_mem_cons.mp h
      cases event with
      | line text => exact hevent.elim
      | record level message =>
          have hlevel : ¬ (levelOf false false).number ≤ level.number := Int.not_le.mpr hevent
          rw [← List.singleton_append, writeAll_append, writeAll_singleton, ih hevents, write_record,
            if_neg hlevel]
          rfl

/-- A computation that says nothing but quiet events. -/
def Traced.Quiet {α : Type} (x : Traced α) : Prop := ∀ event ∈ x.events, event.Quiet

namespace Traced

variable {ε α β : Type}

@[ext] theorem ext {x y : Traced α} (hevents : x.events = y.events) (hvalue : x.value = y.value) :
    x = y := by
  cases x
  cases y
  cases hevents
  cases hvalue
  rfl

theorem Quiet.pure (a : α) : Quiet (pure a) := List.forall_mem_nil _

theorem Quiet.bind {x : Traced α} {next : α → Traced β} (hx : x.Quiet)
    (hnext : ∀ a, (next a).Quiet) : (x >>= next).Quiet :=
  List.forall_mem_append.mpr ⟨hx, hnext x.value⟩

theorem quiet_log {level : Level} (h : level.number < Level.warning.number) (message : String) :
    (log level message).Quiet :=
  List.forall_mem_singleton.mpr h

theorem quiet_throw (error : ε) : (throw error : ExceptT ε Traced α).run.Quiet :=
  List.forall_mem_nil _

theorem quiet_return (a : α) : (pure a : ExceptT ε Traced α).run.Quiet := List.forall_mem_nil _

theorem quiet_lift {x : Traced α} (h : x.Quiet) : (ExceptT.lift x : ExceptT ε Traced α).run.Quiet := by
  rw [ExceptT.run_lift]
  intro event hevent
  refine h event ?_
  simpa [Functor.map] using hevent

theorem quiet_run_bind {x : ExceptT ε Traced α} {next : α → ExceptT ε Traced β} (hx : x.run.Quiet)
    (hnext : ∀ a, (next a).run.Quiet) : (x >>= next).run.Quiet := by
  rw [ExceptT.run_bind]
  refine Quiet.bind hx ?_
  rintro (error | a)
  · exact List.forall_mem_nil _
  · exact hnext a

end Traced

/-! ### Parsing is quiet -/

namespace Formula

theorem quiet_combineTraced (c : Connective) (parts : List (Encoding Leaf)) :
    (Encoding.combineTraced c parts).Quiet := by
  refine Traced.Quiet.bind (Traced.quiet_log (by decide) _) ?_
  intro _
  exact Traced.Quiet.pure _

theorem quiet_finish (loosest : Connective) (operand : Encoding Leaf) (frames : List Frame) :
    (finish loosest operand frames).Quiet := by
  fun_induction finish loosest operand frames with
  | case1 operand frames ih => exact ih
  | case2 operand left frames ih => exact (quiet_combineTraced _ _).bind ih
  | case3 operand left frames hloosest => exact Traced.Quiet.pure _
  | case4 operand left frames hloosest ih =>
      subst hloosest
      exact (quiet_combineTraced _ _).bind ih
  | case5 operand frames => exact Traced.Quiet.pure _

theorem quiet_take (p : Progress) (token : Token) : (p.take token).run.Quiet := by
  obtain ⟨symbol, start⟩ := token
  cases p with
  | wanting frames => cases symbol <;> exact List.forall_mem_nil _
  | holding frames operand =>
      cases symbol with
      | connective c =>
          refine Traced.quiet_run_bind (Traced.quiet_lift (quiet_finish c operand frames)) ?_
          intro _
          exact Traced.quiet_return _
      | closing =>
          refine Traced.quiet_run_bind (Traced.quiet_lift (quiet_finish .disjunction operand frames)) ?_
          rintro ⟨rest, joined⟩
          rcases rest with _ | ⟨_ | _ | _, rest⟩ <;> exact List.forall_mem_nil _
      | _ => exact List.forall_mem_nil _

theorem quiet_close (p : Progress) : p.close.run.Quiet := by
  cases p with
  | wanting frames => exact Traced.quiet_throw _
  | holding frames operand =>
      refine Traced.quiet_run_bind (Traced.quiet_lift (quiet_finish .disjunction operand frames)) ?_
      rintro ⟨rest, joined⟩
      cases rest <;> exact List.forall_mem_nil _

theorem quiet_foldlM_take (tokens : List Token) (p : Progress) :
    (tokens.foldlM Progress.take p).run.Quiet := by
  induction tokens generalizing p with
  | nil => exact Traced.quiet_return _
  | cons token tokens ih =>
      rw [List.foldlM_cons]
      exact Traced.quiet_run_bind (quiet_take p token) ih

theorem quiet_parseScan (s : Scan) : (parseScan s).run.Quiet := by
  refine Traced.quiet_run_bind (quiet_foldlM_take s.tokens _) fun p => ?_
  cases s.illegal with
  | none => exact quiet_close p
  | some illegal => exact Traced.quiet_throw _

/-- **Parsing is quiet, however it ends.** -/
theorem quiet_parseShown (shown text : String) : (parseShown shown text).run.Quiet := by
  have hreports : ∀ reports : List String,
      ∀ event ∈ reports.map (Event.record .debug), event.Quiet := by
    intro reports event hevent
    obtain ⟨message, -, rfl⟩ := List.mem_map.mp hevent
    show Level.debug.number < Level.warning.number
    decide
  refine List.forall_mem_append.mpr ⟨List.forall_mem_append.mpr ⟨hreports _, ?_⟩, hreports _⟩
  exact quiet_parseScan _

end Formula

/-! ### Reports are quiet up to their result -/

namespace Report

theorem quiet_announce (spec : Specification Leaf) (evaluatorName : String) :
    (spec.announce evaluatorName).Quiet := by
  cases spec with
  | zero => exact Traced.Quiet.pure _
  | encoded e => exact Traced.quiet_log (by decide) _

theorem quiet_assignment (names : List String) : (assignment names).Quiet :=
  Traced.quiet_log (by decide) _

theorem quiet_formulaLoaded (formula compiled : String) : (formulaLoaded formula compiled).Quiet :=
  Traced.Quiet.bind (Traced.quiet_log (by decide) _) fun _ => Traced.quiet_log (by decide) _

end Report

end PostfixSpec
