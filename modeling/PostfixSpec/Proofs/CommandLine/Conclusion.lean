import PostfixSpec.CommandLine.Run
import PostfixSpec.Proofs.Console.Quiet
import PostfixSpec.Proofs.Formula.Display
import PostfixSpec.Proofs.Formula.Failure
import PostfixSpec.Proofs.Formula.Meaning

/-!
# How a run concludes

Options that can be run lead to one of five conclusions. Each of them fixes the exit and the last thing
that is said, and everything said before is quiet. A file may be unreadable and a formula may be
rejected. Dropped values make a run stumble: over the path that is missing, or over a name that is none.
In every other case there is an answer, because what the parser accepts has a description and, under
any names, a truth value.
-/

namespace PostfixSpec

open Formula

/-! ### Reports -/

namespace Report

private theorem run_lift_bind {ε α β : Type} (x : Traced α) (next : α → ExceptT ε Traced β) :
    (ExceptT.lift x >>= next).run
      = ⟨x.events ++ (next x.value).run.events, (next x.value).run.value⟩ := by
  rw [ExceptT.run_bind_lift]
  rfl

private theorem mk_ok_bind {ε α β : Type} (a : α) (next : α → ExceptT ε Traced β) :
    (ExceptT.mk (pure (.ok a)) >>= next) = next a := rfl

variable {spec : Specification Leaf} {description : Leaf}

theorem run_of_names {names : List String} {value : Bool}
    (hdescription : spec.description = .ok description) (hvalue : spec.truth names = .ok value) :
    ∃ events, (∀ event ∈ events, event.Quiet) ∧
      (run spec (names.map some)).run
        = ⟨events ++ [.line (resultLine description value)], .ok value⟩ := by
  have hquiet := List.forall_mem_append.mpr ⟨List.forall_mem_append.mpr
    ⟨quiet_announce spec Evaluator.description.name,
      quiet_announce spec (Evaluator.assignment names).name⟩, quiet_assignment names⟩
  refine ⟨_, hquiet, ?_⟩
  have hnames : (names.map some).mapM id = some names := mapM_eq_some_iff.mpr (List.map_id _)
  unfold run
  simp only [hnames, hdescription, hvalue, Except.mapError, mk_ok_bind, run_lift_bind,
    List.append_assoc]
  rfl

theorem run_of_nameless {names : List (Option String)}
    (hdescription : spec.description = .ok description) (h : none ∈ names) :
    ∃ events, (∀ event ∈ events, event.Quiet) ∧
      (run spec names).run = ⟨events, .error .nameless⟩ := by
  refine ⟨_, quiet_announce spec Evaluator.description.name, ?_⟩
  have hstop : (throw .nameless : ExceptT RunError Traced Bool).run = ⟨[], .error .nameless⟩ := rfl
  have hnames : names.mapM id = none := mapM_eq_none_iff.mpr ⟨none, h, rfl⟩
  unfold run
  simp only [hnames, hdescription, Except.mapError, mk_ok_bind, run_lift_bind]
  rw [hstop, List.append_nil]

end Report

namespace CommandLine

/-- How a run ends on some options: its exit, and what it says last. -/
inductive Concludes (reader : File.Reader) (options : Options) : Exit → Event → Prop
  | unreadable {path : String} {error : PropertyError} :
      options.source = .property (some path) →
      Property.read reader (File.Path.ofString path) = .error error →
      Concludes reader options .propertyError
        (.record .error ("Property file error: " ++ error.message))
  | pathless : options.source = .property none →
      Concludes reader options (.unexpected .pathless)
        (.record .error ("Unexpected error: " ++ UnexpectedError.pathless.message))
  | rejected {formula : FormulaText} {error : ParseError} :
      options.source.read reader = .ok formula → parse formula.text = .error error →
      Concludes reader options .formulaError
        (.record .error ("Formula parsing error: " ++ error.message))
  | nameless {formula : FormulaText} {e : Encoding Leaf} :
      options.source.read reader = .ok formula → parse formula.text = .ok e →
      none ∈ options.names →
      Concludes reader options (.unexpected (.run .nameless))
        (.record .error ("Unexpected error: " ++ (UnexpectedError.run .nameless).message))
  | answered {formula : FormulaText} {s : Sentence} {names : List String} :
      options.source.read reader = .ok formula → (scan formula.text).illegal = none →
      s.symbols = (scan formula.text).symbols → options.names = names.map some →
      Concludes reader options .success
        (.line (Report.resultLine (.text s.expr.formula) (s.value names)))

variable {reader : File.Reader} {options : Options}

/-- Only a property file can fail to give a text, if there is a path to it at all. -/
theorem source_of_read {source : Source} {error : SourceError}
    (h : source.read reader = .error error) :
    (∃ path error, source = .property (some path) ∧
      Property.read reader (File.Path.ofString path) = .error error) ∨ source = .property none := by
  match source with
  | .formula none => exact nomatch h
  | .formula (some text) => exact nomatch h
  | .property none => exact .inr rfl
  | .property (some path) =>
      rw [Source.read] at h
      cases hfile : Property.read reader (File.Path.ofString path) with
      | error error => exact .inl ⟨path, error, rfl, hfile⟩
      | ok text =>
          rw [hfile] at h
          exact nomatch h

/-- There is always a conclusion. -/
theorem exists_concludes (reader : File.Reader) (options : Options) :
    ∃ exit event, Concludes reader options exit event := by
  cases hread : options.source.read reader with
  | error error =>
      rcases source_of_read hread with ⟨path, error, hsource, hfile⟩ | hsource
      · exact ⟨_, _, .unreadable hsource hfile⟩
      · exact ⟨_, _, .pathless hsource⟩
  | ok formula =>
      cases hparse : parse formula.text with
      | error error => exact ⟨_, _, .rejected hread hparse⟩
      | ok e =>
          by_cases hnames : none ∈ options.names
          · exact ⟨_, _, .nameless hread hparse hnames⟩
          · obtain ⟨names, hnames⟩ := exists_map_some hnames
            obtain ⟨hlegal, s, hsymbols, -⟩ := parse_eq_ok_iff.mp hparse
            exact ⟨_, _, .answered hread hlegal hsymbols hnames⟩

theorem run_parseShown {text : String} {result : Except ParseError (Encoding Leaf)}
    (h : parse text = result) (shown : String) :
    (parseShown shown text).run = ⟨parseEvents shown text, result⟩ := by
  rw [← h]
  rfl

theorem runFormula_of_error {formula : FormulaText} {error : ParseError}
    (h : parse formula.text = .error error) (names : List (Option String)) :
    runFormula formula names
      = ⟨parseEvents formula.shown formula.text ++
          [.record .error ("Formula parsing error: " ++ error.message)], .formulaError⟩ := by
  rw [runFormula, run_parseShown h]
  rfl

theorem runFormula_of_ok {formula : FormulaText} {e : Encoding Leaf} {names : List (Option String)}
    {said : List Event} {result : Except Report.RunError Bool} (h : parse formula.text = .ok e)
    (hreport : (Report.run (.encoded e) names).run = ⟨said, result⟩) :
    runFormula formula names
      = (⟨parseEvents formula.shown formula.text ++
            ((Report.formulaLoaded formula.shown e.describe).events ++ said), result⟩ >>= fun
          | .error error => stumble (.run error)
          | .ok _ => pure .success) := by
  rw [runFormula, run_parseShown h]
  refine Traced.ext ?_ ?_
  · cases result <;> simp only [Traced.bind_events, hreport, List.append_assoc]
  · cases result <;> simp only [Traced.bind_value, hreport]

/-- What is said before the result of an accepted formula. -/
theorem quiet_before (formula : FormulaText) (e : Encoding Leaf) {said : List Event}
    (hsaid : ∀ event ∈ said, event.Quiet) :
    ∀ event ∈ parseEvents formula.shown formula.text ++
      ((Report.formulaLoaded formula.shown e.describe).events ++ said), event.Quiet := by
  refine List.forall_mem_append.mpr ⟨quiet_parseShown formula.shown formula.text, ?_⟩
  exact List.forall_mem_append.mpr ⟨Report.quiet_formulaLoaded formula.shown e.describe, hsaid⟩

/-- **What a run says and how it exits.** -/
theorem Concludes.execute_eq {exit : Exit} {event : Event} (h : Concludes reader options exit event) :
    ∃ events, (∀ event ∈ events, event.Quiet) ∧ execute reader options = ⟨events ++ [event], exit⟩ := by
  cases h with
  | @unreadable path error hsource hfile =>
      have hread : options.source.read reader = .error (.property error) := by
        rw [hsource, Source.read, hfile]
      refine ⟨[], List.forall_mem_nil _, ?_⟩
      rw [execute, hread]
      rfl
  | pathless hsource =>
      refine ⟨[], List.forall_mem_nil _, ?_⟩
      rw [execute, hsource]
      rfl
  | @rejected formula error hread hparse =>
      refine ⟨_, quiet_parseShown formula.shown formula.text, ?_⟩
      rw [execute, hread]
      exact runFormula_of_error hparse _
  | @nameless formula e hread hparse hnames =>
      obtain ⟨t, -, hleaves, rfl⟩ := exists_expr_of_parse hparse
      obtain ⟨said, hsaid, hreport⟩ :=
        Report.run_of_nameless (Expr.description_encode hleaves) hnames
      refine ⟨_, quiet_before formula t.encode hsaid, ?_⟩
      rw [execute, hread]
      exact runFormula_of_ok hparse hreport
  | @answered formula s names hread hlegal hsymbols hnames =>
      have hparse := parse_eq_ok_iff.mpr ⟨hlegal, s, hsymbols, rfl⟩
      have hdescription := Expr.description_encode (nameable_of_scan hsymbols)
      rw [s.encode_expr] at hdescription
      obtain ⟨said, hsaid, hreport⟩ := Report.run_of_names hdescription (s.truth_encode names)
      refine ⟨_, quiet_before formula s.encode hsaid, ?_⟩
      rw [execute, hread, hnames]
      refine (runFormula_of_ok hparse hreport).trans (Traced.ext ?_ rfl)
      simp only [Traced.bind_events, Traced.pure_events, List.append_nil, List.append_assoc]

/-! ### What is printed -/

/-- The text of an event, without what a console puts around it. -/
def lastLine : Event → String
  | .record _ message => message
  | .line text => text

/-- What is said last is shown at every level, as it is. -/
theorem Concludes.write_eq {exit : Exit} {event : Event} (h : Concludes reader options exit event)
    (debug verbose : Bool) :
    (Console.initial.configure debug verbose).write event = .line (lastLine event) := by
  cases h with
  | answered => rfl
  | _ => exact Console.write_error debug verbose _

/-- The last line stands at the end, behind what the level lets through. -/
theorem Concludes.run_eq {args : List String} {exit : Exit} {event : Event}
    (hargs : readArguments args = .ok options) (h : Concludes reader options exit event) :
    ∃ events, (∀ event ∈ events, event.Quiet) ∧ run args reader
      = ⟨exit.code,
          (Console.initial.configure options.debug options.verbose).writeAll events ++
            .line (lastLine event), exit.unexpected?⟩ := by
  obtain ⟨events, hquiet, hexecute⟩ := h.execute_eq
  refine ⟨events, hquiet, ?_⟩
  rw [run, hargs]
  simp only [hexecute, Console.writeAll_append, Console.writeAll_singleton, h.write_eq]

theorem Concludes.exitCode_eq {args : List String} {exit : Exit} {event : Event}
    (hargs : readArguments args = .ok options) (h : Concludes reader options exit event) :
    (run args reader).exitCode = exit.code := by
  obtain ⟨events, -, hrun⟩ := h.run_eq hargs
  rw [hrun]

/-- At the default level the last line is the only one. -/
theorem Concludes.stdout_eq {args : List String} {exit : Exit} {event : Event}
    (hargs : readArguments args = .ok options) (h : Concludes reader options exit event)
    (hverbose : options.verbose = false) (hdebug : options.debug = false) :
    (run args reader).output.stdout = lastLine event ++ "\n" := by
  obtain ⟨events, hquiet, hrun⟩ := h.run_eq hargs
  rw [hrun, hverbose, hdebug, Console.writeAll_quiet hquiet, Output.empty_append]
  rfl

end CommandLine

end PostfixSpec
