import PostfixSpec.Proofs.CommandLine.Conclusion
import PostfixSpec.Proofs.CommandLine.Groups
import PostfixSpec.Proofs.Console.Lines

/-!
# Asking for more output

Two switches ask for more output. In front of other words neither changes what these ask for: the same
mistakes are made, and a run has the same options but for its level. What a run does and says does not
depend on the level at all; only the console does, which shows more of the same events. The last of them
is shown at every level. So both switches add lines, and none behind the last one.
-/

namespace PostfixSpec.CommandLine

/-! ### Arguments behind a switch that asks for more -/

/-- The same draft with more asked for. -/
def Draft.louder (verbose debug : Bool) (d : Draft) : Draft :=
  { d with verbose := verbose || d.verbose, debug := debug || d.debug }

/-- The same options with more asked for. -/
def Options.louder (verbose debug : Bool) (options : Options) : Options :=
  { options with verbose := verbose || options.verbose, debug := debug || options.debug }

section

variable (verbose debug : Bool)

theorem Draft.setSource_louder (d : Draft) (source : Source) :
    (d.louder verbose debug).setSource source
      = (d.setSource source).map (Draft.louder verbose debug) := by
  obtain ⟨earlier, names, _, _, extras⟩ := d
  cases earlier with
  | none => rfl
  | some earlier =>
      simp only [setSource, louder]
      split <;> rfl

theorem Draft.take_louder (d : Draft) (step : Step) :
    (d.louder verbose debug).take step = (d.take step).map (Draft.louder verbose debug) := by
  cases step with
  | flag s => cases s <;> simp [take, louder, Except.map]
  | valued s attached value =>
      cases s with
      | formula => exact d.setSource_louder verbose debug _
      | property => exact d.setSource_louder verbose debug _
      | _ => rfl
  | extra word => rfl
  | mistake error => rfl

theorem takeSteps_louder (d : Draft) (steps : List Step) :
    takeSteps (d.louder verbose debug) steps
      = (takeSteps d steps).map (Draft.louder verbose debug) := by
  induction steps generalizing d with
  | nil => rfl
  | cons step steps ih =>
      rw [takeSteps, takeSteps, List.foldlM_cons, List.foldlM_cons, Draft.take_louder]
      cases d.take step with
      | error refusal => rfl
      | ok next => exact ih next

theorem Draft.options_louder (d : Draft) :
    (d.louder verbose debug).options = d.options.map (Options.louder verbose debug) := by
  obtain ⟨source, names, _, _, extras⟩ := d
  cases source with
  | none => rfl
  | some source => cases extras <;> rfl

end

variable {verbose debug : Bool} {words args args' : List String} {options options' : Options}

/-- Words that ask for nothing but more leave the words behind them as they are. -/
theorem readArguments_louder {steps : List Step} (hreads : Reads words steps)
    (hsteps : takeSteps .initial steps = .ok (Draft.initial.louder verbose debug))
    (args : List String) :
    readArguments (words ++ args) = (readArguments args).map (Options.louder verbose debug) := by
  obtain ⟨kinds, hread, hkinds⟩ := hreads
  rw [readArguments, readArguments, hread]
  cases readWords args with
  | error error => rfl
  | ok rest =>
      have htake : takeSteps .initial (stepsFrom none (kinds ++ rest))
          = (takeSteps .initial (stepsFrom none rest)).map (Draft.louder verbose debug) := by
        rw [hkinds, ← takeSteps_louder, takeSteps, List.foldlM_append]
        rw [takeSteps] at hsteps
        rw [hsteps]
        rfl
      show (takeSteps .initial (stepsFrom none (kinds ++ rest))).bind Draft.options
        = ((takeSteps .initial (stepsFrom none rest)).bind Draft.options).map _
      rw [htake]
      cases takeSteps .initial (stepsFrom none rest) with
      | error refusal => rfl
      | ok d => exact d.options_louder verbose debug

theorem readArguments_verbose (args : List String) :
    readArguments ("-v" :: args) = (readArguments args).map (Options.louder true false) :=
  readArguments_louder (reads_group (g := .verbose true) trivial) rfl args

theorem readArguments_debug (args : List String) :
    readArguments ("--debug" :: args) = (readArguments args).map (Options.louder false true) :=
  readArguments_louder (reads_group (g := .debug) trivial) rfl args

/-! ### Runs at two levels -/

/-- Whether an outcome is another one with more lines printed, and none of them behind its last. -/
structure Outcome.Extends (more less : Outcome) : Prop where
  exitCode : more.exitCode = less.exitCode
  stderr : more.output.stderr = less.output.stderr
  unexpected : more.unexpected = less.unexpected
  lines : (Text.lines less.output.stdout.toList).Sublist (Text.lines more.output.stdout.toList)
  last : (Text.lines more.output.stdout.toList).getLast?
    = (Text.lines less.output.stdout.toList).getLast?
  silent : more.output.stdout = "" ↔ less.output.stdout = ""

theorem Outcome.Extends.refl (outcome : Outcome) : outcome.Extends outcome where
  exitCode := rfl
  stderr := rfl
  unexpected := rfl
  lines := .refl _
  last := rfl
  silent := Iff.rfl

variable {reader : File.Reader}

theorem run_of_execute {said : List Event} {exit : Exit} (hargs : readArguments args = .ok options)
    (h : execute reader options = ⟨said, exit⟩) :
    run args reader = ⟨exit.code,
      (Console.initial.configure options.debug options.verbose).writeAll said, exit.unexpected?⟩ := by
  rw [run, hargs]
  simp only [h]

/-- What is said last is shown at every level. -/
theorem Concludes.shownFrom {exit : Exit} {event : Event} (h : Concludes reader options exit event)
    (level : Level) : event.shownFrom level = true := by
  cases h with
  | answered => rfl
  | _ => cases level <;> rfl

theorem levelOf_louder (verbose debug : Bool) (options : Options) :
    (Console.levelOf (options.louder verbose debug).debug (options.louder verbose debug).verbose).number
      ≤ (Console.levelOf options.debug options.verbose).number := by
  obtain ⟨source, names, verbose', debug'⟩ := options
  show (Console.levelOf (debug || debug') (verbose || verbose')).number
    ≤ (Console.levelOf debug' verbose').number
  revert verbose debug verbose' debug'
  decide

theorem run_louder_extends (hargs : readArguments args = .ok options)
    (hargs' : readArguments args' = .ok (options.louder verbose debug)) (reader : File.Reader) :
    (run args' reader).Extends (run args reader) := by
  obtain ⟨exit, event, hconcludes⟩ := exists_concludes reader options
  obtain ⟨events, -, hexecute⟩ := hconcludes.execute_eq
  -- The level is no part of what is executed.
  have hexecute' : execute reader (options.louder verbose debug) = ⟨events ++ [event], exit⟩ := hexecute
  have hlast (debug verbose : Bool) :=
    Console.getLast?_lines_writeAll debug verbose events (hconcludes.shownFrom _)
  rw [run_of_execute hargs hexecute, run_of_execute hargs' hexecute']
  constructor
  · rfl
  · exact (Console.stderr_writeAll _ _ _).trans (Console.stderr_writeAll _ _ _).symm
  · rfl
  · exact Console.lines_writeAll_sublist (levelOf_louder verbose debug options) _
  · exact (hlast _ _).trans (hlast _ _).symm
  · exact Text.eq_empty_iff_of_getLast?_lines ((hlast _ _).trans (hlast _ _).symm)

/-- Arguments that make no sense make none behind more words. -/
theorem run_extends (hargs : readArguments args' = (readArguments args).map (Options.louder verbose debug))
    (reader : File.Reader) : (run args' reader).Extends (run args reader) := by
  cases hread : readArguments args with
  | error refusal =>
      have hread' : readArguments args' = .error refusal := by rw [hargs, hread]; rfl
      have hrun : run args' reader = run args reader := by rw [run, run, hread, hread']
      rw [hrun]
      exact .refl _
  | ok options =>
      rw [hread] at hargs
      exact run_louder_extends hread hargs reader

/-- Below the lowest level there is nothing more to show. -/
theorem run_eq_of_debug {verbose' : Bool} {args'' : List String}
    (hargs : readArguments args' = (readArguments args).map (Options.louder verbose true))
    (hargs' : readArguments args'' = (readArguments args).map (Options.louder verbose' true))
    (reader : File.Reader) : run args' reader = run args'' reader := by
  rw [run, run, hargs, hargs']
  cases readArguments args <;> rfl

/-- **More output.** In front of any arguments, either switch leads to the same exit and the same error
output, and only adds lines that are not the last. Behind `--debug` or in front of it, `-v` adds none. -/
theorem run_verbosity (args : List String) (reader : File.Reader) :
    (run ("-v" :: args) reader).Extends (run args reader) ∧
      (run ("--debug" :: args) reader).Extends (run args reader) ∧
      run ("-v" :: "--debug" :: args) reader = run ("--debug" :: args) reader ∧
      run ("--debug" :: "-v" :: args) reader = run ("--debug" :: args) reader := by
  have hboth : readArguments ("-v" :: "--debug" :: args)
      = (readArguments args).map (Options.louder true true) := by
    rw [readArguments_verbose, readArguments_debug]
    cases readArguments args <;> rfl
  have hboth' : readArguments ("--debug" :: "-v" :: args)
      = (readArguments args).map (Options.louder true true) := by
    rw [readArguments_debug, readArguments_verbose]
    cases readArguments args <;> rfl
  refine ⟨run_extends (readArguments_verbose args) reader,
    run_extends (readArguments_debug args) reader, ?_, ?_⟩
  · exact run_eq_of_debug hboth (readArguments_debug args) reader
  · exact run_eq_of_debug hboth' (readArguments_debug args) reader

example : (run ["-f", "p"] fun _ => .error .missing).output.stdout = "p => False\n" ∧
    (run ["-v", "-f", "p"] fun _ => .error .missing).output.stdout
      = "Formula: p\nTrue leaves: (none)\np => False\n" := by
  decide +kernel

end PostfixSpec.CommandLine
