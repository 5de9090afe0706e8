import PostfixSpec.Proofs.CommandLine.Conclusion

/-!
# The outcome of a command line

Arguments that ask for a run lead to one of four exit codes, and each code has one reason. A run on a
property file that cannot be read exits with 3, a run on a text that is rejected with 2. A run that
misses a dropped value stumbles and exits with 5. All other runs exit with 0: no accepted text keeps its
specification from being described or evaluated.
-/

namespace PostfixSpec.CommandLine

open Formula

section

variable {args : List String} {options : Options} {reader : File.Reader}

theorem exitCode_eq_three_iff (hargs : readArguments args = .ok options) :
    (run args reader).exitCode = 3 ↔ ∃ path error, options.source = .property (some path) ∧
      Property.read reader (File.Path.ofString path) = .error error := by
  constructor
  · intro hcode
    obtain ⟨exit, event, hconcludes⟩ := exists_concludes reader options
    rw [hconcludes.exitCode_eq hargs] at hcode
    cases hconcludes with
    | unreadable hsource hfile => exact ⟨_, _, hsource, hfile⟩
    | _ => exact nomatch hcode
  · rintro ⟨path, error, hsource, hfile⟩
    exact (Concludes.unreadable hsource hfile).exitCode_eq hargs

theorem exitCode_eq_two_iff (hargs : readArguments args = .ok options) :
    (run args reader).exitCode = 2 ↔ ∃ formula error,
      options.source.read reader = .ok formula ∧ parse formula.text = .error error := by
  constructor
  · intro hcode
    obtain ⟨exit, event, hconcludes⟩ := exists_concludes reader options
    rw [hconcludes.exitCode_eq hargs] at hcode
    cases hconcludes with
    | rejected hread hparse => exact ⟨_, _, hread, hparse⟩
    | _ => exact nomatch hcode
  · rintro ⟨formula, error, hread, hparse⟩
    exact (Concludes.rejected hread hparse).exitCode_eq hargs

theorem exitCode_eq_five_iff (hargs : readArguments args = .ok options) :
    (run args reader).exitCode = 5 ↔ options.source = .property none ∨ ∃ formula e,
      options.source.read reader = .ok formula ∧ parse formula.text = .ok e ∧
        none ∈ options.names := by
  constructor
  · intro hcode
    obtain ⟨exit, event, hconcludes⟩ := exists_concludes reader options
    rw [hconcludes.exitCode_eq hargs] at hcode
    cases hconcludes with
    | pathless hsource => exact .inl hsource
    | nameless hread hparse hnames => exact .inr ⟨_, _, hread, hparse, hnames⟩
    | _ => exact nomatch hcode
  · rintro (hsource | ⟨formula, e, hread, hparse, hnames⟩)
    · exact (Concludes.pathless hsource).exitCode_eq hargs
    · exact (Concludes.nameless hread hparse hnames).exitCode_eq hargs

end

/-- What is accepted can be described and evaluated. -/
theorem exists_description_and_truth {text : String} {e : Encoding Leaf} (h : parse text = .ok e) :
    (∃ description, (Specification.encoded e).description = .ok (.text description)) ∧
      ∀ names, ∃ value, (Specification.encoded e).truth names = .ok value := by
  obtain ⟨t, -, hleaves, rfl⟩ := exists_expr_of_parse h
  exact ⟨⟨_, Expr.description_encode hleaves⟩, fun names => ⟨_, t.truth_encode names⟩⟩

/-- Whether an output is one line, with the description of a formula and its value. -/
def Answers (text : String) (names : List String) (stdout : String) : Prop :=
  ∃ (s : Sentence) (description : String), s.symbols = (scan text).symbols ∧
    (Specification.encoded s.encode).description = .ok (.text description) ∧
    Tidy description.toList ∧
    stdout = description ++ " => " ++ (if s.value names then "True" else "False") ++ "\n"

theorem answers_resultLine {text : String} {s : Sentence} (hsymbols : s.symbols = (scan text).symbols)
    (names : List String) :
    Answers text names (Report.resultLine (.text s.expr.formula) (s.value names) ++ "\n") := by
  have hleaves := nameable_of_scan hsymbols
  have hdescription := Expr.description_encode hleaves
  rw [s.encode_expr] at hdescription
  refine ⟨s, s.expr.formula, hsymbols, hdescription, (compact_formula s.binary_expr hleaves).tidy, ?_⟩
  cases s.value names <;> rfl

/-- **The outcome of a run.** Let arguments ask for a run. The exit code is 3 if and only if there is a
path and its file cannot be read, 2 if and only if there is a text and it is rejected, and 5 if and only
if a value was dropped that is needed then: the path, or a name once the text is accepted. It is 0
otherwise. For every accepted text and all names there are a description and a truth value. Unless more
is asked for, the output is one line: the error, or the description and the value of the formula under
the names that are given. -/
theorem run_outcome {args : List String} {options : Options}
    (hargs : readArguments args = .ok options) (reader : File.Reader) :
    ((run args reader).exitCode = 3 ↔ ∃ path error, options.source = .property (some path) ∧
      Property.read reader (File.Path.ofString path) = .error error) ∧
    ((run args reader).exitCode = 2 ↔ ∃ formula error,
      options.source.read reader = .ok formula ∧ parse formula.text = .error error) ∧
    ((run args reader).exitCode = 5 ↔ options.source = .property none ∨ ∃ formula e,
      options.source.read reader = .ok formula ∧ parse formula.text = .ok e ∧
        none ∈ options.names) ∧
    (run args reader).exitCode ∈ [0, 2, 3, 5] ∧
    (∀ text e, parse text = .ok e →
      (∃ description, (Specification.encoded e).description = .ok (.text description)) ∧
        ∀ names, ∃ value, (Specification.encoded e).truth names = .ok value) ∧
    (options.verbose = false → options.debug = false →
      ((run args reader).exitCode = 3 → ∃ path error, options.source = .property (some path) ∧
        Property.read reader (File.Path.ofString path) = .error error ∧
        (run args reader).output.stdout = "Property file error: " ++ error.message ++ "\n") ∧
      ((run args reader).exitCode = 2 → ∃ formula error,
        options.source.read reader = .ok formula ∧ parse formula.text = .error error ∧
        (run args reader).output.stdout = "Formula parsing error: " ++ error.message ++ "\n") ∧
      ((run args reader).exitCode = 5 → ∃ error : UnexpectedError,
        (run args reader).output.stdout = "Unexpected error: " ++ error.message ++ "\n") ∧
      ((run args reader).exitCode = 0 → ∃ formula names,
        options.source.read reader = .ok formula ∧ options.names = names.map some ∧
        Answers formula.text names (run args reader).output.stdout)) := by
  refine ⟨exitCode_eq_three_iff hargs, exitCode_eq_two_iff hargs, exitCode_eq_five_iff hargs, ?_,
    fun text e hparse => exists_description_and_truth hparse, ?_⟩
  · obtain ⟨exit, event, hconcludes⟩ := exists_concludes reader options
    rw [hconcludes.exitCode_eq hargs]
    cases exit <;> simp [Exit.code]
  · intro hverbose hdebug
    obtain ⟨exit, event, hconcludes⟩ := exists_concludes reader options
    rw [hconcludes.exitCode_eq hargs, hconcludes.stdout_eq hargs hverbose hdebug]
    cases hconcludes with
    | unreadable hsource hfile =>
        exact ⟨fun _ => ⟨_, _, hsource, hfile, rfl⟩, nofun, nofun, nofun⟩
    | rejected hread hparse =>
        exact ⟨nofun, fun _ => ⟨_, _, hread, hparse, rfl⟩, nofun, nofun⟩
    | pathless hsource => exact ⟨nofun, nofun, fun _ => ⟨.pathless, rfl⟩, nofun⟩
    | nameless hread hparse hnames =>
        exact ⟨nofun, nofun, fun _ => ⟨.run .nameless, rfl⟩, nofun⟩
    | answered hread hlegal hsymbols hnames =>
        exact ⟨nofun, nofun, nofun, fun _ => ⟨_, _, hread, hnames, answers_resultLine hsymbols _⟩⟩

theorem run_outcome_accepted :
    readArguments ["-f", "p & !q", "-t", "p"]
        = .ok ⟨.formula (some "p & !q"), [some "p"], false, false⟩ ∧
      ∃ formula names, Source.read (fun _ => .error .missing) (.formula (some "p & !q")) = .ok formula ∧
        [some "p"] = names.map some ∧
        Answers formula.text names
          (run ["-f", "p & !q", "-t", "p"] fun _ => .error .missing).output.stdout := by
  have hargs : readArguments ["-f", "p & !q", "-t", "p"]
      = .ok ⟨.formula (some "p & !q"), [some "p"], false, false⟩ := by
    decide +kernel
  have hcode : (run ["-f", "p & !q", "-t", "p"] fun _ => .error .missing).exitCode = 0 := by
    decide +kernel
  obtain ⟨-, -, -, -, -, houtput⟩ := run_outcome hargs fun _ => .error .missing
  obtain ⟨-, -, -, hanswers⟩ := houtput rfl rfl
  exact ⟨hargs, hanswers hcode⟩

/-- A dropped name ends a run that has an accepted formula. -/
theorem run_outcome_dropped :
    readArguments ["-f", "p", "-t--"] = .ok ⟨.formula (some "p"), [none], false, false⟩ ∧
      (∃ e, parse "p" = .ok e) ∧
      (run ["-f", "p", "-t--"] fun _ => .error .missing).exitCode ∉ [0, 2, 3] := by
  refine ⟨by decide +kernel, ?_, by decide +kernel⟩
  have hparse : parse "p" = .ok ⟨[.leaf 0], [.text "p"]⟩ := by decide +kernel
  exact ⟨_, hparse⟩

end PostfixSpec.CommandLine
