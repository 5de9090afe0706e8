import PostfixSpec.Proofs.CommandLine.Conclusion
import PostfixSpec.Proofs.CommandLine.Groups
import PostfixSpec.Proofs.Formula.Respelling
import PostfixSpec.Proofs.Property.Symbols

/-!
# One formula, two sources

A formula can be given on the command line or in a file. The file is decoded, and its line ends and the
blanks around it are changed, but the symbols are the same. So both runs conclude alike: with the same
answer, or with an error of the same kind. Only the place that the error names may be another one.
-/

namespace PostfixSpec.CommandLine

open Formula Text

/-- The minus sign begins no token, so a text that can be scanned is never taken for a switch. -/
theorem plain_of_legal {text : String} (h : (scan text).illegal = none) :
    text.toList.head? ≠ some '-' := by
  intro hhead
  obtain ⟨cs, hchars⟩ := List.head?_eq_some_iff.mp hhead
  have hillegal : (scan text).illegal = some ⟨'-', 0⟩ := by
    rw [scan, hchars, scanFrom, if_neg (by decide), if_neg (by decide)]
    rfl
  rw [h] at hillegal
  cases hillegal

/-- A file is read by what its bytes say. -/
theorem read_of_ofBytes {reader : File.Reader} {path kept : String} {bytes : List UInt8}
    (hnull : (File.Path.ofString path).hasNull = false)
    (hfile : reader (File.Path.ofString path) = .ok bytes)
    (hkept : Property.ofBytes bytes = .ok kept) :
    Source.read reader (.property (some path)) = .ok ⟨kept, kept⟩ := by
  have hproperty : Property.read reader (File.Path.ofString path) = .ok kept := by
    rw [Property.read, hnull, hfile]
    exact hkept
  rw [Source.read, hproperty]

section

variable {reader : File.Reader} {text kept : String} {source source' : Source}
  {names : List (Option String)} {verbose debug : Bool}

/-- The event of a rejection. -/
def rejection (error : ParseError) : Event :=
  .record .error ("Formula parsing error: " ++ error.message)

/-- Two texts with the same symbols lead to the same conclusion. -/
theorem exists_concludes_alike (hread : source.read reader = .ok ⟨text, text⟩)
    (hread' : source'.read reader = .ok ⟨kept, kept⟩) (hlegal : (scan text).illegal = none)
    (hlegal' : (scan kept).illegal = none) (hsymbols : (scan kept).symbols = (scan text).symbols) :
    ∃ exit event event', Concludes reader ⟨source, names, verbose, debug⟩ exit event ∧
      Concludes reader ⟨source', names, verbose, debug⟩ exit event' ∧
      ((∃ e, parse text = .ok e) → event = event') ∧
      ∀ error, parse text = .error error → ∃ other, error.SameKind other ∧
        event = rejection error ∧ event' = rejection other := by
  cases hparse : parse text with
  | error error =>
      obtain ⟨other, hother, hkind⟩ :=
        exists_sameKind_of_symbols hlegal hlegal' hsymbols.symm hparse
      refine ⟨_, _, _, .rejected hread hparse, .rejected hread' hother, ?_, ?_⟩
      · rintro ⟨e, he⟩
        exact nomatch he
      · intro _ herror
        cases herror
        exact ⟨other, hkind, rfl, rfl⟩
  | ok e =>
      have haccepted := parse_eq_ok_of_symbols hlegal' hsymbols.symm hparse
      by_cases hnames : none ∈ names
      · exact ⟨_, _, _, .nameless hread hparse hnames, .nameless hread' haccepted hnames,
          fun _ => rfl, nofun⟩
      · obtain ⟨names, rfl⟩ := exists_map_some hnames
        obtain ⟨-, s, hs, -⟩ := parse_eq_ok_iff.mp hparse
        exact ⟨_, _, _, .answered hread hlegal hs rfl,
          .answered hread' hlegal' (hs.trans hsymbols.symm) rfl, fun _ => rfl, nofun⟩

end

/-- **A formula on the command line and in a file.** Let a text have no illegal character and at least
one token, and let a file hold its bytes. In the place of the text among other groups, the file leads to
the same exit code. If the text is accepted and no other level is asked for, the output is the same too.
If it is rejected, both outputs end with an error of the same kind. -/
theorem run_text_and_file {text path : String} {before after : List Group}
    {spelling spelling' : Spelling} {reader : File.Reader} (hlegal : (scan text).illegal = none)
    (htokens : (scan text).tokens ≠ []) (hothers : ∀ g ∈ before ++ after, g.source? = none)
    (hpath : (Group.valued .property rfl spelling' path).Legible) (hseparator : path ≠ "--")
    (hnull : (File.Path.ofString path).hasNull = false)
    (hfile : reader (File.Path.ofString path) = .ok (Utf8.encode text.toList)) :
    let onText := run
      ((before ++ .valued .formula rfl spelling text :: after).flatMap Group.words) reader
    let onFile := run
      ((before ++ .valued .property rfl spelling' path :: after).flatMap Group.words) reader
    onText.exitCode = onFile.exitCode ∧
      ((∃ e, parse text = .ok e) →
        (∀ g ∈ before ++ after, g.isVerbose = false ∧ g.isDebug = false) →
        onText.output.stdout = onFile.output.stdout) ∧
      ∀ error, parse text = .error error → (∀ g ∈ before ++ after, g.Legible) →
        ∃ other shown shown', error.SameKind other ∧
          onText.output.stdout = shown ++ ("Formula parsing error: " ++ error.message ++ "\n") ∧
          onFile.output.stdout = shown' ++ ("Formula parsing error: " ++ other.message ++ "\n") := by
  intro onText onFile
  obtain ⟨kept, hkept, hlegal', hsymbols⟩ := Property.ofBytes_encode hlegal htokens
  have hread : Source.read reader (.formula (some text)) = .ok ⟨text, text⟩ := rfl
  have hread' := read_of_ofBytes hnull hfile hkept
  have hplain := plain_of_legal hlegal
  have htext : (Group.valued .formula rfl spelling text).Legible := Group.Plain.legible hplain
  have htextsource : (Group.valued .formula rfl spelling text).source?
      = some (.formula (some text)) :=
    congrArg (some ∘ Source.formula) (Draft.given_of_ne (ne_separator_of_plain hplain) _)
  have hfilesource : (Group.valued .property rfl spelling' path).source?
      = some (.property (some path)) :=
    congrArg (some ∘ Source.property) (Draft.given_of_ne hseparator _)
  by_cases hlegible : ∀ g ∈ before ++ after, g.Legible
  · have hone := readArguments_around hlegible hothers htext htextsource
    have hother := readArguments_around hlegible hothers hpath hfilesource
    obtain ⟨exit, event, event', h, h', haccepted, hrejected⟩ :=
      exists_concludes_alike hread hread' hlegal hlegal' hsymbols
    refine ⟨(h.exitCode_eq hone).trans (h'.exitCode_eq hother).symm, ?_, ?_⟩
    · intro hparse hflags
      obtain ⟨hverbose, hdebug⟩ := any_eq_false_of_flags hflags
      have hlast := h.stdout_eq hone hverbose hdebug
      rw [haccepted hparse] at hlast
      exact hlast.trans (h'.stdout_eq hother hverbose hdebug).symm
    · intro error hparse _
      obtain ⟨other, hkind, rfl, rfl⟩ := hrejected error hparse
      obtain ⟨events, -, hrun⟩ := h.run_eq hone
      obtain ⟨events', -, hrun'⟩ := h'.run_eq hother
      exact ⟨other, _, _, hkind, congrArg (·.output.stdout) hrun, congrArg (·.output.stdout) hrun'⟩
  · -- A name that is taken for something else keeps both command lines from being run.
    have hmistake (g : Group) : ¬ ∀ g' ∈ before ++ g :: after, g'.Legible := by
      refine fun hall => hlegible fun g' hg' => hall g' ?_
      exact ((List.sublist_cons_self g after).append_left before).subset hg'
    obtain ⟨hcode, hstdout⟩ := run_alike_of_illegible (hmistake _) (hmistake _) reader
    exact ⟨hcode, fun _ _ => hstdout, fun error _ hall => absurd hall hlegible⟩

/-- Blanks at the ends and line ends of each kind make no difference, but for the place of an error. -/
theorem run_text_and_file_stripped :
    (let reader : File.Reader := fun _ => .ok (Utf8.encode "\r\n p &\t(q\r| true)\n".toList)
      let onText := run ["-t", "p", "-f", "\r\n p &\t(q\r| true)\n", "--true=q"] reader
      let onFile := run ["-t", "p", "--property=f", "--true=q"] reader
      onText.exitCode = onFile.exitCode ∧ onText.output.stdout = onFile.output.stdout) ∧
    let reader : File.Reader := fun _ => .ok (Utf8.encode "\r\np & )".toList)
    ∃ other shown shown', (ParseError.unexpectedToken ⟨.closing, 6⟩).SameKind other ∧
      (run ["-f", "\r\np & )", "-v"] reader).output.stdout = shown ++ ("Formula parsing error: " ++
        (ParseError.unexpectedToken ⟨.closing, 6⟩).message ++ "\n") ∧
      (run ["-p", "f", "-v"] reader).output.stdout
        = shown' ++ ("Formula parsing error: " ++ other.message ++ "\n") := by
  constructor
  · intro reader
    have hothers : ∀ g ∈ [Group.valued .name rfl .letter "p", .valued .name rfl .joined "q"],
        g.source? = none ∧ g.isVerbose = false ∧ g.isDebug = false := by
      simp
    have hparse : parse "\r\n p &\t(q\r| true)\n"
        = .ok ⟨[.leaf 0, .leaf 1, .leaf 2, .join .disjunction 2, .join .conjunction 2],
          [.text "p", .text "q", .bool true]⟩ := by
      decide +kernel
    obtain ⟨hcode, hstdout, -⟩ := @run_text_and_file "\r\n p &\t(q\r| true)\n" "f"
      [.valued .name rfl .letter "p"] [.valued .name rfl .joined "q"] .letter .joined reader
      (by decide +kernel) (by decide +kernel) (fun g hg => (hothers g hg).1) (.inl rfl) (by decide)
      (by decide +kernel) rfl
    exact ⟨hcode, hstdout ⟨_, hparse⟩ fun g hg => (hothers g hg).2⟩
  · intro reader
    have hparse : parse "\r\np & )" = .error (.unexpectedToken ⟨.closing, 6⟩) := by decide +kernel
    have hothers : ∀ g ∈ [Group.verbose true], g.source? = none ∧ g.Legible := by
      simp [Group.Legible]
    obtain ⟨-, -, hrejected⟩ := @run_text_and_file "\r\np & )" "f" [] [.verbose true] .letter .letter
      reader (by decide +kernel) (by decide +kernel) (fun g hg => (hothers g hg).1)
      (.inr (by decide +kernel)) (by decide) (by decide +kernel) rfl
    exact hrejected _ hparse fun g hg => (hothers g hg).2

end PostfixSpec.CommandLine
