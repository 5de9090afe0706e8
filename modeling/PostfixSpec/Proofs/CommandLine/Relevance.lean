import PostfixSpec.Proofs.CommandLine.Conclusion
import PostfixSpec.Proofs.CommandLine.Groups

/-!
# Names that matter to a run

A run looks at its names once, when it asks which of the names in its formula hold. So two runs on the
same source conclude alike if they are given the same of these names. What else is given, how often and
in which order, is neither in the exit code nor in the answer.
-/

namespace PostfixSpec.CommandLine

open Formula

/-! ### Options that differ in names -/

section

variable {reader : File.Reader} {options others : Options} {names more : List String}

/-- Options conclude alike if their names agree on the formula. -/
theorem Concludes.of_agreeOn {exit : Exit} {event : Event} (h : Concludes reader options exit event)
    (hsource : others.source = options.source) (hnames : options.names = names.map some)
    (hmore : others.names = more.map some)
    (hagree : ∀ formula, options.source.read reader = .ok formula →
      AgreeOn (scan formula.text).symbols names more) :
    Concludes reader others exit event := by
  cases h with
  | unreadable hproperty hfile => exact .unreadable (hsource.trans hproperty) hfile
  | pathless hproperty => exact .pathless (hsource.trans hproperty)
  | rejected hread hparse => exact .rejected (by rw [hsource, hread]) hparse
  | nameless hread hparse hnone =>
      rw [hnames] at hnone
      simp at hnone
  | @answered formula s given hread hlegal hsymbols hgiven =>
      obtain rfl : names = given := by
        rw [hnames] at hgiven
        exact (List.map_inj_right fun _ _ => Option.some.inj).mp hgiven
      have hagree := hagree formula hread
      rw [← hsymbols] at hagree
      rw [s.value_congr hagree]
      exact .answered (by rw [hsource, hread]) hlegal hsymbols hmore

end

/-! ### Groups of names -/

/-- Groups that give names, each written in its own way. -/
def nameGroups (names : List (Spelling × String)) : List Group :=
  names.map fun name => .valued .name rfl name.1 name.2

/-- The names that do not begin with a minus sign. -/
def PlainNames (names : List (Spelling × String)) : Prop :=
  ∀ name ∈ names, name.2.toList.head? ≠ some '-'

theorem legible_nameGroups {names : List (Spelling × String)} (h : PlainNames names) :
    ∀ g ∈ nameGroups names, g.Legible := by
  intro g hg
  obtain ⟨name, hname, rfl⟩ := List.mem_map.mp hg
  exact Group.Plain.legible (h name hname)

theorem name?_nameGroups {names : List (Spelling × String)} (h : PlainNames names) :
    (nameGroups names).filterMap Group.name? = (names.map Prod.snd).map some := by
  induction names with
  | nil => rfl
  | cons name names ih =>
      obtain ⟨hname, hnames⟩ := List.forall_mem_cons.mp h
      have hrest := ih hnames
      rw [nameGroups] at hrest ⊢
      have hfirst : (Group.valued .name rfl name.1 name.2).name? = some (some name.2) :=
        congrArg some (Draft.given_of_ne (ne_separator_of_plain hname) _)
      rw [List.map_cons, List.filterMap_cons_some hfirst, hrest]
      rfl

/-- Names around a source ask for a run on it at the default level. -/
theorem readArguments_nameGroups {before after : List (Spelling × String)} {g : Group}
    {source : Source} (hg : g.Legible) (hsource : g.source? = some source)
    (hplain : PlainNames (before ++ after)) :
    readArguments ((nameGroups before ++ g :: nameGroups after).flatMap Group.words)
      = .ok ⟨source, ((before ++ after).map Prod.snd).map some, false, false⟩ := by
  have happend : nameGroups before ++ nameGroups after = nameGroups (before ++ after) :=
    List.map_append.symm
  have hnone : ∀ g ∈ nameGroups (before ++ after),
      g.source? = none ∧ g.isVerbose = false ∧ g.isDebug = false := by
    intro g hg
    obtain ⟨name, -, rfl⟩ := List.mem_map.mp hg
    exact ⟨rfl, rfl, rfl⟩
  obtain ⟨hverbose, hdebug⟩ := any_eq_false_of_flags fun g hg => (hnone g hg).2
  have hrow := readArguments_around (by rw [happend]; exact legible_nameGroups hplain)
    (by rw [happend]; exact fun g hg => (hnone g hg).1) hg hsource
  rw [happend, name?_nameGroups hplain, hverbose, hdebug] at hrow
  exact hrow

/-- **Only the names in the formula matter.** Take a source, and around it names that do not begin with
a minus sign. If two such command lines have the same source and are given the same of the names that
stand in its formula, they lead to the same exit code and the same output. -/
theorem run_relevant_names {before after before' after' : List (Spelling × String)} {g : Group}
    {source : Source} (hsource : g.source? = some source)
    (hplain : PlainNames (before ++ after)) (hplain' : PlainNames (before' ++ after'))
    (reader : File.Reader)
    (hagree : ∀ formula, source.read reader = .ok formula →
      ∀ x, .name x ∈ (scan formula.text).symbols →
        (x ∈ (before ++ after).map Prod.snd ↔ x ∈ (before' ++ after').map Prod.snd)) :
    let one := run ((nameGroups before ++ g :: nameGroups after).flatMap Group.words) reader
    let other := run ((nameGroups before' ++ g :: nameGroups after').flatMap Group.words) reader
    one.exitCode = other.exitCode ∧ one.output.stdout = other.output.stdout := by
  intro one other
  by_cases hlegible : g.Legible
  · have hone := readArguments_nameGroups hlegible hsource hplain
    have hother := readArguments_nameGroups hlegible hsource hplain'
    obtain ⟨exit, event, h⟩ := exists_concludes reader
      ⟨source, ((before ++ after).map Prod.snd).map some, false, false⟩
    have h' : Concludes reader ⟨source, ((before' ++ after').map Prod.snd).map some, false, false⟩
        exit event := h.of_agreeOn rfl rfl rfl hagree
    exact ⟨(h.exitCode_eq hone).trans (h'.exitCode_eq hother).symm,
      (h.stdout_eq hone rfl rfl).trans (h'.stdout_eq hother rfl rfl).symm⟩
  · -- The value of the source is taken for something else, and so neither command line makes sense.
    exact run_alike_of_illegible (illegible_around hlegible _ _) (illegible_around hlegible _ _) reader

/-- The name `p` may stand in front of the formula, behind it, or twice. The names `q` and `true` do not
count. -/
theorem run_relevant_names_repeated :
    let one := run ["-t", "q", "--true=p", "-f", "p & !true", "--true", "true"] fun _ => .error .missing
    let other := run ["-f", "p & !true", "-t", "p", "-t", "p"] fun _ => .error .missing
    one.exitCode = other.exitCode ∧ one.output.stdout = other.output.stdout := by
  let before : List (Spelling × String) := [(.letter, "q"), (.joined, "p")]
  let after : List (Spelling × String) := [(.long, "true")]
  let after' : List (Spelling × String) := [(.letter, "p"), (.letter, "p")]
  have hplain : PlainNames (before ++ after) := by simp [PlainNames, before, after]
  have hplain' : PlainNames ([] ++ after') := by simp [PlainNames, after']
  have hsymbols : (scan "p & !true").symbols
      = [.name "p", .connective .conjunction, .negation, .constant true] := by
    decide +kernel
  refine run_relevant_names (g := .valued .formula rfl .letter "p & !true") rfl hplain hplain' _ ?_
  intro formula hread x hx
  cases hread
  rw [hsymbols] at hx
  obtain rfl : x = "p" := by simpa using hx
  simp [before, after, after']

end PostfixSpec.CommandLine
