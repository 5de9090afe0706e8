import Mathlib.Data.List.Perm.Basic
import PostfixSpec.CommandLine.Run

/-!
# Groups of words on the command line

A switch and its value form a group, in one word or in two. A group reads the same wherever it stands,
as long as its value cannot be taken for a switch, so a row of groups asks for what each of them does.
A value that is taken for something else makes the whole row a mistake.
-/

namespace PostfixSpec.CommandLine

/-- How a switch and its value are written. -/
inductive Spelling where
  /-- The letter and the value, in two words. -/
  | letter
  /-- The long name and the value, in two words. -/
  | long
  /-- The long name, an equals sign and the value, in one word. -/
  | joined
  deriving DecidableEq

/-- The word that names a switch by its letter, if it has one. -/
def Switch.letterWord (s : Switch) : String :=
  match s.letter? with
  | some c => "-" ++ String.singleton c
  | none => s.long

/-- One switch, with its value if it takes one. -/
inductive Group where
  | valued (s : Switch) (takes : s.takesValue = true) (spelling : Spelling) (value : String)
  | verbose (byLetter : Bool)
  | debug
  deriving DecidableEq

namespace Group

def words : Group → List String
  | valued s _ .letter value => [s.letterWord, value]
  | valued s _ .long value => [s.long, value]
  | valued s _ .joined value => [s.long ++ "=" ++ value]
  | verbose true => [Switch.verbose.letterWord]
  | verbose false => [Switch.verbose.long]
  | debug => [Switch.debug.long]

/-- What a group asks for. -/
@[simp] def step : Group → Step
  | valued s _ spelling value => .valued s (spelling = .joined) value
  | verbose _ => .flag .verbose
  | debug => .flag .debug

@[simp] def source? : Group → Option Source
  | valued .formula _ spelling value => some (.formula (Draft.given (spelling = .joined) value))
  | valued .property _ spelling value => some (.property (Draft.given (spelling = .joined) value))
  | _ => none

@[simp] def name? : Group → Option (Option String)
  | valued .name _ spelling value => some (Draft.given (spelling = .joined) value)
  | _ => none

@[simp] def isVerbose : Group → Bool
  | verbose _ => true
  | _ => false

@[simp] def isDebug : Group → Bool
  | debug => true
  | _ => false

/-- Whether a value that is a word of its own is taken for a value. -/
def Legible : Group → Prop
  | valued _ _ spelling value => spelling = .joined ∨ Word.read value.toList = .value
  | _ => True

/-- Whether the value of a group does not begin with a minus sign. -/
def Plain : Group → Prop
  | valued _ _ _ value => value.toList.head? ≠ some '-'
  | _ => True

end Group

/-! ### Words -/

theorem read_of_plain {word : List Char} (h : word.head? ≠ some '-') : Word.read word = .value := by
  fun_cases Word.read word <;> simp_all

theorem ne_separator_of_plain {value : String} (h : value.toList.head? ≠ some '-') : value ≠ "--" := by
  rintro rfl
  exact h rfl

/-- Only a separator is dropped. -/
theorem Draft.given_of_ne {value : String} (h : value ≠ "--") (attached : Bool) :
    given attached value = some value := by
  simp [given, h]

theorem Group.Plain.legible {g : Group} (h : g.Plain) : g.Legible := by
  cases g with
  | valued s takes spelling value => exact .inr (read_of_plain h)
  | verbose => trivial
  | debug => trivial

theorem read_letterWord (s : Switch) :
    Word.read s.letterWord.toList = .switch s s.letter?.isSome none ∧ s.letterWord ≠ "--" := by
  cases s <;> decide +kernel

theorem read_long (s : Switch) : Word.read s.long.toList = .switch s false none ∧ s.long ≠ "--" := by
  cases s <;> decide +kernel

theorem read_joined (s : Switch) (value : String) :
    Word.read (s.long ++ "=" ++ value).toList = .switch s false (some value.toList) := by
  rw [String.toList_append, String.toList_append]
  generalize value.toList = cs
  cases s <;> rfl

theorem read_separator : Word.read "--".toList = .ambiguous Switch.all := by decide +kernel

theorem joined_ne_separator (s : Switch) (value : String) : s.long ++ "=" ++ value ≠ "--" := by
  intro h
  have hread := read_joined s value
  rw [h, read_separator] at hread
  exact nomatch hread

theorem readWords_cons {word : String} {kind : Word} (hword : word ≠ "--")
    (hread : Word.read word.toList = kind) (hkind : ∀ candidates, kind ≠ .ambiguous candidates)
    (rest : List String) :
    readWords (word :: rest) = (readWords rest).map ((word, kind) :: ·) := by
  rw [readWords.eq_3 word rest hword, hread]
  cases kind with
  | ambiguous candidates => exact absurd rfl (hkind candidates)
  | _ => cases readWords rest <;> rfl

/-! ### Words that ask for steps -/

/-- Words that ask for some steps, whatever words follow. -/
def Reads (words : List String) (steps : List Step) : Prop :=
  ∃ kinds : List (String × Word),
    (∀ rest, readWords (words ++ rest) = (readWords rest).map (kinds ++ ·)) ∧
    ∀ more, stepsFrom none (kinds ++ more) = steps ++ stepsFrom none more

theorem reads_nil : Reads [] [] := by
  refine ⟨[], fun rest => ?_, fun more => rfl⟩
  show readWords rest = (readWords rest).map id
  cases readWords rest <;> rfl

theorem Reads.append {words more : List String} {steps others : List Step}
    (hwords : Reads words steps) (hmore : Reads more others) :
    Reads (words ++ more) (steps ++ others) := by
  obtain ⟨kinds, hread, hsteps⟩ := hwords
  obtain ⟨rest, hread', hsteps'⟩ := hmore
  refine ⟨kinds ++ rest, fun tail => ?_, fun tail => ?_⟩
  · rw [List.append_assoc, hread, hread']
    cases readWords tail with
    | error error => rfl
    | ok words => exact congrArg Except.ok (List.append_assoc _ _ _).symm
  · rw [List.append_assoc, hsteps, hsteps', List.append_assoc]

theorem Reads.readArguments_eq {words : List String} {steps : List Step} (h : Reads words steps) :
    readArguments words = (takeSteps .initial steps).bind Draft.options := by
  obtain ⟨kinds, hread, hsteps⟩ := h
  have hwords := hread []
  have hall := hsteps []
  rw [List.append_nil] at hwords
  rw [List.append_nil, stepsFrom, List.append_nil] at hall
  rw [readArguments, hwords, ← hall]
  show (takeSteps .initial (stepsFrom none (kinds ++ []))).bind Draft.options = _
  rw [List.append_nil]

/-- A word alone, whatever it asks for. -/
theorem reads_word {word : String} {s : Switch} {byLetter : Bool} {attached : Option (List Char)}
    {steps : List Step} (hword : word ≠ "--")
    (hread : Word.read word.toList = .switch s byLetter attached)
    (hsteps : ∀ more, stepsFrom none ((word, .switch s byLetter attached) :: more)
      = steps ++ stepsFrom none more) :
    Reads [word] steps := by
  refine ⟨[(word, .switch s byLetter attached)], fun rest => ?_, hsteps⟩
  exact readWords_cons hword hread nofun rest

theorem reads_flag {word : String} {s : Switch} {byLetter : Bool} (hs : s.takesValue = false)
    (hword : word ≠ "--") (hread : Word.read word.toList = .switch s byLetter none) :
    Reads [word] [.flag s] := by
  refine reads_word hword hread fun more => ?_
  simp [stepsFrom, switchesOf, Cluster.steps?, Cluster.flags, hs]

theorem reads_attached {s : Switch} (hs : s.takesValue = true) (value : String) :
    Reads [s.long ++ "=" ++ value] [.valued s true value] := by
  refine reads_word (joined_ne_separator s value) (read_joined s value) fun more => ?_
  simp [stepsFrom, switchesOf, Cluster.steps?, Cluster.flags, hs]

theorem reads_separate {word value : String} {s : Switch} {byLetter : Bool}
    (hs : s.takesValue = true) (hword : word ≠ "--")
    (hread : Word.read word.toList = .switch s byLetter none)
    (hvalue : Word.read value.toList = .value) :
    Reads [word, value] [.valued s false value] := by
  have hne : value ≠ "--" := by
    rintro rfl
    rw [read_separator] at hvalue
    exact nomatch hvalue
  refine ⟨[(word, .switch s byLetter none), (value, .value)], fun rest => ?_, fun more => ?_⟩
  · show readWords (word :: value :: rest) = _
    rw [readWords_cons hword hread nofun, readWords_cons hne hvalue nofun]
    cases readWords rest <;> rfl
  · simp [stepsFrom, switchesOf, Cluster.steps?, Cluster.flags, hs]

theorem reads_group {g : Group} (h : g.Legible) : Reads g.words [g.step] := by
  cases g with
  | valued s takes spelling value =>
      cases spelling with
      | letter =>
          obtain ⟨hread, hword⟩ := read_letterWord s
          exact reads_separate takes hword hread (h.resolve_left nofun)
      | long =>
          obtain ⟨hread, hword⟩ := read_long s
          exact reads_separate takes hword hread (h.resolve_left nofun)
      | joined => exact reads_attached takes value
  | verbose byLetter =>
      cases byLetter with
      | true => exact reads_flag rfl (read_letterWord .verbose).2 (read_letterWord .verbose).1
      | false => exact reads_flag rfl (read_long .verbose).2 (read_long .verbose).1
  | debug => exact reads_flag rfl (read_long .debug).2 (read_long .debug).1

theorem reads_groups {gs : List Group} (h : ∀ g ∈ gs, g.Legible) :
    Reads (gs.flatMap Group.words) (gs.map Group.step) := by
  induction gs with
  | nil => exact reads_nil
  | cons g gs ih =>
      obtain ⟨hg, hgs⟩ := List.forall_mem_cons.mp h
      exact (reads_group hg).append (ih hgs)

/-! ### What a row of groups asks for -/

/-- What is known once a row of groups is added to what is known before. -/
def Draft.after (d : Draft) (gs : List Group) : Draft where
  source := (d.source.toList ++ gs.filterMap Group.source?).head?
  names := d.names ++ gs.filterMap Group.name?
  verbose := d.verbose || gs.any Group.isVerbose
  debug := d.debug || gs.any Group.isDebug
  extras := d.extras

/-- Whether a row of groups adds no second source. -/
def Draft.Admits (d : Draft) (gs : List Group) : Prop :=
  (d.source.toList ++ gs.filterMap Group.source?).length ≤ 1

theorem Draft.take_step {d : Draft} {g : Group} (h : d.Admits [g]) :
    d.take g.step = .ok (d.after [g]) := by
  obtain ⟨source, names, verbose, debug, extras⟩ := d
  cases g with
  | valued s takes spelling value =>
      cases s with
      | formula =>
          cases source with
          | none => simp [take, after, setSource]
          | some earlier => simp [Admits] at h
      | property =>
          cases source with
          | none => simp [take, after, setSource]
          | some earlier => simp [Admits] at h
      | name => cases source <;> simp [take, after]
      | _ => exact nomatch takes
  | verbose byLetter => cases source <;> simp [take, after]
  | debug => cases source <;> simp [take, after]

theorem head?_toList_of_length_le {α : Type} {xs : List α} (h : xs.length ≤ 1) :
    xs.head?.toList = xs := by
  match xs with
  | [] => rfl
  | [x] => rfl
  | x :: y :: xs => simp at h

theorem Draft.Admits.of_cons {d : Draft} {g : Group} {gs : List Group} (h : d.Admits (g :: gs)) :
    d.Admits [g] ∧ (d.after [g]).Admits gs := by
  rw [Admits, ← List.singleton_append, List.filterMap_append, ← List.append_assoc] at h
  have hfirst : d.Admits [g] := Nat.le_trans (List.sublist_append_left _ _).length_le h
  refine ⟨hfirst, ?_⟩
  rw [Admits, after, head?_toList_of_length_le hfirst]
  exact h

theorem Draft.after_cons {d : Draft} {g : Group} (h : d.Admits [g]) (gs : List Group) :
    d.after (g :: gs) = (d.after [g]).after gs := by
  have hsource := head?_toList_of_length_le h
  rw [← List.singleton_append]
  simp only [after, hsource, List.filterMap_append, List.any_append, List.append_assoc,
    Bool.or_assoc]

theorem Draft.after_nil (d : Draft) : d.after [] = d := by
  obtain ⟨source, names, verbose, debug, extras⟩ := d
  cases source <;> simp [after]

/-- **Steps of groups, taken in a row.** Without a second source nothing is in conflict, and what the
groups ask for adds up. -/
theorem takeSteps_groups {d : Draft} {gs : List Group} (h : d.Admits gs) :
    takeSteps d (gs.map Group.step) = .ok (d.after gs) := by
  induction gs generalizing d with
  | nil =>
      rw [d.after_nil]
      rfl
  | cons g gs ih =>
      obtain ⟨hg, hgs⟩ := h.of_cons
      rw [Draft.after_cons hg, ← ih hgs, takeSteps, List.map_cons, List.foldlM_cons,
        Draft.take_step hg]
      rfl

theorem readArguments_groups {gs : List Group} {source : Source} (hlegible : ∀ g ∈ gs, g.Legible)
    (hsource : gs.filterMap Group.source? = [source]) :
    readArguments (gs.flatMap Group.words)
      = .ok ⟨source, gs.filterMap Group.name?, gs.any Group.isVerbose, gs.any Group.isDebug⟩ := by
  have hadmits : Draft.initial.Admits gs := by
    rw [Draft.Admits, hsource]
    exact Nat.le_refl 1
  rw [(reads_groups hlegible).readArguments_eq, takeSteps_groups hadmits, Draft.after, hsource]
  rfl

/-- A group with a source asks for nothing else. -/
theorem Group.of_source? {g : Group} {source : Source} (h : g.source? = some source) :
    g.name? = none ∧ g.isVerbose = false ∧ g.isDebug = false := by
  cases g with
  | valued s takes spelling value => cases s <;> simp_all
  | _ => exact nomatch h

/-- A source among groups that name none. -/
theorem readArguments_around {before after : List Group} {g : Group} {source : Source}
    (hlegible : ∀ g ∈ before ++ after, g.Legible)
    (hothers : ∀ g ∈ before ++ after, g.source? = none) (hg : g.Legible)
    (hsource : g.source? = some source) :
    readArguments ((before ++ g :: after).flatMap Group.words)
      = .ok ⟨source, (before ++ after).filterMap Group.name?, (before ++ after).any Group.isVerbose,
          (before ++ after).any Group.isDebug⟩ := by
  obtain ⟨hname, hverbose, hdebug⟩ := Group.of_source? hsource
  obtain ⟨hbefore, hafter⟩ := List.forall_mem_append.mp hlegible
  have hall : ∀ g' ∈ before ++ g :: after, g'.Legible :=
    List.forall_mem_append.mpr ⟨hbefore, List.forall_mem_cons.mpr ⟨hg, hafter⟩⟩
  have hone : (before ++ g :: after).filterMap Group.source? = [source] := by
    obtain ⟨hbefore, hafter⟩ := List.forall_mem_append.mp hothers
    rw [List.filterMap_append, List.filterMap_cons_some hsource,
      List.filterMap_eq_nil_iff.mpr hbefore, List.filterMap_eq_nil_iff.mpr hafter]
    rfl
  rw [readArguments_groups hall hone]
  simp only [List.filterMap_append, List.filterMap_cons_none hname, List.any_append, List.any_cons,
    hverbose, hdebug, Bool.false_or]

/-- Groups that ask for no other level leave both switches alone. -/
theorem any_eq_false_of_flags {gs : List Group}
    (h : ∀ g ∈ gs, g.isVerbose = false ∧ g.isDebug = false) :
    gs.any Group.isVerbose = false ∧ gs.any Group.isDebug = false :=
  ⟨List.any_eq_false.mpr fun g hg => ne_true_of_eq_false (h g hg).1,
    List.any_eq_false.mpr fun g hg => ne_true_of_eq_false (h g hg).2⟩

/-! ### Values taken for something else -/

theorem stepsFrom_waiting {word value : String} {s : Switch} {byLetter : Bool} {kind : Word}
    (hs : s.takesValue = true) (hkind : kind ≠ .value) (more : List (String × Word)) :
    stepsFrom none ((word, .switch s byLetter none) :: (value, kind) :: more)
      = [.mistake (.valueExpected s)] := by
  cases kind with
  | value => exact absurd rfl hkind
  | _ => simp [stepsFrom, switchesOf, Cluster.steps?, hs]

/-- A switch that waits for its value gets none, if the words make any sense at all. -/
theorem readWords_waiting {word value : String} {s : Switch} {byLetter : Bool}
    (hs : s.takesValue = true) (hword : word ≠ "--")
    (hread : Word.read word.toList = .switch s byLetter none)
    (hvalue : Word.read value.toList ≠ .value) (rest : List String) :
    (∃ error, readWords (word :: value :: rest) = .error error) ∨
      ∃ kinds, readWords (word :: value :: rest) = .ok kinds ∧
        stepsFrom none kinds = [.mistake (.valueExpected s)] := by
  rw [readWords_cons hword hread nofun]
  by_cases hne : value = "--"
  · subst hne
    have hstray : Word.stray ≠ .value := nofun
    exact .inr ⟨_, rfl, stepsFrom_waiting hs hstray _⟩
  · by_cases hkind : ∃ candidates, Word.read value.toList = .ambiguous candidates
    · obtain ⟨candidates, hkind⟩ := hkind
      rw [readWords.eq_3 value rest hne, hkind]
      exact .inl ⟨_, rfl⟩
    · rw [readWords_cons hne rfl (not_exists.mp hkind)]
      cases readWords rest with
      | error error => exact .inl ⟨error, rfl⟩
      | ok more => exact .inr ⟨_, rfl, stepsFrom_waiting hs hvalue _⟩

/-- Only a value in a word of its own is ever taken for something else. -/
theorem Group.exists_words_of_illegible {g : Group} (h : ¬ g.Legible) :
    ∃ word value s byLetter, g.words = [word, value] ∧ s.takesValue = true ∧ word ≠ "--" ∧
      Word.read word.toList = .switch s byLetter none ∧ Word.read value.toList ≠ .value := by
  cases g with
  | valued s takes spelling value =>
      obtain ⟨hjoined, hvalue⟩ := not_or.mp h
      cases spelling with
      | letter =>
          obtain ⟨hread, hword⟩ := read_letterWord s
          exact ⟨_, value, s, _, rfl, takes, hword, hread, hvalue⟩
      | long =>
          obtain ⟨hread, hword⟩ := read_long s
          exact ⟨_, value, s, _, rfl, takes, hword, hread, hvalue⟩
      | joined => exact absurd rfl hjoined
  | verbose byLetter => exact absurd trivial h
  | debug => exact absurd trivial h

theorem Draft.usage_of_setSource {d : Draft} {source : Source} {refusal : Refusal}
    (h : d.setSource source = .error refusal) : ∃ error, refusal = .usage error := by
  unfold setSource at h
  split at h
  next earlier _ =>
    split_ifs at h
    exact ⟨_, (Except.error.inj h).symm⟩
  next => exact nomatch h

/-- A step of a group never asks for help, so what it refuses is a mistake. -/
theorem Draft.usage_of_take {d : Draft} {g : Group} {refusal : Refusal}
    (h : d.take g.step = .error refusal) : ∃ error, refusal = .usage error := by
  cases g with
  | valued s takes spelling value =>
      cases s with
      | formula => exact usage_of_setSource h
      | property => exact usage_of_setSource h
      | name => exact nomatch h
      | _ => exact nomatch takes
  | verbose byLetter => exact nomatch h
  | debug => exact nomatch h

theorem takeSteps_mistake (d : Draft) (gs : List Group) (mistake : UsageError) :
    ∃ error, takeSteps d (gs.map Group.step ++ [.mistake mistake]) = .error (.usage error) := by
  induction gs generalizing d with
  | nil => exact ⟨mistake, rfl⟩
  | cons g gs ih =>
      rw [List.map_cons, List.cons_append, takeSteps, List.foldlM_cons]
      cases htake : d.take g.step with
      | error refusal =>
          obtain ⟨error, rfl⟩ := Draft.usage_of_take htake
          exact ⟨error, rfl⟩
      | ok d => exact ih d

theorem readArguments_of_illegible {before : List Group} {g : Group}
    (hbefore : ∀ g ∈ before, g.Legible) (hg : ¬ g.Legible) (rest : List String) :
    ∃ error, readArguments (before.flatMap Group.words ++ (g.words ++ rest))
      = .error (.usage error) := by
  obtain ⟨kinds, hread, hsteps⟩ := reads_groups hbefore
  obtain ⟨word, value, s, byLetter, hwords, hs, hword, hswitch, hvalue⟩ :=
    Group.exists_words_of_illegible hg
  rw [readArguments, hread, hwords, List.cons_append, List.singleton_append]
  rcases readWords_waiting hs hword hswitch hvalue rest with ⟨error, herror⟩ | ⟨more, hmore, hmistake⟩
  · rw [herror]
    exact ⟨error, rfl⟩
  · rw [hmore]
    show ∃ error, (takeSteps .initial (stepsFrom none (kinds ++ more))).bind Draft.options = _
    rw [hsteps, hmistake]
    obtain ⟨error, htake⟩ := takeSteps_mistake .initial before (.valueExpected s)
    rw [htake]
    exact ⟨error, rfl⟩

theorem exists_illegible {gs : List Group} (h : ¬ ∀ g ∈ gs, g.Legible) :
    ∃ before g after, gs = before ++ g :: after ∧ (∀ g ∈ before, g.Legible) ∧ ¬ g.Legible := by
  induction gs with
  | nil => exact absurd (List.forall_mem_nil _) h
  | cons g gs ih =>
      by_cases hg : g.Legible
      · have hgs : ¬ ∀ g ∈ gs, g.Legible := fun hgs => h (List.forall_mem_cons.mpr ⟨hg, hgs⟩)
        obtain ⟨before, first, after, rfl, hbefore, hfirst⟩ := ih hgs
        exact ⟨g :: before, first, after, rfl, List.forall_mem_cons.mpr ⟨hg, hbefore⟩, hfirst⟩
      · exact ⟨[], g, gs, rfl, List.forall_mem_nil _, hg⟩

/-- **A row of groups is legible or a mistake.** -/
theorem legible_or_usage (gs : List Group) :
    (∀ g ∈ gs, g.Legible) ∨
      ∃ error, readArguments (gs.flatMap Group.words) = .error (.usage error) := by
  by_cases h : ∀ g ∈ gs, g.Legible
  · exact .inl h
  · obtain ⟨before, g, after, rfl, hbefore, hg⟩ := exists_illegible h
    rw [List.flatMap_append, List.flatMap_cons]
    exact .inr (readArguments_of_illegible hbefore hg _)

theorem run_of_usage {args : List String} {error : UsageError}
    (h : readArguments args = .error (.usage error)) (reader : File.Reader) :
    run args reader = ⟨2, ⟨"", usageFailure error.message⟩, none⟩ := by
  rw [run, h]

/-- A row of groups that is not legible is not run at all. -/
theorem run_of_illegible {gs : List Group} (h : ¬ ∀ g ∈ gs, g.Legible) (reader : File.Reader) :
    (run (gs.flatMap Group.words) reader).exitCode = 2 ∧
      (run (gs.flatMap Group.words) reader).output.stdout = "" := by
  obtain ⟨error, herror⟩ := (legible_or_usage gs).resolve_left h
  rw [run_of_usage herror]
  exact ⟨rfl, rfl⟩

/-- A group that is not legible spoils every row that it stands in. -/
theorem illegible_around {g : Group} (h : ¬ g.Legible) (before after : List Group) :
    ¬ ∀ g' ∈ before ++ g :: after, g'.Legible :=
  fun hall => h (hall g (List.mem_append_right _ List.mem_cons_self))

/-- Rows that are not legible end alike, up to what is said about the mistake. -/
theorem run_alike_of_illegible {gs hs : List Group} (h : ¬ ∀ g ∈ gs, g.Legible)
    (h' : ¬ ∀ g ∈ hs, g.Legible) (reader : File.Reader) :
    (run (gs.flatMap Group.words) reader).exitCode
        = (run (hs.flatMap Group.words) reader).exitCode ∧
      (run (gs.flatMap Group.words) reader).output.stdout
        = (run (hs.flatMap Group.words) reader).output.stdout := by
  obtain ⟨hcode, hstdout⟩ := run_of_illegible h reader
  obtain ⟨hcode', hstdout'⟩ := run_of_illegible h' reader
  exact ⟨hcode.trans hcode'.symm, hstdout.trans hstdout'.symm⟩

end PostfixSpec.CommandLine
