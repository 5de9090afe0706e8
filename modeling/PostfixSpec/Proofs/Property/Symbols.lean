import PostfixSpec.Proofs.Formula.Failure
import PostfixSpec.Proofs.Text.Blank
import PostfixSpec.Proofs.Text.Utf8
import PostfixSpec.Property

/-!
# Property files keep the symbols

A property file is not scanned as it stands: its line ends are unified, and blanks are dropped at both
ends. Where the whole text can be scanned this changes blanks between tokens only. A carriage return
never stands inside a word, two blanks in a row are as good as one, and no character of a token is a
blank. So the text of a file writes the symbols that its bytes encode.
-/

namespace PostfixSpec

open Formula Text

/-! ### Blanks and the characters of tokens -/

theorem isBlank_of_isIgnored {c : Char} (h : isIgnored c = true) : isBlank c = true := by
  simp only [isIgnored, Bool.or_eq_true, decide_eq_true_eq] at h
  rcases h with ((rfl | rfl) | rfl) | rfl <;> decide

theorem not_isBlank_of_isWordChar {c : Char} (h : isWordChar c = true) : isBlank c = false := by
  simp only [isWordChar, isWordStart, Bool.or_eq_true, Bool.and_eq_true, decide_eq_true_eq,
    Char.le_def, UInt32.le_iff_toNat_le] at h
  rw [Bool.eq_false_iff]
  intro hblank
  simp only [isBlank, blankRanges, List.any_cons, List.any_nil, Bool.or_eq_true,
    decide_eq_true_eq, Bool.or_false] at hblank
  have hval : c.val.toNat = c.toNat := rfl
  rcases h with ((⟨hlow, hhigh⟩ | ⟨hlow, hhigh⟩) | rfl) | ⟨hlow, hhigh⟩
  · simp at hlow hhigh
    omega
  · simp at hlow hhigh
    omega
  · simp at hblank
  · simp at hlow hhigh
    omega

theorem not_isBlank_of_signSymbol? {c : Char} {symbol : Symbol}
    (h : signSymbol? c = some symbol) : isBlank c = false := by
  have hc : c = '!' ∨ c = '&' ∨ c = '|' ∨ c = '(' ∨ c = ')' := by
    unfold signSymbol? at h
    grind
  rcases hc with rfl | rfl | rfl | rfl | rfl <;> decide

theorem not_isBlank_of_mem_isWord {word : List Char} (h : isWord word = true) :
    ∀ c ∈ word, isBlank c = false :=
  fun c hc => not_isBlank_of_isWordChar (isWordChar_of_mem_isWord h c hc)

theorem Formula.Writes.exists_spells {cs : List Char} {xs : List Symbol} (h : Writes cs xs) :
    ∃ s, Spells 0 s cs ∧ s.illegal = none ∧ s.symbols = xs := by
  obtain ⟨tokens, hsymbols, hspells⟩ := h 0 ⟨[], none⟩ [] rfl (.done _)
  rw [List.append_nil, List.append_nil] at hspells
  exact ⟨_, hspells, rfl, hsymbols⟩

/-! ### Line ends -/

theorem unifyLineEnds_append {word : List Char} (h : ∀ c ∈ word, isBlank c = false)
    (cs : List Char) : unifyLineEnds (word ++ cs) = word ++ unifyLineEnds cs := by
  induction word with
  | nil => rfl
  | cons c word ih =>
      obtain ⟨hc, hword⟩ := List.forall_mem_cons.mp h
      have hreturn : c ≠ '\r' := by
        rintro rfl
        exact nomatch hc
      rw [List.cons_append, unifyLineEnds_cons hreturn, ih hword, List.cons_append]

theorem runsOn_unifyLineEnds {cs : List Char} (h : runsOn cs = false) :
    runsOn (unifyLineEnds cs) = false := by
  fun_cases unifyLineEnds cs with
  | case1 cs => rfl
  | case2 c cs =>
      by_cases hc : c = '\r'
      · rw [if_pos hc]
        rfl
      · rw [if_neg hc]
        exact h
  | case3 => rfl

theorem Formula.Spells.writes_unifyLineEnds {position : Nat} {s : Scan} {cs : List Char}
    (h : Spells position s cs) (hlegal : s.illegal = none) :
    Writes (unifyLineEnds cs) s.symbols := by
  induction h with
  | done position => exact writes_nil
  | @blank position s c cs hc _ ih =>
      by_cases hreturn : c = '\r'
      · subst hreturn
        rcases unifyLineEnds_return cs with hsame | hfeed
        · rw [hsame]
          exact ih hlegal
        · rw [hfeed]
          exact (ih hlegal).blank rfl
      · rw [unifyLineEnds_cons hreturn]
        exact (ih hlegal).blank hc
  | word hword hruns _ ih =>
      rw [unifyLineEnds_append (not_isBlank_of_mem_isWord hword)]
      exact (writes_word hword).append (ih hlegal) (runsOn_unifyLineEnds hruns)
  | @sign position s symbol c cs hc _ ih =>
      have hreturn : c ≠ '\r' := by
        rintro rfl
        exact nomatch hc
      rw [unifyLineEnds_cons hreturn]
      exact (ih hlegal).sign hc
  | illegal => exact nomatch hlegal

/-! ### Blanks at the ends -/

theorem stripStart_append {word : List Char} (hne : word ≠ [])
    (h : ∀ c ∈ word, isBlank c = false) (cs : List Char) :
    stripStart (word ++ cs) = word ++ cs := by
  cases word with
  | nil => exact absurd rfl hne
  | cons c word =>
      have hc := h c List.mem_cons_self
      rw [stripStart, List.cons_append, List.dropWhile_cons_of_neg (ne_true_of_eq_false hc)]

theorem Formula.Spells.writes_stripStart {position : Nat} {s : Scan} {cs : List Char}
    (h : Spells position s cs) (hlegal : s.illegal = none) :
    Writes (stripStart cs) s.symbols := by
  induction h with
  | done position => exact writes_nil
  | blank hc _ ih =>
      rw [stripStart, List.dropWhile_cons_of_pos (isBlank_of_isIgnored hc)]
      exact ih hlegal
  | @word position s word cs hword hruns hs _ =>
      have hne : word ≠ [] := by
        rintro rfl
        exact Bool.false_ne_true hword
      rw [stripStart_append hne (not_isBlank_of_mem_isWord hword)]
      exact (Spells.word hword hruns hs).writes hlegal
  | sign hc hs _ =>
      rw [stripStart,
        List.dropWhile_cons_of_neg (ne_true_of_eq_false (not_isBlank_of_signSymbol? hc))]
      exact (Spells.sign hc hs).writes hlegal
  | illegal => exact absurd hlegal (Option.some_ne_none _)

theorem stripEnd_append {word : List Char} (hne : word ≠ [])
    (h : ∀ c ∈ word, isBlank c = false) (cs : List Char) :
    stripEnd (word ++ cs) = word ++ stripEnd cs := by
  have hreverse : word.reverse ≠ [] := List.reverse_eq_nil_iff.not.mpr hne
  have hword := stripStart_append hreverse (fun c hc => h c (List.mem_reverse.mp hc)) []
  rw [List.append_nil, stripStart] at hword
  rw [stripEnd, stripEnd, stripStart, stripStart, List.reverse_append, List.dropWhile_append, hword]
  split
  next hempty =>
    rw [List.isEmpty_iff] at hempty
    rw [hempty, List.reverse_reverse, List.reverse_nil, List.append_nil]
  next => rw [List.reverse_append, List.reverse_reverse]

theorem stripEnd_cons_of_isBlank {c : Char} (h : isBlank c = true) (cs : List Char) :
    stripEnd (c :: cs) = stripEnd cs ∨ stripEnd (c :: cs) = c :: stripEnd cs := by
  rw [stripEnd, stripEnd, stripStart, stripStart, List.reverse_cons, List.dropWhile_append]
  split
  next hempty =>
    rw [List.isEmpty_iff] at hempty
    rw [hempty, List.dropWhile_cons_of_pos h]
    exact .inl rfl
  next =>
    rw [List.reverse_append]
    exact .inr rfl

theorem runsOn_of_isPrefix {ds cs : List Char} (hinitial : ds <+: cs) (h : runsOn cs = false) :
    runsOn ds = false := by
  obtain ⟨rest, rfl⟩ := hinitial
  cases ds with
  | nil => rfl
  | cons d ds => exact h

theorem stripEnd_isPrefix (cs : List Char) : stripEnd cs <+: cs := by
  have hsuffix : stripStart cs.reverse <:+ cs.reverse := List.dropWhile_suffix _
  rw [stripEnd, ← List.reverse_suffix, List.reverse_reverse]
  exact hsuffix

theorem Formula.Spells.writes_stripEnd {position : Nat} {s : Scan} {cs : List Char}
    (h : Spells position s cs) (hlegal : s.illegal = none) :
    Writes (stripEnd cs) s.symbols := by
  induction h with
  | done position => exact writes_nil
  | @blank position s c cs hc _ ih =>
      rcases stripEnd_cons_of_isBlank (isBlank_of_isIgnored hc) cs with hsame | hkept
      · rw [hsame]
        exact ih hlegal
      · rw [hkept]
        exact (ih hlegal).blank hc
  | @word position s word cs hword hruns _ ih =>
      have hne : word ≠ [] := by
        rintro rfl
        exact nomatch hword
      rw [stripEnd_append hne (not_isBlank_of_mem_isWord hword)]
      exact (writes_word hword).append (ih hlegal) (runsOn_of_isPrefix (stripEnd_isPrefix cs) hruns)
  | @sign position s symbol c cs hc _ ih =>
      have hone : ∀ d ∈ [c], isBlank d = false :=
        List.forall_mem_singleton.mpr (not_isBlank_of_signSymbol? hc)
      have hsplit := stripEnd_append (List.cons_ne_nil c []) hone cs
      rw [List.singleton_append] at hsplit
      rw [hsplit]
      exact (ih hlegal).sign hc
  | illegal => exact nomatch hlegal

/-! ### The text of a file -/

theorem writes_strip_unifyLineEnds {text : String} (hlegal : (scan text).illegal = none) :
    Writes (strip (unifyLineEnds text.toList)) (scan text).symbols := by
  have hunified := (spells_scanFrom 0 text.toList).writes_unifyLineEnds hlegal
  obtain ⟨s, hspells, hs, hsymbols⟩ := hunified.exists_spells
  obtain ⟨s', hspells', hs', hsymbols'⟩ := (hspells.writes_stripStart hs).exists_spells
  have hstripped := hspells'.writes_stripEnd hs'
  rw [hsymbols', hsymbols] at hstripped
  exact hstripped

/-- A file that encodes a text without illegal characters, but with a token, holds a text with the same
symbols. -/
theorem Property.ofBytes_encode {text : String} (hlegal : (scan text).illegal = none)
    (htokens : (scan text).tokens ≠ []) :
    ∃ kept, Property.ofBytes (Utf8.encode text.toList) = .ok kept ∧ (scan kept).illegal = none ∧
      (scan kept).symbols = (scan text).symbols := by
  have hwrites := writes_strip_unifyLineEnds hlegal
  have hne : strip (unifyLineEnds text.toList) ≠ [] := by
    intro hempty
    rw [hempty] at hwrites
    obtain ⟨-, hsymbols⟩ := @Writes.scan_eq "" _ hwrites
    have hempty : (scan "").tokens = [] := by decide +kernel
    rw [hempty, Scan.symbols] at hsymbols
    exact htokens (List.map_eq_nil_iff.mp hsymbols.symm)
  rw [← @String.toList_ofList (strip _)] at hwrites
  obtain ⟨hkept, hsymbols⟩ := hwrites.scan_eq
  refine ⟨_, ?_, hkept, hsymbols⟩
  rw [ofBytes, Utf8.decode_encode]
  exact if_neg (by simpa using hne)

end PostfixSpec
