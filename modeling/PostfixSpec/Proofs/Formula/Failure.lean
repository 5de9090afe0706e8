import PostfixSpec.Proofs.Formula.Acceptance
import PostfixSpec.Proofs.Formula.Viable

/-!
# The error that a parse reports

A parse stops at the first token that cannot continue a sentence, and reports it whatever is behind it.
If all tokens up to an illegal character can still become a sentence, the character is reported; and if
there is none, what is missing is the end. So the reported error is always the leftmost one.
-/

namespace PostfixSpec.Formula

/-- The symbols of the tokens of a scan. -/
def Scan.symbols (scan : Scan) : List Symbol := scan.tokens.map (·.symbol)

/-! ### What the errors say -/

theorem message_unexpectedToken (token : Token) :
    (ParseError.unexpectedToken token).message
      = s!"Syntax error near '{token.symbol.text}' (type: {token.symbol.kind}) " ++
        s!"at line 1, position {token.start}" := by
  have hline : "at line " ++ toString 1 ++ ", position " = "at line 1, position " := by decide
  calc
    (ParseError.unexpectedToken token).message
      = s!"Syntax error near '{token.symbol.text}' (type: {token.symbol.kind}) " ++
        ("at line " ++ toString 1 ++ ", position " ++ toString token.start) := rfl
    _ = s!"Syntax error near '{token.symbol.text}' (type: {token.symbol.kind}) " ++
        s!"at line 1, position {token.start}" := congrArg _ (congrArg (· ++ _) hline)

theorem message_illegalCharacter (illegal : Illegal) :
    (ParseError.illegalCharacter illegal).message
      = s!"Parse failed: Illegal character '{illegal.char}' encountered at position " ++
        toString illegal.position := by
  have hopening : "Parse failed: " ++ "Illegal character '" = "Parse failed: Illegal character '" := by
    decide
  calc
    (ParseError.illegalCharacter illegal).message
      = "Parse failed: " ++ ("Illegal character '" ++ toString illegal.char ++
          "' encountered at position " ++ toString illegal.position) := rfl
    _ = "Parse failed: " ++ "Illegal character '" ++ toString illegal.char ++
          "' encountered at position " ++ toString illegal.position := by
        simp only [String.append_assoc]
    _ = _ := congrArg (· ++ toString illegal.char ++
          "' encountered at position " ++ toString illegal.position) hopening

/-! ### Where a parse stops -/

/-- A reader that does not read all tokens refuses one of them behind those that it reads. -/
theorem Reading.exists_refused {r : Reading} {tokens : List Token}
    (h : r.read (tokens.map (·.symbol)) = none) :
    ∃ before token after next, tokens = before ++ token :: after ∧
      r.read (before.map (·.symbol)) = some next ∧ next.take token.symbol = none := by
  induction tokens generalizing r with
  | nil => exact nomatch h
  | cons token tokens ih =>
      rw [List.map_cons, read_cons] at h
      cases htake : r.take token.symbol with
      | none => exact ⟨[], token, tokens, r, rfl, rfl, htake⟩
      | some between =>
          rw [htake, Option.bind_some] at h
          obtain ⟨before, refused, after, next, rfl, hread, hrefused⟩ := ih h
          refine ⟨token :: before, refused, after, next, rfl, ?_, hrefused⟩
          rw [List.map_cons, read_cons, htake, Option.bind_some, hread]

theorem parse_of_read {text : String} {r : Reading}
    (h : Reading.initial.read (scan text).symbols = some r) :
    parse text
      = match (scan text).illegal with
        | some illegal => .error (.illegalCharacter illegal)
        | none =>
          match r.sentence? with
          | some s => .ok s.encode
          | none => .error .unexpectedEnd := by
  have hrun := (Reading.progress_foldlM _ _ _).mpr ⟨r, h, rfl⟩
  rw [parse_eq, hrun]
  cases (scan text).illegal with
  | some illegal => rfl
  | none => exact r.progress_close

theorem parse_of_illegal {text : String} {illegal : Illegal}
    (hbegins : Begins (scan text).symbols) (hillegal : (scan text).illegal = some illegal) :
    parse text = .error (.illegalCharacter illegal) := by
  obtain ⟨r, hread⟩ := Reading.exists_read_iff_begins.mpr hbegins
  rw [parse_of_read hread, hillegal]

theorem parse_of_incomplete {text : String} (hbegins : Begins (scan text).symbols)
    (hillegal : (scan text).illegal = none)
    (hincomplete : ¬ ∃ s : Sentence, s.symbols = (scan text).symbols) :
    parse text = .error .unexpectedEnd := by
  obtain ⟨r, hread⟩ := Reading.exists_read_iff_begins.mpr hbegins
  have hnone : r.sentence? = none := by
    refine Option.eq_none_iff_forall_ne_some.mpr fun s hs => hincomplete ⟨s, ?_⟩
    exact sentence?_read_eq_some_iff.mp (by rw [hread, Option.bind_some, hs])
  rw [parse_of_read hread, hillegal, hnone]

theorem Begins.take {xs : List Symbol} (h : Begins xs) (k : Nat) : Begins (xs.take k) := by
  rw [← List.take_append_drop k xs] at h
  exact h.of_append

/-- Tokens that begin no sentence have a first one that no sentence goes on with. This is the one that
is reported, because the parser never looks behind it. -/
theorem parse_of_not_begins {text : String} (h : ¬ Begins (scan text).symbols) :
    ∃ k token, (scan text).tokens[k]? = some token ∧
      (∀ j ≤ k, Begins ((scan text).symbols.take j)) ∧
      ¬ Begins ((scan text).symbols.take (k + 1)) ∧
      parse text = .error (.unexpectedToken token) := by
  have hread : Reading.initial.read (scan text).symbols = none := by
    rwa [← Reading.exists_read_iff_begins, ← Option.isSome_iff_exists,
      Option.not_isSome_iff_eq_none] at h
  obtain ⟨before, token, after, next, htokens, hbefore, hrefused⟩ := Reading.exists_refused hread
  have hsymbols : (scan text).symbols
      = before.map (·.symbol) ++ [token.symbol] ++ after.map (·.symbol) := by
    rw [Scan.symbols, htokens, List.map_append, List.map_cons, List.append_assoc,
      List.singleton_append]
  have hbegins : Begins (before.map (·.symbol)) :=
    Reading.exists_read_iff_begins.mp ⟨next, hbefore⟩
  refine ⟨before.length, token, ?_, fun j hj => ?_, ?_, ?_⟩
  · rw [htokens, List.getElem?_append_right (Nat.le_refl _), Nat.sub_self,
      List.getElem?_cons_zero]
  · rw [hsymbols, List.append_assoc, List.take_append_of_le_length (by rwa [List.length_map])]
    exact hbegins.take j
  · rw [hsymbols, List.take_left' (by simp)]
    exact (Reading.take_eq_none_iff hbefore).mp hrefused
  · rw [parse_eq, htokens, Reading.progress_foldlM_error hbefore hrefused]

/-- **A parse reports the leftmost error.** Either some token is the first that no sentence goes on
with: then it is reported with its text, its kind and its place, whatever is behind it. Or all tokens
up to the first illegal character, or to the end, begin a sentence: then the illegal character is
reported, with the failure of the scan as the cause; or, if there is none, the end is unless the tokens
are a sentence already, and then the parse succeeds. -/
theorem parse_reports_leftmost (text : String) :
    (∃ k token, (scan text).tokens[k]? = some token ∧
      (∀ j ≤ k, Begins ((scan text).symbols.take j)) ∧
      ¬ Begins ((scan text).symbols.take (k + 1)) ∧
      ∃ error, parse text = .error error ∧ error.cause = none ∧
        error.message = s!"Syntax error near '{token.symbol.text}' (type: {token.symbol.kind}) " ++
          s!"at line 1, position {token.start}") ∨
    (∀ j, Begins ((scan text).symbols.take j)) ∧
      ((∃ illegal, (scan text).illegal = some illegal ∧
          ∃ error, parse text = .error error ∧ error.cause = some illegal ∧
            error.message = s!"Parse failed: Illegal character '{illegal.char}' encountered at position "
              ++ toString illegal.position) ∨
        ((scan text).illegal = none ∧ (¬ ∃ s : Sentence, s.symbols = (scan text).symbols) ∧
          ∃ error, parse text = .error error ∧ error.cause = none ∧
            error.message = "Syntax error: Unexpected end of formula") ∨
        ((scan text).illegal = none ∧ (∃ s : Sentence, s.symbols = (scan text).symbols) ∧
          ∃ e, parse text = .ok e)) := by
  by_cases hbegins : Begins (scan text).symbols
  · refine .inr ⟨hbegins.take, ?_⟩
    cases hillegal : (scan text).illegal with
    | some illegal =>
        exact .inl ⟨illegal, rfl, _, parse_of_illegal hbegins hillegal, rfl,
          message_illegalCharacter illegal⟩
    | none =>
        by_cases hcomplete : ∃ s : Sentence, s.symbols = (scan text).symbols
        · obtain ⟨s, hs⟩ := hcomplete
          exact .inr (.inr ⟨rfl, ⟨s, hs⟩, _, parse_eq_ok_iff.mpr ⟨hillegal, s, hs, rfl⟩⟩)
        · exact .inr (.inl ⟨rfl, hcomplete, _, parse_of_incomplete hbegins hillegal hcomplete, rfl,
            rfl⟩)
  · obtain ⟨k, token, htoken, hbefore, hrefused, hparse⟩ := parse_of_not_begins hbegins
    exact .inl ⟨k, token, htoken, hbefore, hrefused, _, hparse, rfl, message_unexpectedToken token⟩

end PostfixSpec.Formula
