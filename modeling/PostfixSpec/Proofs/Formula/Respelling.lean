import PostfixSpec.Proofs.Formula.Failure

/-!
# Texts with the same symbols

What a parse makes of a text without illegal characters depends on its symbols alone. Texts with the
same symbols are accepted together and with the same result, or refused together because of the same
symbol or the end. Only the place of that symbol differs.
-/

namespace PostfixSpec.Formula

/-- Whether two errors report the same symbol, wherever it stands, or both report the end. -/
def ParseError.SameKind : ParseError → ParseError → Prop
  | unexpectedToken token, unexpectedToken other => token.symbol = other.symbol
  | unexpectedEnd, unexpectedEnd => True
  | _, _ => False

theorem parse_eq_ok_of_symbols {t u : String} (hu : (scan u).illegal = none)
    (hsymbols : (scan t).symbols = (scan u).symbols) {e : Encoding Leaf} (h : parse t = .ok e) :
    parse u = .ok e := by
  obtain ⟨-, s, hs, rfl⟩ := parse_eq_ok_iff.mp h
  exact parse_eq_ok_iff.mpr ⟨hu, s, hs.trans hsymbols, rfl⟩

theorem exists_sameKind_of_symbols {t u : String} (ht : (scan t).illegal = none)
    (hu : (scan u).illegal = none) (hsymbols : (scan t).symbols = (scan u).symbols)
    {error : ParseError} (h : parse t = .error error) :
    ∃ other, parse u = .error other ∧ error.SameKind other := by
  by_cases hbegins : Begins (scan t).symbols
  · have hincomplete : ¬ ∃ s : Sentence, s.symbols = (scan t).symbols := by
      rintro ⟨s, hs⟩
      have haccepted := parse_eq_ok_iff.mpr ⟨ht, s, hs, rfl⟩
      rw [h] at haccepted
      exact nomatch haccepted
    have herror := parse_of_incomplete hbegins ht hincomplete
    rw [h] at herror
    cases herror
    rw [hsymbols] at hbegins hincomplete
    exact ⟨_, parse_of_incomplete hbegins hu hincomplete, trivial⟩
  · obtain ⟨k, token, htoken, hbefore, hrefused, hparse⟩ := parse_of_not_begins hbegins
    rw [h] at hparse
    cases hparse
    rw [hsymbols] at hbegins hbefore hrefused
    obtain ⟨j, other, hother, hbefore', hrefused', hparse'⟩ := parse_of_not_begins hbegins
    -- Each of the two places is the first one that no sentence goes on with.
    have hle : k ≤ j := by
      by_contra hlt
      exact hrefused' (hbefore (j + 1) (by omega))
    have hge : j ≤ k := by
      by_contra hlt
      exact hrefused (hbefore' (k + 1) (by omega))
    obtain rfl : k = j := Nat.le_antisymm hle hge
    refine ⟨_, hparse', ?_⟩
    have hsame : (scan t).symbols[k]? = (scan u).symbols[k]? := by rw [hsymbols]
    rw [Scan.symbols, Scan.symbols, List.getElem?_map, List.getElem?_map, htoken, hother] at hsame
    exact Option.some.inj hsame

/-- Texts with the same symbols are accepted with the same result, or rejected with errors of the same
kind. -/
theorem parse_alike {t u : String} (ht : (scan t).illegal = none) (hu : (scan u).illegal = none)
    (hsymbols : (scan t).symbols = (scan u).symbols) :
    (∃ e, parse t = .ok e ∧ parse u = .ok e) ∨
      ∃ error other, parse t = .error error ∧ parse u = .error other ∧ error.SameKind other := by
  cases hparse : parse t with
  | ok e => exact .inl ⟨e, rfl, parse_eq_ok_of_symbols hu hsymbols hparse⟩
  | error error =>
      obtain ⟨other, hother, hkind⟩ := exists_sameKind_of_symbols ht hu hsymbols hparse
      exact .inr ⟨error, other, rfl, hother, hkind⟩

end PostfixSpec.Formula
