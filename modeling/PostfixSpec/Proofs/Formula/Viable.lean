import PostfixSpec.Proofs.Formula.Reading

/-!
# What can still become a sentence

Symbols begin a sentence if others behind them complete one. Every place of a reader can be completed:
an operand fills the places around it up to the innermost open group, closing that group gives an
operand again, and there are only finitely many groups around a place. So a reader refuses a symbol
exactly when nothing that begins with it, behind those before it, is a sentence.
-/

namespace PostfixSpec.Formula

/-- Whether some symbols can be extended to a sentence. -/
def Begins (xs : List Symbol) : Prop := ∃ (ys : List Symbol) (s : Sentence), s.symbols = xs ++ ys

theorem Begins.of_append {xs ys : List Symbol} (h : Begins (xs ++ ys)) : Begins xs := by
  obtain ⟨zs, s, hs⟩ := h
  exact ⟨ys ++ zs, s, hs.trans (List.append_assoc _ _ _)⟩

/-- Whether some symbols behind those read complete a sentence. -/
def Reading.Completes (r : Reading) : Prop :=
  ∃ (ys : List Symbol) (s : Sentence), (r.read ys).bind sentence? = some s

/-! ### Every place can be completed

The recursion is on the place up to which the operand has been put: it grows outwards, through the
literal, the clause and the sentence around the operand, to the group around them.
-/

mutual

theorem SentencePlace.completes (outer : SentencePlace) {place : OperandPlace} {a : Atom}
    {s : Sentence} (h : place.sentence a = (outer, s)) : (Reading.holding place a).Completes := by
  match outer with
  | .outermost =>
      refine ⟨[], s, ?_⟩
      change Reading.sentence? (.holding place a) = some s
      rw [Reading.sentence?, h]
  | .inGroup around =>
      obtain ⟨ys, t, hcompleted⟩ := around.completes (a := .group s) rfl
      refine ⟨.closing :: ys, t, ?_⟩
      rw [Reading.read_cons, Reading.take, h]
      exact hcompleted

theorem ClausePlace.completes (outer : ClausePlace) {place : OperandPlace} {a : Atom} {c : Clause}
    (h : place.clause a = (outer, c)) : (Reading.holding place a).Completes := by
  have hsentence : place.sentence a = outer.fill c := by rw [OperandPlace.sentence, h]
  match outer with
  | .first around => exact around.completes hsentence
  | .afterOr left around => exact around.completes hsentence

theorem LiteralPlace.completes (outer : LiteralPlace) {place : OperandPlace} {a : Atom}
    {l : Literal} (h : place.fill (.atom a) = (outer, l)) :
    (Reading.holding place a).Completes := by
  have hclause : place.clause a = outer.fill l := by rw [OperandPlace.clause, h]
  match outer with
  | .first around => exact around.completes hclause
  | .afterAnd left around => exact around.completes hclause

theorem OperandPlace.completes (outer : OperandPlace) {place : OperandPlace} {a : Atom}
    {l : Literal} (h : place.fill (.atom a) = outer.fill l) :
    (Reading.holding place a).Completes := by
  match outer with
  | .first around => exact around.completes h
  | .afterNot around => exact around.completes h

end

namespace Reading

/-- **A reader is never stuck for good.** Whatever was read can be completed to a sentence. -/
theorem completes (r : Reading) : r.Completes := by
  cases r with
  | wanting place =>
      obtain ⟨ys, s, hcompleted⟩ := place.completes (a := .constant true) rfl
      exact ⟨.constant true :: ys, s, hcompleted⟩
  | holding place a => exact place.completes rfl

/-- **A reader reads exactly the beginnings of sentences.** -/
theorem exists_read_iff_begins {xs : List Symbol} :
    (∃ r, initial.read xs = some r) ↔ Begins xs := by
  constructor
  · rintro ⟨r, hread⟩
    obtain ⟨ys, s, hcompleted⟩ := r.completes
    refine ⟨ys, s, sentence?_read_eq_some_iff.mp ?_⟩
    rw [read_append, hread, Option.bind_some, hcompleted]
  · rintro ⟨ys, s, hs⟩
    obtain ⟨r, hread, -⟩ := Option.bind_eq_some_iff.mp (sentence?_read_eq_some_iff.mpr hs)
    rw [read_append] at hread
    obtain ⟨between, hbetween, -⟩ := Option.bind_eq_some_iff.mp hread
    exact ⟨between, hbetween⟩

/-- Behind what was read, the reader refuses the symbols that no sentence goes on with. -/
theorem take_eq_none_iff {r : Reading} {xs : List Symbol} (h : initial.read xs = some r)
    {x : Symbol} : r.take x = none ↔ ¬ Begins (xs ++ [x]) := by
  rw [← exists_read_iff_begins, read_append, h, Option.bind_some, read_cons,
    ← Option.isSome_iff_exists, Option.not_isSome_iff_eq_none]
  cases r.take x <;> simp [read]

end Reading

end PostfixSpec.Formula
