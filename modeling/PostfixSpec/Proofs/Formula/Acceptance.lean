import PostfixSpec.Formula.Parser
import PostfixSpec.Proofs.Formula.Reading
import PostfixSpec.Proofs.Formula.Spelling
import PostfixSpec.Specification

/-!
# The parser accepts the grammar

The parser keeps its open frames where a reader keeps its place: a frame for each negation, each left
operand and each group that is still open, with the encoding in the frame of the derivation at the
place. Finishing the pending operators is filling the places around, so parser and reader take the
same symbols. What the reader finds, the parser builds.
-/

namespace PostfixSpec.Formula

/-! ### Frames of places -/

mutual

/-- What is open around a place for a sentence. -/
def SentencePlace.frames : SentencePlace → List Frame
  | .outermost => []
  | .inGroup place => .group :: place.frames

def ClausePlace.frames : ClausePlace → List Frame
  | .first place => place.frames
  | .afterOr left place => .left .disjunction left.encode :: place.frames

def LiteralPlace.frames : LiteralPlace → List Frame
  | .first place => place.frames
  | .afterAnd left place => .left .conjunction left.encode :: place.frames

def OperandPlace.frames : OperandPlace → List Frame
  | .first place => place.frames
  | .afterNot place => .negation :: place.frames

end

theorem SentencePlace.finish_value (loosest : Connective) (place : SentencePlace)
    (e : Encoding Leaf) : (finish loosest e place.frames).value = (place.frames, e) := by
  cases place <;> rfl

theorem ClausePlace.finish_conjunction_value (place : ClausePlace) (c : Clause) :
    (finish .conjunction c.encode place.frames).value = (place.frames, c.encode) := by
  cases place with
  | first place => exact place.finish_value _ _
  | afterOr left place => rfl

theorem ClausePlace.finish_disjunction_value (place : ClausePlace) (c : Clause) :
    (finish .disjunction c.encode place.frames).value
      = ((place.fill c).1.frames, (place.fill c).2.encode) := by
  cases place with
  | first place => exact place.finish_value _ _
  | afterOr left place => exact place.finish_value _ _

/-- Finishing works through a place for a literal whatever it stops at. -/
theorem LiteralPlace.finish_value (loosest : Connective) (place : LiteralPlace) (l : Literal) :
    (finish loosest l.encode place.frames).value
      = (finish loosest (place.fill l).2.encode (place.fill l).1.frames).value := by
  cases place <;> rfl

theorem OperandPlace.finish_value (loosest : Connective) (place : OperandPlace) (l : Literal) :
    (finish loosest l.encode place.frames).value
      = (finish loosest (place.fill l).2.encode (place.fill l).1.frames).value := by
  match place with
  | first place => rfl
  | afterNot place => exact place.finish_value loosest (.not l)

theorem OperandPlace.finish_clause_value (place : OperandPlace) (a : Atom) :
    (finish .conjunction a.encode place.frames).value
      = ((place.clause a).1.frames, (place.clause a).2.encode) := by
  have hliteral := place.finish_value .conjunction (.atom a)
  rw [LiteralPlace.finish_value, ClausePlace.finish_conjunction_value] at hliteral
  exact hliteral

theorem OperandPlace.finish_sentence_value (place : OperandPlace) (a : Atom) :
    (finish .disjunction a.encode place.frames).value
      = ((place.sentence a).1.frames, (place.sentence a).2.encode) := by
  have hliteral := place.finish_value .disjunction (.atom a)
  rw [LiteralPlace.finish_value, ClausePlace.finish_disjunction_value] at hliteral
  exact hliteral

/-! ### Parser and reader side by side -/

/-- The state of a parser that has read as far as a reader. -/
def Reading.progress : Reading → Progress
  | wanting place => .wanting place.frames
  | holding place a => .holding place.frames a.encode

private theorem run_lift_bind_value {ε α β : Type} (x : Traced α) (next : α → ExceptT ε Traced β) :
    (ExceptT.lift x >>= next).run.value = (next x.value).run.value := by
  rw [ExceptT.run_bind_lift, Traced.bind_value]

private theorem run_bind_value {ε α β : Type} (x : ExceptT ε Traced α)
    (next : α → ExceptT ε Traced β) :
    (x >>= next).run.value
      = match x.run.value with
        | .ok a => (next a).run.value
        | .error error => .error error := by
  rw [ExceptT.run_bind, Traced.bind_value]
  cases x.run.value <;> rfl

/-- The parser takes the symbols that the reader takes, and refuses the others. -/
theorem Reading.progress_take (r : Reading) (token : Token) :
    (r.progress.take token).run.value
      = match r.take token.symbol with
        | some next => .ok next.progress
        | none => .error (.unexpectedToken token) := by
  obtain ⟨symbol, start⟩ := token
  cases r with
  | wanting place => cases symbol <;> rfl
  | holding place a =>
      cases symbol with
      | connective c =>
          cases c with
          | conjunction =>
              rw [progress, Progress.take, run_lift_bind_value, place.finish_clause_value a]
              rfl
          | disjunction =>
              rw [progress, Progress.take, run_lift_bind_value, place.finish_sentence_value a]
              rfl
      | closing =>
          rw [progress, Progress.take, run_lift_bind_value, place.finish_sentence_value a, take]
          rcases place.sentence a with ⟨_ | outer, s⟩ <;> rfl
      | _ => rfl

/-- Over several tokens the parser goes as far as the reader. -/
theorem Reading.progress_foldlM (r : Reading) (tokens : List Token) (p : Progress) :
    (tokens.foldlM Progress.take r.progress).run.value = .ok p
      ↔ ∃ next, r.read (tokens.map (·.symbol)) = some next ∧ next.progress = p := by
  induction tokens generalizing r with
  | nil => exact ⟨fun h => ⟨r, rfl, Except.ok.inj h⟩, fun ⟨_, hr, hp⟩ => Option.some.inj hr ▸ hp ▸ rfl⟩
  | cons token tokens ih =>
      rw [List.foldlM_cons, run_bind_value, progress_take, List.map_cons, read_cons]
      cases r.take token.symbol with
      | none => simp
      | some next => exact ih next

/-- At the first token that the reader refuses the parser stops, whatever is behind it. -/
theorem Reading.progress_foldlM_error {r next : Reading} {before : List Token} {token : Token}
    (hread : r.read (before.map (·.symbol)) = some next) (hrefused : next.take token.symbol = none)
    (after : List Token) :
    ((before ++ token :: after).foldlM Progress.take r.progress).run.value
      = .error (.unexpectedToken token) := by
  have hbefore := (progress_foldlM r before _).mpr ⟨next, hread, rfl⟩
  have hstops : ((token :: after).foldlM Progress.take next.progress).run.value
      = .error (.unexpectedToken token) := by
    rw [List.foldlM_cons, run_bind_value, progress_take, hrefused]
  rw [List.foldlM_append, run_bind_value, hbefore]
  exact hstops

/-- The parser ends well where the reader has a complete derivation. -/
theorem Reading.progress_close (r : Reading) :
    r.progress.close.run.value
      = match r.sentence? with
        | some s => .ok s.encode
        | none => .error .unexpectedEnd := by
  cases r with
  | wanting place => rfl
  | holding place a =>
      rw [progress, Progress.close, run_lift_bind_value, place.finish_sentence_value a, sentence?]
      rcases place.sentence a with ⟨_ | outer, s⟩ <;> rfl

theorem parse_eq (text : String) :
    parse text
      = match ((scan text).tokens.foldlM Progress.take Reading.initial.progress).run.value with
        | .error error => .error error
        | .ok p =>
          match (scan text).illegal with
          | some illegal => .error (.illegalCharacter illegal)
          | none => p.close.run.value := by
  have hinitial : Progress.wanting [] = Reading.initial.progress := rfl
  rw [parse, parseScan, run_bind_value, hinitial]
  cases ((scan text).tokens.foldlM Progress.take Reading.initial.progress).run.value <;>
    cases (scan text).illegal <;> rfl

/-- **What the parser accepts, and what it builds.** -/
theorem parse_eq_ok_iff {text : String} {e : Encoding Leaf} :
    parse text = .ok e ↔ (scan text).illegal = none ∧
      ∃ s : Sentence, s.symbols = (scan text).tokens.map (·.symbol) ∧ s.encode = e := by
  constructor
  · intro h
    rw [parse_eq] at h
    split at h
    next => exact nomatch h
    next p hrun =>
      obtain ⟨r, hread, rfl⟩ := (Reading.progress_foldlM _ _ _).mp hrun
      split at h
      next => exact nomatch h
      next hillegal =>
        rw [Reading.progress_close] at h
        split at h
        next s hsentence =>
          refine ⟨hillegal, s, sentence?_read_eq_some_iff.mp ?_, Except.ok.inj h⟩
          rw [hread, Option.bind_some, hsentence]
        next => exact nomatch h
  · rintro ⟨hillegal, s, hs, rfl⟩
    obtain ⟨r, hread, hsentence⟩ :=
      Option.bind_eq_some_iff.mp (sentence?_read_eq_some_iff.mpr hs)
    have hrun := (Reading.progress_foldlM _ _ _).mpr ⟨r, hread, rfl⟩
    simp only [parse_eq, hrun, hillegal, Reading.progress_close, hsentence]

/-- A text is accepted if it writes a sentence. -/
theorem parse_eq_ok_iff_writes {text : String} {e : Encoding Leaf} :
    parse text = .ok e ↔ ∃ s : Sentence, Writes text.toList s.symbols ∧ s.encode = e := by
  refine parse_eq_ok_iff.trans ⟨?_, ?_⟩
  · rintro ⟨hillegal, s, hsymbols, hencode⟩
    have hwrites := (spells_scanFrom 0 text.toList).writes hillegal
    rw [← scan, ← hsymbols] at hwrites
    exact ⟨s, hwrites, hencode⟩
  · rintro ⟨s, hwrites, hencode⟩
    obtain ⟨hillegal, hsymbols⟩ := hwrites.scan_eq
    exact ⟨hillegal, s, hsymbols.symm, hencode⟩

/-! ### Composition along a derivation -/

mutual

/-- The specification composed along a sentence. -/
def Sentence.compose : Sentence → Except CompositionError (Specification Leaf)
  | .clause c => c.compose
  | .or s c => do Specification.disjunction [← s.compose, ← c.compose]

def Clause.compose : Clause → Except CompositionError (Specification Leaf)
  | .literal l => l.compose
  | .and c l => do Specification.conjunction [← c.compose, ← l.compose]

def Literal.compose : Literal → Except CompositionError (Specification Leaf)
  | .atom a => a.compose
  | .not l => do (← l.compose).negation

def Atom.compose : Atom → Except CompositionError (Specification Leaf)
  | .name value => .ok (.leaf (.text value))
  | .constant value => .ok (.leaf (.bool value))
  | .group s => s.compose

end

mutual

theorem Sentence.compose_eq (s : Sentence) : s.compose = .ok (.encoded s.encode) := by
  match s with
  | .clause c => exact c.compose_eq
  | .or s c =>
      rw [Sentence.compose, s.compose_eq, c.compose_eq]
      rfl

theorem Clause.compose_eq (c : Clause) : c.compose = .ok (.encoded c.encode) := by
  match c with
  | .literal l => exact l.compose_eq
  | .and c l =>
      rw [Clause.compose, c.compose_eq, l.compose_eq]
      rfl

theorem Literal.compose_eq (l : Literal) : l.compose = .ok (.encoded l.encode) := by
  match l with
  | .atom a => exact a.compose_eq
  | .not l =>
      rw [Literal.compose, l.compose_eq]
      rfl

theorem Atom.compose_eq (a : Atom) : a.compose = .ok (.encoded a.encode) := by
  match a with
  | .name value => rfl
  | .constant value => rfl
  | .group s => exact s.compose_eq

end

/-! ### The main statement -/

/-- **The parser accepts exactly its grammar and composes along the derivation.** A text without an
illegal character is accepted if and only if its symbols can be derived. Then there is only one
derivation, and the result is the specification composed along it. A text with an illegal character is
rejected. -/
theorem parse_accepts_grammar (text : String) :
    ((scan text).illegal = none →
      ((∃ e, parse text = .ok e)
        ↔ ∃ s : Sentence, s.symbols = (scan text).tokens.map (·.symbol)) ∧
      ∀ s : Sentence, s.symbols = (scan text).tokens.map (·.symbol) →
        (∀ t : Sentence, t.symbols = (scan text).tokens.map (·.symbol) → t = s) ∧
        ∃ e, parse text = .ok e ∧ s.compose = .ok (.encoded e)) ∧
    ((scan text).illegal ≠ none → ∃ error, parse text = .error error) := by
  constructor
  · intro hillegal
    refine ⟨⟨?_, ?_⟩, ?_⟩
    · rintro ⟨e, he⟩
      obtain ⟨-, s, hs, -⟩ := parse_eq_ok_iff.mp he
      exact ⟨s, hs⟩
    · rintro ⟨s, hs⟩
      exact ⟨s.encode, parse_eq_ok_iff.mpr ⟨hillegal, s, hs, rfl⟩⟩
    · intro s hs
      refine ⟨fun t ht => Sentence.symbols_injective (ht.trans hs.symm), s.encode, ?_, s.compose_eq⟩
      exact parse_eq_ok_iff.mpr ⟨hillegal, s, hs, rfl⟩
  · intro hillegal
    cases hparse : parse text with
    | ok e => exact absurd (parse_eq_ok_iff.mp hparse).1 hillegal
    | error error => exact ⟨error, rfl⟩

/-- Negation binds tighter than `&`, `&` tighter than `|`, and chains lean to the left. -/
theorem parse_accepts_grammar_mixed :
    (scan "!p & q | r | (s)").illegal = none ∧
      ∃ e, parse "!p & q | r | (s)" = .ok e ∧
        Sentence.compose (.or (.or (.clause (.and (.literal (.not (.atom (.name "p"))))
            (.atom (.name "q")))) (.literal (.atom (.name "r"))))
          (.literal (.atom (.group (.clause (.literal (.atom (.name "s")))))))) = .ok (.encoded e) := by
  have hlegal : (scan "!p & q | r | (s)").illegal = none := by decide +kernel
  refine ⟨hlegal, ?_⟩
  exact (((parse_accepts_grammar "!p & q | r | (s)").1 hlegal).2 _ (by decide +kernel)).2

end PostfixSpec.Formula
