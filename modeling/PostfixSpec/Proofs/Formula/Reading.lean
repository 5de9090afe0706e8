import PostfixSpec.Formula.Grammar

/-!
# Reading a formula from left to right

What is read of a formula is a derivation with a hole at its right end. The hole is a place: from the
inside out it says which negations, which conjunction, which disjunction and which group are still
open, and what stands to the left in each of them. A reader keeps its place, and the operand that it
holds there if it holds one.

The reader is deterministic, keeps every symbol that it has read, and reads every derivation. So it
finds the derivation of a list of symbols whenever there is one, and there is never a second one.
-/

namespace PostfixSpec.Formula

mutual

/-- A place for a sentence. -/
inductive SentencePlace where
  | outermost
  | inGroup (place : OperandPlace)

/-- A place for a clause: the first of its sentence, or behind some others. -/
inductive ClausePlace where
  | first (place : SentencePlace)
  | afterOr (left : Sentence) (place : SentencePlace)

/-- A place for a literal: the first of its clause, or behind some others. -/
inductive LiteralPlace where
  | first (place : ClausePlace)
  | afterAnd (left : Clause) (place : ClausePlace)

/-- A place for an operand, behind any number of negations. -/
inductive OperandPlace where
  | first (place : LiteralPlace)
  | afterNot (place : OperandPlace)

end

mutual

/-- The symbols before a place for a sentence. -/
def SentencePlace.symbols : SentencePlace → List Symbol
  | .outermost => []
  | .inGroup place => place.symbols ++ [.opening]

def ClausePlace.symbols : ClausePlace → List Symbol
  | .first place => place.symbols
  | .afterOr left place => place.symbols ++ left.symbols ++ [.connective .disjunction]

def LiteralPlace.symbols : LiteralPlace → List Symbol
  | .first place => place.symbols
  | .afterAnd left place => place.symbols ++ left.symbols ++ [.connective .conjunction]

def OperandPlace.symbols : OperandPlace → List Symbol
  | .first place => place.symbols
  | .afterNot place => place.symbols ++ [.negation]

end

/-- The place for the first operand of a sentence. -/
def SentencePlace.start (place : SentencePlace) : OperandPlace := .first (.first (.first place))

/-! ### Filling a place

Filling a place for an operand fills the places around it, up to the one that is asked for.
-/

/-- Puts a literal at a place for an operand: the place for a literal around it, and the literal
there with all negations. -/
def OperandPlace.fill : OperandPlace → Literal → LiteralPlace × Literal
  | first place, l => (place, l)
  | afterNot place, l => place.fill (.not l)

/-- Puts a literal at its place: the place for a clause around it, and the clause up to here. -/
def LiteralPlace.fill : LiteralPlace → Literal → ClausePlace × Clause
  | first place, l => (place, .literal l)
  | afterAnd left place, l => (place, .and left l)

/-- Puts a clause at its place: the place for a sentence around it, and the sentence up to here. -/
def ClausePlace.fill : ClausePlace → Clause → SentencePlace × Sentence
  | first place, c => (place, .clause c)
  | afterOr left place, c => (place, .or left c)

/-- The clause that ends with an atom, and its place. -/
def OperandPlace.clause (place : OperandPlace) (a : Atom) : ClausePlace × Clause :=
  let (place, l) := place.fill (.atom a)
  place.fill l

/-- The sentence that ends with an atom, and its place. -/
def OperandPlace.sentence (place : OperandPlace) (a : Atom) : SentencePlace × Sentence :=
  let (place, c) := place.clause a
  place.fill c

theorem OperandPlace.fill_symbols (place : OperandPlace) (l : Literal) :
    (place.fill l).1.symbols ++ (place.fill l).2.symbols = place.symbols ++ l.symbols := by
  match place with
  | first place => rw [fill, symbols]
  | afterNot place =>
      rw [fill, fill_symbols place, symbols, Literal.symbols, List.append_assoc,
        List.singleton_append]

theorem LiteralPlace.fill_symbols (place : LiteralPlace) (l : Literal) :
    (place.fill l).1.symbols ++ (place.fill l).2.symbols = place.symbols ++ l.symbols := by
  cases place with
  | first place => rw [fill, symbols, Clause.symbols]
  | afterAnd left place => simp [fill, symbols, Clause.symbols]

theorem ClausePlace.fill_symbols (place : ClausePlace) (c : Clause) :
    (place.fill c).1.symbols ++ (place.fill c).2.symbols = place.symbols ++ c.symbols := by
  cases place with
  | first place => rw [fill, symbols, Sentence.symbols]
  | afterOr left place => simp [fill, symbols, Sentence.symbols]

theorem OperandPlace.clause_symbols (place : OperandPlace) (a : Atom) :
    (place.clause a).1.symbols ++ (place.clause a).2.symbols = place.symbols ++ a.symbols := by
  rw [clause, LiteralPlace.fill_symbols, fill_symbols, Literal.symbols]

theorem OperandPlace.sentence_symbols (place : OperandPlace) (a : Atom) :
    (place.sentence a).1.symbols ++ (place.sentence a).2.symbols = place.symbols ++ a.symbols := by
  rw [sentence, ClausePlace.fill_symbols, clause_symbols]

/-! ### The reader -/

inductive Reading where
  | wanting (place : OperandPlace)
  | holding (place : OperandPlace) (a : Atom)

namespace Reading

/-- The symbols read so far. -/
def symbols : Reading → List Symbol
  | wanting place => place.symbols
  | holding place a => place.symbols ++ a.symbols

def take : Reading → Symbol → Option Reading
  | wanting place, .name value => some (holding place (.name value))
  | wanting place, .constant value => some (holding place (.constant value))
  | wanting place, .negation => some (wanting (.afterNot place))
  | wanting place, .opening => some (wanting (SentencePlace.inGroup place).start)
  | holding place a, .connective .conjunction =>
    let (place, c) := place.clause a
    some (wanting (.first (.afterAnd c place)))
  | holding place a, .connective .disjunction =>
    let (place, s) := place.sentence a
    some (wanting (.first (.first (.afterOr s place))))
  | holding place a, .closing =>
    match place.sentence a with
    | (.inGroup place, s) => some (holding place (.group s))
    | (.outermost, _) => none
  | _, _ => none

/-- Reads some symbols, if each fits behind those before it. -/
def read (r : Reading) (symbols : List Symbol) : Option Reading := symbols.foldlM take r

/-- The derivation of everything read, if it is complete. -/
def sentence? : Reading → Option Sentence
  | wanting _ => none
  | holding place a =>
    match place.sentence a with
    | (.outermost, s) => some s
    | (.inGroup _, _) => none

def initial : Reading := wanting SentencePlace.outermost.start

@[simp] theorem read_cons (r : Reading) (x : Symbol) (xs : List Symbol) :
    r.read (x :: xs) = (r.take x).bind fun r => r.read xs := List.foldlM_cons

theorem read_append (r : Reading) (xs ys : List Symbol) :
    r.read (xs ++ ys) = (r.read xs).bind fun r => r.read ys := List.foldlM_append

/-! ### Nothing is lost -/

theorem symbols_of_take {r r' : Reading} {x : Symbol} (h : r.take x = some r') :
    r'.symbols = r.symbols ++ [x] := by
  cases r with
  | wanting place =>
      cases x <;> simp only [take, reduceCtorEq, Option.some.injEq] at h <;> subst h
      all_goals rfl
  | holding place a =>
      cases x with
      | connective c =>
          cases c with
          | conjunction =>
              rw [take, Option.some.injEq] at h
              rw [← h]
              exact congrArg (· ++ [_]) (place.clause_symbols a)
          | disjunction =>
              rw [take, Option.some.injEq] at h
              rw [← h]
              exact congrArg (· ++ [_]) (place.sentence_symbols a)
      | closing =>
          have hfill := place.sentence_symbols a
          rw [take] at h
          split at h
          next outer s hsentence =>
            obtain rfl := Option.some.inj h
            simp only [hsentence, SentencePlace.symbols] at hfill
            simp [symbols, Atom.symbols, ← hfill]
          next => exact nomatch h
      | _ => exact nomatch h

theorem symbols_of_read {r r' : Reading} {xs : List Symbol} (h : r.read xs = some r') :
    r'.symbols = r.symbols ++ xs := by
  induction xs generalizing r with
  | nil =>
      obtain rfl := Option.some.inj h
      exact (List.append_nil _).symm
  | cons x xs ih =>
      rw [read_cons] at h
      obtain ⟨between, hfirst, hrest⟩ := Option.bind_eq_some_iff.mp h
      rw [ih hrest, symbols_of_take hfirst, List.append_assoc, List.singleton_append]

theorem symbols_of_sentence? {r : Reading} {s : Sentence} (h : r.sentence? = some s) :
    s.symbols = r.symbols := by
  cases r with
  | wanting place => exact nomatch h
  | holding place a =>
      have hfill := place.sentence_symbols a
      rw [sentence?] at h
      split at h
      next s' hsentence =>
        obtain rfl := Option.some.inj h
        rwa [hsentence, SentencePlace.symbols, List.nil_append] at hfill
      next => exact nomatch h

/-! ### Every derivation is read

Read at a place of its own kind, a derivation leaves the reader holding its last atom, and putting
this atom back gives the derivation at the place where it began.
-/

end Reading

mutual

theorem Sentence.read_symbols (s : Sentence) (outer : SentencePlace) :
    ∃ place a, (Reading.wanting outer.start).read s.symbols = some (.holding place a) ∧
      place.sentence a = (outer, s) := by
  match s with
  | .clause c =>
      obtain ⟨place, a, hread, hclause⟩ := c.read_symbols (.first outer)
      refine ⟨place, a, hread, ?_⟩
      rw [OperandPlace.sentence, hclause]
      rfl
  | .or left c =>
      obtain ⟨before, b, hleft, hsentence⟩ := left.read_symbols outer
      obtain ⟨place, a, hread, hclause⟩ := c.read_symbols (.afterOr left outer)
      refine ⟨place, a, ?_, ?_⟩
      · rw [Sentence.symbols, Reading.read_append, hleft, Option.bind_some, Reading.read_cons,
          Reading.take, hsentence]
        exact hread
      · rw [OperandPlace.sentence, hclause]
        rfl

theorem Clause.read_symbols (c : Clause) (outer : ClausePlace) :
    ∃ place a, (Reading.wanting (.first (.first outer))).read c.symbols = some (.holding place a) ∧
      place.clause a = (outer, c) := by
  match c with
  | .literal l =>
      obtain ⟨place, a, hread, hfill⟩ := l.read_symbols (.first (.first outer))
      refine ⟨place, a, hread, ?_⟩
      rw [OperandPlace.clause, hfill]
      rfl
  | .and left l =>
      obtain ⟨before, b, hleft, hclause⟩ := left.read_symbols outer
      obtain ⟨place, a, hread, hfill⟩ := l.read_symbols (.first (.afterAnd left outer))
      refine ⟨place, a, ?_, ?_⟩
      · rw [Clause.symbols, Reading.read_append, hleft, Option.bind_some, Reading.read_cons,
          Reading.take, hclause]
        exact hread
      · rw [OperandPlace.clause, hfill]
        rfl

theorem Literal.read_symbols (l : Literal) (outer : OperandPlace) :
    ∃ place a, (Reading.wanting outer).read l.symbols = some (.holding place a) ∧
      place.fill (.atom a) = outer.fill l := by
  match l with
  | .atom a => exact ⟨outer, a, a.read_symbols outer, rfl⟩
  | .not l =>
      obtain ⟨place, a, hread, hfill⟩ := l.read_symbols (.afterNot outer)
      exact ⟨place, a, hread, hfill⟩

theorem Atom.read_symbols (a : Atom) (outer : OperandPlace) :
    (Reading.wanting outer).read a.symbols = some (.holding outer a) := by
  match a with
  | .name value => rfl
  | .constant value => rfl
  | .group s =>
      obtain ⟨place, a, hread, hsentence⟩ := s.read_symbols (.inGroup outer)
      rw [Atom.symbols, List.cons_append, Reading.read_cons, Reading.take, Option.bind_some,
        Reading.read_append, hread, Option.bind_some, Reading.read_cons, Reading.take, hsentence]
      rfl

end

/-- **Reading finds the derivation.** A list of symbols is read to a complete derivation if and only
if that derivation derives it. -/
theorem sentence?_read_eq_some_iff {xs : List Symbol} {s : Sentence} :
    (Reading.initial.read xs).bind Reading.sentence? = some s ↔ s.symbols = xs := by
  constructor
  · intro h
    obtain ⟨r, hread, hsentence⟩ := Option.bind_eq_some_iff.mp h
    rw [Reading.symbols_of_sentence? hsentence, Reading.symbols_of_read hread]
    rfl
  · rintro rfl
    obtain ⟨place, a, hread, hsentence⟩ := s.read_symbols .outermost
    rw [Reading.initial, hread, Option.bind_some, Reading.sentence?, hsentence]

/-- **The grammar is unambiguous.** -/
theorem Sentence.symbols_injective {s t : Sentence} (h : s.symbols = t.symbols) : s = t := by
  have hs := sentence?_read_eq_some_iff.mpr h
  have ht := sentence?_read_eq_some_iff.mpr (Eq.refl t.symbols)
  exact Option.some.inj (hs.symm.trans ht)

end PostfixSpec.Formula
