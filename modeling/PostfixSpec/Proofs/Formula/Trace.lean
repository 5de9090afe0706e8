import PostfixSpec.Proofs.Formula.Acceptance
import PostfixSpec.Proofs.Formula.Derivation
import PostfixSpec.Proofs.Specification.Combinations

/-!
# The trace of a parse

The parser combines operands as soon as it sees what follows them, and a combination in parentheses
before the one around them. This is the order in which the tree of the derivation is composed: what the
parser has said at any time is what composing the operands to the left of its place says. So the trace
of an accepted text can be read off the result.
-/

namespace PostfixSpec.Formula

/-! ### What is said before a place -/

mutual

/-- What was said of the operands that stand before a place for a sentence. -/
def SentencePlace.events : SentencePlace → List Event
  | .outermost => []
  | .inGroup place => place.events

def ClausePlace.events : ClausePlace → List Event
  | .first place => place.events
  | .afterOr left place => place.events ++ left.expr.events

def LiteralPlace.events : LiteralPlace → List Event
  | .first place => place.events
  | .afterAnd left place => place.events ++ left.expr.events

def OperandPlace.events : OperandPlace → List Event
  | .first place => place.events
  | .afterNot place => place.events

end

theorem SentencePlace.finish_events (loosest : Connective) (place : SentencePlace)
    (e : Encoding Leaf) : (finish loosest e place.frames).events = [] := by
  cases place <;> rfl

theorem ClausePlace.finish_conjunction_events (place : ClausePlace) (c : Clause) :
    (finish .conjunction c.encode place.frames).events = [] := by
  cases place with
  | first place => exact place.finish_events _ _
  | afterOr left place => rfl

/-- A disjunction is reported behind what was said of its operands. -/
theorem Sentence.events_or (s : Sentence) (c : Clause) :
    (Sentence.or s c).expr.events = s.expr.events ++ c.expr.events
      ++ [.record .debug ((Sentence.or s c).encode.combinedMessage .disjunction 2)] := by
  rw [expr, Expr.Binary.events_pair .disjunction s.binary_expr c.binary_expr, s.encode_expr,
    c.encode_expr, encode]

theorem Clause.events_and (c : Clause) (l : Literal) :
    (Clause.and c l).expr.events = c.expr.events ++ l.expr.events
      ++ [.record .debug ((Clause.and c l).encode.combinedMessage .conjunction 2)] := by
  rw [expr, Expr.Binary.events_pair .conjunction c.binary_expr l.binary_expr, c.encode_expr,
    l.encode_expr, encode]

/-! ### What finishing says

When operators are finished, the operands of each were reported before. What is said then completes
the report of the operand that ends here.
-/

theorem ClausePlace.finish_disjunction_events (place : ClausePlace) (c : Clause) :
    place.events ++ c.expr.events ++ (finish .disjunction c.encode place.frames).events
      = (place.fill c).1.events ++ (place.fill c).2.expr.events := by
  cases place with
  | first place => rw [frames, place.finish_events, List.append_nil, fill, Sentence.expr, events]
  | afterOr left place =>
      have hfinish : (finish .disjunction c.encode (afterOr left place).frames).events
          = .record .debug ((Sentence.or left c).encode.combinedMessage .disjunction 2)
            :: (finish .disjunction (Sentence.or left c).encode place.frames).events := by
        rw [Sentence.encode]
        rfl
      rw [hfinish, place.finish_events, fill, Sentence.events_or, events]
      simp only [List.append_assoc]

theorem LiteralPlace.finish_events (loosest : Connective) (place : LiteralPlace) (l : Literal) :
    place.events ++ l.expr.events ++ (finish loosest l.encode place.frames).events
      = (place.fill l).1.events ++ (place.fill l).2.expr.events
        ++ (finish loosest (place.fill l).2.encode (place.fill l).1.frames).events := by
  cases place with
  | first place => rw [frames, fill, Clause.expr, Clause.encode, events]
  | afterAnd left place =>
      have hfinish : (finish loosest l.encode (afterAnd left place).frames).events
          = .record .debug ((Clause.and left l).encode.combinedMessage .conjunction 2)
            :: (finish loosest (Clause.and left l).encode place.frames).events := by
        rw [Clause.encode]
        rfl
      rw [hfinish, fill, Clause.events_and, events]
      simp only [List.append_assoc, List.singleton_append]

theorem OperandPlace.finish_events (loosest : Connective) (place : OperandPlace) (l : Literal) :
    place.events ++ l.expr.events ++ (finish loosest l.encode place.frames).events
      = (place.fill l).1.events ++ (place.fill l).2.expr.events
        ++ (finish loosest (place.fill l).2.encode (place.fill l).1.frames).events := by
  match place with
  | first place => rw [events, fill, frames]
  | afterNot place =>
      have hfill := place.finish_events loosest (.not l)
      rw [Literal.expr, Expr.events_negate, Literal.encode] at hfill
      exact hfill

theorem OperandPlace.finish_clause_events (place : OperandPlace) (a : Atom) :
    place.events ++ a.expr.events ++ (finish .conjunction a.encode place.frames).events
      = (place.clause a).1.events ++ (place.clause a).2.expr.events := by
  have hliteral := place.finish_events .conjunction (.atom a)
  rw [LiteralPlace.finish_events, ClausePlace.finish_conjunction_events, List.append_nil] at hliteral
  exact hliteral

theorem OperandPlace.finish_sentence_events (place : OperandPlace) (a : Atom) :
    place.events ++ a.expr.events ++ (finish .disjunction a.encode place.frames).events
      = (place.sentence a).1.events ++ (place.sentence a).2.expr.events := by
  have hliteral := place.finish_events .disjunction (.atom a)
  rw [LiteralPlace.finish_events, ClausePlace.finish_disjunction_events] at hliteral
  exact hliteral

/-! ### What is said while reading -/

/-- What a parser has said that has read as far as a reader. -/
def Reading.events : Reading → List Event
  | wanting place => place.events
  | holding place a => place.events ++ a.expr.events

private theorem run_lift_bind_events {ε α β : Type} (x : Traced α) (next : α → ExceptT ε Traced β) :
    (ExceptT.lift x >>= next).run.events = x.events ++ (next x.value).run.events := by
  rw [ExceptT.run_bind_lift, Traced.bind_events]

private theorem run_bind_events_of_ok {ε α β : Type} {x : ExceptT ε Traced α} {a : α}
    (h : x.run.value = .ok a) (next : α → ExceptT ε Traced β) :
    (x >>= next).run.events = x.run.events ++ (next a).run.events := by
  rw [ExceptT.run_bind, Traced.bind_events, h]

theorem OperandPlace.finish_sentence_bind_events {β : Type} (place : OperandPlace) (a : Atom)
    (next : List Frame × Encoding Leaf → ExceptT ParseError Traced β) :
    place.events ++ a.expr.events
        ++ (ExceptT.lift (finish .disjunction a.encode place.frames) >>= next).run.events
      = (place.sentence a).1.events ++ (place.sentence a).2.expr.events
        ++ (next ((place.sentence a).1.frames, (place.sentence a).2.encode)).run.events := by
  rw [run_lift_bind_events, place.finish_sentence_value a, ← List.append_assoc,
    place.finish_sentence_events a]

theorem Reading.events_holding (place : OperandPlace) (a : Atom) :
    (holding place a).events = place.events ++ a.expr.events := rfl

/-- With each symbol the parser says what the reader has found complete by then. -/
theorem Reading.events_take {r next : Reading} {token : Token} (h : r.take token.symbol = some next) :
    r.events ++ (r.progress.take token).run.events = next.events := by
  obtain ⟨symbol, start⟩ := token
  cases r with
  | wanting place =>
      -- Nothing is complete before an operand stands here.
      have hquiet : ((wanting place).progress.take ⟨symbol, start⟩).run.events = [] := by
        cases symbol <;> rfl
      rw [hquiet, List.append_nil]
      cases symbol <;> simp only [take, reduceCtorEq, Option.some.injEq] at h <;> subst h
      case opening => rfl
      all_goals simp [events, OperandPlace.events, Atom.expr]
  | holding place a =>
      cases symbol with
      | connective c =>
          cases c with
          | conjunction =>
              rw [take, Option.some.injEq] at h
              rw [← h, events_holding, progress, Progress.take, run_lift_bind_events,
                place.finish_clause_value a, ← List.append_assoc, place.finish_clause_events a]
              exact List.append_nil _
          | disjunction =>
              rw [take, Option.some.injEq] at h
              rw [← h, events_holding, progress, Progress.take, place.finish_sentence_bind_events a]
              exact List.append_nil _
      | closing =>
          rw [events_holding, progress, Progress.take, place.finish_sentence_bind_events a]
          rw [take] at h
          split at h
          next outer s hsentence =>
            obtain rfl := Option.some.inj h
            rw [hsentence, events_holding, Atom.expr]
            exact List.append_nil _
          next => cases h
      | _ => cases h

/-- After several symbols the parser has said what the reader has found complete by then. -/
theorem Reading.events_foldlM {r next : Reading} {tokens : List Token}
    (h : r.read (tokens.map (·.symbol)) = some next) :
    r.events ++ (tokens.foldlM Progress.take r.progress).run.events = next.events := by
  induction tokens generalizing r with
  | nil =>
      obtain rfl := Option.some.inj h
      exact List.append_nil _
  | cons token tokens ih =>
      rw [List.map_cons, read_cons] at h
      obtain ⟨between, hfirst, hrest⟩ := Option.bind_eq_some_iff.mp h
      have hvalue := r.progress_take token
      rw [hfirst] at hvalue
      rw [List.foldlM_cons, run_bind_events_of_ok hvalue, ← List.append_assoc, events_take hfirst]
      exact ih hrest

theorem Reading.events_close {r : Reading} {s : Sentence} (h : r.sentence? = some s) :
    r.events ++ r.progress.close.run.events = s.expr.events := by
  cases r with
  | wanting place => cases h
  | holding place a =>
      rw [events_holding, progress, Progress.close, place.finish_sentence_bind_events a]
      rw [sentence?] at h
      split at h
      next s' hsentence =>
        obtain rfl := Option.some.inj h
        rw [hsentence]
        exact List.append_nil _
      next => cases h

/-- What is said between the opening and the closing reports is what composing the derivation says. -/
theorem events_parseScan {text : String} {s : Sentence} (hlegal : (scan text).illegal = none)
    (hs : s.symbols = (scan text).tokens.map (·.symbol)) :
    (parseScan (scan text)).run.events = s.expr.events := by
  obtain ⟨r, hread, hsentence⟩ := Option.bind_eq_some_iff.mp (sentence?_read_eq_some_iff.mpr hs)
  have hrun := (Reading.progress_foldlM .initial (scan text).tokens r.progress).mpr ⟨r, hread, rfl⟩
  have hinitial : Progress.wanting [] = Reading.initial.progress := rfl
  rw [parseScan, hinitial, run_bind_events_of_ok hrun, hlegal, ← Reading.events_close hsentence,
    ← Reading.events_foldlM hread]
  rfl

/-- **The trace of a parse mirrors its result.** A text that is accepted is announced twice, by the
compiler and by the parser. Then one combination is reported for each joining record of the result, in
the order of these records, with the kind of the record and the size of the subexpression that it ends.
No other combination is. In the end the result is reported twice. -/
theorem parse_trace {text : String} {e : Encoding Leaf} (h : parse text = .ok e) :
    (parseTraced text).run.events
      = (["Compiling formula: " ++ text, "Parsing formula: " ++ text] ++ Op.combinations e.ops
        ++ ["Successfully parsed formula into " ++ e.describe,
            "Formula compiled into " ++ e.describe]).map (.record .debug) := by
  obtain ⟨hlegal, s, hs, hencode⟩ := parse_eq_ok_iff.mp h
  have hcombinations := s.binary_expr.events_eq
  rw [s.encode_expr, hencode] at hcombinations
  rw [parseTraced_events, parseEvents, events_parseScan hlegal hs, hcombinations, h, List.map_append,
    List.map_append]
  rfl

/-- Negations and parentheses are not reported; a chain is reported from the left. -/
theorem parse_trace_nested :
    parse "!p & (q | !r) & true" = .ok ⟨[.leaf 0, .negate, .leaf 1, .leaf 2, .negate,
        .join .disjunction 2, .join .conjunction 2, .leaf 3, .join .conjunction 2],
        [.text "p", .text "q", .text "r", .bool true]⟩ ∧
      (parseTraced "!p & (q | !r) & true").run.events
        = ["Compiling formula: !p & (q | !r) & true", "Parsing formula: !p & (q | !r) & true",
            "Combined 2 specifications under Disjunction: 2 leafs, 4 ops",
            "Combined 2 specifications under Conjunction: 3 leafs, 7 ops",
            "Combined 2 specifications under Conjunction: 4 leafs, 9 ops",
            "Successfully parsed formula into Specification(leafs=4, ops=9)",
            "Formula compiled into Specification(leafs=4, ops=9)"].map (.record .debug) := by
  have hparse : parse "!p & (q | !r) & true" = .ok ⟨[.leaf 0, .negate, .leaf 1, .leaf 2, .negate,
      .join .disjunction 2, .join .conjunction 2, .leaf 3, .join .conjunction 2],
      [.text "p", .text "q", .text "r", .bool true]⟩ := by decide +kernel
  exact ⟨hparse, (parse_trace hparse).trans (by decide +kernel)⟩

end PostfixSpec.Formula
