import PostfixSpec.Proofs.Evaluator.Truth
import PostfixSpec.Proofs.Formula.Acceptance
import PostfixSpec.Proofs.Formula.Derivation
import PostfixSpec.Proofs.Formula.Failure

/-!
# Grouping in composed texts

Two formula texts with a connective between them are a formula text again. Whether it is read as the
composition of the two depends on the connectives that stand outside parentheses: those of the right
text must bind tighter, and those of the left text must not bind looser. Disjunction is different in
that it never fails to mean what it says. A disjunction on the right gives its clauses away, one by one,
to the chain on its left; this changes the tree, but not when it holds.
-/

namespace PostfixSpec.Formula

/-! ### Symbols outside parentheses -/

/-- The symbols outside parentheses, of which `depth` are open in front. -/
def outside : Nat → List Symbol → List Symbol
  | _, [] => []
  | depth, .opening :: xs => outside (depth + 1) xs
  | depth, .closing :: xs => outside (depth - 1) xs
  | depth, x :: xs => if depth = 0 then x :: outside depth xs else outside depth xs

/-- Symbols that close what they open, so that the depth behind them is that in front. -/
def Balanced (xs : List Symbol) : Prop :=
  ∀ (depth : Nat) (rest : List Symbol),
    outside depth (xs ++ rest) = outside depth xs ++ outside depth rest

theorem outside_cons {x : Symbol} (hopening : x ≠ .opening) (hclosing : x ≠ .closing) (depth : Nat)
    (xs : List Symbol) :
    outside depth (x :: xs) = (if depth = 0 then [x] else []) ++ outside depth xs := by
  rw [outside.eq_4 depth x xs hopening hclosing]
  split <;> rfl

theorem balanced_nil : Balanced [] := fun _ _ => rfl

theorem Balanced.cons (x : Symbol) (hopening : x ≠ .opening) (hclosing : x ≠ .closing)
    {xs : List Symbol} (hxs : Balanced xs) : Balanced (x :: xs) := by
  intro depth rest
  rw [List.cons_append, outside_cons hopening hclosing, outside_cons hopening hclosing, hxs,
    List.append_assoc]

theorem Balanced.append {xs ys : List Symbol} (hxs : Balanced xs) (hys : Balanced ys) :
    Balanced (xs ++ ys) := by
  intro depth rest
  calc
    outside depth (xs ++ ys ++ rest)
      = outside depth xs ++ (outside depth ys ++ outside depth rest) := by
        rw [List.append_assoc, hxs, hys]
    _ = outside depth (xs ++ ys) ++ outside depth rest := by rw [hxs, List.append_assoc]

theorem Balanced.group {xs : List Symbol} (hxs : Balanced xs) :
    Balanced (.opening :: xs ++ [.closing]) := by
  intro depth rest
  have hclosed (rest : List Symbol) :
      outside depth (.opening :: xs ++ .closing :: rest)
        = outside (depth + 1) xs ++ outside depth rest := by
    rw [List.cons_append, outside, hxs, outside, Nat.add_sub_cancel]
  rw [List.append_assoc, List.singleton_append, hclosed, hclosed, outside, List.append_nil]

mutual

theorem Sentence.balanced (s : Sentence) : Balanced s.symbols := by
  match s with
  | .clause c => exact c.balanced
  | .or s c =>
      exact s.balanced.append (c.balanced.cons (.connective .disjunction) nofun nofun)

theorem Clause.balanced (c : Clause) : Balanced c.symbols := by
  match c with
  | .literal l => exact l.balanced
  | .and c l =>
      exact c.balanced.append (l.balanced.cons (.connective .conjunction) nofun nofun)

theorem Literal.balanced (l : Literal) : Balanced l.symbols := by
  match l with
  | .atom a => exact a.balanced
  | .not l => exact l.balanced.cons .negation nofun nofun

theorem Atom.balanced (a : Atom) : Balanced a.symbols := by
  match a with
  | .name value => exact balanced_nil.cons (.name value) nofun nofun
  | .constant value => exact balanced_nil.cons (.constant value) nofun nofun
  | .group s => exact s.balanced.group

end

/-- A connective between two balanced parts stands outside parentheses. -/
theorem mem_outside_connective {xs : List Symbol} (hxs : Balanced xs) (c : Connective)
    (ys : List Symbol) : .connective c ∈ outside 0 (xs ++ .connective c :: ys) := by
  have hsign := outside_cons (x := .connective c) nofun nofun 0 ys
  rw [hxs, hsign]
  exact List.mem_append_right _ (List.mem_append_left _ (List.mem_singleton_self _))

/-! ### What a derivation is without a connective outside -/

theorem Sentence.exists_clause {s : Sentence}
    (h : .connective .disjunction ∉ outside 0 s.symbols) : ∃ c : Clause, s = .clause c := by
  cases s with
  | clause c => exact ⟨c, rfl⟩
  | or s c => exact absurd (mem_outside_connective s.balanced .disjunction c.symbols) h

theorem Clause.exists_literal {c : Clause}
    (h : .connective .conjunction ∉ outside 0 c.symbols) : ∃ l : Literal, c = .literal l := by
  cases c with
  | literal l => exact ⟨l, rfl⟩
  | and c l => exact absurd (mem_outside_connective c.balanced .conjunction l.symbols) h

theorem Sentence.exists_literal {s : Sentence}
    (h : ∀ c, .connective c ∉ outside 0 s.symbols) : ∃ l : Literal, s = .clause (.literal l) := by
  obtain ⟨c, rfl⟩ := Sentence.exists_clause (h .disjunction)
  obtain ⟨l, rfl⟩ := Clause.exists_literal (h .conjunction)
  exact ⟨l, rfl⟩

/-! ### Clauses behind a sentence -/

/-- A sentence with the clauses of another one behind its own. -/
def Sentence.append (left : Sentence) : Sentence → Sentence
  | .clause c => .or left c
  | .or s c => .or (left.append s) c

theorem Sentence.symbols_append (left s : Sentence) :
    (left.append s).symbols = left.symbols ++ .connective .disjunction :: s.symbols := by
  match s with
  | .clause c => rfl
  | .or s c =>
      rw [append, symbols, symbols_append left s, List.append_assoc]
      rfl

/-- The tree need not be the disjunction of the two trees, but it holds when that does. -/
theorem Sentence.holds_append (names : List String) (left s : Sentence) :
    (left.append s).expr.holds names = (left.expr.holds names || s.expr.holds names) := by
  match s with
  | .clause c => simp [append, expr]
  | .or s c =>
      have hrest := holds_append names left s
      simp [append, expr, hrest, Bool.or_assoc]

/-! ### The main statement -/

/-- The symbols of a text outside its parentheses. -/
def outermost (text : String) : List Symbol := outside 0 (scan text).symbols

theorem Writes.outermost_eq {t : String} {xs : List Symbol} (ht : Writes t.toList xs) :
    outermost t = outside 0 xs := congrArg (outside 0) ht.scan_eq.2

/-- **How composed texts are grouped.** Let two texts be accepted. With `|` between them they are read as
the disjunction of the two, unless the right one has a `|` outside parentheses, and with `&` as the
conjunction of the two, unless the left one has a `|` there or the right one any connective. A text
without a connective outside parentheses is negated as a whole by `!`, and parentheses around a text
change nothing. Whatever the texts hold, with `|` between them they are accepted, and hold when one of
them does. -/
theorem parse_composed_texts {t₁ t₂ : String} {e₁ e₂ : Encoding Leaf} (h₁ : parse t₁ = .ok e₁)
    (h₂ : parse t₂ = .ok e₂) :
    (.connective .disjunction ∉ outermost t₂ →
      ∃ e, parse (t₁ ++ "|" ++ t₂) = .ok e ∧
        Specification.disjunction [.encoded e₁, .encoded e₂] = .ok (.encoded e)) ∧
    (.connective .disjunction ∉ outermost t₁ → (∀ c, .connective c ∉ outermost t₂) →
      ∃ e, parse (t₁ ++ "&" ++ t₂) = .ok e ∧
        Specification.conjunction [.encoded e₁, .encoded e₂] = .ok (.encoded e)) ∧
    ((∀ c, .connective c ∉ outermost t₁) →
      ∃ e, parse ("!" ++ t₁) = .ok e ∧ (Specification.encoded e₁).negation = .ok (.encoded e)) ∧
    parse ("(" ++ t₁ ++ ")") = .ok e₁ ∧
    ∃ e, parse (t₁ ++ "|" ++ t₂) = .ok e ∧ ∀ names, ∃ b₁ b₂,
      (Specification.encoded e₁).truth names = .ok b₁ ∧
      (Specification.encoded e₂).truth names = .ok b₂ ∧
      (Specification.encoded e).truth names = .ok (b₁ || b₂) := by
  obtain ⟨s₁, hwrites₁, rfl⟩ := parse_eq_ok_iff_writes.mp h₁
  obtain ⟨s₂, hwrites₂, rfl⟩ := parse_eq_ok_iff_writes.mp h₂
  rw [hwrites₁.outermost_eq, hwrites₂.outermost_eq]
  have hor := hwrites₁.between .disjunction hwrites₂
  have hand := hwrites₁.between .conjunction hwrites₂
  refine ⟨?_, ?_, ?_, ?_, ?_⟩
  · intro hright
    obtain ⟨c, rfl⟩ := Sentence.exists_clause hright
    refine ⟨_, parse_eq_ok_iff_writes.mpr ⟨.or s₁ c, hor, rfl⟩, ?_⟩
    rfl
  · intro hleft hright
    obtain ⟨c, rfl⟩ := Sentence.exists_clause hleft
    obtain ⟨l, rfl⟩ := Sentence.exists_literal hright
    exact ⟨_, parse_eq_ok_iff_writes.mpr ⟨.clause (.and c l), hand, rfl⟩, rfl⟩
  · intro hliteral
    obtain ⟨l, rfl⟩ := Sentence.exists_literal hliteral
    exact ⟨_, parse_eq_ok_iff_writes.mpr ⟨.clause (.literal (.not l)), hwrites₁.negated, rfl⟩, rfl⟩
  · exact parse_eq_ok_iff_writes.mpr
      ⟨.clause (.literal (.atom (.group s₁))), hwrites₁.grouped, rfl⟩
  · -- No condition here: the clauses of the right text go to the end of the chain of the left one.
    rw [← Sentence.symbols_append] at hor
    refine ⟨_, parse_eq_ok_iff_writes.mpr ⟨s₁.append s₂, hor, rfl⟩, fun names => ?_⟩
    rw [← s₁.encode_expr, ← s₂.encode_expr, ← (s₁.append s₂).encode_expr]
    refine ⟨_, _, s₁.expr.truth_encode names, s₂.expr.truth_encode names, ?_⟩
    rw [Expr.truth_encode, Sentence.holds_append]

/-- A conjunction on the left of `&` is its left operand. A disjunction on the right of `|` is not the
right operand of what is read, but that holds for the same names. -/
theorem parse_composed_texts_chain :
    (∃ e₁ e₂ e, parse "(p | q) & r" = .ok e₁ ∧ parse "!(s | p)" = .ok e₂ ∧
      parse ("(p | q) & r" ++ "&" ++ "!(s | p)") = .ok e ∧
      Specification.conjunction [.encoded e₁, .encoded e₂] = .ok (.encoded e)) ∧
    ∃ e₁ e₂ e, parse "(p | q)" = .ok e₁ ∧ parse "q & r | s" = .ok e₂ ∧
      (∃ negated, parse ("!" ++ "(p | q)") = .ok negated ∧
        (Specification.encoded e₁).negation = .ok (.encoded negated)) ∧
      parse ("(p | q)" ++ "|" ++ "q & r | s") = .ok e ∧
      Specification.disjunction [.encoded e₁, .encoded e₂] ≠ .ok (.encoded e) ∧
      ∀ names, ∃ b₁ b₂,
        (Specification.encoded e₁).truth names = .ok b₁ ∧
        (Specification.encoded e₂).truth names = .ok b₂ ∧
        (Specification.encoded e).truth names = .ok (b₁ || b₂) := by
  constructor
  · have hleft : parse "(p | q) & r"
        = .ok ⟨[.leaf 0, .leaf 1, .join .disjunction 2, .leaf 2, .join .conjunction 2],
            [.text "p", .text "q", .text "r"]⟩ := by
      decide +kernel
    have hright : parse "!(s | p)"
        = .ok ⟨[.leaf 0, .leaf 1, .join .disjunction 2, .negate], [.text "s", .text "p"]⟩ := by
      decide +kernel
    have hliteral : outermost "!(s | p)" = [.negation] := by decide +kernel
    obtain ⟨e, hparse, hconjunction⟩ := (parse_composed_texts hleft hright).2.1
      (by decide +kernel) (by simp [hliteral])
    exact ⟨_, _, e, hleft, hright, hparse, hconjunction⟩
  · have hleft : parse "(p | q)"
        = .ok ⟨[.leaf 0, .leaf 1, .join .disjunction 2], [.text "p", .text "q"]⟩ := by
      decide +kernel
    have hright : parse "q & r | s"
        = .ok ⟨[.leaf 0, .leaf 1, .join .conjunction 2, .leaf 2, .join .disjunction 2],
            [.text "q", .text "r", .text "s"]⟩ := by
      decide +kernel
    have hwhole : parse ("(p | q)" ++ "|" ++ "q & r | s")
        = .ok ⟨[.leaf 0, .leaf 1, .join .disjunction 2, .leaf 2, .leaf 3, .join .conjunction 2,
            .join .disjunction 2, .leaf 4, .join .disjunction 2],
            [.text "p", .text "q", .text "q", .text "r", .text "s"]⟩ := by
      decide +kernel
    have hgroup : outermost "(p | q)" = [] := by decide +kernel
    obtain ⟨-, -, hnegated, -, e, hparse, htruth⟩ := parse_composed_texts hleft hright
    cases hwhole.symm.trans hparse
    refine ⟨_, _, _, hleft, hright, hnegated (by simp [hgroup]), hwhole, ?_, htruth⟩
    decide +kernel

end PostfixSpec.Formula
