import PostfixSpec.Proofs.Evaluator.Truth
import PostfixSpec.Proofs.Formula.RoundTrip

/-!
# What a formula means

A sentence is true or false once one knows which names hold, by its derivation alone: a disjunction is
true when one side is, a conjunction when both are, a negation when what it negates is not. This is how
the tree of the sentence answers, and so what its specification is evaluated to. Only the names among
the symbols of the sentence matter.
-/

namespace PostfixSpec.Formula

mutual

/-- Whether a sentence is true when exactly `names` hold. -/
def Sentence.value (names : List String) : Sentence → Bool
  | .clause c => c.value names
  | .or s c => s.value names || c.value names

def Clause.value (names : List String) : Clause → Bool
  | .literal l => l.value names
  | .and c l => c.value names && l.value names

def Literal.value (names : List String) : Literal → Bool
  | .atom a => a.value names
  | .not l => !l.value names

def Atom.value (names : List String) : Atom → Bool
  | .name x => decide (x ∈ names)
  | .constant b => b
  | .group s => s.value names

end

section

variable (names : List String)

mutual

theorem Sentence.holds_expr (s : Sentence) : s.expr.holds names = s.value names := by
  match s with
  | .clause c => exact c.holds_expr
  | .or s c => simp [Sentence.expr, Sentence.value, s.holds_expr, c.holds_expr]

theorem Clause.holds_expr (c : Clause) : c.expr.holds names = c.value names := by
  match c with
  | .literal l => exact l.holds_expr
  | .and c l => simp [Clause.expr, Clause.value, c.holds_expr, l.holds_expr]

theorem Literal.holds_expr (l : Literal) : l.expr.holds names = l.value names := by
  match l with
  | .atom a => exact a.holds_expr
  | .not l => simp [Literal.expr, Literal.value, l.holds_expr]

theorem Atom.holds_expr (a : Atom) : a.expr.holds names = a.value names := by
  match a with
  | .name x => simp [Atom.expr, Atom.value, List.contains_eq_mem]
  | .constant b => exact Expr.holds_bool names b
  | .group s => exact s.holds_expr

end

theorem Sentence.truth_encode (s : Sentence) :
    (Specification.encoded s.encode).truth names = .ok (s.value names) := by
  rw [← s.encode_expr, Expr.truth_encode, s.holds_expr]

end

/-! ### Names that matter -/

/-- Two lists of names agree on those among some symbols. -/
def AgreeOn (xs : List Symbol) (names others : List String) : Prop :=
  ∀ x, .name x ∈ xs → (x ∈ names ↔ x ∈ others)

theorem AgreeOn.mono {xs ys : List Symbol} {names others : List String} (h : AgreeOn ys names others)
    (hxs : xs ⊆ ys) : AgreeOn xs names others :=
  fun x hx => h x (hxs hx)

section

variable {names others : List String}

mutual

theorem Sentence.value_congr (s : Sentence) (h : AgreeOn s.symbols names others) :
    s.value names = s.value others := by
  match s with
  | .clause c => exact c.value_congr h
  | .or s c =>
      rw [Sentence.symbols] at h
      have hleft := s.value_congr (h.mono (List.subset_append_left _ _))
      have hright := c.value_congr
        (h.mono (List.Subset.trans (List.subset_cons_self _ _) (List.subset_append_right _ _)))
      rw [Sentence.value, Sentence.value, hleft, hright]

theorem Clause.value_congr (c : Clause) (h : AgreeOn c.symbols names others) :
    c.value names = c.value others := by
  match c with
  | .literal l => exact l.value_congr h
  | .and c l =>
      rw [Clause.symbols] at h
      have hleft := c.value_congr (h.mono (List.subset_append_left _ _))
      have hright := l.value_congr
        (h.mono (List.Subset.trans (List.subset_cons_self _ _) (List.subset_append_right _ _)))
      rw [Clause.value, Clause.value, hleft, hright]

theorem Literal.value_congr (l : Literal) (h : AgreeOn l.symbols names others) :
    l.value names = l.value others := by
  match l with
  | .atom a => exact a.value_congr h
  | .not l =>
      rw [Literal.symbols] at h
      rw [Literal.value, Literal.value, l.value_congr (h.mono (List.subset_cons_self _ _))]

theorem Atom.value_congr (a : Atom) (h : AgreeOn a.symbols names others) :
    a.value names = a.value others := by
  match a with
  | .name x =>
      have hx : .name x ∈ (Atom.name x).symbols := by
        rw [Atom.symbols]
        exact List.mem_singleton_self _
      rw [Atom.value, Atom.value, decide_eq_decide]
      exact h x hx
  | .constant b => rfl
  | .group s =>
      rw [Atom.symbols] at h
      exact s.value_congr
        (h.mono (List.Subset.trans (List.subset_cons_self _ _) (List.subset_append_left _ _)))

end

end

end PostfixSpec.Formula
