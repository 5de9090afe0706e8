import PostfixSpec.Formula.Grammar
import PostfixSpec.Proofs.Expr.Binary

/-!
# Derivations and trees

A derivation is a binary tree with parentheses. Forgetting them gives a tree with the same encoding,
whose leaves are the names and constants among the symbols in their order. The other way round, several
literals between the same connectives are derived as a sentence, which is the chain of their trees.
-/

namespace PostfixSpec.Formula

/-- The leaf that a symbol stands for. -/
def Symbol.leaf? : Symbol → Option Leaf
  | name value => some (.text value)
  | constant value => some (.bool value)
  | _ => none

/-! ### Trees of derivations -/

mutual

/-- The tree of a sentence. -/
def Sentence.expr : Sentence → Expr Leaf
  | .clause c => c.expr
  | .or s c => .join .disjunction [s.expr, c.expr]

def Clause.expr : Clause → Expr Leaf
  | .literal l => l.expr
  | .and c l => .join .conjunction [c.expr, l.expr]

def Literal.expr : Literal → Expr Leaf
  | .atom a => a.expr
  | .not l => .negate l.expr

def Atom.expr : Atom → Expr Leaf
  | .name value => .leaf (.text value)
  | .constant value => .leaf (.bool value)
  | .group s => s.expr

end

mutual

theorem Sentence.binary_expr (s : Sentence) : s.expr.Binary := by
  match s with
  | .clause c => exact c.binary_expr
  | .or s c => exact .join .disjunction s.binary_expr c.binary_expr

theorem Clause.binary_expr (c : Clause) : c.expr.Binary := by
  match c with
  | .literal l => exact l.binary_expr
  | .and c l => exact .join .conjunction c.binary_expr l.binary_expr

theorem Literal.binary_expr (l : Literal) : l.expr.Binary := by
  match l with
  | .atom a => exact a.binary_expr
  | .not l => exact .negate l.binary_expr

theorem Atom.binary_expr (a : Atom) : a.expr.Binary := by
  match a with
  | .name value => exact .leaf _
  | .constant value => exact .leaf _
  | .group s => exact s.binary_expr

end

mutual

theorem Sentence.encode_expr (s : Sentence) : s.expr.encode = s.encode := by
  match s with
  | .clause c => exact c.encode_expr
  | .or s c =>
      rw [Sentence.expr, Expr.encode_join, List.map_cons, List.map_cons, List.map_nil,
        s.encode_expr, c.encode_expr, Sentence.encode]

theorem Clause.encode_expr (c : Clause) : c.expr.encode = c.encode := by
  match c with
  | .literal l => exact l.encode_expr
  | .and c l =>
      rw [Clause.expr, Expr.encode_join, List.map_cons, List.map_cons, List.map_nil,
        c.encode_expr, l.encode_expr, Clause.encode]

theorem Literal.encode_expr (l : Literal) : l.expr.encode = l.encode := by
  match l with
  | .atom a => exact a.encode_expr
  | .not l => rw [Literal.expr, Expr.encode_negate, l.encode_expr, Literal.encode]

theorem Atom.encode_expr (a : Atom) : a.expr.encode = a.encode := by
  match a with
  | .name value => exact Expr.encode_leaf _
  | .constant value => exact Expr.encode_leaf _
  | .group s => exact s.encode_expr

end

mutual

/-- The leaves of a derivation are its names and constants, in their order. -/
theorem Sentence.leaves_expr (s : Sentence) : s.expr.leaves = s.symbols.filterMap (·.leaf?) := by
  match s with
  | .clause c => exact c.leaves_expr
  | .or s c =>
      rw [Sentence.expr, Expr.leaves_join, Sentence.symbols, List.filterMap_append,
        List.filterMap_cons_none rfl, ← s.leaves_expr, ← c.leaves_expr]
      simp

theorem Clause.leaves_expr (c : Clause) : c.expr.leaves = c.symbols.filterMap (·.leaf?) := by
  match c with
  | .literal l => exact l.leaves_expr
  | .and c l =>
      rw [Clause.expr, Expr.leaves_join, Clause.symbols, List.filterMap_append,
        List.filterMap_cons_none rfl, ← c.leaves_expr, ← l.leaves_expr]
      simp

theorem Literal.leaves_expr (l : Literal) : l.expr.leaves = l.symbols.filterMap (·.leaf?) := by
  match l with
  | .atom a => exact a.leaves_expr
  | .not l =>
      rw [Literal.expr, Expr.leaves_negate, Literal.symbols, List.filterMap_cons_none rfl,
        l.leaves_expr]

theorem Atom.leaves_expr (a : Atom) : a.expr.leaves = a.symbols.filterMap (·.leaf?) := by
  match a with
  | .name value => exact Expr.leaves_leaf _
  | .constant value => exact Expr.leaves_leaf _
  | .group s =>
      rw [Atom.expr, Atom.symbols, List.cons_append, List.filterMap_cons_none rfl,
        List.filterMap_append, s.leaves_expr]
      simp [Symbol.leaf?]

end

/-! ### Chains of literals -/

/-- The sentence of some literals with the same connective between any two of them. -/
def Sentence.chain (c : Connective) (l : Literal) (ls : List Literal) : Sentence :=
  match c with
  | .conjunction => .clause (ls.foldl .and (.literal l))
  | .disjunction => ls.foldl (fun s l => .or s (.literal l)) (.clause (.literal l))

/-- Adding literals one by one behind a connective lists their symbols in a row and joins their trees
two by two. -/
private theorem foldl_chain {ι : Type} (c : Connective) {add : ι → Literal → ι}
    {symbols : ι → List Symbol} {expr : ι → Expr Leaf}
    (hsymbols : ∀ x l, symbols (add x l) = symbols x ++ .connective c :: l.symbols)
    (hexpr : ∀ x l, expr (add x l) = .join c [expr x, l.expr]) (x : ι) (ls : List Literal) :
    symbols (ls.foldl add x) = symbols x ++ ls.flatMap (fun l => .connective c :: l.symbols) ∧
      expr (ls.foldl add x)
        = (ls.map (·.expr)).foldl (fun joined t => .join c [joined, t]) (expr x) := by
  induction ls generalizing x with
  | nil => exact ⟨(List.append_nil _).symm, rfl⟩
  | cons l ls ih =>
      obtain ⟨hrest, hjoined⟩ := ih (add x l)
      rw [hsymbols, List.append_assoc] at hrest
      rw [hexpr] at hjoined
      exact ⟨hrest, hjoined⟩

theorem Sentence.chain_spec (c : Connective) (l : Literal) (ls : List Literal) :
    (Sentence.chain c l ls).symbols
        = l.symbols ++ ls.flatMap (fun l => .connective c :: l.symbols) ∧
      (Sentence.chain c l ls).expr = Expr.chain c (l.expr :: ls.map (·.expr)) := by
  cases c with
  | conjunction =>
      have hsymbols (cl : Clause) (l : Literal) : (Clause.and cl l).symbols
          = cl.symbols ++ .connective .conjunction :: l.symbols := by rw [Clause.symbols]
      have hexpr (cl : Clause) (l : Literal) : (Clause.and cl l).expr
          = .join .conjunction [cl.expr, l.expr] := by rw [Clause.expr]
      exact foldl_chain .conjunction hsymbols hexpr (.literal l) ls
  | disjunction =>
      have hsymbols (s : Sentence) (l : Literal) : (Sentence.or s (.literal l)).symbols
          = s.symbols ++ .connective .disjunction :: l.symbols := by
        rw [Sentence.symbols, Clause.symbols]
      have hexpr (s : Sentence) (l : Literal) : (Sentence.or s (.literal l)).expr
          = .join .disjunction [s.expr, l.expr] := by
        rw [Sentence.expr, Clause.expr]
      exact foldl_chain .disjunction hsymbols hexpr (Sentence.clause (.literal l)) ls

end PostfixSpec.Formula
