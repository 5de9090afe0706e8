import PostfixSpec.Proofs.Formula.Failure
import PostfixSpec.Proofs.Specification.History

/-!
# Nothing is lost in a parse

Each symbol of an accepted text but the parentheses becomes one part of the result. Names and constants
become its leaves, in the order of the text, and are referred to in that order. Signs become its other
records, whose order is another one, because a sign stands before or between its operands and a record
behind them. So both sides hold the same records, counted with repetition.
-/

namespace PostfixSpec

/-! ### Records that join or negate -/

namespace Op

/-- The records that point at no leaf. -/
def operators (ops : List Op) : List Op :=
  ops.filter fun
    | .leaf _ => false
    | _ => true

theorem operators_append (ops more : List Op) :
    operators (ops ++ more) = operators ops ++ operators more := List.filter_append ops more

theorem operators_cons (op : Op) (rest : List Op) :
    operators (op :: rest) = operators [op] ++ operators rest := operators_append [op] rest

/-- Moving leaf references leaves the other records alone. -/
theorem operators_rebased (offset : Int) (ops : List Op) :
    operators (ops.map (.rebased offset)) = operators ops := by
  induction ops with
  | nil => rfl
  | cons op rest ih =>
      rw [List.map_cons, operators_cons, operators_cons op rest, ih]
      cases op <;> rfl

theorem length_references_add_length_operators (ops : List Op) :
    (references ops).length + (operators ops).length = ops.length := by
  induction ops with
  | nil => rfl
  | cons op rest ih =>
      have hone : (references [op]).length + (operators [op]).length = 1 := by cases op <;> rfl
      rw [references_cons, operators_cons, List.length_append, List.length_append, List.length_cons]
      omega

end Op

theorem Encoding.operators_movedOps {α : Type} (offset : Nat) (parts : List (Encoding α)) :
    Op.operators (movedOps offset parts) = parts.flatMap fun part => Op.operators part.ops := by
  induction parts generalizing offset with
  | nil => rfl
  | cons part parts ih =>
      rw [movedOps, Op.operators_append, Op.operators_rebased, ih, List.flatMap_cons]

theorem Encoding.operators_combine {α : Type} (c : Connective) (left right : Encoding α) :
    Op.operators (combine c [left, right]).ops
      = Op.operators left.ops ++ (Op.operators right.ops ++ [.join c 2]) := by
  rw [combine_ops, Op.operators_append, operators_movedOps, List.flatMap_cons, List.flatMap_cons,
    List.flatMap_nil, List.append_nil, List.append_assoc]
  rfl

namespace Formula

/-- The record that a sign stands for. Parentheses stand for none. -/
def Symbol.operator? : Symbol → Option Op
  | negation => some .negate
  | connective c => some (.join c 2)
  | _ => none

def Symbol.isParenthesis : Symbol → Bool
  | opening => true
  | closing => true
  | _ => false

/-- Each symbol but the parentheses stands for a leaf or for a record, and none for both. -/
theorem countP_leaf?_add_countP_operator? (xs : List Symbol) :
    xs.countP (·.leaf?.isSome) + xs.countP (·.operator?.isSome)
      = xs.countP fun x => !x.isParenthesis := by
  induction xs with
  | nil => rfl
  | cons x xs ih =>
      rw [List.countP_cons, List.countP_cons, List.countP_cons, ← ih]
      cases x <;> simp [Symbol.leaf?, Symbol.operator?, Symbol.isParenthesis] <;> omega

/-! ### Signs of a derivation

A joining record stands behind the records of both operands, and its sign between them.
-/

theorem operators_combine_perm {c : Connective} {left right : Encoding Leaf} {xs ys : List Symbol}
    (hleft : (Op.operators left.ops).Perm (xs.filterMap (·.operator?)))
    (hright : (Op.operators right.ops).Perm (ys.filterMap (·.operator?))) :
    (Op.operators (Encoding.combine c [left, right]).ops).Perm
      ((xs ++ .connective c :: ys).filterMap (·.operator?)) := by
  rw [Encoding.operators_combine, List.filterMap_append]
  apply hleft.append
  exact (List.perm_append_singleton _ _).trans (hright.cons _)

mutual

theorem Sentence.operators_encode (s : Sentence) :
    (Op.operators s.encode.ops).Perm (s.symbols.filterMap (·.operator?)) := by
  match s with
  | .clause c => exact c.operators_encode
  | .or s c =>
      rw [Sentence.encode, Sentence.symbols]
      exact operators_combine_perm s.operators_encode c.operators_encode

theorem Clause.operators_encode (c : Clause) :
    (Op.operators c.encode.ops).Perm (c.symbols.filterMap (·.operator?)) := by
  match c with
  | .literal l => exact l.operators_encode
  | .and c l =>
      rw [Clause.encode, Clause.symbols]
      exact operators_combine_perm c.operators_encode l.operators_encode

theorem Literal.operators_encode (l : Literal) :
    (Op.operators l.encode.ops).Perm (l.symbols.filterMap (·.operator?)) := by
  match l with
  | .atom a => exact a.operators_encode
  | .not l =>
      rw [Literal.encode, Literal.symbols, Encoding.negate, Op.operators_append]
      exact (List.perm_append_singleton _ _).trans (l.operators_encode.cons _)

theorem Atom.operators_encode (a : Atom) :
    (Op.operators a.encode.ops).Perm (a.symbols.filterMap (·.operator?)) := by
  match a with
  | .name value => exact .nil
  | .constant value => exact .nil
  | .group s =>
      rw [Atom.encode, Atom.symbols, List.cons_append, List.filterMap_cons_none rfl,
        List.filterMap_append, List.filterMap_cons_none rfl, List.filterMap_nil, List.append_nil]
      exact s.operators_encode

end

/-- **Parsing loses and adds nothing.** An accepted text is scanned up to its end. The leaves of the
result are its names and constants in order, and are referred to in that order. The other records are
those of its signs. So the numbers in the description of the result are the number of names and constants
and the number of all symbols but the parentheses. -/
theorem parse_conserves {text : String} {e : Encoding Leaf} (h : parse text = .ok e) :
    (scan text).illegal = none ∧
      e.leaves = (scan text).symbols.filterMap (·.leaf?) ∧
      Op.references e.ops = (List.range e.leaves.length).map Int.ofNat ∧
      (Op.operators e.ops).Perm ((scan text).symbols.filterMap (·.operator?)) ∧
      e.describe
        = "Specification(leafs=" ++ toString ((scan text).symbols.countP (·.leaf?.isSome)) ++
          ", ops=" ++ toString ((scan text).symbols.countP fun x => !x.isParenthesis) ++ ")" := by
  have hreferences := (Encoding.canonical_iff.mp (canonical_of_parse h)).1
  obtain ⟨hlegal, s, hs, rfl⟩ := parse_eq_ok_iff.mp h
  rw [Scan.symbols, ← hs]
  have hleaves : s.encode.leaves = s.symbols.filterMap (·.leaf?) := by
    rw [← s.encode_expr, Expr.encode_leaves, s.leaves_expr]
  have hoperators := s.operators_encode
  have hleafCount : s.encode.leaves.length = s.symbols.countP (·.leaf?.isSome) := by
    rw [hleaves, List.length_filterMap_eq_countP]
  have hopCount : s.encode.ops.length = s.symbols.countP fun x => !x.isParenthesis := by
    rw [← Op.length_references_add_length_operators, hreferences, hoperators.length_eq,
      List.length_filterMap_eq_countP, List.length_map, List.length_range, hleafCount,
      countP_leaf?_add_countP_operator?]
  rw [← hleafCount, ← hopCount]
  exact ⟨hlegal, hleaves, hreferences, hoperators, rfl⟩

/-- Parentheses leave no trace, and signs are found behind what they stand between. -/
theorem parse_conserves_grouped :
    parse "!p & (true | (!q))" = .ok ⟨[.leaf 0, .negate, .leaf 1, .leaf 2, .negate,
        .join .disjunction 2, .join .conjunction 2], [.text "p", .bool true, .text "q"]⟩ ∧
      [Leaf.text "p", .bool true, .text "q"]
        = (scan "!p & (true | (!q))").symbols.filterMap (·.leaf?) ∧
      [Op.negate, .negate, .join .disjunction 2, .join .conjunction 2].Perm
        ((scan "!p & (true | (!q))").symbols.filterMap (·.operator?)) := by
  have hparse : parse "!p & (true | (!q))" = .ok ⟨[.leaf 0, .negate, .leaf 1, .leaf 2, .negate,
      .join .disjunction 2, .join .conjunction 2], [.text "p", .bool true, .text "q"]⟩ := by
    decide +kernel
  obtain ⟨-, hleaves, -, hoperators, -⟩ := parse_conserves hparse
  exact ⟨hparse, hleaves, hoperators⟩

end Formula

end PostfixSpec
