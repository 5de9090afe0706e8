import PostfixSpec.Proofs.Expr.Graft
import PostfixSpec.Proofs.Formula.Acceptance
import PostfixSpec.Proofs.Formula.Derivation
import PostfixSpec.Proofs.Formula.Failure

/-!
# Substitution in formula text

A name in formula text can be replaced by another text between parentheses. The parentheses keep the
other text together, and nothing around it is read in another way: the derivation of the new text is that
of the old one with a group in the place of every atom that is the name. So its tree is the old one
with the tree of the other text grafted on, which has the leaves one expects. It holds when the old one
does, once the name is given the truth value of what is put in its place.
-/

namespace PostfixSpec

/-! ### Names that hold, but for one -/

/-- Names that hold, changed at most at `x`, which holds if `b` does. -/
def settled (x : String) (b : Bool) (names : List String) : List String :=
  if b then x :: names else names.filter (· ≠ x)

theorem contains_settled (x : String) (b : Bool) (names : List String) (value : String) :
    (settled x b names).contains value = if value = x then b else names.contains value := by
  unfold settled
  by_cases hx : value = x
  · cases b <;> simp [hx]
  · cases b <;> simp [hx]

namespace Formula

/-! ### Other atoms in the place of names -/

/-- The symbols in the place of one symbol: those of the atom if it is a name. -/
def Symbol.subst (f : String → Atom) : Symbol → List Symbol
  | .name value => (f value).symbols
  | symbol => [symbol]

/-- The tree in the place of a leaf: that of the atom if it is a name. -/
def substLeaf (f : String → Atom) : Leaf → Expr Leaf
  | .text value => (f value).expr
  | value => .leaf value

mutual

/-- The derivation with another atom in the place of each name. -/
def Sentence.subst (f : String → Atom) : Sentence → Sentence
  | .clause c => .clause (c.subst f)
  | .or s c => .or (s.subst f) (c.subst f)

def Clause.subst (f : String → Atom) : Clause → Clause
  | .literal l => .literal (l.subst f)
  | .and c l => .and (c.subst f) (l.subst f)

def Literal.subst (f : String → Atom) : Literal → Literal
  | .atom a => .atom (a.subst f)
  | .not l => .not (l.subst f)

def Atom.subst (f : String → Atom) : Atom → Atom
  | .name value => f value
  | .constant value => .constant value
  | .group s => .group (s.subst f)

end

section

variable (f : String → Atom)

mutual

theorem Sentence.symbols_subst (s : Sentence) :
    (s.subst f).symbols = s.symbols.flatMap (Symbol.subst f) := by
  match s with
  | .clause c => exact c.symbols_subst
  | .or s c =>
      rw [Sentence.subst, Sentence.symbols, Sentence.symbols, s.symbols_subst, c.symbols_subst,
        List.flatMap_append, List.flatMap_cons]
      rfl

theorem Clause.symbols_subst (c : Clause) :
    (c.subst f).symbols = c.symbols.flatMap (Symbol.subst f) := by
  match c with
  | .literal l => exact l.symbols_subst
  | .and c l =>
      rw [Clause.subst, Clause.symbols, Clause.symbols, c.symbols_subst, l.symbols_subst,
        List.flatMap_append, List.flatMap_cons]
      rfl

theorem Literal.symbols_subst (l : Literal) :
    (l.subst f).symbols = l.symbols.flatMap (Symbol.subst f) := by
  match l with
  | .atom a => exact a.symbols_subst
  | .not l =>
      rw [Literal.subst, Literal.symbols, Literal.symbols, l.symbols_subst, List.flatMap_cons]
      rfl

theorem Atom.symbols_subst (a : Atom) :
    (a.subst f).symbols = a.symbols.flatMap (Symbol.subst f) := by
  match a with
  | .name value => exact (List.append_nil _).symm
  | .constant value => rfl
  | .group s =>
      rw [Atom.subst, Atom.symbols, Atom.symbols, s.symbols_subst, List.flatMap_append,
        List.flatMap_cons]
      rfl

end

mutual

theorem Sentence.expr_subst (s : Sentence) : (s.subst f).expr = s.expr.graft (substLeaf f) := by
  match s with
  | .clause c => exact c.expr_subst
  | .or s c =>
      rw [Sentence.subst, Sentence.expr, Sentence.expr, s.expr_subst, c.expr_subst,
        Expr.graft_join]
      rfl

theorem Clause.expr_subst (c : Clause) : (c.subst f).expr = c.expr.graft (substLeaf f) := by
  match c with
  | .literal l => exact l.expr_subst
  | .and c l =>
      rw [Clause.subst, Clause.expr, Clause.expr, c.expr_subst, l.expr_subst, Expr.graft_join]
      rfl

theorem Literal.expr_subst (l : Literal) : (l.subst f).expr = l.expr.graft (substLeaf f) := by
  match l with
  | .atom a => exact a.expr_subst
  | .not l => rw [Literal.subst, Literal.expr, Literal.expr, l.expr_subst, Expr.graft_negate]

theorem Atom.expr_subst (a : Atom) : (a.subst f).expr = a.expr.graft (substLeaf f) := by
  match a with
  | .name value => exact (Expr.graft_leaf _ _).symm
  | .constant value => exact (Expr.graft_leaf _ _).symm
  | .group s => exact s.expr_subst

end

end

/-! ### A group in the place of one name -/

/-- The atom in the place of a name where a sentence stands for the name `x`. -/
def replacing (x : String) (u : Sentence) (value : String) : Atom :=
  if value = x then .group u else .name value

variable (x : String) (u : Sentence)

theorem subst_replacing_self : Symbol.subst (replacing x u) (.name x) = (Atom.group u).symbols := by
  rw [Symbol.subst, replacing, if_pos rfl]

theorem subst_replacing_of_ne {symbol : Symbol} (h : symbol ≠ .name x) :
    Symbol.subst (replacing x u) symbol = [symbol] := by
  cases symbol with
  | name value =>
      have hvalue : value ≠ x := fun he => h (congrArg Symbol.name he)
      rw [Symbol.subst, replacing, if_neg hvalue, Atom.symbols]
  | _ => rfl

theorem leaves_replacing (value : Leaf) :
    (substLeaf (replacing x u) value).leaves
      = if value = .text x then u.expr.leaves else [value] := by
  cases value with
  | text y =>
      by_cases hy : y = x
      · simp [substLeaf, replacing, hy, Atom.expr]
      · simp [substLeaf, replacing, hy, Atom.expr]
  | bool b => exact Expr.leaves_leaf _
  | int i => exact Expr.leaves_leaf _
  | null => exact Expr.leaves_leaf _

theorem holds_replacing (names : List String) (value : Leaf) :
    (substLeaf (replacing x u) value).holds names
      = (Expr.leaf value).holds (settled x (u.expr.holds names) names) := by
  cases value with
  | text y =>
      rw [Expr.holds_text, contains_settled]
      by_cases hy : y = x
      · rw [if_pos hy, substLeaf, replacing, if_pos hy, Atom.expr]
      · rw [if_neg hy, substLeaf, replacing, if_neg hy, Atom.expr, Expr.holds_text]
  | bool b => rfl
  | int i => rfl
  | null => rfl

/-! ### Replacing in text -/

/-- Characters, of which `position` others stand in front, with a piece in the place of those of their
tokens that are some symbol. -/
def replaceFrom (symbol : Symbol) (piece : List Char) :
    Nat → List Token → List Char → List Char
  | _, [], cs => cs
  | position, token :: tokens, cs =>
    let before := cs.take (token.start - position)
    let own := (cs.take (token.stop - position)).drop (token.start - position)
    before ++ (if token.symbol = symbol then piece else own) ++
      replaceFrom symbol piece token.stop tokens (cs.drop (token.stop - position))

/-- The text with `(u)` in the place of every token that is the name `x`. -/
def substitute (x u text : String) : String :=
  String.ofList
    (replaceFrom (.name x) ("(" ++ u ++ ")").toList 0 (scan text).tokens text.toList)

theorem replaceFrom_cons {position : Nat} {tokens : List Token}
    (h : ∀ token ∈ tokens, position < token.start) (symbol : Symbol) (piece : List Char) (c : Char)
    (cs : List Char) :
    replaceFrom symbol piece position tokens (c :: cs)
      = c :: replaceFrom symbol piece (position + 1) tokens cs := by
  cases tokens with
  | nil => rfl
  | cons token tokens =>
      have hlt := h token List.mem_cons_self
      have hle : token.start ≤ token.stop := Nat.le_add_right _ _
      have hstart : token.start - position = token.start - (position + 1) + 1 := by omega
      have hstop : token.stop - position = token.stop - (position + 1) + 1 := by omega
      simp only [replaceFrom, hstart, hstop, List.take_succ_cons, List.drop_succ_cons,
        List.cons_append]

theorem replaceFrom_append {own : Symbol} {word : List Char} (hword : own.text.toList = word)
    (symbol : Symbol) (piece : List Char) (position : Nat) (tokens : List Token) (cs : List Char) :
    replaceFrom symbol piece position (⟨own, position⟩ :: tokens) (word ++ cs)
      = (if own = symbol then piece else word) ++
        replaceFrom symbol piece (position + word.length) tokens cs := by
  have hstop : Token.stop ⟨own, position⟩ = position + word.length := by
    rw [Token.stop, ← hword, String.length_toList]
  simp [replaceFrom, hstop]

theorem Spells.le_start {position : Nat} {s : Scan} {cs : List Char} (h : Spells position s cs) :
    ∀ token ∈ s.tokens, position ≤ token.start := by
  induction h with
  | done => exact List.forall_mem_nil _
  | blank _ _ ih => exact fun token htoken => Nat.le_of_succ_le (ih token htoken)
  | word _ _ _ ih =>
      refine List.forall_mem_cons.mpr ⟨Nat.le_refl _, fun token htoken => ?_⟩
      exact Nat.le_of_add_right_le (ih token htoken)
  | sign _ _ ih =>
      refine List.forall_mem_cons.mpr ⟨Nat.le_refl _, fun token htoken => ?_⟩
      exact Nat.le_of_succ_le (ih token htoken)
  | illegal => exact List.forall_mem_nil _

/-- **Replaced text writes a derivation with groups.** Between the tokens nothing changes, and what
follows a name is no word character, whether a piece is put in the place of the name or not. -/
theorem Spells.writes_replaced {x : String} {u : Sentence} {piece : List Char}
    (hpiece : Writes piece (Atom.group u).symbols) {position : Nat} {s : Scan} {cs : List Char}
    (h : Spells position s cs) (hlegal : s.illegal = none) :
    Writes (replaceFrom (.name x) piece position s.tokens cs)
        (s.symbols.flatMap (Symbol.subst (replacing x u))) ∧
      (runsOn cs = false →
        runsOn (replaceFrom (.name x) piece position s.tokens cs) = false) := by
  -- A word stays whole only in front of what does not run on. The replaced text behind it is not the
  -- text that the word stood in front of, so the second part has to come through the induction.
  induction h with
  | done position => exact ⟨writes_nil, id⟩
  | blank hc hs ih =>
      obtain ⟨hwrites, -⟩ := ih hlegal
      rw [replaceFrom_cons hs.le_start]
      exact ⟨hwrites.blank hc, fun _ => not_isWordChar_of_isIgnored hc⟩
  | @word position s word cs hword hruns hs ih =>
      obtain ⟨hwrites, hbehind⟩ := ih hlegal
      have hfirst : Writes (if wordSymbol word = .name x then piece else word)
          (Symbol.subst (replacing x u) (wordSymbol word)) := by
        by_cases hx : wordSymbol word = .name x
        · rw [if_pos hx, hx, subst_replacing_self]
          exact hpiece
        · rw [if_neg hx, subst_replacing_of_ne x u hx]
          exact writes_word hword
      rw [Scan.cons, replaceFrom_append (toList_text_wordSymbol word)]
      refine ⟨hfirst.append hwrites (hbehind hruns), fun hfront => ?_⟩
      have hword := runsOn_of_isWord hword cs
      exact absurd (hword.symm.trans hfront) Bool.noConfusion
  | @sign position s symbol c cs hsign hs ih =>
      have hname : symbol ≠ .name x := ne_name_of_signSymbol? hsign x
      have hsame := replaceFrom_append (toList_text_of_signSymbol? hsign) (.name x) piece position
        s.tokens cs
      simp only [if_neg hname, List.singleton_append, List.length_singleton] at hsame
      have hsymbols : (s.cons ⟨symbol, position⟩).symbols.flatMap (Symbol.subst (replacing x u))
          = symbol :: s.symbols.flatMap (Symbol.subst (replacing x u)) := by
        rw [Scan.symbols, Scan.cons, List.map_cons, List.flatMap_cons,
          subst_replacing_of_ne x u hname]
        rfl
      rw [hsymbols, Scan.cons, hsame]
      exact ⟨(ih hlegal).1.sign hsign, fun _ => (not_of_signSymbol? hsign).2⟩
  | illegal => cases hlegal

/-! ### The main statement -/

/-- **Substitution.** Let two texts be accepted. With `(u)` in the place of every token that is the
name `x`, the text `t` is accepted again. Its leaves are those of `t` with the leaves of `u` in the
place of every leaf `x`. Whatever names hold, its truth value is that of `t` once `x` holds if `u`
does, and does not hold otherwise. -/
theorem parse_substitute {t u : String} {base graft : Encoding Leaf} (x : String)
    (ht : parse t = .ok base) (hu : parse u = .ok graft) :
    ∃ e, parse (substitute x u t) = .ok e ∧
      e.leaves = base.leaves.flatMap (fun value =>
        if value = .text x then graft.leaves else [value]) ∧
      ∀ names, ∃ b value,
        (Specification.encoded graft).truth names = .ok b ∧
        (Specification.encoded base).truth (settled x b names) = .ok value ∧
        (Specification.encoded e).truth names = .ok value := by
  obtain ⟨hlegal, s, hsymbols, rfl⟩ := parse_eq_ok_iff.mp ht
  obtain ⟨s', hwrites, rfl⟩ := parse_eq_ok_iff_writes.mp hu
  have hreplaced := ((spells_scanFrom 0 t.toList).writes_replaced hwrites.grouped hlegal (x := x)).1
  have hparse : parse (substitute x u t) = .ok (s.subst (replacing x s')).encode := by
    refine parse_eq_ok_iff_writes.mpr ⟨s.subst (replacing x s'), ?_, rfl⟩
    rw [s.symbols_subst, hsymbols, substitute, String.toList_ofList]
    exact hreplaced
  refine ⟨_, hparse, ?_, fun names => ?_⟩
  · rw [← (s.subst (replacing x s')).encode_expr, ← s.encode_expr, ← s'.encode_expr,
      Expr.encode_leaves, Expr.encode_leaves, Expr.encode_leaves, s.expr_subst, Expr.leaves_graft]
    simp only [leaves_replacing]
  · rw [← (s.subst (replacing x s')).encode_expr, ← s.encode_expr, ← s'.encode_expr, s.expr_subst]
    refine ⟨_, _, s'.expr.truth_encode names, s.expr.truth_encode _, ?_⟩
    rw [Expr.truth_encode, Expr.holds_graft (holds_replacing x s' names)]

/-- Both tokens `p` are replaced, the word `p1` is not, and the second group stands below a negation. -/
theorem parse_substitute_repeated :
    substitute "p" "q | r" "p &!(p1|p)" = "(q | r) &!(p1|(q | r))" ∧
      ∃ base graft e, parse "p &!(p1|p)" = .ok base ∧ parse "q | r" = .ok graft ∧
        parse "(q | r) &!(p1|(q | r))" = .ok e ∧
        e.leaves = [.text "q", .text "r", .text "p1", .text "q", .text "r"] ∧
        ∀ names, ∃ b value,
          (Specification.encoded graft).truth names = .ok b ∧
          (Specification.encoded base).truth (settled "p" b names) = .ok value ∧
          (Specification.encoded e).truth names = .ok value := by
  have htext : substitute "p" "q | r" "p &!(p1|p)" = "(q | r) &!(p1|(q | r))" := by decide +kernel
  have hbase : parse "p &!(p1|p)"
      = .ok ⟨[.leaf 0, .leaf 1, .leaf 2, .join .disjunction 2, .negate, .join .conjunction 2],
          [.text "p", .text "p1", .text "p"]⟩ := by
    decide +kernel
  have hgraft : parse "q | r"
      = .ok ⟨[.leaf 0, .leaf 1, .join .disjunction 2], [.text "q", .text "r"]⟩ := by
    decide +kernel
  obtain ⟨e, hparse, hleaves, htruth⟩ := parse_substitute "p" hbase hgraft
  rw [htext] at hparse
  exact ⟨htext, _, _, e, hbase, hgraft, hparse, hleaves.trans (by decide +kernel), htruth⟩

end Formula

end PostfixSpec
