import Mathlib.Data.List.Chain
import PostfixSpec.Proofs.Formula.RoundTrip

/-!
# The characters of a description

Formula text over names and constants is made of word characters, signs and single blanks. A blank only
stands beside a connective, and no operand begins or ends with one. So a piece of formula text can be
put in front of anything tidy and the whole stays tidy.
-/

namespace PostfixSpec.Formula

/-- Whether a character occurs in descriptions: it stands in words, is a sign, or a space. -/
def isDisplayed (c : Char) : Bool := isWordChar c || (signSymbol? c).isSome || c = ' '

/-- No two spaces in a row. -/
def SingleSpaced (cs : List Char) : Prop := cs.IsChain fun a b => a ≠ ' ' ∨ b ≠ ' '

/-- Characters of descriptions with no two spaces in a row. -/
structure Tidy (cs : List Char) : Prop where
  displayed : ∀ c ∈ cs, isDisplayed c = true
  singleSpaced : SingleSpaced cs

/-- Characters that begin with one that is no space and end with none, whatever tidy ones follow. -/
structure Compact (cs : List Char) : Prop where
  head : ∀ rest, (cs ++ rest).head? ≠ some ' '
  append : ∀ rest, Tidy rest → Tidy (cs ++ rest)

theorem tidy_nil : Tidy [] := ⟨List.forall_mem_nil _, List.isChain_nil⟩

theorem Compact.tidy {cs : List Char} (h : Compact cs) : Tidy cs := by
  have happend := h.append [] tidy_nil
  rwa [List.append_nil] at happend

theorem Tidy.cons {c : Char} {cs : List Char} (hc : isDisplayed c = true) (hspace : c ≠ ' ')
    (h : Tidy cs) : Tidy (c :: cs) := by
  refine ⟨List.forall_mem_cons.mpr ⟨hc, h.displayed⟩, ?_⟩
  exact List.isChain_cons.mpr ⟨fun d _ => .inl hspace, h.singleSpaced⟩

theorem Tidy.space {cs : List Char} (hhead : cs.head? ≠ some ' ') (h : Tidy cs) :
    Tidy (' ' :: cs) := by
  refine ⟨List.forall_mem_cons.mpr ⟨rfl, h.displayed⟩, ?_⟩
  refine List.isChain_cons.mpr ⟨fun d hd => .inr ?_, h.singleSpaced⟩
  rintro rfl
  exact hhead hd

theorem compact_cons {c : Char} {cs : List Char} (hc : isDisplayed c = true) (hspace : c ≠ ' ')
    (h : ∀ rest, Tidy rest → Tidy (cs ++ rest)) : Compact (c :: cs) := by
  refine ⟨fun rest hhead => hspace (Option.some.inj hhead), fun rest hrest => ?_⟩
  exact (h rest hrest).cons hc hspace

theorem Tidy.word {word : List Char} (h : ∀ c ∈ word, isWordChar c = true) {rest : List Char}
    (hrest : Tidy rest) : Tidy (word ++ rest) := by
  induction word with
  | nil => exact hrest
  | cons c word ih =>
      obtain ⟨hc, hword⟩ := List.forall_mem_cons.mp h
      refine (ih hword).cons (by rw [isDisplayed, hc, Bool.true_or, Bool.true_or]) ?_
      rintro rfl
      exact nomatch hc

theorem compact_word {word : List Char} (h : isWord word = true) : Compact word := by
  have hchars := isWordChar_of_mem_isWord h
  refine ⟨?_, fun rest hrest => hrest.word hchars⟩
  intro rest hhead
  cases word with
  | nil => exact nomatch h
  | cons c word =>
      have hc := hchars c List.mem_cons_self
      rw [Option.some.inj hhead] at hc
      exact nomatch hc

theorem compact_sign (c : Connective) : Compact c.sign.toList := by
  cases c with
  | conjunction => exact compact_cons (by decide) (by decide) fun rest hrest => hrest
  | disjunction => exact compact_cons (by decide) (by decide) fun rest hrest => hrest

theorem compact_leaf {value : Leaf} (h : value.Nameable) :
    Compact (Expr.leaf value).formula.toList := by
  cases value with
  | text s =>
      simp only [Leaf.Nameable, isName, Bool.and_eq_true] at h
      exact compact_word h.1.1
  | bool b =>
      have htrue : isWord "true".toList = true := by decide
      have hfalse : isWord "false".toList = true := by decide
      cases b with
      | true => exact compact_word htrue
      | false => exact compact_word hfalse
  | int i => exact h.elim
  | null => exact h.elim

/-- A connective stands between two spaces. -/
theorem tidy_behind (c : Connective) {text : String} (h : Compact text.toList) {rest : List Char}
    (hrest : Tidy rest) : Tidy (behind c [text] ++ rest) := by
  have hoperand := (h.append rest hrest).space (h.head rest)
  have hsign := (compact_sign c).append _ hoperand
  have hbehind := hsign.space ((compact_sign c).head _)
  simpa [behind] using hbehind

/-- **Formula text is compact.** -/
theorem compact_formula {t : Expr Leaf} (hbinary : t.Binary)
    (hleaves : ∀ value ∈ t.leaves, value.Nameable) : Compact t.formula.toList := by
  induction hbinary with
  | leaf value =>
      rw [Expr.leaves_leaf, List.forall_mem_singleton] at hleaves
      exact compact_leaf hleaves
  | negate _ ih =>
      rw [Expr.leaves_negate] at hleaves
      rw [Expr.formula_negate, String.toList_append]
      exact compact_cons (by decide) (by decide) (ih hleaves).append
  | join c _ _ iht ihu =>
      rw [Expr.leaves_join, List.forall_mem_flatMap] at hleaves
      obtain ⟨ht, hu⟩ := List.forall_mem_cons.mp hleaves
      have hleft := iht ht
      have hright := ihu (List.forall_mem_singleton.mp hu)
      rw [Expr.formula_join, List.map_singleton, toList_parenthesised]
      refine compact_cons (by decide) (by decide) fun rest hrest => ?_
      rw [List.append_assoc, List.append_assoc, List.singleton_append]
      exact hleft.append _ (tidy_behind c hright (hrest.cons (by decide) (by decide)))

end PostfixSpec.Formula
