import PostfixSpec.Evaluator.Description
import PostfixSpec.Proofs.Evaluator.Simulation
import PostfixSpec.Proofs.Formula.Acceptance
import PostfixSpec.Proofs.Formula.Derivation
import PostfixSpec.Proofs.Formula.Spelling
import PostfixSpec.Proofs.Specification.Construction

/-!
# A description parses back

The description of a specification over names and booleans is formula text. It writes one literal, in
whatever context it is put: a name or a constant writes itself, a sign in front writes a negation, and
operands between parentheses write the chain of what they write. The tree of that literal is the binary
form of the tree that was described, so this is what the parser builds from the description.
-/

namespace PostfixSpec

open Formula

/-- Whether formula text has a symbol for a leaf: it is a boolean or a name. -/
def Leaf.Nameable : Leaf → Prop
  | .text value => isName value = true
  | .bool _ => True
  | _ => False

instance : DecidablePred Leaf.Nameable
  | .text value => inferInstanceAs (Decidable (isName value = true))
  | .bool _ => inferInstanceAs (Decidable True)
  | .int _ => inferInstanceAs (Decidable False)
  | .null => inferInstanceAs (Decidable False)

/-- Answers with formula text, as a description does where nothing fails. -/
def Evaluator.formula : Evaluator Id Leaf String where
  name := "Formula"
  leaf
    | .bool b => if b then "true" else "false"
    | value => value.display
  negate operand := "!" ++ operand
  join
    | _, [operand] => operand
    | connective, operands => parenthesised connective.sign operands

namespace Expr

def formula (t : Expr Leaf) : String := Id.run (t.fold Evaluator.formula)

theorem formula_negate (t : Expr Leaf) : t.negate.formula = "!" ++ t.formula := fold_negate _ t

theorem formula_join_singleton (c : Connective) (t : Expr Leaf) :
    (join c [t]).formula = t.formula := fold_join _ c [t]

theorem formula_join (c : Connective) (t u : Expr Leaf) (ts : List (Expr Leaf)) :
    (join c (t :: u :: ts)).formula
      = parenthesised c.sign (t.formula :: (u :: ts).map formula) :=
  fold_join _ c (t :: u :: ts)

end Expr

/-! ### Descriptions are formula text -/

private theorem Leaf.texts_map_text (position : Nat) (texts : List String) :
    Leaf.texts position (texts.map .text) = .ok texts := by
  induction texts generalizing position with
  | nil => rfl
  | cons text texts ih =>
      rw [List.map_cons, Leaf.texts, ih]
      rfl

/-- Over names and booleans no part of a description fails. -/
theorem Evaluator.represents_formula {leaves : List Leaf} (h : ∀ value ∈ leaves, value.Nameable) :
    Evaluator.description.Represents Evaluator.formula .text leaves where
  leaf value hvalue := by
    cases value with
    | text s => rfl
    | bool b => rfl
    | int i => exact (h _ hvalue).elim
    | null => exact (h _ hvalue).elim
  negate operand := rfl
  join c operands := by
    match operands with
    | [] => rfl
    | [operand] => rfl
    | first :: second :: rest =>
        have htexts := Leaf.texts_map_text 0 (first :: second :: rest)
        simp only [Evaluator.description, List.map_cons] at htexts ⊢
        rw [htexts]
        rfl

/-- Over names and booleans a description is formula text, or fails for a reason of the machine. -/
theorem Specification.description_of_nameable {e : Encoding Leaf}
    (h : ∀ value ∈ e.leaves, value.Nameable) :
    (encoded e).description
      = ((Id.run ((encoded e).evaluate Evaluator.formula).run).map Leaf.text).mapError
          .evaluation := by
  rw [description, (Evaluator.represents_formula h).evaluate]
  cases Id.run ((encoded e).evaluate Evaluator.formula).run with
  | error error => rfl
  | ok text => rfl

theorem Expr.description_encode {t : Expr Leaf} (h : ∀ value ∈ t.leaves, value.Nameable) :
    (Specification.encoded t.encode).description = .ok (.text t.formula) := by
  rw [← encode_leaves] at h
  rw [Specification.description_of_nameable h, evaluate_encode]
  rfl

namespace Formula

/-! ### What formula text writes -/

theorem writes_leaf {value : Leaf} (h : value.Nameable) :
    ∃ a : Atom, a.expr = .leaf value ∧ Writes (Expr.leaf value).formula.toList a.symbols := by
  cases value with
  | text s =>
      have hword : isWord s.toList = true := by
        simp only [Leaf.Nameable, isName, Bool.and_eq_true] at h
        exact h.1.1
      have hwrites := writes_word hword
      rw [wordSymbol_of_isName h] at hwrites
      exact ⟨.name s, rfl, hwrites⟩
  | bool b =>
      have htrue : isWord "true".toList = true := by decide
      have hfalse : isWord "false".toList = true := by decide
      cases b with
      | true => exact ⟨.constant true, rfl, writes_word htrue⟩
      | false => exact ⟨.constant false, rfl, writes_word hfalse⟩
  | int i => exact h.elim
  | null => exact h.elim

theorem writes_connective (c : Connective) : Writes c.sign.toList [.connective c] := by
  cases c with
  | conjunction => exact writes_nil.sign rfl
  | disjunction => exact writes_nil.sign rfl

/-- Texts behind a first one, each with a sign between blanks in front. -/
def behind (c : Connective) (texts : List String) : List Char :=
  texts.flatMap fun text => (' ' :: c.sign.toList) ++ (' ' :: text.toList)

theorem runsOn_behind (c : Connective) (texts : List String) (cs : List Char)
    (hcs : runsOn cs = false) : runsOn (behind c texts ++ cs) = false := by
  cases texts with
  | nil => exact hcs
  | cons text texts => rfl

theorem toList_parenthesised (c : Connective) (text : String) (texts : List String) :
    (parenthesised c.sign (text :: texts)).toList
      = '(' :: (text.toList ++ (behind c texts ++ [')'])) := by
  have hseparated : ((" " ++ c.sign ++ " ").intercalate (text :: texts)).toList
      = text.toList ++ behind c texts := by
    induction texts generalizing text with
    | nil => rw [String.intercalate_singleton]; exact (List.append_nil _).symm
    | cons next texts ih =>
        rw [String.intercalate_cons_cons, String.toList_append, ih next]
        simp [behind]
  rw [parenthesised, String.toList_append, String.toList_append, hseparated, List.append_assoc,
    List.append_assoc]
  rfl

theorem writes_behind {ι : Type} (c : Connective) {text : ι → String} {symbols : ι → List Symbol}
    {operands : List ι} (h : ∀ x ∈ operands, Writes (text x).toList (symbols x)) :
    Writes (behind c (operands.map text))
      (operands.flatMap fun x => .connective c :: symbols x) := by
  induction operands with
  | nil => exact writes_nil
  | cons x operands ih =>
      obtain ⟨hx, hoperands⟩ := List.forall_mem_cons.mp h
      have hsign : Writes (' ' :: c.sign.toList) [.connective c] := (writes_connective c).blank rfl
      have hfirst := hsign.append (hx.blank (c := ' ') rfl) rfl
      have hruns := runsOn_behind c (operands.map text) [] rfl
      rw [List.append_nil] at hruns
      exact hfirst.append (ih hoperands) hruns

instance : Inhabited Literal := ⟨.atom (.constant true)⟩

/-- **Formula text writes one literal, and that is the binary form of the tree.** -/
theorem exists_literal {t : Expr Leaf} (hproper : t.Proper)
    (hleaves : ∀ value ∈ t.leaves, value.Nameable) :
    ∃ l : Literal, l.expr = t.binary ∧ Writes t.formula.toList l.symbols := by
  induction t with
  | leaf value =>
      rw [Expr.leaves_leaf, List.forall_mem_singleton] at hleaves
      obtain ⟨a, hexpr, hwrites⟩ := writes_leaf hleaves
      exact ⟨.atom a, by rw [Literal.expr, hexpr, Expr.binary_leaf], hwrites⟩
  | negate t ih =>
      rw [Expr.leaves_negate] at hleaves
      obtain ⟨l, hexpr, hwrites⟩ := ih (Expr.proper_negate.mp hproper) hleaves
      refine ⟨.not l, by rw [Literal.expr, hexpr, Expr.binary_negate], ?_⟩
      rw [Expr.formula_negate]
      exact hwrites.negated
  | join c ts ih =>
      obtain ⟨hne, hts⟩ := Expr.proper_join.mp hproper
      rw [Expr.leaves_join, List.forall_mem_flatMap] at hleaves
      have hliterals : ∀ t ∈ ts, ∃ l : Literal, l.expr = t.binary ∧
          Writes t.formula.toList l.symbols := fun t ht => ih t ht (hts t ht) (hleaves t ht)
      -- One literal for each operand, chosen for all at once: lists of literals are maps over operands.
      choose! literal hexpr hwrites using hliterals
      match ts with
      | [] => exact absurd rfl hne
      | [t] =>
          -- No parentheses are written around a lone operand, so nothing is grouped.
          refine ⟨literal t, ?_, ?_⟩
          · rw [hexpr t List.mem_cons_self, Expr.binary_join]
            rfl
          · rw [Expr.formula_join_singleton]
            exact hwrites t List.mem_cons_self
      | t :: u :: rest =>
          obtain ⟨hexpr_first, hexpr_rest⟩ := List.forall_mem_cons.mp hexpr
          obtain ⟨hwrites_first, hwrites_rest⟩ := List.forall_mem_cons.mp hwrites
          refine ⟨.atom (.group (.chain c (literal t) ((u :: rest).map literal))), ?_, ?_⟩
          · have hmap : ((u :: rest).map literal).map (·.expr) = (u :: rest).map Expr.binary := by
              rw [List.map_map]
              exact List.map_congr_left hexpr_rest
            rw [Literal.expr, Atom.expr, (Sentence.chain_spec _ _ _).2, hmap, hexpr_first, Expr.binary_join]
            rfl
          · have hclosing : Writes [')'] [.closing] := writes_nil.sign rfl
            have hrest := (writes_behind c hwrites_rest).append hclosing rfl
            have hruns := runsOn_behind c ((u :: rest).map Expr.formula) [')'] rfl
            have hgroup := (hwrites_first.append hrest hruns).sign (c := '(') rfl
            rw [Expr.formula_join, toList_parenthesised, Literal.symbols, Atom.symbols,
              (Sentence.chain_spec _ _ _).1, List.flatMap_map, List.cons_append, List.append_assoc]
            exact hgroup

/-- Parsing formula text builds the binary form of its tree. -/
theorem parse_formula {t : Expr Leaf} (hproper : t.Proper)
    (hleaves : ∀ value ∈ t.leaves, value.Nameable) :
    parse t.formula = .ok t.binary.encode := by
  obtain ⟨l, hexpr, hwrites⟩ := exists_literal hproper hleaves
  refine parse_eq_ok_iff_writes.mpr ⟨.clause (.literal l), hwrites, ?_⟩
  rw [← hexpr, l.encode_expr]
  rfl

/-- What is scanned gives rise to names and booleans only. -/
theorem nameable_of_scan {text : String} {s : Sentence}
    (hsymbols : s.symbols = (scan text).tokens.map (·.symbol)) :
    ∀ value ∈ s.expr.leaves, value.Nameable := by
  intro value hvalue
  rw [s.leaves_expr, hsymbols] at hvalue
  obtain ⟨symbol, hsymbol, hleaf⟩ := List.mem_filterMap.mp hvalue
  cases symbol with
  | name x =>
      cases hleaf
      exact isName_of_mem_scan hsymbol
  | constant b =>
      cases hleaf
      trivial
  | _ => exact nomatch hleaf

/-- What the parser builds is the encoding of a binary tree over names and booleans. -/
theorem exists_expr_of_parse {text : String} {e : Encoding Leaf} (h : parse text = .ok e) :
    ∃ t : Expr Leaf, t.Binary ∧ (∀ value ∈ t.leaves, value.Nameable) ∧ t.encode = e := by
  obtain ⟨-, s, hsymbols, rfl⟩ := parse_eq_ok_iff.mp h
  exact ⟨s.expr, s.binary_expr, nameable_of_scan hsymbols, s.encode_expr⟩

/-! ### The main statement -/

/-- **A description parses back, up to the binary form.** What is constructed along any tree over names
and booleans has a description, and parsing it gives what is constructed along the binary form of the
tree. That is the specification itself if every connective has two operands. So describing what was
parsed from a text and parsing the description changes nothing. -/
theorem parse_description :
    (∀ (t : Expr Leaf) (spec : Specification Leaf), t.compose = .ok spec →
      (∀ value ∈ t.leaves, value.Nameable) →
      ∃ text e, spec.description = .ok (.text text) ∧ parse text = .ok e ∧
        t.binary.compose = .ok (.encoded e) ∧ (t.Binary → spec = .encoded e)) ∧
    ∀ text e, parse text = .ok e →
      ∃ again, (Specification.encoded e).description = .ok (.text again) ∧ parse again = .ok e := by
  constructor
  · intro t spec hspec hleaves
    obtain ⟨hproper, rfl⟩ := Expr.compose_eq_ok_iff.mp hspec
    refine ⟨t.formula, t.binary.encode, Expr.description_encode hleaves,
      parse_formula hproper hleaves, hproper.binary.proper.compose, fun hbinary => ?_⟩
    rw [hbinary.binary_eq]
  · intro text e hparse
    obtain ⟨t, hbinary, hleaves, rfl⟩ := exists_expr_of_parse hparse
    have hagain := parse_formula hbinary.proper hleaves
    rw [hbinary.binary_eq] at hagain
    exact ⟨t.formula, Expr.description_encode hleaves, hagain⟩

/-- A lone operand leaves no trace in the text, and three operands come back as a chain. -/
theorem parse_description_nested :
    (∃ spec e,
      Expr.compose (.negate (.negate (.join .disjunction [.leaf (.text "p"), .leaf (.bool true),
        .join .conjunction [.negate (.leaf (.text "_q1"))]]))) = .ok spec ∧
      spec.description = .ok (.text "!!(p | true | !_q1)") ∧
      parse "!!(p | true | !_q1)" = .ok e ∧
      Expr.compose (.negate (.negate (.join .disjunction [.join .disjunction
        [.leaf (.text "p"), .leaf (.bool true)], .negate (.leaf (.text "_q1"))])))
          = .ok (.encoded e)) ∧
    ∃ e, parse "p &((q))" = .ok e ∧
      ∃ again, (Specification.encoded e).description = .ok (.text again) ∧ parse again = .ok e := by
  constructor
  · let t : Expr Leaf := .negate (.negate (.join .disjunction [.leaf (.text "p"),
      .leaf (.bool true), .join .conjunction [.negate (.leaf (.text "_q1"))]]))
    have hcompose : t.compose = .ok (.encoded t.encode) := by decide +kernel
    have hleaves : ∀ value ∈ t.leaves, value.Nameable := by decide +kernel
    have hdescription : (Specification.encoded t.encode).description
        = .ok (.text "!!(p | true | !_q1)") := by decide +kernel
    obtain ⟨text, e, htext, hparse, hbinary, -⟩ := parse_description.1 t _ hcompose hleaves
    cases hdescription.symm.trans htext
    exact ⟨_, e, hcompose, hdescription, hparse, hbinary⟩
  · have hparse : parse "p &((q))"
        = .ok ⟨[.leaf 0, .leaf 1, .join .conjunction 2], [.text "p", .text "q"]⟩ := by
      decide +kernel
    exact ⟨_, hparse, parse_description.2 _ _ hparse⟩

end Formula

end PostfixSpec
