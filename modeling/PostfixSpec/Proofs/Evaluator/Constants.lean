import PostfixSpec.Evaluator.Constants
import PostfixSpec.Proofs.Evaluator.Simulation
import PostfixSpec.Proofs.Formula.RoundTrip

/-!
# Constant specifications

The evaluators of constant specifications answer as the general ones do. Over booleans the truth value
is the one under any assignment, and the text is the description with each of its signs doubled. Each
pair of evaluators represents the other call by call, so this holds of malformed streams as well: they
fail together and for the same reason. For the text, formula text stands between the two, since no part
of a description fails over booleans.
-/

namespace PostfixSpec

/-! ### Doubled signs -/

/-- A text in which each sign of a connective is written twice. -/
def doubled (text : String) : String :=
  String.ofList (text.toList.flatMap fun c => if c = '&' ∨ c = '|' then [c, c] else [c])

theorem doubled_append (first second : String) :
    doubled (first ++ second) = doubled first ++ doubled second := by
  rw [doubled, String.toList_append, List.flatMap_append, String.ofList_append]
  rfl

theorem doubled_intercalate (separator : String) (texts : List String) :
    doubled (separator.intercalate texts)
      = (doubled separator).intercalate (texts.map doubled) := by
  induction texts with
  | nil => rfl
  | cons first texts ih =>
      cases texts with
      | nil => rw [List.map_singleton, String.intercalate_singleton, String.intercalate_singleton]
      | cons second texts =>
          rw [String.intercalate_cons_cons, doubled_append, doubled_append, ih]
          exact String.intercalate_cons_cons.symm

/-- Only the sign is doubled where operands are put between parentheses. -/
theorem doubled_parenthesised (c : Connective) (operands : List String) :
    doubled (parenthesised c.sign operands)
      = parenthesised (c.sign ++ c.sign) (operands.map doubled) := by
  have hopening : doubled "(" = "(" := by decide +kernel
  have hclosing : doubled ")" = ")" := by decide +kernel
  have hseparator : doubled (" " ++ c.sign ++ " ") = " " ++ (c.sign ++ c.sign) ++ " " := by
    cases c <;> decide +kernel
  rw [parenthesised, doubled_append, doubled_append, doubled_intercalate, hopening, hclosing,
    hseparator]
  rfl

/-! ### The evaluators call by call -/

namespace Evaluator

variable {leaves : List Leaf}

theorem represents_assignment (names : List String)
    (h : ∀ value ∈ leaves, ∃ b, value = .bool b) :
    constantTruth.Represents (assignment names) .bool leaves where
  leaf value hvalue := by
    obtain ⟨b, rfl⟩ := h value hvalue
    rfl
  negate operand := rfl
  join c operands := by
    cases c with
    | conjunction => exact congrArg Leaf.bool List.all_map
    | disjunction => exact congrArg Leaf.bool List.any_map

theorem represents_doubled (h : ∀ value ∈ leaves, ∃ b, value = .bool b) :
    constantText.Represents formula doubled leaves where
  leaf value hvalue := by
    obtain ⟨b, rfl⟩ := h value hvalue
    have htrue : (Leaf.bool true).display.map Char.toLower = doubled "true" := by decide +kernel
    have hfalse : (Leaf.bool false).display.map Char.toLower = doubled "false" := by decide +kernel
    cases b with
    | true => exact htrue
    | false => exact hfalse
  negate operand := by
    have hsign : doubled "!" = "!" := by decide +kernel
    show "!" ++ doubled operand = doubled ("!" ++ operand)
    rw [doubled_append, hsign]
  join c operands := by
    match operands with
    | [] => exact (doubled_parenthesised c []).symm
    -- A lone operand is passed on by both, with no sign to double.
    | [operand] => rfl
    | first :: second :: rest => exact (doubled_parenthesised c (first :: second :: rest)).symm

end Evaluator

/-! ### The main statement -/

namespace Specification

/-- **The evaluators of constant specifications agree with the general ones** on every stream of records
over booleans. The truth value, or the reason why there is none, is that under any assignment. The
description is a text, or fails for a reason of the machine; the constant text is the same text with
its signs doubled, or fails for the same reason. -/
theorem constants_agree {e : Encoding Leaf} (names : List String)
    (h : ∀ value ∈ e.leaves, ∃ b, value = .bool b) :
    ((encoded e).evaluate Evaluator.constantTruth).run = ((encoded e).truth names).map .bool ∧
    ∃ outcome : Except EvaluationError String,
      (encoded e).description = (outcome.map Leaf.text).mapError .evaluation ∧
      ((encoded e).evaluate Evaluator.constantText).run = outcome.map doubled := by
  have hnameable : ∀ value ∈ e.leaves, value.Nameable := by
    intro value hvalue
    obtain ⟨b, rfl⟩ := h value hvalue
    trivial
  exact ⟨(Evaluator.represents_assignment names h).evaluate, _, description_of_nameable hnameable,
    (Evaluator.represents_doubled h).evaluate⟩

/-- A joining record that finds too few operands takes those there are, one without operands is written
all the same, and a leaf that is not there fails everywhere. -/
theorem constants_agree_malformed :
    let e : Encoding Leaf := ⟨[.leaf 0, .join .disjunction 4, .leaf (-1), .negate,
      .join .conjunction 0, .join .disjunction 3, .negate], [.bool true, .bool false]⟩
    let short : Encoding Leaf := ⟨[.leaf 0, .negate, .leaf 2, .join .conjunction 2],
      [.bool true, .bool false]⟩
    (((encoded e).evaluate Evaluator.constantTruth).run = .ok (.bool false) ∧
      (encoded e).description = .ok (.text "!(true | !false | ())") ∧
      ((encoded e).evaluate Evaluator.constantText).run = .ok "!(true || !false || ())") ∧
    ((encoded short).evaluate Evaluator.constantTruth).run = .error .leafOutOfRange ∧
      (encoded short).description = .error (.evaluation .leafOutOfRange) ∧
      ((encoded short).evaluate Evaluator.constantText).run = .error .leafOutOfRange := by
  intro e short
  have hleaves : ∀ value ∈ e.leaves, ∃ b, value = .bool b := by
    simp [e]
  constructor
  · obtain ⟨htruth, outcome, hdescription, htext⟩ := constants_agree ["p"] hleaves
    have hknown : (encoded e).description = .ok (.text "!(true | !false | ())") := by decide +kernel
    have hvalue : (encoded e).truth ["p"] = .ok false := by decide +kernel
    rw [hvalue] at htruth
    cases outcome with
    | error error => exact nomatch hknown.symm.trans hdescription
    | ok text =>
        cases hknown.symm.trans hdescription
        have hdoubled : doubled "!(true | !false | ())" = "!(true || !false || ())" := by
          decide +kernel
        exact ⟨htruth, hknown, htext.trans (congrArg Except.ok hdoubled)⟩
  · obtain ⟨htruth, outcome, hdescription, htext⟩ := constants_agree (e := short) ["p"] hleaves
    have hknown : (encoded short).description = .error (.evaluation .leafOutOfRange) := by
      decide +kernel
    have hvalue : (encoded short).truth ["p"] = .error .leafOutOfRange := by decide +kernel
    rw [hvalue] at htruth
    cases outcome with
    | error error =>
        cases hknown.symm.trans hdescription
        exact ⟨htruth, hknown, htext⟩
    | ok text => exact nomatch hknown.symm.trans hdescription

end Specification

end PostfixSpec
