import PostfixSpec.Evaluator.Constants
import PostfixSpec.Proofs.Specification.Construction

/-!
# Truth values of trees

Under an assignment nothing happens but the computation of a value, so a tree has a truth value of its
own: a conjunction holds if all its operands do, and a disjunction if any does. This is the value of the
specification that is built along the tree, and so no assignment ever fails on it.
-/

namespace PostfixSpec

namespace Expr

variable (names : List String)

/-- Whether a tree holds when exactly `names` do. -/
def holds (t : Expr Leaf) : Bool := Id.run (t.fold (Evaluator.assignment names))

@[simp] theorem holds_text (x : String) : (leaf (.text x)).holds names = names.contains x :=
  fold_leaf _ _

@[simp] theorem holds_bool (b : Bool) : (leaf (.bool b)).holds names = b := fold_leaf _ _

@[simp] theorem holds_negate (t : Expr Leaf) : t.negate.holds names = !t.holds names :=
  fold_negate _ t

theorem holds_join (c : Connective) (ts : List (Expr Leaf)) :
    (join c ts).holds names = (Evaluator.assignment names).join c (ts.map (holds names)) :=
  fold_join _ c ts

@[simp] theorem holds_conjunction (ts : List (Expr Leaf)) :
    (join .conjunction ts).holds names = ts.all (holds names) :=
  (holds_join names .conjunction ts).trans List.all_map

@[simp] theorem holds_disjunction (ts : List (Expr Leaf)) :
    (join .disjunction ts).holds names = ts.any (holds names) :=
  (holds_join names .disjunction ts).trans List.any_map

theorem truth_encode (t : Expr Leaf) :
    (Specification.encoded t.encode).truth names = .ok (t.holds names) := by
  rw [Specification.truth, evaluate_encode]
  rfl

end Expr

end PostfixSpec
