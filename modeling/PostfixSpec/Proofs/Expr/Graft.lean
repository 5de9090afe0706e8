import PostfixSpec.Proofs.Evaluator.Truth

/-!
# Grafted trees

Grafting puts a tree of its own in the place of every leaf. The operators above the places stay what
they are, so the grafted tree has the leaves of the grafts in their order. It holds when the tree below
holds under an assignment that gives every leaf the truth value of its graft.
-/

namespace PostfixSpec

variable {α β : Type}

/-- Answers with the trees that stand for the leaves and what the operators make of them. -/
def Evaluator.grafting (f : α → Expr β) : Evaluator Id α (Expr β) where
  name := "Grafting"
  leaf := f
  negate := .negate
  join := .join

namespace Expr

/-- The tree with another one in the place of each leaf. -/
def graft (f : α → Expr β) (t : Expr α) : Expr β := Id.run (t.fold (Evaluator.grafting f))

@[simp] theorem graft_leaf (f : α → Expr β) (value : α) : (leaf value).graft f = f value :=
  fold_leaf _ value

@[simp] theorem graft_negate (f : α → Expr β) (t : Expr α) : t.negate.graft f = (t.graft f).negate :=
  fold_negate _ t

@[simp] theorem graft_join (f : α → Expr β) (c : Connective) (ts : List (Expr α)) :
    (join c ts).graft f = join c (ts.map (graft f)) := fold_join _ c ts

theorem leaves_graft (f : α → Expr β) (t : Expr α) :
    (t.graft f).leaves = t.leaves.flatMap fun value => (f value).leaves := by
  induction t with
  | leaf value => simp
  | negate t ih => simpa using ih
  | join c ts ih =>
      rw [graft_join, leaves_join, leaves_join, List.flatMap_map, List.flatMap_assoc]
      exact List.flatMap_congr ih

theorem holds_graft {f : Leaf → Expr Leaf} {names names' : List String}
    (h : ∀ value, (f value).holds names = (leaf value).holds names') (t : Expr Leaf) :
    (t.graft f).holds names = t.holds names' := by
  induction t with
  | leaf value => rw [graft_leaf, h]
  | negate t ih => rw [graft_negate, holds_negate, holds_negate, ih]
  | join c ts ih =>
      have hoperands : ts.map (holds names ∘ graft f) = ts.map (holds names') :=
        List.map_congr_left ih
      rw [graft_join, holds_join, holds_join, List.map_map, hoperands]
      rfl

end Expr

end PostfixSpec
