import PostfixSpec.Proofs.Evaluator.Operands
import PostfixSpec.Proofs.Expr.Induction
import PostfixSpec.Proofs.List.Traversal

/-!
# What the machine does with the listing of a tree

A machine that starts a listing on any stack of values ends it with the meaning of the listed tree on
top of that stack, and has done on the way what the recursive meaning does. The values below are
never touched. The one fact about a record that this needs is its step on a stack that holds its
operands on top.
-/

namespace PostfixSpec

variable {m : Type → Type} [Monad m] {α β γ ι : Type}

@[simp] theorem leafAt?_val (leaves : List α) (i : Fin leaves.length) :
    leafAt? leaves (i.val : Int) = some (leaves.get i) := by
  have hi : (0 : Int) ≤ i.val := Int.natCast_nonneg _
  rw [leafAt?, if_pos hi, Int.toNat_natCast, List.getElem?_eq_getElem i.isLt, List.get_eq_getElem]

namespace Evaluator

variable (ev : Evaluator m α β) (leaves : List α)

/-! ### One record on a stack that holds its operands -/

theorem step_leaf {index : Int} {value : α} (h : leafAt? leaves index = some value)
    (stack : List β) :
    ev.step leaves stack (.leaf index) = do
      let answer ← ExceptT.lift (ev.leaf value)
      return stack ++ [answer] := by
  rw [step, h]

theorem step_negate (stack : List β) (operand : β) :
    ev.step leaves (stack ++ [operand]) .negate = do
      let answer ← ExceptT.lift (ev.negate operand)
      return stack ++ [answer] := by
  rw [step, List.getLast?_concat, List.dropLast_concat]

theorem step_join (connective : Connective) (stack operands : List β) :
    ev.step leaves (stack ++ operands) (.join connective operands.length) = do
      let answer ← ExceptT.lift (ev.join connective operands)
      return stack ++ [answer] := by
  rw [step, popTop_append]

/-! ### Streams of records -/

variable [LawfulMonad m]

@[simp] theorem runOps_singleton (stack : List β) (op : Op) :
    ev.runOps leaves stack [op] = ev.step leaves stack op := by
  rw [runOps, List.foldlM_cons]
  exact bind_pure _

/-- A stream behind another one runs from the stack that the first leaves. -/
theorem runOps_append (stack : List β) (ops more : List Op) :
    ev.runOps leaves stack (ops ++ more)
      = ev.runOps leaves stack ops >>= fun between => ev.runOps leaves between more :=
  List.foldlM_append

/-- Listings in a row put their meanings on the stack in order. -/
private theorem runOps_flatMap (listing : ι → List Op) (meaning : ι → m β) (ts : List ι)
    (h : ∀ t ∈ ts, ∀ stack : List β, ev.runOps leaves stack (listing t) = do
      let answer ← ExceptT.lift (meaning t)
      return stack ++ [answer])
    (stack : List β) :
    ev.runOps leaves stack (ts.flatMap listing) = do
      let answers ← ExceptT.lift (ts.mapM meaning)
      return stack ++ answers := by
  induction ts generalizing stack with
  | nil => simp [runOps]
  | cons t ts ih =>
      have hrest := ih fun t ht => h t (List.mem_cons_of_mem _ ht)
      rw [List.flatMap_cons, runOps_append, h t List.mem_cons_self, List.mapM_cons]
      simp only [bind_assoc, pure_bind, hrest, ExceptT.lift_bind, ExceptT.lift_pure,
        List.append_assoc, List.singleton_append]

/-- **The machine computes the meaning of a listed tree.** It runs the listing on any stack and puts
the meaning of the tree on top, provided that each reference finds the leaf that stands for it. -/
theorem runOps_toOps {index : ι → Int} {value : ι → α}
    (h : ∀ i, leafAt? leaves (index i) = some (value i)) (t : Expr ι) (stack : List β) :
    ev.runOps leaves stack (t.map index).toOps = do
      let answer ← ExceptT.lift ((t.map value).fold ev)
      return stack ++ [answer] := by
  induction t generalizing stack with
  | leaf i =>
      rw [Expr.map_leaf, Expr.map_leaf, Expr.toOps_leaf, runOps_singleton,
        ev.step_leaf leaves (h i), Expr.fold]
  | negate t ih =>
      rw [Expr.map_negate, Expr.map_negate, Expr.toOps_negate, runOps_append, ih, Expr.fold]
      simp [step_negate]
  | join c ts ih =>
      have hoperands := runOps_flatMap ev leaves (fun t => (t.map index).toOps)
        (fun t => (t.map value).fold ev) ts ih stack
      -- The record counts trees, the step counts answers, and there are as many of one as of the other.
      have hjoin : (ExceptT.lift (ts.mapM fun t => (t.map value).fold ev) >>= fun answers =>
            ev.runOps leaves (stack ++ answers) [.join c ts.length])
          = ExceptT.lift (ts.mapM fun t => (t.map value).fold ev) >>= fun answers => do
            let answer ← ExceptT.lift (ev.join c answers)
            return stack ++ [answer] := by
        apply ExceptT.ext
        rw [ExceptT.run_bind_lift, ExceptT.run_bind_lift]
        refine mapM_bind_congr fun answers hlength => ?_
        rw [runOps_singleton, ← hlength, step_join]
      rw [Expr.map_join, Expr.map_join, Expr.toOps_join, List.flatMap_map, List.length_map,
        runOps_append, hoperands, Expr.fold, Expr.foldList_eq, List.mapM_map]
      simp only [bind_assoc, pure_bind, hjoin, ExceptT.lift_bind, Function.comp_def]

end Evaluator

end PostfixSpec
