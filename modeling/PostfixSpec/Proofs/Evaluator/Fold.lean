import PostfixSpec.Evaluator.Recorder
import PostfixSpec.Proofs.Evaluator.Machine
import PostfixSpec.Proofs.Expr.Listing

/-!
# Evaluation is the recursive meaning of the listed tree

A well-formed encoding lists one tree, and evaluating it is folding that tree, whatever effects the
evaluator has: answers, failures and the order of calls agree, because the two computations are equal
in every lawful monad. A recorder makes the calls visible. They are the nodes of the tree, operands
first, each with exactly the answers of its own operands.
-/

namespace PostfixSpec

variable {α β : Type}

/-- Whether the records of an encoding are well formed over its leaves. -/
def Encoding.WellFormed (e : Encoding α) : Prop := Op.WellFormed e.leaves.length e.ops

instance (e : Encoding α) : Decidable e.WellFormed :=
  inferInstanceAs (Decidable (Op.WellFormed _ _))

namespace Encoding

variable {m : Type → Type} [Monad m] [LawfulMonad m]

/-- An encoding that lists a tree is evaluated by folding that tree over the leaf values. -/
theorem evaluate_of_listing {e : Encoding α} {t : Expr (Fin e.leaves.length)}
    (h : t.listing (fun i => i.val) = e.ops) (ev : Evaluator m α β) :
    e.evaluate ev = ExceptT.lift ((t.map e.leaves.get).fold ev) := by
  have hrun := ev.runOps_toOps e.leaves (leafAt?_val e.leaves) t []
  rw [evaluate, ← h, Expr.listing, hrun]
  simp

end Encoding

/-! ### The calls of a fold -/

namespace Expr

mutual

/-- The calls that folding a tree makes: those of the operands from left to right, and then the one
of the operator on their answers. -/
def calls (ev : Evaluator Id α β) : Expr α → List (Call α β)
  | leaf value => [.leaf value]
  | negate t => t.calls ev ++ [.negate (t.fold ev)]
  | join c ts => listCalls ev ts ++ [.join c (foldList ev ts)]

def listCalls (ev : Evaluator Id α β) : List (Expr α) → List (Call α β)
  | [] => []
  | t :: ts => t.calls ev ++ listCalls ev ts

end

/-- What follows a recorded computation that answers goes on from its calls. -/
private theorem run_bind_of_ok {γ δ : Type} {x : Recording α β γ} {next : γ → Recording α β δ}
    {before after : List (Call α β)} {answer : γ} (h : x.run.run before = (.ok answer, after)) :
    (x >>= next).run.run before = (next answer).run.run after := by
  rw [ExceptT.run_bind, StateT.run_bind, h]
  rfl

/-- A recorder that fails at no call answers, and adds its call to those made before. -/
theorem run_answering_zero (call : Call α β) (answer : β) (before : List (Call α β)) :
    (Evaluator.answering 0 call answer).run.run before = (.ok answer, before ++ [call]) := rfl

private theorem foldList_recording (ev : Evaluator Id α β) (ts : List (Expr α))
    (h : ∀ t ∈ ts, ∀ before, (t.fold (ev.recording 0)).run.run before
      = (.ok (t.fold ev), before ++ t.calls ev))
    (before : List (Call α β)) :
    (foldList (ev.recording 0) ts).run.run before
      = (.ok (foldList ev ts), before ++ listCalls ev ts) := by
  induction ts generalizing before with
  | nil => rw [listCalls, List.append_nil]; rfl
  | cons t ts ih =>
      have hrest := ih fun t ht => h t (List.mem_cons_of_mem _ ht)
      rw [foldList, run_bind_of_ok (h t List.mem_cons_self before), run_bind_of_ok (hrest _),
        listCalls, ← List.append_assoc]
      rfl

/-- Folding with a recorder gives the meaning of the tree and records its calls. -/
theorem fold_recording (ev : Evaluator Id α β) (t : Expr α) (before : List (Call α β)) :
    (t.fold (ev.recording 0)).run.run before = (.ok (t.fold ev), before ++ t.calls ev) := by
  induction t generalizing before with
  | leaf value => exact run_answering_zero _ _ before
  | negate t ih =>
      rw [fold, run_bind_of_ok (ih before), calls, ← List.append_assoc]
      exact run_answering_zero _ _ _
  | join c ts ih =>
      rw [fold, run_bind_of_ok (foldList_recording ev ts ih before), calls, ← List.append_assoc]
      exact run_answering_zero _ _ _

end Expr

/-! ### The main statement -/

/-- **A well-formed encoding means its tree.** Its records list exactly one tree over its leaves. In
every lawful monad, so for every way to keep state and to fail, evaluating the encoding is folding
that tree over the leaf values, operands before operators and from left to right; and a recorder sees
the calls of the fold. -/
theorem evaluate_eq_fold {e : Encoding α} (h : e.WellFormed) :
    ∃ t : Expr (Fin e.leaves.length), t.Proper ∧ t.listing (fun i => i.val) = e.ops ∧
      (∀ u : Expr (Fin e.leaves.length), u.listing (fun i => i.val) = e.ops → u = t) ∧
      (∀ (m : Type → Type) [Monad m] [LawfulMonad m] (β : Type) (ev : Evaluator m α β),
        (Specification.encoded e).evaluate ev
          = ExceptT.lift ((t.map e.leaves.get).fold ev)) ∧
      ∀ (β : Type) (ev : Evaluator Id α β),
        (Specification.encoded e).record ev 0
          = (.ok (.ok ((t.map e.leaves.get).fold ev)), (t.map e.leaves.get).calls ev) := by
  obtain ⟨t, hproper, hlisting⟩ := Expr.exists_listing_of_wellFormed h
  refine ⟨t, hproper, hlisting, fun u hu => ?_, ?_, ?_⟩
  · have hindex : Function.Injective fun i : Fin e.leaves.length => (i.val : Int) :=
      fun i j hij => Fin.ext (Int.ofNat.inj hij)
    exact Expr.listing_injective hindex (hu.trans hlisting.symm)
  · intro m _ _ β ev
    exact Encoding.evaluate_of_listing hlisting ev
  · intro β ev
    have hrecord := Expr.fold_recording ev (t.map e.leaves.get) []
    rw [Specification.record, Specification.evaluate, Encoding.evaluate_of_listing hlisting,
      ExceptT.run_lift, ExceptT.run_map, StateT.run_map, hrecord]
    rfl

/-- Leaves may be named out of order, twice, or not at all. -/
theorem evaluate_eq_fold_repeated :
    (⟨[.leaf 1, .leaf 0, .leaf 1, .join .conjunction 3, .negate], ["p", "q", "r"]⟩ :
        Encoding String).WellFormed ∧
      ∀ (m : Type → Type) [Monad m] [LawfulMonad m] (β : Type) (ev : Evaluator m String β),
        (Specification.encoded ⟨[.leaf 1, .leaf 0, .leaf 1, .join .conjunction 3, .negate],
            ["p", "q", "r"]⟩).evaluate ev
          = ExceptT.lift (do
            let first ← ev.leaf "q"
            let second ← ev.leaf "p"
            let third ← ev.leaf "q"
            let joined ← ev.join .conjunction [first, second, third]
            ev.negate joined) := by
  have hwell : (⟨[.leaf 1, .leaf 0, .leaf 1, .join .conjunction 3, .negate], ["p", "q", "r"]⟩ :
      Encoding String).WellFormed := by decide
  refine ⟨hwell, ?_⟩
  intro m _ _ β ev
  obtain ⟨t, -, -, honly, heval, -⟩ := evaluate_eq_fold hwell
  have ht := honly (.negate (.join .conjunction [.leaf 1, .leaf 0, .leaf 1])) (by simp)
  rw [heval, ← ht]
  simp [Expr.fold, Expr.foldList]

end PostfixSpec
