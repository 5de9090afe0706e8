import Mathlib.Data.List.Forall2
import PostfixSpec.Proofs.Evaluator.Fold

/-!
# Composition is a homomorphism

A composition lists the tree that joins the trees of its operands. The records of an operand are
moved past the leaves before it, and its leaves stand there in the leaves of the composition, so the
moved records still list the same tree of leaf values. That is all that evaluation depends on: a
composition is evaluated by evaluating its operands in order, each as if it stood alone, and then
joining their answers.
-/

namespace PostfixSpec

variable {α β : Type}

namespace Encoding

/-- An encoding lists a tree of leaf values if its records list the tree of their places. -/
def Lists (e : Encoding α) (t : Expr α) : Prop :=
  ∃ u : Expr (Fin e.leaves.length), u.listing (fun i => i.val) = e.ops ∧ u.map e.leaves.get = t

theorem Lists.evaluate {m : Type → Type} [Monad m] [LawfulMonad m] {e : Encoding α} {t : Expr α}
    (h : e.Lists t) (ev : Evaluator m α β) : e.evaluate ev = ExceptT.lift (t.fold ev) := by
  obtain ⟨u, hlisting, rfl⟩ := h
  exact evaluate_of_listing hlisting ev

theorem Lists.wellFormed {e : Encoding α} {t : Expr α} (h : e.Lists t) (ht : t.Proper) :
    e.WellFormed := by
  obtain ⟨u, hlisting, rfl⟩ := h
  have hu := Expr.wellFormed_listing (Expr.proper_map.mp ht)
  rwa [hlisting] at hu

theorem WellFormed.exists_lists {e : Encoding α} (h : e.WellFormed) :
    ∃ t, t.Proper ∧ e.Lists t := by
  obtain ⟨u, hproper, hlisting⟩ := Expr.exists_listing_of_wellFormed h
  exact ⟨u.map e.leaves.get, Expr.proper_map.mpr hproper, u, hlisting, rfl⟩

/-! ### What compositions list -/

theorem lists_leaf (value : α) : (leaf value).Lists (.leaf value) :=
  ⟨.leaf ⟨0, Nat.one_pos⟩, by simp [leaf], by simp [leaf]⟩

theorem Lists.negate {e : Encoding α} {t : Expr α} (h : e.Lists t) : e.negate.Lists t.negate := by
  obtain ⟨u, hlisting, rfl⟩ := h
  exact ⟨Expr.negate u, (Expr.listing_negate _ u).trans (congrArg (· ++ [Op.negate]) hlisting),
    Expr.map_negate _ u⟩

/-- Moved past the leaves before it, an encoding lists the same tree inside a longer list of
leaves. -/
theorem Lists.moved {e : Encoding α} {t : Expr α} (h : e.Lists t) {all before after : List α}
    (hall : all = before ++ e.leaves ++ after) :
    ∃ u : Expr (Fin all.length), u.listing (fun i => i.val) = e.ops.map (.rebased before.length) ∧
      u.map all.get = t := by
  subst hall
  obtain ⟨u, hlisting, rfl⟩ := h
  let all := before ++ e.leaves ++ after
  have hlength : all.length = before.length + e.leaves.length + after.length := by
    rw [List.length_append, List.length_append]
  let shift (i : Fin e.leaves.length) : Fin all.length := ⟨i.val + before.length, by omega⟩
  -- Behind the leaves before it, every place holds the leaf that it held in the encoding alone.
  have hget : all.get ∘ shift = e.leaves.get := by
    funext i
    simp [all, shift]
  refine ⟨u.map shift, ?_, by rw [Expr.map_map, hget]⟩
  have hshift : (fun i : Fin all.length => (i.val : Int)) ∘ shift
      = (· + (before.length : Int)) ∘ fun i : Fin e.leaves.length => (i.val : Int) := by
    funext i
    exact Int.natCast_add _ _
  rw [← hlisting, Expr.listing, Expr.map_map, hshift, ← Expr.map_map, Expr.toOps_map_add]
  rfl

private theorem exists_listing_movedOps {parts : List (Encoding α)} {ts : List (Expr α)}
    (h : List.Forall₂ Lists parts ts) {all before : List α}
    (hall : all = before ++ parts.flatMap (·.leaves)) :
    ∃ us : List (Expr (Fin all.length)),
      us.flatMap (Expr.listing fun i => i.val) = movedOps before.length parts ∧
      us.map (Expr.map all.get) = ts := by
  induction h generalizing before with
  | nil => exact ⟨[], rfl, rfl⟩
  | @cons e t parts ts hfirst hrest ih =>
      rw [List.flatMap_cons, ← List.append_assoc] at hall
      obtain ⟨u, hlisting, hmap⟩ := hfirst.moved hall
      obtain ⟨us, hlistings, hmaps⟩ := ih hall
      refine ⟨u :: us, ?_, by rw [List.map_cons, hmap, hmaps]⟩
      rw [List.flatMap_cons, hlisting, hlistings, movedOps, List.length_append]

/-- **A composition lists the join of what its parts list.** -/
theorem lists_combine (c : Connective) {parts : List (Encoding α)} {ts : List (Expr α)}
    (h : List.Forall₂ Lists parts ts) : (combine c parts).Lists (.join c ts) := by
  have hall : (combine c parts).leaves = [] ++ parts.flatMap (·.leaves) := combine_leaves c parts
  obtain ⟨us, hlistings, hmaps⟩ := exists_listing_movedOps h hall
  refine ⟨.join c us, ?_, by rw [Expr.map_join, hmaps]⟩
  have hlength : us.length = parts.length := by
    rw [h.length_eq, ← hmaps, List.length_map]
  rw [Expr.listing_join, hlistings, hlength, combine_ops]
  rfl

/-- Well-formed encodings list proper trees, one each. -/
theorem exists_lists_of_wellFormed {parts : List (Encoding α)} (h : ∀ e ∈ parts, e.WellFormed) :
    ∃ ts : List (Expr α), List.Forall₂ Lists parts ts ∧ ∀ t ∈ ts, t.Proper := by
  induction parts with
  | nil => exact ⟨[], .nil, fun t ht => absurd ht List.not_mem_nil⟩
  | cons e parts ih =>
      obtain ⟨hfirst, hrest⟩ := List.forall_mem_cons.mp h
      obtain ⟨t, ht, hlists⟩ := hfirst.exists_lists
      obtain ⟨ts, hts, hproper⟩ := ih hrest
      exact ⟨t :: ts, .cons hlists hts, List.forall_mem_cons.mpr ⟨ht, hproper⟩⟩

/-- Encodings are evaluated in order as the trees that they list are folded in order. -/
theorem mapM_evaluate {m : Type → Type} [Monad m] [LawfulMonad m] {parts : List (Encoding α)}
    {ts : List (Expr α)} (h : List.Forall₂ Lists parts ts) (ev : Evaluator m α β) :
    (parts.mapM fun e => e.evaluate ev) = ExceptT.lift (ts.mapM (Expr.fold ev)) := by
  induction h with
  | nil => simp
  | cons hfirst _ ih =>
      rw [List.mapM_cons, hfirst.evaluate, ih, List.mapM_cons]
      simp only [ExceptT.lift_bind, ExceptT.lift_pure]

end Encoding

namespace Specification

/-- Whether a specification can be used: it is not zero, and its encoding is well formed. -/
def WellFormed : Specification α → Prop
  | zero => False
  | encoded e => e.WellFormed

instance : (spec : Specification α) → Decidable spec.WellFormed
  | zero => inferInstanceAs (Decidable False)
  | encoded e => inferInstanceAs (Decidable e.WellFormed)

theorem exists_parts {specs : List (Specification α)} (h : ∀ s ∈ specs, s.WellFormed) :
    ∃ parts : List (Encoding α), specs = parts.map encoded ∧ ∀ e ∈ parts, e.WellFormed := by
  induction specs with
  | nil => exact ⟨[], rfl, fun e he => absurd he List.not_mem_nil⟩
  | cons s specs ih =>
      obtain ⟨hfirst, hrest⟩ := List.forall_mem_cons.mp h
      obtain ⟨parts, rfl, hparts⟩ := ih hrest
      cases s with
      | zero => exact hfirst.elim
      | encoded e => exact ⟨e :: parts, rfl, List.forall_mem_cons.mpr ⟨hfirst, hparts⟩⟩

theorem mapM_encoding? (parts : List (Encoding α)) :
    (parts.map encoded).mapM encoding? = some parts := by
  rw [mapM_eq_some_iff, List.map_map]
  rfl

/-- Operands that are not zero are joined as their encodings are. -/
theorem join_encoded (c : Connective) {parts : List (Encoding α)} (hne : parts ≠ []) :
    join c (parts.map encoded) = .ok (encoded (.combine c parts)) := by
  have hsome : (parts.map encoded).isEmpty = false := by simpa using hne
  rw [join, operands, hsome, mapM_encoding?]
  rfl

/-- Joining encoded trees gives the encoding of the joined tree. -/
theorem join_encode (c : Connective) {ts : List (Expr α)} (hne : ts ≠ []) :
    join c (ts.map fun t => .encoded t.encode) = .ok (.encoded (Expr.join c ts).encode) := by
  have hparts : ts.map Expr.encode ≠ [] := mt List.map_eq_nil_iff.mp hne
  have hjoin := join_encoded c hparts
  rwa [List.map_map, ← Expr.encode_join] at hjoin

/-- **Composition is a homomorphism.** Joining at least one specification, all of them well formed,
gives a well-formed specification. In every lawful monad it is evaluated by evaluating the operands
from left to right, each as it is evaluated alone, and then joining their answers. The same holds of
a negation and its operand. -/
theorem evaluate_composition :
    (∀ (c : Connective) (specs : List (Specification α)), specs ≠ [] →
      (∀ s ∈ specs, s.WellFormed) →
      ∃ joined, join c specs = .ok joined ∧ joined.WellFormed ∧
        ∀ (m : Type → Type) [Monad m] [LawfulMonad m] (β : Type) (ev : Evaluator m α β),
          joined.evaluate ev = (do
            let answers ← specs.mapM fun s => s.evaluate ev
            ExceptT.lift (ev.join c answers))) ∧
    ∀ spec : Specification α, spec.WellFormed →
      ∃ negated, spec.negation = .ok negated ∧ negated.WellFormed ∧
        ∀ (m : Type → Type) [Monad m] [LawfulMonad m] (β : Type) (ev : Evaluator m α β),
          negated.evaluate ev = (do
            let answer ← spec.evaluate ev
            ExceptT.lift (ev.negate answer)) := by
  constructor
  · intro c specs hne hspecs
    obtain ⟨parts, rfl, hparts⟩ := exists_parts hspecs
    have hparts_ne : parts ≠ [] := by simpa using hne
    obtain ⟨ts, hlists, hproper⟩ := Encoding.exists_lists_of_wellFormed hparts
    have hts_ne : ts ≠ [] := by
      rintro rfl
      exact hparts_ne (List.forall₂_nil_right_iff.mp hlists)
    have hjoined := Encoding.lists_combine c hlists
    refine ⟨_, join_encoded c hparts_ne, hjoined.wellFormed (Expr.proper_join.mpr ⟨hts_ne, hproper⟩),
      ?_⟩
    intro m _ _ β ev
    have hanswers : ((parts.map encoded).mapM fun s => s.evaluate ev)
        = ExceptT.lift (ts.mapM (Expr.fold ev)) := by
      rw [List.mapM_map]
      exact Encoding.mapM_evaluate hlists ev
    rw [evaluate, hjoined.evaluate, hanswers, Expr.fold, Expr.foldList_eq, ExceptT.lift_bind]
  · intro spec hspec
    cases spec with
    | zero => exact hspec.elim
    | encoded e =>
        obtain ⟨t, ht, hlists⟩ := Encoding.WellFormed.exists_lists hspec
        refine ⟨encoded e.negate, rfl, hlists.negate.wellFormed (Expr.proper_negate.mpr ht), ?_⟩
        intro m _ _ β ev
        rw [evaluate, evaluate, hlists.negate.evaluate, hlists.evaluate, Expr.fold,
          ExceptT.lift_bind]

/-- The operands of a composition may name their leaves twice, out of order, or not at all. -/
theorem evaluate_composition_handmade :
    (∀ s ∈ [encoded ⟨[.leaf 1, .leaf 1, .join .disjunction 2], ["p", "q"]⟩,
        encoded ⟨[.leaf 2, .leaf 0, .join .conjunction 2], ["r", "s", "t"]⟩], s.WellFormed) ∧
    ∀ (m : Type → Type) [Monad m] [LawfulMonad m] (β : Type) (ev : Evaluator m String β),
      (encoded ⟨[.leaf 1, .leaf 1, .join .disjunction 2, .leaf 4, .leaf 2, .join .conjunction 2,
          .join .conjunction 2], ["p", "q", "r", "s", "t"]⟩).evaluate ev = (do
        let first ← (encoded ⟨[.leaf 1, .leaf 1, .join .disjunction 2], ["p", "q"]⟩).evaluate ev
        let second ←
          (encoded ⟨[.leaf 2, .leaf 0, .join .conjunction 2], ["r", "s", "t"]⟩).evaluate ev
        ExceptT.lift (ev.join .conjunction [first, second])) := by
  have hwell : ∀ s ∈ [encoded ⟨[.leaf 1, .leaf 1, .join .disjunction 2], ["p", "q"]⟩,
      encoded ⟨[.leaf 2, .leaf 0, .join .conjunction 2], ["r", "s", "t"]⟩], s.WellFormed := by
    decide
  refine ⟨hwell, ?_⟩
  intro m _ _ β ev
  obtain ⟨joined, hjoined, -, heval⟩ :=
    evaluate_composition.1 .conjunction _ (List.cons_ne_nil _ _) hwell
  have hencoded : joined = encoded ⟨[.leaf 1, .leaf 1, .join .disjunction 2, .leaf 4, .leaf 2,
      .join .conjunction 2, .join .conjunction 2], ["p", "q", "r", "s", "t"]⟩ :=
    Except.ok.inj (hjoined.symm.trans (by rfl))
  rw [← hencoded]
  simpa using heval m β ev

end Specification

end PostfixSpec
