import PostfixSpec.Proofs.Expr.Binary
import PostfixSpec.Proofs.Expr.Subexpression
import PostfixSpec.Proofs.Specification.Canonical
import PostfixSpec.Trace

/-!
# Combinations and their reports

A combination of specifications reports its kind and its size. The records tell afterwards which
combinations were made, because each joining record ends the subexpression that it was made for, and a
part has the same size wherever it is moved to. So the reports of composing a tree two by two can be
read off its encoding.
-/

namespace PostfixSpec

variable {α : Type}

/-! ### Combinations that records stand for -/

namespace Op

/-- The report of the combination that ends some records, if a joining record does. -/
def combination? (ops : List Op) : Option String :=
  match ops.getLast? with
  | some (.join c _) =>
    some (s!"Combined 2 specifications under {c.recordName}: " ++
      s!"{(references (subexpression ops)).length} leafs, {(subexpression ops).length} ops")
  | _ => none

/-- The reports of combinations that a stream of records stands for: one for each joining record, in
the order of these records. -/
def combinations (ops : List Op) : List String := ops.inits.filterMap combination?

theorem combinations_append_singleton (ops : List Op) (op : Op) :
    combinations (ops ++ [op]) = combinations ops ++ (combination? (ops ++ [op])).toList := by
  rw [combinations, List.inits_append, List.filterMap_append]
  cases hlast : combination? (ops ++ [op]) <;> simp [combinations, hlast]

/-- What stands before a stream that needs nothing from there adds its own combinations and changes
none. -/
theorem combinations_append (before : List Op) {ops : List Op}
    (hcounts : ∀ op ∈ ops, op.HasOperands) {depth : Int} (h : replay 0 ops = some depth) :
    combinations (before ++ ops) = combinations before ++ combinations ops := by
  induction ops using List.reverseRecOn generalizing depth with
  | nil => simp [combinations, combination?]
  | append_singleton ops op ih =>
      have hlast : combination? (before ++ (ops ++ [op])) = combination? (ops ++ [op]) := by
        rw [combination?, subexpression_append before (by simp) hcounts h]
        simp [combination?]
      rw [replay_append] at h
      obtain ⟨between, hbefore, -⟩ := Option.bind_eq_some_iff.mp h
      have hrest := ih (fun op hop => hcounts op (List.mem_append_left _ hop)) hbefore
      rw [← List.append_assoc, combinations_append_singleton, combinations_append_singleton,
        List.append_assoc, hlast, hrest, List.append_assoc]

theorem hasOperands_rebased {offset : Int} {op : Op} :
    (op.rebased offset).HasOperands ↔ op.HasOperands := by
  cases op <;> rfl

/-- A report counts leaf records and does not say which leaves they point at. -/
theorem combination?_map_rebased (offset : Int) (ops : List Op) :
    combination? (ops.map (·.rebased offset)) = combination? ops := by
  rw [combination?, combination?, subexpression_map_rebased, references_rebased, List.length_map,
    List.length_map, List.getLast?_map]
  cases ops.getLast? with
  | none => rfl
  | some op => cases op <;> rfl

theorem combinations_map_rebased (offset : Int) (ops : List Op) :
    combinations (ops.map (·.rebased offset)) = combinations ops := by
  rw [combinations, combinations, List.map_inits, List.filterMap_map]
  exact List.filterMap_congr fun part _ => combination?_map_rebased offset part

end Op

namespace Encoding

theorem Canonical.length_references {e : Encoding α} (h : e.Canonical) :
    (Op.references e.ops).length = e.leaves.length := by
  rw [h.1, List.length_map, List.length_range]

theorem combination?_combine (c : Connective) {left right : Encoding α} (hleft : left.Canonical)
    (hright : right.Canonical) :
    Op.combination? (combine c [left, right]).ops
      = some ((combine c [left, right]).combinedMessage c 2) := by
  have hjoined : (combine c [left, right]).Canonical :=
    canonical_combine c (by simp) (by simp [hleft, hright])
  have hwhole : Op.subexpression (combine c [left, right]).ops = (combine c [left, right]).ops :=
    Op.subexpression_eq List.suffix_rfl hjoined.2.2
  have hlast : (combine c [left, right]).ops.getLast? = some (.join c 2) := by
    rw [combine_ops, List.getLast?_concat]
    rfl
  rw [Op.combination?, hlast, hwhole, hjoined.length_references]
  cases c <;> rfl

/-- A combination stands for the combinations of its parts and for one more, which has the size of the
whole. -/
theorem combinations_combine (c : Connective) {left right : Encoding α} (hleft : left.Canonical)
    (hright : right.Canonical) :
    Op.combinations (combine c [left, right]).ops
      = Op.combinations left.ops ++ Op.combinations right.ops
        ++ [(combine c [left, right]).combinedMessage c 2] := by
  have hparts : movedOps 0 [left, right]
      = left.ops ++ right.ops.map (·.rebased left.leaves.length) := by
    simp [movedOps]
  have hmoved : ∀ op ∈ right.ops.map (·.rebased left.leaves.length), op.HasOperands :=
    List.forall_mem_map.mpr fun op hop => Op.hasOperands_rebased.mpr (hright.2.1 op hop)
  have hreplay := (Op.replay_map_rebased left.leaves.length 0 right.ops).trans hright.2.2
  have hlast := combination?_combine c hleft hright
  rw [combine_ops, hparts] at hlast
  rw [combine_ops, hparts, Op.combinations_append_singleton, Op.combinations_append _ hmoved hreplay,
    Op.combinations_map_rebased, hlast]
  rfl

end Encoding

/-! ### What is said along a tree -/

/-- Answers with encodings and reports each combination that makes one. -/
def Evaluator.reporting : Evaluator Traced α (Encoding α) where
  name := "Reporting"
  leaf value := pure (.leaf value)
  negate e := pure e.negate
  join := Encoding.combineTraced

namespace Expr

/-- What is said while a tree is composed from its leaves up. -/
def events (t : Expr α) : List Event := (t.fold Evaluator.reporting).events

@[simp] theorem events_leaf (value : α) : (leaf value).events = [] := by
  rw [events, fold]
  rfl

@[simp] theorem events_negate (t : Expr α) : t.negate.events = t.events := by
  rw [events, fold, Traced.bind_events]
  exact List.append_nil _

theorem fold_reporting_pair (c : Connective) (t u : Expr α) :
    (Expr.join c [t, u]).fold Evaluator.reporting
      = t.fold Evaluator.reporting >>= fun left =>
        u.fold Evaluator.reporting >>= fun right => Encoding.combineTraced c [left, right] := by
  simp only [fold, foldList, bind_assoc, pure_bind]
  rfl

/-- Reports do not change what is composed. -/
theorem Binary.fold_reporting_value {t : Expr α} (h : t.Binary) :
    (t.fold Evaluator.reporting).value = t.encode := by
  induction h with
  | leaf value =>
      rw [fold, encode_leaf]
      rfl
  | negate _ ih =>
      rw [fold, encode_negate, ← ih]
      rfl
  | join c _ _ iht ihu =>
      rw [fold_reporting_pair, encode_join, List.map_cons, List.map_cons, List.map_nil, ← iht, ← ihu]
      rfl

theorem Binary.events_pair (c : Connective) {t u : Expr α} (ht : t.Binary) (hu : u.Binary) :
    (Expr.join c [t, u]).events = t.events ++ u.events
      ++ [.record .debug ((Encoding.combine c [t.encode, u.encode]).combinedMessage c 2)] := by
  rw [events, fold_reporting_pair, ← ht.fold_reporting_value, ← hu.fold_reporting_value,
    List.append_assoc]
  rfl

/-- What is said while a binary tree is composed are the combinations that its encoding stands for. -/
theorem Binary.events_eq {t : Expr α} (h : t.Binary) :
    t.events = (Op.combinations t.encode.ops).map (.record .debug) := by
  induction h with
  | leaf value =>
      rw [events_leaf, encode_leaf]
      rfl
  | negate _ ih =>
      rw [events_negate, ih, encode_negate, Encoding.negate, Op.combinations_append_singleton]
      simp [Op.combination?]
  | join c ht hu iht ihu =>
      rw [Binary.events_pair c ht hu, iht, ihu, encode_join, List.map_cons, List.map_cons,
        List.map_nil, Encoding.combinations_combine c (canonical_encode ht.proper)
          (canonical_encode hu.proper), List.map_append, List.map_append]
      rfl

end Expr

end PostfixSpec
