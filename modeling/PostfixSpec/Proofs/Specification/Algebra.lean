import PostfixSpec.Proofs.Evaluator.Truth
import PostfixSpec.Proofs.Specification.Equality

/-!
# The boolean algebra of compositions

Compositions that are different streams over differently placed leaves may still say the same. Negating
twice changes nothing, and neither does joining a single operand. A negated conjunction is the
disjunction of the negated operands, and the other way round. Operands may be joined in consecutive
groups first: the groups are then joined to the value of all operands, and the leaves keep their order.

The laws hold of trees, where they are laws of truth values. They carry over because the constructors
make the encodings of trees.
-/

namespace PostfixSpec

/-- The connective that negation exchanges with this one. -/
def Connective.dual : Connective → Connective
  | conjunction => disjunction
  | disjunction => conjunction

/-! ### Laws of trees -/

namespace Expr

variable {α : Type} (names : List String)

theorem holds_negate_negate (t : Expr Leaf) : t.negate.negate.holds names = t.holds names := by
  rw [holds_negate, holds_negate, Bool.not_not]

theorem holds_join_singleton (c : Connective) (t : Expr Leaf) :
    (join c [t]).holds names = t.holds names := by
  cases c <;> simp

/-- **Negation exchanges the connectives.** -/
theorem holds_negate_join (c : Connective) (ts : List (Expr Leaf)) :
    (join c ts).negate.holds names = (join c.dual (ts.map negate)).holds names := by
  have hnegated : holds names ∘ negate = fun t => !t.holds names := by
    funext t
    exact holds_negate names t
  cases c with
  | conjunction =>
      rw [holds_negate, holds_conjunction, Connective.dual, holds_disjunction, List.any_map, hnegated,
        List.not_all_eq_any_not]
  | disjunction =>
      rw [holds_negate, holds_disjunction, Connective.dual, holds_conjunction, List.all_map, hnegated,
        List.not_any_eq_all_not]

/-- **Joining is associative:** groups of operands may be joined first. -/
theorem holds_join_groups (c : Connective) (groups : List (List (Expr Leaf))) :
    (join c (groups.map (join c))).holds names = (join c groups.flatten).holds names := by
  cases c with
  | conjunction =>
      have hgroup : holds names ∘ join .conjunction = fun ts => ts.all (holds names) := by
        funext ts
        exact holds_conjunction names ts
      rw [holds_conjunction, holds_conjunction, List.all_map, hgroup, List.all_flatten]
  | disjunction =>
      have hgroup : holds names ∘ join .disjunction = fun ts => ts.any (holds names) := by
        funext ts
        exact holds_disjunction names ts
      rw [holds_disjunction, holds_disjunction, List.any_map, hgroup, List.any_flatten]

theorem leaves_join_groups (c : Connective) (groups : List (List (Expr α))) :
    (join c (groups.map (join c))).leaves = groups.flatten.flatMap leaves := by
  rw [leaves_join, List.flatMap_map]
  induction groups with
  | nil => rfl
  | cons ts groups ih =>
      rw [List.flatMap_cons, ih, leaves_join, List.flatten_cons, List.flatMap_append]

end Expr

/-! ### Constructions -/

namespace Specification

variable {α : Type}

/-- Whether a construction succeeds and what it makes has a truth value. -/
def Yields (made : Except CompositionError (Specification Leaf)) (names : List String)
    (value : Bool) : Prop :=
  ∃ s, made = .ok s ∧ s.truth names = .ok value

/-- Whether a construction succeeds and what it makes has these leaves, in the order in which they are
evaluated. -/
def Gathers (made : Except CompositionError (Specification α)) (leaves : List α) : Prop :=
  ∃ s, made = .ok s ∧ (s.evaluate Evaluator.collect).run = .ok leaves

theorem yields_encode {made : Except CompositionError (Specification Leaf)} {t : Expr Leaf}
    (h : made = .ok (.encoded t.encode)) (names : List String) : Yields made names (t.holds names) :=
  ⟨_, h, t.truth_encode names⟩

theorem gathers_encode {made : Except CompositionError (Specification α)} {t : Expr α}
    (h : made = .ok (.encoded t.encode)) : Gathers made t.leaves := by
  refine ⟨_, h, ?_⟩
  rw [Expr.evaluate_encode]
  rfl

theorem negation_encode (t : Expr α) :
    (encoded t.encode).negation = .ok (.encoded t.negate.encode) := by
  rw [Expr.encode_negate]
  rfl

theorem mapM_negation_encode (ts : List (Expr α)) :
    (ts.map fun t => .encoded t.encode).mapM negation
      = .ok ((ts.map Expr.negate).map fun t => .encoded t.encode) := by
  rw [List.mapM_map, List.map_map]
  exact mapM_of_pure fun t _ => negation_encode t

/-- Groups of encoded trees are joined to the encodings of joined trees. -/
theorem mapM_join_encode (c : Connective) {groups : List (List (Expr α))}
    (hgroups : ∀ ts ∈ groups, ts ≠ []) :
    (groups.map fun ts => ts.map fun t => .encoded t.encode).mapM (join c)
      = .ok ((groups.map (Expr.join c)).map fun t => .encoded t.encode) := by
  rw [List.mapM_map, List.map_map]
  exact mapM_of_pure fun ts hts => join_encode c (hgroups ts hts)

/-- A split of encoded trees into groups is a split of the trees. -/
theorem exists_groups_of_flatten {groups : List (List (Specification α))} {ts : List (Expr α)}
    (h : groups.flatten = ts.map fun t => .encoded t.encode) :
    ∃ tss : List (List (Expr α)), tss.flatten = ts ∧
      groups = tss.map fun ts => ts.map fun t => .encoded t.encode := by
  induction groups generalizing ts with
  | nil =>
      have hts : ts = [] := List.map_eq_nil_iff.mp h.symm
      exact ⟨[], hts.symm, rfl⟩
  | cons group groups ih =>
      rw [List.flatten_cons] at h
      obtain ⟨first, rest, rfl, rfl, hrest⟩ := List.map_eq_append_iff.mp h.symm
      obtain ⟨tss, rfl, rfl⟩ := ih hrest.symm
      exact ⟨first :: tss, rfl, rfl⟩

/-! ### The main statement -/

/-- **Compositions obey the laws of boolean algebra.** Take at least one specification that the
constructors make, and any names that hold. Negating each twice, or joining it alone, keeps its value.
A negated composition has the value of the composition of the negated operands with the other
connective. Joining the operands in consecutive groups first changes neither the value nor the leaves
in their order. -/
theorem composition_algebra {specs : List (Specification Leaf)} (hne : specs ≠ [])
    (hspecs : ∀ s ∈ specs, s.Constructed) (names : List String) :
    (∀ s ∈ specs, ∃ value, s.truth names = .ok value ∧
      Yields (s.negation >>= negation) names value ∧ ∀ c, Yields (join c [s]) names value) ∧
    (∀ c : Connective, ∃ value, Yields (join c specs >>= negation) names value ∧
      Yields (specs.mapM negation >>= join c.dual) names value) ∧
    ∃ leaves, ∀ (c : Connective) (groups : List (List (Specification Leaf))),
      groups.flatten = specs → (∀ group ∈ groups, group ≠ []) →
      Gathers (join c specs) leaves ∧ Gathers (groups.mapM (join c) >>= join c) leaves ∧
      ∃ value, Yields (join c specs) names value ∧
        Yields (groups.mapM (join c) >>= join c) names value := by
  obtain ⟨ts, rfl⟩ := exists_exprs_of_constructed hspecs
  have hts : ts ≠ [] := mt List.map_eq_nil_iff.mpr hne
  refine ⟨?_, fun c => ?_, ts.flatMap Expr.leaves, fun c groups hflatten hgroups => ?_⟩
  · intro s hs
    obtain ⟨t, -, rfl⟩ := List.mem_map.mp hs
    have htwice : ((encoded t.encode).negation >>= negation)
        = .ok (.encoded t.negate.negate.encode) := by
      rw [negation_encode]
      exact negation_encode t.negate
    refine ⟨t.holds names, t.truth_encode names, ?_, fun c => ?_⟩
    · rw [← Expr.holds_negate_negate]
      exact yields_encode htwice names
    · rw [← Expr.holds_join_singleton names c]
      exact yields_encode (join_encode c (List.cons_ne_nil t [])) names
  · have hleft : (join c (ts.map fun t => .encoded t.encode) >>= negation)
        = .ok (.encoded (Expr.join c ts).negate.encode) := by
      rw [join_encode c hts]
      exact negation_encode (Expr.join c ts)
    have hright : ((ts.map fun t => .encoded t.encode).mapM negation >>= join c.dual)
        = .ok (.encoded (Expr.join c.dual (ts.map Expr.negate)).encode) := by
      rw [mapM_negation_encode]
      exact join_encode c.dual (mt List.map_eq_nil_iff.mp hts)
    refine ⟨_, yields_encode hleft names, ?_⟩
    rw [Expr.holds_negate_join]
    exact yields_encode hright names
  · obtain ⟨tss, rfl, rfl⟩ := exists_groups_of_flatten hflatten
    have htss : ∀ ts ∈ tss, ts ≠ [] := fun ts hmem =>
      mt List.map_eq_nil_iff.mpr (hgroups _ (List.mem_map_of_mem hmem))
    have htss_ne : tss ≠ [] := by
      rintro rfl
      exact hts rfl
    have hflat := join_encode c hts
    have hnested : ((tss.map fun ts => ts.map fun t => .encoded t.encode).mapM (join c) >>= join c)
        = .ok (.encoded (Expr.join c (tss.map (Expr.join c))).encode) := by
      rw [mapM_join_encode c htss]
      exact join_encode c (mt List.map_eq_nil_iff.mp htss_ne)
    refine ⟨?_, ?_, _, yields_encode hflat names, ?_⟩
    · rw [← Expr.leaves_join c]
      exact gathers_encode hflat
    · rw [← Expr.leaves_join_groups c]
      exact gathers_encode hnested
    · rw [← Expr.holds_join_groups]
      exact yields_encode hnested names

/-- Three operands of different shapes, joined at once and in two groups. The groups place the leaves
at other offsets, and still the composition holds and has the same leaves. -/
theorem composition_algebra_grouped :
    ∃ specs, specs = [leaf (Leaf.text "p"), encoded ⟨[.leaf 0, .negate], [.text "q"]⟩,
        encoded ⟨[.leaf 0, .leaf 1, .join .disjunction 2], [.text "q", .bool true]⟩] ∧
      (∀ s ∈ specs, s.Constructed) ∧
      Gathers ([specs.take 1, specs.drop 1].mapM (join .conjunction) >>= join .conjunction)
        [.text "p", .text "q", .text "q", .bool true] ∧
      Yields ([specs.take 1, specs.drop 1].mapM (join .conjunction) >>= join .conjunction)
        ["p"] true := by
  let specs := [leaf (Leaf.text "p"), encoded ⟨[.leaf 0, .negate], [.text "q"]⟩,
    encoded ⟨[.leaf 0, .leaf 1, .join .disjunction 2], [.text "q", .bool true]⟩]
  have hspecs : ∀ s ∈ specs, s.Constructed := by
    rw [List.forall_mem_cons, List.forall_mem_cons, List.forall_mem_singleton]
    exact ⟨⟨.leaf (.text "p"), rfl⟩, ⟨.negate (.leaf (.text "q")), rfl⟩,
      ⟨.join .disjunction [.leaf (.text "q"), .leaf (.bool true)], rfl⟩⟩
  have hgroups : ∀ group ∈ [specs.take 1, specs.drop 1], group ≠ [] := by simp [specs]
  obtain ⟨-, -, leaves, hall⟩ := composition_algebra (List.cons_ne_nil _ _) hspecs ["p"]
  obtain ⟨⟨flat, hflat, hleaves⟩, hgathers, value, ⟨flat', hflat', hvalue⟩, hyields⟩ :=
    hall .conjunction [specs.take 1, specs.drop 1] rfl hgroups
  -- What all operands joined at once say is computed; the groups follow by the laws.
  cases hflat
  cases hflat'
  cases hleaves
  cases hvalue
  exact ⟨specs, rfl, hspecs, hgathers, hyields⟩

end Specification

end PostfixSpec
