import Mathlib.Data.Set.List
import PostfixSpec.Proofs.Formula.Acceptance
import PostfixSpec.Proofs.Formula.Derivation
import PostfixSpec.Proofs.Specification.Canonical

/-!
# Histories of construction

Specifications are made one after the other, each from those made before it, and a request that fails
makes nothing. Whatever is requested, every specification that is made is zero or canonical, because one
request keeps it so. Nothing more can be said of them: each canonical encoding is the last thing made in
some history of leaves and compositions, which makes the tree that it encodes from the leaves up.
-/

namespace PostfixSpec

variable {α : Type}

namespace Specification

/-! ### When compositions fail -/

theorem mapM_encoding?_eq_none_iff {specs : List (Specification α)} :
    specs.mapM encoding? = none ↔ .zero ∈ specs := by
  rw [mapM_eq_none_iff]
  constructor
  · rintro ⟨s, hs, hnone⟩
    cases s with
    | zero => exact hs
    | encoded e => exact nomatch hnone
  · intro hzero
    exact ⟨.zero, hzero, rfl⟩

/-- Joining fails exactly without operands and with a zero one. -/
theorem join_eq_error_iff {c : Connective} {specs : List (Specification α)} :
    (∃ error, join c specs = .error error) ↔ specs = [] ∨ .zero ∈ specs := by
  rw [← mapM_encoding?_eq_none_iff, join, operands]
  cases specs with
  | nil => exact iff_of_true ⟨_, rfl⟩ (.inl rfl)
  | cons s specs =>
      rw [List.isEmpty_cons]
      cases (s :: specs).mapM encoding? with
      | none => exact iff_of_true ⟨_, rfl⟩ (.inr rfl)
      | some parts =>
          refine iff_of_false ?_ (by simp)
          rintro ⟨error, herror⟩
          cases herror

theorem exists_of_join_eq_ok {c : Connective} {specs : List (Specification α)} {s : Specification α}
    (h : join c specs = .ok s) :
    ∃ parts : List (Encoding α), parts ≠ [] ∧ specs = parts.map .encoded ∧
      s = .encoded (.combine c parts) := by
  have hok : ¬ (specs = [] ∨ .zero ∈ specs) := by
    rw [← join_eq_error_iff (c := c), h]
    rintro ⟨error, herror⟩
    cases herror
  obtain ⟨hne, hzero⟩ := not_or.mp hok
  have hencoded : ∀ t ∈ specs, t ∈ Set.range (encoded (α := α)) := by
    intro t ht
    cases t with
    | zero => exact absurd ht hzero
    | encoded e => exact ⟨e, rfl⟩
  obtain ⟨parts, rfl⟩ := (Set.range_list_map encoded).ge hencoded
  have hparts : parts ≠ [] := mt List.map_eq_nil_iff.mpr hne
  exact ⟨parts, hparts, rfl, Except.ok.inj (h.symm.trans (join_encoded c hparts))⟩

theorem negation_eq_error_iff {s : Specification α} :
    (∃ error, s.negation = .error error) ↔ s = .zero := by
  cases s with
  | zero => exact iff_of_true ⟨_, rfl⟩ rfl
  | encoded e =>
      refine iff_of_false ?_ (fun hzero => nomatch hzero)
      rintro ⟨error, herror⟩
      cases herror

/-- Whether a specification is zero or has a canonical encoding. -/
def Canonical : Specification α → Prop
  | zero => True
  | encoded e => e.Canonical

theorem Canonical.negation {s t : Specification α} (h : s.Canonical) (ht : s.negation = .ok t) :
    t.Canonical := by
  cases s with
  | zero => exact nomatch ht
  | encoded e => exact Except.ok.inj ht ▸ Encoding.Canonical.negate h

theorem canonical_join {c : Connective} {specs : List (Specification α)} {t : Specification α}
    (h : ∀ s ∈ specs, s.Canonical) (ht : join c specs = .ok t) : t.Canonical := by
  obtain ⟨parts, hne, rfl, rfl⟩ := exists_of_join_eq_ok ht
  exact Encoding.canonical_combine c hne fun e he => h _ (List.mem_map_of_mem he)

end Specification

theorem Formula.canonical_of_parse {text : String} {e : Encoding Leaf} (h : parse text = .ok e) :
    e.Canonical := by
  obtain ⟨-, s, -, rfl⟩ := parse_eq_ok_iff.mp h
  rw [← s.encode_expr]
  exact Expr.canonical_encode s.binary_expr.proper

namespace History

/-- One call of a constructor. An operand is called by its place among the specifications made so
far. -/
inductive Request (α : Type) where
  | zero
  | leaf (value : α)
  | negation (operand : Nat)
  | join (connective : Connective) (operands : List Nat)
  | formula (text : String)

/-- Why a request makes nothing. -/
inductive Refusal where
  | composition (error : CompositionError)
  | formula (error : Formula.ParseError)

/-- The specification at a place. Where nothing was made yet stands the zero specification, which is
always at hand. -/
def operand (made : List (Specification α)) (place : Nat) : Specification α := made.getD place .zero

variable (embed : Leaf → α)

/-- The answer to a request. Leaves may be of any kind in which those of formulas are found. -/
def answer (made : List (Specification α)) : Request α → Except Refusal (Specification α)
  | .zero => .ok .zero
  | .leaf value => .ok (.leaf value)
  | .negation place => (operand made place).negation.mapError .composition
  | .join c places => (Specification.join c (places.map (operand made))).mapError .composition
  | .formula text =>
    ((Formula.parse text).mapError .formula).map fun e => .encoded (e.map embed)

/-- The specifications made after one more request. -/
def perform (made : List (Specification α)) (request : Request α) : List (Specification α) :=
  match answer embed made request with
  | .ok s => made ++ [s]
  | .error _ => made

/-- The specifications made by some requests, in order. -/
def run (made : List (Specification α)) (requests : List (Request α)) : List (Specification α) :=
  requests.foldl (perform embed) made

/-! ### What is made is canonical -/

theorem canonical_operand {made : List (Specification α)} (h : ∀ s ∈ made, s.Canonical)
    (place : Nat) : (operand made place).Canonical := by
  rw [operand, List.getD_eq_getElem?_getD]
  cases hplace : made[place]? with
  | none => exact trivial
  | some s => exact h s (List.mem_of_getElem? hplace)

private theorem eq_ok_of_mapError {ε δ γ : Type} {f : ε → δ} {x : Except ε γ} {value : γ}
    (h : x.mapError f = .ok value) : x = .ok value := by
  cases x with
  | error error => cases h
  | ok value => rw [Except.ok.inj h]

theorem canonical_answer {made : List (Specification α)} (h : ∀ s ∈ made, s.Canonical)
    {request : Request α} {s : Specification α} (hs : answer embed made request = .ok s) :
    s.Canonical := by
  cases request with
  | zero => exact Except.ok.inj hs ▸ trivial
  | leaf value => exact Except.ok.inj hs ▸ Encoding.canonical_leaf value
  | negation place => exact (canonical_operand h place).negation (eq_ok_of_mapError hs)
  | join c places =>
      have hoperands : ∀ s ∈ places.map (operand made), s.Canonical :=
        List.forall_mem_map.mpr fun place _ => canonical_operand h place
      exact Specification.canonical_join hoperands (eq_ok_of_mapError hs)
  | formula text =>
      rw [answer] at hs
      cases hparsed : Formula.parse text with
      | error error => rw [hparsed] at hs; cases hs
      | ok e =>
          rw [hparsed] at hs
          exact Except.ok.inj hs ▸ Encoding.canonical_map.mpr (Formula.canonical_of_parse hparsed)

theorem canonical_perform {made : List (Specification α)} (h : ∀ s ∈ made, s.Canonical)
    (request : Request α) : ∀ s ∈ perform embed made request, s.Canonical := by
  rw [perform]
  cases hs : answer embed made request with
  | error error => exact h
  | ok s =>
      rw [List.forall_mem_append, List.forall_mem_singleton]
      exact ⟨h, canonical_answer embed h hs⟩

theorem canonical_run {made : List (Specification α)} (h : ∀ s ∈ made, s.Canonical)
    (requests : List (Request α)) : ∀ s ∈ run embed made requests, s.Canonical := by
  induction requests generalizing made with
  | nil => exact h
  | cons request requests ih => exact ih (canonical_perform embed h request)

/-! ### Everything canonical is made -/

/-- Whether a request makes a leaf or a composition. -/
def Request.Composes : Request α → Prop
  | .leaf _ | .negation _ | .join _ _ => True
  | .zero | .formula _ => False

theorem run_append (made : List (Specification α)) (requests more : List (Request α)) :
    run embed made (requests ++ more) = run embed (run embed made requests) more :=
  List.foldl_append

theorem run_singleton {made : List (Specification α)} {request : Request α} {s : Specification α}
    (h : answer embed made request = .ok s) : run embed made [request] = made ++ [s] := by
  rw [run, List.foldl_cons, List.foldl_nil, perform, h]

/-- Whatever was made before, some leaves and compositions make the encoding of a tree. -/
def Makes (t : Expr α) : Prop :=
  ∀ made, ∃ requests more, (∀ request ∈ requests, Request.Composes request) ∧
    run embed made requests = made ++ more ++ [.encoded t.encode]

theorem makes_leaf (value : α) : Makes embed (.leaf value) := by
  intro made
  refine ⟨[.leaf value], [], List.forall_mem_singleton.mpr trivial, ?_⟩
  rw [Expr.encode_leaf, List.append_nil]
  exact run_singleton embed rfl

/-- What is made behind other specifications stands at the place behind them. -/
theorem operand_append (made more : List (Specification α)) (s : Specification α) :
    operand (made ++ s :: more) made.length = s := by
  simp [operand]

theorem Makes.negate {t : Expr α} (h : Makes embed t) : Makes embed t.negate := by
  intro made
  obtain ⟨requests, more, hrequests, hrun⟩ := h made
  refine ⟨requests ++ [.negation (made ++ more).length], more ++ [.encoded t.encode], ?_, ?_⟩
  · rw [List.forall_mem_append, List.forall_mem_singleton]
    exact ⟨hrequests, trivial⟩
  · have hanswer : answer embed (made ++ more ++ [.encoded t.encode])
        (.negation (made ++ more).length) = .ok (.encoded t.negate.encode) := by
      rw [answer, operand_append, Expr.encode_negate]
      rfl
    rw [run_append, hrun, run_singleton embed hanswer, ← List.append_assoc made]

theorem exists_run_operands {ts : List (Expr α)} (h : ∀ t ∈ ts, Makes embed t)
    (made : List (Specification α)) :
    ∃ requests more, ∃ places : List Nat, (∀ request ∈ requests, Request.Composes request) ∧
      run embed made requests = made ++ more ∧
      places.map (operand (made ++ more)) = ts.map fun t => .encoded t.encode := by
  induction ts generalizing made with
  | nil => exact ⟨[], [], [], List.forall_mem_nil _, (List.append_nil _).symm, rfl⟩
  | cons t ts ih =>
      obtain ⟨hmakes, hrest⟩ := List.forall_mem_cons.mp h
      obtain ⟨requests, more, hrequests, hrun⟩ := hmakes made
      -- The first operand is made behind `made` and the others behind it, so its place is known at
      -- once and nothing made later moves it.
      obtain ⟨requests', more', places, hrequests', hrun', hplaces⟩ :=
        ih hrest (made ++ more ++ [.encoded t.encode])
      have hmade : made ++ more ++ [.encoded t.encode] ++ more'
          = made ++ (more ++ .encoded t.encode :: more') := by simp
      refine ⟨requests ++ requests', more ++ .encoded t.encode :: more',
        (made ++ more).length :: places, ?_, ?_, ?_⟩
      · exact List.forall_mem_append.mpr ⟨hrequests, hrequests'⟩
      · rw [run_append, hrun, hrun', hmade]
      · rw [List.map_cons, List.map_cons, ← hmade, hplaces, hmade, ← List.append_assoc,
          operand_append]

theorem makes_join (c : Connective) {ts : List (Expr α)} (hne : ts ≠ [])
    (h : ∀ t ∈ ts, Makes embed t) : Makes embed (.join c ts) := by
  intro made
  obtain ⟨requests, more, places, hrequests, hrun, hplaces⟩ := exists_run_operands embed h made
  refine ⟨requests ++ [.join c places], more, ?_, ?_⟩
  · rw [List.forall_mem_append, List.forall_mem_singleton]
    exact ⟨hrequests, trivial⟩
  · have hanswer : answer embed (made ++ more) (.join c places)
        = .ok (.encoded (Expr.join c ts).encode) := by
      rw [answer, hplaces, Specification.join_encode c hne]
      rfl
    rw [run_append, hrun, run_singleton embed hanswer]

theorem makes_of_proper {t : Expr α} (h : t.Proper) : Makes embed t := by
  induction t with
  | leaf value => exact makes_leaf embed value
  | negate t ih => exact (ih (Expr.proper_negate.mp h)).negate
  | join c ts ih =>
      obtain ⟨hne, hts⟩ := Expr.proper_join.mp h
      exact makes_join embed c hne fun t ht => ih t ht (hts t ht)

/-! ### The main statement -/

/-- **The constructors make exactly the canonical encodings.** Whatever is requested, also with failing
requests and with the zero specification among the operands, every encoding that is made names its
leaves in order, joins at least one operand each time, and replays to a single value. Every encoding of
this kind is the last one made by some leaves and compositions. A composition fails exactly if it has no
operand or a zero one, and never makes the zero specification. -/
theorem made_iff_canonical :
    (∀ (requests : List (Request α)) (e : Encoding α), .encoded e ∈ run embed [] requests →
      Op.Canonical e.leaves.length e.ops) ∧
    (∀ e : Encoding α, Op.Canonical e.leaves.length e.ops →
      ∃ requests : List (Request α), (∀ request ∈ requests, request.Composes) ∧
        (run embed [] requests).getLast? = some (.encoded e)) ∧
    (∀ (c : Connective) (specs : List (Specification α)),
      ((∃ error, Specification.join c specs = .error error) ↔ specs = [] ∨ .zero ∈ specs) ∧
      Specification.join c specs ≠ .ok .zero) ∧
    ∀ spec : Specification α,
      ((∃ error, spec.negation = .error error) ↔ spec = .zero) ∧ spec.negation ≠ .ok .zero := by
  refine ⟨?_, ?_, ?_, ?_⟩
  · intro requests e he
    exact canonical_run embed (List.forall_mem_nil _) requests _ he
  · intro e he
    obtain ⟨t, hproper, rfl⟩ := Encoding.Canonical.exists_encode he
    obtain ⟨requests, more, hrequests, hrun⟩ := makes_of_proper embed hproper []
    refine ⟨requests, hrequests, ?_⟩
    rw [hrun, List.getLast?_concat]
  · intro c specs
    refine ⟨Specification.join_eq_error_iff, fun hzero => ?_⟩
    obtain ⟨parts, -, -, hencoded⟩ := Specification.exists_of_join_eq_ok hzero
    exact nomatch hencoded
  · intro spec
    refine ⟨Specification.negation_eq_error_iff, fun hzero => ?_⟩
    cases spec with
    | zero => exact nomatch hzero
    | encoded e => exact nomatch Except.ok.inj hzero

/-- Operands may be used again, and failing requests leave no trace. -/
theorem made_iff_canonical_reused :
    .encoded ⟨[.leaf 0, .leaf 1, .join .conjunction 2, .leaf 2, .negate, .leaf 3, .leaf 4,
          .join .conjunction 2, .join .disjunction 3],
          [.text "p", .text "q", .int 1, .text "p", .text "q"]⟩
        ∈ run id [] [.formula "p & q", .leaf (.int 1), .negation 1, .join .conjunction [], .zero,
          .join .disjunction [0, 2, 0], .join .conjunction [0, 3], .formula "p &"] ∧
      Op.Canonical 5 [.leaf 0, .leaf 1, .join .conjunction 2, .leaf 2, .negate, .leaf 3, .leaf 4,
        .join .conjunction 2, .join .disjunction 3] ∧
      ∃ requests : List (Request Leaf), (∀ request ∈ requests, request.Composes) ∧
        (run id [] requests).getLast? = some (.encoded ⟨[.leaf 0, .leaf 1, .join .conjunction 2,
          .leaf 2, .negate, .leaf 3, .leaf 4, .join .conjunction 2, .join .disjunction 3],
          [.text "p", .text "q", .int 1, .text "p", .text "q"]⟩) := by
  have hmade : .encoded ⟨[.leaf 0, .leaf 1, .join .conjunction 2, .leaf 2, .negate, .leaf 3,
        .leaf 4, .join .conjunction 2, .join .disjunction 3],
        [.text "p", .text "q", .int 1, .text "p", .text "q"]⟩
      ∈ run id [] [.formula "p & q", .leaf (.int 1), .negation 1, .join .conjunction [], .zero,
        .join .disjunction [0, 2, 0], .join .conjunction [0, 3], .formula "p &"] :=
    List.mem_of_getElem? (by decide +kernel : (run id [] _)[4]? = some _)
  have hcanonical := (made_iff_canonical id).1 _ _ hmade
  exact ⟨hmade, hcanonical, (made_iff_canonical id).2.1 _ hcanonical⟩

end History

end PostfixSpec
