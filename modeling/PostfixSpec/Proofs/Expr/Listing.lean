import PostfixSpec.Op.Replay
import PostfixSpec.Proofs.Expr.Induction

/-!
# Well-formed streams are listings of trees

The listing of a tree over `n` leaves is a well-formed stream, and each well-formed stream is such a
listing. For the second half a stream is read from the left over a stack of trees that stands for
what was read so far: listing the stack gives the records read, and its height is the replayed depth.

Nothing here depends on what the leaves of a tree are, only on the index that each of them is listed
by.
-/

namespace PostfixSpec

theorem Op.inBounds_iff {n : Nat} {ops : List Op} :
    inBounds n ops = true ↔ ∀ i : Int, .leaf i ∈ ops → 0 ≤ i ∧ i < n := by
  have hreferences (i : Int) : i ∈ references ops ↔ .leaf i ∈ ops := by
    rw [references, List.mem_filterMap]
    constructor
    · rintro ⟨op, hop, hi⟩
      cases op <;> simp_all
    · exact fun h => ⟨_, h, rfl⟩
  simp only [inBounds, List.all_eq_true, decide_eq_true_eq, hreferences]

namespace Expr

variable {ι : Type} (index : ι → Int)

/-- The records of a tree, each leaf by its index. -/
def listing (t : Expr ι) : List Op := (t.map index).toOps

@[simp] theorem listing_leaf (i : ι) : (leaf i).listing index = [.leaf (index i)] := by
  rw [listing, map_leaf, toOps_leaf]

@[simp] theorem listing_negate (t : Expr ι) :
    t.negate.listing index = t.listing index ++ [.negate] := by
  rw [listing, map_negate, toOps_negate, listing]

@[simp] theorem listing_join (c : Connective) (ts : List (Expr ι)) :
    (join c ts).listing index = ts.flatMap (listing index) ++ [.join c ts.length] := by
  rw [listing, map_join, toOps_join, List.flatMap_map, List.length_map]
  rfl

/-! ### Listings are well formed -/

private theorem replay_flatMap (ts : List (Expr ι))
    (h : ∀ t ∈ ts, ∀ depth : Int, 0 ≤ depth →
      Op.replay depth (t.listing index) = some (depth + 1))
    {depth : Int} (hdepth : 0 ≤ depth) :
    Op.replay depth (ts.flatMap (listing index)) = some (depth + ts.length) := by
  induction ts generalizing depth with
  | nil => simp [Op.replay]
  | cons t ts ih =>
      have hnext : 0 ≤ depth + 1 := by omega
      have hrest := ih (fun t ht => h t (List.mem_cons_of_mem _ ht)) hnext
      rw [List.flatMap_cons, Op.replay_append, h t List.mem_cons_self depth hdepth, Option.bind_some,
        hrest, List.length_cons]
      congr 1
      omega

/-- A listing adds one value to any stack and takes nothing from it. -/
theorem replay_listing (t : Expr ι) {depth : Int} (hdepth : 0 ≤ depth) :
    Op.replay depth (t.listing index) = some (depth + 1) := by
  induction t generalizing depth with
  | leaf i => simp [Op.replay, Op.consumed, hdepth]
  | negate t ih =>
      have htop : (1 : Int) ≤ depth + 1 := by omega
      rw [listing_negate, Op.replay_append, ih hdepth]
      simp [Op.replay, Op.consumed, htop]
  | join c ts ih =>
      have htop : (ts.length : Int) ≤ depth + ts.length := by omega
      rw [listing_join, Op.replay_append, replay_flatMap index ts (fun t ht _ h => ih t ht h) hdepth]
      simp [Op.replay, Op.consumed, htop]

/-- What holds of every record that a proper tree can list holds of its listing. -/
theorem forall_mem_listing {P : Op → Prop} (hleaf : ∀ i, P (.leaf (index i)))
    (hnegate : P .negate) (hjoin : ∀ (c : Connective) (count : Int), 1 ≤ count → P (.join c count))
    {t : Expr ι} (h : t.Proper) : ∀ op ∈ t.listing index, P op := by
  induction t with
  | leaf i =>
      intro op hop
      rw [listing_leaf, List.mem_singleton] at hop
      exact hop ▸ hleaf i
  | negate t ih =>
      intro op hop
      rw [listing_negate, List.mem_append, List.mem_singleton] at hop
      rcases hop with hop | rfl
      · exact ih (proper_negate.mp h) op hop
      · exact hnegate
  | join c ts ih =>
      obtain ⟨hne, hproper⟩ := proper_join.mp h
      intro op hop
      rw [listing_join, List.mem_append, List.mem_flatMap, List.mem_singleton] at hop
      rcases hop with ⟨t, ht, hop⟩ | rfl
      · exact ih t ht (hproper t ht) op hop
      · have hlength := List.length_pos_iff.mpr hne
        exact hjoin c ts.length (by omega)

/-- **The listing of a proper tree is well formed.** -/
theorem wellFormed_listing {n : Nat} {t : Expr (Fin n)} (h : t.Proper) :
    Op.WellFormed n (t.listing fun i => i.val) := by
  refine ⟨Op.inBounds_iff.mpr ?_, ?_, replay_listing _ t (Int.le_refl 0)⟩
  · have hfits := forall_mem_listing (fun i : Fin n => (i.val : Int))
      (P := fun op => ∀ i, op = .leaf i → 0 ≤ i ∧ i < n)
      (fun place i hi => ?_) (fun _ hi => nomatch hi) (fun _ _ _ _ hi => nomatch hi) h
    · exact fun i hi => hfits _ hi i rfl
    · obtain rfl := Op.leaf.inj hi
      have := place.isLt
      omega
  · exact forall_mem_listing _ (fun _ => trivial) trivial (fun _ _ hcount => hcount) h

/-! ### Well-formed streams are listings -/

variable {index}

/-- One record that finds its operands on a stack of trees builds a tree from them. -/
private theorem exists_listing_snoc {ts : List (Expr ι)} (hts : ∀ t ∈ ts, t.Proper) {op : Op}
    (hindex : ∀ i : Int, op = .leaf i → ∃ place, index place = i) (hoperands : op.HasOperands)
    (henough : op.consumed ≤ ts.length) :
    ∃ us : List (Expr ι), (∀ u ∈ us, u.Proper) ∧
      (us.length : Int) = ts.length - op.consumed + 1 ∧
      us.flatMap (listing index) = ts.flatMap (listing index) ++ [op] := by
  cases op with
  | leaf i =>
      obtain ⟨place, rfl⟩ := hindex i rfl
      refine ⟨ts ++ [leaf place], ?_, ?_, ?_⟩
      · simpa [or_imp, forall_and] using hts
      · simp [Op.consumed]
      · simp
  | negate =>
      have hne : ts ≠ [] := by
        rintro rfl
        simp [Op.consumed] at henough
      obtain ⟨below, top, rfl⟩ := (List.eq_nil_or_concat ts).resolve_left hne
      refine ⟨below ++ [negate top], ?_, ?_, ?_⟩
      · simpa [or_imp, forall_and] using hts
      · simp [Op.consumed]
      · simp
  | join c count =>
      have hcount : (1 : Int) ≤ count := hoperands
      simp only [Op.consumed] at henough
      obtain ⟨k, rfl⟩ := Int.eq_ofNat_of_zero_le (by omega : 0 ≤ count)
      have htop : (ts.drop (ts.length - k)).length = k := by
        rw [List.length_drop]
        omega
      refine ⟨ts.take (ts.length - k) ++ [join c (ts.drop (ts.length - k))], ?_, ?_, ?_⟩
      · intro u hu
        rcases List.mem_append.mp hu with hu | hu
        · exact hts u (List.mem_of_mem_take hu)
        · obtain rfl := List.mem_singleton.mp hu
          refine proper_join.mpr ⟨?_, fun t ht => hts t (List.mem_of_mem_drop ht)⟩
          rw [ne_eq, ← List.length_eq_zero_iff, htop]
          omega
      · simp only [Op.consumed, List.length_append, List.length_take, List.length_singleton]
        omega
      · rw [List.flatMap_append, List.flatMap_singleton, listing_join, htop, ← List.append_assoc,
          ← List.flatMap_append, List.take_append_drop]

/-- A stream that finds its operands on a stack of trees builds the trees that it leaves. -/
private theorem exists_listing_append {ops : List Op} {ts : List (Expr ι)}
    (hts : ∀ t ∈ ts, t.Proper) (hindex : ∀ i : Int, .leaf i ∈ ops → ∃ place, index place = i)
    (hoperands : ∀ op ∈ ops, op.HasOperands) {depth : Int}
    (hreplay : Op.replay ts.length ops = some depth) :
    ∃ us : List (Expr ι), (∀ u ∈ us, u.Proper) ∧ (us.length : Int) = depth ∧
      us.flatMap (listing index) = ts.flatMap (listing index) ++ ops := by
  induction ops generalizing ts with
  | nil => exact ⟨ts, hts, Option.some.inj hreplay, (List.append_nil _).symm⟩
  | cons op rest ih =>
      rw [Op.replay] at hreplay
      split at hreplay
      case isFalse => exact absurd hreplay.symm (Option.some_ne_none _)
      case isTrue henough =>
        obtain ⟨us, hus, hlength, hlisting⟩ := exists_listing_snoc hts
          (fun i h => hindex i (h ▸ List.mem_cons_self)) (hoperands op List.mem_cons_self) henough
        rw [← hlength] at hreplay
        obtain ⟨vs, hvs, hdepth, hrest⟩ := ih hus
          (fun i h => hindex i (List.mem_cons_of_mem _ h))
          (fun op h => hoperands op (List.mem_cons_of_mem _ h)) hreplay
        refine ⟨vs, hvs, hdepth, ?_⟩
        rw [hrest, hlisting, List.append_assoc, List.singleton_append]

/-- A stream that replays to a single value lists a tree, if its counts are positive and its indices
are those of leaves. -/
theorem exists_listing_of_replay {ops : List Op}
    (hindex : ∀ i : Int, .leaf i ∈ ops → ∃ place, index place = i)
    (hoperands : ∀ op ∈ ops, op.HasOperands) (hreplay : Op.replay 0 ops = some 1) :
    ∃ t : Expr ι, t.Proper ∧ t.listing index = ops := by
  have hnone : ∀ t ∈ ([] : List (Expr ι)), t.Proper := fun t ht => absurd ht List.not_mem_nil
  obtain ⟨us, hus, hlength, hlisting⟩ := exists_listing_append hnone hindex hoperands hreplay
  obtain ⟨t, rfl⟩ := List.length_eq_one_iff.mp (by omega : us.length = 1)
  exact ⟨t, hus t List.mem_cons_self, by simpa using hlisting⟩

/-- **A well-formed stream lists a tree.** -/
theorem exists_listing_of_wellFormed {n : Nat} {ops : List Op} (h : Op.WellFormed n ops) :
    ∃ t : Expr (Fin n), t.Proper ∧ t.listing (fun i => i.val) = ops := by
  obtain ⟨hbounds, hoperands, hreplay⟩ := h
  refine exists_listing_of_replay (fun i hi => ?_) hoperands hreplay
  obtain ⟨hlow, hhigh⟩ := Op.inBounds_iff.mp hbounds i hi
  exact ⟨⟨i.toNat, by omega⟩, Int.toNat_of_nonneg hlow⟩

/-! ### A listing has one tree

The last record of a listing is the root of its tree, and what stands before it lists the operands.
So the last record of trees in a row says how many of the trees before it, once it is taken away, are
operands of the last tree.
-/

/-- The record of the operator of a tree. -/
def root (index : ι → Int) : Expr ι → Op
  | leaf i => .leaf (index i)
  | negate _ => .negate
  | join c ts => .join c ts.length

/-- The trees that the operator of a tree joins. -/
def operands : Expr ι → List (Expr ι)
  | leaf _ => []
  | negate t => [t]
  | join _ ts => ts

theorem listing_eq (t : Expr ι) :
    t.listing index = t.operands.flatMap (listing index) ++ [t.root index] := by
  cases t <;> simp [root, operands]

theorem length_operands (t : Expr ι) : (t.operands.length : Int) = (t.root index).consumed := by
  cases t <;> rfl

theorem eq_of_root_eq (hindex : Function.Injective index) {t u : Expr ι}
    (hroot : t.root index = u.root index) (hoperands : t.operands = u.operands) : t = u := by
  cases t <;> cases u <;> simp_all [root, operands]
  exact hindex hroot

theorem flatMap_listing_injective (hindex : Function.Injective index) {ts us : List (Expr ι)}
    (h : ts.flatMap (listing index) = us.flatMap (listing index)) : ts = us := by
  induction hsize : (ts.flatMap (listing index)).length using Nat.strongRecOn generalizing ts us with
  | ind size ih =>
      rcases List.eq_nil_or_concat ts with rfl | ⟨before, t, rfl⟩
      · rcases List.eq_nil_or_concat us with rfl | ⟨before, u, rfl⟩
        · rfl
        · simp [listing_eq u] at h
      · rcases List.eq_nil_or_concat us with rfl | ⟨before', u, rfl⟩
        · simp [listing_eq t] at h
        · simp only [List.concat_eq_append, List.flatMap_append, List.flatMap_singleton,
            listing_eq t, listing_eq u, ← List.append_assoc] at h hsize
          rw [← List.flatMap_append, ← List.flatMap_append] at h
          obtain ⟨hrest, hroot⟩ := List.append_inj' h rfl
          have hroot : t.root index = u.root index := List.singleton_inj.mp hroot
          have hlength : t.operands.length = u.operands.length := by
            have hconsumed := congrArg Op.consumed hroot
            rw [← length_operands, ← length_operands] at hconsumed
            omega
          have hsmaller : ((before ++ t.operands).flatMap (listing index)).length < size := by
            simp only [List.flatMap_append, List.length_append, List.length_singleton] at hsize ⊢
            omega
          obtain ⟨hbefore, hoperands⟩ := List.append_inj' (ih _ hsmaller hrest rfl) hlength
          rw [hbefore, eq_of_root_eq hindex hroot hoperands]

/-- **A stream lists at most one tree.** -/
theorem listing_injective (hindex : Function.Injective index) {t u : Expr ι}
    (h : t.listing index = u.listing index) : t = u :=
  List.singleton_inj.mp (flatMap_listing_injective hindex (by simpa using h))

end Expr

end PostfixSpec
