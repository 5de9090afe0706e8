/-!
# Traversals of lists

Reading operands, evaluating them and constructing them are traversals of a list in one monad or
another. A traversal in which no entry has an effect is a map, and so is one that succeeds: its answers
are those of the entries, one for one.
-/

namespace PostfixSpec

variable {α β γ ε : Type}

/-! ### Traversals in any monad -/

section Monad

variable {m : Type → Type} [Monad m] [LawfulMonad m]

/-- A traversal that answers every entry without an effect is a map. -/
theorem mapM_of_pure {f : α → m β} {answer : α → β} {xs : List α}
    (h : ∀ x ∈ xs, f x = pure (answer x)) : xs.mapM f = pure (xs.map answer) := by
  induction xs with
  | nil => rfl
  | cons x xs ih =>
      obtain ⟨hfirst, hrest⟩ := List.forall_mem_cons.mp h
      rw [List.mapM_cons, hfirst, ih hrest, pure_bind, pure_bind, List.map_cons]

/-- What follows a traversal may count on as many answers as there are entries. -/
theorem mapM_bind_congr {f : α → m β} {xs : List α} {next next' : List β → m γ}
    (h : ∀ answers, answers.length = xs.length → next answers = next' answers) :
    xs.mapM f >>= next = xs.mapM f >>= next' := by
  induction xs generalizing next next' with
  | nil => simpa using h [] rfl
  | cons x xs ih =>
      simp only [List.mapM_cons, bind_assoc, pure_bind]
      refine bind_congr fun answer => ih fun answers hlength => h _ ?_
      rw [List.length_cons, hlength, List.length_cons]

end Monad

/-! ### Traversals that may fail -/

theorem mapM_eq_some_iff {f : α → Option β} {xs : List α} {ys : List β} :
    xs.mapM f = some ys ↔ xs.map f = ys.map some := by
  induction xs generalizing ys with
  | nil =>
      cases ys with
      | nil => exact iff_of_true rfl rfl
      | cons y ys => exact iff_of_false nofun nofun
  | cons x xs ih =>
      simp only [List.mapM_cons, List.map_cons, Option.bind_eq_bind, Option.bind_eq_some_iff,
        Option.pure_def, ih]
      constructor
      · rintro ⟨y, hfirst, rest, hrest, hys⟩
        cases hys
        rw [hfirst, hrest, List.map_cons]
      · intro h
        cases ys with
        | nil => cases h
        | cons y ys =>
            obtain ⟨hfirst, hrest⟩ := List.cons.inj h
            exact ⟨y, hfirst, ys, hrest, rfl⟩

theorem mapM_eq_none_iff {f : α → Option β} {xs : List α} :
    xs.mapM f = none ↔ ∃ x ∈ xs, f x = none := by
  induction xs with
  | nil => simp
  | cons x xs ih =>
      simp only [List.mapM_cons, List.mem_cons, or_and_right, exists_or, exists_eq_left, ← ih]
      cases f x with
      | none => simp
      | some y => cases xs.mapM f <;> simp

/-- Entries none of which is missing are values. -/
theorem exists_map_some {xs : List (Option α)} (h : none ∉ xs) : ∃ ys : List α, xs = ys.map some := by
  cases hvalues : xs.mapM id with
  | none =>
      obtain ⟨x, hx, hnone⟩ := mapM_eq_none_iff.mp hvalues
      exact absurd (hnone ▸ hx) h
  | some ys =>
      have hmap : xs.map id = ys.map some := mapM_eq_some_iff.mp hvalues
      exact ⟨ys, by rwa [List.map_id] at hmap⟩

theorem bind_eq_ok {x : Except ε α} {next : α → Except ε β} {answer : β}
    (h : (x >>= next) = .ok answer) : ∃ value, x = .ok value ∧ next value = .ok answer := by
  cases x with
  | error error => exact nomatch h
  | ok value => exact ⟨value, rfl, h⟩

theorem map_eq_of_mapM_ok {f : α → Except ε β} {xs : List α} {ys : List β}
    (h : xs.mapM f = .ok ys) : xs.map f = ys.map .ok := by
  induction xs generalizing ys with
  | nil =>
      cases h
      rfl
  | cons x xs ih =>
      rw [List.mapM_cons] at h
      obtain ⟨y, hfirst, h⟩ := bind_eq_ok h
      obtain ⟨rest, hrest, h⟩ := bind_eq_ok h
      cases h
      rw [List.map_cons, List.map_cons, hfirst, ih hrest]

end PostfixSpec
