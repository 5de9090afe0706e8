/-!
# Buffers sized up front

A list of known length can be laid out by writing each value into its slot of a buffer that starts
with empty slots. `collect` asks for a proof that the writes fill the slots from the first to the
last, so no slot is left empty and none is written twice; `collect_eq` says that the result is the
written values in order.
-/

namespace PostfixSpec.Buffer

variable {α : Type}

/-- The slots after all writes, in order. -/
def fill (size : Nat) (writes : List (Nat × α)) : Array (Option α) :=
  writes.foldl (fun slots write => slots.setIfInBounds write.1 (some write.2))
    (Array.replicate size none)

/-- The values in the slots, if every slot holds one. -/
def freeze (slots : Array (Option α)) : Option (List α) :=
  slots.toList.mapM id

/-- The writes that put `values` into consecutive slots from `start` on. -/
def place (start : Nat) (values : List α) : List (Nat × α) :=
  (values.zipIdx start).map fun entry => (entry.2, entry.1)

@[simp] theorem place_nil (start : Nat) : place start ([] : List α) = [] := rfl

@[simp] theorem place_cons (start : Nat) (v : α) (vs : List α) :
    place start (v :: vs) = (start, v) :: place (start + 1) vs := rfl

@[simp] theorem place_values (start : Nat) (values : List α) :
    (place start values).map Prod.snd = values := by
  induction values generalizing start with
  | nil => rfl
  | cons v vs ih => simp [ih]

@[simp] theorem place_positions (start : Nat) (values : List α) :
    (place start values).map Prod.fst = List.range' start values.length := by
  induction values generalizing start with
  | nil => rfl
  | cons v vs ih => simp [ih, List.range'_succ]

private theorem eq_place (start : Nat) (writes : List (Nat × α))
    (h : writes.map Prod.fst = List.range' start writes.length) :
    writes = place start (writes.map Prod.snd) := by
  induction writes generalizing start with
  | nil => rfl
  | cons w ws ih =>
    simp only [List.map_cons, List.length_cons, List.range'_succ, List.cons.injEq] at h
    rw [List.map_cons, place_cons, ← h.1, ← ih _ (h.1 ▸ h.2)]

private theorem toList_foldl (writes : List (Nat × α)) (slots : Array (Option α)) :
    (writes.foldl (fun slots write => slots.setIfInBounds write.1 (some write.2)) slots).toList =
      writes.foldl (fun slots write => slots.set write.1 (some write.2)) slots.toList := by
  induction writes generalizing slots with
  | nil => rfl
  | cons w ws ih => simp [ih]

private theorem foldl_place (values : List α) (before : List (Option α)) :
    (place before.length values).foldl (fun slots write => slots.set write.1 (some write.2))
        (before ++ List.replicate values.length none) = before ++ values.map some := by
  induction values generalizing before with
  | nil => simp
  | cons v vs ih =>
    have h := ih (before ++ [some v])
    simp only [List.length_append, List.length_singleton, List.append_assoc,
      List.singleton_append] at h
    simpa [List.replicate_succ] using h

/-- Writes that fill the slots one after the other leave no slot empty. -/
theorem freeze_fill {size : Nat} {writes : List (Nat × α)}
    (h : writes.map Prod.fst = List.range size) :
    freeze (fill size writes) = some (writes.map Prod.snd) := by
  have hlength : writes.length = size := by
    have := congrArg List.length h
    simpa using this
  rw [List.range_eq_range', ← hlength] at h
  rw [freeze, fill, toList_foldl, eq_place 0 writes h, place_values]
  have := foldl_place (writes.map Prod.snd) []
  simp only [List.length_nil, List.nil_append, List.length_map] at this
  rw [Array.toList_replicate, ← hlength, this, List.mapM_map]
  exact List.mapM_pure.trans (congrArg some (List.map_id _))

/-- The contents of a buffer of `size` slots whose writes fill it from the first slot to the
last. -/
def collect (size : Nat) (writes : List (Nat × α))
    (h : writes.map Prod.fst = List.range size) : List α :=
  (freeze (fill size writes)).get (by rw [freeze_fill h]; rfl)

/-- A filled buffer holds the written values in order. -/
theorem collect_eq {size : Nat} {writes : List (Nat × α)}
    (h : writes.map Prod.fst = List.range size) :
    collect size writes h = writes.map Prod.snd := by
  simp [collect, freeze_fill h]

end PostfixSpec.Buffer
