import PostfixSpec.Evaluator

/-!
# Operands from the top of a stack

A record that joins values takes those from a place on that is the height of the stack less its count.
Three ranges of counts are told apart. A negative count begins behind the last value and takes nothing.
A count up to the height takes as many values as it says. A larger count begins before the first value,
and from there the place is counted from the other end: as many values are taken as the count exceeds
the height by, at most all of them.

Taking the values and removing them are two readings of one slice. Both are written down here place by
place and shown to be the two sides of a single cut, so no value is lost between them and none is on
both sides.
-/

namespace PostfixSpec

variable {β γ : Type}

/-! ### Where the operands begin -/

theorem topStart_of_neg {length : Nat} {n : Int} (h : n < 0) : topStart length n = length := by
  simp only [topStart]
  split <;> omega

theorem topStart_of_le {length : Nat} {n : Int} (hn : 0 ≤ n) (h : n ≤ length) :
    (topStart length n : Int) = length - n := by
  simp only [topStart]
  split <;> omega

theorem topStart_of_lt {length : Nat} {n : Int} (h : (length : Int) < n) :
    (topStart length n : Int) = max 0 (2 * length - n) := by
  simp only [topStart]
  split <;> omega

theorem topStart_le (length : Nat) (n : Int) : topStart length n ≤ length := by
  simp only [topStart]
  split <;> omega

/-! ### What is left and what is taken -/

theorem popTop_append_popTop (stack : List β) (n : Int) :
    (popTop stack n).1 ++ (popTop stack n).2 = stack := by
  rw [popTop, List.splitAt_eq]
  exact List.take_append_drop _ stack

/-- Removing as many values as lie on top takes exactly those. -/
theorem popTop_append (below top : List β) : popTop (below ++ top) top.length = (below, top) := by
  have hlength : (below ++ top).length = below.length + top.length := List.length_append
  have hstart : topStart (below ++ top).length top.length = below.length := by
    have hcut : (topStart (below ++ top).length top.length : Int)
        = (below ++ top).length - top.length := topStart_of_le (by omega) (by omega)
    omega
  rw [popTop, hstart, List.splitAt_eq, List.take_left, List.drop_left]

theorem popTop_map (represent : β → γ) (stack : List β) (n : Int) :
    popTop (stack.map represent) n
      = ((popTop stack n).1.map represent, (popTop stack n).2.map represent) := by
  rw [popTop, popTop, List.splitAt_eq, List.splitAt_eq, List.length_map, List.map_take, List.map_drop]

theorem length_below_popTop (stack : List β) (n : Int) :
    (popTop stack n).1.length = topStart stack.length n := by
  rw [popTop, List.splitAt_eq, List.length_take]
  exact Nat.min_eq_left (topStart_le stack.length n)

theorem length_popTop (stack : List β) (n : Int) :
    (popTop stack n).2.length = stack.length - topStart stack.length n := by
  rw [popTop, List.splitAt_eq, List.length_drop]

theorem length_popTop_of_neg {stack : List β} {n : Int} (h : n < 0) :
    (popTop stack n).2.length = 0 := by
  rw [length_popTop, topStart_of_neg h, Nat.sub_self]

/-- As many values are taken as are asked for, if there are as many. -/
theorem length_popTop_of_le {stack : List β} {n : Int} (hn : 0 ≤ n) (h : n ≤ stack.length) :
    ((popTop stack n).2.length : Int) = n := by
  have hstart : (topStart stack.length n : Int) = stack.length - n := topStart_of_le hn h
  rw [length_popTop]
  omega

/-- If more values are asked for than there are, all are taken only for twice as many. -/
theorem length_popTop_of_lt {stack : List β} {n : Int} (h : (stack.length : Int) < n) :
    ((popTop stack n).2.length : Int) = min (stack.length : Int) (n - stack.length) := by
  have hstart : (topStart stack.length n : Int) = max 0 (2 * stack.length - n) := topStart_of_lt h
  rw [length_popTop]
  omega

/-- Asking for more values than there are never gives as many. -/
theorem length_popTop_lt {stack : List β} {n : Int} (h : (stack.length : Int) < n) :
    ((popTop stack n).2.length : Int) < n := by
  rw [length_popTop_of_lt h]
  omega

/-- **Fewer values are taken than asked for** exactly where there are not as many. -/
theorem length_popTop_lt_iff {stack : List β} {n : Int} :
    ((popTop stack n).2.length : Int) < n ↔ (stack.length : Int) < n := by
  constructor
  · intro hfewer
    obtain hmore | henough := Int.lt_or_le stack.length n
    · exact hmore
    · have hall : ((popTop stack n).2.length : Int) = n := length_popTop_of_le (by omega) henough
      omega
  · exact length_popTop_lt

/-! ### The same place by place -/

/-- The values at some places, in order. -/
def valuesAt (p : Nat → Bool) (values : List β) : List β :=
  (values.zipIdx.filter fun entry => p entry.2).map Prod.fst

/-- Whether a place lies in the slice from `start` on of `length` values. A negative start is counted
from the end. -/
def inSlice (length : Nat) (start : Int) (place : Nat) : Bool :=
  decide ((if start < 0 then start + length else start) ≤ place)

/-- The places from a cut on pick what stands behind it, and the other places what stands before. -/
theorem valuesAt_append {p : Nat → Bool} {below top : List β}
    (hp : ∀ place < (below ++ top).length, p place = decide (below.length ≤ place)) :
    valuesAt (fun place => !p place) (below ++ top) = below ∧ valuesAt p (below ++ top) = top := by
  have hbelow : ∀ entry ∈ below.zipIdx, p entry.2 = false := by
    intro entry hentry
    have hplace : entry.2 < below.length := List.snd_lt_of_mem_zipIdx hentry
    rw [hp entry.2 (by rw [List.length_append]; omega)]
    exact decide_eq_false (by omega)
  have htop : ∀ entry ∈ top.zipIdx below.length, p entry.2 = true := by
    intro entry hentry
    have hplace : entry.2 < below.length + top.length := List.snd_lt_add_of_mem_zipIdx hentry
    rw [hp entry.2 (by rwa [List.length_append])]
    exact decide_eq_true (List.le_snd_of_mem_zipIdx hentry)
  -- The second list is indexed from the length of the first, where the cut is.
  have hindexed : (below ++ top).zipIdx = below.zipIdx ++ top.zipIdx below.length := by
    rw [List.zipIdx_append, Nat.zero_add]
  constructor
  · have hkept : below.zipIdx.filter (fun entry => !p entry.2) = below.zipIdx :=
      List.filter_eq_self.mpr fun entry hentry => by rw [hbelow entry hentry]; rfl
    have hnone : (top.zipIdx below.length).filter (fun entry => !p entry.2) = [] :=
      List.filter_eq_nil_iff.mpr fun entry hentry => by rw [htop entry hentry]; decide
    rw [valuesAt, hindexed, List.filter_append, hkept, hnone, List.append_nil, List.zipIdx_map_fst]
  · have hnone : below.zipIdx.filter (fun entry => p entry.2) = [] :=
      List.filter_eq_nil_iff.mpr fun entry hentry => by rw [hbelow entry hentry]; decide
    have hkept : (top.zipIdx below.length).filter (fun entry => p entry.2) = top.zipIdx below.length :=
      List.filter_eq_self.mpr htop
    rw [valuesAt, hindexed, List.filter_append, hnone, hkept, List.nil_append, List.zipIdx_map_fst]

/-- A slice holds the places from the cut on. This is about places of the stack only: behind the last
value, where a negative number begins its slice, the cut comes first. -/
theorem inSlice_eq {length place : Nat} (h : place < length) (n : Int) :
    inSlice length (length - n) place = decide (topStart length n ≤ place) := by
  rw [inSlice, decide_eq_decide, topStart]
  split <;> omega

/-- **Taking and removing agree.** Taking operands gives the values in the slice that begins as many
places before the end as asked for, and leaves the values at the other places. -/
theorem popTop_eq_valuesAt (stack : List β) (n : Int) :
    popTop stack n
      = (valuesAt (fun place => !inSlice stack.length (stack.length - n) place) stack,
        valuesAt (inSlice stack.length (stack.length - n)) stack) := by
  have hsplit := popTop_append_popTop stack n
  have hcut : ∀ place < ((popTop stack n).1 ++ (popTop stack n).2).length,
      inSlice stack.length (stack.length - n) place = decide ((popTop stack n).1.length ≤ place) := by
    intro place hplace
    rw [hsplit] at hplace
    rw [length_below_popTop, inSlice_eq hplace]
  obtain ⟨hleft, htaken⟩ := valuesAt_append hcut
  rw [hsplit] at hleft htaken
  rw [hleft, htaken]

/-! ### The main statement -/

/-- **Taking operands splits the stack without loss.** For every stack and every number, what is taken is
the slice that begins that many places before the end, what is left is everything else, and one behind
the other they are the stack again. So no value is dropped and none is on both sides: whatever is counted
in the stack is counted in one of the two. As many values are taken as asked for if there are as many,
none for a negative number, and otherwise as many as the number exceeds the height by, at most all of
them. Fewer values are taken than asked for exactly if there are not as many. -/
theorem popTop_splits (stack : List β) (n : Int) :
    ∃ rest top, popTop stack n = (rest, top) ∧
      rest = valuesAt (fun place => !inSlice stack.length (stack.length - n) place) stack ∧
      top = valuesAt (inSlice stack.length (stack.length - n)) stack ∧
      rest ++ top = stack ∧
      (∀ p : β → Bool, rest.countP p + top.countP p = stack.countP p) ∧
      (0 ≤ n → n ≤ stack.length → (top.length : Int) = n) ∧
      (n < 0 → top.length = 0) ∧
      ((stack.length : Int) < n →
        (top.length : Int) = min (stack.length : Int) (n - stack.length)) ∧
      ((top.length : Int) < n ↔ (stack.length : Int) < n) := by
  have hslices := popTop_eq_valuesAt stack n
  have hsplit := popTop_append_popTop stack n
  refine ⟨(popTop stack n).1, (popTop stack n).2, rfl, congrArg Prod.fst hslices,
    congrArg Prod.snd hslices, hsplit, ?_, length_popTop_of_le, length_popTop_of_neg,
    length_popTop_of_lt, length_popTop_lt_iff⟩
  intro p
  rw [← List.countP_append, hsplit]

/-- Of three values, a negative number takes none, two takes two, and four takes only one. -/
theorem popTop_splits_three :
    ((-1 : Int) < 0 ∧ ∃ rest top, popTop ["p", "q", "r"] (-1) = (rest, top) ∧
        rest ++ top = ["p", "q", "r"] ∧ top.length = 0) ∧
      ((0 : Int) ≤ 2 ∧ 2 ≤ (["p", "q", "r"].length : Int) ∧
        ∃ rest top, popTop ["p", "q", "r"] 2 = (rest, top) ∧
          rest ++ top = ["p", "q", "r"] ∧ (top.length : Int) = 2) ∧
      ((["p", "q", "r"].length : Int) < 4 ∧
        ∃ rest top, popTop ["p", "q", "r"] 4 = (rest, top) ∧
          rest ++ top = ["p", "q", "r"] ∧ (top.length : Int) = 1) := by
  have hnegative : (-1 : Int) < 0 := by decide
  have henough : 2 ≤ (["p", "q", "r"].length : Int) := by decide
  have hshort : (["p", "q", "r"].length : Int) < 4 := by decide
  refine ⟨⟨hnegative, ?_⟩, ⟨by decide, henough, ?_⟩, ⟨hshort, ?_⟩⟩
  · obtain ⟨rest, top, hpop, -, -, hsplit, -, -, hnone, -⟩ := popTop_splits ["p", "q", "r"] (-1)
    exact ⟨rest, top, hpop, hsplit, hnone hnegative⟩
  · obtain ⟨rest, top, hpop, -, -, hsplit, -, hall, -⟩ := popTop_splits ["p", "q", "r"] 2
    exact ⟨rest, top, hpop, hsplit, hall (by decide) henough⟩
  · obtain ⟨rest, top, hpop, -, -, hsplit, -, -, -, hsome, -⟩ := popTop_splits ["p", "q", "r"] 4
    exact ⟨rest, top, hpop, hsplit, hsome hshort⟩

end PostfixSpec
