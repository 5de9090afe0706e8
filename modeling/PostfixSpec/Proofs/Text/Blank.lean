import Mathlib.Data.List.TakeWhile
import PostfixSpec.Text.Character

/-!
# Line ends and blanks, said without a scan

Unifying line ends and stripping are passes over a text. What each of them finds can be said without a
pass. The unified text has the same lines, and each of them may have ended in a line feed, in a carriage
return or in both. The stripped text is what stands between blanks, and begins and ends with none.

Both ways of saying it have one answer only. So two texts are unified or stripped alike as soon as the
same answer fits both.
-/

namespace PostfixSpec.Text

/-! ### Line ends -/

/-- Whether a text has the lines of another one that ends its lines with line feeds alone. Each line
feed may be spelled as it is, as a carriage return or as both, but a carriage return for one line feed is
not followed by a line feed for the next: together they would spell a single one. -/
inductive SameLines : List Char → List Char → Prop
  | nil : SameLines [] []
  | char {c : Char} {cs ds : List Char} :
      c ≠ '\n' → c ≠ '\r' → SameLines cs ds → SameLines (c :: cs) (c :: ds)
  | feed {cs ds : List Char} : SameLines cs ds → SameLines ('\n' :: cs) ('\n' :: ds)
  | both {cs ds : List Char} : SameLines cs ds → SameLines ('\n' :: cs) ('\r' :: '\n' :: ds)
  | carriageReturn {cs ds : List Char} :
      SameLines cs ds → ds.head? ≠ some '\n' → SameLines ('\n' :: cs) ('\r' :: ds)

theorem unifyLineEnds_cons {c : Char} (h : c ≠ '\r') (cs : List Char) :
    unifyLineEnds (c :: cs) = c :: unifyLineEnds cs := by
  rw [unifyLineEnds.eq_2 c cs (fun _ hc _ => h hc), if_neg h]

theorem unifyLineEnds_return_of_head {cs : List Char} (h : cs.head? ≠ some '\n') :
    unifyLineEnds ('\r' :: cs) = '\n' :: unifyLineEnds cs := by
  rw [unifyLineEnds.eq_2 _ _ fun _ _ hcs => h (by rw [hcs, List.head?_cons]), if_pos rfl]

/-- A carriage return becomes a line end, unless the line feed behind it is one already. -/
theorem unifyLineEnds_return (cs : List Char) :
    unifyLineEnds ('\r' :: cs) = unifyLineEnds cs ∨
      unifyLineEnds ('\r' :: cs) = '\n' :: unifyLineEnds cs := by
  by_cases hhead : cs.head? = some '\n'
  · obtain ⟨rest, rfl⟩ := List.head?_eq_some_iff.mp hhead
    exact .inl (by rw [unifyLineEnds, unifyLineEnds_cons (by decide)])
  · exact .inr (unifyLineEnds_return_of_head hhead)

theorem sameLines_unifyLineEnds (ds : List Char) : SameLines (unifyLineEnds ds) ds := by
  fun_induction unifyLineEnds ds with
  | case1 ds ih => exact .both ih
  | case2 c ds hpair ih =>
      by_cases hreturn : c = '\r'
      · rw [if_pos hreturn, hreturn]
        refine .carriageReturn ih fun hhead => ?_
        obtain ⟨rest, hrest⟩ := List.head?_eq_some_iff.mp hhead
        exact hpair rest hreturn hrest
      · rw [if_neg hreturn]
        by_cases hfeed : c = '\n'
        · rw [hfeed]
          exact .feed ih
        · exact .char hfeed hreturn ih
  | case3 => exact .nil

theorem SameLines.unifyLineEnds_eq {cs ds : List Char} (h : SameLines cs ds) :
    unifyLineEnds ds = cs := by
  induction h with
  | nil => rfl
  | char _ hreturn _ ih => rw [unifyLineEnds_cons hreturn, ih]
  | feed _ ih => rw [unifyLineEnds_cons (by decide), ih]
  | both _ ih => rw [unifyLineEnds, ih]
  | carriageReturn _ hhead ih => rw [unifyLineEnds_return_of_head hhead, ih]

/-- **Unifying finds the lines.** -/
theorem unifyLineEnds_eq_iff {cs ds : List Char} : unifyLineEnds ds = cs ↔ SameLines cs ds :=
  ⟨fun h => h ▸ sameLines_unifyLineEnds ds, SameLines.unifyLineEnds_eq⟩

theorem SameLines.not_mem_return {cs ds : List Char} (h : SameLines cs ds) : '\r' ∉ cs := by
  induction h with
  | nil => exact List.not_mem_nil
  | char _ hreturn _ ih => exact List.not_mem_cons_of_ne_of_not_mem (Ne.symm hreturn) ih
  | feed _ ih => exact List.not_mem_cons_of_ne_of_not_mem (by decide) ih
  | both _ ih => exact List.not_mem_cons_of_ne_of_not_mem (by decide) ih
  | carriageReturn _ _ ih => exact List.not_mem_cons_of_ne_of_not_mem (by decide) ih

/-- A text without carriage returns has its own lines. -/
theorem sameLines_self {cs : List Char} (h : '\r' ∉ cs) : SameLines cs cs := by
  induction cs with
  | nil => exact .nil
  | cons c cs ih =>
      obtain ⟨hc, hcs⟩ := List.ne_and_not_mem_of_not_mem_cons h
      by_cases hfeed : c = '\n'
      · rw [hfeed]
        exact .feed (ih hcs)
      · exact .char hfeed (Ne.symm hc) (ih hcs)

/-- The lines of a text are blank if and only if the text is. -/
theorem SameLines.forall_isBlank_iff {cs ds : List Char} (h : SameLines cs ds) :
    (∀ c ∈ cs, isBlank c = true) ↔ ∀ d ∈ ds, isBlank d = true := by
  have hfeed : isBlank '\n' = true := by decide
  have hreturn : isBlank '\r' = true := by decide
  induction h with
  | nil => rfl
  | char _ _ _ ih => simp only [List.forall_mem_cons, ih]
  | feed _ ih => simp only [List.forall_mem_cons, ih]
  | both _ ih => simp only [List.forall_mem_cons, hfeed, hreturn, true_and, ih]
  | carriageReturn _ _ ih => simp only [List.forall_mem_cons, hfeed, hreturn, true_and, ih]

/-! ### Blanks at the ends -/

/-- Whether `kept` is what a text holds between blanks, and neither begins nor ends with one. -/
structure Stripped (cs kept : List Char) : Prop where
  around : ∃ before after, cs = before ++ kept ++ after ∧ ∀ c ∈ before ++ after, isBlank c = true
  first : ∀ c ∈ kept.head?, isBlank c = false
  last : ∀ c ∈ kept.getLast?, isBlank c = false

theorem stripStart_blank_append {before : List Char} (h : ∀ c ∈ before, isBlank c = true)
    (cs : List Char) : stripStart (before ++ cs) = stripStart cs := List.dropWhile_append_of_pos h

theorem stripStart_of_head {cs : List Char} (h : ∀ c ∈ cs.head?, isBlank c = false) :
    stripStart cs = cs := by
  cases cs with
  | nil => rfl
  | cons c cs => exact List.dropWhile_cons_of_neg (ne_true_of_eq_false (h c rfl))

theorem exists_stripStart (cs : List Char) :
    ∃ before, cs = before ++ stripStart cs ∧ ∀ c ∈ before, isBlank c = true :=
  ⟨cs.takeWhile isBlank, List.takeWhile_append_dropWhile.symm, fun _ hc => List.mem_takeWhile_imp hc⟩

theorem head_stripStart (cs : List Char) : ∀ c ∈ (stripStart cs).head?, isBlank c = false := by
  intro c hc
  have hhead := List.head?_dropWhile_not isBlank cs
  rw [← stripStart, Option.mem_def.mp hc] at hhead
  exact hhead

theorem stripped_strip (cs : List Char) : Stripped cs (strip cs) := by
  obtain ⟨before, hbefore, hblanks⟩ := exists_stripStart cs
  obtain ⟨after, hafter, hblanks'⟩ := exists_stripStart (stripStart cs).reverse
  have hsplit : stripStart cs = strip cs ++ after.reverse := by
    rw [strip, stripEnd, ← List.reverse_append, ← hafter, List.reverse_reverse]
  constructor
  · refine ⟨before, after.reverse, ?_, ?_⟩
    · rw [List.append_assoc, ← hsplit, ← hbefore]
    · rw [List.forall_mem_append]
      exact ⟨hblanks, fun c hc => hblanks' c (List.mem_reverse.mp hc)⟩
  · intro c hc
    apply head_stripStart cs
    rw [hsplit, List.head?_append, Option.mem_def.mp hc]
    rfl
  · rw [strip, stripEnd, List.getLast?_reverse]
    exact head_stripStart _

theorem Stripped.strip_eq {cs kept : List Char} (h : Stripped cs kept) : strip cs = kept := by
  obtain ⟨before, after, rfl, hblanks⟩ := h.around
  obtain ⟨hbefore, hafter⟩ := List.forall_mem_append.mp hblanks
  have hreverse : ∀ c ∈ after.reverse, isBlank c = true :=
    fun c hc => hafter c (List.mem_reverse.mp hc)
  have hlast : ∀ c ∈ kept.reverse.head?, isBlank c = false := by
    rw [List.head?_reverse]
    exact h.last
  rw [strip, List.append_assoc, stripStart_blank_append hbefore]
  cases kept with
  | nil =>
      have hnone := stripStart_blank_append hafter []
      rw [List.append_nil] at hnone
      rw [List.nil_append, hnone]
      rfl
  | cons c kept =>
      have hstart : stripStart (c :: kept ++ after) = c :: kept ++ after := stripStart_of_head h.first
      rw [hstart, stripEnd, List.reverse_append, stripStart_blank_append hreverse,
        stripStart_of_head hlast, List.reverse_reverse]

/-- **Stripping finds what stands between the blanks.** -/
theorem strip_eq_iff {cs kept : List Char} : strip cs = kept ↔ Stripped cs kept :=
  ⟨fun h => h ▸ stripped_strip cs, Stripped.strip_eq⟩

theorem Stripped.self {cs kept : List Char} (h : Stripped cs kept) : Stripped kept kept where
  around := ⟨[], [], by rw [List.nil_append, List.append_nil], nofun⟩
  first := h.first
  last := h.last

/-- More blanks around a text change nothing. -/
theorem Stripped.surround {cs kept before after : List Char} (h : Stripped cs kept)
    (hbefore : ∀ c ∈ before, isBlank c = true) (hafter : ∀ c ∈ after, isBlank c = true) :
    Stripped (before ++ cs ++ after) kept where
  around := by
    obtain ⟨before', after', rfl, hblanks⟩ := h.around
    obtain ⟨hbefore', hafter'⟩ := List.forall_mem_append.mp hblanks
    refine ⟨before ++ before', after' ++ after, by simp only [List.append_assoc], ?_⟩
    simp only [List.forall_mem_append]
    exact ⟨⟨hbefore, hbefore'⟩, hafter', hafter⟩
  first := h.first
  last := h.last

theorem strip_eq_nil_iff {cs : List Char} : strip cs = [] ↔ ∀ c ∈ cs, isBlank c = true := by
  rw [strip_eq_iff]
  constructor
  · intro h
    obtain ⟨before, after, rfl, hblanks⟩ := h.around
    rwa [List.append_nil]
  · intro h
    exact ⟨⟨[], cs, rfl, h⟩, nofun, nofun⟩

/-! ### Blanks around line ends

A blank at an end can be half of a line end whose other half stands in the text. Then the two are one
blank between them, and otherwise they are two: at the ends this makes no difference.
-/

theorem exists_unifyLineEnds_before {before : List Char} (h : ∀ c ∈ before, isBlank c = true)
    (cs : List Char) :
    ∃ blanks, unifyLineEnds (before ++ cs) = blanks ++ unifyLineEnds cs ∧
      ∀ c ∈ blanks, isBlank c = true := by
  induction before with
  | nil => exact ⟨[], rfl, nofun⟩
  | cons c before ih =>
      obtain ⟨hc, hbefore⟩ := List.forall_mem_cons.mp h
      obtain ⟨blanks, hblanks, hall⟩ := ih hbefore
      by_cases hreturn : c = '\r'
      · rw [hreturn, List.cons_append]
        rcases unifyLineEnds_return (before ++ cs) with hsame | hfeed
        · exact ⟨blanks, hsame.trans hblanks, hall⟩
        · rw [hfeed, hblanks]
          exact ⟨'\n' :: blanks, rfl, List.forall_mem_cons.mpr ⟨by decide, hall⟩⟩
      · rw [List.cons_append, unifyLineEnds_cons hreturn, hblanks]
        exact ⟨c :: blanks, rfl, List.forall_mem_cons.mpr ⟨hc, hall⟩⟩

theorem SameLines.exists_after {cs ds after : List Char} (h : SameLines cs ds)
    (hafter : ∀ c ∈ after, isBlank c = true) :
    ∃ blanks, SameLines (cs ++ blanks) (ds ++ after) ∧ ∀ c ∈ blanks, isBlank c = true := by
  induction h with
  | nil =>
      have hlines := sameLines_unifyLineEnds after
      exact ⟨_, hlines, hlines.forall_isBlank_iff.mpr hafter⟩
  | char hfeed hreturn _ ih =>
      obtain ⟨blanks, hlines, hall⟩ := ih
      exact ⟨blanks, .char hfeed hreturn hlines, hall⟩
  | feed _ ih =>
      obtain ⟨blanks, hlines, hall⟩ := ih
      exact ⟨blanks, .feed hlines, hall⟩
  | both _ ih =>
      obtain ⟨blanks, hlines, hall⟩ := ih
      exact ⟨blanks, .both hlines, hall⟩
  | @carriageReturn cs ds hlines hhead ih =>
      obtain ⟨blanks, hlonger, hall⟩ := ih
      by_cases hpair : (ds ++ after).head? = some '\n'
      · -- The text ends with the carriage return, and the blanks begin with the line feed.
        cases ds with
        | cons d ds => exact absurd hpair hhead
        | nil =>
            cases hlines
            obtain ⟨after, rfl⟩ := List.head?_eq_some_iff.mp hpair
            have hrest := sameLines_unifyLineEnds after
            exact ⟨_, .both hrest,
              hrest.forall_isBlank_iff.mpr fun c hc => hafter c (List.mem_cons_of_mem _ hc)⟩
      · exact ⟨blanks, .carriageReturn hlonger hpair, hall⟩

/-- **Blanks around a text are stripped with their line ends.** -/
theorem strip_unifyLineEnds_surround {before after : List Char}
    (hbefore : ∀ c ∈ before, isBlank c = true) (hafter : ∀ c ∈ after, isBlank c = true)
    (cs : List Char) :
    strip (unifyLineEnds (before ++ cs ++ after)) = strip (unifyLineEnds cs) := by
  obtain ⟨blanks, hlines, hblanks⟩ := (sameLines_unifyLineEnds cs).exists_after hafter
  obtain ⟨blanks', hunified, hblanks'⟩ := exists_unifyLineEnds_before hbefore (cs ++ after)
  rw [List.append_assoc, hunified, hlines.unifyLineEnds_eq, ← List.append_assoc]
  exact ((stripped_strip (unifyLineEnds cs)).surround hblanks' hblanks).strip_eq

end PostfixSpec.Text
