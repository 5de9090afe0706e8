import Mathlib.Data.List.Chain
import PostfixSpec.Proofs.Formula.Respelling
import PostfixSpec.Proofs.Formula.Splitting

/-!
# Symbols in any layout

Symbols are laid out with blanks before, between and behind them. Blanks may be left out everywhere but
between two words, because signs end a word and never run together. Whatever the layout, the text is
scanned as the symbols, so layouts of the same symbols are parsed alike.
-/

namespace PostfixSpec.Formula

/-- A symbol and the blanks in front of it. -/
structure Piece where
  gap : List Char
  symbol : Symbol
  blank : ∀ c ∈ gap, Ignored c
  written : symbol.IsSign ∨ symbol.IsWord

/-- Whether two pieces in a row are kept apart, if both are words. -/
def Piece.Apart (piece next : Piece) : Prop :=
  piece.symbol.IsWord → next.symbol.IsWord → next.gap ≠ []

/-- A way to lay out symbols: as pieces with blanks behind the last one. -/
structure Layout (xs : List Symbol) where
  pieces : List Piece
  trailing : List Char
  map_symbol : pieces.map (·.symbol) = xs
  apart : pieces.IsChain Piece.Apart
  blank : ∀ c ∈ trailing, Ignored c

/-- The characters of some pieces with others behind them. -/
def layOut (pieces : List Piece) (trailing : List Char) : List Char :=
  pieces.flatMap (fun piece => piece.gap ++ piece.symbol.text.toList) ++ trailing

def Layout.text {xs : List Symbol} (l : Layout xs) : String :=
  String.ofList (layOut l.pieces l.trailing)

/-! ### Pieces in a row -/

section

variable {gap cs trailing : List Char} {xs : List Symbol} {piece : Piece} {pieces : List Piece}

theorem layOut_cons : layOut (piece :: pieces) trailing
    = piece.gap ++ (piece.symbol.text.toList ++ layOut pieces trailing) := by
  simp [layOut]

theorem Writes.behind_gap (hgap : ∀ c ∈ gap, Ignored c) (h : Writes cs xs) :
    Writes (gap ++ cs) xs := by
  induction gap with
  | nil => exact h
  | cons c gap ih =>
      obtain ⟨hc, hgap⟩ := List.forall_mem_cons.mp hgap
      exact (ih hgap).blank (isIgnored_iff.mpr hc)

/-- Blanks end a word. -/
theorem runsOn_gap (hgap : ∀ c ∈ gap, Ignored c) (h : gap = [] → runsOn cs = false) :
    runsOn (gap ++ cs) = false := by
  cases gap with
  | nil => exact h rfl
  | cons c gap => exact not_isWordChar_of_isIgnored (isIgnored_iff.mpr (hgap c List.mem_cons_self))

/-- Signs end a word. -/
theorem runsOn_sign {x : Symbol} (h : x.IsSign) (cs : List Char) :
    runsOn (x.text.toList ++ cs) = false := by
  obtain ⟨c, hc⟩ := Symbol.isSign_iff.mp h
  rw [toList_text_of_signSymbol? hc]
  exact (not_of_signSymbol? hc).2

/-- So a word ends in front of the pieces behind it. -/
theorem runsOn_layOut (hword : piece.symbol.IsWord) (htrailing : ∀ c ∈ trailing, Ignored c)
    (hapart : (piece :: pieces).IsChain Piece.Apart) : runsOn (layOut pieces trailing) = false := by
  cases pieces with
  | nil =>
      have hnone : runsOn (trailing ++ []) = false := runsOn_gap htrailing fun _ => rfl
      rwa [List.append_nil] at hnone
  | cons next pieces =>
      rw [layOut_cons]
      apply runsOn_gap next.blank
      intro hempty
      rcases next.written with hsign | hword'
      · exact runsOn_sign hsign _
      · exact absurd hempty ((List.isChain_cons_cons.mp hapart).1 hword hword')

theorem writes_layOut (htrailing : ∀ c ∈ trailing, Ignored c)
    (hapart : pieces.IsChain Piece.Apart) :
    Writes (layOut pieces trailing) (pieces.map (·.symbol)) := by
  induction pieces with
  | nil =>
      have hnone := Writes.behind_gap htrailing writes_nil
      rwa [List.append_nil] at hnone
  | cons piece pieces ih =>
      have hrest := ih hapart.tail
      rw [layOut_cons]
      apply Writes.behind_gap piece.blank
      rcases piece.written with hsign | hword
      · obtain ⟨c, hc⟩ := Symbol.isSign_iff.mp hsign
        rw [toList_text_of_signSymbol? hc]
        exact hrest.sign hc
      · obtain ⟨hisWord, hsymbol⟩ := Symbol.isWord_iff.mp hword
        have hruns := runsOn_layOut hword htrailing hapart
        have hboth := (writes_word hisWord).append hrest hruns
        rw [hsymbol] at hboth
        exact hboth

end

/-! ### Layouts of the same symbols -/

/-- Signs and words can always be laid out, for instance with one blank in front of each. -/
def Layout.spaced {xs : List Symbol} (h : ∀ x ∈ xs, x.IsSign ∨ x.IsWord) : Layout xs where
  pieces := xs.pmap (fun x hx => ⟨[' '], x, List.forall_mem_singleton.mpr (.head _), hx⟩) h
  trailing := []
  map_symbol := by rw [List.map_pmap, List.pmap_eq_map, List.map_id']
  apart := by
    apply List.Pairwise.isChain
    rw [List.pairwise_iff_getElem]
    intro i j _ _ _ _ _
    rw [List.getElem_pmap]
    exact List.cons_ne_nil _ _
  blank := List.forall_mem_nil _

theorem Layout.toList_text {xs : List Symbol} (l : Layout xs) :
    l.text.toList = layOut l.pieces l.trailing := String.toList_ofList

theorem Layout.scan_text {xs : List Symbol} (l : Layout xs) :
    (scan l.text).illegal = none ∧ (scan l.text).symbols = xs := by
  have hwrites := writes_layOut l.blank l.apart
  rw [l.map_symbol] at hwrites
  apply Writes.scan_eq
  rw [l.toList_text]
  exact hwrites

/-- **Scanning undoes every layout.** Symbols are found again in any text that lays them out, and nothing
else is found. Two layouts of the same symbols are both accepted, with the same result, or both rejected
because of the same symbol or because of the end. -/
theorem scan_layouts {xs : List Symbol} (l m : Layout xs) :
    (scan l.text).illegal = none ∧ (scan l.text).symbols = xs ∧
      ((∃ e, parse l.text = .ok e ∧ parse m.text = .ok e) ∨
        ∃ error other, parse l.text = .error error ∧ parse m.text = .error other ∧
          error.SameKind other) := by
  obtain ⟨hlegal, hsymbols⟩ := l.scan_text
  obtain ⟨hlegal', hsymbols'⟩ := m.scan_text
  exact ⟨hlegal, hsymbols, parse_alike hlegal hlegal' (hsymbols.trans hsymbols'.symm)⟩

/-- A constant ends where a sign begins, and a longer word is a name. -/
theorem scan_layouts_tight :
    (scan "true&truex").symbols = [.constant true, .connective .conjunction, .name "truex"] ∧
      ((∃ e, parse "true&truex" = .ok e ∧ parse " true & truex" = .ok e) ∨
        ∃ error other, parse "true&truex" = .error error ∧
          parse " true & truex" = .error other ∧ error.SameKind other) := by
  have hconstant : Symbol.IsWord (.constant true) := Symbol.isWord_iff.mpr (by decide)
  have hsign : Symbol.IsSign (.connective .conjunction) := Symbol.isSign_iff.mpr ⟨'&', rfl⟩
  have hname : Symbol.IsWord (.name "truex") := Symbol.isWord_iff.mpr (by decide)
  have hnot : ¬ Symbol.IsWord (.connective .conjunction) := mt Symbol.isWord_iff.mp (by decide)
  let tight : Layout [.constant true, .connective .conjunction, .name "truex"] :=
    { pieces := [⟨[], _, List.forall_mem_nil _, .inr hconstant⟩,
        ⟨[], _, List.forall_mem_nil _, .inl hsign⟩, ⟨[], _, List.forall_mem_nil _, .inr hname⟩]
      trailing := []
      map_symbol := rfl
      apart := by simp [Piece.Apart, hnot]
      blank := List.forall_mem_nil _ }
  have hspaced : ∀ x ∈ [.constant true, .connective .conjunction, .name "truex"],
      Symbol.IsSign x ∨ Symbol.IsWord x := by simp [hconstant, hsign, hname]
  have htight : tight.text = "true&truex" := by
    rw [← String.toList_inj, tight.toList_text]
    simp [tight, layOut, Symbol.text, Connective.sign]
  have hloose : (Layout.spaced hspaced).text = " true & truex" := by
    rw [← String.toList_inj, Layout.toList_text]
    simp [Layout.spaced, layOut, Symbol.text, Connective.sign]
  have halike := scan_layouts tight (.spaced hspaced)
  rw [htight, hloose] at halike
  exact halike.2

end PostfixSpec.Formula
