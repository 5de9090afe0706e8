import PostfixSpec.Proofs.Formula.Spelling

/-!
# Where the tokens of a text stand

A scan can be described by the places of its tokens alone. Each token stands where the text has its
characters, tokens do not overlap, words are as long as they can be, and what no token covers is blank up
to the end or to a character that begins nothing. This says nothing about the order in which a text is
read, and it leaves no choice: every text has one scan of this kind, and scanning finds it.

Kinds of characters are spelled out here once more, in terms of letters and digits, so that the
description stands on its own.
-/

namespace PostfixSpec.Formula

/-! ### Kinds of characters -/

def Ignored (c : Char) : Prop := c ∈ [' ', '\t', '\r', '\n']

def BeginsWord (c : Char) : Prop := c.isAlpha = true ∨ c = '_'

def StaysInWord (c : Char) : Prop := c.isAlphanum = true ∨ c = '_'

def BeginsToken (c : Char) : Prop := BeginsWord c ∨ c ∈ ['!', '&', '|', '(', ')']

theorem isIgnored_iff {c : Char} : isIgnored c = true ↔ Ignored c := by
  simp [isIgnored, Ignored, or_assoc]

theorem isWordStart_iff {c : Char} : isWordStart c = true ↔ BeginsWord c := by
  have hupper : c.isUpper = ('A' ≤ c && c ≤ 'Z') := Bool.decide_and _ _
  have halpha : c.isAlpha = (c.isUpper || ('a' ≤ c && c ≤ 'z')) := rfl
  rw [isWordStart, BeginsWord, halpha, hupper, Bool.or_comm ('A' ≤ c && _),
    Bool.or_eq_true _ (decide _), decide_eq_true_eq]

theorem isWordChar_iff {c : Char} : isWordChar c = true ↔ StaysInWord c := by
  have hdigit : ('0' ≤ c && c ≤ '9') = c.isDigit := rfl
  rw [isWordChar, hdigit, Bool.or_eq_true, isWordStart_iff, StaysInWord, BeginsWord, Char.isAlphanum,
    Bool.or_eq_true]
  exact or_right_comm

theorem signSymbol?_eq_none_iff {c : Char} :
    signSymbol? c = none ↔ c ∉ ['!', '&', '|', '(', ')'] := by
  unfold signSymbol?
  split_ifs <;> simp_all

/-! ### Tokens at their places -/

/-- The kind and the text of a sign. -/
def Symbol.IsSign (x : Symbol) : Prop :=
  (x.kind, x.text) ∈ [("NOT", "!"), ("AND", "&"), ("OR", "|"), ("LPAREN", "("), ("RPAREN", ")")]

/-- The kind and the text of a word. -/
def Symbol.IsWord (x : Symbol) : Prop :=
  (∃ c cs, x.text.toList = c :: cs ∧ BeginsWord c ∧ ∀ d ∈ cs, StaysInWord d) ∧
    x.kind = if x.text = "true" then "TRUE" else if x.text = "false" then "FALSE" else "ID"

/-- Whether a token stands at its place in a text: its characters are there, and if it is a word, the
word does not go on behind it. -/
structure Token.StandsIn (t : Token) (cs : List Char) : Prop where
  start_lt_stop : t.start < t.stop
  extract_eq : cs.extract t.start t.stop = t.symbol.text.toList
  sign_or_word : t.symbol.IsSign ∨
    t.symbol.IsWord ∧ ∀ c, cs[t.stop]? = some c → ¬ StaysInWord c

def Scan.Covers (s : Scan) (place : Nat) : Prop :=
  ∃ t ∈ s.tokens, t.start ≤ place ∧ place < t.stop

/-- Whether a scan splits a text from some place on. -/
structure Splits (cs : List Char) (start : Nat) (s : Scan) : Prop where
  stands : ∀ t ∈ s.tokens, start ≤ t.start ∧ t.StandsIn cs
  ordered : s.tokens.Pairwise fun t u => t.stop ≤ u.start
  gaps : ∀ place c, start ≤ place → cs[place]? = some c → ¬ s.Covers place →
    (∀ i, s.illegal = some i → place < i.position) → Ignored c
  illegal : ∀ i, s.illegal = some i → start ≤ i.position ∧ (∀ t ∈ s.tokens, t.stop ≤ i.position) ∧
    cs[i.position]? = some i.char ∧ ¬ Ignored i.char ∧ ¬ BeginsToken i.char

/-! ### Signs and words -/

theorem Symbol.isSign_iff {x : Symbol} : x.IsSign ↔ ∃ c, signSymbol? c = some x := by
  constructor
  · intro h
    cases x with
    | name value => simp [IsSign, kind] at h
    | constant value => cases value <;> simp [IsSign, kind] at h
    | negation => exact ⟨'!', rfl⟩
    | connective c =>
        cases c with
        | conjunction => exact ⟨'&', rfl⟩
        | disjunction => exact ⟨'|', rfl⟩
    | opening => exact ⟨'(', rfl⟩
    | closing => exact ⟨')', rfl⟩
  · rintro ⟨c, hc⟩
    unfold signSymbol? at hc
    split_ifs at hc <;> cases hc <;> simp [IsSign, kind, text, Connective.sign]

theorem isWord_iff {word : List Char} : isWord word = true ↔
    ∃ c cs, word = c :: cs ∧ BeginsWord c ∧ ∀ d ∈ cs, StaysInWord d := by
  cases word with
  | nil => simp [isWord]
  | cons c cs =>
      simp only [isWord_cons, isWordStart_iff, isWordChar_iff]
      refine ⟨fun h => ⟨c, cs, rfl, h⟩, ?_⟩
      rintro ⟨d, ds, heq, h⟩
      cases heq
      exact h

theorem Symbol.isWord_iff {x : Symbol} :
    x.IsWord ↔ isWord x.text.toList = true ∧ wordSymbol x.text.toList = x := by
  rw [IsWord, ← Formula.isWord_iff]
  refine and_congr_right fun hword => ?_
  cases x with
  | name value =>
      constructor
      · intro hkind
        refine wordSymbol_of_isName ?_
        by_cases htrue : value = "true"
        · simp [kind, text, htrue] at hkind
        · by_cases hfalse : value = "false"
          · simp [kind, text, hfalse] at hkind
          · simp only [isName, Bool.and_eq_true, bne_iff_ne]
            exact ⟨⟨hword, htrue⟩, hfalse⟩
      · intro hsymbol
        have hname := isName_of_wordSymbol hword hsymbol
        simp only [isName, Bool.and_eq_true, bne_iff_ne] at hname
        rw [text, if_neg hname.1.2, if_neg hname.2]
        rfl
  | constant value => cases value <;> exact iff_of_true (by decide) (by decide)
  | connective c => cases c <;> exact absurd hword (by decide)
  | _ => exact absurd hword (by decide)

theorem runsOn_drop_iff {cs : List Char} {place : Nat} :
    runsOn (cs.drop place) = false ↔ ∀ c, cs[place]? = some c → ¬ StaysInWord c := by
  rw [← List.head?_drop]
  cases cs.drop place with
  | nil => simp [runsOn]
  | cons c rest => simp [runsOn, ← isWordChar_iff]

/-! ### One token -/

theorem Token.StandsIn.drop_eq {t : Token} {cs : List Char} (h : t.StandsIn cs) :
    cs.drop t.start = t.symbol.text.toList ++ cs.drop t.stop := by
  have hstop : t.start + (t.stop - t.start) = t.stop := by
    have := h.start_lt_stop
    omega
  rw [← h.extract_eq, ← hstop, ← List.drop_drop, hstop, List.extract_eq_take_drop,
    List.take_append_drop]

theorem Token.standsIn_of_drop {t : Token} {cs rest : List Char} (hne : t.symbol.text.toList ≠ [])
    (hdrop : cs.drop t.start = t.symbol.text.toList ++ rest)
    (hkind : t.symbol.IsSign ∨ t.symbol.IsWord ∧ runsOn rest = false) :
    t.StandsIn cs ∧ cs.drop t.stop = rest := by
  have hrest : cs.drop t.stop = rest := by
    rw [stop, ← List.drop_drop, hdrop, ← String.length_toList, List.drop_left]
  have hlength : 0 < t.symbol.text.length := by
    rw [← String.length_toList]
    exact List.length_pos_iff.mpr hne
  refine ⟨⟨Nat.lt_add_of_pos_right hlength, ?_, ?_⟩, hrest⟩
  · rw [List.extract_eq_take_drop, hdrop, stop, Nat.add_sub_cancel_left, ← String.length_toList,
      List.take_left]
  · rwa [← runsOn_drop_iff, hrest]

/-! ### One place after the other

Without its first token, or without a blank, a splitting goes on behind it; and the other way round.
-/

theorem Scan.covers_cons {t : Token} {s : Scan} {place : Nat} :
    (s.cons t).Covers place ↔ (t.start ≤ place ∧ place < t.stop) ∨ s.Covers place := by
  simp [Scan.Covers, Scan.cons]

theorem splits_cons_iff {t : Token} {s : Scan} {cs : List Char} :
    Splits cs t.start (s.cons t) ↔ t.StandsIn cs ∧ Splits cs t.stop s := by
  constructor
  · intro h
    obtain ⟨hfirst, hrest⟩ := List.forall_mem_cons.mp h.stands
    obtain ⟨hbehind, hordered⟩ := List.pairwise_cons.mp h.ordered
    have hlt := hfirst.2.start_lt_stop
    refine ⟨hfirst.2, fun u hu => ⟨hbehind u hu, (hrest u hu).2⟩, hordered, ?_, ?_⟩
    · intro place c hplace hc hcovers hillegal
      refine h.gaps place c (by omega) hc ?_ hillegal
      rw [Scan.covers_cons]
      rintro (hin | hin)
      · omega
      · exact hcovers hin
    · intro i hi
      obtain ⟨-, htokens, hchar⟩ := h.illegal i hi
      obtain ⟨hstop, htokens⟩ := List.forall_mem_cons.mp htokens
      exact ⟨hstop, htokens, hchar⟩
  · rintro ⟨hfirst, h⟩
    have hlt := hfirst.start_lt_stop
    refine ⟨?_, ?_, ?_, ?_⟩
    · refine List.forall_mem_cons.mpr ⟨⟨Nat.le_refl _, hfirst⟩, fun u hu => ?_⟩
      obtain ⟨hle, hu⟩ := h.stands u hu
      exact ⟨by omega, hu⟩
    · exact List.pairwise_cons.mpr ⟨fun u hu => (h.stands u hu).1, h.ordered⟩
    · intro place c hplace hc hcovers hillegal
      rw [Scan.covers_cons, not_or] at hcovers
      exact h.gaps place c (by omega) hc hcovers.2 hillegal
    · intro i hi
      obtain ⟨hstop, htokens, hchar⟩ := h.illegal i hi
      exact ⟨by omega, List.forall_mem_cons.mpr ⟨hstop, htokens⟩, hchar⟩

theorem splits_blank_iff {s : Scan} {cs : List Char} {start : Nat} {c : Char}
    (hc : cs[start]? = some c) (htokens : ∀ t ∈ s.tokens, start < t.start)
    (hillegal : ∀ i, s.illegal = some i → start < i.position) :
    Splits cs start s ↔ Ignored c ∧ Splits cs (start + 1) s := by
  constructor
  · intro h
    refine ⟨?_, fun t ht => ⟨htokens t ht, (h.stands t ht).2⟩, h.ordered, ?_, ?_⟩
    · refine h.gaps start c (Nat.le_refl _) hc ?_ hillegal
      rintro ⟨t, ht, hle, -⟩
      have := htokens t ht
      omega
    · exact fun place d hplace => h.gaps place d (by omega)
    · exact fun i hi => ⟨hillegal i hi, (h.illegal i hi).2⟩
  · rintro ⟨hignored, h⟩
    refine ⟨?_, h.ordered, ?_, ?_⟩
    · intro t ht
      exact ⟨Nat.le_of_lt (htokens t ht), (h.stands t ht).2⟩
    · intro place d hplace hd hcovers hbefore
      rcases Nat.eq_or_lt_of_le hplace with rfl | hlt
      · rw [hc] at hd
        exact Option.some.inj hd ▸ hignored
      · exact h.gaps place d hlt hd hcovers hbefore
    · exact fun i hi => ⟨Nat.le_of_lt (hillegal i hi), (h.illegal i hi).2⟩

/-- What a symbol says in front of a splitting is a token more. -/
theorem splits_cons_of_drop {x : Symbol} {s : Scan} {piece behind cs : List Char} {start : Nat}
    (htext : x.text.toList = piece) (hne : piece ≠ []) (hdrop : cs.drop start = piece ++ behind)
    (hkind : x.IsSign ∨ x.IsWord ∧ runsOn behind = false)
    (h : cs.drop (start + piece.length) = behind → Splits cs (start + piece.length) s) :
    Splits cs start (s.cons ⟨x, start⟩) := by
  subst htext
  have hstop : Token.stop ⟨x, start⟩ = start + x.text.toList.length := by
    rw [Token.stop, String.length_toList]
  obtain ⟨hstands, hrest⟩ := Token.standsIn_of_drop (t := ⟨x, start⟩) hne hdrop hkind
  rw [hstop] at hrest
  refine splits_cons_iff.mpr ⟨hstands, ?_⟩
  rw [hstop]
  exact h hrest

/-! ### One scan for every text -/

theorem Spells.splits {position : Nat} {s : Scan} {rest cs : List Char} (h : Spells position s rest)
    (hrest : cs.drop position = rest) : Splits cs position s := by
  induction h with
  | done position =>
      refine ⟨List.forall_mem_nil _, .nil, fun place c hplace hc _ _ => ?_, nofun⟩
      have hlength := List.drop_eq_nil_iff.mp hrest
      rw [List.getElem?_eq_none (by omega)] at hc
      exact nomatch hc
  | @blank position s c behind hc _ ih =>
      have hplace : cs[position]? = some c := by rw [← List.head?_drop, hrest]; rfl
      have hsplits := ih (by rw [← List.drop_drop, hrest]; rfl)
      rw [splits_blank_iff hplace (fun t ht => (hsplits.stands t ht).1)
        fun i hi => (hsplits.illegal i hi).1]
      exact ⟨isIgnored_iff.mp hc, hsplits⟩
  | @word position s word behind hword hruns _ ih =>
      have htext := toList_text_wordSymbol word
      have hkind : (wordSymbol word).IsWord :=
        Symbol.isWord_iff.mpr (by rw [htext]; exact ⟨hword, rfl⟩)
      have hne : word ≠ [] := by
        rintro rfl
        exact nomatch hword
      exact splits_cons_of_drop htext hne hrest (.inr ⟨hkind, hruns⟩) ih
  | @sign position s symbol c behind hsign _ ih =>
      have hkind : symbol.IsSign := Symbol.isSign_iff.mpr ⟨c, hsign⟩
      exact splits_cons_of_drop (toList_text_of_signSymbol? hsign) (List.cons_ne_nil c []) hrest
        (.inl hkind) ih
  | @illegal position c behind hignored hstart hsign =>
      refine ⟨List.forall_mem_nil _, .nil, ?_, ?_⟩
      · intro place d hplace _ _ hbefore
        have hlt := hbefore _ rfl
        simp at hlt
        omega
      · rintro i ⟨⟩
        refine ⟨Nat.le_refl _, List.forall_mem_nil _, ?_, ?_, ?_⟩
        · rw [← List.head?_drop, hrest]
          rfl
        · rw [← isIgnored_iff, hignored]
          exact Bool.false_ne_true
        · rintro (hword | hin)
          · rw [← isWordStart_iff, hstart] at hword
            exact nomatch hword
          · exact signSymbol?_eq_none_iff.mp hsign hin

/-- A token is spelled where it stands. -/
theorem Token.StandsIn.spells {t : Token} {s : Scan} {cs : List Char} (h : t.StandsIn cs)
    (hrest : Spells t.stop s (cs.drop t.stop)) : Spells t.start (s.cons t) (cs.drop t.start) := by
  have hstop : t.stop = t.start + t.symbol.text.toList.length := by rw [stop, String.length_toList]
  rw [h.drop_eq]
  rcases h.sign_or_word with hsign | ⟨hword, hlongest⟩
  · obtain ⟨c, hc⟩ := Symbol.isSign_iff.mp hsign
    rw [hstop] at hrest ⊢
    rw [toList_text_of_signSymbol? hc] at hrest ⊢
    exact .sign hc hrest
  · obtain ⟨hword, hsymbol⟩ := Symbol.isWord_iff.mp hword
    have hruns := runsOn_drop_iff.mpr hlongest
    rw [hstop] at hrest hruns ⊢
    have hspells := Spells.word hword hruns hrest
    rw [hsymbol] at hspells
    exact hspells

theorem Token.StandsIn.start_lt_length {t : Token} {cs : List Char} (h : t.StandsIn cs) :
    t.start < cs.length := by
  by_contra hle
  have hdrop := congrArg List.length h.drop_eq
  have hlt := h.start_lt_stop
  rw [List.drop_eq_nil_of_le (by omega), List.length_nil, List.length_append,
    String.length_toList] at hdrop
  rw [stop] at hlt
  omega

/-! ### What stands next

At every place of a text there is one thing that can stand next: the end, a token that starts there, an
illegal character, or else a blank.
-/

namespace Splits

variable {cs : List Char} {start : Nat} {s : Scan}

theorem eq_of_length_le (h : Splits cs start s) (hlength : cs.length ≤ start) : s = ⟨[], none⟩ := by
  obtain ⟨tokens, illegal⟩ := s
  obtain rfl : tokens = [] := by
    refine List.eq_nil_iff_forall_not_mem.mpr fun t ht => ?_
    obtain ⟨hle, hstands⟩ := h.stands t ht
    have hlt := hstands.start_lt_length
    omega
  obtain rfl : illegal = none := by
    refine Option.eq_none_iff_forall_ne_some.mpr fun i hi => ?_
    obtain ⟨hle, -, hchar, -⟩ := h.illegal i hi
    rw [List.getElem?_eq_none (by omega)] at hchar
    exact nomatch hchar
  rfl

/-- The only token that can start at the place where a splitting starts is the first one. -/
theorem exists_cons (h : Splits cs start s) {t : Token} (ht : t ∈ s.tokens) (hle : t.start ≤ start) :
    t.start = start ∧ ∃ rest : Scan, s = rest.cons t := by
  obtain ⟨tokens, illegal⟩ := s
  refine ⟨Nat.le_antisymm hle (h.stands t ht).1, ?_⟩
  cases tokens with
  | nil => exact nomatch ht
  | cons u tokens =>
      rcases List.mem_cons.mp ht with rfl | ht
      · exact ⟨⟨tokens, illegal⟩, rfl⟩
      · have hbehind := (List.pairwise_cons.mp h.ordered).1 t ht
        obtain ⟨hge, hstands⟩ := h.stands u List.mem_cons_self
        have hlt := hstands.start_lt_stop
        omega

/-- An illegal character at the place where a splitting starts is all there is. -/
theorem eq_of_position_le (h : Splits cs start s) {i : Illegal} (hi : s.illegal = some i)
    (hle : i.position ≤ start) : i.position = start ∧ s = ⟨[], some i⟩ := by
  obtain ⟨tokens, illegal⟩ := s
  obtain rfl : illegal = some i := hi
  obtain ⟨hge, hbefore, -⟩ := h.illegal i rfl
  obtain rfl : tokens = [] := by
    refine List.eq_nil_iff_forall_not_mem.mpr fun t ht => ?_
    obtain ⟨hstart, hstands⟩ := h.stands t ht
    have hlt := hstands.start_lt_stop
    have hstop := hbefore t ht
    omega
  exact ⟨Nat.le_antisymm hle hge, rfl⟩

theorem spells_of_position_le (h : Splits cs start s) {i : Illegal} (hi : s.illegal = some i)
    (hle : i.position ≤ start) : Spells start s (cs.drop start) := by
  obtain ⟨rfl, rfl⟩ := h.eq_of_position_le hi hle
  obtain ⟨-, -, hchar, hignored, hbegins⟩ := h.illegal i rfl
  obtain ⟨hlt, hchar⟩ := List.getElem?_eq_some_iff.mp hchar
  obtain ⟨hword, hsign⟩ := not_or.mp hbegins
  rw [List.drop_eq_getElem_cons hlt, hchar]
  apply Spells.illegal
  · exact eq_false_of_ne_true (mt isIgnored_iff.mp hignored)
  · exact eq_false_of_ne_true (mt isWordStart_iff.mp hword)
  · exact signSymbol?_eq_none_iff.mpr hsign

/-- **What splits a text is what it spells.** -/
theorem spells (h : Splits cs start s) : Spells start s (cs.drop start) := by
  -- What stands next ends behind `start`, so less of the text is left.
  induction hsize : cs.length - start using Nat.strongRecOn generalizing start s with
  | ind size ih =>
      rcases Nat.lt_or_ge start cs.length with hlength | hlength
      · by_cases htokens : ∀ t ∈ s.tokens, start < t.start
        · by_cases hillegal : ∀ i, s.illegal = some i → start < i.position
          · obtain ⟨hignored, hrest⟩ :=
              (splits_blank_iff (List.getElem?_eq_getElem hlength) htokens hillegal).mp h
            rw [List.drop_eq_getElem_cons hlength]
            exact .blank (isIgnored_iff.mpr hignored) (ih _ (by omega) hrest rfl)
          · simp only [not_forall, Nat.not_lt, exists_prop] at hillegal
            obtain ⟨i, hi, hle⟩ := hillegal
            exact h.spells_of_position_le hi hle
        · simp only [not_forall, Nat.not_lt, exists_prop] at htokens
          obtain ⟨t, ht, hle⟩ := htokens
          obtain ⟨rfl, rest, rfl⟩ := h.exists_cons ht hle
          obtain ⟨hstands, hrest⟩ := splits_cons_iff.mp h
          have hlt := hstands.start_lt_stop
          exact hstands.spells (ih _ (by omega) hrest rfl)
      · rw [h.eq_of_length_le hlength, List.drop_eq_nil_of_le hlength]
        exact .done start

/-- A place that no token covers and that is not blank is not passed. -/
theorem exists_illegal_le (h : Splits cs start s) {place : Nat} {c : Char} (hplace : start ≤ place)
    (hc : cs[place]? = some c) (hignored : ¬ Ignored c) (hcovers : ¬ s.Covers place) :
    ∃ i, s.illegal = some i ∧ i.position ≤ place := by
  by_contra hnot
  simp only [not_exists, not_and, Nat.not_le] at hnot
  exact hignored (h.gaps place c hplace hc hcovers hnot)

/-- No token covers the illegal character, because all of them end before it. -/
theorem not_covers_position (h : Splits cs start s) {i : Illegal} (hi : s.illegal = some i) :
    ¬ s.Covers i.position := by
  rintro ⟨t, ht, -, hlt⟩
  have hstop := (h.illegal i hi).2.1 t ht
  omega

/-- An illegal character is reported exactly where one is reached: outside of all tokens, with nothing
but tokens and blanks before it. -/
theorem illegal_eq_some_iff (h : Splits cs start s) {i : Illegal} (hstart : start ≤ i.position) :
    s.illegal = some i ↔ cs[i.position]? = some i.char ∧ ¬ Ignored i.char ∧ ¬ BeginsToken i.char ∧
      ¬ s.Covers i.position ∧
      ∀ place c, start ≤ place → place < i.position → cs[place]? = some c →
        s.Covers place ∨ Ignored c := by
  constructor
  · intro hi
    obtain ⟨-, -, hchar, hignored, hbegins⟩ := h.illegal i hi
    refine ⟨hchar, hignored, hbegins, h.not_covers_position hi, fun place c hplace hlt hc => ?_⟩
    apply Classical.or_iff_not_imp_left.mpr
    intro hcovers
    apply h.gaps place c hplace hc hcovers
    intro j hj
    obtain rfl : i = j := Option.some.inj (hi.symm.trans hj)
    exact hlt
  · rintro ⟨hchar, hignored, -, hcovers, hbefore⟩
    -- The scan stops somewhere at or before this place, and it cannot have stopped before it.
    obtain ⟨j, hj, hle⟩ := h.exists_illegal_le hstart hchar hignored hcovers
    obtain ⟨hstart', -, hchar', hignored', -⟩ := h.illegal j hj
    have hposition : j.position = i.position := by
      refine Nat.le_antisymm hle (Nat.le_of_not_lt fun hlt => ?_)
      rcases hbefore _ _ hstart' hlt hchar' with hcovered | hblank
      · exact h.not_covers_position hj hcovered
      · exact hignored' hblank
    obtain ⟨char, position⟩ := i
    obtain ⟨char', position'⟩ := j
    obtain rfl : position' = position := hposition
    obtain rfl : char = char' := Option.some.inj (hchar.symm.trans hchar')
    exact hj

end Splits

/-- **Scanning splits every text, in the only way there is.** A scan is what scanning finds if and only
if each of its tokens stands in the text where it says, tokens follow one another without overlap, words
are as long as they can be, everything between is blank, and so is everything behind unless an illegal
character is reached there. Such a character is reported if and only if it is reached. -/
theorem scan_splits (text : String) :
    (∀ s : Scan, scan text = s ↔ Splits text.toList 0 s) ∧
      ∀ i : Illegal, (scan text).illegal = some i ↔
        text.toList[i.position]? = some i.char ∧ ¬ Ignored i.char ∧ ¬ BeginsToken i.char ∧
          ¬ (scan text).Covers i.position ∧
          ∀ place c, place < i.position → text.toList[place]? = some c →
            (scan text).Covers place ∨ Ignored c := by
  have hsplits (s : Scan) : scan text = s ↔ Splits text.toList 0 s := by
    rw [scan, scanFrom_eq_iff]
    exact ⟨fun h => h.splits rfl, fun h => h.spells⟩
  refine ⟨hsplits, fun i => ?_⟩
  rw [((hsplits _).mp rfl).illegal_eq_some_iff (Nat.zero_le i.position)]
  simp only [Nat.zero_le, forall_const]

example : scan "p1&\ttruex 1q" = ⟨[⟨.name "p1", 0⟩, ⟨.connective .conjunction, 2⟩,
    ⟨.name "truex", 4⟩], some ⟨'1', 10⟩⟩ := by decide +kernel

end PostfixSpec.Formula
