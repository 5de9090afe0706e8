import Mathlib.Data.List.TakeWhile
import PostfixSpec.Formula.Scan

/-!
# Spelling

What a scan finds is how the text spells it: blanks anywhere, signs, and words that do not touch a word
character behind them, up to the end or to a character that begins nothing. Every text spells one
scan, and that is the one that scanning finds.

A piece of text writes some symbols if it spells them wherever it stands, as long as no word character
follows. Pieces that write can be put together.
-/

namespace PostfixSpec.Formula

def isWord : List Char → Bool
  | [] => false
  | c :: cs => isWordStart c && cs.all isWordChar

/-- Whether a text is a name: a word, and none of the constants. -/
def isName (value : String) : Bool :=
  isWord value.toList && value != "true" && value != "false"

/-- Whether a word before some characters would go on into them. -/
def runsOn : List Char → Bool
  | [] => false
  | c :: _ => isWordChar c

/-- What characters spell of which `position` others stand in front. -/
inductive Spells : Nat → Scan → List Char → Prop
  | done (position : Nat) : Spells position ⟨[], none⟩ []
  | blank {position : Nat} {s : Scan} {c : Char} {cs : List Char} :
      isIgnored c = true → Spells (position + 1) s cs → Spells position s (c :: cs)
  | word {position : Nat} {s : Scan} {word cs : List Char} :
      isWord word = true → runsOn cs = false → Spells (position + word.length) s cs →
      Spells position (s.cons ⟨wordSymbol word, position⟩) (word ++ cs)
  | sign {position : Nat} {s : Scan} {symbol : Symbol} {c : Char} {cs : List Char} :
      signSymbol? c = some symbol → Spells (position + 1) s cs →
      Spells position (s.cons ⟨symbol, position⟩) (c :: cs)
  | illegal {position : Nat} {c : Char} (cs : List Char) :
      isIgnored c = false → isWordStart c = false → signSymbol? c = none →
      Spells position ⟨[], some ⟨c, position⟩⟩ (c :: cs)

/-! ### Kinds of characters -/

theorem isWordChar_of_isWordStart {c : Char} (h : isWordStart c = true) : isWordChar c = true := by
  rw [isWordChar, h, Bool.true_or]

theorem not_isWordChar_of_isIgnored {c : Char} (h : isIgnored c = true) : isWordChar c = false := by
  simp only [isIgnored, Bool.or_eq_true, decide_eq_true_eq] at h
  rcases h with ((rfl | rfl) | rfl) | rfl <;> decide

theorem not_isWordStart_of_not_isWordChar {c : Char} (h : isWordChar c = false) :
    isWordStart c = false := by
  refine eq_false_of_ne_true fun hstart => ?_
  rw [isWordChar_of_isWordStart hstart] at h
  exact nomatch h

theorem not_isIgnored_of_isWordStart {c : Char} (h : isWordStart c = true) :
    isIgnored c = false := by
  refine eq_false_of_ne_true fun hignored => ?_
  rw [not_isWordStart_of_not_isWordChar (not_isWordChar_of_isIgnored hignored)] at h
  exact nomatch h

/-- A sign is neither a blank nor part of a word. -/
theorem not_of_signSymbol? {c : Char} {symbol : Symbol} (h : signSymbol? c = some symbol) :
    isIgnored c = false ∧ isWordChar c = false := by
  have hc : c = '!' ∨ c = '&' ∨ c = '|' ∨ c = '(' ∨ c = ')' := by
    unfold signSymbol? at h
    grind
  rcases hc with rfl | rfl | rfl | rfl | rfl <;> decide

theorem isWord_cons {c : Char} {cs : List Char} :
    isWord (c :: cs) = true ↔ isWordStart c = true ∧ ∀ d ∈ cs, isWordChar d = true := by
  rw [isWord, Bool.and_eq_true, List.all_eq_true]

theorem isWordChar_of_mem_isWord {word : List Char} (h : isWord word = true) :
    ∀ c ∈ word, isWordChar c = true := by
  cases word with
  | nil => exact nomatch h
  | cons c word =>
      obtain ⟨hc, hword⟩ := isWord_cons.mp h
      exact List.forall_mem_cons.mpr ⟨isWordChar_of_isWordStart hc, hword⟩

/-! ### Names -/

theorem wordSymbol_of_isName {value : String} (h : isName value = true) :
    wordSymbol value.toList = .name value := by
  simp only [isName, Bool.and_eq_true, bne_iff_ne] at h
  have htrue : value.toList ≠ "true".toList := fun he => h.1.2 (String.toList_injective he)
  have hfalse : value.toList ≠ "false".toList := fun he => h.2 (String.toList_injective he)
  rw [wordSymbol, if_neg htrue, if_neg hfalse, String.ofList_toList]

theorem isName_of_wordSymbol {word : List Char} {value : String} (hword : isWord word = true)
    (h : wordSymbol word = .name value) : isName value = true := by
  unfold wordSymbol at h
  split_ifs at h with htrue hfalse
  cases h
  simp only [isName, Bool.and_eq_true, bne_iff_ne, String.toList_ofList]
  refine ⟨⟨hword, ?_⟩, ?_⟩
  · rintro he
    exact htrue (by rw [← he, String.toList_ofList])
  · rintro he
    exact hfalse (by rw [← he, String.toList_ofList])

theorem ne_name_of_signSymbol? {c : Char} {symbol : Symbol} (h : signSymbol? c = some symbol)
    (value : String) : symbol ≠ .name value := by
  rintro rfl
  unfold signSymbol? at h
  split_ifs at h <;> cases h

/-! ### The texts of symbols -/

theorem toList_text_wordSymbol (word : List Char) : (wordSymbol word).text.toList = word := by
  unfold wordSymbol
  split_ifs with htrue hfalse
  · exact htrue.symm
  · exact hfalse.symm
  · exact String.toList_ofList

theorem toList_text_of_signSymbol? {c : Char} {symbol : Symbol} (h : signSymbol? c = some symbol) :
    symbol.text.toList = [c] := by
  unfold signSymbol? at h
  split_ifs at h with hc hc hc hc hc <;> cases h <;> cases hc <;> rfl

/-! ### Scanning finds what is spelled -/

theorem runsOn_of_isWord {word : List Char} (h : isWord word = true) (cs : List Char) :
    runsOn (word ++ cs) = true := by
  cases word with
  | nil => exact absurd h Bool.false_ne_true
  | cons c word => exact isWordChar_of_isWordStart (isWord_cons.mp h).1

theorem takeWhile_of_runsOn {cs : List Char} (h : runsOn cs = false) :
    cs.takeWhile isWordChar = [] := by
  cases cs with
  | nil => rfl
  | cons c cs => exact List.takeWhile_cons_of_neg (ne_true_of_eq_false h)

theorem dropWhile_of_runsOn {cs : List Char} (h : runsOn cs = false) :
    cs.dropWhile isWordChar = cs := by
  cases cs with
  | nil => rfl
  | cons c cs => exact List.dropWhile_cons_of_neg (ne_true_of_eq_false h)

theorem runsOn_dropWhile (cs : List Char) : runsOn (cs.dropWhile isWordChar) = false := by
  cases h : cs.dropWhile isWordChar with
  | nil => rfl
  | cons c rest =>
      have hne : cs.dropWhile isWordChar ≠ [] := by rw [h]; exact List.cons_ne_nil c rest
      have hhead := List.head_dropWhile_not isWordChar hne
      simp only [h, List.head_cons] at hhead
      exact hhead

theorem Spells.scanFrom_eq {position : Nat} {s : Scan} {cs : List Char}
    (h : Spells position s cs) : scanFrom position cs = s := by
  induction h with
  | done position => rw [scanFrom]
  | blank hc _ ih => rw [scanFrom, if_pos hc, ih]
  | @word position s word cs hword hruns _ ih =>
      cases word with
      | nil => exact absurd hword Bool.false_ne_true
      | cons c word =>
          -- The scanner takes the longest word, and that ends where the spelling says.
          obtain ⟨hc, hrest⟩ := isWord_cons.mp hword
          have htake : (word ++ cs).takeWhile isWordChar = word := by
            rw [List.takeWhile_append_of_pos hrest, takeWhile_of_runsOn hruns, List.append_nil]
          have hdrop : (word ++ cs).dropWhile isWordChar = cs := by
            rw [List.dropWhile_append_of_pos hrest, dropWhile_of_runsOn hruns]
          rw [List.cons_append, scanFrom, if_neg (ne_true_of_eq_false (not_isIgnored_of_isWordStart hc)),
            if_pos hc]
          simp only [htake, hdrop, ih]
  | sign hsign _ ih =>
      obtain ⟨hignored, hchar⟩ := not_of_signSymbol? hsign
      have hstart := not_isWordStart_of_not_isWordChar hchar
      rw [scanFrom, if_neg (ne_true_of_eq_false hignored), if_neg (ne_true_of_eq_false hstart),
        hsign, ← ih]
  | illegal cs hignored hstart hsign =>
      rw [scanFrom, if_neg (ne_true_of_eq_false hignored), if_neg (ne_true_of_eq_false hstart),
        hsign]

theorem spells_scanFrom (position : Nat) (cs : List Char) :
    Spells position (scanFrom position cs) cs := by
  fun_induction scanFrom position cs with
  | case1 position => exact .done position
  | case2 position c cs hignored ih => exact .blank hignored ih
  | case3 position c cs hignored hstart word ih =>
      have hword : isWord word = true :=
        isWord_cons.mpr ⟨hstart, fun d hd => List.mem_takeWhile_imp hd⟩
      have hsplit : c :: cs = word ++ cs.dropWhile isWordChar := by
        rw [List.cons_append, List.takeWhile_append_dropWhile]
      rw [hsplit]
      exact .word hword (runsOn_dropWhile cs) ih
  | case4 position c cs hignored hstart symbol hsign ih => exact .sign hsign ih
  | case5 position c cs hignored hstart hsign =>
      exact .illegal cs (eq_false_of_ne_true hignored)
        (eq_false_of_ne_true hstart) hsign

/-- **Scanning finds what is spelled.** -/
theorem scanFrom_eq_iff {position : Nat} {s : Scan} {cs : List Char} :
    scanFrom position cs = s ↔ Spells position s cs :=
  ⟨fun h => h ▸ spells_scanFrom position cs, Spells.scanFrom_eq⟩

/-- What is scanned as a name is a name. -/
theorem isName_of_mem_scan {text value : String}
    (h : .name value ∈ (scan text).tokens.map (·.symbol)) : isName value = true := by
  suffices ∀ {position s cs}, Spells position s cs →
      .name value ∈ s.tokens.map (·.symbol) → isName value = true from
    this (spells_scanFrom 0 text.toList) h
  intro position s cs hspells hname
  induction hspells with
  | done => exact nomatch hname
  | blank _ _ ih => exact ih hname
  | word hword _ _ ih =>
      rcases List.mem_cons.mp hname with hfirst | hrest
      · exact isName_of_wordSymbol hword hfirst.symm
      · exact ih hrest
  | sign hsign _ ih =>
      rcases List.mem_cons.mp hname with hfirst | hrest
      · exact absurd hfirst.symm (ne_name_of_signSymbol? hsign value)
      · exact ih hrest
  | illegal => exact nomatch hname

/-! ### Pieces of text -/

/-- A piece of text writes some symbols: it spells them, wherever it stands, in front of anything that
is no word character. -/
def Writes (cs : List Char) (xs : List Symbol) : Prop :=
  ∀ (position : Nat) (s : Scan) (rest : List Char), runsOn rest = false →
    Spells (position + cs.length) s rest →
    ∃ tokens : List Token, tokens.map (·.symbol) = xs ∧
      Spells position ⟨tokens ++ s.tokens, s.illegal⟩ (cs ++ rest)

theorem writes_nil : Writes [] [] := fun _ _ _ _ hs => ⟨[], rfl, hs⟩

theorem Writes.blank {c : Char} {cs : List Char} {xs : List Symbol} (hc : isIgnored c = true)
    (h : Writes cs xs) : Writes (c :: cs) xs := by
  intro position s rest hrest hs
  rw [List.length_cons, Nat.add_comm cs.length, ← Nat.add_assoc] at hs
  obtain ⟨tokens, hsymbols, hspells⟩ := h _ s rest hrest hs
  exact ⟨tokens, hsymbols, .blank hc hspells⟩

theorem Writes.sign {c : Char} {symbol : Symbol} {cs : List Char} {xs : List Symbol}
    (hc : signSymbol? c = some symbol) (h : Writes cs xs) : Writes (c :: cs) (symbol :: xs) := by
  intro position s rest hrest hs
  rw [List.length_cons, Nat.add_comm cs.length, ← Nat.add_assoc] at hs
  obtain ⟨tokens, hsymbols, hspells⟩ := h _ s rest hrest hs
  exact ⟨⟨symbol, position⟩ :: tokens, congrArg (symbol :: ·) hsymbols, .sign hc hspells⟩

theorem writes_word {word : List Char} (hword : isWord word = true) :
    Writes word [wordSymbol word] := by
  intro position s rest hrest hs
  exact ⟨[⟨wordSymbol word, position⟩], rfl, .word hword hrest hs⟩

/-- Pieces one after the other write their symbols, unless a word of the first could go on into the
second. -/
theorem Writes.append {cs ds : List Char} {xs ys : List Symbol} (hcs : Writes cs xs)
    (hds : Writes ds ys) (hruns : runsOn ds = false) : Writes (cs ++ ds) (xs ++ ys) := by
  intro position s rest hrest hs
  rw [List.length_append, ← Nat.add_assoc] at hs
  obtain ⟨after, hafter, hspells⟩ := hds _ s rest hrest hs
  have hbehind : runsOn (ds ++ rest) = false := by
    cases ds with
    | nil => exact hrest
    | cons d ds => exact hruns
  obtain ⟨before, hbefore, hspells⟩ := hcs position _ _ hbehind hspells
  refine ⟨before ++ after, by rw [List.map_append, hbefore, hafter], ?_⟩
  rw [List.append_assoc, List.append_assoc]
  exact hspells

/-- What is spelled up to the end is written. -/
theorem Spells.writes {position : Nat} {s : Scan} {cs : List Char} (h : Spells position s cs)
    (hlegal : s.illegal = none) : Writes cs (s.tokens.map (·.symbol)) := by
  induction h with
  | done position => exact writes_nil
  | blank hc _ ih => exact (ih hlegal).blank hc
  | word hword hruns _ ih => exact (writes_word hword).append (ih hlegal) hruns
  | sign hsign _ ih => exact (ih hlegal).sign hsign
  | illegal => exact nomatch hlegal

/-- A text that writes some symbols is scanned as them. -/
theorem Writes.scan_eq {text : String} {xs : List Symbol} (h : Writes text.toList xs) :
    (scan text).illegal = none ∧ (scan text).tokens.map (·.symbol) = xs := by
  obtain ⟨tokens, hsymbols, hspells⟩ := h 0 ⟨[], none⟩ [] rfl (.done _)
  rw [List.append_nil, List.append_nil] at hspells
  have hscan : scan text = ⟨tokens, none⟩ := hspells.scanFrom_eq
  rw [hscan]
  exact ⟨rfl, hsymbols⟩

/-! ### Texts with signs around them -/

theorem Writes.between (c : Connective) {t u : String} {xs ys : List Symbol}
    (ht : Writes t.toList xs) (hu : Writes u.toList ys) :
    Writes (t ++ c.sign ++ u).toList (xs ++ .connective c :: ys) := by
  rw [String.toList_append, String.toList_append, List.append_assoc]
  cases c with
  | conjunction => exact ht.append (hu.sign (c := '&') rfl) rfl
  | disjunction => exact ht.append (hu.sign (c := '|') rfl) rfl

theorem Writes.negated {t : String} {xs : List Symbol} (ht : Writes t.toList xs) :
    Writes ("!" ++ t).toList (.negation :: xs) := by
  rw [String.toList_append]
  exact ht.sign (c := '!') rfl

theorem Writes.grouped {t : String} {xs : List Symbol} (ht : Writes t.toList xs) :
    Writes ("(" ++ t ++ ")").toList (.opening :: xs ++ [.closing]) := by
  have hclosing : Writes [')'] [.closing] := writes_nil.sign rfl
  rw [String.toList_append, String.toList_append]
  exact (ht.append hclosing rfl).sign (c := '(') rfl

end PostfixSpec.Formula
