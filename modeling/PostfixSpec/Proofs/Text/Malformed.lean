import Mathlib.Order.Bounds.Defs
import PostfixSpec.Proofs.Text.Utf8

/-!
# Malformed bytes

Bytes are well formed if they encode a text. The decoder reads one sequence after the other, and there
are two ways only in which it leaves the beginning of a sequence: the sequence encodes a character, or it
is reported, with its place. So it decodes well-formed bytes and no others, and an error stands where
the longest well-formed beginning ends. Nothing longer is well formed, because the decoder reads over
encoded text without looking behind it.
-/

namespace PostfixSpec.Text.Utf8

/-- Whether bytes encode a text. -/
def WellFormed (bytes : List UInt8) : Prop := ∃ cs, encode cs = bytes

@[simp] theorem encode_append (cs ds : List Char) : encode (cs ++ ds) = encode cs ++ encode ds :=
  List.flatMap_append

theorem encode_cons (c : Char) (cs : List Char) :
    encode (c :: cs) = String.utf8EncodeChar c ++ encode cs := List.flatMap_cons

/-! ### Sequences of a character

The ranges of the bytes behind a lead byte leave no number that is not a character's, and none that
has a shorter sequence.
-/

/-- Whether bytes may stand behind a lead byte that asks for the range of the first of them. -/
def Continues (low high : Nat) : List UInt8 → Prop
  | [] => True
  | b :: rest => (low ≤ b.toNat ∧ b.toNat ≤ high) ∧ ∀ c ∈ rest, 0x80 ≤ c.toNat ∧ c.toNat ≤ 0xbf

theorem ofNat_eq_of_toNat {b : UInt8} {n : Nat} (h : n = b.toNat) : UInt8.ofNat n = b := by
  rw [h, UInt8.ofNat_toNat]

theorem toNat_ofNat {v : Nat} (h : v < 0xd800 ∨ 0xdfff < v ∧ v < 0x110000) :
    (Char.ofNat v).val.toNat = v := by
  have hvalid : v.isValidChar := h
  rw [Char.ofNat, dif_pos hvalid]
  rfl

theorem exists_char_one {a : UInt8} (ha : a.toNat < 0x80) :
    ∃ c, String.utf8EncodeChar c = [a] := by
  refine ⟨Char.ofNat a.toNat, ?_⟩
  unfold String.utf8EncodeChar
  simp only [toNat_ofNat (v := a.toNat) (by omega)]
  rw [if_pos (by omega), UInt8.ofNat_toNat]

theorem exists_char_two {a b : UInt8} (ha : 0xc2 ≤ a.toNat ∧ a.toNat < 0xe0)
    (hb : 0x80 ≤ b.toNat ∧ b.toNat ≤ 0xbf) : ∃ c, String.utf8EncodeChar c = [a, b] := by
  obtain ⟨v, hv⟩ : ∃ v, v = extended (a.toNat - 0xc0) b.toNat := ⟨_, rfl⟩
  unfold extended at hv
  refine ⟨Char.ofNat v, ?_⟩
  unfold String.utf8EncodeChar
  simp only [toNat_ofNat (v := v) (by omega)]
  rw [if_neg (by omega), if_pos (by omega), ofNat_eq_of_toNat (b := a) (by omega),
    ofNat_eq_of_toNat (b := b) (by omega)]

theorem exists_char_three {a b c : UInt8} (ha : 0xe0 ≤ a.toNat ∧ a.toNat < 0xf0)
    (hb : (if a.toNat = 0xe0 then 0xa0 else 0x80) ≤ b.toNat ∧
      b.toNat ≤ if a.toNat = 0xed then 0x9f else 0xbf)
    (hc : 0x80 ≤ c.toNat ∧ c.toNat ≤ 0xbf) : ∃ d, String.utf8EncodeChar d = [a, b, c] := by
  obtain ⟨v, hv⟩ : ∃ v, v = extended (extended (a.toNat - 0xe0) b.toNat) c.toNat := ⟨_, rfl⟩
  unfold extended at hv
  have hbounds : 0x7ff < v ∧ v ≤ 0xffff ∧ (v < 0xd800 ∨ 0xdfff < v) ∧
      0x80 ≤ b.toNat ∧ b.toNat ≤ 0xbf := by
    split_ifs at hb <;> omega
  refine ⟨Char.ofNat v, ?_⟩
  unfold String.utf8EncodeChar
  simp only [toNat_ofNat (v := v) (by omega)]
  rw [if_neg (by omega), if_neg (by omega), if_pos (by omega),
    ofNat_eq_of_toNat (b := a) (by omega), ofNat_eq_of_toNat (b := b) (by omega),
    ofNat_eq_of_toNat (b := c) (by omega)]

theorem exists_char_four {a b c d : UInt8} (ha : 0xf0 ≤ a.toNat ∧ a.toNat < 0xf5)
    (hb : (if a.toNat = 0xf0 then 0x90 else 0x80) ≤ b.toNat ∧
      b.toNat ≤ if a.toNat = 0xf4 then 0x8f else 0xbf)
    (hc : 0x80 ≤ c.toNat ∧ c.toNat ≤ 0xbf) (hd : 0x80 ≤ d.toNat ∧ d.toNat ≤ 0xbf) :
    ∃ e, String.utf8EncodeChar e = [a, b, c, d] := by
  obtain ⟨v, hv⟩ : ∃ v, v = extended (extended (extended (a.toNat - 0xf0) b.toNat) c.toNat) d.toNat :=
    ⟨_, rfl⟩
  unfold extended at hv
  have hbounds : 0xffff < v ∧ v < 0x110000 ∧ 0x80 ≤ b.toNat ∧ b.toNat ≤ 0xbf := by
    split_ifs at hb <;> omega
  refine ⟨Char.ofNat v, ?_⟩
  unfold String.utf8EncodeChar
  simp only [toNat_ofNat (v := v) (by omega)]
  rw [if_neg (by omega), if_neg (by omega), if_neg (by omega),
    ofNat_eq_of_toNat (b := a) (by omega), ofNat_eq_of_toNat (b := b) (by omega),
    ofNat_eq_of_toNat (b := c) (by omega), ofNat_eq_of_toNat (b := d) (by omega)]

theorem range_of_lead {b missing low high code : Nat} (h : lead b = .more missing low high code) :
    0xc2 ≤ b ∧ b < 0xe0 ∨ 0xe0 ≤ b ∧ b < 0xf0 ∨ 0xf0 ≤ b ∧ b < 0xf5 := by
  by_contra hrange
  rw [lead] at h
  by_cases hone : b < 0x80
  · rw [if_pos hone] at h
    cases h
  · by_cases hnone : b < 0xc2
    · rw [if_neg hone, if_pos hnone] at h
      cases h
    · rw [if_neg hone, if_neg hnone, if_neg (by omega), if_neg (by omega), if_neg (by omega)] at h
      cases h

/-- A lead byte with as many continuation bytes as it asks for encodes a character. -/
theorem exists_char_of_lead {a : UInt8} {missing low high code : Nat}
    (h : lead a.toNat = .more missing low high code) {tail : List UInt8}
    (hlength : tail.length = missing) (htail : Continues low high tail) :
    ∃ c, String.utf8EncodeChar c = a :: tail := by
  rcases range_of_lead h with htwo | hthree | hfour
  · rw [lead_two htwo.1 htwo.2] at h
    cases h
    obtain ⟨b, rfl⟩ := List.length_eq_one_iff.mp hlength
    exact exists_char_two htwo htail.1
  · rw [lead_three hthree.1 hthree.2] at h
    cases h
    obtain ⟨b, c, rfl⟩ := List.length_eq_two.mp hlength
    obtain ⟨hb, hrest⟩ := htail
    exact exists_char_three hthree hb (hrest c List.mem_cons_self)
  · rw [lead_four hfour.1 hfour.2] at h
    cases h
    obtain ⟨b, c, d, rfl⟩ := List.length_eq_three.mp hlength
    obtain ⟨hb, hrest⟩ := htail
    exact exists_char_four hfour hb (hrest c List.mem_cons_self)
      (hrest d (List.mem_cons_of_mem _ List.mem_cons_self))

/-! ### One sequence -/

/-- Behind the beginning of a sequence, either its missing bytes follow, or it is reported. -/
theorem exists_continues_or_error (position : Nat) (p : Partway) (bytes : List UInt8)
    (hmissing : 0 < p.missing) :
    (∃ tail rest, bytes = tail ++ rest ∧ tail.length = p.missing ∧ Continues p.low p.high tail) ∨
      ∃ error, decodeFrom position (some p) bytes = .error error ∧ error.start = p.start := by
  induction bytes generalizing position p with
  | nil => exact .inr ⟨_, rfl, rfl⟩
  | cons b bytes ih =>
      by_cases hrange : p.low ≤ b.toNat ∧ b.toNat ≤ p.high
      · by_cases hlast : p.missing = 1
        · exact .inl ⟨[b], bytes, rfl, hlast.symm, hrange, nofun⟩
        · rw [decodeFrom, if_pos hrange, if_neg hlast]
          have hleft : 0 < p.missing - 1 := by omega
          rcases ih (position + 1) ⟨p.start, p.first, p.read + 1, p.missing - 1, 0x80, 0xbf,
            extended p.code b.toNat⟩ hleft with ⟨tail, rest, rfl, hlength, htail⟩ | herror
          · refine .inl ⟨b :: tail, rest, rfl, ?_, hrange, ?_⟩
            · rw [List.length_cons, hlength]
              exact Nat.sub_add_cancel hmissing
            · cases tail with
              | nil => exact nofun
              | cons c tail => exact List.forall_mem_cons.mpr htail
          · exact .inr herror
      · exact .inr ⟨p.error .badContinuation, by rw [decodeFrom, if_neg hrange], rfl⟩

/-- **A sequence encodes a character, or it is reported.** -/
theorem exists_char_or_error (position : Nat) {bytes : List UInt8} (hne : bytes ≠ []) :
    (∃ c rest, bytes = String.utf8EncodeChar c ++ rest) ∨
      ∃ error, decodeFrom position none bytes = .error error ∧ error.start = position := by
  obtain ⟨a, bytes, rfl⟩ := List.exists_cons_of_ne_nil hne
  cases hlead : lead a.toNat with
  | complete code =>
      have ha : a.toNat < 0x80 := by
        by_contra hlarge
        unfold lead at hlead
        split_ifs at hlead
      obtain ⟨c, hc⟩ := exists_char_one ha
      exact .inl ⟨c, bytes, by rw [hc]; rfl⟩
  | more missing low high code =>
      have hmissing : 0 < missing := by
        unfold lead at hlead
        split_ifs at hlead <;> cases hlead <;> decide
      rw [decodeFrom, hlead]
      rcases exists_continues_or_error (position + 1) ⟨position, a, 1, missing, low, high, code⟩ bytes
        hmissing with ⟨tail, rest, rfl, hlength, htail⟩ | herror
      · obtain ⟨c, hc⟩ := exists_char_of_lead hlead hlength htail
        exact .inl ⟨c, rest, by rw [hc]; rfl⟩
      · exact .inr herror
  | invalid => exact .inr ⟨_, by rw [decodeFrom, hlead], rfl⟩

/-! ### All bytes -/

/-- Encoded text is decoded whatever stands behind it. -/
theorem decodeFrom_encode_append (position : Nat) (cs : List Char) (rest : List UInt8) :
    decodeFrom position none (encode cs ++ rest)
      = (decodeFrom (position + (encode cs).length) none rest).map (cs ++ ·) := by
  induction cs generalizing position with
  | nil =>
      show decodeFrom position none rest = (decodeFrom position none rest).map id
      cases decodeFrom position none rest <;> rfl
  | cons c cs ih =>
      rw [encode_cons, List.append_assoc, decodeFrom_utf8EncodeChar, ih, List.length_append,
        Nat.add_assoc]
      cases decodeFrom (position + ((String.utf8EncodeChar c).length + (encode cs).length)) none rest <;>
        rfl

/-- Bytes are encoded text, or encoded text with a sequence behind it that is reported. -/
theorem exists_encode_or_error (bytes : List UInt8) :
    ∃ cs rest, bytes = encode cs ++ rest ∧
      (rest = [] ∨ ∀ position, ∃ error, decodeFrom position none rest = .error error ∧
        error.start = position) := by
  induction hsize : bytes.length using Nat.strongRecOn generalizing bytes with
  | ind size ih =>
      by_cases hne : bytes = []
      · exact ⟨[], [], hne, .inl rfl⟩
      · by_cases hchar : ∃ c rest, bytes = String.utf8EncodeChar c ++ rest
        · obtain ⟨c, rest, rfl⟩ := hchar
          have hsmaller : rest.length < size := by
            have := String.length_utf8EncodeChar c
            have := c.utf8Size_pos
            rw [List.length_append] at hsize
            omega
          obtain ⟨cs, rest, rfl, hrest⟩ := ih _ hsmaller rest rfl
          exact ⟨c :: cs, rest, by rw [encode_cons, List.append_assoc], hrest⟩
        · refine ⟨[], bytes, rfl, .inr fun position => ?_⟩
          exact (exists_char_or_error position hne).resolve_left hchar

/-- **Decoding inverts encoding, and nothing else decodes.** -/
theorem decode_eq_ok_iff {bytes : List UInt8} {cs : List Char} :
    decode bytes = .ok cs ↔ encode cs = bytes := by
  constructor
  · intro h
    obtain ⟨ds, rest, rfl, rfl | hrest⟩ := exists_encode_or_error bytes
    · rw [List.append_nil] at h ⊢
      rw [decode_encode] at h
      rw [Except.ok.inj h]
    · obtain ⟨error, herror, -⟩ := hrest (0 + (encode ds).length)
      rw [decode, decodeFrom_encode_append, herror] at h
      exact nomatch h
  · rintro rfl
    exact decode_encode cs

theorem exists_start_of_error {position : Nat} {bytes : List UInt8} {error : DecodeError}
    (h : decodeFrom position none bytes = .error error) :
    ∃ cs rest, bytes = encode cs ++ rest ∧ error.start = position + (encode cs).length := by
  obtain ⟨cs, rest, rfl, hrest⟩ := exists_encode_or_error bytes
  refine ⟨cs, rest, rfl, ?_⟩
  rw [decodeFrom_encode_append] at h
  rcases hrest with rfl | hrest
  · exact nomatch h
  · obtain ⟨error', herror, hstart⟩ := hrest (position + (encode cs).length)
    rw [herror] at h
    rw [← hstart, Except.error.inj h]

/-- **An error stands where the longest well-formed beginning ends.** -/
theorem isGreatest_start {bytes : List UInt8} {error : DecodeError} (h : decode bytes = .error error) :
    IsGreatest {n | ∃ front, front <+: bytes ∧ WellFormed front ∧ front.length = n} error.start := by
  constructor
  · obtain ⟨cs, rest, rfl, hstart⟩ := exists_start_of_error h
    rw [Nat.zero_add] at hstart
    exact ⟨encode cs, List.prefix_append _ _, ⟨cs, rfl⟩, hstart.symm⟩
  · rintro _ ⟨_, ⟨rest, rfl⟩, ⟨cs, rfl⟩, rfl⟩
    rw [decode, decodeFrom_encode_append, Nat.zero_add] at h
    cases hrest : decodeFrom (encode cs).length none rest with
    | ok ds =>
        rw [hrest] at h
        exact nomatch h
    | error error' =>
        rw [hrest] at h
        cases h
        obtain ⟨_, _, -, hstart⟩ := exists_start_of_error hrest
        exact hstart ▸ Nat.le_add_right _ _

end PostfixSpec.Text.Utf8
