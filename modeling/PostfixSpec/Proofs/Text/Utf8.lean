import Mathlib.Data.List.Basic
import PostfixSpec.Text.Utf8

/-!
# Encoded text decodes

Decoding is one pass over bytes, so what it makes of encoded text can be said one character at a time:
between two characters nothing is remembered, and the bytes of one character give that character and
leave nothing open. The sequences of a character have one to four bytes, and the lead byte alone tells
how many.
-/

namespace PostfixSpec.Text.Utf8

/-- A surrogate is no character, and neither is a number beyond the last one. -/
theorem toNat_valid (c : Char) : c.toNat < 0xd800 ∨ 0xdfff < c.toNat ∧ c.toNat < 0x110000 := c.valid

/-! ### Sequences by their length -/

section

variable (position : Nat) (rest : List UInt8)

theorem decodeFrom_complete {b : Nat} (hb : b < 0x80) :
    decodeFrom position none (UInt8.ofNat b :: rest)
      = (decodeFrom (position + 1) none rest).map (Char.ofNat b :: ·) := by
  have hbyte := UInt8.toNat_ofNat_of_lt' (show b < UInt8.size from Nat.lt_trans hb (by decide))
  have hlead : lead b = .complete b := if_pos hb
  rw [decodeFrom, hbyte, hlead]
  cases decodeFrom (position + 1) none rest <;> rfl

theorem decodeFrom_lead {b missing low high code : Nat} (hb : b < 256)
    (hlead : lead b = .more missing low high code) :
    decodeFrom position none (UInt8.ofNat b :: rest)
      = decodeFrom (position + 1)
          (some ⟨position, UInt8.ofNat b, 1, missing, low, high, code⟩) rest := by
  rw [decodeFrom, UInt8.toNat_ofNat_of_lt' hb, hlead]

theorem decodeFrom_continue {p : Partway} {b : Nat} (hb : b < 256) (hlow : p.low ≤ b)
    (hhigh : b ≤ p.high) (hmissing : p.missing ≠ 1) :
    decodeFrom position (some p) (UInt8.ofNat b :: rest)
      = decodeFrom (position + 1)
          (some ⟨p.start, p.first, p.read + 1, p.missing - 1, 0x80, 0xbf, extended p.code b⟩)
          rest := by
  rw [decodeFrom, UInt8.toNat_ofNat_of_lt' hb, if_pos ⟨hlow, hhigh⟩, if_neg hmissing]

theorem decodeFrom_last {p : Partway} {b : Nat} (hb : b < 256) (hlow : p.low ≤ b)
    (hhigh : b ≤ p.high) (hmissing : p.missing = 1) :
    decodeFrom position (some p) (UInt8.ofNat b :: rest)
      = (decodeFrom (position + 1) none rest).map (Char.ofNat (extended p.code b) :: ·) := by
  rw [decodeFrom, UInt8.toNat_ofNat_of_lt' hb, if_pos ⟨hlow, hhigh⟩, if_pos hmissing]
  cases decodeFrom (position + 1) none rest <;> rfl

end

theorem lead_two {b : Nat} (h : 0xc2 ≤ b) (h' : b < 0xe0) :
    lead b = .more 1 0x80 0xbf (b - 0xc0) := by
  rw [lead, if_neg (by omega), if_neg (by omega), if_pos h']

theorem lead_three {b : Nat} (h : 0xe0 ≤ b) (h' : b < 0xf0) :
    lead b = .more 2 (if b = 0xe0 then 0xa0 else 0x80) (if b = 0xed then 0x9f else 0xbf)
      (b - 0xe0) := by
  rw [lead, if_neg (by omega), if_neg (by omega), if_neg (by omega), if_pos h']

theorem lead_four {b : Nat} (h : 0xf0 ≤ b) (h' : b < 0xf5) :
    lead b = .more 3 (if b = 0xf0 then 0x90 else 0x80) (if b = 0xf4 then 0x8f else 0xbf)
      (b - 0xf0) := by
  rw [lead, if_neg (by omega), if_neg (by omega), if_neg (by omega), if_neg (by omega), if_pos h']

/-! ### One character -/

section

variable (position : Nat) (rest : List UInt8) {v : Nat}

theorem decodeFrom_two (h : 0x7f < v) (h' : v ≤ 0x7ff) :
    decodeFrom position none
        (UInt8.ofNat (v / 64 % 32 + 192) :: UInt8.ofNat (v % 64 + 128) :: rest)
      = (decodeFrom (position + 2) none rest).map (Char.ofNat v :: ·) := by
  have hlead := lead_two (b := v / 64 % 32 + 192) (by omega) (by omega)
  have hcode : extended (v / 64 % 32 + 192 - 0xc0) (v % 64 + 128) = v := by
    unfold extended
    omega
  rw [decodeFrom_lead position _ (by omega) hlead]
  rw [decodeFrom_last _ rest (by omega) (by dsimp only; omega) (by dsimp only; omega) rfl, hcode]

theorem decodeFrom_three (h : 0x7ff < v) (h' : v ≤ 0xffff) (hvalid : v < 0xd800 ∨ 0xdfff < v) :
    decodeFrom position none
        (UInt8.ofNat (v / 4096 % 16 + 224) :: UInt8.ofNat (v / 64 % 64 + 128) ::
          UInt8.ofNat (v % 64 + 128) :: rest)
      = (decodeFrom (position + 3) none rest).map (Char.ofNat v :: ·) := by
  have hlead := lead_three (b := v / 4096 % 16 + 224) (by omega) (by omega)
  have hcode : extended (extended (v / 4096 % 16 + 224 - 0xe0) (v / 64 % 64 + 128)) (v % 64 + 128)
      = v := by
    unfold extended
    omega
  rw [decodeFrom_lead position _ (by omega) hlead]
  -- The narrower ranges behind the lead bytes 0xe0 and 0xed leave out what is no character anyway.
  rw [decodeFrom_continue _ _ (by omega) (by dsimp only; split_ifs <;> omega)
    (by dsimp only; split_ifs <;> omega) (by dsimp only; omega)]
  rw [decodeFrom_last _ rest (by omega) (by dsimp only; omega) (by dsimp only; omega) rfl, hcode]

theorem decodeFrom_four (h : 0xffff < v) (h' : v < 0x110000) :
    decodeFrom position none
        (UInt8.ofNat (v / 262144 % 8 + 240) :: UInt8.ofNat (v / 4096 % 64 + 128) ::
          UInt8.ofNat (v / 64 % 64 + 128) :: UInt8.ofNat (v % 64 + 128) :: rest)
      = (decodeFrom (position + 4) none rest).map (Char.ofNat v :: ·) := by
  have hlead := lead_four (b := v / 262144 % 8 + 240) (by omega) (by omega)
  have hcode : extended (extended (extended (v / 262144 % 8 + 240 - 0xf0) (v / 4096 % 64 + 128))
      (v / 64 % 64 + 128)) (v % 64 + 128) = v := by
    unfold extended
    omega
  rw [decodeFrom_lead position _ (by omega) hlead]
  rw [decodeFrom_continue _ _ (by omega) (by dsimp only; split_ifs <;> omega)
    (by dsimp only; split_ifs <;> omega) (by dsimp only; omega)]
  rw [decodeFrom_continue _ _ (by omega) (by dsimp only; omega) (by dsimp only; omega)
    (by dsimp only; omega)]
  rw [decodeFrom_last _ rest (by omega) (by dsimp only; omega) (by dsimp only; omega) rfl, hcode]

/-- The bytes of a character decode to it, whatever follows. -/
theorem decodeFrom_utf8EncodeChar (c : Char) :
    decodeFrom position none (String.utf8EncodeChar c ++ rest)
      = (decodeFrom (position + (String.utf8EncodeChar c).length) none rest).map (c :: ·) := by
  have hvalid := toNat_valid c
  have hchar := Char.ofNat_toNat c
  have hval : c.val.toNat = c.toNat := rfl
  unfold String.utf8EncodeChar
  simp only [hval]
  split_ifs with hone htwo hthree
  · have hbytes := decodeFrom_complete position rest (b := c.toNat) (by omega)
    rwa [hchar] at hbytes
  · have hbytes := decodeFrom_two position rest (v := c.toNat) (by omega) htwo
    rwa [hchar] at hbytes
  · have hbytes := decodeFrom_three position rest (v := c.toNat) (by omega) hthree (by omega)
    rwa [hchar] at hbytes
  · have hbytes := decodeFrom_four position rest (v := c.toNat) (by omega) (by omega)
    rwa [hchar] at hbytes

end

/-- **Encoded text decodes to itself.** -/
theorem decode_encode (cs : List Char) : decode (encode cs) = .ok cs := by
  suffices ∀ position, decodeFrom position none (encode cs) = .ok cs from this 0
  induction cs with
  | nil =>
      intro position
      rfl
  | cons c cs ih =>
      intro position
      rw [encode, List.flatMap_cons, decodeFrom_utf8EncodeChar]
      rw [encode] at ih
      rw [ih]
      rfl

end PostfixSpec.Text.Utf8
