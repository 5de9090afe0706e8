import PostfixSpec.Text.Literal

/-!
# Decoding UTF-8

Bytes are read one at a time. A lead byte says how many continuation bytes follow and in which range
the first of them must lie; these ranges leave out overlong forms, surrogates and numbers beyond the
last character. What is reported of malformed bytes is the longest valid beginning of the first
sequence that cannot be completed, or its first byte where nothing begins.
-/

namespace PostfixSpec.Text.Utf8

/-- Why bytes are malformed. -/
inductive Fault where
  | badStart
  | badContinuation
  | truncated
  deriving DecidableEq

def Fault.message : Fault → String
  | badStart => "invalid start byte"
  | badContinuation => "invalid continuation byte"
  | truncated => "unexpected end of data"

/-- The first malformed stretch: `length` bytes, of which `first` is the first, behind `start` well
formed ones. -/
structure DecodeError where
  start : Nat
  length : Nat
  first : UInt8
  fault : Fault
  deriving DecidableEq

/-- The text that reports malformed bytes. -/
def DecodeError.message (e : DecodeError) : String :=
  let place :=
    if e.length = 1 then
      "byte 0x" ++ String.ofList (hex 2 e.first.toNat) ++ " in position " ++ toString e.start
    else s!"bytes in position {e.start}-{e.start + e.length - 1}"
  "'utf-8' codec can't decode " ++ place ++ ": " ++ e.fault.message

/-- A sequence that is not complete: where it began and with which byte, how many of its bytes were
read and how many are missing, the range of the next byte, and the number read so far. -/
structure Partway where
  start : Nat
  first : UInt8
  read : Nat
  missing : Nat
  low : Nat
  high : Nat
  code : Nat
  deriving DecidableEq

/-- What a byte at the start of a sequence means. -/
inductive Lead where
  | complete (code : Nat)
  | more (missing low high code : Nat)
  | invalid
  deriving DecidableEq

/-- Reads the first byte of a sequence. -/
def lead (b : Nat) : Lead :=
  if b < 0x80 then .complete b
  else if b < 0xc2 then .invalid
  else if b < 0xe0 then .more 1 0x80 0xbf (b - 0xc0)
  else if b < 0xf0 then
    .more 2 (if b = 0xe0 then 0xa0 else 0x80) (if b = 0xed then 0x9f else 0xbf) (b - 0xe0)
  else if b < 0xf5 then
    .more 3 (if b = 0xf0 then 0x90 else 0x80) (if b = 0xf4 then 0x8f else 0xbf) (b - 0xf0)
  else .invalid

/-- The error that a sequence cut short is reported with. -/
def Partway.error (p : Partway) (fault : Fault) : DecodeError := ⟨p.start, p.read, p.first, fault⟩

/-- The number of a sequence after one more continuation byte. -/
def extended (code b : Nat) : Nat := code * 64 + (b - 0x80)

/-- Decodes bytes behind `position` others, the last of which may have begun a sequence. -/
def decodeFrom (position : Nat) : Option Partway → List UInt8 → Except DecodeError (List Char)
  | none, [] => .ok []
  | some p, [] => .error (p.error .truncated)
  | none, b :: rest =>
    match lead b.toNat with
    | .complete code => do
      let cs ← decodeFrom (position + 1) none rest
      return Char.ofNat code :: cs
    | .more missing low high code =>
      decodeFrom (position + 1) (some ⟨position, b, 1, missing, low, high, code⟩) rest
    | .invalid => .error ⟨position, 1, b, .badStart⟩
  | some p, b :: rest =>
    if p.low ≤ b.toNat ∧ b.toNat ≤ p.high then
      let code := extended p.code b.toNat
      if p.missing = 1 then do
        let cs ← decodeFrom (position + 1) none rest
        return Char.ofNat code :: cs
      else
        decodeFrom (position + 1)
          (some ⟨p.start, p.first, p.read + 1, p.missing - 1, 0x80, 0xbf, code⟩) rest
    else .error (p.error .badContinuation)

def decode (bytes : List UInt8) : Except DecodeError (List Char) := decodeFrom 0 none bytes

def encode (cs : List Char) : List UInt8 := cs.flatMap String.utf8EncodeChar

end PostfixSpec.Text.Utf8
