import Mathlib.Data.Nat.Basic

/-!
# Decoding UTF-8 with replacement

A machine that reads one byte at a time.  Where the bytes cannot be continued to
a character, what was read of it is replaced by U+FFFD and reading goes on at the
byte that does not fit.
-/

namespace LogRisk.Library.Utf8

/-- The rest of a character that has begun: how many bytes are missing, the bounds
of the next one, and the bits read so far. -/
structure Pending where
  missing : ℕ
  low : ℕ
  high : ℕ
  bits : ℕ

/-- What a leading byte begins, if it begins a character of several bytes. -/
def lead (b : ℕ) : Option Pending :=
  if 0xc2 ≤ b ∧ b ≤ 0xdf then some ⟨1, 0x80, 0xbf, b % 32⟩
  else if b = 0xe0 then some ⟨2, 0xa0, 0xbf, b % 16⟩
  else if b = 0xed then some ⟨2, 0x80, 0x9f, b % 16⟩
  else if 0xe1 ≤ b ∧ b ≤ 0xef then some ⟨2, 0x80, 0xbf, b % 16⟩
  else if b = 0xf0 then some ⟨3, 0x90, 0xbf, b % 8⟩
  else if 0xf1 ≤ b ∧ b ≤ 0xf3 then some ⟨3, 0x80, 0xbf, b % 8⟩
  else if b = 0xf4 then some ⟨3, 0x80, 0x8f, b % 8⟩
  else none

def replacement : Char := Char.ofNat 0xfffd

/-- Begin a character: what is put out at once, and what is still missing. -/
def begin' (b : ℕ) : List Char × Option Pending :=
  if b < 0x80 then ([Char.ofNat b], none)
  else
    match lead b with
    | some pending => ([], some pending)
    | none => ([replacement], none)

def decodeFrom : Option Pending → List UInt8 → List Char
  | none, [] => []
  | some _, [] => [replacement]
  | none, b :: rest => (begin' b.toNat).1 ++ decodeFrom (begin' b.toNat).2 rest
  | some pending, b :: rest =>
      if pending.low ≤ b.toNat ∧ b.toNat ≤ pending.high then
        let bits := pending.bits * 64 + b.toNat % 64
        if pending.missing ≤ 1 then Char.ofNat bits :: decodeFrom none rest
        else decodeFrom (some ⟨pending.missing - 1, 0x80, 0xbf, bits⟩) rest
      else replacement :: (begin' b.toNat).1 ++ decodeFrom (begin' b.toNat).2 rest

/-- `bytes.decode("utf-8", errors="replace")`. -/
def decode (bytes : List UInt8) : List Char := decodeFrom none bytes

-- a two-byte and a three-byte character, a stray byte, and a truncated character
example : decode [0x61, 0xc3, 0xa9, 0xe4, 0xb8, 0xad, 0xff, 0xe4, 0xb8] =
    ['a', 'é', '中', '\ufffd', '\ufffd'] := by decide

end LogRisk.Library.Utf8
