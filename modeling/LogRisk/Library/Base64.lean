import Mathlib.Data.List.Basic

/-!
# Base64 without padding

Three bytes are four digits; one byte left is two digits and two bytes left are three.  Reading
puts the padding back and goes by groups of four.
-/

namespace LogRisk.Library.Base64

/-- The bytes of a text in UTF-8. -/
def utf8 (s : String) : List UInt8 := s.toList.flatMap String.utf8EncodeChar

/-- `bytes.decode("utf-8")`. -/
def fromUtf8 (bytes : List UInt8) : Option String :=
  bytes.toByteArray.utf8Decode?.map fun cs => String.ofList cs.toList

theorem fromUtf8_utf8 (s : String) : fromUtf8 (utf8 s) = some s := by
  have hbytes : (utf8 s).toByteArray = s.toList.utf8Encode := rfl
  rw [fromUtf8, hbytes, List.utf8Decode?_utf8Encode]
  simp

/-! ## Digits -/

/-- A digit of the alphabet for URLs. -/
def digit (n : ℕ) : Char :=
  if n < 26 then Char.ofNat (65 + n)
  else if n < 52 then Char.ofNat (71 + n)
  else if n < 62 then Char.ofNat (n - 4)
  else if n = 62 then '-' else '_'

/-- The value of a digit; a reader of the alphabet for URLs takes the other one as well. -/
def value (c : Char) : Option ℕ :=
  if 'A' ≤ c ∧ c ≤ 'Z' then some (c.toNat - 65)
  else if 'a' ≤ c ∧ c ≤ 'z' then some (c.toNat - 71)
  else if '0' ≤ c ∧ c ≤ '9' then some (c.toNat + 4)
  else if c = '-' ∨ c = '+' then some 62
  else if c = '_' ∨ c = '/' then some 63
  else none

theorem value_digit : ∀ n < 64, value (digit n) = some n := by decide

theorem digit_ne_pad : ∀ n < 64, digit n ≠ '=' := by decide

/-! ## Groups -/

/-- `base64.urlsafe_b64encode(bytes)`, without the padding. -/
def encode : List UInt8 → List Char
  | [] => []
  | [a] => [digit (a.toNat / 4), digit (a.toNat % 4 * 16)]
  | [a, b] => [digit (a.toNat / 4), digit (a.toNat % 4 * 16 + b.toNat / 16),
      digit (b.toNat % 16 * 4)]
  | a :: b :: c :: rest => digit (a.toNat / 4) :: digit (a.toNat % 4 * 16 + b.toNat / 16) ::
      digit (b.toNat % 16 * 4 + c.toNat / 64) :: digit (c.toNat % 64) :: encode rest

/-- The bytes of two digits, three digits and four. -/
def oneByte (a b : ℕ) : List UInt8 := [UInt8.ofNat (a * 4 + b / 16)]

def twoBytes (a b c : ℕ) : List UInt8 := oneByte a b ++ [UInt8.ofNat (b % 16 * 16 + c / 4)]

def threeBytes (a b c d : ℕ) : List UInt8 := twoBytes a b c ++ [UInt8.ofNat (c % 4 * 64 + d)]

/-- `b64decode(…, altchars=b"-_", validate=True)` of a padded text. -/
def decodePadded : List Char → Option (List UInt8)
  | [] => some []
  | a :: b :: c :: d :: rest => do
      let a ← value a
      let b ← value b
      if c = '=' ∧ d = '=' ∧ rest = [] then return oneByte a b
      else do
        let c ← value c
        if d = '=' ∧ rest = [] then return twoBytes a b c
        else do
          let d ← value d
          let rest ← decodePadded rest
          return threeBytes a b c d ++ rest
  | _ => none

/-- `text + "=" * (-len(text) % 4)`. -/
def padded (cs : List Char) : List Char := cs ++ List.replicate ((4 - cs.length % 4) % 4) '='

def decode (cs : List Char) : Option (List UInt8) := decodePadded (padded cs)

/-! ## Round trip -/

theorem ofNat_eq {a : UInt8} {n : ℕ} (h : n = a.toNat) : UInt8.ofNat n = a := by
  rw [h]
  exact UInt8.ofNat_toNat

theorem oneByte_eq (a : UInt8) {n : ℕ} (hn : n < 16) :
    oneByte (a.toNat / 4) (a.toNat % 4 * 16 + n) = [a] := by
  rw [oneByte, ofNat_eq]
  omega

theorem twoBytes_eq (a b : UInt8) {n : ℕ} (hn : n < 4) :
    twoBytes (a.toNat / 4) (a.toNat % 4 * 16 + b.toNat / 16) (b.toNat % 16 * 4 + n) = [a, b] := by
  have hb := b.toNat_lt
  have hfirst : b.toNat / 16 < 16 := by omega
  rw [twoBytes, oneByte_eq a hfirst, ofNat_eq]
  · rfl
  · omega

theorem threeBytes_eq (a b c : UInt8) :
    threeBytes (a.toNat / 4) (a.toNat % 4 * 16 + b.toNat / 16) (b.toNat % 16 * 4 + c.toNat / 64)
      (c.toNat % 64) = [a, b, c] := by
  have hc := c.toNat_lt
  have hsecond : c.toNat / 64 < 4 := by omega
  rw [threeBytes, twoBytes_eq a b hsecond, ofNat_eq]
  · rfl
  · omega

theorem padded_cons4 (a b c d : Char) (rest : List Char) :
    padded (a :: b :: c :: d :: rest) = a :: b :: c :: d :: padded rest := by
  have hlength : (a :: b :: c :: d :: rest).length % 4 = rest.length % 4 := by
    simp only [List.length_cons]
    omega
  rw [padded, hlength]
  rfl

theorem decode_encode (bytes : List UInt8) : decode (encode bytes) = some bytes := by
  unfold decode
  induction bytes using encode.induct with
  | case1 => rfl
  | case2 a =>
      have ha := a.toNat_lt
      have hone := oneByte_eq a (n := 0) (by omega)
      rw [Nat.add_zero] at hone
      show decodePadded [_, _, '=', '='] = _
      rw [decodePadded, value_digit _ (by omega), value_digit _ (by omega)]
      simp only [bind, Option.bind, and_self, if_true, pure, hone]
  | case3 a b =>
      have ha := a.toNat_lt
      have hb := b.toNat_lt
      have htwo := twoBytes_eq a b (n := 0) (by omega)
      rw [Nat.add_zero] at htwo
      show decodePadded [_, _, _, '='] = _
      rw [decodePadded, value_digit _ (by omega), value_digit _ (by omega),
        value_digit _ (by omega)]
      have hpad := digit_ne_pad (b.toNat % 16 * 4) (by omega)
      simp only [bind, Option.bind, hpad, false_and, if_false, and_self, if_true, pure, htwo]
  | case4 a b c rest ih =>
      have ha := a.toNat_lt
      have hb := b.toNat_lt
      have hc := c.toNat_lt
      rw [encode, padded_cons4, decodePadded, value_digit _ (by omega), value_digit _ (by omega),
        value_digit _ (by omega), value_digit _ (by omega), ih]
      have hpad := digit_ne_pad (b.toNat % 16 * 4 + c.toNat / 64) (by omega)
      have hpad' := digit_ne_pad (c.toNat % 64) (by omega)
      simp only [bind, Option.bind, hpad, hpad', false_and, if_false, pure, threeBytes_eq]
      rfl

end LogRisk.Library.Base64
