/-
  Slas.Lib.Base64

  Base 64 with padding, and its lenient decoder, which leaves out characters that are no
  digits (Python's `base64.b64encode` and `base64.b64decode`).

  Theorems:
    decode_encode — what was encoded is decoded again.
-/

import Mathlib.Data.List.Basic

namespace Base64

/-! ## Digits -/

def alphabet : List Char :=
  "ABCDEFGHIJKLMNOPQRSTUVWXYZabcdefghijklmnopqrstuvwxyz0123456789+/".toList

def digit (n : Nat) : Char := alphabet.getD n '='

def value (c : Char) : Option Nat := alphabet.idxOf? c

theorem value_digit {n : Nat} (h : n < 64) : value (digit n) = some n := by
  have hall : ∀ n < 64, value (digit n) = some n := by decide +kernel
  exact hall n h

theorem digit_ne_pad {n : Nat} (h : n < 64) : digit n ≠ '=' := by
  have hall : ∀ n < 64, digit n ≠ '=' := by decide +kernel
  exact hall n h

/-! ## Encoding and decoding -/

def encodeBytes : List UInt8 → List Char
  | [] => []
  | [a] => [digit (a.toNat / 4), digit (a.toNat % 4 * 16), '=', '=']
  | [a, b] => [digit (a.toNat / 4), digit (a.toNat % 4 * 16 + b.toNat / 16),
      digit (b.toNat % 16 * 4), '=']
  | a :: b :: c :: rest => digit (a.toNat / 4) :: digit (a.toNat % 4 * 16 + b.toNat / 16) ::
      digit (b.toNat % 16 * 4 + c.toNat / 64) :: digit (c.toNat % 64) :: encodeBytes rest

/-- The decoder: the place in the group of four digits, the bits that are left of the digit
    before, and the pads since. -/
def decodeChars : Nat → Nat → Nat → List Char → Option (List UInt8)
  | place, _, _, [] => if place = 0 then some [] else none
  | place, left, pads, c :: cs =>
    if c = '=' then
      if 2 ≤ place ∧ 4 ≤ place + (pads + 1) then some []
      else decodeChars place left (if 2 ≤ place then pads + 1 else pads) cs
    else
      match value c with
      | none => decodeChars place left pads cs
      | some v =>
        if place = 0 then decodeChars 1 v 0 cs
        else if place = 1 then
          (decodeChars 2 (v % 16) 0 cs).map (UInt8.ofNat (left * 4 + v / 16) :: ·)
        else if place = 2 then
          (decodeChars 3 (v % 4) 0 cs).map (UInt8.ofNat (left * 16 + v / 4) :: ·)
        else (decodeChars 0 0 0 cs).map (UInt8.ofNat (left * 64 + v) :: ·)

/-- `b64encode` -/
def encode (bytes : ByteArray) : String := String.ofList (encodeBytes bytes.data.toList)

/-- `b64decode` -/
def decode (text : String) : Option ByteArray :=
  (decodeChars 0 0 0 text.toList).map fun bytes => ⟨bytes.toArray⟩

/-! ## Round trip -/

variable {left pads v : Nat} {cs : List Char}

theorem decode_first (h : v < 64) :
    decodeChars 0 left pads (digit v :: cs) = decodeChars 1 v 0 cs := by
  rw [decodeChars, if_neg (digit_ne_pad h), value_digit h]
  rfl

theorem decode_second (h : v < 64) : decodeChars 1 left pads (digit v :: cs) =
    (decodeChars 2 (v % 16) 0 cs).map (UInt8.ofNat (left * 4 + v / 16) :: ·) := by
  rw [decodeChars, if_neg (digit_ne_pad h), value_digit h]
  rfl

theorem decode_third (h : v < 64) : decodeChars 2 left pads (digit v :: cs) =
    (decodeChars 3 (v % 4) 0 cs).map (UInt8.ofNat (left * 16 + v / 4) :: ·) := by
  rw [decodeChars, if_neg (digit_ne_pad h), value_digit h]
  rfl

theorem decode_fourth (h : v < 64) : decodeChars 3 left pads (digit v :: cs) =
    (decodeChars 0 0 0 cs).map (UInt8.ofNat (left * 64 + v) :: ·) := by
  rw [decodeChars, if_neg (digit_ne_pad h), value_digit h]
  rfl

/-- A number that is a byte is that byte. -/
theorem ofNat_eq {n : Nat} {a : UInt8} (h : n = a.toNat) : UInt8.ofNat n = a := by
  rw [h, UInt8.ofNat_toNat]

theorem decodeChars_encodeBytes (bytes : List UInt8) :
    decodeChars 0 0 0 (encodeBytes bytes) = some bytes := by
  induction bytes using encodeBytes.induct with
  | case1 => rfl
  | case2 a =>
    have ha := a.toNat_lt
    rw [encodeBytes, decode_first (by omega), decode_second (by omega),
      ofNat_eq (a := a) (by omega)]
    rfl
  | case3 a b =>
    have ha := a.toNat_lt
    have hb := b.toNat_lt
    rw [encodeBytes, decode_first (by omega), decode_second (by omega), decode_third (by omega),
      ofNat_eq (a := a) (by omega), ofNat_eq (a := b) (by omega)]
    rfl
  | case4 a b c rest ih =>
    have ha := a.toNat_lt
    have hb := b.toNat_lt
    have hc := c.toNat_lt
    rw [encodeBytes, decode_first (by omega), decode_second (by omega), decode_third (by omega),
      decode_fourth (by omega), ih, ofNat_eq (a := a) (by omega), ofNat_eq (a := b) (by omega),
      ofNat_eq (a := c) (by omega)]
    rfl

theorem decode_encode (bytes : ByteArray) : decode (encode bytes) = some bytes := by
  rw [decode, encode, String.toList_ofList, decodeChars_encodeBytes]
  rfl

end Base64
