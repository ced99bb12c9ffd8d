import Mathlib

/-!
# Base64

The standard alphabet with padding. Three bytes are four digits of six bits; a rest of one or two
bytes is filled up with zero bits and `=`. A reader refuses digits outside the alphabet, a length
that is no multiple of four and filling bits that are not zero.

* `Base64.decode_encode`: what is encoded is read back.
-/

namespace Base64

/-- The character of six bits. -/
def digit (n : Nat) : Char :=
  if n < 26 then Char.ofNat (65 + n)
  else if n < 52 then Char.ofNat (71 + n)
  else if n < 62 then Char.ofNat (n - 4)
  else if n = 62 then '+' else '/'

/-- The six bits of a character of the alphabet. -/
def value (c : Char) : Option Nat :=
  if 'A' ≤ c ∧ c ≤ 'Z' then some (c.toNat - 65)
  else if 'a' ≤ c ∧ c ≤ 'z' then some (c.toNat - 71)
  else if '0' ≤ c ∧ c ≤ '9' then some (c.toNat + 4)
  else if c = '+' then some 62
  else if c = '/' then some 63
  else none

/-- The characters of a text in base64. -/
def encode : List UInt8 → List Char
  | a :: b :: c :: rest =>
    digit (a.toNat / 4) :: digit (a.toNat % 4 * 16 + b.toNat / 16) ::
      digit (b.toNat % 16 * 4 + c.toNat / 64) :: digit (c.toNat % 64) :: encode rest
  | [a, b] =>
    [digit (a.toNat / 4), digit (a.toNat % 4 * 16 + b.toNat / 16), digit (b.toNat % 16 * 4), '=']
  | [a] => [digit (a.toNat / 4), digit (a.toNat % 4 * 16), '=', '=']
  | [] => []

/-- The bytes of such characters. -/
def decode : List Char → Option (List UInt8)
  | [] => some []
  | c₀ :: c₁ :: c₂ :: c₃ :: rest => do
    let x ← value c₀
    let y ← value c₁
    let first := UInt8.ofNat (x * 4 + y / 16)
    if c₂ = '=' ∧ c₃ = '=' ∧ rest = [] then if y % 16 = 0 then some [first] else none
    else
      let z ← value c₂
      let second := UInt8.ofNat (y % 16 * 16 + z / 4)
      if c₃ = '=' ∧ rest = [] then if z % 4 = 0 then some [first, second] else none
      else
        let t ← value c₃
        let bytes ← decode rest
        some (first :: second :: UInt8.ofNat (z % 4 * 64 + t) :: bytes)
  | _ => none

theorem value_digit : ∀ n < 64, value (digit n) = some n := by decide

theorem digit_ne_pad : ∀ n < 64, digit n ≠ '=' := by decide

/-- A byte from its parts. -/
theorem ofNat_eq {x : UInt8} {n : Nat} (h : n = x.toNat) : UInt8.ofNat n = x := by
  rw [h, UInt8.ofNat_toNat]

/-- **What is encoded is read back.** -/
theorem decode_encode (bytes : List UInt8) : decode (encode bytes) = some bytes := by
  have hlt : ∀ x : UInt8, x.toNat < 256 := fun x => x.toNat_lt
  -- three bytes at a time, as the encoder takes them
  fun_induction encode bytes with
  | case1 a b c rest ih =>
    have ha := hlt a
    have hb := hlt b
    have hc := hlt c
    simp only [decode, value_digit _ (show a.toNat / 4 < 64 by omega),
      value_digit _ (show a.toNat % 4 * 16 + b.toNat / 16 < 64 by omega),
      value_digit _ (show b.toNat % 16 * 4 + c.toNat / 64 < 64 by omega),
      value_digit _ (show c.toNat % 64 < 64 by omega),
      digit_ne_pad _ (show b.toNat % 16 * 4 + c.toNat / 64 < 64 by omega),
      digit_ne_pad _ (show c.toNat % 64 < 64 by omega), false_and, if_false, ih,
      Option.bind_eq_bind, Option.bind_some]
    rw [ofNat_eq (x := a) (by omega), ofNat_eq (x := b) (by omega), ofNat_eq (x := c) (by omega)]
  | case2 a b =>
    have ha := hlt a
    have hb := hlt b
    simp only [decode, value_digit _ (show a.toNat / 4 < 64 by omega),
      value_digit _ (show a.toNat % 4 * 16 + b.toNat / 16 < 64 by omega),
      value_digit _ (show b.toNat % 16 * 4 < 64 by omega),
      digit_ne_pad _ (show b.toNat % 16 * 4 < 64 by omega), false_and, if_false,
      Option.bind_eq_bind, Option.bind_some, and_self, if_true]
    rw [if_pos (by omega), ofNat_eq (x := a) (by omega), ofNat_eq (x := b) (by omega)]
  | case3 a =>
    have ha := hlt a
    simp only [decode, value_digit _ (show a.toNat / 4 < 64 by omega),
      value_digit _ (show a.toNat % 4 * 16 < 64 by omega), Option.bind_eq_bind, Option.bind_some,
      and_self, if_true]
    rw [if_pos (by omega), ofNat_eq (x := a) (by omega)]
  | case4 => rfl

example : encode [83, 117, 116, 114, 97] = ['U', '3', 'V', '0', 'c', 'm', 'E', '='] := by decide

end Base64
