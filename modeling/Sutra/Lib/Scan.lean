import Sutra.Lib.Text

/-!
# Numbers in a text

Reading a number with a sign, and splitting a text at a character.

* `integer`, `splitSign`: a number within bounds, with its sign.
* `splitOnce`: the text before and after the first occurrence of a character.
-/

namespace Sutra

open List Option

namespace Scan

/-- The number that the digits spell. -/
def value (cs : List Char) : Nat := Nat.ofDigitChars 10 cs 0

variable {c : Char}

/-- An optional sign in front of a number: whether it is a minus, and the rest. A minus sign is
read only when negative numbers are allowed. -/
def splitSign (negatives : Bool) : List Char → Bool × List Char
  | [] => (false, [])
  | c :: cs =>
    if c = '+' then (false, cs) else if c = '-' ∧ negatives = true then (true, cs)
    else (false, c :: cs)

def integer (lo hi : Int) (cs : List Char) : Option Int :=
  let (negative, ds) := splitSign (lo < 0) cs
  if ds.isEmpty || !ds.all Char.isDigit then none
  else
    let n : Int := if negative then -(value ds) else value ds
    if lo ≤ n ∧ n ≤ hi then some n else none

/-- The text before and after the first occurrence of a character. -/
def splitOnce (c : Char) (cs : List Char) : Option (List Char × List Char) :=
  match cs.dropWhile (· != c) with
  | [] => none
  | _ :: rest => some (cs.takeWhile (· != c), rest)

theorem ne_of_isDigit {d : Char} (h : c.isDigit) (hd : d.isDigit = false) : c ≠ d := by
  rintro rfl
  rw [h] at hd
  cases hd

variable {ds cs pattern : List Char}

theorem splitSign_of_digits (negatives : Bool)
    (hds : ∀ c ∈ ds, c.isDigit) : splitSign negatives ds = (false, ds) := by
  cases ds with
  | nil => rfl
  | cons d rest =>
    have hd := hds d (.head _)
    rw [splitSign, if_neg (ne_of_isDigit hd rfl), if_neg fun h => ne_of_isDigit hd rfl h.1]

theorem splitOnce_append {before : List Char} (h : c ∉ before) (rest : List Char) :
    splitOnce c (before ++ c :: rest) = some (before, rest) := by
  have hbefore : ∀ d ∈ before, (d != c) := fun d hd => bne_iff_ne.mpr fun heq => h (heq ▸ hd)
  have hc : ¬ (c != c) := by simp
  have hdrop : (c :: rest).dropWhile (· != c) = c :: rest := dropWhile_cons_of_neg hc
  have htake : (c :: rest).takeWhile (· != c) = [] := takeWhile_cons_of_neg hc
  rw [splitOnce, dropWhile_append_of_pos hbefore, takeWhile_append_of_pos hbefore, hdrop,
    htake, append_nil]

theorem splitOnce_eq_none (h : c ∉ cs) : splitOnce c cs = none := by
  have hcs : ∀ d ∈ cs, (d != c) := fun d hd => bne_iff_ne.mpr fun heq => h (heq ▸ hd)
  rw [splitOnce, dropWhile_eq_nil_iff.mpr hcs]

end Scan

end Sutra
