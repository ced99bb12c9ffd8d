import Mathlib

/-!
# Intervals with open and closed ends

An interval of a linear order, each end of which may be missing, open or closed.

* `meet` keeps the tighter of the two ends on either side, and `contains_meet` says that this is the
  intersection.
* `isEmpty` recognises an interval whose ends cross (`contains_eq_false`).
-/

namespace Ranges

open Bool

variable {α : Type} [LinearOrder α]

structure Bound (α : Type) where
  value : α
  inclusive : Bool
  deriving DecidableEq

structure Bounds (α : Type) where
  low : Option (Bound α)
  high : Option (Bound α)
  deriving DecidableEq

def atLeast (value : α) (inclusive : Bool) : Bounds α := ⟨some ⟨value, inclusive⟩, none⟩

def atMost (value : α) (inclusive : Bool) : Bounds α := ⟨none, some ⟨value, inclusive⟩⟩

/-- The value is on the right side of a lower end. -/
def aboveLow (x : α) : Option (Bound α) → Bool
  | none => true
  | some b => decide (b.value < x) || (decide (x = b.value) && b.inclusive)

/-- The value is on the right side of an upper end. -/
def belowHigh (x : α) : Option (Bound α) → Bool
  | none => true
  | some b => decide (x < b.value) || (decide (x = b.value) && b.inclusive)

def contains (r : Bounds α) (x : α) : Bool := aboveLow x r.low && belowHigh x r.high

/-- The ends cross, or meet in a point that one of them excludes. -/
def isEmpty (r : Bounds α) : Bool :=
  match r.low, r.high with
  | some low, some high =>
    decide (high.value < low.value) ||
      (decide (low.value = high.value) && !(low.inclusive && high.inclusive))
  | _, _ => false

/-- The tighter of two lower ends; of two at one point the exclusive one. -/
def tighterLow : Option (Bound α) → Option (Bound α) → Option (Bound α)
  | none, b => b
  | a, none => a
  | some a, some b =>
    if b.value < a.value ∨ (a.value = b.value ∧ a.inclusive = false) then some a else some b

def tighterHigh : Option (Bound α) → Option (Bound α) → Option (Bound α)
  | none, b => b
  | a, none => a
  | some a, some b =>
    if a.value < b.value ∨ (a.value = b.value ∧ a.inclusive = false) then some a else some b

def meet (r s : Bounds α) : Bounds α := ⟨tighterLow r.low s.low, tighterHigh r.high s.high⟩

variable {a b : Option (Bound α)} {x : α}

theorem aboveLow_tighterLow (ha : aboveLow x a)
    (hb : aboveLow x b) : aboveLow x (tighterLow a b) := by
  cases a with
  | none => exact hb
  | some a =>
    cases b with
    | none => exact ha
    | some b =>
      rw [tighterLow]
      split
      · exact ha
      · exact hb

theorem belowHigh_tighterHigh (ha : belowHigh x a)
    (hb : belowHigh x b) : belowHigh x (tighterHigh a b) := by
  cases a with
  | none => exact hb
  | some a =>
    cases b with
    | none => exact ha
    | some b =>
      rw [tighterHigh]
      split
      · exact ha
      · exact hb

theorem contains_meet {r s : Bounds α} (hr : contains r x)
    (hs : contains s x) : contains (meet r s) x := by
  obtain ⟨hrlow, hrhigh⟩ := and_eq_true_iff.mp hr
  obtain ⟨hslow, hshigh⟩ := and_eq_true_iff.mp hs
  exact and_eq_true_iff.mpr ⟨aboveLow_tighterLow hrlow hslow, belowHigh_tighterHigh hrhigh hshigh⟩

theorem contains_eq_false {r : Bounds α} (h : isEmpty r) (x : α) : contains r x = false := by
  obtain ⟨low, high⟩ := r
  match low, high, h with
  | some low, some high, h =>
    simp only [isEmpty, or_eq_true, decide_eq_true_eq, and_eq_true] at h
    by_contra hin
    simp only [contains, aboveLow, belowHigh, not_eq_false, and_eq_true, or_eq_true,
      decide_eq_true_eq] at hin
    obtain ⟨hlow, hhigh⟩ := hin
    have hle : low.value ≤ x := hlow.elim le_of_lt fun h => le_of_eq h.1.symm
    have hge : x ≤ high.value := hhigh.elim le_of_lt fun h => le_of_eq h.1
    rcases h with hcross | ⟨heq, hopen⟩
    · exact absurd (hle.trans hge) (not_le.mpr hcross)
    · -- the ends meet, so the value is that point, and one end excludes it
      have hx : x = low.value := le_antisymm (heq ▸ hge) hle
      rcases hlow with hlt | ⟨-, hlow⟩
      · exact absurd hx (ne_of_gt hlt)
      · rcases hhigh with hlt | ⟨-, hhigh⟩
        · exact absurd (hx.trans heq) (ne_of_lt hlt)
        · simp [hlow, hhigh] at hopen

end Ranges
