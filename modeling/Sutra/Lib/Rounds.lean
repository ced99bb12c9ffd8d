import Mathlib

/-!
# Rounds until nothing changes

A loop that works in rounds: `round s` is the next state, or `none` when the loop ends in `s`.

* `settle_isSome`, `settle_invariant`: it ends, and keeps what a round keeps.
-/

namespace Rounds

variable {S T : Type}

/-- Run rounds until one changes nothing; `none` when the budget is spent. -/
def settle (round : S → Option S) : Nat → S → Option S
  | 0, _ => none
  | fuel + 1, s =>
    match round s with
    | some s' => settle round fuel s'
    | none => some s

variable {round : S → Option S} {fuel : Nat} {s s' : S}

/-- **A measure that every round lowers bounds the number of rounds.** -/
theorem settle_isSome (measure : S → Nat)
    (hround : ∀ s s', round s = some s' → measure s' < measure s) (hfuel : measure s < fuel) :
    ∃ s', settle round fuel s = some s' := by
  induction fuel generalizing s with
  | zero => exact absurd hfuel (Nat.not_lt_zero _)
  | succ fuel ih =>
    rw [settle]
    cases h : round s with
    | none => exact ⟨s, rfl⟩
    | some next => exact ih (Nat.lt_of_lt_of_le (hround s next h) (Nat.le_of_lt_succ hfuel))

theorem settle_stable (h : settle round fuel s = some s') : round s' = none := by
  induction fuel generalizing s with
  | zero => cases h
  | succ fuel ih =>
    rw [settle] at h
    cases hround : round s with
    | none =>
      rw [hround] at h
      cases h
      exact hround
    | some next =>
      rw [hround] at h
      exact ih h

/-- **What every round keeps holds in the end.** -/
theorem settle_invariant {I : S → Prop} (hround : ∀ s s', round s = some s' → I s → I s')
    (h : settle round fuel s = some s') (hs : I s) : I s' := by
  induction fuel generalizing s with
  | zero => cases h
  | succ fuel ih =>
    rw [settle] at h
    cases hnext : round s with
    | none =>
      rw [hnext] at h
      cases h
      exact hs
    | some next =>
      rw [hnext] at h
      exact ih h (hround s next hnext hs)

/-- **Loops whose rounds correspond end in states that correspond.** -/
theorem settle_rel {round' : T → Option T} {R : S → T → Prop}
    (hround : ∀ s t, R s t → Option.Rel R (round s) (round' t)) {t : T} (h : R s t) :
    Option.Rel R (settle round fuel s) (settle round' fuel t) := by
  induction fuel generalizing s t with
  | zero => exact .none
  | succ fuel ih =>
    rw [settle, settle]
    have hrel := hround s t h
    cases hs : round s with
    | none =>
      cases ht : round' t with
      | none => exact .some h
      | some t' =>
        rw [hs, ht] at hrel
        cases hrel
    | some s' =>
      cases ht : round' t with
      | none =>
        rw [hs, ht] at hrel
        cases hrel
      | some t' =>
        rw [hs, ht] at hrel
        cases hrel with
        | some hnext => exact ih hnext

end Rounds
