import Mathlib

/-!
# Labelled runs

A run of a labelled transition relation, with the list of the labels of its steps.

* `Run.invariant`: what every step with a label of the run preserves.
* `Run.split` cuts a run at one of its steps.
* `update_cases`, `update_of`: a step that changes one entry of a table.
-/

/-- `Run step s ls s'`: from `s`, steps with the labels `ls` lead to `s'`. -/
inductive Run {σ ℓ : Type} (step : σ → ℓ → σ → Prop) : σ → List ℓ → σ → Prop
  | nil (s : σ) : Run step s [] s
  | cons {s s' s'' : σ} {l : ℓ} {ls : List ℓ} (h : step s l s') (t : Run step s' ls s'') :
      Run step s (l :: ls) s''

namespace Run

variable {σ ℓ : Type} {step : σ → ℓ → σ → Prop} {s s' s'' : σ} {l : ℓ} {ls ls' : List ℓ}

theorem invariant {I : σ → Prop} (h : Run step s ls s')
    (hstep : ∀ l ∈ ls, ∀ a b, step a l b → I a → I b) (hs : I s) : I s' := by
  induction h with
  | nil s => exact hs
  | cons h _ ih =>
    exact ih (fun l hl => hstep l (.tail _ hl)) (hstep _ (.head _) _ _ h hs)

theorem append (h : Run step s ls s') (h' : Run step s' ls' s'') : Run step s (ls ++ ls') s'' := by
  induction h with
  | nil s => exact h'
  | cons h _ ih => exact .cons h (ih h')

theorem split (h : Run step s ls s') (hl : l ∈ ls) :
    ∃ ls₁ a b ls₂, ls = ls₁ ++ l :: ls₂ ∧ Run step s ls₁ a ∧ step a l b ∧ Run step b ls₂ s' := by
  induction h with
  | nil s => cases hl
  | @cons s t s'' l' ls h tail ih =>
    rcases List.mem_cons.mp hl with rfl | hl
    · exact ⟨[], s, t, ls, rfl, .nil s, h, tail⟩
    · obtain ⟨ls₁, a, b, ls₂, rfl, hpre, hab, hpost⟩ := ih hl
      exact ⟨l' :: ls₁, a, b, ls₂, rfl, .cons h hpre, hab, hpost⟩

theorem invariant_at {I : σ → Prop} (h : Run step s ls s')
    (hstep : ∀ l ∈ ls, ∀ a b, step a l b → I a → I b) (hs : I s) (hl : l ∈ ls) :
    ∃ a b, I a ∧ step a l b := by
  obtain ⟨ls₁, a, b, ls₂, rfl, hpre, hab, -⟩ := h.split hl
  refine ⟨a, b, hpre.invariant (fun l' hl' => hstep l' ?_) hs, hab⟩
  exact List.mem_append_left _ hl'

end Run

section Update

variable {κ α : Type} [DecidableEq κ] {f : κ → α} {a x : κ} {v b : α}

theorem update_cases (P : α → Prop) (h : P (Function.update f a v x)) :
    x = a ∧ P v ∨ x ≠ a ∧ P (f x) := by
  by_cases hx : x = a
  · subst hx
    rw [Function.update_self] at h
    exact .inl ⟨rfl, h⟩
  · rw [Function.update_of_ne hx] at h
    exact .inr ⟨hx, h⟩

theorem update_of (P : α → Prop) (hself : x = a → P v) (hother : x ≠ a → P (f x)) :
    P (Function.update f a v x) := by
  by_cases hx : x = a
  · subst hx
    rw [Function.update_self]
    exact hself rfl
  · rw [Function.update_of_ne hx]
    exact hother hx

theorem update_eq_cases (h : Function.update f a v x = b) : x = a ∧ v = b ∨ x ≠ a ∧ f x = b :=
  update_cases (· = b) h

theorem update_eq_of (hself : x = a → v = b) (hother : x ≠ a → f x = b) :
    Function.update f a v x = b := update_of (· = b) hself hother

variable {g : κ → Option α} {y : Option α}

theorem forall_update {P : κ → α → Prop} (h : ∀ k b, g k = some b → P k b)
    (hy : ∀ b, y = some b → P a b) (k : κ) (b : α) (hb : Function.update g a y k = some b) :
    P k b := by
  rcases update_eq_cases hb with ⟨rfl, hb'⟩ | ⟨-, hb'⟩
  · exact hy b hb'
  · exact h k b hb'

theorem update_of_absent (ha : g a = none) (hx : g x = some b) : Function.update g a y x = some b :=
  update_eq_of (fun heq => nomatch (heq ▸ hx).symm.trans ha) fun _ => hx

end Update
