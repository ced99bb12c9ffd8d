import Sutra.Store.Tables

/-!
# What the commit of a step leaves

`commitStep` is a sequence of statements; here it is read row by row.
-/

namespace Sutra.Store

open List

variable {B : Type}

namespace Tables

variable (t : Tables B)

/-! ## Aliases -/

theorem aliasIndex_foldl_recordAlias (keys : List AliasKey) (k : AliasKey) :
    (keys.foldl recordAlias t).aliasIndex k = if k ∈ keys then some true else t.aliasIndex k := by
  induction keys generalizing t with
  | nil => rfl
  | cons key keys ih =>
    rw [foldl_cons, ih]
    by_cases hk : k ∈ keys
    · rw [if_pos hk, if_pos (.tail _ hk)]
    · rw [if_neg hk]
      change Function.update t.aliasIndex key (some true) k = _
      by_cases heq : k = key
      · rw [heq, Function.update_self, if_pos mem_cons_self]
      · rw [Function.update_of_ne heq, if_neg fun h => (mem_cons.mp h).elim heq hk]

theorem liveAlias_foldl_retireOne (keys : List AliasKey) (k : AliasKey) :
    (keys.foldl retireOne t).LiveAlias k ↔ t.LiveAlias k ∧ k ∉ keys := by
  induction keys generalizing t with
  | nil => exact ⟨fun h => ⟨h, not_mem_nil⟩, fun h => h.1⟩
  | cons key keys ih =>
    have hone : (t.retireOne key).LiveAlias k ↔ t.LiveAlias k ∧ k ≠ key := by
      rw [LiveAlias, LiveAlias, retireOne]
      by_cases heq : k = key
      · simp [heq]
      · simp [heq]
    rw [foldl_cons, ih, hone, mem_cons, not_or, and_assoc]

theorem aliasIndex_writeStepWithTimers (w : StepWrite B) (k : AliasKey) :
    (t.writeStepWithTimers w).aliasIndex k
      = if k ∈ w.aliases then some true else t.aliasIndex k := by
  have hwait : ∀ (t : Tables B) n, (recordStepWait w t n).aliasIndex = t.aliasIndex := by
    intro t n
    rw [recordStepWait]
    split <;> rfl
  rw [writeStepWithTimers, foldl_keeps (·.aliasIndex)
    (fun t (timer : String × Instant) => t.recordTimerWaiting timer.1 timer.2) fun _ _ => rfl,
    writeStep, aliasIndex_foldl_recordAlias, foldl_keeps (·.aliasIndex) (recordStepWait w) hwait,
    upsert, foldl_keeps (·.aliasIndex) resolveNode fun _ _ => rfl]

/-- **The live aliases after a step.** -/
theorem liveAlias_commitStep (w : StepWrite B) (o : String) (k : AliasKey) :
    (t.commitStep w o).LiveAlias k ↔ k ∈ w.aliases ∨ (t.LiveAlias k ∧ k ∉ w.retiredAliases) := by
  have hrelease : ∀ t : Tables B, (t.release o).aliasIndex = t.aliasIndex := fun _ => rfl
  rw [LiveAlias, commitStep, hrelease, aliasIndex_writeStepWithTimers,
    ← liveAlias_foldl_retireOne, LiveAlias]
  by_cases hk : k ∈ w.aliases
  · rw [if_pos hk]
    exact ⟨fun _ => .inl hk, fun _ => rfl⟩
  · rw [if_neg hk]
    exact ⟨.inr, fun h => h.resolve_left hk⟩

theorem aliasIndex_commitFailed : t.commitFailed.aliasIndex = t.aliasIndex := by
  cases h : t.instanceState with
  | none => simp [commitFailed, h]
  | some r => simp [commitFailed, h, upsert, resolveAll]

end Tables

end Sutra.Store
