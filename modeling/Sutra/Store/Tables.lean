import Sutra.Lib.Text

/-!
# The rows of one instance

The durable state of an instance is spread over three tables: its row in `instance_state` (the
snapshot, the ownership claim, the terminal stamp), its rows in `waiting_event`, keyed by node, and
its rows in `alias_index`, keyed by name and value. There is one definition per statement, and the
transactions are built from them. The snapshot is kept as what the engine reads of it (`Stored`).
-/

namespace Sutra.Store

open Option

/-- Database time. -/
abbrev Instant := Nat

inductive Status where
  | suspended
  | failed
  | completed
  | terminated
  deriving DecidableEq

def Status.finished : Status → Bool
  | .completed | .terminated => true
  | .suspended | .failed => false

/-- A snapshot as the engine loads it. -/
structure Stored (B : Type) where
  status : Status
  waitingNodes : List String
  body : B

structure InstanceRow (B : Type) where
  serialised : Stored B
  claimOwner : Option String
  lastHeartbeatAt : Option Instant
  terminalAt : Option Instant

namespace InstanceRow

variable {B : Type} (r : InstanceRow B)

def unclaimed : InstanceRow B := { r with claimOwner := none, lastHeartbeatAt := none }

/-- The claim has not been refreshed for longer than the timeout. -/
def lapsed (timeout : Nat) (now : Instant) : Bool :=
  r.lastHeartbeatAt.any fun beat => beat + timeout < now

end InstanceRow

inductive WaitKind where
  | message
  | timer
  deriving DecidableEq

inductive WaitStatus where
  | waiting
  | resolved
  deriving DecidableEq

structure WaitRow where
  kind : WaitKind
  status : WaitStatus
  timerDueAt : Option Instant
  deriving DecidableEq

def WaitRow.resolve (r : WaitRow) : WaitRow := { r with status := .resolved }

abbrev AliasKey := String × String

structure Tables (B : Type) where
  instanceState : Option (InstanceRow B)
  waitingEvent : String → Option WaitRow
  aliasIndex : AliasKey → Option Bool

namespace Tables

variable {B : Type} (t : Tables B)

/-- No rows. -/
def empty : Tables B := ⟨none, fun _ => none, fun _ => none⟩

/-- The snapshot in the row. -/
def stored : Option (Stored B) := t.instanceState.map (·.serialised)

def owner : Option String := t.instanceState.bind (·.claimOwner)

def WaitingAt (nodeId : String) : Prop :=
  ∃ r, t.waitingEvent nodeId = some r ∧ r.status = .waiting

/-- The nodes that the stored snapshot waits at. -/
def frontier : List String := (t.stored.map (·.waitingNodes)).getD []

def LiveAlias (key : AliasKey) : Prop := t.aliasIndex key = some true

def Quiet : Prop := (∀ n, ¬ t.WaitingAt n) ∧ ∀ k, ¬ t.LiveAlias k

/-! ## Statements on `instance_state` -/

/-- Write the snapshot, over whatever row there is. -/
def upsert (s : Stored B) : Tables B :=
  { t with instanceState := some (match t.instanceState with
      | none => ⟨s, none, none, none⟩
      | some r => { r with serialised := s }) }

/-- Re-stamp the row as terminal and clear its claim. -/
def markTerminal (s : Stored B) (now : Instant) : Tables B :=
  { t with instanceState := t.instanceState.map fun _ => ⟨s, none, none, some now⟩ }

def delete : Tables B := { t with instanceState := none }

/-- The row is there, and unowned or owned by `owner`. -/
def claimable (owner : String) : Bool :=
  match t.instanceState with
  | none => false
  | some r => r.claimOwner.all (· == owner)

def claim (owner : String) (now : Instant) : Tables B :=
  { t with instanceState := t.instanceState.map fun r =>
      if r.claimOwner.all (· == owner) then
        { r with claimOwner := some owner, lastHeartbeatAt := some now } else r }

def release (owner : String) : Tables B :=
  { t with instanceState := t.instanceState.map fun r =>
      if r.claimOwner = some owner then r.unclaimed else r }

def heartbeat (owner : String) (now : Instant) : Tables B :=
  { t with instanceState := t.instanceState.map fun r =>
      if r.claimOwner = some owner then { r with lastHeartbeatAt := some now } else r }

def sweepStuck (timeout : Nat) (now : Instant) : Tables B :=
  { t with instanceState := t.instanceState.map fun r =>
      if r.lapsed timeout now then r.unclaimed else r }

/-! ## Statements on `waiting_event` -/

def setWait (nodeId : String) (row : WaitRow) : Tables B :=
  { t with waitingEvent := Function.update t.waitingEvent nodeId (some row) }

/-- Record a wait; the timer columns of an existing row stay. -/
def recordWaiting (nodeId : String) : Tables B :=
  t.setWait nodeId (match t.waitingEvent nodeId with
    | none => ⟨.message, .waiting, none⟩
    | some r => { r with status := .waiting })

/-- Record a new incarnation of a wait: the timer columns are reset. -/
def recordWaitingFresh (nodeId : String) : Tables B :=
  t.setWait nodeId ⟨.message, .waiting, none⟩

def recordTimerWaiting (nodeId : String) (dueAt : Instant) : Tables B :=
  t.setWait nodeId ⟨.timer, .waiting, some dueAt⟩

def resolveNode (nodeId : String) : Tables B :=
  { t with waitingEvent := fun n =>
      if n = nodeId then (t.waitingEvent n).map WaitRow.resolve else t.waitingEvent n }

def resolveAll : Tables B :=
  { t with waitingEvent := fun n => (t.waitingEvent n).map WaitRow.resolve }

def pendingTimer (nodeId : String) : Option Instant :=
  match t.waitingEvent nodeId with
  | some ⟨.timer, .waiting, due⟩ => due
  | _ => none

def deferTimer (nodeId : String) (newDueAt : Instant) : Tables B :=
  { t with waitingEvent := fun n =>
      if n = nodeId then (t.waitingEvent n).map fun r =>
        if r.kind = .timer ∧ r.status = .waiting then { r with timerDueAt := some newDueAt } else r
      else t.waitingEvent n }

/-! ## Statements on `alias_index` -/

def recordAlias (key : AliasKey) : Tables B :=
  { t with aliasIndex := Function.update t.aliasIndex key (some true) }

def retireOne (key : AliasKey) : Tables B :=
  { t with aliasIndex := fun k =>
      if k = key then (t.aliasIndex k).map fun _ => false else t.aliasIndex k }

def retire : Tables B := { t with aliasIndex := fun k => (t.aliasIndex k).map fun _ => false }

end Tables

/-! ## Transactions -/

/-- Everything that a step persists at its quiescent point. The instance is suspended there. -/
structure StepWrite (B : Type) where
  snapshot : Stored B
  suspended : snapshot.status = .suspended
  resolvedWaits : List String
  aliases : List AliasKey
  timerWaits : List (String × Instant)
  retiredAliases : List AliasKey

namespace StepWrite

variable {B : Type} (w : StepWrite B)

def waits : List String := w.snapshot.waitingNodes

end StepWrite

namespace Tables

variable {B : Type} (t : Tables B)

/-- The nodes that a step parks anew: those that are new on the frontier, those that it leaves and
comes back to, and those whose timer it sets. -/
def parks (w : StepWrite B) : List String :=
  (w.waits.filter fun n => n ∈ w.resolvedWaits ∨ n ∉ t.frontier) ++ w.timerWaits.map Prod.fst

def recordStepWait (w : StepWrite B) (t : Tables B) (nodeId : String) : Tables B :=
  if nodeId ∈ w.resolvedWaits then t.recordWaitingFresh nodeId else t.recordWaiting nodeId

def writeStep (w : StepWrite B) : Tables B :=
  let t := w.resolvedWaits.foldl resolveNode t
  let t := t.upsert w.snapshot
  let t := w.waits.foldl (recordStepWait w) t
  w.aliases.foldl recordAlias t

def writeStepWithTimers (w : StepWrite B) : Tables B :=
  w.timerWaits.foldl (fun t timer => t.recordTimerWaiting timer.1 timer.2) (t.writeStep w)

/-- The commit of a resumed step; the claim is handed back in the same transaction. -/
def commitStep (w : StepWrite B) (owner : String) : Tables B :=
  ((w.retiredAliases.foldl retireOne t).writeStepWithTimers w).release owner

/-- The terminal commit: the row is retained or deleted, every wait resolved, every alias
retired. -/
def commitComplete (retain : Bool) (now : Instant) : Tables B :=
  let t := if retain then
      match t.instanceState with
      | some r => t.markTerminal { r.serialised with status := .completed } now
      | none => t
    else t.delete
  t.resolveAll.retire

def commitFailed : Tables B :=
  match t.instanceState with
  | none => t
  | some r => (t.upsert { r.serialised with status := .failed }).resolveAll

/-! ## What the statements leave alone -/

@[simp] theorem stored_upsert (s : Stored B) : (t.upsert s).stored = some s := by
  rw [upsert, stored]
  cases t.instanceState with
  | none => rfl
  | some r => rfl

@[simp] theorem stored_markTerminal (s : Stored B) (now : Instant) :
    (t.markTerminal s now).stored = t.stored.map fun _ => s := by
  rw [markTerminal, stored, stored, Option.map_map, Option.map_map]
  rfl

theorem stored_map {f : InstanceRow B → InstanceRow B} (hf : ∀ r, (f r).serialised = r.serialised) :
    ({ t with instanceState := t.instanceState.map f } : Tables B).stored = t.stored := by
  cases h : t.instanceState with
  | none => simp only [stored, h, map_none]
  | some r => simp only [stored, h, map_some, hf]

variable (o : String) (now : Instant)

@[simp] theorem stored_claim : (t.claim o now).stored = t.stored :=
  t.stored_map fun r => by split <;> rfl

@[simp] theorem stored_release : (t.release o).stored = t.stored :=
  t.stored_map fun r => by split <;> rfl

@[simp] theorem stored_heartbeat : (t.heartbeat o now).stored = t.stored :=
  t.stored_map fun r => by split <;> rfl

@[simp] theorem stored_sweepStuck (timeout : Nat) (now : Instant) :
    (t.sweepStuck timeout now).stored = t.stored :=
  t.stored_map fun r => by split <;> rfl

theorem owner_claim {o : String} (h : t.claimable o) : (t.claim o now).owner = some o := by
  rw [claimable] at h
  rw [claim, owner]
  cases hrow : t.instanceState with
  | none =>
    rw [hrow] at h
    exact absurd h nofun
  | some r =>
    rw [hrow] at h
    simp only [map_some, bind_some, if_pos h]

theorem owner_claim_of_owner {o o' : String} (h : t.owner = some o') :
    (t.claim o now).owner = some o' := by
  rw [owner] at h
  rw [claim, owner]
  cases hrow : t.instanceState with
  | none =>
    rw [hrow] at h
    exact nomatch h
  | some r =>
    rw [hrow, bind_some] at h
    simp only [map_some, bind_some, h, all_some]
    split
    · rename_i heq
      rw [beq_iff_eq.mp heq]
    · exact h

theorem owner_release : (t.release o).owner = if t.owner = some o then none else t.owner := by
  rw [release, owner, owner]
  cases t.instanceState with
  | none => rfl
  | some r =>
    simp only [map_some, bind_some]
    split <;> rfl

@[simp] theorem owner_heartbeat : (t.heartbeat o now).owner = t.owner := by
  rw [heartbeat, owner, owner]
  cases t.instanceState with
  | none => rfl
  | some r =>
    simp only [map_some, bind_some]
    split <;> rfl

theorem owner_sweepStuck (timeout : Nat) (now : Instant) {o : String} (ho : t.owner = some o)
    (hlive : ∀ r, t.instanceState = some r → r.lapsed timeout now = false) :
    (t.sweepStuck timeout now).owner = some o := by
  rw [owner] at ho
  rw [sweepStuck, owner]
  cases hrow : t.instanceState with
  | none =>
    rw [hrow] at ho
    exact nomatch ho
  | some r =>
    rw [hrow] at ho
    simp only [map_some, hlive r hrow, Bool.false_eq_true, if_false]
    exact ho

theorem foldl_keeps {α γ : Type} (g : Tables B → γ) (f : Tables B → α → Tables B)
    (h : ∀ t x, g (f t x) = g t) (l : List α) (t : Tables B) : g (l.foldl f t) = g t := by
  induction l generalizing t with
  | nil => rfl
  | cons x l ih => rw [List.foldl_cons, ih, h]

variable (w : StepWrite B)

theorem instanceState_recordStepWait (t : Tables B) (n : String) :
    (recordStepWait w t n).instanceState = t.instanceState := by
  rw [recordStepWait]
  split <;> rfl

theorem instanceState_writeStepWithTimers :
    (t.writeStepWithTimers w).instanceState = (t.upsert w.snapshot).instanceState := by
  rw [writeStepWithTimers, foldl_keeps (·.instanceState)
    (fun t (timer : String × Instant) => t.recordTimerWaiting timer.1 timer.2) fun _ _ => rfl,
    writeStep, foldl_keeps (·.instanceState) recordAlias fun _ _ => rfl,
    foldl_keeps (·.instanceState) (recordStepWait w) (instanceState_recordStepWait w), upsert,
    upsert, foldl_keeps (·.instanceState) resolveNode fun _ _ => rfl]

@[simp] theorem stored_writeStepWithTimers :
    (t.writeStepWithTimers w).stored = some w.snapshot := by
  rw [stored, instanceState_writeStepWithTimers]
  exact t.stored_upsert w.snapshot

@[simp] theorem stored_commitStep : (t.commitStep w o).stored = some w.snapshot := by
  rw [commitStep, stored_release, stored_writeStepWithTimers]

theorem stored_commitFailed :
    t.commitFailed.stored = t.stored.map fun s => { s with status := .failed } := by
  cases h : t.instanceState with
  | none => simp [commitFailed, h, stored]
  | some r => simp [commitFailed, h, stored, upsert, resolveAll]

/-! ## What the statements make quiet -/

theorem not_waitingAt_resolveAll (n : String) : ¬ t.resolveAll.WaitingAt n := by
  rintro ⟨r, hr, hw⟩
  obtain ⟨r', -, rfl⟩ := map_eq_some_iff.mp hr
  exact nomatch hw

theorem not_liveAlias_retire (k : AliasKey) : ¬ t.retire.LiveAlias k := by
  intro h
  obtain ⟨b, -, hb⟩ := map_eq_some_iff.mp h
  exact Bool.false_ne_true hb

theorem quiet_commitComplete (retain : Bool) (now : Instant) :
    (t.commitComplete retain now).Quiet := by
  rw [commitComplete]
  exact ⟨fun n => not_waitingAt_resolveAll _ n, fun k => not_liveAlias_retire _ k⟩

theorem waitingAt_of_resolveNode {m n : String} (h : (t.resolveNode m).WaitingAt n) :
    t.WaitingAt n := by
  obtain ⟨r, hr, hw⟩ := h
  simp only [resolveNode] at hr
  split at hr
  · obtain ⟨r', -, rfl⟩ := map_eq_some_iff.mp hr
    exact nomatch hw
  · exact ⟨r, hr, hw⟩

theorem waitingAt_of_deferTimer {m n : String} {due : Instant}
    (h : (t.deferTimer m due).WaitingAt n) : t.WaitingAt n := by
  obtain ⟨r, hr, hw⟩ := h
  simp only [deferTimer] at hr
  split at hr
  · obtain ⟨r', hr', rfl⟩ := map_eq_some_iff.mp hr
    refine ⟨r', hr', ?_⟩
    split at hw
    · exact hw
    · exact hw
  · exact ⟨r, hr, hw⟩

end Tables

end Sutra.Store
