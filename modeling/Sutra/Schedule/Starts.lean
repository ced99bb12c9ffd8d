import Sutra.Lib.Run
import Sutra.Schedule.Timer

/-!
# The schedules of timer starts

Every timer start event of a deployment has a row in the schedule table. The poller claims the rows
that are due, starts an instance for each, and then moves the row on: to its next occurrence, or to
`RESOLVED` when the timer has done what it declares. Every activation flip, and every boot, arms
the rows of the active deployments again. The model follows one deployment and one poller.
-/

namespace Sutra.Schedule

/-- The process and the node of a timer start event. -/
abbrev Key := String × String

structure DeploymentPlan (texts : TimerTexts) where
  timer : Key → Option TimerDefinition
  valid : ∀ key t, timer key = some t → ∃ u, t.fromPersisted texts = some u

inductive Status where
  | scheduled
  | resolved
  deriving DecidableEq

structure Row where
  timer : TimerDefinition
  nextDueAt : Int
  remainingFires : Option Int
  status : Status

/-- A number as the `INTEGER` column keeps it. -/
def asI32 (n : Nat) : Int := (n : Int).bmod (2 ^ 32)

def DeploymentPlan.timerSchedule {texts : TimerTexts} (plan : DeploymentPlan texts) (now : Int)
    (key : Key) : Option Row :=
  match plan.timer key with
  | none => none
  | some t =>
    match t.firstDueAt texts now with
    | none => none
    | some due => some ⟨t, due, t.totalFires.map asI32, .scheduled⟩

namespace Row

def arm (arming : Row) : Option Row → Row
  | none => arming
  | some r =>
    if r.status = .resolved then arming
    else { r with timer := arming.timer, status := .scheduled }

def resolve (r : Row) : Row := { r with status := .resolved }

def moveTo (due : Int) (remaining : Option Nat) (r : Row) : Row :=
  if r.status = .scheduled then
    { r with nextDueAt := due, remainingFires := remaining.map asI32 }
  else r

def advanceSchedule (texts : TimerTexts) (claimed : Row) (now : Int) (r : Row) : Row :=
  match claimed.timer.fromPersisted texts with
  | some (.cycle spec) =>
    match Sutra.advanceCycle texts spec claimed.nextDueAt
        (claimed.remainingFires.map Int.toNat) now with
    | some (.next due remaining) => r.moveTo due remaining
    | _ => r.resolve
  | _ => r.resolve

end Row

/-- How far the fire of a claimed row has come. -/
inductive Phase where
  | claimed
  | fired
  | stale
  deriving DecidableEq

structure Claim where
  row : Row
  now : Int
  phase : Phase

structure World where
  active : Bool
  rows : Key → Option Row
  claims : Key → Option Claim
  /-- The instances minted since the deployment became active. -/
  minted : Key → Nat

def World.initial : World := ⟨false, fun _ => none, fun _ => none, fun _ => 0⟩

inductive Event where
  | reconcile (now : Int) (armed : Bool)
  | retire (resolved : Bool)
  | bootWithout
  | claim (now : Int) (keys : List Key)
  | fire (key : Key) (minted : Bool)
  | fireStale (key : Key)
  | advance (key : Key)
  | crash

namespace World

variable {texts : TimerTexts} (a : World)

def arm (plan : DeploymentPlan texts) (now : Int) : World :=
  { a with
    rows := fun key =>
      match plan.timerSchedule now key with
      | some arming => some (arming.arm (a.rows key))
      | none => (a.rows key).map Row.resolve }

/-- The deployment is active, from now on or as before. -/
def activate : World :=
  { a with active := true, minted := if a.active then a.minted else fun _ => 0 }

def resolveDeployment : World := { a with rows := fun key => (a.rows key).map Row.resolve }

def claimDue (now : Int) (keys : List Key) : World :=
  { a with
    claims := fun key => if key ∈ keys then (a.rows key).map fun r => ⟨r, now, .claimed⟩ else none }

def setClaim (key : Key) (c : Option Claim) : World :=
  { a with claims := Function.update a.claims key c }

def mapRow (key : Key) (f : Row → Row) : World :=
  { a with rows := Function.update a.rows key ((a.rows key).map f) }

def mint (key : Key) (minted : Bool) : World :=
  { a with
    minted := if a.active && minted then Function.update a.minted key (a.minted key + 1)
      else a.minted }

end World

/-- **One atomic step.** -/
inductive Step {texts : TimerTexts} (plan : DeploymentPlan texts) :
    World → Event → World → Prop where
  | reconcile {a : World} (now : Int) (armed : Bool) :
      Step plan a (.reconcile now armed) (if armed then a.activate.arm plan now else a.activate)
  /-- A flip that takes the deployment out of the active set; the write may fail. -/
  | retire {a : World} (resolved : Bool) :
      Step plan a (.retire resolved)
        (if resolved then { a with active := false }.resolveDeployment
          else { a with active := false })
  | bootWithout {a : World} : Step plan a .bootWithout { a with active := false }
  | claim {a : World} (now : Int) (keys : List Key) (hidle : ∀ key, a.claims key = none)
      (hdue : ∀ key ∈ keys, ∃ r, a.rows key = some r ∧ r.status = .scheduled ∧ r.nextDueAt ≤ now) :
      Step plan a (.claim now keys) (a.claimDue now keys)
  | fire {a : World} (key : Key) (minted : Bool) (c : Claim) (hclaim : a.claims key = some c)
      (hphase : c.phase = .claimed) :
      Step plan a (.fire key minted)
        ((a.mint key minted).setClaim key (some { c with phase := .fired }))
  /-- The process or the start event is gone. -/
  | fireStale {a : World} (key : Key) (c : Claim) (hclaim : a.claims key = some c)
      (hphase : c.phase = .claimed) :
      Step plan a (.fireStale key) (a.setClaim key (some { c with phase := .stale }))
  | advance {a : World} (key : Key) (c : Claim) (hclaim : a.claims key = some c)
      (hphase : c.phase = .fired) :
      Step plan a (.advance key)
        ((a.mapRow key (Row.advanceSchedule texts c.row c.now)).setClaim key none)
  | resolve {a : World} (key : Key) (c : Claim) (hclaim : a.claims key = some c)
      (hphase : c.phase = .stale) :
      Step plan a (.advance key) ((a.mapRow key Row.resolve).setClaim key none)
  /-- The poller stops before it has fired anything. -/
  | crash {a : World} (hnone : ∀ key c, a.claims key = some c → c.phase = .claimed) :
      Step plan a .crash { a with claims := fun _ => none }

/-! ## Lemmas about rows -/

theorem toNat_bmod_le (n m : Nat) : ((n : Int).bmod m).toNat ≤ n := by
  have hmod : (n : Int) % m ≤ n := by
    rw [← Int.natCast_mod]
    exact Int.ofNat_le.mpr (Nat.mod_le n _)
  rw [Int.toNat_le, Int.bmod]
  split
  · exact hmod
  · exact (Int.sub_le_self _ (Int.natCast_nonneg _)).trans hmod

theorem toNat_asI32_le (n : Nat) : (asI32 n).toNat ≤ n := toNat_bmod_le n _

section Plan

variable {texts : TimerTexts} {plan : DeploymentPlan texts} {now : Int} {key : Key} {r : Row}

/-- What is armed for a row does not depend on the time, but for the first instant. -/
def Declared (plan : DeploymentPlan texts) (key : Key) (t : TimerDefinition) : Prop :=
  plan.timer key = some t ∧ ∀ now, (t.firstDueAt texts now).isSome = true

theorem isSome_firstDueAt (t : TimerDefinition) (now now' : Int) :
    (t.firstDueAt texts now).isSome = (t.firstDueAt texts now').isSome := by
  cases t with
  | duration d => simp [TimerDefinition.firstDueAt]
  | date d => rfl
  | cycle c => cases hstart : c.startAt <;> simp [TimerDefinition.firstDueAt, hstart]
  | expression _ _ => rfl

theorem Declared.of_timerSchedule (h : plan.timerSchedule now key = some r) :
    Declared plan key r.timer ∧ r.remainingFires = r.timer.totalFires.map asI32 := by
  rw [DeploymentPlan.timerSchedule] at h
  split at h
  · cases h
  · rename_i t ht
    split at h
    · cases h
    · rename_i due hdue
      cases h
      refine ⟨⟨ht, fun now' => ?_⟩, rfl⟩
      rw [isSome_firstDueAt t now' now, hdue]
      rfl

theorem Declared.timerSchedule {t : TimerDefinition} (h : Declared plan key t) (now : Int) :
    ∃ due, plan.timerSchedule now key = some ⟨t, due, t.totalFires.map asI32, .scheduled⟩ := by
  obtain ⟨due, hdue⟩ := Option.isSome_iff_exists.mp (h.2 now)
  refine ⟨due, ?_⟩
  rw [DeploymentPlan.timerSchedule, h.1]
  simp only [hdue]

end Plan

namespace Row

variable {texts : TimerTexts} {r claimed : Row} {now : Int}

theorem arm_scheduled {arming : Row} (h : r.status = .scheduled) (htimer : arming.timer = r.timer) :
    arming.arm (some r) = r := by rw [arm, if_neg (by rw [h]; nofun), htimer, ← h]

theorem arm_resolved {arming : Row} (h : r.status = .resolved) : arming.arm (some r) = arming := by
  rw [arm, if_pos h]

theorem advanceSchedule_timer : (advanceSchedule texts claimed now r).timer = r.timer := by
  rw [advanceSchedule]
  split
  · split
    · rw [moveTo]; split <;> rfl
    · rfl
  · rfl

theorem advanceSchedule_resolved (h : r.status = .resolved) :
    (advanceSchedule texts claimed now r).status = .resolved := by
  rw [advanceSchedule]
  split
  · split
    · rwa [moveTo, if_neg (by rw [h]; nofun)]
    · rfl
  · rfl

/-- **What becomes of a fired row**: it is resolved, or moved forward with less budget. -/
theorem advanceSchedule_scheduled (texts : TimerTexts) (now : Int) (h : r.status = .scheduled) :
    advanceSchedule texts r now r = r.resolve ∨ ∃ due rest,
      r.nextDueAt < due ∧ Spent (r.remainingFires.map Int.toNat) rest ∧
        advanceSchedule texts r now r =
          { r with nextDueAt := due, remainingFires := rest.map asI32 } := by
  rw [advanceSchedule]
  split
  · split
    · rename_i due rest hnext
      obtain ⟨hlt, hspent⟩ := advanceCycle_next hnext
      exact .inr ⟨due, rest, hlt, hspent, by rw [moveTo, if_pos h]⟩
    · exact .inl rfl
  · exact .inl rfl

theorem nextDueAt_le_advanceSchedule (h : r.status = .scheduled) :
    r.nextDueAt ≤ (advanceSchedule texts r now r).nextDueAt := by
  rcases advanceSchedule_scheduled texts now h with heq | ⟨_, _, hlt, _, heq⟩
  · rw [heq, resolve]
  · rw [heq]
    exact hlt.le

end Row

end Sutra.Schedule
