import Mathlib

/-!
# The registry of deferred settlements

A delivery in the mode `on-complete` is not acknowledged when its dispatch returns, but when the
instance that it started is over. Until then its two callbacks are in the registry.

* `register`: the first entry of an instance stays; a full registry gives up its oldest one.
* `sweep` takes out what has waited for too long.
-/

namespace Sutra.Ack

open List

structure Pending where
  instanceId : String
  delivery : String
  registeredAt : Nat
  deriving DecidableEq

/-- The settings of the registry, and whether there is one. -/
structure Config where
  capacity : Nat
  timeout : Nat
  wired : Bool

/-- The entries of the registry, the oldest first. -/
abbrev Registry := List Pending

namespace Registry

def has (r : Registry) (inst : String) : Bool := r.any fun p => p.instanceId == inst

/-- No place is left; a capacity of zero counts as one. -/
def full (c : Config) (r : Registry) : Bool := max c.capacity 1 ≤ r.length

/-- The registry with a new entry, and what had to make room for it. Nothing, when there is an
entry for the instance. -/
def register (c : Config) (r : Registry) (p : Pending) : Option (Registry × Option Pending) :=
  if r.has p.instanceId then none
  else if r.full c then some (r.tail ++ [p], r.head?)
  else some (r ++ [p], none)

def remove (r : Registry) (inst : String) : Registry × Option Pending :=
  (r.eraseP fun p => p.instanceId == inst, r.find? fun p => p.instanceId == inst)

/-- The entry has waited for too long. -/
def timedOut (c : Config) (now : Nat) (p : Pending) : Bool := c.timeout ≤ now - p.registeredAt

/-- What stays, and what has waited for too long. -/
def sweep (c : Config) (now : Nat) (r : Registry) : Registry × List Pending :=
  (r.filter fun p => !timedOut c now p, r.filter fun p => timedOut c now p)

def Distinct (r : Registry) : Prop := (r.map Pending.instanceId).Nodup

variable {c : Config} {r : Registry} {p q : Pending} {inst : String}

theorem has_eq_false : r.has inst = false ↔ ∀ p ∈ r, p.instanceId ≠ inst := by simp [has]

theorem register_of_room (hnew : r.has p.instanceId = false) (hroom : r.full c = false) :
    r.register c p = some (r ++ [p], none) := by simp [register, hnew, hroom]

theorem Distinct.append (h : r.Distinct) (hnew : r.has p.instanceId = false) :
    Distinct (r ++ [p]) := by
  rw [Distinct, map_append, nodup_append]
  refine ⟨h, nodup_singleton _, ?_⟩
  intro i hi j hj
  obtain ⟨q, hq, rfl⟩ := mem_map.mp hi
  rw [map_singleton, mem_singleton] at hj
  rw [hj]
  exact has_eq_false.mp hnew q hq

theorem Distinct.eq (h : r.Distinct) (hp : p ∈ r) (hq : q ∈ r)
    (hpq : p.instanceId = q.instanceId) : p = q :=
  inj_on_of_nodup_map h hp hq hpq

theorem Distinct.sublist {r' : Registry} (h : r.Distinct) (hsub : r'.Sublist r) : r'.Distinct :=
  List.Nodup.sublist (hsub.map _) h

theorem Distinct.head_ne (h : Distinct (q :: r)) (hp : p ∈ r) : p.instanceId ≠ q.instanceId :=
  fun hpq => (nodup_cons.mp h).1 (hpq ▸ List.mem_map_of_mem hp)

/-- Taking out the first entry of an instance takes out all of them. -/
theorem remove_eq_filter (h : r.Distinct) (inst : String) :
    (r.remove inst).1 = r.filter fun p => !(p.instanceId == inst) := by
  induction r with
  | nil => rfl
  | cons q r ih =>
    have htail : Distinct r := h.sublist (sublist_cons_self q r)
    have ih' : List.eraseP (fun p => p.instanceId == inst) r = _ := ih htail
    by_cases hq : q.instanceId = inst
    · subst hq
      have hkeep : (r.filter fun p => !(p.instanceId == q.instanceId)) = r :=
        filter_eq_self.mpr fun p hp => by simpa using h.head_ne hp
      simp [remove, hkeep]
    · simp [remove, hq, ih']

theorem removed_eq_filter (h : r.Distinct) (inst : String) :
    (r.remove inst).2.toList = r.filter fun p => p.instanceId == inst := by
  induction r with
  | nil => rfl
  | cons q r ih =>
    have htail : Distinct r := h.sublist (sublist_cons_self q r)
    have ih' : (List.find? (fun p => p.instanceId == inst) r).toList = _ := ih htail
    by_cases hq : q.instanceId = inst
    · subst hq
      have hnone : (r.filter fun p => p.instanceId == q.instanceId) = [] :=
        filter_eq_nil_iff.mpr fun p hp => by simpa using h.head_ne hp
      simp [remove, hnone]
    · simp [remove, hq, ih']

theorem remove_of_has (hnew : r.has inst = false) : (r.remove inst).1 = r := by
  refine eraseP_of_forall_not fun p hp => ?_
  simpa using has_eq_false.mp hnew p hp

end Registry
end Sutra.Ack
