import Mathlib

/-!
# Capacity pools and their tables

A pool is a number of slots that the calls of all deployments draw from, inbound and outbound, with
a reserve for each direction. An acquisition looks at the counters of the pool only.

* `SlotKey`: who holds what, a row of `capacity_slot`.
* `CapacityPool.admits`: the test on the counters in `capacity_pool`.
* `Exact`: the counters count the rows.
-/

namespace Sutra.Capacity

open List Function

/-- Which side of a pool a slot was taken for. -/
inductive SlotDirection where
  | inbound
  | outbound
  deriving DecidableEq

/-- The other side. -/
def SlotDirection.other : SlotDirection → SlotDirection
  | .inbound => .outbound
  | .outbound => .inbound

/-! ## The declaration -/

structure CapacityPool where
  name : String
  slots : Nat
  reserveInbound : Nat
  reserveOutbound : Nat
  deriving DecidableEq

namespace CapacityPool

def reserve (p : CapacityPool) : SlotDirection → Nat
  | .inbound => p.reserveInbound
  | .outbound => p.reserveOutbound

def nameByte (c : Char) : Bool := ('a' ≤ c && c ≤ 'z') || ('0' ≤ c && c ≤ '9') || c == '-'

def validate (p : CapacityPool) : Except String Unit :=
  if p.name.isEmpty || !p.name.toList.all nameByte then
    .error s!"capacity pool name '{p.name}' must be lowercase letters, digits and dashes"
  else if p.slots = 0 then
    .error s!"capacity pool '{p.name}' declares 0 slots; a pool needs at least one"
  else if p.slots < p.reserveInbound + p.reserveOutbound then
    .error (s!"capacity pool '{p.name}': reserve.inbound ({p.reserveInbound}) + " ++
      s!"reserve.outbound ({p.reserveOutbound}) exceeds its {p.slots} slots")
  else .ok ()

def admits (p : CapacityPool) (d : SlotDirection) (used : SlotDirection → Nat) : Bool :=
  used .inbound + used .outbound + 1 + (p.reserve d.other - used d.other) ≤ p.slots

structure Within (p : CapacityPool) (used : SlotDirection → Nat) : Prop where
  total : used .inbound + used .outbound ≤ p.slots
  each : ∀ d, used d ≤ p.slots - p.reserve d.other

variable {p : CapacityPool} {used used' : SlotDirection → Nat} {d : SlotDirection}

theorem within_zero : p.Within fun _ => 0 := ⟨Nat.zero_le _, fun _ => Nat.zero_le _⟩

theorem Within.mono (h : p.Within used) (hle : ∀ d, used' d ≤ used d) : p.Within used' := by
  refine ⟨?_, fun d => (hle d).trans (h.each d)⟩
  exact (Nat.add_le_add (hle .inbound) (hle .outbound)).trans h.total

theorem Within.of_admits (h : p.Within used) (hadmits : p.admits d used) :
    p.Within (update used d (used d + 1)) := by
  have hroom := of_decide_eq_true hadmits
  refine ⟨?_, fun d' => ?_⟩
  · cases d <;> simp <;> omega
  · by_cases heq : d' = d
    · subst heq
      rw [update_self]
      have hsum : used .inbound + used .outbound = used d' + used d'.other := by
        cases d'
        · rfl
        · exact Nat.add_comm _ _
      omega
    · rw [update_of_ne heq]
      exact h.each d'

end CapacityPool

/-! ## The tables -/

@[ext]
structure SlotKey where
  deployment : String
  inst : String
  pool : String
  call : String
  deriving DecidableEq

structure SlotRow where
  key : SlotKey
  direction : SlotDirection
  deriving DecidableEq

structure SessionEnd where
  deployment : String
  inst : String
  call : String
  deriving DecidableEq

def SessionEnd.covers (s : SessionEnd) (deployment inst call : String) : Bool :=
  s.deployment == deployment && s.inst == inst && (s.call == "" || s.call == call)

inductive SlotSelection where
  | all
  | call (key : String)
  | direction (d : SlotDirection)
  deriving DecidableEq

def SlotSelection.matches : SlotSelection → SlotRow → Bool
  | .all, _ => true
  | .call key, r => r.key.call == key
  | .direction d, r => r.direction == d

structure Tables where
  slots : List SlotRow
  used : String → SlotDirection → Nat
  sessionEnds : List SessionEnd

namespace Tables

def empty : Tables := ⟨[], fun _ _ => 0, []⟩

def sessionEnded (t : Tables) (k : SlotKey) : Bool :=
  t.sessionEnds.any fun s => s.covers k.deployment k.inst k.call

def held (t : Tables) (k : SlotKey) : Bool := t.slots.any fun r => r.key == k

/-- The insert does nothing on a conflict. -/
def insertSlot (t : Tables) (r : SlotRow) : Tables :=
  if t.held r.key then t else { t with slots := t.slots ++ [r] }

def setUsed (t : Tables) (pool : String) (d : SlotDirection) (n : Nat) : Tables :=
  { t with used := Function.update t.used pool (Function.update (t.used pool) d n) }

def increment (t : Tables) (pool : String) (d : SlotDirection) : Tables :=
  t.setUsed pool d (t.used pool d + 1)

/-- The counter does not go below zero. -/
def decrement (t : Tables) (pool : String) (d : SlotDirection) : Tables :=
  t.setUsed pool d (t.used pool d - 1)

def selected (t : Tables) (deployment inst : String) (s : SlotSelection) : List SlotRow :=
  t.slots.filter fun r => r.key.deployment == deployment && r.key.inst == inst && s.matches r

def decrementAll (t : Tables) (rows : List SlotRow) : Tables :=
  rows.foldl (fun t r => t.decrement r.key.pool r.direction) t

def releaseRows (t : Tables) (rows : List SlotRow) : Tables :=
  { t with slots := t.slots.filter fun r => !rows.contains r }.decrementAll rows

def rekey (dst : String) (r : SlotRow) : SlotRow := { r with key := { r.key with inst := dst } }

def moved (t : Tables) (deployment src : String) : List SlotRow :=
  t.selected deployment src .all

/-- A moved row would have the key of a row that is there. -/
def clashes (t : Tables) (deployment src dst : String) : Bool :=
  src != dst && (t.moved deployment src).any fun r => t.held (rekey dst r).key

def rebound (deployment src dst : String) (r : SlotRow) : SlotRow :=
  if r.key.deployment == deployment && r.key.inst == src then rekey dst r else r

/-- Re-key the slots of an instance. A key that is taken fails the statement. -/
def rebind (t : Tables) (deployment src dst : String) : Tables :=
  if t.clashes deployment src dst then t
  else { t with slots := t.slots.map (rebound deployment src dst) }

def recordSessionEnd (t : Tables) (s : SessionEnd) : Tables :=
  if t.sessionEnds.contains s then t else { t with sessionEnds := t.sessionEnds ++ [s] }

def forgetSessionEnds (t : Tables) (deployment inst : String) : Tables :=
  { t with sessionEnds := t.sessionEnds.filter fun s =>
      !(s.deployment == deployment && s.inst == inst) }

/-- How many rows of a pool were taken in a direction. -/
def count (t : Tables) (pool : String) (d : SlotDirection) : Nat :=
  t.slots.countP fun r => r.key.pool == pool && r.direction == d

/-- **The counters count the rows**, and the primary key is one. -/
structure Exact (t : Tables) : Prop where
  keys : (t.slots.map SlotRow.key).Nodup
  counts : ∀ pool d, t.used pool d = t.count pool d

variable {t : Tables} {r : SlotRow} {rows : List SlotRow} {k : SlotKey} {pool : String}
  {d : SlotDirection}

theorem exact_empty : Exact empty := ⟨.nil, fun _ _ => rfl⟩

theorem held_eq_false_iff : t.held k = false ↔ k ∉ t.slots.map SlotRow.key := by simp [held]

theorem sessionEnded_iff :
    t.sessionEnded k ↔ ∃ s ∈ t.sessionEnds, s.covers k.deployment k.inst k.call := by
  simp [sessionEnded]

theorem used_setUsed (t : Tables) (pool pool' : String) (d d' : SlotDirection) (n : Nat) :
    (t.setUsed pool d n).used pool' d' = if pool' = pool ∧ d' = d then n else t.used pool' d' := by
  change update t.used pool (update (t.used pool) d n) pool' d' = _
  by_cases hp : pool' = pool
  · subst hp
    rw [update_self, update_apply]
    simp
  · rw [update_of_ne hp, if_neg fun h => hp h.1]

def tally (rows : List SlotRow) (pool : String) (d : SlotDirection) : Nat :=
  rows.countP fun r => r.key.pool == pool && r.direction == d

theorem tally_cons (r : SlotRow) (rows : List SlotRow) (pool : String) (d : SlotDirection) :
    tally (r :: rows) pool d = tally rows pool d +
      if pool = r.key.pool ∧ d = r.direction then 1 else 0 := by
  rw [tally, countP_cons, ← tally]
  simp only [Bool.and_eq_true, beq_iff_eq, @eq_comm _ r.key.pool, @eq_comm _ r.direction]

theorem count_eq_tally : t.count pool d = tally t.slots pool d := rfl

/-! ### Acquiring -/

theorem Exact.insert (h : t.Exact) (hfree : t.held r.key = false) :
    ((t.insertSlot r).increment r.key.pool r.direction).Exact := by
  rw [insertSlot, if_neg (by rw [hfree]; exact nofun)]
  refine ⟨?_, fun pool d => ?_⟩
  · change ((t.slots ++ [r]).map SlotRow.key).Nodup
    rw [map_append, map_singleton, nodup_append]
    refine ⟨h.keys, pairwise_singleton _ _, fun a ha b hb heq => ?_⟩
    rw [heq, mem_singleton.mp hb] at ha
    exact held_eq_false_iff.mp hfree ha
  · rw [increment, used_setUsed]
    change (if pool = r.key.pool ∧ d = r.direction then t.used r.key.pool r.direction + 1
      else t.used pool d) = tally (t.slots ++ [r]) pool d
    rw [tally, countP_append, ← tally, ← tally, tally_cons, ← count_eq_tally, ← h.counts]
    split
    · rename_i heq
      rw [heq.1, heq.2]
      rfl
    · rfl

/-! ### Releasing -/

theorem slots_decrementAll (t : Tables) (rows : List SlotRow) :
    (t.decrementAll rows).slots = t.slots := by
  induction rows generalizing t with
  | nil => rfl
  | cons r rows ih => exact ih (t.decrement r.key.pool r.direction)

theorem sessionEnds_decrementAll (t : Tables) (rows : List SlotRow) :
    (t.decrementAll rows).sessionEnds = t.sessionEnds := by
  induction rows generalizing t with
  | nil => rfl
  | cons r rows ih => exact ih (t.decrement r.key.pool r.direction)

theorem used_decrementAll (t : Tables) (rows : List SlotRow) (pool : String) (d : SlotDirection) :
    (t.decrementAll rows).used pool d = t.used pool d - tally rows pool d := by
  induction rows generalizing t with
  | nil => rfl
  | cons r rows ih =>
    change ((t.decrement r.key.pool r.direction).decrementAll rows).used pool d = _
    rw [ih, decrement, used_setUsed, tally_cons]
    split
    · rename_i heq
      rw [heq.1, heq.2]
      omega
    · rfl

theorem slots_releaseRows (t : Tables) (rows : List SlotRow) :
    (t.releaseRows rows).slots = t.slots.filter fun r => !rows.contains r :=
  slots_decrementAll _ rows

theorem tally_split (hsub : ∀ r ∈ rows, r ∈ t.slots) (hrows : rows.Nodup) (hslots : t.slots.Nodup) :
    tally t.slots pool d =
      tally (t.slots.filter fun r => !rows.contains r) pool d + tally rows pool d := by
  have hgone : (t.slots.filter rows.contains).Perm rows := by
    refine (perm_ext_iff_of_nodup (hslots.filter _) hrows).mpr fun r => ?_
    rw [mem_filter, contains_iff_mem]
    exact ⟨And.right, fun hr => ⟨hsub r hr, hr⟩⟩
  have hperm := filter_append_perm rows.contains t.slots
  rw [tally, ← hperm.countP_eq, countP_append, hgone.countP_eq, Nat.add_comm]
  rfl

theorem Exact.release (h : t.Exact) (hsub : ∀ r ∈ rows, r ∈ t.slots) (hrows : rows.Nodup) :
    (t.releaseRows rows).Exact := by
  refine ⟨?_, fun pool d => ?_⟩
  · rw [slots_releaseRows]
    exact h.keys.sublist (filter_sublist.map _)
  · rw [count_eq_tally, slots_releaseRows, releaseRows, used_decrementAll]
    rw [h.counts, count_eq_tally, tally_split hsub hrows (List.Nodup.of_map _ h.keys),
      Nat.add_sub_cancel]

/-! ### Rebinding -/

theorem pool_rebound (dep src dst : String) (r : SlotRow) :
    (rebound dep src dst r).key.pool = r.key.pool := by
  rw [rebound]
  split <;> rfl

theorem direction_rebound (dep src dst : String) (r : SlotRow) :
    (rebound dep src dst r).direction = r.direction := by
  rw [rebound]
  split <;> rfl

theorem mem_moved {dep src : String} : r ∈ t.moved dep src ↔
    r ∈ t.slots ∧ r.key.deployment = dep ∧ r.key.inst = src := by
  simp [moved, selected, SlotSelection.matches]

variable {dep src dst : String}

theorem clashes_eq_false (h : t.clashes dep src dst = false) :
    src = dst ∨ ∀ r ∈ t.moved dep src, t.held (rekey dst r).key = false := by
  by_cases heq : src = dst
  · exact .inl heq
  · exact .inr (by simpa [clashes, heq] using h)

theorem rebound_cases (dep src dst : String) (r : SlotRow) :
    (r.key.deployment = dep ∧ r.key.inst = src ∧ rebound dep src dst r = rekey dst r) ∨
      rebound dep src dst r = r := by
  rw [rebound]
  split
  · rename_i h
    rw [Bool.and_eq_true, beq_iff_eq, beq_iff_eq] at h
    exact .inl ⟨h.1, h.2, rfl⟩
  · exact .inr rfl

theorem mem_rebind (hr : r ∈ (t.rebind dep src dst).slots) :
    r ∈ t.slots ∨ ∃ r' ∈ t.moved dep src, r = rekey dst r' := by
  rw [rebind] at hr
  split at hr
  · exact .inl hr
  · obtain ⟨r', hr', rfl⟩ := mem_map.mp hr
    rcases rebound_cases dep src dst r' with ⟨hd, hi, heq⟩ | heq
    · exact .inr ⟨r', mem_moved.mpr ⟨hr', hd, hi⟩, heq⟩
    · exact .inl (heq.symm ▸ hr')

theorem rebound_inj (hfree : t.clashes dep src dst = false)
    (hkeys : (t.slots.map SlotRow.key).Nodup) {r r' : SlotRow} (hr : r ∈ t.slots)
    (hr' : r' ∈ t.slots)
    (heq : (rebound dep src dst r).key = (rebound dep src dst r').key) : r = r' := by
  have hinj := inj_on_of_nodup_map hkeys hr hr'
  -- a moved row next to one that stays would have clashed
  have hmixed : ∀ {r r' : SlotRow}, r ∈ t.slots → r' ∈ t.slots → r.key.deployment = dep →
      r.key.inst = src → (rekey dst r).key = r'.key → src = dst := by
    intro r r' hr hr' hd hi hk
    refine (clashes_eq_false hfree).resolve_right fun hno => ?_
    have hmem : r ∈ t.moved dep src := mem_moved.mpr ⟨hr, hd, hi⟩
    exact held_eq_false_iff.mp (hno r hmem) (hk ▸ List.mem_map_of_mem hr')
  have hsame : ∀ {r : SlotRow}, r.key.inst = src → src = dst → (rekey dst r).key = r.key := by
    intro r hi hsd
    rw [rekey, ← hsd, ← hi]
  rcases rebound_cases dep src dst r with ⟨hd, hi, hreb⟩ | hreb <;>
    rcases rebound_cases dep src dst r' with ⟨hd', hi', hreb'⟩ | hreb' <;>
    rw [hreb, hreb'] at heq
  · refine hinj ?_
    rw [rekey, rekey, SlotKey.mk.injEq] at heq
    rw [SlotKey.ext_iff]
    exact ⟨heq.1, hi.trans hi'.symm, heq.2.2.1, heq.2.2.2⟩
  · exact hinj ((hsame hi (hmixed hr hr' hd hi heq)).symm.trans heq)
  · exact hinj (heq.trans (hsame hi' (hmixed hr' hr hd' hi' heq.symm)))
  · exact hinj heq

theorem Exact.rebind (h : t.Exact) (dep src dst : String) : (t.rebind dep src dst).Exact := by
  rw [Tables.rebind]
  split
  · exact h
  · rename_i hfree
    rw [Bool.not_eq_true] at hfree
    refine ⟨?_, fun pool d => ?_⟩
    · rw [List.map_map]
      refine List.Nodup.map_on (fun r hr r' hr' heq => ?_) (List.Nodup.of_map _ h.keys)
      exact rebound_inj hfree h.keys hr hr' heq
    · rw [h.counts, count, count, countP_map]
      refine countP_congr fun r _ => ?_
      rw [comp_apply, pool_rebound, direction_rebound]

end Tables

end Sutra.Capacity
