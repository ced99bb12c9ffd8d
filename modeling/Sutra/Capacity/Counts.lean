import Sutra.Capacity.Store

/-!
# The counters of a pool are exact and bounded

An acquisition that has locked its pool inserts its row and counts it, and the insert does nothing
on a conflict while the increment counts all the same. No other acquisition can come in between,
but a rebind can: it takes no lock, and may give a row the very key that is about to be inserted.

* `Apart` rules this out.
* `Sound`: then the counters count the rows in every reachable state.
-/

namespace Sutra.Capacity

open List Tables Sutra.Capacity.World Function

variable {pools : String → Option CapacityPool}

/-- A rebind keeps out of the way: no acquisition that has found its slot free is for a key that the
rebind is about to give out. -/
def Apart (a : World) : Event → Prop
  | .rebind d src dst => ∀ n c, a.txs n = .locked c →
      ∀ r ∈ a.tables.moved d src, (rekey dst r).key ≠ c.key
  | _ => True

/-- **The counters are exact and bounded**, and every transaction under way keeps them so. -/
structure Sound (pools : String → Option CapacityPool) (a : World) : Prop where
  exact : a.tables.Exact
  within : ∀ pool p, pools pool = some p → p.Within (a.tables.used pool)
  locked : ∀ n c, a.txs n = .locked c → a.tables.held c.key = false ∧
    ∃ p, pools c.key.pool = some p ∧ p.admits c.direction (a.tables.used c.key.pool) = true
  exclusive : ∀ n m c c', a.txs n = .locked c → a.txs m = .locked c' →
    c.key.pool = c'.key.pool → n = m
  deleted : ∀ n ends rows, a.txs n = .releasing ends rows →
    rows.Nodup ∧ ∀ r ∈ rows, r ∈ a.tables.slots
  disjoint : ∀ n m ends ends' rows rows', a.txs n = .releasing ends rows →
    a.txs m = .releasing ends' rows' → ∀ r ∈ rows, r ∈ rows' → n = m

namespace World

variable {a : World} {n m : Nat} {x : Tx}

theorem txs_setTx (a : World) (n m : Nat) (x : Tx) :
    (a.setTx n x).txs m = if m = n then x else a.txs m := update_apply a.txs n x m

theorem txs_setTx_self (a : World) (n : Nat) (x : Tx) : (a.setTx n x).txs n = x :=
  (txs_setTx a n n x).trans (if_pos rfl)

theorem txs_of_ne {y : Tx} (h : (a.setTx n x).txs m = y) (hne : x ≠ y) : m ≠ n ∧ a.txs m = y := by
  rw [txs_setTx] at h
  split at h
  · exact absurd h hne
  · rename_i hmn
    exact ⟨hmn, h⟩

end World

theorem slots_record (t : Tables) (s : SessionEnd) : (t.recordSessionEnd s).slots = t.slots := by
  rw [recordSessionEnd]
  split <;> rfl

theorem used_record (t : Tables) (s : SessionEnd) : (t.recordSessionEnd s).used = t.used := by
  rw [recordSessionEnd]
  split <;> rfl

namespace Sound

variable {a b : World} {n : Nat} {c : Claim} {x : Event} {xs : List Event}

theorem initial : Sound pools .initial where
  exact := exact_empty
  within _ _ _ := CapacityPool.within_zero
  locked _ _ h := nomatch h
  exclusive _ _ _ _ h := nomatch h
  deleted _ _ _ h := nomatch h
  disjoint _ _ _ _ _ _ h := nomatch h

variable (h : Sound pools a)

include h

theorem of_eq (hslots : b.tables.slots = a.tables.slots)
    (hused : b.tables.used = a.tables.used) (htxs : b.txs = a.txs) : Sound pools b := by
  have hheld : ∀ k, b.tables.held k = a.tables.held k := fun k => by
    rw [held, held, hslots]
  refine ⟨⟨hslots ▸ h.exact.keys, fun pool d => ?_⟩, ?_, ?_, ?_, ?_, ?_⟩
  · rw [hused, Tables.count, hslots]
    exact h.exact.counts pool d
  · rw [hused]
    exact h.within
  · intro n c hn
    rw [hheld, hused]
    exact h.locked n c (htxs ▸ hn)
  · rw [htxs]
    exact h.exclusive
  · rw [htxs, hslots]
    exact h.deleted
  · rw [htxs]
    exact h.disjoint

theorem exclusive_setTx {y : Tx} (hlock : ∀ c, y ≠ .locked c) (m m' : Nat) (c c' : Claim)
    (hm : (a.setTx n y).txs m = .locked c) (hm' : (a.setTx n y).txs m' = .locked c') :
    c.key.pool = c'.key.pool → m = m' :=
  h.exclusive m m' c c' (txs_of_ne hm (hlock c)).2 (txs_of_ne hm' (hlock c')).2

theorem disjoint_setTx {y : Tx} (hrel : ∀ ends rows, y ≠ .releasing ends rows) (m m' : Nat)
    (e e' : Option SessionEnd) (rows rows' : List SlotRow)
    (hm : (a.setTx n y).txs m = .releasing e rows)
    (hm' : (a.setTx n y).txs m' = .releasing e' rows') : ∀ r ∈ rows, r ∈ rows' → m = m' :=
  h.disjoint m m' e e' rows rows' (txs_of_ne hm (hrel e rows)).2 (txs_of_ne hm' (hrel e' rows')).2

theorem setIdle {y : Tx} (hlock : ∀ c, y ≠ .locked c)
    (hrel : ∀ ends rows, y ≠ .releasing ends rows) : Sound pools (a.setTx n y) where
  exact := h.exact
  within := h.within
  locked m c hm := h.locked m c (txs_of_ne hm (hlock c)).2
  exclusive := h.exclusive_setTx hlock
  deleted m ends rows hm := h.deleted m ends rows (txs_of_ne hm (hrel ends rows)).2
  disjoint := h.disjoint_setTx hrel

theorem setLocked {p : CapacityPool} (hpool : pools c.key.pool = some p)
    (hfree : a.Unlocked c.key.pool) (hnew : a.tables.held c.key = false)
    (hadmits : p.admits c.direction (a.tables.used c.key.pool)) :
    Sound pools (a.setTx n (.locked c)) := by
  refine ⟨h.exact, h.within, fun m c' hm => ?_, fun m m' c₁ c₂ hm hm' heq => ?_,
    fun m ends rows hm => h.deleted m ends rows (txs_of_ne hm nofun).2,
    h.disjoint_setTx nofun⟩
  · rw [txs_setTx] at hm
    split at hm
    · cases hm
      exact ⟨hnew, p, hpool, hadmits⟩
    · exact h.locked m c' hm
  · rw [txs_setTx] at hm hm'
    split at hm <;> split at hm'
    · rename_i h₁ h₂
      exact h₁.trans h₂.symm
    · cases hm
      exact absurd heq.symm (hfree m' c₂ hm')
    · cases hm'
      exact absurd heq (hfree m c₁ hm)
    · exact h.exclusive m m' c₁ c₂ hm hm' heq

/-- Rows are deleted that nobody else has deleted. -/
theorem setReleasing (ends : Option SessionEnd) (d i : String)
    (s : SlotSelection) (hrows : ∀ r ∈ a.tables.selected d i s, a.Undeleted r) :
    Sound pools (a.setTx n (.releasing ends (a.tables.selected d i s))) := by
  refine ⟨h.exact, h.within, fun m c' hm => h.locked m c' (txs_of_ne hm nofun).2,
    h.exclusive_setTx nofun, fun m e rows hm => ?_, fun m m' e e' rows rows' hm hm' r hr hr' => ?_⟩
  · rw [txs_setTx] at hm
    split at hm
    · cases hm
      refine ⟨(List.Nodup.of_map _ h.exact.keys).filter _, fun r hr => ?_⟩
      exact (mem_filter.mp hr).1
    · exact h.deleted m e rows hm
  · rw [txs_setTx] at hm hm'
    split at hm <;> split at hm'
    · rename_i h₁ h₂
      exact h₁.trans h₂.symm
    · cases hm
      exact absurd hr' (hrows r hr m' _ _ hm')
    · cases hm'
      exact absurd hr (hrows r hr' m _ _ hm)
    · exact h.disjoint m m' e e' rows rows' hm hm' r hr hr'

theorem commit (htx : a.txs n = .locked c) : Sound pools ((a.setTables
      ((a.tables.insertSlot c.row).increment c.key.pool c.direction)).setTx n .idle) := by
  obtain ⟨hnew, p, hpool, hadmits⟩ := h.locked n c htx
  have hexact := h.exact.insert (r := c.row) hnew
  rw [insertSlot, if_neg
    (by rw [show c.row.key = c.key from rfl, hnew]; exact fun h => by cases h)] at hexact ⊢
  have hother : ∀ pool, pool ≠ c.key.pool →
      (a.tables.increment c.key.pool c.direction).used pool = a.tables.used pool :=
    fun pool hne => update_of_ne hne _ _
  have hown : (a.tables.increment c.key.pool c.direction).used c.key.pool =
      update (a.tables.used c.key.pool) c.direction
        (a.tables.used c.key.pool c.direction + 1) := update_self _ _ _
  refine ⟨hexact, fun pool q hq => ?_, fun m c' hm => ?_,
    h.exclusive_setTx (y := .idle) (fun _ h => by cases h), fun m ends rows hm => ?_,
    h.disjoint_setTx (y := .idle) (fun _ _ h => by cases h)⟩
  · change q.Within ((a.tables.increment c.key.pool c.direction).used pool)
    by_cases heq : pool = c.key.pool
    · rw [heq, hpool, Option.some.injEq] at hq
      rw [heq, hown, ← hq]
      exact (h.within c.key.pool p hpool).of_admits hadmits
    · rw [hother pool heq]
      exact h.within pool q hq
  · -- another acquisition has another pool
    obtain ⟨hmn, hm⟩ := txs_of_ne hm fun h => by cases h
    have hne : c'.key.pool ≠ c.key.pool := fun heq => hmn (h.exclusive m n c' c hm htx heq)
    obtain ⟨hfree, q, hq, hadm⟩ := h.locked m c' hm
    refine ⟨?_, q, hq, ?_⟩
    · refine held_eq_false_iff.mpr ?_
      change c'.key ∉ (a.tables.slots ++ [c.row]).map SlotRow.key
      rw [map_append, mem_append, not_or]
      refine ⟨held_eq_false_iff.mp hfree, fun hmem => hne ?_⟩
      exact congrArg SlotKey.pool (mem_singleton.mp hmem)
    · change q.admits c'.direction ((a.tables.increment c.key.pool c.direction).used c'.key.pool)
      rw [hother _ hne]
      exact hadm
  · obtain ⟨hnd, hsub⟩ := h.deleted m ends rows (txs_of_ne hm (fun h => by cases h)).2
    refine ⟨hnd, fun r hr => ?_⟩
    exact mem_append_left [c.row] (hsub r hr)

theorem releaseRows {ends : Option SessionEnd} {rows : List SlotRow}
    (htx : a.txs n = .releasing ends rows) (hfree : ∀ r ∈ rows, a.Unlocked r.key.pool) :
    Sound pools ((a.setTables (a.tables.releaseRows rows)).setTx n .idle) := by
  obtain ⟨hnd, hsub⟩ := h.deleted n ends rows htx
  have hused : ∀ pool d, (a.tables.releaseRows rows).used pool d =
      a.tables.used pool d - tally rows pool d :=
    used_decrementAll _ rows
  refine ⟨h.exact.release hsub hnd, fun pool p hp => ?_, fun m c hm => ?_,
    h.exclusive_setTx (y := .idle) (fun _ h => by cases h), fun m e rows' hm => ?_,
    h.disjoint_setTx (y := .idle) (fun _ _ h => by cases h)⟩
  · refine (h.within pool p hp).mono fun d => ?_
    exact (hused pool d).trans_le (Nat.sub_le _ _)
  · have hm := (txs_of_ne hm (fun h => by cases h)).2
    obtain ⟨hnew, p, hp, hadm⟩ := h.locked m c hm
    refine ⟨?_, p, hp, ?_⟩
    · refine held_eq_false_iff.mpr fun hmem => ?_
      change c.key ∈ (a.tables.releaseRows rows).slots.map SlotRow.key at hmem
      rw [slots_releaseRows] at hmem
      exact held_eq_false_iff.mp hnew ((filter_sublist.map _).mem hmem)
    · -- no row of a locked pool is released
      have hsame : (a.tables.releaseRows rows).used c.key.pool = a.tables.used c.key.pool := by
        funext d
        rw [hused, tally, countP_eq_zero.mpr fun r hr => ?_, Nat.sub_zero]
        have hne : r.key.pool ≠ c.key.pool := (hfree r hr m c hm).symm
        simp [hne]
      change p.admits c.direction ((a.tables.releaseRows rows).used c.key.pool)
      rw [hsame]
      exact hadm
  · obtain ⟨hmn, hm⟩ := txs_of_ne hm fun h => by cases h
    obtain ⟨hnd', hsub'⟩ := h.deleted m e rows' hm
    refine ⟨hnd', fun r hr => ?_⟩
    change r ∈ (a.tables.releaseRows rows).slots
    rw [slots_releaseRows, mem_filter]
    refine ⟨hsub' r hr, ?_⟩
    have hnot : r ∉ rows := fun hr' => hmn (h.disjoint m n e ends rows' rows hm htx r hr hr')
    simpa using hnot

theorem rebind {d src dst : String}
    (hrows : ∀ r ∈ a.tables.moved d src, a.Undeleted r) (hapart : Apart a (.rebind d src dst)) :
    Sound pools (a.setTables (a.tables.rebind d src dst)) := by
  have hused : (a.tables.rebind d src dst).used = a.tables.used := by
    rw [Tables.rebind]
    split <;> rfl
  refine ⟨h.exact.rebind d src dst, ?_, fun m c hm => ?_, h.exclusive, fun m e rows hm => ?_,
    h.disjoint⟩
  · change ∀ pool p, pools pool = some p → p.Within ((a.tables.rebind d src dst).used pool)
    rw [hused]
    exact h.within
  · obtain ⟨hnew, p, hp, hadm⟩ := h.locked m c hm
    refine ⟨?_, p, hp, ?_⟩
    · refine held_eq_false_iff.mpr fun hk => ?_
      obtain ⟨r, hr, hkey⟩ := mem_map.mp hk
      rcases mem_rebind hr with hr | ⟨r', hr', rfl⟩
      · exact held_eq_false_iff.mp hnew (hkey ▸ List.mem_map_of_mem hr)
      · exact hapart m c hm r' hr' hkey
    · change p.admits c.direction ((a.tables.rebind d src dst).used c.key.pool)
      rw [hused]
      exact hadm
  · obtain ⟨hnd, hsub⟩ := h.deleted m e rows hm
    refine ⟨hnd, fun r hr => ?_⟩
    rw [Tables.rebind]
    split
    · exact hsub r hr
    · -- a deleted row is not moved
      refine mem_map.mpr ⟨r, hsub r hr, ?_⟩
      rcases rebound_cases d src dst r with ⟨hd, hi, -⟩ | heq
      · exact absurd hr (hrows r (mem_moved.mpr ⟨hsub r hr, hd, hi⟩) m e rows hm)
      · exact heq

/-- **Every step apart keeps it.** -/
theorem step (hstep : StepIf pools Apart a x b) : Sound pools b := by
  obtain ⟨hstep, hapart⟩ := hstep
  cases hstep with
  | refuse n c hidle hno => exact h
  | begin | full | abort => exact h.setIdle nofun nofun
  | lock n c p htx hpool hfree hnew hadmits => exact h.setLocked hpool hfree hnew hadmits
  | commit n c htx => exact h.commit htx
  | release n d i s hidle hrows => exact h.setReleasing _ d i s hrows
  | releaseIfOver n d i call hidle hover hrows | endSession n d i call hidle hrows =>
    exact h.setReleasing _ d i _ hrows
  | finish n ends rows htx hfree =>
    have hrec := h.of_eq (b := a.setTables (match ends with
      | none => a.tables
      | some s => a.tables.recordSessionEnd s)) (by cases ends <;> [rfl; exact slots_record _ _])
      (by cases ends <;> [rfl; exact used_record _ _]) rfl
    refine (hrec.releaseRows htx hfree).of_eq ?_ ?_ rfl <;> cases ends <;> rfl
  | rebind d src dst hrows => exact h.rebind hrows hapart
  | forget | status => exact h.of_eq rfl rfl rfl

omit h in
theorem run (hrun : Run (StepIf pools Apart) .initial xs a) : Sound pools a :=
  hrun.invariant (fun _ _ _ _ hstep h => h.step hstep) initial

end Sound

end Sutra.Capacity
