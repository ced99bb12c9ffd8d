import Sutra.Capacity.Counts

/-!
# The pools in memory, and the two stores on one sequence

A host without a database keeps its pools in one process (`Memory`): a map of the held slots, which
it counts anew for every request, and a list of ended sessions of bounded length.

* `World.serve`, `serve_run`: a request on the tables with nothing in between is a run of the store.
* `counts_exact_and_bounded`: counters and bounds, and that both stores answer alike (`Alike`).
-/

namespace Sutra.Capacity

open List Function Sutra.Capacity.World Tables

inductive SlotAcquisition where
  | acquired
  | alreadyHeld
  | exhausted (inboundUsed outboundUsed : Nat)
  | instanceEnded
  | sessionEnded
  | unknownPool
  deriving DecidableEq

/-- What is asked of a store. -/
inductive Request where
  | acquire (c : Claim)
  | rebind (deployment src dst : String)
  | release (deployment inst : String) (s : SlotSelection)
  | endSession (deployment inst : String) (call : Option String)

/-! ## The store in memory -/

/-- How many ended sessions the process remembers. -/
def endedMemory : Nat := 4096

structure Memory where
  slots : List SlotRow
  sessionsEnded : List SessionEnd

namespace Memory

def empty : Memory := ⟨[], []⟩

def endedSession (m : Memory) (k : SlotKey) : Bool :=
  m.sessionsEnded.any fun s => s.covers k.deployment k.inst k.call

def containsKey (m : Memory) (k : SlotKey) : Bool := m.slots.any fun r => r.key == k

def usageOf (m : Memory) (pool : String) (d : SlotDirection) : Nat :=
  m.slots.countP fun r => r.key.pool == pool && r.direction == d

def acquire (pools : String → Option CapacityPool) (m : Memory) (c : Claim) :
    Memory × SlotAcquisition :=
  match pools c.key.pool with
  | none => (m, .unknownPool)
  | some p =>
    if c.direction == .outbound && m.endedSession c.key then (m, .sessionEnded)
    else if m.containsKey c.key then (m, .alreadyHeld)
    else if !p.admits c.direction (m.usageOf c.key.pool) then
      (m, .exhausted (m.usageOf c.key.pool .inbound) (m.usageOf c.key.pool .outbound))
    else ({ m with slots := m.slots ++ [c.row] }, .acquired)

def remove (slots : List SlotRow) (k : SlotKey) : List SlotRow := slots.filter fun r => r.key != k

def orInsert (slots : List SlotRow) (r : SlotRow) : List SlotRow :=
  if slots.any fun r' => r'.key == r.key then slots else slots ++ [r]

def moveOne (dst : String) (slots : List SlotRow) (r : SlotRow) : List SlotRow :=
  orInsert (remove slots r.key) (rekey dst r)

def rebind (m : Memory) (deployment src dst : String) : Memory :=
  { m with slots := (m.slots.filter fun r =>
      r.key.deployment == deployment && r.key.inst == src).foldl (moveOne dst) m.slots }

def releaseWhere (m : Memory) (deployment inst : String) (s : SlotSelection) : Memory :=
  { m with slots := m.slots.filter fun r =>
      !(r.key.deployment == deployment && r.key.inst == inst && s.matches r) }

def remember (m : Memory) (s : SessionEnd) : Memory :=
  if m.sessionsEnded.contains s then m
  else { m with sessionsEnded := (if m.sessionsEnded.length ≥ endedMemory
      then m.sessionsEnded.tail else m.sessionsEnded) ++ [s] }

def endSession (m : Memory) (deployment inst : String) (call : Option String) : Memory :=
  (m.remember (sessionEnd deployment inst call)).releaseWhere deployment inst (endSelection call)

def serve (pools : String → Option CapacityPool) (m : Memory) :
    Request → Memory × Option SlotAcquisition
  | .acquire c => ((m.acquire pools c).1, some (m.acquire pools c).2)
  | .rebind d src dst => (m.rebind d src dst, none)
  | .release d i s => (m.releaseWhere d i s, none)
  | .endSession d i call => (m.endSession d i call, none)

end Memory

/-! ## The tables, one request after another -/

namespace World

def acquire (pools : String → Option CapacityPool) (a : World) (c : Claim) :
    World × SlotAcquisition :=
  match pools c.key.pool with
  | none => (a, .unknownPool)
  | some p =>
    if c.direction == .outbound && a.tables.sessionEnded c.key then (a, .sessionEnded)
    else if c.requireLive && a.instanceEnded c.key then (a, .instanceEnded)
    else if a.tables.held c.key then (a, .alreadyHeld)
    else if !p.admits c.direction (a.tables.used c.key.pool) then
      (a, .exhausted (a.tables.used c.key.pool .inbound) (a.tables.used c.key.pool .outbound))
    else (a.setTables ((a.tables.insertSlot c.row).increment c.key.pool c.direction), .acquired)

/-- A release with nothing in between. -/
def finish (a : World) (ends : Option SessionEnd) (rows : List SlotRow) : World :=
  { a.setTables (a.tables.finish ends rows) with endings := a.endings ++ ends.toList }.settle

def serve (pools : String → Option CapacityPool) (a : World) :
    Request → World × Option SlotAcquisition
  | .acquire c => ((a.acquire pools c).1, some (a.acquire pools c).2)
  | .rebind d src dst => (a.setTables (a.tables.rebind d src dst), none)
  | .release d i s => (a.finish none (a.tables.selected d i s), none)
  | .endSession d i call =>
    (a.finish (some (sessionEnd d i call)) (a.tables.selected d i (endSelection call)), none)

/-- No transaction is under way. -/
def Quiet (a : World) : Prop := ∀ n, a.txs n = .idle

end World

variable {pools : String → Option CapacityPool} {a b : World} {m : Memory}

theorem World.Quiet.setTx (h : a.Quiet) (x : Tx) : (a.setTx 0 x).setTx 0 .idle = a := by
  rw [World.setTx, World.setTx]
  rw [update_idem, ← h 0, update_eq_self]

theorem World.Quiet.finish_run (h : a.Quiet) {x : Event} {ends : Option SessionEnd}
    {rows : List SlotRow} (hstart : Step pools a x (a.setTx 0 (.releasing ends rows))) :
    Run (Step pools) a [x, .finish 0] (a.finish ends rows) := by
  have hfin : Step pools (a.setTx 0 (.releasing ends rows)) (.finish 0) _ :=
    .finish 0 ends rows (txs_setTx_self _ _ _) fun r _ n c hn => by
      rw [txs_setTx] at hn
      split at hn
      · exact nomatch hn
      · rw [h n] at hn
        exact nomatch hn
  have heq : a.finish ends rows = { ((a.setTx 0 (.releasing ends rows)).setTables
      ((a.setTx 0 (.releasing ends rows)).tables.finish ends rows)).setTx 0 .idle with
        endings := (a.setTx 0 (.releasing ends rows)).endings ++ ends.toList }.settle := by
    have hq := h.setTx (.releasing ends rows)
    have htx : update (update a.txs 0 (.releasing ends rows)) 0 .idle = a.txs :=
      congrArg World.txs hq
    rw [World.finish]
    simp only [World.setTx, World.setTables, htx]
  rw [heq]
  exact .cons hstart (.cons hfin (.nil _))

theorem World.Quiet.unlocked (h : a.Quiet) (n : Nat) (c : Claim) (pool : String) :
    (a.setTx n (.checked c)).Unlocked pool := by
  intro n c' hn
  have hidle := (txs_of_ne hn nofun).2
  rw [h n] at hidle
  exact nomatch hidle

variable {c : Claim} {p : CapacityPool} {dst : String} {r : SlotRow} {slots : List SlotRow}

/-- An acquisition that gets as far as its pool and meets nobody. -/
theorem World.Quiet.lock_run (h : a.Quiet)
    (hp : pools c.key.pool = some p) (hgo : a.turnsAway c = false)
    (hno : a.tables.held c.key ∨ p.admits c.direction (a.tables.used c.key.pool) = false) :
    Run (Step pools) a [.begin 0 c, .lock 0] a := by
  have hbegin : Step pools a _ _ := .begin 0 c p (h 0) hp hgo
  have hfull : Step pools (a.setTx 0 (.checked c)) (.lock 0) _ :=
    .full 0 c p (txs_setTx_self _ _ _) hp (h.unlocked 0 c _) hno
  rw [h.setTx] at hfull
  exact .cons hbegin (.cons hfull (.nil _))

theorem World.Quiet.commit_run (h : a.Quiet)
    (hp : pools c.key.pool = some p) (hgo : a.turnsAway c = false)
    (hnew : a.tables.held c.key = false)
    (hadmits : p.admits c.direction (a.tables.used c.key.pool)) :
    Run (Step pools) a [.begin 0 c, .lock 0, .commit 0]
      (a.setTables ((a.tables.insertSlot c.row).increment c.key.pool c.direction)) := by
  have hbegin : Step pools a _ _ := .begin 0 c p (h 0) hp hgo
  have hlock : Step pools (a.setTx 0 (.checked c)) (.lock 0) _ :=
    .lock 0 c p (txs_setTx_self _ _ _) hp (h.unlocked 0 c _) hnew hadmits
  have hcommit : Step pools ((a.setTx 0 (.checked c)).setTx 0 (.locked c)) (.commit 0) _ :=
    .commit 0 c (txs_setTx_self _ _ _)
  have htxs : update (update (update a.txs 0 (.checked c)) 0 (.locked c)) 0 .idle = a.txs := by
    rw [update_idem, ← h 0, update_idem, update_eq_self]
  refine .cons hbegin (.cons hlock (.cons hcommit ?_))
  simp only [World.setTx, World.setTables, htxs]
  exact .nil _

theorem World.Quiet.acquire_run (h : a.Quiet) (c : Claim) :
    ∃ xs, Run (StepIf pools Apart) a xs (a.acquire pools c).1 := by
  rw [World.acquire]
  cases hp : pools c.key.pool with
  | none => exact ⟨_, .cons ⟨.refuse 0 c (h 0) (.inl hp), trivial⟩ (.nil _)⟩
  | some p =>
    dsimp only
    split
    · rename_i hend
      refine ⟨_, .cons ⟨.refuse 0 c (h 0) (.inr ?_), trivial⟩ (.nil _)⟩
      exact Bool.or_eq_true_iff.mpr (.inl hend)
    rename_i hend
    split
    · rename_i hfin
      refine ⟨_, .cons ⟨.refuse 0 c (h 0) (.inr ?_), trivial⟩ (.nil _)⟩
      exact Bool.or_eq_true_iff.mpr (.inr hfin)
    rename_i hfin
    have hgo : a.turnsAway c = false := by
      rw [World.turnsAway, Bool.or_eq_false_iff]
      exact ⟨Bool.eq_false_iff.mpr hend, Bool.eq_false_iff.mpr hfin⟩
    split
    · rename_i hheld
      exact ⟨_, StepIf.run (h.lock_run hp hgo (.inl hheld)) (by simp [Apart])⟩
    rename_i hheld
    split
    · rename_i hfull
      exact ⟨_, StepIf.run (h.lock_run hp hgo (.inr (Bool.not_eq_true' _ ▸ hfull)))
        (by simp [Apart])⟩
    · rename_i hadmits
      refine ⟨_, StepIf.run (h.commit_run hp hgo (Bool.eq_false_iff.mpr hheld) ?_)
        (by simp [Apart])⟩
      simpa using hadmits

/-- A request with nothing in between is a run of the store. -/
theorem serve_run (h : a.Quiet) (r : Request) :
    ∃ xs, Run (StepIf pools Apart) a xs (a.serve pools r).1 := by
  have hun : ∀ x, a.Undeleted x := fun x n e rows hn => by
    rw [h n] at hn
    exact nomatch hn
  cases r with
  | acquire c => exact h.acquire_run c
  | rebind d src dst =>
    refine ⟨_, .cons ⟨.rebind d src dst fun x _ => hun x, fun n c hn => ?_⟩ (.nil _)⟩
    rw [h n] at hn
    cases hn
  | release d i s =>
    exact ⟨_, StepIf.run (h.finish_run (.release 0 d i s (h 0) fun x _ => hun x)) (by simp [Apart])⟩
  | endSession d i call =>
    exact ⟨_, StepIf.run (h.finish_run (.endSession 0 d i call (h 0) fun x _ => hun x))
      (by simp [Apart])⟩

theorem serve_quiet (h : a.Quiet) (r : Request) : (a.serve pools r).1.Quiet := by
  cases r with
  | acquire c =>
    change (a.acquire pools c).1.Quiet
    rw [World.acquire]
    split
    · exact h
    · split
      · exact h
      split
      · exact h
      split
      · exact h
      split
      · exact h
      · exact h
  | rebind | release | endSession => exact h

theorem World.Quiet.requests_run (h : a.Quiet) (rs : List Request) :
    ∃ xs, Run (StepIf pools Apart) a xs (rs.foldl (fun a r => (a.serve pools r).1) a) ∧
      (rs.foldl (fun a r => (a.serve pools r).1) a).Quiet := by
  induction rs generalizing a with
  | nil => exact ⟨[], .nil a, h⟩
  | cons r rs ih =>
    obtain ⟨xs, hrun⟩ := serve_run h r
    obtain ⟨ys, hrest, hquiet⟩ := ih (serve_quiet h r)
    exact ⟨xs ++ ys, hrun.append hrest, hquiet⟩

/-- **Requests that are served one after another need no condition**: they are a run in which every
rebind is apart, so the counters stay exact and every pool within its slots, and no transaction
stays open. -/
theorem requests_keep_bounds (pools : String → Option CapacityPool) (rs : List Request) :
    let a := rs.foldl (fun a r => (a.serve pools r).1) World.initial
    (∃ xs, Run (StepIf pools Apart) .initial xs a) ∧ a.Quiet ∧
      (∀ pool d, a.tables.used pool d = a.tables.count pool d) ∧
      ∀ pool p, pools pool = some p → p.Within (a.tables.used pool) := by
  obtain ⟨xs, hrun, hquiet⟩ := World.Quiet.requests_run (a := .initial) (fun _ => rfl) rs
  have hsound := Sound.run hrun
  exact ⟨⟨xs, hrun⟩, hquiet, hsound.exact.counts, hsound.within⟩

/-! ## The two stores agree -/

structure Agree (a : World) (m : Memory) : Prop where
  slots : a.tables.slots.Perm m.slots
  sessions : a.tables.sessionEnds = m.sessionsEnded

/-- A request that both stores know enough for. -/
def Alike (a : World) (m : Memory) : Request → Prop
  | .acquire c => c.requireLive = true → a.instanceEnded c.key = false
  | .rebind d src dst => a.tables.clashes d src dst = false
  | .release _ _ _ => True
  | .endSession d i call => m.sessionsEnded.length < endedMemory ∨
      sessionEnd d i call ∈ m.sessionsEnded

theorem Agree.held (h : Agree a m) (k : SlotKey) : a.tables.held k = m.containsKey k := by
  rw [Tables.held, Memory.containsKey]
  exact h.slots.any_eq

theorem Agree.used (h : Agree a m) (hexact : a.tables.Exact) (pool : String) :
    a.tables.used pool = m.usageOf pool := by
  funext d
  rw [hexact.counts, Tables.count, h.slots.countP_eq]
  rfl

theorem Agree.acquire (h : Agree a m) (hexact : a.tables.Exact) (halike : Alike a m (.acquire c)) :
    (a.acquire pools c).2 = (m.acquire pools c).2 ∧
      Agree (a.acquire pools c).1 (m.acquire pools c).1 := by
  have hend : a.tables.sessionEnded c.key = m.endedSession c.key := by
    rw [sessionEnded, h.sessions]
    rfl
  have hlive : (c.requireLive && a.instanceEnded c.key) = false := by
    cases hreq : c.requireLive with
    | false => rfl
    | true => exact (Bool.true_and _).trans (halike hreq)
  rw [World.acquire, Memory.acquire, hend, hlive, h.held, h.used hexact]
  cases pools c.key.pool with
  | none => exact ⟨rfl, h⟩
  | some p =>
    dsimp only
    split
    · exact ⟨rfl, h⟩
    rw [if_neg fun h => by cases h]
    split
    · exact ⟨rfl, h⟩
    rename_i hnew
    split
    · exact ⟨rfl, h⟩
    · refine ⟨rfl, ?_, h.sessions ▸ ?_⟩
      · change ((a.tables.insertSlot c.row).slots).Perm (m.slots ++ [c.row])
        rw [insertSlot, if_neg (by rw [h.held]; exact hnew)]
        exact h.slots.append_right _
      · change (a.tables.insertSlot c.row).sessionEnds = a.tables.sessionEnds
        rw [insertSlot]
        split <;> rfl

/-! ### Rebinding, one slot at a time -/

theorem Memory.moveOne_eq
    (hfree : (rekey dst r).key ∉ (Memory.remove slots r.key).map SlotRow.key) :
    Memory.moveOne dst slots r = Memory.remove slots r.key ++ [rekey dst r] := by
  rw [Memory.moveOne, Memory.orInsert, if_neg]
  intro hany
  obtain ⟨r', hr', hkey⟩ := any_eq_true.mp hany
  exact hfree (beq_iff_eq.mp hkey ▸ mem_map_of_mem hr')

theorem Memory.perm_remove (hr : r ∈ slots)
    (hkeys : (slots.map SlotRow.key).Nodup) : slots.Perm (r :: Memory.remove slots r.key) := by
  have hnd := List.Nodup.of_map _ hkeys
  refine (perm_ext_iff_of_nodup hnd ?_).mpr fun r' => ?_
  · refine nodup_cons.mpr ⟨fun hmem => ?_, hnd.filter _⟩
    simpa using (mem_filter.mp hmem).2
  · rw [mem_cons, Memory.remove, mem_filter, bne_iff_ne]
    constructor
    · intro hr'
      by_cases heq : r'.key = r.key
      · exact .inl (inj_on_of_nodup_map hkeys hr' hr heq)
      · exact .inr ⟨hr', heq⟩
    · rintro (rfl | ⟨hr', -⟩)
      · exact hr
      · exact hr'

def moveIn (dst : String) (rows : List SlotRow) (r : SlotRow) : SlotRow :=
  if r ∈ rows then rekey dst r else r

theorem moveIn_rekey (dst : String) (rows : List SlotRow) (r : SlotRow) :
    moveIn dst rows (rekey dst r) = rekey dst r := by
  rw [moveIn]
  split <;> rfl

/-- Where the slots of one holder go, no two of them meet. -/
structure Movable (src dst : String) (rows slots : List SlotRow) : Prop where
  sub : ∀ r ∈ rows, r ∈ slots
  nodup : rows.Nodup
  keys : (slots.map SlotRow.key).Nodup
  inst : ∀ r ∈ rows, r.key.inst = src
  free : src = dst ∨ ∀ r ∈ rows, (rekey dst r).key ∉ slots.map SlotRow.key

theorem rekey_key_inj {src : String} {r' : SlotRow} (hr : r.key.inst = src)
    (hr' : r'.key.inst = src) (heq : (rekey dst r).key = (rekey dst r').key) : r.key = r'.key := by
  rw [rekey, rekey, SlotKey.mk.injEq] at heq
  exact SlotKey.ext heq.1 (hr.trans hr'.symm) heq.2.2.1 heq.2.2.2

namespace Movable

variable {src dst : String} {r : SlotRow} {rows slots : List SlotRow}

theorem head_free (h : Movable src dst (r :: rows) slots) :
    (rekey dst r).key ∉ (Memory.remove slots r.key).map SlotRow.key := by
  intro hmem
  obtain ⟨r', hr', hkey⟩ := mem_map.mp hmem
  obtain ⟨hr', hne⟩ := mem_filter.mp hr'
  rcases h.free with heq | hfree
  · have hsame : (rekey dst r).key = r.key := by
      rw [rekey, ← heq, ← h.inst r mem_cons_self]
    exact bne_iff_ne.mp hne (hkey.trans hsame)
  · exact hfree r (.head _) (hkey ▸ mem_map_of_mem hr')

theorem tail (h : Movable src dst (r :: rows) slots) :
    Movable src dst rows (Memory.remove slots r.key ++ [rekey dst r]) := by
  have hr : r ∈ slots := h.sub r (.head _)
  have hnd := nodup_cons.mp h.nodup
  have hne : ∀ r' ∈ rows, r'.key ≠ r.key := fun r' hr' hkey => hnd.1
    (inj_on_of_nodup_map h.keys (h.sub r' (.tail _ hr')) hr hkey ▸ hr')
  refine ⟨fun r' hr' => ?_, hnd.2, ?_, fun r' hr' => h.inst r' (.tail _ hr'),
    h.free.imp_right fun hfree r' hr' hmem => ?_⟩
  · refine mem_append_left _ (mem_filter.mpr ⟨?_, bne_iff_ne.mpr (hne r' hr')⟩)
    exact h.sub r' (.tail _ hr')
  · rw [map_append, nodup_append]
    refine ⟨h.keys.sublist (filter_sublist.map _), pairwise_singleton _ _, ?_⟩
    intro k hk k' hk' heq
    rw [map_singleton, mem_singleton] at hk'
    exact h.head_free (hk' ▸ heq ▸ hk)
  · have hr'' := mem_cons_of_mem r hr'
    rw [map_append, mem_append, map_singleton, mem_singleton] at hmem
    rcases hmem with hmem | hkey
    · exact hfree r' hr'' ((filter_sublist.map _).mem hmem)
    · exact hne r' hr' (rekey_key_inj (h.inst r' hr'') (h.inst r (.head _)) hkey)

/-- **The slots move as they would all at once.** -/
theorem foldl_perm (h : Movable src dst rows slots) :
    (rows.foldl (Memory.moveOne dst) slots).Perm (slots.map (moveIn dst rows)) := by
  induction rows generalizing slots with
  | nil =>
    have hid : slots.map (moveIn dst []) = slots.map id :=
      map_congr_left fun r _ => if_neg not_mem_nil
    rw [hid, map_id]
    exact List.Perm.refl slots
  | cons r rows ih =>
    have hr : r ∈ slots := h.sub r (.head _)
    have hrest : (Memory.remove slots r.key).map (moveIn dst (r :: rows)) =
        (Memory.remove slots r.key).map (moveIn dst rows) := by
      refine map_congr_left fun r' hr' => ?_
      have hne : r' ≠ r := fun heq => bne_iff_ne.mp (mem_filter.mp hr').2 (heq ▸ rfl)
      simp [moveIn, hne]
    have hhead : moveIn dst (r :: rows) r = rekey dst r := if_pos (.head _)
    have hperm := (Memory.perm_remove hr h.keys).map (moveIn dst (r :: rows))
    rw [map_cons, hhead, hrest] at hperm
    rw [foldl_cons, Memory.moveOne_eq h.head_free]
    refine (ih h.tail).trans (List.Perm.trans ?_ hperm.symm)
    rw [map_append, map_singleton, moveIn_rekey]
    exact perm_append_singleton _ _

end Movable

theorem Agree.rebind (h : Agree a m) (hexact : a.tables.Exact) {d src : String}
    (halike : Alike a m (.rebind d src dst)) :
    Agree (a.setTables (a.tables.rebind d src dst)) (m.rebind d src dst) := by
  have hfree : a.tables.clashes d src dst = false := halike
  have hkeys : (m.slots.map SlotRow.key).Nodup := (h.slots.map _).nodup_iff.mp hexact.keys
  -- the rows that the map moves are those that the statement moves
  have hmem : ∀ r, r ∈ (m.slots.filter fun r => r.key.deployment == d && r.key.inst == src) ↔
      r ∈ a.tables.moved d src := fun r => by
    rw [mem_moved, mem_filter, h.slots.mem_iff]
    simp
  have hmov : Movable src dst (m.slots.filter fun r => r.key.deployment == d && r.key.inst == src)
      m.slots := by
    refine ⟨fun r hr => (mem_filter.mp hr).1, (List.Nodup.of_map _ hkeys).filter _, hkeys,
      fun r hr => (mem_moved.mp ((hmem r).mp hr)).2.2, ?_⟩
    refine (clashes_eq_false hfree).imp_right fun hno r hr => ?_
    rw [← (h.slots.map SlotRow.key).mem_iff]
    exact held_eq_false_iff.mp (hno r ((hmem r).mp hr))
  have heq : a.tables.rebind d src dst =
      { a.tables with slots := a.tables.slots.map (rebound d src dst) } := by
    rw [Tables.rebind, if_neg (by rw [hfree]; exact fun h => by cases h)]
  refine ⟨?_, ?_⟩
  · change (a.tables.rebind d src dst).slots.Perm _
    rw [heq]
    refine ((h.slots.map _).trans ?_).trans hmov.foldl_perm.symm
    refine List.Perm.of_eq (map_congr_left fun r hr => ?_)
    rw [moveIn, rebound]
    refine if_congr ?_ rfl rfl
    rw [mem_filter]
    exact ⟨fun hmatch => ⟨hr, hmatch⟩, And.right⟩
  · change (a.tables.rebind d src dst).sessionEnds = _
    rw [heq]
    exact h.sessions

/-! ### Releasing -/

theorem slots_release (t : Tables) (d i : String) (s : SlotSelection) :
    (t.releaseRows (t.selected d i s)).slots = t.slots.filter fun r =>
      !(r.key.deployment == d && r.key.inst == i && s.matches r) := by
  rw [slots_releaseRows]
  refine filter_congr fun r hr => congrArg _ ?_
  rw [Bool.eq_iff_iff, contains_iff_mem, selected, mem_filter]
  exact ⟨And.right, fun hmatch => ⟨hr, hmatch⟩⟩

theorem Agree.release (h : Agree a m) (d i : String) (s : SlotSelection) :
    Agree (a.finish none (a.tables.selected d i s)) (m.releaseWhere d i s) := by
  refine ⟨?_, ?_⟩
  · change (a.tables.releaseRows (a.tables.selected d i s)).slots.Perm _
    rw [slots_release]
    exact h.slots.filter _
  · change (a.tables.releaseRows _).sessionEnds = _
    exact (sessionEnds_decrementAll _ _).trans h.sessions

theorem Agree.endSession (h : Agree a m) {d i : String} {call : Option String}
    (halike : Alike a m (.endSession d i call)) :
    Agree (a.finish (some (sessionEnd d i call)) (a.tables.selected d i (endSelection call)))
      (m.endSession d i call) := by
  have hsel : a.tables.selected d i (endSelection call) =
      (a.tables.recordSessionEnd (sessionEnd d i call)).selected d i (endSelection call) := by
    rw [selected, selected, slots_record]
  refine ⟨?_, ?_⟩
  · change ((a.tables.recordSessionEnd (sessionEnd d i call)).releaseRows _).slots.Perm _
    rw [hsel, slots_release, slots_record, Memory.endSession, Memory.releaseWhere]
    have hslots : (m.remember (sessionEnd d i call)).slots = m.slots := by
      rw [Memory.remember]
      split <;> rfl
    rw [hslots]
    exact h.slots.filter _
  · change ((a.tables.recordSessionEnd (sessionEnd d i call)).releaseRows _).sessionEnds =
      (m.remember (sessionEnd d i call)).sessionsEnded
    refine (sessionEnds_decrementAll _ _).trans ?_
    rw [recordSessionEnd, Memory.remember, h.sessions]
    by_cases hmem : sessionEnd d i call ∈ m.sessionsEnded
    · rw [if_pos (contains_iff_mem.mpr hmem), if_pos (contains_iff_mem.mpr hmem)]
      exact h.sessions
    · have hroom : ¬ m.sessionsEnded.length ≥ endedMemory :=
        Nat.not_le.mpr (Or.resolve_right halike hmem)
      rw [if_neg (fun hc => hmem (contains_iff_mem.mp hc)),
        if_neg (fun hc => hmem (contains_iff_mem.mp hc)), if_neg hroom]

/-- **Both stores answer alike**, and go on agreeing. -/
theorem Agree.serve (h : Agree a m) (hexact : a.tables.Exact) (r : Request) (halike : Alike a m r) :
    (a.serve pools r).2 = (m.serve pools r).2 ∧ Agree (a.serve pools r).1 (m.serve pools r).1 := by
  cases r with
  | acquire c =>
    obtain ⟨hans, hagree⟩ : (a.acquire pools c).2 = (m.acquire pools c).2 ∧ _ :=
      h.acquire hexact halike
    exact ⟨congrArg some hans, hagree⟩
  | rebind d src dst => exact ⟨rfl, h.rebind hexact halike⟩
  | release d i s => exact ⟨rfl, h.release d i s⟩
  | endSession d i call => exact ⟨rfl, h.endSession halike⟩

/-! ## What it comes to -/

def World.answers (pools : String → Option CapacityPool) (a : World) :
    List Request → List (Option SlotAcquisition)
  | [] => []
  | r :: rs => (a.serve pools r).2 :: (a.serve pools r).1.answers pools rs

def Memory.answers (pools : String → Option CapacityPool) (m : Memory) :
    List Request → List (Option SlotAcquisition)
  | [] => []
  | r :: rs => (m.serve pools r).2 :: (m.serve pools r).1.answers pools rs

/-- Every request of the sequence is one that both stores know enough for. -/
def AlikeAll (pools : String → Option CapacityPool) : World → Memory → List Request → Prop
  | _, _, [] => True
  | a, m, r :: rs => Alike a m r ∧ AlikeAll pools (a.serve pools r).1 (m.serve pools r).1 rs

theorem serve_exact (hexact : a.tables.Exact) (r : Request) : (a.serve pools r).1.tables.Exact := by
  have hsel : ∀ d i s, (a.tables.releaseRows (a.tables.selected d i s)).Exact := fun d i s =>
    hexact.release (fun r hr => (mem_filter.mp hr).1) ((List.Nodup.of_map _ hexact.keys).filter _)
  cases r with
  | acquire c =>
    change (a.acquire pools c).1.tables.Exact
    rw [World.acquire]
    split
    · exact hexact
    · split
      · exact hexact
      split
      · exact hexact
      split
      · exact hexact
      rename_i hheld
      split
      · exact hexact
      · exact hexact.insert (Bool.eq_false_iff.mpr hheld)
  | rebind d src dst => exact hexact.rebind d src dst
  | release d i s => exact hsel d i s
  | endSession d i call =>
    have hrec : (a.tables.recordSessionEnd (sessionEnd d i call)).Exact := by
      refine ⟨slots_record a.tables _ ▸ hexact.keys, fun pool dir => ?_⟩
      rw [used_record, Tables.count, slots_record]
      exact hexact.counts pool dir
    refine hrec.release (fun r hr => ?_) ((List.Nodup.of_map _ hexact.keys).filter _)
    rw [slots_record]
    exact (mem_filter.mp hr).1

/-- **Both stores answer a whole sequence alike.** -/
theorem Agree.answers (h : Agree a m) (hexact : a.tables.Exact) (rs : List Request)
    (halike : AlikeAll pools a m rs) : a.answers pools rs = m.answers pools rs := by
  induction rs generalizing a m with
  | nil => rfl
  | cons r rs ih =>
    obtain ⟨hans, hagree⟩ : (a.serve pools r).2 = (m.serve pools r).2 ∧ _ :=
      h.serve hexact r halike.1
    rw [World.answers, Memory.answers, hans, ih hagree (serve_exact hexact r) halike.2]

theorem CapacityPool.reserves_fit (h : p.validate = .ok ()) :
    p.reserveInbound + p.reserveOutbound ≤ p.slots := by
  rw [CapacityPool.validate] at h
  split at h
  · exact nomatch h
  split at h
  · exact nomatch h
  split at h
  · exact nomatch h
  · rename_i hfit
    exact Nat.not_lt.mp hfit

/-- **Capacity counts are exact and bounded.**  In every state that the transactions of any number
of replicas reach, as long as no rebind gives out a key that a locked acquisition is about to
insert: the counters of every pool count its rows, both directions together fit its slots, and
neither takes what is reserved for the other. And on one sequence of requests that both know enough
for, the persisted store and the one in memory give the same answers. -/
theorem counts_exact_and_bounded {pools : String → Option CapacityPool}
    (hvalid : ∀ name p, pools name = some p → p.validate = .ok ()) {xs : List Event} {a : World}
    (hrun : Run (StepIf pools Apart) .initial xs a) :
    (∀ pool d, a.tables.used pool d = a.tables.count pool d) ∧ (∀ pool p, pools pool = some p →
        a.tables.used pool .inbound + a.tables.used pool .outbound ≤ p.slots ∧
          ∀ d : SlotDirection, a.tables.used pool d + p.reserve d.other ≤ p.slots) ∧
      ∀ rs, AlikeAll pools .initial .empty rs →
        World.initial.answers pools rs = Memory.empty.answers pools rs := by
  have h := Sound.run hrun
  refine ⟨h.exact.counts, fun pool p hp => ?_, fun rs halike => ?_⟩
  · have hwithin := h.within pool p hp
    have hfit := CapacityPool.reserves_fit (hvalid pool p hp)
    refine ⟨hwithin.total, fun d => ?_⟩
    have heach := hwithin.each d
    have hres : p.reserve d.other ≤ p.slots := by
      cases d
      · exact (Nat.le_add_left _ _).trans hfit
      · exact (Nat.le_add_right _ _).trans hfit
    omega
  · exact Agree.answers ⟨List.Perm.refl _, rfl⟩ exact_empty rs halike

/-! ### A trunk with two lines -/

/-- One pool of two slots. -/
def trunk (name : String) : Option CapacityPool :=
  if name = "trunk" then some ⟨"trunk", 2, 0, 0⟩ else none

/-- A call comes in, for an admission. -/
def incoming : Claim := ⟨⟨"dep", "admission", "trunk", "call-1"⟩, .inbound, false⟩

/-- The instance calls out. -/
def outgoing : Claim := ⟨⟨"dep", "instance", "trunk", "call-1"⟩, .outbound, false⟩

theorem trunk_valid (name : String) (p : CapacityPool) (hp : trunk name = some p) :
    p.validate = .ok () := by
  rw [trunk] at hp
  split at hp
  · cases hp
    rfl
  · exact nomatch hp

/-- The incoming call holds a slot. -/
def admitted : World :=
  World.initial.setTables ((empty.insertSlot incoming.row).increment "trunk" .inbound)

theorem admitted_quiet : admitted.Quiet := fun _ => rfl

theorem incoming_run : Run (Step trunk) .initial [.begin 0 incoming, .lock 0, .commit 0] admitted :=
  World.Quiet.commit_run (fun _ => rfl) (p := ⟨"trunk", 2, 0, 0⟩) rfl rfl rfl rfl

theorem incoming_counted :
    ∃ xs a, Run (StepIf trunk Apart) .initial xs a ∧ a.tables.used "trunk" .inbound = 1 ∧
      ((∀ pool d, a.tables.used pool d = a.tables.count pool d) ∧ (∀ pool p, trunk pool = some p →
          a.tables.used pool .inbound + a.tables.used pool .outbound ≤ p.slots ∧
            ∀ d : SlotDirection, a.tables.used pool d + p.reserve d.other ≤ p.slots) ∧
        ∀ rs, AlikeAll trunk .initial .empty rs →
          World.initial.answers trunk rs = Memory.empty.answers trunk rs) := by
  have hrun : Run (StepIf trunk Apart) .initial _ admitted :=
    StepIf.run incoming_run fun x hx a => by
      simp only [mem_cons, not_mem_nil, or_false] at hx
      rcases hx with rfl | rfl | rfl <;> trivial
  exact ⟨_, _, hrun, rfl, counts_exact_and_bounded trunk_valid hrun⟩

/-- The instance asks for a slot for the call, and its admission is bound to it at the same time:
the row is there once, and it is counted twice. On one sequence, the tables keep a slot that cannot
be moved, and the store in memory drops it. -/
theorem rebind_counts_twice :
    (∃ xs a, Run (Step trunk) .initial xs a ∧ a.tables.count "trunk" .outbound = 0 ∧
      a.tables.used "trunk" .outbound = 1) ∧
    ∃ rs, World.initial.answers trunk rs ≠ Memory.empty.answers trunk rs := by
  refine ⟨?_, [.acquire incoming, .acquire outgoing, .rebind "dep" "admission" "instance",
    .acquire ⟨⟨"dep", "other", "trunk", "call-2"⟩, .inbound, false⟩], by decide⟩
  have hrace : Run (Step trunk) admitted _ _ :=
    .cons (.begin 1 outgoing ⟨"trunk", 2, 0, 0⟩ rfl rfl rfl) <|
    .cons (.lock 1 outgoing ⟨"trunk", 2, 0, 0⟩ rfl rfl
      (admitted_quiet.unlocked 1 outgoing "trunk") rfl rfl) <|
    .cons (.rebind "dep" "admission" "instance" fun r _ n e rows hn => by
      have hn' := (txs_of_ne (txs_of_ne hn nofun).2 nofun).2
      exact nomatch hn'.symm.trans (admitted_quiet n)) <|
    .cons (.commit 1 outgoing rfl) <|
    .nil _
  exact ⟨_, _, incoming_run.append hrace, rfl, rfl⟩

end Sutra.Capacity
