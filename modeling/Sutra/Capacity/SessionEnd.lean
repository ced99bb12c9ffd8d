import Sutra.Capacity.Memory

/-!
# An ended session holds no slot

The end of a session releases the slots of the instance and is recorded, so that a request which is
still queued goes out without a slot. An acquisition looks for the record first and inserts its
slot last, and the end can fall between the two. The store in memory holds its map for the whole of
an acquisition, so there the end has to wait with its release.

* `Separate`, `Ended`: the two are kept apart, and no recorded end leaves a covered slot behind.
* `MemoryEnded`: the same in memory.
-/

namespace Sutra.Capacity

open List Tables Bool Memory Sutra.Capacity.World

variable {pools : String → Option CapacityPool}

/-! ## The tables -/

def SessionEnd.coversRow (s : SessionEnd) (r : SlotRow) : Bool :=
  r.direction == .outbound && s.covers r.key.deployment r.key.inst r.key.call

def Tx.acquiring : Tx → Option Claim
  | .checked c | .locked c => some c
  | _ => none

/-- The end that a transaction is about to commit. -/
def Tx.ending : Tx → Option SessionEnd
  | .releasing ends _ => ends
  | _ => none

def World.Pending (a : World) (s : SessionEnd) : Prop :=
  s ∈ a.tables.sessionEnds ∨ ∃ n, (a.txs n).ending = some s

/-- The end of a session and an acquisition that it covers keep apart: no covered acquisition
commits while the end is under way, none is under way when the end commits, and no covered slot is
moved to the instance. A call that is ended has a name. -/
def Separate (a : World) : Event → Prop
  | .commit n => ∀ c, a.txs n = .locked c → ∀ m s, (a.txs m).ending = some s →
      s.coversRow c.row = false
  | .finish n => ∀ s, (a.txs n).ending = some s → ∀ m c, (a.txs m).acquiring = some c →
      s.coversRow c.row = false
  | .rebind d src dst => ∀ r ∈ a.tables.moved d src, ∀ s, a.Pending s →
      s.coversRow (Tables.rekey dst r) = false
  | .endSession _ _ _ call => call ≠ some ""
  | _ => True

/-- **No ended session holds a slot.** -/
structure Ended (a : World) : Prop where
  slots : ∀ s ∈ a.tables.sessionEnds, ∀ r ∈ a.tables.slots, s.coversRow r = false
  acquiring : ∀ n c, (a.txs n).acquiring = some c → ∀ s ∈ a.tables.sessionEnds,
    s.coversRow c.row = false
  ending : ∀ n s rows, a.txs n = .releasing (some s) rows → ∀ r ∈ a.tables.slots,
    s.coversRow r = true → r ∈ rows
  recorded : ∀ s ∈ a.endings, s ∈ a.tables.sessionEnds
  running : ∀ s ∈ a.endings, a.isOver s.deployment s.inst = false

namespace Ended

variable {a b : World} {n : Nat} {x : Event} {xs : List Event}

theorem initial : Ended .initial where
  slots _ hs := nomatch hs
  acquiring _ _ hc := nomatch hc
  ending _ _ _ h := nomatch h
  recorded _ hs := nomatch hs
  running _ hs := nomatch hs

theorem setTx (h : Ended a) {y : Tx} (hacq : ∀ c, y.acquiring = some c →
      ∀ s ∈ a.tables.sessionEnds, s.coversRow c.row = false)
    (hend : ∀ s rows, y = .releasing (some s) rows → ∀ r ∈ a.tables.slots,
      s.coversRow r → r ∈ rows) : Ended (a.setTx n y) where
  slots := h.slots
  acquiring m c hm := by
    rw [txs_setTx] at hm
    split at hm
    · exact hacq c hm
    · exact h.acquiring m c hm
  ending m s rows hm := by
    rw [txs_setTx] at hm
    split at hm
    · exact hend s rows hm
    · exact h.ending m s rows hm
  recorded := h.recorded
  running := h.running

theorem setIdle (h : Ended a) : Ended (a.setTx n .idle) := h.setTx nofun nofun

theorem covered_selected (d i : String) {call : Option String} (hname : call ≠ some "")
    {t : Tables} {r : SlotRow} (hr : r ∈ t.slots)
    (hcov : (sessionEnd d i call).coversRow r) : r ∈ t.selected d i (endSelection call) := by
  rw [SessionEnd.coversRow, SessionEnd.covers, and_eq_true, and_eq_true,
    and_eq_true, beq_iff_eq, beq_iff_eq, beq_iff_eq] at hcov
  obtain ⟨-, ⟨hd, hi⟩, hcall⟩ := hcov
  refine mem_filter.mpr ⟨hr, ?_⟩
  rw [and_eq_true, and_eq_true, beq_iff_eq, beq_iff_eq]
  refine ⟨⟨hd.symm, hi.symm⟩, ?_⟩
  cases call with
  | none => rfl
  | some k =>
    have hk : k ≠ "" := fun heq => hname (heq ▸ rfl)
    rw [or_eq_true, beq_iff_eq, beq_iff_eq] at hcall
    exact beq_iff_eq.mpr (hcall.resolve_left hk).symm

/-- The sessions that are left when some instances are over. -/
theorem settle (h : Ended a) (b : World) (htables : b.tables = a.tables) (htxs : b.txs = a.txs)
    (hendings : b.endings = a.endings) : Ended b.settle where
  slots := by
    change ∀ s ∈ b.tables.sessionEnds, ∀ r ∈ b.tables.slots, s.coversRow r = false
    rw [htables]
    exact h.slots
  acquiring := by
    change ∀ n c, (b.txs n).acquiring = some c → ∀ s ∈ b.tables.sessionEnds, _
    rw [htables, htxs]
    exact h.acquiring
  ending := by
    change ∀ n s rows, b.txs n = .releasing (some s) rows → ∀ r ∈ b.tables.slots, _
    rw [htables, htxs]
    exact h.ending
  recorded s hs := by
    change s ∈ b.tables.sessionEnds
    rw [htables]
    exact h.recorded s (hendings ▸ (mem_filter.mp hs).1)
  running s hs := by
    have hrun := (mem_filter.mp hs).2
    rwa [Bool.not_eq_eq_eq_not, Bool.not_true] at hrun

theorem commit (h : Ended a) {c : Claim} (htx : a.txs n = .locked c)
    (hsep : Separate a (.commit n)) : Ended ((a.setTables
      ((a.tables.insertSlot c.row).increment c.key.pool c.direction)).setTx n .idle) := by
  have hmem : ∀ r ∈ ((a.tables.insertSlot c.row).increment c.key.pool c.direction).slots,
      r ∈ a.tables.slots ∨ r = c.row := by
    intro r hr
    rw [Tables.insertSlot] at hr
    split at hr
    · exact .inl hr
    · exact (mem_append.mp hr).imp_right mem_singleton.mp
  have hends : ((a.tables.insertSlot c.row).increment c.key.pool c.direction).sessionEnds =
      a.tables.sessionEnds := by
    rw [Tables.insertSlot]
    split <;> rfl
  have hcovered : ∀ s ∈ a.tables.sessionEnds, s.coversRow c.row = false :=
    h.acquiring n c (by rw [htx]; rfl)
  refine setIdle ⟨fun s hs r hr => ?_, fun m c' hm s hs => ?_, fun m s rows hm r hr hcov => ?_,
    fun s hs => ?_, h.running⟩
  · have hs' : s ∈ a.tables.sessionEnds := hends ▸ hs
    rcases hmem r hr with hr | rfl
    · exact h.slots s hs' r hr
    · exact hcovered s hs'
  · exact h.acquiring m c' hm s (hends ▸ hs)
  · rcases hmem r hr with hr | rfl
    · exact h.ending m s rows hm r hr hcov
    · have hm' : a.txs m = .releasing (some s) rows := hm
      rw [hsep c htx m s (by rw [hm']; rfl)] at hcov
      cases hcov
  · exact hends.symm ▸ h.recorded s hs

theorem releaseRows (h : Ended a) (rows : List SlotRow) :
    Ended (a.setTables (a.tables.releaseRows rows)) := by
  have hmem : ∀ r ∈ (a.tables.releaseRows rows).slots, r ∈ a.tables.slots := fun r hr => by
    rw [slots_releaseRows] at hr
    exact (mem_filter.mp hr).1
  have hends : (a.tables.releaseRows rows).sessionEnds = a.tables.sessionEnds :=
    sessionEnds_decrementAll _ rows
  refine ⟨fun s hs r hr => h.slots s (hends ▸ hs) r (hmem r hr),
    fun m c hm s hs => h.acquiring m c hm s (hends ▸ hs),
    fun m s rows hm r hr => h.ending m s rows hm r (hmem r hr),
    fun s hs => hends.symm ▸ h.recorded s hs, h.running⟩

theorem mem_record {t : Tables} {s s' : SessionEnd} :
    s' ∈ (t.recordSessionEnd s).sessionEnds ↔ s' ∈ t.sessionEnds ∨ s' = s := by
  rw [Tables.recordSessionEnd]
  split
  · rename_i hmem
    refine ⟨.inl, ?_⟩
    rintro (hs | rfl)
    · exact hs
    · exact contains_iff_mem.mp hmem
  · change s' ∈ t.sessionEnds ++ [s] ↔ _
    rw [mem_append, mem_singleton]

theorem finish (h : Ended a) {s : SessionEnd} {rows : List SlotRow}
    (htx : a.txs n = .releasing (some s) rows) (hsep : Separate a (.finish n)) :
    Ended (a.setTables ((a.tables.recordSessionEnd s).releaseRows rows)) := by
  have hmem : ∀ r ∈ ((a.tables.recordSessionEnd s).releaseRows rows).slots,
      r ∈ a.tables.slots ∧ r ∉ rows := fun r hr => by
    rw [slots_releaseRows, slots_record] at hr
    simpa using mem_filter.mp hr
  have hends : ∀ s', s' ∈ ((a.tables.recordSessionEnd s).releaseRows rows).sessionEnds ↔
      s' ∈ a.tables.sessionEnds ∨ s' = s := fun s' => by
    rw [show ((a.tables.recordSessionEnd s).releaseRows rows).sessionEnds =
      (a.tables.recordSessionEnd s).sessionEnds from sessionEnds_decrementAll _ rows]
    exact mem_record
  have hend : (a.txs n).ending = some s := by rw [htx]; rfl
  refine ⟨fun s' hs r hr => ?_, fun m c hm s' hs => ?_, fun m s' rows' hm r hr => ?_,
    fun s' hs => (hends s').mpr (.inl (h.recorded s' hs)), h.running⟩
  · obtain ⟨hold, hnot⟩ := hmem r hr
    rcases (hends s').mp hs with hs | rfl
    · exact h.slots s' hs r hold
    · exact eq_false_iff.mpr fun hcov => hnot (h.ending n s' rows htx r hold hcov)
  · rcases (hends s').mp hs with hs | rfl
    · exact h.acquiring m c hm s' hs
    · exact hsep s' hend m c hm
  · exact h.ending m s' rows' hm r (hmem r hr).1

theorem rebind (h : Ended a) {d src dst : String} (hsep : Separate a (.rebind d src dst)) :
    Ended (a.setTables (a.tables.rebind d src dst)) := by
  have hends : (a.tables.rebind d src dst).sessionEnds = a.tables.sessionEnds := by
    rw [Tables.rebind]
    split <;> rfl
  refine ⟨fun s hs r hr => ?_, fun m c hm s hs => h.acquiring m c hm s (hends ▸ hs),
    fun m s rows hm r hr hcov => ?_, fun s hs => hends.symm ▸ h.recorded s hs, h.running⟩
  · have hs' : s ∈ a.tables.sessionEnds := hends ▸ hs
    rcases Tables.mem_rebind hr with hr | ⟨r', hr', rfl⟩
    · exact h.slots s hs' r hr
    · exact hsep r' hr' s (.inl hs')
  · rcases Tables.mem_rebind hr with hr | ⟨r', hr', rfl⟩
    · exact h.ending m s rows hm r hr hcov
    · have hm' : a.txs m = .releasing (some s) rows := hm
      rw [hsep r' hr' s (.inr ⟨m, by rw [hm']; rfl⟩)] at hcov
      cases hcov

theorem forgettable_over {d i : String} (h : a.forgettable d i) : a.isOver d i := by
  rw [forgettable, and_eq_true] at h
  rw [isOver]
  cases hterm : a.terminal d i with
  | none => exact h.2
  | some stamped =>
    cases stamped with
    | true => rfl
    | false =>
      rw [hterm] at h
      exact nomatch h.1

theorem forget (h : Ended a) {d i : String} (hover : a.forgettable d i) :
    Ended (a.setTables (a.tables.forgetSessionEnds d i)) := by
  have hsub : ∀ s ∈ (a.tables.forgetSessionEnds d i).sessionEnds, s ∈ a.tables.sessionEnds :=
    fun s hs => (mem_filter.mp hs).1
  refine ⟨fun s hs => h.slots s (hsub s hs), fun m c hm s hs => h.acquiring m c hm s (hsub s hs),
    h.ending, fun s hs => mem_filter.mpr ⟨h.recorded s hs, ?_⟩, h.running⟩
  rw [Bool.not_eq_eq_eq_not, Bool.not_true, Bool.and_eq_false_imp, beq_iff_eq]
  intro hd
  refine eq_false_iff.mpr fun hi => ?_
  have hrun := h.running s hs
  rw [hd, beq_iff_eq.mp hi, forgettable_over hover] at hrun
  exact nomatch hrun

/-- **Every step that keeps apart keeps it.** -/
theorem step (h : Ended a) (hstep : StepIf pools Separate a x b) : Ended b := by
  obtain ⟨hstep, hsep⟩ := hstep
  cases hstep with
  | refuse n c hidle hno => exact h
  | begin n c p hidle hpool hgo =>
    refine h.setTx (fun c' hc' s hs => ?_) fun _ _ h => by cases h
    cases hc'
    rw [turnsAway, or_eq_false_iff] at hgo
    refine eq_false_iff.mpr fun hcov => ?_
    rw [SessionEnd.coversRow, and_eq_true] at hcov
    have hended : a.tables.sessionEnded c.key := sessionEnded_iff.mpr ⟨s, hs, hcov.2⟩
    rw [hended, Bool.and_true] at hgo
    cases hgo.1.symm.trans hcov.1
  | full | abort => exact h.setIdle
  | lock n c p htx hpool hfree hnew hadmits =>
    refine h.setTx (fun c' hc' => ?_) fun _ _ h => by cases h
    cases hc'
    exact h.acquiring n c (by rw [htx]; rfl)
  | commit n c htx => exact h.commit htx hsep
  | release | releaseIfOver => exact h.setTx (fun _ h => by cases h) fun _ _ h => by cases h
  | endSession n d i call hidle hrows =>
    refine h.setTx (fun _ h => by cases h) fun s rows heq r hr hcov => ?_
    cases heq
    exact covered_selected d i hsep hr hcov
  | finish n ends rows htx hfree =>
    cases ends with
    | none =>
      refine ((h.releaseRows rows).setIdle (n := n)).settle _ rfl rfl ?_
      exact append_nil _
    | some s =>
      have hfin := ((h.finish htx hsep).setIdle (n := n))
      refine ⟨hfin.slots, hfin.acquiring, hfin.ending, fun s' hs => ?_, fun s' hs => ?_⟩
      · rcases mem_append.mp (mem_filter.mp hs).1 with hs | hs
        · exact hfin.recorded s' hs
        · rw [mem_singleton.mp hs]
          change s ∈ ((a.tables.recordSessionEnd s).releaseRows rows).sessionEnds
          rw [show ((a.tables.recordSessionEnd s).releaseRows rows).sessionEnds =
            (a.tables.recordSessionEnd s).sessionEnds from sessionEnds_decrementAll _ rows]
          exact mem_record.mpr (.inr rfl)
      · have hrun := (mem_filter.mp hs).2
        rwa [Bool.not_eq_eq_eq_not, Bool.not_true] at hrun
  | rebind d src dst hrows => exact h.rebind hsep
  | forget d i hover => exact h.forget hover
  | status d i terminal chained => exact h.settle _ rfl rfl rfl

theorem run (hrun : Run (StepIf pools Separate) .initial xs a) : Ended a :=
  hrun.invariant (fun _ _ _ _ hstep h => h.step hstep) initial

end Ended

/-! ## The store in memory -/

/-- A call into the store in memory. An acquisition holds the map from its check to its insert; an
end has remembered the session and waits for the map. -/
inductive MemoryCall where
  | idle
  | acquiring (c : Claim)
  | ending (deployment inst : String) (call : Option String)

structure MemoryWorld where
  memory : Memory
  calls : Nat → MemoryCall
  endings : List SessionEnd

def MemoryWorld.initial : MemoryWorld := ⟨.empty, fun _ => .idle, []⟩

namespace MemoryWorld

def setCall (a : MemoryWorld) (n : Nat) (x : MemoryCall) : MemoryWorld :=
  { a with calls := Function.update a.calls n x }

/-- Nobody holds the map. -/
def Unlocked (a : MemoryWorld) : Prop := ∀ n c, a.calls n ≠ .acquiring c

end MemoryWorld

inductive MemoryEvent where
  | begin (call : Nat) (c : Claim)
  | commit (call : Nat)
  | remember (call : Nat) (deployment inst : String) (which : Option String)
  | release (call : Nat)
  | releaseWhere (deployment inst : String) (s : SlotSelection)
  | rebind (deployment src dst : String)
  | finished (deployment inst : String)

variable (pools) in
/-- **One atomic step of the store in memory.** -/
inductive MemoryStep : MemoryWorld → MemoryEvent → MemoryWorld → Prop where
  | refuse {a : MemoryWorld} (n : Nat) (c : Claim) (hidle : a.calls n = .idle) (hfree : a.Unlocked)
      (hno : pools c.key.pool = none ∨
        (c.direction = .outbound ∧ a.memory.endedSession c.key = true)) :
      MemoryStep a (.begin n c) a
  | begin {a : MemoryWorld} (n : Nat) (c : Claim) (hidle : a.calls n = .idle) (hfree : a.Unlocked)
      (hgo : c.direction = .outbound → a.memory.endedSession c.key = false) :
      MemoryStep a (.begin n c) (a.setCall n (.acquiring c))
  | full {a : MemoryWorld} (n : Nat) (c : Claim) (p : CapacityPool)
      (hcall : a.calls n = .acquiring c) (hpool : pools c.key.pool = some p)
      (hno : a.memory.containsKey c.key = true ∨
        p.admits c.direction (a.memory.usageOf c.key.pool) = false) :
      MemoryStep a (.commit n) (a.setCall n .idle)
  | commit {a : MemoryWorld} (n : Nat) (c : Claim) (p : CapacityPool)
      (hcall : a.calls n = .acquiring c) (hpool : pools c.key.pool = some p)
      (hnew : a.memory.containsKey c.key = false)
      (hadmits : p.admits c.direction (a.memory.usageOf c.key.pool) = true) :
      MemoryStep a (.commit n) { a.setCall n .idle with
        memory := { a.memory with slots := a.memory.slots ++ [c.row] } }
  | remember {a : MemoryWorld} (n : Nat) (d i : String) (call : Option String)
      (hidle : a.calls n = .idle) :
      MemoryStep a (.remember n d i call) { a.setCall n (.ending d i call) with
        memory := a.memory.remember (sessionEnd d i call) }
  | release {a : MemoryWorld} (n : Nat) (d i : String) (call : Option String)
      (hcall : a.calls n = .ending d i call) (hfree : a.Unlocked) :
      MemoryStep a (.release n) { a.setCall n .idle with
        memory := a.memory.releaseWhere d i (endSelection call)
        endings := a.endings ++ [sessionEnd d i call] }
  | releaseWhere {a : MemoryWorld} (d i : String) (s : SlotSelection) (hfree : a.Unlocked) :
      MemoryStep a (.releaseWhere d i s) { a with memory := a.memory.releaseWhere d i s }
  | rebind {a : MemoryWorld} (d src dst : String) (hfree : a.Unlocked) :
      MemoryStep a (.rebind d src dst) { a with memory := a.memory.rebind d src dst }
  | finished {a : MemoryWorld} (d i : String) :
      MemoryStep a (.finished d i) { a with
        endings := a.endings.filter fun s => !(s.deployment == d && s.inst == i) }

def Remembered (a : MemoryWorld) : MemoryEvent → Prop
  | .remember _ d i call => call ≠ some "" ∧ (a.memory.sessionsEnded.length < endedMemory ∨
      sessionEnd d i call ∈ a.memory.sessionsEnded)
  | .rebind d src dst => ∀ r ∈ a.memory.slots, r.key.deployment = d → r.key.inst = src →
      ∀ s ∈ a.memory.sessionsEnded, s.coversRow (Tables.rekey dst r) = false
  | _ => True

variable (pools) in
def RememberedStep (a : MemoryWorld) (x : MemoryEvent) (b : MemoryWorld) : Prop :=
  MemoryStep pools a x b ∧ Remembered a x

/-- **No ended session holds a slot in memory.** -/
structure MemoryEnded (a : MemoryWorld) : Prop where
  slots : ∀ s ∈ a.endings, ∀ r ∈ a.memory.slots, s.coversRow r = false
  acquiring : ∀ n c, a.calls n = .acquiring c → ∀ s ∈ a.endings, s.coversRow c.row = false
  ending : ∀ n d i call, a.calls n = .ending d i call →
    call ≠ some "" ∧ sessionEnd d i call ∈ a.memory.sessionsEnded
  recorded : ∀ s ∈ a.endings, s ∈ a.memory.sessionsEnded

theorem mem_foldl_moveOne {dst : String} {rows slots : List SlotRow} {r : SlotRow}
    (hr : r ∈ rows.foldl (moveOne dst) slots) :
    r ∈ slots ∨ ∃ r' ∈ rows, r = Tables.rekey dst r' := by
  induction rows generalizing slots with
  | nil => exact .inl hr
  | cons r₀ rows ih =>
    rcases ih hr with hmem | ⟨r', hr', heq⟩
    · rw [moveOne, orInsert] at hmem
      have hrem : ∀ r ∈ remove slots r₀.key, r ∈ slots := fun r hr => (mem_filter.mp hr).1
      split at hmem
      · exact .inl (hrem r hmem)
      · rcases mem_append.mp hmem with hmem | hmem
        · exact .inl (hrem r hmem)
        · exact .inr ⟨r₀, .head _, mem_singleton.mp hmem⟩
    · exact .inr ⟨r', .tail _ hr', heq⟩

theorem mem_rebind {m : Memory} {d src dst : String} {r : SlotRow}
    (hr : r ∈ (m.rebind d src dst).slots) : r ∈ m.slots ∨
      ∃ r' ∈ m.slots, r'.key.deployment = d ∧ r'.key.inst = src ∧ r = Tables.rekey dst r' := by
  refine (mem_foldl_moveOne hr).imp_right ?_
  rintro ⟨r', hr', heq⟩
  obtain ⟨hmem, hmatch⟩ := mem_filter.mp hr'
  rw [and_eq_true, beq_iff_eq, beq_iff_eq] at hmatch
  exact ⟨r', hmem, hmatch.1, hmatch.2, heq⟩

theorem mem_remember {m : Memory} {s s' : SessionEnd}
    (hroom : m.sessionsEnded.length < endedMemory ∨ s ∈ m.sessionsEnded) :
    s' ∈ (m.remember s).sessionsEnded ↔ s' ∈ m.sessionsEnded ∨ s' = s := by
  rw [remember]
  by_cases hmem : s ∈ m.sessionsEnded
  · rw [if_pos (contains_iff_mem.mpr hmem)]
    refine ⟨.inl, ?_⟩
    rintro (hs | rfl)
    · exact hs
    · exact hmem
  · rw [if_neg fun hc => hmem (contains_iff_mem.mp hc),
      if_neg (Nat.not_le.mpr (hroom.resolve_right hmem)), mem_append, mem_singleton]

namespace MemoryEnded

variable {a b : MemoryWorld} {n : Nat} {x : MemoryEvent} {xs : List MemoryEvent}

theorem initial : MemoryEnded .initial where
  slots _ hs := nomatch hs
  acquiring _ _ hc := nomatch hc
  ending _ _ _ _ h := nomatch h
  recorded _ hs := nomatch hs

theorem calls_setCall (a : MemoryWorld) (n m : Nat) (x : MemoryCall) :
    (a.setCall n x).calls m = if m = n then x else a.calls m := Function.update_apply a.calls n x m

theorem setCall (h : MemoryEnded a) {y : MemoryCall}
    (hacq : ∀ c, y = .acquiring c → ∀ s ∈ a.endings, s.coversRow c.row = false)
    (hend : ∀ d i call, y = .ending d i call →
      call ≠ some "" ∧ sessionEnd d i call ∈ a.memory.sessionsEnded) :
    MemoryEnded (a.setCall n y) where
  slots := h.slots
  acquiring m c hm := by
    rw [calls_setCall] at hm
    split at hm
    · exact hacq c hm
    · exact h.acquiring m c hm
  ending m d i call hm := by
    rw [calls_setCall] at hm
    split at hm
    · exact hend d i call hm
    · exact h.ending m d i call hm
  recorded := h.recorded

theorem setIdle (h : MemoryEnded a) : MemoryEnded (a.setCall n .idle) := h.setCall nofun nofun

theorem setSlots (h : MemoryEnded a) {m : Memory}
    (hslots : ∀ r ∈ m.slots, ∀ s ∈ a.endings, s.coversRow r = false)
    (hends : m.sessionsEnded = a.memory.sessionsEnded) : MemoryEnded { a with memory := m } where
  slots s hs r hr := hslots r hr s hs
  acquiring := h.acquiring
  ending n d i call hn := ⟨(h.ending n d i call hn).1, hends ▸ (h.ending n d i call hn).2⟩
  recorded s hs := hends ▸ h.recorded s hs

theorem step (h : MemoryEnded a) (hstep : RememberedStep pools a x b) : MemoryEnded b := by
  obtain ⟨hstep, hrem⟩ := hstep
  cases hstep with
  | refuse n c hidle hfree hno => exact h
  | begin n c hidle hfree hgo =>
    refine h.setCall (fun c' hc' s hs => ?_) fun _ _ _ h => by cases h
    cases hc'
    refine eq_false_iff.mpr fun hcov => ?_
    rw [SessionEnd.coversRow, and_eq_true] at hcov
    have hended : a.memory.endedSession c.key := any_eq_true.mpr ⟨s, h.recorded s hs, hcov.2⟩
    cases hended.symm.trans (hgo (beq_iff_eq.mp hcov.1))
  | full n c p hcall hpool hno => exact h.setIdle
  | commit n c p hcall hpool hnew hadmits =>
    refine (h.setIdle (n := n)).setSlots (fun r hr s hs => ?_) rfl
    rcases mem_append.mp hr with hr | hr
    · exact h.slots s hs r hr
    · rw [mem_singleton.mp hr]
      exact h.acquiring n c hcall s hs
  | remember n d i call hidle =>
    have hmem : ∀ s, s ∈ (a.memory.remember (sessionEnd d i call)).sessionsEnded ↔
        s ∈ a.memory.sessionsEnded ∨ s = sessionEnd d i call :=
      fun s => mem_remember hrem.2
    have hslots : (a.memory.remember (sessionEnd d i call)).slots = a.memory.slots := by
      rw [remember]
      split <;> rfl
    refine ⟨fun s hs r hr => h.slots s hs r (hslots ▸ hr), fun m c hm => ?_,
      fun m d' i' call' hm => ?_, fun s hs => (hmem s).mpr (.inl (h.recorded s hs))⟩
    · change (a.setCall n _).calls m = _ at hm
      rw [calls_setCall] at hm
      split at hm
      · cases hm
      · exact h.acquiring m c hm
    · change (a.setCall n _).calls m = _ at hm
      rw [calls_setCall] at hm
      split at hm
      · cases hm
        exact ⟨hrem.1, (hmem _).mpr (.inr rfl)⟩
      · obtain ⟨hname, hin⟩ := h.ending m d' i' call' hm
        exact ⟨hname, (hmem _).mpr (.inl hin)⟩
  | release n d i call hcall hfree =>
    obtain ⟨hname, hin⟩ := h.ending n d i call hcall
    have hidle := h.setIdle (n := n)
    refine ⟨fun s hs r hr => ?_, fun m c hm s hs => ?_, hidle.ending, fun s hs => ?_⟩
    · obtain ⟨hold, hkept⟩ := mem_filter.mp hr
      rcases mem_append.mp hs with hs | hs
      · exact h.slots s hs r hold
      · rw [mem_singleton.mp hs]
        refine eq_false_iff.mpr fun hcov => ?_
        -- the covered slots are those that the end has released
        have hsel := Ended.covered_selected d i hname (t := ⟨a.memory.slots, fun _ _ => 0, []⟩)
          hold hcov
        rw [(mem_filter.mp hsel).2] at hkept
        cases hkept
    · have hm' : (a.setCall n .idle).calls m = .acquiring c := hm
      rw [calls_setCall] at hm'
      split at hm'
      · cases hm'
      · exact absurd hm' (hfree m c)
    · rcases mem_append.mp hs with hs | hs
      · exact h.recorded s hs
      · rw [mem_singleton.mp hs]
        exact hin
  | releaseWhere d i s hfree =>
    refine h.setSlots (fun r hr s' hs => ?_) rfl
    exact h.slots s' hs r (mem_filter.mp hr).1
  | rebind d src dst hfree =>
    refine h.setSlots (fun r hr s hs => ?_) rfl
    rcases mem_rebind hr with hr | ⟨r', hr', hd, hi, rfl⟩
    · exact h.slots s hs r hr
    · exact hrem r' hr' hd hi s (h.recorded s hs)
  | finished d i =>
    have hsub : ∀ s ∈ a.endings.filter fun s => !(s.deployment == d && s.inst == i),
        s ∈ a.endings := fun s hs => (mem_filter.mp hs).1
    exact ⟨fun s hs => h.slots s (hsub s hs), fun m c hm s hs => h.acquiring m c hm s (hsub s hs),
      h.ending, fun s hs => h.recorded s (hsub s hs)⟩

theorem run (hrun : Run (RememberedStep pools) .initial xs a) : MemoryEnded a :=
  hrun.invariant (fun _ _ _ _ hstep h => h.step hstep) initial

end MemoryEnded

/-! ## What it comes to -/

/-- **An ended session holds no slot**, until its instance is over. In the tables, in every run in
which the end of a session keeps apart from the acquisitions that it covers; in memory, in every run
in which no end is forgotten. -/
theorem ended_holds_no_slot {pools : String → Option CapacityPool} :
    (∀ xs a, Run (StepIf pools Separate) .initial xs a →
      ∀ s ∈ a.endings, ∀ r ∈ a.tables.slots, s.coversRow r = false) ∧
    ∀ xs a, Run (RememberedStep pools) .initial xs a →
      ∀ s ∈ a.endings, ∀ r ∈ a.memory.slots, s.coversRow r = false := by
  refine ⟨fun xs a hrun s hs => ?_, fun xs a hrun => (MemoryEnded.run hrun).slots⟩
  have h := Ended.run hrun
  exact h.slots s (h.recorded s hs)

def callingOut : Claim := ⟨⟨"dep", "instance", "trunk", "call-1"⟩, .outbound, false⟩

theorem ended_before_call : ∃ xs a, Run (StepIf trunk Separate) .initial xs a ∧
      sessionEnd "dep" "instance" none ∈ a.endings ∧
      ∀ s ∈ a.endings, ∀ r ∈ a.tables.slots, s.coversRow r = false := by
  have hrun : Run (StepIf trunk Separate) .initial _ _ :=
    .cons ⟨Step.status "dep" "instance" (some false) false, trivial⟩ <|
    .cons ⟨Step.endSession 0 "dep" "instance" none rfl nofun, nofun⟩ <|
    .cons ⟨Step.finish 0 _ _ rfl nofun, fun s hs m c hm => by
      by_cases h0 : m = 0
      · subst h0
        exact nomatch hm
      · simp [setTx, settle, setInstance, initial, h0, Tx.acquiring] at hm⟩ <|
    .cons ⟨Step.refuse 0 callingOut rfl (.inr rfl), trivial⟩ <|
    .nil _
  exact ⟨_, _, hrun, by decide, ended_holds_no_slot.1 _ _ hrun⟩

/-- The call has looked for an ended session, the session is ended, and the call takes its slot. -/
theorem end_falls_between :
    ∃ xs a, Run (Step trunk) .initial xs a ∧ ∃ s ∈ a.endings, ∃ r ∈ a.tables.slots,
      s.coversRow r = true := by
  have hrun : Run (Step trunk) .initial _ _ :=
    .cons (.status "dep" "instance" (some false) false) <|
    .cons (.begin 0 callingOut ⟨"trunk", 2, 0, 0⟩ rfl rfl rfl) <|
    .cons (.endSession 1 "dep" "instance" none rfl nofun) <|
    .cons (Step.finish 1 _ _ rfl nofun) <|
    .cons (Step.lock 0 callingOut ⟨"trunk", 2, 0, 0⟩ rfl rfl (fun n c hn => by
      have hn₁ := (txs_of_ne (txs_of_ne hn nofun).2 nofun).2
      exact nomatch (txs_of_ne hn₁ nofun).2) rfl rfl) <|
    .cons (Step.commit 0 callingOut rfl) <|
    .nil _
  exact ⟨_, _, hrun, sessionEnd "dep" "instance" none, by decide, callingOut.row, by decide, rfl⟩

end Sutra.Capacity
