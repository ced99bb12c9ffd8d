import Sutra.Outbox.Dispatcher

/-!
# Withdrawn requests

When an attempt of a channel call has failed, the step that puts the call into its backoff deletes
the rows that the node emitted. But a worker sends what it was handed and does not ask the table
again.

* `withdrawn_request_sent`: a request that waits in a queue when the call times out is sent.
* `Quiet`: no process has an unsent row of the node in memory when its rows are withdrawn.
* `withdrawn_not_sent`: then no withdrawn row is sent.
-/

namespace Sutra.Outbox

open List Process Function Sutra.Outbox.Table

/-! ## The processes -/

inductive CallState where
  | idle
  /-- Its request was emitted, and it waits for the answer. -/
  | waiting
  /-- It waits for the time of its next attempt. -/
  | backoff
  deriving DecidableEq

structure Cluster where
  shared : Shared
  procs : Nat → Process
  calls : String → String → CallState

namespace Cluster

def initial : Cluster := ⟨.initial, fun _ => .initial, fun _ _ => .idle⟩

def setProc (a : Cluster) (n : Nat) (p : Process) : Cluster :=
  { a with procs := update a.procs n p }

def setCall (a : Cluster) (inst node : String) (c : CallState) : Cluster :=
  { a with calls := update a.calls inst (update (a.calls inst) node c) }

/-- A step commits while the call is in its backoff. -/
def withdraw (a : Cluster) (inst node : String) : Cluster :=
  { a with shared := a.shared.withdraw inst node }

def woken (a : Cluster) (inst node : String) : Cluster :=
  { a with shared := { a.shared with wakes := a.shared.wakes.erase (inst, node) } }

end Cluster

def Process.crash (p : Process) : Process :=
  { Process.initial with late := p.late, sentLate := p.sentLate }

def Event.isWithdraw : Event → Bool
  | .withdraw _ _ => true
  | _ => false

inductive ClusterEvent where
  | proc (n : Nat) (e : Event)
  | crash (n : Nat)
  | callOut (inst node : String)
  | answer (inst node : String)
  /-- A step commits a snapshot in which the call is in its backoff. -/
  | backoff (inst node : String)
  /-- A poisoned delivery fails the attempt, which was not the last one or was. -/
  | fail (inst node : String) (left : Bool)
  | ignore (inst node : String)
  | redrive (inst node : String)

/-- **One atomic step**, of one of the processes. -/
inductive ClusterStep (maxAttempts : Option Nat) : Cluster → ClusterEvent → Cluster → Prop where
  | proc {a : Cluster} (n : Nat) (e : Event) (s : Shared) (p : Process)
      (hstep : Step maxAttempts ⟨a.shared, a.procs n⟩ e ⟨s, p⟩) (he : e.isWithdraw = false) :
      ClusterStep maxAttempts a (.proc n e) ({ a with shared := s }.setProc n p)
  | crash {a : Cluster} (n : Nat) :
      ClusterStep maxAttempts a (.crash n) (a.setProc n (a.procs n).crash)
  | callOut {a : Cluster} (inst node : String) (hcall : a.calls inst node = .idle) :
      ClusterStep maxAttempts a (.callOut inst node) (a.setCall inst node .waiting)
  | answer {a : Cluster} (inst node : String) (hcall : a.calls inst node = .waiting) :
      ClusterStep maxAttempts a (.answer inst node) (a.setCall inst node .idle)
  | timeout {a : Cluster} (inst node : String) (hcall : a.calls inst node = .waiting) :
      ClusterStep maxAttempts a (.backoff inst node)
        ((a.withdraw inst node).setCall inst node .backoff)
  | again {a : Cluster} (inst node : String) (hcall : a.calls inst node = .backoff) :
      ClusterStep maxAttempts a (.backoff inst node) (a.withdraw inst node)
  | fail {a : Cluster} (inst node : String) (hwake : (inst, node) ∈ a.shared.wakes)
      (hcall : a.calls inst node = .waiting)
      (hevidence : a.shared.table.PoisonedExists inst node) :
      ClusterStep maxAttempts a (.fail inst node true)
        (((a.woken inst node).withdraw inst node).setCall inst node .backoff)
  | failLast {a : Cluster} (inst node : String) (hwake : (inst, node) ∈ a.shared.wakes)
      (hcall : a.calls inst node = .waiting)
      (hevidence : a.shared.table.PoisonedExists inst node) :
      ClusterStep maxAttempts a (.fail inst node false)
        ((a.woken inst node).setCall inst node .idle)
  | ignore {a : Cluster} (inst node : String) (hwake : (inst, node) ∈ a.shared.wakes) :
      ClusterStep maxAttempts a (.ignore inst node) (a.woken inst node)
  /-- The next attempt; its request is a new row. -/
  | redrive {a : Cluster} (inst node : String) (hcall : a.calls inst node = .backoff) :
      ClusterStep maxAttempts a (.redrive inst node) (a.setCall inst node .waiting)

/-! ## The condition -/

/-- The process has the row in memory and has not sent it. -/
def Process.Pending (p : Process) (id : String) : Prop :=
  p.InHand id ∨ ∃ n c, p.copies n = some c ∧ c.stage.unsent = true ∧ c.entry.entryId = id

def Cluster.Settled (a : Cluster) (inst node : String) : Prop :=
  ∀ n id r, (a.procs n).Pending id → a.shared.table id = some r → r.isOf inst node = false

/-- Rows are withdrawn while no process has one of them in memory. -/
def Quiet (a : Cluster) : ClusterEvent → Prop
  | .backoff inst node => a.Settled inst node
  | .fail inst node true => a.Settled inst node
  | _ => True

def QuietStep (maxAttempts : Option Nat) (a : Cluster) (e : ClusterEvent) (b : Cluster) : Prop :=
  ClusterStep maxAttempts a e b ∧ Quiet a e

/-! ## What a step of a process changes -/

/-- A transaction that is about to insert the row. -/
def Process.Reserved (p : Process) (n : Nat) (id : String) : Prop :=
  ∃ e, p.copies n = some ⟨e, .reserved⟩ ∧ e.entryId = id

section

variable {p : Process} {n m : Nat} {id : String} {x : Option Copy}

theorem Process.reserved_setCopy (hx : ∀ e, x ≠ some ⟨e, .reserved⟩)
    (h : (p.setCopy n x).Reserved m id) : m ≠ n ∧ p.Reserved m id := by
  obtain ⟨e, he, hid⟩ := h
  rcases copies_setCopy he with ⟨-, hxe⟩ | ⟨hm, he⟩
  · exact absurd hxe (hx e)
  · exact ⟨hm, e, he, hid⟩

theorem Process.pending_setCopy {c : Copy} (hcopy : p.copies n = some c)
    (hx : ∀ d, x = some d → d.entry = c.entry ∧ (d.stage.unsent → c.stage.unsent))
    (h : (p.setCopy n x).Pending id) : p.Pending id := by
  rcases h with hhand | ⟨m, d, hd, hunsent, hid⟩
  · exact .inl hhand
  · rcases copies_setCopy hd with ⟨-, hxd⟩ | ⟨-, hd⟩
    · obtain ⟨hentry, hstage⟩ := hx d hxd
      exact .inr ⟨n, c, hcopy, hstage hunsent, by rw [← hentry]; exact hid⟩
    · exact .inr ⟨m, d, hd, hunsent, hid⟩

end

theorem Process.not_pending_initial {id : String} : ¬ Process.initial.Pending id := by
  rintro ((⟨_, ⟨⟩, -⟩ | ⟨_, ⟨⟩, -⟩) | ⟨_, _, ⟨⟩, -⟩)

/-- What a step of a process does to the rows and to the reservations. -/
inductive Change (s : Shared) (p : Process) (s' : Shared) (p' : Process) : Prop where
  /-- Rows are changed or deleted. -/
  | plain (hused : s'.used = s.used) (hrows : s'.table.Within s.table)
      (hreserved : ∀ n id, p'.Reserved n id → p.Reserved n id)
  | enqueue (e : Entry) (due : Nat) (hnew : s.used e.entryId = false)
      (hused : s'.used = (s.use e.entryId).used) (hrows : s'.table = s.table.insert e due)
      (hreserved : ∀ n id, p'.Reserved n id → p.Reserved n id)
  | reserve (m : Nat) (e : Entry) (hnew : s.used e.entryId = false)
      (hused : s'.used = (s.use e.entryId).used) (hrows : s'.table = s.table)
      (hreserved : ∀ n id, p'.Reserved n id → p.Reserved n id ∨ (n = m ∧ id = e.entryId))
  | commit (m : Nat) (e : Entry) (due : Nat) (hmine : p.Reserved m e.entryId)
      (hused : s'.used = s.used) (hrows : s'.table = s.table.insert e due)
      (hreserved : ∀ n id, p'.Reserved n id → n ≠ m ∧ p.Reserved n id)

variable {e : Entry} {s s' : Shared}

theorem Change.of_stage {p p' : Process} {n : Nat} {st : Stage}
    (hused : s'.used = s.used) (hrows : s'.table.Within s.table)
    (hp : p'.copies = (p.setCopy n (some ⟨e, st⟩)).copies) (hst : st ≠ .reserved) :
    Change s p s' p' := by
  refine .plain hused hrows ?_
  rintro m id ⟨e', he', hid⟩
  rw [hp] at he'
  refine (Process.reserved_setCopy (n := n) (x := some ⟨e, st⟩) ?_ ⟨e', he', hid⟩).2
  rintro e'' ⟨⟩
  exact hst rfl

variable {maxAttempts : Option Nat}

theorem Written.used (h : Written maxAttempts e s s') : s'.used = s.used := by cases h <;> rfl

theorem Written.rows (h : Written maxAttempts e s s') : s'.table.Within s.table := by
  cases h with
  | swallowed => exact within_refl _
  | deferred | gaveUp => exact modify_within _ _ _

theorem Written.withdrawn (h : Written maxAttempts e s s') : s'.withdrawn = s.withdrawn := by
  cases h <;> rfl

theorem Stage.Next.ne_reserved {s s' : Stage} (h : Stage.Next e s s') : s' ≠ .reserved := by
  cases h <;> exact nofun

theorem Stage.unsent_of_next {s s' : Stage} (h : Stage.Next e s s')
    (hs' : s'.unsent) : s.unsent := by cases h <;> first | rfl | exact hs'

section

variable {maxAttempts : Option Nat} {a b : World} {ev : Event} {id : String}

variable (h : Step maxAttempts a ev b)

include h

theorem Step.withdrawn (hev : ev.isWithdraw = false) : b.shared.withdrawn = a.shared.withdrawn := by
  cases h with
  | fail n e st shared hcopy hfail hwritten => exact hwritten.withdrawn
  | withdraw inst node => cases hev
  | _ => rfl

theorem Step.change (hev : ev.isWithdraw = false) : Change a.shared a.proc b.shared b.proc := by
  cases h with
  | enqueue e due hnew => exact .enqueue e due hnew rfl rfl fun _ _ hres => hres
  | reserve n e hnew hfree =>
    refine .reserve n e hnew rfl rfl ?_
    rintro m id ⟨e', he', hid⟩
    rcases copies_setCopy he' with ⟨hm, ⟨⟩⟩ | ⟨-, he'⟩
    · exact .inr ⟨hm, hid.symm⟩
    · exact .inl ⟨e', he', hid⟩
  | commit n e hcopy | commitUnknown n e hcopy =>
    refine .commit n e _ ⟨e, hcopy, rfl⟩ rfl rfl fun _ _ => Process.reserved_setCopy ?_
    rintro e' ⟨⟩
  | rollback | send | sendPooled | mark | remember | clear | clearAgain | unclaim | take =>
    exact .of_stage rfl (within_refl _) rfl nofun
  | next n e st st' hcopy hnext =>
    exact .of_stage rfl (within_refl _) rfl hnext.ne_reserved
  | fail n e st shared hcopy hfail hwritten =>
    exact .of_stage hwritten.used hwritten.rows rfl nofun
  | wait | abandon => exact .of_stage rfl (modify_within _ _ _) rfl nofun
  | delete | deleteInPlace => exact .of_stage rfl (delete_within _ _) rfl nofun
  | undeliver n e again hcopy =>
    refine .plain rfl (within_refl _) fun _ _ hres => (Process.reserved_setCopy ?_ hres).2
    cases again <;> exact nofun
  | pass n e hcopy =>
    refine .of_stage rfl (within_refl _) rfl ?_
    cases e.pooled <;> exact nofun
  | claim es hread hchecked hnodup hdue hexclude =>
    exact .plain rfl (lease_within _ _ _) fun _ _ hres => hres
  | renew ids hids => exact .plain rfl (renewClaims_within _ _ _) fun _ _ hres => hres
  | withdraw inst node => cases hev
  | _ => exact .plain rfl (within_refl _) fun _ _ hres => hres

/-- A row that a process has in memory and has not sent was there before, is new, or is in the
table. -/
theorem Step.pending (hid : b.proc.Pending id) :
    a.proc.Pending id ∨ a.shared.used id = false ∨ a.shared.table id ≠ none := by
  have hmove : ∀ {n : Nat} {e : Entry} {st st' : Stage}, a.proc.copies n = some ⟨e, st⟩ →
      (a.proc.setCopy n (some ⟨e, st'⟩)).Pending id → (st'.unsent → st.unsent) →
      a.proc.Pending id := by
    intro n e st st' hcopy hpending hst
    refine Process.pending_setCopy hcopy ?_ hpending
    rintro d ⟨⟩
    exact ⟨rfl, hst⟩
  cases h with
  | reserve n e hnew hfree =>
    rcases hid with hhand | ⟨m, c, hc, hunsent, rfl⟩
    · exact .inl (.inl hhand)
    · rcases copies_setCopy hc with ⟨-, ⟨⟩⟩ | ⟨-, hc⟩
      · exact .inr (.inl hnew)
      · exact .inl (.inr ⟨m, c, hc, hunsent, rfl⟩)
  | commit n e hcopy | pass n e hcopy => exact .inl (hmove hcopy hid fun _ => rfl)
  | commitUnknown n e hcopy | rollback n e hcopy | send n e hcopy | sendPooled n e hcopy
  | fail n e st shared hcopy hfail hwritten | wait n e due hcopy | abandon n e hcopy
  | mark n e hcopy | delete n e hcopy | deleteInPlace n e st hcopy hplace | remember n e hcopy
  | clear n e again hcopy | clearAgain n e hcopy | unclaim n e again hcopy =>
    exact .inl (hmove hcopy hid nofun)
  | next n e st st' hcopy hnext => exact .inl (hmove hcopy hid (Stage.unsent_of_next hnext))
  | undeliver n e again hcopy =>
    refine .inl (Process.pending_setCopy hcopy ?_ hid)
    intro d hd
    cases again with
    | true =>
      obtain ⟨⟩ := hd
      exact ⟨rfl, nofun⟩
    | false => cases hd
  | claim es hread hchecked hnodup hdue hexclude =>
    rcases hid with (⟨e, he, rfl⟩ | hhand) | hcopy
    · obtain ⟨r, hr, -⟩ := hdue e he
      right; right
      rw [hr]
      exact nofun
    · exact .inl (.inl (.inr hhand))
    · exact .inl (.inr hcopy)
  | check e es hread hchecked hrecent =>
    rcases hid with (⟨e', he', hid⟩ | ⟨_, ⟨⟩, hid⟩) | hcopy
    · exact .inl (.inl (.inl ⟨e', hread ▸ mem_cons_of_mem _ he', hid⟩))
    · exact .inl (.inl (.inl ⟨e, hread ▸ (.head _), hid⟩))
    · exact .inl (.inr hcopy)
  | skip e es hread hchecked hrecent =>
    rcases hid with (⟨e', he', hid⟩ | hhand) | hcopy
    · exact .inl (.inl (.inl ⟨e', hread ▸ mem_cons_of_mem _ he', hid⟩))
    · exact .inl (.inl (.inr hhand))
    · exact .inl (.inr hcopy)
  | take n e hchecked hfresh hfree =>
    rcases hid with (hhand | ⟨_, ⟨⟩, -⟩) | ⟨m, c, hc, hunsent, rfl⟩
    · exact .inl (.inl (.inl hhand))
    · rcases copies_setCopy hc with ⟨-, ⟨⟩⟩ | ⟨-, hc⟩
      · exact .inl (.inl (.inr ⟨e, hchecked, rfl⟩))
      · exact .inl (.inr ⟨m, c, hc, hunsent, rfl⟩)
  | refuse e hchecked hfresh =>
    rcases hid with (hhand | ⟨_, ⟨⟩, -⟩) | hcopy
    · exact .inl (.inl (.inl hhand))
    · exact .inl (.inr hcopy)
  | _ => exact .inl hid

theorem Step.sentLate (hclear : ∀ id, a.proc.Pending id → a.shared.withdrawn id = false) :
    b.proc.sentLate = a.proc.sentLate := by
  cases h with
  | send n e hcopy | sendPooled n e hcopy =>
    rw [hclear e.entryId (.inr ⟨n, _, hcopy, rfl, rfl⟩)]
    exact append_nil _
  | _ => rfl

end

/-! ## The invariants -/

structure Kept (a : Cluster) : Prop where
  usedRow : ∀ id, a.shared.used id = false → a.shared.table id = none
  usedReserved : ∀ n m id, (a.procs n).Reserved m id → a.shared.used id = true
  reservedRow : ∀ n m id, (a.procs n).Reserved m id → a.shared.table id = none
  unique : ∀ n m n' m' id, (a.procs n).Reserved m id → (a.procs n').Reserved m' id →
    n = n' ∧ m = m'
  goneRow : ∀ id, a.shared.withdrawn id = true → a.shared.table id = none
  goneUsed : ∀ id, a.shared.withdrawn id = true → a.shared.used id = true
  goneReserved : ∀ n m id, a.shared.withdrawn id = true → ¬ (a.procs n).Reserved m id

namespace Kept

variable {a b : Cluster}

theorem initial : Kept .initial where
  usedRow _ _ := rfl
  usedReserved _ _ _ h := nomatch h
  reservedRow _ _ _ h := nomatch h
  unique _ _ _ _ _ h := nomatch h
  goneRow _ h := nomatch h
  goneUsed _ h := nomatch h
  goneReserved _ _ _ h := nomatch h

theorem withdrawn_unused (h : Kept a) {id : String} (hnew : a.shared.used id = false) :
    a.shared.withdrawn id = false := by
  refine eq_false_of_ne_true fun htrue => ?_
  exact Bool.noConfusion ((h.goneUsed id htrue).symm.trans hnew)

theorem withdraw (h : Kept a) (inst node : String) : Kept (a.withdraw inst node) := by
  have hrows := withdrawForNode_within a.shared.table inst node
  have hcases : ∀ {id}, (a.withdraw inst node).shared.withdrawn id →
      a.shared.withdrawn id ∨ ∃ r, a.shared.table id = some r ∧ r.isOf inst node := by
    intro id hid
    rcases Bool.or_eq_true_iff.mp hid with hold | hnew
    · exact .inl hold
    · cases hr : a.shared.table id with
      | none =>
        rw [hr] at hnew
        cases hnew
      | some r =>
        rw [hr] at hnew
        exact .inr ⟨r, rfl, hnew⟩
  exact {
    usedRow := fun id hid => hrows id (h.usedRow id hid)
    usedReserved := h.usedReserved
    reservedRow := fun n m id hres => hrows id (h.reservedRow n m id hres)
    unique := h.unique
    goneRow := fun id hid => by
      rcases hcases hid with hold | ⟨r, hr, hof⟩
      · exact hrows id (h.goneRow id hold)
      · change (a.shared.table id).filter _ = none
        rw [hr, Option.filter_some, hof]
        rfl
    goneUsed := fun id hid => by
      rcases hcases hid with hold | ⟨r, hr, -⟩
      · exact h.goneUsed id hold
      · refine eq_true_of_ne_false fun hfalse => ?_
        rw [h.usedRow id hfalse] at hr
        cases hr
    goneReserved := fun n m id hid hres => by
      rcases hcases hid with hold | ⟨r, hr, -⟩
      · exact h.goneReserved n m id hold hres
      · rw [h.reservedRow n m id hres] at hr
        cases hr }

theorem less (h : Kept a) (procs : Nat → Process)
    (hless : ∀ n m id, (procs n).Reserved m id → (a.procs n).Reserved m id) :
    Kept { a with procs := procs } where
  usedRow := h.usedRow
  usedReserved n m id hres := h.usedReserved n m id (hless n m id hres)
  reservedRow n m id hres := h.reservedRow n m id (hless n m id hres)
  unique n m n' m' id hres hres' := h.unique n m n' m' id (hless n m id hres) (hless n' m' id hres')
  goneRow := h.goneRow
  goneUsed := h.goneUsed
  goneReserved n m id hid hres := h.goneReserved n m id hid (hless n m id hres)

section

variable {n : Nat} {s : Shared} {p : Process} {m : Nat}

theorem reserved_setProc {k : Nat} {id : String} (h : (update a.procs n p k).Reserved m id) :
    (k = n ∧ p.Reserved m id) ∨ (k ≠ n ∧ (a.procs k).Reserved m id) :=
  update_cases (Process.Reserved · m id) h

variable (h : Kept a)

include h

theorem lessProc (hres : ∀ m id, p.Reserved m id → (a.procs n).Reserved m id) :
    Kept { a with procs := update a.procs n p } := by
  refine h.less _ fun k m id hk => ?_
  rcases reserved_setProc hk with ⟨rfl, hp⟩ | ⟨-, hp⟩
  · exact hres m id hp
  · exact hp

/-- Rows are changed or deleted, and reservations given up. -/
theorem plain (hw : s.withdrawn = a.shared.withdrawn)
    (hused : s.used = a.shared.used) (hrows : s.table.Within a.shared.table)
    (hres : ∀ m id, p.Reserved m id → (a.procs n).Reserved m id) :
    Kept ({ a with shared := s }.setProc n p) := by
  have hless := h.lessProc hres
  exact {
    usedRow := fun id hid => hrows id (h.usedRow id (hused ▸ hid))
    usedReserved := fun k m id hk => hused ▸ hless.usedReserved k m id hk
    reservedRow := fun k m id hk => hrows id (hless.reservedRow k m id hk)
    unique := hless.unique
    goneRow := fun id hid => hrows id (h.goneRow id (hw ▸ hid))
    goneUsed := fun id hid => hused ▸ h.goneUsed id (hw ▸ hid)
    goneReserved := fun k m id hid => hless.goneReserved k m id (hw ▸ hid) }

theorem insert (due : Nat) (hused : a.shared.used e.entryId)
    (hres : ∀ n m, ¬ (a.procs n).Reserved m e.entryId)
    (hgone : a.shared.withdrawn e.entryId = false) :
    Kept { a with shared := a.shared.insert e due } := by
  have hne : ∀ {id}, id ≠ e.entryId → a.shared.table id = none →
      (a.shared.insert e due).table id = none := fun hid hrow =>
    (insert_of_ne due hid).trans hrow
  exact { h with
    usedRow := fun id hid => by
      refine hne ?_ (h.usedRow id hid)
      rintro rfl
      exact Bool.noConfusion (hused.symm.trans hid)
    reservedRow := fun k m id hk => by
      refine hne ?_ (h.reservedRow k m id hk)
      rintro rfl
      exact hres k m hk
    goneRow := fun id hid => by
      refine hne ?_ (h.goneRow id hid)
      rintro rfl
      exact Bool.noConfusion (hgone.symm.trans hid) }

theorem use (id : String) : Kept { a with shared := a.shared.use id } := by
  have hmono : ∀ {x}, a.shared.used x → (a.shared.use id).used x := fun hx =>
    update_eq_of (fun _ => rfl) fun _ => hx
  exact { h with
    usedRow := fun x hx => by
      refine h.usedRow x (eq_false_of_ne_true fun htrue => ?_)
      exact Bool.noConfusion ((hmono htrue).symm.trans hx)
    usedReserved := fun k m x hk => hmono (h.usedReserved k m x hk)
    goneUsed := fun x hx => hmono (h.goneUsed x hx) }

theorem reserve (hnew : a.shared.used e.entryId = false)
    (hw : s.withdrawn = a.shared.withdrawn) (hused : s.used = (a.shared.use e.entryId).used)
    (hrows : s.table = a.shared.table)
    (hres : ∀ j id, p.Reserved j id → (a.procs n).Reserved j id ∨ (j = m ∧ id = e.entryId)) :
    Kept ({ a with shared := s }.setProc n p) := by
  have huse := h.use e.entryId
  have hmine : s.used e.entryId := by
    rw [hused]
    exact update_self _ _ _
  have hcases : ∀ {k j id}, (update a.procs n p k).Reserved j id →
      (a.procs k).Reserved j id ∨ (k = n ∧ j = m ∧ id = e.entryId) := by
    intro k j id hk
    rcases reserved_setProc hk with ⟨rfl, hp⟩ | ⟨-, hp⟩
    · exact (hres j id hp).imp_right fun hjm => ⟨rfl, hjm⟩
    · exact .inl hp
  have hfresh : ∀ k j, ¬ (a.procs k).Reserved j e.entryId := fun k j hk =>
    Bool.noConfusion ((h.usedReserved k j _ hk).symm.trans hnew)
  exact {
    usedRow := fun id hid => (congrFun hrows id).trans (huse.usedRow id (hused ▸ hid))
    usedReserved := fun k j id hk => by
      rcases hcases hk with hk | ⟨-, -, rfl⟩
      · exact hused ▸ huse.usedReserved k j id hk
      · exact hmine
    reservedRow := fun k j id hk => by
      refine (congrFun hrows id).trans ?_
      rcases hcases hk with hk | ⟨-, -, rfl⟩
      · exact h.reservedRow k j id hk
      · exact h.usedRow _ hnew
    unique := fun k j k' j' id hk hk' => by
      rcases hcases hk with hk | ⟨rfl, rfl, rfl⟩
      · rcases hcases hk' with hk' | ⟨-, -, rfl⟩
        · exact h.unique k j k' j' id hk hk'
        · exact absurd hk (hfresh k j)
      · rcases hcases hk' with hk' | ⟨rfl, rfl, -⟩
        · exact absurd hk' (hfresh k' j')
        · exact ⟨rfl, rfl⟩
    goneRow := fun id hid => (congrFun hrows id).trans (h.goneRow id (hw ▸ hid))
    goneUsed := fun id hid => hused ▸ huse.goneUsed id (hw ▸ hid)
    goneReserved := fun k j id hid hk => by
      have hold : a.shared.withdrawn id := hw ▸ hid
      rcases hcases hk with hk | ⟨-, -, rfl⟩
      · exact h.goneReserved k j id hold hk
      · exact Bool.noConfusion (hold.symm.trans (h.withdrawn_unused hnew)) }

theorem of_eq (hused : b.shared.used = a.shared.used)
    (hrows : b.shared.table = a.shared.table) (hw : b.shared.withdrawn = a.shared.withdrawn)
    (hprocs : b.procs = a.procs) : Kept b := by
  obtain ⟨⟨now, table, used, wakes, withdrawn⟩, procs, calls⟩ := b
  subst hused hrows hw hprocs
  exact { h with }

theorem commit (due : Nat)
    (hmine : (a.procs n).Reserved m e.entryId) (hw : s.withdrawn = a.shared.withdrawn)
    (hused : s.used = a.shared.used) (hrows : s.table = a.shared.table.insert e due)
    (hres : ∀ j id, p.Reserved j id → j ≠ m ∧ (a.procs n).Reserved j id) :
    Kept ({ a with shared := s }.setProc n p) := by
  have hless := h.lessProc fun j id hp => (hres j id hp).2
  -- The reservation was the only one with this id.
  have hother : ∀ k j, ¬ (update a.procs n p k).Reserved j e.entryId := by
    intro k j hk
    rcases reserved_setProc hk with ⟨-, hp⟩ | ⟨hkn, hp⟩
    · obtain ⟨hjm, hp⟩ := hres j _ hp
      exact hjm (h.unique n j n m _ hp hmine).2
    · exact hkn (h.unique k j n m _ hp hmine).1
  have hgone : a.shared.withdrawn e.entryId = false :=
    eq_false_of_ne_true fun htrue => h.goneReserved n m _ htrue hmine
  exact (hless.insert due (h.usedReserved n m _ hmine) hother hgone).of_eq hused hrows hw rfl

theorem change (hw : s.withdrawn = a.shared.withdrawn)
    (hchange : Change a.shared (a.procs n) s p) : Kept ({ a with shared := s }.setProc n p) := by
  cases hchange with
  | plain hused hrows hres => exact h.plain hw hused hrows hres
  | enqueue e due hnew hused hrows hres =>
    have hfresh : ∀ k j, ¬ (a.procs k).Reserved j e.entryId := fun k j hk =>
      Bool.noConfusion ((h.usedReserved k j _ hk).symm.trans hnew)
    have hinsert := (h.use e.entryId).insert due (update_self _ _ _) hfresh
      (h.withdrawn_unused hnew)
    exact (hinsert.lessProc hres).of_eq hused hrows hw rfl
  | reserve m e hnew hused hrows hres => exact h.reserve hnew hw hused hrows hres
  | commit m e due hmine hused hrows hres => exact h.commit due hmine hw hused hrows hres

end

theorem step {ev : ClusterEvent} (h : Kept a) (hab : ClusterStep maxAttempts a ev b) : Kept b := by
  cases hab with
  | proc n e s p hstep he => exact h.change (hstep.withdrawn he) (hstep.change he)
  | crash n =>
    refine h.lessProc ?_
    rintro m id ⟨_, ⟨⟩, -⟩
  | callOut | answer | failLast | ignore | redrive => exact h.of_eq rfl rfl rfl rfl
  | timeout inst node hcall | fail inst node hwake hcall hevidence =>
    exact (h.withdraw inst node).of_eq rfl rfl rfl rfl
  | again inst node hcall => exact h.withdraw inst node

end Kept

/-- What holds as long as rows are withdrawn while no process has them in memory. -/
structure Clear (a : Cluster) : Prop where
  kept : Kept a
  pending : ∀ n id, (a.procs n).Pending id → a.shared.withdrawn id = false
  sent : ∀ n, (a.procs n).sentLate = []

namespace Clear

variable {a b : Cluster}

theorem initial : Clear .initial where
  kept := .initial
  pending _ _ _ := rfl
  sent _ := rfl

theorem withdraw (h : Clear a) {inst node : String} (hquiet : a.Settled inst node) :
    Clear (a.withdraw inst node) where
  kept := h.kept.withdraw inst node
  pending n id hid := by
    refine Bool.or_eq_false_iff.mpr ⟨h.pending n id hid, ?_⟩
    cases hr : a.shared.table id with
    | none => rfl
    | some r => exact hquiet n id r hid hr
  sent := h.sent

theorem setCall (h : Clear a) (inst node : String) (c : CallState) :
    Clear (a.setCall inst node c) :=
  { h with kept := h.kept.of_eq rfl rfl rfl rfl }

theorem woken (h : Clear a) (inst node : String) : Clear (a.woken inst node) :=
  { h with kept := h.kept.of_eq rfl rfl rfl rfl }

theorem setProc (h : Clear a) {n : Nat} {p : Process}
    (hkept : Kept ({ a with shared := s }.setProc n p))
    (hw : s.withdrawn = a.shared.withdrawn)
    (hpending : ∀ id, p.Pending id → a.shared.withdrawn id = false)
    (hsent : p.sentLate = (a.procs n).sentLate) :
    Clear ({ a with shared := s }.setProc n p) where
  kept := hkept
  pending k id hid := by
    change s.withdrawn id = false
    rw [hw]
    rcases update_cases (Process.Pending · id) hid with ⟨-, hid⟩ | ⟨-, hid⟩
    · exact hpending id hid
    · exact h.pending k id hid
  sent k := update_of (Process.sentLate · = []) (fun _ => hsent.trans (h.sent n)) fun _ => h.sent k

theorem step {ev : ClusterEvent} (h : Clear a) (hab : QuietStep maxAttempts a ev b) : Clear b := by
  obtain ⟨hstep, hquiet⟩ := hab
  have hkept := h.kept.step hstep
  cases hstep with
  | proc n e s p hproc he =>
    refine h.setProc hkept (hproc.withdrawn he) (fun id hid => ?_) (hproc.sentLate (h.pending n))
    rcases hproc.pending hid with hold | hnew | hrow
    · exact h.pending n id hold
    · exact h.kept.withdrawn_unused hnew
    · exact eq_false_of_ne_true fun htrue => hrow (h.kept.goneRow id htrue)
  | crash n =>
    refine h.setProc hkept rfl (fun id hid => ?_) rfl
    exact absurd hid Process.not_pending_initial
  | callOut inst node hcall | redrive inst node hcall => exact h.setCall inst node .waiting
  | answer inst node hcall => exact h.setCall inst node .idle
  | timeout inst node hcall => exact (h.withdraw hquiet).setCall inst node .backoff
  | again inst node hcall => exact h.withdraw hquiet
  | fail inst node hwake hcall hevidence =>
    exact ((h.woken inst node).withdraw hquiet).setCall inst node .backoff
  | failLast inst node hwake hcall hevidence =>
    exact (h.woken inst node).setCall inst node .idle
  | ignore inst node hwake => exact h.woken inst node

end Clear

/-! ## The theorem -/

theorem failed_on_live_row {a b : Cluster} {inst node : String}
    {left : Bool} (h : Kept a) (hfail : ClusterStep maxAttempts a (.fail inst node left) b) :
    ∃ id r, a.shared.table id = some r ∧ r.isOf inst node ∧ r.poisoned ∧
      a.shared.withdrawn id = false := by
  have hevidence : a.shared.table.PoisonedExists inst node := by
    cases hfail with
    | fail _ _ hwake hcall hevidence | failLast _ _ hwake hcall hevidence => exact hevidence
  obtain ⟨id, r, hr, hof, hpoisoned⟩ := hevidence
  refine ⟨id, r, hr, hof, hpoisoned, eq_false_of_ne_true fun htrue => ?_⟩
  rw [h.goneRow id htrue] at hr
  cases hr

/-- **A withdrawn request is not sent**, in every run in which rows are withdrawn while no process
has them in memory; and in every run at all, what fails a call is a row of an attempt that was not
withdrawn. -/
theorem withdrawn_not_sent (maxAttempts : Option Nat) :
    (∀ ls b, Run (QuietStep maxAttempts) .initial ls b → ∀ n, (b.procs n).sentLate = []) ∧
    (∀ ls a, Run (ClusterStep maxAttempts) .initial ls a →
      ∀ inst node left b, ClusterStep maxAttempts a (.fail inst node left) b →
        ∃ id r, a.shared.table id = some r ∧ r.isOf inst node = true ∧ r.poisoned = true ∧
          a.shared.withdrawn id = false) := by
  constructor
  · intro ls b hrun
    exact (hrun.invariant (fun _ _ _ _ hab h => h.step hab) Clear.initial).sent
  · intro ls a hrun inst node left b hfail
    exact failed_on_live_row (hrun.invariant (fun _ _ _ _ hab h => h.step hab) Kept.initial) hfail

def request (id : String) : Entry := ⟨id, "instance", some "call", 0, false⟩

/-- The first request waits in the table when the call times out, and is withdrawn; the second is
sent. Or the first is sent, poisoned, and fails the call. -/
theorem second_request_sent :
    (∃ ls b, Run (QuietStep (some 1)) .initial ls b ∧ b.shared.withdrawn "first" = true ∧
      (b.procs 0).copies 0 = some ⟨request "second", .sending false⟩ ∧
      ∀ n, (b.procs n).sentLate = []) ∧ (∃ ls a b, Run (ClusterStep (some 1)) .initial ls a ∧
      ClusterStep (some 1) a (.fail "instance" "call" true) b ∧
      ∃ id r, a.shared.table id = some r ∧ r.isOf "instance" "call" = true ∧
        r.poisoned = true ∧ a.shared.withdrawn id = false) := by
  have hsettled : ∀ a : Cluster, (∀ n, a.procs n = .initial) → a.Settled "instance" "call" := by
    intro a ha n id r hid _
    rw [ha n] at hid
    exact absurd hid Process.not_pending_initial
  have hrun : Run (QuietStep (some 1)) Cluster.initial _ _ :=
    .cons ⟨.proc 0 _ _ _ (.enqueue (request "first") 0 rfl) rfl, trivial⟩ <|
      .cons ⟨.callOut "instance" "call" rfl, trivial⟩ <|
      .cons ⟨.timeout "instance" "call" rfl, hsettled _ fun n =>
        update_eq_of (fun _ => rfl) fun _ => rfl⟩ <|
      .cons ⟨.redrive "instance" "call" rfl, trivial⟩ <|
      .cons ⟨.proc 0 _ _ _ (.reserve 0 (request "second") rfl rfl) rfl, trivial⟩ <|
      .cons ⟨.proc 0 _ _ _ (.commit 0 (request "second") rfl) rfl, trivial⟩ <|
      .cons ⟨.proc 0 _ _ _ (.next 0 (request "second") _ _ rfl .handOff) rfl, trivial⟩ <|
      .cons ⟨.proc 0 _ _ _ (.next 0 (request "second") _ _ rfl (.route rfl)) rfl, trivial⟩ <|
      .cons ⟨.proc 0 _ _ _ (.send 0 (request "second") rfl) rfl, trivial⟩ <|
      .nil _
  have hrun' : Run (ClusterStep (some 1)) Cluster.initial _ _ :=
    .cons (.proc 0 _ _ _ (.reserve 0 (request "first") rfl rfl) rfl) <|
      .cons (.proc 0 _ _ _ (.commit 0 (request "first") rfl) rfl) <|
      .cons (.callOut "instance" "call" rfl) <|
      .cons (.proc 0 _ _ _ (.next 0 (request "first") _ _ rfl .handOff) rfl) <|
      .cons (.proc 0 _ _ _ (.next 0 (request "first") _ _ rfl (.route rfl)) rfl) <|
      .cons (.proc 0 _ _ _ (.send 0 (request "first") rfl) rfl) <|
      .cons (.proc 0 _ _ _ (.fail 0 (request "first") _ _ rfl rfl (.gaveUp rfl)) rfl) <|
      .nil _
  refine ⟨⟨_, _, hrun, rfl, rfl, (withdrawn_not_sent (some 1)).1 _ _ hrun⟩,
    _, _, ?after, hrun', ?fails, (withdrawn_not_sent (some 1)).2 _ _ hrun' _ _ _ _ ?fails⟩
  case fails =>
    refine .fail _ _ ?_ ?_ ?_
    · exact .head _
    · rfl
    · exact ⟨"first", ⟨request "first", 30, true⟩, rfl, rfl, rfl⟩

/-- A request waits in the queue of a worker when its call times out. It is withdrawn, and then it
is sent. -/
theorem withdrawn_request_sent : ∃ ls b, Run (ClusterStep none) .initial ls b ∧
    (b.procs 0).sentLate = ["first"] := by
  have hrun : Run (ClusterStep none) .initial _ _ :=
    .cons (.proc 0 _ _ _ (.reserve 0 (request "first") rfl rfl) rfl) <|
      .cons (.proc 0 _ _ _ (.commit 0 (request "first") rfl) rfl) <|
      .cons (.callOut "instance" "call" rfl) <|
      .cons (.proc 0 _ _ _ (.next 0 (request "first") _ _ rfl .handOff) rfl) <|
      .cons (.proc 0 _ _ _ (.next 0 (request "first") _ _ rfl (.route rfl)) rfl) <|
      .cons (.timeout "instance" "call" rfl) <|
      .cons (.proc 0 _ _ _ (.send 0 (request "first") rfl) rfl) <|
      .nil _
  exact ⟨_, _, hrun, rfl⟩

end Sutra.Outbox
