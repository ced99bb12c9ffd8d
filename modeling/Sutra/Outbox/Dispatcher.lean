import Sutra.Lib.Run

/-!
# The concurrent outbox dispatcher

A step commits its outgoing messages as rows of the outbox. From there a row is *handed off* to a
worker, reserved before the commit and queued after it, or it is *claimed* when it is due: the
claimer leases it and passes it on if it is not in flight already. A worker sends the row and gives
it to the delete batcher.

What keeps two workers from one row is a handful of sets in memory, each behind a lock of its own.
Every access to one of them is a step here, and so is every statement to the database.

`Shared.withdrawn`, `Process.deletedAt` and the two lists of what came too late are not stored
anywhere.
-/

namespace Sutra.Outbox

open Function

/-! ## Rows -/

/-- A row as a task has it in memory. -/
structure Entry where
  entryId : String
  instanceId : String
  nodeId : Option String
  /-- The attempts that have failed already. -/
  attemptCount : Nat
  /-- It carries the header of a capacity pool. -/
  pooled : Bool
  deriving DecidableEq

structure Row where
  entry : Entry
  nextAttemptAt : Nat
  /-- It is terminal: kept, and never claimed again. -/
  poisoned : Bool
  deriving DecidableEq

def Row.isOf (r : Row) (inst node : String) : Bool :=
  r.entry.instanceId == inst && r.entry.nodeId == some node

/-- How far in the future a row that is handed off becomes due, in seconds. -/
def handoffGrace : Nat := 30

def claimLease : Nat := handoffGrace

/-- How long a deleted row is remembered. -/
def finishedMemory : Nat := 60

abbrev Table := String → Option Row

namespace Table

def insert (t : Table) (e : Entry) (due : Nat) : Table :=
  update t e.entryId (some ⟨e, due, false⟩)

def delete (t : Table) (id : String) : Table := update t id none

def modify (t : Table) (id : String) (f : Row → Row) : Table :=
  update t id ((t id).map f)

def defer (t : Table) (id : String) (due : Nat) : Table :=
  t.modify id fun r =>
    { r with
      entry := { r.entry with attemptCount := r.entry.attemptCount + 1 }
      nextAttemptAt := due }

def requeue (t : Table) (id : String) (due : Nat) : Table :=
  t.modify id fun r => { r with nextAttemptAt := due }

def markPoisoned (t : Table) (id : String) : Table :=
  t.modify id fun r => { r with poisoned := true }

/-- A claim returns the row at `now`. -/
def Due (t : Table) (now : Nat) (e : Entry) : Prop :=
  ∃ r, t e.entryId = some r ∧ r.entry = e ∧ r.poisoned = false ∧ r.nextAttemptAt ≤ now

/-- The claim moves what it claims to the end of the lease. -/
def lease (t : Table) (ids : List String) (until_ : Nat) : Table := fun id =>
  if id ∈ ids then (t id).map fun r => { r with nextAttemptAt := until_ } else t id

/-- A renewal moves a due time only to a later one. -/
def renewClaims (t : Table) (ids : List String) (until_ : Nat) : Table := fun id =>
  if id ∈ ids then
    (t id).map fun r =>
      if r.poisoned || until_ ≤ r.nextAttemptAt then r else { r with nextAttemptAt := until_ }
  else t id

/-- Delete every row that the node emitted for the instance, pending and poisoned alike. -/
def withdrawForNode (t : Table) (inst node : String) : Table := fun id =>
  (t id).filter fun r => !r.isOf inst node

def PoisonedExists (t : Table) (inst node : String) : Prop :=
  ∃ id r, t id = some r ∧ r.isOf inst node = true ∧ r.poisoned = true

/-- Every row of `t'` is a row of `t`, maybe changed. -/
def Within (t' t : Table) : Prop := ∀ id, t id = none → t' id = none

theorem within_refl (t : Table) : Within t t := fun _ h => h

theorem delete_within (t : Table) (id : String) : Within (t.delete id) t := by
  intro x hx
  exact update_eq_of (fun _ => rfl) fun _ => hx

theorem modify_within (t : Table) (id : String) (f : Row → Row) : Within (t.modify id f) t := by
  intro x hx
  refine update_eq_of (fun hid => ?_) fun _ => hx
  subst hid
  rw [hx, Option.map_none]

theorem lease_within (t : Table) (ids : List String) (due : Nat) : Within (t.lease ids due) t := by
  intro x hx
  rw [lease, hx]
  split <;> rfl

theorem renewClaims_within (t : Table) (ids : List String) (due : Nat) :
    Within (t.renewClaims ids due) t := by
  intro x hx
  rw [renewClaims, hx]
  split <;> rfl

theorem withdrawForNode_within (t : Table) (inst node : String) :
    Within (t.withdrawForNode inst node) t := by
  intro x hx
  rw [withdrawForNode, hx, Option.filter_none]

theorem insert_of_ne {t : Table} {e : Entry} {id : String} (due : Nat) (h : id ≠ e.entryId) :
    t.insert e due id = t id := by rw [insert, update_of_ne h]

end Table

/-! ## The state -/

/-- How far a row in memory has come. -/
inductive Stage where
  | reserved
  | committed
  | queued
  | taken
  /-- In the queue of a worker. -/
  | routed
  /-- The router or the claimer sends it itself. -/
  | pooled
  | sending (pooled : Bool)
  /-- The sink took the message. -/
  | sent (pooled : Bool)
  | marked
  | deleting
  | deleted
  | releasing (again : Bool)
  | cleared (again : Bool)
  | unclaimed (again : Bool)
  /-- About to be released for the second time. -/
  | rereleasing
  deriving DecidableEq

namespace Stage

/-- The task has the row: it is in flight on its account. -/
def holds : Stage → Bool
  | .cleared _ | .unclaimed _ | .rereleasing => false
  | _ => true

/-- The row was not sent yet. -/
def unsent : Stage → Bool
  | .reserved | .committed | .queued | .taken | .routed | .pooled => true
  | _ => false

/-- The delivery ends here when it fails, and the row is put back or poisoned. -/
def canFail : Stage → Bool
  | .routed | .pooled | .sending _ | .sent true | .marked | .deleting => true
  | _ => false

/-- The row is deleted in place, and not by the batcher: a pooled row, or one that finds the batcher
gone. -/
def inPlace : Stage → Bool
  | .sent true | .marked => true
  | _ => false

end Stage

/-- A row in the hands of a task. -/
structure Copy where
  entry : Entry
  stage : Stage
  deriving DecidableEq

structure Shared where
  now : Nat
  table : Table
  used : String → Bool
  /-- The wakes that a poisoned delivery fired: instance and node. -/
  wakes : List (String × String)
  withdrawn : String → Bool

structure Process where
  inflight : String → Bool
  claimed : String → Bool
  delivered : String → Bool
  finished : String → Option Nat
  copies : Nat → Option Copy
  exclude : String → Bool
  /-- The rows of this round that something else owns. -/
  ownedElsewhere : List String
  /-- What the last claim returned and the claimer has not come to yet, and when it was returned. -/
  read : List Entry
  readAt : Nat
  checked : Option Entry
  /-- When a delete of this process committed. -/
  deletedAt : String → Option Nat
  late : List String
  /-- The rows whose sending started after they were withdrawn. -/
  sentLate : List String

structure World where
  shared : Shared
  proc : Process

def Shared.initial : Shared := ⟨0, fun _ => none, fun _ => false, [], fun _ => false⟩

def Process.initial : Process where
  inflight := fun _ => false
  claimed := fun _ => false
  delivered := fun _ => false
  finished := fun _ => none
  copies := fun _ => none
  exclude := fun _ => false
  ownedElsewhere := []
  read := []
  readAt := 0
  checked := none
  deletedAt := fun _ => none
  late := []
  sentLate := []

def World.initial : World := ⟨.initial, .initial⟩

namespace Process

def recentlyFinished (p : Process) (id : String) (now : Nat) : Bool :=
  (p.finished id).any fun t => now - t < finishedMemory

def remember (p : Process) (id : String) (now : Nat) : Process :=
  { p with
    finished := update
      (fun x => (p.finished x).filter fun t => now - t < finishedMemory) id (some now) }

def setCopy (p : Process) (n : Nat) (c : Option Copy) : Process :=
  { p with copies := update p.copies n c }

def setInflight (p : Process) (id : String) (b : Bool) : Process :=
  { p with inflight := update p.inflight id b }

def setClaimed (p : Process) (id : String) (b : Bool) : Process :=
  { p with claimed := update p.claimed id b }

def setDelivered (p : Process) (id : String) (b : Bool) : Process :=
  { p with delivered := update p.delivered id b }

def setDeleted (p : Process) (id : String) (now : Nat) : Process :=
  { p with deletedAt := update p.deletedAt id (some now) }

section

variable {p : Process} {n m : Nat} {c : Copy} {x : Option Copy}

@[simp]
theorem copies_setCopy_self (p : Process) (n : Nat) (x : Option Copy) :
    (p.setCopy n x).copies n = x := by
  change update p.copies n x n = x
  rw [update_self]

theorem copies_setCopy_ne (x : Option Copy) (h : m ≠ n) :
    (p.setCopy n x).copies m = p.copies m := by
  change update p.copies n x m = p.copies m
  rw [update_of_ne h]

theorem copies_setCopy (h : (p.setCopy n x).copies m = some c) :
    (m = n ∧ x = some c) ∨ (m ≠ n ∧ p.copies m = some c) := by exact update_eq_cases h

end

/-- The claimer has the row in its hands, and has not marked it in flight yet. -/
def InHand (p : Process) (id : String) : Prop :=
  (∃ e ∈ p.read, e.entryId = id) ∨ ∃ e, p.checked = some e ∧ e.entryId = id

def leaseSnapshot (p : Process) (id : String) : Bool := p.inflight id && !p.delivered id

end Process

def Shared.setTable (s : Shared) (t : Table) : Shared := { s with table := t }

def Shared.insert (s : Shared) (e : Entry) (due : Nat) : Shared := s.setTable (s.table.insert e due)

def Shared.use (s : Shared) (id : String) : Shared :=
  { s with used := update s.used id true }

def Shared.withdraw (s : Shared) (inst node : String) : Shared :=
  { s with
    table := s.table.withdrawForNode inst node
    withdrawn := fun id => s.withdrawn id || (s.table id).any fun r => r.isOf inst node }

/-! ## The steps -/

/-- The attempt just made is the last that the ceiling allows. -/
def attemptsExhausted (maxAttempts : Option Nat) (e : Entry) : Bool :=
  maxAttempts.any fun max => max ≤ e.attemptCount + 1

/-- What a failed delivery writes. -/
inductive Written (maxAttempts : Option Nat) (e : Entry) : Shared → Shared → Prop where
  /-- The statement fails, which is logged. -/
  | swallowed {s : Shared} : Written maxAttempts e s s
  /-- With a backoff, or at the poison horizon. -/
  | deferred {s : Shared} (due : Nat) (hleft : attemptsExhausted maxAttempts e = false) :
      Written maxAttempts e s (s.setTable (s.table.defer e.entryId due))
  | gaveUp {s : Shared} (hspent : attemptsExhausted maxAttempts e = true) :
      Written maxAttempts e s
        { s.setTable (s.table.markPoisoned e.entryId) with
          wakes := s.wakes ++ e.nodeId.toList.map fun node => (e.instanceId, node) }

/-- The ways of a row in memory that touch nothing else. Workers do not stop: a row that is routed
is sent. -/
inductive Stage.Next (e : Entry) : Stage → Stage → Prop where
  | handOff : Next e .committed .queued
  /-- Nobody receives hand-offs any more. -/
  | unsent : Next e .committed (.releasing false)
  | route (hpool : e.pooled = false) : Next e .queued .routed
  | routePooled (hpool : e.pooled = true) : Next e .queued .pooled
  /-- The router is told to stop. -/
  | drain : Next e .queued (.releasing false)
  | deliver (p : Bool) : Next e (.sending p) (.sent p)
  | batch : Next e .marked .deleting

/-- What can happen. -/
inductive Event where
  | tick (dt : Nat)
  | enqueue (e : Entry)
  | reserve (e : Entry)
  | commit (copy : Nat)
  | rollback (copy : Nat)
  | next (copy : Nat)
  | send (copy : Nat)
  | fail (copy : Nat)
  | mark (copy : Nat)
  | delete (copy : Nat)
  | deleteInPlace (id : String)
  | remember (copy : Nat)
  | release (copy : Nat)
  | renew (ids : List String)
  | snapshot
  | claim (es : List Entry)
  | check
  | take (e : Entry)
  | pass (copy : Nat)
  | withdraw (inst node : String)

/-- **One atomic step of a process.** -/
inductive Step (maxAttempts : Option Nat) : World → Event → World → Prop where
  | tick {a : World} (dt : Nat) :
      Step maxAttempts a (.tick dt) { a with shared := { a.shared with now := a.shared.now + dt } }
  /-- A step commits a row that is not local. -/
  | enqueue {a : World} (e : Entry) (due : Nat) (hnew : a.shared.used e.entryId = false) :
      Step maxAttempts a (.enqueue e) { a with shared := (a.shared.use e.entryId).insert e due }
  | reserve {a : World} (n : Nat) (e : Entry) (hnew : a.shared.used e.entryId = false)
      (hfree : a.proc.copies n = none) :
      Step maxAttempts a (.reserve e)
        ⟨a.shared.use e.entryId,
          (a.proc.setInflight e.entryId true).setCopy n (some ⟨e, .reserved⟩)⟩
  | commit {a : World} (n : Nat) (e : Entry) (hcopy : a.proc.copies n = some ⟨e, .reserved⟩) :
      Step maxAttempts a (.commit n)
        ⟨a.shared.insert e (a.shared.now + handoffGrace), a.proc.setCopy n (some ⟨e, .committed⟩)⟩
  | rollback {a : World} (n : Nat) (e : Entry) (hcopy : a.proc.copies n = some ⟨e, .reserved⟩) :
      Step maxAttempts a (.rollback n)
        { a with proc := a.proc.setCopy n (some ⟨e, .releasing false⟩) }
  /-- The commit is reported as failed, and was durable. -/
  | commitUnknown {a : World} (n : Nat) (e : Entry)
      (hcopy : a.proc.copies n = some ⟨e, .reserved⟩) :
      Step maxAttempts a (.rollback n)
        ⟨a.shared.insert e (a.shared.now + handoffGrace),
          a.proc.setCopy n (some ⟨e, .releasing false⟩)⟩
  | next {a : World} (n : Nat) (e : Entry) (s s' : Stage) (hcopy : a.proc.copies n = some ⟨e, s⟩)
      (hnext : Stage.Next e s s') :
      Step maxAttempts a (.next n) { a with proc := a.proc.setCopy n (some ⟨e, s'⟩) }
  | send {a : World} (n : Nat) (e : Entry) (hcopy : a.proc.copies n = some ⟨e, .routed⟩) :
      Step maxAttempts a (.send n) { a with proc :=
        { a.proc.setCopy n (some ⟨e, .sending false⟩) with
          sentLate := a.proc.sentLate ++
            if a.shared.withdrawn e.entryId then [e.entryId] else [] } }
  | sendPooled {a : World} (n : Nat) (e : Entry) (hcopy : a.proc.copies n = some ⟨e, .pooled⟩) :
      Step maxAttempts a (.send n) { a with proc :=
        { a.proc.setCopy n (some ⟨e, .sending true⟩) with
          sentLate := a.proc.sentLate ++
            if a.shared.withdrawn e.entryId then [e.entryId] else [] } }
  | fail {a : World} (n : Nat) (e : Entry) (s : Stage) (shared : Shared)
      (hcopy : a.proc.copies n = some ⟨e, s⟩) (hfail : s.canFail = true)
      (hwritten : Written maxAttempts e a.shared shared) :
      Step maxAttempts a (.fail n) ⟨shared, a.proc.setCopy n (some ⟨e, .releasing false⟩)⟩
  | wait {a : World} (n : Nat) (e : Entry) (due : Nat)
      (hcopy : a.proc.copies n = some ⟨e, .pooled⟩) :
      Step maxAttempts a (.fail n)
        ⟨a.shared.setTable (a.shared.table.requeue e.entryId due),
          a.proc.setCopy n (some ⟨e, .releasing false⟩)⟩
  /-- The instance of a pooled row has finished: the row is terminal, and nobody is woken. -/
  | abandon {a : World} (n : Nat) (e : Entry) (hcopy : a.proc.copies n = some ⟨e, .pooled⟩) :
      Step maxAttempts a (.fail n)
        ⟨a.shared.setTable (a.shared.table.markPoisoned e.entryId),
          a.proc.setCopy n (some ⟨e, .releasing false⟩)⟩
  | mark {a : World} (n : Nat) (e : Entry) (hcopy : a.proc.copies n = some ⟨e, .sent false⟩) :
      Step maxAttempts a (.mark n) { a with proc :=
        (a.proc.setDelivered e.entryId true).setCopy n (some ⟨e, .marked⟩) }
  | delete {a : World} (n : Nat) (e : Entry) (hcopy : a.proc.copies n = some ⟨e, .deleting⟩) :
      Step maxAttempts a (.delete n)
        ⟨a.shared.setTable (a.shared.table.delete e.entryId),
          (a.proc.setDeleted e.entryId a.shared.now).setCopy n (some ⟨e, .deleted⟩)⟩
  /-- The row is deleted by the task that sent it, which does not remember it. -/
  | deleteInPlace {a : World} (n : Nat) (e : Entry) (s : Stage)
      (hcopy : a.proc.copies n = some ⟨e, s⟩) (hplace : s.inPlace = true) :
      Step maxAttempts a (.deleteInPlace e.entryId)
        ⟨a.shared.setTable (a.shared.table.delete e.entryId),
          (a.proc.setDeleted e.entryId a.shared.now).setCopy n (some ⟨e, .releasing false⟩)⟩
  | remember {a : World} (n : Nat) (e : Entry) (hcopy : a.proc.copies n = some ⟨e, .deleted⟩) :
      Step maxAttempts a (.remember n) { a with proc :=
        (a.proc.remember e.entryId a.shared.now).setCopy n (some ⟨e, .releasing true⟩) }
  | clear {a : World} (n : Nat) (e : Entry) (again : Bool)
      (hcopy : a.proc.copies n = some ⟨e, .releasing again⟩) :
      Step maxAttempts a (.release n) { a with proc :=
        (a.proc.setInflight e.entryId false).setCopy n (some ⟨e, .cleared again⟩) }
  | clearAgain {a : World} (n : Nat) (e : Entry)
      (hcopy : a.proc.copies n = some ⟨e, .rereleasing⟩) :
      Step maxAttempts a (.release n) { a with proc :=
        (a.proc.setInflight e.entryId false).setCopy n (some ⟨e, .cleared false⟩) }
  | unclaim {a : World} (n : Nat) (e : Entry) (again : Bool)
      (hcopy : a.proc.copies n = some ⟨e, .cleared again⟩) :
      Step maxAttempts a (.release n) { a with proc :=
        (a.proc.setClaimed e.entryId false).setCopy n (some ⟨e, .unclaimed again⟩) }
  | undeliver {a : World} (n : Nat) (e : Entry) (again : Bool)
      (hcopy : a.proc.copies n = some ⟨e, .unclaimed again⟩) :
      Step maxAttempts a (.release n)
        ⟨a.shared, (a.proc.setDelivered e.entryId false).setCopy n
          (if again then some ⟨e, .rereleasing⟩ else none)⟩
  /-- The renewer lists what is in flight and extends the leases, as one step; a row that is locked is
  skipped, and the statement may fail. -/
  | renew {a : World} (ids : List String)
      (hids : ∀ id ∈ ids, a.proc.leaseSnapshot id = true) :
      Step maxAttempts a (.renew ids)
        ⟨a.shared.setTable (a.shared.table.renewClaims ids (a.shared.now + claimLease)), a.proc⟩
  /-- The claimer goes on to another deployment, or waits for the next tick. -/
  | round {a : World} (hread : a.proc.read = []) (hchecked : a.proc.checked = none) :
      Step maxAttempts a .snapshot { a with proc := { a.proc with ownedElsewhere := [] } }
  | snapshot {a : World} (hread : a.proc.read = []) (hchecked : a.proc.checked = none) :
      Step maxAttempts a .snapshot { a with proc :=
        { a.proc with
          exclude := fun id => a.proc.claimed id || a.proc.ownedElsewhere.contains id } }
  | claim {a : World} (es : List Entry) (hread : a.proc.read = [])
      (hchecked : a.proc.checked = none) (hnodup : (es.map Entry.entryId).Nodup)
      (hdue : ∀ e ∈ es, a.shared.table.Due a.shared.now e)
      (hexclude : ∀ e ∈ es, a.proc.exclude e.entryId = false) :
      Step maxAttempts a (.claim es)
        ⟨a.shared.setTable
            (a.shared.table.lease (es.map Entry.entryId) (a.shared.now + claimLease)),
          { a.proc with read := es, readAt := a.shared.now }⟩
  /-- The first look of the claimer: was the row deleted recently? -/
  | check {a : World} (e : Entry) (es : List Entry) (hread : a.proc.read = e :: es)
      (hchecked : a.proc.checked = none)
      (hrecent : a.proc.recentlyFinished e.entryId a.shared.now = false) :
      Step maxAttempts a .check { a with proc := { a.proc with read := es, checked := some e } }
  | skip {a : World} (e : Entry) (es : List Entry) (hread : a.proc.read = e :: es)
      (hchecked : a.proc.checked = none)
      (hrecent : a.proc.recentlyFinished e.entryId a.shared.now = true) :
      Step maxAttempts a .check { a with proc :=
        { a.proc with
          read := es, ownedElsewhere := a.proc.ownedElsewhere ++ [e.entryId] } }
  /-- The second look: is the row in flight?  It is not, and the claimer takes it. -/
  | take {a : World} (n : Nat) (e : Entry) (hchecked : a.proc.checked = some e)
      (hfresh : a.proc.inflight e.entryId = false) (hfree : a.proc.copies n = none) :
      Step maxAttempts a (.take e) { a with proc :=
        { (a.proc.setInflight e.entryId true).setCopy n (some ⟨e, .taken⟩) with
          checked := none
          late := a.proc.late ++ if (a.proc.deletedAt e.entryId).isSome then [e.entryId] else [] } }
  | refuse {a : World} (e : Entry) (hchecked : a.proc.checked = some e)
      (hfresh : a.proc.inflight e.entryId = true) :
      Step maxAttempts a .check { a with proc :=
        { a.proc with
          checked := none, ownedElsewhere := a.proc.ownedElsewhere ++ [e.entryId] } }
  | pass {a : World} (n : Nat) (e : Entry) (hcopy : a.proc.copies n = some ⟨e, .taken⟩) :
      Step maxAttempts a (.pass n)
        ⟨a.shared, (a.proc.setClaimed e.entryId true).setCopy n
          (some ⟨e, if e.pooled then .pooled else .routed⟩)⟩
  | withdraw {a : World} (inst node : String) :
      Step maxAttempts a (.withdraw inst node) { a with shared := a.shared.withdraw inst node }

end Sutra.Outbox
