import Sutra.Lib.SortedMap
import Sutra.Lib.Table
import Sutra.Store.Tables

/-!
# The migration of an instance

An instance is pinned to a deployment, and its rows in five tables name that deployment. A
migration moves them to another deployment in one transaction: it locks the row of the instance,
checks it, reads the rows and deletes them under the source, and then writes them under the target,
with the nodes of the wait rows mapped.

* `commitInstanceMigration`: that transaction.
* `liveParkRows`: the waits that a failure commit resolved, which `rearmParks` brings back.
-/

namespace Sutra.Migration

open Store (Instant Status Stored)

/-! ## Rows -/

/-- The status of a wait row, with the time of its resolution. -/
inductive WaitState where
  | waiting
  | resolved (resolvedAt : Instant)
  deriving DecidableEq

inductive WaitKind where
  | message
  | timer
  deriving DecidableEq

/-- A row of `waiting_event`. -/
structure WaitRow where
  nodeId : String
  processId : String
  correlationKey : Option String
  state : WaitState
  createdAt : Instant
  kind : WaitKind
  timerDueAt : Option Instant
  deriving DecidableEq

def WaitRow.resolvedAt (r : WaitRow) : Option Instant :=
  match r.state with
  | .waiting => none
  | .resolved t => some t

/-- A row of `alias_index`. -/
structure AliasRow where
  aliasName : String
  aliasValue : String
  uniqueAlias : Bool
  live : Bool
  createdAt : Instant
  deriving DecidableEq

/-- A row of `subject_index`. -/
structure SubjectRow where
  subjectName : String
  blindValue : String
  live : Bool
  createdAt : Instant
  deriving DecidableEq

/-- A row of `audit_event`. -/
structure AuditRow where
  seq : Int
  recordedAt : Instant
  eventType : String
  nodeId : Option String
  diagnosticCode : Option String
  diagnosticJson : Option String
  payloadJson : String
  deriving DecidableEq

/-- A row of `capacity_slot`. -/
structure SlotRow where
  pool : String
  callKey : String
  tenant : String
  direction : String
  holder : String
  acquiredAt : Instant
  deriving DecidableEq

structure InstanceRow (B : Type) where
  serialised : Stored B
  claimOwner : Option String
  terminalAt : Option Instant

/-- The rows of one instance under one deployment. -/
structure Rows (B : Type) where
  instanceState : Option (InstanceRow B)
  waits : Table WaitRow.nodeId
  aliases : Table fun r : AliasRow => (r.aliasName, r.aliasValue)
  subjects : Table fun r : SubjectRow => (r.subjectName, r.blindValue)
  auditEvents : Table AuditRow.seq
  capacitySlots : Table fun r : SlotRow => (r.pool, r.callKey)

namespace Rows

variable {B : Type}

def empty : Rows B := ⟨none, .empty, .empty, .empty, .empty, .empty⟩

/-- Write the snapshot, over whatever row there is. -/
def persist (t : Rows B) (s : Stored B) : Rows B :=
  { t with instanceState := some (match t.instanceState with
      | none => ⟨s, none, none⟩
      | some r => { r with serialised := s }) }

/-- A wait that is pending is resolved; history stays as it is. -/
def resolveWait (now : Instant) (r : WaitRow) : WaitRow :=
  match r.state with
  | .waiting => { r with state := .resolved now }
  | .resolved _ => r

theorem nodeId_resolveWait (now : Instant) (r : WaitRow) :
    (resolveWait now r).nodeId = r.nodeId := by
  rw [resolveWait]
  split <;> rfl

/-- The commit of a failure: the snapshot is marked, and every pending wait is resolved. -/
def commitFailed (t : Rows B) (now : Instant) : Rows B :=
  match t.instanceState with
  | none => t
  | some r =>
    { t.persist { r.serialised with status := .failed } with
      waits := t.waits.map (resolveWait now) (nodeId_resolveWait now) }

end Rows

/-- The rows of an instance under every deployment, and the live unique aliases of the other
instances. -/
structure Database (B : Type) where
  rows : String → Rows B
  taken : String → String × String → Bool

/-! ## The migration -/

/-- What is asked for. -/
structure InstanceMigration (B : Type) where
  fromDeployment : String
  toDeployment : String
  instanceId : String
  /-- The snapshot under the new pin. -/
  snapshot : Stored B
  nodeMapping : SortedMap String String
  processId : Option String
  rearmParks : Option (List String)
  claimOwner : String
  carryJournal : Bool
  audit : Option AuditRow

/-- Why a migration is refused. -/
inductive MigrationError where
  | alreadyPinned
  | vanished
  | terminal
  | claimLost (owner : Option String)
  | foldedNode (node : String)
  | aliasCollision (aliasName aliasValue : String)
  | database (operation : String)
  deriving DecidableEq

/-- How many rows of each table were moved. -/
structure Outcome where
  waitRows : Nat
  aliasRows : Nat
  subjectRows : Nat
  auditRows : Nat
  rearmedRows : Nat

namespace InstanceMigration

variable {B : Type} (m : InstanceMigration B)

/-- The node under the target; one that is not mapped keeps its id. -/
def mapNode (id : String) : String := (m.nodeMapping.get id).getD id

/-- When the last wait was resolved. -/
def newestResolution (waits : List WaitRow) : Option Instant :=
  (waits.filterMap WaitRow.resolvedAt).max?

/-- A resume brings back the waits that the new frontier names and those that were resolved last. -/
def rearm (waits : List WaitRow) (r : WaitRow) : Bool :=
  match m.rearmParks with
  | none | some [] => false
  | some frontier =>
    frontier.contains (m.mapNode r.nodeId) ||
      (r.resolvedAt.isSome && r.resolvedAt == newestResolution waits)

/-- A wait row under the target. -/
def moved (waits : List WaitRow) (r : WaitRow) : WaitRow :=
  { r with
    nodeId := m.mapNode r.nodeId
    processId := m.processId.getD r.processId
    state := if m.rearm waits r then .waiting else r.state }

/-- The first node that occurs twice. -/
def firstFold (seen : List String) : List String → Option String
  | [] => none
  | n :: rest => if n ∈ seen then some n else firstFold (n :: seen) rest

/-- The checks under the lock of the instance's row. -/
def checkSource (src : Rows B) : Except MigrationError Unit :=
  if m.fromDeployment = m.toDeployment then .error .alreadyPinned
  else match src.instanceState with
  | none => .error .vanished
  | some owned =>
    if owned.terminalAt.isSome then .error .terminal
    else if owned.claimOwner ≠ some m.claimOwner then .error (.claimLost owned.claimOwner)
    else match firstFold [] (src.waits.rows.map fun r => m.mapNode r.nodeId) with
    | some node => .error (.foldedNode node)
    | none => .ok ()

/-- The part of the journal that is carried along. -/
def journal (src : Rows B) : List AuditRow := if m.carryJournal then src.auditEvents.rows else []

/-- What stays under the source. -/
def leftBehind (src : Rows B) : Rows B :=
  { src with
    instanceState := none
    waits := .empty
    aliases := .empty
    subjects := .empty
    auditEvents := if (m.journal src).isEmpty then src.auditEvents else .empty }

/-- Write an alias. One that is live and unique must be free. -/
def writeAlias (taken : String × String → Bool)
    (t : Table fun r : AliasRow => (r.aliasName, r.aliasValue)) (r : AliasRow) :
    Except MigrationError (Table fun r : AliasRow => (r.aliasName, r.aliasValue)) :=
  match if r.uniqueAlias && r.live && taken (r.aliasName, r.aliasValue) then none
      else t.insert? r with
  | some t => .ok t
  | none =>
    if r.uniqueAlias && r.live then .error (.aliasCollision r.aliasName r.aliasValue) else .ok t

/-- Write the wait rows. -/
def writeWaits (waits : List WaitRow) (t : Table WaitRow.nodeId) :
    Except MigrationError (Table WaitRow.nodeId) :=
  match (waits.map (m.moved waits)).foldlM Table.insert? t with
  | some t => .ok t
  | none => .error (.database "migration write wait rows")

end InstanceMigration

/-- **The transaction of a migration.** -/
def Database.commitInstanceMigration {B : Type} (db : Database B) (m : InstanceMigration B) :
    Except MigrationError (Database B × Outcome) := do
  let src := db.rows m.fromDeployment
  m.checkSource src
  let target := (db.rows m.toDeployment).persist m.snapshot
  let waits ← m.writeWaits src.waits.rows target.waits
  let aliases ← src.aliases.rows.foldlM
    (InstanceMigration.writeAlias (db.taken m.toDeployment)) target.aliases
  let subjects := src.subjects.rows.foldl Table.insertNew target.subjects
  let auditEvents := (m.journal src ++ m.audit.toList).foldl Table.insertNew target.auditEvents
  pure ({ db with
      rows := Function.update (Function.update db.rows m.fromDeployment (m.leftBehind src))
        m.toDeployment { target with waits, aliases, subjects, auditEvents } },
    { waitRows := src.waits.rows.length
      aliasRows := aliases.rows.length - target.aliases.rows.length
      subjectRows := src.subjects.rows.length
      auditRows := (m.journal src).length
      rearmedRows := (src.waits.rows.filter (m.rearm src.waits.rows)).length })

/-! ## The validation -/

/-- The parks that a validation classifies: the pending waits, and after a failure those that were
resolved last. -/
def liveParkRows (status : Status) (frontier : List String) (rows : List WaitRow) :
    List (String × Bool) :=
  let tornDown := if status = .failed ∧ frontier ≠ [] then
    InstanceMigration.newestResolution rows else none
  (rows.filter fun row => row.state == .waiting ||
      (tornDown.isSome && row.resolvedAt.isSome && row.resolvedAt == tornDown)).map
    fun row => (row.nodeId, row.kind == .timer)

end Sutra.Migration
