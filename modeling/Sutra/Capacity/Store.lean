import Sutra.Capacity.Pool
import Sutra.Lib.Run

/-!
# Transactions on the capacity tables

Any number of replicas run transactions on the tables, and their steps interleave (`Step`). An
acquisition checks for a session end and for a finished instance, locks the row of its pool and
reads the counters, and at last inserts and counts; from the lock on no other acquisition gets the
pool, and no release can decrement its counters. A rebind is one statement and takes no pool.

`World.endings` is not stored anywhere: it lists the sessions that were ended.
-/

namespace Sutra.Capacity

structure Claim where
  key : SlotKey
  direction : SlotDirection
  requireLive : Bool
  deriving DecidableEq

def Claim.row (c : Claim) : SlotRow := ⟨c.key, c.direction⟩

/-- A transaction. -/
inductive Tx where
  | idle
  | checked (c : Claim)
  | locked (c : Claim)
  | releasing (ends : Option SessionEnd) (rows : List SlotRow)

structure World where
  tables : Tables
  txs : Nat → Tx
  terminal : String → String → Option Bool
  /-- A chain of synchronous calls is in flight for the instance. -/
  chained : String → String → Bool
  endings : List SessionEnd

def World.initial : World := ⟨.empty, fun _ => .idle, fun _ _ => none, fun _ _ => false, []⟩

def sessionEnd (deployment inst : String) (call : Option String) : SessionEnd :=
  ⟨deployment, inst, call.getD ""⟩

def endSelection : Option String → SlotSelection
  | none => .all
  | some call => .call call

namespace World

def setTx (a : World) (n : Nat) (x : Tx) : World := { a with txs := Function.update a.txs n x }

def setTables (a : World) (t : Tables) : World := { a with tables := t }

def instanceEnded (a : World) (k : SlotKey) : Bool := a.terminal k.deployment k.inst == some true

def isOver (a : World) (deployment inst : String) : Bool :=
  (a.terminal deployment inst).getD (!a.chained deployment inst)

/-- Nothing is left for the session ends of the instance to cover. -/
def forgettable (a : World) (deployment inst : String) : Bool :=
  a.terminal deployment inst != some false && !a.chained deployment inst

def turnsAway (a : World) (c : Claim) : Bool :=
  (c.direction == .outbound && a.tables.sessionEnded c.key) ||
    (c.requireLive && a.instanceEnded c.key)

def Unlocked (a : World) (pool : String) : Prop := ∀ n c, a.txs n = .locked c → c.key.pool ≠ pool

def Undeleted (a : World) (r : SlotRow) : Prop :=
  ∀ n ends rows, a.txs n = .releasing ends rows → r ∉ rows

def setInstance (a : World) (deployment inst : String) (terminal : Option Bool) (chained : Bool) :
    World :=
  { a with
    terminal := Function.update a.terminal deployment
      (Function.update (a.terminal deployment) inst terminal)
    chained := Function.update a.chained deployment
      (Function.update (a.chained deployment) inst chained) }

def settle (a : World) : World :=
  { a with endings := a.endings.filter fun s => !a.isOver s.deployment s.inst }

end World

def Tables.finish (t : Tables) (ends : Option SessionEnd) (rows : List SlotRow) : Tables :=
  match ends with
  | none => t.releaseRows rows
  | some s => (t.recordSessionEnd s).releaseRows rows

/-- What can happen. -/
inductive Event where
  | begin (tx : Nat) (c : Claim)
  | lock (tx : Nat)
  | commit (tx : Nat)
  | release (tx : Nat) (deployment inst : String) (s : SlotSelection)
  | endSession (tx : Nat) (deployment inst : String) (call : Option String)
  | finish (tx : Nat)
  | abort (tx : Nat)
  | rebind (deployment src dst : String)
  | forget (deployment inst : String)
  | status (deployment inst : String) (terminal : Option Bool) (chained : Bool)

variable (pools : String → Option CapacityPool)

/-- **One atomic step**, with the pools that the engine declares. -/
inductive Step : World → Event → World → Prop where
  /-- The pool is not declared, the session has ended or the instance has finished. -/
  | refuse {a : World} (n : Nat) (c : Claim) (hidle : a.txs n = .idle)
      (hno : pools c.key.pool = none ∨ a.turnsAway c = true) : Step a (.begin n c) a
  | begin {a : World} (n : Nat) (c : Claim) (p : CapacityPool) (hidle : a.txs n = .idle)
      (hpool : pools c.key.pool = some p) (hgo : a.turnsAway c = false) :
      Step a (.begin n c) (a.setTx n (.checked c))
  | full {a : World} (n : Nat) (c : Claim) (p : CapacityPool) (htx : a.txs n = .checked c)
      (hpool : pools c.key.pool = some p) (hfree : a.Unlocked c.key.pool)
      (hno : a.tables.held c.key = true ∨ p.admits c.direction (a.tables.used c.key.pool) = false) :
      Step a (.lock n) (a.setTx n .idle)
  | lock {a : World} (n : Nat) (c : Claim) (p : CapacityPool) (htx : a.txs n = .checked c)
      (hpool : pools c.key.pool = some p) (hfree : a.Unlocked c.key.pool)
      (hnew : a.tables.held c.key = false)
      (hadmits : p.admits c.direction (a.tables.used c.key.pool) = true) :
      Step a (.lock n) (a.setTx n (.locked c))
  | commit {a : World} (n : Nat) (c : Claim) (htx : a.txs n = .locked c) :
      Step a (.commit n) ((a.setTables
        ((a.tables.insertSlot c.row).increment c.key.pool c.direction)).setTx n .idle)
  | release {a : World} (n : Nat) (d i : String) (s : SlotSelection) (hidle : a.txs n = .idle)
      (hrows : ∀ r ∈ a.tables.selected d i s, a.Undeleted r) :
      Step a (.release n d i s) (a.setTx n (.releasing none (a.tables.selected d i s)))
  | releaseIfOver {a : World} (n : Nat) (d i call : String) (hidle : a.txs n = .idle)
      (hover : a.isOver d i = true)
      (hrows : ∀ r ∈ a.tables.selected d i (.call call), a.Undeleted r) :
      Step a (.release n d i (.call call))
        (a.setTx n (.releasing none (a.tables.selected d i (.call call))))
  | endSession {a : World} (n : Nat) (d i : String) (call : Option String)
      (hidle : a.txs n = .idle)
      (hrows : ∀ r ∈ a.tables.selected d i (endSelection call), a.Undeleted r) :
      Step a (.endSession n d i call) (a.setTx n
        (.releasing (some (sessionEnd d i call)) (a.tables.selected d i (endSelection call))))
  | finish {a : World} (n : Nat) (ends : Option SessionEnd) (rows : List SlotRow)
      (htx : a.txs n = .releasing ends rows) (hfree : ∀ r ∈ rows, a.Unlocked r.key.pool) :
      Step a (.finish n) { (a.setTables (a.tables.finish ends rows)).setTx n .idle with
        endings := a.endings ++ ends.toList }.settle
  /-- The transaction fails and is rolled back. -/
  | abort {a : World} (n : Nat) : Step a (.abort n) (a.setTx n .idle)
  | rebind {a : World} (d src dst : String)
      (hrows : ∀ r ∈ a.tables.moved d src, a.Undeleted r) :
      Step a (.rebind d src dst) (a.setTables (a.tables.rebind d src dst))
  | forget {a : World} (d i : String) (hover : a.forgettable d i = true) :
      Step a (.forget d i) (a.setTables (a.tables.forgetSessionEnds d i))
  | status {a : World} (d i : String) (terminal : Option Bool) (chained : Bool) :
      Step a (.status d i terminal chained) (a.setInstance d i terminal chained).settle

/-- The steps that meet a condition on the state before them. -/
def StepIf (good : World → Event → Prop) (a : World) (x : Event) (b : World) : Prop :=
  Step pools a x b ∧ good a x

variable {pools}

theorem StepIf.run {good : World → Event → Prop} {a b : World} {xs : List Event}
    (hrun : Run (Step pools) a xs b) (hgood : ∀ x ∈ xs, ∀ a, good a x) :
    Run (StepIf pools good) a xs b := by
  induction hrun with
  | nil a => exact .nil a
  | cons h _ ih =>
    refine .cons ⟨h, hgood _ (.head _) _⟩ (ih fun x hx => ?_)
    exact hgood x (.tail _ hx)

end Sutra.Capacity
