import Sutra.Lib.Run
import Sutra.Store.Tables

/-!
# Everyone who writes to one instance

The rows of an instance are written by any number of *lanes* (a lane is one serial actor of one
replica, and its name is the owner of its claims), by operators who cancel the instance, by pollers
that fire its timers, and by the sweeper of stuck claims. Each statement outside a transaction and
each transaction is one atomic step here, and the steps of all of them interleave freely (`Step`).
`World.history` is not stored anywhere: it lists the commits, with what each was computed from.
-/

namespace Sutra.Store

variable {B : Type}

/-! ## The actors -/

/-- What a lane is asked to do: a relay for a wait (or another wakeup that nobody follows up on), or
the fire of a timer for a poller. -/
inductive Work where
  | relay (nodeId : String)
  | timer (poller : Nat) (nodeId : String)
  deriving DecidableEq

/-- How a pass over a loaded snapshot ends. -/
inductive Outcome (B : Type) where
  | repark (w : StepWrite B)
  | complete
  | fail

structure Engine (B : Type) where
  /-- Finished instances keep their row. -/
  retain : Bool
  claimTimeout : Nat
  retryBackoff : Nat
  /-- The wait that a work is for: the subscriber a relay is rebound to, the host of a timer. -/
  target : Stored B → Work → Option String
  /-- An error before the frontier is looked at, such as an unresolvable pin. -/
  refuses : Stored B → Work → Bool
  /-- A timer that the snapshot does not expect. -/
  unexpected : Stored B → Work → Bool
  /-- What a pass over the snapshot may come to. -/
  passes : Stored B → Work → Outcome B → Prop

/-- What a lane makes of the snapshot it loaded. -/
inductive Verdict where
  | go
  | stale
  | refused
  deriving DecidableEq

/-- The guards of a resume. -/
def Engine.verdict (e : Engine B) (s : Stored B) (w : Work) : Verdict :=
  let waits := (e.target s w).any fun n => s.waitingNodes.contains n
  match w with
  | .relay _ =>
    if s.status ≠ .suspended then .refused
    else if e.refuses s w then .refused
    else if waits then .go else .refused
  | .timer _ _ =>
    if s.status ≠ .suspended then .stale
    else if e.refuses s w then .refused
    else if !waits then .stale
    else if e.unexpected s w then .stale else .go

inductive Lane (B : Type) where
  | idle
  /-- The claim was not granted; the row is read again to see why. -/
  | denied (w : Work)
  | claimed (w : Work)
  | loaded (w : Work) (s : Stored B) (basis : Nat)
  | computed (w : Work) (s : Stored B) (basis : Nat) (out : Outcome B)
  | releasing

def Lane.busy : Lane B → Bool
  | .claimed _ | .loaded _ _ _ | .computed _ _ _ _ => true
  | .idle | .denied _ | .releasing => false

def Lane.computing : Lane B → Bool
  | .loaded _ _ _ | .computed _ _ _ _ => true
  | .idle | .denied _ | .claimed _ | .releasing => false

inductive Cancel (B : Type) where
  | idle
  | loaded (s : Stored B)
  | resolved (s : Stored B)
  | retired (s : Stored B)

structure DueTimer where
  nodeId : String
  dueAt : Instant
  polledAt : Instant
  seen : Nat

inductive Poller where
  | idle
  | holding (d : DueTimer)
  | firing (d : DueTimer) (owner : String)
  | stale (d : DueTimer)
  | failed (d : DueTimer)

def Poller.row : Poller → Option DueTimer
  | .idle => none
  | .holding d | .firing d _ | .stale d | .failed d => some d

/-- A commit: who made it, how many commits there were when its snapshot was loaded, that snapshot,
what it left in the row, whether its owner held the claim, and the waits that it parked. -/
structure Commit (B : Type) where
  owner : Option String
  basis : Nat
  source : Option (Stored B)
  result : Option (Stored B)
  held : Bool
  parks : List String

/-- The rows of the instance and everyone at work on it. -/
structure World (B : Type) where
  tables : Tables B
  now : Instant
  lanes : String → Lane B
  cancels : Nat → Cancel B
  pollers : Nat → Poller
  history : List (Commit B)

namespace World

/-- Before the instance exists. -/
def init : World B := ⟨.empty, 0, fun _ => .idle, fun _ => .idle, fun _ => .idle, []⟩

variable (a : World B)

def setTables (t : Tables B) : World B := { a with tables := t }

def setLane (owner : String) (l : Lane B) : World B :=
  { a with lanes := Function.update a.lanes owner l }

def setCancel (k : Nat) (c : Cancel B) : World B :=
  { a with cancels := Function.update a.cancels k c }

def setPoller (p : Nat) (x : Poller) : World B :=
  { a with pollers := Function.update a.pollers p x }

def answer (w : Work) (f : DueTimer → Poller) : World B :=
  match w with
  | .relay _ => a
  | .timer p _ =>
    match a.pollers p with
    | .firing d _ => a.setPoller p (f d)
    | _ => a

def commit (owner : Option String) (basis : Nat) (source : Option (Stored B)) (t : Tables B)
    (parks : List String) : World B :=
  { a with
    tables := t
    history := ⟨owner, basis, source, t.stored, owner.all fun o => a.tables.owner == some o, parks⟩
      :: a.history }

def commitOutcome (e : Engine B) (owner : String) (w : Work) (s : Stored B) (basis : Nat) :
    Outcome B → World B
  | .repark x => (((a.commit (some owner) basis (some s) (a.tables.commitStep x owner)
      (a.tables.parks x)).setLane owner .idle).answer w fun _ => .idle)
  | .complete => (((a.commit (some owner) basis (some s)
      (a.tables.commitComplete e.retain a.now) []).setLane owner .idle).answer w fun _ => .idle)
  | .fail => (((a.commit (some owner) basis (some s) a.tables.commitFailed []).setLane
      owner .releasing).answer w .failed)

end World

/-! ## The steps -/

/-- The steps by name. -/
inductive Event (B : Type) where
  | park (x : StepWrite B)
  | tick (dt : Nat)
  | claim (owner : String) (w : Work)
  | recheck (owner : String)
  | load (owner : String)
  | compute (owner : String) (out : Outcome B)
  | commit (owner : String)
  | abort (owner : String)
  | release (owner : String)
  | crash (owner : String)
  | heartbeat (owner : String)
  | refresh (owner : String)
  | sweep
  | cancelLoad (k : Nat)
  | cancelResolve (k : Nat)
  | cancelRetire (k : Nat)
  | cancelMark (k : Nat)
  | cancelStop (k : Nat)
  | pollDue (p : Nat) (nodeId : String)
  | pollResolve (p : Nat)
  | pollDefer (p : Nat)
  | pollStop (p : Nat)

def World.offers (a : World B) : Work → Prop
  | .relay _ => True
  | .timer p n => ∃ d, a.pollers p = .holding d ∧ d.nodeId = n

def World.hand (a : World B) (owner : String) : Work → World B
  | .relay _ => a
  | .timer p _ =>
    match a.pollers p with
    | .holding d => a.setPoller p (.firing d owner)
    | _ => a

def Lane.work : Lane B → Option Work
  | .denied w | .claimed w | .loaded w _ _ | .computed w _ _ _ => some w
  | .idle | .releasing => none

def World.answerLane (a : World B) (owner : String) (f : DueTimer → Poller) : World B :=
  match (a.lanes owner).work with
  | none => a
  | some w => a.answer w f

/-- **One atomic step.** -/
inductive Step (e : Engine B) : World B → Event B → World B → Prop where
  /-- The first commit; the instance cannot be named before it. -/
  | park {a : World B} (x : StepWrite B) (hnew : a.history = []) :
      Step e a (.park x) (a.commit none 0 none (a.tables.writeStepWithTimers x)
        (a.tables.parks x))
  | tick {a : World B} (dt : Nat) : Step e a (.tick dt) { a with now := a.now + dt }
  | granted {a : World B} (o : String) (w : Work) (hidle : a.lanes o = .idle)
      (hnew : a.history ≠ []) (hoffer : a.offers w) (hclaim : a.tables.claimable o = true) :
      Step e a (.claim o w)
        (((a.setTables (a.tables.claim o a.now)).setLane o (.claimed w)).hand o w)
  | denied {a : World B} (o : String) (w : Work) (hidle : a.lanes o = .idle)
      (hnew : a.history ≠ []) (hoffer : a.offers w) (hclaim : a.tables.claimable o = false) :
      Step e a (.claim o w) ((a.setLane o (.denied w)).hand o w)
  /-- Somebody else holds the claim, or the row cannot be read. -/
  | bounce {a : World B} (o : String) (w : Work) (hlane : a.lanes o = .denied w) :
      Step e a (.recheck o) ((a.setLane o .idle).answer w .failed)
  | goneRelay {a : World B} (o n : String) (hlane : a.lanes o = .denied (.relay n))
      (hrow : a.tables.stored = none) :
      Step e a (.recheck o) (a.setLane o (.claimed (.relay n)))
  | goneTimer {a : World B} (o : String) (p : Nat) (n : String)
      (hlane : a.lanes o = .denied (.timer p n)) (hrow : a.tables.stored = none) :
      Step e a (.recheck o) ((a.setLane o .idle).answer (.timer p n) .stale)
  | missing {a : World B} (o : String) (w : Work) (hlane : a.lanes o = .claimed w)
      (hrow : a.tables.stored = none) :
      Step e a (.load o) ((a.setLane o .releasing).answer w .stale)
  | load {a : World B} (o : String) (w : Work) (s : Stored B) (hlane : a.lanes o = .claimed w)
      (hrow : a.tables.stored = some s) (hgo : e.verdict s w = .go) :
      Step e a (.load o) (a.setLane o (.loaded w s a.history.length))
  | turnedAway {a : World B} (o : String) (w : Work) (s : Stored B)
      (hlane : a.lanes o = .claimed w) (hrow : a.tables.stored = some s)
        (hgo : e.verdict s w ≠ .go) :
      Step e a (.load o) ((a.setLane o .releasing).answer w
        (if e.verdict s w = .stale then .stale else .failed))
  | compute {a : World B} (o : String) (w : Work) (s : Stored B) (basis : Nat) (out : Outcome B)
      (hlane : a.lanes o = .loaded w s basis) (hpass : e.passes s w out) :
      Step e a (.compute o out) (a.setLane o (.computed w s basis out))
  | commit {a : World B} (o : String) (w : Work) (s : Stored B) (basis : Nat) (out : Outcome B)
      (hlane : a.lanes o = .computed w s basis out) :
      Step e a (.commit o) (a.commitOutcome e o w s basis out)
  /-- A store error: nothing is committed, the claim is handed back. -/
  | abort {a : World B} (o : String) (hbusy : (a.lanes o).busy = true) :
      Step e a (.abort o) ((a.answerLane o .failed).setLane o .releasing)
  | release {a : World B} (o : String) (hlane : a.lanes o = .releasing) :
      Step e a (.release o) ((a.setTables (a.tables.release o)).setLane o .idle)
  /-- The replica dies; its claim stays. -/
  | crash {a : World B} (o : String) :
      Step e a (.crash o) ((a.answerLane o fun _ => .idle).setLane o .idle)
  | heartbeat {a : World B} (o : String) :
      Step e a (.heartbeat o) (a.setTables (a.tables.heartbeat o a.now))
  /-- A chain of synchronous calls claims the instance again, whatever the answer. -/
  | refresh {a : World B} (o : String) (hbusy : (a.lanes o).busy = true) :
      Step e a (.refresh o) (a.setTables (a.tables.claim o a.now))
  | sweep {a : World B} : Step e a .sweep (a.setTables (a.tables.sweepStuck e.claimTimeout a.now))
  | cancelLoad {a : World B} (k : Nat) (s : Stored B) (hidle : a.cancels k = .idle)
      (hrow : a.tables.stored = some s) (hlive : s.status.finished = false) :
      Step e a (.cancelLoad k) (a.setCancel k (.loaded s))
  | cancelResolve {a : World B} (k : Nat) (s : Stored B) (hk : a.cancels k = .loaded s) :
      Step e a (.cancelResolve k) ((a.setTables a.tables.resolveAll).setCancel k (.resolved s))
  | cancelRetire {a : World B} (k : Nat) (s : Stored B) (hk : a.cancels k = .resolved s) :
      Step e a (.cancelRetire k) ((a.setTables a.tables.retire).setCancel k (.retired s))
  | cancelMark {a : World B} (k : Nat) (s : Stored B) (hk : a.cancels k = .retired s) :
      Step e a (.cancelMark k) ((a.commit none a.history.length (some s) (if e.retain then
        a.tables.markTerminal { s with status := .terminated } a.now
          else a.tables.delete) []).setCancel k .idle)
  | cancelStop {a : World B} (k : Nat) : Step e a (.cancelStop k) (a.setCancel k .idle)
  | pollDue {a : World B} (p : Nat) (n : String) (due : Instant) (hidle : a.pollers p = .idle)
      (hdue : a.tables.pendingTimer n = some due) (hnow : due ≤ a.now) :
      Step e a (.pollDue p n) (a.setPoller p (.holding ⟨n, due, a.now, a.history.length⟩))
  | pollResolve {a : World B} (p : Nat) (d : DueTimer) (hp : a.pollers p = .stale d) :
      Step e a (.pollResolve p) ((a.setTables (a.tables.resolveNode d.nodeId)).setPoller p .idle)
  | pollDefer {a : World B} (p : Nat) (d : DueTimer) (hp : a.pollers p = .failed d) :
      Step e a (.pollDefer p) ((a.setTables (a.tables.deferTimer d.nodeId
        (d.polledAt + e.retryBackoff))).setPoller p .idle)
  | pollStop {a : World B} (p : Nat) (hp : ∀ d o, a.pollers p ≠ .firing d o) :
      Step e a (.pollStop p) (a.setPoller p .idle)

/-- The steps that meet a condition on the state before them. -/
def StepIf (e : Engine B) (good : World B → Event B → Prop) (a : World B) (x : Event B)
    (b : World B) : Prop := Step e a x b ∧ good a x

theorem StepIf.mk {e : Engine B} {good : World B → Event B → Prop} {a b : World B} {x : Event B}
    (h : Step e a x b) (hgood : good a x) : StepIf e good a x b := ⟨h, hgood⟩

end Sutra.Store
