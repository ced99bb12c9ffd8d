import Sutra.Lib.Run

/-!
# Deliveries and their dedup keys

A delivery carries an *explicit* key when its sender supplied an event id, and each handler that it
resolves to may *declare* a key of its own. A key is checked against the inbox when the delivery
reaches it, and written by the step that does the work, in the transaction of that step. A chain of
synchronous calls writes the keys first, with a *marker* that names them.

* `Lane.pending`: in between the key waits in a list that the lane keeps from one job to the next.
* `World.effects` is not stored anywhere: it lists what was committed.
-/

namespace Sutra.Inbox

/-! ## Deliveries -/

/-- A start event or wait node, with the dedup key that its source declares for this message. -/
structure Handler where
  id : String
  declared : Option String
  deriving DecidableEq

structure Delivery where
  /-- The event id, if the sender supplied one. -/
  explicit : Option String
  handlers : List Handler
  distinct : handlers.Nodup
  deriving DecidableEq

/-- The key is one of those that the handler runs under. -/
def Delivery.guards (d : Delivery) (k : String) (h : Handler) : Bool :=
  d.explicit == some k || h.declared == some k

/-- The handlers that run under a key: all of them for the explicit one. -/
def Delivery.guarded (d : Delivery) (k : String) : List Handler :=
  d.handlers.filter (d.guards k)

/-! ## Lanes and chains -/

structure Job where
  number : Nat
  delivery : Delivery
  checked : List String
  touched : Bool
  current : Option Handler
  todo : List Handler

/-- What a lane is doing. -/
inductive Activity where
  | idle
  | running (j : Job)
  /-- The dispatch is over, and the keys that no step consumed are being written. -/
  | settling (keys : List String)

/-- A serial actor. The keys that are checked but not written yet outlive a job. -/
structure Lane where
  pending : List String
  activity : Activity

/-- A chain of synchronous calls makes its calls, or is over and takes its keys back. -/
inductive ChainPhase where
  | calling
  | releasing (left : List String) (released : Bool)

structure Chain where
  lane : String
  number : Nat
  delivery : Delivery
  handler : Handler
  keys : List String
  phase : ChainPhase

/-- A relay on its way to the lane that owns the instance. -/
structure Handover where
  job : Job
  keys : List String

structure Committed where
  number : Nat
  delivery : Delivery
  handler : Handler
  deriving DecidableEq

/-- The work was done under the key. -/
def Committed.under (e : Committed) (k : String) : Bool := e.delivery.guards k e.handler

structure Marker where
  inst : String
  keys : List String
  deriving DecidableEq

/-- The tables, the lanes of all replicas, and what was committed so far. -/
structure World where
  inbox : String → Bool
  /-- The rows of `inflight_sync_chain`. -/
  markers : List Marker
  lanes : String → Lane
  chains : String → Option Chain
  transit : List Handover
  scanned : List Marker
  next : Nat
  effects : List Committed

/-- Nothing was delivered yet. -/
def World.initial : World where
  inbox _ := false
  markers := []
  lanes _ := ⟨[], .idle⟩
  chains _ := none
  transit := []
  scanned := []
  next := 0
  effects := []

/-! ## The inbox -/

inductive Check where
  | first
  | duplicate
  | inDoubt
  | unavailable
  deriving DecidableEq

namespace World

def held (a : World) (k : String) : Bool := a.markers.any fun m => m.keys.contains k

/-- What the store holds for a key. -/
def check (a : World) (k : String) : Check :=
  if a.inbox k then if a.held k then .inDoubt else .duplicate else .first

def Answers (a : World) (k : String) (c : Check) : Prop := c = .unavailable ∨ c = a.check k

def Free (a : World) (keys : List String) : Prop := keys.Nodup ∧ ∀ k ∈ keys, a.inbox k = false

/-- Insert rows. -/
def record (a : World) (keys : List String) : World :=
  { a with inbox := fun k => keys.contains k || a.inbox k }

/-- Delete rows. -/
def forget (a : World) (keys : List String) : World :=
  { a with inbox := fun k => !keys.contains k && a.inbox k }

def clear (a : World) (i : String) : World :=
  { a with markers := a.markers.filter fun m => m.inst != i }

def setLane (a : World) (l : String) (lane : Lane) : World :=
  { a with lanes := Function.update a.lanes l lane }

def setChain (a : World) (i : String) (c : Option Chain) : World :=
  { a with chains := Function.update a.chains i c }

def addEffect (a : World) (e : Committed) : World := { a with effects := a.effects ++ [e] }

/-- The lanes of a replica are gone, with their pending keys and their chains. -/
def crash (a : World) (dead : String → Bool) : World :=
  { a with
    lanes := fun l => if dead l then ⟨[], .idle⟩ else a.lanes l
    chains := fun i => (a.chains i).filter fun c => !dead c.lane }

end World

/-! ## Steps of a dispatch -/

def Delivery.job (d : Delivery) (n : Nat) : Job := ⟨n, d, [], false, none, d.handlers⟩

/-- The dispatch ends well: what no step consumed is written. -/
def Lane.settle (lane : Lane) : Lane := ⟨[], .settling lane.pending⟩

def Lane.fail (lane : Lane) (j : Job) : Lane :=
  ⟨if j.touched then [] else lane.pending, .idle⟩

/-- A key is checked: an absent one is pending from now on, a recorded one leaves the lane as `skip`
says, and any other answer refuses the delivery. -/
def Lane.observe (lane : Lane) (k : String) (c : Check) (go : Job) (skip : Lane) : Lane :=
  match c with
  | .first => ⟨lane.pending ++ [k],
      .running { go with checked := go.checked ++ [k], touched := true }⟩
  | .duplicate => skip
  | .inDoubt | .unavailable => ⟨[], .idle⟩

def Job.enter (j : Job) (h : Handler) (rest : List Handler) : Job :=
  { j with current := some h, todo := rest }

def Job.leave (j : Job) : Job := { j with current := none }

def Job.skip (j : Job) (rest : List Handler) : Job := { j with touched := true, todo := rest }

/-- The lane that owns the instance starts on a relay. -/
def Handover.resume (q : Handover) : Job :=
  { q.job with checked := [], touched := !q.keys.isEmpty }

def Job.committed (j : Job) (h : Handler) : Committed := ⟨j.number, j.delivery, h⟩

def Chain.committed (c : Chain) : Committed := ⟨c.number, c.delivery, c.handler⟩

/-- What can happen. -/
inductive Event where
  | begin (lane : String) (d : Delivery) (c : Check)
  | enter (lane : String) (c : Check)
  | commit (lane : String)
  | rollback (lane : String)
  | silent (lane : String)
  | fail (lane : String)
  | finish (lane : String)
  | settle (lane : String)
  | panic (lane : String)
  | crash (dead : String → Bool)
  | handOver (lane : String)
  | takeOver (lane : String) (q : Handover)
  | lose (q : Handover)
  | launch (lane inst : String)
  | chainCommit (inst : String)
  | chainFail (inst : String)
  | chainForget (inst : String)
  | chainEnd (inst : String)
  | scan
  | sweep (m : Marker)

/-- **One atomic step.** -/
inductive Step : World → Event → World → Prop where
  | beginPlain {a : World} (l : String) (d : Delivery) (hidle : (a.lanes l).activity = .idle)
      (hkey : d.explicit = none) :
      Step a (.begin l d .first) { a.setLane l ⟨(a.lanes l).pending, .running (d.job a.next)⟩ with
        next := a.next + 1 }
  | beginKeyed {a : World} (l : String) (d : Delivery) (k : String) (c : Check)
      (hidle : (a.lanes l).activity = .idle) (hkey : d.explicit = some k) (hc : a.Answers k c) :
      Step a (.begin l d c)
        { a.setLane l ((a.lanes l).observe k c (d.job a.next) (a.lanes l).settle) with
          next := a.next + 1 }
  | enterPlain {a : World} (l : String) (j : Job) (h : Handler) (rest : List Handler)
      (hlane : (a.lanes l).activity = .running j) (hcur : j.current = none)
      (htodo : j.todo = h :: rest) (hkey : ∀ k, h.declared = some k → k ∈ j.checked) :
      Step a (.enter l .first) (a.setLane l ⟨(a.lanes l).pending, .running (j.enter h rest)⟩)
  | enterKeyed {a : World} (l : String) (j : Job) (h : Handler) (rest : List Handler) (k : String)
      (c : Check) (hlane : (a.lanes l).activity = .running j) (hcur : j.current = none)
      (htodo : j.todo = h :: rest) (hkey : h.declared = some k) (hnew : k ∉ j.checked)
      (hc : a.Answers k c) :
      Step a (.enter l c) (a.setLane l ((a.lanes l).observe k c (j.enter h rest)
        ⟨(a.lanes l).pending, .running (j.skip rest)⟩))
  | commit {a : World} (l : String) (j : Job) (h : Handler)
      (hlane : (a.lanes l).activity = .running j) (hcur : j.current = some h)
      (hfree : a.Free (a.lanes l).pending) :
      Step a (.commit l) (((a.record (a.lanes l).pending).setLane l
        ⟨[], .running j.leave⟩).addEffect
        (j.committed h))
  /-- The transaction fails, on a key that is already there or otherwise; its keys are gone. -/
  | rollback {a : World} (l : String) (j : Job) (h : Handler)
      (hlane : (a.lanes l).activity = .running j) (hcur : j.current = some h) :
      Step a (.rollback l) (a.setLane l ⟨[], .idle⟩)
  /-- The handler is dead-lettered, or ends with nothing to commit. -/
  | silent {a : World} (l : String) (j : Job) (h : Handler)
      (hlane : (a.lanes l).activity = .running j) (hcur : j.current = some h) :
      Step a (.silent l) (a.setLane l ⟨(a.lanes l).pending, .running j.leave⟩)
  | fail {a : World} (l : String) (j : Job) (hlane : (a.lanes l).activity = .running j) :
      Step a (.fail l) (a.setLane l ((a.lanes l).fail j))
  | finish {a : World} (l : String) (j : Job) (hlane : (a.lanes l).activity = .running j)
      (hcur : j.current = none) (htodo : j.todo = []) (hsome : j.delivery.handlers ≠ []) :
      Step a (.finish l) (a.setLane l (if j.touched then (a.lanes l).settle
        else ⟨(a.lanes l).pending, .idle⟩))
  | settle {a : World} (l k : String) (ks : List String)
      (hlane : (a.lanes l).activity = .settling (k :: ks)) :
      Step a (.settle l) ((a.record [k]).setLane l ⟨(a.lanes l).pending, .settling ks⟩)
  /-- The write fails; the dispatch has succeeded all the same. -/
  | settleLost {a : World} (l k : String) (ks : List String)
      (hlane : (a.lanes l).activity = .settling (k :: ks)) :
      Step a (.settle l) (a.setLane l ⟨(a.lanes l).pending, .settling ks⟩)
  | settled {a : World} (l : String) (hlane : (a.lanes l).activity = .settling []) :
      Step a (.settle l) (a.setLane l ⟨(a.lanes l).pending, .idle⟩)
  /-- The actor catches the unwind and goes on; the pending keys stay. -/
  | panic {a : World} (l : String) (j : Job) (hlane : (a.lanes l).activity = .running j) :
      Step a (.panic l) (a.setLane l ⟨(a.lanes l).pending, .idle⟩)
  | crash {a : World} (dead : String → Bool) : Step a (.crash dead) (a.crash dead)
  | handOver {a : World} (l : String) (j : Job) (h : Handler)
      (hlane : (a.lanes l).activity = .running j) (hcur : j.current = some h)
      (hone : j.delivery.handlers = [h]) :
      Step a (.handOver l) { a.setLane l ⟨[], .idle⟩ with
        transit := a.transit ++ [⟨j, (a.lanes l).pending⟩] }
  | takeOver {a : World} (l : String) (q : Handover) (pre post : List Handover)
      (hidle : (a.lanes l).activity = .idle) (hq : a.transit = pre ++ q :: post) :
      Step a (.takeOver l q)
        { a.setLane l ⟨(a.lanes l).pending ++ q.keys, .running q.resume⟩ with
          transit := pre ++ post }
  | lose {a : World} (q : Handover) (pre post : List Handover)
      (hq : a.transit = pre ++ q :: post) :
      Step a (.lose q) { a with transit := pre ++ post }
  /-- A chain writes its keys and its marker before its first call. -/
  | launch {a : World} (l i : String) (j : Job) (h : Handler)
      (hlane : (a.lanes l).activity = .running j) (hcur : j.current = some h)
      (hone : j.delivery.handlers = [h]) (hnew : a.chains i = none)
      (hfree : a.Free (a.lanes l).pending) :
      Step a (.launch l i) { ((a.record (a.lanes l).pending).setLane l ⟨[], .idle⟩).setChain i
          (some ⟨l, j.number, j.delivery, h, (a.lanes l).pending, .calling⟩) with
        markers := (a.clear i).markers ++ [⟨i, (a.lanes l).pending⟩] }
  | chainCommit {a : World} (i : String) (c : Chain) (hchain : a.chains i = some c)
      (hphase : c.phase = .calling) :
      Step a (.chainCommit i) (((a.clear i).setChain i none).addEffect c.committed)
  /-- The chain ends with nothing persisted. -/
  | chainFail {a : World} (i : String) (c : Chain) (hchain : a.chains i = some c)
      (hphase : c.phase = .calling) :
      Step a (.chainFail i) (a.setChain i (some { c with phase := .releasing c.keys true }))
  /-- A key is taken back; `forget` says whether there was a row. -/
  | chainForget {a : World} (i k : String) (ks : List String) (released : Bool) (c : Chain)
      (hchain : a.chains i = some c) (hphase : c.phase = .releasing (k :: ks) released) :
      Step a (.chainForget i) ((a.forget [k]).setChain i
        (some { c with phase := .releasing ks (released && a.inbox k) }))
  | chainForgetLost {a : World} (i k : String) (ks : List String) (released : Bool) (c : Chain)
      (hchain : a.chains i = some c) (hphase : c.phase = .releasing (k :: ks) released) :
      Step a (.chainForget i) (a.setChain i (some { c with phase := .releasing ks false }))
  | chainEnd {a : World} (i : String) (c : Chain) (hchain : a.chains i = some c)
      (hphase : c.phase = .releasing [] true) :
      Step a (.chainEnd i) ((a.clear i).setChain i none)
  /-- The marker stays for the sweep, because of a key or because its own delete failed. -/
  | chainEndMarked {a : World} (i : String) (released : Bool) (c : Chain)
      (hchain : a.chains i = some c) (hphase : c.phase = .releasing [] released) :
      Step a (.chainEnd i) (a.setChain i none)
  | scan {a : World} : Step a .scan { a with scanned := a.markers }
  | sweep {a : World} (m : Marker) (hm : m ∈ a.scanned) :
      Step a (.sweep m) ((a.forget m.keys).clear m.inst)

end Sutra.Inbox
