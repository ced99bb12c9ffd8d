import Sutra.Dispatch.Durable

/-!
# Synchronous call chains

When a pass that somebody waits for reaches a synchronous channel call, nothing is parked: the
instance stays in memory, the request goes out at once, and every answer runs one more pass on it.

* `InlineChain`: the instance in memory, and `resumeInMemory` the next pass on it.
* `commitChain`: the one commit at the end, with all that it accumulated.
-/

namespace Sutra.Chain

open Store Dispatch

variable {ω : Type}

/-! ## The chain -/

inductive CallResult where
  | answered (vars : Variables)
  /-- An answer that the call's own contract rejects. -/
  | refused (d : SutraError)
  | timedOut
  | failed (d : SutraError)

structure StoredChain where
  prior : Stored Body
  satisfied : List String
  relayAlias : Option AliasKey

structure InlineChain where
  /-- The instance as its last pass left it. -/
  state : Suspended
  pendingTimers : List TimerWait
  emissions : List Emission
  aliasRows : List AliasRecord
  /-- The calls that are not answered yet. -/
  inFlight : List String
  stored : Option StoredChain
  /-- The waits that are new since the stored snapshot and still waiting. -/
  freshWaits : List String
  requests : List Emission
  /-- The keys each wait had in the pass that parked it. A history variable: nothing reads it. -/
  parked : String → List AliasKey

/-- A dispatcher that can call synchronously. `inline` says whether the request of a fresh wait
goes out inline, `allowed` how long a timer boundary allows from now. -/
structure Caller (ω : Type) extends Dispatcher ω where
  inline : String → Variables → Bool
  allowed : TimerDefinition → Option TimerWait → Option Nat

structure Env (ω : Type) where
  fuel : Nat
  labels : Labels
  machine : Machine ω
  now : String

/-- The machine of a pass: what an earlier step left in the emission sink is discarded. -/
def Env.opened (e : Env ω) : Machine ω :=
  { e.machine with world := { e.machine.world with emissions := [] } }

def isSend : EmissionKind → Bool
  | .send => true
  | .reply => false

namespace InlineChain

/-- Split the emissions of a pass: the requests of `sites` go out, the rest is carried. -/
def issueInlineCalls (c : InlineChain) (drained : List Emission) (sites : List String) :
    InlineChain :=
  drained.foldl (fun c e =>
    if isSend e.kind ∧ e.nodeId ∈ sites then
      { c with
        inFlight := if e.nodeId ∈ c.inFlight then c.inFlight else c.inFlight ++ [e.nodeId]
        requests := c.requests ++ [e] }
    else { c with emissions := c.emissions ++ [e] }) c

/-- Take over what a pass left. -/
def absorb (d : Caller ω) (p : ProcessDefinition) (c : InlineChain) (satisfied : String)
    (s : Suspended) : InlineChain :=
  let resolved := resolvedWaitsFor p satisfied
  { c with
    state := { s with instanceId := c.state.instanceId, startNode := c.state.startNode }
    pendingTimers := c.pendingTimers.filter (fun t => t.nodeId ∉ resolved) ++ s.timerWaits
    stored := c.stored.map fun st => { st with satisfied := pushNew st.satisfied resolved }
    freshWaits := (pushNew c.freshWaits s.freshWaits).filter (· ∈ s.waitingNodes)
    parked := parkedAfter s.freshWaits (d.expressions.parkKeys p s.vars) c.parked }

end InlineChain

/-- How a result leaves the chain. -/
inductive Outcome where
  /-- Calls are still out. -/
  | more (c : InlineChain)
  | park (c : InlineChain)
  | complete (emissions : List Emission)
  | fail

/-- The snapshot a failure is offered to: the attempts made inline have spent the budget. -/
def lastAttempt (p : ProcessDefinition) (nodeId : String) (s : Suspended) : Suspended :=
  match p.retryPolicy nodeId with
  | some policy =>
    { s with retryAttempts := s.retryAttempts.insert nodeId (policy.maxAttempts - 1) }
  | none => s

def noAnswer (nodeId : String) : SutraError :=
  ⟨Codes.dispatchChannelCallTimeout,
    s!"synchronous channel-call task '{nodeId}' got no answer within its <q:timeout>"⟩

def refusal (nodeId : String) (d : SutraError) : String :=
  s!"the answer to channel-call task '{nodeId}' was refused by the call's own contract ({d.code})"

namespace Caller

variable (d : Caller ω) (p : ProcessDefinition)

def callTimeouts (nodeId : String) (pending : List TimerWait) : List (String × Nat) :=
  p.nodes.filterMap fun
    | .boundaryEvent id attachedToRef .timer _ _ true (some timer) =>
      if attachedToRef = nodeId then
        (d.allowed timer (pending.find? (·.nodeId == id))).map fun allowed => (id, allowed)
      else none
    | _ => none

def inlineTimeoutBoundary (nodeId : String) (pending : List TimerWait) : Option String :=
  ((d.callTimeouts p nodeId pending).foldl (fun best t =>
    match best with
    | none => some t
    | some b => if t.2 < b.2 then some t else some b) none).map Prod.fst

def resumeChainPass (c : InlineChain) (wakeup : Wakeup) (s : Suspended) (e : Env ω) : Outcome :=
  match d.executor.wake e.fuel p d.deployment e.labels s wakeup e.opened with
  | (.error _, _) => .fail
  | (.ok (.completed _ _ _), m) => .complete (c.emissions ++ m.world.emissions)
  | (.ok (.suspended s), m) =>
    let c := (c.absorb d p (satisfiedNode wakeup) s).issueInlineCalls m.world.emissions
      (s.freshWaits.filter fun n => d.inline n s.vars)
    if c.inFlight = [] then .park c else .more c

/-- What a result asks the executor to do on the snapshot it is given; nothing when the flow just
fails. -/
def chainPass (c : InlineChain) (nodeId now : String) : CallResult → Option (Wakeup × Suspended)
  | .answered vars => some (.relay nodeId vars, c.state)
  | .timedOut =>
    match d.inlineTimeoutBoundary p nodeId c.pendingTimers, p.retryPolicy nodeId with
    | some boundary, none =>
      let dueAt := ((c.pendingTimers.find? (·.nodeId == boundary)).map (·.dueAt)).getD now
      some (.timer boundary dueAt, c.state)
    | _, _ => failurePass (noAnswer nodeId) (noAnswer nodeId).message
  | .refused e => failurePass e (refusal nodeId e)
  | .failed e => failurePass e e.message
where
  failurePass (e : SutraError) (reason : String) : Option (Wakeup × Suspended) :=
    if (p.retryPolicy nodeId).isSome || errorIsCaught p nodeId e.code then
      some (.channelCallFailure nodeId e.code e.message reason, lastAttempt p nodeId c.state)
    else none

/-- **Apply the result of one call to the instance in memory.** -/
def resumeInMemory (c : InlineChain) (nodeId : String) (result : CallResult) (e : Env ω) :
    Outcome :=
  let c := { c with inFlight := c.inFlight.filter (· ≠ nodeId) }
  match d.chainPass p c nodeId e.now result with
  | some (wakeup, s) => d.resumeChainPass p c wakeup s e
  | none => .fail

def launch (s : Suspended) (aliasRows : List AliasRecord) (drained : List Emission) : InlineChain :=
  let c : InlineChain := ⟨s, s.timerWaits, [], aliasRows, [], none, s.freshWaits, [],
    d.expressions.parkKeys p s.vars⟩
  c.issueInlineCalls drained (s.freshWaits.filter fun n => d.inline n s.vars)

def launchStored (prior : Stored Body) (parked : String → List AliasKey) (satisfied : String)
    (relayAlias : Option AliasKey) (s : Suspended) (drained : List Emission) : InlineChain :=
  let c : InlineChain := ⟨s, s.timerWaits, [], [], [],
    some ⟨prior, resolvedWaitsFor p satisfied, relayAlias⟩, s.freshWaits, [],
    parkedAfter s.freshWaits (d.expressions.parkKeys p s.vars) parked⟩
  c.issueInlineCalls drained (s.freshWaits.filter fun n => d.inline n s.vars)

/-- **The one commit of a chain that parks.** -/
def commitChain (c : InlineChain) (t : Tables Body) : Except SutraError (Tables Body) :=
  match d.expressions.waitAliasRows p c.state.vars c.freshWaits with
  | .error e => .error e
  | .ok rows =>
    let records := c.aliasRows ++ rows
    match c.stored with
    | none => .ok (t.writeStepWithTimers (d.parkWrite c.state c.pendingTimers records))
    | some st =>
      let resolved := pushNew st.satisfied c.freshWaits
      .ok (t.commitStep (d.reparkWrite p st.prior resolved c.state c.freshWaits c.pendingTimers
        records st.relayAlias) d.owner)

end Caller

/-! ## The durable path -/

/-- Whether the durable path takes a wakeup up: the wait is pending, and a failure or a fired
boundary does not find its host in a backoff window. -/
def admits (p : ProcessDefinition) (waiting : List String) (backoff : SortedMap String String)
    (w : Wakeup) : Bool :=
  let host := waitHost p (satisfiedNode w)
  waiting.contains host && match w with
    | .channelCallFailure _ _ _ _ => !backoff.contains host
    | .timer nodeId _ => nodeId == host || !backoff.contains host
    | _ => true

/-- How the durable path ends an instance. -/
structure Retention where
  retain : Bool
  now : Instant

end Sutra.Chain
