import Sutra.Executor.Node

/-!
# Passes of a stateful instance

An instance runs in passes: the first one starts at a start event, and each later one resumes the
suspended instance.

* `executeStatefulFrom`, `resumeInner`: the two kinds.
* `driveStateful` runs the pass to its next quiescent point and classifies it: suspended, completed,
  or failed.
* `ghostWalk`: a resume first walks *ghost* tokens over the completed part of the graph so that
  converging gateways get back their arrivals.
-/

namespace Sutra

variable {ω : Type}

/-! ## Results -/

structure Suspended where
  instanceId : String
  waitingNodes : List String
  completedNodes : List String
  vars : Variables
  startNode : Option String
  timerWaits : List TimerWait
  detachedReply : Bool
  coverageProgress : SortedMap String Nat
  retryAttempts : SortedMap String Nat
  retryBackoff : SortedMap String String
  freshWaits : List String

/-- How a pass ended. -/
inductive StatefulExecResult where
  | completed (instanceId : String) (outputs : Variables) (visitedNodes : List String)
  | suspended (s : Suspended)

def signalToError (processId : String) : Signal → Signal
  | .bpmnError source code => fatalDiag Codes.runtimeErrorUncaught
      (s!"Activity {source} threw BPMN error {code} but no boundary event or event " ++
        "sub-process in scope caught it")
  | .txCancel => fatalDiag Codes.runtimeUnexpected
      s!"Process {processId} reached a cancel end event outside a <bpmn:transaction> scope"
  | sig => sig

/-- What completed before this pass and during it, in order and without repetition. -/
def ExecutionState.completedUnion (s : ExecutionState) : List String :=
  s.completedActivities.foldl (fun acc id => if id ∈ acc then acc else acc ++ [id]) s.priorCompleted

def nonBlank (startNodeId : Option String) : Option String :=
  startNodeId.filter fun s => !Text.isBlank s

/-- The snapshot of a scope whose tokens are all parked. -/
def ExecutionState.suspendedAs (st : ExecutionState) (vars : Variables)
    (startNodeId : Option String) : Suspended where
  instanceId := st.instanceId
  waitingNodes := st.waiting
  completedNodes := st.completedUnion
  vars := vars
  startNode := nonBlank startNodeId
  timerWaits := st.timerWaits
  detachedReply := st.detachedReply
  coverageProgress := st.pathProgress
  retryAttempts := st.retryAttempts
  retryBackoff := st.retryBackoff
  freshWaits := st.freshWaits

namespace TokenExecutor

variable (ex : TokenExecutor ω)

open Exec

def markCovered (path : CoveragePath) (metric : CoverageMetricStore ω) : Exec ω Unit := do
  let st ← state
  let deployment := st.deployment.value
  match ex.splitInjectedSubPath path.id with
  | some (routeUrn, segmentProcess) =>
    let _ ← callOut (metric.writeFragment deployment routeUrn segmentProcess st.instanceId)
    pure ()
  | none =>
    match ← callOut (metric.markPathCovered deployment path.id) with
    | .ok true => notify (.pathCovered path.id)
    | _ => pure ()

def markPath (path : CoveragePath) (metric : CoverageMetricStore ω) : Exec ω Unit := do
  let st ← state
  if (st.pathProgress.get path.id).getD 0 ≠ path.flows.length then pure ()
  else ex.markCovered path metric

def markCoverage : Exec ω Unit := do
  let p ← process
  match ex.coverageMetricStore with
  | none => pure ()
  | some metric => Prog.forEach p.coveragePaths fun path => ex.markPath path metric

def reportFailed : Signal → Exec ω Unit
  | .fatal e => notify (.instanceFailed e.toDiagnostic)
  | _ => pure ()

def failPass {α : Type} (sig : Signal) : Exec ω α := do
  reportFailed sig
  fail sig

/-- Classify a pass whose work list is empty: a parked branch suspends it, otherwise an end event
has to have been reached. -/
def classify (startNodeId : Option String) : Exec ω StatefulExecResult := do
  let st ← state
  let current ← vars
  if st.waiting ≠ [] then
    notify .instanceSuspended
    pure (.suspended (st.suspendedAs current startNodeId))
  else if !st.reachedEnd then
    let processId := st.process.id
    failPass (fatalDiag Codes.runtimeUnexpected
      s!"Process {processId} neither reached an end event nor suspended at a wait state")
  else
    ex.markCoverage
    notify .instanceCompleted
    pure (.completed st.instanceId st.endOutputs st.visited)

/-- **Run to the next quiescent point and classify it.** -/
def driveStateful (fuel : Nat) (startNodeId : Option String) : Exec ω StatefulExecResult := do
  match ← Prog.attempt (ex.drain fuel .top) with
  | .error sig =>
    let p ← process
    failPass (signalToError p.id sig)
  | .ok _ => ex.classify startNodeId

def startOf (p : ProcessDefinition) (startNodeId : Option String) : Except SutraError String :=
  match nonBlank startNodeId with
  | some s => .ok s
  | none => p.startEvent.map Node.id

def openContext (p : ProcessDefinition) (instanceId : String) (deployment : DeploymentId)
    (labels : Labels) (initial : Variables) : Exec ω Unit :=
  Prog.modify fun m =>
    { m with world := { m.world with ctx := ⟨deployment, labels, instanceId, p.id, initial⟩ } }

/-- **The first pass of an instance.** -/
def executeStatefulFrom (fuel : Nat) (p : ProcessDefinition) (initial : Variables)
    (deployment : DeploymentId) (labels : Labels) (startNodeId : Option String) :
    Exec ω StatefulExecResult := do
  let instanceId ← callOut ex.uuidSupplier
  openContext p instanceId deployment labels initial
  notify .instanceStarted
  modifyState fun _ => .new p deployment labels instanceId
  let start ← liftLookup (startOf p startNodeId)
  modifyState (·.pushWork start)
  ex.driveStateful fuel startNodeId

end TokenExecutor

/-! ## Resumes -/

inductive ResumeEntry where
  /-- The wait is satisfied: the token leaves it along its outgoing flows. -/
  | leave (node : String)
  /-- The node has to run: a fired boundary's host, a retry, a delivered failure. -/
  | run (node : String)

def ResumeEntry.node : ResumeEntry → String
  | .leave n | .run n => n

structure ResumeRequest where
  process : ProcessDefinition
  instanceId : String
  completedNodes : List String
  priorVariables : Variables
  satisfiedWaitNode : String
  relayVariables : Variables
  deployment : DeploymentId
  labels : Labels
  startNodeId : Option String
  priorWaiting : List String
  priorCoverage : SortedMap String Nat
  priorRetryAttempts : SortedMap String Nat
  priorRetryBackoff : SortedMap String String
  firedTimer : Option FiredTimer
  channelCallFailure : Option ChannelCallFailure
  explicitRedrive : Bool

def raceSiblings (p : ProcessDefinition) (node : String) : List String :=
  p.nodes.flatMap fun
    | .eventBasedGateway id =>
      let arms := (p.outgoing id).map (·.targetRef)
      if node ∈ arms then arms.filter (· ≠ node) else []
    | _ => []

namespace ResumeRequest

variable (q : ResumeRequest)

def isChannelCall : Bool :=
  match q.process.node q.satisfiedWaitNode with
  | .ok (.serviceTask _ implementation _ _) => Text.startsWith channelCallPrefix implementation
  | _ => false

/-- Whether the resume re-drives a retried task: told by the caller for a channel call, inferred
from the snapshot for a registered task. -/
def retryRedrive : Bool :=
  if q.isChannelCall then q.explicitRedrive
  else q.firedTimer.isNone && q.priorRetryAttempts.contains q.satisfiedWaitNode &&
    (q.priorWaiting.contains q.satisfiedWaitNode || !q.completedNodes.contains q.satisfiedWaitNode)

def failureDelivery : Bool := q.channelCallFailure.isSome

/-- Where the token re-enters the graph. -/
def entry : ResumeEntry :=
  match q.firedTimer with
  | some fired => .run fired.hostId
  | none =>
    if q.retryRedrive || q.failureDelivery then .run q.satisfiedWaitNode
    else .leave q.satisfiedWaitNode

/-- The node itself counts as completed when the token leaves it. -/
def satisfies : Bool := q.firedTimer.isNone && !q.retryRedrive && !q.failureDelivery

/-- The completed nodes the reconstruction walk may follow, in order and without repetition. -/
def seedCompleted (s : ExecutionState) : ExecutionState :=
  let s := q.completedNodes.foldl (fun s n => s.pushPriorCompleted n) s
  if q.satisfies then s.pushPriorCompleted q.satisfiedWaitNode else s

def seedAttempts : SortedMap String Nat :=
  if q.isChannelCall && q.satisfies then q.priorRetryAttempts.erase q.satisfiedWaitNode
  else q.priorRetryAttempts

/-- The backoff markers carried forward, minus the one this resume consumes. -/
def seedBackoff : SortedMap String String :=
  if q.retryRedrive || (q.isChannelCall && q.satisfies) then
    q.priorRetryBackoff.erase q.satisfiedWaitNode
  else q.priorRetryBackoff

/-- The state a resume starts from, before any token moves. -/
def seededState : ExecutionState :=
  let s := q.seedCompleted (.new q.process q.deployment q.labels q.instanceId)
  { s with
    retryAttempts := q.seedAttempts
    retryBackoff := q.seedBackoff
    channelCallFailure := q.channelCallFailure
    firedTimer := q.firedTimer
    priorWaiting := q.priorWaiting }.seedCoverageProgress q.priorCoverage

def cancelledTimers : List String :=
  let host := (q.firedTimer.map (·.hostId)).getD q.satisfiedWaitNode
  q.process.nodes.filterMap fun
    | .boundaryEvent id attachedToRef .timer _ _ _ _ =>
      if attachedToRef = host ∧ id ≠ q.satisfiedWaitNode then some id else none
    | _ => none

def consumed : List String :=
  match q.entry with
  | .leave node => node :: raceSiblings q.process node
  | .run node => [node]

end ResumeRequest

namespace ExecutionState

variable (s : ExecutionState)

def beginGhost (entryNode start : String) : ExecutionState :=
  { s with ghost := true, resumeEntry := some entryNode, work := s.work ++ [start] }

def endGhost : ExecutionState := { s with ghost := false, work := [] }

def carryOver (consumed priorWaiting : List String) : ExecutionState :=
  priorWaiting.foldl (fun s n =>
    if n ∉ consumed ∧ n ∉ s.waiting then { s with waiting := s.waiting ++ [n] } else s) s

end ExecutionState

namespace TokenExecutor

variable (ex : TokenExecutor ω)

open Exec

/-- **Phase 1**: move ghosts until none is left. A ghost that cannot be routed is dropped. -/
def ghostWalk : Nat → Exec ω Unit
  | 0 => fail .outOfFuel
  | fuel + 1 => do
    match ← popWork with
    | none => pure ()
    | some nodeId =>
      let _ ← Prog.attempt (ex.runNode ⟨fuel, ex.drain fuel⟩ nodeId)
      ghostWalk fuel

/-- Inject the live token. -/
def enter (p : ProcessDefinition) : ResumeEntry → Exec ω Unit
  | .leave node => do
    let type := match p.node node with
      | .ok n => n.nodeType
      | .error _ => ""
    notify (.tokenLeft node type)
    modifyState (·.visit node)
    modifyState (·.enqueueOutgoing node)
  | .run node => modifyState (·.pushWork node)

/-- Everything of a resume before its live token moves: seed the state, walk the ghosts, carry the
frontier over, inject the token. -/
def prepareResume (fuel : Nat) (q : ResumeRequest) : Exec ω Unit := do
  openContext q.process q.instanceId q.deployment q.labels (q.priorVariables.merge q.relayVariables)
  notify .instanceResumed
  modifyState fun _ => q.seededState
  Prog.forEach q.cancelledTimers fun id => notify (.timerCancelled id)
  let start ← liftLookup (startOf q.process q.startNodeId)
  modifyState (·.beginGhost q.entry.node start)
  ex.ghostWalk fuel
  modifyState (·.endGhost)
  modifyState (·.carryOver q.consumed q.priorWaiting)
  enter q.process q.entry

/-- **A resume.** -/
def resumeInner (fuel : Nat) (q : ResumeRequest) : Exec ω StatefulExecResult := do
  if Text.isBlank q.satisfiedWaitNode then
    fail (fatalDiag Codes.runtimeUnexpected
      "resume() requires the id of the wait node being satisfied")
  else
    ex.prepareResume fuel q
    ex.driveStateful fuel q.startNodeId

end TokenExecutor

/-! ## The entry points -/

def Suspended.request (s : Suspended) (p : ProcessDefinition) (deployment : DeploymentId)
    (labels : Labels) (node : String) (relay : Variables) : ResumeRequest where
  process := p
  instanceId := s.instanceId
  completedNodes := s.completedNodes
  priorVariables := s.vars
  satisfiedWaitNode := node
  relayVariables := relay
  deployment := deployment
  labels := labels
  startNodeId := s.startNode
  priorWaiting := s.waitingNodes
  priorCoverage := s.coverageProgress
  priorRetryAttempts := s.retryAttempts
  priorRetryBackoff := s.retryBackoff
  firedTimer := none
  channelCallFailure := none
  explicitRedrive := false

namespace TokenExecutor

variable (ex : TokenExecutor ω) (fuel : Nat) (p : ProcessDefinition) (deployment : DeploymentId)
  (labels : Labels) (s : Suspended)

def resume (node : String) (relay : Variables) : Exec ω StatefulExecResult :=
  ex.resumeInner fuel (s.request p deployment labels node relay)

/-- The backoff timer of a channel call came due. -/
def resumeRetryRedrive (node : String) : Exec ω StatefulExecResult :=
  ex.resumeInner fuel { s.request p deployment labels node .empty with explicitRedrive := true }

def resumeChannelCallFailure (node code message reason : String) : Exec ω StatefulExecResult :=
  ex.resumeInner fuel { s.request p deployment labels node .empty with
    channelCallFailure := some ⟨reason, node, code, message⟩ }

def firedTimerOf (nodeId : String) : Except ExecError (Option FiredTimer) :=
  match p.node nodeId with
  | .ok (.boundaryEvent id attachedToRef .timer _ _ interrupting timer) =>
    .ok (some ⟨id, attachedToRef, interrupting, timer⟩)
  | .ok (.timerCatchEvent _ _) => .ok none
  | .ok other =>
    let type := other.nodeType
    .error (.diag Codes.runtimeUnexpected
      (s!"resume_timer() fired node '{nodeId}' is a {type} — not a timer boundary or " ++
        "an intermediate timer catch event"))
  | .error e => .error (.diagnostic e)

def resumeTimer (nodeId dueAt : String) : Exec ω StatefulExecResult := do
  let fired ← Exec.liftEval (firedTimerOf p nodeId)
  Exec.notify (.timerFired nodeId dueAt)
  ex.resumeInner fuel { s.request p deployment labels nodeId .empty with firedTimer := fired }

end TokenExecutor

end Sutra
