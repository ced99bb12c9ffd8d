import Sutra.Executor.Scope

/-!
# Running a node

* `runNode` moves one token: it looks the node up, does what its kind asks for, and fires the flows
  the token leaves through.
* `ghostStep`: in a resume's reconstruction walk the token is a ghost; it moves on or is dropped.
* `drain` empties a work list, routing BPMN errors to the boundary events and event sub-processes
  of the scope. It is the one definition that recurses on the step budget.
-/

namespace Sutra

variable {ω : Type}

def popWork : Exec ω (Option String) :=
  Exec.updateState fun s =>
    match s.work with
    | [] => (none, s)
    | n :: rest => (some n, { s with work := rest })

namespace TokenExecutor

variable (ex : TokenExecutor ω) (r : Nested ω)

open Exec

/-! ## Errors, escalations, links and cancellation -/

/-- **Route a BPMN error**: to a boundary event of its source, else to an event sub-process, which
interrupts the scope, else the scope fails. -/
def routeError (source code : String) : Exec ω Unit := do
  let p ← process
  match findErrorBoundary p source code with
  | some boundaryId =>
    modifyState (·.enqueueOutgoing boundaryId)
    modifyState (·.pushCompleted boundaryId)
    modifyState (·.visit boundaryId)
  | none =>
    match findErrorEventSubProcess p code with
    | some espId =>
      modifyState (·.clearWork)
      match ← liftLookup (p.node espId) with
      | .eventSubProcess _ inner _ => runEventSubProcess r espId inner
      -- the id was taken from an event sub-process and ids are distinct
      | _ => fail (fatalDiag Codes.runtimeUnexpected "not an event sub-process")
    | none =>
      modifyState (·.clearWork)
      fail (fatalDiag Codes.runtimeErrorUncaught
        (s!"Activity {source} threw BPMN error {code} but no boundary event or event " ++
          "sub-process in scope caught it"))

def escalationBoundaries (p : ProcessDefinition) (code : String) : List (String × Bool) :=
  p.nodes.filterMap fun
    | .boundaryEvent id _ .escalation _ escalationCode interrupting _ =>
      if (escalationCode.getD code) = code then some (id, interrupting) else none
    | _ => none

def routeEscalation (code : Option String) : Exec ω Bool := do
  let p ← process
  let fired := escalationBoundaries p (code.getD "")
  Prog.forEach fired fun b => do
    modifyState (·.enqueueOutgoing b.1)
    modifyState (·.visit b.1)
  pure (fired.any (·.2))

def linkCatch (p : ProcessDefinition) (linkName : String) : Option String :=
  p.nodes.findSome? fun
    | .linkCatchEvent id ln => if ln = linkName then some id else none
    | _ => none

def jumpToLinkCatch (iteId : String) (linkName : Option String) : Exec ω Unit := do
  let st ← state
  let linkName := linkName.getD ""
  match linkCatch st.process linkName with
  | some id => modifyState (·.pushWork id)
  | none =>
    let instanceId := st.instanceId
    fail (fatalDiag Codes.runtimeUnexpected
      (s!"Link throw {iteId} on instance {instanceId} found no catch for link '{linkName}' at " ++
        "runtime (should have been caught at load)"))

def cancelBoundary (p : ProcessDefinition) (nodeId : String) : Option String :=
  p.nodes.findSome? fun
    | .boundaryEvent id attachedToRef .cancel _ _ _ _ =>
      if attachedToRef = nodeId then some id else none
    | _ => none

def routeCancelBoundary (nodeId : String) : Exec ω Unit := do
  let p ← process
  match cancelBoundary p nodeId with
  | some boundaryId =>
    modifyState (·.enqueueOutgoing boundaryId)
    modifyState (·.visit boundaryId)
  | none => fail (fatalDiag Codes.runtimeUnexpected
      (s!"Transaction '{nodeId}' was cancelled but has no attached cancel boundary " ++
        "event to route to. Attach a <bpmn:boundaryEvent><bpmn:cancelEventDefinition/> " ++
        "to the transaction."))

/-! ## The reconstruction ghost -/

def caughtBoundaries (s : ExecutionState) (nodeId : String) : List String :=
  s.process.nodes.filterMap fun
    | .boundaryEvent id attachedToRef .error _ _ _ _ =>
      if attachedToRef = nodeId ∧ id ∈ s.priorCompleted then some id else none
    | _ => none

def ghostExits (s : ExecutionState) (nodeId : String) : List SequenceFlow :=
  (if nodeId ∈ s.priorCompleted then s.process.outgoing nodeId else []) ++
    (caughtBoundaries s nodeId).flatMap s.process.outgoing

def decidedArms (s : ExecutionState) (gatewayId : String) : List SequenceFlow :=
  (s.process.outgoing gatewayId).filter fun flow =>
    flow.targetRef ∈ s.priorCompleted ∧ flow.targetRef ∉ s.priorWaiting ∧
      s.resumeEntry ≠ some flow.targetRef

/-- **One step of the reconstruction walk.**  Answers whether the ghost was handled here; a gateway
is not, it runs as it does for a live token. -/
def ghostStep (nodeId : String) (node : Node) : Exec ω Bool := do
  let st ← state
  if st.resumeEntry = some nodeId ∨ nodeId ∈ st.priorWaiting then pure true
  else
    match node with
    | .exclusiveGateway _ _ | .inclusiveGateway _ _ | .parallelGateway _
    | .complexGateway _ _ _ => pure false
    | .eventBasedGateway id =>
      modifyState (·.fireAll (decidedArms st id))
      modifyState (·.visit nodeId)
      pure true
    | .intermediateThrowEvent id .link _ reference =>
      jumpToLinkCatch id reference
      modifyState (·.visit nodeId)
      pure true
    | .startEvent _ | .linkCatchEvent _ _ | .boundaryEvent _ _ _ _ _ _ _
    | .intermediateThrowEvent _ _ _ _ =>
      modifyState (·.enqueueOutgoing nodeId)
      modifyState (·.visit nodeId)
      pure true
    | _ =>
      if nodeId ∉ st.priorCompleted ∧ caughtBoundaries st nodeId = [] then pure true
      else
        modifyState (·.fireAll (ghostExits st nodeId))
        modifyState (·.visit nodeId)
        pure true

/-! ## The node kinds -/

def completeAfter (id : String) (task : Exec ω Unit) : Exec ω Bool := do
  task
  modifyState (·.pushCompleted id)
  modifyState (·.enqueueOutgoing id)
  pure false

def runServiceNode (id implementation : String) (dm : DataMapping) (params : List ParamBinding) :
    Exec ω Bool := do
  let st ← state
  if ← ex.runServiceTask id implementation dm params st.retryParkable then pure true
  else
    modifyState (·.pushCompleted id)
    ex.emitReplyIfBound id
    ex.emitSendIfBound id false
    if st.process.hasContinueReply id then
      modifyState (·.parkFresh id)
      let now ← callOut ex.nowSupplier
      recordTimerWait id now
      modifyState fun s => { s with detachedReply := true }
      pure true
    else
      modifyState (·.enqueueOutgoing id)
      pure false

/-- A user task, a message catch event or a receive task: the token parks, unless a timer boundary
fired on it. -/
def runWaitNode (id : String) : Exec ω Bool := do
  match ← updateState (·.takeFiredTimerFor id) with
  | some fired =>
    if fired.interrupting then
      routeTimerBoundary fired.boundaryId id
      pure false
    else
      modifyState (·.enqueueOutgoing fired.boundaryId)
      modifyState (·.parkAgain id)
      ex.rearmFiredBoundary fired
      pure true
  | none =>
    modifyState (·.parkFresh id)
    ex.scheduleTimerBoundaries id
    pure true

def runTimerCatch (id : String) (timer : TimerDefinition) : Exec ω Bool := do
  modifyState (·.parkFresh id)
  let dueAt ← ex.computeDueAt timer id
  recordTimerWait id dueAt
  pure true

def parkArm (p : ProcessDefinition) (target : String) : Exec ω Unit := do
  modifyState (·.parkFresh target)
  match p.node target with
  | .ok (.timerCatchEvent _ timer) =>
    let dueAt ← ex.computeDueAt timer target
    recordTimerWait target dueAt
  | _ => pure ()

def runEventBasedGateway (id : String) : Exec ω Bool := do
  let p ← process
  Prog.forEach (p.outgoing id) fun flow => ex.parkArm p flow.targetRef
  pure true

/-- An intermediate throw event, by its flavour. -/
def runThrow (nodeId id : String) (kind : ThrowKind) (activityRef reference : Option String) :
    Exec ω Unit := do
  match kind with
  | .compensate =>
    ex.fireCompensation activityRef
    modifyState (·.enqueueOutgoing nodeId)
  | .message =>
    ex.emitSendIfBound id true
    modifyState (·.enqueueOutgoing nodeId)
  | .signal =>
    ex.emitSendIfBound id false
    modifyState (·.enqueueOutgoing nodeId)
  | .escalation =>
    if ← routeEscalation reference then pure () else modifyState (·.enqueueOutgoing nodeId)
  | .link => jumpToLinkCatch id reference
  | .none => modifyState (·.enqueueOutgoing nodeId)

def runTransactionNode (nodeId id : String) (inner : ProcessDefinition) : Exec ω Bool := do
  let cancelled ← ex.runTransactionSubProcess r id inner
  modifyState (·.pushCompleted id)
  if cancelled then
    routeCancelBoundary id
    pure false
  else
    ex.emitReplyIfBound id
    modifyState (·.enqueueOutgoing nodeId)
    pure false

def reachEnd : Exec ω Unit := do
  let current ← vars
  modifyState fun s => { s with reachedEnd := true, endOutputs := current }

/-- What a node does, by its kind. Answers whether the token's leaving is already settled: it
parked, or it was held back at a join. -/
def runNodeKind (nodeId : String) : Node → Exec ω Bool
  | .startEvent _ | .linkCatchEvent _ _ | .boundaryEvent _ _ _ _ _ _ _ => do
    modifyState (·.enqueueOutgoing nodeId)
    pure false
  | .serviceTask id implementation dm params =>
    if Text.startsWith channelCallPrefix implementation then
      ex.runChannelCall id implementation dm params
    else ex.runServiceNode id implementation dm params
  | .dataTask id dm => do
    ex.runDataTask id dm
    modifyState (·.pushCompleted id)
    ex.emitReplyIfBound id
    modifyState (·.enqueueOutgoing nodeId)
    pure false
  | .scriptTask id file => completeAfter id (ex.runScriptTask id file)
  | .businessRuleTask id file => completeAfter id (ex.runBusinessRuleTask id file)
  | .manualTask id => completeAfter id (pure ())
  | .sendTask id => do
    modifyState (·.pushCompleted id)
    ex.emitSendIfBound id true
    modifyState (·.enqueueOutgoing nodeId)
    pure false
  | .userTask id | .messageCatchEvent id | .receiveTask id => ex.runWaitNode id
  | .timerCatchEvent id timer => ex.runTimerCatch id timer
  | .exclusiveGateway id defaultFlowId => do
    ex.handleExclusive id defaultFlowId
    pure false
  | .inclusiveGateway id defaultFlowId => ex.handleInclusive id defaultFlowId
  | .parallelGateway id => handleParallel id
  | .complexGateway id defaultFlowId activationCondition =>
    ex.handleComplex id defaultFlowId activationCondition
  | .callActivity id calledElement => completeAfter id (ex.runCallActivity r id calledElement)
  | .subProcess id inner => completeAfter id (runEmbeddedSubProcess r id inner)
  | .transactionSubProcess id inner => ex.runTransactionNode r nodeId id inner
  | .adHocSubProcess id inner completionCondition =>
    completeAfter id (ex.runAdHocSubProcess r inner completionCondition)
  | .eventSubProcess _ _ _ => pure true
  | .multiInstance id inner loopCardinality loopDataInputRef inputDataItem completionCondition =>
    completeAfter id (ex.runMultiInstance r id inner loopCardinality loopDataInputRef inputDataItem
      completionCondition)
  | .standardLoop id inner loopCondition testBefore loopMaximum =>
    completeAfter id (ex.runStandardLoop r id inner loopCondition testBefore loopMaximum)
  | .intermediateThrowEvent id kind activityRef reference => do
    ex.runThrow nodeId id kind activityRef reference
    pure false
  | .eventBasedGateway id => ex.runEventBasedGateway id
  | .errorEvent id errorCode => fail (.bpmnError id (errorCode.getD ""))
  | .endEvent id => do
    ex.emitReplyIfBound id
    reachEnd
    pure false
  | .terminateEndEvent id => do
    ex.emitReplyIfBound id
    modifyState (·.clearWork)
    reachEnd
    pure false
  | .cancelEndEvent _ => fail .txCancel

def notifyEntered (nodeId nodeType : String) : Exec ω Unit := do
  let st ← state
  if st.ghost then pure () else notify (.tokenEntered nodeId nodeType)

def passNode (nodeId : String) (node : Node) : Exec ω Unit := do
  notifyEntered nodeId node.nodeType
  if ← ex.runNodeKind r nodeId node then pure ()
  else
    notifyLeft nodeId node.nodeType
    modifyState (·.visit nodeId)

/-- **Move one token.** -/
def runNode (nodeId : String) : Exec ω Unit := do
  let st ← state
  let node ← liftLookup (st.process.node nodeId)
  if st.ghost then
    if ← ghostStep nodeId node then pure () else ex.passNode r nodeId node
  else ex.passNode r nodeId node

/-! ## The work list -/

def handleSignal (kind : ScopeKind) (sig : Signal) : Exec ω Bool := do
  let p ← process
  match sig, kind with
  | .bpmnError source code, .top =>
    routeError r source code
    pure true
  | .bpmnError source code, .sub id | .bpmnError source code, .tx id =>
    if errorIsCaught p source code then
      routeError r source code
      pure true
    else fail (.bpmnError id code)
  | .txCancel, .tx _ =>
    modifyState (·.clearWork)
    pure false
  | sig, _ => fail sig

def tokenStep (kind : ScopeKind) (nodeId : String) : Exec ω Bool := do
  match ← Prog.attempt (ex.runNode r nodeId) with
  | .ok () => pure true
  | .error sig => handleSignal r kind sig

/-- Move the first token, and go on with the rest. -/
def drainStep (kind : ScopeKind) : Exec ω Bool := do
  match ← popWork with
  | none => pure false
  | some nodeId => if ← ex.tokenStep r kind nodeId then r.drain kind else pure true

omit r in
/-- **Move tokens until none is left.**  Answers whether a transaction was cancelled. -/
def drain : Nat → ScopeKind → Exec ω Bool
  | 0, _ => fail .outOfFuel
  | fuel + 1, kind => ex.drainStep ⟨fuel, drain fuel⟩ kind

end TokenExecutor

end Sutra
