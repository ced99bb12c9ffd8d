import Sutra.Executor.Value
import Sutra.Lib.Prog
import Sutra.Snapshot.Value

/-!
# The executor and the state of a pass

* `TokenExecutor` collects what the executor is built with. All of it is a parameter here; `ω` is
  the outside world those callbacks may read and change.
* `World` is what every scope of a pass shares: the variables, the stores, what was emitted and
  reported so far, and `ω`.
* `ExecutionState` is one scope's own bookkeeping. A sub-process runs on a fresh one.
* `Exec` programs change both and may stop with a `Signal`.
-/

namespace Sutra

structure DeploymentId where
  value : String
  deriving DecidableEq

def DeploymentId.unresolved : DeploymentId := ⟨"dep-ffffffffffffffffffffffff"⟩

def DeploymentId.isResolved (d : DeploymentId) : Bool := d ≠ unresolved

/-- Transport and grouping labels of an instance. -/
abbrev Labels := SortedMap String String

structure AuthRef where
  scheme : String
  secretRef : String
  header : Option String

structure ResolvedOutboundChannel where
  destination : String
  mode : ReplyMode
  authRef : Option AuthRef

structure CloudEventLite where
  id : String
  source : String
  specVersion : String
  ceType : String
  subject : Option String
  time : Option String
  dataContentType : Option String

/-- Whether an emission answers the caller or sends a message. -/
inductive EmissionKind where
  | reply
  | send

/-- One outbound message handed to the emission sink. -/
structure Emission where
  kind : EmissionKind
  nodeId : String
  instanceId : String
  mode : ReplyMode
  destination : String
  contentType : Option String
  required : Bool
  body : String
  cloudEvent : Option CloudEventLite
  authRef : Option AuthRef
  headers : SortedMap String String

/-- A listener notification. -/
inductive Event where
  | instanceStarted
  | instanceResumed
  | instanceSuspended
  | instanceCompleted
  | instanceFailed (d : SutraError)
  | tokenEntered (nodeId nodeType : String)
  | tokenLeft (nodeId nodeType : String)
  | taskInvoked (taskName : String)
  | taskCompleted (taskName : String)
  | taskFailed (taskName : String) (d : SutraError)
  | replyEmitted (nodeId : String) (mode : ReplyMode) (destination : String)
  | timerScheduled (nodeId dueAt : String)
  | timerCancelled (nodeId : String)
  | timerFired (nodeId dueAt : String)
  | dispatchSkipped (nodeId : String) (defaultCalledElement : Option String)
  | pathCovered (pathId : String)

structure InnerCtx where
  deployment : DeploymentId
  labels : Labels
  instanceId : String
  moduleId : String
  vars : Variables

structure TaskContextView where
  deployment : DeploymentId
  labels : Labels
  instanceId : String
  moduleId : String
  vars : Variables

structure StoreCell where
  data : SortedMap String FeelValue
  rev : Int

/-- An open store transaction: the store it belongs to and its private copy of the rows. -/
structure StoreTx where
  store : String
  pending : SortedMap String FeelValue

structure RowWrite where
  store : String
  key : String
  value : FeelValue

/-- A store operation, as the backend sees it. -/
inductive StoreOp where
  | read
  | write
  | begin
  | commit
  | rollback
  | query

structure StoreKeyQuery where
  lower : String
  upper : Option String
  after : Option String
  rowLimit : Option Nat
  aggregates : List (Option (List String) × Option (List String))

/-- What a key query answers: the value for the target variable, and per aggregate the number of
matching rows whose summed field is not a number. -/
structure StoreQueryResult where
  value : FeelValue
  nonNumeric : List Int

structure CoverageMetricStore (ω : Type) where
  markPathCovered : String → String → ω → Except String Bool × ω
  /-- Record that one segment of a cross-process route completed. -/
  writeFragment : String → String → String → String → ω → Except String Unit × ω
  report : String → ProcessDefinition → ω → Except String FeelValue × ω
  clearPaths : String → ProcessDefinition → ω → Except String Nat × ω

structure RenderModel where
  vars : Variables
  params : Variables
  uuid : String
  now : String
  sourceXml : Option FeelValue

inductive MessageDecodeFailureKind where
  | tooLarge
  | notFound
  | fatal

abbrev TemplateEngine := String → String → RenderModel → Except String String

/-- A decision engine: file key, file contents and inputs to outputs. -/
abbrev DecisionEngine := String → String → Variables → Except String Variables

abbrev TaskFn (ω : Type) := FeelValue → TaskContextView → ω → Except TaskError FeelValue × ω

/-- **The executor**: everything it is built with. -/
structure TokenExecutor (ω : Type) where
  conditionEvaluator : String → Variables → Except ExecError Bool
  valueEvaluator : String → Variables → Except ExecError FeelValue
  tasks : String → Except ExecError (TaskFn ω)
  templateEngines : String → Option TemplateEngine
  templateEngineNames : List String
  decisionEngines : String → Option DecisionEngine
  decisionEngineNames : List String
  templates : String → Option String
  decisions : String → Option String
  scripts : String → Option String
  /-- `serde_json::from_str`, with the text of its error. -/
  parseJson : String → Except String Snapshot.Json
  /-- The decimal of a JSON number. -/
  parseDecimal : String → Option Decimal
  moduleResolver : Option (DeploymentId → String → Option ProcessDefinition)
  processResolver : Option (String → Except ExecError (Option ProcessDefinition))
  outboundChannels : DeploymentId → String → Option ResolvedOutboundChannel
  authResolvers : Option (AuthRef → Bool)
  messageDecodeSeam : Option (DeploymentId → MessageDecodeBinding → String → Option String →
    Variables → Except (MessageDecodeFailureKind × String) (FeelValue × Option FeelValue))
  deploymentConfig : DeploymentId → Option (List (String × String))
  /-- The store a name stands for in a deployment; `none` when no registry is wired. -/
  dataStores : Option (DeploymentId → String → Option String)
  /-- Whether the backend fails an operation on a store, and with which text. -/
  storeFault : StoreOp → String → ω → Option String × ω
  supportsTransactions : String → Bool
  storeQuery : StoreCell → StoreKeyQuery → StoreQueryResult
  coverageMetricStore : Option (CoverageMetricStore ω)
  uuidSupplier : ω → String × ω
  nowSupplier : ω → String × ω
  firstDueAt : TimerDefinition → String → Except String String
  /-- The next occurrence of a cycle after the given instant; `none` when it is exhausted. -/
  advanceCycle : TimerCycleSpec → String → Except String (Option String)
  resolveTimerExpressionValue : TimerExpressionForm → FeelValue → Except String TimerDefinition
  parseIso8601Duration : String → Except String Nat
  durationFromFeelValue : FeelValue → Except String Nat
  /-- Now plus the growing delay, clamped at the ceiling: now, initial and ceiling delay in
  milliseconds, coefficient, attempt. -/
  backoffDueAt : String → Nat → Nat → String → Nat → Except String String
  canonicalStringOf : FeelValue → String
  jsonText : FeelValue → String
  /-- Whether a coverage path id is a segment of a cross-process route, and of which. -/
  splitInjectedSubPath : String → Option (String × String)

def TokenExecutor.builder {ω : Type} (tasks : String → Option (TaskFn ω)) (uuid now : String) :
    TokenExecutor ω where
  conditionEvaluator _ _ := .ok true
  valueEvaluator _ _ := .error (.diag Codes.runtimeUnexpected
    ("No FEEL value evaluator is wired; a data-store key/assignment " ++
      "expression cannot be evaluated (call TokenExecutor.Builder#withValueEvaluator)."))
  tasks name :=
    match tasks name with
    | some task => .ok task
    | none => .error (.diag Codes.resolveTaskUnknown s!"No @Task(\"{name}\") registered.")
  templateEngines _ := none
  templateEngineNames := []
  decisionEngines _ := none
  decisionEngineNames := []
  templates _ := none
  decisions _ := none
  scripts _ := none
  parseJson _ := .error "no JSON reader"
  parseDecimal _ := none
  moduleResolver := none
  processResolver := none
  outboundChannels _ _ := none
  authResolvers := none
  messageDecodeSeam := none
  deploymentConfig _ := none
  dataStores := none
  storeFault _ _ w := (none, w)
  supportsTransactions _ := true
  storeQuery _ _ := ⟨.null, []⟩
  coverageMetricStore := none
  uuidSupplier w := (uuid, w)
  nowSupplier w := (now, w)
  firstDueAt _ now := .ok now
  advanceCycle _ now := .ok (some now)
  resolveTimerExpressionValue _ _ := .error "no timer resolver"
  parseIso8601Duration _ := .ok 0
  durationFromFeelValue _ := .error "no duration"
  backoffDueAt now _ _ _ _ := .ok now
  canonicalStringOf _ := ""
  jsonText _ := ""
  splitInjectedSubPath _ := none

/-! ## The shared world -/

/-- What all scopes of a pass share. -/
structure World (ω : Type) where
  ctx : InnerCtx
  stores : String → StoreCell
  /-- The rows that data tasks wrote so far, published or not. A history variable: nothing reads
  it. -/
  writes : List RowWrite
  emissions : List Emission
  events : List Event
  /-- The world behind the callbacks. -/
  env : ω

/-- A world in which nothing has happened yet. -/
def World.fresh {ω : Type} (env : ω) : World ω where
  ctx := ⟨.unresolved, .empty, "", "", .empty⟩
  stores _ := ⟨.empty, 0⟩
  writes := []
  emissions := []
  events := []
  env := env

/-! ## One scope's state -/

structure TimerWait where
  nodeId : String
  dueAt : String
  deriving DecidableEq

structure FiredTimer where
  boundaryId : String
  hostId : String
  interrupting : Bool
  timer : Option TimerDefinition

structure ChannelCallFailure where
  reason : String
  nodeId : String
  code : String
  message : String

structure ExecutionState where
  process : ProcessDefinition
  deployment : DeploymentId
  labels : Labels
  instanceId : String
  /-- The tokens still to be moved, first in first out. -/
  work : List String := []
  flowTrace : List String := []
  /-- Per coverage path, how many of its flows were fired as a prefix. -/
  pathProgress : SortedMap String Nat := .empty
  visited : List String := []
  /-- Tokens waiting at each converging parallel gateway; `0` is no entry. -/
  parallelArrivals : String → Nat := fun _ => 0
  inclusiveArrivals : String → Nat := fun _ => 0
  inclusiveExpected : String → Nat := fun _ => 0
  complexArrivals : String → Nat := fun _ => 0
  complexFired : List String := []
  /-- What completed in this pass, in order. -/
  completedActivities : List String := []
  endOutputs : Variables := .empty
  reachedEnd : Bool := false
  traceCoverage : Bool
  /-- The open store transactions by store name, inside a transaction. -/
  storeTx : Option (SortedMap String StoreTx) := none
  /-- The revision read per store and key. -/
  storeRevs : SortedMap String Int := .empty
  /-- What completed in earlier passes, in order, without repetition. -/
  priorCompleted : List String := []
  waiting : List String := []
  /-- The frontier of the previous quiescent point. -/
  priorWaiting : List String := []
  timerWaits : List TimerWait := []
  firedTimer : Option FiredTimer := none
  detachedReply : Bool := false
  retryAttempts : SortedMap String Nat := .empty
  retryParkable : Bool := true
  retryBackoff : SortedMap String String := .empty
  channelCallFailure : Option ChannelCallFailure := none
  ghost : Bool := false
  resumeEntry : Option String := none
  ghostFlows : List String := []
  /-- The wait nodes this pass parked anew. -/
  freshWaits : List String := []

/-- Everything a program of the executor changes. -/
structure Machine (ω : Type) where
  world : World ω
  st : ExecutionState

abbrev Exec (ω α : Type) := Prog Signal (Machine ω) α

namespace ExecutionState

def new (process : ProcessDefinition) (deployment : DeploymentId) (labels : Labels)
    (instanceId : String) : ExecutionState where
  process := process
  deployment := deployment
  labels := labels
  instanceId := instanceId
  traceCoverage := !process.coveragePaths.isEmpty

variable (s : ExecutionState)

def visit (nodeId : String) : ExecutionState :=
  { s with visited := if nodeId ∈ s.visited then s.visited else s.visited ++ [nodeId] }

def visitAll (nodeIds : List String) : ExecutionState := nodeIds.foldl visit s

def pushWork (nodeId : String) : ExecutionState := { s with work := s.work ++ [nodeId] }

/-- Drop every token still to be moved. -/
def clearWork : ExecutionState := { s with work := [] }

def pushCompleted (nodeId : String) : ExecutionState :=
  { s with completedActivities := s.completedActivities ++ [nodeId] }

def parkFresh (nodeId : String) : ExecutionState :=
  { s with
    waiting := if nodeId ∈ s.waiting then s.waiting else s.waiting ++ [nodeId]
    freshWaits := if nodeId ∈ s.freshWaits then s.freshWaits else s.freshWaits ++ [nodeId] }

def parkAgain (nodeId : String) : ExecutionState :=
  { s with waiting := if nodeId ∈ s.waiting then s.waiting else s.waiting ++ [nodeId] }

def pushPriorCompleted (nodeId : String) : ExecutionState :=
  { s with
    priorCompleted := if nodeId ∈ s.priorCompleted then s.priorCompleted
      else s.priorCompleted ++ [nodeId] }

def advanceCursor (flowId : String) (progress : SortedMap String Nat) (path : CoveragePath) :
    SortedMap String Nat :=
  let cursor := (progress.get path.id).getD 0
  progress.insert path.id (if path.flows[cursor]? = some flowId then cursor + 1 else cursor)

/-- Fire a sequence flow: its target gets a token, and every coverage path that expects the flow
next advances. A ghost takes a flow at most once. -/
def fire (flow : SequenceFlow) : ExecutionState :=
  if s.ghost ∧ flow.id ∈ s.ghostFlows then s
  else
    { s with
      ghostFlows := if s.ghost then s.ghostFlows ++ [flow.id] else s.ghostFlows
      work := s.work ++ [flow.targetRef]
      flowTrace := if s.traceCoverage then s.flowTrace ++ [flow.id] else s.flowTrace
      pathProgress := if s.traceCoverage then
          s.process.coveragePaths.foldl (advanceCursor flow.id) s.pathProgress
        else s.pathProgress }

def fireAll (flows : List SequenceFlow) : ExecutionState := flows.foldl fire s

def enqueueOutgoing (nodeId : String) : ExecutionState := s.fireAll (s.process.outgoing nodeId)

def seedCoverageProgress (prior : SortedMap String Nat) : ExecutionState :=
  { s with pathProgress := prior.entries.foldl (fun m e => m.insert e.1 e.2) s.pathProgress }

def takeFiredTimerFor (hostId : String) : Option FiredTimer × ExecutionState :=
  match s.firedTimer with
  | some f => if f.hostId = hostId then (some f, { s with firedTimer := none }) else (none, s)
  | none => (none, s)

def takeChannelCallFailureFor (nodeId : String) : Option ChannelCallFailure × ExecutionState :=
  match s.channelCallFailure with
  | some f => if f.nodeId = nodeId then (some f, { s with channelCallFailure := none })
    else (none, s)
  | none => (none, s)

end ExecutionState

/-! ## Programs on the world and on the state -/

namespace Exec

variable {ω α : Type}

def fail (sig : Signal) : Exec ω α := Prog.throw sig

def state : Exec ω ExecutionState := Prog.gets Machine.st

def process : Exec ω ProcessDefinition := Prog.gets fun m => m.st.process

def vars : Exec ω Variables := Prog.gets fun m => m.world.ctx.vars

def modifyState (f : ExecutionState → ExecutionState) : Exec ω Unit :=
  Prog.modify fun m => { m with st := f m.st }

/-- Change the scope's state and return a value. -/
def updateState (f : ExecutionState → α × ExecutionState) : Exec ω α :=
  Prog.update fun m => ((f m.st).1, { m with st := (f m.st).2 })

def modifyVars (f : Variables → Variables) : Exec ω Unit :=
  Prog.modify fun m =>
    { m with world := { m.world with ctx := { m.world.ctx with vars := f m.world.ctx.vars } } }

/-- Write a process variable. -/
def setVar (name : String) (value : FeelValue) : Exec ω Unit := modifyVars (·.insert name value)

/-- Tell the listeners. -/
def notify (e : Event) : Exec ω Unit :=
  Prog.modify fun m => { m with world := { m.world with events := m.world.events ++ [e] } }

def emit (e : Emission) : Exec ω Unit :=
  Prog.modify fun m => { m with world := { m.world with emissions := m.world.emissions ++ [e] } }

def callOut (f : ω → α × ω) : Exec ω α :=
  Prog.update fun m =>
    ((f m.world.env).1, { m with world := { m.world with env := (f m.world.env).2 } })

def liftEval (r : Except ExecError α) : Exec ω α :=
  Prog.ofExcept (r.mapError Signal.fatal)

def liftLookup (r : Except SutraError α) : Exec ω α :=
  Prog.ofExcept (r.mapError fun e => Signal.fatal (.diagnostic e))

end Exec

end Sutra
