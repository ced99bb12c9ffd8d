import Sutra.Executor.Emission
import Sutra.Executor.DataTask

/-!
# Service tasks, channel calls, scripts and rules

* `runServiceTask` routes a service task on its implementation: a coverage operation, a template, a
  decision, a registered task function. It answers whether a retry policy parked the token.
* `runChannelCall` sends the request of a channel call and parks the token until the answer.
* `runScriptTask` and `runBusinessRuleTask` merge what a script or a decision file produces.
-/

namespace Sutra

variable {ω : Type}

def coverageOpPrefix : String := "coverage:"

def callFailureVariable : String := "callFailure"

def mergeTaskOutput (output : FeelValue) (vars : Variables) : Variables :=
  match output with
  | .map entries => vars.merge ⟨entries⟩
  | .null => vars
  | other => vars.insert "result" other

def selectVars (names : List String) (vars : Variables) : Variables :=
  names.foldl (fun acc name =>
    match vars.get name with
    | some v => acc.insert name v
    | none => acc) .empty

namespace TokenExecutor

variable (ex : TokenExecutor ω)

open Exec

/-- What a task sees: the declared inputs, or everything when none are declared. -/
def taskInputView (dm : DataMapping) (vars : Variables) : Variables :=
  if dm.inputs.isEmpty then vars else selectVars dm.inputs vars

def evaluateParams : List ParamBinding → Variables → Except ExecError Variables
  | params, vars => params.foldl (fun acc p => do
      let out ← acc
      let value ← ex.valueEvaluator p.expression vars
      pure (out.insert p.name value)) (.ok .empty)

def applyTaskOutputs (produced : Variables) (outputs : List String) : Exec ω Unit :=
  modifyVars fun vars => vars.merge
    (if outputs.isEmpty then produced else selectVars outputs produced)

def artifactKey (deployment : DeploymentId) (segment fileName : String) : String :=
  if deployment.isResolved then deployment.value ++ ":" ++ segment ++ ":" ++ fileName
  else fileName

def renderModel (vars params : Variables) : Exec ω RenderModel := do
  let uuid ← callOut ex.uuidSupplier
  let now ← callOut ex.nowSupplier
  let body := match (vars.get "event").bind (FeelValue.field "body") with
    | some (.string s) => some (FeelValue.string s)
    | _ => none
  pure ⟨vars, params, uuid, now, body⟩

def renderTemplate (fileName : String) (engine : TemplateEngine) (params vars : Variables) :
    Exec ω (Except TaskFailure String) := do
  let st ← state
  let key := artifactKey st.deployment "template" fileName
  match ex.templates key with
  | none =>
    let deployment := st.deployment.value
    pure (.error (.diag ⟨Codes.resolveTemplateUnknown,
      s!"No template '{fileName}' is registered for deployment '{deployment}'. A " ++
        s!"<bpmn:serviceTask implementation=\"{fileName}\"> requires a matching " ++
        "file under the module version's templates/ folder."⟩))
  | some bytes =>
    let model ← ex.renderModel vars params
    pure ((engine key bytes model).mapError .uncaught)

def evaluateDecision (nodeId fileName : String) (engine : DecisionEngine) (input : Variables) :
    Exec ω (Except TaskFailure Variables) := do
  let st ← state
  let key := artifactKey st.deployment "decision" fileName
  match ex.decisions key with
  | none =>
    let deployment := st.deployment.value
    pure (.error (.diag ⟨Codes.resolveTemplateUnknown,
      s!"<businessRuleTask> {nodeId} names decision '{fileName}' but no such " ++
        s!"file is registered for deployment '{deployment}'. It requires a matching file " ++
        "under the module version's decisions/ folder."⟩))
  | some bytes => pure ((engine key bytes input).mapError .uncaught)

def storeOpsUnsupported (id kind : String) : TaskFailure :=
  .diag ⟨Codes.parseDataAssociationUnsupported,
    s!"<serviceTask> '{id}' is a {kind} service task with data-store " ++
      "associations; store reads/writes belong on a declarative data " ++
      "task (no @implementation)."⟩

/-- Run a registered task function and write its result back. -/
def runTaskFn (task : TaskFn ω) (dm : DataMapping) (params : Variables) :
    Exec ω (Except TaskFailure Unit) := do
  let ctx ← Prog.gets fun m : Machine ω => m.world.ctx
  let isScoped := !dm.isEmpty
  let seen := (if isScoped then selectVars dm.inputs ctx.vars else ctx.vars).merge params
  let view : TaskContextView := ⟨ctx.deployment, ctx.labels, ctx.instanceId, ctx.moduleId, seen⟩
  let input := (seen.get "payload").getD seen.toFeelContext
  match ← callOut (task input view) with
  | .error (.bpmnError code) => pure (.error (.bpmn code))
  | .error (.failed msg) => pure (.error (.uncaught msg))
  | .ok output =>
    modifyVars fun vars =>
      if isScoped then vars.merge (selectVars dm.outputs (mergeTaskOutput output seen))
      else mergeTaskOutput output vars
    pure (.ok ())

def serviceTaskOutcome (id implementation : String) (dm : DataMapping) (params : Variables) :
    Exec ω (Except TaskFailure Unit) := do
  let vars ← vars
  let p ← process
  match ex.templateEngines implementation, ex.decisionEngines implementation with
  | some engine, _ =>
    if dm.hasStoreOps then pure (.error (storeOpsUnsupported id "template"))
    else
      match ← ex.renderTemplate implementation engine params (taskInputView dm vars) with
      | .error e => pure (.error e)
      | .ok rendered =>
        let produced := Variables.empty.insert "responseBody" (.string rendered)
        let produced := match (p.bindingsFor id).output with
          | some variable_ => produced.insert variable_ (.string rendered)
          | none => produced
        applyTaskOutputs produced dm.outputs
        pure (.ok ())
  | none, some engine =>
    if dm.hasStoreOps then pure (.error (storeOpsUnsupported id "decision"))
    else
      match ← ex.evaluateDecision id implementation engine
          ((taskInputView dm vars).merge params) with
      | .error e => pure (.error e)
      | .ok out =>
        applyTaskOutputs out dm.outputs
        pure (.ok ())
  | none, none =>
    if Text.startsWith channelCallPrefix implementation then
      pure (.error (.diag ⟨Codes.dispatchChannelCallUnsupportedContext,
        s!"<serviceTask> '{id}' (implementation=\"{implementation}\") is a " ++
          "channel-call task running inside a multi-instance / ad-hoc / " ++
          "compensation scope, which cannot park a durable wait state."⟩))
    else
      match ex.tasks implementation with
      | .error e => pure (.error (.diag e.toDiagnostic))
      | .ok task => runTaskFn task dm params

/-! ## Coverage operations -/

def resolveCoverageTarget (processId nodeId : String) (st : ExecutionState) :
    Except ExecError ProcessDefinition :=
  let inDeployment := if st.deployment.isResolved then
    (ex.moduleResolver.bind fun r => r st.deployment processId) else none
  match inDeployment with
  | some hit => .ok hit
  | none =>
    let notFound := ExecError.diag Codes.resolveModuleNotFound
      (s!"coverage op on '{nodeId}' targets process '{processId}', which is not " ++
        "deployed in the caller's module.")
    match ex.processResolver with
    | none => .error notFound
    | some resolver =>
      match resolver processId with
      | .error e => .error e
      | .ok (some hit) => .ok hit
      | .ok none => .error notFound

def coverageOpParts (implementation : String) : String × String :=
  match Text.splitOnce ':' implementation with
  | none => ("", "")
  | some (_, rest) =>
    match Text.splitOnce ':' rest with
    | none => (Text.trim rest, "")
    | some (op, target) => (Text.trim op, Text.trim target)

def coverageStoreFailure (nodeId op deployment err : String) : Signal :=
  fatalDiag Codes.configCoverageStoreMissing
    (s!"coverage {op} on '{nodeId}' could not read the coverage metric store for " ++
      s!"deployment {deployment}: {err}")

/-- The reserved coverage operations: report and reset. -/
def runCoverageOp (nodeId implementation : String) : Exec ω Unit := do
  let st ← state
  let (op, targetProcessId) := coverageOpParts implementation
  let deployment := st.deployment.value
  if targetProcessId.isEmpty then
    fail (fatalDiag Codes.resolveTaskUnknown
      (s!"coverage op '{implementation}' on '{nodeId}' needs a target process: " ++
        "implementation=\"coverage:report:<process>\" or \"coverage:reset:<process>\"."))
  else
    let target ← liftEval (ex.resolveCoverageTarget targetProcessId nodeId st)
    match ex.coverageMetricStore with
    | none => fail (fatalDiag Codes.configCoverageStoreMissing
        (s!"coverage op on '{nodeId}' has no coverage metric store: deployment {deployment} is " ++
          "running with no coverage store wired. Coverage marks are persisted in the " ++
          "'coverage' data store the deployment declares in datastores.yaml — the " ++
          "engine owns that schema and applies it on first use, so no coverage SQL is " ++
          "yours to write — and nothing was recorded, so no percentage can be reported."))
    | some store =>
      if op = "report" then
        match ← callOut (store.report deployment target) with
        | .ok report => setVar "coverageReport" report
        | .error e => fail (coverageStoreFailure nodeId "report" deployment e)
      else if op = "reset" then
        match ← callOut (store.clearPaths deployment target) with
        | .ok cleared => setVar "coverageReset" (.map
            [("cleared", .ofInt cleared), ("process", .string target.id),
              ("total", .ofInt target.coveragePaths.length)])
        | .error e => fail (coverageStoreFailure nodeId "reset" deployment e)
      else
        fail (fatalDiag Codes.resolveTaskUnknown
          s!"unknown coverage op '{op}' on '{nodeId}' (expected 'report' or 'reset').")

/-! ## Service tasks -/

def parkRetry (id dueAt : String) (attempt : Nat) : Exec ω Unit := do
  modifyState fun s => { s with retryAttempts := s.retryAttempts.insert id attempt }
  modifyState (·.parkFresh id)
  recordTimerWait id dueAt

/-- **A service task.**  Answers whether a retry policy parked the token instead. -/
def runServiceTask (id implementation : String) (dm : DataMapping) (params : List ParamBinding)
    (parkable : Bool) : Exec ω Bool := do
  notify (.taskInvoked implementation)
  if Text.startsWith coverageOpPrefix implementation then
    ex.runCoverageOp id implementation
    modifyState (·.pushCompleted id)
    notify (.taskCompleted implementation)
    pure false
  else
    let current ← vars
    let paramValues ← liftEval (ex.evaluateParams params current)
    match ← ex.serviceTaskOutcome id implementation dm paramValues with
    | .ok () =>
      modifyState fun s => { s with retryAttempts := s.retryAttempts.erase id }
      notify (.taskCompleted implementation)
      pure false
    | .error (.bpmn code) =>
      notify (.taskFailed implementation ⟨Codes.runtimeErrorUncaught,
        s!"Service task @Task(\"{implementation}\") threw BPMN error {code}"⟩)
      fail (.bpmnError id code)
    | .error (.uncaught msg) =>
      let d : SutraError := ⟨Codes.runtimeTaskUncaught,
        s!"Task @Task(\"{implementation}\") threw {msg}"⟩
      notify (.taskFailed implementation d)
      match ← ex.planRetry id parkable msg with
      | .park dueAt attempt =>
        parkRetry id dueAt attempt
        pure true
      | .fail e => fail (.fatal e)
      | .noPolicy => fail (.fatal (.diagnostic d))
    | .error (.diag d) =>
      notify (.taskFailed implementation d)
      fail (.fatal (.diagnostic d))

/-! ## Channel calls -/

/-- Leave a channel call's failure where the catching path can read it. -/
def recordCallFailure (nodeId code reason : String) : Exec ω Unit :=
  setVar callFailureVariable (.map
    [("code", .string code), ("message", .string reason), ("node", .string nodeId)])

def raiseChannelCallFailure (id code reason : String) (uncaught : Signal) : Exec ω Bool := do
  let p ← process
  if errorIsCaught p id code then
    modifyState fun s =>
      { s with retryAttempts := s.retryAttempts.erase id, retryBackoff := s.retryBackoff.erase id }
    recordCallFailure id code reason
    fail (.bpmnError id code)
  else fail uncaught

def parkOrFailChannelCallRetry (id implementation code detail reason : String) : Exec ω Bool := do
  let failureMessage := code ++ ": " ++ detail
  notify (.taskFailed implementation ⟨code, failureMessage⟩)
  let st ← state
  match ← ex.planRetry id st.retryParkable failureMessage with
  | .park dueAt attempt =>
    modifyState fun s => { s with retryBackoff := s.retryBackoff.insert id code }
    parkRetry id dueAt attempt
    pure true
  | .fail e => raiseChannelCallFailure id code reason (.fatal e)
  | .noPolicy => raiseChannelCallFailure id code reason (fatalDiag code detail)

def routeTimerBoundary (boundaryId hostId : String) : Exec ω Unit := do
  let p ← process
  if (p.outgoing boundaryId).isEmpty then
    recordCallFailure hostId Codes.dispatchChannelCallTimeout
      (s!"channel-call task '{hostId}' timed out waiting for its response " ++
        s!"(timer boundary '{boundaryId}' fired)")
    fail (.bpmnError hostId Codes.dispatchChannelCallTimeout)
  else
    modifyState (·.enqueueOutgoing boundaryId)
    modifyState (·.visit boundaryId)

def sendChannelCall (id implementation : String) (dm : DataMapping) (params : List ParamBinding) :
    Exec ω Bool := do
  let st ← state
  let channelName := Text.trim ((Text.stripPrefix channelCallPrefix implementation).getD "")
  match ex.outboundChannels st.deployment channelName with
  | none =>
    let instanceId := st.instanceId
    let deployment := st.deployment.value
    fail (fatalDiag Codes.configChannelOutboundUnknown
      (s!"Channel-call task '{id}' on instance '{instanceId}' names outbound channel " ++
        s!"'{channelName}' but no channel with that name is registered with " ++
        s!"direction: outbound for deployment {deployment}."))
  | some resolved =>
    let current ← vars
    let paramValues ← liftEval (ex.evaluateParams params current)
    let view := (taskInputView dm current).merge paramValues
    let adapter : ReplyBinding :=
      { mode := resolved.mode, destination := some resolved.destination, required := true }
    let cloudEvent ← ex.cloudEventFor adapter
    emit {
      kind := .send
      nodeId := id
      instanceId := st.instanceId
      mode := resolved.mode
      destination := resolved.destination
      contentType := none
      required := true
      body := ex.channelCallBody view
      cloudEvent := cloudEvent
      authRef := resolved.authRef
      headers := .empty }
    notify (.replyEmitted id resolved.mode resolved.destination)
    modifyState (·.parkFresh id)
    ex.scheduleTimerBoundaries id
    pure true

/-- **A channel call.**  Answers whether the token parked; it did not when a fired timer boundary
routed it out. -/
def runChannelCall (id implementation : String) (dm : DataMapping) (params : List ParamBinding) :
    Exec ω Bool := do
  match ← updateState (·.takeChannelCallFailureFor id) with
  | some failure =>
    ex.parkOrFailChannelCallRetry id implementation failure.code failure.message failure.reason
  | none =>
    match ← updateState (·.takeFiredTimerFor id) with
    | some fired =>
      let p ← process
      let boundaryId := fired.boundaryId
      if (p.outgoing fired.boundaryId).isEmpty && p.hasRetryPolicy id then
        let detail := s!"channel-call task '{id}' timed out waiting for its correlated response " ++
          s!"(timer boundary '{boundaryId}' fired)"
        ex.parkOrFailChannelCallRetry id implementation Codes.dispatchChannelCallTimeout detail
          detail
      else
        routeTimerBoundary fired.boundaryId id
        pure false
    | none => ex.sendChannelCall id implementation dm params

/-! ## Scripts and business rules -/

/-- A text cut to its first `n` bytes; `none`, a panic, when they end inside a character. -/
def truncate (n : Nat) : List Char → Option (List Char)
  | [] => some []
  | c :: cs =>
    if n = 0 then some []
    else if c.utf8Size ≤ n then (truncate (n - c.utf8Size) cs).map (c :: ·)
    else none

/-- The output as a refusal shows it; `none` is a panic. -/
def scriptPreview (rendered : String) : Option String :=
  let preview := Text.trim rendered
  if 200 < preview.utf8ByteSize then
    (truncate 200 preview.toList).map fun start => String.ofList start ++ "…"
  else some preview

mutual
/-- The value of a JSON document; a number that is no decimal is null. -/
def jsonToFeel (parseDecimal : String → Option Decimal) : Snapshot.Json → FeelValue
  | .null => .null
  | .bool b => .boolean b
  | .number text => ((parseDecimal text).map FeelValue.number).getD .null
  | .string s => .string s
  | .array items => .list (jsonItems parseDecimal items)
  | .object fields => .map (jsonFields parseDecimal fields)
def jsonItems (parseDecimal : String → Option Decimal) : List Snapshot.Json → List FeelValue
  | [] => []
  | j :: rest => jsonToFeel parseDecimal j :: jsonItems parseDecimal rest
def jsonFields (parseDecimal : String → Option Decimal) :
    List (String × Snapshot.Json) → List (String × FeelValue)
  | [] => []
  | (k, j) :: rest => (k, jsonToFeel parseDecimal j) :: jsonFields parseDecimal rest
end

/-- **The variables that a script renders**, or why they are none. -/
def parseScriptOutput (nodeId rendered : String) : Except Signal Variables :=
  match ex.parseJson rendered with
  | .ok (.object fields) => .ok ((jsonFields ex.parseDecimal fields).foldl
      (fun out e => out.insert e.1 e.2) .empty)
  | .ok _ =>
    match scriptPreview rendered with
    | none => .error .panic
    | some preview => .error (fatalDiag Codes.runtimeUnexpected
        (s!"<scriptTask> {nodeId} must render a JSON object whose entries merge into " ++
          s!"the process variables; rendered output was: {preview}"))
  | .error e => .error (fatalDiag Codes.runtimeUnexpected
      (s!"<scriptTask> {nodeId} must render a JSON object, but its output did not " ++
        s!"parse as JSON: {e}"))

def runScriptTask (id file : String) : Exec ω Unit := do
  let st ← state
  let deployment := st.deployment.value
  let key := artifactKey st.deployment "script" file
  match ex.scripts key with
  | none => fail (fatalDiag Codes.resolveTemplateUnknown
      (s!"<scriptTask> {id} names script '{file}' but no such file is registered " ++
        s!"for deployment '{deployment}'. A <bpmn:scriptTask><bpmn:script>{file}</bpmn:script> " ++
        "requires a matching file under the module version's scripts/ folder."))
  | some bytes =>
    if ex.templateEngineNames.isEmpty then
      fail (fatalDiag Codes.resolveTemplateUnknown
        (s!"<scriptTask> {id} needs a template engine to render '{file}' but no " ++
          "TemplateEngineRegistry is configured."))
    else
      match ex.templateEngines file with
      | none =>
        let names := toString ex.templateEngineNames
        fail (fatalDiag Codes.resolveTemplateUnknown
          (s!"<scriptTask> {id} script '{file}' has no template engine for its " ++
            s!"extension. Registered engines: {names}."))
      | some engine =>
        let current ← vars
        let model ← ex.renderModel current .empty
        match engine key bytes model with
        | .error e => fail (fatalDiag Codes.runtimeUnexpected e)
        | .ok rendered =>
          match ex.parseScriptOutput id rendered with
          | .ok merged => modifyVars (·.merge merged)
          | .error signal => fail signal

def runBusinessRuleTask (id file : String) : Exec ω Unit := do
  let st ← state
  let deployment := st.deployment.value
  let key := artifactKey st.deployment "decision" file
  match ex.decisions key with
  | none => fail (fatalDiag Codes.resolveTemplateUnknown
      (s!"<businessRuleTask> {id} names decision '{file}' but no such file is " ++
        s!"registered for deployment '{deployment}'. It requires a matching file under the " ++
        "module version's decisions/ folder."))
  | some bytes =>
    if ex.decisionEngineNames.isEmpty then
      fail (fatalDiag Codes.resolveTemplateUnknown
        (s!"<businessRuleTask> {id} needs a decision engine to evaluate '{file}' but " ++
          "no DecisionEngineRegistry is configured."))
    else
      match ex.decisionEngines file with
      | none =>
        let names := toString ex.decisionEngineNames
        fail (fatalDiag Codes.resolveTemplateUnknown
          (s!"<businessRuleTask> {id} decision '{file}' has no decision engine for its " ++
            s!"extension. Registered engines: {names}."))
      | some engine =>
        let current ← vars
        match engine key bytes current with
        | .error e => fail (fatalDiag Codes.runtimeUnexpected e)
        | .ok result => modifyVars (·.merge result)

end TokenExecutor

end Sutra
