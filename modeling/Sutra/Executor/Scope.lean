import Sutra.Executor.Task
import Sutra.Executor.Gateway

/-!
# Scopes

A node that holds a scope of its own — an embedded sub-process, a call activity, a transaction, an
ad-hoc or an event sub-process, the body of a loop — runs it inline on a fresh `ExecutionState`.
`inScope` hands the world over and back. The recursion goes through `Nested.drain`, the work-list
loop with the smaller step budget.
-/

namespace Sutra

variable {ω α : Type}

/-- Which scope a work list belongs to; it decides what an error signal does. -/
inductive ScopeKind where
  | top
  /-- An embedded or event sub-process: an error it does not catch leaves through its node. -/
  | sub (id : String)
  /-- A transaction: likewise, and a cancel ends it. -/
  | tx (id : String)

structure Nested (ω : Type) where
  fuel : Nat
  drain : ScopeKind → Exec ω Bool

/-- Run a program on a state of its own. The world is shared; the caller gets the result and the
final state of the scope, and decides what of it survives. -/
def inScope (sub : ExecutionState) (body : Exec ω α) :
    Exec ω (Except Signal α × ExecutionState) := fun m =>
  let r := body ⟨m.world, sub⟩
  (.ok (r.1, r.2.st), ⟨r.2.world, m.st⟩)

def ExecutionState.child (parent : ExecutionState) (inner : ProcessDefinition) : ExecutionState :=
  .new inner parent.deployment parent.labels parent.instanceId

namespace TokenExecutor

variable (ex : TokenExecutor ω) (r : Nested ω)

open Exec

def runScope (inner : ProcessDefinition) (kind : ScopeKind) : Exec ω Bool := do
  let start ← liftLookup inner.startEvent
  modifyState (·.pushWork start.id)
  r.drain kind

/-! ## Sub-processes -/

def runEmbeddedSubProcess (spId : String) (inner : ProcessDefinition) : Exec ω Unit := do
  let st ← state
  let (result, final) ← inScope { st.child inner with retryParkable := false }
    (runScope r inner (.sub spId))
  modifyState (·.visitAll final.visited)
  let _ ← Prog.ofExcept result
  pure ()

def runSubProcessInline (sub : ProcessDefinition) (deployment : DeploymentId) : Exec ω Unit := do
  let st ← state
  let (result, _) ← inScope (.new sub deployment st.labels st.instanceId) (runScope r sub .top)
  let _ ← Prog.ofExcept result
  pure ()

def compensationHandler (p : ProcessDefinition) (activityId : String) : Option String :=
  p.nodes.foldl (fun acc n =>
    match n with
    | .boundaryEvent id attachedToRef .compensation _ _ _ _ =>
      if attachedToRef = activityId then some id else acc
    | _ => acc) none

/-- Walk the handler's chain, running its service tasks, until an end event or a dead end. A node
is expanded once, so a queue of all flow targets twice over is never exceeded. -/
def compensationChain (p : ProcessDefinition) : Nat → (queue seen : List String) → Exec ω Unit
  | 0, _, _ => fail .outOfFuel
  | _ + 1, [], _ => pure ()
  | fuel + 1, id :: queue, seen =>
    if id ∈ seen then compensationChain p fuel queue seen
    else do
      let node ← liftLookup (p.node id)
      let next := queue ++ (p.outgoing id).map (·.targetRef)
      match node with
      | .serviceTask stId implementation dm params =>
        let _ ← ex.runServiceTask stId implementation dm params false
        compensationChain p fuel next (id :: seen)
      | .endEvent _ => pure ()
      | _ => compensationChain p fuel next (id :: seen)

def runCompensationChain (handlerId : String) : Exec ω Unit := do
  let p ← process
  ex.compensationChain p (2 * p.flows.length + 1) ((p.outgoing handlerId).map (·.targetRef)) []

def compensateActivity (activityId handler : String) : Exec ω Unit := do
  match ← Prog.attempt (ex.runCompensationChain handler) with
  | .ok () => pure ()
  | .error (.fatal e) =>
    let reason := e.message
    fail (fatalDiag Codes.runtimeCompensationFailed
      s!"Compensation for activity {activityId} failed: {reason}")
  | .error sig => fail sig

def fireCompensation (onlyActivity : Option String) : Exec ω Unit := do
  let st ← state
  Prog.forEach st.completedActivities.reverse fun activityId =>
    if (onlyActivity.getD activityId) ≠ activityId then pure ()
    else
      match compensationHandler st.process activityId with
      | none => pure ()
      | some handler => ex.compensateActivity activityId handler

def transactionBody (tspId : String) (inner : ProcessDefinition) : Exec ω Bool := do
  let cancelled ← runScope r inner (.tx tspId)
  if cancelled then
    ex.fireCompensation none
    pure true
  else
    match ← ex.commitStoreTx with
    | some err => fail (fatalDiag Codes.runtimeUnexpected
        s!"<bpmn:transaction> '{tspId}' data-store {err}")
    | none => pure false

/-- A transaction: its body inside one set of store transactions, which are rolled back unless the
body committed them. Answers whether it was cancelled. -/
def runTransactionSubProcess (tspId : String) (inner : ProcessDefinition) : Exec ω Bool := do
  let st ← state
  let (result, final) ← inScope { st.child inner with storeTx := some .empty } (do
    let outcome ← Prog.attempt (ex.transactionBody r tspId inner)
    ex.rollbackStoreTx
    Prog.ofExcept outcome)
  modifyState (·.visitAll final.visited)
  Prog.ofExcept result

def runEventSubProcess (espId : String) (inner : ProcessDefinition) : Exec ω Unit := do
  let st ← state
  let (result, final) ← inScope { st.child inner with storeTx := st.storeTx }
    (runScope r inner (.sub espId))
  modifyState fun s => { s with storeTx := final.storeTx }
  modifyState (·.visitAll final.visited)
  let _ ← Prog.ofExcept result
  if final.reachedEnd then
    modifyState fun s => { s with reachedEnd := true, endOutputs := final.endOutputs }
  else pure ()

/-! ## Call activities -/

def chooseCase (caId : String) (vars : Variables) : List CaseEntry → Except Signal (Option String)
  | [] => .ok none
  | c :: rest =>
    match ex.conditionEvaluator c.when_ vars with
    | .error e =>
      let reason := e.message
      .error (fatalDiag Codes.dispatchFeelEvalFailed
        (s!"Evaluating <q:case when=\"{c.when_}\"> on call activity {caId} failed: " ++ reason))
    | .ok true => .ok (some c.calledElement)
    | .ok false => chooseCase caId vars rest

def chooseCalledElement (caId staticCalledElement : String) (dispatch : Option DispatchTable)
    (processId : String) (vars : Variables) : Except Signal (Option String) :=
  match dispatch with
  | none => .ok (some staticCalledElement)
  | some table =>
    match ex.chooseCase caId vars table.cases with
    | .error sig => .error sig
    | .ok (some called) => .ok (some called)
    | .ok none =>
      match table.defaultCalledElement, table.onNoMatch with
      | some d, _ => .ok (some d)
      | none, .skip => .ok none
      | none, .error => .error (fatalDiag Codes.dispatchNoMatch
          (s!"Call activity {caId} in process {processId}: no <q:case> @when matched and no " ++
            "<q:dispatch default=...> was set (onNoMatch=error)"))

def resolveSubProcess (caId calledElement : String) (st : ExecutionState) :
    Except Signal (ProcessDefinition × DeploymentId) :=
  let byProcess : Except Signal (ProcessDefinition × DeploymentId) :=
    let notFound := fatalDiag Codes.dispatchSubProcessNotFound
      (s!"Call activity {caId} selected calledElement={calledElement} but no " ++
        "process with that id is registered")
    match ex.processResolver with
    | none => .error notFound
    | some resolver =>
      match resolver calledElement with
      | .error e => .error (.fatal e)
      | .ok (some resolved) => .ok (resolved, .unresolved)
      | .ok none => .error notFound
  match ex.moduleResolver with
  | none => byProcess
  | some resolver =>
    if st.deployment.isResolved then
      match resolver st.deployment calledElement with
      | some hit => .ok (hit, st.deployment)
      | none =>
        let deployment := st.deployment.value
        .error (fatalDiag Codes.dispatchSubProcessNotFound
          (s!"Call activity {caId} calledElement '{calledElement}' resolves to " ++
            s!"no process in the caller's deployment '{deployment}'. A bare calledElement " ++
            "must name a sibling process in the caller's own deployment; to call " ++
            "across modules, import the target and qualify it with the module's namespace."))
    else byProcess

def runCallActivity (id calledElement : String) : Exec ω Unit := do
  let st ← state
  let current ← vars
  let dispatch := (st.process.bindingsFor id).dispatch
  match ← Prog.ofExcept
    (ex.chooseCalledElement id calledElement dispatch st.process.id current) with
  | none => notify (.dispatchSkipped id (dispatch.bind (·.defaultCalledElement)))
  | some selected =>
    let (sub, deployment) ← Prog.ofExcept (ex.resolveSubProcess id selected st)
    runSubProcessInline r sub deployment

/-! ## Ad-hoc sub-processes, multi-instance and loops -/

def runAdHocActivity : Node → Option (Exec ω Unit)
  | .serviceTask id implementation dm params => some do
    let _ ← ex.runServiceTask id implementation dm params false
    modifyState (·.pushCompleted id)
    ex.emitReplyIfBound id
    ex.emitSendIfBound id false
  | .dataTask id dm => some do
    ex.runDataTask id dm
    modifyState (·.pushCompleted id)
    ex.emitReplyIfBound id
  | .scriptTask id file => some do
    ex.runScriptTask id file
    modifyState (·.pushCompleted id)
  | .businessRuleTask id file => some do
    ex.runBusinessRuleTask id file
    modifyState (·.pushCompleted id)
  | .sendTask id => some do
    modifyState (·.pushCompleted id)
    ex.emitSendIfBound id true
  | .manualTask id => some (modifyState (·.pushCompleted id))
  | .callActivity id calledElement => some do
    ex.runCallActivity r id calledElement
    modifyState (·.pushCompleted id)
  | _ => none

def runAdHocActivities (completionCondition : Option String) : List Node → Exec ω Unit
  | [] => pure ()
  | n :: rest =>
    match ex.runAdHocActivity r n with
    | none => runAdHocActivities completionCondition rest
    | some activity => do
      activity
      match completionCondition with
      | none => runAdHocActivities completionCondition rest
      | some expr =>
        let current ← vars
        match ex.conditionEvaluator expr current with
        | .ok true => pure ()
        | .ok false => runAdHocActivities completionCondition rest
        | .error e =>
          let reason := e.message
          fail (fatalDiag Codes.runtimeAdhocCompletionFailed
            s!"Ad-hoc sub-process completionCondition '{expr}' failed: {reason}")

def runAdHocSubProcess (inner : ProcessDefinition) (completionCondition : Option String) :
    Exec ω Unit := do
  let st ← state
  let (result, final) ← inScope { st.child inner with storeTx := st.storeTx }
    (ex.runAdHocActivities r completionCondition inner.nodes)
  modifyState fun s => { s with storeTx := final.storeTx }
  modifyState (·.visitAll final.visited)
  Prog.ofExcept result

/-- The body of a multi-instance activity or a loop. -/
def executeInner : Node → Exec ω Unit
  | .serviceTask id implementation dm params => do
    let _ ← ex.runServiceTask id implementation dm params false
    pure ()
  | .scriptTask id file => ex.runScriptTask id file
  | .manualTask _ => pure ()
  | .callActivity id calledElement => ex.runCallActivity r id calledElement
  | .subProcess id inner => runEmbeddedSubProcess r id inner
  | other =>
    let id := other.id
    let type := other.nodeType
    fail (fatalDiag Codes.runtimeUnexpected
      s!"Multi-instance inner node {id} of type {type} is not supported")

/-- A decimal literal of a 64-bit count. -/
def parseCount (text : String) : Option Nat := Text.parseUnsigned 64 text

/-- The fixed number of iterations of a multi-instance activity. -/
def resolveCardinality (id : String) (loopCardinality : Option String) (vars : Variables) :
    Except Signal Nat :=
  match loopCardinality with
  | none => .ok 0
  | some expr =>
    let notInteger := fatalDiag Codes.runtimeUnexpected
      s!"Multi-instance {id} loopCardinality '{expr}' is not an integer"
    match parseCount (Text.trim expr) with
    | some n => .ok n
    | none =>
      match vars.get (Text.trim expr) with
      | some (.number d) =>
        match d.toI64 with
        | some n => .ok n.toNat
        | none => .error notInteger
      | _ => .error notInteger

/-- A plain identifier, which is looked up rather than evaluated. -/
def isBareIdentifier (expression : String) : Bool :=
  let cs := Text.trimChars expression.toList
  !cs.isEmpty && cs.all fun c => c.isAlphanum || c == '_' || c == '-'

/-- The collection a multi-instance activity iterates over. -/
def resolveCollection (id : String) (loopDataInputRef : Option String) (vars : Variables) :
    Except Signal (Option (List FeelValue)) :=
  match loopDataInputRef with
  | none => .ok none
  | some expression =>
    let looked := if isBareIdentifier expression then vars.get expression else none
    let value : Except Signal FeelValue :=
      match looked with
      | some v => .ok v
      | none => (ex.valueEvaluator expression vars).mapError fun e =>
          fatalDiag Codes.runtimeUnexpected
            (s!"Multi-instance {id} loopDataInputRef '{expression}' could not be evaluated: " ++
              e.message)
    match value with
    | .error sig => .error sig
    | .ok (.list items) => .ok (some items)
    | .ok .null => .error (fatalDiag Codes.runtimeUnexpected
        (s!"Multi-instance {id} loopDataInputRef '{expression}' resolved to nothing. A " ++
          "loop over an absent collection would silently iterate zero times and report " ++
          "success, so it is refused: check the name, and that nothing dropped the " ++
          "value (a @transient variable does not survive a park)."))
    | .ok _ => .error (fatalDiag Codes.runtimeUnexpected
        s!"Multi-instance {id} loopDataInputRef '{expression}' is not a collection")

def bindItem (itemVar : String) : Option FeelValue → Exec ω Unit
  | some v => if v.isNull then pure () else setVar itemVar v
  | none => pure ()

/-- The iterations of a multi-instance activity: an index and, over a collection, an item each. -/
def runIterations (id : String) (inner : Node) (itemVar : String)
    (completionCondition : Option String) : List (Nat × Option FeelValue) → Exec ω Unit
  | [] => pure ()
  | (i, item) :: rest => do
    bindItem itemVar item
    setVar loopCounterVariable (.ofInt i)
    ex.executeInner r inner
    match completionCondition with
    | none => runIterations id inner itemVar completionCondition rest
    | some expr =>
      let current ← vars
      match ex.conditionEvaluator expr current with
      | .ok true => pure ()
      | .ok false => runIterations id inner itemVar completionCondition rest
      | .error e =>
        let reason := e.message
        fail (fatalDiag Codes.runtimeMultiInstanceCompletionFailed
          s!"Multi-instance {id} completionCondition '{expr}' failed: {reason}")

def runMultiInstance (id : String) (inner : Node)
    (loopCardinality loopDataInputRef inputDataItem completionCondition : Option String) :
    Exec ω Unit := do
  let current ← vars
  let cardinality ← Prog.ofExcept (resolveCardinality id loopCardinality current)
  let collection ← Prog.ofExcept (ex.resolveCollection id loopDataInputRef current)
  let iterations := match collection with
    | some items => (List.range items.length).zip (items.map some)
    | none => (List.range cardinality).map fun i => (i, none)
  ex.runIterations r id inner (inputDataItem.getD defaultLoopItemVariable) completionCondition
    iterations

/-- Whether a standard loop goes round again. -/
def loopContinues (id : String) (loopCondition : Option String) : Exec ω Bool := do
  let current ← vars
  match loopCondition with
  | none => pure false
  | some expr =>
    match ex.conditionEvaluator expr current with
    | .ok b => pure b
    | .error e =>
      let reason := e.message
      fail (fatalDiag Codes.runtimeUnexpected
        s!"StandardLoop {id} loopCondition '{expr}' failed: {reason}")

def loopBody (inner : Node) (i : Int) : Exec ω Unit := do
  setVar loopCounterVariable (.ofInt i)
  ex.executeInner r inner

/-- Go round while the index is below the maximum and the condition holds. -/
def loopWhile (id : String) (inner : Node) (loopCondition : Option String) (max : Int) :
    Nat → Int → Exec ω Unit
  | 0, _ => fail .outOfFuel
  | fuel + 1, i =>
    if i < max then do
      if ← ex.loopContinues id loopCondition then
        ex.loopBody r inner i
        loopWhile id inner loopCondition max fuel (i + 1)
      else pure ()
    else pure ()

def runStandardLoop (id : String) (inner : Node) (loopCondition : Option String)
    (testBefore : Bool) (loopMaximum : Option Int) : Exec ω Unit := do
  let max := loopMaximum.getD (2 ^ 63 - 1)
  if testBefore then ex.loopWhile r id inner loopCondition max r.fuel 0
  else
    ex.loopBody r inner 0
    ex.loopWhile r id inner loopCondition max r.fuel 1

end TokenExecutor

end Sutra
