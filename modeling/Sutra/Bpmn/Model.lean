import Sutra.Lib.Text
import Sutra.Lib.SortedMap

/-!
# The process model

The engine's in-memory form of a loaded BPMN process: nodes, sequence flows, the `q:` bindings
attached to nodes, and the declared coverage paths. A sub-process node holds the process it
expands to, so nodes and processes are defined together.
* `ProcessDefinition.of` is the only way a process is built: it refuses two nodes with one id.
  What it guarantees is `ProcessDefinition.IdsDistinct`.
-/

namespace Sutra

open List

structure SutraError where
  code : String
  /-- What happened, in words. -/
  message : String
  deriving DecidableEq

/-! ## Node kinds -/

/-- The flavour of an intermediate throw event. -/
inductive ThrowKind where
  | none
  | compensate
  | message
  | signal
  | escalation
  | link
  deriving DecidableEq

inductive BoundaryKind where
  | error
  | compensation
  | escalation
  | cancel
  | timer
  deriving DecidableEq

inductive TimerExpressionForm where
  | duration
  | date
  | cycle

def TimerExpressionForm.elementName : TimerExpressionForm → String
  | .duration => "timeDuration"
  | .date => "timeDate"
  | .cycle => "timeCycle"

structure TimerCycleSpec where
  /-- How often the cycle fires in total; `none` is unbounded. -/
  repeats : Option Nat
  /-- The anchored first fire instant, when the cycle declares one. -/
  startAt : Option String
  /-- The duration between occurrences, as authored. -/
  interval : String

/-- The scheduling contract of one timer event definition. -/
inductive TimerDefinition where
  | duration (text : String)
  | date (text : String)
  | cycle (spec : TimerCycleSpec)
  | expression (form : TimerExpressionForm) (expression : String)

def TimerDefinition.specText : TimerDefinition → String
  | .duration d | .date d => d
  | .cycle c =>
    "R" ++ (c.repeats.map toString).getD "" ++ "/" ++
      (c.startAt.map (· ++ "/")).getD "" ++ c.interval
  | .expression _ e => e

structure ParamBinding where
  name : String
  expression : String

inductive StoreQueryMode where
  | keyPrefix
  | range (toExpression : String)

structure StoreQueryAggregate where
  field : Option String
  groupBy : Option String

structure StoreQuery where
  mode : StoreQueryMode
  /-- Whether the result carries the matching rows. -/
  rows : Bool
  /-- The most rows one page returns. -/
  limit : Nat
  /-- FEEL for the key to continue after. -/
  afterExpression : Option String
  aggregates : List StoreQueryAggregate

structure StoreRead where
  store : String
  keyExpression : String
  forUpdate : Bool
  targetVar : String
  query : Option StoreQuery

/-- Compute a process variable from a FEEL expression. -/
structure Assignment where
  expression : String
  targetVar : String

structure StoreWrite where
  store : String
  keyExpression : String
  field : Option String
  valueVar : String
  /-- Compare-and-set against the revision this instance read. -/
  expectUnchanged : Bool
  /-- Insert only when the key does not exist yet. -/
  expectAbsent : Bool

structure MessageDecodeBinding where
  name : String
  expression : String
  codec : String
  contentTypeExpression : Option String

structure DataMapping where
  inputs : List String := []
  outputs : List String := []
  storeReads : List StoreRead := []
  messageDecodes : List MessageDecodeBinding := []
  assignments : List Assignment := []
  storeWrites : List StoreWrite := []

/-- No data flow declared: the activity runs against the shared scope. -/
def DataMapping.isEmpty (dm : DataMapping) : Bool :=
  dm.inputs.isEmpty && dm.outputs.isEmpty && dm.storeReads.isEmpty && dm.messageDecodes.isEmpty &&
    dm.assignments.isEmpty && dm.storeWrites.isEmpty

def DataMapping.hasStoreOps (dm : DataMapping) : Bool :=
  !dm.storeReads.isEmpty || !dm.messageDecodes.isEmpty || !dm.assignments.isEmpty ||
    !dm.storeWrites.isEmpty

/-- A tracked route through a process: an id and the ordered flow ids that define it. -/
structure CoveragePath where
  id : String
  flows : List String

/-- A directed edge between two nodes, optionally guarded by a FEEL condition. -/
structure SequenceFlow where
  id : String
  sourceRef : String
  targetRef : String
  condition : Option String := none

/-! ## Bindings -/

/-- The wire form of an outbound message. -/
inductive ReplyMode where
  | native
  | cloudeventBinary
  | cloudeventStructured
  | matchInbound
  deriving DecidableEq

inductive OutboundAuthScheme where
  | mtls
  | bearer
  | apikey

/-- What a dispatch table does when no case matches. -/
inductive OnNoMatch where
  | error
  | skip

structure HeaderAttr where
  name : String
  value : String

structure CaseEntry where
  when_ : String
  calledElement : String

structure DispatchTable where
  defaultCalledElement : Option String
  onNoMatch : OnNoMatch
  cases : List CaseEntry

structure ReplyBinding where
  mode : ReplyMode
  destination : Option String
  contentType : Option String := none
  required : Bool := false
  ceType : Option String := none
  ceSource : Option String := none
  ceSubject : Option String := none
  ceDataContentType : Option String := none
  auth : Option OutboundAuthScheme := none
  authSecretRef : Option String := none
  authHeader : Option String := none
  /-- Respond now, then park and continue by itself. -/
  continueAfter : Bool := false
  headers : List HeaderAttr := []

structure SendBinding where
  mode : ReplyMode
  destination : Option String
  channel : Option String
  contentType : Option String := none
  ceType : Option String := none
  ceSource : Option String := none
  ceSubject : Option String := none
  ceDataContentType : Option String := none
  auth : Option OutboundAuthScheme := none
  authSecretRef : Option String := none
  authHeader : Option String := none
  headers : List HeaderAttr := []

structure RetryBinding where
  maxAttempts : Nat
  initialDelay : String
  initialDelayExpression : Bool
  backoffCoefficient : String
  maxDelay : String
  maxDelayExpression : Bool
  nonRetryableCodes : List String

structure AliasBinding where
  name : String
  expression : String
  unique : Bool := false
  /-- One key per item of a list. -/
  multi : Bool := false
  deriving DecidableEq

structure NodeBindings where
  dispatch : Option DispatchTable := none
  reply : Option ReplyBinding := none
  send : Option SendBinding := none
  /-- The variable a template render is additionally bound to. -/
  output : Option String := none
  retry : Option RetryBinding := none
  aliases : List AliasBinding := []

def channelCallPrefix : String := "channel:"

def loopCounterVariable : String := "loopCounter"

def defaultLoopItemVariable : String := "item"

/-! ## Nodes and processes -/

mutual

inductive Node where
  | startEvent (id : String)
  | endEvent (id : String)
  | terminateEndEvent (id : String)
  | errorEvent (id : String) (errorCode : Option String)
  | intermediateThrowEvent (id : String) (kind : ThrowKind) (activityRef reference : Option String)
  | linkCatchEvent (id linkName : String)
  | messageCatchEvent (id : String)
  | eventBasedGateway (id : String)
  | receiveTask (id : String)
  | timerCatchEvent (id : String) (timer : TimerDefinition)
  | boundaryEvent (id attachedToRef : String) (kind : BoundaryKind)
      (errorCode escalationCode : Option String) (interrupting : Bool)
      (timer : Option TimerDefinition)
  | serviceTask (id implementation : String) (dataMapping : DataMapping)
      (params : List ParamBinding)
  | dataTask (id : String) (dataMapping : DataMapping)
  | scriptTask (id scriptFile : String)
  | manualTask (id : String)
  | sendTask (id : String)
  | businessRuleTask (id decisionFile : String)
  | userTask (id : String)
  | callActivity (id calledElement : String)
  | subProcess (id : String) (inner : ProcessDefinition)
  | transactionSubProcess (id : String) (inner : ProcessDefinition)
  | adHocSubProcess (id : String) (inner : ProcessDefinition) (completionCondition : Option String)
  | eventSubProcess (id : String) (inner : ProcessDefinition) (errorCode : Option String)
  | cancelEndEvent (id : String)
  | exclusiveGateway (id : String) (defaultFlowId : Option String)
  | inclusiveGateway (id : String) (defaultFlowId : Option String)
  | parallelGateway (id : String)
  | complexGateway (id : String) (defaultFlowId activationCondition : Option String)
  | multiInstance (id : String) (inner : Node)
      (loopCardinality loopDataInputRef inputDataItem completionCondition : Option String)
  | standardLoop (id : String) (inner : Node) (loopCondition : Option String) (testBefore : Bool)
      (loopMaximum : Option Int)

structure ProcessDefinition where
  id : String
  nodes : List Node
  flows : List SequenceFlow
  bindings : SortedMap String NodeBindings
  coveragePaths : List CoveragePath

end

def Node.id : Node → String
  | .startEvent id | .endEvent id | .terminateEndEvent id | .errorEvent id _
  | .intermediateThrowEvent id _ _ _ | .linkCatchEvent id _ | .messageCatchEvent id
  | .eventBasedGateway id | .receiveTask id | .timerCatchEvent id _
  | .boundaryEvent id _ _ _ _ _ _ | .serviceTask id _ _ _ | .dataTask id _ | .scriptTask id _
  | .manualTask id | .sendTask id | .businessRuleTask id _ | .userTask id | .callActivity id _
  | .subProcess id _ | .transactionSubProcess id _ | .adHocSubProcess id _ _
  | .eventSubProcess id _ _ | .cancelEndEvent id | .exclusiveGateway id _
  | .inclusiveGateway id _ | .parallelGateway id | .complexGateway id _ _
  | .multiInstance id _ _ _ _ _ | .standardLoop id _ _ _ _ => id

def Node.nodeType : Node → String
  | .startEvent _ => "startEvent"
  | .endEvent _ => "endEvent"
  | .terminateEndEvent _ => "terminateEndEvent"
  | .errorEvent _ _ => "errorEndEvent"
  | .intermediateThrowEvent _ _ _ _ => "intermediateThrowEvent"
  | .messageCatchEvent _ | .timerCatchEvent _ _ | .linkCatchEvent _ _ => "intermediateCatchEvent"
  | .receiveTask _ => "receiveTask"
  | .eventBasedGateway _ => "eventBasedGateway"
  | .boundaryEvent _ _ _ _ _ _ _ => "boundaryEvent"
  | .serviceTask _ _ _ _ | .dataTask _ _ => "serviceTask"
  | .scriptTask _ _ => "scriptTask"
  | .businessRuleTask _ _ => "businessRuleTask"
  | .manualTask _ => "manualTask"
  | .sendTask _ => "sendTask"
  | .userTask _ => "userTask"
  | .callActivity _ _ => "callActivity"
  | .subProcess _ _ => "subProcess"
  | .transactionSubProcess _ _ => "transaction"
  | .adHocSubProcess _ _ _ => "adHocSubProcess"
  | .eventSubProcess _ _ _ => "eventSubProcess"
  | .cancelEndEvent _ => "cancelEndEvent"
  | .exclusiveGateway _ _ => "exclusiveGateway"
  | .inclusiveGateway _ _ => "inclusiveGateway"
  | .parallelGateway _ => "parallelGateway"
  | .complexGateway _ _ _ => "complexGateway"
  | .multiInstance _ _ _ _ _ _ => "multiInstance"
  | .standardLoop _ _ _ _ _ => "standardLoop"

namespace ProcessDefinition

variable (p : ProcessDefinition)

def node (nodeId : String) : Except SutraError Node :=
  match p.nodes.find? (fun n => n.id == nodeId) with
  | some n => .ok n
  | none => .error ⟨"SUTRA.RESOLVE.MODULE.NOT_FOUND",
      s!"Node not found in process {p.id}: {nodeId}"⟩

def outgoing (nodeId : String) : List SequenceFlow := p.flows.filter fun f => f.sourceRef == nodeId

def incoming (nodeId : String) : List SequenceFlow := p.flows.filter fun f => f.targetRef == nodeId

def bindingsFor (nodeId : String) : NodeBindings := (p.bindings.get nodeId).getD {}

def startEvents : List Node := p.nodes.filter fun
  | .startEvent _ => true
  | _ => false

def startEvent : Except SutraError Node :=
  match p.startEvents with
  | [s] => .ok s
  | starts => .error ⟨"SUTRA.PARSE.BPMN.MISSING_PROCESS",
      s!"Process {p.id} must have exactly one start event, found {starts.length}"⟩

def retryPolicy (nodeId : String) : Option RetryBinding := (p.bindingsFor nodeId).retry

def hasRetryPolicy (nodeId : String) : Bool := (p.retryPolicy nodeId).isSome

def hasContinueReply (nodeId : String) : Bool :=
  ((p.bindingsFor nodeId).reply.map (·.continueAfter)).getD false

def IdsDistinct : Prop := (p.nodes.map Node.id).Nodup

instance : Decidable p.IdsDistinct := inferInstanceAs (Decidable (List.Nodup _))

def duplicateId : List Node → List String → Option String
  | [], _ => none
  | n :: ns, seen => if n.id ∈ seen then some n.id else duplicateId ns (n.id :: seen)

def of (id : String) (nodes : List Node) (flows : List SequenceFlow)
    (bindings : SortedMap String NodeBindings) : Except SutraError ProcessDefinition :=
  match duplicateId nodes [] with
  | some d => .error ⟨"SUTRA.RESOLVE.TASK.NAME_COLLISION", s!"Duplicate node id in process: {d}"⟩
  | none => .ok ⟨id, nodes, flows, bindings, []⟩

/-! ## Lookups -/

variable {p}

theorem of_node {nodeId : String} {n : Node} (h : p.node nodeId = .ok n) :
    n ∈ p.nodes ∧ n.id = nodeId := by
  unfold node at h
  split at h
  · rename_i hfind
    cases h
    exact ⟨mem_of_find?_eq_some hfind, by simpa using List.find?_some hfind⟩
  · cases h

theorem node_of_mem (hd : p.IdsDistinct) {n : Node} (h : n ∈ p.nodes) : p.node n.id = .ok n := by
  have hfind : ∀ nodes : List Node, (nodes.map Node.id).Nodup → n ∈ nodes →
      nodes.find? (fun m => m.id == n.id) = some n := by
    intro nodes hd h
    induction nodes with
    | nil => cases h
    | cons m ms ih =>
      obtain ⟨hm, hd⟩ := nodup_cons.mp hd
      rcases mem_cons.mp h with rfl | h
      · simp
      · have hne : m.id ≠ n.id := fun heq => hm (heq ▸ List.mem_map_of_mem h)
        rw [List.find?_cons_of_neg (by simpa using hne)]
        exact ih hd h
  unfold node
  rw [hfind p.nodes hd h]

theorem duplicateId_eq_none {nodes : List Node} {seen : List String}
    (h : duplicateId nodes seen = none) : (nodes.map Node.id).Nodup ∧ ∀ n ∈ nodes, n.id ∉ seen := by
  induction nodes generalizing seen with
  | nil => simp
  | cons n ns ih =>
    unfold duplicateId at h
    split at h
    · cases h
    · rename_i hseen
      obtain ⟨hnodup, hns⟩ := ih h
      refine ⟨nodup_cons.mpr ⟨?_, hnodup⟩, ?_⟩
      · intro hmem
        obtain ⟨m, hm, hid⟩ := mem_map.mp hmem
        exact hns m hm (hid ▸ (.head _))
      · intro m hm
        rcases mem_cons.mp hm with rfl | hm
        · exact hseen
        · exact fun hc => hns m hm (.tail _ hc)

theorem of_idsDistinct {id : String} {nodes : List Node} {flows : List SequenceFlow}
    {bindings : SortedMap String NodeBindings} (h : of id nodes flows bindings = .ok p) :
    p.IdsDistinct := by
  unfold of at h
  split at h
  · cases h
  · rename_i hdup
    cases h
    exact (duplicateId_eq_none hdup).1

end ProcessDefinition

end Sutra
