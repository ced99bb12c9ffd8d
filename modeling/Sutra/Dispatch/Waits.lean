import Sutra.Executor.Frontier
import Sutra.Store.Tables

/-!
# The waits a step resolves and the keys it records

* `resolvedWaitsFor` are the wait rows that a satisfied node resolves: its own, the losing arms of
  the race it won, the host of a fired boundary, and the timer boundaries of that host.
  `consumed_subset_resolvedWaitsFor` says that they cover what the executor takes off the frontier.
* `waitAliasRows` are the correlation keys of the waits that a pass parked, on the variables it
  left.
* `retiredWaitAliases` are the keys that the step retires, evaluated again on the variables of the
  *prior* snapshot.
-/

namespace Sutra.Dispatch

open List

open Store (AliasKey)

/-! ## Resolved waits -/

def waitHost (p : ProcessDefinition) (nodeId : String) : String :=
  match p.node nodeId with
  | .ok (.boundaryEvent _ attachedToRef _ _ _ _ _) => attachedToRef
  | _ => nodeId

def timerBoundariesOf (p : ProcessDefinition) (host except : String) : List String :=
  p.nodes.filterMap fun
    | .boundaryEvent id attachedToRef .timer _ _ _ _ =>
      if attachedToRef = host ∧ id ≠ except then some id else none
    | _ => none

def resolvedWaitsFor (p : ProcessDefinition) (satisfied : String) : List String :=
  let arms := p.nodes.flatMap fun
    | .eventBasedGateway id =>
      let arms := (p.outgoing id).map (·.targetRef)
      if satisfied ∈ arms then arms.filter (· ≠ satisfied) else []
    | _ => []
  let attached := match p.node satisfied with
    | .ok (.boundaryEvent _ attachedToRef _ _ _ _ _) => [attachedToRef]
    | _ => []
  satisfied :: (arms ++ attached ++ timerBoundariesOf p (waitHost p satisfied) satisfied)

/-- Append what a list does not have yet. -/
def pushNew (out new : List String) : List String :=
  new.foldl (fun out node => if node ∈ out then out else out ++ [node]) out

/-- The resolved rows of a step: a node that parks anew replaces whatever row it had. -/
def resolvedWithFresh (p : ProcessDefinition) (satisfied : String) (freshWaits : List String) :
    List String :=
  pushNew (resolvedWaitsFor p satisfied) freshWaits

theorem self_mem_resolvedWaitsFor (p : ProcessDefinition) (n : String) :
    n ∈ resolvedWaitsFor p n := .head _

variable {n : String} {p : ProcessDefinition}

theorem raceSiblings_subset (p : ProcessDefinition) (satisfied : String)
    (h : n ∈ raceSiblings p satisfied) : n ∈ resolvedWaitsFor p satisfied :=
  mem_cons_of_mem _ (mem_append_left _ (mem_append_left _ h))

theorem waitHost_mem_resolvedWaitsFor (p : ProcessDefinition) (n : String) :
    waitHost p n ∈ resolvedWaitsFor p n := by
  rw [waitHost, resolvedWaitsFor]
  cases hnode : p.node n with
  | error e => exact .head _
  | ok node =>
    cases node with
    | boundaryEvent id host kind ec esc i t =>
      exact .tail _ (mem_append_left _ (mem_append_right _ (mem_singleton.mpr rfl)))
    | _ => exact .head _

@[simp] theorem mem_pushNew {out new : List String} : n ∈ pushNew out new ↔ n ∈ out ∨ n ∈ new := by
  rw [pushNew]
  induction new generalizing out with
  | nil => simp
  | cons m new ih => rw [foldl_cons, ih, mem_addIfNew, mem_cons, or_assoc]

theorem mem_resolvedWithFresh {satisfied : String} {fresh : List String} :
    n ∈ resolvedWithFresh p satisfied fresh ↔ n ∈ resolvedWaitsFor p satisfied ∨ n ∈ fresh :=
  mem_pushNew

/-! ## What a wakeup satisfies -/

def satisfiedNode : Wakeup → String
  | .relay node _ | .retryRedrive node | .channelCallFailure node _ _ _ => node
  | .timer nodeId _ => nodeId

theorem hostId_of_firedTimerOf {nodeId : String} {f : FiredTimer}
    (h : TokenExecutor.firedTimerOf p nodeId = .ok (some f)) : f.hostId = waitHost p nodeId := by
  rw [TokenExecutor.firedTimerOf] at h
  rw [waitHost]
  split at h
  · cases h
    rename_i hnode
    rw [hnode]
  · cases h
  · cases h
  · cases h

/-- **The rows of a step cover what the executor takes off the frontier.** -/
theorem consumed_subset_resolvedWaitsFor {deployment : DeploymentId}
    {labels : Labels} {s : Suspended} {c : Wakeup} {q : ResumeRequest}
    (h : c.request p deployment labels s = .ok q) (hn : n ∈ q.consumed) :
    n ∈ resolvedWaitsFor p (satisfiedNode c) := by
  have hself : ∀ {node : String}, n = node → n ∈ resolvedWaitsFor p node :=
    fun h => h ▸ self_mem_resolvedWaitsFor p n
  -- without a fired boundary the token enters at the satisfied node itself
  have hplain : ∀ q : ResumeRequest, q.process = p → q.satisfiedWaitNode = satisfiedNode c →
      q.firedTimer = none → n ∈ q.consumed → n ∈ resolvedWaitsFor p (satisfiedNode c) := by
    intro q hp hsat hfired hn
    rw [ResumeRequest.consumed, ResumeRequest.entry, hfired] at hn
    dsimp only at hn
    rw [hp, hsat] at hn
    split at hn
    · rename_i hentry
      split at hentry
      · cases hentry
      · cases hentry
        rcases mem_cons.mp hn with hn | hn
        · exact hself hn
        · exact raceSiblings_subset p _ hn
    · rename_i hentry
      split at hentry
      · cases hentry
        exact hself (mem_singleton.mp hn)
      · cases hentry
  cases c with
  | relay | retryRedrive | channelCallFailure =>
    cases h
    exact hplain _ rfl rfl rfl hn
  | timer nodeId dueAt =>
    obtain ⟨fired, hf, rfl⟩ := TokenExecutor.firedTimerOf_request h
    cases fired with
    | none => exact hplain _ rfl rfl rfl hn
    | some f =>
      have hhost : n = waitHost p nodeId := (mem_singleton.mp hn).trans (hostId_of_firedTimerOf hf)
      exact hhost ▸ waitHost_mem_resolvedWaitsFor p nodeId

/-! ## Correlation keys -/

structure Expressions where
  eval : String → Variables → Except String FeelValue
  canonicalStringOf : FeelValue → String
  typeName : FeelValue → String

structure AliasRecord where
  name : String
  value : String
  unique : Bool

def AliasRecord.key (r : AliasRecord) : AliasKey := (r.name, r.value)

namespace Expressions

variable (x : Expressions)

def pushAliasValues (binding : AliasBinding) : FeelValue → List AliasRecord
  | .null => []
  | .list items =>
    if binding.multi then (items.filter fun i => !i.isNull).map fun i =>
      ⟨binding.name, x.canonicalStringOf i, binding.unique⟩
    else [⟨binding.name, x.canonicalStringOf (.list items), binding.unique⟩]
  | other => [⟨binding.name, x.canonicalStringOf other, binding.unique⟩]

def keysOf (p : ProcessDefinition) (vars : Variables) (nodeId : String) : List AliasRecord :=
  (p.bindingsFor nodeId).aliases.flatMap fun binding =>
    match x.eval binding.expression vars with
    | .ok value => x.pushAliasValues binding value
    | .error _ => []

def callAliasRows (nodeId : String) (vars : Variables) :
    List AliasBinding → Except SutraError (List AliasRecord)
  | [] => .ok []
  | binding :: rest =>
    match x.eval binding.expression vars with
    | .error message => .error ⟨"SUTRA.INBOUND.ALIAS_FEEL_EVAL_FAILED",
        s!"<q:alias {binding.name}> expression '{binding.expression}' on channel-call task {nodeId} " ++
          s!"threw at park-time evaluation: {message}"⟩
    | .ok value => (callAliasRows nodeId vars rest).map (x.pushAliasValues binding value ++ ·)

def nodeAliasRows (p : ProcessDefinition) (vars : Variables) (nodeId : String) :
    Except SutraError (List AliasRecord) :=
  match p.node nodeId with
  | .ok (.serviceTask _ implementation _ _) =>
    if Text.startsWith channelCallPrefix implementation then
      match x.callAliasRows nodeId vars (p.bindingsFor nodeId).aliases with
      | .error e => .error e
      | .ok [] => .error ⟨"SUTRA.DISPATCH.CHANNEL_CALL.ALIAS_UNRESOLVED",
          s!"Channel-call task '{nodeId}' of process '{p.id}' parked but none of its declared " ++
            "<q:alias> expressions resolved to a value — the correlated response could never " ++
            "resume it; the step is refused (fail closed)."⟩
      | .ok rows => .ok rows
    else .ok []
  | .ok (.messageCatchEvent _) | .ok (.receiveTask _) | .ok (.userTask _) =>
    .ok (x.keysOf p vars nodeId)
  | _ => .ok []

def waitAliasRows (p : ProcessDefinition) (vars : Variables) :
    List String → Except SutraError (List AliasRecord)
  | [] => .ok []
  | nodeId :: rest =>
    match x.nodeAliasRows p vars nodeId with
    | .error e => .error e
    | .ok rows => (waitAliasRows p vars rest).map (rows ++ ·)

def parkKeys (p : ProcessDefinition) (vars : Variables) (nodeId : String) : List AliasKey :=
  match x.nodeAliasRows p vars nodeId with
  | .ok rows => rows.map (·.key)
  | .error _ => []

def startNames (p : ProcessDefinition) : List String :=
  p.startEvents.flatMap fun n => (p.bindingsFor n.id).aliases.map (·.name)

def retiredWaitAliases (p : ProcessDefinition) (resolved : List String) (priorVars : Variables)
    (priorWaiting waitingNow freshWaits : List String) (recorded : List AliasRecord)
    (relayAlias : Option AliasKey) : List AliasKey :=
  let keep := recorded.map (·.key) ++ (waitingNow.filter (· ∉ freshWaits)).flatMap fun n =>
    (x.keysOf p priorVars n).map (·.key)
  let candidates := ((resolved.filter (· ∈ priorWaiting)).flatMap fun n =>
    (x.keysOf p priorVars n).map (·.key)) ++ relayAlias.toList
  (candidates.filter fun key => key.1 ∉ startNames p ∧ key ∉ keep).eraseDups

/-! ### What the rows are -/

variable {x} {p : ProcessDefinition}

theorem mem_retiredWaitAliases {resolved priorWaiting waitingNow freshWaits : List String}
    {priorVars : Variables} {recorded : List AliasRecord} {relayAlias : Option AliasKey}
    {k : AliasKey} :
    k ∈ x.retiredWaitAliases p resolved priorVars priorWaiting waitingNow freshWaits recorded
        relayAlias ↔
      ((∃ n ∈ resolved, n ∈ priorWaiting ∧ k ∈ (x.keysOf p priorVars n).map (·.key)) ∨
        relayAlias = some k) ∧ k.1 ∉ startNames p ∧ k ∉ recorded.map (·.key) ∧
      ∀ n ∈ waitingNow, n ∉ freshWaits → k ∉ (x.keysOf p priorVars n).map (·.key) := by
  rw [retiredWaitAliases, mem_eraseDups, mem_filter]
  simp only [mem_append, mem_flatMap, mem_filter, decide_eq_true_eq,
    Option.mem_toList, not_or, not_exists, not_and, and_assoc]

variable {vars : Variables}

theorem mem_waitAliasRows {fresh : List String} {rows : List AliasRecord}
    (h : x.waitAliasRows p vars fresh = .ok rows) (k : AliasKey) :
    k ∈ rows.map (·.key) ↔ ∃ n ∈ fresh, k ∈ x.parkKeys p vars n := by
  induction fresh generalizing rows with
  | nil =>
    cases h
    simp
  | cons n fresh ih =>
    rw [waitAliasRows] at h
    cases hn : x.nodeAliasRows p vars n with
    | error e =>
      rw [hn] at h
      cases h
    | ok first =>
      rw [hn] at h
      have hkeys : x.parkKeys p vars n = first.map (·.key) := by rw [parkKeys, hn]
      cases hrest : x.waitAliasRows p vars fresh with
      | error e =>
        rw [hrest] at h
        cases h
      | ok rest =>
        rw [hrest] at h
        cases h
        simp only [map_append, mem_append, ih hrest, mem_cons, or_and_right, exists_or,
          exists_eq_left, hkeys]

theorem name_of_mem_pushAliasValues {binding : AliasBinding} {value : FeelValue} {r : AliasRecord}
    (h : r ∈ x.pushAliasValues binding value) : r.name = binding.name := by
  cases value with
  | null => cases h
  | list items =>
    rw [pushAliasValues] at h
    split at h
    · obtain ⟨i, -, rfl⟩ := mem_map.mp h
      rfl
    · rw [mem_singleton.mp h]
  | _ => rw [mem_singleton.mp h]

theorem name_mem_of_mem_keysOf {n : String} {k : AliasKey}
    (h : k ∈ (x.keysOf p vars n).map (·.key)) : k.1 ∈ (p.bindingsFor n).aliases.map (·.name) := by
  obtain ⟨r, hr, rfl⟩ := mem_map.mp h
  obtain ⟨binding, hb, hr⟩ := mem_flatMap.mp hr
  have hname : r.name = binding.name := by
    split at hr
    · exact name_of_mem_pushAliasValues hr
    · cases hr
  exact mem_map.mpr ⟨binding, hb, hname.symm⟩

end Expressions

end Sutra.Dispatch
