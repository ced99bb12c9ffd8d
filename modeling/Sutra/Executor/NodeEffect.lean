import Sutra.Executor.Effect

/-!
# What running a node can do to its scope

One lemma per program a token runs. Moving a token is a sequence of effects and nothing else, and
only the waits of the node and their timers come of it.

* `touches_runNode`, `touches_handleSignal`, `touches_tokenStep`: the three that move tokens.
-/

namespace Sutra

open Prog Relation List Within

variable {ω α β : Type}

/-! ## Where a node can park -/

/-- The waits a live token at a node can add to the frontier. `b` says whether a retry may park in
the scope. -/
def parkTargets (p : ProcessDefinition) (b : Bool) : Node → List String
  | .userTask id | .messageCatchEvent id | .receiveTask id | .timerCatchEvent id _ => [id]
  | .serviceTask id implementation _ _ =>
    if Text.startsWith channelCallPrefix implementation ∨ p.hasContinueReply id ∨
      (b ∧ p.hasRetryPolicy id) then [id] else []
  | .eventBasedGateway id => (p.outgoing id).map (·.targetRef)
  | _ => []

/-- The waits a token at a node of the scope can add to the frontier. -/
def waitsOf (s : ExecutionState) (nodeId : String) : List String :=
  match s.process.node nodeId with
  | .ok node => parkTargets s.process s.retryParkable node
  | .error _ => []

theorem mem_waitsOf {s : ExecutionState} {nodeId id : String} {node : Node}
    (hnode : s.process.node nodeId = .ok node)
    (hid : id ∈ parkTargets s.process s.retryParkable node) : id ∈ waitsOf s nodeId := by
  rw [waitsOf, hnode]
  exact hid

/-! ## What a token records as completed -/

def Node.loopBody : Node → Option Node
  | .multiInstance _ inner _ _ _ _ | .standardLoop _ inner _ _ _ => some inner
  | _ => none

def Node.isCoverageOp : Node → Bool
  | .serviceTask _ implementation _ _ => Text.startsWith coverageOpPrefix implementation
  | _ => false

/-- Whether the node is an activity whose token leaves it in the pass that runs it; a user task, a
receive task and a channel call are left when they are resumed. -/
def Node.completesInPlace : Node → Bool
  | .serviceTask _ implementation _ _ => !Text.startsWith channelCallPrefix implementation
  | .dataTask _ _ | .scriptTask _ _ | .businessRuleTask _ _ | .manualTask _ | .sendTask _
  | .callActivity _ _ | .subProcess _ _ | .transactionSubProcess _ _ | .adHocSubProcess _ _ _
  | .multiInstance _ _ _ _ _ _ | .standardLoop _ _ _ _ _ => true
  | _ => false

/-- `C` holds of everything a token of the process can record as completed besides its own node: a
coverage operation, which records itself, and an error boundary that caught. -/
structure Records (p : ProcessDefinition) (C : String → Prop) : Prop where
  coverage : ∀ n ∈ p.nodes, n.isCoverageOp = true → C n.id
  looped : ∀ n ∈ p.nodes, ∀ body, n.loopBody = some body → body.isCoverageOp = true → C body.id
  boundary : ∀ id host code esc i t, .boundaryEvent id host .error code esc i t ∈ p.nodes → C id

theorem records_true (p : ProcessDefinition) : Records p fun _ => True :=
  ⟨fun _ _ _ => trivial, fun _ _ _ _ _ => trivial, fun _ _ _ _ _ _ _ => trivial⟩

namespace TokenExecutor

open Exec

/-! ## What a node does to the stores -/

/-- An activity that may also be the body of a loop changes the stores as `S` says. -/
def ActivityRule (ex : TokenExecutor ω) (r : Nested ω) (p : ProcessDefinition)
    (S : StoreView → StoreView → Prop) : Node → Prop
  | .callActivity id calledElement => Within (Views p S) (ex.runCallActivity r id calledElement)
  | .subProcess id inner => Within (Views p S) (runEmbeddedSubProcess r id inner)
  | _ => True

def StoreRule (ex : TokenExecutor ω) (r : Nested ω) (p : ProcessDefinition)
    (S : StoreView → StoreView → Prop) : Node → Prop
  | .dataTask id dm => Within (Views p S) (ex.runDataTask id dm)
  | .transactionSubProcess id inner => Within (Views p S) (ex.runTransactionSubProcess r id inner)
  | .adHocSubProcess _ inner cond => Within (Views p S) (ex.runAdHocSubProcess r inner cond)
  | .eventSubProcess id inner _ => Within (Views p S) (runEventSubProcess r id inner)
  | n => ex.ActivityRule r p S n

structure StoreRules (ex : TokenExecutor ω) (r : Nested ω) (p : ProcessDefinition)
    (S : StoreView → StoreView → Prop) : Prop where
  node : ∀ n ∈ p.nodes, ex.StoreRule r p S n
  looped : ∀ n ∈ p.nodes, ∀ body, n.loopBody = some body → ex.ActivityRule r p S body

theorem activityRule_any (ex : TokenExecutor ω) (r : Nested ω) (p : ProcessDefinition) (n : Node) :
    ex.ActivityRule r p AnyView n := by
  cases n
  case callActivity | subProcess => exact fun _ _ => trivial
  all_goals trivial

theorem storeRules_any (ex : TokenExecutor ω) (r : Nested ω) (p : ProcessDefinition) :
    ex.StoreRules r p AnyView := by
  refine ⟨fun n _ => ?_, fun _ _ body _ => ex.activityRule_any r p body⟩
  cases n
  case dataTask | transactionSubProcess | adHocSubProcess | eventSubProcess | callActivity |
      subProcess => exact fun _ _ => trivial
  all_goals trivial

/-! ## One lemma per program -/

variable (ex : TokenExecutor ω) (r : Nested ω) {p : ProcessDefinition} {b : Bool}
  {F : Option FiredTimer} {T : List String} {C : String → Prop} {S : StoreView → StoreView → Prop}
  [IsPreorder StoreView S]

/-! ### Timers and retries -/

variable {nodeId : String} {fired : FiredTimer} {m : Machine ω} {parkable : Bool}

theorem touches_recordTimerWait {host : String} (dueAt : String) (hT : host ∈ T)
    (h : RowFor p F host nodeId) :
    Acts p b F T C S (recordTimerWait nodeId dueAt : Exec ω Unit) := by
  refine .bind (.modifyState fun s hs => .single (.timer s hT ?_)) fun _ => .of_quiet (.notify _)
  rw [hs.process]
  exact h

theorem gives_freshTimerBoundaries (hostId : String) (nodes : List Node) :
    Gives (fun l => ∀ e ∈ l, ∃ ec esc i t, Node.boundaryEvent e.1 hostId .timer ec esc i t ∈ nodes)
      (ex.freshTimerBoundaries hostId nodes) := by
  induction nodes with
  | nil => exact .pure (by simp)
  | cons n rest ih =>
    have skip : Gives (fun l => ∀ e ∈ l, ∃ ec esc i t,
        .boundaryEvent e.1 hostId .timer ec esc i t ∈ n :: rest)
        (ex.freshTimerBoundaries hostId rest) := by
      intro m l m' h e he
      obtain ⟨ec, esc, i, t, hmem⟩ := ih m l m' h e he
      exact ⟨ec, esc, i, t, .tail _ hmem⟩
    unfold freshTimerBoundaries
    split
    · exact .pure (by simp)
    · rename_i heq
      obtain ⟨rfl, rfl⟩ := List.cons.inj heq
      refine gives_bind fun st => ?_
      split
      · exact skip
      · rename_i hskip
        have hhost := not_ne_iff.mp (not_or.mp hskip).1
        subst hhost
        refine gives_bind fun due => .bind skip fun more hmore => .pure fun e he => ?_
        rcases mem_cons.mp he with rfl | he
        · exact ⟨_, _, _, _, .head _⟩
        · exact hmore e he
    · rename_i heq
      obtain ⟨-, rfl⟩ := List.cons.inj heq
      exact skip

theorem touches_scheduleTimerBoundaries {hostId : String} (hT : hostId ∈ T) :
    Acts p b F T C S (ex.scheduleTimerBoundaries hostId) := by
  rw [scheduleTimerBoundaries]
  refine .process_bind (touches_bind
    (.of_quiet (ex.calm_freshTimerBoundaries hostId p.nodes).silent) fun m l t _ hl => ?_)
  refine .forEach fun e he => ?_
  obtain ⟨ec, esc, i, tm, hmem⟩ := ex.gives_freshTimerBoundaries hostId p.nodes m l t hl e he
  exact touches_recordTimerWait _ hT (.boundary hmem)

theorem touches_rearmFiredBoundary (hT : fired.hostId ∈ T)
    (hF : F = some fired) : Acts p b F T C S (ex.rearmFiredBoundary fired) := by
  rw [rearmFiredBoundary]
  split
  · refine .after (.callOut _) fun _ => ?_
    split
    · exact touches_recordTimerWait _ hT (.fired hF rfl)
    · exact .pure _
    · exact .fail _
  · exact .pure _

theorem planRetry_park {id msg dueAt : String} {attempt : Nat}
    {m' : Machine ω} (h : ex.planRetry id parkable msg m = (.ok (.park dueAt attempt), m')) :
    parkable ∧ m.st.process.hasRetryPolicy id := by
  have hgives : GivesAt m (fun d => ∀ due n, d = .park due n →
      parkable ∧ m.st.process.hasRetryPolicy id) (ex.planRetry id parkable msg) := by
    refine givesAt_gets_bind ?_
    split
    · exact (Gives.pure (by simp)).at m
    · rename_i policy hp
      have hpolicy : m.st.process.hasRetryPolicy id := by
        simp [ProcessDefinition.hasRetryPolicy, hp]
      split
      · exact (Gives.pure (by simp)).at m
      · rename_i hpk
        exact fun _ _ _ _ _ _ => ⟨by simpa using hpk, hpolicy⟩
  exact hgives _ _ h _ _ rfl

variable {id : String}

theorem touches_parkRetry (dueAt : String) (attempt : Nat) (hT : id ∈ T) (hrow : RowFor p F id id) :
    Acts p b F T C S (parkRetry id dueAt attempt : Exec ω Unit) :=
  .bind (.modifyState fun s _ => .single (.retries s _ s.retryBackoff)) fun _ =>
    .bind (.parkFresh hT) fun _ => touches_recordTimerWait dueAt hT hrow

/-! ### Data tasks -/

theorem touches_stores {f : ExecutionState → Option (SortedMap String StoreTx)}
    {g : ExecutionState → SortedMap String Int} : Acts p b F T C AnyView
      (modifyState (fun s => { s with storeTx := f s, storeRevs := g s }) : Exec ω Unit) :=
  .modify fun m _ => ⟨.single (.stores m.st rfl _ _), trivial⟩

theorem touches_writeStore (store : String) (data : SortedMap String FeelValue) :
    Acts p b F T C AnyView (writeStore store data : Exec ω Unit) :=
  fun _ _ => ⟨.refl, trivial⟩

theorem touches_recordWrite (store key : String) (value : FeelValue) :
    Acts p b F T C AnyView (recordWrite store key value : Exec ω Unit) :=
  fun _ _ => ⟨.refl, trivial⟩

theorem touches_txFor (storeName nodeId : String) :
    Acts p b F T C AnyView (ex.txFor storeName nodeId) := by
  rw [txFor]
  refine .state_bind fun st _ => ?_
  split
  · exact .pure _
  · refine .after (ex.quiet_resolveStore _ _) fun store =>
      .after (ex.quiet_storeCall _ _ _) fun _ => ?_
    split
    · exact .after (quiet_storeCell _) fun _ => then_pure touches_stores
    · exact .fail _

theorem touches_readRow (id : String) (read : StoreRead) (key : String) :
    Acts p b F T C AnyView (ex.readRow id read key) := by
  rw [readRow]
  refine .state_bind fun st _ => ?_
  split
  · exact .bind (ex.touches_txFor _ _) fun _ => .after (ex.quiet_storeCall _ _ _) fun _ =>
        then_pure (Acts.of_quiet (quiet_storeCell _))
  · exact .after (ex.quiet_resolveStore _ _) fun _ =>
      .after (ex.quiet_storeCall _ _ _) fun _ => then_pure (Acts.of_quiet (quiet_storeCell _))

theorem touches_runStoreRead (id : String) (read : StoreRead) :
    Acts p b F T C AnyView (ex.runStoreRead id read) := by
  rw [runStoreRead]
  refine .after .vars fun vars => ?_
  split
  · exact .after (ex.quiet_runStoreQuery _ _ _ _) fun _ => .of_quiet (.setVar _ _)
  · exact .after (.liftEval _) fun _ =>
      .bind (.ofExcept _) fun _ => .bind (ex.touches_readRow _ _ _) fun _ =>
        .bind touches_stores fun _ => .of_quiet (.setVar _ _)

theorem touches_writeRowTx (id : String) (write : StoreWrite) (key : String) (value : FeelValue) :
    Acts p b F T C AnyView (ex.writeRowTx id write key value) := by
  rw [writeRowTx]
  refine .bind (ex.touches_txFor _ _) fun tx =>
    .after (ex.quiet_storeCall _ _ _) fun _ =>
      .state_bind fun st _ => .after (quiet_storeCell _) fun cell =>
        .after (ex.quiet_storeCall _ _ _) fun _ => ?_
  split
  · dsimp only
    split
    · exact .bind touches_stores fun _ => touches_recordWrite _ _ _
    · exact .fail _
  · exact .bind touches_stores fun _ => touches_recordWrite _ _ _

theorem touches_writeRowDirect (id : String) (write : StoreWrite) (key : String)
    (value : FeelValue) : Acts p b F T C AnyView (ex.writeRowDirect id write key value) := by
  rw [writeRowDirect]
  refine .after (ex.quiet_resolveStore _ _) fun store =>
    .state_bind fun st _ => .after (quiet_storeCell _) fun cell =>
      .after (ex.quiet_readForField _ _ _ _) fun _ => .after (ex.quiet_storeCall _ _ _) fun _ => ?_
  split
  · dsimp only
    split
    · exact .bind (touches_writeStore _ _) fun _ => touches_recordWrite _ _ _
    · exact .fail _
  · exact .bind (touches_writeStore _ _) fun _ => touches_recordWrite _ _ _

theorem touches_runStoreWrite (id : String) (write : StoreWrite) :
    Acts p b F T C AnyView (ex.runStoreWrite id write) := by
  rw [runStoreWrite]
  refine .after .vars fun _ => .after (.liftEval _) fun _ =>
      .bind (.ofExcept _) fun _ => .state_bind fun st _ => ?_
  split
  · exact ex.touches_writeRowTx _ _ _ _
  · exact ex.touches_writeRowDirect _ _ _ _

theorem touches_runDataTask (id : String) (dm : DataMapping) :
    Acts p b F T C AnyView (ex.runDataTask id dm) :=
  .bind (.forEach fun _ _ => ex.touches_runStoreRead _ _) fun _ =>
    .bind (.forEach fun _ _ => Acts.of_quiet (ex.quiet_runMessageDecode _ _)) fun _ =>
      .bind (.forEach fun _ _ => Acts.of_quiet (ex.quiet_runAssignment _)) fun _ =>
        .forEach fun _ _ => ex.touches_runStoreWrite _ _

theorem touches_takeStoreTx :
    Acts p b F T C AnyView (takeStoreTx : Exec ω (Option (SortedMap String StoreTx))) :=
  .update fun m _ => ⟨.single (.stores m.st rfl none m.st.storeRevs), trivial⟩

theorem touches_commitAll (txs : List (String × StoreTx)) (firstError : Option String) :
    Acts p b F T C AnyView (ex.commitAll txs firstError) := by
  induction txs generalizing firstError with
  | nil => exact .pure _
  | cons e rest ih =>
    unfold commitAll
    refine .after (.callOut _) fun _ => ?_
    split
    · exact ih _
    · exact .bind (touches_writeStore _ _) fun _ => ih _

theorem touches_commitStoreTx : Acts p b F T C AnyView ex.commitStoreTx := by
  rw [commitStoreTx]
  refine .bind touches_takeStoreTx fun _ => ?_
  split
  · exact .pure _
  · exact ex.touches_commitAll _ _

theorem touches_rollbackStoreTx : Acts p b F T C AnyView ex.rollbackStoreTx := by
  rw [rollbackStoreTx]
  refine .bind touches_takeStoreTx fun _ => ?_
  split
  · exact .pure _
  · exact .forEach fun _ _ => then_pure (Acts.of_quiet (.callOut _))

/-! ### Tasks -/

variable (impl : String) (dm : DataMapping) (params : List ParamBinding)

theorem touches_runServiceTask (hT : parkable → p.hasRetryPolicy id → id ∈ T)
    (hrow : parkable → RowFor p F id id) (hC : Text.startsWith coverageOpPrefix impl → C id) :
    Acts p b F T C S (ex.runServiceTask id impl dm params parkable) := by
  rw [runServiceTask]
  refine .after (.notify _) fun _ => ?_
  split
  · rename_i hop
    exact .after (ex.quiet_runCoverageOp _ _) fun _ =>
      .bind (Acts.complete (hC hop)) fun _ => then_pure (Acts.of_quiet (.notify _))
  · refine .after .vars fun _ => .after (.liftEval _) fun _ =>
        .after (ex.quiet_serviceTaskOutcome _ _ _ _) fun _ => ?_
    split
    · exact .bind (.modifyState fun s _ => .single (.retries s _ s.retryBackoff))
        fun _ => then_pure (Acts.of_quiet (.notify _))
    · exact .after (.notify _) fun _ => .fail _
    · refine .after (.notify _) fun _ =>
        touches_bind (.of_quiet (ex.quiet_planRetry _ _ _)) fun m d _ hs hplan => ?_
      split
      · obtain ⟨hpk, hpol⟩ := ex.planRetry_park hplan
        rw [hs.process] at hpol
        exact then_pure (touches_parkRetry _ _ (hT hpk hpol) (hrow hpk))
      · exact .fail _
      · exact .fail _
    · exact .after (.notify _) fun _ => .fail _

theorem touches_raiseChannelCallFailure (id code reason : String) (uncaught : Signal) :
    Acts p b F T C S (raiseChannelCallFailure id code reason uncaught : Exec ω Bool) := by
  rw [raiseChannelCallFailure]
  refine .process_bind ?_
  split
  · exact .bind (.modifyState fun s _ => .single (.retries s _ _)) fun _ =>
      .after (quiet_recordCallFailure _ _ _) fun _ => .fail _
  · exact .fail _

theorem touches_parkOrFailChannelCallRetry (impl code detail reason : String)
    (hT : id ∈ T) (hrow : RowFor p F id id) : Acts p b F T C S
      (ex.parkOrFailChannelCallRetry id impl code detail reason) := by
  rw [parkOrFailChannelCallRetry]
  refine .after (.notify _) fun _ =>
    .state_bind fun st _ => .after (ex.quiet_planRetry _ _ _) fun _ => ?_
  split
  · exact .bind (.modifyState fun s _ => .single (.retries s s.retryAttempts _))
      fun _ => then_pure (touches_parkRetry _ _ hT hrow)
  · exact touches_raiseChannelCallFailure _ _ _ _
  · exact touches_raiseChannelCallFailure _ _ _ _

theorem touches_routeTimerBoundary (boundaryId hostId : String) :
    Acts p b F T C S (routeTimerBoundary boundaryId hostId : Exec ω Unit) := by
  rw [routeTimerBoundary]
  refine .process_bind ?_
  split
  · exact .after (quiet_recordCallFailure _ _ _) fun _ => .fail _
  · exact .bind (.enqueueOutgoing _) fun _ => .visit _

theorem touches_sendChannelCall (hT : id ∈ T) :
    Acts p b F T C S (ex.sendChannelCall id impl dm params) := by
  rw [sendChannelCall]
  refine .state_bind fun st _ => ?_
  dsimp only
  split
  · exact .fail _
  · exact .after .vars fun _ => .after (.liftEval _) fun _ =>
        .after (ex.calm_cloudEventFor _).silent fun _ => .after (.emit _) fun _ =>
            .after (.notify _) fun _ => .bind (.parkFresh hT) fun _ =>
                then_pure (ex.touches_scheduleTimerBoundaries hT)

theorem takeFiredTimerFor_some {s : ExecutionState}
    (h : (s.takeFiredTimerFor id).1 = some fired) :
    s.firedTimer = some fired ∧ fired.hostId = id := by
  unfold ExecutionState.takeFiredTimerFor at h
  split at h
  · split at h
    · cases h
      exact ⟨by assumption, by assumption⟩
    · cases h
  · cases h

variable (s : ExecutionState)

theorem effects_takeFiredTimerFor (id : String) :
    Effects T F C false s (s.takeFiredTimerFor id).2 := by
  rw [ExecutionState.takeFiredTimerFor]
  split
  · split
    · exact .single (.taken s (.inl rfl) (.inr rfl))
    · exact .refl
  · exact .refl

theorem effects_takeChannelCallFailureFor (id : String) :
    Effects T F C false s (s.takeChannelCallFailureFor id).2 := by
  rw [ExecutionState.takeChannelCallFailureFor]
  split
  · split
    · exact .single (.taken s (.inr rfl) (.inl rfl))
    · exact .refl
  · exact .refl

theorem touches_runChannelCall (hT : id ∈ T) (hrow : RowFor p F id id) :
    Acts p b F T C S (ex.runChannelCall id impl dm params) := by
  rw [runChannelCall]
  refine .bind (.updateState fun s _ => effects_takeChannelCallFailureFor s id) fun _ => ?_
  split
  · exact ex.touches_parkOrFailChannelCallRetry _ _ _ _ hT hrow
  · refine .bind (.updateState fun s _ => effects_takeFiredTimerFor s id) fun _ => ?_
    split
    · refine .process_bind ?_
      split
      · exact ex.touches_parkOrFailChannelCallRetry _ _ _ _ hT hrow
      · exact then_pure (touches_routeTimerBoundary _ _)
    · exact ex.touches_sendChannelCall _ _ _ hT

/-! ### Scopes -/

theorem touches_inScope (sub : ExecutionState) (body : Exec ω α) :
    Acts p b F T C AnyView (inScope sub body) := fun _ _ => ⟨.refl, trivial⟩

theorem touches_visitAll (nodeIds : List String) :
    Acts p b F T C S (modifyState (·.visitAll nodeIds) : Exec ω Unit) :=
  .modifyState fun s _ => effects_of_routing (routing_visitAll nodeIds s)

theorem touches_runEmbeddedSubProcess (spId : String) (inner : ProcessDefinition) :
    Acts p b F T C AnyView (runEmbeddedSubProcess r spId inner) :=
  .state_bind fun _ _ => .bind (touches_inScope _ _) fun _ =>
    .bind (touches_visitAll _) fun _ => then_pure (.ofExcept _)

theorem touches_runSubProcessInline (sub : ProcessDefinition) (deployment : DeploymentId) :
    Acts p b F T C AnyView (runSubProcessInline r sub deployment) :=
  .state_bind fun _ _ => .bind (touches_inScope _ _) fun _ => then_pure (.ofExcept _)

theorem touches_runCallActivity (id calledElement : String) :
    Acts p b F T C AnyView (ex.runCallActivity r id calledElement) := by
  rw [runCallActivity]
  refine .state_bind fun st _ => .after .vars fun _ => .bind (.ofExcept _) fun _ => ?_
  split
  · exact .of_quiet (.notify _)
  · exact .bind (.ofExcept _) fun _ => touches_runSubProcessInline r _ _

theorem touches_compensationChain (hC : Records p C) (fuel : Nat) (queue seen : List String) :
    Acts p b F T C S (ex.compensationChain p fuel queue seen) := by
  induction fuel generalizing queue seen with
  | zero => exact .fail _
  | succ fuel ih =>
    cases queue with
    | nil => exact .pure _
    | cons id queue =>
      rw [compensationChain]
      split
      · exact ih _ _
      · refine touches_bind (.of_quiet (.liftLookup _)) fun _ node _ _ hlook => ?_
        have hmem := (ProcessDefinition.of_node (lift_eq_ok hlook)).1
        split
        · exact .bind (ex.touches_runServiceTask _ _ _ (by simp) (by simp)
            fun hop => hC.coverage _ hmem hop) fun _ => ih _ _
        · exact .pure _
        · exact ih _ _

theorem touches_runCompensationChain (hC : Records p C) (handlerId : String) :
    Acts p b F T C S (ex.runCompensationChain handlerId) :=
  .process_bind (ex.touches_compensationChain hC _ _ _)

theorem touches_compensateActivity (hC : Records p C) (activityId handler : String) :
    Acts p b F T C S (ex.compensateActivity activityId handler) := by
  rw [compensateActivity]
  refine .bind (ex.touches_runCompensationChain hC handler).attempt fun _ => ?_
  split
  · exact .pure _
  · exact .fail _
  · exact .fail _

theorem touches_fireCompensation (hC : Records p C) (onlyActivity : Option String) :
    Acts p b F T C S (ex.fireCompensation onlyActivity) := by
  rw [fireCompensation]
  refine .state_bind fun st _ => .forEach fun activityId _ => ?_
  split
  · exact .pure _
  · split
    · exact .pure _
    · exact ex.touches_compensateActivity hC _ _

theorem touches_runTransactionSubProcess (tspId : String) (inner : ProcessDefinition) :
    Acts p b F T C AnyView (ex.runTransactionSubProcess r tspId inner) :=
  .state_bind fun _ _ => .bind (touches_inScope _ _) fun _ =>
    .bind (touches_visitAll _) fun _ => .ofExcept _

theorem touches_runEventSubProcess (espId : String) (inner : ProcessDefinition) :
    Acts p b F T C AnyView (runEventSubProcess r espId inner) := by
  rw [runEventSubProcess]
  refine .state_bind fun st _ => .bind (touches_inScope _ _) fun _ =>
    .bind touches_stores fun _ => .bind (touches_visitAll _) fun _ =>
      .bind (.ofExcept _) fun _ => ?_
  split
  · exact .modifyState fun s _ => .single (.finish s _)
  · exact .pure _

theorem touches_runAdHocSubProcess (inner : ProcessDefinition) (cond : Option String) :
    Acts p b F T C AnyView (ex.runAdHocSubProcess r inner cond) :=
  .state_bind fun _ _ => .bind (touches_inScope _ _) fun _ =>
    .bind touches_stores fun _ => .bind (touches_visitAll _) fun _ => .ofExcept _

variable {inner : Node}

section Loop

variable (hC : inner.isCoverageOp = true → C inner.id) (hS : ex.ActivityRule r p S inner)
include hC hS

theorem touches_executeInner : Acts p b F T C S (ex.executeInner r inner) := by
  unfold executeInner
  split
  · exact then_pure (ex.touches_runServiceTask _ _ _ (by simp) (by simp) hC)
  · exact .of_quiet (ex.quiet_runScriptTask _ _)
  · exact .pure _
  · exact .of_views (ex.touches_runCallActivity r _ _) hS
  · exact .of_views (touches_runEmbeddedSubProcess r _ _) hS
  · exact .fail _

theorem touches_runIterations (id itemVar : String) (cond : Option String)
    (iterations : List (Nat × Option FeelValue)) :
    Acts p b F T C S (ex.runIterations r id inner itemVar cond iterations) := by
  induction iterations with
  | nil => exact .pure _
  | cons it rest ih =>
    unfold runIterations
    refine .after (quiet_bindItem _ _) fun _ => .after (.setVar _ _) fun _ =>
        .bind (ex.touches_executeInner r hC hS) fun _ => ?_
    split
    · exact ih
    · refine .after .vars fun _ => ?_
      split
      · exact .pure _
      · exact ih
      · exact .fail _

theorem touches_runMultiInstance (id : String) (card ref item cond : Option String) :
    Acts p b F T C S (ex.runMultiInstance r id inner card ref item cond) :=
  .after .vars fun _ => .bind (.ofExcept _) fun _ =>
    .bind (.ofExcept _) fun _ => ex.touches_runIterations r hC hS _ _ _ _

theorem touches_loopBody (i : Int) : Acts p b F T C S (ex.loopBody r inner i) :=
  .after (.setVar _ _) fun _ => ex.touches_executeInner r hC hS

theorem touches_loopWhile (id : String) (cond : Option String) (max : Int) (fuel : Nat) (i : Int) :
    Acts p b F T C S (ex.loopWhile r id inner cond max fuel i) := by
  induction fuel generalizing i with
  | zero => exact .fail _
  | succ fuel ih =>
    rw [loopWhile]
    split
    · refine .after (ex.quiet_loopContinues _ _) fun _ => ?_
      split
      · exact .bind (ex.touches_loopBody r hC hS i) fun _ => ih _
      · exact .pure _
    · exact .pure _

theorem touches_runStandardLoop (id : String) (cond : Option String) (testBefore : Bool)
    (max : Option Int) : Acts p b F T C S (ex.runStandardLoop r id inner cond testBefore max) := by
  unfold runStandardLoop
  split
  · exact ex.touches_loopWhile r hC hS _ _ _ _ _
  · exact .bind (ex.touches_loopBody r hC hS _) fun _ => ex.touches_loopWhile r hC hS _ _ _ _ _

end Loop

/-! ### Errors, escalations, links and cancellation -/

theorem findErrorBoundary_mem {source code id : String}
    (h : findErrorBoundary p source code = some id) :
    ∃ host ec esc i t, .boundaryEvent id host .error ec esc i t ∈ p.nodes := by
  obtain ⟨n, hn, hfound⟩ := exists_of_findSome?_eq_some h
  split at hfound
  · split at hfound
    · cases hfound
      exact ⟨_, _, _, _, _, hn⟩
    · cases hfound
  · cases hfound

theorem touches_routeError (hC : Records p C)
    (hS : ∀ id inner code, .eventSubProcess id inner code ∈ p.nodes →
      Within (Views p S) (runEventSubProcess r id inner)) (source code : String) :
    Acts p b F T C S (routeError r source code) := by
  rw [routeError]
  refine .process_bind ?_
  split
  · rename_i hfind
    obtain ⟨_, _, _, _, _, hmem⟩ := findErrorBoundary_mem hfind
    exact Within.bind (Acts.enqueueOutgoing _) fun _ =>
      Within.bind (Acts.complete (hC.boundary _ _ _ _ _ _ hmem)) fun _ => Acts.visit _
  · split
    · refine Within.bind Acts.clearWork fun _ =>
        touches_bind (.of_quiet (.liftLookup _)) fun _ node _ _ hlook => ?_
      obtain ⟨hmem, hid⟩ := ProcessDefinition.of_node (lift_eq_ok hlook)
      split
      · rw [← hid]
        exact .of_views (touches_runEventSubProcess r _ _) (hS _ _ _ hmem)
      · exact .fail _
    · exact Within.bind Acts.clearWork fun _ => Acts.fail _

theorem touches_routeEscalation (code : Option String) :
    Acts p b F T C S (routeEscalation code : Exec ω Bool) := by
  rw [routeEscalation]
  refine .process_bind (then_pure (.forEach fun _ _ => ?_))
  exact .bind (Acts.enqueueOutgoing _) fun _ => Acts.visit _

theorem touches_jumpToLinkCatch (iteId : String) (linkName : Option String) :
    Acts p b F T C S (jumpToLinkCatch iteId linkName : Exec ω Unit) := by
  rw [jumpToLinkCatch]
  refine .state_bind fun st _ => ?_
  dsimp only
  split
  · exact .modifyState fun s _ => .single (.pushWork s _)
  · exact .fail _

theorem touches_routeCancelBoundary (nodeId : String) :
    Acts p b F T C S (routeCancelBoundary nodeId : Exec ω Unit) := by
  rw [routeCancelBoundary]
  refine .process_bind ?_
  split
  · exact .bind (.enqueueOutgoing _) fun _ => .visit _
  · exact .fail _

/-! ### The reconstruction ghost -/

theorem ghostExits_subset (nodeId : String) : ∀ f ∈ ghostExits s nodeId, f ∈ s.process.flows := by
  intro f hf
  rcases mem_append.mp hf with hf | hf
  · split at hf
    · exact outgoing_subset _ _ f hf
    · cases hf
  · obtain ⟨boundary, -, hf⟩ := mem_flatMap.mp hf
    exact outgoing_subset _ _ f hf

theorem decidedArms_subset (gatewayId : String) :
    ∀ f ∈ decidedArms s gatewayId, f ∈ s.process.flows := fun f hf =>
  outgoing_subset _ _ f (mem_of_mem_filter hf)

theorem touches_ghostStep (nodeId : String) (node : Node) :
    Acts p b F T C S (ghostStep nodeId node : Exec ω Bool) := by
  have visits : ∀ {x : Exec ω Unit}, Acts p b F T C S x →
      Acts p b F T C S (do
        x
        modifyState (·.visit nodeId)
        pure true : Exec ω Bool) := fun hx =>
    .bind hx fun _ => then_pure (Acts.visit _)
  rw [ghostStep]
  refine .state_bind fun st hs => ?_
  split
  · exact .pure _
  · split
    · exact .pure _
    · exact .pure _
    · exact .pure _
    · exact .pure _
    · exact visits (.of_routes fun _ => routes_fireAll (hs.process ▸ decidedArms_subset st _))
    · exact visits (touches_jumpToLinkCatch _ _)
    · exact visits (.enqueueOutgoing _)
    · exact visits (.enqueueOutgoing _)
    · exact visits (.enqueueOutgoing _)
    · exact visits (.enqueueOutgoing _)
    · split
      · exact .pure _
      · exact visits (.of_routes fun _ => routes_fireAll (hs.process ▸ ghostExits_subset st _))

/-! ### The node kinds -/

theorem touches_completeAfter (hid : C id) {task : Exec ω Unit}
    (h : Acts p b F T C S task) : Acts p b F T C S (completeAfter id task) :=
  .bind h fun _ => .bind (Acts.complete hid) fun _ => then_pure (Acts.enqueueOutgoing _)

theorem touches_runServiceNode (hT : p.hasContinueReply id ∨ (b ∧ p.hasRetryPolicy id) → id ∈ T)
    (hrow : RowFor p F id id) (hid : C id) :
    Acts p b F T C S (ex.runServiceNode id impl dm params) := by
  rw [runServiceNode]
  refine .state_bind fun st hs => ?_
  refine .bind (ex.touches_runServiceTask _ _ _
    (fun hpk hpol => hT (.inr ⟨hs.parkable ▸ hpk, hpol⟩)) (fun _ => hrow) fun _ => hid)
    fun _ => ?_
  split
  · exact .pure _
  · refine .bind (.complete hid) fun _ => .after (ex.calm_emitReplyIfBound _).silent fun _ =>
        .after (ex.calm_emitSendIfBound _ _).silent fun _ => ?_
    split
    · rename_i hreply
      rw [hs.process] at hreply
      have hmem := hT (.inl hreply)
      exact .bind (.parkFresh hmem) fun _ => .after (.callOut _) fun _ =>
          .bind (touches_recordTimerWait _ hmem hrow) fun _ =>
            then_pure (Acts.modifyState fun s _ => .single (.detach s))
    · exact then_pure (Acts.enqueueOutgoing _)

theorem touches_runWaitNode (hT : id ∈ T) : Acts p b F T C S (ex.runWaitNode id) := by
  rw [runWaitNode]
  refine touches_bind (.updateState fun s _ => effects_takeFiredTimerFor s id)
    fun m fired m' hs htake => ?_
  split
  · rename_i fired
    obtain ⟨hfired, hhost⟩ := takeFiredTimerFor_some (Except.ok.inj (Prod.mk.inj htake).1)
    have hF : F = some fired := by
      rcases hs.fired with h | h
      · rw [hfired] at h
        cases h
      · rw [← h, hfired]
    split
    · exact then_pure (touches_routeTimerBoundary _ _)
    · rename_i hint
      have hagain : ∃ f, F = some f ∧ f.hostId = id ∧ f.interrupting = false :=
        ⟨fired, hF, hhost, eq_false_of_ne_true hint⟩
      exact .bind (.enqueueOutgoing _) fun _ =>
        .bind (.modifyState fun s _ => .single (.parkAgain s hT hagain)) fun _ =>
          then_pure (ex.touches_rearmFiredBoundary (hhost ▸ hT) hF)
  · exact .bind (.parkFresh hT) fun _ => then_pure (ex.touches_scheduleTimerBoundaries hT)

theorem touches_runTimerCatch (timer : TimerDefinition) (hT : id ∈ T) (hrow : RowFor p F id id) :
    Acts p b F T C S (ex.runTimerCatch id timer) :=
  .bind (.parkFresh hT) fun _ => .after (ex.calm_computeDueAt _ _).silent fun _ =>
      then_pure (touches_recordTimerWait _ hT hrow)

theorem touches_parkArm {target : String} (hT : target ∈ T) :
    Acts p b F T C S (ex.parkArm p target) := by
  rw [parkArm]
  refine .bind (.parkFresh hT) fun _ => ?_
  split
  · rename_i hnode
    exact .after (ex.calm_computeDueAt _ _).silent fun _ =>
      touches_recordTimerWait _ hT (.self hnode rfl)
  · exact .pure _

theorem touches_runEventBasedGateway (hT : ∀ f ∈ p.outgoing id, f.targetRef ∈ T) :
    Acts p b F T C S (ex.runEventBasedGateway id) :=
  .process_bind (then_pure (.forEach fun f hf => ex.touches_parkArm (hT f hf)))

theorem touches_runThrow (hC : Records p C) (nodeId id : String) (kind : ThrowKind)
    (activityRef reference : Option String) :
    Acts p b F T C S (ex.runThrow nodeId id kind activityRef reference) := by
  unfold runThrow
  split
  · exact .bind (ex.touches_fireCompensation hC _) fun _ => .enqueueOutgoing _
  · exact .after (ex.calm_emitSendIfBound _ _).silent fun _ => .enqueueOutgoing _
  · exact .after (ex.calm_emitSendIfBound _ _).silent fun _ => .enqueueOutgoing _
  · refine .bind (touches_routeEscalation _) fun _ => ?_
    split
    · exact .pure _
    · exact .enqueueOutgoing _
  · exact touches_jumpToLinkCatch _ _
  · exact .enqueueOutgoing _

theorem touches_runTransactionNode (nodeId : String) (hid : C id) {inner : ProcessDefinition}
    (hS : Within (Views p S) (ex.runTransactionSubProcess r id inner)) :
    Acts p b F T C S (ex.runTransactionNode r nodeId id inner) := by
  rw [runTransactionNode]
  refine .bind (.of_views (ex.touches_runTransactionSubProcess r _ _) hS) fun _ =>
    .bind (.complete hid) fun _ => ?_
  split
  · exact then_pure (touches_routeCancelBoundary _)
  · exact Acts.after (ex.calm_emitReplyIfBound _).silent fun _ => then_pure (Acts.enqueueOutgoing _)

theorem touches_reachEnd : Acts p b F T C S (reachEnd : Exec ω Unit) :=
  .after .vars fun _ => .modifyState fun s _ => .single (.finish s _)

theorem touches_runNodeKind {node : Node} (hnode : p.node nodeId = .ok node)
    (hT : ∀ id ∈ parkTargets p b node, id ∈ T) (hC : Records p C) (hS : ex.StoreRules r p S)
    (hown : node.completesInPlace → C node.id) :
    Acts p b F T C S (ex.runNodeKind r nodeId node) := by
  have hrow : node.isBoundary = false → RowFor p F node.id node.id := by
    intro hb
    refine .self ?_ hb
    rw [(ProcessDefinition.of_node hnode).2]
    exact hnode
  have hmem := (ProcessDefinition.of_node hnode).1
  cases node <;> simp only [parkTargets] at hT
  case startEvent | linkCatchEvent | boundaryEvent =>
    exact then_pure (Acts.enqueueOutgoing _)
  case serviceTask id impl dm params =>
    rw [runNodeKind]
    split
    · rename_i hcall
      rw [if_pos (Or.inl hcall)] at hT
      exact ex.touches_runChannelCall _ _ _ (hT id (.head _)) (hrow rfl)
    · rename_i hcall
      refine ex.touches_runServiceNode _ _ _ (fun h => hT id ?_) (hrow rfl) (hown ?_)
      · rw [if_pos (.inr h)]
        exact .head _
      · simpa [Node.completesInPlace] using hcall
  case dataTask id dm =>
    exact Within.bind (Acts.of_views (ex.touches_runDataTask _ _) (hS.node _ hmem)) fun _ =>
      Within.bind (Acts.complete (hown rfl)) fun _ =>
        Acts.after (ex.calm_emitReplyIfBound _).silent fun _ => then_pure (Acts.enqueueOutgoing _)
  case scriptTask =>
    exact touches_completeAfter (hown rfl) (.of_quiet (ex.quiet_runScriptTask _ _))
  case businessRuleTask =>
    exact touches_completeAfter (hown rfl) (.of_quiet (ex.quiet_runBusinessRuleTask _ _))
  case manualTask => exact touches_completeAfter (hown rfl) (.pure _)
  case sendTask =>
    exact Within.bind (Acts.complete (hown rfl)) fun _ =>
      Acts.after (ex.calm_emitSendIfBound _ _).silent fun _ => then_pure (Acts.enqueueOutgoing _)
  case userTask id | messageCatchEvent id | receiveTask id =>
    exact ex.touches_runWaitNode (hT id (.head _))
  case timerCatchEvent id timer =>
    exact ex.touches_runTimerCatch _ (hT id (.head _)) (hrow rfl)
  case exclusiveGateway =>
    exact then_pure (Acts.of_routes fun _ => ex.routes_handleExclusive ex.gatewayFlows_subset)
  case inclusiveGateway =>
    exact .of_routes fun _ => ex.routes_handleInclusive ex.gatewayFlows_subset
  case parallelGateway =>
    exact .of_routes fun _ => routes_handleParallel (outgoing_subset p _)
  case complexGateway =>
    exact .of_routes fun _ => ex.routes_handleComplex ex.gatewayFlows_subset
  case callActivity =>
    exact touches_completeAfter (hown rfl)
      (.of_views (ex.touches_runCallActivity r _ _) (hS.node _ hmem))
  case subProcess =>
    exact touches_completeAfter (hown rfl)
      (.of_views (touches_runEmbeddedSubProcess r _ _) (hS.node _ hmem))
  case transactionSubProcess =>
    exact ex.touches_runTransactionNode r _ (hown rfl) (hS.node _ hmem)
  case adHocSubProcess =>
    exact touches_completeAfter (hown rfl)
      (.of_views (ex.touches_runAdHocSubProcess r _ _) (hS.node _ hmem))
  case eventSubProcess => exact .pure _
  case multiInstance =>
    exact touches_completeAfter (hown rfl) (ex.touches_runMultiInstance r
      (hC.looped _ hmem _ rfl) (hS.looped _ hmem _ rfl) _ _ _ _ _)
  case standardLoop =>
    exact touches_completeAfter (hown rfl) (ex.touches_runStandardLoop r
      (hC.looped _ hmem _ rfl) (hS.looped _ hmem _ rfl) _ _ _ _)
  case intermediateThrowEvent =>
    exact then_pure (ex.touches_runThrow hC _ _ _ _ _)
  case eventBasedGateway =>
    exact ex.touches_runEventBasedGateway fun f hf => hT _ (List.mem_map_of_mem hf)
  case errorEvent | cancelEndEvent => exact .fail _
  case endEvent =>
    exact .after (ex.calm_emitReplyIfBound _).silent fun _ => then_pure touches_reachEnd
  case terminateEndEvent =>
    exact .after (ex.calm_emitReplyIfBound _).silent fun _ =>
      Within.bind Acts.clearWork fun _ => then_pure touches_reachEnd

/-! ### Moving a token -/

theorem touches_passNode {node : Node} (hnode : p.node nodeId = .ok node)
    (hT : ∀ id ∈ parkTargets p b node, id ∈ T) (hC : Records p C) (hS : ex.StoreRules r p S)
    (hown : C nodeId) : Acts p b F T C S (ex.passNode r nodeId node) := by
  rw [passNode]
  refine .after (Calm.report _).silent fun _ =>
    Within.bind (ex.touches_runNodeKind r hnode hT hC hS
      fun _ => (ProcessDefinition.of_node hnode).2 ▸ hown) fun _ => ?_
  split
  · exact .pure _
  · exact Acts.after (Calm.report _).silent fun _ => Acts.visit _

/-- **Running a node is a sequence of effects that park no wait but its own.** -/
theorem touches_runNode (nodeId : String)
    (hT : ∀ node, p.node nodeId = .ok node → ∀ id ∈ parkTargets p b node, id ∈ T)
    (hC : Records p C) (hS : ex.StoreRules r p S) (hown : C nodeId) :
    Acts p b F T C S (ex.runNode r nodeId) := by
  rw [runNode]
  refine .state_bind fun st hs => touches_bind (.of_quiet (.liftLookup _))
    fun m node m' _ hlook => ?_
  have hnode : p.node nodeId = .ok node := by
    rw [← hs.process]
    exact lift_eq_ok hlook
  split
  · refine .bind (touches_ghostStep _ _) fun _ => ?_
    split
    · exact .pure _
    · exact ex.touches_passNode r hnode (hT node hnode) hC hS hown
  · exact ex.touches_passNode r hnode (hT node hnode) hC hS hown

theorem touches_handleSignal (hC : Records p C)
    (hS : ∀ id inner code, .eventSubProcess id inner code ∈ p.nodes →
      Within (Views p S) (runEventSubProcess r id inner)) (kind : ScopeKind) (sig : Signal) :
    Acts p b F T C S (handleSignal r kind sig) := by
  rw [handleSignal]
  refine .process_bind ?_
  split
  · exact then_pure (touches_routeError r hC hS _ _)
  · split
    · exact then_pure (touches_routeError r hC hS _ _)
    · exact .fail _
  · split
    · exact then_pure (touches_routeError r hC hS _ _)
    · exact .fail _
  · exact then_pure Acts.clearWork
  · exact .fail _

/-- **Moving a token, its signal included, parks no wait but those of its node.** -/
theorem touches_tokenStep (kind : ScopeKind) (nodeId : String)
    (hT : ∀ node, p.node nodeId = .ok node → ∀ id ∈ parkTargets p b node, id ∈ T)
    (hC : Records p C) (hS : ex.StoreRules r p S) (hown : C nodeId) :
    Acts p b F T C S (ex.tokenStep r kind nodeId) := by
  rw [tokenStep]
  refine .bind (ex.touches_runNode r nodeId hT hC hS hown).attempt fun _ => ?_
  split
  · exact .pure _
  · exact touches_handleSignal r hC (fun _ _ _ hmem => hS.node _ hmem) kind _

theorem effects_runNode (nodeId : String) (hC : Records m.st.process C) (hown : C nodeId) :
    Effects (waitsOf m.st nodeId) m.st.firedTimer C true m.st (ex.runNode r nodeId m).2.st :=
  (ex.touches_runNode r nodeId (fun _ hnode _ hid => mem_waitsOf hnode hid) hC
    (ex.storeRules_any r _) hown m ⟨rfl, rfl, .inr rfl⟩).1

/-- What moving a token does to the state it moves in. -/
theorem effects_tokenStep (kind : ScopeKind) (nodeId : String)
    (hC : Records m.st.process C) (hown : C nodeId) :
    Effects (waitsOf m.st nodeId) m.st.firedTimer C true m.st (ex.tokenStep r kind nodeId m).2.st :=
  (ex.touches_tokenStep r kind nodeId (fun _ hnode _ hid => mem_waitsOf hnode hid) hC
    (ex.storeRules_any r _) hown m ⟨rfl, rfl, .inr rfl⟩).1

end TokenExecutor

end Sutra
