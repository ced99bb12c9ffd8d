import Sutra.Executor.Pass

/-!
# What evaluating, reporting and emitting leaves alone

Most of what the executor does while it runs a node is talk to the outside. None of it touches
the scope's state or the committed contents of a data store; it changes the variables, the logs and
the outside world at most.

* `Quiet` is that relation, and `Calm` adds how a program may fail; one lemma per such program.
-/

namespace Sutra

open Prog Within

variable {ω α β : Type}

/-- The state of the scope and the stores are the same. -/
def Quiet (m m' : Machine ω) : Prop :=
  m'.st = m.st ∧ m'.world.stores = m.world.stores ∧ m'.world.writes = m.world.writes

instance : Std.Refl (Quiet (ω := ω)) := ⟨fun _ => ⟨rfl, rfl, rfl⟩⟩

instance : IsTrans (Machine ω) Quiet :=
  ⟨fun _ _ _ h h' => ⟨h'.1.trans h.1, h'.2.1.trans h.2.1, h'.2.2.trans h.2.2⟩⟩

/-- The program leaves both alone. -/
abbrev Silent (x : Exec ω α) : Prop := Within Quiet x

theorem Silent.bind {x : Exec ω α} {f : α → Exec ω β} (hx : Silent x) (hf : ∀ a, Silent (f a)) :
    Silent (x >>= f) := Within.bind hx hf

section primitives

open Exec

theorem Silent.fail (sig : Signal) : Silent (fail sig : Exec ω α) := .throw sig

theorem Silent.state : Silent (state : Exec ω ExecutionState) := within_gets _

theorem Silent.process : Silent (process : Exec ω ProcessDefinition) := within_gets _

theorem Silent.vars : Silent (vars : Exec ω Variables) := within_gets _

theorem Silent.modifyVars (f : Variables → Variables) : Silent (modifyVars f : Exec ω Unit) :=
  .modify fun _ => ⟨rfl, rfl, rfl⟩

theorem Silent.setVar (name : String) (value : FeelValue) :
    Silent (setVar name value : Exec ω Unit) := .modifyVars _

theorem Silent.notify (e : Event) : Silent (notify e : Exec ω Unit) :=
  .modify fun _ => ⟨rfl, rfl, rfl⟩

theorem Silent.emit (e : Emission) : Silent (emit e : Exec ω Unit) :=
  .modify fun _ => ⟨rfl, rfl, rfl⟩

theorem Silent.callOut (f : ω → α × ω) : Silent (callOut f : Exec ω α) :=
  .update fun _ => ⟨rfl, rfl, rfl⟩

theorem Silent.liftEval (r : Except ExecError α) : Silent (liftEval r : Exec ω α) :=
  .ofExcept _

theorem Silent.liftLookup (r : Except SutraError α) : Silent (liftLookup r : Exec ω α) :=
  .ofExcept _

theorem lift_eq_ok {ε : Type} {g : ε → Signal} {r : Except ε α} {a : α} {m m' : Machine ω}
    (h : ofExcept (r.mapError g) m = (.ok a, m')) : r = .ok a := by
  cases r with
  | error e => cases (Prod.mk.inj h).1
  | ok b =>
    cases (Prod.mk.inj h).1
    rfl

end primitives

def FailsPass : Signal → Prop
  | .fatal _ | .panic | .outOfFuel => True
  | .bpmnError _ _ | .txCancel => False

theorem failsPass_fatalDiag (code message : String) : FailsPass (fatalDiag code message) := trivial

structure Calm (x : Exec ω α) : Prop where
  silent : Silent x
  raises : Raises FailsPass x

def report (e : Event) : Exec ω Unit := do
  let st ← Exec.state
  if st.ghost then pure () else Exec.notify e

theorem report_run (e : Event) (m : Machine ω) :
    ∃ w, report e m = (.ok (), { m with world := w }) := by
  have hrun : report e m = (if m.st.ghost then pure () else Exec.notify e : Exec ω Unit) m := rfl
  rw [hrun]
  split <;> exact ⟨_, rfl⟩

namespace Calm

open Exec

theorem pure (a : α) : Calm (pure a : Exec ω α) := ⟨.pure a, .pure a⟩

theorem bind {x : Exec ω α} {f : α → Exec ω β} (hx : Calm x) (hf : ∀ a, Calm (f a)) :
    Calm (x >>= f) :=
  ⟨.bind hx.silent fun a => (hf a).silent, .bind hx.raises fun a => (hf a).raises⟩

theorem state : Calm (state : Exec ω ExecutionState) := ⟨.state, .gets _⟩

theorem vars : Calm (vars : Exec ω Variables) := ⟨.vars, .gets _⟩

theorem fatal (code message : String) : Calm (fail (fatalDiag code message) : Exec ω α) :=
  ⟨.fail _, raises_throw trivial⟩

theorem ofExcept {r : Except Signal α} (h : ∀ e, r = .error e → FailsPass e) :
    Calm (ofExcept r : Exec ω α) := ⟨.ofExcept r, raises_ofExcept h⟩

theorem callOut (f : ω → α × ω) : Calm (callOut f : Exec ω α) := ⟨.callOut f, raises_update _⟩

theorem emit (e : Emission) : Calm (emit e : Exec ω Unit) := ⟨.emit e, raises_modify _⟩

theorem notify (e : Event) : Calm (notify e : Exec ω Unit) := ⟨.notify e, raises_modify _⟩

theorem report (e : Event) : Calm (Sutra.report e : Exec ω Unit) := by
  refine .bind .state fun st => ?_
  split
  · exact .pure _
  · exact .notify _

end Calm

namespace TokenExecutor

open Exec

variable (ex : TokenExecutor ω)

theorem notifyEntered_run (nodeId nodeType : String) (m : Machine ω) :
    ∃ w, notifyEntered nodeId nodeType m = (.ok (), { m with world := w }) := report_run _ m

theorem notifyLeft_run (nodeId nodeType : String) (m : Machine ω) :
    ∃ w, notifyLeft nodeId nodeType m = (.ok (), { m with world := w }) := report_run _ m

/-! ## Timers and retries -/

theorem calm_resolveTimer (timer : TimerDefinition) (nodeId : String) :
    Calm (ex.resolveTimer timer nodeId) := by
  unfold resolveTimer
  split
  · refine .bind .state fun _ => .bind .vars fun _ => ?_
    split
    · exact .pure _
    · exact .fatal _ _
  · exact .pure _

theorem calm_computeDueAt (timer : TimerDefinition) (nodeId : String) :
    Calm (ex.computeDueAt timer nodeId) := by
  rw [computeDueAt]
  refine .bind (ex.calm_resolveTimer _ _) fun _ => .bind (.callOut _) fun _ => ?_
  split
  · exact .pure _
  · exact .fatal _ _

theorem calm_freshTimerBoundaries (hostId : String) (nodes : List Node) :
    Calm (ex.freshTimerBoundaries hostId nodes) := by
  induction nodes with
  | nil => exact .pure _
  | cons n rest ih =>
    unfold freshTimerBoundaries
    split
    · exact .pure _
    · rename_i h
      obtain ⟨-, rfl⟩ := List.cons.inj h
      refine .bind .state fun _ => ?_
      split
      · exact ih
      · exact .bind (ex.calm_computeDueAt _ _) fun _ => .bind ih fun _ => .pure _
    · rename_i h
      obtain ⟨-, rfl⟩ := List.cons.inj h
      exact ih

theorem quiet_computeRetryDueAt (id : String) (policy : RetryBinding) (attempt : Nat) :
    Silent (ex.computeRetryDueAt id policy attempt) := by
  rw [computeRetryDueAt]
  refine .bind .state fun _ => .bind .vars fun _ => ?_
  refine .bind (.ofExcept _) fun _ => .bind (.ofExcept _) fun _ => ?_
  split
  · exact .fail _
  · refine .bind (.callOut _) fun _ => ?_
    split
    · exact .pure _
    · exact .fail _

theorem quiet_planRetry (id : String) (parkable : Bool) (message : String) :
    Silent (ex.planRetry id parkable message) := by
  rw [planRetry]
  refine .bind .state fun _ => ?_
  split
  · exact .pure _
  · split
    · exact .pure _
    · dsimp only
      split
      · exact .pure _
      · split
        · exact .pure _
        · exact then_pure (ex.quiet_computeRetryDueAt _ _ _)

/-! ## Emissions -/

theorem calm_cloudEventFor (rb : ReplyBinding) : Calm (ex.cloudEventFor rb) := by
  rw [cloudEventFor]
  split
  · exact .pure _
  · exact .bind (.bind .state fun _ => .bind (.callOut _) fun _ => .pure _) fun _ => .pure _

theorem evaluateOutboundHeaders_error {nodeId : String} {vars : Variables} {hs : List HeaderAttr}
    {out : SortedMap String String} {sig : Signal}
    (h : ex.evaluateOutboundHeaders nodeId vars hs out = .error sig) : FailsPass sig := by
  induction hs generalizing out with
  | nil => cases h
  | cons a as ih =>
    unfold evaluateOutboundHeaders at h
    split at h
    · cases h
      exact failsPass_fatalDiag _ _
    · split at h
      · exact ih h
      · exact ih h

theorem calm_enqueueOutbound (kind : EmissionKind) (rb : ReplyBinding) (destination : String)
    (authRef : Option AuthRef) (nodeId : String) :
    Calm (ex.enqueueOutbound kind rb destination authRef nodeId) := by
  rw [enqueueOutbound]
  refine .bind .state fun _ => .bind .vars fun _ => ?_
  exact .bind (ex.calm_cloudEventFor _) fun _ =>
    .bind (.ofExcept fun _ h => ex.evaluateOutboundHeaders_error h) fun _ =>
    .bind (.emit _) fun _ => .notify _

theorem buildAuthRef_error {rb : ReplyBinding} {nodeId : String} {sig : Signal}
    (h : ex.buildAuthRef rb nodeId = .error sig) : FailsPass sig := by
  unfold buildAuthRef at h
  split at h
  · cases h
  · dsimp only at h
    split at h
    · cases h
      exact failsPass_fatalDiag _ _
    · split at h
      · cases h
        exact failsPass_fatalDiag _ _
      · split at h
        · cases h
          exact failsPass_fatalDiag _ _
        · split at h
          · cases h
          · cases h
            exact failsPass_fatalDiag _ _

theorem calm_emitReplyIfBound (nodeId : String) : Calm (ex.emitReplyIfBound nodeId) := by
  rw [emitReplyIfBound]
  refine .bind .state fun _ => .bind .vars fun _ => ?_
  split
  · exact .pure _
  · split
    · split
      · exact .fatal _ _
      · exact .pure _
    · exact .bind (.ofExcept fun _ h => ex.buildAuthRef_error h) fun _ =>
        ex.calm_enqueueOutbound _ _ _ _ _

theorem calm_emitSendIfBound (nodeId : String) (required : Bool) :
    Calm (ex.emitSendIfBound nodeId required) := by
  rw [emitSendIfBound]
  refine .bind .state fun _ => ?_
  split
  · split
    · exact .fatal _ _
    · exact .pure _
  · split
    · unfold emitSendViaChannel
      refine .bind .state fun _ => ?_
      split
      · exact .fatal _ _
      · exact ex.calm_enqueueOutbound _ _ _ _ _
    · exact .bind (.ofExcept fun _ h => ex.buildAuthRef_error h) fun _ =>
        ex.calm_enqueueOutbound _ _ _ _ _

/-! ## Tasks -/

theorem quiet_renderModel (vars params : Variables) : Silent (ex.renderModel vars params) :=
  .bind (Silent.callOut _) fun _ => then_pure (Silent.callOut _)

theorem quiet_renderTemplate (fileName : String) (engine : TemplateEngine)
    (params vars : Variables) : Silent (ex.renderTemplate fileName engine params vars) := by
  rw [renderTemplate]
  refine .bind .state fun _ => ?_
  dsimp only
  split
  · exact .pure _
  · exact then_pure (ex.quiet_renderModel _ _)

theorem quiet_evaluateDecision (nodeId fileName : String) (engine : DecisionEngine)
    (input : Variables) : Silent (ex.evaluateDecision nodeId fileName engine input) := by
  rw [evaluateDecision]
  refine .bind .state fun _ => ?_
  dsimp only
  split <;> exact .pure _

theorem quiet_runTaskFn (task : TaskFn ω) (dm : DataMapping) (params : Variables) :
    Silent (runTaskFn task dm params) := by
  rw [runTaskFn]
  refine .bind (within_gets _) fun _ => ?_
  refine .bind (.callOut _) fun _ => ?_
  split
  · exact .pure _
  · exact .pure _
  · exact then_pure (Silent.modifyVars _)

theorem quiet_serviceTaskOutcome (id implementation : String) (dm : DataMapping)
    (params : Variables) : Silent (ex.serviceTaskOutcome id implementation dm params) := by
  rw [serviceTaskOutcome]
  refine .bind .vars fun _ => .bind .process fun _ => ?_
  split
  · split
    · exact .pure _
    · refine .bind (ex.quiet_renderTemplate _ _ _ _) fun _ => ?_
      split
      · exact .pure _
      · exact then_pure (Silent.modifyVars _)
  · split
    · exact .pure _
    · refine .bind (ex.quiet_evaluateDecision _ _ _ _) fun _ => ?_
      split
      · exact .pure _
      · exact then_pure (Silent.modifyVars _)
  · split
    · exact .pure _
    · split
      · exact .pure _
      · exact quiet_runTaskFn _ _ _

theorem quiet_runCoverageOp (nodeId implementation : String) :
    Silent (ex.runCoverageOp nodeId implementation) := by
  rw [runCoverageOp]
  refine .bind .state fun _ => ?_
  dsimp only
  split
  · exact .fail _
  · refine .bind (.liftEval _) fun _ => ?_
    split
    · exact .fail _
    · split
      · refine .bind (.callOut _) fun _ => ?_
        split
        · exact .setVar _ _
        · exact .fail _
      · split
        · refine .bind (.callOut _) fun _ => ?_
          split
          · exact .setVar _ _
          · exact .fail _
        · exact .fail _

theorem quiet_recordCallFailure (nodeId code reason : String) :
    Silent (recordCallFailure nodeId code reason : Exec ω Unit) := .setVar _ _

theorem quiet_runScriptTask (id file : String) : Silent (ex.runScriptTask id file) := by
  rw [runScriptTask]
  refine .bind .state fun _ => ?_
  dsimp only
  split
  · exact .fail _
  · split
    · exact .fail _
    · split
      · exact .fail _
      · refine .bind .vars fun _ => .bind (ex.quiet_renderModel _ _) fun _ => ?_
        split
        · exact .fail _
        · split
          · exact .modifyVars _
          · exact .fail _

theorem quiet_runBusinessRuleTask (id file : String) : Silent (ex.runBusinessRuleTask id file) := by
  rw [runBusinessRuleTask]
  refine .bind .state fun _ => ?_
  dsimp only
  split
  · exact .fail _
  · split
    · exact .fail _
    · split
      · exact .fail _
      · refine .bind .vars fun _ => ?_
        split
        · exact .fail _
        · exact .modifyVars _

/-! ## Data tasks -/

theorem quiet_resolveStore (storeName nodeId : String) :
    Silent (ex.resolveStore storeName nodeId) := by
  rw [resolveStore]
  refine .bind .state fun _ => ?_
  split
  · exact .fail _
  · split
    · exact .pure _
    · exact .fail _

theorem quiet_storeCall (op : StoreOp) (store : String) (failed : String → Signal) :
    Silent (ex.storeCall op store failed) := by
  rw [storeCall]
  refine .bind (.callOut _) fun _ => ?_
  split
  · exact .fail _
  · exact .pure _

theorem quiet_storeCell (store : String) : Silent (storeCell store : Exec ω StoreCell) :=
  within_gets _

theorem quiet_queryBound (id store expr what : String) (vars : Variables) :
    Silent (ex.queryBound id store expr what vars) := by
  rw [queryBound]
  refine .bind (.liftEval _) fun _ => ?_
  split
  · exact .pure _
  · exact .fail _

theorem quiet_queryUpper (id store lower : String) (mode : StoreQueryMode) (vars : Variables) :
    Silent (ex.queryUpper id store lower mode vars) := by
  unfold queryUpper
  split
  · split
    · exact .fail _
    · exact .pure _
  · exact then_pure (ex.quiet_queryBound _ _ _ _ _)

theorem quiet_queryAfter (id store : String) (afterExpression : Option String) (vars : Variables) :
    Silent (ex.queryAfter id store afterExpression vars) := by
  unfold queryAfter
  split
  · exact .pure _
  · refine .bind (.liftEval _) fun _ => ?_
    split
    · exact .pure _
    · exact .pure _
    · exact .fail _

theorem quiet_runStoreQuery (id : String) (read : StoreRead) (query : StoreQuery)
    (vars : Variables) : Silent (ex.runStoreQuery id read query vars) := by
  rw [runStoreQuery]
  refine .bind (ex.quiet_queryBound _ _ _ _ _) fun _ =>
    .bind (ex.quiet_queryUpper _ _ _ _ _) fun _ => .bind (ex.quiet_queryAfter _ _ _ _) fun _ => ?_
  refine .bind (ex.quiet_resolveStore _ _) fun _ =>
    .bind (ex.quiet_storeCall _ _ _) fun _ => .bind (quiet_storeCell _) fun _ => ?_
  dsimp only
  split
  · exact .fail _
  · exact .pure _

theorem quiet_decodeContentType (decode : MessageDecodeBinding) (vars : Variables) :
    Silent (ex.decodeContentType decode vars) := by
  rw [decodeContentType]
  split
  · exact .pure _
  · refine .bind (.liftEval _) fun _ => ?_
    split <;> exact .pure _

theorem quiet_setMasked (name : String) (masked : Option FeelValue) :
    Silent (setMasked name masked : Exec ω Unit) := by
  unfold setMasked
  split
  · exact .setVar _ _
  · exact .pure _

theorem quiet_runMessageDecode (id : String) (decode : MessageDecodeBinding) :
    Silent (ex.runMessageDecode id decode) := by
  rw [runMessageDecode]
  refine .bind .state fun _ => .bind .vars fun _ => .bind (.liftEval _) fun _ => ?_
  split
  · refine .bind (ex.quiet_decodeContentType _ _) fun _ => ?_
    split
    · exact .fail _
    · split
      · exact .fail _
      · exact .fail _
      · exact .bind (quiet_setMasked _ _) fun _ => .setVar _ _
  · exact .fail _

theorem quiet_runAssignment (a : Assignment) : Silent (ex.runAssignment a) :=
  .bind .vars fun _ => .bind (.liftEval _) fun _ => .setVar _ _

theorem quiet_readForField (id : String) (write : StoreWrite) (store key : String) :
    Silent (ex.readForField id write store key) := by
  rw [readForField]
  split
  · exact ex.quiet_storeCall _ _ _
  · exact .pure _

/-! ## Loops and dispatch -/

theorem quiet_loopContinues (id : String) (loopCondition : Option String) :
    Silent (ex.loopContinues id loopCondition) := by
  rw [loopContinues]
  refine .bind .vars fun _ => ?_
  split
  · exact .pure _
  · split
    · exact .pure _
    · exact .fail _

theorem quiet_bindItem (itemVar : String) (item : Option FeelValue) :
    Silent (bindItem itemVar item : Exec ω Unit) := by
  unfold bindItem
  split
  · split
    · exact .pure _
    · exact .setVar _ _
  · exact .pure _

end TokenExecutor

end Sutra
