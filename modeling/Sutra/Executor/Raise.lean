import Sutra.Executor.Frontier

/-!
# Where BPMN errors come from

A BPMN error is caught by the scope and its pass goes on, so what the failed node did before it
raised matters.

* `keepsWaits_runNode`: no node parks a token and then raises a BPMN error. A node that parks does
  so last, and what can still fail after that fails the pass (`Raises FailsPass`).
-/

namespace Sutra

open Prog Relation

variable {ω α β : Type}

section primitives

open Exec

theorem raises_fail {Q : Signal → Prop} {sig : Signal} (h : Q sig) :
    Raises Q (fail sig : Exec ω α) := raises_throw h

theorem raises_liftEval (r : Except ExecError α) : Raises FailsPass (liftEval r : Exec ω α) := by
  refine raises_ofExcept fun e he => ?_
  cases r with
  | error e' =>
    cases he
    exact trivial
  | ok a => cases he

end primitives

namespace TokenExecutor

open Exec

variable (ex : TokenExecutor ω)

/-! ## Timers, retries and emissions fail for good -/

theorem raises_recordTimerWait (nodeId dueAt : String) :
    Raises FailsPass (recordTimerWait nodeId dueAt : Exec ω Unit) :=
  .modify fun _ => raises_modify _

theorem raises_scheduleTimerBoundaries (hostId : String) :
    Raises FailsPass (ex.scheduleTimerBoundaries hostId) :=
  .bind (.gets _) fun _ => .bind (ex.calm_freshTimerBoundaries _ _).raises fun _ =>
    raises_forEach fun _ _ => raises_recordTimerWait _ _

theorem raises_rearmFiredBoundary (fired : FiredTimer) :
    Raises FailsPass (ex.rearmFiredBoundary fired) := by
  rw [rearmFiredBoundary]
  split
  · refine .bind (raises_update _) fun _ => ?_
    split
    · exact raises_recordTimerWait _ _
    · exact .pure _
    · exact raises_fail (failsPass_fatalDiag _ _)
  · exact .pure _

theorem raises_parkRetry (id dueAt : String) (attempt : Nat) :
    Raises FailsPass (parkRetry id dueAt attempt : Exec ω Unit) :=
  .modify fun _ => .modify fun _ => raises_recordTimerWait _ _

theorem raises_parkArm (p : ProcessDefinition) (target : String) :
    Raises FailsPass (ex.parkArm p target) := by
  rw [parkArm]
  refine .modify fun _ => ?_
  split
  · exact .bind (ex.calm_computeDueAt _ _).raises fun _ => raises_recordTimerWait _ _
  · exact .pure _

end TokenExecutor

/-! ## A BPMN error comes before any wait -/

def SameWaits (m m' : Machine ω) : Prop := m'.st.waiting = m.st.waiting

instance : Std.Refl (SameWaits (ω := ω)) := ⟨fun _ => rfl⟩

instance : IsTrans (Machine ω) SameWaits := ⟨fun _ _ _ h h' => h'.trans h⟩

def KeepsWaits (x : Exec ω α) : Prop :=
  ∀ m source code m', x m = (.error (.bpmnError source code), m') → SameWaits m m'

section rules

variable {x : Exec ω α} {f : α → Exec ω β}

theorem keepsWaits_of_raises (h : Raises FailsPass x) : KeepsWaits x :=
  fun _ _ _ _ hr => (h _ _ _ hr).elim

theorem keepsWaits_of_within (h : Within SameWaits x) : KeepsWaits x := by
  intro m source code m' hr
  have hm := h m
  rw [hr] at hm
  exact hm

theorem KeepsWaits.bind (hx : Within SameWaits x) (hf : ∀ a, KeepsWaits (f a)) :
    KeepsWaits (x >>= f) := by
  intro m source code m' hr
  have hm := hx m
  rcases h : x m with ⟨sig | a, m₁⟩
  · rw [h] at hm
    rw [bind_run_error h] at hr
    rw [← (Prod.mk.inj hr).2]
    exact hm
  · rw [h] at hm
    rw [bind_run_ok h] at hr
    exact (hf a m₁ source code m' hr).trans hm

theorem KeepsWaits.andThen (hx : KeepsWaits x) (hf : ∀ a, Raises FailsPass (f a)) :
    KeepsWaits (x >>= f) := by
  intro m source code m' hr
  rcases h : x m with ⟨sig | a, m₁⟩
  · rw [bind_run_error h] at hr
    obtain ⟨hsig, rfl⟩ := Prod.mk.inj hr
    cases hsig
    exact hx m source code m₁ h
  · rw [bind_run_ok h] at hr
    exact (hf a m₁ _ m' hr).elim

theorem waiting_of_effects {F : Option FiredTimer} {C : String → Prop} {W : Bool}
    {s s' : ExecutionState} (h : Effects [] F C W s s') : s'.waiting = s.waiting := by
  induction h with
  | refl => rfl
  | tail _ h ih =>
    refine .trans ?_ ih
    cases h with
    | route h =>
      obtain ⟨_, _, _, _, _, _, _, _, _, _, rfl⟩ := h.frame
      rfl
    | parkFresh hT | parkAgain hT _ => cases hT
    | _ => rfl

/-- What may park nothing keeps the frontier. -/
theorem sameWaits_of_touches
    (h : ∀ p b F, Within (Touches p b F [] (fun _ => True) AnyView) x) : Within SameWaits x :=
  fun m => waiting_of_effects (h m.st.process m.st.retryParkable m.st.firedTimer m
    ⟨rfl, rfl, .inr rfl⟩).1

theorem sameWaits_of_quiet (h : Silent x) : Within SameWaits x :=
  sameWaits_of_touches fun _ _ _ => Acts.of_quiet h

theorem KeepsWaits.after (hx : Silent x) (hf : ∀ a, KeepsWaits (f a)) :
    KeepsWaits (x >>= f) := .bind (sameWaits_of_quiet hx) hf

theorem keepsWaits_fail (s : Signal) : KeepsWaits (Exec.fail s : Exec ω α) :=
  keepsWaits_of_within (sameWaits_of_quiet (.fail s))

end rules

namespace TokenExecutor

open Exec

variable (ex : TokenExecutor ω) (r : Nested ω)

theorem keepsWaits_runServiceTask (id impl : String) (dm : DataMapping)
    (params : List ParamBinding) (parkable : Bool) :
    KeepsWaits (ex.runServiceTask id impl dm params parkable) := by
  rw [runServiceTask]
  refine .after (.notify _) fun _ => ?_
  split
  · exact keepsWaits_of_within (.bind (sameWaits_of_quiet (ex.quiet_runCoverageOp _ _))
      fun _ => .bind (.modify fun _ => rfl) fun _ => .then_pure (sameWaits_of_quiet (.notify _)))
  · refine .after .vars fun _ => .after (.liftEval _) fun _ =>
        .after (ex.quiet_serviceTaskOutcome _ _ _ _) fun _ => ?_
    split
    · exact keepsWaits_of_raises (.modify fun _ => .modify fun _ => .pure _)
    · exact .after (.notify _) fun _ => keepsWaits_fail _
    · refine .after (.notify _) fun _ => .after (ex.quiet_planRetry _ _ _) fun _ => ?_
      split
      · exact keepsWaits_of_raises (.bind (raises_parkRetry _ _ _) fun _ => .pure _)
      · exact keepsWaits_fail _
      · exact keepsWaits_fail _
    · exact .after (.notify _) fun _ => keepsWaits_fail _

theorem keepsWaits_parkOrFailChannelCallRetry (id impl code detail reason : String) :
    KeepsWaits (ex.parkOrFailChannelCallRetry id impl code detail reason) := by
  have raised : ∀ uncaught, KeepsWaits
      (raiseChannelCallFailure id code reason uncaught : Exec ω Bool) := fun uncaught =>
    keepsWaits_of_within (sameWaits_of_touches fun _ _ _ => touches_raiseChannelCallFailure _ _ _ _)
  rw [parkOrFailChannelCallRetry]
  refine .after (.notify _) fun _ => .after .state fun _ =>
      .after (ex.quiet_planRetry _ _ _) fun _ => ?_
  split
  · exact keepsWaits_of_raises (.modify fun _ => .bind (raises_parkRetry _ _ _) fun _ => .pure _)
  · exact raised _
  · exact raised _

theorem sameWaits_takeFiredTimerFor (id : String) :
    Within SameWaits (updateState (·.takeFiredTimerFor id) : Exec ω (Option FiredTimer)) :=
  sameWaits_of_touches fun _ _ _ => Acts.updateState fun s _ => effects_takeFiredTimerFor s id

theorem keepsWaits_routeTimerBoundary (boundaryId hostId : String) : KeepsWaits (do
      routeTimerBoundary boundaryId hostId
      pure false : Exec ω Bool) :=
  keepsWaits_of_within (sameWaits_of_touches fun _ _ _ =>
    .then_pure (touches_routeTimerBoundary _ _))

theorem keepsWaits_runChannelCall (id impl : String) (dm : DataMapping)
    (params : List ParamBinding) : KeepsWaits (ex.runChannelCall id impl dm params) := by
  rw [runChannelCall]
  refine .bind (sameWaits_of_touches fun _ _ _ => Acts.updateState fun s _ =>
    effects_takeChannelCallFailureFor s id) fun _ => ?_
  split
  · exact ex.keepsWaits_parkOrFailChannelCallRetry _ _ _ _ _
  · refine .bind (sameWaits_takeFiredTimerFor id) fun _ => ?_
    split
    · refine .after .process fun _ => ?_
      split
      · exact ex.keepsWaits_parkOrFailChannelCallRetry _ _ _ _ _
      · exact keepsWaits_routeTimerBoundary _ _
    · rw [sendChannelCall]
      refine .after .state fun _ => ?_
      dsimp only
      split
      · exact keepsWaits_fail _
      · exact keepsWaits_of_raises (.bind (.gets _) fun _ =>
          .bind (raises_liftEval _) fun _ => .bind (ex.calm_cloudEventFor _).raises fun _ =>
            .modify fun _ => .modify fun _ => .modify fun _ =>
                .bind (ex.raises_scheduleTimerBoundaries _) fun _ => .pure _)

theorem keepsWaits_runServiceNode (id impl : String) (dm : DataMapping)
    (params : List ParamBinding) : KeepsWaits (ex.runServiceNode id impl dm params) := by
  rw [runServiceNode]
  refine .after .state fun st => .andThen (ex.keepsWaits_runServiceTask _ _ _ _ _) fun _ => ?_
  split
  · exact .pure _
  · refine .modify fun _ => .bind (ex.calm_emitReplyIfBound _).raises fun _ =>
      .bind (ex.calm_emitSendIfBound _ _).raises fun _ => ?_
    split
    · exact .modify fun _ => .bind (raises_update _) fun _ =>
        .bind (raises_recordTimerWait _ _) fun _ => .modify fun _ => .pure _
    · exact .modify fun _ => .pure _

theorem keepsWaits_runWaitNode (id : String) : KeepsWaits (ex.runWaitNode id) := by
  rw [runWaitNode]
  refine .bind (sameWaits_takeFiredTimerFor id) fun _ => ?_
  split
  · split
    · exact keepsWaits_routeTimerBoundary _ _
    · exact keepsWaits_of_raises (.modify fun _ =>
        .modify fun _ => .bind (ex.raises_rearmFiredBoundary _) fun _ => .pure _)
  · exact keepsWaits_of_raises (.modify fun _ =>
      .bind (ex.raises_scheduleTimerBoundaries _) fun _ => .pure _)

theorem keepsWaits_runNodeKind {p : ProcessDefinition} {nodeId : String} {node : Node}
    (hnode : p.node nodeId = .ok node) {m m' : Machine ω} (hp : m.st.process = p)
    {source code : String}
    (h : ex.runNodeKind r nodeId node m = (.error (.bpmnError source code), m')) :
    SameWaits m m' := by
  by_cases hT : parkTargets p m.st.retryParkable node = []
  · have heff := ex.touches_runNodeKind r (F := m.st.firedTimer) (T := []) hnode
      (fun id hid => hT ▸ hid) (records_true _) (ex.storeRules_any r p) (fun _ => trivial) m
      ⟨hp, rfl, .inr rfl⟩
    rw [h] at heff
    exact waiting_of_effects heff.1
  · cases node <;> try exact absurd rfl hT
    case serviceTask id impl dm params =>
      rw [runNodeKind] at h
      split at h
      · exact ex.keepsWaits_runChannelCall _ _ _ _ _ _ _ _ h
      · exact ex.keepsWaits_runServiceNode _ _ _ _ _ _ _ _ h
    case userTask | messageCatchEvent | receiveTask => exact ex.keepsWaits_runWaitNode _ _ _ _ _ h
    case timerCatchEvent id timer =>
      exact keepsWaits_of_raises (.modify fun _ => .bind (ex.calm_computeDueAt _ _).raises fun _ =>
          .bind (raises_recordTimerWait _ _) fun _ => .pure _) _ _ _ _ h
    case eventBasedGateway id =>
      exact keepsWaits_of_raises (.bind (.gets _) fun _ =>
        .bind (raises_forEach fun _ _ => ex.raises_parkArm _ _) fun _ => .pure _)
          _ _ _ _ h

theorem keepsWaits_passNode {nodeId : String} {node : Node} {m m' : Machine ω}
    (hnode : m.st.process.node nodeId = .ok node) {source code : String}
    (h : ex.passNode r nodeId node m = (.error (.bpmnError source code), m')) : SameWaits m m' := by
  have htail : ∀ left : Bool, Raises FailsPass (if left then pure () else (do
      notifyLeft nodeId node.nodeType
      modifyState (·.visit nodeId)) : Exec ω Unit) := by
    intro left
    split
    · exact .pure _
    · exact .bind (Calm.report _).raises fun _ => raises_modify _
  obtain ⟨w, hrun⟩ := notifyEntered_run nodeId node.nodeType m
  rw [passNode, bind_run_ok hrun] at h
  rcases hk : ex.runNodeKind r nodeId node { m with world := w } with ⟨sig | left, m₂⟩
  · rw [bind_run_error hk] at h
    obtain ⟨hsig, rfl⟩ := Prod.mk.inj h
    cases hsig
    exact ex.keepsWaits_runNodeKind r (m := { m with world := w }) hnode rfl hk
  · rw [bind_run_ok hk] at h
    exact (htail left m₂ _ m' h).elim

/-- **No node parks a token and then raises a BPMN error.** -/
theorem keepsWaits_runNode (nodeId : String) : KeepsWaits (ex.runNode r nodeId) := by
  intro m source code m' h
  rw [runNode_eq] at h
  cases hnode : m.st.process.node nodeId with
  | error e =>
    rw [hnode] at h
    cases (Prod.mk.inj h).1
  | ok node =>
    rw [hnode, bind_run_ok (show liftLookup (.ok node) m = (.ok node, m) from rfl)] at h
    split at h
    · have heff := (touches_ghostStep (T := []) (C := fun _ => True) (S := AnyView) nodeId node m
        (⟨rfl, rfl, .inr rfl⟩ : Scoped m.st.process m.st.retryParkable m.st.firedTimer m.st)).1
      rcases hg : ghostStep nodeId node m with ⟨sig | handled, m₁⟩
      · rw [hg] at heff
        rw [bind_run_error hg] at h
        rw [← (Prod.mk.inj h).2]
        exact waiting_of_effects heff
      · rw [hg] at heff
        rw [bind_run_ok hg] at h
        cases handled with
        | true => cases (Prod.mk.inj h).1
        | false =>
          have hnode' : m₁.st.process.node nodeId = .ok node := by
            rw [heff.process_eq]
            exact hnode
          exact (ex.keepsWaits_passNode r hnode' h).trans (waiting_of_effects heff)
    · exact ex.keepsWaits_passNode r hnode h

end TokenExecutor

end Sutra
