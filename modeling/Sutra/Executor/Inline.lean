import Sutra.Executor.Terminate

/-!
# Scopes that run inline

An embedded sub-process, a transaction, an event sub-process and a called process each run on a
state of their own, which is thrown away when the scope returns (`InlineScope`), and a token that
parked in there with it: the scope's node completes although the wait was never satisfied.

* `inline_scope_discards`: when that happens.
-/

namespace Sutra

open Prog Relation List TokenExecutor

variable {ω : Type}

/-! ## Nodes that always park -/

/-- Whether a live token at the node parks, unless the pass fails there. A service task with a
retry policy or a continuing reply parks on some outcomes only. -/
def parksAlways (p : ProcessDefinition) : Node → Bool
  | .userTask _ | .messageCatchEvent _ | .receiveTask _ | .timerCatchEvent _ _ => true
  | .serviceTask _ implementation _ _ => Text.startsWith channelCallPrefix implementation
  | .eventBasedGateway id => !(p.outgoing id).isEmpty
  | _ => false

structure Parks {α : Type} (x : Exec ω α) : Prop where
  raises : Raises FailsPass x
  parks : ∀ m a m', x m = (.ok a, m') → m'.st.waiting ≠ []

def KeepsSome (m m' : Machine ω) : Prop := m.st.waiting ≠ [] → m'.st.waiting ≠ []

instance : Std.Refl (KeepsSome (ω := ω)) := ⟨fun _ h => h⟩

instance : IsTrans (Machine ω) KeepsSome := ⟨fun _ _ _ h h' hm => h' (h hm)⟩

theorem KeepsSome.of_effects {T : List String} {F : Option FiredTimer} {C : String → Prop}
    {W : Bool} {m m' : Machine ω} (h : Effects T F C W m.st m'.st) : KeepsSome m m' := by
  intro hm
  obtain ⟨n, hn⟩ := exists_mem_of_ne_nil _ hm
  exact ne_nil_of_mem (h.grows.kept n hn)

theorem keepsSome_of_quiet {α : Type} {x : Exec ω α} (h : Silent x) : Within KeepsSome x :=
  h.mono fun _ _ hq hm => hq.1 ▸ hm

namespace TokenExecutor

open Exec

variable {α β : Type} (ex : TokenExecutor ω) (r : Nested ω) {f : α → Exec ω β}

theorem parks_after {x : Exec ω α} (hx : Raises FailsPass x)
    (hf : ∀ a, Parks (f a)) : Parks (x >>= f) where
  raises := .bind hx fun a => (hf a).raises
  parks m b m' h := by
    obtain ⟨a, m₁, -, h⟩ := bind_eq_ok h
    exact (hf a).parks m₁ b m' h

theorem parks_before {x : Exec ω α} (hx : Parks x)
    (hf : ∀ a, Raises FailsPass (f a)) (hk : ∀ a, Within KeepsSome (f a)) : Parks (x >>= f) where
  raises := .bind hx.raises hf
  parks m b m' h := by
    obtain ⟨a, m₁, hrun, h⟩ := bind_eq_ok h
    exact (hk a).of_run h (hx.parks m a m₁ hrun)

theorem parks_parkFresh (id : String) : Parks (modifyState (·.parkFresh id) : Exec ω Unit) where
  raises := raises_modify _
  parks m a m' h := by
    rw [← (Prod.mk.inj h).2]
    exact ne_nil_of_mem (mem_addIfNew.mpr (.inr rfl))

theorem keepsSome_recordTimerWait (nodeId dueAt : String) :
    Within KeepsSome (recordTimerWait nodeId dueAt : Exec ω Unit) :=
  .bind (.modify fun _ h => h) fun _ => keepsSome_of_quiet (.notify _)

theorem keepsSome_scheduleTimerBoundaries (hostId : String) :
    Within KeepsSome (ex.scheduleTimerBoundaries hostId) := fun m =>
  .of_effects (C := fun _ => True) (ex.touches_scheduleTimerBoundaries (p := m.st.process)
    (b := m.st.retryParkable) (F := m.st.firedTimer) (T := [hostId]) (S := AnyView)
      (.head _) m ⟨rfl, rfl, .inr rfl⟩).1

theorem parks_wait (id : String) : Parks (do
    modifyState (·.parkFresh id)
    ex.scheduleTimerBoundaries id
    pure true : Exec ω Bool) :=
  parks_before (parks_parkFresh id)
    (fun _ => .bind (ex.raises_scheduleTimerBoundaries _) fun _ => .pure _)
    fun _ => .then_pure (ex.keepsSome_scheduleTimerBoundaries _)

theorem parks_sendChannelCall (id impl : String) (dm : DataMapping)
    (params : List ParamBinding) : Parks (ex.sendChannelCall id impl dm params) := by
  rw [sendChannelCall]
  refine parks_after (.gets _) fun st => ?_
  dsimp only
  split
  · exact ⟨raises_fail (failsPass_fatalDiag _ _), fun _ _ _ h => by cases (Prod.mk.inj h).1⟩
  · exact parks_after (.gets _) fun _ => parks_after (raises_liftEval _) fun _ =>
      parks_after (ex.calm_cloudEventFor _).raises fun _ => parks_after (raises_modify _) fun _ =>
        parks_after (raises_modify _) fun _ => ex.parks_wait id

theorem parks_timerCatch (id : String) (timer : TimerDefinition) :
    Parks (ex.runTimerCatch id timer) :=
  parks_before (parks_parkFresh id)
    (fun _ => .bind (ex.calm_computeDueAt _ _).raises fun _ =>
      .bind (raises_recordTimerWait _ _) fun _ => .pure _)
    fun _ => .bind (keepsSome_of_quiet (ex.calm_computeDueAt _ _).silent) fun _ =>
      .then_pure (keepsSome_recordTimerWait _ _)

theorem keepsSome_parkArm (p : ProcessDefinition) (target : String) :
    Within KeepsSome (ex.parkArm p target) := by
  rw [parkArm]
  refine .bind (.modify fun m hm => ?_) fun _ => ?_
  · obtain ⟨n, hn⟩ := exists_mem_of_ne_nil _ hm
    exact ne_nil_of_mem (mem_addIfNew.mpr (.inl hn))
  · split
    · exact .bind (keepsSome_of_quiet (ex.calm_computeDueAt _ _).silent) fun _ =>
        keepsSome_recordTimerWait _ _
    · exact .pure _

theorem parks_parkArm (p : ProcessDefinition) (target : String) : Parks (ex.parkArm p target) := by
  refine parks_before (parks_parkFresh target) (fun _ => ?_) fun _ => ?_
  · split
    · exact .bind (ex.calm_computeDueAt _ _).raises fun _ => raises_recordTimerWait _ _
    · exact .pure _
  · split
    · exact .bind (keepsSome_of_quiet (ex.calm_computeDueAt _ _).silent) fun _ =>
        keepsSome_recordTimerWait _ _
    · exact .pure _

theorem parks_arms (p : ProcessDefinition) {flows : List SequenceFlow} (h : flows ≠ []) :
    Parks (Prog.forEach flows fun flow => ex.parkArm p flow.targetRef) := by
  cases flows with
  | nil => exact absurd rfl h
  | cons f rest =>
    exact parks_before (ex.parks_parkArm p _)
      (fun _ => raises_forEach fun _ _ => ex.raises_parkArm _ _)
      fun _ => .forEach fun _ _ => ex.keepsSome_parkArm _ _

theorem parks_runNodeKind {node : Node} (nodeId : String) {m : Machine ω}
    (h : parksAlways m.st.process node) (hf : m.st.firedTimer = none)
    (hc : m.st.channelCallFailure = none) :
    ∃ x, Parks x ∧ ex.runNodeKind r nodeId node m = x m := by
  have hfired : ∀ id, (m.st.takeFiredTimerFor id) = (none, m.st) := by
    intro id
    rw [ExecutionState.takeFiredTimerFor, hf]
  have hfailure : ∀ id, (m.st.takeChannelCallFailureFor id) = (none, m.st) := by
    intro id
    rw [ExecutionState.takeChannelCallFailureFor, hc]
  have htakeF : ∀ id, updateState (·.takeFiredTimerFor id) m = (.ok none, m) := by
    intro id
    rw [updateState, update_run, hfired]
  have htakeC : ∀ id, updateState (·.takeChannelCallFailureFor id) m = (.ok none, m) := by
    intro id
    rw [updateState, update_run, hfailure]
  cases node <;> try cases h
  case userTask id | messageCatchEvent id | receiveTask id =>
    exact ⟨_, ex.parks_wait id, bind_run_ok (htakeF id)⟩
  case timerCatchEvent id timer => exact ⟨_, ex.parks_timerCatch id timer, rfl⟩
  case serviceTask id impl dm params =>
    have hcall : Text.startsWith channelCallPrefix impl := h
    refine ⟨_, ex.parks_sendChannelCall id impl dm params, ?_⟩
    rw [runNodeKind, if_pos hcall, runChannelCall, bind_run_ok (htakeC id)]
    exact bind_run_ok (htakeF id)
  case eventBasedGateway id =>
    have hne : m.st.process.outgoing id ≠ [] := by
      intro hnil
      rw [parksAlways, hnil] at h
      cases h
    refine ⟨_, parks_before (ex.parks_arms m.st.process hne) (fun _ => .pure true)
      fun _ => .pure true, rfl⟩

theorem handleSignal_failsPass (kind : ScopeKind) {sig : Signal} (h : FailsPass sig)
    (m : Machine ω) : ∃ sig', (handleSignal r kind sig m).1 = .error sig' := by
  cases sig with
  | bpmnError | txCancel => exact h.elim
  | fatal | panic | outOfFuel => cases kind <;> exact ⟨_, rfl⟩

/-- **A token at a node that always parks is parked, unless the pass failed.** -/
theorem tokenStep_parks {kind : ScopeKind} {nodeId : String} {node : Node} {m m' : Machine ω}
    {go : Bool} (hg : m.st.ghost = false) (hnode : m.st.process.node nodeId = .ok node)
    (hpark : parksAlways m.st.process node) (hf : m.st.firedTimer = none)
    (hc : m.st.channelCallFailure = none) (h : ex.tokenStep r kind nodeId m = (.ok go, m')) :
    m'.st.waiting ≠ [] := by
  have hparks : ∀ res m₁, ex.passNode r nodeId node m = (res, m₁) →
      (∃ sig, res = .error sig ∧ FailsPass sig) ∨ (res = .ok () ∧ m₁.st.waiting ≠ []) := by
    intro res m₁ hpass
    obtain ⟨w, hent⟩ := notifyEntered_run nodeId node.nodeType m
    obtain ⟨x, hx, hrun⟩ := ex.parks_runNodeKind r nodeId (m := { m with world := w }) hpark hf hc
    rw [passNode, bind_run_ok hent] at hpass
    rcases hk : ex.runNodeKind r nodeId node { m with world := w } with ⟨sig | left, m₃⟩
    · rw [bind_run_error hk] at hpass
      exact .inl ⟨sig, (Prod.mk.inj hpass).1.symm, hx.raises _ _ _ (hrun.symm.trans hk)⟩
    · rw [bind_run_ok hk] at hpass
      have hw := hx.parks _ _ _ (hrun.symm.trans hk)
      cases left with
      | true =>
        obtain ⟨rfl, rfl⟩ := Prod.mk.inj hpass
        exact .inr ⟨rfl, hw⟩
      | false =>
        obtain ⟨w', hleft⟩ := notifyLeft_run nodeId node.nodeType m₃
        rw [if_neg (fun h => by cases h), bind_run_ok hleft] at hpass
        obtain ⟨rfl, rfl⟩ := Prod.mk.inj hpass
        exact .inr ⟨rfl, hw⟩
  obtain ⟨res, m₁, hres, h⟩ := bind_eq_ok h
  have hpass : ex.passNode r nodeId node m = (res, m₁) := by
    rw [← ex.runNode_live r hg hnode]
    exact Prod.ext (Except.ok.inj (Prod.mk.inj hres).1) (Prod.mk.inj hres).2
  rcases hparks res m₁ hpass with ⟨sig, rfl, hsig⟩ | ⟨rfl, hw⟩
  · obtain ⟨sig', herr⟩ := handleSignal_failsPass r kind hsig m₁
    rw [show handleSignal r kind sig m₁ = _ from h] at herr
    cases herr
  · rw [← (Prod.mk.inj h).2]
    exact hw

end TokenExecutor

/-! ## The four scopes -/

/-- A scope that runs inline, by the node that runs it. -/
inductive InlineScope where
  | embedded (id : String)
  | transaction (id : String)
  | event (id : String)
  | called (deployment : DeploymentId)

namespace InlineScope

def kind : InlineScope → ScopeKind
  | .embedded id | .event id => .sub id
  | .transaction id => .tx id
  | .called _ => .top

def initial (parent : ExecutionState) (inner : ProcessDefinition) : InlineScope → ExecutionState
  | .embedded _ => { parent.child inner with retryParkable := false }
  | .transaction _ => { parent.child inner with storeTx := some .empty }
  | .event _ => { parent.child inner with storeTx := parent.storeTx }
  | .called deployment => .new inner deployment parent.labels parent.instanceId

variable (ex : TokenExecutor ω) (r : Nested ω) (inner : ProcessDefinition)

/-- What runs on that state. -/
def body : InlineScope → Exec ω Bool
  | .transaction id => do
    let outcome ← Prog.attempt (ex.transactionBody r id inner)
    ex.rollbackStoreTx
    Prog.ofExcept outcome
  | scope => runScope r inner scope.kind

def run : InlineScope → Exec ω Unit
  | .embedded id => runEmbeddedSubProcess r id inner
  | .transaction id => do
    let _ ← ex.runTransactionSubProcess r id inner
    pure ()
  | .event id => runEventSubProcess r id inner
  | .called deployment => runSubProcessInline r inner deployment

/-- How the scope ends when it is run from `m`, and the state it leaves behind. -/
def outcome (scope : InlineScope) (m : Machine ω) : Except Signal Bool × ExecutionState :=
  let out := scope.body ex r inner ⟨m.world, scope.initial m.st inner⟩
  (out.1, out.2.st)

variable {ex r inner} {m m' : Machine ω}

/-- A runner that goes on with the result of its scope returns only if the scope did. -/
theorem ofScope_ok {α : Type} {sub : ExecutionState → ExecutionState} {x : Exec ω Bool}
    {f : Except Signal Bool × ExecutionState → Exec ω α} {a : α}
    (h : (Exec.state >>= fun st => inScope (sub st) x >>= f) m = (.ok a, m'))
    (hf : ∀ out t a t', f out t = (.ok a, t') → ∃ c, out.1 = .ok c) :
    ∃ c, (x ⟨m.world, sub m.st⟩).1 = .ok c := by
  have hrun : (inScope (sub m.st) x >>= f) m = (.ok a, m') := h
  obtain ⟨out, t, hscope, h⟩ := bind_eq_ok hrun
  obtain ⟨c, hc⟩ := hf out t a m' h
  have hout := Except.ok.inj (Prod.mk.inj hscope).1
  exact ⟨c, (congrArg Prod.fst hout).trans hc⟩

theorem ofExcept_ok {α β : Type} {res : Except Signal α} {f : α → Exec ω β}
    {b : β} (h : (Prog.ofExcept res >>= f) m = (.ok b, m')) : ∃ c, res = .ok c := by
  obtain ⟨c, _, hc, -⟩ := bind_eq_ok h
  rw [ofExcept_run] at hc
  exact ⟨c, (Prod.mk.inj hc).1⟩

variable {scope : InlineScope}

/-- **A runner returns only if its scope did.** -/
theorem run_ok
    (h : scope.run ex r inner m = (.ok (), m')) : ∃ c, (scope.outcome ex r inner m).1 = .ok c := by
  cases scope with
  | embedded id =>
    refine ofScope_ok h fun out t a t' hf => ?_
    obtain ⟨_, _, -, hf⟩ := bind_eq_ok hf
    exact ofExcept_ok hf
  | transaction id =>
    obtain ⟨c, _, htx, -⟩ := bind_eq_ok h
    refine ofScope_ok htx fun out t a t' hf => ?_
    obtain ⟨_, _, -, hf⟩ := bind_eq_ok hf
    rw [ofExcept_run] at hf
    exact ⟨a, (Prod.mk.inj hf).1⟩
  | event id =>
    refine ofScope_ok h fun out t a t' hf => ?_
    obtain ⟨_, _, -, hf⟩ := bind_eq_ok hf
    obtain ⟨_, _, -, hf⟩ := bind_eq_ok hf
    exact ofExcept_ok hf
  | called deployment => exact ofScope_ok h fun out t a t' hf => ofExcept_ok hf

/-! ## The run of a scope -/

def startMachine (scope : InlineScope) (inner : ProcessDefinition) (m : Machine ω)
    (start : String) : Machine ω := ⟨m.world, (scope.initial m.st inner).pushWork start⟩

variable (ex inner) in
def moves (fuel : Nat) (scope : InlineScope) (m : Machine ω) : List (Move ω) :=
  match inner.startEvent with
  | .ok start => ex.moves fuel scope.kind (scope.startMachine inner m start.id)
  | .error _ => []

variable {c : Bool}

theorem runScope_ok {kind : ScopeKind} (h : runScope r inner kind m = (.ok c, m')) :
    ∃ start, inner.startEvent = .ok start ∧
      r.drain kind { m with st := m.st.pushWork start.id } = (.ok c, m') := by
  obtain ⟨start, m₁, hstart, h⟩ := bind_eq_ok h
  have hlook := lift_eq_ok hstart
  rw [hlook] at hstart
  obtain ⟨-, rfl⟩ := Prod.mk.inj hstart
  exact ⟨start, hlook, h⟩

theorem transaction_waiting {id : String}
    (h : (InlineScope.transaction id).body ex r inner m = (.ok c, m')) :
    ∃ c' m₁, runScope r inner (.tx id) m = (.ok c', m₁) ∧ m'.st.waiting = m₁.st.waiting := by
  obtain ⟨res, m₂, hbody, h⟩ := bind_eq_ok h
  obtain ⟨_, m₃, hrollback, h⟩ := bind_eq_ok h
  rw [ofExcept_run] at h
  obtain ⟨rfl, rfl⟩ := Prod.mk.inj h
  have hbody : ex.transactionBody r id inner m = (.ok c, m₂) :=
    Prod.ext (Except.ok.inj (Prod.mk.inj hbody).1) (Prod.mk.inj hbody).2
  obtain ⟨cancelled, m₁, hscope, htail⟩ := bind_eq_ok hbody
  have hback := (sameWaits_of_touches fun _ _ _ => ex.touches_rollbackStoreTx).of_run hrollback
  refine ⟨cancelled, m₁, hscope, hback.trans (Within.of_run (R := SameWaits) ?_ htail)⟩
  split
  · exact sameWaits_of_touches fun _ _ _ =>
      Within.then_pure (ex.touches_fireCompensation (records_true _) _)
  · refine Within.bind (sameWaits_of_touches fun _ _ _ => ex.touches_commitStoreTx) fun _ => ?_
    split
    · exact sameWaits_of_quiet (.fail _)
    · exact .pure _

section Outcome

variable {fuel : Nat} (h : (scope.outcome ex ⟨fuel, ex.drain fuel⟩ inner m).1 = .ok c)
include h

/-- The frontier a scope leaves is the one its drained work list left. -/
theorem outcome_waiting : ∃ start c' m₁, inner.startEvent = .ok start ∧
      ex.drain fuel scope.kind (scope.startMachine inner m start.id) = (.ok c', m₁) ∧
      (scope.outcome ex ⟨fuel, ex.drain fuel⟩ inner m).2.waiting = m₁.st.waiting := by
  have plain : ∀ {kind : ScopeKind} {m₀ : Machine ω},
      (runScope ⟨fuel, ex.drain fuel⟩ inner kind m₀).1 = .ok c →
      ∃ start c' m₁, inner.startEvent = .ok start ∧
        ex.drain fuel kind { m₀ with st := m₀.st.pushWork start.id } = (.ok c', m₁) ∧
        (runScope ⟨fuel, ex.drain fuel⟩ inner kind m₀).2.st.waiting = m₁.st.waiting := by
    intro kind m₀ h
    obtain ⟨start, hstart, hdrain⟩ := runScope_ok (Prod.ext h rfl)
    exact ⟨start, c, _, hstart, hdrain, rfl⟩
  cases scope with
  | transaction id =>
    have hbody : (InlineScope.transaction id).body ex ⟨fuel, ex.drain fuel⟩ inner
        ⟨m.world, (InlineScope.transaction id).initial m.st inner⟩ = (.ok c, _) := Prod.ext h rfl
    obtain ⟨c', m₁, hscope, hw⟩ := transaction_waiting hbody
    obtain ⟨start, hstart, hdrain⟩ := runScope_ok hscope
    exact ⟨start, c', m₁, hstart, hdrain, hw⟩
  | embedded | event | called => exact plain h

theorem outcome_waiting_nil
    (hmoves : ∀ mv ∈ scope.moves ex inner fuel m, waitsOf mv.before.st mv.node = []) :
    (scope.outcome ex ⟨fuel, ex.drain fuel⟩ inner m).2.waiting = [] := by
  obtain ⟨start, c', m₁, hstart, hdrain, hw⟩ := outcome_waiting h
  rw [hw]
  rw [moves, hstart] at hmoves
  have hrun := ex.run_drain fuel scope.kind (scope.startMachine inner m start.id)
  rw [hdrain] at hrun
  refine hrun.invariant (I := fun m => m.st.waiting = []) (fun mv hmv a b hab ha => ?_) ?_
  · have heff := hab.effects
    have hT : waitsOf a.st mv.node = [] := by
      rw [← hmoves mv hmv]
      obtain ⟨rest, -, hbefore, -⟩ := hab
      rw [hbefore]
      rfl
    rw [hT] at heff
    obtain ⟨rest, -, hbefore, -⟩ := hab
    rw [waiting_of_effects heff, hbefore]
    exact ha
  · cases scope <;> rfl

theorem outcome_waiting_ne_nil {mv : Move ω} {node : Node}
    (hmv : mv ∈ scope.moves ex inner fuel m) (hnode : inner.node mv.node = .ok node)
    (hpark : parksAlways inner node) :
    (scope.outcome ex ⟨fuel, ex.drain fuel⟩ inner m).2.waiting ≠ [] := by
  obtain ⟨start, c', m₁, hstart, hdrain, hw⟩ := outcome_waiting h
  rw [hw]
  rw [moves, hstart] at hmv
  have hrun := ex.run_drain fuel scope.kind (scope.startMachine inner m start.id)
  obtain ⟨go, hgo⟩ := (ex.drain_ok hdrain).2 mv hmv
  rw [hdrain] at hrun
  obtain ⟨mvs, a, b, mvs', -, hpre, hab, hpost⟩ := hrun.split hmv
  -- the scope starts live, with no fired timer and no call failure, and stays so
  have hinv : a.st.process = inner ∧ a.st.ghost = false ∧ a.st.firedTimer = none ∧
      a.st.channelCallFailure = none := by
    refine hpre.invariant (I := fun m => m.st.process = inner ∧ m.st.ghost = false ∧
      m.st.firedTimer = none ∧ m.st.channelCallFailure = none) (fun mv _ a b hab ha => ?_) ?_
    · have heff := hab.effects
      obtain ⟨rest, -, hbefore, -⟩ := id hab
      refine ⟨hab.process_eq.trans ha.1, hab.ghost_eq.trans ha.2.1, ?_,
        heff.channelCallFailure (hbefore ▸ ha.2.2.2)⟩
      rcases heff.firedTimer with hf | hf
      · exact hf
      · rw [hf, hbefore]
        exact ha.2.2.1
    · cases scope <;> exact ⟨rfl, rfl, rfl, rfl⟩
  obtain ⟨rest, -, hbefore, hb⟩ := id hab
  have hparked : b.st.waiting ≠ [] := by
    have hstep : ex.tokenStep (ex.inner mv) scope.kind mv.node mv.before
        = (.ok go, b) := Prod.ext hgo hb.symm
    rw [hbefore] at hstep
    exact ex.tokenStep_parks _ (m := a.withWork rest) hinv.2.1 (hinv.1.symm ▸ hnode)
      (hinv.1.symm ▸ hpark) hinv.2.2.1 hinv.2.2.2 hstep
  refine hpost.invariant (I := fun m => m.st.waiting ≠ []) (fun mv _ a b hab ha => ?_) hparked
  obtain ⟨rest, -, hbefore, -⟩ := id hab
  exact KeepsSome.of_effects (m := mv.before) hab.effects (hbefore ▸ ha)

end Outcome

/-- **What an inline scope throws away.**  When its runner returns, the frontier of the state it
discards is empty if no node that can park was executed in the scope, and it is not if a node was
executed that always parks. -/
theorem inline_scope_discards {scope : InlineScope} {fuel : Nat} {m m' : Machine ω}
    (h : scope.run ex ⟨fuel, ex.drain fuel⟩ inner m = (.ok (), m')) :
    ((∀ mv ∈ scope.moves ex inner fuel m, waitsOf mv.before.st mv.node = []) →
      (scope.outcome ex ⟨fuel, ex.drain fuel⟩ inner m).2.waiting = []) ∧
    ∀ mv ∈ scope.moves ex inner fuel m, ∀ node, inner.node mv.node = .ok node →
      parksAlways inner node = true →
        (scope.outcome ex ⟨fuel, ex.drain fuel⟩ inner m).2.waiting ≠ [] := by
  obtain ⟨c, hc⟩ := run_ok h
  exact ⟨outcome_waiting_nil hc, fun mv hmv node hnode hpark =>
    outcome_waiting_ne_nil hc hmv hnode hpark⟩

end InlineScope

def oneTask (task : Node) : ProcessDefinition where
  id := "inner"
  nodes := [.startEvent "begin", task, .endEvent "done"]
  flows := [⟨"a", "begin", task.id, none⟩, ⟨"b", task.id, "done", none⟩]
  bindings := .empty
  coveragePaths := []

def embedding (inner : ProcessDefinition) : ProcessDefinition where
  id := "outer"
  nodes := [.startEvent "start", .subProcess "sub" inner, .endEvent "end"]
  flows := [⟨"in", "start", "sub", none⟩, ⟨"out", "sub", "end", none⟩]
  bindings := .empty
  coveragePaths := []

theorem manual_inside_discards_nothing :
    ((InlineScope.embedded "sub").outcome (.builder (fun _ => none) "i" "now")
      ⟨10, drain (.builder (fun _ => none) "i" "now") 10⟩ (oneTask (.manualTask "sign"))
      (atStart (embedding (oneTask (.manualTask "sign"))))).2.waiting = [] := by
  have h : (InlineScope.embedded "sub").run (.builder (fun _ => none) "i" "now")
      ⟨10, drain (.builder (fun _ => none) "i" "now") 10⟩ (oneTask (.manualTask "sign"))
      (atStart (embedding (oneTask (.manualTask "sign")))) = (.ok (), _) := rfl
  refine (InlineScope.inline_scope_discards h).1 fun mv hmv => ?_
  have hall : ((InlineScope.embedded "sub").moves (.builder (fun _ => none) "i" "now")
      (oneTask (.manualTask "sign")) 10 (atStart (embedding (oneTask (.manualTask "sign"))))).all
        (fun mv => waitsOf mv.before.st mv.node = []) := by decide
  exact of_decide_eq_true (all_eq_true.mp hall mv hmv)

/-- A user task in an embedded sub-process: its token is parked in there, the sub-process returns,
the parked token is discarded with its state, and the pass completes. -/
theorem review_inside_dropped :
    (∃ m', (InlineScope.embedded "sub").run (.builder (fun _ => none) "i" "now")
      ⟨10, drain (.builder (fun _ => none) "i" "now") 10⟩ (oneTask (.userTask "review"))
      (atStart (embedding (oneTask (.userTask "review")))) = (.ok (), m')) ∧
    ((InlineScope.embedded "sub").outcome (.builder (fun _ => none) "i" "now")
      ⟨10, drain (.builder (fun _ => none) "i" "now") 10⟩ (oneTask (.userTask "review"))
      (atStart (embedding (oneTask (.userTask "review"))))).2.waiting = ["review"] ∧
    ∃ o v m', (builder (fun _ => none) "i" "now").driveStateful 20 none
      (atStart (embedding (oneTask (.userTask "review")))) = (.ok (.completed "i" o v), m') :=
  ⟨⟨_, rfl⟩, rfl, _, _, _, rfl⟩

end Sutra
