import Sutra.Executor.Frame

/-!
# Routing

What moves a token along the graph without doing anything else: a flow fires, a node is visited, a
join counts.

* `Routing A` lists these changes, for tokens that take flows of `A` only.
* `RoutingFrame` says what they leave alone, and `Routes p v A` is the relation on machines.
-/

namespace Sutra

open Prog Relation List Within

variable {ω α β : Type}

/-- One change of a scope's state by which a token moves on, along a flow of `A` if along any. -/
inductive Routing (A : SequenceFlow → Prop) : ExecutionState → ExecutionState → Prop
  | fire (s : ExecutionState) {flow : SequenceFlow} (h : A flow) : Routing A s (s.fire flow)
  | visit (s : ExecutionState) (id : String) : Routing A s (s.visit id)
  | counters (s : ExecutionState) (pa ia ie ca : String → Nat) (cf : List String) :
      Routing A s { s with
        parallelArrivals := pa, inclusiveArrivals := ia, inclusiveExpected := ie
        complexArrivals := ca, complexFired := cf }

def RoutingFrame (s s' : ExecutionState) : Prop :=
  ∃ w g t q v pa ia ie ca cf, s' = { s with
    work := w, ghostFlows := g, flowTrace := t, pathProgress := q, visited := v
    parallelArrivals := pa, inclusiveArrivals := ia, inclusiveExpected := ie
    complexArrivals := ca, complexFired := cf }

section frame

variable {s s' s'' : ExecutionState} {A : SequenceFlow → Prop}

theorem RoutingFrame.refl (s : ExecutionState) : RoutingFrame s s :=
  ⟨s.work, s.ghostFlows, s.flowTrace, s.pathProgress, s.visited, s.parallelArrivals,
    s.inclusiveArrivals, s.inclusiveExpected, s.complexArrivals, s.complexFired, rfl⟩

theorem RoutingFrame.trans (h : RoutingFrame s s') (h' : RoutingFrame s' s'') :
    RoutingFrame s s'' := by
  obtain ⟨_, _, _, _, _, _, _, _, _, _, rfl⟩ := h
  obtain ⟨w, g, t, q, v, pa, ia, ie, ca, cf, rfl⟩ := h'
  exact ⟨w, g, t, q, v, pa, ia, ie, ca, cf, rfl⟩

/-- A flow that fires leaves everything but routing alone. -/
theorem fire_frame (s : ExecutionState) (flow : SequenceFlow) : RoutingFrame s (s.fire flow) := by
  unfold ExecutionState.fire
  split
  · exact .refl s
  · exact ⟨_, _, _, _, _, _, _, _, _, _, rfl⟩

theorem Routing.frame (h : Routing A s s') : RoutingFrame s s' := by
  cases h with
  | fire => exact fire_frame s _
  | visit | counters => exact ⟨_, _, _, _, _, _, _, _, _, _, rfl⟩

theorem RoutingFrame.of_routing (h : ReflTransGen (Routing A) s s') : RoutingFrame s s' := by
  induction h with
  | refl => exact .refl s
  | tail _ h ih => exact ih.trans h.frame

theorem RoutingFrame.process (h : RoutingFrame s s') : s'.process = s.process := by
  obtain ⟨_, _, _, _, _, _, _, _, _, _, rfl⟩ := h
  rfl

theorem RoutingFrame.ghost (h : RoutingFrame s s') : s'.ghost = s.ghost := by
  obtain ⟨_, _, _, _, _, _, _, _, _, _, rfl⟩ := h
  rfl

end frame

theorem outgoing_subset (p : ProcessDefinition) (nodeId : String) :
    ∀ f ∈ p.outgoing nodeId, f ∈ p.flows := fun _ hf => mem_of_mem_filter hf

section routing

variable {A B : SequenceFlow → Prop} {s s' : ExecutionState}

theorem Routing.mono (hAB : ∀ f, A f → B f) (h : Routing A s s') : Routing B s s' := by
  cases h with
  | fire h => exact .fire s (hAB _ h)
  | visit id => exact .visit s id
  | counters pa ia ie ca cf => exact .counters s pa ia ie ca cf

theorem routing_fireAll (flows : List SequenceFlow) (s : ExecutionState) (h : ∀ f ∈ flows, A f) :
    ReflTransGen (Routing A) s (s.fireAll flows) := by
  induction flows generalizing s with
  | nil => exact .refl
  | cons f rest ih =>
    exact .head (.fire s (h f (.head _))) (ih _ fun g hg => h g (.tail _ hg))

theorem routing_enqueueOutgoing (s : ExecutionState) (nodeId : String)
    (h : ∀ f ∈ s.process.outgoing nodeId, A f) :
    ReflTransGen (Routing A) s (s.enqueueOutgoing nodeId) :=
  routing_fireAll _ s h

theorem routing_visitAll (nodeIds : List String) (s : ExecutionState) :
    ReflTransGen (Routing A) s (s.visitAll nodeIds) := by
  induction nodeIds generalizing s with
  | nil => exact .refl
  | cons n rest ih => exact .head (.visit s n) (ih _)

end routing

/-! ## Programs that route -/

/-- In a scope over `p` with variables `v` the state changes by routing along flows of `A`, the
variables and the stores stay, and a ghost leaves the world as it is. -/
def Routes (p : ProcessDefinition) (v : Variables) (A : SequenceFlow → Prop)
    (m m' : Machine ω) : Prop :=
  m.st.process = p → m.world.ctx.vars = v →
    ReflTransGen (Routing A) m.st m'.st ∧ m'.world.ctx.vars = v ∧
      (m'.world.stores = m.world.stores ∧ m'.world.writes = m.world.writes) ∧
      (m.st.ghost = true → m'.world = m.world)

section routes

open Exec

variable {p : ProcessDefinition} {v : Variables} {A : SequenceFlow → Prop}

instance : Std.Refl (Routes (ω := ω) p v A) := ⟨fun _ _ hv => ⟨.refl, hv, ⟨rfl, rfl⟩, fun _ => rfl⟩⟩

instance : IsTrans (Machine ω) (Routes p v A) := ⟨fun a b c h h' hp hv => by
  obtain ⟨hab, hb, hs, hw⟩ := h hp hv
  have hframe := RoutingFrame.of_routing hab
  obtain ⟨hbc, hc, hs', hw'⟩ := h' (hframe.process.trans hp) hb
  exact ⟨hab.trans hbc, hc, ⟨hs'.1.trans hs.1, hs'.2.trans hs.2⟩,
    fun hg => (hw' (hframe.ghost.trans hg)).trans (hw hg)⟩⟩

theorem routes_modifyState {f : ExecutionState → ExecutionState}
    (h : ∀ s, s.process = p → ReflTransGen (Routing A) s (f s)) :
    Within (Routes p v A) (modifyState f : Exec ω Unit) :=
  .modify fun m hp hv => ⟨h m.st hp, hv, ⟨rfl, rfl⟩, fun _ => rfl⟩

theorem routes_state_bind {f : ExecutionState → Exec ω β}
    (h : ∀ s, s.process = p → Within (Routes p v A) (f s)) : Within (Routes p v A) (state >>= f) :=
  within_gets_bind fun m hp => h m.st hp m hp

theorem routes_process_bind {f : ProcessDefinition → Exec ω β}
    (h : Within (Routes p v A) (f p)) : Within (Routes p v A) (process >>= f) :=
  within_gets_bind fun m hp => by
    rw [hp]
    exact h m hp

theorem routes_vars_bind {f : Variables → Exec ω β} (h : Within (Routes p v A) (f v)) :
    Within (Routes p v A) (vars >>= f) :=
  within_gets_bind fun m hp hv => by
    rw [hv]
    exact h m hp hv

theorem routes_bind {x : Exec ω α} {f : α → Exec ω β} (hx : Within (Routes p v A) x)
    (hf : ∀ m a m', m.st.process = p → x m = (.ok a, m') → Within (Routes p v A) (f a)) :
    Within (Routes p v A) (x >>= f) := fun m hp =>
  WithinAt.bind (hx.at m) (fun a m' h => (hf m a m' hp h).at m') hp

theorem routes_fail (sig : Signal) : Within (Routes p v A) (fail sig : Exec ω α) :=
  .throw sig

theorem routes_liftEval (e : Except ExecError α) : Within (Routes p v A) (liftEval e : Exec ω α) :=
  .ofExcept _

theorem routes_visit (nodeId : String) :
    Within (Routes p v A) (modifyState (·.visit nodeId) : Exec ω Unit) :=
  routes_modifyState fun s _ => .single (.visit s nodeId)

theorem routes_fireAll {flows : List SequenceFlow} (h : ∀ f ∈ flows, A f) :
    Within (Routes p v A) (modifyState (·.fireAll flows) : Exec ω Unit) :=
  routes_modifyState fun s _ => routing_fireAll _ s h

theorem routes_enqueueOutgoing {nodeId : String} (h : ∀ f ∈ p.outgoing nodeId, A f) :
    Within (Routes p v A) (modifyState (·.enqueueOutgoing nodeId) : Exec ω Unit) :=
  routes_modifyState fun s hs => routing_enqueueOutgoing s nodeId (hs ▸ h)

theorem routes_report (e : Event) : Within (Routes p v A) (report e : Exec ω Unit) := by
  refine within_gets_bind fun m _ hv => ?_
  split
  · exact ⟨.refl, hv, ⟨rfl, rfl⟩, fun _ => rfl⟩
  · exact ⟨.refl, hv, ⟨rfl, rfl⟩, fun hg => absurd hg (by assumption)⟩

end routes

namespace TokenExecutor

open Exec

variable (ex : TokenExecutor ω) {p : ProcessDefinition} {v : Variables} {A : SequenceFlow → Prop}

/-! ## Gateways -/

/-- Whether a flow's condition evaluates to true. -/
def flowHolds (v : Variables) (f : SequenceFlow) : Bool :=
  match ex.flowSatisfied v f with
  | .ok holds => holds
  | .error _ => false

/-- The flows along which a token may leave a gateway when the variables are `v`: the choice of an
exclusive one, every flow of a parallel one and of a converging one, the flows of a diverging
inclusive or complex one that hold, and its default. -/
def gatewayFlows (p : ProcessDefinition) (v : Variables) : Node → List SequenceFlow
  | .exclusiveGateway id d =>
    match ex.exclusiveChoice p v id d with
    | .ok f => [f]
    | .error _ => []
  | .parallelGateway id => p.outgoing id
  | .inclusiveGateway id d | .complexGateway id d _ =>
    (p.outgoing id).filter fun f => 1 < (p.incoming id).length ∨ ex.flowHolds v f ∨ d = some f.id
  | _ => []

variable {flow : SequenceFlow}

theorem routing_routeInclusiveFork (s : ExecutionState) (h : A flow) :
    ReflTransGen (Routing A) s (s.routeInclusiveFork flow) := by
  refine .head (.fire s h) ?_
  have bump : ∀ (joins : List String) (s : ExecutionState), ReflTransGen (Routing A) s
      (joins.foldl (fun s joinId => { s with
        inclusiveExpected :=
          Function.update s.inclusiveExpected joinId (s.inclusiveExpected joinId + 1) }) s) := by
    intro joins
    induction joins with
    | nil => exact fun _ => .refl
    | cons j rest ih =>
      exact fun s => .head (.counters s s.parallelArrivals s.inclusiveArrivals _ s.complexArrivals
        s.complexFired) (ih _)
  exact bump _ _

variable {d : Option String}

theorem default_outgoing {nodeId : String}
    (h : (d.bind fun d => (p.outgoing nodeId).find? (fun f => f.id == d)) = some flow) :
    flow ∈ p.outgoing nodeId ∧ d = some flow.id := by
  obtain ⟨e, rfl, hfind⟩ := Option.bind_eq_some_iff.mp h
  have hid : flow.id = e := by simpa using List.find?_some hfind
  exact ⟨mem_of_find?_eq_some hfind, by rw [hid]⟩

variable {flows : List SequenceFlow} {vars : Variables} {f : SequenceFlow} {c : Option String}

/-- The chosen flow is one of the candidates. -/
theorem chooseFlow_mem (h : ex.chooseFlow vars d flows = .ok (some flow)) : flow ∈ flows := by
  induction flows with
  | nil => cases h
  | cons f rest ih =>
    unfold chooseFlow at h
    split at h
    · exact .tail _ (ih h)
    · split at h
      · cases h
      · cases h
        exact .head _
      · exact .tail _ (ih h)

variable {id : String}

theorem exclusiveChoice_mem (h : ex.exclusiveChoice p vars id d = .ok flow) :
    flow ∈ p.outgoing id := by
  unfold exclusiveChoice at h
  split at h
  · cases h
  · rename_i hc
    cases h
    exact ex.chooseFlow_mem hc
  · split at h
    · rename_i hd
      cases h
      exact (default_outgoing hd).1
    · cases h

theorem mem_gatewayFlows_exclusive (h : ex.exclusiveChoice p v id d = .ok f) :
    f ∈ ex.gatewayFlows p v (.exclusiveGateway id d) := by
  rw [gatewayFlows, h]
  exact mem_singleton_self f

theorem mem_gatewayFlows_inclusive (hf : f ∈ p.outgoing id)
    (h : 1 < (p.incoming id).length ∨ ex.flowHolds v f ∨ d = some f.id) :
    f ∈ ex.gatewayFlows p v (.inclusiveGateway id d) :=
  mem_filter.mpr ⟨hf, decide_eq_true h⟩

theorem mem_gatewayFlows_complex (hf : f ∈ p.outgoing id)
    (h : 1 < (p.incoming id).length ∨ ex.flowHolds v f ∨ d = some f.id) :
    f ∈ ex.gatewayFlows p v (.complexGateway id d c) :=
  mem_filter.mpr ⟨hf, decide_eq_true h⟩

theorem gatewayFlows_subset {node : Node} : ∀ f ∈ ex.gatewayFlows p v node, f ∈ p.flows := by
  intro f h
  cases node <;> try cases h
  case exclusiveGateway id d =>
    rw [gatewayFlows] at h
    split at h
    · rename_i g hg
      cases mem_singleton.mp h
      exact outgoing_subset p id f (ex.exclusiveChoice_mem hg)
    · cases h
  case parallelGateway id => exact outgoing_subset p id f h
  case inclusiveGateway id d => exact outgoing_subset p id f (mem_of_mem_filter h)
  case complexGateway id d c => exact outgoing_subset p id f (mem_of_mem_filter h)

/-- A gateway moves its token along the flows that it may choose. -/
theorem routes_handleExclusive (h : ∀ f ∈ ex.gatewayFlows p v (.exclusiveGateway id d), A f) :
    Within (Routes p v A) (ex.handleExclusive id d) := by
  rw [handleExclusive]
  refine routes_process_bind (routes_vars_bind (routes_bind (.ofExcept _)
    fun m flow m' _ hc => routes_modifyState fun s _ => .single (.fire s (h flow ?_))))
  rw [ofExcept_run] at hc
  exact ex.mem_gatewayFlows_exclusive (Prod.mk.inj hc).1

theorem routes_forkSatisfied (h : ∀ f ∈ flows, ex.flowHolds v f → A f) :
    Within (Routes p v A) (ex.forkSatisfied v d flows) := by
  induction flows with
  | nil => exact .pure _
  | cons f rest ih =>
    have hrest := ih fun g hg => h g (.tail _ hg)
    rw [forkSatisfied]
    split
    · exact hrest
    · refine routes_bind (routes_liftEval _) fun m sat m' _ hsat =>
        .bind (routes_modifyState fun s _ => ?_) fun _ => then_pure hrest
      split
      · rename_i ht
        refine routing_routeInclusiveFork s (h f (.head _) ?_)
        rw [flowHolds, lift_eq_ok hsat]
        exact ht
      · exact .refl

theorem routes_handleInclusiveFork (noFlow : Signal)
    (h : ∀ f ∈ p.outgoing id, ex.flowHolds v f ∨ d = some f.id → A f) :
    Within (Routes p v A) (ex.handleInclusiveFork id d noFlow) := by
  rw [handleInclusiveFork]
  refine routes_process_bind (routes_vars_bind (.bind
    (ex.routes_forkSatisfied fun f hf hs => h f hf (.inl hs)) fun _ => ?_))
  split
  · exact .pure _
  · split
    · rename_i flow hd
      obtain ⟨hmem, hdef⟩ := default_outgoing hd
      exact routes_modifyState fun s _ => routing_routeInclusiveFork s (h flow hmem (.inr hdef))
    · exact routes_fail _

theorem routes_counters {f : ExecutionState → ExecutionState}
    (h : ∀ s, ∃ pa ia ie ca cf, f s = { s with
      parallelArrivals := pa, inclusiveArrivals := ia, inclusiveExpected := ie
      complexArrivals := ca, complexFired := cf } := by exact fun s => ⟨_, _, _, _, _, rfl⟩) :
    Within (Routes p v A) (modifyState f : Exec ω Unit) :=
  routes_modifyState fun s _ => by
    obtain ⟨pa, ia, ie, ca, cf, h⟩ := h s
    rw [h]
    exact .single (.counters s pa ia ie ca cf)

theorem routes_handleInclusive (h : ∀ f ∈ ex.gatewayFlows p v (.inclusiveGateway id d), A f) :
    Within (Routes p v A) (ex.handleInclusive id d) := by
  rw [handleInclusive]
  refine routes_state_bind fun st hs => ?_
  rw [hs]
  split
  · rename_i hjoin
    refine .bind routes_counters fun _ => ?_
    dsimp only
    split
    · exact then_pure (routes_report _)
    · exact .bind routes_counters fun _ => then_pure (routes_enqueueOutgoing fun f hf =>
          h f (ex.mem_gatewayFlows_inclusive hf (.inl hjoin)))
  · exact then_pure (ex.routes_handleInclusiveFork _ fun f hf hs =>
      h f (ex.mem_gatewayFlows_inclusive hf (.inr hs)))

theorem routes_handleParallel (h : ∀ f ∈ p.outgoing id, A f) :
    Within (Routes p v A) (handleParallel id : Exec ω Bool) := by
  rw [handleParallel]
  refine routes_state_bind fun st _ => ?_
  dsimp only
  split
  · split
    · exact .bind routes_counters fun _ => then_pure (routes_report _)
    · exact .bind routes_counters fun _ => then_pure (routes_enqueueOutgoing h)
  · exact then_pure (routes_enqueueOutgoing h)

theorem routes_handleComplex (h : ∀ f ∈ ex.gatewayFlows p v (.complexGateway id d c), A f) :
    Within (Routes p v A) (ex.handleComplex id d c) := by
  rw [handleComplex]
  refine routes_state_bind fun st hs => routes_vars_bind ?_
  rw [hs]
  dsimp only
  split
  · rename_i hjoin
    split
    · exact then_pure (routes_report _)
    · refine .bind routes_counters fun _ => .bind (routes_liftEval _) fun _ => ?_
      split
      · exact .bind routes_counters fun _ => then_pure (routes_enqueueOutgoing fun f hf =>
            h f (ex.mem_gatewayFlows_complex hf (.inl hjoin)))
      · exact then_pure (routes_report _)
  · exact then_pure (ex.routes_handleInclusiveFork _ fun f hf hs =>
      h f (ex.mem_gatewayFlows_complex hf (.inr hs)))

end TokenExecutor

end Sutra
