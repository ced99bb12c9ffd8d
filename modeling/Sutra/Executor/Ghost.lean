import Sutra.Executor.Run

/-!
# The reconstruction walk

A resume begins by walking *ghost* tokens over the part of the graph that earlier passes completed,
so that converging gateways get back the tokens waiting there.

* `ghostMove_runNode`: a ghost's step is routing along the flows of `ghostFlowsFrom`, or a jump when
  its node is a link throw, and nothing else.
-/

namespace Sutra

open Prog Relation List TokenExecutor

variable {ω : Type}

def Node.isGateway : Node → Bool
  | .exclusiveGateway _ _ | .inclusiveGateway _ _ | .parallelGateway _
  | .complexGateway _ _ _ => true
  | _ => false

def isLinkThrow (p : ProcessDefinition) (nodeId : String) : Bool :=
  match p.node nodeId with
  | .ok (.intermediateThrowEvent _ .link _ _) => true
  | _ => false

def TokenExecutor.ghostFlowsAt (ex : TokenExecutor ω) (v : Variables) (s : ExecutionState)
    (nodeId : String) (node : Node) : List SequenceFlow :=
  match node with
  | .exclusiveGateway _ _ | .inclusiveGateway _ _ | .parallelGateway _
  | .complexGateway _ _ _ => ex.gatewayFlows s.process v node
  | .eventBasedGateway id => decidedArms s id
  | .intermediateThrowEvent _ .link _ _ => []
  | .startEvent _ | .linkCatchEvent _ _ | .boundaryEvent _ _ _ _ _ _ _
  | .intermediateThrowEvent _ _ _ _ => s.process.outgoing nodeId
  | _ => ghostExits s nodeId

def TokenExecutor.ghostFlowsFrom (ex : TokenExecutor ω) (v : Variables) (s : ExecutionState)
    (nodeId : String) : List SequenceFlow :=
  if s.resumeEntry = some nodeId ∨ nodeId ∈ s.priorWaiting then []
  else
    match s.process.node nodeId with
    | .error _ => []
    | .ok node => ex.ghostFlowsAt v s nodeId node

def ghostJump (s : ExecutionState) (nodeId : String) : Option String :=
  if s.resumeEntry = some nodeId ∨ nodeId ∈ s.priorWaiting then none
  else
    match s.process.node nodeId with
    | .ok (.intermediateThrowEvent _ .link _ reference) =>
      TokenExecutor.linkCatch s.process (reference.getD "")
    | _ => none

variable {nodeId target n : String} {s : ExecutionState} {p : ProcessDefinition}

theorem isLinkThrow_of_ghostJump (h : ghostJump s nodeId = some target) :
    isLinkThrow s.process nodeId ∧
      ∃ name, TokenExecutor.linkCatch s.process name = some target := by
  rw [ghostJump] at h
  split at h
  · cases h
  · split at h
    · rename_i hnode
      refine ⟨?_, _, h⟩
      rw [isLinkThrow]
      rw [hnode]
    · cases h

/-- What a ghost's step does to the state: routing along flows of `A`, and a jump before it from a
link throw to a link catch. -/
inductive GhostMove (A : SequenceFlow → Prop) (nodeId : String) (s s' : ExecutionState) : Prop
  | route (h : ReflTransGen (Routing A) s s')
  | jump {target : String} (hjump : ghostJump s nodeId = some target)
      (h : ReflTransGen (Routing A) (s.pushWork target) s')

variable {s s' : ExecutionState} {A : SequenceFlow → Prop}

theorem GhostMove.frame (h : GhostMove A nodeId s s') : RoutingFrame s s' := by
  cases h with
  | route h => exact .of_routing h
  | jump _ h => exact .trans ⟨_, _, _, _, _, _, _, _, _, _, rfl⟩ (.of_routing h)

namespace TokenExecutor

open Exec

variable (ex : TokenExecutor ω) (r : Nested ω) {p : ProcessDefinition} {v : Variables}

/-! ## A ghost's step -/

variable {node : Node}

theorem routes_runNodeKind (h : node.isGateway) (nodeId : String) :
    Within (Routes p v (· ∈ ex.gatewayFlows p v node)) (ex.runNodeKind r nodeId node) := by
  cases node <;> try cases h
  case exclusiveGateway =>
    exact .then_pure (ex.routes_handleExclusive fun _ hf => hf)
  case inclusiveGateway => exact ex.routes_handleInclusive fun _ hf => hf
  case parallelGateway => exact routes_handleParallel fun _ hf => hf
  case complexGateway => exact ex.routes_handleComplex fun _ hf => hf

theorem routes_passNode (h : node.isGateway) (nodeId : String) :
    Within (Routes p v (· ∈ ex.gatewayFlows p v node)) (ex.passNode r nodeId node) := by
  rw [passNode]
  refine .bind (routes_report _) fun _ =>
    .bind (ex.routes_runNodeKind r h nodeId) fun _ => ?_
  split
  · exact .pure _
  · exact .bind (routes_report _) fun _ => routes_visit _

theorem jumpToLinkCatch_run (id : String) (reference : Option String) (m : Machine ω) :
    (∃ sig, jumpToLinkCatch id reference m = (.error sig, m)) ∨
      ∃ target, linkCatch m.st.process (reference.getD "") = some target ∧
        jumpToLinkCatch id reference m = (.ok (), { m with st := m.st.pushWork target }) := by
  have hstate : (state : Exec ω ExecutionState) m = (.ok m.st, m) := rfl
  rw [jumpToLinkCatch, bind_run_ok hstate]
  cases linkCatch m.st.process (reference.getD "") with
  | none => exact .inl ⟨_, rfl⟩
  | some target => exact .inr ⟨target, rfl, rfl⟩

theorem gives_ghostStep (nodeId : String) (node : Node) (m : Machine ω) :
    GivesAt m (fun handled => handled = false →
        node.isGateway ∧ ¬ (m.st.resumeEntry = some nodeId ∨ nodeId ∈ m.st.priorWaiting))
      (ghostStep nodeId node : Exec ω Bool) := by
  rw [ghostStep]
  refine givesAt_gets_bind (Gives.at ?_ m)
  split
  · exact .pure (by simp)
  · rename_i hstop
    split
    · exact .pure fun _ => ⟨rfl, hstop⟩
    · exact .pure fun _ => ⟨rfl, hstop⟩
    · exact .pure fun _ => ⟨rfl, hstop⟩
    · exact .pure fun _ => ⟨rfl, hstop⟩
    all_goals try exact gives_bind fun _ => gives_bind fun _ => .pure (by simp)
    split
    · exact .pure (by simp)
    · exact gives_bind fun _ => gives_bind fun _ => .pure (by simp)

def isLink : Node → Bool
  | .intermediateThrowEvent _ .link _ _ => true
  | _ => false

variable {nodeId : String}

theorem ghostFlowsFrom_eq (hnode : s.process.node nodeId = .ok node)
    (hstop : ¬ (s.resumeEntry = some nodeId ∨ nodeId ∈ s.priorWaiting)) :
    ex.ghostFlowsFrom v s nodeId = ex.ghostFlowsAt v s nodeId node := by
  rw [ghostFlowsFrom, if_neg hstop, hnode]

theorem ghostFlowsFrom_gateway (hnode : s.process.node nodeId = .ok node)
    (hstop : ¬ (s.resumeEntry = some nodeId ∨ nodeId ∈ s.priorWaiting)) (hgw : node.isGateway) :
    ex.ghostFlowsFrom v s nodeId = ex.gatewayFlows s.process v node := by
  rw [ex.ghostFlowsFrom_eq hnode hstop]
  cases node <;> first | rfl | cases hgw

variable {m : Machine ω}

theorem routes_ghostStep (h : isLink node = false) (hp : m.st.process = p)
    (hnode : p.node nodeId = .ok node) :
    WithinAt (Routes p v (· ∈ ex.ghostFlowsFrom v m.st nodeId)) m
      (ghostStep nodeId node : Exec ω Bool) := by
  have exits : ∀ {flows : List SequenceFlow}, ex.ghostFlowsFrom v m.st nodeId = flows →
      Within (Routes p v (· ∈ ex.ghostFlowsFrom v m.st nodeId)) (do
        modifyState (·.fireAll flows)
        modifyState (·.visit nodeId)
        pure true : Exec ω Bool) := fun hflows =>
    Within.bind (routes_fireAll fun f hf => hflows ▸ hf) fun _ => Within.then_pure (routes_visit _)
  have leave : ex.ghostFlowsFrom v m.st nodeId = m.st.process.outgoing nodeId →
      Within (Routes p v (· ∈ ex.ghostFlowsFrom v m.st nodeId)) (do
        modifyState (·.enqueueOutgoing nodeId)
        modifyState (·.visit nodeId)
        pure true : Exec ω Bool) := fun hflows =>
    Within.bind (routes_enqueueOutgoing fun f hf => by rw [hflows, hp]; exact hf) fun _ =>
      Within.then_pure (routes_visit _)
  rw [ghostStep]
  refine withinAt_gets_bind (Within.at ?_ m)
  split
  · exact .pure _
  · rename_i hstop
    have hflows := ex.ghostFlowsFrom_eq (v := v) (hp ▸ hnode) hstop
    split
    · exact .pure _
    · exact .pure _
    · exact .pure _
    · exact .pure _
    · exact exits hflows
    · cases h
    · exact leave hflows
    · exact leave hflows
    · exact leave hflows
    · rename_i kind _ _ hkind
      refine leave (hflows.trans ?_)
      cases kind <;> first | rfl | cases h
    · split
      · exact .pure _
      · refine exits (hflows.trans ?_)
        rw [ghostFlowsAt] <;> assumption

theorem ghostMove_link (h : isLink node)
    (hp : m.st.process = p) (hnode : p.node nodeId = .ok node) :
    (ghostStep nodeId node m).2.world = m.world ∧
      GhostMove A nodeId m.st (ghostStep nodeId node m).2.st := by
  obtain ⟨id, activityRef, reference, rfl⟩ :
      ∃ id a ref, node = .intermediateThrowEvent id .link a ref := by
    cases node <;> try cases h
    rename_i kind _ _
    cases kind <;> try cases h
    exact ⟨_, _, _, rfl⟩
  have hstep : ghostStep nodeId (.intermediateThrowEvent id .link activityRef reference) m
      = (if m.st.resumeEntry = some nodeId ∨ nodeId ∈ m.st.priorWaiting then pure true
        else do
          jumpToLinkCatch id reference
          modifyState (·.visit nodeId)
          pure true : Exec ω Bool) m := rfl
  rw [hstep]
  split
  · exact ⟨rfl, .route .refl⟩
  · rename_i hstop
    rcases jumpToLinkCatch_run id reference m with ⟨sig, hjump⟩ | ⟨target, hcatch, hjump⟩
    · rw [bind_run_error hjump]
      exact ⟨rfl, .route .refl⟩
    · have htarget : ghostJump m.st nodeId = some target := by
        rw [ghostJump, if_neg hstop, hp, hnode]
        exact hp ▸ hcatch
      rw [bind_run_ok hjump]
      exact ⟨rfl, .jump htarget (.single (.visit _ nodeId))⟩

theorem ghostMove_ghostStep (hp : m.st.process = p) (hv : m.world.ctx.vars = v) (hg : m.st.ghost)
    (hnode : p.node nodeId = .ok node) : (ghostStep nodeId node m).2.world = m.world ∧
      GhostMove (· ∈ ex.ghostFlowsFrom v m.st nodeId) nodeId m.st
        (ghostStep nodeId node m).2.st := by
  cases hl : isLink node with
  | true => exact ghostMove_link hl hp hnode
  | false =>
    obtain ⟨hroute, -, -, hworld⟩ := ex.routes_ghostStep hl hp hnode hp hv
    exact ⟨hworld hg, .route hroute⟩

theorem runNode_eq (nodeId : String) (m : Machine ω) :
    ex.runNode r nodeId m = (liftLookup (m.st.process.node nodeId) >>= fun node =>
      if m.st.ghost then do
        if ← ghostStep nodeId node then pure () else ex.passNode r nodeId node
      else ex.passNode r nodeId node) m := rfl

/-- **A ghost's step leaves the world alone and routes along the flows of its node, after a jump if
its node throws a link.** -/
theorem ghostMove_runNode (nodeId : String) (hg : m.st.ghost) :
    (ex.runNode r nodeId m).2.world = m.world ∧
      GhostMove (· ∈ ex.ghostFlowsFrom m.world.ctx.vars m.st nodeId) nodeId m.st
        (ex.runNode r nodeId m).2.st := by
  rw [runNode_eq, hg]
  cases hnode : m.st.process.node nodeId with
  | error e => exact ⟨rfl, .route .refl⟩
  | ok node =>
    change ((ghostStep nodeId node >>= fun handled =>
      if handled then pure () else ex.passNode r nodeId node) m).2.world = m.world ∧
        GhostMove _ nodeId m.st ((ghostStep nodeId node >>= fun handled =>
          if handled then pure () else ex.passNode r nodeId node) m).2.st
    obtain ⟨hworld, hmove⟩ := ex.ghostMove_ghostStep rfl rfl hg hnode
    rcases hs : ghostStep nodeId node m with ⟨sig | handled, m'⟩
    · rw [hs] at hworld hmove
      rw [bind_run_error hs]
      exact ⟨hworld, hmove⟩
    · rw [hs] at hworld hmove
      rw [bind_run_ok hs]
      cases handled with
      | true => exact ⟨hworld, hmove⟩
      | false =>
        -- a gateway: the live code runs on the state the ghost found
        obtain ⟨hgw, hstop⟩ := gives_ghostStep nodeId node m false m' hs rfl
        obtain ⟨hroute, -, -, hw⟩ := ex.routes_passNode r hgw nodeId m' hmove.frame.process
          (congrArg (·.ctx.vars) hworld)
        rw [← ex.ghostFlowsFrom_gateway hnode hstop hgw] at hroute
        refine ⟨(hw (hmove.frame.ghost.trans hg)).trans hworld, ?_⟩
        cases hmove with
        | route h => exact .route (h.trans hroute)
        | jump hjump h => exact .jump hjump (h.trans hroute)

end TokenExecutor

/-! ## The flows the walk may take -/

section retraced

variable (ex : TokenExecutor ω) (v : Variables) (s : ExecutionState)

/-- The nodes a walk from `start` can come to. -/
inductive GhostReach (start : String) : String → Prop
  | start : GhostReach start start
  | flow {n : String} {f : SequenceFlow} (h : GhostReach start n)
      (hf : f ∈ ex.ghostFlowsFrom v s n) : GhostReach start f.targetRef
  | jump {n target : String} (h : GhostReach start n) (hj : ghostJump s n = some target) :
      GhostReach start target

/-- **The flows a walk from `start` may take again.** -/
def Retraced (start : String) (f : SequenceFlow) : Prop :=
  ∃ n, GhostReach ex v s start n ∧ f ∈ ex.ghostFlowsFrom v s n

variable {ex v s}

/-- A list of nodes that holds the start and is closed under the walk's moves holds every node the
walk comes to. -/
theorem GhostReach.mem_of_closed {start : String} {R : List String} (hstart : start ∈ R)
    (hflow : ∀ n ∈ R, ∀ f ∈ ex.ghostFlowsFrom v s n, f.targetRef ∈ R)
    (hjump : ∀ n ∈ R, ∀ target ∈ ghostJump s n, target ∈ R) {n : String}
    (h : GhostReach ex v s start n) : n ∈ R := by
  induction h with
  | start => exact hstart
  | flow _ hf ih => exact hflow _ ih _ hf
  | jump _ hj ih => exact hjump _ ih _ hj

end retraced

theorem ghostFlowsFrom_frame (ex : TokenExecutor ω) (v : Variables)
    (h : RoutingFrame s s') (nodeId : String) :
    ex.ghostFlowsFrom v s' nodeId = ex.ghostFlowsFrom v s nodeId := by
  obtain ⟨_, _, _, _, _, _, _, _, _, _, rfl⟩ := h
  rfl

theorem ghostJump_frame (h : RoutingFrame s s') (nodeId : String) :
    ghostJump s' nodeId = ghostJump s nodeId := by
  obtain ⟨_, _, _, _, _, _, _, _, _, _, rfl⟩ := h
  rfl

theorem ghostFlowsFrom_subset (ex : TokenExecutor ω) (v : Variables) (s : ExecutionState)
    (nodeId : String) : ∀ f ∈ ex.ghostFlowsFrom v s nodeId, f ∈ s.process.flows := by
  intro f hf
  rw [TokenExecutor.ghostFlowsFrom] at hf
  split at hf
  · cases hf
  · split at hf
    · cases hf
    · rw [ghostFlowsAt.eq_def] at hf
      split at hf
      · exact ex.gatewayFlows_subset f hf
      · exact ex.gatewayFlows_subset f hf
      · exact ex.gatewayFlows_subset f hf
      · exact ex.gatewayFlows_subset f hf
      · exact decidedArms_subset s _ f hf
      · cases hf
      · exact outgoing_subset _ _ f hf
      · exact outgoing_subset _ _ f hf
      · exact outgoing_subset _ _ f hf
      · exact outgoing_subset _ _ f hf
      · exact ghostExits_subset s _ f hf

/-- One change of the walk: routing along `A`, or a change of the work list. -/
inductive GhostChange (A : SequenceFlow → Prop) : ExecutionState → ExecutionState → Prop
  | route {s s' : ExecutionState} (h : Routing A s s') : GhostChange A s s'
  | work (s : ExecutionState) (w : List String) : GhostChange A s { s with work := w }

variable {flow : SequenceFlow}

theorem fire_work (h : n ∈ (s.fire flow).work) : n ∈ s.work ∨ n = flow.targetRef := by
  rw [ExecutionState.fire] at h
  split at h
  · exact .inl h
  · simpa using h

theorem routing_work (h : ReflTransGen (Routing A) s s') (hn : n ∈ s'.work) :
    n ∈ s.work ∨ ∃ f, A f ∧ f.targetRef = n := by
  induction h with
  | refl => exact .inl hn
  | tail _ h ih =>
    cases h with
    | fire hA =>
      rcases fire_work hn with hn | hn
      · exact ih hn
      · exact .inr ⟨_, hA, hn.symm⟩
    | visit | counters => exact ih hn

/-! ## The walk ends -/

/-- What a token on the work list can still cost: a link throw jumps once more. -/
def tokenWeight (p : ProcessDefinition) (nodeId : String) : Nat :=
  if isLinkThrow p nodeId then 2 else 1

def untaken (s : ExecutionState) : List SequenceFlow :=
  s.process.flows.filter fun f => f.id ∉ s.ghostFlows

/-- A bound on the steps the walk still makes. -/
def ghostPotential (s : ExecutionState) : Nat :=
  (s.work.map (tokenWeight s.process)).sum + 3 * (untaken s).length

theorem tokenWeight_le (p : ProcessDefinition) (nodeId : String) : tokenWeight p nodeId ≤ 2 := by
  rw [tokenWeight]
  split <;> omega

theorem untaken_fire_lt (h : flow ∈ s.process.flows) (hnew : flow.id ∉ s.ghostFlows) :
    (s.process.flows.filter fun f => f.id ∉ s.ghostFlows ++ [flow.id]).length
      < (untaken s).length := by
  have hsplit : (s.process.flows.filter fun f => f.id ∉ s.ghostFlows ++ [flow.id])
      = (untaken s).filter fun f => f.id ≠ flow.id := by
    rw [untaken]
    rw [filter_filter]
    refine filter_congr fun f _ => ?_
    simp [and_comm]
  rw [hsplit]
  refine length_filter_lt_length_iff_exists.mpr ⟨flow, ?_, by simp⟩
  exact mem_filter.mpr ⟨h, by simpa using hnew⟩

theorem ghostPotential_fire (h : flow ∈ s.process.flows) (hg : s.ghost) :
    ghostPotential (s.fire flow) ≤ ghostPotential s := by
  rw [ExecutionState.fire]
  split
  · exact le_rfl
  · rename_i hnew
    have hnew : flow.id ∉ s.ghostFlows := fun hc => hnew ⟨hg, hc⟩
    have hlt := untaken_fire_lt h hnew
    have hw := tokenWeight_le s.process flow.targetRef
    simp only [ghostPotential, untaken, map_append, sum_append, map_cons,
      map_nil, sum_cons, sum_nil] at hlt ⊢
    omega

theorem ghostPotential_routing
    (hA : ∀ f, A f → f ∈ s.process.flows) (h : ReflTransGen (Routing A) s s')
    (hg : s.ghost) : ghostPotential s' ≤ ghostPotential s := by
  induction h with
  | refl => exact le_rfl
  | tail hpre h ih =>
    refine le_trans ?_ ih
    have hframe := RoutingFrame.of_routing hpre
    cases h with
    | fire hflow => exact ghostPotential_fire (hframe.process ▸ hA _ hflow) (hframe.ghost.trans hg)
    | visit | counters => exact le_rfl

theorem linkCatch_mem {name : String} (h : TokenExecutor.linkCatch p name = some target) :
    ∃ ln, Node.linkCatchEvent target ln ∈ p.nodes := by
  obtain ⟨n, hn, h⟩ := exists_of_findSome?_eq_some h
  cases n <;> try cases h
  rename_i id ln
  simp only at h
  split at h
  · cases h
    exact ⟨ln, hn⟩
  · cases h

theorem tokenWeight_linkCatch (hd : p.IdsDistinct) {name : String}
    (h : TokenExecutor.linkCatch p name = some target) : tokenWeight p target = 1 := by
  obtain ⟨ln, hmem⟩ := linkCatch_mem h
  have hnode : p.node target = .ok (.linkCatchEvent target ln) :=
    ProcessDefinition.node_of_mem hd hmem
  rw [tokenWeight, isLinkThrow]
  rw [hnode]
  rfl

/-- A step costs less than the token it consumes. -/
theorem ghostPotential_move (hd : s.process.IdsDistinct) (hA : ∀ f, A f → f ∈ s.process.flows)
    (h : GhostMove A nodeId s s') (hg : s.ghost) :
    ghostPotential s' < ghostPotential s + tokenWeight s.process nodeId := by
  cases h with
  | route h =>
    have hle := ghostPotential_routing hA h hg
    have hpos : 0 < tokenWeight s.process nodeId := by
      rw [tokenWeight]
      split <;> omega
    omega
  | @jump target hjump h =>
    obtain ⟨hthrow, name, hcatch⟩ := isLinkThrow_of_ghostJump hjump
    have hle := ghostPotential_routing (s := s.pushWork target) hA h hg
    have htarget := tokenWeight_linkCatch hd hcatch
    have hpush : ghostPotential (s.pushWork target) = ghostPotential s + 1 := by
      have hu : untaken (s.pushWork target) = untaken s := rfl
      rw [ghostPotential, ghostPotential, hu]
      simp only [ExecutionState.pushWork, map_append, sum_append, map_cons,
        map_nil, sum_cons, sum_nil, htarget]
      omega
    have hweight : tokenWeight s.process nodeId = 2 := by
      rw [tokenWeight]
      rw [if_pos hthrow]
    omega

theorem ghostPotential_pop {m : Machine ω} {rest : List String} (h : m.st.work = n :: rest) :
    ghostPotential m.st = ghostPotential (m.withWork rest).st + tokenWeight m.st.process n := by
  have hu : untaken (m.withWork rest).st = untaken m.st := rfl
  unfold ghostPotential
  rw [hu, h, map_cons, sum_cons]
  simp only [Machine.withWork]
  omega

namespace TokenExecutor

variable (ex : TokenExecutor ω) {m : Machine ω}

theorem ghostWalk_succ_nil {fuel : Nat} (h : m.st.work = []) :
    ex.ghostWalk (fuel + 1) m = (.ok (), m) := by
  have hpop : popWork m = (.ok none, m) := by
    simp [popWork, Exec.updateState, h]
  exact bind_run_ok hpop

theorem ghostWalk_succ_cons {fuel : Nat} {n : String} {rest : List String}
    (h : m.st.work = n :: rest) : ex.ghostWalk (fuel + 1) m
      = ex.ghostWalk fuel (ex.runNode ⟨fuel, ex.drain fuel⟩ n (m.withWork rest)).2 := by
  have hpop : popWork m = (.ok (some n), m.withWork rest) := by
    simp [popWork, Exec.updateState, h, Machine.withWork]
  exact bind_run_ok hpop

/-- A step of the walk on the token `n`: what it does, and where its tokens go. -/
theorem ghostWalk_step (fuel : Nat) (n : String) (rest : List String) (hg : m.st.ghost) :
    (ex.runNode ⟨fuel, ex.drain fuel⟩ n (m.withWork rest)).2.world = m.world ∧
      GhostMove (· ∈ ex.ghostFlowsFrom m.world.ctx.vars m.st n) n (m.withWork rest).st
        (ex.runNode ⟨fuel, ex.drain fuel⟩ n (m.withWork rest)).2.st :=
  ex.ghostMove_runNode ⟨fuel, ex.drain fuel⟩ n (m := m.withWork rest) hg

theorem withWork_frame (m : Machine ω) (rest : List String) :
    RoutingFrame m.st (m.withWork rest).st := ⟨_, _, _, _, _, _, _, _, _, _, rfl⟩

theorem ghostWalk_frame (fuel : Nat) (hg : m.st.ghost) :
    (ex.ghostWalk fuel m).2.world = m.world ∧ RoutingFrame m.st (ex.ghostWalk fuel m).2.st := by
  induction fuel generalizing m with
  | zero => exact ⟨rfl, .refl _⟩
  | succ fuel ih =>
    rcases h : m.st.work with _ | ⟨n, rest⟩
    · rw [ex.ghostWalk_succ_nil h]
      exact ⟨rfl, .refl _⟩
    · rw [ex.ghostWalk_succ_cons h]
      obtain ⟨hworld, hmove⟩ := ex.ghostWalk_step fuel n rest hg
      obtain ⟨hworld', hframe⟩ := ih (hmove.frame.ghost.trans hg)
      exact ⟨hworld'.trans hworld, ((withWork_frame m rest).trans hmove.frame).trans hframe⟩

/-- **The walk takes retraced flows only.** -/
theorem ghostWalk_retraced {v : Variables} (start : String) (fuel : Nat)
    (hv : m.world.ctx.vars = v) (hs : RoutingFrame s m.st)
    (hg : m.st.ghost) (hwork : ∀ n ∈ m.st.work, GhostReach ex v s start n) :
    ReflTransGen (GhostChange (Retraced ex v s start)) m.st (ex.ghostWalk fuel m).2.st := by
  induction fuel generalizing m with
  | zero => exact .refl
  | succ fuel ih =>
    rcases h : m.st.work with _ | ⟨n, rest⟩
    · rw [ex.ghostWalk_succ_nil h]
    · rw [ex.ghostWalk_succ_cons h]
      rw [h] at hwork
      have hn : GhostReach ex v s start n := hwork n (.head _)
      obtain ⟨hworld, hmove⟩ := ex.ghostWalk_step fuel n rest hg
      rw [hv, ghostFlowsFrom_frame ex v hs] at hmove
      have hroute : ∀ {t t'}, ReflTransGen (Routing (· ∈ ex.ghostFlowsFrom v s n)) t t' →
          ReflTransGen (GhostChange (Retraced ex v s start)) t t' := fun h =>
        .mono (fun _ _ h => .route (h.mono fun f hf => ⟨n, hn, hf⟩)) _ _ h
      -- the step, then where the tokens of the new work list stand
      have hchange : ReflTransGen (GhostChange (Retraced ex v s start)) m.st
          (ex.runNode ⟨fuel, ex.drain fuel⟩ n (m.withWork rest)).2.st := by
        refine .head (.work m.st rest) ?_
        cases hmove with
        | route h => exact hroute h
        | jump _ h => exact .head (.work _ _) (hroute h)
      refine hchange.trans (ih (hworld.symm ▸ hv)
        ((hs.trans (withWork_frame m rest)).trans hmove.frame) (hmove.frame.ghost.trans hg) ?_)
      intro k hk
      have hold : ∀ k ∈ rest, GhostReach ex v s start k := fun k hk => hwork k (.tail _ hk)
      cases hmove with
      | route h =>
        rcases routing_work h hk with hk | ⟨f, hf, rfl⟩
        · exact hold k hk
        · exact .flow hn hf
      | jump hjump h =>
        rcases routing_work h hk with hk | ⟨f, hf, rfl⟩
        · rcases mem_append.mp hk with hk | hk
          · exact hold k hk
          · cases mem_singleton.mp hk
            exact .jump hn ((ghostJump_frame (hs.trans (withWork_frame m rest)) n) ▸ hjump)
        · exact .flow hn hf

/-- **The walk ends**, on an empty work list. -/
theorem ghostWalk_ends (fuel : Nat) (hd : m.st.process.IdsDistinct)
    (hg : m.st.ghost) (hfuel : ghostPotential m.st < fuel) :
    ∃ m', ex.ghostWalk fuel m = (.ok (), m') ∧ m'.st.work = [] := by
  induction fuel generalizing m with
  | zero => exact absurd hfuel (Nat.not_lt_zero _)
  | succ fuel ih =>
    rcases h : m.st.work with _ | ⟨n, rest⟩
    · exact ⟨m, ex.ghostWalk_succ_nil h, h⟩
    · rw [ex.ghostWalk_succ_cons h]
      obtain ⟨-, hmove⟩ := ex.ghostWalk_step fuel n rest hg
      have hprocess := hmove.frame.process
      refine ih (hprocess ▸ hd) (hmove.frame.ghost.trans hg) ?_
      have hlt := ghostPotential_move (s := (m.withWork rest).st) hd
        (ghostFlowsFrom_subset ex m.world.ctx.vars m.st n) hmove hg
      have hpop := ghostPotential_pop h
      have hweight : (m.withWork rest).st.process = m.st.process := rfl
      rw [hweight] at hlt
      omega

end TokenExecutor

end Sutra
