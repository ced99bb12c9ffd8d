import Sutra.Executor.Routing

/-!
# Effects on the state of a scope

* `Effect` lists every change of an `ExecutionState` that a token can cause: a flow fires, a link
  jumps, a node is visited or completed, a token parks, a timer is armed, and the bookkeeping of
  joins, retries and stores moves.
* `Touches` is the relation on machines it induces: the state of the scope changes by effects, the
  world in any way.

What later modules say about the frontier, the timers and the coverage cursors of a run is an
induction over `Effect`.
-/

namespace Sutra

open Prog Relation

variable {ω α β : Type}

/-! ## The effects -/

def Node.isBoundary : Node → Bool
  | .boundaryEvent _ _ _ _ _ _ _ => true
  | _ => false

/-- The rows of a wait: its own, those of the timer boundaries attached to it, and that of the
fired boundary it hosts. -/
inductive RowFor (p : ProcessDefinition) (F : Option FiredTimer) (host : String) : String → Prop
  | self {n : Node} (h : p.node host = .ok n) (hb : n.isBoundary = false) : RowFor p F host host
  | boundary {id : String} {ec esc : Option String} {i : Bool} {t : Option TimerDefinition}
      (h : .boundaryEvent id host .timer ec esc i t ∈ p.nodes) : RowFor p F host id
  | fired {f : FiredTimer} (h : F = some f) (hh : f.hostId = host) : RowFor p F host f.boundaryId

/-- One change of a scope's state. `T` are the waits that may be parked, `F` is the fired timer of
the pass, `C` are the nodes whose completion may be recorded, and `W` says whether data stores may
be read or written. -/
inductive Effect (T : List String) (F : Option FiredTimer) (C : String → Prop) (W : Bool) :
    ExecutionState → ExecutionState → Prop
  | route {s s' : ExecutionState} (h : Routing (· ∈ s.process.flows) s s') : Effect T F C W s s'
  | pushWork (s : ExecutionState) (id : String) : Effect T F C W s (s.pushWork id)
  | clearWork (s : ExecutionState) : Effect T F C W s s.clearWork
  | complete (s : ExecutionState) {id : String} (h : C id) : Effect T F C W s (s.pushCompleted id)
  | parkFresh (s : ExecutionState) {id : String} (h : id ∈ T) : Effect T F C W s (s.parkFresh id)
  | parkAgain (s : ExecutionState) {id : String} (h : id ∈ T)
      (hF : ∃ f, F = some f ∧ f.hostId = id ∧ f.interrupting = false) :
        Effect T F C W s (s.parkAgain id)
  | timer (s : ExecutionState) {host : String} {w : TimerWait} (hT : host ∈ T)
      (h : RowFor s.process F host w.nodeId) :
      Effect T F C W s { s with timerWaits := s.timerWaits ++ [w] }
  | retries (s : ExecutionState) (a : SortedMap String Nat) (b : SortedMap String String) :
      Effect T F C W s { s with retryAttempts := a, retryBackoff := b }
  | taken (s : ExecutionState) {f : Option FiredTimer} (hf : f = none ∨ f = s.firedTimer)
      {c : Option ChannelCallFailure} (hc : c = none ∨ c = s.channelCallFailure) :
      Effect T F C W s { s with firedTimer := f, channelCallFailure := c }
  | finish (s : ExecutionState) (o : Variables) :
      Effect T F C W s { s with reachedEnd := true, endOutputs := o }
  | detach (s : ExecutionState) : Effect T F C W s { s with detachedReply := true }
  | stores (s : ExecutionState) (hW : W = true) (t : Option (SortedMap String StoreTx))
      (v : SortedMap String Int) : Effect T F C W s { s with storeTx := t, storeRevs := v }

abbrev Effects (T : List String) (F : Option FiredTimer) (C : String → Prop) (W : Bool) :
    ExecutionState → ExecutionState → Prop := ReflTransGen (Effect T F C W)

structure Scoped (p : ProcessDefinition) (b : Bool) (F : Option FiredTimer) (s : ExecutionState) :
    Prop where
  process : s.process = p
  parkable : s.retryParkable = b
  fired : s.firedTimer = none ∨ s.firedTimer = F

section effects

variable {T : List String} {F : Option FiredTimer} {C : String → Prop} {W : Bool}
  {p : ProcessDefinition} {b : Bool} {s s' : ExecutionState}

theorem Effect.scoped (h : Effect T F C W s s') (hs : Scoped p b F s) : Scoped p b F s' := by
  cases h with
  | route h =>
    obtain ⟨_, _, _, _, _, _, _, _, _, _, rfl⟩ := h.frame
    exact ⟨hs.process, hs.parkable, hs.fired⟩
  | taken hf _ =>
    refine ⟨hs.process, hs.parkable, ?_⟩
    rcases hf with rfl | rfl
    · exact .inl rfl
    · exact hs.fired
  | _ => exact ⟨hs.process, hs.parkable, hs.fired⟩

theorem Effects.scoped (h : Effects T F C W s s') (hs : Scoped p b F s) : Scoped p b F s' := by
  induction h with
  | refl => exact hs
  | tail _ h ih => exact h.scoped ih

variable {C' : String → Prop} {T' : List String}

theorem Effect.mono {W' : Bool} (hT : ∀ id ∈ T, id ∈ T')
    (hC : ∀ id, C id → C' id) (hW : W → W') (h : Effect T F C W s s') : Effect T' F C' W' s s' := by
  cases h with
  | route h => exact .route h
  | pushWork id => exact .pushWork s id
  | clearWork => exact .clearWork s
  | complete h => exact .complete s (hC _ h)
  | parkFresh h => exact .parkFresh s (hT _ h)
  | parkAgain h hF => exact .parkAgain s (hT _ h) hF
  | timer hT' h => exact .timer s (hT _ hT') h
  | retries a b => exact .retries s a b
  | taken hf hc => exact .taken s hf hc
  | finish o => exact .finish s o
  | detach => exact .detach s
  | stores h t v => exact .stores s (hW h) t v

theorem Effects.mono {W' : Bool} (hT : ∀ id ∈ T, id ∈ T')
    (hC : ∀ id, C id → C' id) (hW : W → W') (h : Effects T F C W s s') :
    Effects T' F C' W' s s' := by
  induction h with
  | refl => exact .refl
  | tail _ h ih => exact ih.tail (h.mono hT hC hW)

theorem effects_of_routing (h : ReflTransGen (Routing (· ∈ s.process.flows)) s s') :
    Effects T F C W s s' := by
  induction h with
  | refl => exact .refl
  | tail hpre h ih =>
    rw [← (RoutingFrame.of_routing hpre).process] at h
    exact ih.tail (.route h)

theorem Effect.process_eq (h : Effect T F C W s s') : s'.process = s.process := by
  cases h with
  | route h => exact h.frame.process
  | _ => rfl

theorem Effects.process_eq (h : Effects T F C W s s') : s'.process = s.process := by
  induction h with
  | refl => rfl
  | tail _ h ih => exact h.process_eq.trans ih

theorem Effects.ghost_eq (h : Effects T F C W s s') : s'.ghost = s.ghost := by
  induction h with
  | refl => rfl
  | tail _ h ih =>
    refine .trans ?_ ih
    cases h with
    | route h => exact h.frame.ghost
    | _ => rfl

/-- Without the right to touch the stores the open transactions stay as they are. -/
theorem Effects.storeTx (h : Effects T F C false s s') :
    s'.deployment = s.deployment ∧ s'.storeTx = s.storeTx := by
  induction h with
  | refl => exact ⟨rfl, rfl⟩
  | tail _ h ih =>
    cases h with
    | route h =>
      obtain ⟨_, _, _, _, _, _, _, _, _, _, rfl⟩ := h.frame
      exact ih
    | stores hW => cases hW
    | _ => exact ih

theorem Effects.channelCallFailure (h : Effects T F C W s s') (hs : s.channelCallFailure = none) :
    s'.channelCallFailure = none := by
  induction h with
  | refl => exact hs
  | tail _ h ih =>
    cases h with
    | route h =>
      obtain ⟨_, _, _, _, _, _, _, _, _, _, rfl⟩ := h.frame
      exact ih
    | taken _ hc =>
      rcases hc with rfl | rfl
      · rfl
      · exact ih
    | _ => exact ih

/-- The fired timer of a pass is taken once and never set. -/
theorem Effects.firedTimer (h : Effects T F C W s s') :
    s'.firedTimer = none ∨ s'.firedTimer = s.firedTimer := by
  induction h with
  | refl => exact .inr rfl
  | tail _ h ih =>
    cases h with
    | route h =>
      obtain ⟨_, _, _, _, _, _, _, _, _, _, rfl⟩ := h.frame
      exact ih
    | taken hf _ =>
      rcases hf with rfl | rfl
      · exact .inl rfl
      · exact ih
    | _ => exact ih

end effects

/-! ## Programs and their effects -/

/-- What a scope sees of the data stores: the deployment it resolves their names in, its open
transactions, the committed cells, and the rows written so far. -/
structure StoreView where
  deployment : DeploymentId
  storeTx : Option (SortedMap String StoreTx)
  stores : String → StoreCell
  writes : List RowWrite

def Machine.storeView {ω : Type} (m : Machine ω) : StoreView :=
  ⟨m.st.deployment, m.st.storeTx, m.world.stores, m.world.writes⟩

def AnyView (_ _ : StoreView) : Prop := True

instance : IsPreorder StoreView AnyView where
  refl _ := trivial
  trans _ _ _ _ _ := trivial

def Touches (p : ProcessDefinition) (b : Bool) (F : Option FiredTimer) (T : List String)
    (C : String → Prop) (S : StoreView → StoreView → Prop) (m m' : Machine ω) : Prop :=
  Scoped p b F m.st → Effects T F C true m.st m'.st ∧ S m.storeView m'.storeView

/-- In a scope over `p` the stores change as `S` says. -/
def Views (p : ProcessDefinition) (S : StoreView → StoreView → Prop) (m m' : Machine ω) : Prop :=
  m.st.process = p → S m.storeView m'.storeView

/-- The program does nothing else to its scope, which is one over `p`. -/
abbrev Acts (p : ProcessDefinition) (b : Bool) (F : Option FiredTimer) (T : List String)
    (C : String → Prop) (S : StoreView → StoreView → Prop) (x : Exec ω α) : Prop :=
  Within (Touches p b F T C S) x

section touches

variable {p : ProcessDefinition} {b : Bool} {F : Option FiredTimer} {T : List String}
  {C : String → Prop} {S : StoreView → StoreView → Prop} {x : Exec ω α}

theorem Acts.of_views (h : Acts p b F T C AnyView x)
    (hS : Within (Views p S) x) : Acts p b F T C S x := fun m hs =>
  ⟨(h m hs).1, hS m hs.process⟩

theorem Acts.state_bind {f : ExecutionState → Exec ω β}
    (h : ∀ s, Scoped p b F s → Acts p b F T C S (f s)) : Acts p b F T C S (Exec.state >>= f) :=
  within_gets_bind fun m hs => h m.st hs m hs

theorem Acts.process_bind {f : ProcessDefinition → Exec ω β}
    (h : Acts p b F T C S (f p)) : Acts p b F T C S (Exec.process >>= f) :=
  within_gets_bind fun m hs => by
    rw [hs.process]
    exact h m hs

variable [IsPreorder StoreView S]

instance : Std.Refl (Touches (ω := ω) p b F T C S) := ⟨fun _ _ => ⟨.refl, Std.Refl.refl _⟩⟩

instance : IsTrans (Machine ω) (Touches p b F T C S) := ⟨fun _ _ _ h h' hs => by
  obtain ⟨hab, hS⟩ := h hs
  obtain ⟨hbc, hS'⟩ := h' (hab.scoped hs)
  exact ⟨hab.trans hbc, IsTrans.trans _ _ _ hS hS'⟩⟩

theorem Acts.of_quiet (h : Silent x) : Acts p b F T C S x :=
  h.mono fun m m' hq _ => by
    have hview : m'.storeView = m.storeView := by
      rw [Machine.storeView, hq.1, hq.2.1, hq.2.2]
      rfl
    exact ⟨hq.1 ▸ .refl, hview ▸ Std.Refl.refl _⟩

theorem Acts.fail (sig : Signal) : Acts p b F T C S (Exec.fail sig : Exec ω α) :=
  .of_quiet (.fail sig)

theorem Acts.bind {f : α → Exec ω β} (hx : Acts p b F T C S x) (hf : ∀ a, Acts p b F T C S (f a)) :
    Acts p b F T C S (x >>= f) := Within.bind hx hf

theorem Acts.after {f : α → Exec ω β} (hx : Silent x)
    (hf : ∀ a, Acts p b F T C S (f a)) : Acts p b F T C S (x >>= f) :=
  .bind (.of_quiet hx) hf

theorem touches_of_effects {m m' : Machine ω}
    (hstores : m'.world.stores = m.world.stores ∧ m'.world.writes = m.world.writes)
    (h : Effects T F C false m.st m'.st) :
    Effects T F C true m.st m'.st ∧ S m.storeView m'.storeView := by
  have hview : m'.storeView = m.storeView := by
    rw [Machine.storeView, hstores.1, hstores.2, h.storeTx.1, h.storeTx.2]
    rfl
  exact ⟨h.mono (fun _ h => h) (fun _ h => h) fun _ => rfl, hview ▸ Std.Refl.refl _⟩

theorem Acts.modifyState {f : ExecutionState → ExecutionState}
    (h : ∀ s, Scoped p b F s → Effects T F C false s (f s)) :
    Acts p b F T C S (Exec.modifyState f : Exec ω Unit) :=
  .modify fun m hs => touches_of_effects ⟨rfl, rfl⟩ (h m.st hs)

/-- Sequencing, with what the first program returned from a state of the scope at hand. -/
theorem touches_bind {f : α → Exec ω β} (hx : Acts p b F T C S x)
    (hf : ∀ m a m', Scoped p b F m.st → x m = (.ok a, m') → Acts p b F T C S (f a)) :
    Acts p b F T C S (x >>= f) := fun m hs =>
  WithinAt.bind (hx.at m) (fun a m' h => (hf m a m' hs h).at m') hs

theorem Acts.updateState {f : ExecutionState → α × ExecutionState}
    (h : ∀ s, Scoped p b F s → Effects T F C false s (f s).2) :
    Acts p b F T C S (Exec.updateState f : Exec ω α) :=
  .update fun m hs => touches_of_effects ⟨rfl, rfl⟩ (h m.st hs)

theorem Acts.of_routes (h : ∀ v, Within (Routes p v (· ∈ p.flows)) x) :
    Acts p b F T C S x := fun m hs => by
  obtain ⟨hroute, -, hstores, -⟩ := h _ m hs.process rfl
  rw [← hs.process] at hroute
  exact touches_of_effects hstores (effects_of_routing hroute)

theorem Acts.enqueueOutgoing (nodeId : String) :
    Acts p b F T C S (Exec.modifyState (·.enqueueOutgoing nodeId) : Exec ω Unit) :=
  .of_routes fun _ => routes_enqueueOutgoing (outgoing_subset p nodeId)

theorem Acts.visit (nodeId : String) :
    Acts p b F T C S (Exec.modifyState (·.visit nodeId) : Exec ω Unit) :=
  .of_routes fun _ => routes_visit nodeId

theorem Acts.complete {nodeId : String} (h : C nodeId) :
    Acts p b F T C S (Exec.modifyState (·.pushCompleted nodeId) : Exec ω Unit) :=
  .modifyState fun s _ => .single (.complete s h)

theorem Acts.clearWork : Acts p b F T C S (Exec.modifyState (·.clearWork) : Exec ω Unit) :=
  .modifyState fun s _ => .single (.clearWork s)

theorem Acts.parkFresh {id : String} (h : id ∈ T) :
    Acts p b F T C S (Exec.modifyState (·.parkFresh id) : Exec ω Unit) :=
  .modifyState fun s _ => .single (.parkFresh s h)

end touches

end Sutra
