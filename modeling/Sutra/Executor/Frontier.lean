import Sutra.Executor.Resume

/-!
# The wait frontier

What a pass does to the frontier, the fresh waits and the timer rows.

* `Grows`: one effect keeps every wait and adds none but those of the node that ran; a run is a
  sequence of such steps.
* `resume_touches_only_consumed`: the result for all four ways to resume an instance.
-/

namespace Sutra

open Prog Relation List

variable {ω : Type}

/-! ## What an effect does to the frontier -/

structure Grows (T : List String) (F : Option FiredTimer) (s s' : ExecutionState) : Prop where
  kept : ∀ n ∈ s.waiting, n ∈ s'.waiting
  fresh : ∀ n ∈ s'.freshWaits, n ∈ s.freshWaits ∨ n ∈ T
  rows : ∀ w ∈ s'.timerWaits, w ∈ s.timerWaits ∨ ∃ host ∈ T, RowFor s.process F host w.nodeId

structure WellParked (s : ExecutionState) : Prop where
  nodup : s.waiting.Nodup
  fresh : ∀ n ∈ s.freshWaits, n ∈ s.waiting

variable {l : List String} {nodeId : String} {p : ProcessDefinition} {q : ResumeRequest}
  {st : ExecutionState}

theorem mem_addIfNew {n id : String} : n ∈ (if id ∈ l then l else l ++ [id]) ↔ n ∈ l ∨ n = id := by
  split
  · rename_i hid
    exact ⟨.inl, fun h => h.elim (fun hn => hn) fun hn => hn ▸ hid⟩
  · simp

theorem nodup_addIfNew {id : String} (h : l.Nodup) : (if id ∈ l then l else l ++ [id]).Nodup := by
  split
  · exact h
  · rename_i hid
    exact nodup_append.mpr ⟨h, by simp, by
      intro a ha b hb
      rw [mem_singleton.mp hb]
      exact fun hab => hid (hab ▸ ha)⟩

section effects

variable {T : List String} {F : Option FiredTimer} {C : String → Prop} {W : Bool}
  {s s' s'' : ExecutionState}

theorem Grows.refl (s : ExecutionState) : Grows T F s s :=
  ⟨fun _ h => h, fun _ h => .inl h, fun _ h => .inl h⟩

theorem Grows.of_eq (hw : s'.waiting = s.waiting) (hf : s'.freshWaits = s.freshWaits)
    (ht : s'.timerWaits = s.timerWaits) : Grows T F s s' :=
  ⟨fun _ h => hw ▸ h, fun _ h => .inl (hf ▸ h), fun _ h => .inl (ht ▸ h)⟩

theorem Grows.trans (hp : s'.process = s.process) (h : Grows T F s s') (h' : Grows T F s' s'') :
    Grows T F s s'' where
  kept n hn := h'.kept n (h.kept n hn)
  fresh n hn := (h'.fresh n hn).elim (h.fresh n) .inr
  rows w hw := (h'.rows w hw).elim (h.rows w) fun hrow => .inr (hp ▸ hrow)

theorem Effect.grows (h : Effect T F C W s s') : Grows T F s s' := by
  cases h with
  | route h =>
    obtain ⟨_, _, _, _, _, _, _, _, _, _, rfl⟩ := h.frame
    exact .of_eq rfl rfl rfl
  | parkFresh hT =>
    refine ⟨fun n hn => mem_addIfNew.mpr (.inl hn), fun n hn => ?_, fun _ h => .inl h⟩
    rcases mem_addIfNew.mp hn with hn | rfl
    · exact .inl hn
    · exact .inr hT
  | parkAgain hT =>
    exact ⟨fun n hn => mem_addIfNew.mpr (.inl hn), fun _ h => .inl h, fun _ h => .inl h⟩
  | @timer host w hT hrow =>
    refine ⟨fun _ h => h, fun _ h => .inl h, fun w' hw => ?_⟩
    rcases mem_append.mp hw with hw | hw
    · exact .inl hw
    · rw [mem_singleton.mp hw]
      exact .inr ⟨host, hT, hrow⟩
  | _ => exact .of_eq rfl rfl rfl

theorem Effect.wellParked (h : Effect T F C W s s') (hs : WellParked s) : WellParked s' := by
  cases h with
  | route h =>
    obtain ⟨_, _, _, _, _, _, _, _, _, _, rfl⟩ := h.frame
    exact ⟨hs.nodup, hs.fresh⟩
  | parkFresh hT =>
    refine ⟨nodup_addIfNew hs.nodup, fun n hn => mem_addIfNew.mpr ?_⟩
    exact (mem_addIfNew.mp hn).imp (hs.fresh n) id
  | parkAgain hT =>
    exact ⟨nodup_addIfNew hs.nodup, fun n hn => mem_addIfNew.mpr (.inl (hs.fresh n hn))⟩
  | _ => exact ⟨hs.nodup, hs.fresh⟩

structure Carried (W : List String) (F : Option FiredTimer) (s : ExecutionState) : Prop where
  kept : ∀ n ∈ W, n ∈ s.waiting
  fresh : ∀ n ∈ s.freshWaits, n ∈ s.waiting
  waits : ∀ n ∈ s.waiting, n ∈ W ∨ n ∈ s.freshWaits ∨
    ∃ f, F = some f ∧ f.hostId = n ∧ f.interrupting = false
  fired : s.firedTimer = none ∨ s.firedTimer = F

variable {F₀ : Option FiredTimer} {V : List String}

theorem Effect.carried (h : Effect T F C W s s')
    (hF : F = none ∨ F = F₀) (hs : Carried V F₀ s) : Carried V F₀ s' := by
  have hkept := fun n hn => h.grows.kept n (hs.kept n hn)
  cases h with
  | route h =>
    obtain ⟨_, _, _, _, _, _, _, _, _, _, rfl⟩ := h.frame
    exact ⟨hs.kept, hs.fresh, hs.waits, hs.fired⟩
  | parkFresh hT =>
    refine ⟨hkept, fun n hn => ?_, fun n hn => ?_, hs.fired⟩
    · exact mem_addIfNew.mpr ((mem_addIfNew.mp hn).imp_left (hs.fresh n))
    · rcases mem_addIfNew.mp hn with hn | rfl
      · exact (hs.waits n hn).imp_right (.imp_left fun hn => mem_addIfNew.mpr (.inl hn))
      · exact .inr (.inl (mem_addIfNew.mpr (.inr rfl)))
  | parkAgain hT hhost =>
    refine ⟨hkept, fun n hn => mem_addIfNew.mpr (.inl (hs.fresh n hn)), fun n hn => ?_, hs.fired⟩
    rcases mem_addIfNew.mp hn with hn | rfl
    · exact hs.waits n hn
    · obtain ⟨f, rfl, hf⟩ := hhost
      exact .inr (.inr ⟨f, (hF.resolve_left nofun).symm, hf⟩)
  | taken hf hc =>
    refine ⟨hs.kept, hs.fresh, hs.waits, ?_⟩
    rcases hf with rfl | rfl
    · exact .inl rfl
    · exact hs.fired
  | _ => exact ⟨hs.kept, hs.fresh, hs.waits, hs.fired⟩

theorem Effects.carried (h : Effects T F C W s s')
    (hF : F = none ∨ F = F₀) (hs : Carried V F₀ s) : Carried V F₀ s' := by
  induction h with
  | refl => exact hs
  | tail _ h ih => exact h.carried hF ih

theorem Effects.grows (h : Effects T F C W s s') : Grows T F s s' := by
  induction h with
  | refl => exact .refl s
  | tail hpre h ih => exact ih.trans (Effects.process_eq hpre) h.grows

theorem Effects.wellParked (h : Effects T F C W s s') (hs : WellParked s) : WellParked s' := by
  induction h with
  | refl => exact hs
  | tail _ h ih => exact h.wellParked ih

end effects

/-! ## Which node a wait and a timer row belong to -/

def armsOf (p : ProcessDefinition) (nodeId : String) : List String :=
  match p.node nodeId with
  | .ok (.eventBasedGateway id) => (p.outgoing id).map (·.targetRef)
  | _ => []

def Reaches (p : ProcessDefinition) (nodeId n : String) : Prop := nodeId = n ∨ n ∈ armsOf p nodeId

instance (p : ProcessDefinition) (nodeId n : String) : Decidable (Reaches p nodeId n) :=
  inferInstanceAs (Decidable (_ ∨ _))

def rowHost (p : ProcessDefinition) (nodeId : String) : String :=
  match p.node nodeId with
  | .ok (.boundaryEvent _ host .timer _ _ _ _) => host
  | _ => nodeId

theorem reaches_of_parkTarget {b : Bool} {n : String} {node : Node}
    (hnode : p.node nodeId = .ok node) (h : n ∈ parkTargets p b node) : Reaches p nodeId n := by
  have hid := (ProcessDefinition.of_node hnode).2
  have hown : n ∈ [node.id] → Reaches p nodeId n := fun h => .inl (hid ▸ (mem_singleton.mp h).symm)
  unfold parkTargets at h
  split at h
  · exact hown h
  · exact hown h
  · exact hown h
  · exact hown h
  · split at h
    · exact hown h
    · cases h
  · refine .inr ?_
    rw [armsOf]
    rw [hnode]
    exact h
  · cases h

def FiredOf (p : ProcessDefinition) (F : Option FiredTimer) : Prop :=
  ∀ f, F = some f → rowHost p f.boundaryId = f.hostId

theorem rowHost_eq {F : Option FiredTimer} (hd : p.IdsDistinct)
    (hF : FiredOf p F) {host : String} (h : RowFor p F host nodeId) : rowHost p nodeId = host := by
  cases h with
  | self hnode hb =>
    rw [rowHost]
    rw [hnode]
    split
    · rename_i heq
      cases heq
      cases hb
    · rfl
  | boundary hmem =>
    have hnode : p.node nodeId = .ok _ := ProcessDefinition.node_of_mem hd hmem
    rw [rowHost]
    rw [hnode]
  | fired hf hh => exact (hF _ hf).trans hh

/-! ## Along a run -/

/-- What holds of the frontier after the moves `mvs`: the waits `W` are still there, and what is
new belongs to a node that a token reached. -/
structure Frontier (p : ProcessDefinition) (W : List String) (mvs : List (Move ω))
    (s : ExecutionState) : Prop where
  process : s.process = p
  fired : FiredOf p s.firedTimer
  parked : WellParked s
  kept : ∀ n ∈ W, n ∈ s.waiting
  fresh : ∀ n ∈ s.freshWaits, ∃ mv ∈ mvs, Reaches p mv.node n
  rows : ∀ w ∈ s.timerWaits, ∃ mv ∈ mvs, Reaches p mv.node (rowHost p w.nodeId)

section run

variable {ex : TokenExecutor ω} {kind : ScopeKind} {p : ProcessDefinition} {W : List String}
  {m m' : Machine ω} {mv : Move ω} {mvs : List (Move ω)}

theorem Frontier.withWork {s : ExecutionState} (h : Frontier p W mvs s) (work : List String) :
    Frontier p W mvs { s with work := work } :=
  ⟨h.process, h.fired, ⟨h.parked.nodup, h.parked.fresh⟩, h.kept, h.fresh, h.rows⟩

theorem Frontier.step (hd : p.IdsDistinct) (hmv : mv ∈ mvs) (h : ex.Steps kind m mv m')
    (hm : Frontier p W mvs m.st) : Frontier p W mvs m'.st := by
  have hreach : ∀ n ∈ waitsOf m.st mv.node, Reaches p mv.node n := by
    intro n hn
    rw [waitsOf, hm.process] at hn
    cases hnode : p.node mv.node with
    | error e =>
      rw [hnode] at hn
      cases hn
    | ok node =>
      rw [hnode] at hn
      exact reaches_of_parkTarget hnode hn
  have hbefore : Frontier p W mvs mv.before.st := by
    obtain ⟨rest, -, hbefore, -⟩ := h
    rw [hbefore]
    exact hm.withWork rest
  have heff := h.effects
  have hgrows := heff.grows
  refine ⟨heff.process_eq.trans hbefore.process, ?_, heff.wellParked hbefore.parked,
    fun n hn => hgrows.kept n (hbefore.kept n hn), fun n hn => ?_, fun w hw => ?_⟩
  · rcases heff.firedTimer with hf | hf
    · rw [hf]
      exact fun _ h => by cases h
    · rw [hf]
      exact hbefore.fired
  · rcases hgrows.fresh n hn with hn | hn
    · exact hbefore.fresh n hn
    · exact ⟨mv, hmv, hreach n hn⟩
  · rcases hgrows.rows w hw with hw | ⟨host, hhost, hrow⟩
    · exact hbefore.rows w hw
    · rw [hbefore.process] at hrow
      exact ⟨mv, hmv, rowHost_eq hd hm.fired hrow ▸ hreach host hhost⟩

/-- **Along a run, waits stay and what is new belongs to a node that a token reached.** -/
theorem Frontier.run (hd : p.IdsDistinct) (h : Run (ex.Steps kind) m mvs m')
    (hm : Frontier p W mvs m.st) : Frontier p W mvs m'.st :=
  h.invariant (I := fun m => Frontier p W mvs m.st)
    (fun _ hmv _ _ hstep hI => .step hd hmv hstep hI) hm

theorem Carried.run {F : Option FiredTimer} (h : Run (ex.Steps kind) m mvs m')
    (hm : Carried W F m.st) : Carried W F m'.st :=
  h.invariant (I := fun m => Carried W F m.st) (fun _ _ _ _ hstep hI => by
    refine hstep.effects.carried hI.fired ?_
    obtain ⟨rest, -, hbefore, -⟩ := hstep
    rw [hbefore]
    exact ⟨hI.kept, hI.fresh, hI.waits, hI.fired⟩) hm

end run

/-! ## A resume -/

/-- A prepared resume has the frontier it carried over, and nothing new. -/
theorem Prepared.frontier (h : Prepared q st)
    (hF : FiredOf q.process q.firedTimer) (mvs : List (Move ω)) :
    Frontier q.process st.waiting mvs st where
  process := h.process
  fired := h.fired ▸ hF
  parked := ⟨h.nodup, fun n hn => by rw [h.fresh] at hn; cases hn⟩
  kept _ hn := hn
  fresh n hn := by rw [h.fresh] at hn; cases hn
  rows w hw := by rw [h.rows] at hw; cases hw

theorem Prepared.carriedOver (h : Prepared q st) : Carried st.waiting q.firedTimer st :=
  ⟨fun _ hn => hn, fun _ hn => (not_mem_nil (h.fresh ▸ hn)).elim, fun _ hn => .inl hn, .inr h.fired⟩

/-- The ways to resume a suspended instance. -/
inductive Wakeup where
  | relay (node : String) (vars : Variables)
  | timer (nodeId dueAt : String)
  | retryRedrive (node : String)
  | channelCallFailure (node code message reason : String)

def Wakeup.request (p : ProcessDefinition) (deployment : DeploymentId) (labels : Labels)
    (s : Suspended) : Wakeup → Except ExecError ResumeRequest
  | .relay node vars => .ok (s.request p deployment labels node vars)
  | .timer nodeId _ => (TokenExecutor.firedTimerOf p nodeId).map fun fired =>
      { s.request p deployment labels nodeId .empty with firedTimer := fired }
  | .retryRedrive node =>
    .ok { s.request p deployment labels node .empty with explicitRedrive := true }
  | .channelCallFailure node code message reason =>
    .ok { s.request p deployment labels node .empty with
      channelCallFailure := some ⟨reason, node, code, message⟩ }

def Wakeup.told : Wakeup → Machine ω → Machine ω
  | .timer nodeId dueAt, m =>
    { m with world := { m.world with events := m.world.events ++ [.timerFired nodeId dueAt] } }
  | _, m => m

namespace TokenExecutor

def wake (ex : TokenExecutor ω) (fuel : Nat) (p : ProcessDefinition) (deployment : DeploymentId)
    (labels : Labels) (s : Suspended) : Wakeup → Exec ω StatefulExecResult
  | .relay node vars => ex.resume fuel p deployment labels s node vars
  | .timer nodeId dueAt => ex.resumeTimer fuel p deployment labels s nodeId dueAt
  | .retryRedrive node => ex.resumeRetryRedrive fuel p deployment labels s node
  | .channelCallFailure node code message reason =>
    ex.resumeChannelCallFailure fuel p deployment labels s node code message reason

variable {ex : TokenExecutor ω} {fuel : Nat} {p : ProcessDefinition} {deployment : DeploymentId}
  {labels : Labels} {s : Suspended} {nodeId : String} {q : ResumeRequest} {c : Wakeup}

theorem firedTimerOf_request {dueAt : String}
    (h : (Wakeup.timer nodeId dueAt).request p deployment labels s = .ok q) :
    ∃ fired, firedTimerOf p nodeId = .ok fired ∧
      { s.request p deployment labels nodeId .empty with firedTimer := fired } = q := by
  cases hf : firedTimerOf p nodeId with
  | error e =>
    simp only [Wakeup.request, hf] at h
    cases h
  | ok fired =>
    simp only [Wakeup.request, hf] at h
    exact ⟨fired, rfl, Except.ok.inj h⟩

theorem wake_run (h : c.request p deployment labels s = .ok q)
    (m : Machine ω) : ex.wake fuel p deployment labels s c m =
    ex.resumeInner fuel q (c.told m) := by
  cases c with
  | relay | retryRedrive | channelCallFailure =>
    cases h
    rfl
  | timer nodeId dueAt =>
    obtain ⟨fired, hf, rfl⟩ := firedTimerOf_request h
    simp only [wake, resumeTimer, hf]
    rfl

theorem wake_request {m m' : Machine ω} {res : StatefulExecResult}
    (h : ex.wake fuel p deployment labels s c m = (.ok res, m')) :
    ∃ q, c.request p deployment labels s = .ok q := by
  cases c with
  | relay | retryRedrive | channelCallFailure => exact ⟨_, rfl⟩
  | timer nodeId dueAt =>
    cases hf : firedTimerOf p nodeId with
    | error e =>
      simp only [wake, resumeTimer, hf] at h
      cases (Prod.mk.inj h).1
    | ok fired => exact ⟨_, by simp only [Wakeup.request, hf]; rfl⟩

theorem firedOf_firedTimerOf {F : Option FiredTimer}
    (h : firedTimerOf p nodeId = .ok F) : FiredOf p F := by
  intro f hf
  subst hf
  unfold firedTimerOf at h
  split at h
  · rename_i hnode
    cases h
    have hid := (ProcessDefinition.of_node hnode).2
    rw [rowHost]
    rw [show p.node _ = _ from hid ▸ hnode]
  · cases h
  · cases h
  · cases h

/-- A wakeup's request is one about the snapshot, and what it adds. -/
theorem request_shape (h : c.request p deployment labels s = .ok q) :
    ∃ node relay fired failure redrive, q = { s.request p deployment labels node relay with
      firedTimer := fired, channelCallFailure := failure, explicitRedrive := redrive } := by
  cases c with
  | relay | retryRedrive | channelCallFailure =>
    cases h
    exact ⟨_, _, _, _, _, rfl⟩
  | timer nodeId dueAt =>
    obtain ⟨fired, -, rfl⟩ := firedTimerOf_request h
    exact ⟨_, _, _, _, _, rfl⟩

theorem request_spec (h : c.request p deployment labels s = .ok q) :
    q.process = p ∧ q.priorWaiting = s.waitingNodes ∧ FiredOf p q.firedTimer := by
  cases c with
  | relay | retryRedrive | channelCallFailure =>
    cases h
    exact ⟨rfl, rfl, nofun⟩
  | timer nodeId dueAt =>
    obtain ⟨fired, hf, rfl⟩ := firedTimerOf_request h
    exact ⟨rfl, rfl, firedOf_firedTimerOf hf⟩

/-- **A resume touches only what it consumes.**  When it suspends again, every other wait of the
prior frontier is still waiting, and it is a fresh wait or has a new timer row only if a live token
of this pass reached it; no wait is listed twice, and every fresh wait is a wait. -/
theorem resume_touches_only_consumed (hd : p.IdsDistinct) {c : Wakeup} {m m' : Machine ω}
    {s' : Suspended} (h : ex.wake fuel p deployment labels s c m = (.ok (.suspended s'), m')) :
    ∃ q m₁, c.request p deployment labels s = .ok q ∧
      ex.prepareResume fuel q (c.told m) = (.ok (), m₁) ∧
      (∀ n ∈ s.waitingNodes, n ∉ q.consumed → n ∈ s'.waitingNodes ∧
        ((n ∈ s'.freshWaits ∨ ∃ w ∈ s'.timerWaits, rowHost p w.nodeId = n) →
          ∃ mv ∈ ex.moves fuel .top m₁, Reaches p mv.node n)) ∧
      s'.waitingNodes.Nodup ∧ ∀ n ∈ s'.freshWaits, n ∈ s'.waitingNodes := by
  obtain ⟨q, hq⟩ := wake_request h
  obtain ⟨rfl, hprior, hF⟩ := request_spec hq
  rw [wake_run hq] at h
  obtain ⟨m₁, c', m₂, hprep, hdrain, -, rfl⟩ := ex.resumeInner_suspended h
  have hprepared := ex.prepareResume_ok hprep
  have hrun := ex.run_of_drain hdrain
  have hend := (hprepared.frontier hF (ex.moves fuel .top m₁)).run hd hrun
  refine ⟨q, m₁, hq, hprep, fun n hn hc => ⟨?_, ?_⟩, hend.parked.nodup, hend.parked.fresh⟩
  · refine hend.kept n ((hprepared.waiting n).mpr ⟨?_, hc⟩)
    rw [hprior]
    exact hn
  · rintro (hfresh | ⟨w, hw, rfl⟩)
    · exact hend.fresh n hfresh
    · exact hend.rows w hw

end TokenExecutor

def twoApprovals : ProcessDefinition where
  id := "approvals"
  nodes := [.startEvent "start", .parallelGateway "fork", .userTask "legal", .userTask "finance",
    .parallelGateway "join", .endEvent "end"]
  flows := [⟨"f0", "start", "fork", none⟩, ⟨"f1", "fork", "legal", none⟩,
    ⟨"f2", "fork", "finance", none⟩, ⟨"f3", "legal", "join", none⟩,
    ⟨"f4", "finance", "join", none⟩, ⟨"f5", "join", "end", none⟩]
  bindings := .empty
  coveragePaths := []

def approvalsOpen : Suspended where
  instanceId := "i"
  waitingNodes := ["legal", "finance"]
  completedNodes := []
  vars := .empty
  startNode := none
  timerWaits := []
  detachedReply := false
  coverageProgress := .empty
  retryAttempts := .empty
  retryBackoff := .empty
  freshWaits := ["legal", "finance"]

namespace TokenExecutor

/-- Legal approves: finance stays open, once and not anew. -/
theorem twoApprovals_legal : ∃ s' m',
    (builder (fun _ => none) "i" "now").wake 20 twoApprovals .unresolved .empty approvalsOpen
      (.relay "legal" .empty) ⟨.fresh (), .new twoApprovals .unresolved .empty ""⟩
        = (.ok (.suspended s'), m') ∧ "finance" ∈ s'.waitingNodes ∧ s'.waitingNodes.Nodup := by
  have h : (builder (fun _ => none) "i" "now").wake 20 twoApprovals .unresolved .empty approvalsOpen
      (.relay "legal" .empty) ⟨.fresh (), .new twoApprovals .unresolved .empty ""⟩
        = (.ok (.suspended _), _) := rfl
  obtain ⟨q, m₁, hq, -, hothers, hnodup, -⟩ := resume_touches_only_consumed (by decide) h
  exact ⟨_, _, h, (hothers "finance" (by decide) (Except.ok.inj hq ▸ by decide)).1, hnodup⟩

end TokenExecutor

end Sutra
