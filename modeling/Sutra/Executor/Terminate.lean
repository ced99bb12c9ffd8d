import Sutra.Executor.Raise

/-!
# Terminating an instance

A terminate end event, and an error caught by an event sub-process, empty the work list; neither
touches the wait frontier.

* `drain_of_last`: the move that does it is therefore the last one of its pass.
* `terminated_pass_completes_iff`: what the pass ends as is decided by the waits parked before it.
-/

namespace Sutra

open Prog Relation

variable {ω : Type}

def SameTokens (m m' : Machine ω) : Prop :=
  m'.st.work = m.st.work ∧ m'.st.waiting = m.st.waiting

instance : Std.Refl (SameTokens (ω := ω)) := ⟨fun _ => ⟨rfl, rfl⟩⟩

instance : IsTrans (Machine ω) SameTokens :=
  ⟨fun _ _ _ h h' => ⟨h'.1.trans h.1, h'.2.trans h.2⟩⟩

theorem visitAll_tokens (s : ExecutionState) (nodeIds : List String) :
    (s.visitAll nodeIds).work = s.work ∧ (s.visitAll nodeIds).waiting = s.waiting := by
  induction nodeIds generalizing s with
  | nil => exact ⟨rfl, rfl⟩
  | cons n ns ih => exact ih (s.visit n)

namespace TokenExecutor

open Exec

variable (ex : TokenExecutor ω) (r : Nested ω)

theorem sameTokens_runEventSubProcess (espId : String) (inner : ProcessDefinition) :
    Within SameTokens (runEventSubProcess r espId inner) := by
  rw [runEventSubProcess]
  refine .bind (within_gets _) fun st => .bind (fun _ => ⟨rfl, rfl⟩) fun res =>
    .bind (.modify fun _ => ⟨rfl, rfl⟩) fun _ =>
      .bind (.modify fun m => visitAll_tokens m.st _) fun _ => .bind (.ofExcept _) fun _ => ?_
  split
  · exact .modify fun _ => ⟨rfl, rfl⟩
  · exact .pure _

variable {m m' : Machine ω} {nodeId : String} {mv : Move ω} {kind : ScopeKind}

theorem routeError_caught {source code espId : String}
    (hb : findErrorBoundary m.st.process source code = none)
    (hesp : findErrorEventSubProcess m.st.process code = some espId)
    (h : routeError r source code m = (.ok (), m')) : m'.st.work = [] ∧ SameWaits m m' := by
  obtain ⟨_, _, hprocess, h⟩ := bind_eq_ok h
  cases hprocess
  simp only [hb, hesp] at h
  obtain ⟨_, m₁, hclear, h⟩ := bind_eq_ok h
  obtain ⟨node, m₂, hlook, h⟩ := bind_eq_ok h
  have h₁ : m₁ = { m with st := m.st.clearWork } := (Prod.mk.inj hclear).2.symm
  have h₂ : m₂ = m₁ := by
    cases hnode : m.st.process.node espId with
    | error e =>
      rw [hnode] at hlook
      cases (Prod.mk.inj hlook).1
    | ok n =>
      rw [hnode] at hlook
      exact (Prod.mk.inj hlook).2.symm
  subst h₂ h₁
  cases node
  case eventSubProcess id inner errorCode =>
    have hsame := sameTokens_runEventSubProcess r espId inner { m with st := m.st.clearWork }
    rw [show runEventSubProcess r espId inner _ = _ from h] at hsame
    exact hsame
  all_goals cases (Prod.mk.inj h).1

def EndsInstance (mv : Move ω) : Prop :=
  (∃ id, mv.before.st.process.node mv.node = .ok (.terminateEndEvent id)) ∨
    ∃ source code espId m',
      ex.runNode ⟨mv.fuel, ex.drain mv.fuel⟩ mv.node mv.before
        = (.error (.bpmnError source code), m') ∧
      findErrorBoundary mv.before.st.process source code = none ∧
      findErrorEventSubProcess mv.before.st.process code = some espId

theorem runNode_live {node : Node} (hg : m.st.ghost = false)
    (hnode : m.st.process.node nodeId = .ok node) :
    ex.runNode r nodeId m = ex.passNode r nodeId node m := by
  rw [runNode_eq, hnode, hg]
  rfl

theorem raises_terminate (nodeId id : String) :
    Raises FailsPass (ex.passNode r nodeId (.terminateEndEvent id)) := by
  refine .bind (Calm.report _).raises fun _ => .bind ?_ fun left => ?_
  · exact .bind (ex.calm_emitReplyIfBound _).raises fun _ => .modify fun _ =>
      .bind (.bind (.gets _) fun _ => raises_modify _) fun _ => .pure _
  · split
    · exact .pure _
    · exact .bind (Calm.report _).raises fun _ => raises_modify _

theorem passNode_terminate {id : String}
    (h : ex.passNode r nodeId (.terminateEndEvent id) m = (.ok (), m')) :
    m'.st.work = [] ∧ SameWaits m m' := by
  obtain ⟨_, m₁, hentered, h⟩ := bind_eq_ok h
  obtain ⟨left, m₂, hkind, h⟩ := bind_eq_ok h
  obtain ⟨_, m₃, hemit, hkind⟩ := bind_eq_ok hkind
  have h₁ := (Calm.report _).silent.of_run hentered
  have h₃ := (ex.calm_emitReplyIfBound id).silent.of_run hemit
  obtain ⟨hleft, h₂⟩ := Prod.mk.inj hkind
  cases hleft
  obtain ⟨_, m₄, hnotify, h⟩ := bind_eq_ok h
  have h₄ := (Calm.report _).silent.of_run hnotify
  obtain ⟨-, hm⟩ := Prod.mk.inj h
  have hst : m'.st = m₄.st.visit nodeId := by
    rw [← hm]
  have hw : m₂.st.waiting = m₃.st.waiting ∧ m₂.st.work = [] := by
    rw [← h₂]
    exact ⟨rfl, rfl⟩
  have hwaiting : m'.st.waiting = m.st.waiting :=
    calc m'.st.waiting = m₄.st.waiting := by rw [hst]; rfl
      _ = m₂.st.waiting := by rw [h₄.1]
      _ = m₃.st.waiting := hw.1
      _ = m₁.st.waiting := by rw [h₃.1]
      _ = m.st.waiting := by rw [h₁.1]
  refine ⟨?_, hwaiting⟩
  calc m'.st.work = m₄.st.work := by rw [hst]; rfl
    _ = m₂.st.work := by rw [h₄.1]
    _ = [] := hw.2

/-- **A move that ends the instance leaves no token to move, and the frontier as it was.** -/
theorem result_endsInstance (hg : mv.before.st.ghost = false)
    (hend : ex.EndsInstance mv) (h : ex.result .top mv = (.ok true, m')) :
    m'.st.work = [] ∧ SameWaits mv.before m' := by
  obtain ⟨res, m₁, hres, h⟩ := bind_eq_ok h
  have hrun : ex.runNode (ex.inner mv) mv.node mv.before = (res, m₁) := by
    obtain ⟨h1, h2⟩ := Prod.mk.inj hres
    exact Prod.ext (Except.ok.inj h1) h2
  rcases hend with ⟨id, hnode⟩ | ⟨source, code, espId, m₂, hraise, hb, hesp⟩
  · rw [ex.runNode_live _ hg hnode] at hrun
    cases res with
    | ok =>
      obtain ⟨-, rfl⟩ := Prod.mk.inj h
      exact ex.passNode_terminate _ hrun
    | error sig =>
      have hsig := ex.raises_terminate _ _ _ _ _ _ hrun
      cases sig with
      | bpmnError | txCancel => exact hsig.elim
      | fatal | panic | outOfFuel => cases (Prod.mk.inj h).1
  · obtain ⟨hres, rfl⟩ := Prod.mk.inj (hrun.symm.trans hraise)
    subst hres
    have hprocess : m₁.st.process = mv.before.st.process := by
      have heff := ex.effects_runNode (ex.inner mv) mv.node
        (m := mv.before) (records_true _) trivial
      rw [hrun] at heff
      exact heff.process_eq
    obtain ⟨_, m₃, hroute, h⟩ := bind_eq_ok
      (show (routeError _ source code >>= fun _ => pure true) m₁ = (.ok true, m') from h)
    obtain ⟨-, rfl⟩ := Prod.mk.inj h
    obtain ⟨hwork, hwaits⟩ := routeError_caught _ (hprocess ▸ hb) (hprocess ▸ hesp) hroute
    exact ⟨hwork, hwaits.trans (ex.keepsWaits_runNode _ _ _ _ _ _ hrun)⟩

theorem drain_of_last {fuel : Nat}
    (hmv : mv ∈ ex.moves fuel kind m) (hres : ex.result kind mv = (.ok true, m'))
    (hwork : m'.st.work = []) (hfuel : 0 < mv.fuel) : ex.drain fuel kind m = (.ok false, m') := by
  induction fuel generalizing m with
  | zero => cases hmv
  | succ fuel ih =>
    rcases hw : m.st.work with _ | ⟨n, rest⟩
    · simp only [moves, hw] at hmv
      cases hmv
    · rw [ex.drain_succ_cons hw]
      simp only [moves, hw] at hmv
      rcases List.mem_cons.mp hmv with rfl | hmv
      · rw [hres]
        obtain ⟨k, rfl⟩ : ∃ k, fuel = k + 1 := ⟨fuel - 1, by dsimp only at hfuel; omega⟩
        exact ex.drain_succ_nil hwork
      · rcases hr : ex.result kind ⟨fuel, n, m.withWork rest⟩ with ⟨sig | _ | _, m₁⟩
        · rw [hr] at hmv
          cases hmv
        · rw [hr] at hmv
          cases hmv
        · rw [hr] at hmv
          exact ih hmv

theorem moves_live {fuel : Nat} (hg : m.st.ghost = false)
    (hmv : mv ∈ ex.moves fuel kind m) : mv.before.st.ghost = false := by
  have hstep : ∀ mv ∈ ex.moves fuel kind m, ∀ a b, ex.Steps kind a mv b → a.st.ghost = false →
      b.st.ghost = false := fun _ _ _ _ hab ha => hab.ghost_eq.trans ha
  obtain ⟨a, b, ha, rest, -, hbefore, -⟩ := (ex.run_drain fuel kind m).invariant_at hstep hg hmv
  rw [hbefore]
  exact ha

/-- **A terminated pass ends the instance exactly when no wait was parked.**  In a pass in which a
terminate end event executes, or an error is caught by an event sub-process, the outcome is decided
by the frontier at that moment: the pass is suspended exactly when some branch is parked there,
earlier in this pass or carried over from a previous one. -/
theorem terminated_pass_completes_iff {fuel : Nat} (start : Option String) {m : Machine ω}
    (hg : m.st.ghost = false) {mv : Move ω} (hmv : mv ∈ ex.moves fuel .top m)
    (hend : ex.EndsInstance mv) (hok : (ex.result .top mv).1 = .ok true) (hfuel : 0 < mv.fuel) :
    (∀ s m', ex.driveStateful fuel start m ≠ (.ok (.suspended s), m')) ↔
      mv.before.st.waiting = [] := by
  rcases hres : ex.result .top mv with ⟨res, m₁⟩
  rw [hres] at hok
  cases hok
  obtain ⟨hwork, hwaits⟩ := ex.result_endsInstance (ex.moves_live hg hmv) hend hres
  have hdrive := ex.driveStateful_ok start (ex.drain_of_last hmv hres hwork hfuel)
  rw [hdrive, ← hwaits]
  constructor
  · intro hnever
    by_contra hw
    obtain ⟨m', hclass⟩ := ex.classify_waiting start hw
    exact hnever _ _ hclass
  · intro hw s m'
    exact ex.classify_not_waiting hw

end TokenExecutor

def reviewOrStop (first second : SequenceFlow) : ProcessDefinition where
  id := "stop"
  nodes := [.startEvent "start", .parallelGateway "fork", .userTask "review",
    .terminateEndEvent "stop"]
  flows := [⟨"in", "start", "fork", none⟩, first, second]
  bindings := .empty
  coveragePaths := []

def toReview : SequenceFlow := ⟨"review", "fork", "review", none⟩

def toStop : SequenceFlow := ⟨"stop", "fork", "stop", none⟩

/-- A first pass with its token on the start event. -/
def atStart (p : ProcessDefinition) : Machine Unit :=
  ⟨.fresh (), (ExecutionState.new p .unresolved .empty "i").pushWork "start"⟩

namespace TokenExecutor

/-- When the terminate end event runs first, the pass completes. -/
theorem stop_before_review : ¬ ∃ s m', (builder (fun _ => none) "i" "now").driveStateful 20 none
      (atStart (reviewOrStop toStop toReview)) = (.ok (.suspended s), m') := by
  rintro ⟨s, m', hsuspended⟩
  have hlen : 2 < ((builder (fun _ => none) "i" "now").moves 20 .top
      (atStart (reviewOrStop toStop toReview))).length := by decide
  exact (terminated_pass_completes_iff _ none (by rfl) (List.getElem_mem hlen)
    (.inl ⟨"stop", rfl⟩) (by rfl) (Nat.succ_pos 16)).mpr rfl s m' hsuspended

/-- When the review parks first, the terminate end event executes and the instance is suspended. -/
theorem terminate_suspends : (∃ mv ∈ (builder (fun _ => none) "i" "now").moves 20 .top
        (atStart (reviewOrStop toReview toStop)),
      (builder (fun _ => none) "i" "now").EndsInstance mv ∧ 0 < mv.fuel ∧
        ((builder (fun _ => none) "i" "now").result .top mv).1 = .ok true) ∧
      ∃ s m', (builder (fun _ => none) "i" "now").driveStateful 20 none
        (atStart (reviewOrStop toReview toStop)) = (.ok (.suspended s), m') ∧
          s.waitingNodes = ["review"] := by
  have hlen : 3 < ((builder (fun _ => none) "i" "now").moves 20 .top
      (atStart (reviewOrStop toReview toStop))).length := by decide
  exact ⟨⟨_, List.getElem_mem hlen, .inl ⟨"stop", rfl⟩, Nat.succ_pos 15, rfl⟩, _, _, rfl, rfl⟩

end TokenExecutor

end Sutra
