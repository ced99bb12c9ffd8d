import Sutra.Executor.Frontier

/-!
# The life of an instance

An instance lives through passes: a first one, then one per wakeup, each resumed from the snapshot
the previous one left. Between two passes the world may change in any way.

* `Life`: such a sequence up to a *quiescent point*, a machine whose work list is drained. It lists
  the passes so far, and each `Pass` keeps what it was told and the machine its live token found
  (`Opens`).
* `Returned`: what the calls of the executor give back along a life.
-/

namespace Sutra

open Prog Relation TokenExecutor

variable {ω : Type}

structure Pass (ω : Type) where
  fuel : Nat
  /-- What the pass was told; nothing if it is the first. -/
  request : Option ResumeRequest
  start : String
  /-- The machine before the live token enters. -/
  opened : Machine ω

namespace Pass

variable (x : Pass ω)

/-- Where the live token enters. -/
def entry : ResumeEntry :=
  match x.request with
  | none => .run x.start
  | some q => q.entry

def live (p : ProcessDefinition) : Machine ω := (TokenExecutor.enter p x.entry x.opened).2

def closed (ex : TokenExecutor ω) (p : ProcessDefinition) : Machine ω :=
  (ex.drain x.fuel .top (x.live p)).2

def liveFlows (ex : TokenExecutor ω) (p : ProcessDefinition) : List String :=
  (x.closed ex p).st.flowTrace.drop x.opened.st.flowTrace.length

end Pass

namespace TokenExecutor

variable (ex : TokenExecutor ω)

def newInstance (p : ProcessDefinition) (initial : Variables) (deployment : DeploymentId)
    (labels : Labels) (m : Machine ω) : Machine ω :=
  ((do
    let instanceId ← Exec.callOut ex.uuidSupplier
    openContext p instanceId deployment labels initial
    Exec.notify .instanceStarted
    Exec.modifyState fun _ => .new p deployment labels instanceId : Exec ω Unit) m).2

theorem newInstance_st (p : ProcessDefinition) (initial : Variables) (deployment : DeploymentId)
    (labels : Labels) (m : Machine ω) :
    ∃ i, (ex.newInstance p initial deployment labels m).st = .new p deployment labels i :=
  ⟨_, rfl⟩

theorem executeStatefulFrom_run (fuel : Nat) (p : ProcessDefinition) (initial : Variables)
    (deployment : DeploymentId) (labels : Labels) (startNodeId : Option String) (m : Machine ω) :
    ex.executeStatefulFrom fuel p initial deployment labels startNodeId m
      = (do
          let start ← Exec.liftLookup (startOf p startNodeId)
          Exec.modifyState (·.pushWork start)
          ex.driveStateful fuel startNodeId : Exec ω StatefulExecResult)
        (ex.newInstance p initial deployment labels m) := rfl

/-- A first pass that returns has found its start event, and drives the token there. -/
theorem executeStatefulFrom_ok {fuel : Nat} {p : ProcessDefinition} {initial : Variables}
    {deployment : DeploymentId} {labels : Labels} {startNodeId : Option String} {m m' : Machine ω}
    {res : StatefulExecResult} (h : ex.executeStatefulFrom fuel p initial deployment labels
      startNodeId m = (.ok res, m')) :
    ∃ start, startOf p startNodeId = .ok start ∧ ex.driveStateful fuel startNodeId
      ((Exec.modifyState (·.pushWork start)) (ex.newInstance p initial deployment labels m)).2 =
        (.ok res, m') := by
  rw [ex.executeStatefulFrom_run] at h
  obtain ⟨start, m₀, hlookup, h⟩ := bind_eq_ok h
  have hstart := lift_eq_ok hlookup
  rw [hstart] at hlookup
  cases (Prod.mk.inj hlookup).2
  obtain ⟨_, m₁, hpush, h⟩ := bind_eq_ok h
  cases (Prod.mk.inj hpush).2
  exact ⟨start, hstart, h⟩

end TokenExecutor

section life

variable (ex : TokenExecutor ω) (p : ProcessDefinition) (deployment : DeploymentId)
  (labels : Labels) (startNodeId : Option String)

/-- How a pass opens: on a new instance, or on the quiescent machine that a wakeup resumes. -/
inductive Opens : Option (Machine ω) → Pass ω → Prop
  | first (fuel : Nat) (initial : Variables) (m : Machine ω) {start : String}
      (hstart : TokenExecutor.startOf p startNodeId = .ok start) :
      Opens none ⟨fuel, none, start, ex.newInstance p initial deployment labels m⟩
  | next (fuel : Nat) (cause : Wakeup) (m : Machine ω) {m₀ : Machine ω} {q : ResumeRequest}
      {start : String} {w : World ω} {s : ExecutionState} (hwait : m₀.st.waiting ≠ [])
      (hq : cause.request p deployment labels
        (m₀.st.suspendedAs m₀.world.ctx.vars startNodeId) = .ok q)
      (hstart : TokenExecutor.startOf p startNodeId = .ok start)
      (hwalk : ex.ghostWalk fuel ⟨q.openWorld m.world, q.ghostState start⟩ = (.ok (), ⟨w, s⟩)) :
      Opens (some m₀) ⟨fuel, some q, start, ⟨w, q.carried s⟩⟩

/-- **The lives of an instance up to a quiescent point.** -/
inductive Life : List (Pass ω) → Machine ω → Prop
  | first {x : Pass ω} {m : Machine ω} {c : Bool}
      (h : Opens ex p deployment labels startNodeId none x)
      (hdrain : ex.drain x.fuel .top (x.live p) = (.ok c, m)) : Life [x] m
  | next {past : List (Pass ω)} {m₀ : Machine ω} {x : Pass ω} {m : Machine ω} {c : Bool}
      (life : Life past m₀) (h : Opens ex p deployment labels startNodeId (some m₀) x)
      (hdrain : ex.drain x.fuel .top (x.live p) = (.ok c, m)) : Life (past ++ [x]) m

def Underway (past : List (Pass ω)) (x : Pass ω) : Prop :=
  (past = [] ∧ Opens ex p deployment labels startNodeId none x) ∨
    ∃ m₀, Life ex p deployment labels startNodeId past m₀ ∧
      Opens ex p deployment labels startNodeId (some m₀) x

/-- What the calls of one instance can return: its first pass, then a wakeup of the snapshot that
the call before it returned. Every call finds a machine of its own. -/
inductive Returned : Nat → StatefulExecResult → Prop
  | execute (fuel : Nat) (initial : Variables) (m : Machine ω) {m' : Machine ω}
      {res : StatefulExecResult}
      (h : ex.executeStatefulFrom fuel p initial deployment labels startNodeId m = (.ok res, m')) :
      Returned 1 res
  | wake (fuel : Nat) (cause : Wakeup) (m : Machine ω) {m' : Machine ω} {n : Nat} {s : Suspended}
      {res : StatefulExecResult} (past : Returned n (.suspended s))
      (h : ex.wake fuel p deployment labels s cause m = (.ok res, m')) : Returned (n + 1) res

end life

section entries

variable {ex : TokenExecutor ω} {p : ProcessDefinition} {deployment : DeploymentId}
  {labels : Labels} {startNodeId : Option String}

theorem nonBlank_nonBlank (o : Option String) : nonBlank (nonBlank o) = nonBlank o := by
  rw [nonBlank, nonBlank, Option.filter_filter]
  simp

theorem startOf_nonBlank (p : ProcessDefinition) (o : Option String) :
    TokenExecutor.startOf p (nonBlank o) = TokenExecutor.startOf p o := by
  rw [TokenExecutor.startOf, nonBlank_nonBlank, ← TokenExecutor.startOf]

variable {res : StatefulExecResult} {fuel : Nat} {m m' : Machine ω} {passes : List (Pass ω)}

/-- What a pass that did not fail was classified from. -/
theorem TokenExecutor.drain_of_driveStateful {start : Option String}
    (h : ex.driveStateful fuel start m = (.ok res, m')) :
    ∃ c m₁, ex.drain fuel .top m = (.ok c, m₁) ∧ ex.classify start m₁ = (.ok res, m') := by
  rcases hdrain : ex.drain fuel .top m with ⟨sig | c, m₁⟩
  · obtain ⟨sig', m₂, herr⟩ := ex.driveStateful_error start hdrain
    cases (Prod.mk.inj (h.symm.trans herr)).1
  · exact ⟨c, m₁, rfl, (ex.driveStateful_ok start hdrain).symm.trans h⟩

theorem Life.of_execute {initial : Variables}
    (h : ex.executeStatefulFrom fuel p initial deployment labels startNodeId m = (.ok res, m')) :
    ∃ pass m₁, Life ex p deployment labels startNodeId [pass] m₁ ∧
      ex.classify startNodeId m₁ = (.ok res, m') := by
  obtain ⟨start, hstart, h⟩ := ex.executeStatefulFrom_ok h
  obtain ⟨c, m₁, hdrain, hclass⟩ := TokenExecutor.drain_of_driveStateful h
  exact ⟨_, m₁, .first (.first _ _ _ hstart) hdrain, hclass⟩

theorem Life.of_wake {m₀ : Machine ω}
    (life : Life ex p deployment labels startNodeId passes m₀) (hwait : m₀.st.waiting ≠ [])
    {cause : Wakeup}
    (h : ex.wake fuel p deployment labels (m₀.st.suspendedAs m₀.world.ctx.vars startNodeId) cause m
      = (.ok res, m')) : ∃ pass m₁, Life ex p deployment labels startNodeId (passes ++ [pass]) m₁ ∧
      ex.classify (nonBlank startNodeId) m₁ = (.ok res, m') := by
  obtain ⟨q, hq⟩ := wake_request h
  obtain ⟨hp, hs⟩ : q.process = p ∧ q.startNodeId = nonBlank startNodeId := by
    obtain ⟨_, _, _, _, _, rfl⟩ := request_shape hq
    exact ⟨rfl, rfl⟩
  rw [wake_run hq, TokenExecutor.resumeInner] at h
  split at h
  · cases (Prod.mk.inj h).1
  · obtain ⟨_, m₁, hprep, h⟩ := bind_eq_ok h
    obtain ⟨start, hstart⟩ := ex.startOf_of_prepareResume hprep
    rw [ex.prepareResume_run fuel q _ hstart] at hprep
    obtain ⟨_, ⟨w, s⟩, hwalk, hprep⟩ := bind_eq_ok hprep
    have hlive : m₁ = Pass.live ⟨fuel, some q, start, ⟨w, q.carried s⟩⟩ p := by
      rw [← hp]
      exact (congrArg Prod.snd hprep).symm
    obtain ⟨c, m₂, hdrain, hclass⟩ := TokenExecutor.drain_of_driveStateful h
    rw [hp, hs, startOf_nonBlank] at hstart
    rw [hlive] at hdrain
    rw [hs] at hclass
    exact ⟨_, m₂, .next life (.next _ _ _ hwait hq hstart hwalk) hdrain, hclass⟩

theorem TokenExecutor.drain_process (ex : TokenExecutor ω) (fuel : Nat) (m : Machine ω) :
    (ex.drain fuel .top m).2.st.process = m.st.process :=
  (ex.run_drain fuel .top m).invariant (I := fun m' => m'.st.process = m.st.process)
    (fun _ _ _ _ hstep hI => hstep.process_eq.trans hI) rfl

theorem Pass.live_process (x : Pass ω) : (x.live p).st.process = x.opened.st.process := by
  obtain ⟨m', hrun, hframe⟩ := enter_run p x.entry x.opened
  rw [Pass.live, hrun]
  exact hframe.process

theorem Opens.opened {before : Option (Machine ω)} {x : Pass ω}
    (h : Opens ex p deployment labels startNodeId before x) :
    x.opened.st.process = p ∧ x.opened.st.ghost = false ∧ x.opened.st.completedActivities = [] := by
  cases h with
  | first fuel initial m hstart =>
    obtain ⟨i, hnew⟩ := ex.newInstance_st p initial deployment labels m
    rw [hnew]
    exact ⟨rfl, rfl, rfl⟩
  | @next fuel cause m m₀ q start w s hwait hq hstart hwalk =>
    have hframe := (ex.ghostWalk_frame fuel (m := ⟨q.openWorld m.world, q.ghostState start⟩) rfl).2
    rw [hwalk] at hframe
    have hprepared := prepared_carried q hframe
    exact ⟨hprepared.process.trans (request_spec hq).1, hprepared.live, hprepared.completed⟩

theorem Life.last (h : Life ex p deployment labels startNodeId passes m) : ∃ before x c,
    Opens ex p deployment labels startNodeId before x ∧
      ex.drain x.fuel .top (x.live p) = (.ok c, m) := by
  cases h with
  | first h hdrain => exact ⟨none, _, _, h, hdrain⟩
  | next _ h hdrain => exact ⟨some _, _, _, h, hdrain⟩

theorem Life.process (h : Life ex p deployment labels startNodeId passes m) : m.st.process = p := by
  obtain ⟨before, x, c, hopens, hdrain⟩ := h.last
  have hdrained := ex.drain_process x.fuel (x.live p)
  rw [hdrain, Pass.live_process] at hdrained
  exact hdrained.trans hopens.opened.1

theorem TokenExecutor.classify_nonBlank (start : Option String) (m : Machine ω) :
    ex.classify (nonBlank start) m = ex.classify start m := by
  rw [ex.classify_run, ex.classify_run, ExecutionState.suspendedAs, nonBlank_nonBlank,
    ← ExecutionState.suspendedAs]

theorem TokenExecutor.classify_suspended {start : Option String} {s : Suspended}
    (h : ex.classify start m = (.ok (.suspended s), m')) :
    m.st.waiting ≠ [] ∧ s = m.st.suspendedAs m.world.ctx.vars start := by
  by_cases hw : m.st.waiting = []
  · exact absurd h (ex.classify_not_waiting hw)
  · obtain ⟨m₁, hclass⟩ := ex.classify_waiting start hw
    have heq := (Prod.mk.inj (h.symm.trans hclass)).1
    exact ⟨hw, StatefulExecResult.suspended.inj (Except.ok.inj heq)⟩

/-- At a quiescent point no wait is listed twice, and every fresh one is listed. -/
theorem Life.parked (h : Life ex p deployment labels startNodeId passes m) : WellParked m.st := by
  obtain ⟨before, x, c, hopens, hdrain⟩ := h.last
  have hopened : WellParked x.opened.st := by
    cases hopens with
    | first fuel initial m hstart =>
      obtain ⟨i, hnew⟩ := ex.newInstance_st p initial deployment labels m
      rw [hnew]
      exact ⟨.nil, fun n hn => by cases hn⟩
    | @next fuel cause m m₀ q start w s hwait hq hstart hwalk =>
      have hframe := (ex.ghostWalk_frame fuel
        (m := ⟨q.openWorld m.world, q.ghostState start⟩) rfl).2
      rw [hwalk] at hframe
      have hprepared := prepared_carried q hframe
      exact ⟨hprepared.nodup, fun n hn => by rw [hprepared.fresh] at hn; cases hn⟩
  have hlive : WellParked (x.live p).st := by
    obtain ⟨m', hrun, _, _, _, _, _, _, _, _, _, _, hframe⟩ := enter_run p x.entry x.opened
    rw [Pass.live, hrun, hframe]
    exact ⟨hopened.nodup, hopened.fresh⟩
  refine (ex.run_of_drain hdrain).invariant (I := fun m => WellParked m.st) ?_ hlive
  intro mv _ m₁ m₂ hstep hparked
  refine hstep.effects.wellParked ?_
  obtain ⟨rest, -, hbefore, -⟩ := hstep
  rw [hbefore]
  exact ⟨hparked.nodup, hparked.fresh⟩

/-- **Every sequence of calls is a life, with one pass for each call**, and a snapshot that one
returns has waits, none of them twice, and among them the fresh ones. -/
theorem returned_life {n : Nat} (h : Returned ex p deployment labels startNodeId n res) :
    (∃ passes m m', Life ex p deployment labels startNodeId passes m ∧ passes.length = n ∧
      ex.classify startNodeId m = (.ok res, m')) ∧
    ∀ s, res = .suspended s →
      s.waitingNodes ≠ [] ∧ s.waitingNodes.Nodup ∧ ∀ w ∈ s.freshWaits, w ∈ s.waitingNodes := by
  have hlife : ∃ passes m m', Life ex p deployment labels startNodeId passes m ∧
      passes.length = n ∧ ex.classify startNodeId m = (.ok res, m') := by
    induction h with
    | execute fuel initial m h =>
      obtain ⟨pass, m, life, hclass⟩ := Life.of_execute h
      exact ⟨_, m, _, life, rfl, hclass⟩
    | wake fuel cause m past h ih =>
      obtain ⟨passes, m, m', life, rfl, hclass⟩ := ih
      obtain ⟨hwait, rfl⟩ := TokenExecutor.classify_suspended hclass
      obtain ⟨pass, m₁, life, hclass⟩ := life.of_wake hwait h
      rw [TokenExecutor.classify_nonBlank] at hclass
      exact ⟨_, m₁, _, life, List.length_append, hclass⟩
  refine ⟨hlife, fun s hs => ?_⟩
  obtain ⟨passes, m, m', life, -, hclass⟩ := hlife
  obtain ⟨hwait, rfl⟩ := TokenExecutor.classify_suspended (hs ▸ hclass)
  exact ⟨hwait, life.parked.nodup, life.parked.fresh⟩

end entries

/-- Legal approves: a second pass, and finance stays open. -/
theorem twoApprovals_returned : ∃ (ex : TokenExecutor Unit) (s : Suspended),
    Returned ex twoApprovals .unresolved .empty none 2 (.suspended s) ∧ s.waitingNodes ≠ [] := by
  have first : Returned (TokenExecutor.builder (ω := Unit) (fun _ => none) "i" "now") twoApprovals
      .unresolved .empty none 1 (.suspended _) :=
    .execute 20 .empty ⟨.fresh (), .new twoApprovals .unresolved .empty ""⟩ rfl
  have second := first.wake 20 (.relay "legal" .empty)
    ⟨.fresh (), .new twoApprovals .unresolved .empty ""⟩ rfl
  exact ⟨_, _, second, ((returned_life second).2 _ rfl).1⟩

end Sutra
