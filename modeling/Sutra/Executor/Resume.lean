import Sutra.Executor.Ghost

/-!
# A resume up to its live token

`prepareResume` in closed form. The listeners hear of the resume and of the timers it retires, the
ghosts walk, and then the frontier is carried over and the live token injected.

* `reconstruction_effect_free`: the walk ends, and only routes.
-/

namespace Sutra

open Prog Relation List ExecutionState

variable {ω : Type}

def ResumeRequest.openWorld (q : ResumeRequest) (w : World ω) : World ω :=
  { w with
    ctx := ⟨q.deployment, q.labels, q.instanceId, q.process.id,
      q.priorVariables.merge q.relayVariables⟩
    events := w.events ++ [.instanceResumed] ++ q.cancelledTimers.map .timerCancelled }

def ResumeRequest.ghostState (q : ResumeRequest) (start : String) : ExecutionState :=
  q.seededState.beginGhost q.entry.node start

def ResumeRequest.carried (q : ResumeRequest) (s : ExecutionState) : ExecutionState :=
  s.endGhost.carryOver q.consumed q.priorWaiting

theorem forEach_notify_run (es : List String) (f : String → Event) (m : Machine ω) :
    Prog.forEach es (fun id => Exec.notify (f id)) m
      = (.ok (), { m with world := { m.world with events := m.world.events ++ es.map f } }) := by
  induction es generalizing m with
  | nil =>
    simp only [forEach, map_nil, append_nil]
    rfl
  | cons e es ih =>
    have hstep : Prog.forEach (e :: es) (fun id => Exec.notify (f id)) m
        = Prog.forEach es (fun id => Exec.notify (f id))
            { m with world := { m.world with events := m.world.events ++ [f e] } } := rfl
    rw [hstep, ih]
    simp only [append_assoc, List.map_cons, singleton_append]

theorem foldl_pushPriorCompleted (s : ExecutionState) (ns : List String) :
    ∃ c, ns.foldl (fun s n => s.pushPriorCompleted n) s = { s with priorCompleted := c } := by
  induction ns generalizing s with
  | nil => exact ⟨s.priorCompleted, rfl⟩
  | cons n ns ih =>
    obtain ⟨c, h⟩ := ih (s.pushPriorCompleted n)
    exact ⟨c, h⟩

/-- The state a resume starts from is a fresh scope with its memory of the earlier passes. -/
theorem ResumeRequest.seededState_eq (q : ResumeRequest) : ∃ c, q.seededState =
    { new q.process q.deployment q.labels q.instanceId with
      priorCompleted := c
      retryAttempts := q.seedAttempts
      retryBackoff := q.seedBackoff
      channelCallFailure := q.channelCallFailure
      firedTimer := q.firedTimer
      priorWaiting := q.priorWaiting
      pathProgress := q.priorCoverage.entries.foldl (fun m e => m.insert e.1 e.2) .empty } := by
  obtain ⟨c, hc⟩ := foldl_pushPriorCompleted
    (.new q.process q.deployment q.labels q.instanceId) q.completedNodes
  rw [seededState, seedCompleted]
  rw [hc]
  split
  · exact ⟨_, rfl⟩
  · exact ⟨c, rfl⟩

namespace TokenExecutor

variable (ex : TokenExecutor ω)

theorem prepareResume_run (fuel : Nat) (q : ResumeRequest) (m : Machine ω) {start : String}
    (hstart : startOf q.process q.startNodeId = .ok start) :
    ex.prepareResume fuel q m = (do
      ex.ghostWalk fuel
      Exec.modifyState q.carried
      enter q.process q.entry : Exec ω Unit) ⟨q.openWorld m.world, q.ghostState start⟩ := by
  have hopen : ex.prepareResume fuel q m = (do
      Prog.forEach q.cancelledTimers fun id => Exec.notify (.timerCancelled id)
      let start ← Exec.liftLookup (startOf q.process q.startNodeId)
      _ : Exec ω Unit) ⟨_, q.seededState⟩ := rfl
  rw [hopen, bind_run_ok (forEach_notify_run q.cancelledTimers .timerCancelled _), hstart]
  rfl

theorem ghostState_process (q : ResumeRequest) (start : String) :
    (q.ghostState start).process = q.process := by
  obtain ⟨c, hs⟩ := q.seededState_eq
  rw [ResumeRequest.ghostState, beginGhost]
  rw [hs]
  rfl

theorem ghostState_potential (q : ResumeRequest) (start : String) :
    ghostPotential (q.ghostState start) ≤ 3 * q.process.flows.length + 2 := by
  obtain ⟨c, hs⟩ := q.seededState_eq
  have hprocess := ghostState_process q start
  have hwork : (q.ghostState start).work = [start] := by
    rw [ResumeRequest.ghostState, beginGhost]
    rw [hs]
    rfl
  have huntaken : (untaken (q.ghostState start)).length ≤ q.process.flows.length := by
    rw [untaken]
    rw [hprocess]
    exact length_filter_le _ _
  have hweight := tokenWeight_le q.process start
  rw [ghostPotential]
  rw [hwork, hprocess]
  simp only [List.map_cons, map_nil, sum_cons, sum_nil]
  omega

/-- **The reconstruction walk of a resume ends, and has no effect but routing.**  Its budget is
three steps per flow and two for the start; the world — variables, emissions, events, stores, and
everything behind the callbacks — is the one it started from, and so are the frontier, the fresh
waits, the timers and the completed activities. The resume then goes on from its final state. -/
theorem reconstruction_effect_free (fuel : Nat) (q : ResumeRequest) (m : Machine ω) (start : String)
    (hd : q.process.IdsDistinct) (hstart : startOf q.process q.startNodeId = .ok start)
    (hfuel : 3 * q.process.flows.length + 2 < fuel) :
    ∃ s', ex.ghostWalk fuel ⟨q.openWorld m.world, q.ghostState start⟩
        = (.ok (), ⟨q.openWorld m.world, s'⟩) ∧ s'.work = [] ∧
      s'.waiting = (q.ghostState start).waiting ∧ s'.freshWaits = (q.ghostState start).freshWaits ∧
      s'.timerWaits = (q.ghostState start).timerWaits ∧
      s'.completedActivities = (q.ghostState start).completedActivities ∧
      RoutingFrame (q.ghostState start) s' ∧
      ex.prepareResume fuel q m = enter q.process q.entry ⟨q.openWorld m.world, q.carried s'⟩ := by
  have hpot := ghostState_potential q start
  obtain ⟨⟨w, s'⟩, hwalk, hwork⟩ := ex.ghostWalk_ends fuel
    (m := ⟨q.openWorld m.world, q.ghostState start⟩) ((ghostState_process q start).symm ▸ hd) rfl
    (lt_of_le_of_lt hpot hfuel)
  obtain ⟨hworld, hframe⟩ := ex.ghostWalk_frame fuel
    (m := ⟨q.openWorld m.world, q.ghostState start⟩) rfl
  rw [hwalk] at hworld hframe
  subst hworld
  have hrun : ex.prepareResume fuel q m
      = enter q.process q.entry ⟨q.openWorld m.world, q.carried s'⟩ := by
    rw [ex.prepareResume_run fuel q m hstart, bind_run_ok hwalk]
    rfl
  refine ⟨s', hwalk, hwork, ?_⟩
  obtain ⟨_, _, _, _, _, _, _, _, _, _, rfl⟩ := id hframe
  exact ⟨rfl, rfl, rfl, rfl, hframe, hrun⟩

end TokenExecutor

def reviewLoop : ProcessDefinition where
  id := "review"
  nodes := [.startEvent "start", .userTask "review", .exclusiveGateway "approved" (some "yes"),
    .userTask "sign"]
  flows := [⟨"in", "start", "review", none⟩, ⟨"out", "review", "approved", none⟩,
    ⟨"again", "approved", "review", some "rework"⟩, ⟨"yes", "approved", "sign", none⟩]
  bindings := .empty
  coveragePaths := []

/-- The review is done, and somebody has signed. -/
def signed : ResumeRequest :=
  Suspended.request ⟨"i", ["sign"], ["review"], .empty, none, [], false, .empty, .empty, .empty,
    ["sign"]⟩ reviewLoop .unresolved .empty "sign" .empty

namespace TokenExecutor

/-- A ghost passes the review, takes the way back to it, and the walk ends all the same. -/
theorem reviewLoop_reconstruction : ∃ s', (builder (fun _ => none) "i" "now").ghostWalk 20
      ⟨signed.openWorld (.fresh ()), signed.ghostState "start"⟩
        = (.ok (), ⟨signed.openWorld (.fresh ()), s'⟩) ∧ "again" ∈ s'.ghostFlows ∧ s'.work = [] := by
  obtain ⟨s', hwalk, hwork, -⟩ := (builder (fun _ => none) "i" "now").reconstruction_effect_free
    20 signed ⟨.fresh (), signed.seededState⟩ "start" (by decide) (by rfl) (by decide)
  refine ⟨s', hwalk, ?_, hwork⟩
  have hagain : "again" ∈ ((builder (fun _ => none) "i" "now").ghostWalk 20
      ⟨signed.openWorld (.fresh ()), signed.ghostState "start"⟩).2.st.ghostFlows := by decide
  rwa [hwalk] at hagain

end TokenExecutor

/-! ## The state a resume's live token starts from -/

variable (consumed prior : List String)

theorem carryOver_frame (s : ExecutionState) :
    ∃ w, s.carryOver consumed prior = { s with waiting := w } := by
  induction prior generalizing s with
  | nil => exact ⟨s.waiting, rfl⟩
  | cons n ns ih =>
    rw [carryOver]
    rw [foldl_cons]
    split
    · obtain ⟨w, h⟩ := ih { s with waiting := s.waiting ++ [n] }
      exact ⟨w, h⟩
    · exact ih s

theorem mem_carryOver (s : ExecutionState) (n : String) :
    n ∈ (s.carryOver consumed prior).waiting ↔ n ∈ s.waiting ∨ (n ∈ prior ∧ n ∉ consumed) := by
  induction prior generalizing s with
  | nil => simp [carryOver]
  | cons a as ih =>
    rw [carryOver]
    rw [foldl_cons]
    split
    · rename_i ha
      refine (ih { s with waiting := s.waiting ++ [a] }).trans ?_
      rw [mem_append, mem_singleton, mem_cons]
      constructor
      · rintro ((h | rfl) | h)
        · exact Or.inl h
        · exact Or.inr ⟨Or.inl rfl, ha.1⟩
        · exact Or.inr ⟨Or.inr h.1, h.2⟩
      · rintro (h | ⟨rfl | h, hc⟩)
        · exact Or.inl (Or.inl h)
        · exact Or.inl (Or.inr rfl)
        · exact Or.inr ⟨h, hc⟩
    · rename_i ha
      refine (ih s).trans ?_
      rw [mem_cons]
      constructor
      · rintro (h | h)
        · exact Or.inl h
        · exact Or.inr ⟨Or.inr h.1, h.2⟩
      · rintro (h | ⟨rfl | h, hc⟩)
        · exact Or.inl h
        · exact Or.inl (by_contra fun hn => ha ⟨hc, hn⟩)
        · exact Or.inr ⟨h, hc⟩

theorem nodup_carryOver (s : ExecutionState)
    (h : s.waiting.Nodup) : (s.carryOver consumed prior).waiting.Nodup := by
  induction prior generalizing s with
  | nil => exact h
  | cons a as ih =>
    rw [carryOver]
    rw [foldl_cons]
    split
    · rename_i ha
      refine ih { s with waiting := s.waiting ++ [a] } (nodup_append.mpr ⟨h, by simp, ?_⟩)
      intro x hx b hb
      rw [mem_singleton.mp hb]
      exact fun hxa => ha.2 (hxa ▸ hx)
    · exact ih s h

structure Prepared (q : ResumeRequest) (s : ExecutionState) : Prop where
  process : s.process = q.process
  parkable : s.retryParkable = true
  fired : s.firedTimer = q.firedTimer
  live : s.ghost = false
  fresh : s.freshWaits = []
  rows : s.timerWaits = []
  completed : s.completedActivities = []
  nodup : s.waiting.Nodup
  waiting : ∀ n, n ∈ s.waiting ↔ n ∈ q.priorWaiting ∧ n ∉ q.consumed

variable {s : ExecutionState}

theorem Prepared.frame {q : ResumeRequest} {s' : ExecutionState} (h : Prepared q s)
    (hf : RoutingFrame s s') : Prepared q s' := by
  obtain ⟨_, _, _, _, _, _, _, _, _, _, rfl⟩ := hf
  exact ⟨h.process, h.parkable, h.fired, h.live, h.fresh, h.rows, h.completed, h.nodup, h.waiting⟩

theorem prepared_carried (q : ResumeRequest) {start : String}
    (h : RoutingFrame (q.ghostState start) s) : Prepared q (q.carried s) := by
  have hmem := mem_carryOver q.consumed q.priorWaiting s.endGhost
  have hnodup := nodup_carryOver q.consumed q.priorWaiting s.endGhost
  obtain ⟨w, hcarry⟩ := carryOver_frame q.consumed q.priorWaiting s.endGhost
  rw [ResumeRequest.carried]
  rw [hcarry] at hmem hnodup ⊢
  obtain ⟨c, hseed⟩ := q.seededState_eq
  unfold ResumeRequest.ghostState beginGhost at h
  rw [hseed] at h
  obtain ⟨_, _, _, _, _, _, _, _, _, _, rfl⟩ := h
  refine ⟨rfl, rfl, rfl, rfl, rfl, rfl, rfl, hnodup nodup_nil, fun n => (hmem n).trans ?_⟩
  exact ⟨fun h => h.elim (fun hn => absurd hn not_mem_nil) id, .inr⟩

namespace TokenExecutor

variable (ex : TokenExecutor ω)

theorem enter_run (p : ProcessDefinition) (e : ResumeEntry) (m : Machine ω) :
    ∃ m', enter p e m = (.ok (), m') ∧ RoutingFrame m.st m'.st := by
  cases e with
  | leave node =>
    refine ⟨_, rfl, ?_⟩
    exact .of_routing (.trans (.single (.visit m.st node))
      (routing_enqueueOutgoing (m.st.visit node) node fun _ hf => outgoing_subset _ _ _ hf))
  | run node => exact ⟨_, rfl, _, _, _, _, _, _, _, _, _, _, rfl⟩

variable {m m' : Machine ω} {fuel : Nat} {q : ResumeRequest}

theorem startOf_of_prepareResume (h : ex.prepareResume fuel q m = (.ok (), m')) :
    ∃ start, startOf q.process q.startNodeId = .ok start := by
  obtain ⟨_, _, -, h⟩ := bind_eq_ok h
  obtain ⟨_, _, -, h⟩ := bind_eq_ok h
  obtain ⟨_, _, -, h⟩ := bind_eq_ok h
  obtain ⟨_, _, -, h⟩ := bind_eq_ok h
  obtain ⟨start, _, hstart, -⟩ := bind_eq_ok h
  exact ⟨start, lift_eq_ok hstart⟩

/-- **What the live token of a resume starts from.** -/
theorem prepareResume_ok (h : ex.prepareResume fuel q m = (.ok (), m')) : Prepared q m'.st := by
  obtain ⟨start, hstart⟩ := ex.startOf_of_prepareResume h
  rw [ex.prepareResume_run fuel q m hstart] at h
  obtain ⟨_, m₁, hwalk, h⟩ := bind_eq_ok h
  have hframe := (ex.ghostWalk_frame fuel (m := ⟨q.openWorld m.world, q.ghostState start⟩) rfl).2
  rw [hwalk] at hframe
  obtain ⟨m₂, hrun, henter⟩ := enter_run q.process q.entry { m₁ with st := q.carried m₁.st }
  have hm : m' = m₂ := (Prod.mk.inj (h.symm.trans hrun)).2
  exact hm ▸ (prepared_carried q hframe).frame henter

/-! ## How a pass ends -/

variable {m₁ : Machine ω} {s : Suspended} {start : Option String}

theorem driveStateful_ok {c : Bool} (start : Option String)
    (h : ex.drain fuel .top m = (.ok c, m₁)) :
    ex.driveStateful fuel start m = ex.classify start m₁ := by
  have hattempt : Prog.attempt (ex.drain fuel .top) m = (.ok (.ok c), m₁) := by
    rw [attempt_run, h]
  exact bind_run_ok hattempt

theorem driveStateful_error {sig : Signal} (start : Option String)
    (h : ex.drain fuel .top m = (.error sig, m₁)) :
    ∃ sig' m', ex.driveStateful fuel start m = (.error sig', m') := by
  have hattempt : Prog.attempt (ex.drain fuel .top) m = (.ok (.error sig), m₁) := by
    rw [attempt_run, h]
  have hdrive : ex.driveStateful fuel start m
      = failPass (signalToError m₁.st.process.id sig) m₁ := bind_run_ok hattempt
  rw [hdrive]
  unfold failPass reportFailed
  split <;> exact ⟨_, _, rfl⟩

theorem classify_run (start : Option String) (m : Machine ω) :
    ex.classify start m = (if m.st.waiting ≠ [] then (do
        Exec.notify .instanceSuspended
        pure (.suspended (m.st.suspendedAs m.world.ctx.vars start)) : Exec ω StatefulExecResult)
      else if !m.st.reachedEnd then failPass (fatalDiag Codes.runtimeUnexpected
        s!"Process {m.st.process.id} neither reached an end event nor suspended at a wait state")
      else (do
        ex.markCoverage
        Exec.notify .instanceCompleted
        pure (.completed m.st.instanceId m.st.endOutputs m.st.visited))) m := rfl

/-- A parked token suspends the pass, whatever else happened. -/
theorem classify_waiting (start : Option String) (h : m.st.waiting ≠ []) : ∃ m', ex.classify start m
      = (.ok (.suspended (m.st.suspendedAs m.world.ctx.vars start)), m') := by
  rw [classify_run, if_pos h]
  exact ⟨_, rfl⟩

theorem classify_not_waiting
    (h : m.st.waiting = []) : ex.classify start m ≠ (.ok (.suspended s), m') := by
  rw [classify_run, if_neg (not_not.mpr h)]
  split
  · unfold failPass reportFailed
    split <;> exact fun hc => nomatch (Prod.mk.inj hc).1
  · intro hc
    obtain ⟨_, _, -, hc⟩ := bind_eq_ok hc
    obtain ⟨_, _, -, hc⟩ := bind_eq_ok hc
    exact nomatch (Prod.mk.inj hc).1

/-- A pass is suspended as what its drained work list left, and that has a parked token. -/
theorem driveStateful_suspended (h : ex.driveStateful fuel start m = (.ok (.suspended s), m')) :
    ∃ c m₁, ex.drain fuel .top m = (.ok c, m₁) ∧ m₁.st.waiting ≠ [] ∧
      s = m₁.st.suspendedAs m₁.world.ctx.vars start := by
  rcases hdrain : ex.drain fuel .top m with ⟨sig | c, m₁⟩
  · obtain ⟨sig', m₂, herr⟩ := ex.driveStateful_error start hdrain
    cases (Prod.mk.inj (h.symm.trans herr)).1
  · rw [ex.driveStateful_ok start hdrain] at h
    by_cases hw : m₁.st.waiting = []
    · exact absurd h (ex.classify_not_waiting hw)
    · obtain ⟨m₂, hclass⟩ := ex.classify_waiting start hw
      refine ⟨c, m₁, rfl, hw, ?_⟩
      have heq := (Prod.mk.inj (h.symm.trans hclass)).1
      exact StatefulExecResult.suspended.inj (Except.ok.inj heq)

theorem resumeInner_suspended (h : ex.resumeInner fuel q m = (.ok (.suspended s), m')) :
    ∃ m₁ c m₂, ex.prepareResume fuel q m = (.ok (), m₁) ∧ ex.drain fuel .top m₁ = (.ok c, m₂) ∧
      m₂.st.waiting ≠ [] ∧ s = m₂.st.suspendedAs m₂.world.ctx.vars q.startNodeId := by
  unfold resumeInner at h
  by_cases hb : Text.isBlank q.satisfiedWaitNode
  · rw [if_pos hb] at h
    cases (Prod.mk.inj h).1
  · rw [if_neg hb] at h
    obtain ⟨_, m₁, hprep, h⟩ := bind_eq_ok h
    obtain ⟨c, m₂, hdrain, hw, hs⟩ := ex.driveStateful_suspended h
    exact ⟨m₁, c, m₂, hprep, hdrain, hw, hs⟩

end TokenExecutor

end Sutra
