import Sutra.Executor.Life

/-!
# Coverage cursors

A coverage path is a list of flow ids; its cursor counts how many of them were taken in order: it
should be the `greedyPrefix` of the flows that the instance's tokens took.

* `Tracks`: `fire` advances the cursors, so a cursor follows every flow that is fired, and that
  includes the flows a resume's ghosts take again.
* `Life.cursor` says what that does.
-/

namespace Sutra

open Prog Relation List SortedMap ExecutionState

variable {ω : Type}

/-! ## The match -/

/-- **The greedy match of a path against a sequence of flows**, from a cursor on. -/
def greedyPrefix (path : List String) : Nat → List String → Nat
  | c, [] => c
  | c, f :: rest => greedyPrefix path (if path[c]? = some f then c + 1 else c) rest

theorem greedyPrefix_append (path : List String) (c : Nat) (l l' : List String) :
    greedyPrefix path c (l ++ l') = greedyPrefix path (greedyPrefix path c l) l' := by
  induction l generalizing c with
  | nil => rfl
  | cons f rest ih => exact ih _

theorem greedyPrefix_of_forall_ne {path : List String} {c : Nat} {l : List String}
    (h : ∀ f ∈ l, path[c]? ≠ some f) : greedyPrefix path c l = c := by
  induction l with
  | nil => rfl
  | cons f rest ih =>
    rw [greedyPrefix, if_neg (h f mem_cons_self)]
    exact ih fun g hg => h g (.tail _ hg)

/-! ## What a state keeps of it -/

def ExecutionState.cursor (s : ExecutionState) (path : CoveragePath) : Nat :=
  (s.pathProgress.get path.id).getD 0

def ProcessDefinition.PathsDistinct (p : ProcessDefinition) : Prop :=
  (p.coveragePaths.map (·.id)).Nodup

instance (p : ProcessDefinition) : Decidable p.PathsDistinct :=
  inferInstanceAs (Decidable (List.Nodup _))

variable {paths : List CoveragePath}

theorem advanceCursors_of_notMem (flowId : String) {id : String}
    (h : id ∉ paths.map (·.id)) (m : SortedMap String Nat) :
    (paths.foldl (advanceCursor flowId) m).get id = m.get id := by
  induction paths generalizing m with
  | nil => rfl
  | cons path rest ih =>
    rw [List.map_cons, mem_cons, not_or] at h
    rw [foldl_cons, ih h.2, advanceCursor]
    exact get_insert_of_ne _ _ (.symm h.1)

theorem advanceCursors_get (flowId : String)
    (hd : (paths.map (·.id)).Nodup) (m : SortedMap String Nat) {path : CoveragePath}
    (h : path ∈ paths) : ((paths.foldl (advanceCursor flowId) m).get path.id).getD 0
      = greedyPrefix path.flows ((m.get path.id).getD 0) [flowId] := by
  induction paths generalizing m with
  | nil => cases h
  | cons first rest ih =>
    rw [List.map_cons, nodup_cons] at hd
    rw [foldl_cons]
    rcases mem_cons.mp h with rfl | hrest
    · rw [advanceCursors_of_notMem flowId hd.1, advanceCursor, get_insert_self]
      rfl
    · have hne : first.id ≠ path.id := fun heq => hd.1 (heq ▸ List.mem_map_of_mem hrest)
      rw [ih hd.2 _ hrest, advanceCursor, get_insert_of_ne _ _ hne]

/-- **The cursors followed the flows that were fired**, all of them in `A`, from `s` to `s'`. -/
structure Tracks (A : String → Prop) (s s' : ExecutionState) : Prop where
  process : s'.process = s.process
  tracing : s'.traceCoverage = s.traceCoverage
  fired : s.traceCoverage = true → s.process.PathsDistinct → ∃ l,
    s'.flowTrace = s.flowTrace ++ l ∧ (∀ f ∈ l, A f) ∧
      ∀ path ∈ s.process.coveragePaths, s'.cursor path = greedyPrefix path.flows (s.cursor path) l

section tracks

variable {A : String → Prop} {s s' s'' : ExecutionState}

theorem Tracks.of_eq (h : (s'.process, s'.traceCoverage, s'.flowTrace, s'.pathProgress) =
    (s.process, s.traceCoverage, s.flowTrace, s.pathProgress)) : Tracks A s s' := by
  simp only [Prod.mk.injEq] at h
  obtain ⟨hp, ht, hf, hc⟩ := h
  refine ⟨hp, ht, fun _ _ => ⟨[], by rw [hf, append_nil], by simp, fun path _ => ?_⟩⟩
  rw [ExecutionState.cursor, hc]
  rfl

theorem Tracks.trans (h : Tracks A s s') (h' : Tracks A s' s'') : Tracks A s s'' where
  process := h'.process.trans h.process
  tracing := h'.tracing.trans h.tracing
  fired ht hd := by
    obtain ⟨l, hl, hA, hcur⟩ := h.fired ht hd
    obtain ⟨l', hl', hA', hcur'⟩ := h'.fired (h.tracing.trans ht) (h.process ▸ hd)
    refine ⟨l ++ l', by rw [hl', hl, append_assoc], fun f hf => ?_, fun path hpath => ?_⟩
    · exact (mem_append.mp hf).elim (hA f) (hA' f)
    · rw [hcur' path (h.process ▸ hpath), hcur path hpath, greedyPrefix_append]

instance : Std.Refl (Tracks A) := ⟨fun _ => .of_eq rfl⟩

instance : IsTrans ExecutionState (Tracks A) := ⟨fun _ _ _ => .trans⟩

theorem tracks_fire (s : ExecutionState) {flow : SequenceFlow} (h : A flow.id) :
    Tracks A s (s.fire flow) := by
  rw [fire]
  split
  · exact .of_eq rfl
  · refine ⟨rfl, rfl, fun ht hd => ⟨[flow.id], if_pos ht, by simpa using h, fun path hpath => ?_⟩⟩
    rw [ExecutionState.cursor]
    dsimp only
    rw [if_pos ht]
    exact advanceCursors_get flow.id hd s.pathProgress hpath

theorem tracks_routing {B : SequenceFlow → Prop} (hB : ∀ f, B f → A f.id)
    (h : Routing B s s') : Tracks A s s' := by
  cases h with
  | fire h => exact tracks_fire s (hB _ h)
  | visit | counters => exact .of_eq rfl

theorem tracks_effect {T : List String} {F : Option FiredTimer} {C : String → Prop} {W : Bool}
    (h : Effect T F C W s s') : Tracks (fun _ => True) s s' := by
  cases h with
  | route h => exact tracks_routing (fun _ _ => trivial) h
  | parkFresh | parkAgain | pushWork | clearWork | complete | timer | retries | taken | finish
  | detach | stores => exact .of_eq rfl

theorem tracks_of_steps {R : ExecutionState → ExecutionState → Prop}
    (hR : ∀ a b, R a b → Tracks A a b) (h : ReflTransGen R s s') : Tracks A s s' := by
  induction h with
  | refl => exact .of_eq rfl
  | tail _ h ih => exact ih.trans (hR _ _ h)

theorem tracks_steps {ex : TokenExecutor ω} {kind : ScopeKind} {m m' : Machine ω} {mv : Move ω}
    (h : ex.Steps kind m mv m') : Tracks (fun _ => True) m.st m'.st := by
  have heff := tracks_of_steps (fun _ _ => tracks_effect) h.effects
  obtain ⟨rest, -, hbefore, -⟩ := h
  rw [hbefore] at heff
  have hpop : Tracks (fun _ => True) m.st (m.withWork rest).st := .of_eq rfl
  exact hpop.trans heff

end tracks

/-! ## A pass -/

theorem tracks_enter (p : ProcessDefinition) (e : ResumeEntry) (m : Machine ω) :
    Tracks (fun _ => True) m.st (TokenExecutor.enter p e m).2.st := by
  cases e with
  | leave node =>
    have hroute : ReflTransGen (Routing fun _ => True) m.st
        ((m.st.visit node).enqueueOutgoing node) :=
      .head (.visit m.st node) (routing_enqueueOutgoing _ node fun _ _ => trivial)
    exact tracks_of_steps (fun _ _ => tracks_routing fun _ _ => trivial) hroute
  | run node => exact .of_eq rfl

section pass

variable {ex : TokenExecutor ω} {p : ProcessDefinition}

theorem Pass.tracks (x : Pass ω) (ex : TokenExecutor ω) (p : ProcessDefinition) :
    Tracks (fun _ => True) x.opened.st (x.closed ex p).st := by
  have hrun := ex.run_drain x.fuel .top (x.live p)
  refine .trans (tracks_enter p x.entry x.opened) ?_
  exact hrun.invariant (I := fun m => Tracks (fun _ => True) (x.live p).st m.st)
    (fun _ _ _ _ hstep hI => hI.trans (tracks_steps hstep)) (.of_eq rfl)

theorem Pass.cursor_closed (x : Pass ω) (ex : TokenExecutor ω) (hp : x.opened.st.process = p)
    (ht : x.opened.st.traceCoverage) (hd : p.PathsDistinct) {path : CoveragePath}
    (hpath : path ∈ p.coveragePaths) : (x.closed ex p).st.cursor path
      = greedyPrefix path.flows (x.opened.st.cursor path) (x.liveFlows ex p) := by
  subst hp
  obtain ⟨l, hl, -, hcur⟩ := (x.tracks ex x.opened.st.process).fired ht hd
  rw [hcur path hpath, Pass.liveFlows, hl, drop_left]

variable {q : ResumeRequest} {start : String}

theorem ghostState_cursor (path : CoveragePath) :
    (q.ghostState start).cursor path = (q.priorCoverage.get path.id).getD 0 := by
  obtain ⟨c, hs⟩ := q.seededState_eq
  rw [ExecutionState.cursor, ResumeRequest.ghostState, ExecutionState.beginGhost, hs,
    ← SortedMap.ofList, ofList_entries]

theorem ghostState_tracing (hpath : q.process.coveragePaths ≠ []) :
    (q.ghostState start).traceCoverage := by
  obtain ⟨c, hs⟩ := q.seededState_eq
  rw [ResumeRequest.ghostState, ExecutionState.beginGhost, hs]
  simpa [new] using hpath

theorem carried_frame (s : ExecutionState) :
    ∃ w, q.carried s = { s with ghost := false, work := [], waiting := w } := by
  obtain ⟨w, h⟩ := carryOver_frame q.consumed q.priorWaiting s.endGhost
  exact ⟨w, h⟩

theorem tracks_walk {fuel : Nat} {w w' : World ω} {s : ExecutionState}
    (hv : w.ctx.vars = q.priorVariables.merge q.relayVariables)
    (h : ex.ghostWalk fuel ⟨w, q.ghostState start⟩ = (.ok (), ⟨w', s⟩)) :
    Tracks (fun id => ∃ f, Retraced ex (q.priorVariables.merge q.relayVariables)
      (q.ghostState start) start f ∧ f.id = id) (q.ghostState start) (q.carried s) := by
  have hwork : (q.ghostState start).work = [start] := by
    obtain ⟨c, hs⟩ := q.seededState_eq
    rw [ResumeRequest.ghostState, ExecutionState.beginGhost, hs]
    rfl
  have hwalk := ex.ghostWalk_retraced (v := q.priorVariables.merge q.relayVariables)
    (s := q.ghostState start) start fuel (m := ⟨w, q.ghostState start⟩) hv
    (.refl _) rfl (fun n hn => by
      rw [hwork] at hn
      cases mem_singleton.mp hn
      exact .start)
  rw [h] at hwalk
  obtain ⟨wait, hcarried⟩ := carried_frame (q := q) s
  rw [hcarried]
  refine .trans (tracks_of_steps (fun a b hab => ?_) hwalk) (.of_eq rfl)
  cases hab with
  | route h => exact tracks_routing (fun f hf => ⟨f, hf, rfl⟩) h
  | work => exact .of_eq rfl

end pass

/-! ## Completion -/

namespace TokenExecutor

open Exec

variable (ex : TokenExecutor ω)

theorem quiet_markCovered (path : CoveragePath) (metric : CoverageMetricStore ω) :
    Silent (ex.markCovered path metric) := by
  rw [markCovered]
  refine .bind .state fun st => ?_
  split
  · exact .then_pure (Silent.callOut _)
  · refine .bind (.callOut _) fun res => ?_
    split
    · exact .notify _
    · exact .pure _

/-- **Completion marks the paths whose cursors are at their ends**, whichever way that is told. -/
theorem markCoverage_run (walked : CoveragePath → Prop) [DecidablePred walked]
    {metric : CoverageMetricStore ω} (hmetric : ex.coverageMetricStore = some metric)
    (m : Machine ω) (h : ∀ path ∈ m.st.process.coveragePaths,
      m.st.cursor path = path.flows.length ↔ walked path) :
    ex.markCoverage m = forEach m.st.process.coveragePaths
      (fun path => if walked path then ex.markCovered path metric else pure ()) m := by
  have hrun : ex.markCoverage m =
      forEach m.st.process.coveragePaths (fun path => ex.markPath path metric) m := by
    rw [markCoverage, hmetric]
    rfl
  rw [hrun]
  -- marking a path leaves the cursors alone, so each path is decided on the state at completion
  have hpaths : ∀ (paths : List CoveragePath) (n : Machine ω), n.st = m.st →
      (∀ path ∈ paths, path ∈ m.st.process.coveragePaths) →
      forEach paths (fun path => ex.markPath path metric) n
        = forEach paths
          (fun path => if walked path then ex.markCovered path metric else pure ()) n := by
    intro paths
    induction paths with
    | nil => exact fun _ _ _ => rfl
    | cons path rest ih =>
      intro n hn hsub
      have hiff := h path (hsub path (.head _))
      have hmark : ex.markPath path metric n
          = (if walked path then ex.markCovered path metric else pure ()) n := by
        have hdef : ex.markPath path metric n
            = (if n.st.cursor path ≠ path.flows.length then pure ()
              else ex.markCovered path metric) n := rfl
        rw [hdef, hn]
        by_cases hw : walked path
        · rw [if_pos hw, if_neg (not_not.mpr (hiff.mpr hw))]
        · rw [if_neg hw, if_pos (fun hc => hw (hiff.mp hc))]
      have hquiet : ((if walked path then ex.markCovered path metric else pure () : Exec ω Unit)
          n).2.st = m.st := by
        split
        · exact (ex.quiet_markCovered path metric n).1.trans hn
        · exact hn
      rw [forEach, forEach, bind_run, bind_run, hmark]
      rcases hres : (if walked path then ex.markCovered path metric else pure () : Exec ω Unit) n
        with ⟨sig | u, n'⟩
      · rfl
      · rw [hres] at hquiet
        exact ih n' hquiet fun g hg => hsub g (.tail _ hg)
  exact hpaths _ m rfl fun _ hpath => hpath

end TokenExecutor

/-! ## A life -/

/-- **A resume retraces no flow that a coverage path expects next.** -/
def Pass.KeepsExpected (x : Pass ω) (ex : TokenExecutor ω) (p : ProcessDefinition) : Prop :=
  ∀ q, x.request = some q → ∀ path ∈ p.coveragePaths, ∀ f,
    Retraced ex (q.priorVariables.merge q.relayVariables) (q.ghostState x.start) x.start f →
      path.flows[(q.priorCoverage.get path.id).getD 0]? ≠ some f.id

section life

variable {ex : TokenExecutor ω} {p : ProcessDefinition} {deployment : DeploymentId}
  {labels : Labels} {startNodeId : Option String} {path : CoveragePath}

theorem cursor_next {x : Pass ω} {q : ResumeRequest} {fuel : Nat} {w w' : World ω}
    {s : ExecutionState} (hd : p.PathsDistinct) (hp : q.process = p)
    (hv : w.ctx.vars = q.priorVariables.merge q.relayVariables)
    (hwalk : ex.ghostWalk fuel ⟨w, q.ghostState x.start⟩ = (.ok (), ⟨w', s⟩))
    (hrequest : x.request = some q) (hopened : x.opened.st = q.carried s)
    (hkeep : x.KeepsExpected ex p) (hpath : path ∈ p.coveragePaths) : (x.closed ex p).st.cursor path
      = greedyPrefix path.flows ((q.priorCoverage.get path.id).getD 0) (x.liveFlows ex p) := by
  have hghost : (q.ghostState x.start).process = p :=
    (TokenExecutor.ghostState_process q x.start).trans hp
  have htrace : (q.ghostState x.start).traceCoverage :=
    ghostState_tracing (by rw [hp]; exact ne_nil_of_mem hpath)
  have htracks := tracks_walk hv hwalk
  obtain ⟨l, -, hretraced, hcur⟩ := htracks.fired htrace (hghost ▸ hd)
  -- none of the retraced flows is the expected one, so the walk leaves the cursor alone
  have hstill : x.opened.st.cursor path = (q.priorCoverage.get path.id).getD 0 := by
    rw [hopened, hcur path (hghost ▸ hpath), ghostState_cursor]
    refine greedyPrefix_of_forall_ne fun id hid => ?_
    obtain ⟨f, hf, rfl⟩ := hretraced id hid
    exact hkeep q hrequest path hpath f hf
  rw [x.cursor_closed ex (hopened ▸ htracks.process.trans hghost)
    (hopened ▸ htracks.tracing.trans htrace) hd hpath, hstill]

theorem Life.cursor (hd : p.PathsDistinct) {passes : List (Pass ω)} {m : Machine ω}
    (h : Life ex p deployment labels startNodeId passes m)
    (hkeep : ∀ x ∈ passes, x.KeepsExpected ex p) (hpath : path ∈ p.coveragePaths) : m.st.cursor path
      = greedyPrefix path.flows 0 (passes.flatMap fun x => x.liveFlows ex p) := by
  induction h with
  | @first x m c hopens hdrain =>
    obtain ⟨hp, -, -⟩ := hopens.opened
    cases hopens with
    | first fuel initial m hstart =>
      obtain ⟨i, hnew⟩ := ex.newInstance_st p initial deployment labels m
      have htrace : (ex.newInstance p initial deployment labels m).st.traceCoverage := by
        rw [hnew]
        simpa [new] using ne_nil_of_mem hpath
      have hclosed := Pass.cursor_closed ⟨fuel, none, _, _⟩ ex hp htrace hd hpath
      rw [Pass.closed, hdrain] at hclosed
      rw [flatMap_cons, flatMap_nil, append_nil, hclosed, hnew]
      rfl
  | @next past m₀ x m c life hopens hdrain ih =>
    cases hopens with
    | @next fuel cause m _ q start w s hwait hq hstart hwalk =>
      have hprior : q.process = p ∧ q.priorCoverage = m₀.st.pathProgress := by
        obtain ⟨_, _, _, _, _, rfl⟩ := TokenExecutor.request_shape hq
        exact ⟨rfl, rfl⟩
      have hclosed := cursor_next (x := ⟨fuel, some q, start, ⟨w, q.carried s⟩⟩) hd hprior.1 rfl
        hwalk rfl rfl (hkeep _ (mem_append_right _ (mem_singleton_self _))) hpath
      rw [Pass.closed, hdrain, hprior.2] at hclosed
      have hbefore : (m₀.st.pathProgress.get path.id).getD 0
          = greedyPrefix path.flows 0 (past.flatMap fun x => x.liveFlows ex p) :=
        ih fun x hx => hkeep x (mem_append_left _ hx)
      rw [flatMap_append, flatMap_cons, flatMap_nil, append_nil, greedyPrefix_append, ← hbefore]
      exact hclosed

/-- **The cursors count what live tokens walked**, in every life whose resumes retrace no flow that
a path expects next: at every quiescent point the persisted cursor of a path is its greedy match
against the flows the live tokens of all passes took, and completion marks exactly the paths that
are matched to their ends. -/
theorem cursors_count_live_flows (hd : p.PathsDistinct) {passes : List (Pass ω)} {m : Machine ω}
    (h : Life ex p deployment labels startNodeId passes m)
    (hkeep : ∀ x ∈ passes, x.KeepsExpected ex p) : (∀ path ∈ p.coveragePaths,
      ((m.st.suspendedAs m.world.ctx.vars startNodeId).coverageProgress.get path.id).getD 0
        = greedyPrefix path.flows 0 (passes.flatMap fun x => x.liveFlows ex p)) ∧
    ∀ metric, ex.coverageMetricStore = some metric →
      ex.markCoverage m = forEach p.coveragePaths (fun path =>
        if greedyPrefix path.flows 0 (passes.flatMap fun x => x.liveFlows ex p) = path.flows.length
        then ex.markCovered path metric else pure ()) m := by
  refine ⟨fun path hpath => h.cursor hd hkeep hpath, fun metric hmetric => ?_⟩
  have hp := h.process
  have hmark := ex.markCoverage_run (fun path =>
    greedyPrefix path.flows 0 (passes.flatMap fun x => x.liveFlows ex p) = path.flows.length)
    hmetric m (fun path hpath => by rw [h.cursor hd hkeep (hp ▸ hpath)])
  rw [hp] at hmark
  exact hmark

end life

/-! ## A detour -/

def flagExecutor : TokenExecutor Unit :=
  { TokenExecutor.builder (fun _ => none) "i" "now" with
    conditionEvaluator := fun flag vars => .ok (match vars.get flag with
      | some (.boolean b) => b
      | _ => false)
    coverageMetricStore := some
      { markPathCovered := fun _ _ w => (.ok true, w)
        writeFragment := fun _ _ _ _ w => (.ok (), w)
        report := fun _ _ w => (.ok .null, w)
        clearPaths := fun _ _ w => (.ok 0, w) } }

def oneFlag (flag : String) (b : Bool) : Variables := ⟨[(flag, .boolean b)]⟩

def optionalReview : ProcessDefinition where
  id := "optionalReview"
  nodes := [.startEvent "start", .exclusiveGateway "decide" (some "skip"), .userTask "review",
    .endEvent "end"]
  flows := [⟨"begin", "start", "decide", none⟩, ⟨"check", "decide", "review", some "risky"⟩,
    ⟨"skip", "decide", "end", none⟩, ⟨"done", "review", "end", none⟩]
  bindings := .empty
  coveragePaths := [⟨"reviewed", ["begin", "check", "done"]⟩, ⟨"skipped", ["begin", "skip"]⟩]

def riskyStart : Pass Unit :=
  ⟨20, none, "start", flagExecutor.newInstance optionalReview (oneFlag "risky" true) .unresolved
    .empty ⟨.fresh (), .new optionalReview .unresolved .empty ""⟩⟩

/-- What a relay that sets the flag asks for. -/
def reviewRequest (risky : Bool) : ResumeRequest :=
  ((riskyStart.closed flagExecutor optionalReview).st.suspendedAs
    (riskyStart.closed flagExecutor optionalReview).world.ctx.vars none).request optionalReview
      .unresolved .empty "review" (oneFlag "risky" risky)

def reviewPass (risky : Bool) : Pass Unit :=
  let walked := (flagExecutor.ghostWalk 20 ⟨(reviewRequest risky).openWorld (.fresh ()),
    (reviewRequest risky).ghostState "start"⟩).2
  ⟨20, some (reviewRequest risky), "start", ⟨walked.world, (reviewRequest risky).carried walked.st⟩⟩

theorem reviewed_life (risky : Bool) :
    Life flagExecutor optionalReview .unresolved .empty none [riskyStart, reviewPass risky]
      ((reviewPass risky).closed flagExecutor optionalReview) := by
  have first : Life flagExecutor optionalReview .unresolved .empty none [riskyStart]
      (riskyStart.closed flagExecutor optionalReview) :=
    .first (.first 20 (oneFlag "risky" true) ⟨.fresh (), .new optionalReview .unresolved .empty ""⟩
      rfl) rfl
  have hwait : (riskyStart.closed flagExecutor optionalReview).st.waiting ≠ [] := by decide
  have resumed : Opens flagExecutor optionalReview .unresolved .empty none
      (some (riskyStart.closed flagExecutor optionalReview)) (reviewPass risky) := by
    cases risky <;> exact .next 20 (.relay "review" _)
      ⟨.fresh (), .new optionalReview .unresolved .empty ""⟩ hwait rfl rfl rfl
  cases risky <;> exact .next first resumed rfl

theorem reviewPass_keepsExpected : (reviewPass true).KeepsExpected flagExecutor optionalReview := by
  intro q hq path hpath f ⟨n, hn, hf⟩
  cases hq
  have hmem : n ∈ ["start", "decide", "review"] :=
    hn.mem_of_closed (by decide) (by decide) (by decide)
  have hall : ∀ path ∈ optionalReview.coveragePaths, ∀ n ∈ ["start", "decide", "review"],
      ∀ f ∈ flagExecutor.ghostFlowsFrom ((reviewRequest true).priorVariables.merge
        (reviewRequest true).relayVariables) ((reviewRequest true).ghostState "start") n,
      path.flows[((reviewRequest true).priorCoverage.get path.id).getD 0]? ≠ some f.id := by
    decide
  exact hall path hpath n hmem f hf

/-- The flag stays: the reviewed path is matched to its end. -/
theorem review_marked : ∃ m,
    Life flagExecutor optionalReview .unresolved .empty none [riskyStart, reviewPass true] m ∧
      ((m.st.suspendedAs m.world.ctx.vars none).coverageProgress.get "reviewed").getD 0
        = greedyPrefix ["begin", "check", "done"] 0 ([riskyStart, reviewPass true].flatMap
          fun x => x.liveFlows flagExecutor optionalReview) ∧
      (m.st.pathProgress.get "reviewed").getD 0 = 3 := by
  have hkeep : ∀ x ∈ [riskyStart, reviewPass true],
      x.KeepsExpected flagExecutor optionalReview := by
    intro x hx
    rcases mem_cons.mp hx with rfl | hx
    · exact fun _ hq => nomatch hq
    · rw [mem_singleton.mp hx]
      exact reviewPass_keepsExpected
  refine ⟨_, reviewed_life true, ?_, by decide⟩
  exact (cursors_count_live_flows (by decide) (reviewed_life true) hkeep).1
    ⟨"reviewed", ["begin", "check", "done"]⟩ (.head _)

/-- **The flag is cleared by the relay**: the ghosts take the skip that no token took, and its path
is marked as walked. -/
theorem detour_marked : ∃ m,
    Life flagExecutor optionalReview .unresolved .empty none [riskyStart, reviewPass false] m ∧
      m.st.cursor ⟨"skipped", ["begin", "skip"]⟩ = 2 ∧
      greedyPrefix ["begin", "skip"] 0 ([riskyStart, reviewPass false].flatMap
        fun x => x.liveFlows flagExecutor optionalReview) = 1 ∧
      .pathCovered "skipped" ∈ (flagExecutor.classify none m).2.world.events := by
  refine ⟨_, reviewed_life false, by decide, by decide, ?_⟩
  exact mem_of_getElem? (i := 5) rfl

end Sutra
