import Sutra.Executor.Life
import Sutra.Executor.Terminate

/-!
# Compensation

A compensate throw event runs the handlers of the completed activities, the last one completed
first. What has been completed is a matter of the whole instance. The executor keeps a list of its
own, and a resume starts with an empty one.

* `completion` reads it off a move: the activity ran and its token left along its flows.
* `Pass.completions` adds the wait that a resume satisfied.
-/

namespace Sutra

open Prog Relation List Within

variable {ω α β : Type}

def handled (p : ProcessDefinition) (activityId : String) : Bool :=
  (TokenExecutor.compensationHandler p activityId).isSome

/-! ## What has been completed -/

namespace TokenExecutor

variable (ex : TokenExecutor ω)

def cancels (r : Nested ω) (node : Node) (m : Machine ω) : Bool :=
  match node with
  | .transactionSubProcess id inner =>
    match (ex.runTransactionSubProcess r id inner m).1 with
    | .ok cancelled => cancelled
    | .error _ => false
  | _ => false

def entered (mv : Move ω) (node : Node) : Machine ω :=
  (notifyEntered mv.node node.nodeType mv.before).2

def moveCancels (mv : Move ω) : Bool :=
  match mv.before.st.process.node mv.node with
  | .error _ => false
  | .ok node => ex.cancels ⟨mv.fuel, ex.drain mv.fuel⟩ node (entered mv node)

/-- **The activity a move completes**: it ran, was not cancelled, and its token left. -/
def completion (mv : Move ω) : List String :=
  match mv.before.st.process.node mv.node with
  | .error _ => []
  | .ok node =>
    match (ex.runNodeKind ⟨mv.fuel, ex.drain mv.fuel⟩ mv.node node (entered mv node)).1 with
    | .ok false => if node.completesInPlace && !ex.moveCancels mv then [mv.node] else []
    | _ => []

theorem completion_subset (mv : Move ω) : ∀ a ∈ ex.completion mv, a = mv.node := by
  intro a ha
  rw [completion] at ha
  split at ha
  · cases ha
  · split at ha
    · split at ha
      · exact mem_singleton.mp ha
      · cases ha
    · cases ha

end TokenExecutor

namespace Pass

variable (x : Pass ω)

/-- The wait that the pass begins by leaving. -/
def satisfied : List String :=
  match x.request with
  | none => []
  | some q => if q.satisfies then [q.satisfiedWaitNode] else []

/-- **The activities a pass completes**, in order, once per completion. -/
def completions (ex : TokenExecutor ω) (p : ProcessDefinition) : List String :=
  x.satisfied ++ (ex.moves x.fuel .top (x.live p)).flatMap ex.completion

end Pass

/-! ## What the executor records -/

def record (g : String → Bool) (m : Machine ω) : List String := m.st.completedActivities.filter g

/-- In a scope over `p` the record of the selected activities stays. -/
def SameRecord (p : ProcessDefinition) (g : String → Bool) (m m' : Machine ω) : Prop :=
  m.st.process = p → m'.st.process = p ∧ record g m' = record g m

section record

variable {p : ProcessDefinition} {g : String → Bool} {m m' : Machine ω}

instance : Std.Refl (SameRecord (ω := ω) p g) := ⟨fun _ hp => ⟨hp, rfl⟩⟩

instance : IsTrans (Machine ω) (SameRecord p g) := ⟨fun _ _ _ h h' hp => by
  obtain ⟨hp', hr⟩ := h hp
  obtain ⟨hp'', hr'⟩ := h' hp'
  exact ⟨hp'', hr'.trans hr⟩⟩

theorem completed_of_effects {T : List String} {F : Option FiredTimer} {s s' : ExecutionState}
    (h : Effects T F (fun id => g id = false) true s s') :
    s'.completedActivities.filter g = s.completedActivities.filter g := by
  induction h with
  | refl => rfl
  | tail _ h ih =>
    refine .trans ?_ ih
    cases h with
    | route h =>
      obtain ⟨_, _, _, _, _, _, _, _, _, _, rfl⟩ := h.frame
      rfl
    | complete hid =>
      rw [ExecutionState.pushCompleted, filter_append, filter_cons_of_neg (by simp [hid]),
        filter_nil, append_nil]
    | _ => rfl

variable {x : Exec ω α} {l : List String}

theorem sameRecord_of_touches {T : Bool → List String}
    (h : ∀ b F, Within (Touches p b F (T b) (fun id => g id = false) AnyView) x) :
    Within (SameRecord p g) x := fun m hp => by
  have heff := (h m.st.retryParkable m.st.firedTimer m ⟨hp, rfl, .inr rfl⟩).1
  exact ⟨heff.process_eq.trans hp, completed_of_effects heff⟩

theorem sameRecord_of_passes
    (h : ∀ b F, Within (Touches p b F [] (fun id => g id = false) AnyView) x) :
    Within (SameRecord p g) x := sameRecord_of_touches (T := fun _ => []) h

theorem sameRecord_of_quiet (h : Silent x) : Within (SameRecord p g) x :=
  sameRecord_of_passes fun _ _ => Acts.of_quiet h

/-- What running a node comes to: the completions `l` are recorded when the token leaves, and
nothing is when it parks or raises an error. -/
def RecordsOnce (g : String → Bool) (l : List String) (m : Machine ω) :
    Except Signal Bool × Machine ω → Prop
  | (.ok false, m') => record g m' = record g m ++ l.filter g
  | (.ok true, m') => record g m' = record g m
  | (.error sig, m') => FailsPass sig ∨ record g m' = record g m

theorem recordsOnce_of_same {res : Except Signal Bool × Machine ω}
    (hr : record g m' = record g m) (h : RecordsOnce g l m' res) : RecordsOnce g l m res := by
  obtain ⟨res, n⟩ := res
  rcases res with sig | held
  · exact h.imp_right fun h => h.trans hr
  · cases held with
    | false => exact h.trans (by rw [hr])
    | true => exact h.trans hr

theorem recordsOnce_bind {f : α → Exec ω Bool}
    (hx : Within (SameRecord p g) x) (hp : m.st.process = p)
    (hf : ∀ a m', x m = (.ok a, m') → m'.st.process = p → RecordsOnce g l m' (f a m')) :
    RecordsOnce g l m ((x >>= f) m) := by
  obtain ⟨hp', hr⟩ := hx m hp
  rcases h : x m with ⟨sig | a, n⟩
  · rw [h] at hr
    rw [bind_run_error h]
    exact .inr hr
  · rw [h] at hp' hr
    rw [bind_run_ok h]
    exact recordsOnce_of_same hr (hf a n h hp')

theorem recordsOnce_push {id : String} {y : Exec ω Bool} (hy : Within (SameRecord p g) y)
    (hraise : Raises FailsPass y) (hleave : Gives (· = false) y) (hp : m.st.process = p) :
    RecordsOnce g [id] m ((Exec.modifyState (·.pushCompleted id) >>= fun _ => y) m) := by
  have hpush : Exec.modifyState (·.pushCompleted id) m
      = (.ok (), { m with st := m.st.pushCompleted id }) := rfl
  rw [bind_run_ok hpush]
  obtain ⟨-, hr⟩ := hy { m with st := m.st.pushCompleted id } hp
  rcases h : y { m with st := m.st.pushCompleted id } with ⟨sig | held, n⟩
  · exact Or.inl (hraise _ _ _ h)
  · rw [h] at hr
    cases hleave _ _ _ h
    refine hr.trans ?_
    rw [record, record]
    exact filter_append ..

theorem recordsOnce_of_sameRecord {x : Exec ω Bool} (hx : Within (SameRecord p g) x)
    (hp : m.st.process = p) : RecordsOnce g [] m (x m) := by
  obtain ⟨-, hr⟩ := hx m hp
  rcases h : x m with ⟨sig | held, n⟩
  · rw [h] at hr
    exact .inr hr
  · rw [h] at hr
    cases held with
    | false => exact hr.trans (append_nil _).symm
    | true => exact hr

end record

namespace TokenExecutor

open Exec

variable (ex : TokenExecutor ω) (r : Nested ω) {p : ProcessDefinition} {g : String → Bool}
  {m : Machine ω}

/-! ## The activities -/

theorem sameRecord_enqueueOutgoing (id : String) :
    Within (SameRecord p g) (modifyState (·.enqueueOutgoing id) : Exec ω Unit) :=
  sameRecord_of_passes fun _ _ => Acts.enqueueOutgoing id

variable {id nodeId : String} {go : Bool} {kind : ScopeKind} {m' m₁ : Machine ω}

theorem recordsOnce_leave (hp : m.st.process = p) : RecordsOnce g [id] m ((do
      modifyState (·.pushCompleted id)
      modifyState (·.enqueueOutgoing nodeId)
      pure false : Exec ω Bool) m) :=
  recordsOnce_push (then_pure (sameRecord_enqueueOutgoing nodeId))
    (.modify fun _ => .pure _)
    (gives_bind fun _ => .pure rfl) hp

theorem recordsOnce_completeAfter {task : Exec ω Unit}
    (h : Within (SameRecord p g) task) (hp : m.st.process = p) :
    RecordsOnce g [id] m (completeAfter id task m) :=
  recordsOnce_bind h hp fun _ _ _ hp' => recordsOnce_leave hp'

theorem recordsOnce_runServiceNode {impl : String} (dm : DataMapping) (params : List ParamBinding)
    (hnode : p.node id = .ok (.serviceTask id impl dm params))
    (hop : Text.startsWith coverageOpPrefix impl = false)
    (hreply : p.hasContinueReply id = false) (hp : m.st.process = p) :
    RecordsOnce g [id] m (ex.runServiceNode id impl dm params m) := by
  rw [runServiceNode]
  refine recordsOnce_bind (sameRecord_of_quiet .state) hp fun st m₁ hst hp₁ => ?_
  cases hst
  have htask : Within (SameRecord p g) (ex.runServiceTask id impl dm params m.st.retryParkable) :=
    sameRecord_of_touches (T := fun _ => [id]) fun _ _ => ex.touches_runServiceTask _ _ _
      (fun _ _ => .head _) (fun _ => .self hnode rfl) fun h => by simp [hop] at h
  refine recordsOnce_bind htask hp₁ fun parked m₂ _ hp₂ => ?_
  cases parked with
  | true => exact (rfl : record g m₂ = record g m₂)
  | false =>
    rw [hp, hreply]
    refine recordsOnce_push ?_ ?_ ?_ hp₂
    · exact .bind (sameRecord_of_quiet (ex.calm_emitReplyIfBound _).silent) fun _ =>
        .bind (sameRecord_of_quiet (ex.calm_emitSendIfBound _ _).silent) fun _ =>
          then_pure (sameRecord_enqueueOutgoing _)
    · exact .bind (ex.calm_emitReplyIfBound _).raises fun _ =>
        .bind (ex.calm_emitSendIfBound _ _).raises fun _ => .modify fun _ => .pure _
    · exact gives_bind fun _ => gives_bind fun _ => gives_bind fun _ => .pure rfl

theorem raises_routeCancelBoundary (id : String) :
    Raises FailsPass (routeCancelBoundary id : Exec ω Unit) := by
  rw [routeCancelBoundary]
  refine .bind (.gets _) fun p => ?_
  split
  · exact .modify fun _ => raises_modify _
  · exact raises_fail (failsPass_fatalDiag _ _)

theorem recordsOnce_runTransactionNode (nodeId id : String) (inner : ProcessDefinition)
    (hp : m.st.process = p) : RecordsOnce g [id] m (ex.runTransactionNode r nodeId id inner m) := by
  rw [runTransactionNode]
  refine recordsOnce_bind (sameRecord_of_passes fun _ _ =>
    ex.touches_runTransactionSubProcess r id inner) hp fun cancelled m₁ _ hp₁ => ?_
  refine recordsOnce_push ?_ ?_ ?_ hp₁
  · split
    · exact then_pure (sameRecord_of_passes fun _ _ => touches_routeCancelBoundary id)
    · exact .bind (sameRecord_of_quiet (ex.calm_emitReplyIfBound _).silent) fun _ =>
        then_pure (sameRecord_enqueueOutgoing _)
  · split
    · exact .bind (raises_routeCancelBoundary _) fun _ => .pure _
    · exact .bind (ex.calm_emitReplyIfBound _).raises fun _ => .modify fun _ => .pure _
  · split
    · exact gives_bind fun _ => .pure rfl
    · exact gives_bind fun _ => gives_bind fun _ => .pure rfl

/-- **An activity with a handler records its completion once**, if it is no coverage operation and
does not wait after it replied. -/
theorem recordsOnce_runNodeKind {node : Node}
    (hrec : Records p fun id => g id = false) (hnode : p.node nodeId = .ok node)
    (hop : node.isCoverageOp = false) (hreply : p.hasContinueReply nodeId = false)
    (hp : m.st.process = p) : RecordsOnce g (if node.completesInPlace then [nodeId] else []) m
      (ex.runNodeKind r nodeId node m) := by
  obtain ⟨hmem, hid⟩ := ProcessDefinition.of_node hnode
  by_cases hplace : node.completesInPlace
  · rw [if_pos hplace]
    subst hid
    have passes : ∀ {id} {task : Exec ω Unit},
        (∀ b F, Acts p b F [] (fun id => g id = false) AnyView task) →
        RecordsOnce g [id] m (completeAfter id task m) := fun h =>
      recordsOnce_completeAfter (sameRecord_of_passes h) hp
    cases node <;> try exact absurd hplace Bool.false_ne_true
    case serviceTask id impl dm params =>
      have hcall : Text.startsWith channelCallPrefix impl = false := by
        simpa [Node.completesInPlace] using hplace
      rw [runNodeKind, if_neg (by simp [hcall])]
      exact ex.recordsOnce_runServiceNode dm params hnode hop hreply hp
    case dataTask id dm =>
      refine recordsOnce_bind (sameRecord_of_passes fun _ _ =>
        ex.touches_runDataTask id dm) hp fun _ m₁ _ hp₁ => recordsOnce_push ?_ ?_ ?_ hp₁
      · exact Within.bind (sameRecord_of_quiet (ex.calm_emitReplyIfBound _).silent) fun _ =>
          then_pure (sameRecord_enqueueOutgoing _)
      · exact .bind (ex.calm_emitReplyIfBound _).raises fun _ => .modify fun _ => .pure _
      · exact gives_bind fun _ => gives_bind fun _ => .pure rfl
    case scriptTask =>
      exact recordsOnce_completeAfter (sameRecord_of_quiet (ex.quiet_runScriptTask _ _)) hp
    case businessRuleTask =>
      exact recordsOnce_completeAfter (sameRecord_of_quiet (ex.quiet_runBusinessRuleTask _ _)) hp
    case manualTask => exact recordsOnce_completeAfter (.pure _) hp
    case sendTask =>
      refine recordsOnce_push ?_ ?_ ?_ hp
      · exact .bind (sameRecord_of_quiet (ex.calm_emitSendIfBound _ _).silent) fun _ =>
          then_pure (sameRecord_enqueueOutgoing _)
      · exact .bind (ex.calm_emitSendIfBound _ _).raises fun _ => .modify fun _ => .pure _
      · exact gives_bind fun _ => gives_bind fun _ => .pure rfl
    case callActivity => exact passes fun _ _ => ex.touches_runCallActivity r _ _
    case subProcess => exact passes fun _ _ => touches_runEmbeddedSubProcess r _ _
    case transactionSubProcess => exact ex.recordsOnce_runTransactionNode r _ _ _ hp
    case adHocSubProcess => exact passes fun _ _ => ex.touches_runAdHocSubProcess r _ _
    case multiInstance =>
      exact passes fun _ _ => ex.touches_runMultiInstance r (hrec.looped _ hmem _ rfl)
        (ex.activityRule_any r p _) _ _ _ _ _
    case standardLoop =>
      exact passes fun _ _ => ex.touches_runStandardLoop r (hrec.looped _ hmem _ rfl)
        (ex.activityRule_any r p _) _ _ _ _
  · rw [if_neg hplace]
    exact recordsOnce_of_sameRecord (sameRecord_of_touches (T := fun b => parkTargets p b node)
      fun _ _ => ex.touches_runNodeKind r hnode (fun _ hid => hid) hrec (ex.storeRules_any r p)
        fun h => absurd h hplace) hp

/-! ## A move -/

theorem handleSignal_ok {sig : Signal}
    (h : handleSignal r kind sig m = (.ok go, m')) : ¬ FailsPass sig := by
  intro hfails
  cases sig with
  | bpmnError | txCancel => exact hfails
  | fatal | panic | outOfFuel => cases kind <;> cases (Prod.mk.inj h).1

theorem sameRecord_handleSignal (hrec : Records p fun id => g id = false) (kind : ScopeKind)
    (sig : Signal) : Within (SameRecord p g) (handleSignal r kind sig) :=
  sameRecord_of_passes fun _ _ => touches_handleSignal r hrec (fun _ _ _ _ _ _ => trivial) kind sig

variable {mv : Move ω}

theorem result_of_ok (h : ex.runNode (ex.inner mv) mv.node mv.before = (.ok (), m₁)) :
    ex.result kind mv = (.ok true, m₁) := by
  have hattempt : attempt (ex.runNode (ex.inner mv) mv.node) mv.before
      = (.ok (.ok ()), m₁) := by rw [attempt_run, h]
  exact bind_run_ok hattempt

theorem result_of_error {sig : Signal}
    (h : ex.runNode (ex.inner mv) mv.node mv.before = (.error sig, m₁)) :
    ex.result kind mv = handleSignal (ex.inner mv) kind sig m₁ := by
  have hattempt : attempt (ex.runNode (ex.inner mv) mv.node) mv.before
      = (.ok (.error sig), m₁) := by rw [attempt_run, h]
  exact bind_run_ok hattempt

theorem record_handled {node : Node}
    (hrec : Records p fun id => g id = false) (hp : mv.before.st.process = p)
    (hg : mv.before.st.ghost = false) (hnode : p.node mv.node = .ok node)
    (hop : node.isCoverageOp = false) (hreply : p.hasContinueReply mv.node = false)
    (hcancel : ex.moveCancels mv = false) (h : ex.result .top mv = (.ok go, m')) :
    record g m' = record g mv.before ++ (ex.completion mv).filter g := by
  have hentered : (entered mv node).st = mv.before.st :=
    ((Calm.report _).silent mv.before).1
  have honce := ex.recordsOnce_runNodeKind (ex.inner mv) hrec hnode hop hreply
    (m := entered mv node) (by rw [hentered]; exact hp)
  have hsame : record g (entered mv node) = record g mv.before := by rw [record, hentered, record]
  -- the node runs on the machine on which its entry was reported
  have hpass : ex.runNode (ex.inner mv) mv.node mv.before
      = (ex.runNodeKind (ex.inner mv) mv.node node >>= fun held =>
          if held then pure () else do
            notifyLeft mv.node node.nodeType
            modifyState (·.visit mv.node)) (entered mv node) := by
    obtain ⟨w, hw⟩ := notifyEntered_run mv.node node.nodeType mv.before
    rw [ex.runNode_live _ hg (hp ▸ hnode), passNode, bind_run_ok hw, entered, hw]
  have hcompletion : ex.completion mv
      = match (ex.runNodeKind (ex.inner mv) mv.node node (entered mv node)).1 with
        | .ok false => if node.completesInPlace then [mv.node] else []
        | _ => [] := by
    rw [completion, hp, hnode]
    simp only [hcancel, Bool.not_false, Bool.and_true]
  rw [hcompletion]
  rcases hk : ex.runNodeKind (ex.inner mv) mv.node node (entered mv node) with ⟨sig | held, m₁⟩
  · -- the node raised: what the scope does about it records nothing of the selected
    rw [hk] at honce
    rw [bind_run_error hk] at hpass
    rw [ex.result_of_error hpass] at h
    have hsig := (honce.resolve_left (handleSignal_ok _ h)).trans hsame
    have hprocess : m₁.st.process = p := by
      have heff := ex.effects_runNode (ex.inner mv) mv.node (m := mv.before)
        (records_true _) trivial
      rw [hpass] at heff
      exact heff.process_eq.trans hp
    have hsignal := sameRecord_handleSignal (ex.inner mv) hrec .top sig m₁ hprocess
    rw [h] at hsignal
    rw [hsignal.2, hsig]
    exact (append_nil _).symm
  · rw [hk] at honce
    rw [bind_run_ok hk] at hpass
    cases held with
    | true =>
      rw [ex.result_of_ok hpass] at h
      cases h
      exact (honce.trans hsame).trans (append_nil _).symm
    | false =>
      obtain ⟨w, hw⟩ := notifyLeft_run mv.node node.nodeType m₁
      have hpass := hpass.trans (bind_run_ok hw)
      rw [ex.result_of_ok hpass] at h
      cases h
      rw [← hsame]
      exact honce

/-! ## A pass -/

/-- What a process has to meet for its record to be the list of completions, as far as activities
with a handler go: none of them is a coverage operation or waits after it replied, and no error
boundary has a handler. -/
structure RecordedOnce (p : ProcessDefinition) : Prop where
  records : Records p fun id => handled p id = false
  reply : ∀ a, handled p a = true → p.hasContinueReply a = false

/-- **One move records the activity it completes.** -/
theorem record_step (honce : RecordedOnce p)
    (hp : mv.before.st.process = p) (hg : mv.before.st.ghost = false)
    (hcancel : handled p mv.node → ex.moveCancels mv = false)
    (h : ex.result .top mv = (.ok go, m')) : record (handled p) m' = record (handled p) mv.before
      ++ (ex.completion mv).filter (handled p) := by
  cases hh : handled p mv.node with
  | false =>
    have hrec : Records mv.before.st.process fun id => handled p id = false :=
      hp.symm ▸ honce.records
    have heff := ex.effects_tokenStep (ex.inner mv) .top mv.node hrec hh
    rw [show ex.tokenStep _ .top mv.node mv.before = _ from h] at heff
    have hnone : (ex.completion mv).filter (handled p) = [] :=
      filter_eq_nil_iff.mpr fun a ha => by simp [ex.completion_subset mv a ha, hh]
    rw [hnone, append_nil]
    exact completed_of_effects heff
  | true =>
    cases hnode : p.node mv.node with
    | error e =>
      have hrun : ex.runNode (ex.inner mv) mv.node mv.before
          = (.error (.fatal (.diagnostic e)), mv.before) := by
        have hdef : ex.runNode (ex.inner mv) mv.node mv.before
            = (liftLookup (mv.before.st.process.node mv.node) >>= fun node =>
                if mv.before.st.ghost then do
                  if ← ghostStep mv.node node then pure ()
                  else ex.passNode (ex.inner mv) mv.node node
                else ex.passNode (ex.inner mv) mv.node node) mv.before := rfl
        rw [hdef, hp, hnode]
        rfl
      rw [ex.result_of_error hrun] at h
      exact absurd trivial (handleSignal_ok _ h)
    | ok node =>
      obtain ⟨hmem, hid⟩ := ProcessDefinition.of_node hnode
      have hop : node.isCoverageOp = false := by
        by_contra hc
        have hnot := honce.records.coverage node hmem (by simpa using hc)
        rw [hid, hh] at hnot
        cases hnot
      exact ex.record_handled honce.records hp hg hnode hop (honce.reply _ hh) (hcancel hh) h

/-- **The record before a move lists what the moves before it completed.** -/
theorem record_moves (honce : RecordedOnce p) {fuel : Nat}
    {pre post : List (Move ω)} (hp : m.st.process = p) (hg : m.st.ghost = false)
    (hmoves : ex.moves fuel .top m = pre ++ mv :: post)
    (hcancel : ∀ y ∈ pre, handled p y.node → ex.moveCancels y = false) :
    record (handled p) mv.before
      = record (handled p) m ++ (pre.flatMap ex.completion).filter (handled p) := by
  induction fuel generalizing m pre with
  | zero =>
    rw [moves] at hmoves
    cases pre <;> cases hmoves
  | succ fuel ih =>
    rcases hw : m.st.work with _ | ⟨n, rest⟩
    · simp only [moves, hw] at hmoves
      cases pre <;> cases hmoves
    · simp only [moves, hw] at hmoves
      cases pre with
      | nil =>
        obtain ⟨rfl, -⟩ := List.cons.inj hmoves
        exact (append_nil _).symm
      | cons y pre =>
        obtain ⟨rfl, htail⟩ := List.cons.inj hmoves
        rcases hr : ex.result .top ⟨fuel, n, m.withWork rest⟩ with ⟨sig | _ | _, m₁⟩
        · rw [hr] at htail
          cases pre <;> cases htail
        · rw [hr] at htail
          cases pre <;> cases htail
        · rw [hr] at htail
          have hstep : ex.Steps .top m ⟨fuel, n, m.withWork rest⟩ m₁ := ⟨rest, hw, rfl, by rw [hr]⟩
          have hrest := ih (hstep.process_eq.trans hp) (hstep.ghost_eq.trans hg) htail
            fun y hy => hcancel y (.tail _ hy)
          have hfirst : record (handled p) m₁ = record (handled p) (m.withWork rest)
              ++ (ex.completion ⟨fuel, n, m.withWork rest⟩).filter (handled p) :=
            ex.record_step honce hp hg (hcancel _ (.head _)) hr
          rw [hrest, hfirst, flatMap_cons, filter_append, append_assoc]
          rfl

/-! ## A life -/

def compensate (p : ProcessDefinition) (activityId : String) : Exec ω Unit :=
  match compensationHandler p activityId with
  | none => pure ()
  | some handler => ex.compensateActivity activityId handler

theorem fireCompensation_run (hp : m.st.process = p) :
    ex.fireCompensation none m = forEach (record (handled p) m).reverse (ex.compensate p) m := by
  have hrun : ex.fireCompensation none m
      = forEach m.st.completedActivities.reverse (fun a =>
          if a ≠ a then pure () else ex.compensate m.st.process a) m := rfl
  have hall : (fun a => if a ≠ a then pure () else ex.compensate m.st.process a)
      = ex.compensate p := by
    funext a
    rw [if_neg (not_not.mpr rfl), hp]
  rw [hrun, hall, record, filter_reverse.symm]
  refine congrFun (forEach_filter fun a _ ha => ?_) m
  have hnone : compensationHandler p a = none := by simpa [handled] using ha
  rw [compensate, hnone]

/-- **Compensation covers the whole instance**, in every life in which no activity with a handler
was completed in an earlier pass or by the resume itself, none of this pass was a cancelled
transaction, and none is recorded otherwise than once: a compensate throw event runs the handlers of
all completed activities, once per completion, the last one completed first. -/
theorem compensation_covers_history {deployment : DeploymentId} {labels : Labels}
    {startNodeId : Option String} {past : List (Pass ω)} {x : Pass ω}
    (hx : Underway ex p deployment labels startNodeId past x) {pre post : List (Move ω)}
    {mv : Move ω} (hmoves : ex.moves x.fuel .top (x.live p) = pre ++ mv :: post)
    {id : String} {reference : Option String}
    (hnode : p.node mv.node = .ok (.intermediateThrowEvent id .compensate none reference))
    (honce : RecordedOnce p)
    (hcancel : ∀ y ∈ pre, handled p y.node = true → ex.moveCancels y = false)
    (hpast : ∀ a ∈ past.flatMap (·.completions ex p) ++ x.satisfied, handled p a = false) :
    ex.runNode ⟨mv.fuel, ex.drain mv.fuel⟩ mv.node mv.before
      = (do
          notifyEntered mv.node "intermediateThrowEvent"
          forEach ((past.flatMap (·.completions ex p) ++ x.satisfied
            ++ pre.flatMap ex.completion).filter (handled p)).reverse (ex.compensate p)
          modifyState (·.enqueueOutgoing mv.node)
          notifyLeft mv.node "intermediateThrowEvent"
          modifyState (·.visit mv.node) : Exec ω Unit) mv.before := by
  obtain ⟨hp, hg, hempty⟩ : x.opened.st.process = p ∧ x.opened.st.ghost = false ∧
      x.opened.st.completedActivities = [] := by
    rcases hx with ⟨-, hopens⟩ | ⟨m₀, -, hopens⟩ <;> exact hopens.opened
  have hframe : RoutingFrame x.opened.st (x.live p).st := by
    obtain ⟨m', hrun, hframe⟩ := enter_run p x.entry x.opened
    rw [Pass.live, hrun]
    exact hframe
  have hlive : record (handled p) (x.live p) = [] := by
    obtain ⟨_, _, _, _, _, _, _, _, _, _, hst⟩ := hframe
    rw [record, hst]
    rw [hempty]
    rfl
  have hrecord := ex.record_moves honce (hframe.process.trans hp) (hframe.ghost.trans hg) hmoves
    hcancel
  -- what was completed before this pass's moves has no handler
  have hnone : (past.flatMap (·.completions ex p) ++ x.satisfied).filter (handled p) = [] :=
    filter_eq_nil_iff.mpr fun a ha => by simp [hpast a ha]
  have hmem : mv ∈ ex.moves x.fuel .top (x.live p) := by
    rw [hmoves]
    exact mem_append_right _ (.head _)
  have hprocess : mv.before.st.process = p := by
    obtain ⟨a, b, ha, rest, -, hbefore, -⟩ := (ex.run_drain x.fuel .top (x.live p)).invariant_at
      (I := fun m => m.st.process = p) (fun _ _ _ _ hstep ha => hstep.process_eq.trans ha)
      (hframe.process.trans hp) hmem
    rw [hbefore]
    exact ha
  obtain ⟨w, hw⟩ := notifyEntered_run mv.node "intermediateThrowEvent" mv.before
  rw [filter_append, hnone, nil_append, bind_run_ok hw]
  rw [hlive, nil_append] at hrecord
  have hpass : ex.runNode (ex.inner mv) mv.node mv.before
      = (((ex.fireCompensation none >>= fun _ => modifyState (·.enqueueOutgoing mv.node)) >>=
          fun _ => pure false) >>= fun held => if held then pure () else do
            notifyLeft mv.node "intermediateThrowEvent"
            modifyState (·.visit mv.node) : Exec ω Unit) { mv.before with world := w } := by
    rw [ex.runNode_live _ (ex.moves_live (hframe.ghost.trans hg) hmem) (hprocess ▸ hnode)]
    exact bind_run_ok hw
  have hcomp := ex.fireCompensation_run (m := { mv.before with world := w }) hprocess
  rw [show record (handled p) { mv.before with world := w } = _ from hrecord] at hcomp
  rw [hpass, bind_run, bind_run, bind_run, hcomp, bind_run]
  rcases forEach ((pre.flatMap ex.completion).filter (handled p)).reverse (ex.compensate p)
    { mv.before with world := w } with ⟨sig | u, m₁⟩ <;> rfl

end TokenExecutor

/-! ## A charge -/

/-- The world behind the callbacks is the list of the tasks that were called. -/
def loggingExecutor : TokenExecutor (List String) :=
  .builder (fun name => some fun _ _ log => (.ok .null, log ++ [name])) "i" "now"

def chargeback (hold : Bool) : ProcessDefinition where
  id := "chargeback"
  nodes := [.startEvent "start", .serviceTask "charge" "charge" {} [], .userTask "hold",
    .boundaryEvent "onUndo" "charge" .compensation none none true none,
    .serviceTask "refund" "refund" {} [], .intermediateThrowEvent "undo" .compensate none none,
    .endEvent "end"]
  flows := [⟨"f0", "start", "charge", none⟩,
    ⟨"f1", "charge", if hold then "hold" else "undo", none⟩,
    ⟨"f2", "hold", "undo", none⟩, ⟨"f3", "undo", "end", none⟩, ⟨"f4", "onUndo", "refund", none⟩]
  bindings := .empty
  coveragePaths := []

/-- Nothing has been called yet. -/
def quietMachine (hold : Bool) : Machine (List String) :=
  ⟨.fresh [], .new (chargeback hold) .unresolved .empty ""⟩

def chargePass (hold : Bool) : Pass (List String) :=
  ⟨20, none, "start",
    loggingExecutor.newInstance (chargeback hold) .empty .unresolved .empty (quietMachine hold)⟩

theorem chargePass_opens (hold : Bool) : Opens loggingExecutor (chargeback hold) .unresolved .empty
    none none (chargePass hold) := by cases hold <;> exact .first 20 .empty (quietMachine _) rfl

theorem chargeback_recordedOnce : TokenExecutor.RecordedOnce (chargeback false) := by
  refine ⟨⟨by decide, fun n hn body hbody => ?_, fun id host code esc i t h => ?_⟩, fun _ _ => rfl⟩
  · have hloop : ∀ n ∈ (chargeback false).nodes, n.loopBody.isNone := by decide
    rw [Option.isNone_iff_eq_none.mp (hloop n hn)] at hbody
    cases hbody
  · simp [chargeback] at h

theorem charge_refunded : ∃ pre mv post,
    loggingExecutor.moves 20 .top ((chargePass false).live (chargeback false)) = pre ++ mv :: post ∧
    loggingExecutor.runNode ⟨mv.fuel, loggingExecutor.drain mv.fuel⟩ mv.node mv.before
      = (do
          TokenExecutor.notifyEntered mv.node "intermediateThrowEvent"
          forEach ["charge"] (loggingExecutor.compensate (chargeback false))
          Exec.modifyState (·.enqueueOutgoing mv.node)
          TokenExecutor.notifyLeft mv.node "intermediateThrowEvent"
          Exec.modifyState (·.visit mv.node)) mv.before ∧
    ((chargePass false).closed loggingExecutor (chargeback false)).world.env
      = ["charge", "refund"] := by
  have hmoves : loggingExecutor.moves 20 .top ((chargePass false).live (chargeback false))
      = [_, _] ++ _ :: [_] := rfl
  refine ⟨_, _, _, hmoves, ?_, rfl⟩
  exact loggingExecutor.compensation_covers_history (.inl ⟨rfl, chargePass_opens false⟩) hmoves rfl
    chargeback_recordedOnce (by decide) (by decide)

def onHold : Machine (List String) := (chargePass true).closed loggingExecutor (chargeback true)

def holdPass : Pass (List String) :=
  let q := (onHold.st.suspendedAs onHold.world.ctx.vars none).request (chargeback true)
    .unresolved .empty "hold" .empty
  let walked := (loggingExecutor.ghostWalk 20 ⟨q.openWorld onHold.world, q.ghostState "start"⟩).2
  ⟨20, some q, "start", ⟨walked.world, q.carried walked.st⟩⟩

/-- **After a hold the charge is forgotten**: it is a completed activity with a handler, the throw
event executes, and nothing is refunded. -/
theorem refund_forgotten :
    Underway loggingExecutor (chargeback true) .unresolved .empty none [chargePass true] holdPass ∧
    (∃ pre mv post, loggingExecutor.moves 20 .top (holdPass.live (chargeback true))
        = pre ++ mv :: post ∧
      (chargeback true).node mv.node = .ok (.intermediateThrowEvent "undo" .compensate none none)) ∧
    ([chargePass true].flatMap (·.completions loggingExecutor (chargeback true))).filter
      (handled (chargeback true)) = ["charge"] ∧
    (holdPass.closed loggingExecutor (chargeback true)).world.env = ["charge"] := by
  refine ⟨.inr ⟨onHold, .first (chargePass_opens true) rfl, .next 20 (.relay "hold" .empty) onHold
    (by decide) rfl rfl rfl⟩, ⟨[], _, [_], rfl, rfl⟩, rfl, rfl⟩

end Sutra
