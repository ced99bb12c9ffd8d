import Sutra.Dispatch.Waits
import Sutra.Executor.Life
import Sutra.Store.Commit

/-!
# The durable steps of an instance

A pass that suspends is committed as one step: the snapshot, the resolved and the new wait rows, the
timers, and the correlation keys that are recorded and retired (`parkWrite`, `reparkWrite`).

* `Turnover`: what a step may rely on about the frontier.
* `wake_turnover`, `start_turnover`: of a resume whose wait is still pending, and of a first pass.
* `keys_of_turnover`: the law of the correlation keys.
-/

namespace Sutra.Dispatch

open Store Prog TokenExecutor

variable {ω : Type}

/-! ## Snapshots -/

/-- What a snapshot keeps of an instance besides its wait frontier. -/
structure Body where
  completedNodes : List String
  vars : Variables
  startNode : String
  coverage : SortedMap String Nat
  retryAttempts : SortedMap String Nat
  retryBackoff : SortedMap String String

/-- The dispatcher of one deployment. `persisted` is what a snapshot keeps of the variables, and
`instantOf` the instant that the text of a due date stands for. -/
structure Dispatcher (ω : Type) where
  executor : TokenExecutor ω
  expressions : Expressions
  persisted : Variables → Variables
  instantOf : String → Instant
  deployment : DeploymentId
  owner : String

def load (instanceId : String) (st : Stored Body) : Suspended where
  instanceId := instanceId
  waitingNodes := st.waitingNodes
  completedNodes := st.body.completedNodes
  vars := st.body.vars
  startNode := if Text.isBlank st.body.startNode then none else some st.body.startNode
  timerWaits := []
  detachedReply := false
  coverageProgress := st.body.coverage
  retryAttempts := st.body.retryAttempts
  retryBackoff := st.body.retryBackoff
  freshWaits := []

namespace Dispatcher

variable (d : Dispatcher ω)

def snapshotOf (s : Suspended) : Stored Body :=
  ⟨.suspended, s.waitingNodes, s.completedNodes, d.persisted s.vars, s.startNode.getD "",
    s.coverageProgress, s.retryAttempts, s.retryBackoff⟩

def timerRecords (timers : List TimerWait) : List (String × Instant) :=
  timers.map fun t => (t.nodeId, d.instantOf t.dueAt)

def parkWrite (s : Suspended) (timers : List TimerWait) (records : List AliasRecord) :
    StepWrite Body :=
  ⟨d.snapshotOf s, rfl, [], records.map (·.key), d.timerRecords timers, []⟩

def reparkWrite (p : ProcessDefinition) (prior : Stored Body) (resolved : List String)
    (s : Suspended) (freshWaits : List String) (timers : List TimerWait)
    (records : List AliasRecord) (relayAlias : Option AliasKey) : StepWrite Body :=
  ⟨d.snapshotOf s, rfl, resolved, records.map (·.key), d.timerRecords timers,
    d.expressions.retiredWaitAliases p resolved prior.body.vars prior.waitingNodes
      s.waitingNodes freshWaits records relayAlias⟩

def isList : FeelValue → Bool
  | .list _ => true
  | _ => false

def evaluateAliasRows (startId : String) :
    List AliasBinding → Variables → Except SutraError (List AliasRecord × Variables)
  | [], vars => .ok ([], vars)
  | binding :: rest, vars =>
    match d.expressions.eval binding.expression vars with
    | .error message => .error ⟨"SUTRA.INBOUND.ALIAS_FEEL_EVAL_FAILED",
        s!"<q:alias {binding.name}> expression '{binding.expression}' on node {startId} threw at "
          ++ s!"evaluation: {message}"⟩
    | .ok value =>
      if value.isNull then evaluateAliasRows startId rest vars
      else if binding.multi && !isList value then .error ⟨"SUTRA.INBOUND.ALIAS_MULTI_NOT_LIST",
        s!"<q:alias {binding.name} multi=true> expression '{binding.expression}' on node " ++
          s!"{startId} returned {d.expressions.typeName value}; multi=true requires a " ++
          "list-valued result"⟩
      else (evaluateAliasRows startId rest (vars.insert binding.name value)).map fun out =>
        (d.expressions.pushAliasValues binding value ++ out.1, out.2)

end Dispatcher

/-! ## What a pass does to the frontier -/

/-- What a step relies on about the frontier it turns over. -/
structure Turnover (prior resolved freshWaits waiting : List String) : Prop where
  fresh : ∀ n ∈ freshWaits, n ∈ waiting
  kept : ∀ n ∈ prior, n ∉ resolved → n ∈ waiting
  carried : ∀ n ∈ waiting, n ∉ freshWaits → n ∈ prior

def firedBy (p : ProcessDefinition) : Wakeup → Option FiredTimer
  | .timer nodeId _ => match TokenExecutor.firedTimerOf p nodeId with
    | .ok fired => fired
    | .error _ => none
  | _ => none

section passes

variable {ex : TokenExecutor ω} {fuel : Nat} {p : ProcessDefinition} {deployment : DeploymentId}
  {labels : Labels}

theorem firedTimer_of_request {s : Suspended} {c : Wakeup} {q : ResumeRequest}
    (h : c.request p deployment labels s = .ok q) : q.firedTimer = firedBy p c := by
  cases c with
  | relay | retryRedrive | channelCallFailure =>
    cases h
    rfl
  | timer nodeId dueAt =>
    obtain ⟨fired, hf, rfl⟩ := firedTimerOf_request h
    rw [firedBy, hf]

/-- **A resume turns its frontier over**, if the host of a boundary that does not interrupt is
waiting. -/
theorem wake_turnover {s s' : Suspended} {c : Wakeup} {m m' : Machine ω}
    (hhost : ∀ f, firedBy p c = some f → f.interrupting = false → f.hostId ∈ s.waitingNodes)
    (h : ex.wake fuel p deployment labels s c m = (.ok (.suspended s'), m')) :
    Turnover s.waitingNodes
      (resolvedWaitsFor p (satisfiedNode c)) s'.freshWaits s'.waitingNodes := by
  obtain ⟨q, hq⟩ := wake_request h
  obtain ⟨hp, hprior, hF⟩ := request_spec hq
  rw [wake_run hq] at h
  obtain ⟨m₁, c', m₂, hprep, hdrain, -, rfl⟩ := ex.resumeInner_suspended h
  have hprepared := ex.prepareResume_ok hprep
  have hend := hprepared.carriedOver.run (ex.run_of_drain hdrain)
  rw [← hp] at hhost
  refine ⟨hend.fresh, fun n hn hres => ?_, fun n hn hfresh => ?_⟩
  · refine hend.kept n ((hprepared.waiting n).mpr ⟨hprior ▸ hn, fun hc => hres ?_⟩)
    exact consumed_subset_resolvedWaitsFor hq hc
  · rcases hend.waits n hn with hn | hn | ⟨f, hf, rfl, hint⟩
    · exact hprior ▸ ((hprepared.waiting n).mp hn).1
    · exact absurd hn hfresh
    · exact hhost f (hp ▸ firedTimer_of_request hq ▸ hf) hint

/-- **A first pass parks what it leaves waiting.** -/
theorem start_turnover {initial : Variables} {startNodeId : Option String} {s : Suspended}
    {m m' : Machine ω} (h : ex.executeStatefulFrom fuel p initial deployment labels startNodeId m
      = (.ok (.suspended s), m')) : Turnover [] [] s.freshWaits s.waitingNodes := by
  obtain ⟨start, -, h⟩ := ex.executeStatefulFrom_ok h
  obtain ⟨c, m₂, hdrain, -, rfl⟩ := ex.driveStateful_suspended h
  have hend : Carried [] none m₂.st := .run (ex.run_of_drain hdrain)
    ⟨fun _ hn => (nomatch hn), fun _ hn => (nomatch hn), fun _ hn => (nomatch hn), .inl rfl⟩
  refine ⟨hend.fresh, fun _ hn => (nomatch hn), fun n hn hfresh => ?_⟩
  rcases hend.waits n hn with hn | hn | ⟨f, hf, -⟩
  · exact hn
  · exact absurd hn hfresh
  · cases hf

end passes

/-! ## The law of the keys -/

structure Settled (x : Expressions) (p : ProcessDefinition) (vars : Variables)
    (waiting : List String) (parked : String → List AliasKey) : Prop where
  steady : ∀ n ∈ waiting, (x.keysOf p vars n).map (·.key) = parked n
  names : ∀ n ∈ waiting, ∀ b ∈ (p.bindingsFor n).aliases, b.name ∉ Expressions.startNames p

def parkedAfter (fresh : List String) (park parked : String → List AliasKey) (n : String) :
    List AliasKey :=
  if n ∈ fresh then park n else parked n

section keys

variable {x : Expressions} {p : ProcessDefinition} {vars : Variables}
  {prior left resolved fresh waiting : List String} {parked park : String → List AliasKey}
  {start : List AliasKey} {records : List AliasRecord} {relayAlias : Option AliasKey}
  {Live : AliasKey → Prop}

/-- **A step leaves the keys of the start event and of the waits that are pending then.** -/
theorem keys_of_turnover (hstart : ∀ k ∈ start, k.1 ∈ Expressions.startNames p)
    (hlive : ∀ k, Live k ↔ k ∈ start ∨ ∃ n ∈ prior, k ∈ parked n)
    (hset : Settled x p vars prior parked) (hturn : Turnover prior left fresh waiting)
    (hres : ∀ n, n ∈ resolved ↔ n ∈ left ∨ n ∈ fresh)
    (hrec : ∀ k, k ∈ records.map (·.key) → k ∈ start ∨ ∃ n ∈ fresh, k ∈ park n)
    (hpark : ∀ n ∈ fresh, ∀ k ∈ park n, k ∈ records.map (·.key)) (k : AliasKey) :
    (k ∈ records.map (·.key) ∨ (Live k ∧ k ∉ x.retiredWaitAliases p resolved vars prior waiting
      fresh records relayAlias)) ↔
    k ∈ start ∨ ∃ n ∈ waiting, k ∈ parkedAfter fresh park parked n := by
  have hkeys : ∀ {n}, n ∈ prior → (k ∈ (x.keysOf p vars n).map (·.key) ↔ k ∈ parked n) :=
    fun hn => by rw [hset.steady _ hn]
  by_cases hk : k ∈ records.map (·.key)
  · refine iff_of_true (.inl hk) ((hrec k hk).imp_right ?_)
    rintro ⟨n, hn, hkn⟩
    exact ⟨n, hturn.fresh n hn, by rwa [parkedAfter, if_pos hn]⟩
  · have hfresh : ∀ n ∈ fresh, k ∉ park n := fun n hn hkn => hk (hpark n hn k hkn)
    rw [hlive, Expressions.mem_retiredWaitAliases]
    constructor
    · rintro (hk' | ⟨hk' | ⟨n, hn, hkn⟩, hret⟩)
      · exact absurd hk' hk
      · exact .inl hk'
      · -- the wait that has the key stays, or another one does that has it as well
        by_cases hstay : n ∈ waiting ∧ n ∉ fresh
        · exact .inr ⟨n, hstay.1, by rwa [parkedAfter, if_neg hstay.2]⟩
        · have hleft : n ∈ resolved := (hres n).mpr <| by
            by_contra hn'
            rw [not_or] at hn'
            exact hstay ⟨hturn.kept n hn hn'.1, hn'.2⟩
          have hname : k.1 ∉ Expressions.startNames p := by
            obtain ⟨b, hb, hbk⟩ := List.mem_map.mp
              (Expressions.name_mem_of_mem_keysOf ((hkeys hn).mpr hkn))
            exact hbk ▸ hset.names n hn b hb
          by_contra hnone
          refine hret ⟨.inl ⟨n, hleft, hn, (hkeys hn).mpr hkn⟩, hname, hk, fun m hm hmf hkm => ?_⟩
          refine hnone (.inr ⟨m, hm, ?_⟩)
          rw [parkedAfter, if_neg hmf]
          exact (hkeys (hturn.carried m hm hmf)).mp hkm
    · rintro (hk' | ⟨n, hn, hkn⟩)
      · exact .inr ⟨.inl hk', fun hret => hret.2.1 (hstart k hk')⟩
      · have hnf : n ∉ fresh := fun hnf => hfresh n hnf (by rwa [parkedAfter, if_pos hnf] at hkn)
        rw [parkedAfter, if_neg hnf] at hkn
        have hprior := hturn.carried n hn hnf
        exact .inr ⟨.inr ⟨n, hprior, hkn⟩, fun hret => hret.2.2.2 n hn hnf ((hkeys hprior).mpr hkn)⟩

end keys

end Sutra.Dispatch
