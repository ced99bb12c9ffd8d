import Sutra.Chain.Run

/-!
# The correlation keys of an instance

A relay finds its instance by a live alias row. The rows of a suspended instance should be the
aliases of its start event and the keys under which its pending waits were parked. The steps are
the ones that commit, and every resume is a run of the executor on the loaded snapshot.

* `World.parked` remembers the keys of a wait; nothing in the engine does.
* `live_keys_are_pending_keys`: when the live rows are these.
-/

namespace Sutra.Chain

open Store Dispatch List Tables

variable {ω : Type}

/-! ## The steps -/

structure World where
  tables : Tables Body
  startAliases : List AliasKey
  /-- The keys that the present wait of a node was parked under. A history variable. -/
  parked : String → List AliasKey

namespace World

/-- No rows. -/
def initial : World := ⟨.empty, [], fun _ => []⟩

variable (w : World)

/-- The frontier of the stored snapshot, until the instance is over. A failed snapshot counts too:
it keeps the frontier that a resume takes up. -/
def pendingWaits : List String :=
  match w.tables.stored with
  | some st => if st.status.finished then [] else st.waitingNodes
  | none => []

end World

/-- The kinds of steps. -/
inductive Event where
  | park
  | resume
  | chain
  | complete
  | fail

inductive Step (d : Caller ω) (p : ProcessDefinition) (instanceId : String) :
    World → Event → World → Prop
  | park {fuel : Nat} {labels : Labels} {startId : String} {given vars : Variables}
      {rows waits : List AliasRecord} {s : Suspended} {m m' : Machine ω}
      (hstart : p.node startId = .ok (.startEvent startId))
      (hrows : d.evaluateAliasRows startId (p.bindingsFor startId).aliases given = .ok (rows, vars))
      (hpass : d.executor.executeStatefulFrom fuel p vars d.deployment labels (some startId) m
        = (.ok (.suspended s), m'))
      (hkeys : d.expressions.waitAliasRows p s.vars s.freshWaits = .ok waits) :
      Step d p instanceId .initial .park
        ⟨Tables.empty.writeStepWithTimers (d.parkWrite s s.timerWaits (rows ++ waits)),
          rows.map (·.key), parkedAfter s.freshWaits (d.expressions.parkKeys p s.vars) fun _ => []⟩
  | resume {w : World} {st : Stored Body} {c : Wakeup} {e : Env ω} {relayAlias : Option AliasKey}
      {s : Suspended} {m' : Machine ω} {rows : List AliasRecord}
      (hstored : w.tables.stored = some st) (hstatus : st.status = .suspended)
      (hadmits : admits p st.waitingNodes st.body.retryBackoff c = true)
      (hpass : d.executor.wake e.fuel p d.deployment e.labels (load instanceId st) c e.opened
        = (.ok (.suspended s), m'))
      (hkeys : d.expressions.waitAliasRows p s.vars s.freshWaits = .ok rows) :
      Step d p instanceId w .resume
        ⟨w.tables.commitStep
          (d.reparkWrite p st (resolvedWithFresh p (satisfiedNode c) s.freshWaits)
            s s.freshWaits s.timerWaits rows relayAlias) d.owner,
          w.startAliases, parkedAfter s.freshWaits (d.expressions.parkKeys p s.vars) w.parked⟩
  | chainPark {fuel : Nat} {labels : Labels} {startId : String} {given vars : Variables}
      {rows : List AliasRecord} {s : Suspended} {m m' : Machine ω} {is : List (Input ω)}
      {c : InlineChain} {t : Tables Body}
      (hstart : p.node startId = .ok (.startEvent startId))
      (hrows : d.evaluateAliasRows startId (p.bindingsFor startId).aliases given = .ok (rows, vars))
      (hpass : d.executor.executeStatefulFrom fuel p vars d.deployment labels (some startId) m
        = (.ok (.suspended s), m'))
      (hends : Ends d p (fun _ _ => True) (d.launch p s rows m'.world.emissions) is (.park c))
      (hcommit : d.commitChain p c .empty = .ok t) :
      Step d p instanceId .initial .chain ⟨t, rows.map (·.key),
        parkedAfter c.freshWaits (d.expressions.parkKeys p c.state.vars) fun _ => []⟩
  /-- The synchronous chain of a resume parks. -/
  | chainRepark {w : World} {st : Stored Body} {cause : Wakeup} {e : Env ω}
      {relayAlias : Option AliasKey} {s : Suspended} {m' : Machine ω} {is : List (Input ω)}
      {c : InlineChain} {t : Tables Body}
      (hstored : w.tables.stored = some st) (hstatus : st.status = .suspended)
      (hadmits : admits p st.waitingNodes st.body.retryBackoff cause = true)
      (hpass : d.executor.wake e.fuel p d.deployment e.labels (load instanceId st) cause e.opened
        = (.ok (.suspended s), m'))
      (hends : Ends d p (fun _ _ => True)
        (d.launchStored p st w.parked (satisfiedNode cause) relayAlias s m'.world.emissions) is
        (.park c))
      (hcommit : d.commitChain p c w.tables = .ok t) :
      Step d p instanceId w .chain ⟨t, w.startAliases,
        parkedAfter c.freshWaits (d.expressions.parkKeys p c.state.vars) w.parked⟩
  | complete {w : World} (r : Retention) :
      Step d p instanceId w .complete ⟨w.tables.commitComplete r.retain r.now, [], fun _ => []⟩
  | fail {w : World} {st : Stored Body} (hstored : w.tables.stored = some st)
      (hstatus : st.status = .suspended) :
      Step d p instanceId w .fail { w with tables := w.tables.commitFailed }

/-- The waits are settled: each evaluates, on the stored variables, to the keys it was parked under,
and none of its aliases has the name of a start event's. -/
def SettledBefore (d : Caller ω) (p : ProcessDefinition) (w : World) : Prop :=
  ∀ st, w.tables.stored = some st → Settled d.expressions p st.body.vars st.waitingNodes w.parked

def SettledStep (d : Caller ω) (p : ProcessDefinition) (instanceId : String) (w : World) (x : Event)
    (w' : World) : Prop :=
  Step d p instanceId w x w' ∧ SettledBefore d p w

/-! ## The rows of the start event -/

variable {d : Dispatcher ω} {rows : List AliasRecord} {startId : String} {vars : Variables}

theorem name_of_evaluateAliasRows {bindings : List AliasBinding} {vars' : Variables}
    (h : d.evaluateAliasRows startId bindings vars = .ok (rows, vars')) :
    ∀ r ∈ rows, r.name ∈ bindings.map (·.name) := by
  induction bindings generalizing vars rows with
  | nil =>
    cases h
    exact nofun
  | cons b rest ih =>
    rw [Dispatcher.evaluateAliasRows] at h
    split at h
    · cases h
    · split at h
      · exact fun r hr => .tail _ (ih h r hr)
      · split at h
        · cases h
        · rename_i value _ _ _
          cases hrest : d.evaluateAliasRows startId rest (vars.insert b.name value) with
          | error e =>
            rw [hrest] at h
            cases h
          | ok out =>
            obtain ⟨rows', vars''⟩ := out
            rw [hrest] at h
            cases h
            intro r hr
            rcases mem_append.mp hr with hr | hr
            · exact mem_cons.mpr (Or.inl (Expressions.name_of_mem_pushAliasValues hr))
            · exact .tail _ (ih hrest r hr)

theorem name_mem_startNames {p : ProcessDefinition} {given : Variables}
    (hstart : p.node startId = .ok (.startEvent startId))
    (h : d.evaluateAliasRows startId (p.bindingsFor startId).aliases given = .ok (rows, vars)) :
    ∀ k ∈ rows.map (·.key), k.1 ∈ Expressions.startNames p := by
  intro k hk
  obtain ⟨r, hr, rfl⟩ := mem_map.mp hk
  have hnode := (ProcessDefinition.of_node hstart).1
  exact mem_flatMap.mpr ⟨_, mem_filter.mpr ⟨hnode, rfl⟩, name_of_evaluateAliasRows h r hr⟩

/-! ## The invariant -/

structure Keyed (p : ProcessDefinition) (w : World) : Prop where
  start : ∀ k ∈ w.startAliases, k.1 ∈ Expressions.startNames p
  keys : ∀ k, w.tables.LiveAlias k ↔ k ∈ w.startAliases ∨ ∃ n ∈ w.pendingWaits, k ∈ w.parked n

namespace Keyed

variable {d : Caller ω} {p : ProcessDefinition} {instanceId : String} {w w' : World}

theorem initial : Keyed p .initial where
  start _ hk := nomatch hk
  keys _ := iff_of_false nofun fun h => h.elim nofun fun ⟨_, hn, _⟩ => nomatch hn

variable {st : Stored Body}

theorem pendingWaits_eq (h : w.tables.stored = some st)
    (hstatus : st.status = .suspended) : w.pendingWaits = st.waitingNodes := by
  rw [World.pendingWaits, h]
  exact if_neg (by rw [hstatus]; exact nofun)

variable {fresh : List String} {rows : List AliasRecord} {timers : List TimerWait}
  {relayAlias : Option AliasKey} {t : Tables Body}

theorem park {s : Suspended}
    {waits : List AliasRecord} (hrows : ∀ k ∈ rows.map (·.key), k.1 ∈ Expressions.startNames p)
    (hturn : Turnover [] [] fresh s.waitingNodes)
    (hkeys : d.expressions.waitAliasRows p s.vars fresh = .ok waits) :
    Keyed p ⟨Tables.empty.writeStepWithTimers (d.parkWrite s timers (rows ++ waits)),
      rows.map (·.key), parkedAfter fresh (d.expressions.parkKeys p s.vars) fun _ => []⟩ where
  start := hrows
  keys k := by
    rw [pendingWaits_eq (stored_writeStepWithTimers _ _) rfl, Tables.LiveAlias,
      aliasIndex_writeStepWithTimers]
    have hrecorded : k ∈ (rows ++ waits).map (·.key) ↔
        k ∈ rows.map (·.key) ∨ ∃ n ∈ fresh, k ∈ d.expressions.parkKeys p s.vars n := by
      rw [map_append, mem_append, Expressions.mem_waitAliasRows hkeys]
    have hwaits : (∃ n ∈ s.waitingNodes,
        k ∈ parkedAfter fresh (d.expressions.parkKeys p s.vars) (fun _ => []) n) ↔
        ∃ n ∈ fresh, k ∈ d.expressions.parkKeys p s.vars n := by
      constructor
      · rintro ⟨n, hn, hk⟩
        have hnf : n ∈ fresh := by
          by_contra hnf
          cases hturn.carried n hn hnf
        exact ⟨n, hnf, by rwa [parkedAfter, if_pos hnf] at hk⟩
      · rintro ⟨n, hn, hk⟩
        exact ⟨n, hturn.fresh n hn, by rwa [parkedAfter, if_pos hn]⟩
    change (if k ∈ (rows ++ waits).map (·.key) then some true else none) = some true ↔
      k ∈ rows.map (·.key) ∨ ∃ n ∈ s.waitingNodes,
        k ∈ parkedAfter fresh (d.expressions.parkKeys p s.vars) (fun _ => []) n
    rw [hwaits, ← hrecorded]
    by_cases hk : k ∈ (rows ++ waits).map (·.key)
    · rw [if_pos hk]
      exact iff_of_true rfl hk
    · rw [if_neg hk]
      exact iff_of_false (fun h => by cases h) hk

theorem complete (r : Retention) :
    Keyed p ⟨w.tables.commitComplete r.retain r.now, [], fun _ => []⟩ where
  start _ hk := nomatch hk
  keys k := iff_of_false ((w.tables.quiet_commitComplete r.retain r.now).2 k)
    fun h => h.elim nofun fun ⟨_, _, hk⟩ => nomatch hk

theorem host_of_admits {waiting : List String} {backoff : SortedMap String String} {c : Wakeup}
    (h : admits p waiting backoff c) {f : FiredTimer} (hf : firedBy p c = some f) :
    f.hostId ∈ waiting := by
  cases c with
  | relay | retryRedrive | channelCallFailure => cases hf
  | timer nodeId dueAt =>
    rw [admits, Bool.and_eq_true, contains_iff_mem] at h
    cases hfired : TokenExecutor.firedTimerOf p nodeId with
    | error e =>
      rw [firedBy, hfired] at hf
      cases hf
    | ok fired =>
      rw [firedBy, hfired] at hf
      cases hf
      exact hostId_of_firedTimerOf hfired ▸ h.1

section Suspended

variable (hstored : w.tables.stored = some st) (hstatus : st.status = .suspended)
include hstored hstatus

/-- **A step from settled waits keeps the keys in order.** -/
theorem repark (h : Keyed p w) (hset : SettledBefore d p w) {s : Suspended}
    {left resolved : List String} (hturn : Turnover st.waitingNodes left fresh s.waitingNodes)
    (hres : ∀ n, n ∈ resolved ↔ n ∈ left ∨ n ∈ fresh)
    (hkeys : d.expressions.waitAliasRows p s.vars fresh = .ok rows) :
    Keyed p ⟨w.tables.commitStep
      (d.reparkWrite p st resolved s fresh timers rows relayAlias) d.owner,
      w.startAliases, parkedAfter fresh (d.expressions.parkKeys p s.vars) w.parked⟩ where
  start := h.start
  keys k := by
    have hrows := Expressions.mem_waitAliasRows hkeys
    rw [pendingWaits_eq (stored_commitStep _ _ _) rfl, liveAlias_commitStep]
    refine keys_of_turnover h.start (fun k => ?_) (hset st hstored) hturn hres
      (fun k hk => Or.inr ((hrows k).mp hk)) (fun n hn k hk => (hrows k).mpr ⟨n, hn, hk⟩) k
    rw [h.keys, pendingWaits_eq hstored hstatus]

theorem fail (h : Keyed p w) : Keyed p { w with tables := w.tables.commitFailed } where
  start := h.start
  keys k := by
    have hpending : World.pendingWaits { w with tables := w.tables.commitFailed } =
      w.pendingWaits := by
      rw [pendingWaits_eq hstored hstatus, World.pendingWaits, stored_commitFailed, hstored]
      rfl
    rw [hpending, Tables.LiveAlias, aliasIndex_commitFailed]
    exact h.keys k

end Suspended

section Chain

variable {is : List (Input ω)} {c₀ c : InlineChain} (hd : p.IdsDistinct)
  (hends : Ends d p (fun _ _ => True) c₀ is (.park c)) (hc : c₀.Accrued)
include hd hends hc

theorem chain (hcommit : d.commitChain p c w.tables = .ok t) : c.Accrued ∧ c.origin = c₀.origin ∧
      ∃ rows, d.expressions.waitAliasRows p c.state.vars c.freshWaits = .ok rows ∧
        t = match c.stored with
          | none => w.tables.writeStepWithTimers
              (d.parkWrite c.state c.pendingTimers (c.aliasRows ++ rows))
          | some st => w.tables.commitStep (d.reparkWrite p st.prior
              (pushNew st.satisfied c.freshWaits) c.state c.freshWaits c.pendingTimers
              (c.aliasRows ++ rows) st.relayAlias) d.owner := by
  have hinv := hends.invariant (I := fun c => c.Accrued ∧ c.origin = c₀.origin)
    (fun _ _ _ _ h hc => ⟨hc.1.apply hd h, (InlineChain.origin_apply h).trans hc.2⟩) rfl ⟨hc, rfl⟩
  refine ⟨hinv.1, hinv.2, ?_⟩
  rw [Caller.commitChain] at hcommit
  cases hrows : d.expressions.waitAliasRows p c.state.vars c.freshWaits with
  | error e =>
    rw [hrows] at hcommit
    cases hcommit
  | ok rows =>
    rw [hrows] at hcommit
    refine ⟨rows, rfl, ?_⟩
    cases hst : c.stored with
    | none =>
      rw [hst] at hcommit
      exact (Except.ok.inj hcommit).symm
    | some st =>
      rw [hst] at hcommit
      exact (Except.ok.inj hcommit).symm

theorem chainPark (hrows : ∀ k ∈ rows.map (·.key), k.1 ∈ Expressions.startNames p)
    (ho : c₀.origin = (none, rows)) (hcommit : d.commitChain p c .empty = .ok t) :
    Keyed p ⟨t, rows.map (·.key),
      parkedAfter c.freshWaits (d.expressions.parkKeys p c.state.vars) fun _ => []⟩ := by
  obtain ⟨hturn, horigin, waits, hwaits, ht⟩ := chain (w := .initial) hd hends hc hcommit
  rw [ho] at horigin
  have hstored : c.stored = none := Option.map_eq_none_iff.mp (congrArg Prod.fst horigin)
  have hrows' : c.aliasRows = rows := congrArg Prod.snd horigin
  rw [hstored] at ht
  rw [InlineChain.Accrued, InlineChain.priorWaiting, InlineChain.satisfied, hstored] at hturn
  rw [hrows'] at ht
  rw [ht]
  exact park hrows hturn hwaits

theorem chainRepark (h : Keyed p w) (hset : SettledBefore d p w)
    (hstored : w.tables.stored = some st) (hstatus : st.status = .suspended)
    (ho : c₀.origin = (some (st, relayAlias), [])) (hcommit : d.commitChain p c w.tables = .ok t) :
    Keyed p ⟨t, w.startAliases,
      parkedAfter c.freshWaits (d.expressions.parkKeys p c.state.vars) w.parked⟩ := by
  obtain ⟨hturn, horigin, rows, hrows, ht⟩ := chain hd hends hc hcommit
  rw [ho] at horigin
  obtain ⟨⟨prior, satisfied, relay⟩, hst, heq⟩ :=
    Option.map_eq_some_iff.mp (congrArg Prod.fst horigin)
  have hrows' : c.aliasRows = [] := congrArg Prod.snd horigin
  cases heq
  rw [InlineChain.Accrued, InlineChain.priorWaiting, InlineChain.satisfied, hst] at hturn
  rw [hst, hrows', nil_append] at ht
  rw [ht]
  exact repark hstored hstatus h hset hturn (fun _ => mem_pushNew) hrows

end Chain

/-- **Every step from settled waits keeps the keys in order.** -/
theorem step (hd : p.IdsDistinct) {x : Event} (hstep : SettledStep d p instanceId w x w')
    (h : Keyed p w) : Keyed p w' := by
  obtain ⟨hstep, hset⟩ := hstep
  cases hstep with
  | park hstart hrows hpass hkeys =>
    exact park (name_mem_startNames hstart hrows) (start_turnover hpass) hkeys
  | resume hstored hstatus hadmits hpass hkeys =>
    have hturn := wake_turnover (fun f hf _ => host_of_admits hadmits hf) hpass
    exact repark hstored hstatus h hset hturn (fun _ => mem_resolvedWithFresh) hkeys
  | chainPark hstart hrows hpass hends hcommit =>
    exact chainPark hd hends (accrued_launch _ _ (start_turnover hpass))
      (name_mem_startNames hstart hrows) (InlineChain.origin_issueInlineCalls _ _ _) hcommit
  | chainRepark hstored hstatus hadmits hpass hends hcommit =>
    have hturn := wake_turnover (fun f hf _ => host_of_admits hadmits hf) hpass
    exact chainRepark hd hends (accrued_launchStored _ hturn) h hset hstored hstatus
      (InlineChain.origin_issueInlineCalls _ _ _) hcommit
  | complete r => exact complete r
  | fail hstored hstatus => exact h.fail hstored hstatus

/-- **Along every run of such steps.** -/
theorem run (hd : p.IdsDistinct) {xs : List Event}
    (hrun : Run (SettledStep d p instanceId) World.initial xs w) : Keyed p w :=
  hrun.invariant (fun _ _ _ _ hstep h => h.step hd hstep) initial

end Keyed

/-- **At every state of such a run, a relay finds the instance by the aliases of its start event and
by the keys of its pending waits, and by nothing else.** -/
theorem live_keys_are_pending_keys (d : Caller ω) (p : ProcessDefinition) (instanceId : String)
    (hd : p.IdsDistinct) {xs : List Event} {w : World}
    (hrun : Run (SettledStep d p instanceId) World.initial xs w) (k : AliasKey) :
    w.tables.LiveAlias k ↔ k ∈ w.startAliases ∨ ∃ n ∈ w.pendingWaits, k ∈ w.parked n :=
  (Keyed.run hd hrun).keys k

/-! ## A contract with three approvals -/

def contractApproval : ProcessDefinition where
  id := "contract"
  nodes := [.startEvent "start", .parallelGateway "fork", .userTask "legal", .userTask "finance",
    .userTask "board", .parallelGateway "join", .endEvent "end"]
  flows := [⟨"f0", "start", "fork", none⟩, ⟨"f1", "fork", "legal", none⟩,
    ⟨"f2", "fork", "finance", none⟩, ⟨"f3", "fork", "board", none⟩, ⟨"f4", "legal", "join", none⟩,
    ⟨"f5", "finance", "join", none⟩, ⟨"f6", "board", "join", none⟩, ⟨"f7", "join", "end", none⟩]
  bindings := (SortedMap.empty.insert "start"
    { aliases := [⟨"order", "order", false, false⟩] }).insert
    "legal" { aliases := [⟨"contract", "contract", false, false⟩] }
  coveragePaths := []

def contractExpressions : Expressions where
  eval e vars := .ok ((vars.get e).getD .null)
  canonicalStringOf
    | .string s => s
    | _ => ""
  typeName _ := ""

/-- A dispatcher that runs no tasks. -/
def contractCaller : Caller Unit where
  executor := .builder (fun _ => none) "i" "now"
  expressions := contractExpressions
  persisted := id
  instantOf _ := 0
  deployment := .unresolved
  owner := "node"
  inline _ _ := false
  allowed _ _ := none

/-- A pass with enough fuel. -/
def contractEnv : Env Unit :=
  ⟨30, .empty, ⟨.fresh (), .new contractApproval .unresolved .empty ""⟩, "now"⟩

def contractOrder : Variables :=
  (Variables.empty.insert "order" (.string "o1")).insert "contract" (.string "c1")

def contractOpen (waiting fresh completed : List String) (contract : String) : Suspended where
  instanceId := "i"
  waitingNodes := waiting
  completedNodes := completed
  vars := contractOrder.insert "contract" (.string contract)
  startNode := some "start"
  timerWaits := []
  detachedReply := false
  coverageProgress := .empty
  retryAttempts := .empty
  retryBackoff := .empty
  freshWaits := fresh

def allOpen : Suspended :=
  contractOpen ["legal", "finance", "board"] ["legal", "finance", "board"] [] "c1"

def contractStarted : World where
  tables := Tables.empty.writeStepWithTimers
    (contractCaller.parkWrite allOpen [] [⟨"order", "o1", false⟩, ⟨"contract", "c1", false⟩])
  startAliases := [("order", "o1")]
  parked := parkedAfter allOpen.freshWaits
    (contractCaller.expressions.parkKeys contractApproval allOpen.vars) fun _ => []

theorem contract_park : Step contractCaller contractApproval "i" .initial .park contractStarted :=
  @Step.park Unit contractCaller contractApproval "i" 30 .empty "start" contractOrder _
    [⟨"order", "o1", false⟩]
    [⟨"contract", "c1", false⟩] allOpen contractEnv.machine _ rfl rfl rfl rfl

theorem contractStarted_stored :
    contractStarted.tables.stored = some (contractCaller.snapshotOf allOpen) :=
  stored_writeStepWithTimers _ _

theorem contractStarted_settled :
    SettledBefore contractCaller contractApproval contractStarted := by
  intro st hst
  rw [contractStarted_stored] at hst
  cases hst
  constructor
  · decide
  · decide

/-- Legal approves before anything else happens: its key is gone and the order's is not. -/
theorem legal_not_found : ∃ xs w, Run (SettledStep contractCaller contractApproval "i")
    World.initial xs w ∧ w.pendingWaits = ["finance", "board"] ∧
      w.tables.LiveAlias ("order", "o1") ∧ ¬ w.tables.LiveAlias ("contract", "c1") := by
  have hlegal := @Step.resume Unit contractCaller contractApproval "i" contractStarted _
    (.relay "legal" .empty) contractEnv (some ("contract", "c1"))
    (contractOpen ["finance", "board"] [] ["legal"] "c1") _ _ contractStarted_stored rfl rfl rfl rfl
  have hrun : Run (SettledStep contractCaller contractApproval "i") .initial _ _ :=
    .cons ⟨contract_park, nofun⟩ <| .cons ⟨hlegal, contractStarted_settled⟩ (.nil _)
  have hkeys := live_keys_are_pending_keys _ _ _ (by decide) hrun
  exact ⟨_, _, hrun, rfl, (hkeys _).mpr (.inl (by decide)),
    fun h => absurd ((hkeys _).mp h) (by decide)⟩

/-- **The key of a wait that has been left is still found.**  Finance changes the contract while
legal waits; then legal approves, found by the order. The key legal was parked under stays. -/
theorem left_wait_still_found : ∃ xs w, Run (Step contractCaller contractApproval "i")
    World.initial xs w ∧ w.pendingWaits = ["board"] ∧ w.parked "legal" = [("contract", "c1")] ∧
      w.startAliases = [("order", "o1")] ∧ w.parked "board" = [] ∧
      w.tables.LiveAlias ("contract", "c1") := by
  have hfinance := @Step.resume Unit contractCaller contractApproval "i" contractStarted _
    (.relay "finance" (Variables.empty.insert "contract" (.string "c2"))) contractEnv
    (some ("order", "o1")) (contractOpen ["legal", "board"] [] ["finance"] "c2") _ _
    contractStarted_stored rfl rfl rfl rfl
  have hrun : Run (Step contractCaller contractApproval "i") .initial _ _ :=
    .cons contract_park <| .cons hfinance <|
    .cons (@Step.resume Unit contractCaller contractApproval "i" _
      (contractCaller.snapshotOf (contractOpen ["legal", "board"] [] ["finance"] "c2"))
      (.relay "legal" .empty) contractEnv (some ("order", "o1"))
      (contractOpen ["board"] [] ["finance", "legal"] "c2") _ _
      (stored_commitStep _ _ _) rfl rfl rfl rfl) (.nil _)
  exact ⟨_, _, hrun, rfl, rfl, rfl, rfl, rfl⟩

end Sutra.Chain
