import Sutra.Chain.Inline

/-!
# The passes of a chain

What the one commit of a chain relies on is that all its passes together turn the frontier of the
stored snapshot over as one pass would: the waits that were satisfied on the way are remembered, and
a wait that is new and still there is fresh.

* `Ends`: a chain from its launch to its end, one result after the other.
* `Accrued.absorb` is the step for one answer, `Accrued.apply` for any input.
-/

namespace Sutra.Chain

open Store Dispatch List Option

variable {ω : Type}

structure Input (ω : Type) where
  nodeId : String
  result : CallResult
  env : Env ω

def Caller.apply (d : Caller ω) (p : ProcessDefinition) (c : InlineChain) (i : Input ω) : Outcome :=
  d.resumeInMemory p c i.nodeId i.result i.env

/-- A chain whose results all meet `Q`, from a state to its end. -/
inductive Ends (d : Caller ω) (p : ProcessDefinition) (Q : InlineChain → Input ω → Prop) :
    InlineChain → List (Input ω) → Outcome → Prop
  | last {c : InlineChain} {i : Input ω} {o : Outcome} (hq : Q c i) (h : d.apply p c i = o)
      (ho : ∀ c', o ≠ .more c') : Ends d p Q c [i] o
  | more {c c' : InlineChain} {i : Input ω} {is : List (Input ω)} {o : Outcome} (hq : Q c i)
      (h : d.apply p c i = .more c') (rest : Ends d p Q c' is o) : Ends d p Q c (i :: is) o

namespace InlineChain

variable (c : InlineChain)

/-- The frontier of the snapshot that the chain started from. -/
def priorWaiting : List String := (c.stored.map (·.prior.waitingNodes)).getD []

/-- The waits that the passes of the chain satisfied, as far as its commit needs them. -/
def satisfied : List String := (c.stored.map (·.satisfied)).getD []

theorem issueInlineCalls_spec (drained : List Emission) (sites : List String) :
    ∃ inFlight emissions requests, c.issueInlineCalls drained sites =
      { c with inFlight := inFlight, emissions := emissions, requests := requests } ∧
      (emissions ++ requests).Perm (c.emissions ++ c.requests ++ drained) := by
  rw [issueInlineCalls]
  induction drained generalizing c with
  | nil => exact ⟨c.inFlight, c.emissions, c.requests, rfl, by rw [append_nil]⟩
  | cons e drained ih =>
    rw [foldl_cons]
    split
    · obtain ⟨i, es, rs, h, hperm⟩ := ih { c with
        inFlight := if e.nodeId ∈ c.inFlight then c.inFlight else c.inFlight ++ [e.nodeId]
        requests := c.requests ++ [e] }
      refine ⟨i, es, rs, h, hperm.trans ?_⟩
      simp only [append_assoc, singleton_append, List.Perm.refl]
    · obtain ⟨i, es, rs, h, hperm⟩ := ih { c with emissions := c.emissions ++ [e] }
      refine ⟨i, es, rs, h, hperm.trans ?_⟩
      simp only [append_assoc, singleton_append]
      exact perm_middle.symm.append_left _

def Accrued : Prop := Turnover c.priorWaiting c.satisfied c.freshWaits c.state.waitingNodes

end InlineChain

/-! ## The boundary a timeout fires -/

theorem mem_of_foldl_least {l : List (String × Nat)} {acc : Option (String × Nat)}
    {b : String × Nat} (h : l.foldl (fun best t =>
      match best with
      | none => some t
      | some b => if t.2 < b.2 then some t else some b) acc = some b) : b ∈ l ∨ acc = some b := by
  induction l generalizing acc with
  | nil => exact .inr h
  | cons t l ih =>
    rw [foldl_cons] at h
    rcases ih h with hb | hb
    · exact .inl (.tail _ hb)
    · cases acc with
      | none => exact .inl (mem_cons.mpr (.inl (some.inj hb).symm))
      | some a =>
        dsimp only at hb
        split at hb
        · exact .inl (mem_cons.mpr (.inl (some.inj hb).symm))
        · exact .inr hb

variable {d : Caller ω} {p : ProcessDefinition} {nodeId : String} {c c' : InlineChain}
  {s : Suspended}

/-- **The boundary that a synchronous call fires interrupts it.** -/
theorem interrupting_of_inlineTimeoutBoundary (hd : p.IdsDistinct) {b dueAt : String}
    {pending : List TimerWait} (h : d.inlineTimeoutBoundary p nodeId pending = some b)
    {f : FiredTimer} (hf : firedBy p (.timer b dueAt) = some f) : f.interrupting := by
  obtain ⟨⟨_, least⟩, hleast, rfl⟩ := map_eq_some_iff.mp h
  have hmem := (mem_of_foldl_least hleast).resolve_right nofun
  obtain ⟨n, hn, hpick⟩ := mem_filterMap.mp hmem
  split at hpick
  · split at hpick
    · obtain ⟨a, -, ha⟩ := map_eq_some_iff.mp hpick
      cases ha
      have hnode := ProcessDefinition.node_of_mem hd hn
      rw [firedBy, TokenExecutor.firedTimerOf] at hf
      dsimp only [Node.id] at hnode hf
      rw [hnode] at hf
      cases hf
      rfl
    · cases hpick
  · cases hpick

/-! ## One result -/

theorem chainPass_spec (hd : p.IdsDistinct) {now : String} {r : CallResult} {w : Wakeup}
    (h : d.chainPass p c nodeId now r = some (w, s)) :
    s.waitingNodes = c.state.waitingNodes ∧ s.vars = c.state.vars ∧
      ∀ f, firedBy p w = some f → f.interrupting := by
  have hfailure : ∀ {e reason}, Caller.chainPass.failurePass p c nodeId e reason = some (w, s) →
      s.waitingNodes = c.state.waitingNodes ∧ s.vars = c.state.vars ∧
        ∀ f, firedBy p w = some f → f.interrupting := by
    intro e reason h
    rw [Caller.chainPass.failurePass] at h
    split at h
    · cases h
      rw [lastAttempt]
      split <;> exact ⟨rfl, rfl, nofun⟩
    · cases h
  cases r with
  | answered vars =>
    cases h
    exact ⟨rfl, rfl, nofun⟩
  | refused | failed => exact hfailure h
  | timedOut =>
    rw [Caller.chainPass] at h
    split at h
    · rename_i boundary hb hp
      cases h
      exact ⟨rfl, rfl, fun f hf => interrupting_of_inlineTimeoutBoundary hd hb hf⟩
    · exact hfailure h

/-- **What a result does to a chain that does not end with it, or that parks.** -/
theorem apply_inv {i : Input ω} (h : d.apply p c i = .more c' ∨ d.apply p c i = .park c') :
    ∃ w s s' m, d.chainPass p c i.nodeId i.env.now i.result = some (w, s) ∧
      d.executor.wake i.env.fuel p d.deployment i.env.labels s w i.env.opened
        = (.ok (.suspended s'), m) ∧
      c' = (({ c with inFlight := c.inFlight.filter (· ≠ i.nodeId) } : InlineChain).absorb d p
        (satisfiedNode w) s').issueInlineCalls m.world.emissions
          (s'.freshWaits.filter fun n => d.inline n s'.vars) := by
  rw [Caller.apply, Caller.resumeInMemory] at h
  cases hpass : d.chainPass p c i.nodeId i.env.now i.result with
  | none =>
    rw [show d.chainPass p { c with inFlight := c.inFlight.filter (· ≠ i.nodeId) } i.nodeId
      i.env.now i.result = none from hpass] at h
    rcases h with h | h <;> cases h
  | some ws =>
    obtain ⟨w, s⟩ := ws
    rw [show d.chainPass p { c with inFlight := c.inFlight.filter (· ≠ i.nodeId) } i.nodeId
      i.env.now i.result = some (w, s) from hpass] at h
    change d.resumeChainPass p _ w s i.env = _ ∨ d.resumeChainPass p _ w s i.env = _ at h
    rw [Caller.resumeChainPass] at h
    rcases hwake : d.executor.wake i.env.fuel p d.deployment i.env.labels s w i.env.opened with
      ⟨_ | ⟨_, _, _⟩ | s', m⟩
    · rw [hwake] at h
      rcases h with h | h <;> cases h
    · rw [hwake] at h
      rcases h with h | h <;> cases h
    · rw [hwake] at h
      refine ⟨w, s, s', m, rfl, hwake, ?_⟩
      dsimp only at h
      split at h
      · exact (Outcome.park.inj (h.resolve_left nofun)).symm
      · exact (Outcome.more.inj (h.resolve_right nofun)).symm

/-! ## All results -/

theorem Ends.invariant {Q : InlineChain → Input ω → Prop} {I : InlineChain → Prop}
    (hstep : ∀ c i c', Q c i → d.apply p c i = .more c' ∨ d.apply p c i = .park c' → I c → I c')
    {is : List (Input ω)} {o : Outcome} (h : Ends d p Q c is o)
    (ho : o = .park c') (hc : I c) : I c' := by
  induction h with
  | last hq h _ => exact hstep _ _ _ hq (.inr (h.trans ho)) hc
  | more hq h _ ih => exact ih ho (hstep _ _ _ hq (.inl h) hc)

namespace InlineChain

variable {c c' : InlineChain}

theorem Accrued.issueInlineCalls (h : c.Accrued) (drained : List Emission)
    (sites : List String) : (c.issueInlineCalls drained sites).Accrued := by
  obtain ⟨_, _, _, heq, -⟩ := c.issueInlineCalls_spec drained sites
  rw [heq]
  exact h

/-- **A pass adds to what the chain has turned over.** -/
theorem Accrued.absorb (h : c.Accrued) {satisfied : String} {s : Suspended}
    (hturn : Turnover c.state.waitingNodes (resolvedWaitsFor p satisfied) s.freshWaits
      s.waitingNodes) : (c.absorb d p satisfied s).Accrued := by
  have hfresh : ∀ n, n ∈ (c.absorb d p satisfied s).freshWaits ↔
      (n ∈ c.freshWaits ∨ n ∈ s.freshWaits) ∧ n ∈ s.waitingNodes := by
    intro n
    rw [InlineChain.absorb, mem_filter, mem_pushNew, decide_eq_true_eq]
  refine ⟨fun n hn => ((hfresh n).mp hn).2, fun n hn hsat => ?_, fun n hn hnf => ?_⟩
  · -- a wait of the snapshot that no pass satisfied has been there all along
    cases hst : c.stored with
    | none =>
      rw [priorWaiting, InlineChain.absorb, hst] at hn
      exact nomatch hn
    | some st =>
      rw [priorWaiting, InlineChain.absorb, hst] at hn
      rw [InlineChain.satisfied, InlineChain.absorb, hst] at hsat
      have hsat' := fun h => hsat (mem_pushNew.mpr h)
      refine hturn.kept n (h.kept n ?_ ?_) fun hr => hsat' (Or.inr hr)
      · rw [priorWaiting, hst]
        exact hn
      · rw [InlineChain.satisfied, hst]
        exact fun hs => hsat' (Or.inl hs)
  · have hnf' : n ∉ c.freshWaits ∧ n ∉ s.freshWaits := by
      rw [← not_or]
      exact fun hor => hnf ((hfresh n).mpr ⟨hor, hn⟩)
    have hprior : (c.absorb d p satisfied s).priorWaiting = c.priorWaiting := by
      rw [priorWaiting, priorWaiting, InlineChain.absorb, Option.map_map]
      rfl
    rw [hprior]
    exact h.carried n (hturn.carried n hn hnf'.2) hnf'.1

/-- **A result adds to what the chain has turned over.** -/
theorem Accrued.apply (hd : p.IdsDistinct) {i : Input ω}
    (h : d.apply p c i = .more c' ∨ d.apply p c i = .park c') (hc : c.Accrued) : c'.Accrued := by
  obtain ⟨w, s, s', m, hpass, hwake, rfl⟩ := apply_inv h
  obtain ⟨hwaiting, -, hint⟩ := chainPass_spec hd hpass
  have hturn := wake_turnover (fun f hf hno => nomatch (hint f hf).symm.trans hno) hwake
  rw [hwaiting] at hturn
  have hc' : Accrued { c with inFlight := c.inFlight.filter (· ≠ i.nodeId) } := hc
  exact (hc'.absorb hturn).issueInlineCalls _ _

def origin (c : InlineChain) : Option (Stored Body × Option AliasKey) × List AliasRecord :=
  (c.stored.map fun st => (st.prior, st.relayAlias), c.aliasRows)

theorem origin_issueInlineCalls (c : InlineChain) (drained : List Emission) (sites : List String) :
    (c.issueInlineCalls drained sites).origin = c.origin := by
  obtain ⟨_, _, _, heq, -⟩ := c.issueInlineCalls_spec drained sites
  rw [heq]
  rfl

theorem origin_apply {i : Input ω}
    (h : d.apply p c i = .more c' ∨ d.apply p c i = .park c') : c'.origin = c.origin := by
  obtain ⟨w, s, s', m, -, -, rfl⟩ := apply_inv h
  rw [origin_issueInlineCalls, origin, origin, InlineChain.absorb, Option.map_map]
  rfl

end InlineChain

theorem accrued_launch (rows : List AliasRecord) (drained : List Emission)
    (h : Turnover [] [] s.freshWaits s.waitingNodes) : (d.launch p s rows drained).Accrued :=
  InlineChain.Accrued.issueInlineCalls (c := ⟨s, _, _, _, _, none, _, _, _⟩) h _ _

theorem accrued_launchStored {prior : Stored Body} {parked : String → List AliasKey}
    {satisfied : String} {relayAlias : Option AliasKey} (drained : List Emission)
    (h : Turnover prior.waitingNodes (resolvedWaitsFor p satisfied) s.freshWaits s.waitingNodes) :
    (d.launchStored p prior parked satisfied relayAlias s drained).Accrued :=
  InlineChain.Accrued.issueInlineCalls
    (c := ⟨s, _, _, _, _, some ⟨prior, resolvedWaitsFor p satisfied, relayAlias⟩, _, _, _⟩) h _ _

end Sutra.Chain
