import Sutra.Inflight.Sweep

/-!
# What a synchronous chain holds

While its calls are out a chain holds things outside of the instance it keeps in memory (claims,
keys, slots, the dedup rows of its delivery and their marker).

* `launchInlineChain` takes them one after the other.
* `releaseChain` gives them back, by how the chain ended, as far as the stores answer (`Answers`).
-/

namespace Sutra.Chain

open List Option

open Inflight (DedupKey)

/-! ## The stores -/

structure Wiring where
  bridge : Bool
  aliases : Bool
  concurrency : Bool
  capacity : Bool
  inbox : Bool
  /-- The terminal commit of a stored instance deletes its admission row. -/
  terminalReleases : Bool

/-- How a transaction that deletes the marker on its way ends. -/
inductive CommitAnswer where
  | committed
  /-- Refused, before or after the statement that deletes the marker. -/
  | refused (reached : Bool)
  deriving DecidableEq

def CommitAnswer.ok : CommitAnswer → Bool
  | .committed => true
  | .refused _ => false

def CommitAnswer.reached : CommitAnswer → Bool
  | .committed => true
  | .refused reached => reached

inductive FailedAnswer where
  | marked
  /-- There was no row left to mark. -/
  | vanished
  | refused (reached : Bool)
  deriving DecidableEq

structure Answers where
  started : Bool
  record : Bool
  commit : CommitAnswer
  failed : FailedAnswer
  forget : DedupKey → Bool
  clear : CommitAnswer
  release : Bool
  terminal : Bool
  pools : Bool

structure AliasRow where
  instanceId : String
  name : String
  value : String
  deriving DecidableEq

structure Holdings where
  inlineHeld : Bool
  aliases : List AliasRow
  /-- The claim of this process, under a scope. -/
  claims : String → Bool
  admission : Bool
  pools : Bool
  inbox : DedupKey → Bool
  marker : Option (List DedupKey)
  /-- The process knows the marker. -/
  live : Bool
  /-- The instance has a stored row that can be resumed. -/
  frontier : Bool

namespace Holdings

variable (x : Wiring) (a : Answers) (w : Holdings)

def recordTerminal : Holdings :=
  { w with admission := w.admission && !(x.concurrency && a.terminal) }

def releasePoolSlots : Holdings := { w with pools := w.pools && !(x.capacity && a.pools) }

/-- The deletion of the marker on a transaction. The process forgets the marker with the statement,
the row is gone with the commit; a marker that the process does not know is left alone. -/
def clearIn (t : CommitAnswer) : Holdings :=
  { w with
    marker := if w.live && t.ok then none else w.marker
    live := w.live && !t.reached }

def finalStep (t : CommitAnswer) (write : Holdings → Holdings) : Holdings :=
  (if t.ok then write w else w).clearIn t

def terminate (deployment : String) : Holdings :=
  { w with
    frontier := false
    admission := w.admission && !x.terminalReleases
    claims := fun s => w.claims s && !decide (s = deployment) }

def park (stored : Bool) (deployment : String) : Holdings :=
  { w with
    frontier := true
    claims := fun s => w.claims s && !(stored && decide (s = deployment)) }

end Holdings

/-! ## The chain -/

structure Launch where
  deployment : String
  instanceId : String
  stored : Option String
  uniqueAliases : List (String × String)
  /-- The channel has a limit of concurrent instances. -/
  capped : Bool
  /-- The start took a pool slot. -/
  pooled : Bool
  keys : List DedupKey

structure Held extends Launch where
  heldAliases : Bool
  counted : Bool
  marked : Bool
  dedupKeys : List DedupKey

inductive ChainEnd where
  | parked
  | completed
  | failed
  | aborted
  deriving DecidableEq

/-- The instance is over, or was never persisted. -/
def ChainEnd.ended (c : Launch) : ChainEnd → Bool
  | .completed | .failed => true
  | .aborted => c.stored.isNone
  | .parked => false

/-- Nothing of the delivery was persisted. -/
def ChainEnd.unpersisted (c : Launch) : ChainEnd → Bool
  | .aborted => true
  | .failed => c.stored.isNone
  | .parked | .completed => false

/-- Whether the inbox says that a record is gone. The inbox in memory always does. -/
def forgets (x : Wiring) (a : Answers) (k : DedupKey) : Bool := a.forget k || !x.bridge

section Release

variable (x : Wiring) (a : Answers) (c : Held) (fate : ChainEnd) (w : Holdings)

def releaseSlots : Holdings :=
  let released := decide (fate = .completed) && c.stored.isSome && x.terminalReleases
  { w with
    admission := w.admission &&
      !(fate.ended c.toLaunch && c.counted && !released && x.concurrency && a.terminal)
    pools := w.pools &&
      !(fate.ended c.toLaunch && (c.pooled || c.stored.isSome) && x.capacity && a.pools) }

/-- Whether the dedup rows of the delivery are to be deleted. -/
def forgetting : Bool := fate.unpersisted c.toLaunch && x.inbox

/-- The dedup rows of a delivery that did nothing. -/
def releaseRecords : Holdings :=
  { w with
    inbox := fun k => w.inbox k &&
      !(forgetting x c fate && decide (k ∈ c.dedupKeys) && forgets x a k) }

/-- The marker, unless a dedup row that it names could not be deleted. -/
def releaseMarker : Holdings :=
  if x.bridge && c.marked && (!forgetting x c fate || c.dedupKeys.all (forgets x a)) then
    w.clearIn a.clear
  else w

/-- The claim of a stored instance, unless the final step released it. -/
def releaseClaim : Holdings :=
  let releasedInTx (scope : String) : Bool :=
    decide (scope = c.deployment) && (decide (fate = .parked) || decide (fate = .completed))
  { w with
    claims := fun s => w.claims s &&
      !(decide (c.stored = some s) && !releasedInTx s && x.bridge && a.release) }

/-- **Release what the chain held while it ran.** -/
def releaseChain : Holdings :=
  let w := { w with
    aliases := if c.heldAliases && x.aliases then
        w.aliases.filter fun row => row.instanceId ≠ c.instanceId
      else w.aliases }
  let w := releaseSlots x a c fate w
  let w := releaseRecords x a c fate w
  let w := releaseMarker x a c fate w
  let w := releaseClaim x a c fate w
  { w with inlineHeld := w.inlineHeld && c.stored.isNone }

end Release

/-! ## How a chain ends on its lane -/

section Ends

variable (x : Wiring) (a : Answers) (c : Held) (w : Holdings)

/-- The chain ends with nothing committed. -/
def abortChain : Holdings × Bool := (releaseChain x a c .aborted w, false)

def completeChain (emissions : Bool) : Holdings × Bool :=
  if c.stored.isSome then
    if x.bridge then
      let w := w.finalStep a.commit fun w => w.terminate x c.deployment
      if a.commit.ok then
        let w := if x.terminalReleases then w else w.recordTerminal x a
        (releaseChain x a c .completed w, true)
      else abortChain x a c w
    else abortChain x a c w
  else if x.bridge && emissions then
    let w := w.finalStep a.commit id
    if a.commit.ok then (releaseChain x a c .completed w, true) else abortChain x a c w
  else (releaseChain x a c .completed w, true)

def parkChain (renders : Bool) : Holdings × Bool :=
  if x.bridge && renders then
    let w := w.finalStep a.commit fun w => w.park c.stored.isSome c.deployment
    if a.commit.ok then
      let w := if c.stored.isNone && x.concurrency && c.capped && !c.counted then
          { w with admission := w.admission || a.started }
        else w
      (releaseChain x a c .parked w, true)
    else abortChain x a c w
  else abortChain x a c w

/-- Persist a stored instance as FAILED. Its slots are freed in any case. -/
def markInstanceFailed : Holdings :=
  let w := match a.failed with
    | .marked => w.finalStep .committed fun w => { w with frontier := false }
    | .vanished => { w with frontier := false, claims := fun _ => false }
    | .refused reached => w.finalStep (.refused reached) id
  (w.recordTerminal x a).releasePoolSlots x a

def failChain : Holdings × Bool :=
  if c.stored.isSome && x.bridge then
    (releaseChain x a c .failed (markInstanceFailed x a w), a.failed = .marked)
  else (releaseChain x a c .failed w, false)

end Ends

/-! ## The launch -/

def recordUnique (instanceId : String) : List (String × String) → List AliasRow →
    Bool × List AliasRow
  | [], rows => (true, rows)
  | (name, value) :: rest, rows =>
    if rows.any fun row => row.name = name ∧ row.value = value ∧ row.instanceId ≠ instanceId then
      (false, rows)
    else recordUnique instanceId rest (rows ++ [⟨instanceId, name, value⟩])

/-- An inbox in memory has recorded the delivery before its chain is constructed. -/
def receive (x : Wiring) (c : Launch) (w : Holdings) : Holdings :=
  if x.bridge then w else { w with inbox := fun k => w.inbox k || decide (k ∈ c.keys) }

section Launch

variable (x : Wiring) (a : Answers) (c : Launch) (w : Holdings)

def holdAliases : Except Holdings (Held × Holdings) :=
  let keys := if x.bridge then [] else c.keys
  if x.aliases then
    let recorded := recordUnique c.instanceId c.uniqueAliases w.aliases
    let h : Held := ⟨c, !c.uniqueAliases.isEmpty, false, false, keys⟩
    let w := { w with aliases := recorded.2 }
    if recorded.1 then .ok (h, w) else .error (releaseChain x a h .aborted w)
  else .ok (⟨c, false, false, false, keys⟩, w)

def holdSlots (h : Held) (w : Holdings) : Held × Holdings :=
  let counted := x.concurrency && h.capped
  ({ h with counted := counted },
    { w with
      admission := w.admission || (counted && h.stored.isNone && a.started)
      inlineHeld := w.inlineHeld || h.stored.isSome })

/-- The dedup rows with the marker that names them, if there is something to release. -/
def beginInlineChain (h : Held) (w : Holdings) : Except Holdings (Held × Holdings) :=
  if x.bridge && (!h.keys.isEmpty || h.counted || h.pooled) then
    if a.record && h.keys.all fun k => !w.inbox k then
      .ok ({ h with marked := true, dedupKeys := h.keys },
        { w with
          inbox := fun k => w.inbox k || decide (k ∈ h.keys)
          marker := some h.keys
          live := true })
    else .error (releaseChain x a h .aborted w)
  else .ok (h, w)

/-- **Start a chain.**  `calls` says whether the pass made a request at all. -/
def launchInlineChain (calls : Bool) : Except Holdings (Held × Holdings) := do
  let (h, w) ← holdAliases x a c w
  let (h, w) := holdSlots x a h w
  let (h, w) ← beginInlineChain x a h w
  if calls then .ok (h, w) else .error (releaseChain x a h .aborted w)

end Launch

/-! ## The task that makes the calls -/

inductive Pass where
  /-- Calls are still out. -/
  | more
  | complete (emissions : Bool)
  | park (renders : Bool)
  | fail
  /-- The pass itself is refused. -/
  | abort

/-- What the task gets. -/
inductive Arrival where
  | pass (p : Pass)
  | passPanicked
  | passLost
  | laneLost
  | callTaskFailed
  | noCallInFlight

/-- **Make the calls and post each answer to the lane**, until the chain ends. -/
def runInlineChainCalls (x : Wiring) (a : Answers) (h : Held) :
    List Arrival → Holdings → Option (Holdings × Bool)
  | [], _ => none
  | .pass .more :: rest, w => runInlineChainCalls x a h rest w
  | .pass (.complete emissions) :: _, w => some (completeChain x a h w emissions)
  | .pass (.park renders) :: _, w => some (parkChain x a h w renders)
  | .pass .fail :: _, w => some (failChain x a h w)
  | .pass .abort :: _, w => some (abortChain x a h w)
  | .passPanicked :: _, w | .passLost :: _, w | .laneLost :: _, w | .callTaskFailed :: _, w
  | .noCallInFlight :: _, w => some (w, false)

/-- A whole chain: what there is after it ended, and whether its effects or a failed state were
committed. -/
def runChain (x : Wiring) (a : Answers) (c : Launch) (calls : Bool) (arrivals : List Arrival)
    (w : Holdings) : Option (Holdings × Bool) :=
  match launchInlineChain x a c (receive x c w) calls with
  | .error w => some (w, false)
  | .ok (h, w) => runInlineChainCalls x a h arrivals w

/-! ## What is to be given back -/

structure Ready (x : Wiring) (c : Launch) (w : Holdings) : Prop where
  bridge : c.stored.isSome = true → x.bridge = true
  frontier : w.frontier = c.stored.isSome
  marker : w.marker = none
  admission : w.admission = true → x.concurrency = true ∧ c.stored.isSome = true
  pools : w.pools = true → x.capacity = true ∧ (c.pooled || c.stored.isSome) = true
  inbox : x.inbox = false → c.keys = []
  first : x.bridge = false → ∀ k ∈ c.keys, w.inbox k = false

structure Answered (a : Answers) (c : Launch) : Prop where
  terminal : a.terminal = true
  pools : a.pools = true
  release : a.release = true
  clear : a.clear = .committed
  commit : a.commit ≠ .refused true
  failed : c.stored.isSome = true → a.failed = .marked
  /-- The inbox answers for all keys of the delivery or for none. -/
  forget : (∀ k ∈ c.keys, a.forget k = true) ∨ ∀ k ∈ c.keys, a.forget k = false

/-- **A chain has given back what it held.** -/
structure GivenBack (c : Launch) (w₀ w : Holdings) (committed : Bool) : Prop where
  lane : w.inlineHeld = true → w₀.inlineHeld = true ∧ c.stored = none
  aliases : ∀ row ∈ w.aliases, row.instanceId = c.instanceId → row ∈ w₀.aliases
  claim : ∀ scope, c.stored = some scope → w.claims scope = false
  admission : w.admission = true → w.frontier = true
  pools : w.pools = true → w.frontier = true
  record : ∀ k ∈ c.keys, w.inbox k = true ↔
    w₀.inbox k = true ∨ committed = true ∨ ∃ ks, w.marker = some ks ∧ k ∈ ks

structure Holding (x : Wiring) (c : Held) (w₀ w : Holdings) : Prop where
  bridge : c.stored.isSome = true → x.bridge = true
  frontier : w.frontier = c.stored.isSome
  lane : w.inlineHeld = true → w₀.inlineHeld = true ∨ c.stored.isSome = true
  aliases : ∀ row ∈ w.aliases, row.instanceId = c.instanceId →
    row ∈ w₀.aliases ∨ (c.heldAliases && x.aliases) = true
  admission : w.admission = true → x.concurrency = true ∧ (c.counted || c.stored.isSome) = true
  pools : w.pools = true → x.capacity = true ∧ (c.pooled || c.stored.isSome) = true
  inbox : x.inbox = false → c.keys = []
  owned : ∀ k ∈ c.dedupKeys, k ∈ c.keys ∧ w.inbox k = true ∧ w₀.inbox k = false
  unowned : ∀ k ∈ c.keys, k ∉ c.dedupKeys → w.inbox k = w₀.inbox k
  marker : w.marker = if c.marked then some c.dedupKeys else none
  live : c.marked = true → w.live = true ∧ x.bridge = true
  marked : x.bridge = true → c.dedupKeys ≠ [] → c.marked = true

/-! ## What a release leaves -/

section Lemmas

variable {x : Wiring} {a : Answers} {c : Held} {fate : ChainEnd} {w₀ w w' : Holdings}

theorem releaseChain_eq : releaseChain x a c fate w =
    { inlineHeld := w.inlineHeld && c.stored.isNone
      aliases := if c.heldAliases && x.aliases then
          w.aliases.filter fun row => row.instanceId ≠ c.instanceId
        else w.aliases
      claims := (releaseClaim x a c fate w).claims
      admission := (releaseSlots x a c fate w).admission
      pools := (releaseSlots x a c fate w).pools
      inbox := (releaseRecords x a c fate w).inbox
      marker := (releaseMarker x a c fate w).marker
      live := (releaseMarker x a c fate w).live
      frontier := w.frontier } := by
  rw [releaseChain, releaseMarker, releaseMarker]
  split <;> rfl

/-- What every release gives back, from what is left to show of the slots and of the records. -/
theorem GivenBack.of_release {committed : Bool} (hrelease : a.release)
    (hbridge : c.stored.isSome → x.bridge) (hlane : w.inlineHeld → w₀.inlineHeld ∨ c.stored.isSome)
    (haliases : ∀ row ∈ w.aliases, row.instanceId = c.instanceId →
      row ∈ w₀.aliases ∨ (c.heldAliases && x.aliases))
    (hclaim : ∀ scope, c.stored = some scope → scope = c.deployment →
      fate = .parked ∨ fate = .completed → w.claims scope = false)
    (hadmission : (releaseSlots x a c fate w).admission → w.frontier)
    (hpools : (releaseSlots x a c fate w).pools → w.frontier)
    (hrecord : ∀ k ∈ c.keys, (releaseRecords x a c fate w).inbox k ↔
      w₀.inbox k ∨ committed ∨ ∃ ks, (releaseMarker x a c fate w).marker = some ks ∧ k ∈ ks) :
    GivenBack c.toLaunch w₀ (releaseChain x a c fate w) committed := by
  rw [releaseChain_eq]
  refine ⟨fun h => ?_, fun row hrow hinst => ?_, fun scope hscope => ?_, hadmission, hpools,
    hrecord⟩
  · obtain ⟨hheld, hnone⟩ := Bool.and_eq_true_iff.mp h
    rw [isNone_iff_eq_none] at hnone
    refine ⟨(hlane hheld).resolve_right ?_, hnone⟩
    rw [hnone]
    nofun
  · dsimp only at hrow
    split at hrow
    · obtain ⟨hmem, hne⟩ := mem_filter.mp hrow
      exact absurd hinst (of_decide_eq_true hne)
    · rename_i hnot
      exact (haliases row hrow hinst).resolve_right hnot
  · have hx : x.bridge := hbridge (by rw [hscope]; rfl)
    by_cases hin : scope = c.deployment ∧ (fate = .parked ∨ fate = .completed)
    · simp only [releaseClaim, hclaim scope hscope hin.1 hin.2, Bool.false_and]
    · simp only [releaseClaim, hscope, hx, hrelease]
      simp only [not_and_or, not_or] at hin
      rcases hin with hne | hne
      · simp [hne]
      · simp [hne.1, hne.2]

/-- The slots of an instance that is over or was never persisted are freed. -/
theorem releaseSlots_of_ended (ha : Answered a c.toLaunch) (hended : fate.ended c.toLaunch)
    (hadmission : w.admission → x.concurrency ∧ c.counted ∧ c.stored = none)
    (hpools : w.pools → x.capacity ∧ (c.pooled || c.stored.isSome)) :
    (releaseSlots x a c fate w).admission = false ∧ (releaseSlots x a c fate w).pools = false := by
  constructor
  · cases h : w.admission with
    | false => simp only [releaseSlots, h, Bool.false_and]
    | true =>
      obtain ⟨hx, hcounted, hnone⟩ := hadmission h
      simp [releaseSlots, hended, hx, hcounted, hnone, ha.terminal]
  · cases h : w.pools with
    | false => simp only [releaseSlots, h, Bool.false_and]
    | true =>
      obtain ⟨hx, hpooled⟩ := hpools h
      simp only [releaseSlots, hended, hx, hpooled, ha.pools, Bool.and_self, Bool.not_true,
        Bool.and_false]

theorem releaseMarker_marker : (releaseMarker x a c fate w).marker = none ∨
    (releaseMarker x a c fate w).marker = w.marker := by
  rw [releaseMarker]
  split
  · rw [Holdings.clearIn]
    split
    · exact .inl rfl
    · exact .inr rfl
  · exact .inr rfl

theorem Answered.committed_or (ha : Answered a c.toLaunch) :
    a.commit = .refused false ∨ a.commit = .committed := by
  rcases hcommit : a.commit with _ | (_ | _)
  · exact .inr rfl
  · exact .inl rfl
  · exact absurd hcommit ha.commit

theorem finalStep_refused (write : Holdings → Holdings) :
    w.finalStep (.refused false) write = w := by
  simp [Holdings.finalStep, Holdings.clearIn, CommitAnswer.ok, CommitAnswer.reached]

theorem record_of_persisted (hfate : fate.unpersisted c.toLaunch = false) {k : DedupKey}
    (hk : w.inbox k) : (releaseRecords x a c fate w).inbox k ↔ w₀.inbox k ∨ true ∨
      ∃ ks, (releaseMarker x a c fate w).marker = some ks ∧ k ∈ ks := by
  simp [releaseRecords, forgetting, hfate, hk]

namespace Holding

variable (h : Holding x c w₀ w)

include h

variable (ha : Answered a c.toLaunch)

include ha

theorem marker_cleared (hall : c.dedupKeys.all (forgets x a)) :
    (releaseMarker x a c fate w).marker = none := by
  rw [releaseMarker]
  cases hmarked : c.marked with
  | false =>
    simp only [Bool.and_false, Bool.false_and, Bool.false_eq_true, if_false, h.marker, hmarked]
  | true =>
    obtain ⟨hlive, hx⟩ := h.live hmarked
    simp [hx, hall, Holdings.clearIn, hlive, ha.clear, CommitAnswer.ok]

/-- The dedup rows of a delivery that did nothing are gone, or all there with a marker that names
them. -/
theorem record_of_unpersisted
    (hfate : fate.unpersisted c.toLaunch) {k : DedupKey} (hk : k ∈ c.keys) :
    (releaseRecords x a c fate w).inbox k ↔ w₀.inbox k ∨ false ∨
      ∃ ks, (releaseMarker x a c fate w).marker = some ks ∧ k ∈ ks := by
  have hinbox : x.inbox := by
    cases hx : x.inbox with
    | true => rfl
    | false =>
      rw [h.inbox hx] at hk
      cases hk
  have hforgetting : forgetting x c fate := by rw [forgetting, hfate, hinbox]; rfl
  by_cases hown : k ∈ c.dedupKeys
  · obtain ⟨-, hrecorded, hfirst⟩ := h.owned k hown
    by_cases hall : c.dedupKeys.all (forgets x a)
    · have hforgets := all_eq_true.mp hall k hown
      simp [releaseRecords, hforgetting, hown, hforgets, hfirst, h.marker_cleared ha hall]
    · -- one key is not answered for, so none is
      obtain ⟨k', hk', hnot⟩ : ∃ k' ∈ c.dedupKeys, forgets x a k' = false := by
        simpa using hall
      obtain ⟨hnone, hx⟩ : a.forget k' = false ∧ x.bridge := by
        simpa [forgets] using hnot
      have hforget : a.forget k = false := by
        rcases ha.forget with hyes | hno
        · exact absurd (hyes k' (h.owned k' hk').1) (by rw [hnone]; nofun)
        · exact hno k hk
      have hmarked := h.marked hx (ne_nil_of_mem hown)
      have hmarker : (releaseMarker x a c fate w).marker = some c.dedupKeys := by
        simp [releaseMarker, hforgetting, hall, h.marker, hmarked]
      simp [releaseRecords, hforgetting, hown, forgets, hforget, hx, hrecorded, hmarker]
  · have hsame := h.unowned k hk hown
    have hnot : ¬ ∃ ks, (releaseMarker x a c fate w).marker = some ks ∧ k ∈ ks := by
      rintro ⟨ks, hks, hmem⟩
      rcases releaseMarker_marker with hnone | hkept
      · cases hnone.symm.trans hks
      · rw [hkept, h.marker] at hks
        split at hks
        · cases hks
          exact hown hmem
        · cases hks
    simp [releaseRecords, hown, hsame, hnot]

/-- **A chain that ends with nothing persisted gives everything back.** -/
theorem giveUp (hfate : fate = .aborted ∨ (fate = .failed ∧ c.stored = none)) :
    GivenBack c.toLaunch w₀ (releaseChain x a c fate w) false := by
  have hunpersisted : fate.unpersisted c.toLaunch := by
    rcases hfate with rfl | ⟨rfl, hnone⟩
    · rfl
    · rw [ChainEnd.unpersisted, hnone]
      rfl
  have hslots : (releaseSlots x a c fate w).admission ∨
      (releaseSlots x a c fate w).pools → w.frontier := by
    intro hslot
    rw [h.frontier]
    by_contra hstart
    have hnone : c.stored = none := by simpa using hstart
    have hended : fate.ended c.toLaunch := by
      rcases hfate with rfl | ⟨rfl, -⟩
      · rw [ChainEnd.ended, hnone]
        rfl
      · rfl
    have hfree := releaseSlots_of_ended (w := w) ha hended
      (fun hadm => by simpa [hnone] using h.admission hadm) h.pools
    rw [hfree.1, hfree.2] at hslot
    simp at hslot
  refine .of_release ha.release h.bridge h.lane h.aliases (fun scope _ _ hin => ?_)
    (fun hadm => hslots (.inl hadm)) (fun hpools => hslots (.inr hpools))
    fun k hk => h.record_of_unpersisted ha hunpersisted hk
  rcases hfate with rfl | ⟨rfl, -⟩ <;> simp at hin

variable (hall : ∀ k ∈ c.keys, k ∈ c.dedupKeys)

include hall

/-- An instance that is over gives everything back, if its final step or the failure freed the
admission slot of a stored one. -/
theorem endPersisted (hunpersisted : fate.unpersisted c.toLaunch = false)
    (hended : fate.ended c.toLaunch) (hlane : w'.inlineHeld = w.inlineHeld)
    (haliases : w'.aliases = w.aliases) (hadmission : w'.admission → w.admission ∧ c.stored = none)
    (hpools : w'.pools → w.pools) (hinbox : w'.inbox = w.inbox)
    (hclaim : c.stored ≠ none → fate = .parked ∨ fate = .completed →
      w'.claims c.deployment = false) :
    GivenBack c.toLaunch w₀ (releaseChain x a c fate w') true := by
  have hfree := releaseSlots_of_ended (w := w') ha hended (fun hadm => by
    obtain ⟨hadm, hnone⟩ := hadmission hadm
    simpa [hnone] using h.admission hadm) fun hpool => h.pools (hpools hpool)
  refine .of_release ha.release h.bridge (hlane ▸ h.lane) (haliases ▸ h.aliases)
    (fun scope hscope heq hin => heq ▸ hclaim (hscope ▸ nofun) hin) (fun hadm => ?_)
    (fun hpool => ?_) fun k hk => ?_
  · cases hfree.1.symm.trans hadm
  · cases hfree.2.symm.trans hpool
  · exact record_of_persisted hunpersisted (hinbox ▸ (h.owned k (hall k hk)).2.1)

theorem complete (emissions : Bool) : GivenBack c.toLaunch w₀ (completeChain x a c w emissions).1
      (completeChain x a c w emissions).2 := by
  rw [completeChain]
  split
  · rename_i hstored
    rw [if_pos (h.bridge hstored)]
    rcases ha.committed_or with hcommit | hcommit <;> rw [hcommit]
    · rw [finalStep_refused]
      exact h.giveUp ha (.inl rfl)
    · simp only [CommitAnswer.ok, if_true]
      have hclaim : (w.claims c.deployment && !decide (c.deployment = c.deployment)) = false := by
        simp
      -- the admission row is gone with the commit or with the statement after it
      cases hreleases : x.terminalReleases with
      | true =>
        refine h.endPersisted ha hall rfl rfl rfl rfl (fun hadm => ?_) id rfl fun _ _ => hclaim
        change (w.admission && !x.terminalReleases) = true at hadm
        simp [hreleases] at hadm
      | false =>
        refine h.endPersisted ha hall rfl rfl rfl rfl (fun hadm => ?_) id rfl fun _ _ => hclaim
        change ((w.admission && !x.terminalReleases) && !(x.concurrency && a.terminal)) =
          true at hadm
        simp only [Bool.and_eq_true] at hadm
        simp [(h.admission hadm.1.1).1, ha.terminal] at hadm
  · rename_i hstored
    have hnone : c.stored = none := by simpa using hstored
    -- a start frees its slots, whatever its commit did to the marker
    split
    · rcases ha.committed_or with hcommit | hcommit <;> rw [hcommit]
      · rw [finalStep_refused]
        exact h.giveUp ha (.inl rfl)
      · exact h.endPersisted ha hall rfl rfl rfl rfl (⟨·, hnone⟩) id rfl (absurd hnone)
    · exact h.endPersisted ha hall rfl rfl rfl rfl (⟨·, hnone⟩) id rfl (absurd hnone)

theorem park (renders : Bool) :
    GivenBack c.toLaunch w₀ (parkChain x a c w renders).1 (parkChain x a c w renders).2 := by
  -- whatever else the step does, the instance is stored afterwards
  have hparked : ∀ w', w'.inlineHeld = w.inlineHeld → w'.aliases = w.aliases →
      w'.frontier → w'.inbox = w.inbox →
      (∀ scope, c.stored = some scope → scope = c.deployment → w'.claims scope = false) →
      GivenBack c.toLaunch w₀ (releaseChain x a c .parked w') true := by
    intro w' hlane haliases hfrontier hinbox hclaim
    refine .of_release ha.release h.bridge (hlane ▸ h.lane) (haliases ▸ h.aliases)
      (fun scope hscope heq _ => hclaim scope hscope heq) (fun _ => hfrontier) (fun _ => hfrontier)
      fun k hk => ?_
    exact record_of_persisted rfl (hinbox ▸ (h.owned k (hall k hk)).2.1)
  rw [parkChain]
  split
  · rcases ha.committed_or with hcommit | hcommit <;> rw [hcommit]
    · rw [finalStep_refused]
      exact h.giveUp ha (.inl rfl)
    · have hclaim : ∀ scope, c.stored = some scope → scope = c.deployment →
          (w.claims scope && !(c.stored.isSome && decide (scope = c.deployment))) = false := by
        intro scope hscope heq
        simp [hscope, heq]
      simp only [CommitAnswer.ok, if_true]
      split
      · exact hparked _ rfl rfl rfl rfl hclaim
      · exact hparked _ rfl rfl rfl rfl hclaim
  · exact h.giveUp ha (.inl rfl)

theorem fail : GivenBack c.toLaunch w₀ (failChain x a c w).1 (failChain x a c w).2 := by
  rw [failChain]
  cases hstored : c.stored with
  | none =>
    simp only [isSome_none, Bool.false_and, Bool.false_eq_true, if_false]
    exact h.giveUp ha (.inr ⟨rfl, hstored⟩)
  | some scope =>
    have hsome : c.stored.isSome := by rw [hstored]; rfl
    rw [h.bridge hsome]
    simp only [isSome_some, Bool.and_self, if_true, ha.failed hsome, decide_true]
    have hunpersisted : ChainEnd.unpersisted c.toLaunch .failed = false := by
      rw [ChainEnd.unpersisted, hstored]
      rfl
    refine h.endPersisted ha hall hunpersisted rfl ?_ ?_ ?_ ?_ ?_ fun _ hin => ?_
    all_goals rw [markInstanceFailed, ha.failed hsome]
    · rfl
    · rfl
    · intro hadm
      change (w.admission && !(x.concurrency && a.terminal)) = true at hadm
      rw [Bool.and_eq_true] at hadm
      simp [(h.admission hadm.1).1, ha.terminal] at hadm
    · change (w.pools && !(x.capacity && a.pools)) → w.pools
      exact fun hpool => (Bool.and_eq_true_iff.mp hpool).1
    · rfl
    · rcases hin with hin | hin <;> cases hin

/-- **A pass on the lane that ends the chain gives back what it held.** -/
theorem run {arrivals : List Arrival}
    (hpass : ∀ r ∈ arrivals, ∃ p, r = .pass p) {last : Holdings × Bool}
    (hend : runInlineChainCalls x a c arrivals w = some last) :
    GivenBack c.toLaunch w₀ last.1 last.2 := by
  induction arrivals with
  | nil => cases hend
  | cons r rest ih =>
    obtain ⟨p, rfl⟩ := hpass _ (.head _)
    cases p with
    | more => exact ih (fun r hr => hpass r (.tail _ hr)) hend
    | complete emissions =>
      rw [← some.inj hend]
      exact h.complete ha hall emissions
    | park renders =>
      rw [← some.inj hend]
      exact h.park ha hall renders
    | fail =>
      rw [← some.inj hend]
      exact h.fail ha hall
    | abort =>
      rw [← some.inj hend]
      exact h.giveUp ha (.inl rfl)

end Holding

/-! ## What a launch takes -/

theorem mem_recordUnique {instanceId : String} {names : List (String × String)}
    {rows : List AliasRow} {row : AliasRow} (h : row ∈ (recordUnique instanceId names rows).2) :
    row ∈ rows ∨ names ≠ [] := by
  cases names with
  | nil => exact .inl h
  | cons r rest => exact .inr (cons_ne_nil _ _)

variable {l : Launch}

theorem Ready.holding (h : Ready x l w) (held : Bool) {rows : List AliasRow}
    (hrows : ∀ row ∈ rows, row ∈ w.aliases ∨ (held && x.aliases)) :
    Holding x ⟨l, held, false, false, if x.bridge then [] else l.keys⟩ w
      { receive x l w with aliases := rows } := by
  cases hx : x.bridge with
  | true =>
    have hreceive : receive x l w = w := by rw [receive, if_pos hx]
    rw [hreceive]
    exact ⟨h.bridge, h.frontier, .inl, fun row hrow _ => hrows row hrow,
      fun hadm => ⟨(h.admission hadm).1, (h.admission hadm).2⟩, h.pools, h.inbox, nofun,
      fun _ _ _ => rfl, h.marker, nofun, fun _ hne => absurd rfl hne⟩
  | false =>
    have hreceive : receive x l w =
      { w with inbox := fun k => w.inbox k || decide (k ∈ l.keys) } := by
      rw [receive, hx]
      rfl
    rw [hreceive]
    refine ⟨h.bridge, h.frontier, .inl, fun row hrow _ => hrows row hrow,
      fun hadm => ⟨(h.admission hadm).1, (h.admission hadm).2⟩, h.pools, h.inbox, fun k hk => ?_,
      fun k hk hnot => absurd hk hnot, h.marker, nofun, fun hbridge =>
        nomatch hx.symm.trans hbridge⟩
    have hmem : k ∈ l.keys := hk
    exact ⟨hmem, by simp [hmem], h.first hx k hmem⟩

theorem Holding.holdSlots (h : Holding x c w₀ w) (hcounted : c.counted = false) :
    Holding x (holdSlots x a c w).1 w₀ (holdSlots x a c w).2 :=
  { h with
    lane := fun hlane => by
      rcases Bool.or_eq_true_iff.mp hlane with hlane | hstored
      · exact h.lane hlane
      · exact .inr hstored
    admission := fun hadm => by
      change x.concurrency ∧ ((x.concurrency && c.capped) || c.stored.isSome)
      rcases Bool.or_eq_true_iff.mp hadm with hadm | hnew
      · obtain ⟨hx, hold⟩ := h.admission hadm
        rw [hcounted, Bool.false_or] at hold
        rw [hold, Bool.or_true]
        exact ⟨hx, rfl⟩
      · have hnow : (x.concurrency && c.capped) := by
          have := Bool.and_eq_true_iff.mp hnew
          exact (Bool.and_eq_true_iff.mp this.1).1
        rw [hnow, Bool.true_or]
        exact ⟨(Bool.and_eq_true_iff.mp hnow).1, rfl⟩ }

def Launched (x : Wiring) (l : Launch) (w₀ : Holdings) (inv : Held → Prop) :
    Except Holdings (Held × Holdings) → Prop
  | .error w => GivenBack l w₀ w false
  | .ok (c, w) => Holding x c w₀ w ∧ c.toLaunch = l ∧ inv c

theorem Launched.bind {inv inv' : Held → Prop} {r : Except Holdings (Held × Holdings)}
    {f : Held × Holdings → Except Holdings (Held × Holdings)} (hr : Launched x l w₀ inv r)
    (hf : ∀ c w, Holding x c w₀ w → c.toLaunch = l → inv c → Launched x l w₀ inv' (f (c, w))) :
    Launched x l w₀ inv' (r >>= f) := by
  match r, hr with
  | .error w, hr => exact hr
  | .ok (c, w), ⟨hholding, hlaunch, hinv⟩ => exact hf c w hholding hlaunch hinv

/-- The aliases of the start are held, or given back with the first that is refused. -/
theorem Ready.holdAliases (h : Ready x l w) (ha : Answered a l) :
    Launched x l w (fun c => c.counted = false ∧ c.dedupKeys = if x.bridge then [] else c.keys)
      (holdAliases x a l (receive x l w)) := by
  have haliases : (receive x l w).aliases = w.aliases := by
    rw [receive]
    split <;> rfl
  rw [Chain.holdAliases, haliases]
  by_cases hx : x.aliases
  · have hrows : ∀ row ∈ (recordUnique l.instanceId l.uniqueAliases w.aliases).2,
        row ∈ w.aliases ∨ (!l.uniqueAliases.isEmpty && x.aliases) := by
      intro row hrow
      refine (mem_recordUnique hrow).imp_right fun hne => ?_
      simp [hx, hne]
    have hholding := h.holding (!l.uniqueAliases.isEmpty) hrows
    rw [if_pos hx]
    by_cases hfree : (recordUnique l.instanceId l.uniqueAliases w.aliases).1
    · rw [if_pos hfree]
      exact ⟨hholding, rfl, rfl, rfl⟩
    · rw [if_neg hfree]
      exact hholding.giveUp ha (.inl rfl)
  · rw [if_neg hx]
    refine ⟨?_, rfl, rfl, rfl⟩
    have hrows : ∀ row ∈ w.aliases, row ∈ w.aliases ∨ (false && x.aliases) :=
      fun row hrow => .inl hrow
    have hholding := h.holding false hrows
    rwa [← haliases] at hholding

theorem Holding.beginInlineChain (h : Holding x c w₀ w) (ha : Answered a c.toLaunch)
    (hkeys : c.dedupKeys = if x.bridge then [] else c.keys) :
    Launched x c.toLaunch w₀ (fun c => ∀ k ∈ c.keys, k ∈ c.dedupKeys)
      (beginInlineChain x a c w) := by
  rw [Chain.beginInlineChain]
  split
  · rename_i hneeded
    have hx : x.bridge := (Bool.and_eq_true_iff.mp hneeded).1
    rw [hx, if_pos rfl] at hkeys
    split
    · rename_i hrecord
      obtain ⟨-, hfresh⟩ := Bool.and_eq_true_iff.mp hrecord
      refine ⟨{ h with
        owned := fun k hk => ⟨hk, by simp [show k ∈ c.keys from hk], ?_⟩
        unowned := fun k hk hnot => absurd hk hnot
        marker := rfl
        live := fun _ => ⟨rfl, hx⟩
        marked := fun _ _ => rfl }, rfl, fun k hk => hk⟩
      -- nobody had recorded the key, and the chain had not either
      have hnew : w.inbox k = false := by simpa using all_eq_true.mp hfresh k hk
      rw [← h.unowned k hk (by rw [hkeys]; exact not_mem_nil)]
      exact hnew
    · exact h.giveUp ha (.inl rfl)
  · rename_i hnot
    refine ⟨h, rfl, fun k hk => ?_⟩
    rw [hkeys]
    split
    · rename_i hx
      have hempty : c.keys = [] := by
        by_contra hne
        simp [hx, hne] at hnot
      rw [hempty] at hk
      cases hk
    · exact hk

/-- **A launch that is refused has given back what it took**, and one that is not holds it. -/
theorem Ready.launch (h : Ready x l w) (ha : Answered a l) (calls : Bool) :
    Launched x l w (fun c => ∀ k ∈ c.keys, k ∈ c.dedupKeys)
      (launchInlineChain x a l (receive x l w) calls) := by
  rw [launchInlineChain]
  refine (h.holdAliases ha).bind fun c w₁ hholding hlaunch ⟨hcounted, hkeys⟩ => ?_
  subst hlaunch
  refine ((hholding.holdSlots hcounted).beginInlineChain ha hkeys).bind
    fun c' w₂ hholding' hlaunch' hall => ?_
  cases calls with
  | true => exact ⟨hholding', hlaunch', hall⟩
  | false =>
    have hgiven := @Holding.giveUp x a c' .aborted w w₂ hholding' (hlaunch'.symm ▸ ha) (.inl rfl)
    rw [hlaunch'] at hgiven
    exact hgiven

end Lemmas

/-! ## A chain gives back what it held -/

/-- **A chain gives back what it held.**  Whatever refuses it at the launch and whatever pass ends
it, no hold of the lane, no alias and no claim is left, a slot is left only with a stored instance
that can be resumed, and the dedup rows of the delivery are there exactly if its effects or a failed
state were committed or a marker names them. -/
theorem chain_gives_back {x : Wiring} {a : Answers} {c : Launch} {calls : Bool}
    {arrivals : List Arrival} {w w' : Holdings} {committed : Bool} (hready : Ready x c w)
    (hanswered : Answered a c) (hpass : ∀ r ∈ arrivals, ∃ p, r = .pass p)
    (hend : runChain x a c calls arrivals w = some (w', committed)) :
    GivenBack c w w' committed := by
  have hlaunch := hready.launch hanswered calls
  rw [runChain] at hend
  cases hl : launchInlineChain x a c (receive x c w) calls with
  | error w₁ =>
    rw [hl] at hlaunch hend
    cases hend
    exact hlaunch
  | ok held =>
    obtain ⟨h, w₁⟩ := held
    rw [hl] at hlaunch hend
    obtain ⟨hholding, rfl, hall⟩ := hlaunch
    exact hholding.run hanswered hall hpass hend

def allWired : Wiring := ⟨true, true, true, true, true, true⟩

def allAnswered : Answers :=
  ⟨true, true, .committed, .marked, fun _ => true, .committed, true, true, true⟩

/-- A start on a channel with a limit, with a unique alias. -/
def orderChain : Launch := ⟨"d", "i", none, [("order", "7")], true, true, [("in", "e1")]⟩

/-- A pool slot is taken at the start, and nothing else. -/
def orderStart : Holdings :=
  ⟨false, [], fun _ => false, false, true, fun _ => false, none, false, false⟩

theorem orderStart_ready : Ready allWired orderChain orderStart :=
  ⟨nofun, rfl, rfl, nofun, fun _ => ⟨rfl, rfl⟩, nofun, nofun⟩

theorem allAnswered_all (c : Launch) : Answered allAnswered c :=
  ⟨rfl, rfl, rfl, rfl, nofun, fun _ => rfl, .inl fun _ _ => rfl⟩

theorem order_failed_gives_back : ∃ w',
    runChain allWired allAnswered orderChain true [.pass .more, .pass .fail] orderStart =
        some (w', false) ∧ w'.admission = false ∧ w'.aliases = [] ∧ w'.inbox ("in", "e1") = false ∧
      GivenBack orderChain orderStart w' false := by
  have hpass : ∀ r ∈ [Arrival.pass .more, .pass .fail], ∃ p, r = .pass p := by simp
  have hend : runChain allWired allAnswered orderChain true [.pass .more, .pass .fail] orderStart =
      some (_, false) := rfl
  exact ⟨_, hend, rfl, rfl, rfl, chain_gives_back orderStart_ready (allAnswered_all _) hpass hend⟩

/-- A relay to a stored instance, with its claim. -/
def storedChain : Launch := ⟨"d", "i", some "d", [], false, false, [("in", "e2")]⟩

def storedStart : Holdings :=
  ⟨false, [], fun s => s = "d", false, false, fun _ => false, none, false, true⟩

/-- **The exits of the task that makes the calls release nothing.**  When the task of a call fails,
a start keeps its alias and its slots without ever having been stored, and a stored instance stays
held and claimed. A failed state that could not be committed keeps the dedup row without a marker.
-/
theorem router_exit_keeps :
    (∃ w', runChain allWired allAnswered orderChain true [.callTaskFailed] orderStart =
        some (w', false) ∧ ⟨"i", "order", "7"⟩ ∈ w'.aliases ∧ w'.admission = true ∧
        w'.pools = true ∧ w'.frontier = false ∧ ¬ GivenBack orderChain orderStart w' false) ∧
    (∃ w', runChain allWired allAnswered storedChain true [.callTaskFailed] storedStart =
        some (w', false) ∧ w'.inlineHeld = true ∧ w'.claims "d" = true ∧
        ¬ GivenBack storedChain storedStart w' false) ∧
    ∃ w', runChain allWired { allAnswered with failed := .refused false } storedChain true
          [.pass .fail] storedStart = some (w', false) ∧ w'.inbox ("in", "e2") = true ∧
        w'.marker = none ∧ ¬ GivenBack storedChain storedStart w' false := by
  refine ⟨⟨_, rfl, mem_singleton.mpr rfl, rfl, rfl, rfl, fun h => ?_⟩,
    ⟨_, rfl, rfl, by decide, fun h => ?_⟩, ⟨_, rfl, rfl, rfl, fun h => ?_⟩⟩
  · cases h.admission rfl
  · cases (h.lane rfl).2
  · have hrecord := (h.record ("in", "e2") (.head _)).mp rfl
    rcases hrecord with hrecord | hrecord | ⟨ks, hks, -⟩
    · cases hrecord
    · cases hrecord
    · cases hks

end Sutra.Chain
