import Sutra.Lib.Run
import Sutra.Lib.Text

/-!
# The sweep of in-flight chains

A synchronous chain keeps its instance in memory. Before its first call it records the dedup rows
of its delivery, with a marker that names them; its final step deletes the marker in its own
transaction. When the process dies in between, a sweep of another process finds the marker and gives
the delivery free again.

* `stranded`: what the sweep takes for stranded is a guess.
-/

namespace Sutra.Inflight

open Text List Function Option

/-! ## The state -/

/-- A dedup record: the channel and the event. -/
abbrev DedupKey := String × String

/-- How far a chain has come. -/
inductive Phase where
  | running
  /-- The transaction of its final step has failed. -/
  | failing
  | committed
  /-- It ended without a commit, or its process died. -/
  | ended
  deriving DecidableEq

structure Chain where
  inst : String
  keys : List DedupKey
  process : String
  counted : Bool
  phase : Phase

def Chain.Active (ch : Chain) : Prop := ch.phase = .running ∨ ch.phase = .failing

structure Marker where
  chain : Nat
  keys : List DedupKey
  holder : String
  startedAt : Nat

inductive Admission where
  | running
  | waiting
  deriving DecidableEq

structure AdmissionRow where
  status : Admission
  chain : Nat

/-- A row that a sweep has read and not released yet. -/
structure Scanned where
  chain : Nat
  inst : String
  keys : List DedupKey
  deriving DecidableEq

/-- The rows of one deployment and the processes that work on it. -/
structure World where
  chains : Nat → Option Chain
  inbox : DedupKey → Option Nat
  markers : String → Option Marker
  /-- The markers that a process has written and not cleared. -/
  live : String → String → Bool
  admission : String → Option AdmissionRow
  stored : String → Bool
  processes : String → Bool
  scanned : List Scanned
  now : Nat

namespace World

/-- No rows and no processes. -/
def initial : World :=
  ⟨fun _ => none, fun _ => none, fun _ => none, fun _ _ => false, fun _ => none, fun _ => false,
    fun _ => false, [], 0⟩

variable (w : World)

def setPhase (c : Nat) (phase : Phase) : World :=
  { w with chains := update w.chains c ((w.chains c).map fun ch => { ch with phase := phase }) }

def forgetLive (process inst : String) : World :=
  { w with live := fun p i => if p = process ∧ i = inst then false else w.live p i }

def clear (inst : String) : World := { w with markers := update w.markers inst none }

/-- Delete the marker on the transaction of a step: nothing happens unless the process knows it. -/
def clearIn (process inst : String) : World :=
  if w.live process inst then (w.clear inst).forgetLive process inst else w

def forget (keys : List DedupKey) : World :=
  { w with inbox := fun k => if k ∈ keys then none else w.inbox k }

def forgetAdmission (inst : String) : World :=
  if (w.admission inst).map (·.status) = some .running ∧ w.stored inst = false then
    { w with admission := update w.admission inst none }
  else w

def crash (process : String) : World :=
  { w with
    processes := update w.processes process false
    chains := fun c => (w.chains c).map fun ch =>
      if ch.process = process ∧ (ch.phase = .running ∨ ch.phase = .failing) then
        { ch with phase := .ended }
      else ch }

def beginRecording (c : Nat) (ch : Chain) : World :=
  { w with
    chains := update w.chains c (some { ch with phase := .running })
    inbox := fun k => if k ∈ ch.keys then some c else w.inbox k
    markers := update w.markers ch.inst (some ⟨c, ch.keys, ch.process, w.now⟩)
    live := fun p i => if p = ch.process ∧ i = ch.inst then true else w.live p i
    admission :=
      if ch.counted then
        update w.admission ch.inst
          (if w.stored ch.inst then (w.admission ch.inst).map fun _ => ⟨.running, c⟩
            else some ⟨.running, c⟩)
      else w.admission }

def release (r : Scanned) : World :=
  { ((w.forget r.keys).forgetAdmission r.inst).clear r.inst with
    scanned := w.scanned.erase r }

end World

/-! ## The guess of the sweep -/

/-- The host of a replica id, which is the host, a process number and a random part. -/
def hostOf (holder : String) : String :=
  match holder.toList.reverse.dropWhile (· ≠ '-') with
  | [] => holder
  | _ :: rest =>
    match rest.dropWhile (· ≠ '-') with
    | [] => holder
    | _ :: host => String.ofList host.reverse

def stranded (sweeper : String) (maxAge now : Nat) (m : Marker) : Bool :=
  (startsWith (hostOf sweeper ++ "-") m.holder && m.holder ≠ sweeper) || m.startedAt + maxAge < now

/-! ## The steps -/

/-- What happens. -/
inductive Event where
  | start (process : String)
  | crash (process : String)
  | tick
  | begin (c : Nat)
  | commit (c : Nat)
  | commitFails (c : Nat)
  | abort (c : Nat)
  | scan (sweeper : String)
  | release (r : Scanned)

inductive Step (maxAge : Nat) : World → Event → World → Prop
  | start {w : World} {process : String} :
      Step maxAge w (.start process) { w with processes := update w.processes process true }
  | crash {w : World} {process : String} : Step maxAge w (.crash process) (w.crash process)
  | tick {w : World} : Step maxAge w .tick { w with now := w.now + 1 }
  | begin {w : World} {c : Nat} {ch : Chain} (hfresh : w.chains c = none)
      (hprocess : w.processes ch.process = true)
      (halone : ∀ c' ch', w.chains c' = some ch' → ch'.Active → ch'.process = ch.process →
        ch'.inst ≠ ch.inst)
      (hkeys : ∀ k ∈ ch.keys, w.inbox k = none) :
      Step maxAge w (.begin c) (w.beginRecording c ch)
  | commit {w : World} {c : Nat} {ch : Chain} (stored : Bool) (admission : Option Admission)
      (hchain : w.chains c = some ch) (hphase : ch.phase = .running) :
      Step maxAge w (.commit c)
        { (w.setPhase c .committed).clearIn ch.process ch.inst with
          stored := update w.stored ch.inst stored
          admission := update w.admission ch.inst (admission.map fun a => ⟨a, c⟩) }
  /-- Its transaction fails, before or after the marker was taken off the process's list. -/
  | commitFails {w : World} {c : Nat} {ch : Chain} (reached : Bool) (hchain : w.chains c = some ch)
      (hphase : ch.phase = .running) :
      Step maxAge w (.commitFails c)
        (if reached then (w.setPhase c .failing).forgetLive ch.process ch.inst
          else w.setPhase c .failing)
  /-- A chain ends with nothing committed. It gives back dedup rows and deletes its marker, as far
  as the database lets it. -/
  | abort {w : World} {c : Nat} {ch : Chain} (given : List DedupKey) (cleared : Bool)
      (hchain : w.chains c = some ch) (hphase : ch.Active) (hgiven : ∀ k ∈ given, k ∈ ch.keys) :
      Step maxAge w (.abort c)
        (if cleared then ((w.setPhase c .ended).forget given).clearIn ch.process ch.inst
          else (w.setPhase c .ended).forget given)
  | scan {w : World} {sweeper : String} (rows : List (String × Marker))
      (hsweeper : w.processes sweeper = true)
      (hrows : ∀ r ∈ rows, w.markers r.1 = some r.2 ∧ stranded sweeper maxAge w.now r.2 = true) :
      Step maxAge w (.scan sweeper)
        { w with scanned := w.scanned ++ rows.map fun r => ⟨r.2.chain, r.1, r.2.keys⟩ }
  | release {w : World} {r : Scanned} (hr : r ∈ w.scanned) :
      Step maxAge w (.release r) (w.release r)

def SweepRight (maxAge : Nat) (w : World) : Event → Prop
  | .scan sweeper => ∀ i m, w.markers i = some m → stranded sweeper maxAge w.now m = true →
      w.processes m.holder = false
  | .release r => (∀ k ∈ r.keys, w.inbox k = none ∨ w.inbox k = some r.chain) ∧
      ∀ row, w.admission r.inst = some row → row.chain = r.chain
  | _ => True

def SoundStep (maxAge : Nat) (w : World) (x : Event) (w' : World) : Prop :=
  Step maxAge w x w' ∧ SweepRight maxAge w x

/-! ## The invariant -/

structure Sound (w : World) : Prop where
  owner : ∀ c ch, w.chains c = some ch → ch.phase ≠ .ended → ∀ k ∈ ch.keys, w.inbox k = some c
  marker : ∀ i m, w.markers i = some m → ∃ ch, w.chains m.chain = some ch ∧ ch.inst = i ∧
    ch.keys = m.keys ∧ ch.process = m.holder ∧ ch.phase ≠ .committed
  live : ∀ c ch, w.chains c = some ch → ch.phase = .running → w.live ch.process ch.inst = true
  alive : ∀ c ch, w.chains c = some ch → ch.Active → w.processes ch.process = true
  alone : ∀ c c' ch ch', w.chains c = some ch → w.chains c' = some ch' → ch.Active → ch'.Active →
    ch.process = ch'.process → ch.inst = ch'.inst → c = c'
  scanned : ∀ r ∈ w.scanned, ∃ ch, w.chains r.chain = some ch ∧ ch.inst = r.inst ∧
    ch.keys = r.keys ∧ ch.phase = .ended

variable {ch : Chain} {c maxAge : Nat} {w : World}

theorem Chain.Active.ne_ended (h : ch.Active) : ch.phase ≠ .ended := by
  rcases h with h | h <;> rw [h] <;> nofun

/-- A chain goes on: nothing but its phase changes, and it does not come back to life. -/
structure Chain.Onward (ch ch' : Chain) : Prop where
  same : ch'.inst = ch.inst ∧ ch'.keys = ch.keys ∧ ch'.process = ch.process
  ended : ch.phase = .ended → ch'.phase = .ended
  running : ch'.phase = .running → ch.phase = .running
  active : ch'.Active → ch.Active

theorem Chain.Onward.refl (ch : Chain) : ch.Onward ch := ⟨⟨rfl, rfl, rfl⟩, id, id, id⟩

theorem Chain.Active.onward (h : ch.Active) {phase : Phase} (hphase : phase ≠ .running) :
    ch.Onward { ch with phase := phase } :=
  ⟨⟨rfl, rfl, rfl⟩, fun he => absurd he h.ne_ended, fun hr => absurd hr hphase, fun _ => h⟩

theorem chains_setPhase {c' : Nat} {ch' : Chain} {phase : Phase}
    (h : (w.setPhase c phase).chains c' = some ch') :
    (c' = c ∧ ∃ ch, w.chains c = some ch ∧ ch' = { ch with phase := phase }) ∨
      (c' ≠ c ∧ w.chains c' = some ch') := by
  refine (update_eq_cases h).imp_left fun ⟨hc, h⟩ => ?_
  obtain ⟨ch, hch, rfl⟩ := map_eq_some_iff.mp h
  exact ⟨hc, ch, hch, rfl⟩

theorem chains_setPhase_self (phase : Phase) (h : w.chains c = some ch) :
    (w.setPhase c phase).chains c = some { ch with phase := phase } := by
  change update w.chains c _ c = _
  rw [update_self, h, map_some]

namespace Sound

variable {w : World}

theorem initial : Sound .initial where
  owner _ _ h := nomatch h
  marker _ _ h := nomatch h
  live _ _ h := nomatch h
  alive _ _ h := nomatch h
  alone _ _ _ _ h := nomatch h
  scanned _ h := nomatch h

variable (h : Sound w)

include h

theorem clear (inst : String) : Sound (w.clear inst) :=
  { h with
    marker := fun i m hm => by
      rcases update_eq_cases hm with ⟨-, ⟨⟩⟩ | ⟨-, hm⟩
      exact h.marker i m hm }

variable {ch : Chain} {c : Nat}

theorem advance {f : Nat → Chain → Chain} {processes : String → Bool}
    (hf : ∀ {c ch}, w.chains c = some ch → ch.Onward (f c ch))
    (hcommit : ∀ {c ch}, w.chains c = some ch → (f c ch).phase = .committed →
      ch.phase = .committed ∨ w.markers ch.inst = none)
    (halive : ∀ {c ch}, w.chains c = some ch → (f c ch).Active → processes ch.process) :
    Sound { w with chains := fun c => (w.chains c).map (f c), processes := processes } where
  owner c ch' hc hended k hk := by
    obtain ⟨ch, hch, rfl⟩ := map_eq_some_iff.mp hc
    rw [(hf hch).same.2.1] at hk
    exact h.owner c ch hch (fun he => hended ((hf hch).ended he)) k hk
  marker i m hm := by
    obtain ⟨ch, hch, rfl, hkeys, hholder, hne⟩ := h.marker i m hm
    obtain ⟨hinst', hkeys', hprocess'⟩ := (hf hch).same
    refine ⟨_, map_eq_some_iff.mpr ⟨ch, hch, rfl⟩, hinst', hkeys'.trans hkeys,
      hprocess'.trans hholder, fun hc => ?_⟩
    rcases hcommit hch hc with hc | hnone
    · exact hne hc
    · cases hnone.symm.trans hm
  live c ch' hc hr := by
    obtain ⟨ch, hch, rfl⟩ := map_eq_some_iff.mp hc
    rw [(hf hch).same.1, (hf hch).same.2.2]
    exact h.live c ch hch ((hf hch).running hr)
  alive c ch' hc ha := by
    obtain ⟨ch, hch, rfl⟩ := map_eq_some_iff.mp hc
    rw [(hf hch).same.2.2]
    exact halive hch ha
  alone c₁ c₂ ch₁' ch₂' h₁ h₂ ha₁ ha₂ hp hi := by
    obtain ⟨ch₁, hch₁, rfl⟩ := map_eq_some_iff.mp h₁
    obtain ⟨ch₂, hch₂, rfl⟩ := map_eq_some_iff.mp h₂
    rw [(hf hch₁).same.2.2, (hf hch₂).same.2.2] at hp
    rw [(hf hch₁).same.1, (hf hch₂).same.1] at hi
    exact h.alone c₁ c₂ ch₁ ch₂ hch₁ hch₂ ((hf hch₁).active ha₁) ((hf hch₂).active ha₂) hp hi
  scanned r hr := by
    obtain ⟨ch, hch, hinst, hkeys, hended⟩ := h.scanned r hr
    obtain ⟨hinst', hkeys', -⟩ := (hf hch).same
    exact ⟨_, map_eq_some_iff.mpr ⟨ch, hch, rfl⟩, hinst'.trans hinst, hkeys'.trans hkeys,
      (hf hch).ended hended⟩

theorem setPhase (hchain : w.chains c = some ch)
    (hactive : ch.Active) (phase : Phase) (hphase : phase ≠ .running)
    (hcommit : phase = .committed → w.markers ch.inst = none) : Sound (w.setPhase c phase) := by
  have hset : w.setPhase c phase = { w with chains := fun c' => (w.chains c').map fun ch' =>
      if c' = c then { ch' with phase := phase } else ch' } := by
    rw [World.setPhase]
    congr 1
    funext c'
    refine update_eq_of (fun hc => ?_) fun hc => ?_
    · simp only [hc, if_true]
    · simp only [hc, if_false, Option.map_id']
  have hsame : ∀ {c' ch'}, w.chains c' = some ch' → c' = c → ch' = ch := by
    rintro c' ch' hc' rfl
    exact some.inj (hc'.symm.trans hchain)
  rw [hset]
  refine h.advance (fun hc' => ?_) (fun hc' hp => ?_) fun hc' ha => ?_
  · split
    · exact (hsame hc' ‹_› ▸ hactive).onward hphase
    · exact .refl _
  · split at hp
    · exact .inr (hsame hc' ‹_› ▸ hcommit hp)
    · exact .inl hp
  · split at ha
    · exact h.alive _ _ hc' (hsame hc' ‹_› ▸ hactive)
    · exact h.alive _ _ hc' ha

variable {process : String} {maxAge : Nat}

theorem forgetLive {inst : String} (hnone : ∀ c ch, w.chains c = some ch → ch.phase = .running →
      ¬ (ch.process = process ∧ ch.inst = inst)) : Sound (w.forgetLive process inst) :=
  { h with
    live := fun c ch hc hrunning => by
      change (if ch.process = process ∧ ch.inst = inst then false else w.live _ _)
      rw [if_neg (hnone c ch hc hrunning)]
      exact h.live c ch hc hrunning }

theorem forget {keys : List DedupKey}
    (hended : ∀ k ∈ keys, ∀ c ch, w.inbox k = some c → w.chains c = some ch → ch.phase = .ended) :
    Sound (w.forget keys) :=
  { h with
    owner := fun c ch hc hne k hk => by
      have hown := h.owner c ch hc hne k hk
      change (if k ∈ keys then none else w.inbox k) = some c
      rw [if_neg fun hkeys => hne (hended k hkeys c ch hown hc)]
      exact hown }

theorem crash (process : String) : Sound (w.crash process) := by
  refine h.advance (fun hc => ?_) (fun hc hp => ?_) fun hc ha => ?_
  · split
    · rename_i hdies
      exact Chain.Active.onward hdies.2 nofun
    · exact .refl _
  · split at hp
    · cases hp
    · exact .inl hp
  · split at ha
    · exact absurd rfl ha.ne_ended
    · rename_i hlives
      exact update_eq_of (fun hp => absurd ⟨hp, ha⟩ hlives) fun _ => h.alive _ _ hc ha

theorem start (process : String) : Sound { w with processes := update w.processes process true } :=
  { h with
    alive := fun c ch hc ha => update_eq_of (fun _ => rfl) fun _ => h.alive c ch hc ha }

theorem beginRecording (hfresh : w.chains c = none) (hprocess : w.processes ch.process)
    (halone : ∀ c' ch', w.chains c' = some ch' → ch'.Active → ch'.process = ch.process →
      ch'.inst ≠ ch.inst)
    (hkeys : ∀ k ∈ ch.keys, w.inbox k = none) : Sound (w.beginRecording c ch) := by
  have hchains : ∀ {c' ch'}, (w.beginRecording c ch).chains c' = some ch' →
      (c' = c ∧ ch' = { ch with phase := .running }) ∨ (c' ≠ c ∧ w.chains c' = some ch') := by
    intro c' ch' hc'
    exact (update_eq_cases hc').imp_left (.imp_right fun h => (some.inj h).symm)
  have hold : ∀ {c' ch'}, w.chains c' = some ch' →
    (w.beginRecording c ch).chains c' = some ch' := by
    intro c' ch' hc'
    exact update_of_absent hfresh hc'
  refine ⟨fun c' ch' hc' hne k hk => ?_, fun i m hm => ?_, fun c' ch' hc' hr => ?_,
    fun c' ch' hc' ha => ?_, fun c₁ c₂ ch₁ ch₂ h₁ h₂ ha₁ ha₂ hp hi => ?_, fun r hr => ?_⟩
  · change (if k ∈ ch.keys then some c else w.inbox k) = some c'
    rcases hchains hc' with ⟨rfl, rfl⟩ | ⟨-, hc'⟩
    · exact if_pos hk
    · have hown := h.owner c' ch' hc' hne k hk
      rw [if_neg fun hkc => nomatch hown.symm.trans (hkeys k hkc)]
      exact hown
  · rcases update_eq_cases hm with ⟨hi, ⟨⟩⟩ | ⟨-, hm⟩
    · refine ⟨{ ch with phase := .running }, ?_, hi.symm, rfl, rfl, nofun⟩
      exact update_self _ _ _
    · obtain ⟨ch', hch', hrest⟩ := h.marker i m hm
      exact ⟨ch', hold hch', hrest⟩
  · change (if ch'.process = ch.process ∧ ch'.inst = ch.inst then true else w.live _ _)
    rcases hchains hc' with ⟨-, rfl⟩ | ⟨-, hc'⟩
    · exact if_pos ⟨rfl, rfl⟩
    · split
      · rfl
      · exact h.live c' ch' hc' hr
  · rcases hchains hc' with ⟨-, rfl⟩ | ⟨-, hc'⟩
    · exact hprocess
    · exact h.alive c' ch' hc' ha
  · rcases hchains h₁ with ⟨hc₁, heq₁⟩ | ⟨-, hc₁⟩ <;> rcases hchains h₂ with ⟨hc₂, heq₂⟩ | ⟨-, hc₂⟩
    · exact hc₁.trans hc₂.symm
    · rw [heq₁] at hp hi
      exact absurd hi.symm (halone c₂ ch₂ hc₂ ha₂ hp.symm)
    · rw [heq₂] at hp hi
      exact absurd hi (halone c₁ ch₁ hc₁ ha₁ hp)
    · exact h.alone c₁ c₂ ch₁ ch₂ hc₁ hc₂ ha₁ ha₂ hp hi
  · obtain ⟨ch', hch', hrest⟩ := h.scanned r hr
    exact ⟨ch', hold hch', hrest⟩

theorem none_running (hchain : w.chains c = some ch)
    (hactive : ch.Active) {phase : Phase} (hphase : phase ≠ .running) :
    ∀ c' ch', (w.setPhase c phase).chains c' = some ch' → ch'.phase = .running →
      ¬ (ch'.process = ch.process ∧ ch'.inst = ch.inst) := by
  intro c' ch' hc' hr hsame
  rcases chains_setPhase hc' with ⟨-, ch₀, -, rfl⟩ | ⟨hne, hc'⟩
  · exact hphase hr
  · exact hne (h.alone c' c ch' ch hc' hchain (.inl hr) hactive hsame.1 hsame.2)

/-- The final step of a chain leaves no marker of it. -/
theorem commit (hchain : w.chains c = some ch) (hphase : ch.phase = .running) :
    Sound ((w.setPhase c .committed).clearIn ch.process ch.inst) := by
  have hlive : (w.setPhase c .committed).live ch.process ch.inst := h.live c ch hchain hphase
  rw [World.clearIn, if_pos hlive]
  have hset := (h.clear ch.inst).setPhase hchain (.inl hphase) .committed nofun
    fun _ => update_self _ _ _
  exact hset.forgetLive (h.none_running hchain (.inl hphase) nofun)

theorem abort (hchain : w.chains c = some ch)
    (hactive : ch.Active) {given : List DedupKey} (hgiven : ∀ k ∈ given, k ∈ ch.keys) :
    Sound ((w.setPhase c .ended).forget given) := by
  refine (h.setPhase hchain hactive .ended nofun nofun).forget fun k hk c' ch' hk' hc' => ?_
  have hown := h.owner c ch hchain hactive.ne_ended k (hgiven k hk)
  cases hown.symm.trans hk'
  rw [chains_setPhase_self _ hchain] at hc'
  cases hc'
  rfl

theorem clearIn {inst : String} (hnone : ∀ c ch, w.chains c = some ch → ch.phase = .running →
      ¬ (ch.process = process ∧ ch.inst = inst)) : Sound (w.clearIn process inst) := by
  rw [World.clearIn]
  split
  · exact (h.clear inst).forgetLive hnone
  · exact h

theorem scan {sweeper : String} {rows : List (String × Marker)}
    (hrows : ∀ r ∈ rows, w.markers r.1 = some r.2 ∧ stranded sweeper maxAge w.now r.2)
    (hright : SweepRight maxAge w (.scan sweeper)) :
    Sound { w with scanned := w.scanned ++ rows.map fun r => ⟨r.2.chain, r.1, r.2.keys⟩ } :=
  { h with
    scanned := fun r hr => by
      rcases mem_append.mp hr with hr | hr
      · exact h.scanned r hr
      · obtain ⟨⟨i, m⟩, hmem, rfl⟩ := mem_map.mp hr
        obtain ⟨hm, hstranded⟩ := hrows _ hmem
        obtain ⟨ch, hch, hinst, hkeys, hholder, hne⟩ := h.marker i m hm
        refine ⟨ch, hch, hinst, hkeys, ?_⟩
        have hdead : ¬ ch.Active := by
          intro hactive
          have halive := h.alive m.chain ch hch hactive
          rw [hholder, hright i m hm hstranded] at halive
          cases halive
        cases hphase : ch.phase with
        | running => exact absurd (.inl hphase) hdead
        | failing => exact absurd (.inr hphase) hdead
        | committed => exact absurd hphase hne
        | ended => rfl }

theorem release {r : Scanned} (hr : r ∈ w.scanned)
    (hright : ∀ k ∈ r.keys, w.inbox k = none ∨ w.inbox k = some r.chain) : Sound (w.release r) := by
  have hforget : Sound (w.forget r.keys) := by
    refine h.forget fun k hk c ch hkc hc => ?_
    obtain ⟨ch₀, hch₀, -, -, hended⟩ := h.scanned r hr
    rcases hright k hk with hnone | hsome
    · cases hnone.symm.trans hkc
    · cases hsome.symm.trans hkc
      cases hch₀.symm.trans hc
      exact hended
  have hadmission : Sound ((w.forget r.keys).forgetAdmission r.inst) := by
    rw [World.forgetAdmission]
    split
    · exact { hforget with }
    · exact hforget
  have hclear := hadmission.clear r.inst
  refine { hclear with scanned := fun s hs => hclear.scanned s ?_ }
  have hscanned : (((w.forget r.keys).forgetAdmission r.inst).clear r.inst).scanned =
    w.scanned := by
    rw [World.forgetAdmission]
    split <;> rfl
  rw [hscanned]
  exact mem_of_mem_erase hs

omit h in
/-- **Every step in which a sweep is right keeps the invariant.** -/
theorem step {x : Event} {w' : World} (hstep : SoundStep maxAge w x w')
    (h : Sound w) : Sound w' := by
  obtain ⟨hstep, hright⟩ := hstep
  cases hstep with
  | start => exact h.start _
  | crash => exact h.crash _
  | tick => exact { h with }
  | begin hfresh hprocess halone hkeys => exact h.beginRecording hfresh hprocess halone hkeys
  | commit stored admission hchain hphase => exact { h.commit hchain hphase with }
  | commitFails reached hchain hphase =>
    have hset := h.setPhase hchain (.inl hphase) .failing nofun nofun
    split
    · exact hset.forgetLive (h.none_running hchain (.inl hphase) nofun)
    · exact hset
  | abort given cleared hchain hactive hgiven =>
    have habort := h.abort hchain hactive hgiven
    split
    · exact habort.clearIn (h.none_running hchain hactive nofun)
    · exact habort
  | scan rows _ hrows => exact h.scan hrows hright
  | release hr => exact h.release hr hright.1

omit h in
/-- **The invariant holds in every run in which the sweeps are right.** -/
theorem run {xs : List Event} (hrun : Run (SoundStep maxAge) .initial xs w) : Sound w :=
  hrun.invariant (fun _ _ _ _ hab h => h.step hab) .initial

end Sound

/-! ## Nothing ends the end of a chain -/

theorem ended_step {w' : World} {x : Event} (hstep : Step maxAge w x w')
    (hc : w.chains c = some ch) (hended : ch.phase = .ended) : w'.chains c = some ch := by
  -- the phase of a chain that can still do something changes, and no other's
  have hset : ∀ {c' ch'} (phase : Phase), w.chains c' = some ch' → ch'.Active →
      (w.setPhase c' phase).chains c = some ch := by
    intro c' ch' phase hc' hactive
    refine update_eq_of (fun heq => ?_) fun _ => hc
    rw [← heq, hc] at hc'
    cases hc'
    exact absurd hended hactive.ne_ended
  cases hstep with
  | start | tick | scan => exact hc
  | crash =>
    refine map_eq_some_iff.mpr ⟨ch, hc, if_neg fun hdies => ?_⟩
    exact Chain.Active.ne_ended hdies.2 hended
  | begin hfresh _ _ _ =>
    exact update_of_absent hfresh hc
  | commit stored admission hchain hphase =>
    have hchains := hset .committed hchain (.inl hphase)
    rw [World.clearIn]
    split <;> exact hchains
  | commitFails reached hchain hphase =>
    have hchains := hset .failing hchain (.inl hphase)
    split <;> exact hchains
  | abort given cleared hchain hactive hgiven =>
    have hchains := hset .ended hchain hactive
    rw [World.clearIn]
    split <;> [split; skip] <;> exact hchains
  | release hr =>
    change ((w.forget _).forgetAdmission _).chains c = _
    rw [World.forgetAdmission]
    split <;> exact hc

theorem ended_run {w' : World} {xs : List Event} (hrun : Run (Step maxAge) w xs w')
    (hc : w.chains c = some ch) (hended : ch.phase = .ended) : w'.chains c = some ch :=
  hrun.invariant (fun _ _ _ _ hab h => ended_step hab h hended) hc

/-! ## The sweep frees only dead work -/

/-- The chain has committed nothing and never will. -/
def Dead (maxAge : Nat) (w : World) (c : Nat) : Prop :=
  ∀ xs w', Run (Step maxAge) w xs w' → ∃ ch, w'.chains c = some ch ∧ ch.phase = .ended

theorem Sound.dead_of_scanned (h : Sound w) {r : Scanned}
    (hr : r ∈ w.scanned) : Dead maxAge (w.release r) r.chain := by
  intro xs w' hrun
  obtain ⟨ch, hch, -, -, hended⟩ := h.scanned r hr
  exact ⟨ch, ended_run hrun (ended_step (@Step.release maxAge w r hr) hch hended) hended, hended⟩

/-- **In every run in which the sweeps are right, a sweep deletes only the rows of chains that have
committed nothing and never will.**  The dedup rows of a chain that has committed stay, so that no
other chain begins with one of them. -/
theorem sweep_frees_only_dead_work {maxAge : Nat} {xs : List Event} {w : World}
    (hrun : Run (SoundStep maxAge) .initial xs w) :
    (∀ c ch, w.chains c = some ch → ch.phase = .committed → ∀ k ∈ ch.keys, w.inbox k = some c ∧
      ∀ c' w' ch', Step maxAge w (.begin c') w' → w'.chains c' = some ch' → k ∉ ch'.keys) ∧
    ∀ r w', SoundStep maxAge w (.release r) w' →
      (∀ k c, w.inbox k = some c → w'.inbox k = none → Dead maxAge w' c) ∧
      ∀ i row, w.admission i = some row → w'.admission i = none → Dead maxAge w' row.chain := by
  have h := Sound.run hrun
  refine ⟨fun c ch hc hphase k hk => ?_, fun r w' hstep => ?_⟩
  · have hown := h.owner c ch hc (by rw [hphase]; nofun) k hk
    refine ⟨hown, fun c' w' ch' hstep hc' hk' => ?_⟩
    cases hstep with
    | begin hfresh hprocess halone hkeys =>
      change update w.chains c' _ c' = _ at hc'
      rw [update_self] at hc'
      cases hc'
      cases hown.symm.trans (hkeys k hk')
  · obtain ⟨hstep, hright⟩ := hstep
    cases hstep with
    | release hr =>
      have hinbox : ∀ k, (w.release r).inbox k = if k ∈ r.keys then none else w.inbox k := by
        intro k
        change ((w.forget r.keys).forgetAdmission r.inst).inbox k = _
        rw [World.forgetAdmission]
        split <;> rfl
      have hadmission : ∀ i, i ≠ r.inst → (w.release r).admission i = w.admission i := by
        intro i hi
        change ((w.forget r.keys).forgetAdmission r.inst).admission i = _
        rw [World.forgetAdmission]
        split
        · exact update_of_ne hi _ _
        · rfl
      refine ⟨fun k c hk hgone => ?_, fun i row hrow hgone => ?_⟩
      · rw [hinbox] at hgone
        split at hgone
        · rename_i hmem
          rcases hright.1 k hmem with hnone | hsome
          · cases hnone.symm.trans hk
          · cases hsome.symm.trans hk
            exact h.dead_of_scanned hr
        · cases hgone.symm.trans hk
      · by_cases hi : i = r.inst
        · rw [hi] at hrow
          rw [hright.2 row hrow]
          exact h.dead_of_scanned hr
        · rw [hadmission i hi] at hgone
          cases hgone.symm.trans hrow

def lostChain : Chain := ⟨"i", [("in", "e1")], "app-1-aa", true, .running⟩

def lostWorld : World :=
  let w := (World.beginRecording { World.initial with
    processes := update World.initial.processes "app-1-aa" true } 0 lostChain).crash "app-1-aa"
  { w with processes := update w.processes "app-9-bb" true }

/-- The rows of a chain whose process died are released by the next process of the host. -/
theorem lost_chain_released :
    ∃ xs w r w', Run (SoundStep 60) .initial xs w ∧ SoundStep 60 w (.release r) w' ∧
      w.inbox ("in", "e1") = some 0 ∧ w'.inbox ("in", "e1") = none ∧
      w'.admission "i" = none ∧ Dead 60 w' 0 := by
  have hscan : stranded "app-9-bb" 60 0 ⟨0, [("in", "e1")], "app-1-aa", 0⟩ := by
    decide
  have hmarker : ∀ i m, lostWorld.markers i = some m → m = ⟨0, [("in", "e1")], "app-1-aa", 0⟩ := by
    intro i m hm
    rcases update_eq_cases hm with ⟨-, h⟩ | ⟨-, ⟨⟩⟩
    exact (some.inj h).symm
  have hrun : Run (SoundStep 60) .initial [.start "app-1-aa", .begin 0, .crash "app-1-aa",
      .start "app-9-bb", .scan "app-9-bb"] _ :=
    .cons ⟨.start, trivial⟩ <|
    .cons ⟨@Step.begin 60 _ 0 lostChain rfl rfl (fun _ _ hc => (nomatch hc)) (fun _ _ => rfl),
      trivial⟩ <|
    .cons ⟨.crash, trivial⟩ <|
    .cons ⟨.start, trivial⟩ <|
    .cons ⟨@Step.scan 60 lostWorld "app-9-bb" [("i", ⟨0, [("in", "e1")], "app-1-aa", 0⟩)] rfl
        (fun r hr => by
          cases mem_singleton.mp hr
          exact ⟨rfl, hscan⟩),
      fun i m hm _ => by
        rw [hmarker i m hm]
        rfl⟩ <|
    .nil _
  have hrelease : SoundStep 60 _ (.release ⟨0, "i", [("in", "e1")]⟩) _ :=
    ⟨@Step.release 60 { lostWorld with scanned := [⟨0, "i", [("in", "e1")]⟩] } _
        (.head _), fun k hk => by
        cases mem_singleton.mp hk
        exact .inr rfl, fun row hrow => by
        cases hrow
        rfl⟩
  exact ⟨_, _, _, _, hrun, hrelease, rfl, rfl, rfl,
    ((sweep_frees_only_dead_work hrun).2 _ _ hrelease).1 ("in", "e1") 0 rfl rfl⟩

def neighbourChain : Chain := ⟨"i", [("in", "e1")], "app-2-7-bb", false, .running⟩

/-- A process of the host `app` takes the marker of a chain of the host `app-2` for stranded. The
chain commits before the release, and its dedup row is gone. -/
theorem swept_after_commit :
    ∃ xs w ch, Run (Step 60) .initial xs w ∧ w.chains 0 = some ch ∧ ch.phase = .committed ∧
      ("in", "e1") ∈ ch.keys ∧ w.inbox ("in", "e1") = none ∧ w.processes ch.process = true := by
  have hscan : stranded "app-1-aa" 60 0 ⟨0, [("in", "e1")], "app-2-7-bb", 0⟩ := by
    decide
  have hrun : Run (Step 60) .initial [.start "app-1-aa", .start "app-2-7-bb", .begin 0,
      .scan "app-1-aa", .commit 0, .release ⟨0, "i", [("in", "e1")]⟩] _ :=
    .cons .start <|
    .cons .start <|
    .cons (@Step.begin 60 _ 0 neighbourChain rfl rfl (fun _ _ hc => (nomatch hc))
      (fun _ _ => rfl)) <|
    .cons (@Step.scan 60 _ "app-1-aa" [("i", ⟨0, [("in", "e1")], "app-2-7-bb", 0⟩)] rfl
      (fun r hr => by
        cases mem_singleton.mp hr
        exact ⟨rfl, hscan⟩)) <|
    .cons (@Step.commit 60 _ 0 neighbourChain false none rfl rfl) <|
    .cons (@Step.release 60 _ ⟨0, "i", [("in", "e1")]⟩ (.head _)) <|
    .nil _
  exact ⟨_, _, _, hrun, rfl, rfl, .head _, rfl, rfl⟩

end Sutra.Inflight
