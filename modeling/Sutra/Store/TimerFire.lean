import Sutra.Store.Orderly

/-!
# Timers and the waits they were set for

A poller claims a due row by reading it. The row is named by its node alone, the claim commits
before the fire, and the fire, the resolve of a stale row and the deferral after an error all come
back to the node and not to the row that was read. In between a loop may have parked the same node
again.

A wait is the time from a commit that parks its node to the next one that does. While no commit
parks the node, the row keeps the due instant that the poller read, whether it is resolved meanwhile
or not.

* `Tables.setFor_commitStep`: a step keeps the timer columns of the nodes that it does not park.
* `Undisturbed`, `Punctual.step`, `Punctual.run`: the condition, and what it keeps.
* `timer_fires_for_its_own_wait`: the fire passed the frontier check, for the wait that was due when
  it was claimed; the follow-up of a poller is for the wait it claimed as well.
* `fired_early`: a loop that parks the node again.
-/

namespace Sutra.Store

open List Function Option Sutra.Store.World

variable {B : Type} {e : Engine B}

/-! ## Timer columns -/

namespace Tables

variable (t : Tables B)

def timerColumns (n : String) : Option (WaitKind × Option Instant) :=
  (t.waitingEvent n).map fun r => (r.kind, r.timerDueAt)

/-- The row, resolved or not, is of a timer that was set for the instant. -/
def SetFor (n : String) (due : Instant) : Prop := t.timerColumns n = some (.timer, some due)

variable {n : String} {due : Instant}

theorem setFor_of_pendingTimer (h : t.pendingTimer n = some due) : t.SetFor n due := by
  rw [pendingTimer] at h
  split at h
  · rename_i d hrow
    rw [SetFor, timerColumns, hrow, h]
    rfl
  · cases h

theorem SetFor.congr {t t' : Tables B} (h : t.SetFor n due)
    (hcol : t'.timerColumns n = t.timerColumns n) : t'.SetFor n due := hcol.trans h

@[simp] theorem timerColumns_resolveNode (m n : String) :
    (t.resolveNode m).timerColumns n = t.timerColumns n := by
  simp only [timerColumns, resolveNode]
  split
  · rw [Option.map_map]
    rfl
  · rfl

@[simp] theorem timerColumns_resolveAll (n : String) :
    t.resolveAll.timerColumns n = t.timerColumns n := by
  simp only [timerColumns, resolveAll, Option.map_map]
  rfl

variable {m : String} {w : StepWrite B}

theorem timerColumns_deferTimer (due : Instant) (h : n ≠ m) :
    (t.deferTimer m due).timerColumns n = t.timerColumns n := by
  simp only [timerColumns, deferTimer, if_neg h]

theorem timerColumns_setWait (r : WaitRow) (h : n ≠ m) :
    (t.setWait m r).timerColumns n = t.timerColumns n := by
  simp only [timerColumns, setWait, update_of_ne h]

theorem setFor_recordWaiting (m : String) (h : t.SetFor n due) :
    (t.recordWaiting m).SetFor n due := by
  by_cases hm : n = m
  · subst hm
    obtain ⟨r, hr, hcol⟩ := map_eq_some_iff.mp h
    rw [SetFor, recordWaiting, timerColumns, setWait, hr]
    simp only [update_self, map_some, hcol]
  · exact h.congr (t.timerColumns_setWait _ hm)

theorem setFor_recordStepWait {t₀ : Tables B} (hm : m ∈ w.waits) (hn : n ∉ t₀.parks w)
    (h : t.SetFor n due) : (recordStepWait w t m).SetFor n due := by
  rw [recordStepWait]
  split
  · rename_i hres
    refine h.congr (t.timerColumns_setWait _ fun hnm => hn ?_)
    exact mem_append_left _ (mem_filter.mpr ⟨hnm ▸ hm, decide_eq_true (.inl (hnm ▸ hres))⟩)
  · exact t.setFor_recordWaiting m h

theorem foldl_preserves {α : Type} {P : Tables B → Prop} {f : Tables B → α → Tables B} {l : List α}
    (h : ∀ t x, x ∈ l → P t → P (f t x)) {t : Tables B} (ht : P t) : P (l.foldl f t) := by
  induction l generalizing t with
  | nil => exact ht
  | cons x l ih =>
    exact ih (fun t y hy => h t y (mem_cons_of_mem x hy)) (h t x (.head _) ht)

/-- **A step keeps the timer columns of the nodes that it does not park.** -/
theorem setFor_commitStep (hn : n ∉ t.parks w) (h : t.SetFor n due) (o : String) :
    (t.commitStep w o).SetFor n due := by
  rw [commitStep]
  rw [writeStepWithTimers, writeStep]
  have hretire : (w.retiredAliases.foldl retireOne t).SetFor n due :=
    foldl_preserves (P := fun t => t.SetFor n due) (f := retireOne) (fun _ _ _ ht => ht) h
  have hresolve : (w.resolvedWaits.foldl resolveNode (w.retiredAliases.foldl retireOne t)).SetFor
      n due := foldl_preserves (P := fun t => t.SetFor n due)
    (fun t m _ ht => ht.congr (t.timerColumns_resolveNode m n)) hretire
  refine foldl_preserves (P := fun t => t.SetFor n due) (fun t timer htimer ht => ?_)
    (foldl_preserves (P := fun t => t.SetFor n due) (f := recordAlias) (fun _ _ _ ht => ht)
      (foldl_preserves (P := fun t => t.SetFor n due)
        (fun t m hm ht => t.setFor_recordStepWait hm hn ht) hresolve))
  refine ht.congr (t.timerColumns_setWait _ fun hnm => hn ?_)
  exact mem_append_right _ (mem_map.mpr ⟨timer, htimer, hnm.symm⟩)

theorem setFor_commitComplete (retain : Bool) (now : Instant)
    (h : t.SetFor n due) : (t.commitComplete retain now).SetFor n due := by
  refine h.congr ?_
  rw [commitComplete]
  refine (Tables.timerColumns_resolveAll _ n).trans ?_
  cases retain with
  | false => rfl
  | true =>
    cases hrow : t.instanceState with
    | none => simp only [if_true, timerColumns]
    | some r => rfl

theorem setFor_commitFailed (h : t.SetFor n due) :
    t.commitFailed.SetFor n due := by
  rw [commitFailed]
  cases t.instanceState with
  | none => exact h
  | some r => exact h.congr (Tables.timerColumns_resolveAll _ n)

end Tables

/-! ## The condition and the invariant -/

theorem Engine.waits_of_go {s : Stored B} {p : Nat} {n : String}
    (h : e.verdict s (.timer p n) = .go) :
    ∃ host ∈ s.waitingNodes, e.target s (.timer p n) = some host := by
  rw [Engine.verdict] at h
  split at h
  · cases h
  split at h
  · cases h
  split at h
  · cases h
  rename_i hwaits
  rw [Bool.not_eq_true', Bool.not_eq_false, Option.any_eq_true] at hwaits
  obtain ⟨host, htarget, hmem⟩ := hwaits
  exact ⟨host, contains_iff_mem.mp hmem, htarget⟩

/-- **Undisturbed steps.**  While a poller is not done with a row, no step but its own fire parks
the node again, and no other poller defers the row. -/
def Undisturbed (a : World B) : Event B → Prop
  | .commit o => ∀ w s basis x, a.lanes o = .computed w s basis (.repark x) →
      ∀ p d, (a.pollers p).row = some d → d.nodeId ∈ a.tables.parks x →
        ∃ n, w = .timer p n
  | .pollDefer p => ∀ d, (a.pollers p).row = some d → ∀ q d', q ≠ p →
      (a.pollers q).row = some d' → d'.nodeId ≠ d.nodeId
  | _ => True

/-- The row that a poller is to fire or is firing. -/
def Poller.armed : Poller → Option DueTimer
  | .holding d | .firing d _ => some d
  | .idle | .stale _ | .failed _ => none

theorem Poller.row_of_armed {x : Poller} {d : DueTimer} (h : x.armed = some d) :
    x.row = some d := by
  cases x with
  | holding => exact h
  | firing => exact h
  | _ => exact nomatch h

/-- The work and the snapshot of a lane that has passed the guards of a resume. -/
def Lane.passed : Lane B → Option (Work × Stored B)
  | .loaded w s _ | .computed w s _ _ => some (w, s)
  | .idle | .denied _ | .claimed _ | .releasing => none

theorem Lane.passed_of_work {l : Lane B} (h : l.work = none) : l.passed = none := by
  cases l with
  | idle | releasing => rfl
  | denied | claimed | loaded | computed => cases h

/-- **The invariant of undisturbed runs.** -/
structure Punctual (e : Engine B) (a : World B) : Prop where
  fresh : a.history = [] → ∀ n, a.tables.waitingEvent n = none
  begun : ∀ p d, (a.pollers p).row = some d → a.history ≠ []
  fires : ∀ o p n, (a.lanes o).work = some (.timer p n) →
    ∃ d, a.pollers p = .firing d o ∧ d.nodeId = n
  checked : ∀ o w s, (a.lanes o).passed = some (w, s) → e.verdict s w = .go
  due : ∀ p d, (a.pollers p).armed = some d → a.tables.SetFor d.nodeId d.dueAt
  clock : ∀ p d, (a.pollers p).row = some d → d.dueAt ≤ a.now ∧ d.seen ≤ a.history.length
  own : ∀ p d, (a.pollers p).row = some d →
    ∀ c ∈ a.history.take (a.history.length - d.seen), d.nodeId ∉ c.parks

theorem punctual_init : Punctual e (init : World B) where
  fresh := fun _ _ => rfl
  begun := nofun
  fires := nofun
  checked := nofun
  due := nofun
  clock := nofun
  own := nofun

namespace World

variable (a : World B)

theorem commit_setLane (owner : Option String) (basis : Nat) (source : Option (Stored B))
    (t : Tables B) (parks : List String) (o : String) (l : Lane B) :
    (a.commit owner basis source t parks).setLane o l
      = (a.setLane o l).commit owner basis source t parks := rfl

theorem commit_answer (owner : Option String) (basis : Nat) (source : Option (Stored B))
    (t : Tables B) (parks : List String) (w : Work) (f : DueTimer → Poller) :
    (a.commit owner basis source t parks).answer w f
      = (a.answer w f).commit owner basis source t parks := by
  cases w with
  | relay n => rfl
  | timer p n =>
    have hpoller : (a.commit owner basis source t parks).pollers p = a.pollers p := rfl
    rw [answer, answer, hpoller]
    cases a.pollers p <;> rfl

theorem answer_setLane (w : Work) (f : DueTimer → Poller) (o : String) (l : Lane B) :
    (a.answer w f).setLane o l = (a.setLane o l).answer w f := by
  cases w with
  | relay n => rfl
  | timer p n =>
    have hpoller : (a.setLane o l).pollers p = a.pollers p := rfl
    rw [answer, answer, hpoller]
    cases a.pollers p <;> rfl

end World

namespace Punctual

variable {a b : World B} (h : Punctual e a)

include h

theorem setLane (o : String) (l : Lane B)
    (hl : ∀ p n, l.work = some (.timer p n) → ∃ d, a.pollers p = .firing d o ∧ d.nodeId = n)
    (hgo : ∀ w s, l.passed = some (w, s) → e.verdict s w = .go) : Punctual e (a.setLane o l) where
  fresh := h.fresh
  begun := h.begun
  fires := (forall_update_iff a.lanes fun o' l' => ∀ p n, l'.work = some (.timer p n) →
    ∃ d, a.pollers p = .firing d o' ∧ d.nodeId = n).mpr ⟨hl, fun o' _ => h.fires o'⟩
  checked := (forall_update_iff a.lanes fun _ l' => ∀ w s, l'.passed = some (w, s) →
    e.verdict s w = .go).mpr ⟨hgo, fun o' _ => h.checked o'⟩
  due := h.due
  clock := h.clock
  own := h.own

theorem setPoller (p : Nat) (x : Poller) (hlanes : ∀ o n, (a.lanes o).work ≠ some (.timer p n))
    (harmed : ∀ d, x.armed = some d → (a.pollers p).armed = some d)
    (hrow : ∀ d, x.row = some d → (a.pollers p).row = some d) : Punctual e (a.setPoller p x) where
  fresh := h.fresh
  begun := (forall_update_iff a.pollers fun _ y => ∀ d, y.row = some d →
    a.history ≠ []).mpr ⟨fun d hd => h.begun p d (hrow d hd), fun q _ => h.begun q⟩
  fires := fun o q n hw => by
    have hne : q ≠ p := fun hqp => hlanes o n (hqp ▸ hw)
    obtain ⟨d, hd⟩ := h.fires o q n hw
    refine ⟨d, ?_, hd.2⟩
    exact (update_of_ne hne _ _).trans hd.1
  checked := h.checked
  due := (forall_update_iff a.pollers fun _ y => ∀ d, y.armed = some d →
    a.tables.SetFor d.nodeId d.dueAt).mpr ⟨fun d hd => h.due p d (harmed d hd), fun q _ => h.due q⟩
  clock := (forall_update_iff a.pollers fun _ y => ∀ d, y.row = some d →
    d.dueAt ≤ a.now ∧ d.seen ≤ a.history.length).mpr
      ⟨fun d hd => h.clock p d (hrow d hd), fun q _ => h.clock q⟩
  own := (forall_update_iff a.pollers fun _ y => ∀ d, y.row = some d →
    ∀ c ∈ a.history.take (a.history.length - d.seen), d.nodeId ∉ c.parks).mpr
      ⟨fun d hd => h.own p d (hrow d hd), fun q _ => h.own q⟩

theorem setTables (t : Tables B)
    (hfresh : (∀ n, a.tables.waitingEvent n = none) → ∀ n, t.waitingEvent n = none)
    (hdue : ∀ p d, (a.pollers p).armed = some d → a.tables.SetFor d.nodeId d.dueAt →
      t.SetFor d.nodeId d.dueAt) : Punctual e (a.setTables t) where
  fresh := fun hnil => hfresh (h.fresh hnil)
  begun := h.begun
  fires := h.fires
  checked := h.checked
  due := fun p d hd => hdue p d hd (h.due p d hd)
  clock := h.clock
  own := h.own

theorem setRow (t : Tables B) (hw : t.waitingEvent = a.tables.waitingEvent) :
    Punctual e (a.setTables t) := by
  refine h.setTables t (fun hn => by rw [hw]; exact hn) fun p d _ hd => hd.congr ?_
  rw [Tables.timerColumns, hw, Tables.timerColumns]

theorem commit (owner : Option String) (basis : Nat) (source : Option (Stored B))
    (t : Tables B) (parks : List String)
    (hdue : ∀ n due, n ∉ parks → a.tables.SetFor n due → t.SetFor n due)
    (hparks : ∀ p d, (a.pollers p).row = some d → d.nodeId ∉ parks) :
    Punctual e (a.commit owner basis source t parks) where
  fresh := fun hnil => absurd hnil (cons_ne_nil _ _)
  begun := fun _ _ _ => cons_ne_nil _ _
  fires := h.fires
  checked := h.checked
  due := fun p d hd => hdue _ _ (hparks p d (Poller.row_of_armed hd)) (h.due p d hd)
  clock := fun p d hd => ⟨(h.clock p d hd).1, Nat.le_succ_of_le (h.clock p d hd).2⟩
  own := fun p d hd c hc => by
    have hlen : (a.commit owner basis source t parks).history.length - d.seen
        = (a.history.length - d.seen) + 1 := Nat.succ_sub (h.clock p d hd).2
    rw [hlen, World.commit, take_succ_cons] at hc
    rcases mem_cons.mp hc with rfl | hc
    · exact hparks p d hd
    · exact h.own p d hd c hc

variable {l : Lane B} {o : String} {w : Work} {f : DueTimer → Poller} {p : Nat}

theorem take (hoffer : a.offers w) (hl : l.work = some w) (hnew : l.passed = none) :
    Punctual e ((a.setLane o l).hand o w) := by
  have hgo : ∀ w' s, l.passed = some (w', s) → e.verdict s w' = .go := fun w' s hw' => by
    rw [hnew] at hw'
    cases hw'
  cases w with
  | relay n =>
    refine h.setLane o l (fun p n hw => ?_) hgo
    rw [hl] at hw
    cases hw
  | timer p n =>
    obtain ⟨d, hd, rfl⟩ := hoffer
    have hhand : (a.setLane o l).hand o (.timer p d.nodeId)
        = (a.setPoller p (.firing d o)).setLane o l := by
      rw [hand]
      simp only [World.setLane, hd, World.setPoller]
    rw [hhand]
    have hlanes : ∀ o' n, (a.lanes o').work ≠ some (.timer p n) := fun o' n hw => by
      obtain ⟨d', hd', -⟩ := h.fires o' p n hw
      rw [hd] at hd'
      cases hd'
    refine (h.setPoller p (.firing d o) hlanes (fun d' hd' => ?_) fun d' hd' => ?_).setLane o l
      (fun q n hw => ?_) hgo
    · rw [hd]
      exact hd'
    · rw [hd]
      exact hd'
    · rw [hl] at hw
      obtain ⟨rfl, rfl⟩ := Work.timer.inj (some.inj hw)
      exact ⟨d, update_self _ _ _, rfl⟩

omit h in
theorem idle_settles (d : DueTimer) : ((fun _ => .idle : DueTimer → Poller) d).armed = none ∧
    ∀ d', ((fun _ => .idle : DueTimer → Poller) d).row = some d' → d' = d :=
  ⟨rfl, nofun⟩

omit h in
theorem stale_settles (d : DueTimer) : (Poller.stale d).armed = none ∧
    ∀ d', (Poller.stale d).row = some d' → d' = d :=
  ⟨rfl, fun _ hd => (some.inj hd).symm⟩

omit h in
theorem failed_settles (d : DueTimer) : (Poller.failed d).armed = none ∧
    ∀ d', (Poller.failed d).row = some d' → d' = d :=
  ⟨rfl, fun _ hd => (some.inj hd).symm⟩

theorem finish (hw : (a.lanes o).work = some w) (hl : l.work = none)
    (hf : ∀ d, (f d).armed = none ∧ ∀ d', (f d).row = some d' → d' = d) :
    Punctual e ((a.setLane o l).answer w f) := by
  have hrest : Punctual e (a.setLane o l) := h.setLane o l (fun p n hn => by
    rw [hl] at hn
    cases hn) fun w s hw => by
    rw [Lane.passed_of_work hl] at hw
    cases hw
  cases w with
  | relay n => exact hrest
  | timer p n =>
    obtain ⟨d, hd, rfl⟩ := h.fires o p n hw
    have hanswer : (a.setLane o l).answer (.timer p d.nodeId) f
        = (a.setLane o l).setPoller p (f d) := by
      rw [answer]
      simp only [World.setLane, hd]
    rw [hanswer]
    refine hrest.setPoller p (f d) (fun o' n hn => ?_) (fun d' hd' => ?_) fun d' hd' => ?_
    · -- the poller waits for this lane only
      by_cases ho : o' = o
      · subst ho
        rw [setLane_lanes, update_self, hl] at hn
        cases hn
      · rw [setLane_lanes, update_of_ne ho] at hn
        obtain ⟨d', hd', -⟩ := h.fires o' p n hn
        rw [hd] at hd'
        exact ho (Poller.firing.inj hd').2.symm
    · rw [(hf d).1] at hd'
      cases hd'
    · rw [(hf d).2 d' hd']
      exact congrArg Poller.row hd

theorem not_work (hp : ∀ d o, a.pollers p ≠ .firing d o) (o : String)
    (n : String) : (a.lanes o).work ≠ some (.timer p n) := fun hw => by
  obtain ⟨d, hd, -⟩ := h.fires o p n hw
  exact hp d o hd

theorem drop (hp : ∀ d o, a.pollers p ≠ .firing d o) : Punctual e (a.setPoller p .idle) :=
  h.setPoller p .idle (h.not_work hp) (nofun) nofun

theorem setCancel (k : Nat) (c : Cancel B) : Punctual e (a.setCancel k c) :=
  ⟨h.fresh, h.begun, h.fires, h.checked, h.due, h.clock, h.own⟩

theorem pollDue {n : String} {due : Instant}
    (hidle : a.pollers p = .idle) (hdue : a.tables.pendingTimer n = some due) (hnow : due ≤ a.now) :
    Punctual e (a.setPoller p (.holding ⟨n, due, a.now, a.history.length⟩)) := by
  have hset := a.tables.setFor_of_pendingTimer hdue
  have hbegun : a.history ≠ [] := fun hnil => by
    have hrow := hset
    rw [Tables.SetFor, Tables.timerColumns, h.fresh hnil n] at hrow
    cases hrow
  refine ⟨h.fresh, ?_, fun o q m hw => ?_, h.checked, ?_, ?_, ?_⟩
  · exact (forall_update_iff a.pollers fun _ y => ∀ d, y.row = some d →
      a.history ≠ []).mpr ⟨fun _ _ => hbegun, fun q _ => h.begun q⟩
  · obtain ⟨d, hd, hm⟩ := h.fires o q m hw
    have hne : q ≠ p := fun hqp => by
      rw [hqp, hidle] at hd
      exact nomatch hd
    refine ⟨d, ?_, hm⟩
    exact (update_of_ne hne _ _).trans hd
  · refine (forall_update_iff a.pollers fun _ y => ∀ d, y.armed = some d →
      a.tables.SetFor d.nodeId d.dueAt).mpr ⟨fun d hd => ?_, fun q _ => h.due q⟩
    obtain rfl := some.inj hd
    exact hset
  · refine (forall_update_iff a.pollers fun _ y => ∀ d, y.row = some d →
      d.dueAt ≤ a.now ∧ d.seen ≤ a.history.length).mpr ⟨fun d hd => ?_, fun q _ => h.clock q⟩
    obtain rfl := some.inj hd
    exact ⟨hnow, Nat.le_refl _⟩
  · refine (forall_update_iff a.pollers fun _ y => ∀ d, y.row = some d →
      ∀ c ∈ a.history.take (a.history.length - d.seen), d.nodeId ∉ c.parks).mpr
        ⟨fun d hd c hc => ?_, fun q _ => h.own q⟩
    obtain rfl := some.inj hd
    rw [Nat.sub_self] at hc
    exact absurd hc not_mem_nil

theorem stop (o : String) (hl : l.work = none)
    (hf : ∀ d, (f d).armed = none ∧ ∀ d', (f d).row = some d' → d' = d) :
    Punctual e ((a.answerLane o f).setLane o l) := by
  rw [answerLane]
  cases hw : (a.lanes o).work with
  | none =>
    refine h.setLane o l (fun p n hn => ?_) fun w s hp => ?_
    · rw [hl] at hn
      cases hn
    · rw [Lane.passed_of_work hl] at hp
      cases hp
  | some w =>
    rw [answer_setLane]
    exact h.finish hw hl hf

theorem row_of_finished (hw : (a.lanes o).work = some w) {d : DueTimer}
    (hd : ((((a.setLane o l).answer w fun _ => .idle)).pollers p).row = some d) :
    (a.pollers p).row = some d ∧ ∀ n, w ≠ .timer p n := by
  cases w with
  | relay n => exact ⟨hd, nofun⟩
  | timer q n =>
    obtain ⟨d', hd', -⟩ := h.fires o q n hw
    rw [answer, show (a.setLane o l).pollers q = a.pollers q from rfl, hd'] at hd
    rcases update_cases (Poller.row · = some d) hd with ⟨-, ⟨⟩⟩ | ⟨hpq, hd⟩
    exact ⟨hd, fun m hm => hpq (Work.timer.inj hm).1.symm⟩

/-- The commit of a pass parks only what its own poller is done with. -/
theorem commitOutcome {s : Stored B} {n : Nat}
    {out : Outcome B} (hlane : a.lanes o = .computed w s n out)
    (hcalm : Undisturbed a (.commit o)) : Punctual e (a.commitOutcome e o w s n out) := by
  have hw : (a.lanes o).work = some w := by rw [hlane]; rfl
  cases out with
  | repark x =>
    rw [World.commitOutcome, World.commit_setLane, World.commit_answer]
    refine (h.finish hw rfl idle_settles).commit _ _ _ _ _ (fun m i hm hd => ?_) fun p d hd hm => ?_
    · rw [(sameRows_answer _ w _).tables] at hd
      exact a.tables.setFor_commitStep hm hd o
    · obtain ⟨hrow, hother⟩ := h.row_of_finished hw hd
      obtain ⟨n', hn'⟩ := hcalm w s n x hlane p d hrow hm
      exact hother n' hn'
  | complete =>
    rw [World.commitOutcome, World.commit_setLane, World.commit_answer]
    refine (h.finish hw rfl idle_settles).commit _ _ _ _ _ (fun m i _ hd => ?_)
      fun _ _ _ => not_mem_nil
    rw [(sameRows_answer _ w _).tables] at hd
    exact a.tables.setFor_commitComplete _ _ hd
  | fail =>
    rw [World.commitOutcome, World.commit_setLane, World.commit_answer]
    refine (h.finish hw rfl failed_settles).commit _ _ _ _ _ (fun m i _ hd => ?_)
      fun _ _ _ => not_mem_nil
    rw [(sameRows_answer _ w _).tables] at hd
    exact a.tables.setFor_commitFailed hd

/-- **An undisturbed step keeps the invariant.** -/
theorem step {x : Event B} (hstep : Step e a x b) (hcalm : Undisturbed a x) : Punctual e b := by
  cases hstep with
  | park x hnew =>
    refine h.commit _ _ _ _ _ (fun n due _ hd => ?_) fun p d hd => absurd hnew (h.begun p d hd)
    rw [Tables.SetFor, Tables.timerColumns, h.fresh hnew n] at hd
    cases hd
  | tick dt =>
    exact ⟨h.fresh, h.begun, h.fires, h.checked, h.due,
      fun p d hd => ⟨Nat.le_add_right_of_le (h.clock p d hd).1, (h.clock p d hd).2⟩, h.own⟩
  | granted o w hidle hnew hoffer hclaim =>
    exact (h.setRow (a.tables.claim o a.now) rfl).take hoffer rfl rfl
  | denied o w hidle hnew hoffer hclaim => exact h.take hoffer rfl rfl
  | bounce o w hlane => exact h.finish (by rw [hlane]; rfl) rfl failed_settles
  | goneRelay o n hlane hrow =>
    exact h.setLane o _ (fun _ _ h => by cases h) fun _ _ h => by cases h
  | goneTimer o p n hlane hrow | missing o w hlane hrow =>
    exact h.finish (by rw [hlane]; rfl) rfl stale_settles
  | load o w s hlane hrow hgo =>
    refine h.setLane o _ (fun p n hw => h.fires o p n ?_) fun w' s' hp => ?_
    · rw [hlane]
      exact hw
    · cases hp
      exact hgo
  | compute o w s basis out hlane hpass =>
    refine h.setLane o _ (fun p n hw => h.fires o p n ?_) fun w' s' hp => h.checked o w' s' ?_
    · rw [hlane]
      exact hw
    · rw [hlane]
      exact hp
  | turnedAway o w s hlane hrow hgo =>
    refine h.finish (by rw [hlane]; rfl) rfl fun d => ?_
    split
    · exact stale_settles d
    · exact failed_settles d
  | commit o w s basis out hlane => exact h.commitOutcome hlane hcalm
  | abort o hbusy => exact h.stop o rfl failed_settles
  | release o hlane =>
    exact (h.setRow (a.tables.release o) rfl).setLane o .idle (fun _ _ h => by cases h)
      fun _ _ h => by cases h
  | crash o => exact h.stop o rfl idle_settles
  | heartbeat | refresh | sweep => exact h.setRow _ rfl
  | cancelLoad k s hidle hrow hlive | cancelStop k => exact h.setCancel k _
  | cancelResolve k s hk =>
    refine Punctual.setCancel (h.setTables _ (fun hn n => ?_) fun p d _ hd => ?_) k _
    · show (a.tables.waitingEvent n).map WaitRow.resolve = none
      rw [hn n]
      rfl
    · exact hd.congr (a.tables.timerColumns_resolveAll _)
  | cancelRetire k s hk => exact Punctual.setCancel (h.setRow a.tables.retire rfl) k _
  | cancelMark k s hk =>
    refine Punctual.setCancel (h.commit _ _ _ _ _ (fun n i _ hd => hd.congr ?_)
      fun _ _ _ => not_mem_nil) k _
    split <;> rfl
  | pollDue p n due hidle hdue hnow => exact h.pollDue hidle hdue hnow
  | pollResolve p d hp =>
    have htables := h.setTables (a.tables.resolveNode d.nodeId) (fun hn n => ?_) fun q d' _ hd' =>
      hd'.congr (a.tables.timerColumns_resolveNode _ _)
    · exact htables.drop fun d' o hf => by cases hp.symm.trans hf
    · simp only [Tables.resolveNode, hn, map_none, ite_self]
  | pollDefer p d hp =>
    have htables := h.setTables (a.tables.deferTimer d.nodeId (d.polledAt + e.retryBackoff))
      (fun hn n => ?_) fun q d' harmed hd' => hd'.congr (a.tables.timerColumns_deferTimer _ ?_)
    · exact htables.drop fun d' o hf => by cases hp.symm.trans hf
    · simp only [Tables.deferTimer, hn, map_none, ite_self]
    · refine hcalm d (by rw [hp]; rfl) q d' (fun hqp => ?_) (Poller.row_of_armed harmed)
      rw [hqp, hp] at harmed
      cases harmed
  | pollStop p hp => exact h.drop hp

omit h in
/-- **Undisturbed runs are punctual.** -/
theorem run {xs : List (Event B)} (h : Run (StepIf e Undisturbed) init xs a) : Punctual e a :=
  h.invariant (fun _ _ _ _ hab ha => ha.step hab.1 hab.2) punctual_init

end Punctual

/-- **A timer fires for its own wait, and not early.**  In every state that undisturbed steps reach:
a lane that is about to commit the fire of a timer found the host of the timer on the frontier of
the snapshot; the row is that of the wait which the poller claimed, set for an instant that has
passed, and no commit has parked the node since. Nor has one parked the node whose row a poller is
about to resolve or defer. -/
theorem timer_fires_for_its_own_wait {xs : List (Event B)} {a : World B}
    (h : Run (StepIf e Undisturbed) init xs a) :
    (∀ o p n s basis out, a.lanes o = .computed (.timer p n) s basis out →
      s.status = .suspended ∧ (∃ host ∈ s.waitingNodes, e.target s (.timer p n) = some host) ∧
      ∃ d, a.pollers p = .firing d o ∧ d.nodeId = n ∧ d.dueAt ≤ a.now ∧ a.tables.SetFor n d.dueAt ∧
        (∀ due, a.tables.pendingTimer n = some due → due ≤ a.now) ∧
        ∀ c ∈ a.history.take (a.history.length - d.seen), n ∉ c.parks) ∧
    ∀ p d, a.pollers p = .stale d ∨ a.pollers p = .failed d →
      ∀ c ∈ a.history.take (a.history.length - d.seen), d.nodeId ∉ c.parks := by
  have hp := Punctual.run h
  refine ⟨fun o p n s basis out hlane => ?_, fun p d hd => hp.own p d ?_⟩
  · have hgo := hp.checked o (.timer p n) s (by rw [hlane]; rfl)
    obtain ⟨d, hd, rfl⟩ := hp.fires o p n (by rw [hlane]; rfl)
    have hset := hp.due p d (by rw [hd]; rfl)
    have hle := (hp.clock p d (by rw [hd]; rfl)).1
    refine ⟨Engine.suspended_of_go hgo, Engine.waits_of_go hgo, d, hd, rfl, hle, hset,
      fun due hdue => ?_, hp.own p d (by rw [hd]; rfl)⟩
    cases (a.tables.setFor_of_pendingTimer hdue).symm.trans hset
    exact hle
  · rcases hd with hd | hd
    · rw [hd]
      rfl
    · rw [hd]
      rfl

/-! ## A loop that parks the timer again -/

def raceStarts : StepWrite Nat :=
  ⟨⟨.suspended, ["pause", "answer"], 0⟩, rfl, [], [], [("pause", 5)], []⟩

def raceAgain : StepWrite Nat :=
  ⟨⟨.suspended, ["pause", "answer"], 1⟩, rfl, ["answer", "pause"], [], [("pause", 100)], []⟩

def raceOver : StepWrite Nat := ⟨⟨.suspended, ["next"], 2⟩, rfl, ["pause", "answer"], [], [], []⟩

theorem pause_fires_when_due : ∃ xs a, Run (StepIf (anyPass true) Undisturbed) init xs a ∧
    (∃ s n out, a.lanes "a" = .computed (.timer 0 "pause") s n out ∧ "pause" ∈ s.waitingNodes) ∧
    ∃ due ≤ a.now, a.tables.SetFor "pause" due := by
  have hrun : ∃ xs a, Run (StepIf (anyPass true) Undisturbed) .init xs a ∧
      ∃ s n out, a.lanes "a" = .computed (.timer 0 "pause") s n out := by
    exact ⟨_, _, .cons (.mk (.park raceStarts rfl) trivial) (.cons (.mk (.tick 5) trivial)
      (.cons (.mk (.pollDue 0 "pause" 5 rfl rfl (Nat.le_refl 5)) trivial)
      (.cons (.mk (.granted "a" (.timer 0 "pause") rfl nofun ⟨_, rfl, rfl⟩ rfl) trivial)
      (.cons (.mk (.load "a" (.timer 0 "pause") _ rfl rfl rfl) trivial)
      (.cons (.mk (.compute "a" _ _ _ (.repark raceOver) rfl trivial) trivial) (.nil _)))))),
      _, _, _, rfl⟩
  obtain ⟨xs, a, h, s, n, out, hlane⟩ := hrun
  obtain ⟨-, ⟨host, hhost, htarget⟩, d, -, -, hle, hset, -⟩ :=
    (timer_fires_for_its_own_wait h).1 _ _ _ _ _ _ hlane
  cases htarget
  exact ⟨xs, a, h, ⟨s, n, out, hlane, hhost⟩, d.dueAt, hle, hset⟩

/-- The pause is claimed when it is due; before it fires, the answer starts the race again with a
pause that is due much later; the fire advances that one. -/
theorem fired_early : ∃ xs a, Run (Step (anyPass true)) init xs a ∧
    (∃ s n out, a.lanes "b" = .computed (.timer 0 "pause") s n out) ∧
    a.now = 5 ∧ a.tables.pendingTimer "pause" = some 100 := by
  exact ⟨_, _, .cons (.park raceStarts rfl) (.cons (.tick 5)
    (.cons (.pollDue 0 "pause" 5 rfl rfl (Nat.le_refl 5))
    (.cons (.granted "a" (.relay "answer") rfl nofun trivial rfl)
    (.cons (.load "a" (.relay "answer") _ rfl rfl rfl)
    (.cons (.compute "a" _ _ _ (.repark raceAgain) rfl trivial)
    (.cons (.commit "a" _ _ _ _ rfl)
    (.cons (.granted "b" (.timer 0 "pause") rfl nofun ⟨_, rfl, rfl⟩ rfl)
    (.cons (.load "b" (.timer 0 "pause") _ rfl rfl rfl)
    (.cons (.compute "b" _ _ _ (.repark raceOver) rfl trivial) (.nil _)))))))))),
    ⟨_, _, _, rfl⟩, rfl, rfl⟩

end Sutra.Store
