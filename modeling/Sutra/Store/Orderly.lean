import Sutra.Store.System

/-!
# One writer at a time

A step commits with an unconditional upsert, and the claim is a column that the commit never looks
at. What keeps a lane from committing over a successor or over a cancel is timing.

* `Calm`: the sweeper spares the lanes that are at work, and a cancel does not overlap with a step.
* `committed_in_one_chain`: then every commit builds on the one before it.
-/

namespace Sutra.Store

open List Function Option Tables Sutra.Store.World

variable {B : Type} {e : Engine B}

/-! ## The condition and the invariant -/

/-- **Calm steps.**  The sweeper spares the lanes between claim and commit; no lane loads while a
cancel is under way, and no cancel takes a step while a lane works on a snapshot. -/
def Calm (e : Engine B) (a : World B) : Event B → Prop
  | .sweep => ∀ r o, a.tables.instanceState = some r → r.claimOwner = some o →
      r.lapsed e.claimTimeout a.now = true → (a.lanes o).busy = false
  | .load _ => ∀ k, a.cancels k = .idle
  | .cancelLoad _ | .cancelResolve _ | .cancelRetire _ | .cancelMark _ =>
      ∀ o, (a.lanes o).computing = false
  | _ => True

def Chain : List (Commit B) → Prop
  | [] => True
  | c :: rest =>
    (c.owner ≠ none → c.basis = rest.length ∧ c.source = rest.head?.bind (·.result) ∧
      c.held = true) ∧ Chain rest

/-- The instance has been there, and its row is gone or carries a final verdict. -/
def World.Finished (a : World B) : Prop :=
  a.history ≠ [] ∧ ∀ s, a.tables.stored = some s → s.status.finished = true

def Lane.basis : Lane B → Option (Stored B × Nat)
  | .loaded _ s n | .computed _ s n _ => some (s, n)
  | .idle | .denied _ | .claimed _ | .releasing => none

theorem Lane.computing_of_basis {l : Lane B} {s : Stored B} {n : Nat}
    (h : l.basis = some (s, n)) : l.computing := by
  cases l with
  | loaded => rfl
  | computed => rfl
  | _ => exact nomatch h

theorem Lane.busy_of_computing {l : Lane B} (h : l.computing) : l.busy := by
  cases l with
  | loaded => rfl
  | computed => rfl
  | _ => exact nomatch h

def Cancel.Done (t : Tables B) : Cancel B → Prop
  | .idle | .loaded _ => True
  | .resolved _ => ∀ n, ¬ t.WaitingAt n
  | .retired _ => t.Quiet

/-- **The invariant of calm runs.** -/
structure Orderly (a : World B) : Prop where
  chain : Chain a.history
  last : a.tables.stored = a.history.head?.bind (·.result)
  atWork : ∀ o s n, (a.lanes o).basis = some (s, n) →
    a.tables.owner = some o ∧ a.tables.stored = some s ∧ n = a.history.length ∧
      s.status = .suspended ∧ ∀ k, a.cancels k = .idle
  claimed : ∀ o w, a.lanes o = .claimed w → a.tables.owner = some o ∨ a.Finished
  begun : ∀ o, a.lanes o ≠ .idle → a.history ≠ []
  cancel : ∀ k, a.cancels k ≠ .idle → a.history ≠ [] ∧ (a.cancels k).Done a.tables
  quiet : a.Finished → a.tables.Quiet

theorem Engine.suspended_of_go {s : Stored B} {w : Work} (h : e.verdict s w = .go) :
    s.status = .suspended := by
  by_contra hne
  cases w with
  | relay | timer =>
    rw [Engine.verdict] at h
    simp only [ne_eq, hne, not_false_eq_true, if_true] at h
    exact nomatch h

theorem orderly_init : Orderly (init : World B) where
  chain := trivial
  last := rfl
  atWork := nofun
  claimed := nofun
  begun := fun _ h => absurd rfl h
  cancel := fun _ h => absurd rfl h
  quiet := fun h => absurd rfl h.1

namespace World

variable (a : World B)

/-! ## What the small updates leave alone -/

@[simp] theorem setLane_tables (o : String) (l : Lane B) : (a.setLane o l).tables = a.tables := rfl

@[simp] theorem setLane_lanes (o : String) (l : Lane B) :
    (a.setLane o l).lanes = update a.lanes o l := rfl

/-- Everything but the pollers and the clock is the same. -/
structure SameRows (b : World B) : Prop where
  tables : b.tables = a.tables
  lanes : b.lanes = a.lanes
  cancels : b.cancels = a.cancels
  history : b.history = a.history

theorem sameRows_answer (w : Work) (f : DueTimer → Poller) : a.SameRows (a.answer w f) := by
  cases w with
  | relay n => exact ⟨rfl, rfl, rfl, rfl⟩
  | timer p n =>
    rw [answer]
    split <;> exact ⟨rfl, rfl, rfl, rfl⟩

theorem sameRows_hand (o : String) (w : Work) : a.SameRows (a.hand o w) := by
  cases w with
  | relay n => exact ⟨rfl, rfl, rfl, rfl⟩
  | timer p n =>
    rw [hand]
    split <;> exact ⟨rfl, rfl, rfl, rfl⟩

theorem sameRows_answerLane (o : String) (f : DueTimer → Poller) :
    a.SameRows (a.answerLane o f) := by
  rw [answerLane]
  split
  · exact ⟨rfl, rfl, rfl, rfl⟩
  · exact a.sameRows_answer _ f

end World

namespace Orderly

variable {a b : World B} (h : Orderly a)

include h

/-- The invariant does not look at the pollers and the clock. -/
theorem sameRows (hab : a.SameRows b) : Orderly b := by
  obtain ⟨tables, now, lanes, cancels, pollers, history⟩ := b
  obtain ⟨rfl, rfl, rfl, rfl⟩ := hab
  exact ⟨h.chain, h.last, h.atWork, h.claimed, h.begun, h.cancel, h.quiet⟩

/-- A lane moves on, to a phase that meets the invariant. -/
theorem setLane (o : String) (l : Lane B)
    (hwork : ∀ s n, l.basis = some (s, n) → a.tables.owner = some o ∧ a.tables.stored = some s ∧
      n = a.history.length ∧ s.status = .suspended ∧ ∀ k, a.cancels k = .idle)
    (hclaimed : ∀ w, l = .claimed w → a.tables.owner = some o ∨ a.Finished)
    (hbegun : l ≠ .idle → a.history ≠ []) : Orderly (a.setLane o l) where
  chain := h.chain
  last := h.last
  atWork := (forall_update_iff a.lanes fun o' l' => ∀ s n, l'.basis = some (s, n) →
    a.tables.owner = some o' ∧ a.tables.stored = some s ∧ n = a.history.length ∧
      s.status = .suspended ∧ ∀ k, a.cancels k = .idle).mpr ⟨hwork, fun o' _ => h.atWork o'⟩
  claimed := (forall_update_iff a.lanes fun o' l' => ∀ w, l' = .claimed w →
    a.tables.owner = some o' ∨ a.Finished).mpr ⟨hclaimed, fun o' _ => h.claimed o'⟩
  begun := (forall_update_iff a.lanes fun _ l' => l' ≠ .idle → a.history ≠ []).mpr
    ⟨hbegun, fun o' _ => h.begun o'⟩
  cancel := h.cancel
  quiet := h.quiet

theorem rest (o : String) {l : Lane B} (hl : l.busy = false)
    (hbegun : l ≠ .idle → a.history ≠ []) : Orderly (a.setLane o l) := by
  refine h.setLane o l (fun s n hb => ?_) (fun w hw => ?_) hbegun
  · rw [Lane.busy_of_computing (Lane.computing_of_basis hb)] at hl
    exact nomatch hl
  · rw [hw] at hl
    exact nomatch hl

theorem setTables (t : Tables B) (hstored : t.stored = a.tables.stored)
    (howner : ∀ o, (a.lanes o).busy → a.tables.owner = some o → t.owner = some o)
    (hwait : ∀ n, t.WaitingAt n → a.tables.WaitingAt n)
    (halias : ∀ k, t.LiveAlias k → a.tables.LiveAlias k) : Orderly (a.setTables t) := by
  have hquiet : a.tables.Quiet → t.Quiet := fun hq =>
    ⟨fun n hn => hq.1 n (hwait n hn), fun k hk => hq.2 k (halias k hk)⟩
  have hfinished : (a.setTables t).Finished → a.Finished := fun hf =>
    ⟨hf.1, fun s hs => hf.2 s (hstored.trans hs)⟩
  have hfinished' : a.Finished → (a.setTables t).Finished := fun hf =>
    ⟨hf.1, fun s hs => hf.2 s (hstored.symm.trans hs)⟩
  refine ⟨h.chain, hstored.trans h.last, fun o s n hb => ?_, fun o w hc => ?_, h.begun,
    fun k hk => ?_, fun hf => hquiet (h.quiet (hfinished hf))⟩
  · obtain ⟨ho, hs, hrest⟩ := h.atWork o s n hb
    exact ⟨howner o (Lane.busy_of_computing (Lane.computing_of_basis hb)) ho, hstored.trans hs,
      hrest⟩
  · have hc : a.lanes o = .claimed w := hc
    refine (h.claimed o w hc).imp (fun ho => howner o ?_ ho) hfinished'
    rw [hc]
    rfl
  · obtain ⟨hne, hdone⟩ := h.cancel k hk
    refine ⟨hne, ?_⟩
    show (a.cancels k).Done t
    cases hc : a.cancels k with
    | idle => trivial
    | loaded s => trivial
    | resolved s =>
      rw [hc] at hdone
      exact fun n hn => hdone n (hwait n hn)
    | retired s =>
      rw [hc] at hdone
      exact hquiet hdone

theorem setRows (t : Tables B) (hrow : t.instanceState = a.tables.instanceState)
    (hwait : ∀ n, t.WaitingAt n → a.tables.WaitingAt n)
    (halias : ∀ k, t.LiveAlias k → a.tables.LiveAlias k) : Orderly (a.setTables t) := by
  refine h.setTables t ?_ (fun o _ ho => ?_) hwait halias
  · rw [Tables.stored, hrow, Tables.stored]
  · rw [Tables.owner, hrow]
    exact ho

theorem setCancel (k : Nat) (c : Cancel B) (hidle : c ≠ .idle → ∀ o, (a.lanes o).computing = false)
    (hdone : c ≠ .idle → a.history ≠ [] ∧ c.Done a.tables) : Orderly (a.setCancel k c) where
  chain := h.chain
  last := h.last
  atWork := fun o s n hb => by
    obtain ⟨ho, hs, hn, hstatus, hcancels⟩ := h.atWork o s n hb
    refine ⟨ho, hs, hn, hstatus, (forall_update_iff a.cancels fun _ c' => c' = .idle).mpr
      ⟨?_, fun k' _ => hcancels k'⟩⟩
    by_contra hc
    have hrest := hidle hc o
    rw [Lane.computing_of_basis (l := a.lanes o) hb] at hrest
    exact nomatch hrest
  claimed := h.claimed
  begun := h.begun
  cancel := (forall_update_iff a.cancels fun _ c' => c' ≠ .idle →
    a.history ≠ [] ∧ c'.Done a.tables).mpr ⟨hdone, fun k' _ => h.cancel k'⟩
  quiet := h.quiet

variable {n : Nat} {o : String} {s : Stored B}

theorem others_rest (hb : (a.lanes o).basis = some (s, n)) {o' : String} (hne : o' ≠ o) :
    (a.lanes o').busy = false := by
  obtain ⟨ho, hs, -, hstatus, -⟩ := h.atWork o s n hb
  have hother : a.tables.owner ≠ some o' := fun h' => hne (some.inj (h'.symm.trans ho))
  cases hl : a.lanes o' with
  | claimed w =>
    rcases h.claimed o' w hl with h' | hf
    · exact absurd h' hother
    · have hfin := hf.2 s hs
      rw [hstatus] at hfin
      exact nomatch hfin
  | loaded w s' n' | computed w s' n' out =>
    exact absurd (h.atWork o' s' n' (by rw [hl]; rfl)).1 hother
  | _ => rfl

theorem commitStep
    (hb : (a.lanes o).basis = some (s, n)) (t : Tables B) (parks : List String) {l : Lane B}
    (hl : l.busy = false) (hquiet : (∀ s', t.stored = some s' → s'.status.finished) → t.Quiet) :
    Orderly ((a.commit (some o) n (some s) t parks).setLane o l) := by
  obtain ⟨ho, hs, hn, -, hcancels⟩ := h.atWork o s n hb
  -- after the commit every lane rests
  have hrest : ∀ o', (((a.commit (some o) n (some s) t parks).setLane o l).lanes o').busy = false :=
    (forall_update_iff a.lanes fun _ l' => l'.busy = false).mpr
      ⟨hl, fun o' hne => h.others_rest hb hne⟩
  refine ⟨⟨fun _ => ⟨hn, hs.symm.trans h.last, ?_⟩, h.chain⟩, rfl, fun o' s' n' hb' => ?_,
    fun o' w hc => ?_, fun _ _ => cons_ne_nil _ _, fun k hk => absurd (hcancels k) hk,
    fun hf => hquiet hf.2⟩
  · show (a.tables.owner == some o)
    rw [ho]
    exact beq_self_eq_true _
  · have hbusy := hrest o'
    rw [Lane.busy_of_computing (Lane.computing_of_basis hb')] at hbusy
    exact nomatch hbusy
  · have hbusy := hrest o'
    rw [hc] at hbusy
    exact nomatch hbusy

theorem cancelMark {k : Nat} (hk : a.cancels k = .retired s)
    (hidle : ∀ o, (a.lanes o).computing = false) (retain : Bool) :
    Orderly ((a.commit none a.history.length (some s) (if retain then
      a.tables.markTerminal { s with status := .terminated } a.now
        else a.tables.delete) []).setCancel k .idle) := by
  have hne := (h.cancel k (by rw [hk]; exact nofun)).1
  have hdone := (h.cancel k (by rw [hk]; exact nofun)).2
  rw [hk] at hdone
  generalize ht : (if retain then a.tables.markTerminal { s with status := .terminated } a.now
    else a.tables.delete) = t
  have hrows : t.waitingEvent = a.tables.waitingEvent ∧ t.aliasIndex = a.tables.aliasIndex := by
    rw [← ht]
    cases retain <;> exact ⟨rfl, rfl⟩
  have hquiet : t.Quiet := by
    obtain ⟨hw, hl⟩ := hrows
    rw [Tables.Quiet]
    simp only [Tables.WaitingAt, Tables.LiveAlias, hw, hl]
    exact hdone
  have hfinished : ∀ s', t.stored = some s' → s'.status.finished := by
    intro s' hs'
    rw [← ht] at hs'
    cases retain with
    | false => exact nomatch hs'
    | true =>
      rw [if_pos rfl, stored_markTerminal] at hs'
      obtain ⟨-, -, rfl⟩ := map_eq_some_iff.mp hs'
      rfl
  refine ⟨⟨fun hn => absurd rfl hn, h.chain⟩, rfl, fun o s' n hb => ?_, fun o w _ => ?_,
    fun _ _ => cons_ne_nil _ _, fun k' hk' => ⟨cons_ne_nil _ _, ?_⟩, fun _ => hquiet⟩
  · have hrest := hidle o
    rw [Lane.computing_of_basis (l := a.lanes o) hb] at hrest
    exact nomatch hrest
  · exact .inr ⟨cons_ne_nil _ _, hfinished⟩
  · show ((update a.cancels k .idle) k').Done t
    cases (update a.cancels k .idle) k' with
    | idle => trivial
    | loaded s => trivial
    | resolved s => exact hquiet.1
    | retired s => exact hquiet

theorem sweep (hcalm : Calm e a .sweep) :
    Orderly (a.setTables (a.tables.sweepStuck e.claimTimeout a.now)) := by
  refine h.setTables _ (stored_sweepStuck _ _ _) (fun o hbusy ho => ?_) (fun _ h => h) fun _ h => h
  refine owner_sweepStuck _ _ _ ho fun r hr => ?_
  have howner : r.claimOwner = some o := by
    rw [Tables.owner, hr] at ho
    exact ho
  by_contra hlapsed
  have hrest := hcalm r o hr howner (eq_true_of_ne_false hlapsed)
  rw [hbusy] at hrest
  cases hrest

theorem claim (o : String) : Orderly (a.setTables (a.tables.claim o a.now)) :=
  h.setTables _ (stored_claim _ _ _) (fun _ _ ho => owner_claim_of_owner _ _ ho)
    (fun _ h => h) fun _ h => h

theorem release (hlane : a.lanes o = .releasing) : Orderly (a.setTables (a.tables.release o)) := by
  refine h.setTables _ (stored_release _ _) (fun o' hbusy ho => ?_) (fun _ h => h) fun _ h => h
  have hne : ¬ a.tables.owner = some o := by
    intro ho'
    obtain rfl : o = o' := some.inj (ho'.symm.trans ho)
    rw [hlane] at hbusy
    exact nomatch hbusy
  rw [owner_release, if_neg hne]
  exact ho

/-- The commit of a pass, whatever it came to. -/
theorem commitOutcome (hb : (a.lanes o).basis = some (s, n)) (w : Work) (out : Outcome B) :
    Orderly (a.commitOutcome e o w s n out) := by
  obtain ⟨-, hs, -, -, -⟩ := h.atWork o s n hb
  cases out with
  | repark x =>
    refine (h.commitStep hb _ _ rfl fun hf => ?_).sameRows (sameRows_answer _ w _)
    have hfin := hf x.snapshot (stored_commitStep _ o x)
    rw [x.suspended] at hfin
    exact nomatch hfin
  | complete =>
    exact (h.commitStep hb _ _ rfl fun _ => quiet_commitComplete _ _ _).sameRows
      (sameRows_answer _ w _)
  | fail =>
    refine (h.commitStep hb _ _ rfl fun hf => ?_).sameRows (sameRows_answer _ w _)
    exact nomatch hf { s with status := .failed } (by rw [stored_commitFailed, hs]; rfl)

theorem park (x : StepWrite B) (hnew : a.history = []) :
    Orderly (a.commit none 0 none (a.tables.writeStepWithTimers x) (a.tables.parks x)) := by
  have hidle : ∀ o, a.lanes o = .idle := fun o => by
    by_contra hne
    exact h.begun o hne hnew
  have hcancels : ∀ k, a.cancels k = .idle := fun k => by
    by_contra hne
    exact (h.cancel k hne).1 hnew
  refine ⟨⟨fun hn => absurd rfl hn, h.chain⟩, rfl, fun o s n hb => ?_, fun o w hc => ?_,
    fun _ _ => cons_ne_nil _ _, fun k hk => absurd (hcancels k) hk, fun hf => ?_⟩
  · have hb : (a.lanes o).basis = some (s, n) := hb
    rw [hidle o] at hb
    exact nomatch hb
  · have hc : a.lanes o = .claimed w := hc
    rw [hidle o] at hc
    exact nomatch hc
  · have hfin := hf.2 x.snapshot (stored_writeStepWithTimers _ x)
    rw [x.suspended] at hfin
    exact nomatch hfin

/-- **A calm step keeps the invariant.** -/
theorem step {x : Event B} (hstep : Step e a x b) (hcalm : Calm e a x) : Orderly b := by
  cases hstep with
  | park x hnew => exact h.park x hnew
  | tick | pollDue | pollStop => exact h.sameRows ⟨rfl, rfl, rfl, rfl⟩
  | granted o w hidle hnew hoffer hclaim =>
    have hclaimed := (h.claim o).setLane o (.claimed w) (nofun)
      (fun _ _ => .inl (owner_claim _ _ hclaim)) fun _ => hnew
    exact hclaimed.sameRows (sameRows_hand _ o w)
  | denied o w hidle hnew hoffer hclaim =>
    exact (h.rest o rfl fun _ => hnew).sameRows (sameRows_hand _ o w)
  | bounce o w hlane =>
    exact (h.rest o rfl fun hne => absurd rfl hne).sameRows (sameRows_answer _ w _)
  | goneRelay o n hlane hrow =>
    have hbegun := h.begun o (by rw [hlane]; exact nofun)
    refine h.setLane o _ (nofun) (fun _ _ => .inr ⟨hbegun, fun s hs => ?_⟩) fun _ => hbegun
    rw [hrow] at hs
    exact nomatch hs
  | goneTimer o p n hlane hrow =>
    exact (h.rest o rfl fun hne => absurd rfl hne).sameRows (sameRows_answer _ _ _)
  | missing o w hlane hrow | turnedAway o w s hlane hrow hgo =>
    have hbegun := h.begun o (by rw [hlane]; exact nofun)
    exact (h.rest o rfl fun _ => hbegun).sameRows (sameRows_answer _ w _)
  | load o w s hlane hrow hgo =>
    have hbegun := h.begun o (by rw [hlane]; exact nofun)
    have hstatus := Engine.suspended_of_go hgo
    refine h.setLane o _ (fun s' n hb => ?_) (nofun) fun _ => hbegun
    obtain ⟨rfl, rfl⟩ := Prod.mk.inj (some.inj hb)
    refine ⟨(h.claimed o w hlane).resolve_right fun hf => ?_, hrow, rfl, hstatus, hcalm⟩
    have hfin := hf.2 s hrow
    rw [hstatus] at hfin
    exact nomatch hfin
  | compute o w s basis out hlane hpass =>
    have hbegun := h.begun o (by rw [hlane]; exact nofun)
    have hwork := h.atWork o s basis (by rw [hlane]; rfl)
    refine h.setLane o _ (fun s' n hb => ?_) (nofun) fun _ => hbegun
    obtain ⟨rfl, rfl⟩ := Prod.mk.inj (some.inj hb)
    exact hwork
  | commit o w s basis out hlane =>
    exact h.commitOutcome (by rw [hlane]; rfl) w out
  | abort o hbusy =>
    have hbegun := h.begun o fun hidle => by rw [hidle] at hbusy; exact nomatch hbusy
    have hrows := sameRows_answerLane a o .failed
    exact (h.sameRows hrows).rest o rfl fun _ => hrows.history ▸ hbegun
  | release o hlane => exact (h.release hlane).rest o rfl fun hne => absurd rfl hne
  | crash o =>
    exact (h.sameRows (sameRows_answerLane a o _)).rest o rfl fun hne => absurd rfl hne
  | heartbeat o =>
    exact h.setTables _ (stored_heartbeat _ _ _)
      (fun o' _ ho => (owner_heartbeat _ _ _).trans ho) (fun _ h => h) fun _ h => h
  | refresh o hbusy => exact h.claim o
  | sweep => exact h.sweep hcalm
  | cancelLoad k s hidle hrow hlive =>
    refine h.setCancel k (.loaded s) (fun _ => hcalm) fun _ => ⟨fun hnil => ?_, trivial⟩
    rw [h.last, hnil] at hrow
    exact nomatch hrow
  | cancelResolve k s hk =>
    have hbegun := (h.cancel k (by rw [hk]; exact nofun)).1
    have hrows := h.setRows a.tables.resolveAll rfl
      (fun n hn => absurd hn (not_waitingAt_resolveAll _ n)) fun _ h => h
    exact hrows.setCancel k (.resolved s) (fun _ => hcalm)
      fun _ => ⟨hbegun, not_waitingAt_resolveAll _⟩
  | cancelRetire k s hk =>
    obtain ⟨hbegun, hdone⟩ := h.cancel k (by rw [hk]; exact nofun)
    rw [hk] at hdone
    have hrows := h.setRows a.tables.retire rfl (fun _ h => h)
      fun k hk => absurd hk (not_liveAlias_retire _ k)
    exact hrows.setCancel k (.retired s) (fun _ => hcalm)
      fun _ => ⟨hbegun, hdone, not_liveAlias_retire _⟩
  | cancelMark k s hk => exact h.cancelMark hk hcalm e.retain
  | cancelStop k => exact h.setCancel k .idle (fun hne => absurd rfl hne) fun hne => absurd rfl hne
  | pollResolve p d hp =>
    have hrows := h.setRows (a.tables.resolveNode d.nodeId) rfl
      (fun _ => waitingAt_of_resolveNode _) fun _ h => h
    exact hrows.sameRows ⟨rfl, rfl, rfl, rfl⟩
  | pollDefer p d hp =>
    have hrows := h.setRows (a.tables.deferTimer d.nodeId (d.polledAt + e.retryBackoff)) rfl
      (fun _ => waitingAt_of_deferTimer _) fun _ h => h
    exact hrows.sameRows ⟨rfl, rfl, rfl, rfl⟩

omit h in
/-- **Calm runs are orderly.** -/
theorem run {xs : List (Event B)} (h : Run (StepIf e (Calm e)) init xs a) : Orderly a :=
  h.invariant (fun _ _ _ _ hab ha => ha.step hab.1 hab.2) orderly_init

end Orderly

/-! ## The history of an instance -/

variable {l : List (Commit B)}

theorem Chain.basis_lt (h : Chain l) {c : Commit B} (hc : c ∈ l)
    (ho : c.owner ≠ none) : c.basis < l.length := by
  induction l with
  | nil => exact absurd hc not_mem_nil
  | cons d rest ih =>
    rcases mem_cons.mp hc with rfl | hc
    · rw [(h.1 ho).1]
      exact Nat.lt_succ_self _
    · exact Nat.lt_succ_of_lt (ih h.2 hc)

theorem Chain.nodup_basis (h : Chain l) :
    ((l.filter fun c => c.owner.isSome).map (·.basis)).Nodup := by
  induction l with
  | nil => exact nodup_nil
  | cons c rest ih =>
    cases ho : c.owner with
    | none => simpa [filter_cons, ho] using ih h.2
    | some o =>
      have hbasis := (h.1 (by rw [ho]; exact nofun)).1
      rw [filter_cons_of_pos (by rw [ho]; rfl), List.map_cons, nodup_cons]
      refine ⟨fun hmem => ?_, ih h.2⟩
      obtain ⟨d, hd, hdb⟩ := mem_map.mp hmem
      obtain ⟨hd, hdo⟩ := mem_filter.mp hd
      have hlt := h.2.basis_lt hd (isSome_iff_ne_none.mp hdo)
      rw [hdb, hbasis] at hlt
      exact Nat.lt_irrefl _ hlt

/-- **Steps commit in one chain.**  In every state that calm steps reach, each step was computed
from the snapshot that the commit before it left, under a claim that its owner still held, and no
snapshot was advanced twice. -/
theorem committed_in_one_chain {xs : List (Event B)} {a : World B}
    (h : Run (StepIf e (Calm e)) init xs a) :
    Chain a.history ∧ ((a.history.filter fun c => c.owner.isSome).map (·.basis)).Nodup :=
  ⟨(Orderly.run h).chain, (Orderly.run h).chain.nodup_basis⟩

/-! ## A swept lane -/

/-- An engine that accepts every work for a wait of the frontier, and passes in any way. -/
def anyPass (retain : Bool) : Engine Nat where
  retain := retain
  claimTimeout := 5
  retryBackoff := 1
  target := fun _ w => match w with
    | .relay n => some n
    | .timer _ n => some n
  refuses := fun _ _ => false
  unexpected := fun _ _ => false
  passes := fun _ _ _ => True

def atApproval : StepWrite Nat :=
  ⟨⟨.suspended, ["approval"], 0⟩, rfl, [], [("order", "7")], [], []⟩

def atShipment (body : Nat) : StepWrite Nat :=
  ⟨⟨.suspended, ["shipment"], body⟩, rfl, ["approval"], [], [], []⟩

theorem relay_commits : ∃ xs a, Run (StepIf (anyPass true) (Calm (anyPass true))) init xs a ∧
    a.history.map (·.basis) = [1, 0] ∧ Chain a.history := by
  have hrun : ∃ xs a, Run (StepIf (anyPass true) (Calm (anyPass true))) .init xs a ∧
      a.history.map (·.basis) = [1, 0] := by
    refine ⟨_, _, .cons (.mk (.park atApproval rfl) trivial)
      (.cons (.mk (.granted "a" (.relay "approval") rfl nofun trivial rfl) trivial)
      (.cons (.mk (.load "a" (.relay "approval") _ rfl rfl rfl) fun _ => rfl)
      (.cons (.mk (.compute "a" _ _ _ (.repark (atShipment 1)) rfl trivial) trivial)
      (.cons (.mk (.commit "a" _ _ _ _ rfl) trivial) (.nil _))))), rfl⟩
  obtain ⟨xs, a, h, hbasis⟩ := hrun
  exact ⟨xs, a, h, hbasis, (committed_in_one_chain h).1⟩

/-- The sweeper clears the claim of a lane at work; a second lane claims the instance, loads the
same snapshot and commits; then the first one commits over it. -/
theorem swept_owner_commits : ∃ xs a, Run (Step (anyPass true)) init xs a ∧
    a.history.map (·.owner) = [some "a", some "b", none] ∧
    a.history.map (·.basis) = [1, 1, 0] ∧ a.history.map (·.held) = [false, true, true] := by
  refine ⟨_, _, .cons (.park atApproval rfl)
    (.cons (.granted "a" (.relay "approval") rfl nofun trivial rfl)
    (.cons (.load "a" (.relay "approval") _ rfl rfl rfl)
    (.cons (.tick 6) (.cons .sweep
    (.cons (.granted "b" (.relay "approval") rfl nofun trivial rfl)
    (.cons (.load "b" (.relay "approval") _ rfl rfl rfl)
    (.cons (.compute "b" _ _ _ (.repark (atShipment 1)) rfl trivial)
    (.cons (.commit "b" _ _ _ _ rfl)
    (.cons (.compute "a" _ _ _ (.repark (atShipment 2)) rfl trivial)
    (.cons (.commit "a" _ _ _ _ rfl) (.nil _))))))))))), rfl, rfl, rfl⟩

end Sutra.Store
