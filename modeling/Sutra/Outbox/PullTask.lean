import Mathlib
import Sutra.Lib.Run

/-!
# Tasks that workers pull

A delivery to a `pull://` destination is parked as a row. A worker fetches rows under a lock, and
completes or fails them. A completion is three transactions: it holds the lock until the default
duration from now, gives the result to the engine, and deletes the row whoever has it then. A
`World` takes one statement of one replica at a time; the clock readings do not decrease.

* `pulled_by_one_holder`: one holder at a time, and no row lost.
* `hour_cut_short`: the hold of a completion or of a failure may shorten a lock.
-/

namespace Sutra.PullTask

open Function

/-- A row of `external_task`. `lock` is its `lock_owner` and `lock_expires_at`, which are set and
cleared together. -/
structure Row where
  deployment : String
  outboxKey : String
  channel : String
  fetchableAt : Nat
  lock : Option (String × Nat)
  attemptCount : Nat
  retriesLeft : Int
  failed : Bool

structure Fetch where
  deployment : String
  channels : List String
  worker : String
  now : Nat
  lockExpiresAt : Nat

/-- What `SQL_FETCH_AND_LOCK` selects, as far as its limit goes and nobody else has the row. -/
def Row.fetchable (r : Row) (f : Fetch) : Bool :=
  r.deployment == f.deployment && !r.failed && f.channels.contains r.channel &&
    r.fetchableAt ≤ f.now && r.lock.all (·.2 ≤ f.now)

def Row.fetched (r : Row) (f : Fetch) : Row :=
  { r with lock := some (f.worker, f.lockExpiresAt), attemptCount := r.attemptCount + 1 }

/-- The guard of `SQL_HOLD` and `SQL_FAIL`. -/
def Row.heldBy (r : Row) (worker : String) (now : Nat) : Bool :=
  !r.failed && r.lock.any fun l => l.1 == worker && now < l.2

inductive Request where
  | complete
  | fail (retries : Option Int) (backoff : Nat)

/-- A request that has the lock. -/
inductive Call where
  | completing
  | accepted
  | failing (now : Nat) (retriesLeft : Int) (fetchableAt : Nat)

def Request.start (r : Row) (now : Nat) : Request → Call
  | .complete => .completing
  | .fail retries backoff =>
    .failing now (max (retries.getD (r.retriesLeft - 1)) 0) (now + backoff)

def Row.release (r : Row) (retriesLeft : Int) (fetchableAt : Nat) : Row :=
  { r with
    lock := none, retriesLeft := retriesLeft, fetchableAt := fetchableAt
    failed := decide (retriesLeft ≤ 0) }

/-- The table, the task ids that were given out, the requests under way with their task and worker,
and the last reading of the clock. -/
structure World where
  rows : String → Option Row
  used : String → Bool
  calls : Nat → Option (String × String × Call)
  clock : Nat

def World.initial : World := ⟨fun _ => none, fun _ => false, fun _ => none, 0⟩

def World.setRow (a : World) (id : String) (r : Option Row) : World :=
  { a with rows := update a.rows id r }

def World.setCall (a : World) (n : Nat) (c : Option (String × String × Call)) : World :=
  { a with calls := update a.calls n c }

inductive Event where
  | park (id : String) (r : Row)
  | fetch (f : Fetch) (ids : List String)
  | request (n : Nat) (id worker : String) (now : Nat) (q : Request)
  | accept (n : Nat) (id worker : String)
  | delete (n : Nat) (id : String)
  | fail (n : Nat) (id worker : String)
  | drop (n : Nat)

/-- **One statement**, with the default lock duration `d`. -/
inductive Step (d : Nat) : World → Event → World → Prop where
  /-- The insert; it writes 0 attempts, which is left open here. -/
  | park {a : World} (id : String) (r : Row) (hnew : a.used id = false)
      (hkey : ∀ i s, a.rows i = some s → s.deployment = r.deployment → s.outboxKey ≠ r.outboxKey)
      (hlock : r.lock = none) (hfailed : r.failed = false) :
      Step d a (.park id r) { a.setRow id (some r) with used := update a.used id true }
  /-- `ON CONFLICT DO NOTHING`. -/
  | parked {a : World} (id i : String) (r s : Row) (hrow : a.rows i = some s)
      (hkey : s.deployment = r.deployment ∧ s.outboxKey = r.outboxKey) : Step d a (.park id r) a
  | fetch {a : World} (f : Fetch) (ids : List String) (hclock : a.clock ≤ f.now)
      (hids : ∀ id ∈ ids, ∃ r, a.rows id = some r ∧ r.fetchable f) :
      Step d a (.fetch f ids) { a with
        rows := fun id => if id ∈ ids then (a.rows id).map (·.fetched f) else a.rows id
        clock := f.now }
  | hold {a : World} (n : Nat) (id worker : String) (now : Nat) (q : Request) (r : Row)
      (hfree : a.calls n = none) (hclock : a.clock ≤ now) (hrow : a.rows id = some r)
      (hheld : r.heldBy worker now) :
      Step d a (.request n id worker now q)
        { (a.setRow id (some { r with lock := some (worker, now + d) })).setCall n
            (some (id, worker, q.start r now)) with clock := now }
  /-- The task is not the worker's, or its deployment is not live. -/
  | refuse {a : World} (n : Nat) (id worker : String) (now : Nat) (q : Request)
      (hclock : a.clock ≤ now) : Step d a (.request n id worker now q) { a with clock := now }
  | accept {a : World} (n : Nat) (id worker : String)
      (hcall : a.calls n = some (id, worker, .completing)) :
      Step d a (.accept n id worker) (a.setCall n (some (id, worker, .accepted)))
  | delete {a : World} (n : Nat) (id worker : String)
      (hcall : a.calls n = some (id, worker, .accepted)) :
      Step d a (.delete n id) ((a.setRow id none).setCall n none)
  | fail {a : World} (n : Nat) (id worker : String) (now at_ : Nat) (left : Int) (r : Row)
      (hcall : a.calls n = some (id, worker, .failing now left at_)) (hrow : a.rows id = some r)
      (hheld : r.heldBy worker now) :
      Step d a (.fail n id worker) ((a.setRow id (some (r.release left at_))).setCall n none)
  /-- The engine rejects the completion, the guard does not match any more, or the replica dies. -/
  | drop {a : World} (n : Nat) : Step d a (.drop n) (a.setCall n none)

/-! ## What a statement does to one row -/

variable {d : Nat} {a b c : World} {x : Event} {xs ys : List Event} {id w : String} {r s : Row}

theorem Row.lock_of_heldBy {now : Nat} (h : r.heldBy w now) :
    r.failed = false ∧ ∃ t, r.lock = some (w, t) ∧ now < t := by
  obtain ⟨hlive, hlock⟩ := Bool.and_eq_true_iff.mp h
  refine ⟨by simpa using hlive, ?_⟩
  cases hl : r.lock with
  | none =>
    rw [hl] at hlock
    cases hlock
  | some l =>
    simp only [hl, Option.any_some, Bool.and_eq_true, beq_iff_eq, decide_eq_true_eq] at hlock
    exact ⟨l.2, congrArg some (Prod.ext hlock.1 rfl), hlock.2⟩

theorem Row.of_fetchable {f : Fetch} (h : r.fetchable f) :
    r.failed = false ∧ ∀ l ∈ r.lock, l.2 ≤ f.now := by
  simp only [fetchable, Bool.and_eq_true, Bool.not_eq_true', Option.all_eq_true,
    decide_eq_true_eq] at h
  exact ⟨h.1.1.1.2, h.2⟩

/-- **Where a row comes from**: it is new, or it was there and the statement has changed its lock
and its state only, as far as it says so. -/
inductive From (d : Nat) (a : World) (id : String) (r : Row) : Event → Prop where
  | new (hnew : a.used id = false) (hlock : r.lock = none)
      (hkey : ∀ i s, a.rows i = some s → s.deployment = r.deployment → s.outboxKey ≠ r.outboxKey) :
      From d a id r (.park id r)
  | same {x : Event} (hrow : a.rows id = some r) : From d a id r x
  | fetched (s : Row) (f : Fetch) (ids : List String) (hid : id ∈ ids) (hrow : a.rows id = some s)
      (hfetch : s.fetchable f) (hr : r = s.fetched f) : From d a id r (.fetch f ids)
  | held (s : Row) (n : Nat) (w : String) (now : Nat) (q : Request) (hrow : a.rows id = some s)
      (hclock : a.clock ≤ now) (hheld : s.heldBy w now)
      (hr : r = { s with lock := some (w, now + d) }) : From d a id r (.request n id w now q)
  | released (s : Row) (n : Nat) (w : String) (now at_ : Nat) (left : Int)
      (hrow : a.rows id = some s)
      (hheld : s.heldBy w now) (hr : r = s.release left at_) : From d a id r (.fail n id w)

theorem Step.origin (h : Step d a x b) (hr : b.rows id = some r) : From d a id r x := by
  cases h with
  | park i s hnew hkey hlock hfailed =>
    rcases update_eq_cases hr with ⟨rfl, hs⟩ | ⟨-, hrow⟩
    · cases hs
      exact .new hnew hlock hkey
    · exact .same hrow
  | fetch f ids hclock hids =>
    by_cases hid : id ∈ ids
    · obtain ⟨s, hs, hfetch⟩ := hids id hid
      have hr' : (a.rows id).map (·.fetched f) = some r := (if_pos hid).symm.trans hr
      rw [hs] at hr'
      cases hr'
      exact .fetched s f ids hid hs hfetch rfl
    · exact .same ((if_neg hid).symm.trans hr)
  | hold n i w now q s hfree hclock hrow hheld =>
    rcases update_eq_cases hr with ⟨rfl, hs⟩ | ⟨-, hrow⟩
    · cases hs
      exact .held s n w now q hrow hclock hheld rfl
    · exact .same hrow
  | delete n i w hcall =>
    rcases update_eq_cases hr with ⟨-, hs⟩ | ⟨-, hrow⟩
    · cases hs
    · exact .same hrow
  | fail n i w now at_ left s hcall hrow hheld =>
    rcases update_eq_cases hr with ⟨rfl, hs⟩ | ⟨-, hrow⟩
    · cases hs
      exact .released s n w now at_ left hrow hheld rfl
    · exact .same hrow
  | parked | refuse | accept | drop => exact .same hr

/-- A row that was there is where it comes from, with the same key. -/
theorem From.old (h : From d a id r x) :
    (x = .park id r ∧ a.used id = false ∧
      ∀ i s, a.rows i = some s → s.deployment = r.deployment → s.outboxKey ≠ r.outboxKey) ∨
    ∃ s, a.rows id = some s ∧ s.deployment = r.deployment ∧ s.outboxKey = r.outboxKey ∧
      (s.failed = true → r.failed = true) := by
  cases h with
  | new hnew hlock hkey => exact .inl ⟨rfl, hnew, hkey⟩
  | same hrow => exact .inr ⟨r, hrow, rfl, rfl, fun h => h⟩
  | fetched s f ids hid hrow hfetch hr => exact .inr ⟨s, hrow, hr ▸ ⟨rfl, rfl, fun h => h⟩⟩
  | held s n w now q hrow hclock hheld hr => exact .inr ⟨s, hrow, hr ▸ ⟨rfl, rfl, fun h => h⟩⟩
  | released s n w now at_ left hrow hheld hr =>
    refine .inr ⟨s, hrow, hr ▸ ⟨rfl, rfl, fun h => ?_⟩⟩
    rw [(Row.lock_of_heldBy hheld).1] at h
    cases h

theorem Step.used (h : Step d a x b) (hid : a.used id = true) : b.used id = true := by
  cases h with
  | park => exact update_eq_of (fun _ => rfl) fun _ => hid
  | parked | fetch | hold | refuse | accept | delete | fail | drop => exact hid

theorem Step.clock (h : Step d a x b) : a.clock ≤ b.clock := by
  cases h with
  | fetch f ids hclock => exact hclock
  | hold n id w now q r hfree hclock => exact hclock
  | refuse n id w now q hclock => exact hclock
  | park | parked | accept | delete | fail | drop => exact le_rfl

/-! ## Invariants -/

/-- There is one row for a key, and it is there until a completion of it was accepted in the run
`xs`. -/
structure Sound (xs : List Event) (a : World) : Prop where
  used : ∀ id r, a.rows id = some r → a.used id = true
  key : ∀ id i r s, a.rows id = some r → a.rows i = some s → r.deployment = s.deployment →
    r.outboxKey = s.outboxKey → id = i
  accepted : ∀ n id w, a.calls n = some (id, w, .accepted) → .accept n id w ∈ xs
  gone : ∀ id, a.used id = true → a.rows id = none → ∃ n w, .accept n id w ∈ xs

namespace Sound

theorem used_step (h : Sound xs a) (hstep : Step d a x b) (hr : b.rows id = some r) :
    b.used id = true := by
  rcases (hstep.origin hr).old with ⟨rfl, -, -⟩ | ⟨s, hs, -⟩
  · cases hstep with
    | park => exact update_self ..
    | parked => exact h.used id r hr
  · exact hstep.used (h.used id s hs)

theorem key_step (h : Sound xs a) (hstep : Step d a x b) {i : String} (hr : b.rows id = some r)
    (hs : b.rows i = some s) (hdep : r.deployment = s.deployment)
    (hkey : r.outboxKey = s.outboxKey) : id = i := by
  rcases (hstep.origin hr).old with ⟨rfl, -, hnew⟩ | ⟨r', hr', hrdep, hrkey, -⟩
  · rcases (hstep.origin hs).old with ⟨heq, -, -⟩ | ⟨s', hs', hsdep, hskey, -⟩
    · cases heq
      rfl
    · exact absurd (hskey.trans hkey.symm) (hnew i s' hs' (hsdep.trans hdep.symm))
  · rcases (hstep.origin hs).old with ⟨rfl, -, hnew⟩ | ⟨s', hs', hsdep, hskey, -⟩
    · exact absurd (hrkey.trans hkey) (hnew id r' hr' (hrdep.trans hdep))
    · exact h.key id i r' s' hr' hs' ((hrdep.trans hdep).trans hsdep.symm)
        ((hrkey.trans hkey).trans hskey.symm)

theorem accepted_step (h : Sound xs a) (hx : x ∈ xs) (hstep : Step d a x b) {n : Nat}
    (hcall : b.calls n = some (id, w, .accepted)) : .accept n id w ∈ xs := by
  cases hstep with
  | hold m i w' now q =>
    rcases update_eq_cases hcall with ⟨-, hstart⟩ | ⟨-, hold⟩
    · cases q with
      | complete | fail => cases hstart
    · exact h.accepted n id w hold
  | accept m i w' =>
    rcases update_eq_cases hcall with ⟨rfl, hnew⟩ | ⟨-, hold⟩
    · cases hnew
      exact hx
    · exact h.accepted n id w hold
  | delete m | fail m | drop m =>
    rcases update_eq_cases hcall with ⟨-, hnone⟩ | ⟨-, hold⟩
    · cases hnone
    · exact h.accepted n id w hold
  | park | parked | fetch | refuse => exact h.accepted n id w hcall

theorem gone_step (h : Sound xs a) (hstep : Step d a x b) (hused : b.used id = true)
    (hgone : b.rows id = none) : ∃ n w, .accept n id w ∈ xs := by
  cases hstep with
  | park i r =>
    rcases update_eq_cases hgone with ⟨-, hsome⟩ | ⟨hne, hold⟩
    · cases hsome
    · exact h.gone id ((update_of_ne hne ..).symm.trans hused) hold
  | fetch f ids =>
    refine h.gone id hused ?_
    change (if _ then _ else _) = none at hgone
    split at hgone
    · exact Option.map_eq_none_iff.mp hgone
    · exact hgone
  | hold n i | fail n i =>
    rcases update_eq_cases hgone with ⟨-, hsome⟩ | ⟨-, hold⟩
    · cases hsome
    · exact h.gone id hused hold
  | delete n i w hcall =>
    rcases update_eq_cases hgone with ⟨rfl, -⟩ | ⟨-, hold⟩
    · exact ⟨n, w, h.accepted n id w hcall⟩
    · exact h.gone id hused hold
  | parked | refuse | accept | drop => exact h.gone id hused hgone

theorem run (hrun : Run (Step d) .initial xs a) : Sound xs a :=
  hrun.invariant
    (fun _ hx _ _ hstep h => ⟨fun _ _ => h.used_step hstep, fun _ _ _ _ => h.key_step hstep,
      fun _ _ _ => h.accepted_step hx hstep, fun _ => h.gone_step hstep⟩)
    ⟨nofun, nofun, nofun, nofun⟩

end Sound

/-- The task is locked for the worker until `t` at least, or that time has come. -/
structure Kept (id w : String) (now t : Nat) (a : World) : Prop where
  used : a.used id = true
  clock : now ≤ a.clock
  lock : t ≤ a.clock ∨ ∀ r, a.rows id = some r → ∃ e, r.lock = some (w, e) ∧ t ≤ e

theorem Kept.step {now t : Nat} (h : Kept id w now t a) (ht : t ≤ now + d) (hstep : Step d a x b)
    (hx : ∀ n, x ≠ .fail n id w) : Kept id w now t b := by
  refine ⟨hstep.used h.used, h.clock.trans hstep.clock, ?_⟩
  rcases h.lock with hover | hlock
  · exact .inl (hover.trans hstep.clock)
  by_cases hnow : t ≤ b.clock
  · exact .inl hnow
  refine .inr fun r hr => ?_
  cases hstep.origin hr with
  | new hnew => cases h.used.symm.trans hnew
  | same hrow => exact hlock r hrow
  | fetched s f ids hid hrow hfetch hr =>
    obtain ⟨e, he, hle⟩ := hlock s hrow
    have hclock : b.clock = f.now := by
      cases hstep
      rfl
    exact absurd (hle.trans ((Row.of_fetchable hfetch).2 _ he)) (hclock ▸ hnow)
  | held s n w' now' q hrow hclock hheld hr =>
    obtain ⟨e, he, -⟩ := hlock s hrow
    obtain ⟨-, e', he', -⟩ := Row.lock_of_heldBy hheld
    cases he.symm.trans he'
    exact ⟨_, hr ▸ rfl, ht.trans (Nat.add_le_add_right (h.clock.trans hclock) d)⟩
  | released s n w' now' at_ left hrow hheld hr =>
    obtain ⟨e, he, -⟩ := hlock s hrow
    obtain ⟨-, e', he', -⟩ := Row.lock_of_heldBy hheld
    cases he.symm.trans he'
    exact absurd rfl (hx n)

theorem failed_run (hrun : Run (Step d) a ys b) (hused : a.used id = true)
    (hfailed : ∀ r, a.rows id = some r → r.failed = true) :
    ∀ r, b.rows id = some r → r.failed = true := by
  refine (hrun.invariant (I := fun s => s.used id = true ∧
    ∀ r, s.rows id = some r → r.failed = true) (fun x _ a b hstep h => ?_) ⟨hused, hfailed⟩).2
  refine ⟨hstep.used h.1, fun r hr => ?_⟩
  rcases (hstep.origin hr).old with ⟨-, hnew, -⟩ | ⟨s, hs, -, -, hsame⟩
  · cases h.1.symm.trans hnew
  · exact hsame (h.2 s hs)

/-- **A pull task has one holder and is not lost.**  For every run: a task that was handed to a
worker under a lock no longer than the default is not handed to another one before the lock expires,
unless that worker failed it; a request without an unexpired lock changes no row; a row disappears
only after the engine accepted a completion of it; a terminal task is not handed out; and a key has
one row. -/
theorem pulled_by_one_holder (hrun : Run (Step d) .initial xs a) :
    (∀ f ids b, Step d a (.fetch f ids) b → f.lockExpiresAt ≤ f.now + d →
      ∀ ys c, Run (Step d) b ys c → ∀ id ∈ ids, (∀ n, .fail n id f.worker ∉ ys) →
      ∀ g gs e, Step d c (.fetch g gs) e → id ∈ gs → g.worker = f.worker ∨
        f.lockExpiresAt ≤ g.now) ∧
    (∀ n id w now q b, Step d a (.request n id w now q) b →
      (∀ r, a.rows id = some r → r.heldBy w now = false) → b = { a with clock := now }) ∧
    (∀ id, a.used id = true → a.rows id = none → ∃ n w, .accept n id w ∈ xs) ∧
    (∀ id r, a.rows id = some r → r.failed = true → ∀ ys b, Run (Step d) a ys b →
      ∀ f ids c, Step d b (.fetch f ids) c → id ∉ ids) ∧
    ∀ id i r s, a.rows id = some r → a.rows i = some s → r.deployment = s.deployment →
      r.outboxKey = s.outboxKey → id = i := by
  have hsound := Sound.run hrun
  refine ⟨?_, ?_, hsound.gone, ?_, hsound.key⟩
  · intro f ids b hfetch ht ys c hys id hid hquiet g gs e hagain hgs
    have hb : Kept id f.worker f.now f.lockExpiresAt b := by
      cases hfetch with
      | fetch f ids hclock hids =>
        obtain ⟨r, hr, -⟩ := hids id hid
        refine ⟨hsound.used id r hr, le_rfl, .inr fun r' hr' => ?_⟩
        have hmap : (a.rows id).map (·.fetched f) = some r' := (if_pos hid).symm.trans hr'
        rw [hr] at hmap
        cases hmap
        exact ⟨_, rfl, le_rfl⟩
    have hc := hys.invariant (fun y hy _ _ hstep h => h.step ht hstep fun n heq =>
      hquiet n (heq ▸ hy)) hb
    cases hagain with
    | fetch g gs hclock hids =>
      obtain ⟨r, hr, hfree⟩ := hids id hgs
      rcases hc.lock with hover | hlock
      · exact .inr (hover.trans hclock)
      · obtain ⟨t, hl, hle⟩ := hlock r hr
        exact .inr (hle.trans ((Row.of_fetchable hfree).2 _ hl))
  · intro n id w now q b hstep hfree
    cases hstep with
    | hold _ _ _ _ _ r _ _ hrow hheld => cases (hfree r hrow).symm.trans hheld
    | refuse => rfl
  · intro id r hr hfailed ys b hys f ids c hfetch hid
    cases hfetch with
    | fetch f ids hclock hids =>
      obtain ⟨s, hs, hfree⟩ := hids id hid
      have hstill := failed_run hys (hsound.used id r hr)
        (fun r' hr' => by cases hr.symm.trans hr'; exact hfailed) s hs
      rw [(Row.of_fetchable hfree).1] at hstill
      cases hstill

/-! ## Hand-outs -/

/-- Whether the statement hands the task to a worker. -/
def Event.hands (id : String) : Event → Bool
  | .fetch _ ids => ids.contains id
  | _ => false

theorem Step.row_of_hands (h : Step d a x b) (hx : x.hands id) : ∃ s, a.rows id = some s ∧
    (b.rows id = some r → r.attemptCount = s.attemptCount + 1) := by
  cases h with
  | fetch f ids hclock hids =>
    have hid : id ∈ ids := List.contains_iff_mem.mp hx
    obtain ⟨s, hs, -⟩ := hids id hid
    refine ⟨s, hs, fun hr => ?_⟩
    have hmap : (a.rows id).map (·.fetched f) = some r := (if_pos hid).symm.trans hr
    rw [hs] at hmap
    cases hmap
    rfl
  | _ => cases hx

theorem Step.attempts (h : Step d a x b) (hused : a.used id = true) (hr : b.rows id = some r) :
    ∃ s, a.rows id = some s ∧ r.attemptCount = s.attemptCount + [x].countP (·.hands id) := by
  rw [List.countP_singleton]
  by_cases hx : x.hands id
  · obtain ⟨s, hs, hcount⟩ := h.row_of_hands hx
    exact ⟨s, hs, if_pos hx ▸ hcount hr⟩
  rw [if_neg hx]
  cases h.origin hr with
  | new hnew => cases hused.symm.trans hnew
  | same hrow => exact ⟨r, hrow, rfl⟩
  | fetched s f ids hid => exact absurd (List.contains_iff_mem.mpr hid) hx
  | held s n w now q hrow hclock hheld hr => exact ⟨s, hrow, hr ▸ rfl⟩
  | released s n w now at_ left hrow hheld hr => exact ⟨s, hrow, hr ▸ rfl⟩

theorem attempts_run (hrun : Run (Step d) a xs b) (hused : a.used id = true)
    (hr : b.rows id = some r) :
    ∃ s, a.rows id = some s ∧ r.attemptCount = s.attemptCount + xs.countP (·.hands id) := by
  induction hrun with
  | nil a => exact ⟨r, hr, rfl⟩
  | @cons a b _ x xs h _ ih =>
    obtain ⟨s, hs, hcount⟩ := ih (h.used hused) hr
    obtain ⟨s', hs', hstep⟩ := h.attempts hused hs
    refine ⟨s', hs', ?_⟩
    rw [hcount, hstep, Nat.add_assoc, ← List.countP_append]
    rfl

theorem parked_run (hrun : Run (Step d) a xs b) (hnone : a.rows id = none)
    (hr : b.rows id = some r) : ∃ s, .park id s ∈ xs ∧
      r.attemptCount = s.attemptCount + xs.countP (·.hands id) := by
  induction hrun with
  | nil a => cases hnone.symm.trans hr
  | @cons a b _ x xs h t ih =>
    have hx : ¬x.hands id := by
      intro hx
      obtain ⟨s, hs, -⟩ := h.row_of_hands (r := r) hx
      cases hnone.symm.trans hs
    rw [List.countP_cons_of_neg hx]
    cases hb : b.rows id with
    | none =>
      obtain ⟨s, hs, hcount⟩ := ih hb hr
      exact ⟨s, .tail _ hs, hcount⟩
    | some s =>
      rcases (h.origin hb).old with ⟨rfl, -, -⟩ | ⟨s', hs', -⟩
      · have hused : b.used id = true := by
          cases h with
          | park => exact update_self ..
          | parked => cases hnone.symm.trans hb
        obtain ⟨s', hs', hcount⟩ := attempts_run t hused hr
        cases hb.symm.trans hs'
        exact ⟨s, .head _, hcount⟩
      · cases hnone.symm.trans hs'

/-- **The attempt counter counts the hand-outs**: in every run, the counter of a task that is still
there is the one it was parked with and one more for each fetch that handed it to a worker, whatever
was held, released, refused or dropped between them. -/
theorem attempts_count_hand_outs (hrun : Run (Step d) .initial xs a) (hr : a.rows id = some r) :
    ∃ s, .park id s ∈ xs ∧ r.attemptCount = s.attemptCount + xs.countP (·.hands id) :=
  parked_run hrun rfl hr

/-! ### A task for two workers -/

def invoice : Row := ⟨"dep", "invoice", "billing", 0, none, 0, 3, false⟩

def fetchInvoice (worker : String) (now lockExpiresAt : Nat) : Fetch :=
  ⟨"dep", ["billing"], worker, now, lockExpiresAt⟩

def invoiceParked : World :=
  { World.initial.setRow "t" (some invoice) with used := update World.initial.used "t" true }

theorem invoice_run : Run (Step 30) .initial [.park "t" invoice] invoiceParked :=
  .cons (.park "t" invoice rfl nofun rfl rfl) (.nil _)

/-- The second worker gets the task when the lock of the first one has run out. -/
theorem fetched_after_expiry : ∃ a b c, Run (Step 30) .initial [.park "t" invoice] a ∧
    Step 30 a (.fetch (fetchInvoice "first" 0 30) ["t"]) b ∧
    Step 30 b (.fetch (fetchInvoice "second" 30 60) ["t"]) c ∧
    ("second" = "first" ∨ 30 ≤ (fetchInvoice "second" 30 60).now) := by
  obtain ⟨b, c, hfirst, hsecond⟩ : ∃ b c,
      Step 30 invoiceParked (.fetch (fetchInvoice "first" 0 30) ["t"]) b ∧
      Step 30 b (.fetch (fetchInvoice "second" 30 60) ["t"]) c :=
    ⟨_, _, .fetch _ _ (Nat.zero_le _) (List.forall_mem_singleton.mpr ⟨invoice, rfl, rfl⟩),
      .fetch _ _ (Nat.zero_le _) (List.forall_mem_singleton.mpr ⟨_, rfl, rfl⟩)⟩
  exact ⟨_, b, c, invoice_run, hfirst, hsecond, (pulled_by_one_holder invoice_run).1 _ _ _ hfirst
    (by decide) [] _ (.nil _) "t" (.head _) nofun _ _ _ hsecond (.head _)⟩

/-- **A rejected completion shortens the lock**: the task is locked for an hour, and another worker
gets it after forty seconds. -/
theorem hour_cut_short : ∃ a b c ys e, Run (Step 30) .initial [.park "t" invoice] a ∧
    Step 30 a (.fetch (fetchInvoice "first" 0 3600) ["t"]) b ∧ Run (Step 30) b ys c ∧
    (∀ n, .fail n "t" "first" ∉ ys ∧ .accept n "t" "first" ∉ ys) ∧
    Step 30 c (.fetch (fetchInvoice "second" 40 70) ["t"]) e := by
  refine ⟨_, _, _, _, _, invoice_run,
    .fetch _ _ (Nat.zero_le _) (List.forall_mem_singleton.mpr ⟨invoice, rfl, rfl⟩),
    .cons (.hold 0 "t" "first" 10 .complete _ rfl (Nat.zero_le _) rfl rfl)
      (.cons (.drop 0) (.nil _)), by simp,
    .fetch _ _ (by decide : 10 ≤ 40) (List.forall_mem_singleton.mpr ⟨_, rfl, rfl⟩)⟩

/-- The first worker gives the task back, and the second one makes the second attempt. -/
theorem second_attempt : ∃ xs a r, Run (Step 30) .initial xs a ∧ a.rows "t" = some r ∧
    xs.countP (·.hands "t") = 2 ∧ ∃ s, .park "t" s ∈ xs ∧ r.attemptCount = s.attemptCount + 2 := by
  obtain ⟨a, r, hrun, hr⟩ : ∃ a r, Run (Step 30) .initial [.park "t" invoice,
      .fetch (fetchInvoice "first" 0 30) ["t"], .request 0 "t" "first" 10 (.fail none 5),
      .fail 0 "t" "first", .fetch (fetchInvoice "second" 20 50) ["t"]] a ∧ a.rows "t" = some r :=
    ⟨_, _, .cons (.park "t" invoice rfl nofun rfl rfl)
      (.cons (.fetch _ _ (Nat.zero_le _) (List.forall_mem_singleton.mpr ⟨invoice, rfl, rfl⟩))
      (.cons (.hold 0 "t" "first" 10 (.fail none 5) _ rfl (Nat.zero_le _) rfl rfl)
      (.cons (.fail 0 "t" "first" 10 15 2 _ rfl rfl rfl)
      (.cons (.fetch _ _ (by decide : 10 ≤ 20) (List.forall_mem_singleton.mpr ⟨_, rfl, rfl⟩))
      (.nil _))))), rfl⟩
  exact ⟨_, a, r, hrun, hr, rfl, attempts_count_hand_outs hrun hr⟩

end Sutra.PullTask
