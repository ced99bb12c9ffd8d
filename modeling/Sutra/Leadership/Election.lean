import Sutra.Lib.Run

/-!
# Leader election on a lease row

Every replica polls the lease of a role: one statement that takes the row when nobody has it, when
it has expired, or when the replica has it already. The gate of the role is a flag that shows what
the last poll that finished was told. The clocks are synchronised: one `now` for all.

* `one_leader`: under `Timely` at most one gate leads.
* `hung_poll_leads_on`: a leader whose poll hangs leads on.
-/

namespace Sutra.Leadership

/-- The row of the role. -/
structure Lease where
  holder : String
  expiresAt : Nat
  deriving DecidableEq

/-- A poll, from the statement that it sends to the answer that it takes in. The instant is the one
that the statement was bound to. -/
inductive Poll where
  | idle
  | asking (acquiredAt : Nat)
  | granted (acquiredAt : Nat)
  | refused
  /-- The poll was given up, and its statement may still run. -/
  | abandoned (acquiredAt : Nat)
  deriving DecidableEq

def Poll.inFlight : Poll → Bool
  | .asking _ | .granted _ | .refused => true
  | .idle | .abandoned _ => false

/-- An election: the identity that each replica acquires leases under, and the time to live. -/
structure Election where
  identity : Nat → String
  ttl : Nat

/-- The row, the clock, and what each replica knows. A replica may have several polls, numbered. -/
structure World where
  now : Nat
  lease : Option Lease
  polls : Nat → Nat → Poll
  leading : Nat → Bool
  /-- The replica has released everything, or is gone. -/
  closed : Nat → Bool

/-- Nobody has polled yet. -/
def World.initial : World := ⟨0, none, fun _ _ => .idle, fun _ => false, fun _ => false⟩

namespace World

def setPoll (a : World) (r n : Nat) (p : Poll) : World :=
  { a with polls := Function.update a.polls r (Function.update (a.polls r) n p) }

def setLeading (a : World) (r : Nat) (b : Bool) : World :=
  { a with leading := Function.update a.leading r b }

/-- The row can be taken: there is none, it has expired, or it is the holder's. -/
def available (a : World) (holder : String) (acquiredAt : Nat) : Bool :=
  a.lease.all fun l => l.expiresAt ≤ acquiredAt || l.holder == holder

/-- The statement of a poll. -/
def tryAcquire (a : World) (e : Election) (r : Nat) (acquiredAt : Nat) : World :=
  if a.available (e.identity r) acquiredAt then
    { a with lease := some ⟨e.identity r, acquiredAt + e.ttl⟩ }
  else a

def answer (a : World) (e : Election) (r : Nat) (acquiredAt : Nat) : Poll :=
  if a.available (e.identity r) acquiredAt then .granted acquiredAt else .refused

def releaseLease (a : World) (holder : String) : World :=
  { a with lease := a.lease.filter fun l => l.holder != holder }

def close (a : World) (r : Nat) : World :=
  { a.setLeading r false with closed := Function.update a.closed r true }

end World

/-- What can happen. -/
inductive Event where
  | tick (dt : Nat)
  | poll (replica poll : Nat)
  | execute (replica poll : Nat)
  | finish (replica poll : Nat)
  | fail (replica poll : Nat)
  | close (replica : Nat)
  | release (replica : Nat)

def Poll.drop : Poll → Poll
  | .asking t => .abandoned t
  | _ => .idle

/-- **One atomic step.** -/
inductive Step (e : Election) : World → Event → World → Prop where
  | tick {a : World} (dt : Nat) : Step e a (.tick dt) { a with now := a.now + dt }
  | poll {a : World} (r n : Nat) (hidle : a.polls r n = .idle) (hopen : a.closed r = false) :
      Step e a (.poll r n) (a.setPoll r n (.asking a.now))
  | execute {a : World} (r n t : Nat) (hpoll : a.polls r n = .asking t) :
      Step e a (.execute r n) ((a.tryAcquire e r t).setPoll r n (a.answer e r t))
  /-- The statement of a poll that was given up runs after all. -/
  | executeLate {a : World} (r n t : Nat) (hpoll : a.polls r n = .abandoned t) :
      Step e a (.execute r n) ((a.tryAcquire e r t).setPoll r n .idle)
  | acquired {a : World} (r n t : Nat) (hpoll : a.polls r n = .granted t) :
      Step e a (.finish r n) ((a.setPoll r n .idle).setLeading r true)
  | contended {a : World} (r n : Nat) (hpoll : a.polls r n = .refused) :
      Step e a (.finish r n) ((a.setPoll r n .idle).setLeading r false)
  | fail {a : World} (r n : Nat) (hpoll : (a.polls r n).inFlight = true) :
      Step e a (.fail r n) ((a.setPoll r n (a.polls r n).drop).setLeading r false)
  /-- The replica releases everything, or dies. -/
  | close {a : World} (r : Nat) : Step e a (.close r) (a.close r)
  | release {a : World} (r : Nat) (hclosed : a.closed r = true) :
      Step e a (.release r) (a.releaseLease (e.identity r))

/-! ## The condition -/

/-- A step in time: a replica polls one at a time, a statement runs before its poll is given up and,
for a leader, within the time to live, a granted answer is taken in within the time to live and by
an open replica, and no gate is left leading when its lease expires. -/
def Timely (e : Election) (a : World) : Event → Prop
  | .tick dt => ∀ r, a.leading r = true → ∀ l ∈ a.lease, a.now + dt < l.expiresAt
  | .poll r _ => ∀ n, (a.polls r n).inFlight = false
  | .execute r n => ∃ t, a.polls r n = .asking t ∧ (a.leading r = true → a.now < t + e.ttl)
  | .finish r n => ∀ t, a.polls r n = .granted t → a.now < t + e.ttl ∧ a.closed r = false
  | _ => True

def TimelyStep (e : Election) (a : World) (x : Event) (b : World) : Prop :=
  Step e a x b ∧ Timely e a x

def World.OneLeader (a : World) : Prop :=
  ∀ r r', a.leading r = true → a.leading r' = true → r = r'

/-! ## The invariant -/

/-- A leading gate has a row that has not expired, and a granted answer finds the row as it was
granted, unless it comes too late or the replica is closed. -/
structure Sound (e : Election) (a : World) : Prop where
  lead : ∀ r, a.leading r = true → a.closed r = false ∧
    ∃ t, a.lease = some ⟨e.identity r, t⟩ ∧ a.now < t
  granted : ∀ r n t, a.polls r n = .granted t → a.closed r = true ∨ t + e.ttl ≤ a.now ∨
    a.lease = some ⟨e.identity r, t + e.ttl⟩
  single : ∀ r n m, (a.polls r n).inFlight = true → (a.polls r m).inFlight = true → n = m
  past : ∀ r n t, a.polls r n = .asking t → t ≤ a.now

variable {e : Election} {a b : World} {r n t : Nat} {x : Event} {xs : List Event}

theorem World.polls_setPoll (a : World) (r n r' n' : Nat) (p : Poll) :
    (a.setPoll r n p).polls r' n' = if r' = r ∧ n' = n then p else a.polls r' n' := by
  change Function.update a.polls r (Function.update (a.polls r) n p) r' n' = _
  by_cases hr : r' = r
  · subst hr
    rw [Function.update_self, Function.update_apply]
    simp
  · rw [Function.update_of_ne hr, if_neg fun h => hr h.1]

theorem World.leading_setLeading (a : World) (r r' : Nat) (b : Bool) :
    (a.setLeading r b).leading r' = if r' = r then b else a.leading r' :=
  Function.update_apply a.leading r b r'

theorem World.available_iff {h : String} :
    a.available h t ↔ ∀ l ∈ a.lease, l.expiresAt ≤ t ∨ l.holder = h := by
  rw [World.available]
  cases a.lease <;> simp

/-- The row of somebody who holds it cannot be taken by another. -/
theorem World.not_available (hinj : Function.Injective e.identity) {r' t' : Nat} (hne : r ≠ r')
    (hrow : a.lease = some ⟨e.identity r', t'⟩) (hlive : t < t') :
    a.available (e.identity r) t = false := by
  refine Bool.eq_false_iff.mpr fun hav => ?_
  rcases World.available_iff.mp hav _ hrow with hexp | hsame
  · exact Nat.lt_irrefl t (Nat.lt_of_lt_of_le hlive hexp)
  · exact hne (hinj hsame.symm)

namespace Sound

theorem initial : Sound e World.initial where
  lead _ h := nomatch h
  granted _ _ _ h := nomatch h
  single _ _ _ h := nomatch h
  past _ _ _ h := nomatch h

variable (h : Sound e a)

include h

theorem setPoll (p : Poll) (hgranted : ∀ t, p = .granted t →
      a.closed r ∨ t + e.ttl ≤ a.now ∨ a.lease = some ⟨e.identity r, t + e.ttl⟩)
    (hsingle : p.inFlight → ∀ m, m ≠ n → (a.polls r m).inFlight = false)
    (hpast : ∀ t, p = .asking t → t ≤ a.now) : Sound e (a.setPoll r n p) where
  lead := h.lead
  granted r' n' t hp := by
    rw [World.polls_setPoll] at hp
    split at hp
    · rename_i heq
      exact heq.1 ▸ hgranted t hp
    · exact h.granted r' n' t hp
  single r' n' m' hn hm := by
    rw [World.polls_setPoll] at hn hm
    split at hn <;> split at hm
    · rename_i h₁ h₂
      exact h₁.2.trans h₂.2.symm
    · rename_i h₁ h₂
      obtain ⟨rfl, rfl⟩ := h₁
      rw [hsingle hn m' fun heq => h₂ ⟨rfl, heq⟩] at hm
      exact nomatch hm
    · rename_i h₁ h₂
      obtain ⟨rfl, rfl⟩ := h₂
      rw [hsingle hm n' fun heq => h₁ ⟨rfl, heq⟩] at hn
      exact nomatch hn
    · exact h.single r' n' m' hn hm
  past r' n' t hp := by
    rw [World.polls_setPoll] at hp
    split at hp
    · exact hpast t hp
    · exact h.past r' n' t hp

theorem endPoll (p : Poll) (hp : p.inFlight = false) : Sound e (a.setPoll r n p) := by
  refine h.setPoll p (fun t heq => ?_) (fun hin => ?_) fun t heq => ?_
  · rw [heq] at hp
    exact nomatch hp
  · rw [hp] at hin
    exact nomatch hin
  · rw [heq] at hp
    exact nomatch hp

theorem follow : Sound e (a.setLeading r false) where
  lead r' hlead := by
    rw [World.leading_setLeading] at hlead
    split at hlead
    · exact nomatch hlead
    · exact h.lead r' hlead
  granted := h.granted
  single := h.single
  past := h.past

theorem others (hpoll : (a.polls r n).inFlight) (m : Nat) (hm : m ≠ n) :
    (a.polls r m).inFlight = false := by
  refine Bool.eq_false_iff.mpr fun hin => hm (h.single r m n hin hpoll)

variable (hinj : Function.Injective e.identity)

include hinj

theorem takeLease (hpoll : a.polls r n = .asking t) (hlate : a.leading r → a.now < t + e.ttl)
    (hav : a.available (e.identity r) t) :
    Sound e { a with lease := some ⟨e.identity r, t + e.ttl⟩ } := by
  have hpast := h.past r n t hpoll
  -- a row of somebody else cannot be both unexpired and available
  have hother : ∀ r' t', r ≠ r' → a.lease = some ⟨e.identity r', t'⟩ → t' ≤ a.now := by
    intro r' t' hne hrow
    by_contra hlt
    have hno := World.not_available hinj hne hrow (by omega : t < t')
    rw [hav] at hno
    exact nomatch hno
  refine ⟨fun r' hlead => ?_, fun r' n' t' hp => ?_, h.single, h.past⟩
  · obtain ⟨hopen, t', hrow, hlive⟩ := h.lead r' hlead
    by_cases heq : r = r'
    · subst heq
      exact ⟨hopen, _, rfl, hlate hlead⟩
    · exact absurd hlive (Nat.not_lt.mpr (hother r' t' heq hrow))
  · rcases h.granted r' n' t' hp with hclosed | hexp | hrow
    · exact .inl hclosed
    · exact .inr (.inl hexp)
    · by_cases heq : r = r'
      · -- the replica has one poll in flight, and that is still asking
        subst heq
        have hn : n' = n := h.single r n' n (by rw [hp]; rfl) (by rw [hpoll]; rfl)
        rw [hn, hpoll] at hp
        exact nomatch hp
      · exact .inr (.inl (hother r' _ heq hrow))

theorem execute (hpoll : a.polls r n = .asking t) (hlate : a.leading r → a.now < t + e.ttl) :
    Sound e ((a.tryAcquire e r t).setPoll r n (a.answer e r t)) := by
  have hin : (a.polls r n).inFlight := by rw [hpoll]; rfl
  rw [World.tryAcquire, World.answer]
  split
  · rename_i hav
    refine (h.takeLease hinj hpoll hlate hav).setPoll _ (fun t' heq => ?_)
      (fun _ => h.others hin) nofun
    cases heq
    exact .inr (.inr rfl)
  · exact h.setPoll _ nofun (fun _ => h.others hin) nofun

omit hinj in
theorem lead_of_granted (hpoll : a.polls r n = .granted t)
    (hlate : a.now < t + e.ttl) (hopen : a.closed r = false) :
    a.lease = some ⟨e.identity r, t + e.ttl⟩ := by
  rcases h.granted r n t hpoll with hclosed | hexp | hrow
  · rw [hopen] at hclosed
    exact nomatch hclosed
  · omega
  · exact hrow

omit hinj in
theorem close : Sound e (a.close r) where
  lead r' hlead := by
    rw [show (a.close r).leading r' = if r' = r then false else a.leading r' from
      World.leading_setLeading a r r' false] at hlead
    split at hlead
    · exact nomatch hlead
    · rename_i hne
      refine ⟨?_, (h.lead r' hlead).2⟩
      exact (Function.update_of_ne hne _ _).trans (h.lead r' hlead).1
  granted r' n t hp := by
    refine (h.granted r' n t hp).imp_left fun hclosed => ?_
    exact update_eq_of (fun _ => rfl) fun _ => hclosed
  single := h.single
  past := h.past

theorem release (hclosed : a.closed r) : Sound e (a.releaseLease (e.identity r)) where
  lead r' hlead := by
    obtain ⟨hopen, t, hrow, hlive⟩ := h.lead r' hlead
    refine ⟨hopen, t, ?_, hlive⟩
    have hne : e.identity r' ≠ e.identity r := fun heq => by
      rw [hinj heq, hclosed] at hopen
      exact nomatch hopen
    rw [World.releaseLease, hrow]
    simp [Option.filter, hne]
  granted r' n t hp := by
    rcases h.granted r' n t hp with hc | hexp | hrow
    · exact .inl hc
    · exact .inr (.inl hexp)
    · by_cases heq : e.identity r' = e.identity r
      · exact .inl (hinj heq ▸ hclosed)
      · refine .inr (.inr ?_)
        rw [World.releaseLease, hrow]
        simp [Option.filter, heq]
  single := h.single
  past := h.past

/-- **Every step in time keeps it.** -/
theorem step (hstep : TimelyStep e a x b) : Sound e b := by
  obtain ⟨hstep, htime⟩ := hstep
  cases hstep with
  | tick dt =>
    refine ⟨fun r hlead => ?_, fun r n t hp => ?_, h.single, fun r n t hp => ?_⟩
    · obtain ⟨hopen, t, hrow, -⟩ := h.lead r hlead
      exact ⟨hopen, t, hrow, htime r hlead _ hrow⟩
    · exact (h.granted r n t hp).imp_right (.imp_left (Nat.le_add_right_of_le (k := dt)))
    · exact Nat.le_add_right_of_le (h.past r n t hp)
  | poll r n hidle hopen =>
    refine h.setPoll _ nofun (fun _ m _ => htime m) fun t heq => ?_
    cases heq
    exact Nat.le_refl _
  | execute r n t hpoll =>
    obtain ⟨t', hpoll', hlate⟩ := htime
    rw [hpoll, Poll.asking.injEq] at hpoll'
    exact h.execute hinj hpoll (hpoll' ▸ hlate)
  | executeLate r n t hpoll =>
    obtain ⟨t', hpoll', -⟩ := htime
    rw [hpoll] at hpoll'
    exact nomatch hpoll'
  | acquired r n t hpoll =>
    obtain ⟨hlate, hopen⟩ := htime t hpoll
    have hrow := h.lead_of_granted hpoll hlate hopen
    have hidle := h.endPoll (r := r) (n := n) .idle rfl
    refine ⟨fun r' hlead => ?_, hidle.granted, hidle.single, hidle.past⟩
    rw [World.leading_setLeading] at hlead
    split at hlead
    · rename_i heq
      rw [heq]
      exact ⟨hopen, _, hrow, hlate⟩
    · exact h.lead r' hlead
  | contended r n hpoll => exact (h.endPoll .idle rfl).follow
  | fail r n hpoll =>
    refine (h.endPoll _ ?_).follow
    cases a.polls r n <;> rfl
  | close r => exact h.close
  | release r hclosed => exact h.release hinj hclosed

omit h in
theorem run (hrun : Run (TimelyStep e) World.initial xs a) : Sound e a :=
  hrun.invariant (fun _ _ _ _ hstep h => h.step hinj hstep) initial

end Sound

/-- **At most one leader.**  When the replicas go by different identities and every step is in time,
at most one gate answers that it is leading, in every state that a run reaches. -/
theorem one_leader {e : Election} (hinj : Function.Injective e.identity) {xs : List Event}
    {a : World}
    (hrun : Run (TimelyStep e) World.initial xs a) : a.OneLeader := by
  intro r r' hr hr'
  have h := Sound.run hinj hrun
  obtain ⟨-, t, hrow, -⟩ := h.lead r hr
  obtain ⟨-, t', hrow', -⟩ := h.lead r' hr'
  rw [hrow, Option.some.injEq, Lease.mk.injEq] at hrow'
  exact hinj hrow'.1

/-! ### Two replicas -/

/-- Every replica has a name of its own, and a lease lasts thirty seconds. -/
def replicas : Election := ⟨fun r => String.ofList (List.replicate r 'r'), 30⟩

theorem replicas_injective : Function.Injective replicas.identity := by
  intro r r' heq
  have hlist := String.ofList_injective heq
  simpa using congrArg List.length hlist

/-- The first replica leads and releases, and then the second one leads. -/
theorem release_then_lead :
    ∃ xs a, Run (TimelyStep replicas) World.initial xs a ∧ a.leading 1 = true ∧ a.OneLeader := by
  have hrun : Run (TimelyStep replicas) .initial _ _ :=
    .cons ⟨.poll 0 0 rfl rfl, fun _ => rfl⟩ <|
    .cons ⟨.execute 0 0 0 rfl, 0, rfl, nofun⟩ <|
    .cons ⟨.acquired 0 0 0 rfl, fun t ht => by cases ht; exact ⟨by decide, rfl⟩⟩ <|
    .cons ⟨.close 0, trivial⟩ <|
    .cons ⟨.release 0 rfl, trivial⟩ <|
    .cons ⟨.poll 1 0 rfl rfl, fun _ => rfl⟩ <|
    .cons ⟨.execute 1 0 0 rfl, 0, rfl, nofun⟩ <|
    .cons ⟨.acquired 1 0 0 rfl, fun t ht => by cases ht; exact ⟨by decide, rfl⟩⟩ <|
    .nil _
  exact ⟨_, _, hrun, rfl, one_leader replicas_injective hrun⟩

/-- The next poll of the leader hangs for longer than the lease lasts; the second replica takes the
expired row, and both gates lead. -/
theorem hung_poll_leads_on :
    ∃ xs a, Run (Step replicas) World.initial xs a ∧ a.leading 0 = true ∧ a.leading 1 = true := by
  refine ⟨_, _,
    .cons (.poll 0 0 rfl rfl) <|
    .cons (.execute 0 0 0 rfl) <|
    .cons (.acquired 0 0 0 rfl) <|
    .cons (.tick 10) <|
    .cons (.poll 0 0 rfl rfl) <|
    .cons (.tick 21) <|
    .cons (.poll 1 0 rfl rfl) <|
    .cons (.execute 1 0 31 rfl) <|
    .cons (.acquired 1 0 31 rfl) <|
    .nil _, rfl, rfl⟩

end Sutra.Leadership
