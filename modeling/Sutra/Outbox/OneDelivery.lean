import Sutra.Outbox.Dispatcher

/-!
# One delivery at a time, and none after deletion

A row is in flight exactly while one task has it: the in-flight set is what the claimer asks before
it takes a row, and a release is the last thing that a task does with one.

* `taken_after_delete`: when the delete, its note and the release all fall between the two looks of
  the claimer, it hands the row out again.
* `one_delivery_at_a_time`: `Timely` rules this out.
-/

namespace Sutra.Outbox

open List Function Option Process

/-- A step in time. -/
def Timely (a : World) : Event → Prop
  | .take e =>
    a.proc.recentlyFinished e.entryId a.shared.now = false ∧
      a.shared.now < a.proc.readAt + finishedMemory
  | .deleteInPlace id => ¬ a.proc.InHand id
  | _ => True

def TimelyStep (maxAttempts : Option Nat) (a : World) (e : Event) (b : World) : Prop :=
  Step maxAttempts a e b ∧ Timely a e

/-! ## What a process has -/

namespace Stage

def alive : Stage → Bool
  | .sending _ | .sent _ | .marked | .deleting => true
  | s => s.unsent

/-- The row of the copy was deleted by the batcher. -/
def stamped : Stage → Bool
  | .deleted | .releasing true | .cleared true | .unclaimed true | .rereleasing => true
  | _ => false

variable {s : Stage}

theorem holds_of_alive (h : s.alive) : s.holds := by cases s <;> first | rfl | cases h

theorem alive_of_canFail (h : s.canFail) : s.alive := by
  cases s <;> first | rfl | cases h

theorem alive_of_inPlace (h : s.inPlace) : s.alive := by
  cases s <;> first | rfl | cases h

end Stage

namespace Process

variable {p : Process} {n m : Nat} {c d : Copy} {id : String} {x : Option Copy}

/-- A task has the row. -/
def Held (p : Process) (id : String) : Prop :=
  ∃ n c, p.copies n = some c ∧ c.stage.holds = true ∧ c.entry.entryId = id

/-- The delete of the row has committed, and the batcher has not noted it yet. -/
def Unnoted (p : Process) (id : String) : Prop :=
  ∃ n e, p.copies n = some ⟨e, .deleted⟩ ∧ e.entryId = id

/-- A task that holds its row goes on with it, or one that does not comes to an end. -/
theorem held_move (hcopy : p.copies n = some c) (hid : ∀ d, x = some d → d.entry = c.entry)
    (hholds : c.stage.holds = x.any fun d => d.stage.holds) :
    (p.setCopy n x).Held id ↔ p.Held id := by
  constructor
  · rintro ⟨m, d, hd, hdholds, hdid⟩
    rcases copies_setCopy hd with ⟨-, rfl⟩ | ⟨-, hd⟩
    · refine ⟨n, c, hcopy, ?_, ?_⟩
      · rw [hholds]
        exact hdholds
      · rw [← hid d rfl]
        exact hdid
    · exact ⟨m, d, hd, hdholds, hdid⟩
  · rintro ⟨m, d, hd, hdholds, hdid⟩
    by_cases hm : m = n
    · subst hm
      rw [hcopy, Option.some.injEq] at hd
      subst hd
      rw [hholds] at hdholds
      cases x with
      | none => cases hdholds
      | some d' =>
        refine ⟨m, d', copies_setCopy_self _ _ _, hdholds, ?_⟩
        rw [hid d' rfl]
        exact hdid
    · refine ⟨m, d, ?_, hdholds, hdid⟩
      rw [copies_setCopy_ne x hm]
      exact hd

/-- At most one task has a row. -/
def Unique (p : Process) : Prop :=
  ∀ n m c d, p.copies n = some c → p.copies m = some d → c.stage.holds = true →
    d.stage.holds = true → c.entry.entryId = d.entry.entryId → n = m

theorem Unique.setCopy (h : p.Unique) (hcopy : p.copies n = some c)
    (hid : ∀ d, x = some d → d.entry = c.entry)
    (hholds : c.stage.holds = x.any fun d => d.stage.holds) : (p.setCopy n x).Unique := by
  have hold : ∀ {m d}, (p.setCopy n x).copies m = some d → d.stage.holds →
      ∃ d', p.copies m = some d' ∧ d'.stage.holds ∧ d'.entry = d.entry := by
    intro m d hd hdh
    rcases copies_setCopy hd with ⟨rfl, rfl⟩ | ⟨-, hd⟩
    · exact ⟨c, hcopy, hholds.trans hdh, (hid d rfl).symm⟩
    · exact ⟨d, hd, hdh, rfl⟩
  intro m m' d d' hd hd' hdh hdh' hdid
  obtain ⟨o, ho, hoh, hoe⟩ := hold hd hdh
  obtain ⟨o', ho', hoh', hoe'⟩ := hold hd' hdh'
  refine h m m' o o' ho ho' hoh hoh' ?_
  rw [hoe, hoe']
  exact hdid

theorem Unnoted.setCopy (h : p.Unnoted id) (hcopy : p.copies n = some c)
    (hstage : c.stage ≠ .deleted) : (p.setCopy n x).Unnoted id := by
  obtain ⟨m, e, hm, hid⟩ := h
  refine ⟨m, e, ?_, hid⟩
  rw [copies_setCopy_ne]
  · exact hm
  · rintro rfl
    rw [hcopy, Option.some.injEq] at hm
    exact hstage (congrArg Copy.stage hm)

theorem not_recentlyFinished {now t : Nat} (h : p.recentlyFinished id now = false)
    (ht : p.finished id = some t) : t + finishedMemory ≤ now := by
  rw [recentlyFinished, ht, any_some, decide_eq_false_iff_not] at h
  have hpos : 0 < finishedMemory := by decide
  omega

end Process

/-! ## The invariant -/

/-- A row that was deleted at `t`, in the hands of the claimer: its deletion will be noted, is
noted, or is too long ago. -/
def Noted (s : Shared) (p : Process) (id : String) (t : Nat) : Prop :=
  p.readAt ≤ t ∧
    (p.Unnoted id ∨ (∃ t', p.finished id = some t' ∧ t ≤ t') ∨ p.readAt + finishedMemory ≤ s.now)

/-- What holds of a process between two steps. -/
structure Sound (s : Shared) (p : Process) : Prop where
  inflight : ∀ id, p.inflight id = true ↔ p.Held id
  unique : p.Unique
  usedRow : ∀ id, s.used id = false → s.table id = none
  usedCopy : ∀ n c, p.copies n = some c → s.used c.entry.entryId = true
  usedHand : ∀ id, p.InHand id → s.used id = true
  readAt : p.readAt ≤ s.now
  usedDeleted : ∀ id, s.used id = false → p.deletedAt id = none
  gone : ∀ id t, p.deletedAt id = some t → s.table id = none ∧ t ≤ s.now
  alive : ∀ n c, p.copies n = some c → c.stage.alive = true → p.deletedAt c.entry.entryId = none
  stamped : ∀ n c, p.copies n = some c → c.stage.stamped = true →
    (p.deletedAt c.entry.entryId).isSome = true
  released : ∀ n c, p.copies n = some c → c.stage.stamped = true → c.stage.holds = false →
    ¬ p.Held c.entry.entryId
  hand : ∀ id t, p.InHand id → p.deletedAt id = some t → Noted s p id t
  late : p.late = []

namespace Sound

theorem initial : Sound .initial .initial where
  inflight _ := ⟨nofun, fun ⟨_, _, h, _⟩ => nomatch h⟩
  unique _ _ _ _ h := nomatch h
  usedRow _ _ := rfl
  usedCopy _ _ h := nomatch h
  usedHand _ h := by
    rcases h with ⟨_, h, -⟩ | ⟨_, h, -⟩
    · cases h
    · cases h
  readAt := Nat.le_refl _
  usedDeleted _ _ := rfl
  gone _ _ h := nomatch h
  alive _ _ h := nomatch h
  stamped _ _ h := nomatch h
  released _ _ h := nomatch h
  hand _ _ _ h := nomatch h
  late := rfl

variable {s : Shared} {p : Process} {n : Nat} {c : Copy} {e : Entry} {id : String}

/-! ### What is shared -/

variable (h : Sound s p)

include h

theorem tick (dt : Nat) : Sound { s with now := s.now + dt } p :=
  { h with
    readAt := Nat.le_add_right_of_le h.readAt
    gone := fun id t ht => by
      obtain ⟨hrow, hle⟩ := h.gone id t ht
      exact ⟨hrow, Nat.le_add_right_of_le hle⟩
    hand := fun id t hhand ht => by
      obtain ⟨hread, hnoted⟩ := h.hand id t hhand ht
      exact ⟨hread, hnoted.imp_right (Or.imp_right Nat.le_add_right_of_le)⟩ }

/-- Rows are changed and deleted, and none is added. -/
theorem within {t : Table} (ht : t.Within s.table) : Sound (s.setTable t) p :=
  { h with
    usedRow := fun id hid => ht id (h.usedRow id hid)
    gone := fun id t hid => by
      obtain ⟨hrow, hle⟩ := h.gone id t hid
      exact ⟨ht id hrow, hle⟩ }

theorem use (id : String) : Sound (s.use id) p := by
  have hused : ∀ x, (s.use id).used x = false → s.used x = false := by
    intro x hx
    rcases update_eq_cases hx with ⟨-, ⟨⟩⟩ | ⟨-, hx⟩
    exact hx
  have hmono : ∀ x, s.used x → (s.use id).used x := fun x hx =>
    update_eq_of (fun _ => rfl) fun _ => hx
  exact { h with
    usedRow := fun x hx => h.usedRow x (hused x hx)
    usedCopy := fun n c hc => hmono _ (h.usedCopy n c hc)
    usedHand := fun x hx => hmono _ (h.usedHand x hx)
    usedDeleted := fun x hx => h.usedDeleted x (hused x hx) }

theorem insert (due : Nat) (hused : s.used e.entryId)
    (halive : p.deletedAt e.entryId = none) : Sound (s.insert e due) p :=
  { h with
    usedRow := fun id hid => by
      have hne : id ≠ e.entryId := by
        rintro rfl
        rw [show s.used e.entryId = false from hid] at hused
        cases hused
      exact (Table.insert_of_ne due hne).trans (h.usedRow id hid)
    gone := fun id t ht => by
      obtain ⟨hrow, hle⟩ := h.gone id t ht
      have hne : id ≠ e.entryId := by
        rintro rfl
        rw [halive] at ht
        cases ht
      exact ⟨(Table.insert_of_ne due hne).trans hrow, hle⟩ }

/-! ### The copies -/

variable {x : Option Copy} {st : Stage} {maxAttempts : Option Nat}

/-- A copy goes on and is held as before, or is not held and comes to its end. -/
theorem setCopy (hcopy : p.copies n = some c) (hid : ∀ d, x = some d → d.entry = c.entry)
    (hholds : c.stage.holds = x.any fun d => d.stage.holds)
    (halive : ∀ d, x = some d → d.stage.alive → c.stage.alive)
    (hstamped : ∀ d, x = some d → d.stage.stamped → c.stage.stamped)
    (hhand : ∀ id t, p.InHand id → p.deletedAt id = some t → Noted s (p.setCopy n x) id t) :
    Sound s (p.setCopy n x) where
  inflight id := (h.inflight id).trans (Process.held_move hcopy hid hholds).symm
  unique := h.unique.setCopy hcopy hid hholds
  usedRow := h.usedRow
  usedCopy := forall_update h.usedCopy fun d hd => by
    rw [hid d hd]
    exact h.usedCopy n c hcopy
  usedHand := h.usedHand
  readAt := h.readAt
  usedDeleted := h.usedDeleted
  gone := h.gone
  alive := forall_update h.alive fun d hd hdalive => by
    rw [hid d hd]
    exact h.alive n c hcopy (halive d hd hdalive)
  stamped := forall_update h.stamped fun d hd hds => by
    rw [hid d hd]
    exact h.stamped n c hcopy (hstamped d hd hds)
  released m d hd hds hdh := by
    rw [Process.held_move hcopy hid hholds]
    rcases copies_setCopy hd with ⟨-, rfl⟩ | ⟨-, hd⟩
    · rw [hid d rfl]
      exact h.released n c hcopy (hstamped d rfl hds) (hholds.trans hdh)
    · exact h.released m d hd hds hdh
  hand := hhand
  late := h.late

/-- Only the note of the batcher changes what the claimer can rely on. -/
theorem noted_setCopy {t : Nat} (hcopy : p.copies n = some c)
    (hstage : c.stage ≠ .deleted) (hhand : p.InHand id) (ht : p.deletedAt id = some t) :
    Noted s (p.setCopy n x) id t := by
  obtain ⟨hread, hnoted⟩ := h.hand id t hhand ht
  exact ⟨hread, hnoted.imp_left fun hu => hu.setCopy hcopy hstage⟩

/-- A copy whose row was not deleted goes on, to a stage at which it is held. -/
theorem advance {st' : Stage} (hcopy : p.copies n = some ⟨e, st⟩)
    (halive : st.alive) (hholds : st'.holds) (hstamped : st'.stamped = false) :
    Sound s (p.setCopy n (some ⟨e, st'⟩)) := by
  refine h.setCopy hcopy ?_ ?_ ?_ ?_ ?_
  · rintro d ⟨⟩
    rfl
  · exact (Stage.holds_of_alive halive).trans hholds.symm
  · exact fun _ _ _ => halive
  · rintro d ⟨⟩ hd
    rw [hstamped] at hd
    cases hd
  · intro id t
    refine h.noted_setCopy hcopy ?_
    rintro rfl
    cases halive

/-- A copy that is not held any more goes on with its release, or ends. -/
theorem unwind {x : Option Stage} (hcopy : p.copies n = some ⟨e, st⟩) (hholds : st.holds = false)
    (hx : ∀ st' ∈ x, st'.holds = false ∧ (st'.stamped → st.stamped)) :
    Sound s (p.setCopy n (x.map fun st' => ⟨e, st'⟩)) := by
  refine h.setCopy hcopy ?_ ?_ ?_ ?_ ?_
  · intro d hd
    obtain ⟨st', -, rfl⟩ := map_eq_some_iff.mp hd
    rfl
  · cases x with
    | none => exact hholds
    | some st' => exact hholds.trans (hx st' rfl).1.symm
  · intro d hd hdalive
    obtain ⟨st', hst', rfl⟩ := map_eq_some_iff.mp hd
    exact absurd ((hx st' hst').1.symm.trans (Stage.holds_of_alive hdalive)) nofun
  · intro d hd hds
    obtain ⟨st', hst', rfl⟩ := map_eq_some_iff.mp hd
    exact (hx st' hst').2 hds
  · intro id t
    refine h.noted_setCopy hcopy ?_
    rintro rfl
    cases hholds

theorem add (hfree : p.copies n = none)
    (hused : s.used e.entryId) (hdeleted : p.deletedAt e.entryId = none)
    (hheld : ¬ p.Held e.entryId) (hholds : st.holds) (hstamped : st.stamped = false) :
    Sound s ((p.setInflight e.entryId true).setCopy n (some ⟨e, st⟩)) := by
  have hnew : ∀ {m c}, p.copies m = some c → c.stage.holds →
      c.entry.entryId ≠ e.entryId := fun hc hh hid => hheld ⟨_, _, hc, hh, hid⟩
  have hiff : ∀ id, ((p.setInflight e.entryId true).setCopy n (some ⟨e, st⟩)).Held id ↔
      id = e.entryId ∨ p.Held id := by
    intro id
    constructor
    · rintro ⟨m, d, hd, hdh, rfl⟩
      rcases copies_setCopy hd with ⟨-, ⟨⟩⟩ | ⟨-, hd⟩
      · exact .inl rfl
      · exact .inr ⟨m, d, hd, hdh, rfl⟩
    · rintro (rfl | ⟨m, d, hd, hdh, rfl⟩)
      · exact ⟨n, _, copies_setCopy_self _ _ _, hholds, rfl⟩
      · exact ⟨m, d, update_of_absent hfree hd, hdh, rfl⟩
  exact { h with
    inflight := fun id => by
      rw [hiff]
      refine update_of (· = true ↔ _) (fun hid => ?_) fun hid => ?_
      · exact ⟨fun _ => .inl hid, fun _ => rfl⟩
      · rw [h.inflight]
        exact ⟨.inr, fun hor => hor.resolve_left hid⟩
    unique := fun m m' d d' hd hd' hdh hdh' hdid => by
      rcases copies_setCopy hd with ⟨rfl, ⟨⟩⟩ | ⟨-, hd⟩
      · rcases copies_setCopy hd' with ⟨rfl, ⟨⟩⟩ | ⟨-, hd'⟩
        · rfl
        · exact absurd hdid.symm (hnew hd' hdh')
      · rcases copies_setCopy hd' with ⟨-, ⟨⟩⟩ | ⟨-, hd'⟩
        · exact absurd hdid (hnew hd hdh)
        · exact h.unique m m' d d' hd hd' hdh hdh' hdid
    usedCopy := forall_update h.usedCopy fun _ hd => by
      cases hd
      exact hused
    alive := forall_update h.alive fun _ hd _ => by
      cases hd
      exact hdeleted
    stamped := forall_update h.stamped fun _ hd hds => by
      cases hd
      cases hds.symm.trans hstamped
    released := fun m d hd hds hdh => by
      rcases copies_setCopy hd with ⟨-, ⟨⟩⟩ | ⟨-, hd⟩
      · rw [hstamped] at hds
        cases hds
      · rw [hiff]
        rintro (hid | hheld')
        · -- The row of a released copy was deleted, and this one was not.
          have hsome := h.stamped m d hd hds
          rw [hid, hdeleted] at hsome
          cases hsome
        · exact h.released m d hd hds hdh hheld'
    hand := fun id t hhand ht => by
      obtain ⟨hread, hnoted⟩ := h.hand id t hhand ht
      refine ⟨hread, hnoted.imp_left ?_⟩
      rintro ⟨m, e', hm, hid⟩
      exact ⟨m, e', update_of_absent hfree hm, hid⟩ }

theorem clear {again : Bool} (hcopy : p.copies n = some ⟨e, .releasing again⟩) :
    Sound s ((p.setInflight e.entryId false).setCopy n (some ⟨e, .cleared again⟩)) := by
  have hold : ∀ {m c}, ((p.setInflight e.entryId false).setCopy n
        (some ⟨e, .cleared again⟩)).copies m = some c → c.stage.holds →
      m ≠ n ∧ p.copies m = some c := by
    intro m c hc hh
    rcases copies_setCopy hc with ⟨-, ⟨⟩⟩ | hc
    · cases hh
    · exact hc
  have hiff : ∀ id, ((p.setInflight e.entryId false).setCopy n (some ⟨e, .cleared again⟩)).Held id ↔
      id ≠ e.entryId ∧ p.Held id := by
    intro id
    constructor
    · rintro ⟨m, c, hc, hh, rfl⟩
      obtain ⟨hm, hc⟩ := hold hc hh
      refine ⟨fun hid => hm ?_, m, c, hc, hh, rfl⟩
      exact h.unique m n c _ hc hcopy hh rfl hid
    · rintro ⟨hid, m, c, hc, hh, rfl⟩
      refine ⟨m, c, ?_, hh, rfl⟩
      rw [copies_setCopy_ne]
      · exact hc
      · rintro rfl
        rw [hcopy, Option.some.injEq] at hc
        subst hc
        exact hid rfl
  exact { h with
    inflight := fun id => by
      rw [hiff]
      refine update_of (· = true ↔ _) (fun hid => ?_) fun hid => ?_
      · exact ⟨nofun, fun hne => absurd hid hne.1⟩
      · rw [h.inflight]
        exact ⟨fun hheld => ⟨hid, hheld⟩, And.right⟩
    unique := fun m m' d d' hd hd' hdh hdh' hdid =>
      h.unique m m' d d' (hold hd hdh).2 (hold hd' hdh').2 hdh hdh' hdid
    usedCopy := forall_update h.usedCopy fun _ hd => by
      cases hd
      exact h.usedCopy n ⟨e, .releasing again⟩ hcopy
    alive := fun m d hd hda => h.alive m d (hold hd (Stage.holds_of_alive hda)).2 hda
    stamped := forall_update h.stamped fun _ hd hds => by
      cases hd
      refine h.stamped n ⟨e, .releasing again⟩ hcopy ?_
      cases again with
      | true => rfl
      | false => cases hds
    released := fun m d hd hds hdh => by
      rw [hiff]
      rintro ⟨hid, hheld⟩
      rcases copies_setCopy hd with ⟨-, ⟨⟩⟩ | ⟨-, hd⟩
      · exact hid rfl
      · exact h.released m d hd hds hdh hheld
    hand := fun _ _ hhand ht => h.noted_setCopy hcopy nofun hhand ht }

theorem clear_unheld (hheld : ¬ p.Held id) : Sound s (p.setInflight id false) :=
  { h with
    inflight := fun x => by
      refine update_of (· = true ↔ p.Held x) (fun hx => ?_) fun _ => h.inflight x
      rw [hx]
      exact ⟨nofun, fun hheld' => absurd hheld' hheld⟩ }

/-! ### Deletion -/

theorem setDeleted (hcopy : p.copies n = some ⟨e, st⟩)
    (halive : st.alive) {st' : Stage} (hholds : st'.holds) (hdead : st'.alive = false)
    (hnoted : st' = .deleted ∨ ¬ p.InHand e.entryId) : Sound (s.setTable (s.table.delete e.entryId))
      ((p.setDeleted e.entryId s.now).setCopy n (some ⟨e, st'⟩)) := by
  have hne : st ≠ .deleted := by
    rintro rfl
    cases halive
  have hid : ∀ d, some (⟨e, st'⟩ : Copy) = some d → d.entry = e := by
    rintro d ⟨⟩
    rfl
  have hholds' : st.holds = (some (⟨e, st'⟩ : Copy)).any fun d => d.stage.holds :=
    (Stage.holds_of_alive halive).trans hholds.symm
  have hmove : ∀ id, (p.setCopy n (some ⟨e, st'⟩)).Held id ↔ p.Held id := fun _ =>
    Process.held_move hcopy hid hholds'
  have hat : ∀ {id t}, (p.setDeleted e.entryId s.now).deletedAt id = some t →
      (id = e.entryId ∧ t = s.now) ∨ (id ≠ e.entryId ∧ p.deletedAt id = some t) := by
    intro id t ht
    exact (update_eq_cases ht).imp_left (And.imp_right fun h => (some.inj h).symm)
  exact { h with
    inflight := fun id => (h.inflight id).trans (hmove id).symm
    unique := h.unique.setCopy hcopy hid hholds'
    usedRow := fun id hid => Table.delete_within _ _ id (h.usedRow id hid)
    usedCopy := forall_update h.usedCopy fun _ hd => by
      cases hd
      exact h.usedCopy n ⟨e, st⟩ hcopy
    usedDeleted := fun id hid => by
      refine eq_none_iff_forall_ne_some.mpr fun t ht => ?_
      rcases hat ht with ⟨rfl, -⟩ | ⟨-, ht⟩
      · exact Bool.noConfusion ((h.usedCopy n ⟨e, st⟩ hcopy).symm.trans hid)
      · rw [h.usedDeleted id hid] at ht
        cases ht
    gone := fun id t ht => by
      rcases hat ht with ⟨rfl, rfl⟩ | ⟨-, ht⟩
      · exact ⟨update_self _ _ _, Nat.le_refl _⟩
      · obtain ⟨hrow, hle⟩ := h.gone id t ht
        exact ⟨Table.delete_within _ _ id hrow, hle⟩
    alive := fun m d hd hda => by
      rcases copies_setCopy hd with ⟨-, ⟨⟩⟩ | ⟨hm, hd⟩
      · rw [hdead] at hda
        cases hda
      · -- Any other copy of the row would be held as well.
        have hne : d.entry.entryId ≠ e.entryId := fun hid =>
          hm (h.unique m n d _ hd hcopy (Stage.holds_of_alive hda)
            (Stage.holds_of_alive halive) hid)
        exact (update_of_ne hne _ _).trans (h.alive m d hd hda)
    stamped := fun m d hd hds => by
      refine update_of (Option.isSome ·) (fun _ => rfl) fun hid => ?_
      rcases copies_setCopy hd with ⟨-, ⟨⟩⟩ | ⟨-, hd⟩
      · exact absurd rfl hid
      · exact h.stamped m d hd hds
    released := fun m d hd hds hdh => by
      change ¬ (p.setCopy n (some ⟨e, st'⟩)).Held d.entry.entryId
      rw [hmove]
      rcases copies_setCopy hd with ⟨-, ⟨⟩⟩ | ⟨-, hd⟩
      · rw [hholds] at hdh
        cases hdh
      · exact h.released m d hd hds hdh
    hand := fun id t hhand ht => by
      rcases hat ht with ⟨rfl, rfl⟩ | ⟨-, ht⟩
      · rcases hnoted with rfl | hnot
        · exact ⟨h.readAt, .inl ⟨n, e, copies_setCopy_self _ _ _, rfl⟩⟩
        · exact absurd hhand hnot
      · exact h.noted_setCopy hcopy hne hhand ht }

theorem remember (hcopy : p.copies n = some ⟨e, .deleted⟩) :
    Sound s ((p.remember e.entryId s.now).setCopy n (some ⟨e, .releasing true⟩)) := by
  have hfinished : (p.remember e.entryId s.now).finished = Function.update
      (fun x => (p.finished x).filter fun t => s.now - t < finishedMemory) e.entryId (some s.now) :=
    rfl
  have hself : (p.remember e.entryId s.now).finished e.entryId = some s.now := by
    rw [hfinished, update_self]
  have hkept : ∀ {id t'}, id ≠ e.entryId → p.finished id = some t' →
      (p.remember e.entryId s.now).finished id = some t' ∨ t' + finishedMemory ≤ s.now := by
    intro id t' hid ht'
    by_cases hold : s.now - t' < finishedMemory
    · left
      rw [hfinished, update_of_ne hid, ht', filter_some, if_pos (decide_eq_true hold)]
    · right
      have hpos : 0 < finishedMemory := by decide
      omega
  have hremembered : Sound s (p.remember e.entryId s.now) :=
    { h with
      hand := fun id t hhand ht => by
        obtain ⟨hread, hnoted⟩ := h.hand id t hhand ht
        refine ⟨hread, ?_⟩
        by_cases hid : id = e.entryId
        · subst hid
          exact .inr (.inl ⟨s.now, hself, (h.gone _ t ht).2⟩)
        · rcases hnoted with hu | ⟨t', ht', hle⟩ | hold
          · exact .inl hu
          · rcases hkept hid ht' with ht' | hold
            · exact .inr (.inl ⟨t', ht', hle⟩)
            · right; right
              change p.readAt + finishedMemory ≤ s.now
              omega
          · exact .inr (.inr hold) }
  refine hremembered.setCopy hcopy ?_ rfl ?_ ?_ ?_
  · rintro d ⟨⟩
    rfl
  · rintro d ⟨⟩ hd
    cases hd
  · exact fun _ _ _ => rfl
  · intro id t hhand ht
    obtain ⟨hread, hnoted⟩ := hremembered.hand id t hhand ht
    refine ⟨hread, ?_⟩
    rcases hnoted with ⟨m, e', hm, hid⟩ | hnoted
    · by_cases hmn : m = n
      · subst hmn
        rw [show p.copies m = some ⟨e', .deleted⟩ from hm, Option.some.injEq] at hcopy
        obtain ⟨⟩ := hcopy
        subst hid
        exact .inr (.inl ⟨s.now, hself, (h.gone _ t ht).2⟩)
      · refine .inl ⟨m, e', ?_, hid⟩
        rw [copies_setCopy_ne _ hmn]
        exact hm
    · exact .inr hnoted

/-! ### The claimer -/

theorem handLess {q : Process} (hq : q = { p with
      read := q.read, checked := q.checked, exclude := q.exclude
      ownedElsewhere := q.ownedElsewhere })
    (hhand : ∀ id, q.InHand id → p.InHand id) : Sound s q := by
  rw [hq]
  exact { h with
    usedHand := fun id hid => h.usedHand id (hhand id (by rwa [hq]))
    hand := fun id t hid ht => h.hand id t (hhand id (by rwa [hq])) ht }

theorem claim {es : List Entry} (hdue : ∀ e ∈ es, s.table.Due s.now e)
    (hchecked : p.checked = none) : Sound s { p with read := es, readAt := s.now } := by
  have hrow : ∀ id, Process.InHand { p with read := es, readAt := s.now } id →
      s.table id ≠ none := by
    rintro id (⟨e, he, rfl⟩ | ⟨e, he, -⟩)
    · obtain ⟨r, hr, -⟩ := hdue e he
      rw [hr]
      exact nofun
    · rw [show p.checked = some e from he] at hchecked
      cases hchecked
  exact { h with
    usedHand := fun id hid => by
      refine eq_true_of_ne_false fun hfalse => hrow id hid ?_
      exact h.usedRow id hfalse
    readAt := Nat.le_refl _
    hand := fun id t hid ht => absurd (h.gone id t ht).1 (hrow id hid) }

theorem take_not_deleted (hchecked : p.checked = some e) (hfresh : p.inflight e.entryId = false)
    (hrecent : p.recentlyFinished e.entryId s.now = false)
    (hread : s.now < p.readAt + finishedMemory) : p.deletedAt e.entryId = none := by
  refine eq_none_iff_forall_ne_some.mpr fun t ht => ?_
  obtain ⟨hle, hu | ⟨t', ht', hle'⟩ | hold⟩ := h.hand e.entryId t (.inr ⟨e, hchecked, rfl⟩) ht
  · obtain ⟨n, e', hn, hid⟩ := hu
    rw [(h.inflight e.entryId).mpr ⟨n, _, hn, rfl, hid⟩] at hfresh
    cases hfresh
  · have hlong := Process.not_recentlyFinished hrecent ht'
    omega
  · omega

/-! ### The steps -/

omit h in
theorem written {s' : Shared} (hw : Written maxAttempts e s s') (h : Sound s p) : Sound s' p := by
  cases hw with
  | swallowed => exact h
  | deferred due hleft => exact h.within (Table.modify_within _ _ _)
  | gaveUp hspent => exact { h.within (Table.modify_within _ _ _) with }

theorem withdraw (inst node : String) : Sound (s.withdraw inst node) p :=
  { h.within (Table.withdrawForNode_within s.table inst node) with }

theorem not_held_of_unused (hnew : s.used id = false) : ¬ p.Held id := by
  rintro ⟨n, c, hc, -, rfl⟩
  exact Bool.noConfusion ((h.usedCopy n c hc).symm.trans hnew)

theorem reserve (hnew : s.used e.entryId = false) (hfree : p.copies n = none) :
    Sound (s.use e.entryId) ((p.setInflight e.entryId true).setCopy n (some ⟨e, .reserved⟩)) := by
  have hused : (s.use e.entryId).used e.entryId := update_self _ _ _
  exact (h.use e.entryId).add hfree hused (h.usedDeleted _ hnew) (h.not_held_of_unused hnew) rfl rfl

theorem take (hchecked : p.checked = some e)
    (hfresh : p.inflight e.entryId = false) (hfree : p.copies n = none)
    (hdeleted : p.deletedAt e.entryId = none) :
    Sound s { (p.setInflight e.entryId true).setCopy n (some ⟨e, .taken⟩) with
      checked := none
      late := p.late ++ if (p.deletedAt e.entryId).isSome then [e.entryId] else [] } := by
  have hheld : ¬ p.Held e.entryId := by
    rw [← h.inflight, hfresh]
    exact nofun
  have hadd : Sound s ((p.setInflight e.entryId true).setCopy n (some ⟨e, .taken⟩)) :=
    h.add hfree (h.usedHand _ (.inr ⟨e, hchecked, rfl⟩)) hdeleted hheld rfl rfl
  refine { hadd.handLess (q := { (p.setInflight e.entryId true).setCopy n (some ⟨e, .taken⟩) with
    checked := none }) rfl ?_ with late := ?_ }
  · rintro id (hid | ⟨e', he', -⟩)
    · exact .inl hid
    · cases he'
  · change p.late ++ _ = []
    rw [h.late, hdeleted]
    rfl

omit h in
/-- **A step in time keeps a process sound.** -/
theorem step {a b : World} {ev : Event}
    (h : Sound a.shared a.proc) (hab : TimelyStep maxAttempts a ev b) : Sound b.shared b.proc := by
  obtain ⟨hstep, htimely⟩ := hab
  cases hstep with
  | tick dt => exact h.tick dt
  | enqueue e due hnew =>
    exact (h.use e.entryId).insert due (update_self _ _ _) (h.usedDeleted _ hnew)
  | reserve n e hnew hfree => exact h.reserve hnew hfree
  | commit n e hcopy | commitUnknown n e hcopy =>
    have hrow := h.insert (a.shared.now + handoffGrace) (h.usedCopy n _ hcopy)
      (h.alive n _ hcopy rfl)
    exact hrow.advance hcopy rfl rfl rfl
  | rollback n e hcopy => exact h.advance hcopy rfl rfl rfl
  | next n e st st' hcopy hnext =>
    cases hnext <;> exact h.advance hcopy rfl rfl rfl
  | send n e hcopy | sendPooled n e hcopy => exact { h.advance hcopy rfl rfl rfl with }
  | fail n e st shared hcopy hfail hwritten =>
    exact (written hwritten h).advance hcopy (Stage.alive_of_canFail hfail) rfl rfl
  | wait n e due hcopy | abandon n e hcopy =>
    exact (h.within (Table.modify_within _ _ _)).advance hcopy rfl rfl rfl
  | mark n e hcopy =>
    exact { h.advance hcopy rfl rfl rfl with }
  | delete n e hcopy => exact h.setDeleted hcopy rfl rfl rfl (.inl rfl)
  | deleteInPlace n e st hcopy hplace =>
    exact h.setDeleted hcopy (Stage.alive_of_inPlace hplace) rfl rfl (.inr htimely)
  | remember n e hcopy => exact h.remember hcopy
  | clear n e again hcopy => exact h.clear hcopy
  | clearAgain n e hcopy =>
    have hcleared := h.clear_unheld (h.released n _ hcopy rfl rfl)
    refine hcleared.unwind (x := some (.cleared false)) hcopy rfl ?_
    rintro st' ⟨⟩
    exact ⟨rfl, nofun⟩
  | unclaim n e again hcopy =>
    refine { h.unwind (x := some (.unclaimed again)) hcopy rfl ?_ with }
    rintro st' ⟨⟩
    exact ⟨rfl, by cases again <;> exact fun hs => hs⟩
  | undeliver n e again hcopy =>
    cases again with
    | true =>
      refine { h.unwind (x := some .rereleasing) hcopy rfl ?_ with }
      rintro st' ⟨⟩
      exact ⟨rfl, fun _ => rfl⟩
    | false => exact { h.unwind (x := none) hcopy rfl nofun with }
  | renew ids hids => exact h.within (Table.renewClaims_within _ _ _)
  | round | snapshot => exact h.handLess rfl fun _ hid => hid
  | claim es hread hchecked hnodup hdue hexclude =>
    exact (h.claim hdue hchecked).within (Table.lease_within _ _ _)
  | check e es hread hchecked hrecent =>
    refine h.handLess rfl ?_
    rintro id (⟨e', he', hid⟩ | ⟨_, ⟨⟩, hid⟩)
    · exact .inl ⟨e', hread ▸ mem_cons_of_mem _ he', hid⟩
    · exact .inl ⟨e, hread ▸ (.head _), hid⟩
  | skip e es hread hchecked hrecent =>
    refine h.handLess rfl ?_
    rintro id (⟨e', he', hid⟩ | hid)
    · exact .inl ⟨e', hread ▸ mem_cons_of_mem _ he', hid⟩
    · exact .inr hid
  | take n e hchecked hfresh hfree =>
    obtain ⟨hrecent, hread⟩ := htimely
    exact h.take hchecked hfresh hfree (h.take_not_deleted hchecked hfresh hrecent hread)
  | refuse e hchecked hfresh =>
    refine h.handLess rfl ?_
    rintro id (hid | ⟨e', ⟨⟩, -⟩)
    exact .inl hid
  | pass n e hcopy =>
    cases hpool : e.pooled with
    | true => exact { h.advance hcopy rfl rfl rfl with }
    | false => exact { h.advance hcopy rfl rfl rfl with }
  | withdraw inst node => exact h.withdraw inst node

end Sound

/-! ## The theorem -/

/-- One delivery at a time: a row that is queued, being sent or waiting for its deletion is in the
hands of one task; none was handed out after its deletion; and what is in flight is in the hands of
a task. -/
structure OneDelivery (p : Process) : Prop where
  unique : p.Unique
  late : p.late = []
  owned : ∀ id, p.inflight id = true → p.Held id

/-- **One delivery at a time, and none after deletion**, in every run whose steps are in time. -/
theorem one_delivery_at_a_time (maxAttempts : Option Nat) (ls : List Event) (b : World)
    (hrun : Run (TimelyStep maxAttempts) .initial ls b) : OneDelivery b.proc := by
  have hsound := hrun.invariant (I := fun a => Sound a.shared a.proc)
    (fun _ _ _ _ hab h => h.step hab) Sound.initial
  exact ⟨hsound.unique, hsound.late, fun id => (hsound.inflight id).mp⟩

def localRow : Entry := ⟨"local", "instance", some "call", 0, false⟩

def remoteRow : Entry := ⟨"remote", "other", none, 0, false⟩

/-- A row is handed off, sent, deleted and noted, and another is claimed. -/
theorem delivered_then_claimed : ∃ ls b, Run (TimelyStep none) .initial ls b ∧
    (b.proc.deletedAt "local").isSome = true ∧ b.proc.copies 1 = some ⟨remoteRow, .routed⟩ ∧
    OneDelivery b.proc := by
  have hrun : Run (TimelyStep none) World.initial _ _ :=
    .cons ⟨.enqueue remoteRow 0 rfl, trivial⟩ <|
      .cons ⟨.reserve 0 localRow rfl rfl, trivial⟩ <|
      .cons ⟨.commit 0 localRow rfl, trivial⟩ <|
      .cons ⟨.next 0 localRow _ _ rfl .handOff, trivial⟩ <|
      .cons ⟨.next 0 localRow _ _ rfl (.route rfl), trivial⟩ <|
      .cons ⟨.send 0 localRow rfl, trivial⟩ <|
      .cons ⟨.next 0 localRow _ _ rfl (.deliver false), trivial⟩ <|
      .cons ⟨.mark 0 localRow rfl, trivial⟩ <|
      .cons ⟨.next 0 localRow _ _ rfl .batch, trivial⟩ <|
      .cons ⟨.delete 0 localRow rfl, trivial⟩ <|
      .cons ⟨.remember 0 localRow rfl, trivial⟩ <|
      .cons ⟨.clear 0 localRow true rfl, trivial⟩ <|
      .cons ⟨.snapshot rfl rfl, trivial⟩ <|
      .cons ⟨.claim [remoteRow] rfl rfl (pairwise_singleton _ _)
        (forall_mem_singleton.mpr ⟨⟨remoteRow, 0, false⟩, rfl, rfl, rfl, Nat.le_refl _⟩)
        (forall_mem_singleton.mpr rfl), trivial⟩ <|
      .cons ⟨.check remoteRow [] rfl rfl rfl, trivial⟩ <|
      .cons ⟨.take 1 remoteRow rfl rfl rfl, rfl, by decide⟩ <|
      .cons ⟨.pass 1 remoteRow rfl, trivial⟩ <|
      .nil _
  exact ⟨_, _, hrun, rfl, rfl, one_delivery_at_a_time none _ _ hrun⟩

/-- A delivered row waits for its deletion until its lease is over, and is claimed. The claimer
finds that it was not finished; then it is deleted, noted and released, and then the claimer finds
that it is not in flight either. -/
theorem taken_after_delete : ∃ ls b, Run (Step none) .initial ls b ∧ b.proc.late = ["local"] := by
  have hrun : Run (Step none) World.initial _ _ :=
    .cons (.reserve 0 localRow rfl rfl) <|
      .cons (.commit 0 localRow rfl) <|
      .cons (.next 0 localRow _ _ rfl .handOff) <|
      .cons (.next 0 localRow _ _ rfl (.route rfl)) <|
      .cons (.send 0 localRow rfl) <|
      .cons (.next 0 localRow _ _ rfl (.deliver false)) <|
      .cons (.mark 0 localRow rfl) <|
      .cons (.next 0 localRow _ _ rfl .batch) <|
      .cons (.tick 30) <|
      .cons (.snapshot rfl rfl) <|
      .cons (.claim [localRow] rfl rfl (pairwise_singleton _ _)
        (forall_mem_singleton.mpr ⟨⟨localRow, 30, false⟩, rfl, rfl, rfl, Nat.le_refl _⟩)
        (forall_mem_singleton.mpr rfl)) <|
      .cons (.check localRow [] rfl rfl rfl) <|
      .cons (.delete 0 localRow rfl) <|
      .cons (.remember 0 localRow rfl) <|
      .cons (.clear 0 localRow true rfl) <|
      .cons (.take 1 localRow rfl rfl rfl) <|
      .nil _
  exact ⟨_, _, hrun, rfl⟩

end Sutra.Outbox
