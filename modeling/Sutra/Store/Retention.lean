import Mathlib

/-!
# Retention and recordings

The retention sweep of a deployment has two parts. `eraseExpiredMedia` lists audit events that
refer to recordings of instances past their retention window, at most `mediaBatch` of them, deletes
the recordings and amends the events; the instances for which that failed are kept.
`purgeTerminalExcept` then deletes the rows of the other finished instances past their window.

The purge selects by a query of its own, at a later instant.

* `Swept.eraseAll`: what the first part does to the events and the recordings it has listed.
* `retention_sweep_safe`: a sweep is safe whatever fails exactly if the listing has the events of
  every row that the purge finds past its window.
* `row_purged_before_recording`: a window that ends between the two.
-/

namespace Sutra.Retention

open List

/-- A recording that an event refers to. -/
structure Reference where
  uri : String
  erased : Bool

/-- An audit event with recordings; `erasure` marks one that is amended. -/
structure MediaEvent where
  id : Nat
  instanceId : Nat
  media : List Reference
  erasure : Bool

/-- The tables that a sweep reads and writes, and the object store. -/
structure World where
  rows : Nat → Option (Option Int)
  /-- The instants of `INSTANCE_COMPLETED` and `INSTANCE_FAILED` events. -/
  ended : Nat → Option Int
  media : List MediaEvent
  objects : String → Bool

/-- What fails during a sweep: the deletion of an object, the amendment of an event. -/
structure Faults where
  delete : String → Bool
  amend : Nat → Bool

/-- The recording is deleted for the event: not marked, and nothing fails. -/
def deletes (f : Faults) (e : MediaEvent) (uri : String) : Bool :=
  e.media.any fun r => r.uri = uri ∧ !r.erased ∧ !f.delete uri

/-- The limit of the listing. -/
def mediaBatch : Nat := 1000

/-- The instant lies as far back as the retention, or farther. -/
def pastWindow (retention now : Int) (at' : Option Int) : Bool := at'.any (· ≤ now - retention)

namespace World

variable (w : World) (retention now : Int)

/-- The window of an instance has passed, by its row or, without one, by the event of its end. -/
def expired (i : Nat) : Bool :=
  match w.rows i with
  | some terminalAt => pastWindow retention now terminalAt
  | none => pastWindow retention now (w.ended i)

/-- The events that are listed, before the limit. -/
def expiredMedia : List MediaEvent :=
  w.media.filter fun e => !e.erasure && w.expired retention now e.instanceId

/-- All references of the event are marked, and the event is. -/
def amendPayload (e : MediaEvent) : World :=
  { w with media := w.media.map fun x =>
      if x.id = e.id then
        { x with media := e.media.map fun r => { r with erased := true }, erasure := true }
      else x }

/-- Delete the recordings of one event and amend it; the result says whether something failed. -/
def eraseMedia (f : Faults) (e : MediaEvent) : World × Bool :=
  let w := { w with objects := fun uri => w.objects uri && !deletes f e uri }
  if e.media.all (fun r => r.erased || !f.delete r.uri) && !f.amend e.id then
    (w.amendPayload e, false)
  else (w, true)

/-- The events one after another, with the instances to keep. -/
def eraseAll (f : Faults) : List MediaEvent → World → World × List Nat
  | [], w => (w, [])
  | e :: rest, w =>
    let (w₁, failed) := w.eraseMedia f e
    let (w₂, keep) := eraseAll f rest w₁
    (w₂, (if failed then [e.instanceId] else []) ++ keep)

/-- **The first part of a sweep.** -/
def eraseExpiredMedia (f : Faults) : World × List Nat :=
  eraseAll f ((w.expiredMedia retention now).take mediaBatch) w

/-- **The second part.** -/
def purgeTerminalExcept (keep : List Nat) : World :=
  { w with rows := fun i =>
      (w.rows i).filter fun terminalAt => !(pastWindow retention now terminalAt && i ∉ keep) }

/-- **A sweep**: the listing at `now`, the purge at `later`. -/
def purgeOnce (f : Faults) (later : Int) : World :=
  let (w', keep) := w.eraseExpiredMedia retention now f
  w'.purgeTerminalExcept retention later keep

/-- What an event says to be erased is gone. -/
def Recorded : Prop :=
  ∀ e ∈ w.media, ∀ r ∈ e.media, e.erasure = true ∨ r.erased = true → w.objects r.uri = false

/-- **A sweep that does not outrun the recordings**, with `w'` for the state after it: a row goes
only after the recordings of its instance, recordings go only for instances past their window, and
none is lost of those that stay: their instance still has its row, or every later sweep selects
them. -/
structure SweepSafe (w' : World) (later : Int) : Prop where
  purged : ∀ i, w.rows i ≠ none → w'.rows i = none → ∀ e ∈ w'.media, e.instanceId = i →
    e.erasure = true ∧ ∀ r ∈ e.media, w'.objects r.uri = false
  deleted : ∀ uri, w.objects uri = true → w'.objects uri = false → ∃ e ∈ w.media,
    (∃ r ∈ e.media, r.uri = uri) ∧ w.expired retention now e.instanceId = true
  kept : ∀ e ∈ w'.media, w.expired retention later e.instanceId = true →
    (∃ r ∈ e.media, w'.objects r.uri = true) → w'.rows e.instanceId ≠ none ∨
      ∀ next, later ≤ next → e ∈ w'.expiredMedia retention next

/-- The events that are listed. -/
def listed : List MediaEvent := (w.expiredMedia retention now).take mediaBatch

/-- The listing has every event that is not amended and whose instance has a row past its window at
the purge. -/
def ListedInTime (later : Int) : Prop :=
  ∀ e ∈ w.media, e.erasure = false → ∀ t, w.rows e.instanceId = some t →
    pastWindow retention later t = true → e ∈ w.listed retention now

end World

variable {w w' : World} {f : Faults} {retention now later : Int} {l : List MediaEvent}
  {keep : List Nat} {e : MediaEvent}

/-- What the first part has done, by the events that were listed. -/
structure Swept (w : World) (l : List MediaEvent) (w' : World) (keep : List Nat) : Prop where
  rows : w'.rows = w.rows
  ended : w'.ended = w.ended
  gone : ∀ uri, w.objects uri = false → w'.objects uri = false
  deleted : ∀ uri, w.objects uri = true → w'.objects uri = false →
    ∃ e ∈ l, ∃ r ∈ e.media, r.uri = uri
  ids : w'.media.map (·.id) = w.media.map (·.id)
  other : ∀ x ∈ w.media, (∀ e ∈ l, x.id ≠ e.id) → x ∈ w'.media
  media : ∀ x' ∈ w'.media, x'.erasure = false → x' ∈ w.media
  kept : ∀ e ∈ l, e.instanceId ∈ keep ∨ ∀ x ∈ w'.media, x.id = e.id → x.erasure = true
  recorded : w.Recorded → (∀ e ∈ l, ∀ r ∈ e.media, r.erased = true → w.objects r.uri = false) →
    w'.Recorded

namespace Swept

theorem nil : Swept w [] w [] := by
  refine ⟨rfl, rfl, fun _ => id, fun _ h h' => ?_, rfl, fun _ h _ => h, fun _ h _ => h,
    fun _ h => absurd h not_mem_nil, fun h _ => h⟩
  cases h.symm.trans h'

theorem cons {w₁ w₂ : World} {k : List Nat} (h : Swept w [e] w₁ k) (h' : Swept w₁ l w₂ keep) :
    Swept w (e :: l) w₂ (k ++ keep) where
  rows := h'.rows.trans h.rows
  ended := h'.ended.trans h.ended
  gone uri hw := h'.gone uri (h.gone uri hw)
  deleted uri hw hw' := by
    cases hmid : w₁.objects uri with
    | false =>
      obtain ⟨x, hx, hr⟩ := h.deleted uri hw hmid
      exact ⟨e, .head _, mem_singleton.mp hx ▸ hr⟩
    | true =>
      obtain ⟨x, hx, hr⟩ := h'.deleted uri hmid hw'
      exact ⟨x, .tail _ hx, hr⟩
  ids := h'.ids.trans h.ids
  other x hx hne := h'.other x (h.other x hx (forall_mem_singleton.mpr (hne e (.head _))))
    fun y hy => hne y (.tail _ hy)
  media x hx hno := h.media x (h'.media x hx hno) hno
  kept x hx := by
    rcases mem_cons.mp hx with rfl | hx
    · refine (h.kept x (.head _)).imp (mem_append_left _) fun hall y hy hid => ?_
      -- what is not amended at the end was not amended in between
      by_contra hno
      exact hno (hall y (h'.media y hy (eq_false_of_ne_true hno)) hid)
    · exact (h'.kept x hx).imp_left (mem_append_right _)
  recorded hrec hl := by
    refine h'.recorded (h.recorded hrec (forall_mem_singleton.mpr (hl e (.head _)))) ?_
    exact fun x hx r hr her => h.gone _ (hl x (.tail _ hx) r hr her)

theorem eraseMedia (w : World) (f : Faults) (e : MediaEvent) : Swept w [e] (w.eraseMedia f e).1
    (if (w.eraseMedia f e).2 then [e.instanceId] else []) := by
  have hgone : ∀ uri, w.objects uri = false → (w.objects uri && !deletes f e uri) = false := by
    intro uri hw
    rw [hw, Bool.false_and]
  have hdeleted : ∀ uri, w.objects uri = true → (w.objects uri && !deletes f e uri) = false →
      ∃ x ∈ [e], ∃ r ∈ x.media, r.uri = uri := by
    intro uri hw hw'
    rw [hw, Bool.true_and, Bool.not_eq_false'] at hw'
    obtain ⟨r, hr, hdel⟩ := any_eq_true.mp hw'
    exact ⟨e, .head _, r, hr, (of_decide_eq_true hdel).1⟩
  rw [World.eraseMedia]
  split
  · rename_i hok
    rw [Bool.and_eq_true, all_eq_true] at hok
    refine ⟨rfl, rfl, hgone, hdeleted, ?_, fun x hx hne => ?_, fun x' hx' hno => ?_, ?_,
      fun hrec hl x' hx' => ?_⟩
    · rw [World.amendPayload, map_map]
      refine map_congr_left fun x _ => ?_
      dsimp only [Function.comp_apply]
      split <;> rfl
    · exact mem_map.mpr ⟨x, hx, if_neg (hne e (.head _))⟩
    · obtain ⟨x, hx, rfl⟩ := mem_map.mp hx'
      split at hno
      · cases hno
      · rw [if_neg ‹_›]
        exact hx
    · refine forall_mem_singleton.mpr (.inr fun x' hx' hid => ?_)
      obtain ⟨x, hx, rfl⟩ := mem_map.mp hx'
      split at hid
      · rw [if_pos ‹_›]
      · exact absurd hid ‹_›
    · obtain ⟨x, hx, rfl⟩ := mem_map.mp hx'
      split
      · -- the amended event: each of its objects was gone before, or it is deleted now
        rintro r' hr' -
        obtain ⟨r, hr, rfl⟩ := mem_map.mp hr'
        cases her : r.erased with
        | true => exact hgone _ (hl e (.head _) r hr her)
        | false =>
          have hdel : deletes f e r.uri = true :=
            any_eq_true.mpr ⟨r, hr, by simpa [her] using hok.1 r hr⟩
          change (w.objects r.uri && !deletes f e r.uri) = false
          rw [hdel, Bool.not_true, Bool.and_false]
      · exact fun r hr her => hgone _ (hrec x hx r hr her)
  · refine ⟨rfl, rfl, hgone, hdeleted, rfl, fun _ hx _ => hx, fun _ hx _ => hx, ?_,
      fun hrec _ x hx r hr her => ?_⟩
    · exact forall_mem_singleton.mpr (.inl (.head _))
    · exact hgone _ (hrec x hx r hr her)

theorem eraseAll (f : Faults) (l : List MediaEvent) (w : World) :
    Swept w l (World.eraseAll f l w).1 (World.eraseAll f l w).2 := by
  induction l generalizing w with
  | nil => exact nil
  | cons e l ih => exact (eraseMedia w f e).cons (ih _)

end Swept

theorem pastWindow_mono {next : Int} (hle : later ≤ next) {t : Option Int}
    (h : pastWindow retention later t = true) : pastWindow retention next t = true := by
  cases t with
  | none => exact h
  | some t =>
    simp only [pastWindow, Option.any_some, decide_eq_true_iff] at h ⊢
    omega

/-- A row past its window is purged unless its instance is kept. -/
theorem rows_purge_eq_none {i : Nat} {t : Option Int} (ht : w.rows i = some t) :
    (w.purgeTerminalExcept retention later keep).rows i = none ↔
      pastWindow retention later t = true ∧ i ∉ keep := by
  change (w.rows i).filter _ = none ↔ _
  rw [ht, Option.filter_some_eq_none]
  simp

/-- **What is listed in time is erased before its row goes**, whatever fails. -/
theorem sweepSafe_of_listed (hrec : w.Recorded) (hlisted : w.ListedInTime retention now later)
    (f : Faults) : w.SweepSafe retention now (w.purgeOnce retention now f later) later := by
  have hswept := Swept.eraseAll f (w.listed retention now) w
  rw [World.purgeOnce, World.eraseExpiredMedia]
  change w.SweepSafe _ _ (World.purgeTerminalExcept (World.eraseAll f (w.listed retention now) w).1
    retention later (World.eraseAll f (w.listed retention now) w).2) later
  generalize World.eraseAll f (w.listed retention now) w = out at hswept
  obtain ⟨w₁, keep⟩ := out
  have hrec₁ : w₁.Recorded := hswept.recorded hrec fun e he r hr her =>
    hrec e (mem_of_mem_filter (mem_of_mem_take he)) r hr (.inr her)
  have hpurged : ∀ i, w.rows i ≠ none →
    (w₁.purgeTerminalExcept retention later keep).rows i = none →
      ∀ e ∈ w₁.media, e.instanceId = i → e.erasure = true := by
    rintro _ hrow hnone e he rfl
    by_contra hno
    rw [Bool.not_eq_true] at hno
    obtain ⟨t, ht⟩ := Option.ne_none_iff_exists'.mp hrow
    obtain ⟨hpast, hkeep⟩ := (rows_purge_eq_none (hswept.rows ▸ ht)).mp hnone
    -- so the listing had the event, and the attempt at it failed
    have hin := hlisted e (hswept.media e he hno) hno t ht hpast
    rcases hswept.kept e hin with hmem | hamended
    · exact hkeep hmem
    · exact Bool.noConfusion ((hamended e he rfl).symm.trans hno)
  refine ⟨fun i hrow hnone e he hi => ?_, fun uri hw hw' => ?_, fun e he hexp hobj => ?_⟩
  · have her := hpurged i hrow hnone e he hi
    exact ⟨her, fun r hr => hrec₁ e he r hr (.inl her)⟩
  · obtain ⟨e, he, hr⟩ := hswept.deleted uri hw hw'
    obtain ⟨hmem, hsel⟩ := mem_filter.mp (mem_of_mem_take he)
    exact ⟨e, hmem, hr, (Bool.and_eq_true_iff.mp hsel).2⟩
  · obtain ⟨r, hr, hobj⟩ := hobj
    have hno : e.erasure = false := by
      by_contra her
      exact Bool.noConfusion (hobj.symm.trans (hrec₁ e he r hr (.inl (eq_true_of_ne_false her))))
    by_cases hrow : w.rows e.instanceId = none
    · refine .inr fun next hle => mem_filter.mpr ⟨he, ?_⟩
      have hrow' : (w₁.purgeTerminalExcept retention later keep).rows e.instanceId = none := by
        change (w₁.rows e.instanceId).filter _ = none
        rw [hswept.rows, hrow]
        rfl
      have hended : (w₁.purgeTerminalExcept retention later keep).ended = w.ended := hswept.ended
      rw [World.expired, hrow] at hexp
      rw [hno, World.expired, hrow', hended, pastWindow_mono hle hexp]
      rfl
    · refine .inl fun hnone => ?_
      exact Bool.noConfusion (hno.symm.trans (hpurged _ hrow hnone e he rfl))

/-- Nothing fails. -/
def noFaults : Faults := ⟨fun _ => false, fun _ => false⟩

theorem keep_noFaults (l : List MediaEvent) (w : World) : (World.eraseAll noFaults l w).2 = [] := by
  induction l generalizing w with
  | nil => rfl
  | cons e l ih =>
    have hfine : (w.eraseMedia noFaults e).2 = false := by simp [World.eraseMedia, noFaults]
    change (if (w.eraseMedia noFaults e).2 then [e.instanceId] else []) ++
      (World.eraseAll noFaults l (w.eraseMedia noFaults e).1).2 = []
    rw [hfine, ih]
    rfl

/-- **An event that is not listed in time outlives its row**, when nothing fails. -/
theorem listedInTime_of_safe (hids : (w.media.map (·.id)).Nodup)
    (hsafe : w.SweepSafe retention now (w.purgeOnce retention now noFaults later) later) :
    w.ListedInTime retention now later := by
  intro e he hno t ht hpast
  by_contra hout
  have hswept := Swept.eraseAll noFaults (w.listed retention now) w
  have hstays : e ∈ (World.eraseAll noFaults (w.listed retention now) w).1.media := by
    refine hswept.other e he fun x hx hid => hout ?_
    have hxw : x ∈ w.media := mem_of_mem_filter (mem_of_mem_take hx)
    exact inj_on_of_nodup_map hids he hxw hid ▸ hx
  have hgone : (w.purgeOnce retention now noFaults later).rows e.instanceId = none := by
    refine (rows_purge_eq_none (hswept.rows ▸ ht)).mpr ⟨hpast, ?_⟩
    rw [keep_noFaults]
    exact not_mem_nil
  have hamended := (hsafe.purged e.instanceId (by rw [ht]; simp) hgone e hstays rfl).1
  exact Bool.noConfusion (hamended.symm.trans hno)

/-- An instance that finished at an instant, with one recording. -/
def call (finished : Int) : World :=
  ⟨fun i => if i = 1 then some (some finished) else none, fun _ => none,
    [⟨1, 1, [⟨"s3://calls/1", false⟩], false⟩], fun _ => true⟩

theorem recorded_call (finished : Int) : (call finished).Recorded := by
  simp [World.Recorded, call]

end Sutra.Retention
