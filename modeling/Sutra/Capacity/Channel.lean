import Mathlib
import Sutra.Lib.Run

/-!
# The concurrency cap of a channel

A channel with `max-concurrent-instances` counts the rows of `channel_instance` before it admits a
start, and the row of the new instance is written after its first pass. By its configuration the
count has the parked instances or not (`includeWaiting`); a resume is not counted at all.

* `unfinished_le_cap`: in either configuration the cap holds if every start is counted when the
  instances before it have their rows and, where parked instances are not counted, a resume finds
  room.
* `step_le_cap_iff`: which single events keep the cap.
* `cap_exceeded`: two ways beyond it.
-/

namespace Sutra.Channel

open List

/-- The status of an instance; in a row, of the row. -/
inductive InstanceStatus where
  | running
  | waiting
  deriving DecidableEq

/-- Instances of the channel by their ids. -/
abbrev Instances := List (String × InstanceStatus)

/-- The rows of `channel_instance`, and the admitted instances that are not over. -/
structure World where
  rows : Instances
  unfinished : Instances

namespace Instances

/-- Set the status of an instance that is listed. -/
def setStatus (l : Instances) (i : String) (s : InstanceStatus) : Instances :=
  l.map fun e => (e.1, if e.1 = i then s else e.2)

/-- The instance is not listed any more. -/
def recordTerminal (l : Instances) (i : String) : Instances := l.filter fun e => e.1 ≠ i

/-- The instance is listed as running. -/
def recordStarted (l : Instances) (i : String) : Instances := l.recordTerminal i ++ [(i, .running)]

/-- The instances that count against the cap. -/
def active (l : Instances) (includeWaiting : Bool) : Instances :=
  l.filter fun e => e.2 = .running || includeWaiting

/-- How many there are. -/
def countActive (l : Instances) (includeWaiting : Bool) : Nat := (l.active includeWaiting).length

theorem ids_setStatus (l : Instances) (i : String) (s : InstanceStatus) :
    (l.setStatus i s).map Prod.fst = l.map Prod.fst := by
  rw [setStatus, map_map]
  rfl

theorem countActive_true (l : Instances) : l.countActive true = l.length := by
  simp [countActive, active]

/-- A parked instance counts at most as much as before. -/
theorem countActive_park (l : Instances) (i : String) (iw : Bool) :
    (l.setStatus i .waiting).countActive iw ≤ l.countActive iw := by
  rw [countActive, countActive, active, active, setStatus, filter_map, length_map]
  refine (monotone_filter_right l fun e he => ?_).length_le
  grind

/-- A resumed instance is one more if it was parked and parked ones are not counted. -/
theorem countActive_resume {l : Instances} (h : (l.map Prod.fst).Nodup) (i : String) :
    (l.setStatus i .running).countActive false =
      l.countActive false + if (i, .waiting) ∈ l then 1 else 0 := by
  induction l with
  | nil => rfl
  | cons e l ih =>
    obtain ⟨hnew, hrest⟩ := nodup_cons.mp h
    have ih := ih hrest
    have hout : e.1 = i → (i, .waiting) ∉ l := fun he hmem => hnew (he ▸ mem_map_of_mem hmem)
    obtain ⟨j, status⟩ := e
    simp only [countActive, active, setStatus, map_cons, filter_cons, mem_cons] at ih ⊢
    cases status <;> by_cases hj : j = i <;> grind

end Instances

/-- What happens on any lane; a statement on the rows works or fails. -/
inductive Event where
  | start (i : String) (counted : Bool)
  | chain (i : String) (started : Bool)
  | park (i : String) (started suspended : Bool)
  | resume (i : String) (resumed : Bool)
  | finish (i : String) (deleted : Bool)
  | endSession (i : String)

namespace World

/-- What the check of the cap counts; a count that fails is 0. -/
def counted (w : World) (includeWaiting works : Bool) : Nat :=
  if works then w.rows.countActive includeWaiting else 0

/-- **One event of the channel.** -/
def step (cap : Nat) (includeWaiting : Bool) (w : World) : Event → World
  | .start i works =>
    if cap ≤ w.counted includeWaiting works then w
    else { w with unfinished := w.unfinished ++ [(i, .running)] }
  | .chain i started => if started then { w with rows := w.rows.recordStarted i } else w
  | .park i started suspended =>
    let rows := if started then w.rows.recordStarted i else w.rows
    ⟨if suspended then rows.setStatus i .waiting else rows, w.unfinished.setStatus i .waiting⟩
  | .resume i resumed =>
    ⟨if resumed then w.rows.setStatus i .running else w.rows, w.unfinished.setStatus i .running⟩
  | .finish i deleted =>
    ⟨if deleted then w.rows.recordTerminal i else w.rows, w.unfinished.recordTerminal i⟩
  | .endSession i => { w with rows := w.rows.recordTerminal i }

/-- There is room for the event: a start that is admitted, or the resume of a parked instance that
was not counted. -/
def Room (cap : Nat) (includeWaiting : Bool) (w : World) : Event → Prop
  | .start _ works => cap ≤ w.counted includeWaiting works ∨
      w.unfinished.countActive includeWaiting < cap
  | .resume i _ => includeWaiting = true ∨ (i, .waiting) ∉ w.unfinished ∨
      w.unfinished.countActive includeWaiting < cap
  | _ => True

/-- At a start the count works, the id is new and every instance that counts has a row that counts;
at the resume of a parked instance that was not counted there is room. -/
def Orderly (cap : Nat) (includeWaiting : Bool) (w : World) : Event → Prop
  | .start i works => works = true ∧ i ∉ w.unfinished.map Prod.fst ∧
      (w.unfinished.active includeWaiting).map Prod.fst ⊆
        (w.rows.active includeWaiting).map Prod.fst
  | .resume i resumed => w.Room cap includeWaiting (.resume i resumed)
  | _ => True

instance (cap : Nat) (iw : Bool) (w : World) (e : Event) : Decidable (w.Orderly cap iw e) := by
  cases e <;> unfold Orderly Room <;> infer_instance

/-- No instance is listed twice, and those that count are not more than the cap. -/
def Capped (cap : Nat) (includeWaiting : Bool) (w : World) : Prop :=
  (w.unfinished.map Prod.fst).Nodup ∧ w.unfinished.countActive includeWaiting ≤ cap

variable {cap : Nat} {iw : Bool} {w w' : World} {e : Event}

/-- **Which events keep the cap.** -/
theorem step_le_cap_iff (h : w.Capped cap iw) (e : Event) :
    (w.step cap iw e).unfinished.countActive iw ≤ cap ↔ w.Room cap iw e := by
  cases e with
  | start i works =>
    rw [World.step, Room]
    split
    · rename_i hfull
      exact iff_of_true h.2 (.inl hfull)
    · rename_i hfull
      simp only [Instances.countActive, Instances.active, filter_append, length_append, hfull,
        false_or]
      exact Nat.succ_le_iff
  | resume i =>
    rw [World.step, Room]
    cases iw with
    | true =>
      refine iff_of_true ?_ (.inl rfl)
      have hlen := h.2
      rw [Instances.countActive_true] at hlen ⊢
      exact (length_map _).trans_le hlen
    | false =>
      have hle := h.2
      rw [Instances.countActive_resume h.1]
      split <;> simp_all
  | chain i started =>
    refine iff_of_true ?_ trivial
    rw [World.step]
    split <;> exact h.2
  | park i => exact iff_of_true ((Instances.countActive_park ..).trans h.2) trivial
  | finish i =>
    refine iff_of_true (le_trans ?_ h.2) trivial
    exact (filter_sublist.filter _).length_le
  | endSession i => exact iff_of_true h.2 trivial

/-- The instances that count have their rows, so that the count of the rows is not below theirs. -/
theorem Orderly.room (h : w.Capped cap iw) (horderly : w.Orderly cap iw e) : w.Room cap iw e := by
  cases e with
  | start i works =>
    obtain ⟨rfl, -, hrows⟩ := horderly
    have hnodup : ((w.unfinished.active iw).map Prod.fst).Nodup :=
      h.1.sublist (filter_sublist.map _)
    have hle := (subperm_of_subset hnodup hrows).length_le
    rw [length_map, length_map] at hle
    exact (le_or_gt cap _).imp_right hle.trans_lt
  | resume i resumed => exact horderly
  | chain | park | finish | endSession => trivial

theorem Capped.step (h : w.Capped cap iw) (horderly : w.Orderly cap iw e) :
    (w.step cap iw e).Capped cap iw := by
  refine ⟨?_, (step_le_cap_iff h e).mpr (Orderly.room h horderly)⟩
  cases e with
  | start i works =>
    rw [World.step]
    split
    · exact h.1
    · rw [map_append, map_singleton, ← concat_eq_append]
      exact .concat horderly.2.1 h.1
  | chain i started =>
    rw [World.step]
    split <;> exact h.1
  | park i | resume i => exact (Instances.ids_setStatus ..).symm ▸ h.1
  | finish i => exact h.1.sublist (filter_sublist.map _)
  | endSession i => exact h.1

/-- **A capped channel never runs more than its cap** in orderly runs, the parked instances counted
or not as configured; and from where such a run leads, an event keeps the cap exactly if it finds
room. -/
theorem unfinished_le_cap {es : List Event}
    (hrun : Run (fun w e w' => w.Orderly cap iw e ∧ w' = w.step cap iw e) ⟨[], []⟩ es w) :
    w.unfinished.countActive iw ≤ cap ∧
      ∀ e, (w.step cap iw e).unfinished.countActive iw ≤ cap ↔ w.Room cap iw e := by
  have h : w.Capped cap iw := hrun.invariant (fun e _ a b hab ha => hab.2 ▸ ha.step hab.1)
    ⟨nodup_nil, Nat.zero_le _⟩
  exact ⟨h.2, step_le_cap_iff h⟩

/-- The parked instance `a` has the one place, so that `b` is refused until `a` is over. -/
def counting : List Event :=
  [.start "a" true, .park "a" true true, .start "b" true, .resume "a" false, .finish "a" true,
    .start "c" true]

/-- The parked instance `a` leaves its place to `b`, and goes on when `b` is over. -/
def skipping : List Event :=
  [.start "a" true, .park "a" true true, .start "b" true, .chain "b" true, .start "c" true,
    .finish "b" true, .resume "a" true]

theorem one_start_admitted :
    (foldl (step 1 true) ⟨[], []⟩ counting).unfinished.countActive true ≤ 1 ∧
      (foldl (step 1 false) ⟨[], []⟩ skipping).unfinished.countActive false ≤ 1 :=
  ⟨(@unfinished_le_cap 1 true _ counting <| .cons ⟨by decide, rfl⟩ <|
      .cons ⟨by decide, rfl⟩ <| .cons ⟨by decide, rfl⟩ <| .cons ⟨by decide, rfl⟩ <|
      .cons ⟨by decide, rfl⟩ <| .cons ⟨by decide, rfl⟩ <| .nil _).1,
    (@unfinished_le_cap 1 false _ skipping <| .cons ⟨by decide, rfl⟩ <|
      .cons ⟨by decide, rfl⟩ <| .cons ⟨by decide, rfl⟩ <| .cons ⟨by decide, rfl⟩ <|
      .cons ⟨by decide, rfl⟩ <| .cons ⟨by decide, rfl⟩ <| .cons ⟨by decide, rfl⟩ <| .nil _).1⟩

/-- Two starts are counted before either has its row; and, with only the running instances counted,
a parked one goes on. -/
theorem cap_exceeded : (foldl (step 1 true) ⟨[], []⟩
      [.start "a" true, .start "b" true, .park "a" true true, .park "b" true true]).unfinished =
        [("a", .waiting), ("b", .waiting)] ∧
    (foldl (step 1 false) ⟨[], []⟩ [.start "a" true, .park "a" true true, .start "b" true,
      .resume "a" true]).unfinished = [("a", .running), ("b", .running)] := by decide

end World
end Sutra.Channel
