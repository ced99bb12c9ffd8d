import Mathlib
import Sutra.Bpmn.Model

/-!
# The timers of start events

What a timer definition says about the starts of a process. Instants and durations are numbers, and
the texts of the model are read by `TimerTexts`. The numbers have no bound, where the sum of an
`OffsetDateTime` and an interval panics beyond the last year of the calendar.

* `firstDueAt`, `totalFires`: the first instant, and how often it fires in all.
* `advanceCycle`: where a cycle goes after an occurrence. One whose time has passed while nobody
  polled is skipped, and still spends a repeat.
-/

namespace Sutra

open List Option

structure TimerTexts where
  parseTimerDuration : String → Option Nat
  parseTimerInstant : String → Option Int

namespace TimerDefinition

def totalFires : TimerDefinition → Option Nat
  | .duration _ | .date _ => some 1
  | .cycle c => c.repeats
  | .expression .cycle _ => none
  | .expression _ _ => some 1

def firstDueAt (texts : TimerTexts) (now : Int) : TimerDefinition → Option Int
  | .duration d => (texts.parseTimerDuration d).map fun n : Nat => now + (n : Int)
  | .date d => texts.parseTimerInstant d
  | .cycle c =>
    match c.startAt with
    | some start => texts.parseTimerInstant start
    | none => (texts.parseTimerDuration c.interval).map fun n : Nat => now + (n : Int)
  | .expression _ _ => none

def fromPersisted (texts : TimerTexts) : TimerDefinition → Option TimerDefinition
  | .duration d => (texts.parseTimerDuration d).map fun _ => .duration d
  | .date d => (texts.parseTimerInstant d).map fun _ => .date d
  | .cycle c =>
    if c.repeats = some 0 then none
    else if (c.startAt.map texts.parseTimerInstant) = some none then none
    else
      match texts.parseTimerDuration c.interval with
      | none | some 0 => none
      | some _ => some (.cycle c)
  | .expression _ _ => none

theorem totalFires_pos {texts : TimerTexts} {t u : TimerDefinition} {n : Nat}
    (h : t.fromPersisted texts = some u) (hn : t.totalFires = some n) : 1 ≤ n := by
  cases t with
  | duration | date => exact (some.inj hn).le
  | cycle c =>
    rw [fromPersisted] at h
    split at h <;> rename_i hzero
    · cases h
    · refine Nat.one_le_iff_ne_zero.mpr fun h0 => hzero ?_
      rw [← h0]
      exact hn
  | expression _ _ => cases h

end TimerDefinition

/-! ## Cycles -/

inductive TimerCycleAdvance where
  | next (dueAt : Int) (remaining : Option Nat)
  | exhausted

def spendRepeat : Option Nat → Option (Option Nat)
  | none => some none
  | some n => if n ≤ 1 then none else some (some (n - 1))

/-- Skip the occurrences whose time has passed. -/
def skipElapsed (interval : Nat) (h : 0 < interval) (now next : Int) (left : Option Nat) :
    TimerCycleAdvance :=
  if next ≤ now then
    match spendRepeat left with
    | none => .exhausted
    | some left => skipElapsed interval h now (next + interval) left
  else .next next left
termination_by (now - next + 1).toNat

/-- **The occurrence after one that fired**, or none when the interval cannot be read. -/
def advanceCycle (texts : TimerTexts) (spec : TimerCycleSpec) (firedDue : Int)
    (remaining : Option Nat) (now : Int) : Option TimerCycleAdvance :=
  match texts.parseTimerDuration spec.interval with
  | none => none
  | some interval =>
    if h : 0 < interval then
      match spendRepeat remaining with
      | none => some .exhausted
      | some left => some (skipElapsed interval h now (firedDue + interval) left)
    else some .exhausted

/-- The repeats left are those before less one or more, and at least one is left; an unbounded cycle
stays unbounded. -/
inductive Spent : Option Nat → Option Nat → Prop where
  | unbounded : Spent none none
  | bounded {n m : Nat} (hpos : 1 ≤ m) (hlt : m < n) : Spent (some n) (some m)

/-! ## The grid

Occurrence number `k` of a cycle is due at `t₀ + k * d`. While it is pending, the budget is what
`bound` leaves from number `k` on. -/

/-- What a cycle comes to that fired occurrence number `k` at `now`: the first one after `now`, or
none when the budget has no such one. -/
def Advances (t₀ : Int) (d : Nat) (bound : Option Nat) (now : Int) (k : Nat) : Option Nat → Prop
  | some k' => k < k' ∧ (∀ n ∈ bound, k' < n) ∧ now < t₀ + k' * d ∧
      ∀ j, k < j → j < k' → t₀ + j * d ≤ now
  | none => ∃ n ∈ bound, ∀ j, k < j → j < n → t₀ + j * d ≤ now

variable {t₀ now : Int} {d k m : Nat} {bound : Option Nat}

theorem grid_succ (t₀ : Int) (k d : Nat) : t₀ + k * d + d = t₀ + (k + 1 : Nat) * d := by
  rw [Int.natCast_succ, Int.add_mul, Int.one_mul, Int.add_assoc]

theorem spendRepeat_sub (h : ∀ n ∈ bound, m < n) :
    (spendRepeat (bound.map (· - m)) = none ∧ bound = some (m + 1)) ∨
      (spendRepeat (bound.map (· - m)) = some (bound.map (· - (m + 1))) ∧
        ∀ n ∈ bound, m + 1 < n) := by
  cases bound with
  | none => exact .inr ⟨rfl, nofun⟩
  | some n =>
    have hn := h n rfl
    rw [map_some, spendRepeat]
    split
    · exact .inl ⟨rfl, congrArg some (by omega)⟩
    · exact .inr ⟨rfl, fun _ hm => some.inj hm ▸ by omega⟩

/-- The walk from occurrence `m`, when those between `k` and `m` have elapsed. -/
theorem skipElapsed_grid (hd : 0 < d) (hm : ∀ n ∈ bound, m < n) (hkm : k < m)
    (hpast : ∀ j, k < j → j < m → t₀ + j * d ≤ now) :
    (∃ k' : Nat, skipElapsed d hd now (t₀ + m * d) (bound.map (· - m)) =
        .next (t₀ + k' * d) (bound.map (· - k')) ∧ Advances t₀ d bound now k (some k')) ∨
      (skipElapsed d hd now (t₀ + m * d) (bound.map (· - m)) = .exhausted ∧
        Advances t₀ d bound now k none) := by
  -- the walk stops after `now`, so induct on how far that is
  induction hgap : (now - (t₀ + m * d) + 1).toNat using Nat.strong_induction_on generalizing m with
  | _ gap ih =>
    rw [skipElapsed]
    by_cases hle : t₀ + m * d ≤ now
    · have hpast' : ∀ j, k < j → j < m + 1 → t₀ + j * d ≤ now := fun j hk hj =>
        (Nat.lt_succ_iff_lt_or_eq.mp hj).elim (hpast j hk) fun hjm => hjm ▸ hle
      rw [if_pos hle]
      rcases spendRepeat_sub hm with ⟨hspend, hbound⟩ | ⟨hspend, hm'⟩
      · rw [hspend]
        exact .inr ⟨rfl, _, hbound, hpast'⟩
      · rw [hspend]
        rw [grid_succ]
        refine ih _ ?_ hm' (by omega) hpast' rfl
        rw [← grid_succ]
        omega
    · rw [if_neg hle]
      exact .inl ⟨m, rfl, hkm, hm, not_le.mp hle, hpast⟩

variable {spec : TimerCycleSpec} {texts : TimerTexts}

/-- **One advance**: to the first occurrence after the instant of the fire that the budget has. -/
theorem advanceCycle_grid (t₀ now : Int)
    (hd : texts.parseTimerDuration spec.interval = some d) (hpos : 0 < d)
    (hk : ∀ n ∈ bound, k < n) :
    (∃ k' : Nat, advanceCycle texts spec (t₀ + k * d) (bound.map (· - k)) now =
        some (.next (t₀ + k' * d) (bound.map (· - k'))) ∧ Advances t₀ d bound now k (some k')) ∨
      (advanceCycle texts spec (t₀ + k * d) (bound.map (· - k)) now = some .exhausted ∧
        Advances t₀ d bound now k none) := by
  rw [advanceCycle, hd]
  dsimp only
  rw [dif_pos hpos]
  rcases spendRepeat_sub hk with ⟨hspend, hbound⟩ | ⟨hspend, hk'⟩
  · rw [hspend]
    exact .inr ⟨rfl, _, hbound, fun j hkj hj => by omega⟩
  · rw [hspend, grid_succ]
    simp only [Option.some.injEq]
    exact skipElapsed_grid hpos hk' k.lt_succ_self fun j hkj hj => by omega

/-- **A cycle moves forward**, and what is left of its budget is less than before. -/
theorem advanceCycle_next {firedDue due : Int} {remaining rest : Option Nat}
    (h : advanceCycle texts spec firedDue remaining now = some (.next due rest)) :
    firedDue < due ∧ Spent remaining rest := by
  have hread : ∃ d, texts.parseTimerDuration spec.interval = some d ∧ 0 < d ∧
      ∀ n ∈ remaining, 0 < n := by
    rw [advanceCycle] at h
    split at h
    · cases h
    · rename_i d hd
      split at h <;> rename_i hpos
      · refine ⟨d, hd, hpos, fun n hn => Nat.pos_of_ne_zero fun h0 => ?_⟩
        rw [h0] at hn
        cases hn
        cases h
      · cases h
  obtain ⟨d, hd, hpos, hrem⟩ := hread
  have hgrid := advanceCycle_grid firedDue now hd hpos hrem
  rw [show firedDue + (0 : Nat) * d = firedDue by simp, show remaining.map (· - 0) = remaining by
    simp, h] at hgrid
  rcases hgrid with ⟨k, hnext, hk, hbound, -⟩ | ⟨hnext, -⟩
  · cases hnext
    refine ⟨Int.lt_add_of_pos_right _ (Int.mul_pos (by omega) (by omega)), ?_⟩
    cases remaining with
    | none => exact .unbounded
    | some n => exact .bounded (Nat.sub_pos_of_lt (hbound n rfl)) (Nat.sub_lt (hrem n rfl) hk)
  · cases hnext

/-! ## Runs of a cycle -/

def dueInstants (texts : TimerTexts) (spec : TimerCycleSpec) :
    (due : Int) → (remaining : Option Nat) → (fires : List Int) → List Int
  | due, _, [] => [due]
  | due, remaining, now :: later =>
    due :: match advanceCycle texts spec due remaining now with
      | some (.next due remaining) => dueInstants texts spec due remaining later
      | _ => []

theorem dueInstants_grid (t₀ : Int)
    (hd : texts.parseTimerDuration spec.interval = some d) (hpos : 0 < d) (fires : List Int)
    (hk : ∀ n ∈ bound, k < n) :
    ∃ ks : List Nat, dueInstants texts spec (t₀ + k * d) (bound.map (· - k)) fires =
        (k :: ks).map (fun j : Nat => t₀ + j * d) ∧ (k :: ks).Pairwise (· < ·) ∧
      (∀ n ∈ bound, (k :: ks).length ≤ n - k ∧ ∀ j ∈ k :: ks, j < n) ∧
      ∀ i j now, (k :: ks)[i]? = some j → fires[i]? = some now →
        Advances t₀ d bound now j (k :: ks)[i + 1]? := by
  induction fires generalizing k with
  | nil =>
    refine ⟨[], rfl, pairwise_singleton _ _, fun n hn => ⟨?_, ?_⟩, nofun⟩
    · exact Nat.sub_pos_of_lt (hk n hn)
    · exact forall_mem_singleton.mpr (hk n hn)
  | cons now later ih =>
    rcases advanceCycle_grid t₀ now hd hpos hk with ⟨k', hadv, hnext⟩ | ⟨hadv, hlast⟩
    · obtain ⟨ks, hdue, hsorted, hbound, hsteps⟩ := ih hnext.2.1
      refine ⟨k' :: ks, ?_, ?_, fun n hn => ⟨?_, ?_⟩, ?_⟩
      · rw [dueInstants, hadv]
        exact congrArg (_ :: ·) hdue
      · refine pairwise_cons.mpr ⟨fun j hj => ?_, hsorted⟩
        rcases mem_cons.mp hj with rfl | hj
        · exact hnext.1
        · exact hnext.1.trans ((pairwise_cons.mp hsorted).1 j hj)
      · have hlen := (hbound n hn).1
        have hlt := hnext.1
        have hn' := hnext.2.1 n hn
        rw [length_cons]
        omega
      · exact forall_mem_cons.mpr ⟨hk n hn, (hbound n hn).2⟩
      · intro i j now' hj hnow
        cases i with
        | zero =>
          cases hj
          cases hnow
          exact hnext
        | succ i => exact hsteps i j now' hj hnow
    · refine ⟨[], ?_, pairwise_singleton _ _, fun n hn => ⟨?_, ?_⟩, ?_⟩
      · rw [dueInstants, hadv]
        rfl
      · exact Nat.sub_pos_of_lt (hk n hn)
      · exact forall_mem_singleton.mpr (hk n hn)
      · intro i j now' hj hnow
        cases i with
        | zero =>
          cases hj
          cases hnow
          exact hlast
        | succ i => cases hj

/-- **Repeating timers stay on their grid.**  However late the occurrences of a cycle fire, they are
at most as many as it has repeats; their numbers `ks` grow and stay below that bound; and each is
the first one after the fire before it, so that no later number of the grid is passed over. -/
theorem cycle_stays_on_grid (texts : TimerTexts) (spec : TimerCycleSpec) (d : Nat) (t₀ : Int)
    (fires : List Int) (hd : texts.parseTimerDuration spec.interval = some d) (hpos : 0 < d)
    (hrepeats : spec.repeats ≠ some 0) :
    ∃ ks : List Nat, dueInstants texts spec t₀ spec.repeats fires =
        ks.map (fun k : Nat => t₀ + k * d) ∧ ks.Pairwise (· < ·) ∧
      (∀ n ∈ spec.repeats, ks.length ≤ n ∧ ∀ k ∈ ks, k < n) ∧
      ∀ i k now, ks[i]? = some k → fires[i]? = some now →
        Advances t₀ d spec.repeats now k ks[i + 1]? := by
  have hzero : ∀ n ∈ spec.repeats, 0 < n := fun n hn =>
    Nat.pos_of_ne_zero fun h0 => hrepeats (h0 ▸ hn)
  obtain ⟨ks, hdue, hsorted, hbound, hsteps⟩ := dueInstants_grid t₀ hd hpos fires hzero
  refine ⟨0 :: ks, ?_, hsorted, fun n hn => hbound n hn, hsteps⟩
  rw [← hdue]
  simp

def hourly : TimerTexts := ⟨fun _ => some 3600, fun _ => none⟩

/-- The second of five occurrences fires late: the third one is passed over. -/
theorem late_fire_on_grid :
    let spec : TimerCycleSpec := ⟨some 5, none, "PT1H"⟩;
    dueInstants hourly spec 0 (some 5) [100, 9000] = [0, 3600, 10800] ∧
      ∃ ks : List Nat, dueInstants hourly spec 0 (some 5) [100, 9000] =
        ks.map (fun k : Nat => 0 + (k : Int) * 3600) ∧ ks.length ≤ 5 := by
  obtain ⟨ks, hdue, -, hbound, -⟩ := cycle_stays_on_grid hourly ⟨some 5, none, "PT1H"⟩ 3600 0
    [100, 9000] rfl (by decide) nofun
  exact ⟨by simp [dueInstants, advanceCycle, hourly, skipElapsed, spendRepeat], ks, hdue,
    (hbound 5 rfl).1⟩

/-! ## Boundaries that recur

`rearm_fired_boundary` asks the same function, but takes the instant of the fire for the due instant
of the occurrence that fired, so a late poll moves the whole schedule. -/

def rearmedInstants (texts : TimerTexts) (spec : TimerCycleSpec) :
    (due : Int) → (fires : List Int) → List Int
  | due, [] => [due]
  | due, now :: later =>
    due :: match advanceCycle texts spec now none now with
      | some (.next due _) => rearmedInstants texts spec due later
      | _ => []

theorem grid_lt_grid (hpos : 0 < d) {i j : Nat} : t₀ + i * d < t₀ + j * d ↔ i < j := by
  rw [Int.add_lt_add_iff_left, ← Int.natCast_mul, ← Int.natCast_mul, Int.ofNat_lt]
  exact Nat.mul_lt_mul_right hpos

theorem advanceCycle_of_onGrid (t₀ : Int) (hd : texts.parseTimerDuration spec.interval = some d)
    (hpos : 0 < d) (j : Nat) :
    advanceCycle texts spec t₀ none (t₀ + j * d) = some (.next (t₀ + j * d + d) none) := by
  have hgrid := advanceCycle_grid t₀ (t₀ + j * d) hd hpos (nofun : ∀ n ∈ none, 0 < n)
  rw [show t₀ + (0 : Nat) * d = t₀ by simp] at hgrid
  rcases hgrid with ⟨k', hadv, -, -, hlt, hpast⟩ | ⟨-, n, hn, -⟩
  · have hj := (grid_lt_grid hpos).mp hlt
    have hnext : k' = j + 1 := by
      by_contra hne
      have hle := hpast (j + 1) j.succ_pos (by omega)
      exact hle.not_gt ((grid_lt_grid hpos).mpr j.lt_succ_self)
    rw [grid_succ, ← hnext]
    exact hadv
  · cases hn

/-- **A recurring boundary follows the schedule of a recurring start event** when its fires, one
after the other, are whole intervals away from the first due instant. -/
theorem boundary_follows_schedule (texts : TimerTexts) (spec : TimerCycleSpec) (due : Int)
    (fires : List Int) (hsorted : fires.Pairwise (· < ·))
    (honGrid : ∀ d, texts.parseTimerDuration spec.interval = some d →
      ∀ now ∈ fires, ∃ j : Nat, now = due + j * d) :
    rearmedInstants texts spec due fires = dueInstants texts spec due none fires := by
  induction fires generalizing due with
  | nil => rfl
  | cons now later ih =>
    rw [rearmedInstants, dueInstants]
    have hbefore := (pairwise_cons.mp hsorted).1
    cases hread : texts.parseTimerDuration spec.interval with
    | none => simp only [advanceCycle, hread]
    | some d =>
      by_cases hpos : 0 < d
      · obtain ⟨j, rfl⟩ := honGrid d hread now (.head _)
        have hboundary := advanceCycle_of_onGrid (due + j * d) hread hpos 0
        rw [show due + j * d + (0 : Nat) * d = due + j * d by simp] at hboundary
        rw [hboundary, advanceCycle_of_onGrid due hread hpos j]
        refine congrArg (_ :: ·) (ih _ hsorted.of_cons fun d' hread' now' hnow' => ?_)
        obtain rfl : d = d' := some.inj (hread.symm.trans hread')
        obtain ⟨j', rfl⟩ := honGrid d hread now' (.tail _ hnow')
        have hj := (grid_lt_grid hpos).mp (hbefore _ hnow')
        obtain ⟨i, rfl⟩ := Nat.exists_eq_add_of_lt hj
        exact ⟨i, by rw [← grid_succ, Int.natCast_add, Int.add_mul]; omega⟩
      · simp only [advanceCycle, hread, hpos, ↓reduceDIte]

/-- Two fires of an hourly boundary, the second an hour late. -/
theorem hourly_boundary_on_schedule : rearmedInstants hourly ⟨none, none, "PT1H"⟩ 0 [0, 7200] =
      dueInstants hourly ⟨none, none, "PT1H"⟩ 0 none [0, 7200] := by
  refine boundary_follows_schedule _ _ _ _ (by decide) fun d hd now hnow => ?_
  obtain rfl : 3600 = d := some.inj hd
  rcases mem_pair.mp hnow with rfl | rfl
  · exact ⟨0, rfl⟩
  · exact ⟨2, rfl⟩

/-- The first fire is a minute late, and every due instant of the boundary after it too. -/
theorem late_fire_shifts_boundary :
    rearmedInstants hourly ⟨none, none, "PT1H"⟩ 0 [60, 3660] = [0, 3660, 7260] ∧
      dueInstants hourly ⟨none, none, "PT1H"⟩ 0 none [60, 3660] = [0, 3600, 7200] := by
  simp [rearmedInstants, dueInstants, advanceCycle, hourly, skipElapsed, spendRepeat]

end Sutra
