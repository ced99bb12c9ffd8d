import Mathlib
import Sutra.Select.Expr

/-!
# Ranges as sets of points

FEEL asks in two ways whether a point is in a range: by the test `p in r` (`rangeContains`), two
bound checks, and by the interval relations (`intervalRelation`), which are written out one by one
over open and closed ends. A range of integers can also be iterated (`expandRange`), in `i64`
arithmetic.

* `Interval.relations_mean_sets`: over a dense order the relations are the relations of sets.
* `containment_agrees`: at which points of which ranges the two tests give one answer.
* `expandRange_exact`: which ranges of integers are iterated from the first to the last.
-/

namespace Sutra.Feel

open Option

open Select (CompareOp)

/-- A range over the points of one ordered type. The side that a comparison range (`(< 10)`)
leaves open is null, and null is `none`. -/
structure FeelRange (α : Type) where
  start : Option α
  stop : Option α
  startInclusive : Bool
  endInclusive : Bool
  comparisonOp : Option CompareOp

inductive IntervalRelationArg (α : Type) where
  | point (p : Option α)
  | range (r : FeelRange α)

inductive IntervalRelation where
  | before | after | meets | metBy | overlaps | overlapsBefore | overlapsAfter | finishes
  | finishedBy | includes | during | starts | startedBy | coincides

variable {α : Type} [LinearOrder α]

def feelCmp : Option α → Option α → Option Ordering
  | some x, some y => some (compare x y)
  | _, _ => none

/-- The first value is below the second, or equal to it when `orEqual` says so. -/
def ltOr (x y : Option α) (orEqual : Bool) : Bool :=
  feelCmp x y == some .lt || (feelCmp x y == some .eq && orEqual)

/-- The first value is above the second, or equal to it when `orEqual` says so. -/
def gtOr (x y : Option α) (orEqual : Bool) : Bool :=
  feelCmp x y == some .gt || (feelCmp x y == some .eq && orEqual)

/-- The two values are equal in the order. -/
def eqCmp (x y : Option α) : Bool := feelCmp x y == some .eq

namespace IntervalRelationArg

def classify : IntervalRelationArg α → Bool
  | point p => (feelCmp p p).isSome
  | range _ => true

/-- The values that an argument compares by. -/
def endpoints : IntervalRelationArg α → List (Option α)
  | point p => [p]
  | range r => [r.start, r.stop]

end IntervalRelationArg

/-- Each value has an order with the next one. -/
def comparable : List (Option α) → Bool
  | x :: y :: rest => (feelCmp x y).isSome && comparable (y :: rest)
  | _ => true

def includesPoint (r : FeelRange α) (p : Option α) : Bool :=
  (ltOr r.start p false && gtOr r.stop p false) || (eqCmp r.start p && r.startInclusive) ||
    (eqCmp r.stop p && r.endInclusive)

/-- The first range reaches over both ends of the second. -/
def includesRange (r₁ r₂ : FeelRange α) : Bool :=
  ltOr r₁.start r₂.start (r₁.startInclusive || !r₂.startInclusive) &&
    gtOr r₁.stop r₂.stop (r₁.endInclusive || !r₂.endInclusive)

/-- The relations by the shapes of their arguments; a relation has none but the ones listed. -/
def relate : IntervalRelation → IntervalRelationArg α → IntervalRelationArg α → Option Bool
  | .before, .point p₁, .point p₂ => some (ltOr p₁ p₂ false)
  | .before, .point p, .range r => some (ltOr p r.start (!r.startInclusive))
  | .before, .range r, .point p => some (ltOr r.stop p (!r.endInclusive))
  | .before, .range r₁, .range r₂ =>
    some (ltOr r₁.stop r₂.start (!r₁.endInclusive || !r₂.startInclusive))
  | .after, .point p₁, .point p₂ => some (gtOr p₁ p₂ false)
  | .after, .point p, .range r => some (gtOr p r.stop (!r.endInclusive))
  | .after, .range r, .point p => some (gtOr r.start p (!r.startInclusive))
  | .after, .range r₁, .range r₂ =>
    some (gtOr r₁.start r₂.stop (!r₁.startInclusive || !r₂.endInclusive))
  | .meets, .range r₁, .range r₂ =>
    some (r₁.endInclusive && r₂.startInclusive && eqCmp r₁.stop r₂.start)
  | .metBy, .range r₁, .range r₂ =>
    some (r₁.startInclusive && r₂.endInclusive && eqCmp r₁.start r₂.stop)
  | .overlaps, .range r₁, .range r₂ =>
    some (gtOr r₁.stop r₂.start (r₁.endInclusive && r₂.startInclusive) &&
      ltOr r₁.start r₂.stop (r₁.startInclusive && r₂.endInclusive))
  | .overlapsBefore, .range r₁, .range r₂ =>
    some (ltOr r₁.start r₂.start (r₁.startInclusive && !r₂.startInclusive) &&
      gtOr r₁.stop r₂.start (r₁.endInclusive && r₂.startInclusive) &&
      ltOr r₁.stop r₂.stop (!r₁.endInclusive || r₂.endInclusive))
  | .overlapsAfter, .range r₁, .range r₂ =>
    some (ltOr r₂.start r₁.start (r₂.startInclusive && !r₁.startInclusive) &&
      gtOr r₂.stop r₁.start (r₂.endInclusive && r₁.startInclusive) &&
      ltOr r₂.stop r₁.stop (!r₂.endInclusive || r₁.endInclusive))
  | .finishes, .point p, .range r => some (r.endInclusive && eqCmp r.stop p)
  | .finishes, .range r₁, .range r₂ =>
    some (r₁.endInclusive == r₂.endInclusive && eqCmp r₁.stop r₂.stop &&
      gtOr r₁.start r₂.start (!r₁.startInclusive || r₂.startInclusive))
  | .finishedBy, .range r, .point p => some (r.endInclusive && eqCmp r.stop p)
  | .finishedBy, .range r₁, .range r₂ =>
    some (r₁.endInclusive == r₂.endInclusive && eqCmp r₁.stop r₂.stop &&
      ltOr r₁.start r₂.start (r₁.startInclusive || !r₂.startInclusive))
  | .includes, .range r, .point p => some (includesPoint r p)
  | .includes, .range r₁, .range r₂ => some (includesRange r₁ r₂)
  | .during, .point p, .range r => some (includesPoint r p)
  | .during, .range r₁, .range r₂ => some (includesRange r₂ r₁)
  | .starts, .point p, .range r => some (eqCmp r.start p && r.startInclusive)
  | .starts, .range r₁, .range r₂ =>
    some (eqCmp r₁.start r₂.start && r₁.startInclusive == r₂.startInclusive &&
      ltOr r₁.stop r₂.stop (!r₁.endInclusive || r₂.endInclusive))
  | .startedBy, .range r, .point p => some (eqCmp r.start p && r.startInclusive)
  | .startedBy, .range r₁, .range r₂ =>
    some (eqCmp r₁.start r₂.start && r₁.startInclusive == r₂.startInclusive &&
      ltOr r₂.stop r₁.stop (!r₂.endInclusive || r₁.endInclusive))
  | .coincides, .point p₁, .point p₂ => some (eqCmp p₁ p₂)
  | .coincides, .range r₁, .range r₂ =>
    some (eqCmp r₁.start r₂.start && r₁.startInclusive == r₂.startInclusive &&
      eqCmp r₁.stop r₂.stop && r₁.endInclusive == r₂.endInclusive)
  | _, _, _ => none

/-- **An interval relation**; null unless every endpoint has an order with the next one. -/
def intervalRelation (name : IntervalRelation) (a b : IntervalRelationArg α) : Option Bool :=
  if a.classify && b.classify && comparable (a.endpoints ++ b.endpoints) then relate name a b
  else none

/-- **The test `x in r`**; `equals` is the equality of the type. -/
def rangeContains (equals : α → α → Bool) (r : FeelRange α) : Option α → Option Bool
  | none => none
  | some x =>
    match r.comparisonOp with
    | some .lt => some (ltOr (some x) r.stop false)
    | some .le => some (ltOr (some x) r.stop true)
    | some .gt => some (gtOr (some x) r.start false)
    | some .ge => some (gtOr (some x) r.start true)
    | some .eq => some (r.start.any (equals x))
    | some .neq => some (!r.start.any (equals x))
    | none =>
      if (feelCmp (some x) r.start).isSome && (feelCmp (some x) r.stop).isSome then
        some (gtOr (some x) r.start r.startInclusive && ltOr (some x) r.stop r.endInclusive)
      else none

/-! ## The comparisons, read back -/

@[simp] theorem ltOr_some (x y : α) (orEqual : Bool) :
    ltOr (some x) (some y) orEqual ↔ x < y ∨ x = y ∧ orEqual := by
  simp [ltOr, feelCmp, compare_lt_iff_lt]

@[simp] theorem gtOr_some (x y : α) (orEqual : Bool) :
    gtOr (some x) (some y) orEqual ↔ y < x ∨ x = y ∧ orEqual := by
  simp [gtOr, feelCmp, compare_gt_iff_gt]

@[simp] theorem eqCmp_some (x y : α) : eqCmp (some x) (some y) ↔ x = y := by
  simp [eqCmp, feelCmp]

/-! ## Intervals -/

/-- **An interval**: it starts before it ends, or is one point with both ends closed. -/
structure Interval (α : Type) [LinearOrder α] where
  lo : α
  hi : α
  loClosed : Bool
  hiClosed : Bool
  wellFormed : lo < hi ∨ (lo = hi ∧ loClosed = true ∧ hiClosed = true)

namespace Interval

def arg (A : Interval α) : IntervalRelationArg α :=
  .range ⟨some A.lo, some A.hi, A.loClosed, A.hiClosed, none⟩

def points (A : Interval α) : Set α :=
  {x | (A.lo < x ∨ A.lo = x ∧ A.loClosed = true) ∧ (x < A.hi ∨ x = A.hi ∧ A.hiClosed = true)}

def Rel (name : IntervalRelation) (A B : Interval α) : Prop :=
  intervalRelation name A.arg B.arg = some true

variable {A B : Interval α}

theorem rel_iff {name : IntervalRelation} : Rel name A B ↔ relate name A.arg B.arg = some true :=
  .rfl

/-- A relation by its value, which the arguments give by computation. -/
theorem rel_some (name : IntervalRelation) {b : Bool} (h : relate name A.arg B.arg = some b) :
    Rel name A B ↔ b = true := by
  rw [rel_iff, h, Option.some.injEq]

theorem lo_mem (h : A.loClosed) : A.lo ∈ A.points :=
  ⟨.inr ⟨rfl, h⟩, A.wellFormed.imp id fun hA => ⟨hA.1, hA.2.2⟩⟩

theorem hi_mem (h : A.hiClosed) : A.hi ∈ A.points :=
  ⟨A.wellFormed.imp id fun hA => ⟨hA.1, hA.2.1⟩, .inr ⟨rfl, h⟩⟩

theorem mem_of_between {x y z : α} (hx : x ∈ A.points) (hz : z ∈ A.points) (hxy : x ≤ y)
    (hyz : y ≤ z) : y ∈ A.points := by
  obtain ⟨⟨hlo, -⟩, -, hhi⟩ := And.intro hx hz
  exact ⟨by grind, by grind⟩

theorem rel_after : Rel .after A B ↔ Rel .before B A := by
  simp only [rel_some .after rfl, rel_some .before rfl, ltOr_some, gtOr_some]
  grind

/-- The comparisons leave one of three ways for two intervals to lie. -/
theorem rel_overlaps : Rel .overlaps A B ↔ ¬ Rel .before A B ∧ ¬ Rel .after A B := by
  simp only [rel_some .overlaps rfl, rel_some .before rfl, rel_some .after rfl, Bool.and_eq_true,
    ltOr_some, gtOr_some, Bool.or_eq_true, Bool.not_eq_true']
  grind

/-- An interval cannot reach over an end of another one from both sides. -/
theorem rel_coincides : Rel .coincides A B ↔ Rel .includes A B ∧ Rel .includes B A := by
  simp only [rel_some .coincides rfl, rel_some .includes rfl, includesRange, Bool.and_eq_true,
    ltOr_some, gtOr_some, eqCmp_some, Bool.or_eq_true, Bool.not_eq_true', beq_iff_eq]
  grind

variable [DenselyOrdered α]

theorem exists_mem_gt {c : α} (h : c < A.hi) : ∃ x ∈ A.points, c < x := by
  rcases A.wellFormed with hlt | ⟨-, -, hclosed⟩
  · obtain ⟨x, hx, hhi⟩ := exists_between (max_lt h hlt)
    exact ⟨x, ⟨.inl ((le_max_right _ _).trans_lt hx), .inl hhi⟩, (le_max_left _ _).trans_lt hx⟩
  · exact ⟨A.hi, hi_mem hclosed, h⟩

theorem exists_mem_lt {c : α} (h : A.lo < c) : ∃ x ∈ A.points, x < c := by
  rcases A.wellFormed with hlt | ⟨-, hclosed, -⟩
  · obtain ⟨x, hlo, hx⟩ := exists_between (lt_min h hlt)
    exact ⟨x, ⟨.inl hlo, .inl (hx.trans_le (min_le_right _ _))⟩, hx.trans_le (min_le_left _ _)⟩
  · exact ⟨A.lo, lo_mem hclosed, h⟩

theorem nonempty (A : Interval α) : A.points.Nonempty := by
  rcases A.wellFormed with hlt | ⟨-, hclosed, -⟩
  · obtain ⟨x, hx, -⟩ := exists_mem_gt hlt
    exact ⟨x, hx⟩
  · exact ⟨A.lo, lo_mem hclosed⟩

theorem rel_before : Rel .before A B ↔ ∀ x ∈ A.points, ∀ y ∈ B.points, x < y := by
  rw [rel_some .before rfl, ltOr_some]
  constructor
  · rintro h x ⟨-, hx⟩ y ⟨hy, -⟩
    grind
  · intro h
    rcases lt_trichotomy A.hi B.lo with hlt | heq | hgt
    · exact .inl hlt
    · refine .inr ⟨heq, ?_⟩
      by_contra hclosed
      simp only [Bool.or_eq_true, Bool.not_eq_true', not_or, Bool.not_eq_false] at hclosed
      exact (h _ (hi_mem hclosed.1) _ (lo_mem hclosed.2)).ne heq
    · obtain ⟨x, hx, hlt⟩ := exists_mem_gt hgt
      obtain ⟨y, hy, hyx⟩ := exists_mem_lt hlt
      exact absurd (h x hx y hy) hyx.not_gt

theorem rel_includes : Rel .includes A B ↔ B.points ⊆ A.points := by
  rw [rel_some .includes rfl, includesRange, Bool.and_eq_true, ltOr_some, gtOr_some]
  constructor
  · rintro ⟨hlo, hhi⟩ x ⟨hx, hx'⟩
    exact ⟨by grind, by grind⟩
  · intro h
    constructor
    · rcases lt_trichotomy A.lo B.lo with hlt | heq | hgt
      · exact .inl hlt
      · refine .inr ⟨heq, ?_⟩
        by_contra hopen
        simp only [Bool.or_eq_true, Bool.not_eq_true', not_or, Bool.not_eq_false] at hopen
        exact hopen.1 ((h (lo_mem hopen.2)).1.resolve_left heq.not_lt).2
      · obtain ⟨x, hx, hlt⟩ := exists_mem_lt hgt
        rcases (h hx).1 with hlo | ⟨rfl, -⟩
        · exact absurd hlt hlo.not_gt
        · exact absurd hlt (lt_irrefl _)
    · rcases lt_trichotomy B.hi A.hi with hlt | heq | hgt
      · exact .inl hlt
      · refine .inr ⟨heq.symm, ?_⟩
        by_contra hopen
        simp only [Bool.or_eq_true, Bool.not_eq_true', not_or, Bool.not_eq_false] at hopen
        exact hopen.1 ((h (hi_mem hopen.2)).2.resolve_left heq.not_lt).2
      · obtain ⟨x, hx, hlt⟩ := exists_mem_gt hgt
        rcases (h hx).2 with hhi | ⟨rfl, -⟩
        · exact absurd hlt hhi.not_gt
        · exact absurd hlt (lt_irrefl _)

/-- Two intervals overlap when neither is before the other: of a point of the first that is not
below one of the second, and one that is not above, the nearer is common to both. -/
theorem rel_overlaps_points : Rel .overlaps A B ↔ (A.points ∩ B.points).Nonempty := by
  rw [rel_overlaps, rel_after, rel_before, rel_before]
  push Not
  constructor
  · rintro ⟨⟨x, hx, y, hy, hyx⟩, y', hy', x', hx', hxy⟩
    rcases le_or_gt x' y with hle | hlt
    · exact ⟨y, mem_of_between hx' hx hle hyx, hy⟩
    · exact ⟨x', hx', mem_of_between hy hy' hlt.le hxy⟩
  · rintro ⟨z, hA, hB⟩
    exact ⟨⟨z, hA, z, hB, le_rfl⟩, z, hB, z, hA, le_rfl⟩

/-- **The interval relations mean what they say about sets of points**, over every dense linear
order: `before`, `overlaps`, `includes` and `coincides` are the relations of sets; one interval is
before, after or overlapping the other, and only one of these; and the other relations come in pairs
of converses. -/
theorem relations_mean_sets (A B : Interval α) :
    (Rel .before A B ↔ ∀ x ∈ A.points, ∀ y ∈ B.points, x < y) ∧
    (Rel .overlaps A B ↔ (A.points ∩ B.points).Nonempty) ∧
    (Rel .includes A B ↔ B.points ⊆ A.points) ∧ (Rel .coincides A B ↔ A.points = B.points) ∧
    ((Rel .before A B ∧ ¬ Rel .after A B ∧ ¬ Rel .overlaps A B) ∨
      (¬ Rel .before A B ∧ Rel .after A B ∧ ¬ Rel .overlaps A B) ∨
      (¬ Rel .before A B ∧ ¬ Rel .after A B ∧ Rel .overlaps A B)) ∧
    (Rel .after A B ↔ Rel .before B A) ∧ (Rel .metBy A B ↔ Rel .meets B A) ∧
    (Rel .overlapsAfter A B ↔ Rel .overlapsBefore B A) ∧
    (Rel .finishedBy A B ↔ Rel .finishes B A) ∧ (Rel .during A B ↔ Rel .includes B A) ∧
    (Rel .startedBy A B ↔ Rel .starts B A) := by
  have hsame : Rel .coincides A B ↔ A.points = B.points := by
    rw [rel_coincides, rel_includes, rel_includes, and_comm]
    exact Set.Subset.antisymm_iff.symm
  have hapart : ¬ (Rel .before A B ∧ Rel .after A B) := by
    rw [rel_after, rel_before, rel_before]
    rintro ⟨hAB, hBA⟩
    obtain ⟨x, hx⟩ : A.points.Nonempty := A.nonempty
    obtain ⟨y, hy⟩ : B.points.Nonempty := B.nonempty
    exact (hAB x hx y hy).not_gt (hBA y hy x hx)
  refine ⟨rel_before, rel_overlaps_points, rel_includes, hsame, ?_, rel_after, ?_⟩
  · rw [rel_overlaps]
    tauto
  · simp only [rel_some .metBy rfl, rel_some .meets rfl, rel_some .overlapsAfter rfl,
      rel_some .overlapsBefore rfl, rel_some .finishedBy rfl, rel_some .finishes rfl,
      rel_some .during rfl, rel_some .includes rfl, rel_some .startedBy rfl, rel_some .starts rfl,
      Bool.and_eq_true, ltOr_some, gtOr_some, eqCmp_some, Bool.or_eq_true, Bool.not_eq_true',
      beq_iff_eq]
    grind

def officeHours : Interval ℚ := ⟨9, 17, true, false, .inl (by decide)⟩

def noonHour : Interval ℚ := ⟨12, 13, true, true, .inl (by decide)⟩

theorem noonHour_in_officeHours :
    Rel .includes officeHours noonHour ∧ noonHour.points ⊆ officeHours.points := by
  have hrel : Rel .includes officeHours noonHour := by
    rw [rel_iff]
    decide
  exact ⟨hrel, (relations_mean_sets officeHours noonHour).2.2.1.mp hrel⟩

end Interval

/-! ## Containment -/

/-- **A comparison range** (`(< 10)`, `(!= 10)`). `(= 10)` and `(!= 10)` have one value as both
ends. -/
def openRangeValue : CompareOp → α → FeelRange α
  | .lt, bound => ⟨none, some bound, false, false, some .lt⟩
  | .le, bound => ⟨none, some bound, false, true, some .le⟩
  | .gt, bound => ⟨some bound, none, false, false, some .gt⟩
  | .ge, bound => ⟨some bound, none, true, false, some .ge⟩
  | .eq, bound => ⟨some bound, some bound, true, true, some .eq⟩
  | .neq, bound => ⟨some bound, some bound, true, true, some .neq⟩

/-- The tests agree at a point: `p in r`, `includes(r, p)` and `during(p, r)` are one boolean, and a
point that finishes or starts the range is in it. -/
def ContainmentAgrees (equals : α → α → Bool) (r : FeelRange α) (p : α) : Prop :=
  ∃ b, rangeContains equals r (some p) = some b ∧
    intervalRelation .includes (.range r) (.point (some p)) = some b ∧
    intervalRelation .during (.point (some p)) (.range r) = some b ∧
    (intervalRelation .finishes (.point (some p)) (.range r) = some true → b = true) ∧
    (intervalRelation .finishedBy (.range r) (.point (some p)) = some true → b = true) ∧
    (intervalRelation .starts (.point (some p)) (.range r) = some true → b = true) ∧
    (intervalRelation .startedBy (.range r) (.point (some p)) = some true → b = true)

/-- The relations `starts` and `finishes` are parts of `includes`, so that all the tests agree as
soon as the two containment tests do. -/
theorem containmentAgrees_iff (equals : α → α → Bool) {r : FeelRange α} {lo hi : α} (p : α)
    (hstart : r.start = some lo) (hstop : r.stop = some hi) :
    ContainmentAgrees equals r p ↔
      rangeContains equals r (some p) = some (includesPoint r (some p)) := by
  obtain ⟨start, stop, loClosed, hiClosed, op⟩ := r
  subst hstart hstop
  have hfinish : (hiClosed && eqCmp (some hi) (some p)) →
      includesPoint ⟨some lo, some hi, loClosed, hiClosed, op⟩ (some p) := fun h => by
    rw [includesPoint, Bool.or_eq_true]
    exact .inr (Bool.and_comm _ _ ▸ h)
  have hstart : (eqCmp (some lo) (some p) && loClosed) →
      includesPoint ⟨some lo, some hi, loClosed, hiClosed, op⟩ (some p) := fun h => by
    rw [includesPoint, Bool.or_eq_true, Bool.or_eq_true]
    exact .inl (.inr h)
  constructor
  · rintro ⟨b, hin, hincludes, -⟩
    exact hin.trans hincludes.symm
  · intro hin
    exact ⟨_, hin, rfl, rfl, fun h => hfinish (some.inj h), fun h => hfinish (some.inj h),
      fun h => hstart (some.inj h), fun h => hstart (some.inj h)⟩

/-- The test `p in r` and the relation `includes` part at a closed end that the other bound leaves
out. -/
theorem contains_eq_includesPoint_iff (equals : α → α → Bool) (lo hi p : α) (si ei : Bool) :
    rangeContains equals ⟨some lo, some hi, si, ei, none⟩ (some p)
        = some (includesPoint ⟨some lo, some hi, si, ei, none⟩ (some p)) ↔
      (p = lo → si → lo < hi ∨ lo = hi ∧ ei) ∧ (p = hi → ei → lo < hi ∨ lo = hi ∧ si) := by
  have hin : rangeContains equals ⟨some lo, some hi, si, ei, none⟩ (some p)
      = some (gtOr (some p) (some lo) si && ltOr (some p) (some hi) ei) := rfl
  rw [hin, Option.some.injEq, Bool.eq_iff_iff, includesPoint]
  simp only [Bool.and_eq_true, Bool.or_eq_true, gtOr_some, ltOr_some, eqCmp_some]
  grind

/-- **Where two containment tests agree.**  At a point of an interval they do unless the point is a
closed end that the other bound leaves out; on all points of an interval they do exactly when it is
ascending, or one point with both ends alike, or has no closed end. Of the comparison ranges with
both ends set, `(= b)` asks that the equality be the order's, and `(!= b)` agrees only where the
equality is not. -/
theorem containment_agrees (equals : α → α → Bool) (lo hi : α) (si ei : Bool) :
    (∀ p, ContainmentAgrees equals ⟨some lo, some hi, si, ei, none⟩ p ↔
      (p = lo → si → lo < hi ∨ lo = hi ∧ ei) ∧ (p = hi → ei → lo < hi ∨ lo = hi ∧ si)) ∧
    ((∀ p, ContainmentAgrees equals ⟨some lo, some hi, si, ei, none⟩ p) ↔
      lo < hi ∨ (lo = hi ∧ si = ei) ∨ (si = false ∧ ei = false)) ∧
    (∀ p, ContainmentAgrees equals (openRangeValue .eq lo) p ↔ (equals p lo ↔ p = lo)) ∧
    (∀ p, ContainmentAgrees equals (openRangeValue .neq lo) p ↔ (equals p lo ↔ p ≠ lo)) := by
  have hpoint : ∀ p, ContainmentAgrees equals ⟨some lo, some hi, si, ei, none⟩ p ↔
      (p = lo → si → lo < hi ∨ lo = hi ∧ ei) ∧ (p = hi → ei → lo < hi ∨ lo = hi ∧ si) := fun p =>
    (containmentAgrees_iff equals p rfl rfl).trans
      (contains_eq_includesPoint_iff equals lo hi p si ei)
  have honly : ∀ op p, includesPoint ⟨some lo, some lo, true, true, op⟩ (some p) ↔ p = lo := by
    intro op p
    simp only [includesPoint, Bool.and_eq_true, Bool.or_eq_true, gtOr_some, ltOr_some, eqCmp_some]
    grind
  refine ⟨hpoint, ?_, fun p => ?_, fun p => ?_⟩
  · simp only [hpoint]
    constructor
    · intro h
      have hlo := (h lo).1 rfl
      have hhi := (h hi).2 rfl
      grind
    · rintro h p
      exact ⟨by grind, by grind⟩
  · rw [containmentAgrees_iff equals (r := openRangeValue .eq lo) p rfl rfl, ← honly (some .eq) p,
      ← Bool.eq_iff_iff]
    exact Option.some_inj
  · have hin : rangeContains equals (openRangeValue .neq lo) (some p) = some (!equals p lo) := rfl
    rw [containmentAgrees_iff equals (r := openRangeValue .neq lo) p rfl rfl, hin, some_inj, ne_eq,
      ← honly (some .neq) p, openRangeValue]
    cases equals p lo <;> simp

/-- In the range `[1..10]` the tests agree at every point, and in `[5..1]` at every inner one. -/
theorem last_point_contained :
    ContainmentAgrees (· == ·) ⟨some 1, some 10, true, true, none⟩ (10 : Int) ∧
      ContainmentAgrees (· == ·) ⟨some 5, some 1, true, true, none⟩ (3 : Int) ∧
      ContainmentAgrees (· == ·) (openRangeValue .eq 10) (10 : Int) :=
  ⟨(containment_agrees (· == ·) 1 10 true true).2.1.mpr (.inl (by decide)) 10,
    ((containment_agrees (· == ·) 5 1 true true).1 3).mpr ⟨by decide, by decide⟩,
    ((containment_agrees (· == ·) 10 10 true true).2.2.1 10).mpr (by decide)⟩

/-- To the test `[5..1]` is empty, and to the relations its start starts it and is included. -/
theorem reversed_range_includes_its_start :
    rangeContains (· == ·) ⟨some 5, some 1, true, true, none⟩ (some (5 : Int)) = some false ∧
      intervalRelation .includes (.range ⟨some 5, some 1, true, true, none⟩)
        (.point (some (5 : Int))) = some true ∧ intervalRelation .starts (.point (some (5 : Int)))
        (.range ⟨some 5, some 1, true, true, none⟩) = some true := by
  decide

/-! ## Iterating a range of integers -/

/-- What an `i64` operation with this result leaves. -/
def wrap (x : Int) : Int := x.bmod (2 ^ 64)

/-- The exact result is an `i64`. -/
def Fits (x : Int) : Prop := -2 ^ 63 ≤ x ∧ x < 2 ^ 63

instance (x : Int) : Decidable (Fits x) := inferInstanceAs (Decidable (_ ∧ _))

/-- An `i64` operation with this exact result: one that overflows wraps around, and in a build with
overflow checks it panics. -/
def i64 (checks : Bool) (x : Int) : Option Int :=
  if checks && wrap x ≠ x then none else some (wrap x)

/-- The value as an `i64`, where it is one. -/
def intOf (p : Option Int) : Option Int := p.filter fun x => wrap x = x

/-- The two loops of the source, upwards and downwards; none is an overflow or no fuel. -/
def visit (checks : Bool) (one hi : Int) : Nat → Int → Option (List Int)
  | 0, _ => none
  | fuel + 1, i =>
    if 0 ≤ one * (hi - i) then
      (i64 checks (i + one)).bind fun next => (visit checks one hi fuel next).map (i :: ·)
    else some []

/-- **The elements of a range**, or the message of an error. -/
def expandRange (checks : Bool) (r : FeelRange Int) (allowDescending : Bool) (fuel : Nat) :
    Option (Except String (List Int)) :=
  match intOf r.start, intOf r.stop with
  | some start, some stop =>
    if !allowDescending && stop < start then
      some (.error "cannot iterate a descending interval literal value")
    else do
      let one := if start ≤ stop then 1 else -1
      let lo ← i64 checks (if r.startInclusive then start else start + one)
      let hi ← i64 checks (if r.endInclusive then stop else stop - one)
      let span ← i64 checks (hi - lo)
      if 10000000 < span.natAbs then
        some (.error s!"range {start}..{stop} is too large to iterate")
      else (visit checks one hi fuel lo).map .ok
  | _, _ => some (.error "cannot iterate a non-integer range")

theorem wrap_eq {x : Int} (h : Fits x) : wrap x = x :=
  Int.bmod_eq_of_le_mul_two (by unfold Fits at h; omega) (by unfold Fits at h; omega)

theorem fits_wrap (x : Int) : Fits (wrap x) :=
  ⟨Int.le_bmod (by decide), Int.bmod_lt (by decide)⟩

/-- A difference that is no `i64` comes out as what it lacks to `2 ^ 64`, with the other sign. -/
theorem natAbs_wrap {x : Int} (h : ¬ Fits x) (hx : x.natAbs < 2 ^ 64) :
    (wrap x).natAbs = 2 ^ 64 - x.natAbs := by
  unfold Fits at h
  rcases Int.le_total 0 x with h0 | h0
  · have hw : wrap x = wrap (x - 2 ^ 64) := (Int.sub_bmod_right x (2 ^ 64)).symm
    rw [hw, wrap_eq ⟨by omega, by omega⟩]
    omega
  · have hw : wrap x = wrap (x + 2 ^ 64) := (Int.add_bmod_right x (2 ^ 64)).symm
    rw [hw, wrap_eq ⟨by omega, by omega⟩]
    omega

theorem i64_eq (checks : Bool) {x : Int} (h : Fits x) : i64 checks x = some x := by
  simp [i64, wrap_eq h]

theorem i64_eq_some {checks : Bool} {x y : Int} (h : i64 checks x = some y) :
    y = wrap x ∧ (checks → wrap x = x) := by
  unfold i64 at h
  split_ifs at h with hc
  exact ⟨(some.inj h).symm, fun hchecks => by simpa [hchecks] using hc⟩

theorem intOf_eq {x : Int} (h : Fits x) : intOf (some x) = some x := by
  rw [intOf, filter_some, if_pos (decide_eq_true (wrap_eq h))]

/-- The last integer of the walk has a next one: the step after it does not overflow. -/
def Ends (one hi : Int) : Prop := hi ≠ if one = 1 then 2 ^ 63 - 1 else -2 ^ 63

instance (one hi : Int) : Decidable (Ends one hi) := inferInstanceAs (Decidable (_ ≠ _))

theorem visit_eq (checks : Bool) {one hi : Int} (hone : one = 1 ∨ one = -1) (hhi : Fits hi)
    (hend : Ends one hi) {i : Int} (hi' : Fits i) {fuel : Nat}
    (hfuel : (one * (hi - i) + 1).toNat < fuel) : visit checks one hi fuel i =
      some ((List.range (one * (hi - i) + 1).toNat).map fun j : Nat => i + one * j) := by
  unfold Fits Ends at *
  induction fuel generalizing i with
  | zero => cases hfuel
  | succ fuel ih =>
    rw [visit]
    split
    · have hk : (one * (hi - i) + 1).toNat = (one * (hi - (i + one)) + 1).toNat + 1 := by
        rcases hone with rfl | rfl <;> omega
      have hnext : -2 ^ 63 ≤ i + one ∧ i + one < 2 ^ 63 := by
        rcases hone with rfl | rfl <;> simp at hend <;> omega
      rw [i64_eq checks hnext, Option.bind_some, ih hnext (by omega), hk, List.range_succ_eq_map]
      simp [mul_add, add_assoc, add_left_comm, add_comm]
    · have hk : (one * (hi - i) + 1).toNat = 0 := by omega
      rw [hk]
      rfl

/-- A walk to the extreme of its direction never passes it: the step after it wraps around. -/
theorem visit_of_not_ends (checks : Bool) {one hi : Int} (hone : one = 1 ∨ one = -1)
    (hend : ¬ Ends one hi) (fuel : Nat) {i : Int} (hi' : Fits i) :
    visit checks one hi fuel i = none := by
  rw [Ends, not_not] at hend
  induction fuel generalizing i with
  | zero => rfl
  | succ fuel ih =>
    have hgo : 0 ≤ one * (hi - i) := by
      unfold Fits at hi'
      rcases hone with rfl | rfl <;> simp at hend <;> omega
    rw [visit, if_pos hgo, Option.bind_eq_none_iff]
    intro next hnext
    rw [ih ((i64_eq_some hnext).1 ▸ fits_wrap _), map_none]

/-- A walk that has not passed its end visits something. -/
theorem visit_ne_nil {checks : Bool} {one hi i : Int} (fuel : Nat) (hgo : 0 ≤ one * (hi - i)) :
    visit checks one hi fuel i ≠ some [] := by
  cases fuel with
  | zero => simp [visit]
  | succ fuel => cases h : i64 checks (i + one) <;> simp [visit, hgo, h]

/-- What a range stands for: the error of a bracketed range that descends, that of one too large,
or its integers from the first to the last. -/
def rangeElements (start stop one first last : Int) (allowDescending : Bool) :
    Except String (List Int) :=
  if !allowDescending && stop < start then
    .error "cannot iterate a descending interval literal value"
  else if 10000000 < (last - first).natAbs then
    .error s!"range {start}..{stop} is too large to iterate"
  else .ok ((List.range (one * (last - first) + 1).toNat).map fun j : Nat => first + one * j)

section Iterate

variable (checks : Bool) {start stop : Int} (hstart : Fits start) (hstop : Fits stop)
  {startInclusive endInclusive allowDescending : Bool}
  {one first last : Int} (hone : one = if start ≤ stop then 1 else -1)
  (hfirst : first = if startInclusive then start else start + one)
  (hlast : last = if endInclusive then stop else stop - one)
  (hdir : ¬ (allowDescending = false ∧ stop < start))

include hone in
theorem direction_cases : one = 1 ∧ start ≤ stop ∨ one = -1 ∧ stop < start := by
  split_ifs at hone <;> omega

include hstart hstop hone hfirst hlast hdir

theorem expandRange_of_fits (hf : Fits first) (hl : Fits last) (fuel : Nat) :
    expandRange checks ⟨some start, some stop, startInclusive, endInclusive, none⟩ allowDescending
        fuel = (i64 checks (last - first)).bind fun span => if 10000000 < span.natAbs then
          some (.error s!"range {start}..{stop} is too large to iterate")
        else (visit checks one last fuel first).map .ok := by
  simp only [expandRange, intOf_eq hstart, intOf_eq hstop, ← hone, ← hfirst, ← hlast,
    i64_eq checks hf,
    i64_eq checks hl]
  rw [if_neg (by simpa using hdir)]
  rfl

/-- Elements come from a walk between the wrapped ends. -/
theorem visit_of_expandRange {fuel : Nat} {xs : List Int}
    (h : expandRange checks ⟨some start, some stop, startInclusive, endInclusive, none⟩
      allowDescending fuel = some (.ok xs)) :
    visit checks one (wrap last) fuel (wrap first) = some xs := by
  simp only [expandRange, intOf_eq hstart, intOf_eq hstop, ← hone, ← hfirst, ← hlast] at h
  rw [if_neg (by simpa using hdir)] at h
  obtain ⟨lo, hlo, h⟩ := Option.bind_eq_some_iff.mp h
  obtain ⟨hi, hhi, h⟩ := Option.bind_eq_some_iff.mp h
  obtain ⟨span, -, h⟩ := Option.bind_eq_some_iff.mp h
  obtain ⟨rfl, -⟩ := i64_eq_some hlo
  obtain ⟨rfl, -⟩ := i64_eq_some hhi
  split at h
  · cases h
  obtain ⟨ys, hys, hok⟩ := Option.map_eq_some_iff.mp h
  exact hys.trans (congrArg some (Except.ok.inj hok))

/-- An end that overflows: the range has no integer, and the walk starts at the other extreme. -/
theorem fits_of_expandRange {fuel : Nat}
    (h : expandRange checks ⟨some start, some stop, startInclusive, endInclusive, none⟩
      allowDescending fuel = some (rangeElements start stop one first last allowDescending)) :
    Fits first ∧ Fits last := by
  by_contra hout
  have hcases : one = 1 ∧ start = stop ∧ (last - first).natAbs ≤ 10000000 ∧ last < first ∧
      (first = 2 ^ 63 ∧ (last = 2 ^ 63 - 1 ∨ last = 2 ^ 63 - 2) ∨
        last = -2 ^ 63 - 1 ∧ (first = -2 ^ 63 ∨ first = -2 ^ 63 + 1)) := by
    have hdir' := direction_cases hone
    unfold Fits at *
    split_ifs at hfirst hlast <;> omega
  obtain ⟨rfl, rfl, hspan, hlt, hends⟩ := hcases
  have hempty : rangeElements start start 1 first last allowDescending = .ok [] := by
    simp [rangeElements, hspan.not_gt, hlt]
  have hgo : 0 ≤ 1 * (wrap last - wrap first) := by
    rcases hends with ⟨rfl, rfl | rfl⟩ | ⟨rfl, rfl | rfl⟩ <;> decide
  exact visit_ne_nil fuel hgo
    (visit_of_expandRange checks hstart hstop hone hfirst hlast hdir (hempty ▸ h))

end Iterate

/-- **Which ranges are iterated right**, of all whose ends are `i64` values: one that is refused for
its direction, or one whose first and last integer are `i64` values too and which either is short
enough and does not end at the extreme, or is too long in a way that the size check sees. The check
sees a wrapped difference; in a build with overflow checks the difference must be an `i64`. -/
theorem expandRange_exact (checks : Bool) {start stop : Int} (hstart : Fits start)
    (hstop : Fits stop) (startInclusive endInclusive allowDescending : Bool)
    {one first last : Int} (hone : one = if start ≤ stop then 1 else -1)
    (hfirst : first = if startInclusive then start else start + one)
    (hlast : last = if endInclusive then stop else stop - one) :
    (∃ n, ∀ fuel > n, expandRange checks ⟨some start, some stop, startInclusive, endInclusive, none⟩
        allowDescending fuel = some (rangeElements start stop one first last allowDescending)) ↔
      (allowDescending = false ∧ stop < start) ∨ (Fits first ∧ Fits last ∧
        ((last - first).natAbs ≤ 10000000 ∧ Ends one last ∨ 10000000 < (last - first).natAbs ∧
          (last - first).natAbs < 2 ^ 64 - 10000000 ∧ (checks → Fits (last - first)))) := by
  by_cases hdir : allowDescending = false ∧ stop < start
  · refine iff_of_true ⟨0, fun fuel _ => ?_⟩ (.inl hdir)
    simp [expandRange, intOf_eq hstart, intOf_eq hstop, rangeElements, hdir]
  have hone' : one = 1 ∨ one = -1 := (direction_cases hone).imp And.left And.left
  have hvalue : rangeElements start stop one first last allowDescending
      = if 10000000 < (last - first).natAbs then
          .error s!"range {start}..{stop} is too large to iterate"
        else .ok ((List.range (one * (last - first) + 1).toNat).map fun j : Nat =>
          first + one * j) := if_neg (by simpa using hdir)
  rw [or_iff_right hdir]
  constructor
  · rintro ⟨n, hn⟩
    have hrun := hn (n + 1) (Nat.lt_succ_self n)
    obtain ⟨hf, hl⟩ := fits_of_expandRange checks hstart hstop hone hfirst hlast hdir hrun
    refine ⟨hf, hl, ?_⟩
    rw [expandRange_of_fits checks hstart hstop hone hfirst hlast hdir hf hl, hvalue] at hrun
    obtain ⟨span, hspan, hrun⟩ := Option.bind_eq_some_iff.mp hrun
    obtain ⟨rfl, hchecked⟩ := i64_eq_some hspan
    by_cases hbig : 10000000 < (last - first).natAbs
    · -- the error is right, so the wrapped difference was seen to be large as well
      refine .inr ⟨hbig, ?_, fun hc => hchecked hc ▸ fits_wrap _⟩
      by_contra hhuge
      have hsmall : ¬ 10000000 < (wrap (last - first)).natAbs := by
        unfold Fits at hf hl
        rw [natAbs_wrap (by unfold Fits; omega) (by omega)]
        omega
      rw [if_neg hsmall, if_pos hbig] at hrun
      obtain ⟨xs, -, hxs⟩ := Option.map_eq_some_iff.mp hrun
      cases hxs
    · refine .inl ⟨by omega, ?_⟩
      by_contra hend
      have hsame : wrap (last - first) = last - first := wrap_eq ⟨by omega, by omega⟩
      rw [hsame, if_neg hbig, visit_of_not_ends checks hone' hend (n + 1) hf] at hrun
      cases hrun
  · rintro ⟨hf, hl, hcase⟩
    refine ⟨(one * (last - first) + 1).toNat, fun fuel hfuel => ?_⟩
    rw [expandRange_of_fits checks hstart hstop hone hfirst hlast hdir hf hl, hvalue]
    rcases hcase with ⟨hsmall, hend⟩ | ⟨hbig, hfar, hchecked⟩
    · rw [i64_eq checks ⟨by omega, by omega⟩, bind_some, if_neg (by omega), if_neg (by omega),
        visit_eq checks hone' hl hend hf hfuel, map_some]
    · have hseen : i64 checks (last - first) = some (wrap (last - first)) :=
        if_neg (by
          rw [Bool.and_eq_true, decide_eq_true_eq]
          exact fun h => h.2 (wrap_eq (hchecked h.1)))
      have hlarge : 10000000 < (wrap (last - first)).natAbs := by
        by_cases hfits : Fits (last - first)
        · rwa [wrap_eq hfits]
        · rw [natAbs_wrap hfits (by omega)]
          omega
      rw [hseen, bind_some, if_pos hlarge, if_pos hbig]

/-- `[1..3)`, three integers below the greatest `i64` and the whole half line above zero. -/
theorem integers_from_one_to_three :
    (∃ n, ∀ fuel > n, expandRange true ⟨some 1, some 3, true, false, none⟩ true fuel
      = some (.ok [1, 2])) ∧
    (∃ n, ∀ fuel > n, expandRange true
        ⟨some (2 ^ 63 - 3), some (2 ^ 63 - 1), true, false, none⟩ true fuel
      = some (.ok [2 ^ 63 - 3, 2 ^ 63 - 2])) ∧
    ∃ n, ∀ fuel > n, expandRange true ⟨some 0, some (2 ^ 63 - 1), true, true, none⟩ true fuel
      = some (.error "range 0..9223372036854775807 is too large to iterate") :=
  ⟨(@expandRange_exact true 1 3 (by decide) (by decide) true false true _ _ _ rfl rfl rfl).mpr
      (.inr (by decide)),
    (@expandRange_exact true (2 ^ 63 - 3) (2 ^ 63 - 1) (by decide) (by decide) true false true _ _ _
      rfl rfl rfl).mpr (.inr (by decide)),
    (@expandRange_exact true 0 (2 ^ 63 - 1) (by decide) (by decide) true true true _ _ _ rfl rfl
      rfl).mpr (.inr (by decide))⟩

/-- At the greatest `i64` the counter wraps around and never passes the end. -/
theorem greatest_never_ends : ¬ ∃ fuel, (expandRange false
    ⟨some (2 ^ 63 - 1), some (2 ^ 63 - 1), true, true, none⟩ true fuel).isSome := by
  rintro ⟨fuel, h⟩
  have hfits : Fits (2 ^ 63 - 1) := by decide
  have hnone : visit false 1 (2 ^ 63 - 1) fuel (2 ^ 63 - 1) = none :=
    visit_of_not_ends false (.inl rfl) (by decide) fuel hfits
  have hrun := @expandRange_of_fits false (2 ^ 63 - 1) (2 ^ 63 - 1) hfits hfits true true true 1
    (2 ^ 63 - 1) (2 ^ 63 - 1) rfl rfl rfl (by decide) hfits hfits fuel
  rw [hrun, i64_eq false (by decide), bind_some, if_neg (by decide), hnone] at h
  cases h

end Sutra.Feel
