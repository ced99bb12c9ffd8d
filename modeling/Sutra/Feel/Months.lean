import Sutra.Feel.Temporal

/-!
# Calendar months

* `addMonths` moves a date by months and clamps its day; `monthsBetween` counts the whole months
  between two dates.
* `Date.monthIndex`: both are about one number, the month counted from year 0. A date is that number
  and a day, and dates are ordered by it first (`Date.le_iff`).

Years have six digits, so no operation of the source overflows.
-/

namespace Sutra.Feel

namespace Date

def Le (a b : Date) : Prop :=
  a.year < b.year ∨ (a.year = b.year ∧ (a.month < b.month ∨ (a.month = b.month ∧ a.day ≤ b.day)))

def monthIndex (d : Date) : Int := d.year * 12 + (d.month - 1)

theorem month_mem (d : Date) : 1 ≤ d.month ∧ d.month ≤ 12 := by
  have hday := d.valid.2
  unfold daysInMonth at hday
  split_ifs at hday <;> omega

theorem le_iff {a b : Date} : a.Le b ↔
    a.monthIndex < b.monthIndex ∨ (a.monthIndex = b.monthIndex ∧ a.day ≤ b.day) := by
  have ha := a.month_mem
  have hb := b.month_mem
  unfold Le monthIndex
  omega

theorem ext_monthIndex {a b : Date} (h : a.monthIndex = b.monthIndex) :
    a.year = b.year ∧ a.month = b.month := by
  have ha := a.month_mem
  have hb := b.month_mem
  unfold monthIndex at h
  omega

/-- The length of a month, as the evaluator has it. -/
def lastDayOfMonth (year : Int) (month : Nat) : Nat :=
  if month = 2 then (if isLeapYear year then 29 else 28)
  else if month ∈ [4, 6, 9, 11] then 30 else 31

/-- The evaluator and the calendar have months of the same length. -/
theorem lastDayOfMonth_eq (year : Int) {month : Nat} (h : 1 ≤ month ∧ month ≤ 12) :
    lastDayOfMonth year month = daysInMonth year month := by
  simp only [lastDayOfMonth, daysInMonth, List.mem_cons, List.not_mem_nil, or_false, if_pos h]

/-- **The date so many months later**, with its day clamped to the length of the month. -/
def addMonths (d : Date) (months : Int) : Option Date :=
  let total := d.year * 12 + (d.month - 1) + months
  let year := total / 12
  let month := (total % 12 + 1).toNat
  fromCalendarDate year month (min d.day (lastDayOfMonth year month))

/-- **The whole months from one date to another**: a month whose day is not reached is not
counted. -/
def monthsBetween (a b : Date) : Int :=
  let months := (b.year - a.year) * 12 + ((b.month : Int) - a.month)
  if 0 < months ∧ b.day < a.day then months - 1
  else if months < 0 ∧ a.day < b.day then months + 1
  else months

theorem le_daysInMonth (year : Int) (month : Nat) (h : 1 ≤ month ∧ month ≤ 12) :
    1 ≤ daysInMonth year month := by
  unfold daysInMonth
  split_ifs <;> omega

/-- A date has a date so many months later as long as the year stays in the calendar. -/
theorem addMonths_isSome (d : Date) (months : Int) : (∃ e, d.addMonths months = some e) ↔
    -999999 * 12 ≤ d.monthIndex + months ∧ d.monthIndex + months < 1000000 * 12 := by
  have hlength := le_daysInMonth ((d.year * 12 + (d.month - 1) + months) / 12)
    ((d.year * 12 + (d.month - 1) + months) % 12 + 1).toNat (by omega)
  rw [← lastDayOfMonth_eq _ (by omega)] at hlength
  have hday := d.valid.2.1
  unfold monthIndex
  constructor
  · rintro ⟨e, he⟩
    simp only [addMonths, fromCalendarDate] at he
    split at he
    · rename_i h
      have hyear := h.1
      omega
    · cases he
  · intro hrange
    refine ⟨_, dif_pos ⟨by omega, le_min hday hlength, ?_⟩⟩
    exact (min_le_right _ _).trans_eq (lastDayOfMonth_eq _ (by omega))

theorem addMonths_spec {d e : Date} {months : Int} (h : d.addMonths months = some e) :
    e.monthIndex = d.monthIndex + months ∧ e.day = min d.day (lastDayOfMonth e.year e.month) := by
  simp only [addMonths, fromCalendarDate] at h
  split at h
  · cases h
    unfold monthIndex
    exact ⟨by dsimp only; omega, rfl⟩
  · cases h

theorem monthsBetween_neg (a b : Date) : monthsBetween b a = -monthsBetween a b := by
  unfold monthsBetween
  dsimp only
  split_ifs <;> omega

theorem monthsBetween_cases {a b : Date} (h : a.Le b) :
    (a.day ≤ b.day ∧ a.monthIndex + monthsBetween a b = b.monthIndex) ∨
      (b.day < a.day ∧ a.monthIndex + monthsBetween a b + 1 = b.monthIndex) := by
  rw [le_iff] at h
  unfold monthsBetween monthIndex at *
  dsimp only
  split_ifs <;> omega

/-- **Calendar months are consistent.**  For dates in order, the months between them lead from the
first to a date that is not after the second, and one month more to a date that is not before it,
and is the second itself only when the day was clamped (or else leaves the calendar). Counting
backwards is the negated count. Adding months has a result exactly while the calendar has the year;
it is exact in year and month, and the day is clamped to the length of the month. -/
theorem months_consistent (a b : Date) (hle : a.Le b) :
    (∃ c, a.addMonths (monthsBetween a b) = some c ∧ c.Le b) ∧
    ((∃ e, a.addMonths (monthsBetween a b + 1) = some e ∧ b.Le e ∧ (b = e → e.day < a.day)) ∨
      1000000 * 12 ≤ a.monthIndex + (monthsBetween a b + 1)) ∧
    (∀ x y : Date, monthsBetween y x = -monthsBetween x y) ∧
    ∀ (d : Date) (months : Int), ((∃ e, d.addMonths months = some e) ↔
        -999999 * 12 ≤ d.monthIndex + months ∧ d.monthIndex + months < 1000000 * 12) ∧
      ∀ e, d.addMonths months = some e → e.monthIndex = d.monthIndex + months ∧
        e.day = min d.day (lastDayOfMonth e.year e.month) := by
  have hcases := monthsBetween_cases hle
  have ha := a.month_mem
  have hb := b.month_mem
  have hay := a.valid.1
  have hby := b.valid.1
  have hai : a.monthIndex = a.year * 12 + (a.month - 1) := rfl
  have hbi : b.monthIndex = b.year * 12 + (b.month - 1) := rfl
  have hbefore := le_iff.mp hle
  refine ⟨?_, ?_, fun x y => monthsBetween_neg x y, fun d months =>
    ⟨d.addMonths_isSome months, fun e => addMonths_spec⟩⟩
  · obtain ⟨c, hc⟩ := (a.addMonths_isSome (monthsBetween a b)).mpr ⟨by omega, by omega⟩
    obtain ⟨hindex, hday⟩ := addMonths_spec hc
    refine ⟨c, hc, le_iff.mpr ?_⟩
    omega
  · by_cases hhi : a.monthIndex + (monthsBetween a b + 1) < 1000000 * 12
    · obtain ⟨e, he⟩ := (a.addMonths_isSome _).mpr ⟨by omega, hhi⟩
      obtain ⟨hindex, hday⟩ := addMonths_spec he
      refine .inl ⟨e, he, ?_⟩
      rcases hcases with ⟨hreached, hmonths⟩ | ⟨hbelow, hmonths⟩
      · refine ⟨le_iff.mpr (by omega), ?_⟩
        rintro rfl
        omega
      · -- the day of `b` is in its month, so clamping leaves at least it
        obtain ⟨hyear, hmonth⟩ := ext_monthIndex (a := e) (b := b) (by omega)
        have hlength : b.day ≤ lastDayOfMonth e.year e.month := by
          rw [hyear, hmonth, lastDayOfMonth_eq _ hb]
          exact b.valid.2.2
        refine ⟨le_iff.mpr (by omega), ?_⟩
        rintro rfl
        exact hbelow
    · exact .inr (not_lt.mp hhi)

/-- From the last of January to the last of February there is no whole month, and a month after the
first is the second: its day was clamped. -/
theorem february_clamped : ∃ a b : Date, a.Le b ∧ monthsBetween a b = 0 ∧ a.addMonths 1 = some b ∧
      ∃ c, a.addMonths (monthsBetween a b) = some c ∧ c.Le b := by
  have hle : Le ⟨2021, 1, 31, by decide⟩ ⟨2021, 2, 28, by decide⟩ := .inr ⟨rfl, .inl (by decide)⟩
  exact ⟨_, _, hle, by decide, by decide, (months_consistent _ _ hle).1⟩

end Date

end Sutra.Feel
