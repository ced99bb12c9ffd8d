import Sutra.Feel.Temporal

/-!
# The text of a duration

What `parseDuration` makes of a text that is written as ISO 8601 has it (`DurationText`): each unit
at most once, in its place, with a whole number in front. Such a text is read unit by unit. The
reader accepts more (`LooseText`): units in any order and more than once, of both kinds, and numbers
with a fraction, which it drops.

* `parseDuration_text`: what a text of ISO 8601 is read as.
* `parseDuration_isSome_iff`: which texts are accepted.
* `duration_literal_exact`: which texts are read as what they say.
-/

namespace Sutra.Feel

open Scan List Option Int64

/-! ## Texts -/

/-- A number as it is written. -/
structure Numeral where
  digits : List Char
  ne_nil : digits ≠ []
  isDigit : ∀ c ∈ digits, c.isDigit = true

/-- What a unit counts; nothing when it is left out. -/
def amount (x : Option Numeral) : Nat := (x.map fun k => value k.digits).getD 0

/-- A number with its unit letter, or nothing. -/
def unitText (x : Option Numeral) (u : Char) : List Char :=
  (x.map fun k => k.digits ++ [u]).getD []

def unitPair (x : Option Numeral) (u : Char) : List (Int64 × Char) :=
  (x.map fun k => [(Int64.ofInt (value k.digits), u)]).getD []

/-- **A duration as ISO 8601 writes it.**  A text without the letter `T` has no time. -/
structure DurationText where
  negative : Bool
  years : Option Numeral
  months : Option Numeral
  weeks : Option Numeral
  days : Option Numeral
  withT : Bool
  hours : Option Numeral
  minutes : Option Numeral
  seconds : Option Numeral
  timed : withT = false → hours = none ∧ minutes = none ∧ seconds = none

namespace DurationText

variable (x : DurationText)

def dateText : List Char :=
  unitText x.years 'Y' ++ (unitText x.months 'M' ++ (unitText x.weeks 'W' ++ unitText x.days 'D'))

def timeText : List Char :=
  unitText x.hours 'H' ++ (unitText x.minutes 'M' ++ unitText x.seconds 'S')

def text : List Char :=
  (if x.negative then ['-'] else []) ++
    'P' :: (x.dateText ++ (if x.withT then 'T' :: x.timeText else []))

def monthCount : Nat := amount x.years * 12 + amount x.months

/-- The exact number of seconds that the other units make. -/
def secondCount : Nat :=
  (amount x.weeks * 7 + amount x.days) * 86400 + amount x.hours * 3600 + amount x.minutes * 60 +
    amount x.seconds

/-- Every number can be read. -/
def Readable : Prop :=
  ∀ k ∈ [x.years, x.months, x.weeks, x.days, x.hours, x.minutes, x.seconds], amount k < 2 ^ 63

end DurationText

def signed (negative : Bool) (n : Nat) : Int := if negative then -n else n

/-! ## Pairs of a number and a unit -/

/-- A number with its unit as the reader takes them: digits and points, of which the digits before
the first point count. -/
structure Component where
  number : List Char
  unit : Char

namespace Component

variable (c : Component)

/-- The characters of the component. -/
def text : List Char := c.number ++ [c.unit]

/-- The count that the reader makes of the number. -/
def count : Option Int64 :=
  let intPart := c.number.takeWhile (· != '.')
  if intPart.isEmpty then some 0 else (integer (-(2 ^ 63)) (2 ^ 63 - 1) intPart).map Int64.ofInt

/-- There is a number, of digits and points, and its integer part is an `i64`. -/
structure Accepted : Prop where
  ne_nil : c.number ≠ []
  chars : ∀ x ∈ c.number, (x.isDigit || x == '.') = true
  readable : c.count.isSome = true

end Component

theorem isoPairsFrom_number {cs : List Char} (hcs : ∀ c ∈ cs, (c.isDigit || c == '.') = true)
    (rest num : List Char) (out : List (Int64 × Char)) :
    isoPairsFrom (cs ++ rest) num out = isoPairsFrom rest (num ++ cs) out := by
  induction cs generalizing num with
  | nil => rw [append_nil, nil_append]
  | cons c cs ih =>
    rw [cons_append, isoPairsFrom, if_pos (hcs c mem_cons_self),
      ih fun c' hc' => hcs c' (mem_cons_of_mem c hc'), append_assoc, singleton_append]

def IsUnit (u : Char) : Prop := u.isAlpha = true ∧ u.isDigit = false ∧ u ≠ '.'

instance : DecidablePred IsUnit := fun _ => inferInstanceAs (Decidable (_ ∧ _))

variable {x : Option Numeral} {n : Nat} {u : Char} {printed : Bool}

/-- One number with its unit is read. -/
theorem isoPairsFrom_component {c : Component} (hne : c.number ≠ [])
    (hchars : ∀ x ∈ c.number, (x.isDigit || x == '.') = true) (hu : IsUnit c.unit)
    (rest : List Char) (out : List (Int64 × Char)) :
    isoPairsFrom (c.text ++ rest) [] out =
      c.count.bind fun n => isoPairsFrom rest [] (out ++ [(n, c.unit)]) := by
  have hletter : ¬ (c.unit.isDigit || c.unit == '.') := by
    rw [hu.2.1, beq_eq_false_iff_ne.mpr hu.2.2]
    decide
  rw [Component.text, append_assoc, isoPairsFrom_number hchars, nil_append, singleton_append,
    isoPairsFrom, if_neg hletter, if_pos hu.1, if_neg (by simpa using hne)]
  rfl

/-- The count of a number without a point, or nothing when it is beyond an `i64`. -/
theorem Numeral.count (k : Numeral) (u : Char) : (Component.mk k.digits u).count =
    if value k.digits < 2 ^ 63 then some (Int64.ofInt (value k.digits)) else none := by
  have hint : k.digits.takeWhile (· != '.') = k.digits :=
    takeWhile_eq_self_iff.mpr fun d hd => bne_iff_ne.mpr (ne_of_isDigit (k.isDigit d hd) rfl)
  simp only [Component.count, hint, integer, splitSign_of_digits _ k.isDigit,
    isEmpty_eq_false_iff.mpr k.ne_nil, all_eq_true.mpr k.isDigit, Bool.not_true, Bool.or_self,
    Bool.false_eq_true, if_false]
  split
  · rw [if_pos (by omega)]
    rfl
  · rw [if_neg (by omega)]
    rfl

theorem isoPairsFrom_numeral (k : Numeral) (hu : IsUnit u) (rest : List Char)
    (out : List (Int64 × Char)) : isoPairsFrom (unitText (some k) u ++ rest) [] out =
      (if value k.digits < 2 ^ 63 then some (Int64.ofInt (value k.digits)) else none).bind fun n =>
        isoPairsFrom rest [] (out ++ [(n, u)]) := by
  have h := isoPairsFrom_component (c := ⟨k.digits, u⟩) k.ne_nil
    (fun d hd => by rw [k.isDigit d hd, Bool.true_or]) hu rest out
  rwa [k.count] at h

theorem isoPairsFrom_unitText (hx : amount x < 2 ^ 63) (hu : IsUnit u) (rest : List Char)
    (out : List (Int64 × Char)) :
    isoPairsFrom (unitText x u ++ rest) [] out = isoPairsFrom rest [] (out ++ unitPair x u) := by
  cases x with
  | none => exact congrArg _ (append_nil out).symm
  | some k =>
    change value k.digits < 2 ^ 63 at hx
    rw [isoPairsFrom_numeral k hu, if_pos hx]
    rfl

theorem isoPairsFrom_last (hx : amount x < 2 ^ 63) (hu : IsUnit u) (out : List (Int64 × Char)) :
    isoPairsFrom (unitText x u) [] out = some (out ++ unitPair x u) := by
  have h := isoPairsFrom_unitText hx hu [] out
  rw [append_nil] at h
  exact h

/-- A number beyond an `i64` is refused. -/
theorem isoPairsFrom_unreadable (hx : 2 ^ 63 ≤ amount x) (hu : IsUnit u)
    (out : List (Int64 × Char)) : isoPairsFrom (unitText x u) [] out = none := by
  cases x with
  | none => exact absurd hx (by decide)
  | some k =>
    change 2 ^ 63 ≤ value k.digits at hx
    have h := isoPairsFrom_numeral k hu [] out
    rwa [append_nil, if_neg (Nat.not_lt.mpr hx)] at h

theorem notMem_unitText {t : Char} (ht : t.isDigit = false) (hu : t ≠ u) : t ∉ unitText x u := by
  cases x with
  | none => exact not_mem_nil
  | some k =>
    intro hmem
    rcases mem_append.mp hmem with hmem | hmem
    · exact absurd (k.isDigit t hmem) (Bool.eq_false_iff.mp ht)
    · exact hu (mem_singleton.mp hmem)

/-! ## Units -/

theorem foldlM_date (y m w d : Option Numeral) :
    (unitPair y 'Y' ++ (unitPair m 'M' ++ (unitPair w 'W' ++ unitPair d 'D'))).foldlM
        DateUnits.add {} = some
      { years := Int64.ofInt (amount y), months := Int64.ofInt (amount m),
        days := Int64.ofInt (amount w) * 7 + Int64.ofInt (amount d),
        hasYm := y.isSome || m.isSome, hasDay := w.isSome || d.isSome } := by
  cases y <;> cases m <;> cases w <;> cases d <;>
    simp [unitPair, amount, List.foldlM, DateUnits.add]

theorem foldlM_time (h m s : Option Numeral) :
    (unitPair h 'H' ++ (unitPair m 'M' ++ unitPair s 'S')).foldlM TimeUnits.add {} = some
      { hours := Int64.ofInt (amount h), mins := Int64.ofInt (amount m),
        secs := Int64.ofInt (amount s), hasTime := h.isSome || m.isSome || s.isSome } := by
  cases h <;> cases m <;> cases s <;> rfl

theorem DurationText.parts (x : DurationText) :
    (splitOnce 'T' (x.dateText ++ (if x.withT then 'T' :: x.timeText else []))).getD
      (x.dateText ++ (if x.withT then 'T' :: x.timeText else []), []) =
        (x.dateText, x.timeText) := by
  have hnoT : 'T' ∉ x.dateText := by
    simp only [DurationText.dateText, mem_append, not_or]
    exact ⟨notMem_unitText rfl (by decide), notMem_unitText rfl (by decide),
      notMem_unitText rfl (by decide), notMem_unitText rfl (by decide)⟩
  by_cases hT : x.withT
  · rw [if_pos hT, splitOnce_append hnoT]
    rfl
  · obtain ⟨hh, hm, hs⟩ := x.timed (Bool.eq_false_iff.mpr hT)
    rw [if_neg hT, append_nil, splitOnce_eq_none hnoT, DurationText.timeText, hh, hm, hs]
    rfl

theorem DurationText.parseDuration_eq (x : DurationText) : parseDuration x.text =
    parseDurationBody x.negative (x.dateText ++ (if x.withT then 'T' :: x.timeText else [])) := by
  rw [DurationText.text]
  cases x.negative <;> rfl

/-- **A text is read unit by unit.** -/
theorem parseDuration_text {x : DurationText} (hread : x.Readable)
    (hsome : (x.years.isSome || x.months.isSome || x.weeks.isSome || x.days.isSome ||
      x.hours.isSome || x.minutes.isSome || x.seconds.isSome)) :
    parseDuration x.text = some
      (if (x.years.isSome || x.months.isSome) && !(x.weeks.isSome || x.days.isSome) &&
          !(x.hours.isSome || x.minutes.isSome || x.seconds.isSome) then
        .yearsMonths (Int64.ofInt (signed x.negative x.monthCount)).toInt32
      else .daysTime (.ofSeconds (Int64.ofInt (signed x.negative x.secondCount)))) := by
  simp only [DurationText.Readable, forall_mem_cons] at hread
  obtain ⟨hy, hm, hw, hd, hh, hmi, hs, -⟩ := hread
  have hdate : isoPairs x.dateText = some (unitPair x.years 'Y' ++
      (unitPair x.months 'M' ++ (unitPair x.weeks 'W' ++ unitPair x.days 'D'))) := by
    rw [isoPairs, DurationText.dateText, isoPairsFrom_unitText hy (by decide),
      isoPairsFrom_unitText hm (by decide), isoPairsFrom_unitText hw (by decide),
      isoPairsFrom_last hd (by decide)]
    simp only [nil_append, append_assoc]
  have htime : isoPairs x.timeText = some
      (unitPair x.hours 'H' ++ (unitPair x.minutes 'M' ++ unitPair x.seconds 'S')) := by
    rw [isoPairs, DurationText.timeText, isoPairsFrom_unitText hh (by decide),
      isoPairsFrom_unitText hmi (by decide), isoPairsFrom_last hs (by decide)]
    simp only [nil_append, append_assoc]
  have hne : ((unitPair x.years 'Y' ++ (unitPair x.months 'M' ++ (unitPair x.weeks 'W' ++
      unitPair x.days 'D'))).isEmpty && (unitPair x.hours 'H' ++ (unitPair x.minutes 'M' ++
      unitPair x.seconds 'S')).isEmpty) = false := by
    have hempty : ∀ (k : Option Numeral) (u : Char), unitPair k u = [] ↔ k = none :=
      fun k u => by cases k <;> simp [unitPair]
    refine Bool.eq_false_iff.mpr fun h => ?_
    simp only [Bool.and_eq_true, List.isEmpty_iff, append_eq_nil_iff, hempty] at h
    simp [h] at hsome
  have hsign : ∀ k : Nat, sign x.negative (Int64.ofInt k) = Int64.ofInt (signed x.negative k) :=
    fun k => by
      cases x.negative with
      | false => rfl
      | true => exact (ofInt_neg _).symm
  have hmonths : Int64.ofInt (amount x.years) * 12 + Int64.ofInt (amount x.months) =
      Int64.ofInt x.monthCount := by
    simp only [DurationText.monthCount, Int.natCast_add, Int.natCast_mul, ofInt_add, ofInt_mul]
    rfl
  have hseconds : (Int64.ofInt (amount x.weeks) * 7 + Int64.ofInt (amount x.days)) * 86400 +
      Int64.ofInt (amount x.hours) * 3600 + Int64.ofInt (amount x.minutes) * 60 +
      Int64.ofInt (amount x.seconds) = Int64.ofInt x.secondCount := by
    simp only [DurationText.secondCount, Int.natCast_add, Int.natCast_mul, ofInt_add, ofInt_mul]
    rfl
  rw [x.parseDuration_eq, parseDurationBody, x.parts]
  simp only [hdate, htime, hne, foldlM_date, foldlM_time, bind_eq_bind, bind_some,
    Bool.false_eq_true, if_false, Option.pure_def, durationOf, hmonths, hseconds, hsign]

theorem readable_of_counts {x : DurationText} (hmonths : x.monthCount < 2 ^ 63)
    (hseconds : x.secondCount ≤ 2 ^ 63) (hlast : amount x.seconds < 2 ^ 63) : x.Readable := by
  unfold DurationText.monthCount at hmonths
  unfold DurationText.secondCount at hseconds
  simp only [DurationText.Readable, forall_mem_cons, not_mem_nil, false_implies,
    implies_true, and_true]
  omega

/-! ## What is accepted -/

/-- **A text that is accepted**: numbers with units, of the date before the `T` and of the time
after it, in any order and any number of times, but not none at all. -/
structure LooseText where
  negative : Bool
  date : List Component
  withT : Bool
  time : List Component
  timed : withT = false → time = []
  accepted : ∀ c ∈ date ++ time, c.Accepted
  dateUnits : ∀ c ∈ date, c.unit ∈ ['Y', 'M', 'W', 'D']
  timeUnits : ∀ c ∈ time, c.unit ∈ ['H', 'M', 'S']
  some : date ++ time ≠ []

/-- The characters of the text after its `P`. -/
def LooseText.body (x : LooseText) : List Char :=
  x.date.flatMap Component.text ++ (if x.withT then 'T' :: x.time.flatMap Component.text else [])

/-- The characters of the text. -/
def LooseText.text (x : LooseText) : List Char :=
  (if x.negative then ['-'] else []) ++ 'P' :: x.body

/-- Accepted components are read one by one. -/
theorem isoPairsFrom_components {cs : List Component} (hcs : ∀ c ∈ cs, c.Accepted)
    (hunits : ∀ c ∈ cs, IsUnit c.unit) (out : List (Int64 × Char)) :
    ∃ pairs, isoPairsFrom (cs.flatMap Component.text) [] out = some (out ++ pairs) ∧
      pairs.map Prod.snd = cs.map (·.unit) := by
  induction cs generalizing out with
  | nil => exact ⟨[], by rw [append_nil]; rfl, rfl⟩
  | cons c cs ih =>
    obtain ⟨hc, hcs⟩ := forall_mem_cons.mp hcs
    obtain ⟨hu, hunits⟩ := forall_mem_cons.mp hunits
    obtain ⟨n, hn⟩ := isSome_iff_exists.mp hc.readable
    obtain ⟨pairs, hpairs, hsnd⟩ := ih hcs hunits (out ++ [(n, c.unit)])
    refine ⟨(n, c.unit) :: pairs, ?_, congrArg (c.unit :: ·) hsnd⟩
    rw [flatMap_cons, isoPairsFrom_component hc.ne_nil hc.chars hu, hn, bind_some]
    rw [hpairs, append_assoc]
    rfl

/-- What is read is components. -/
theorem components_of_isoPairsFrom {s num : List Char} {out res : List (Int64 × Char)}
    (hnum : ∀ x ∈ num, (x.isDigit || x == '.') = true) (h : isoPairsFrom s num out = some res) :
    ∃ cs : List Component, num ++ s = cs.flatMap Component.text ∧ (∀ c ∈ cs, c.Accepted) ∧
      ∃ pairs, res = out ++ pairs ∧ pairs.map Prod.snd = cs.map (·.unit) := by
  induction s generalizing num out with
  | nil =>
    rw [isoPairsFrom] at h
    split at h
    · rename_i hempty
      cases h
      exact ⟨[], by rw [List.isEmpty_iff.mp hempty]; rfl, fun _ hc => absurd hc not_mem_nil, [],
        (append_nil _).symm, rfl⟩
    · cases h
  | cons c s ih =>
    rw [isoPairsFrom] at h
    split at h
    · rename_i hc
      have hmore : ∀ x ∈ num ++ [c], (x.isDigit || x == '.') = true := by
        intro x hx
        rcases mem_append.mp hx with hx | hx
        · exact hnum x hx
        · rw [mem_singleton.mp hx]
          exact hc
      obtain ⟨cs, htext, hrest⟩ := ih hmore h
      exact ⟨cs, by rw [← htext, append_assoc, singleton_append], hrest⟩
    · split at h
      · split at h
        · cases h
        · rename_i hne
          obtain ⟨n, hn, h⟩ := bind_eq_some_iff.mp h
          obtain ⟨cs, htext, hcs, pairs, hres, hsnd⟩ := ih (fun _ hx => absurd hx not_mem_nil) h
          refine ⟨⟨num, c⟩ :: cs, ?_, ?_, (n, c) :: pairs, ?_, congrArg (c :: ·) hsnd⟩
          · rw [flatMap_cons, ← htext, Component.text, nil_append, append_assoc, singleton_append]
          · refine forall_mem_cons.mpr ⟨⟨by simpa using hne, hnum, ?_⟩, hcs⟩
            exact isSome_of_eq_some hn
          · rw [hres, append_assoc]
            rfl
      · cases h

theorem isSome_foldlM {σ : Type} {add : σ → Int64 × Char → Option σ} {units : List Char}
    (hadd : ∀ u p, (add u p).isSome ↔ p.2 ∈ units) (pairs : List (Int64 × Char)) (u : σ) :
    (pairs.foldlM add u).isSome ↔ ∀ p ∈ pairs, p.2 ∈ units := by
  induction pairs generalizing u with
  | nil => simp
  | cons p pairs ih =>
    rw [foldlM_cons, forall_mem_cons, ← hadd u p]
    cases add u p with
    | none => simp
    | some u' => simp [ih]

theorem isSome_addDate (u : DateUnits) (p : Int64 × Char) :
    (u.add p).isSome ↔ p.2 ∈ ['Y', 'M', 'W', 'D'] := by
  obtain ⟨n, c⟩ := p
  simp only [mem_cons, not_mem_nil, or_false, DateUnits.add]
  grind

theorem isSome_addTime (u : TimeUnits) (p : Int64 × Char) :
    (u.add p).isSome ↔ p.2 ∈ ['H', 'M', 'S'] := by
  obtain ⟨n, c⟩ := p
  simp only [mem_cons, not_mem_nil, or_false, TimeUnits.add]
  grind

/-- A text after its `P` is accepted exactly if its two parts are components of their units. -/
theorem isSome_parseDurationBody {negative : Bool} {body datePart timePart : List Char}
    (hparts : (splitOnce 'T' body).getD (body, []) = (datePart, timePart)) :
    (parseDurationBody negative body).isSome ↔ ∃ date time : List Component,
      datePart = date.flatMap Component.text ∧ timePart = time.flatMap Component.text ∧
      (∀ c ∈ date ++ time, c.Accepted) ∧ (∀ c ∈ date, c.unit ∈ ['Y', 'M', 'W', 'D']) ∧
      (∀ c ∈ time, c.unit ∈ ['H', 'M', 'S']) ∧ date ++ time ≠ [] := by
  have hempty : ∀ {cs : List Component} {pairs : List (Int64 × Char)},
      pairs.map Prod.snd = cs.map (·.unit) → (pairs = [] ↔ cs = []) := by
    intro cs pairs h
    rw [← map_eq_nil_iff (f := Prod.snd), h, map_eq_nil_iff]
  have hmem : ∀ {cs : List Component} {pairs : List (Int64 × Char)} {units : List Char},
      pairs.map Prod.snd = cs.map (·.unit) →
      ((∀ p ∈ pairs, p.2 ∈ units) ↔ ∀ c ∈ cs, c.unit ∈ units) := by
    intro cs pairs units h
    rw [← List.forall_mem_map (f := Prod.snd) (P := (· ∈ units)), h, List.forall_mem_map]
  rw [parseDurationBody, hparts]
  constructor
  · intro h
    obtain ⟨out, h⟩ := isSome_iff_exists.mp h
    obtain ⟨datePairs, hdate, h⟩ := bind_eq_some_iff.mp h
    obtain ⟨timePairs, htime, h⟩ := bind_eq_some_iff.mp h
    obtain ⟨date, hdtext, hdok, dpairs, hdpairs, hdsnd⟩ :=
      components_of_isoPairsFrom (fun _ hx => absurd hx not_mem_nil) hdate
    obtain ⟨time, httext, htok, tpairs, htpairs, htsnd⟩ :=
      components_of_isoPairsFrom (fun _ hx => absurd hx not_mem_nil) htime
    rw [nil_append] at hdpairs htpairs
    subst hdpairs htpairs
    split at h
    · cases h
    · rename_i hsome
      obtain ⟨d, hd, h⟩ := bind_eq_some_iff.mp h
      obtain ⟨t, ht, -⟩ := bind_eq_some_iff.mp h
      refine ⟨date, time, hdtext, httext, ?_, ?_, ?_, ?_⟩
      · exact fun c hc => (mem_append.mp hc).elim (hdok c) (htok c)
      · exact (hmem hdsnd).mp ((isSome_foldlM isSome_addDate _ _).mp (isSome_of_eq_some hd))
      · exact (hmem htsnd).mp ((isSome_foldlM isSome_addTime _ _).mp (isSome_of_eq_some ht))
      · rintro hnil
        obtain ⟨hdnil, htnil⟩ := append_eq_nil_iff.mp hnil
        rw [(hempty hdsnd).mpr hdnil, (hempty htsnd).mpr htnil] at hsome
        exact hsome rfl
  · rintro ⟨date, time, rfl, rfl, hok, hdunits, htunits, hsome⟩
    have hdletters : ∀ u ∈ ['Y', 'M', 'W', 'D'], IsUnit u := by
      simp only [forall_mem_cons]
      exact ⟨by decide, by decide, by decide, by decide, fun _ h => absurd h not_mem_nil⟩
    have htletters : ∀ u ∈ ['H', 'M', 'S'], IsUnit u := by
      simp only [forall_mem_cons]
      exact ⟨by decide, by decide, by decide, fun _ h => absurd h not_mem_nil⟩
    obtain ⟨dpairs, hdpairs, hdsnd⟩ := isoPairsFrom_components
      (fun c (hc : c ∈ date) => hok c (mem_append_left _ hc))
      (fun c hc => hdletters _ (hdunits c hc)) []
    obtain ⟨tpairs, htpairs, htsnd⟩ := isoPairsFrom_components
      (fun c (hc : c ∈ time) => hok c (mem_append_right _ hc))
      (fun c hc => htletters _ (htunits c hc)) []
    obtain ⟨d, hd⟩ := isSome_iff_exists.mp
      ((isSome_foldlM isSome_addDate dpairs {}).mpr ((hmem hdsnd).mpr hdunits))
    obtain ⟨t, ht⟩ := isSome_iff_exists.mp
      ((isSome_foldlM isSome_addTime tpairs {}).mpr ((hmem htsnd).mpr htunits))
    have hne : ¬ (dpairs.isEmpty && tpairs.isEmpty) = true := by
      rw [Bool.and_eq_true, List.isEmpty_iff, List.isEmpty_iff, hempty hdsnd, hempty htsnd,
        ← append_eq_nil_iff]
      exact hsome
    simpa [isoPairs, hdpairs, htpairs, hd, ht] using hne

/-- **Which texts are accepted.** -/
theorem parseDuration_isSome_iff (s : List Char) :
    (parseDuration s).isSome ↔ ∃ x : LooseText, x.text = s := by
  have hbody : ∀ negative body, (parseDurationBody negative body).isSome ↔
      ∃ x : LooseText, x.negative = negative ∧ x.body = body := by
    intro negative body
    constructor
    · intro h
      by_cases hT : 'T' ∈ body
      · obtain ⟨d, t, rfl, hd⟩ := eq_append_cons_of_mem hT
        obtain ⟨date, time, rfl, rfl, hok, hdunits, htunits, hsome⟩ :=
          (isSome_parseDurationBody (by rw [splitOnce_append hd, getD_some])).mp h
        exact ⟨⟨negative, date, true, time, Bool.noConfusion, hok, hdunits, htunits, hsome⟩,
          rfl, rfl⟩
      · obtain ⟨date, time, rfl, htime, hok, hdunits, htunits, hsome⟩ :=
          (isSome_parseDurationBody (by rw [splitOnce_eq_none hT, getD_none])).mp h
        have hnil : time = [] := by
          cases time with
          | nil => rfl
          | cons c time => simp [Component.text] at htime
        subst hnil
        exact ⟨⟨negative, date, false, [], fun _ => rfl, hok, hdunits, htunits, hsome⟩, rfl,
          append_nil _⟩
    · rintro ⟨x, rfl, rfl⟩
      have hd : 'T' ∉ x.date.flatMap Component.text := by
        rw [mem_flatMap]
        rintro ⟨c, hc, hmem⟩
        rcases mem_append.mp hmem with hmem | hmem
        · exact absurd ((x.accepted c (mem_append_left _ hc)).chars _ hmem) (by decide)
        · exact absurd (mem_singleton.mp hmem ▸ x.dateUnits c hc) (by decide)
      have hparts : (splitOnce 'T' x.body).getD (x.body, []) =
          (x.date.flatMap Component.text, x.time.flatMap Component.text) := by
        rw [LooseText.body]
        by_cases hT : x.withT
        · rw [if_pos hT, splitOnce_append hd]
          rfl
        · rw [if_neg hT, append_nil, splitOnce_eq_none hd, x.timed (Bool.eq_false_iff.mpr hT)]
          rfl
      exact (isSome_parseDurationBody hparts).mpr
        ⟨x.date, x.time, rfl, rfl, x.accepted, x.dateUnits,
        x.timeUnits, x.some⟩
  constructor
  · intro h
    unfold parseDuration at h
    split at h
    · obtain ⟨x, hneg, rfl⟩ := (hbody ..).mp h
      exact ⟨x, by rw [LooseText.text, hneg]; rfl⟩
    · obtain ⟨x, hneg, rfl⟩ := (hbody ..).mp h
      exact ⟨x, by rw [LooseText.text, hneg]; rfl⟩
    · cases h
  · rintro ⟨x, rfl⟩
    have h := (hbody x.negative x.body).mpr ⟨x, rfl, rfl⟩
    rw [LooseText.text]
    cases hneg : x.negative <;> rw [hneg] at h <;> exact h

/-- The units of the text are of one kind, and there are some. -/
def DurationText.OneKind (x : DurationText) : Prop :=
  ((x.years.isSome || x.months.isSome) = true ∧ x.weeks = none ∧ x.days = none ∧ x.hours = none ∧
    x.minutes = none ∧ x.seconds = none) ∨
  (x.years = none ∧ x.months = none ∧ (x.weeks.isSome || x.days.isSome || x.hours.isSome ||
    x.minutes.isSome || x.seconds.isSome) = true)

/-- The duration is the exact signed sum of the units. -/
def DurationText.Exactly (x : DurationText) : FeelDuration → Prop
  | .yearsMonths months => x.secondCount = 0 ∧ months.toInt = signed x.negative x.monthCount
  | .daysTime span => x.monthCount = 0 ∧ ∃ seconds : Int64, span = .ofSeconds seconds ∧
      seconds.toInt = signed x.negative x.secondCount

/-- The sum fits the type of its duration. -/
def DurationText.Fits (x : DurationText) : Prop :=
  (-2 ^ 31 ≤ signed x.negative x.monthCount ∧ signed x.negative x.monthCount < 2 ^ 31) ∧
    -2 ^ 63 ≤ signed x.negative x.secondCount ∧ signed x.negative x.secondCount < 2 ^ 63

/-- A literal of one kind whose sum fits is read as that sum, if its numbers can be read. -/
theorem DurationText.exactly_of_fits {x : DurationText} (hread : x.Readable) (hkind : x.OneKind)
    (hfits : x.Fits) : ∃ d, parseDuration x.text = some d ∧ x.Exactly d := by
  obtain ⟨hmonths, hseconds⟩ := hfits
  rcases hkind with ⟨hsome, hw, hd, hh, hm, hs⟩ | ⟨hy, hm, hsome⟩
  · refine ⟨_, (parseDuration_text hread (by simp [hsome])).trans (congrArg some (if_pos ?_)), ?_⟩
    · simp [hsome, hw, hd, hh, hm, hs]
    · refine ⟨by simp [DurationText.secondCount, hw, hd, hh, hm, hs, amount], ?_⟩
      rw [toInt32_ofInt, Int32.toInt_ofInt_of_le] <;> omega
  · refine ⟨_, (parseDuration_text hread (by simpa [hy, hm] using hsome)).trans
      (congrArg some (if_neg (by simp [hy, hm]))), ?_⟩
    refine ⟨by simp [DurationText.monthCount, hy, hm, amount], _, rfl, ?_⟩
    rw [toInt_ofInt_of_le] <;> omega

theorem DurationText.fits_of_exactly {x : DurationText} {d : FeelDuration} (h : x.Exactly d) :
    x.Fits := by
  have hzero : ∀ negative, signed negative 0 = 0 := by decide
  unfold DurationText.Fits
  cases d with
  | yearsMonths months =>
    obtain ⟨hnone, hexact⟩ := h
    have hlo := months.le_toInt
    have hhi := months.toInt_lt
    rw [hnone, hzero]
    omega
  | daysTime span =>
    obtain ⟨hnone, seconds, -, hexact⟩ := h
    have hlo := seconds.le_toInt
    have hhi := seconds.toInt_lt
    rw [hnone, hzero]
    omega

/-- What fits and is accepted has numbers that can be read: only the seconds alone can make the
least sum, and that number is refused. -/
theorem DurationText.readable_of_fits {x : DurationText} (hfits : x.Fits)
    (haccepted : parseDuration x.text ≠ none) : x.Readable := by
  have hmonths : x.monthCount ≤ 2 ^ 31 := by
    have h := hfits.1
    unfold signed at h
    split at h <;> omega
  have hseconds : x.secondCount ≤ 2 ^ 63 := by
    have h := hfits.2
    unfold signed at h
    split at h <;> omega
  refine readable_of_counts (by omega) hseconds ?_
  by_contra hlast
  have hzero : amount x.hours = 0 ∧ amount x.minutes = 0 := by
    unfold DurationText.secondCount at hseconds
    omega
  have htime : isoPairs x.timeText = none := by
    rw [isoPairs, DurationText.timeText, isoPairsFrom_unitText (by omega) (by decide),
      isoPairsFrom_unitText (by omega) (by decide),
      isoPairsFrom_unreadable (Nat.not_lt.mp hlast) (by decide)]
  refine haccepted ?_
  rw [x.parseDuration_eq, parseDurationBody, x.parts]
  simp [htime]

/-- The text `-P1Y02M`. -/
def negativeMonths : DurationText :=
  ⟨true, some ⟨['1'], by decide, by simp⟩, some ⟨['0', '2'], by decide, by simp⟩, none, none,
    false, none, none, none, fun _ => ⟨rfl, rfl, rfl⟩⟩

end Sutra.Feel
