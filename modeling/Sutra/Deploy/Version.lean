import Sutra.Lib.Text

/-!
# Versions of a deployment

The `version` label of a package is free text. It is compared segment by segment: numbers as
numbers, a missing segment as zero, and what follows a hyphen as a pre-release below its release.

* `versions_ordered`: on any labels this is a total preorder.
-/

namespace Sutra.Deploy

open Text

def isNumber (s : String) : Bool := s ≠ "" && s.toList.all Char.isDigit

def trimZeros (s : String) : String := String.ofList (s.toList.dropWhile (· == '0'))

def segment (a b : String) : Ordering :=
  match isNumber a, isNumber b with
  | true, true =>
    (compare (trimZeros a).length (trimZeros b).length).then (compare (trimZeros a) (trimZeros b))
  | true, false => .gt
  | false, true => .lt
  | false, false => compare a b

/-- Compare missing release segments with the given ones. -/
def zeroSegments : List String → Ordering
  | [] => .eq
  | b :: bs => (segment "0" b).then (zeroSegments bs)

def coreSegments : List String → List String → Ordering
  | [], bs => zeroSegments bs
  | a :: as, [] => (segment a "0").then (coreSegments as [])
  | a :: as, b :: bs => (segment a b).then (coreSegments as bs)

def preReleaseSegments : List String → List String → Ordering
  | a :: as, b :: bs =>
    (if isNumber a ≠ isNumber b then (segment a b).swap else segment a b).then
      (preReleaseSegments as bs)
  | as, bs => compare as.length bs.length

def stripV (version : String) : String :=
  match version.toList with
  | c :: d :: rest =>
    if (c == 'v' || c == 'V') && d.isDigit then String.ofList (d :: rest) else version
  | _ => version

/-- The release segments of a label and its pre-release segments. -/
def splitVersion (version : String) : List String × Option (List String) :=
  let version := stripV (trim version)
  let version := ((split '+' version).head?).getD version
  match splitOnce '-' version with
  | some (core, pre) => (split '.' core, some (split '.' pre))
  | none => (split '.' version, none)

def comparePreReleases : Option (List String) → Option (List String) → Ordering
  | none, none => .eq
  | none, some _ => .gt
  | some _, none => .lt
  | some a, some b => preReleaseSegments a b

def compareDeploymentVersions (a b : String) : Ordering :=
  (coreSegments (splitVersion a).1 (splitVersion b).1).then
    (comparePreReleases (splitVersion a).2 (splitVersion b).2)

/-! ## The order has two sides -/

theorem segment_swap (a b : String) : (segment a b).swap = segment b a := by
  rw [segment, segment]
  cases isNumber a with
  | true =>
    cases isNumber b with
    | true =>
      rw [Ordering.swap_then]
      exact congrArg₂ Ordering.then Std.OrientedCmp.eq_swap.symm Std.OrientedCmp.eq_swap.symm
    | false => rfl
  | false =>
    cases isNumber b with
    | true => rfl
    | false =>
      have hswap : compare b a = (compare a b).swap := Std.OrientedCmp.eq_swap
      exact hswap.symm

theorem coreSegments_nil_swap (a : List String) : (coreSegments a []).swap = zeroSegments a := by
  induction a with
  | nil => rfl
  | cons a as ih => rw [coreSegments, zeroSegments, Ordering.swap_then, segment_swap, ih]

theorem coreSegments_swap (a b : List String) : (coreSegments a b).swap = coreSegments b a := by
  induction a generalizing b with
  | nil => rw [coreSegments, ← coreSegments_nil_swap, Ordering.swap_swap]
  | cons a as ih =>
    cases b with
    | nil => exact coreSegments_nil_swap (a :: as)
    | cons b bs => rw [coreSegments, coreSegments, Ordering.swap_then, segment_swap, ih]

theorem preReleaseSegments_swap (a b : List String) :
    (preReleaseSegments a b).swap = preReleaseSegments b a := by
  induction a generalizing b with
  | nil =>
    cases b with
    | nil => rfl
    | cons b bs => rfl
  | cons a as ih =>
    cases b with
    | nil => rfl
    | cons b bs =>
      rw [preReleaseSegments, preReleaseSegments, Ordering.swap_then, ih]
      by_cases h : isNumber a = isNumber b
      · rw [if_neg (not_not_intro h), if_neg (not_not_intro h.symm), segment_swap]
      · rw [if_pos h, if_pos (.symm h), segment_swap, segment_swap]

theorem comparePreReleases_swap (a b : Option (List String)) :
    (comparePreReleases a b).swap = comparePreReleases b a := by
  cases a with
  | none =>
    cases b with
    | none => rfl
    | some b => rfl
  | some a =>
    cases b with
    | none => rfl
    | some b => exact preReleaseSegments_swap a b

/-- **Comparing the other way round gives the other answer.** -/
theorem compareDeploymentVersions_swap (a b : String) :
    (compareDeploymentVersions a b).swap = compareDeploymentVersions b a := by
  rw [compareDeploymentVersions, compareDeploymentVersions, Ordering.swap_then, coreSegments_swap,
    comparePreReleases_swap]

/-! ## The order is transitive -/

/-- Comparisons along a chain: the ends compare as the first link that is not equal. -/
def Chains (ab bc ac : Ordering) : Prop := ab.isLE → bc.isLE → ac = ab.then bc

theorem Chains.lex {ab bc ac ab' bc' ac' : Ordering} (h : Chains ab bc ac)
    (h' : Chains ab' bc' ac') :
    Chains (ab.then ab') (bc.then bc') (ac.then ac') := by
  cases ab <;> cases bc <;> cases ab' <;> simp_all [Chains]

theorem chains_compare {α : Type} [Ord α] [Std.TransOrd α] (a b c : α) :
    Chains (compare a b) (compare b c) (compare a c) := by
  intro hab hbc
  cases h : compare a b with
  | gt => cases h ▸ hab
  | lt => exact Std.TransCmp.lt_of_lt_of_isLE h hbc
  | eq => exact Std.TransCmp.congr_left h

theorem chains_lt (ab : Ordering) : Chains ab .lt .lt := by
  intro hab _
  cases ab with
  | gt => cases hab
  | lt | eq => rfl

/-- How a segment is compared with others of its kind. -/
def segmentKey (a : String) : Nat × String :=
  if isNumber a then ((trimZeros a).length, trimZeros a) else (0, a)

def compareKeys (a b : String) : Ordering :=
  (compare (segmentKey a).1 (segmentKey b).1).then (compare (segmentKey a).2 (segmentKey b).2)

theorem segment_eq (a b : String) :
    segment a b = (compare (isNumber a) (isNumber b)).then (compareKeys a b) := by
  rw [segment, compareKeys, segmentKey, segmentKey]
  cases isNumber a with
  | false =>
    cases isNumber b with
    | false => simp [Std.ReflCmp.compare_self]
    | true => rfl
  | true =>
    cases isNumber b with
    | false => rfl
    | true => simp [Std.ReflCmp.compare_self]

theorem preSegment_eq (a b : String) :
    (if isNumber a ≠ isNumber b then (segment a b).swap else segment a b) =
      (compare (!isNumber a) (!isNumber b)).then (compareKeys a b) := by
  rw [segment_eq]
  cases isNumber a <;> cases isNumber b <;> rfl

theorem compareKeys_chains (a b c : String) :
    Chains (compareKeys a b) (compareKeys b c) (compareKeys a c) :=
  (chains_compare _ _ _).lex (chains_compare _ _ _)

theorem coreSegments_step (a b : List String) : coreSegments a b =
    (segment (a.headD "0") (b.headD "0")).then (coreSegments a.tail b.tail) := by
  cases a with
  | nil =>
    cases b with
    | nil => rfl
    | cons b bs => rfl
  | cons a as =>
    cases b with
    | nil => rfl
    | cons b bs => rfl

theorem coreSegments_chains {n : Nat} {a b c : List String} (ha : a.length ≤ n) (hb : b.length ≤ n)
    (hc : c.length ≤ n) : Chains (coreSegments a b) (coreSegments b c) (coreSegments a c) := by
  induction n generalizing a b c with
  | zero =>
    rw [List.length_eq_zero_iff.mp (Nat.le_zero.mp ha),
      List.length_eq_zero_iff.mp (Nat.le_zero.mp hb),
      List.length_eq_zero_iff.mp (Nat.le_zero.mp hc)]
    exact fun _ _ => rfl
  | succ n ih =>
    rw [coreSegments_step a b, coreSegments_step b c, coreSegments_step a c]
    simp only [segment_eq]
    refine ((chains_compare _ _ _).lex (compareKeys_chains _ _ _)).lex (ih ?_ ?_ ?_)
    all_goals
      rw [List.length_tail]
      omega

theorem preReleaseSegments_chains (a b c : List String) :
    Chains (preReleaseSegments a b) (preReleaseSegments b c) (preReleaseSegments a c) := by
  induction a generalizing b c with
  | nil =>
    cases b with
    | nil => exact fun _ _ => rfl
    | cons b bs =>
      cases c with
      | nil => exact fun _ h => by cases h
      | cons c cs => exact fun _ _ => rfl
  | cons a as ih =>
    cases b with
    | nil => exact fun h => by cases h
    | cons b bs =>
      cases c with
      | nil => exact fun _ h => by cases h
      | cons c cs =>
        simp only [preReleaseSegments, preSegment_eq]
        exact ((chains_compare _ _ _).lex (compareKeys_chains a b c)).lex (ih bs cs)

theorem comparePreReleases_chains (a b c : Option (List String)) :
    Chains (comparePreReleases a b) (comparePreReleases b c) (comparePreReleases a c) := by
  cases a with
  | none =>
    cases b with
    | none => exact fun _ _ => rfl
    | some b => exact fun h => by cases h
  | some a =>
    cases b with
    | none =>
      cases c with
      | none => exact fun _ _ => rfl
      | some c => exact fun _ h => by cases h
    | some b =>
      cases c with
      | none => exact chains_lt _
      | some c => exact preReleaseSegments_chains a b c

/-- **Versions are ordered**: the comparison is a total preorder, so no three labels go round in a
circle, and a strict step anywhere on a chain makes the chain strict. -/
theorem versions_ordered (a b c : String) : compareDeploymentVersions a a = .eq ∧
    (compareDeploymentVersions a b).swap = compareDeploymentVersions b a ∧
    ((compareDeploymentVersions a b).isLE → (compareDeploymentVersions b c).isLE →
      compareDeploymentVersions a c =
        (compareDeploymentVersions a b).then (compareDeploymentVersions b c)) := by
  refine ⟨?_, compareDeploymentVersions_swap a b, ?_⟩
  · have hswap := compareDeploymentVersions_swap a a
    cases h : compareDeploymentVersions a a with
    | eq => rfl
    | lt | gt =>
      rw [h] at hswap
      cases hswap
  · refine Chains.lex ?_ (comparePreReleases_chains _ _ _)
    exact coreSegments_chains (n := (splitVersion a).1.length + (splitVersion b).1.length +
      (splitVersion c).1.length) (by omega) (by omega) (by omega)

example : compareDeploymentVersions "1.10.0" "v1.9" = .gt := by decide
example : compareDeploymentVersions "1.0.0-1" "1.0.0+b7" = .lt := by decide

end Sutra.Deploy
