import Sutra.Select.Cubes

/-!
# The analysis is sound

A cube admits a message when each of its constraints admits the value of its attribute. The
analysis of a predicate covers a message when one of its cubes admits it. What is to be shown is
that a predicate which is true of a message covers it; with a negation in front, that one which is
false is covered by the analysis of the negation.

An attribute with a closed domain may be absent. Then it is null, and `narrow` has left no cube for
it: an atom that excludes values is true of null and is not covered. A predicate is `Carried` when
atoms make it true whose attributes are there.

* `Constraint.admits_meet`, `Cube.Admits.meet`: a conjunction admits what both sides admit.
* `admits_atom`: an atom that is true, on an attribute that is there, covers the message.
* `covers_of_carried`: a predicate that is carried covers the message.
* `carried_of_eval`: a predicate that is true is carried when all closed attributes are there.
* `overlapWitness_isSome`: two analyses that cover one message meet.
-/

namespace Sutra.Select

open List hiding contains
open Ranges

/-! ## What constraints and cubes admit -/

theorem Lit.toValue_injective {a b : Lit} (h : a.toValue = b.toValue) : a = b := by
  cases a <;> cases b <;> cases h <;> rfl

theorem Lit.ofValue_eq_some {v : Value} {l : Lit} (h : Lit.ofValue v = some l) : v = l.toValue := by
  cases v <;> cases h <;> rfl

/-- The constraint allows the value; only an exclusion allows null. -/
def Constraint.Admits : Constraint → Value → Prop
  | .any, _ => True
  | .oneOf values, v => ∃ l ∈ values, v = l.toValue
  | .noneOf values, v => ∀ l ∈ values, v ≠ l.toValue
  | .numRange bounds, v => ∃ n, v = .number n ∧ contains bounds n = true
  | .unsat, _ => False

namespace Constraint

variable {values : List Lit} {v : Value} {bounds : Bounds ℚ} {n : ℚ}

theorem admits_mkOneOf : (mkOneOf values).Admits v ↔ ∃ l ∈ values, v = l.toValue := by
  rw [mkOneOf]
  split
  · rename_i h
    simp [h, Admits]
  · rfl

theorem admits_mkNoneOf : (mkNoneOf values).Admits v ↔ ∀ l ∈ values, v ≠ l.toValue := by
  rw [mkNoneOf]
  split
  · rename_i h
    simp [h, Admits]
  · rfl

theorem admits_mkRange (h : contains bounds n) : (mkRange bounds).Admits (.number n) := by
  rw [mkRange]
  split
  · rename_i hempty
    cases (contains_eq_false hempty n).symm.trans h
  · exact ⟨n, rfl, h⟩

theorem mem_within (hmem : Lit.number n ∈ values)
    (h : contains bounds n) : Lit.number n ∈ within bounds values :=
  mem_filter.mpr ⟨hmem, by simpa [Lit.asNumber] using h⟩

theorem number_of_toValue {l : Lit} (h : Value.number n = l.toValue) : l = .number n :=
  Lit.toValue_injective (b := .number n) h.symm

theorem admits_meet {a b : Constraint} (ha : a.Admits v) (hb : b.Admits v) :
    (a.meet b).Admits v := by
  cases a with
  | any => cases b <;> exact hb
  | unsat => exact ha.elim
  | oneOf x =>
    obtain ⟨l, hl, rfl⟩ := ha
    cases b with
    | any => exact ⟨l, hl, rfl⟩
    | unsat => exact hb.elim
    | oneOf y =>
      obtain ⟨l', hl', heq⟩ := hb
      cases Lit.toValue_injective heq
      exact admits_mkOneOf.mpr ⟨l, mem_filter.mpr ⟨hl, by simpa using hl'⟩, rfl⟩
    | noneOf y =>
      refine admits_mkOneOf.mpr ⟨l, mem_filter.mpr ⟨hl, ?_⟩, rfl⟩
      simpa using fun hmem => hb l hmem rfl
    | numRange r =>
      obtain ⟨n, hn, hr⟩ := hb
      cases number_of_toValue hn.symm
      exact admits_mkOneOf.mpr ⟨_, mem_within hl hr, rfl⟩
  | noneOf x =>
    cases b with
    | any => exact ha
    | unsat => exact hb.elim
    | oneOf y =>
      obtain ⟨l, hl, rfl⟩ := hb
      refine admits_mkOneOf.mpr ⟨l, mem_filter.mpr ⟨hl, ?_⟩, rfl⟩
      simpa using fun hmem => ha l hmem rfl
    | noneOf y =>
      refine admits_mkNoneOf.mpr fun l hl => ?_
      exact (mem_append.mp hl).elim (ha l) (hb l)
    | numRange r => exact hb
  | numRange r =>
    obtain ⟨n, rfl, hr⟩ := ha
    cases b with
    | any => exact ⟨n, rfl, hr⟩
    | unsat => exact hb.elim
    | oneOf y =>
      obtain ⟨l, hl, heq⟩ := hb
      cases number_of_toValue heq
      exact admits_mkOneOf.mpr ⟨_, mem_within hl hr, rfl⟩
    | noneOf y => exact ⟨n, rfl, hr⟩
    | numRange s =>
      obtain ⟨m, hm, hs⟩ := hb
      cases hm
      exact admits_mkRange (contains_meet hr hs)

end Constraint

namespace Cube

structure Admits (x : Cube) (attr : String → Value) : Prop where
  consistent : x.contradiction = false
  keys : ∀ k c, x.keys.get k = some c → c.Admits (attr k)

variable {attr : String → Value}

theorem admits_any : any.Admits attr := ⟨rfl, nofun⟩

theorem admits_of {key : String} {c : Constraint} (h : c.Admits (attr key)) :
    (of key c).Admits attr := ⟨rfl, SortedMap.forall_insert (nofun) h⟩

theorem Admits.isUnsat {x : Cube} (h : x.Admits attr) : x.isUnsat = false := by
  rw [Cube.isUnsat, h.consistent, Bool.false_or, any_eq_false]
  intro e he hunsat
  have hadmits := h.keys e.1 e.2 (SortedMap.mem_entries.mp he)
  rw [of_decide_eq_true hunsat] at hadmits
  exact hadmits

theorem Admits.meet {x y : Cube} (hx : x.Admits attr) (hy : y.Admits attr) :
    (x.meet y).Admits attr := by
  have hfold : ∀ (f : SortedMap String Constraint → String × Constraint → Constraint),
      (∀ m e, m.get e.1 = none ∧ f m e = e.2 ∨ ∃ c, m.get e.1 = some c ∧ f m e = c.meet e.2) →
      ∀ (l : List (String × Constraint)) (m : SortedMap String Constraint),
      (∀ e ∈ l, e.2.Admits (attr e.1)) → (∀ k c, m.get k = some c → c.Admits (attr k)) →
      ∀ k c, (l.foldl (fun keys e => keys.insert e.1 (f keys e)) m).get k = some c →
        c.Admits (attr k) := by
    intro f hf l
    induction l with
    | nil => exact fun m _ hm => hm
    | cons e rest ih =>
      intro m hl hm
      refine ih _ (fun e' he' => hl e' (.tail _ he')) (SortedMap.forall_insert hm ?_)
      have hhead := hl e (.head _)
      rcases hf m e with ⟨-, h⟩ | ⟨c', hold, h⟩ <;> rw [h]
      · exact hhead
      · exact Constraint.admits_meet (hm _ _ hold) hhead
  refine ⟨?_, hfold _ (fun m e => ?_) _ _
    (fun e he => hy.keys e.1 e.2 (SortedMap.mem_entries.mp he)) hx.keys⟩
  rotate_left
  · cases m.get e.1 with
    | none => exact .inl ⟨rfl, rfl⟩
    | some c => exact .inr ⟨c, rfl, rfl⟩
  change (x.contradiction || y.contradiction) = false
  rw [hx.consistent, hy.consistent]
  rfl

end Cube

def Covers (cubes : List Cube) (attr : String → Value) : Prop := ∃ x ∈ cubes, x.Admits attr

/-- Cubes of either side that admit one message are found. -/
theorem overlapWitness_isSome {a b : List Cube} {attr : String → Value} (ha : Covers a attr)
    (hb : Covers b attr) : (overlapWitness a b).isSome := by
  obtain ⟨x, hx, hxa⟩ := ha
  obtain ⟨y, hy, hya⟩ := hb
  rw [overlapWitness, findSome?_isSome_iff]
  refine ⟨x, hx, ?_⟩
  rw [hxa.isUnsat, if_neg nofun, findSome?_isSome_iff]
  refine ⟨y, hy, ?_⟩
  rw [hya.isUnsat, if_neg nofun, (hxa.meet hya).isUnsat, if_neg nofun]
  rfl

/-! ## Messages within the vocabulary -/

/-- Every attribute with a closed domain is absent or has a value of it. -/
def Within (specs : Specs) (attr : String → Value) : Prop :=
  ∀ key domain, specs.closedDomain key = some domain →
    attr key = .null ∨ ∃ l ∈ domain, attr key = l.toValue

/-- The attribute is there, if its domain is closed. -/
def Present (specs : Specs) (attr : String → Value) (key : String) : Prop :=
  ∀ domain, specs.closedDomain key = some domain → attr key ≠ .null

/-- The attribute that an atom reads. -/
def atomKey : FeelExpr → Option String
  | .path segments => keyOf (.path segments)
  | .compare left op right => (comparison left op right).map Prod.fst
  | .inTest value _ => keyOf value
  | .call _ args _ => matchesKey args
  | _ => none

section Message

variable {F : Feel} {specs : Specs} {ctx : Context} {key : String} {c : Constraint}
  {cubes : List Cube} {lits : List Lit} {l : Lit}

theorem admits_narrow {attr : String → Value} (hwithin : Within specs attr)
    (hthere : Present specs attr key) (h : c.Admits (attr key)) :
    (narrow specs key c).Admits (attr key) := by
  rw [narrow]
  split
  · exact h
  · rename_i domain hclosed
    obtain ⟨l, hl, heq⟩ := (hwithin key domain hclosed).resolve_left (hthere domain hclosed)
    split
    · rename_i excluded
      refine Constraint.admits_mkOneOf.mpr ⟨l, mem_filter.mpr ⟨hl, ?_⟩, heq⟩
      simpa using fun hmem => h l hmem heq
    · rename_i bounds
      obtain ⟨n, hn, hr⟩ := h
      cases Constraint.number_of_toValue (hn.symm.trans heq)
      exact Constraint.admits_mkOneOf.mpr ⟨_, Constraint.mem_within hl hr, heq⟩
    · exact h

theorem admits_singleCube (hwithin : Within specs ctx.attr) (hthere : Present specs ctx.attr key)
    (h : c.Admits (ctx.attr key)) (hcubes : singleCube specs key c = .ok cubes) :
    Covers cubes ctx.attr := by
  cases hcubes
  exact ⟨_, mem_singleton.mpr rfl, Cube.admits_of (admits_narrow hwithin hthere h)⟩

/-! ## Keys and literals -/

variable (hwithin : Within specs ctx.attr) {e : FeelExpr}

theorem eval_of_keyOf (h : keyOf e = some key) : eval F ctx e = some (ctx.attr key) := by
  rw [keyOf.eq_def] at h
  split at h
  · cases h
    rw [eval]
  · cases h

theorem eval_of_litOf : ∀ {e : FeelExpr} {l : Lit}, litOf e = some l → eval F ctx e = some l.toValue
  | .literal v, l, h => by
    rw [eval, Lit.ofValue_eq_some h]
  | .negate arg, l, h => by
    rw [litOf] at h
    split at h
    · rename_i n hn
      cases h
      rw [eval, eval_of_litOf hn]
      rfl
    · cases h
  | .path _, _, h | .compare _ _ _, _, h | .boolOp _ _ _, _, h | .not _, _, h | .inTest _ _, _, h
  | .listLit _, _, h | .call _ _ _, _, h | .other _ _ _, _, h => nomatch h

theorem evalList_of_litOf {es : List FeelExpr} (h : es.mapM litOf = some lits) :
    evalList F ctx es = some (lits.map Lit.toValue) := by
  induction es generalizing lits with
  | nil =>
    cases h
    rfl
  | cons e rest ih =>
    rw [mapM_cons] at h
    obtain ⟨l, hl, hrest⟩ := Option.bind_eq_some_iff.mp h
    obtain ⟨ls, hls, heq⟩ := Option.bind_eq_some_iff.mp hrest
    cases heq
    rw [evalList, eval_of_litOf hl, ih hls]
    rfl

variable {b : Bool}

theorem equalsFeel_lit {v : Value} (h : equalsFeel F v l.toValue = some b) :
    b ↔ v = l.toValue := by cases v <;> cases l <;> cases h <;> simp [Lit.toValue]

theorem equalsFeel_lit_self (l : Lit) : equalsFeel F l.toValue l.toValue = some true := by
  cases l <;> simp [Lit.toValue, equalsFeel]

theorem equalsFeel_comm_lit (v : Value) (l : Lit) :
    equalsFeel F l.toValue v = equalsFeel F v l.toValue := by
  cases v <;> cases l <;> simp [Lit.toValue, equalsFeel, eq_comm]

/-! ## Comparisons -/

def CompareOp.test : CompareOp → Ordering → Bool
  | .eq => Ordering.isEq
  | .neq => Ordering.isNe
  | .lt => Ordering.isLT
  | .le => Ordering.isLE
  | .gt => Ordering.isGT
  | .ge => Ordering.isGE

def CompareOp.Relational (op : CompareOp) : Prop := op ≠ .eq ∧ op ≠ .neq

def Compares (op : CompareOp) (v : Value) (l : Lit) : Prop :=
  match op with
  | .eq => v = l.toValue
  | .neq => v ≠ l.toValue
  | op => ∃ m n, v = .number m ∧ l = .number n ∧ op.test (cmp m n) = true

variable {op : CompareOp} {l : Lit} {v w : Value} {b : Bool} {m n : ℚ} {cubes : List Cube}

theorem relational_flip (h : op.Relational) : op.flip.Relational := by
  cases op <;> simp_all [CompareOp.Relational, CompareOp.flip]

theorem relational_negated (h : op.Relational) : op.negated.Relational := by
  cases op <;> simp_all [CompareOp.Relational, CompareOp.negated]

theorem test_flip (o : Ordering) : op.flip.test o = op.test o.swap := by
  cases op <;> cases o <;> rfl

theorem test_negated (o : Ordering) : op.negated.test o = !op.test o := by
  cases op <;> cases o <;> rfl

theorem compares_iff (hop : op.Relational) : Compares op v l ↔
    ∃ m n, v = .number m ∧ l = .number n ∧ op.test (cmp m n) := by
  cases op with
  | eq => exact absurd rfl hop.1
  | neq => exact absurd rfl hop.2
  | lt | le | gt | ge => exact .rfl

theorem evalCompare_relational (hop : op.Relational) (left right : Value) :
    evalCompare F op left right = evalCompare.ordered F left right op.test := by
  cases op with
  | eq => exact absurd rfl hop.1
  | neq => exact absurd rfl hop.2
  | lt | le | gt | ge => rfl

theorem ordered_number {test : Ordering → Bool}
    (h : evalCompare.ordered F v (.number n) test = some (.boolean b)) :
    ∃ m, v = .number m ∧ b = test (cmp m n) := by
  cases v <;> simp [evalCompare.ordered, isNull, compareFeel] at h
  exact ⟨_, rfl, h.symm⟩

theorem ordered_number_left {test : Ordering → Bool}
    (h : evalCompare.ordered F (.number n) v test = some (.boolean b)) :
    ∃ m, v = .number m ∧ b = test (cmp n m) := by
  cases v <;> simp [evalCompare.ordered, isNull, compareFeel] at h
  exact ⟨_, rfl, h.symm⟩

theorem compares_of_equals (h : equalsFeel F v l.toValue = some b) :
    Compares (if b then .eq else .neq) v l := by
  have hiff := equalsFeel_lit h
  cases b with
  | true => exact hiff.mp rfl
  | false => exact fun heq => nomatch hiff.mpr heq

theorem tri_eq_some : tri v = some b ↔ v = .boolean b := by cases v <;> simp [tri]

theorem eq_some_of_ofTri {o : Option Bool} (h : some (ofTri o) = some (.boolean b)) :
    o = some b := by
  cases o <;> cases h
  rfl

theorem compares_of_eval (hw : evalCompare F op v l.toValue = some (.boolean b))
    (hnum : op.Relational → ∃ n, l = .number n) : Compares (if b then op else op.negated) v l := by
  by_cases hop : op.Relational
  · obtain ⟨n, rfl⟩ := hnum hop
    rw [evalCompare_relational hop] at hw
    obtain ⟨m, rfl, hm⟩ := ordered_number hw
    cases b with
    | true => exact (compares_iff hop).mpr ⟨m, n, rfl, rfl, hm.symm⟩
    | false =>
      refine (compares_iff (relational_negated hop)).mpr ⟨m, n, rfl, rfl, ?_⟩
      rw [test_negated, ← hm]
      rfl
  · rcases not_and_or.mp hop with heq | hneq
    · cases not_not.mp heq
      exact compares_of_equals (eq_some_of_ofTri hw)
    · cases not_not.mp hneq
      obtain ⟨b', hb', rfl⟩ := Option.map_eq_some_iff.mp (eq_some_of_ofTri hw)
      have h := compares_of_equals hb'
      cases b' <;> exact h

theorem evalCompare_flip (hw : evalCompare F op l.toValue v = some (.boolean b))
    (hnum : op.Relational → ∃ n, l = .number n) :
    evalCompare F op.flip v l.toValue = some (.boolean b) := by
  by_cases hop : op.Relational
  · obtain ⟨n, rfl⟩ := hnum hop
    rw [evalCompare_relational hop] at hw
    obtain ⟨m, rfl, rfl⟩ := ordered_number_left hw
    rw [evalCompare_relational (relational_flip hop), ← cmp_swap m n, ← test_flip]
    rfl
  · rw [← hw]
    rcases not_and_or.mp hop with heq | hneq
    · cases not_not.mp heq
      simp only [CompareOp.flip, evalCompare, equalsFeel_comm_lit]
    · cases not_not.mp hneq
      simp only [CompareOp.flip, evalCompare, equalsFeel_comm_lit]

theorem contains_rangeOf (hop : op.Relational) (h : op.test (cmp m n)) :
    contains (rangeOf op n) m := by
  cases op with
  | eq => exact absurd rfl hop.1
  | neq => exact absurd rfl hop.2
  | lt =>
    rw [CompareOp.test, Ordering.isLT_iff_eq_lt, cmp_eq_lt_iff] at h
    simp [rangeOf, atMost, contains, aboveLow, belowHigh, h]
  | le =>
    rw [CompareOp.test, Ordering.isLE_iff_ne_gt, cmp_eq_gt_iff, not_lt] at h
    simpa [rangeOf, atMost, contains, aboveLow, belowHigh] using lt_or_eq_of_le h
  | gt =>
    rw [CompareOp.test, Ordering.isGT_iff_eq_gt, cmp_eq_gt_iff] at h
    simp [rangeOf, atLeast, contains, aboveLow, belowHigh, h]
  | ge =>
    rw [CompareOp.test, Ordering.isGE_iff_ne_lt, cmp_eq_lt_iff, not_lt] at h
    simpa [rangeOf, atLeast, contains, aboveLow, belowHigh] using (lt_or_eq_of_le h).imp_right .symm

include hwithin in
theorem admits_compareAtom (hthere : Present specs ctx.attr key)
    (hcubes : compareAtom specs key op l = .ok cubes) (h : Compares op (ctx.attr key) l) :
    Covers cubes ctx.attr := by
  rw [compareAtom.eq_def] at hcubes
  split at hcubes
  · refine admits_singleCube hwithin hthere ?_ hcubes
    exact Constraint.admits_mkOneOf.mpr ⟨l, mem_singleton.mpr rfl, h⟩
  · refine admits_singleCube hwithin hthere ?_ hcubes
    refine Constraint.admits_mkNoneOf.mpr fun l' hl' => ?_
    cases mem_singleton.mp hl'
    exact h
  · rename_i hne hneq
    obtain ⟨m, n, hm, rfl, htest⟩ := (compares_iff ⟨hne, hneq⟩).mp h
    dsimp only [Lit.asNumber] at hcubes
    split at hcubes
    · refine admits_singleCube hwithin hthere ?_ hcubes
      rw [hm]
      exact Constraint.admits_mkRange (contains_rangeOf ⟨hne, hneq⟩ htest)
    · cases hcubes

theorem number_of_compareAtom (hcubes : compareAtom specs key op l = .ok cubes)
    (hop : op.Relational) : ∃ n, l = .number n := by
  cases l with
  | number n => exact ⟨n, rfl⟩
  | bool | text =>
    cases op <;> first | exact absurd rfl hop.1 | exact absurd rfl hop.2 | cases hcubes

variable {left right : FeelExpr} {negated : Bool}

include hwithin in
theorem admits_compare
    (hthere : ∀ key, atomKey (.compare left op right) = some key → Present specs ctx.attr key)
    (hcubes : atom F specs (.compare left op right) negated = .ok cubes)
    (hv : eval F ctx (.compare left op right) = some (.boolean !negated)) :
    Covers cubes ctx.attr := by
  rw [atom] at hcubes
  split at hcubes
  · cases hcubes
  · rename_i key op' l hcomparison
    have hnumber : op'.Relational → ∃ n, l = .number n := by
      intro hop
      refine number_of_compareAtom hcubes ?_
      split
      · exact relational_negated hop
      · exact hop
    -- in either order of the operands the truth is that of `op'` with the literal on the right
    have hw : evalCompare F op' (ctx.attr key) l.toValue = some (.boolean !negated) := by
      rw [eval] at hv
      rw [comparison] at hcomparison
      split at hcomparison
      · rename_i key' l' hkey hlit
        cases hcomparison
        rw [eval_of_keyOf hkey, eval_of_litOf hlit] at hv
        exact hv
      · split at hcomparison
        · rename_i l' key' hlit hkey
          cases hcomparison
          rw [eval_of_keyOf hkey, eval_of_litOf hlit] at hv
          exact evalCompare_flip hv fun hop => hnumber (relational_flip hop)
        · cases hcomparison
    have hcompares := compares_of_eval hw hnumber
    have hthere := hthere key (by rw [atomKey, hcomparison]; rfl)
    refine admits_compareAtom hwithin hthere hcubes ?_
    cases negated <;> exact hcompares

theorem equals_getD : (equalsFeel F v l.toValue).getD false ↔ v = l.toValue := by
  cases h : equalsFeel F v l.toValue with
  | some b => exact equalsFeel_lit h
  | none =>
    refine ⟨nofun, fun heq => ?_⟩
    rw [heq, equalsFeel_lit_self] at h
    cases h

theorem any_equals : ((lits.map Lit.toValue).any fun e => (equalsFeel F v e).getD false) ↔
      ∃ l ∈ lits, v = l.toValue := by simp [any_map, any_eq_true, equals_getD]

theorem evalIn_lit (v : Value) (l : Lit) :
    evalIn F v l.toValue = .boolean ([l.toValue].any fun e => (equalsFeel F v e).getD false) := by
  cases l <;> simp [Lit.toValue, evalIn]

theorem eval_testItems {test : FeelExpr} (h : (testItems test).mapM litOf = some lits) :
    eval F ctx test = some (.list (lits.map Lit.toValue)) ∨
      ∃ l, lits = [l] ∧ eval F ctx test = some l.toValue := by
  rw [testItems.eq_def] at h
  split at h
  · rw [eval, evalList_of_litOf h]
    exact .inl rfl
  · rw [mapM_cons] at h
    obtain ⟨l, hl, hrest⟩ := Option.bind_eq_some_iff.mp h
    cases hrest
    exact .inr ⟨l, rfl, eval_of_litOf hl⟩

include hwithin in
theorem admits_inTest {value test : FeelExpr}
    (hthere : ∀ key, atomKey (.inTest value test) = some key → Present specs ctx.attr key)
    (hcubes : atom F specs (.inTest value test) negated = .ok cubes)
    (hv : eval F ctx (.inTest value test) = some (.boolean !negated)) : Covers cubes ctx.attr := by
  rw [atom] at hcubes
  split at hcubes
  · rename_i key lits hkey hlits
    -- the test is true exactly if the attribute is one of the literals
    have hmember : (!negated) ↔ ∃ l ∈ lits, ctx.attr key = l.toValue := by
      rw [eval, eval_of_keyOf hkey] at hv
      rcases eval_testItems hlits with heval | ⟨l, rfl, heval⟩
      · rw [heval] at hv
        rw [← Value.boolean.inj (Option.some.inj hv)]
        exact any_equals
      · rw [heval] at hv
        rw [← Value.boolean.inj ((evalIn_lit ..).symm.trans (Option.some.inj hv))]
        exact @any_equals F [l] _
    refine admits_singleCube hwithin (hthere key hkey) ?_ hcubes
    cases negated with
    | false => exact Constraint.admits_mkOneOf.mpr (hmember.mp rfl)
    | true =>
      refine Constraint.admits_mkNoneOf.mpr fun l hl heq => ?_
      cases hmember.mpr ⟨l, hl, heq⟩
  · cases hcubes

/-! ## Regular expressions -/

theorem mapM_litOf_of_all {rest : List FeelExpr}
    (h : (rest.all fun a => (litOf a).any fun l => l.matchesKind .text)) :
    ∃ lits, rest.mapM litOf = some lits := by
  induction rest with
  | nil => exact ⟨[], rfl⟩
  | cons e rest ih =>
    rw [all_cons, Bool.and_eq_true] at h
    obtain ⟨lits, hlits⟩ := ih h.2
    cases hl : litOf e with
    | none =>
      rw [hl] at h
      cases h.1
    | some l =>
      refine ⟨l :: lits, ?_⟩
      rw [mapM_cons, hl, hlits]
      rfl

variable {args : List FeelExpr}

theorem evalList_of_matchesKey (h : matchesKey args = some key) : ∃ texts,
      ∀ ctx, evalList F ctx args = some (ctx.attr key :: texts) := by
  match args, h with
  | e :: rest, h =>
    rw [matchesKey] at h
    split at h
    · split at h
      · rename_i hall
        obtain ⟨lits, hlits⟩ := mapM_litOf_of_all hall
        refine ⟨lits.map Lit.toValue, fun ctx => ?_⟩
        rw [evalList, eval_of_keyOf h, evalList_of_litOf hlits]
        rfl
      · cases h
    · cases h

theorem eval_matches_congr
    (hkey : matchesKey args = some key) {ctx' : Context} (h : ctx.attr key = ctx'.attr key) :
    eval F ctx (.call "matches" args []) = eval F ctx' (.call "matches" args []) := by
  obtain ⟨texts, htexts⟩ := @evalList_of_matchesKey F _ _ hkey
  rw [eval, eval, htexts ctx, htexts ctx', h]
  rfl

theorem mem_matched {domain ms : List Lit} (h : matched F e key domain = .ok ms) :
    l ∈ ms ↔ l ∈ domain ∧ evalBoolean F (oneAttribute key l) e = some true := by
  induction domain generalizing ms with
  | nil =>
    cases h
    simp
  | cons l' rest ih =>
    rw [matched] at h
    split at h
    · cases h
    · rename_i b hb
      obtain ⟨ms', hrest, h⟩ := Except.bind_eq_ok h
      have hms : ms = if b then l' :: ms' else ms' := (Except.ok.inj h).symm
      have hkeep : l = l' → evalBoolean F (oneAttribute key l) e = some b := by
        rintro rfl
        exact hb
      cases b with
      | true =>
        rw [hms, if_pos rfl, mem_cons, mem_cons, ih hrest, or_and_right]
        exact or_congr_left ⟨fun heq => ⟨heq, hkeep heq⟩, And.left⟩
      | false =>
        rw [hms, if_neg nofun, mem_cons, ih hrest]
        refine ⟨fun hl => ⟨.inr hl.1, hl.2⟩, ?_⟩
        rintro ⟨heq | hl, htrue⟩
        · rw [hkeep heq] at htrue
          cases htrue
        · exact ⟨hl, htrue⟩

theorem evalBoolean_of_eval (hv : eval F ctx e = some (.boolean b)) :
    evalBoolean F ctx e = some b := by rw [evalBoolean, hv]

include hwithin in
/-- A regular expression over a closed domain, negated or not. -/
theorem admits_matches {name : String} {names : List String}
    (hthere : ∀ key, atomKey (.call name args names) = some key → Present specs ctx.attr key)
    (hcubes : atom F specs (.call name args names) negated = .ok cubes)
    (hv : eval F ctx (.call name args names) = some (.boolean !negated)) :
    Covers cubes ctx.attr := by
  rw [atom] at hcubes
  split at hcubes
  · rename_i hname
    obtain ⟨rfl, rfl⟩ := hname
    split at hcubes
    · cases hcubes
    · rename_i key hkey
      split at hcubes
      · cases hcubes
      · rename_i domain hclosed
        have hthere := hthere key hkey
        obtain ⟨l, hl, heq⟩ := (hwithin key domain hclosed).resolve_left (hthere domain hclosed)
        obtain ⟨ms, hms, hcubes⟩ := Except.bind_eq_ok hcubes
        -- the lint evaluated the call on the very value of the message
        have hsame : evalBoolean F (oneAttribute key l) (.call "matches" args []) =
            some (!negated) := by
          refine evalBoolean_of_eval ?_
          rw [← hv]
          refine eval_matches_congr hkey ?_
          rw [heq]
          exact if_pos rfl
        refine admits_singleCube hwithin hthere (Constraint.admits_mkOneOf.mpr ⟨l, ?_, heq⟩) hcubes
        cases negated with
        | false => exact (mem_matched hms).mpr ⟨hl, hsame⟩
        | true =>
          refine mem_filter.mpr ⟨hl, decide_eq_true fun hmem => ?_⟩
          rw [((mem_matched hms).mp hmem).2] at hsame
          cases hsame
  · cases hcubes

/-! ## Predicates -/

include hwithin in
theorem admits_path {segments : List String}
    (hthere : ∀ key, atomKey (.path segments) = some key → Present specs ctx.attr key)
    (hcubes : atom F specs (.path segments) negated = .ok cubes)
    (hv : eval F ctx (.path segments) = some (.boolean !negated)) : Covers cubes ctx.attr := by
  rw [atom] at hcubes
  split at hcubes
  · cases hcubes
  · rename_i key hkey
    split at hcubes
    · refine admits_singleCube hwithin (hthere key hkey) (Constraint.admits_mkOneOf.mpr
        ⟨.bool (!negated), mem_singleton.mpr rfl, ?_⟩) hcubes
      rw [eval_of_keyOf hkey] at hv
      exact Option.some.inj hv
    · cases hcubes

include hwithin in
/-- **An atom that is true on a message admits it**, if its attribute is there. -/
theorem admits_atom (hthere : ∀ key, atomKey e = some key → Present specs ctx.attr key)
    (hcubes : atom F specs e negated = .ok cubes)
    (hv : eval F ctx e = some (.boolean !negated)) : Covers cubes ctx.attr := by
  cases e with
  | literal w =>
    cases w with
    | boolean b =>
      cases hcubes
      have hb : b ≠ negated := by
        rintro rfl
        cases b <;> cases hv
      rw [if_neg hb]
      exact ⟨_, mem_singleton.mpr rfl, Cube.admits_any⟩
    | null | number _ | string _ | list _ | other _ => cases hcubes
  | path segments => exact admits_path hwithin hthere hcubes hv
  | compare left op right => exact admits_compare hwithin hthere hcubes hv
  | inTest value test => exact admits_inTest hwithin hthere hcubes hv
  | call name args names => exact admits_matches hwithin hthere hcubes hv
  | boolOp _ _ _ | not _ | negate _ | listLit _ | other _ _ _ => cases hcubes

/-- The cubes of a connective: all pairs when both sides hold, either side when one does. -/
theorem exists_admits_combine {l r : List Cube} {both : Bool} {atoms atoms' : Nat}
    (h : (if both = true then (if l.length * r.length > maxCubes then .error Opacity.tooManyCubes
        else .ok (l.flatMap fun a => r.map fun b => a.meet b, atoms))
      else if l.length + r.length > maxCubes then .error Opacity.tooManyCubes
      else .ok (l ++ r, atoms)) = (.ok (cubes, atoms') : Except Opacity (List Cube × Nat)))
    (hboth : both → Covers l ctx.attr ∧ Covers r ctx.attr)
    (hone : both = false → Covers l ctx.attr ∨ Covers r ctx.attr) :
    Covers cubes ctx.attr := by
  cases both with
  | true =>
    rw [if_pos rfl] at h
    split at h
    · cases h
    · cases h
      obtain ⟨⟨x, hx, hxa⟩, y, hy, hya⟩ := hboth rfl
      exact ⟨x.meet y, mem_flatMap.mpr ⟨x, hx, mem_map.mpr ⟨y, hy, rfl⟩⟩, hxa.meet hya⟩
  | false =>
    rw [if_neg nofun] at h
    split at h
    · cases h
    · cases h
      rcases hone rfl with ⟨x, hx, hxa⟩ | ⟨y, hy, hya⟩
      · exact ⟨x, mem_append.mpr (.inl hx), hxa⟩
      · exact ⟨y, mem_append.mpr (.inr hy), hya⟩

/-- What a connective says of its sides: one of its two truths needs both sides, the other needs
one. A side that is not evaluated is not needed. -/
theorem sides_of_boolOp {op : LogicalOp}
    (hv : eval F ctx (.boolOp left op right) = some (.boolean b)) : (decide (op = .and) = b →
      eval F ctx left = some (.boolean b) ∧ eval F ctx right = some (.boolean b)) ∧
    (decide (op = .and) ≠ b →
      eval F ctx left = some (.boolean b) ∨ eval F ctx right = some (.boolean b)) := by
  -- the two connectives differ in the truth that the left side alone decides
  cases op
  all_goals
    rw [eval] at hv
    obtain ⟨l, hl, hv⟩ := Option.bind_eq_some_iff.mp hv
    rw [hl]
    split at hv
    · rename_i hleft
      cases hv
      rw [tri_eq_some.mp hleft]
      exact ⟨nofun, fun _ => .inl rfl⟩
    · obtain ⟨r, hr, hv⟩ := Option.bind_eq_some_iff.mp hv
      rw [hr]
      split at hv <;> cases hv
      · rename_i hrt _
        rw [tri_eq_some.mp hrt]
        exact ⟨nofun, fun _ => .inr rfl⟩
      · rename_i hlt hrt _
        rw [tri_eq_some.mp hlt, tri_eq_some.mp hrt]
        exact ⟨fun _ => ⟨rfl, rfl⟩, fun h => absurd rfl h⟩

/-- **The predicate is made true by atoms on attributes that are there.** -/
def Carried (F : Feel) (specs : Specs) (ctx : Context) : FeelExpr → Bool → Prop
  | .not arg, negated => Carried F specs ctx arg (!negated)
  | .boolOp left op right, negated =>
    if decide (op = .and) != negated then
      Carried F specs ctx left negated ∧ Carried F specs ctx right negated
    else Carried F specs ctx left negated ∨ Carried F specs ctx right negated
  | e, negated => eval F ctx e = some (.boolean !negated) ∧
      ∀ key, atomKey e = some key → Present specs ctx.attr key

include hwithin in
theorem covers_dnfAtom {atoms atoms' : Nat}
    (hdnf : dnfAtom F specs e negated atoms = .ok (cubes, atoms'))
    (h : eval F ctx e = some (.boolean !negated) ∧
      ∀ key, atomKey e = some key → Present specs ctx.attr key) : Covers cubes ctx.attr := by
  rw [dnfAtom] at hdnf
  split at hdnf
  · cases hdnf
  · obtain ⟨xs, hatom, hdnf⟩ := Except.bind_eq_ok hdnf
    cases hdnf
    exact admits_atom hwithin h.2 hatom h.1

include hwithin in
/-- **A predicate that is carried covers the message.** -/
theorem covers_dnf :
    ∀ (e : FeelExpr) {negated : Bool} {atoms atoms' : Nat} {cubes : List Cube},
      dnf F specs e negated atoms = .ok (cubes, atoms') →
      Carried F specs ctx e negated → Covers cubes ctx.attr
  | .not arg, negated, atoms, atoms', cubes, hdnf, h => by
    rw [dnf] at hdnf
    rw [Carried] at h
    exact covers_dnf arg hdnf h
  | .boolOp left op right, negated, atoms, atoms', cubes, hdnf, h => by
    rw [dnf] at hdnf
    obtain ⟨l, hl, hdnf⟩ := Except.bind_eq_ok hdnf
    obtain ⟨r, hr, hdnf⟩ := Except.bind_eq_ok hdnf
    have hleft := @covers_dnf left negated _ _ l.1 hl
    have hright := @covers_dnf right negated _ _ r.1 hr
    rw [Carried] at h
    refine exists_admits_combine hdnf (fun hcase => ?_) fun hcase => ?_
    · rw [if_pos hcase] at h
      exact h.imp hleft hright
    · rw [if_neg (ne_true_of_eq_false hcase)] at h
      exact h.imp hleft hright
  | .literal _, _, _, _, _, hdnf, h
  | .path _, _, _, _, _, hdnf, h
  | .compare _ _ _, _, _, _, _, hdnf, h
  | .inTest _ _, _, _, _, _, hdnf, h
  | .call _ _ _, _, _, _, _, hdnf, h
  | .negate _, _, _, _, _, hdnf, h
  | .listLit _, _, _, _, _, hdnf, h
  | .other _ _ _, _, _, _, _, hdnf, h => covers_dnfAtom hwithin hdnf h

include hwithin in
theorem covers_of_carried (hcubes : analyse F specs e = .ok cubes)
    (h : Carried F specs ctx e false) : Covers cubes ctx.attr := by
  rw [analyse] at hcubes
  obtain ⟨r, hdnf, hcubes⟩ := Except.bind_eq_ok hcubes
  cases hcubes
  exact covers_dnf hwithin e hdnf h

/-- A predicate that is true is carried if no attribute with a closed domain is absent. -/
theorem carried_of_eval (hthere : ∀ key, Present specs ctx.attr key) :
    ∀ (e : FeelExpr) {negated : Bool}, eval F ctx e = some (.boolean !negated) →
      Carried F specs ctx e negated
  | .not arg, negated, hv => by
    rw [eval] at hv
    rw [Carried]
    obtain ⟨w, hw, hvw⟩ := Option.bind_eq_some_iff.mp hv
    refine carried_of_eval hthere arg ?_
    obtain ⟨b, hb, hnot⟩ := Option.map_eq_some_iff.mp (eq_some_of_ofTri hvw)
    rw [hw, tri_eq_some.mp hb, ← hnot, Bool.not_not]
  | .boolOp left op right, negated, hv => by
    have hleft := @carried_of_eval hthere left negated
    have hright := @carried_of_eval hthere right negated
    obtain ⟨hboth, hone⟩ := sides_of_boolOp hv
    rw [Carried]
    split
    · rename_i hcase
      exact (hboth (by cases negated <;> simpa using hcase)).imp hleft hright
    · rename_i hcase
      exact (hone (by cases negated <;> simpa using hcase)).imp hleft hright
  | .literal _, _, hv | .path _, _, hv | .compare _ _ _, _, hv | .inTest _ _, _, hv
  | .call _ _ _, _, hv | .negate _, _, hv | .listLit _, _, hv | .other _ _ _, _, hv =>
    ⟨hv, fun key _ => hthere key⟩

theorem eval_of_evalBoolean (h : evalBoolean F ctx e = some true) :
    eval F ctx e = some (.boolean true) := by
  rw [evalBoolean] at h
  split at h
  · rename_i b hb
    cases h
    exact hb
  · cases h
  · cases h

end Message

end Sutra.Select
