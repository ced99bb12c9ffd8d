import Sutra.Lib.Run
import Sutra.Lib.Table

/-!
# The live owner of a unique key

`alias_index` has a row for every key that an instance recorded, live until the key is retired. Its
primary key is the key with the instance; a partial unique index is over the key alone, for the rows
that are both live and unique.

* `recordIn` is `record_in`: an insert that either of the two may refuse, then for a unique key a
  look at *one* live row, then the revival of a retired row.
-/

namespace Sutra.AliasIndex

open List

structure Key where
  deployment : String
  aliasName : String
  aliasValue : String
  deriving DecidableEq

structure Row where
  key : Key
  instanceId : Nat
  uniqueAlias : Bool
  live : Bool
  deriving DecidableEq

abbrev Index := Table fun r : Row => (r.key, r.instanceId)

/-! ## Statements -/

def sqlInsert (t : Index) (k : Key) (i : Nat) (unique : Bool) : Option Index :=
  -- `ON CONFLICT DO NOTHING`, on the partial unique index or on the primary key.
  if unique ∧ ∃ r ∈ t.rows, r.key = k ∧ r.uniqueAlias ∧ r.live then none
  else t.insert? ⟨k, i, unique, true⟩

def Holds (t : Index) (k : Key) (i : Nat) (unique : Bool) : Prop := ⟨k, i, unique, true⟩ ∈ t.rows

/-- What a lookup may answer: without an order, `LIMIT 1` is any of the live rows. -/
def SqlFindLive (t : Index) (k : Key) : Option Nat → Prop
  | some i => ∃ unique, Holds t k i unique
  | none => ∀ i unique, ¬ Holds t k i unique

def update (t : Index) (p : Row → Bool) (unique : Option Bool) (live : Bool) : Index :=
  t.map (fun r => if p r then ⟨r.key, r.instanceId, unique.getD r.uniqueAlias, live⟩ else r)
    fun r => by
    split <;> rfl

def sqlRetire (t : Index) (deployment : String) (i : Nat) : Index :=
  update t (fun r => r.key.deployment = deployment ∧ r.instanceId = i ∧ r.live) none false

def sqlRetireOne (t : Index) (k : Key) (i : Nat) : Index :=
  update t (fun r => r.key = k ∧ r.instanceId = i ∧ r.live) none false

def retired (k : Key) (i : Nat) (r : Row) : Bool := r.key = k ∧ r.instanceId = i ∧ r.live = false

def sqlRevive (t : Index) (k : Key) (i : Nat) (unique : Bool) : Index :=
  update t (retired k i) (some unique) true

def recordIn (t : Index) (owner : Option Nat) (k : Key) (i : Nat) (unique : Bool) : Index × Bool :=
  match sqlInsert t k i unique with
  | some t' => (t', true)
  | none =>
    match if unique then owner else none with
    | some o => (t, o = i)
    -- By the primary key, the rows that are revived are one or none.
    | none => (sqlRevive t k i unique, t.rows.any (retired k i) || !unique)

inductive Op
  | record (k : Key) (i : Nat) (unique answer : Bool)
  | retireOne (k : Key) (i : Nat)
  | retire (deployment : String) (i : Nat)
  | findLive (k : Key) (found : Option Nat)

/-- A step of a history. A committed step of an instance is a list of them: it retires keys one by
one and then records others. -/
inductive Step (t : Index) : Op → Index → Prop
  | record {t' : Index} {owner : Option Nat} {k : Key} {i : Nat} {unique answer : Bool}
      (howner : SqlFindLive t k owner) (hout : recordIn t owner k i unique = (t', answer)) :
      Step t (.record k i unique answer) t'
  | retireOne (k : Key) (i : Nat) : Step t (.retireOne k i) (sqlRetireOne t k i)
  | retire (deployment : String) (i : Nat) :
      Step t (.retire deployment i) (sqlRetire t deployment i)
  | findLive {k : Key} {found : Option Nat} (h : SqlFindLive t k found) :
      Step t (.findLive k found) t

/-! ## What the statements do -/

variable {t t' : Index} {k k' : Key} {i j : Nat} {u v answer : Bool} {owner : Option Nat}
  {decl : Key → Bool}

theorem holds_sqlRevive (h : Holds (sqlRevive t k i u) k' j v) :
    Holds t k' j v ∨ k' = k ∧ j = i ∧ v = u := by
  obtain ⟨r, hr, heq⟩ := mem_map.mp h
  split at heq
  · rename_i hretired
    cases heq
    obtain ⟨hk, hi, -⟩ := of_decide_eq_true hretired
    exact .inr ⟨hk, hi, rfl⟩
  · subst heq
    exact .inl hr

theorem holds_update_false {p : Row → Bool} {w : Option Bool}
    (h : Holds (update t p w false) k i u) :
    Holds t k i u := by
  obtain ⟨r, hr, heq⟩ := mem_map.mp h
  split at heq
  · cases heq
  · subst heq
    exact hr

theorem mem_rows_of_conflict (h : sqlInsert t k i u = none) :
    (u = true ∧ ∃ j, Holds t k j true) ∨ ∃ v l, ⟨k, i, v, l⟩ ∈ t.rows := by
  rw [sqlInsert] at h
  split at h
  · rename_i hindex
    obtain ⟨hu, ⟨_, j, _, _⟩, hr, rfl, rfl, rfl⟩ := hindex
    exact .inl ⟨hu, j, hr⟩
  · by_contra hnone
    have hpk : (k, i) ∉ t.rows.map fun r => (r.key, r.instanceId) := by
      intro hmem
      obtain ⟨⟨_, _, v, l⟩, hr, heq⟩ := mem_map.mp hmem
      cases heq
      exact hnone (.inr ⟨v, l, hr⟩)
    obtain ⟨t', ht', -⟩ := Table.insert?_of_notMem (t := t) (a := ⟨k, i, u, true⟩) hpk
    cases h.symm.trans ht'

theorem rows_sqlInsert (h : sqlInsert t k i u = some t') :
    t'.rows = t.rows ++ [⟨k, i, u, true⟩] ∧ (u = true → ∀ j, ¬ Holds t k j true) := by
  rw [sqlInsert] at h
  split at h
  · cases h
  · rename_i hindex
    exact ⟨Table.insert?_eq_some h, fun hu j hj => hindex ⟨hu, _, hj, rfl, rfl, rfl⟩⟩

theorem recordIn_cases (howner : SqlFindLive t k owner)
    (h : recordIn t owner k i u = (t', answer)) :
    (t'.rows = t.rows ++ [⟨k, i, u, true⟩] ∧ answer = true ∧ (u = true → ∀ j, ¬ Holds t k j true)) ∨
    (u = true ∧ t' = t ∧ ∃ o v, Holds t k o v ∧ answer = decide (o = i)) ∨
    (t' = sqlRevive t k i u ∧ answer = true ∧ (∃ v l, ⟨k, i, v, l⟩ ∈ t.rows) ∧
      (u = true → ∀ j, ¬ Holds t k j true)) := by
  rw [recordIn] at h
  cases hins : sqlInsert t k i u with
  | some t₁ =>
    rw [hins] at h
    cases h
    obtain ⟨hrows, hfree⟩ := rows_sqlInsert hins
    exact .inl ⟨hrows, rfl, hfree⟩
  | none =>
    rw [hins] at h
    right
    cases u with
    | false =>
      cases h
      obtain ⟨hu, -⟩ | hrow := mem_rows_of_conflict hins
      · cases hu
      · exact .inr ⟨rfl, Bool.or_true _, hrow, nofun⟩
    | true =>
      cases owner with
      | some o =>
        cases h
        obtain ⟨v, ho⟩ := howner
        exact .inl ⟨rfl, rfl, o, v, ho, rfl⟩
      | none =>
        cases h
        -- No row of the key is live, so the insert met the instance's own retired row.
        obtain ⟨-, j, hj⟩ | ⟨v, l, hr⟩ := mem_rows_of_conflict hins
        · exact absurd hj (howner j true)
        · have hl : l = false := by
            cases l with
            | false => rfl
            | true => exact absurd hr (howner i v)
          subst hl
          have hany : t.rows.any (retired k i) = true := any_eq_true.mpr ⟨_, hr, by simp [retired]⟩
          refine .inr ⟨rfl, ?_, ⟨v, false, hr⟩, fun _ j => howner j true⟩
          rw [hany]
          rfl

/-! ## Histories in which each key is recorded in one way -/

structure Kept (decl : Key → Bool) (t : Index) : Prop where
  declared : ∀ r ∈ t.rows, r.uniqueAlias = decl r.key
  one : ∀ k i j, Holds t k i true → Holds t k j true → i = j

namespace Kept

theorem update_false {p : Row → Bool} (h : Kept decl t) : Kept decl (update t p none false) where
  declared r' hr' := by
    obtain ⟨r, hr, rfl⟩ := mem_map.mp hr'
    split <;> exact h.declared r hr
  one k i j hi hj := h.one k i j (holds_update_false hi) (holds_update_false hj)

/-- One more live row leaves a single owner, if it is plain or the key had none. -/
theorem one_of_added (h : Kept decl t) (hfree : u = true → ∀ j, ¬ Holds t k j true)
    (hadd : ∀ {k' j}, Holds t' k' j true → Holds t k' j true ∨ k' = k ∧ j = i ∧ true = u)
    (k' : Key) (a b : Nat) (ha : Holds t' k' a true) (hb : Holds t' k' b true) : a = b := by
  rcases hadd ha with ha | ⟨rfl, rfl, hu⟩ <;> rcases hadd hb with hb | ⟨hk, rfl, hu'⟩
  · exact h.one k' a b ha hb
  · exact absurd (hk ▸ ha) (hfree hu'.symm a)
  · exact absurd hb (hfree hu.symm b)
  · rfl

theorem record (h : Kept decl t) (howner : SqlFindLive t k owner)
    (hout : recordIn t owner k i (decl k) = (t', answer)) : Kept decl t' := by
  rcases recordIn_cases howner hout with ⟨hrows, -, hfree⟩ | ⟨-, rfl, -⟩ | ⟨rfl, -, -, hfree⟩
  · refine ⟨?_, h.one_of_added (i := i) hfree fun hj => ?_⟩
    · simpa [hrows, or_imp, forall_and] using h.declared
    · rw [Holds, hrows, mem_append, mem_singleton, Row.mk.injEq] at hj
      exact hj.imp_right fun ⟨hk, hi, hu, _⟩ => ⟨hk, hi, hu⟩
  · exact h
  · refine ⟨fun r' hr' => ?_, h.one_of_added hfree holds_sqlRevive⟩
    obtain ⟨r, hr, rfl⟩ := mem_map.mp hr'
    split
    · rename_i hretired
      exact congrArg decl (of_decide_eq_true hretired).1.symm
    · exact h.declared r hr

theorem answer_eq_false_iff (h : Kept decl t) (hstep : Step t (.record k i (decl k) answer) t') :
    answer = false ↔ ∃ j, j ≠ i ∧ Holds t k j true := by
  obtain ⟨howner, hout⟩ := hstep
  rcases recordIn_cases howner hout with ⟨-, rfl, hfree⟩ | ⟨hu, -, o, v, ho, rfl⟩ |
    ⟨-, rfl, -, hfree⟩
  case inr.inl =>
    have hv : v = true := (h.declared _ ho).trans hu
    subst hv
    rw [decide_eq_false_iff_not]
    exact ⟨fun hne => ⟨o, hne, ho⟩, fun ⟨j, hne, hj⟩ heq => hne (h.one k j i hj (heq ▸ ho))⟩
  all_goals
    exact iff_of_false nofun fun ⟨j, _, hj⟩ => hfree (h.declared _ hj).symm j hj

theorem holds_of_recorded (h : Kept decl t) (hstep : Step t (.record k i (decl k) true) t') :
    Holds t' k i (decl k) := by
  obtain ⟨howner, hout⟩ := hstep
  rcases recordIn_cases howner hout with ⟨hrows, -⟩ | ⟨hu, rfl, o, v, ho, heq⟩ |
    ⟨rfl, -, ⟨v, l, hr⟩, -⟩
  · rw [Holds, hrows]
    exact mem_append_right _ (.head _)
  · rw [← of_decide_eq_true heq.symm, ← h.declared _ ho]
    exact ho
  · refine mem_map.mpr ⟨_, hr, ?_⟩
    cases l with
    | false => simp [retired]
    | true => simpa [retired] using h.declared _ hr

theorem step {op : Op} (hstep : Step t op t')
    (hop : ∀ k i u answer, op = .record k i u answer → u = decl k) (h : Kept decl t) :
    Kept decl t' := by
  cases hstep with
  | record howner hout =>
    cases hop _ _ _ _ rfl
    exact h.record howner hout
  | retireOne | retire => exact h.update_false
  | findLive => exact h

theorem run {ops : List Op} (hrun : Run Step .empty ops t)
    (hops : ∀ k i u answer, .record k i u answer ∈ ops → u = decl k) : Kept decl t := by
  refine hrun.invariant (fun op hop a b hstep h => ?_) ⟨nofun, nofun⟩
  exact h.step hstep fun k i u answer heq => hops k i u answer (heq ▸ hop)

end Kept

/-- **In every history that records each key in one way, a unique key has one live owner**, a record
is refused exactly for the sake of another one, and a record that is not refused leaves the live row
it was asked for: the next record by another instance is refused if and only if that row is unique.
-/
theorem unique_key_one_live_owner {ops : List Op} (hrun : Run Step .empty ops t)
    (hops : ∀ k i u answer, .record k i u answer ∈ ops → u = decl k) :
    (∀ k i j, Holds t k i true → Holds t k j true → i = j) ∧
    ∀ {k i answer t'}, Step t (.record k i (decl k) answer) t' →
      (answer = false ↔ ∃ j, j ≠ i ∧ Holds t k j true) ∧
      (answer = true → Holds t' k i (decl k) ∧ ∀ {j answer' t''}, j ≠ i →
        Step t' (.record k j (decl k) answer') t'' → (answer' = false ↔ Holds t' k i true)) := by
  have h := Kept.run hrun hops
  refine ⟨h.one, fun hstep => ?_⟩
  have h' : Kept decl _ := h.step hstep fun _ _ _ _ heq => by
    cases heq
    rfl
  refine ⟨h.answer_eq_false_iff hstep, ?_⟩
  rintro rfl
  have hholds := h.holds_of_recorded hstep
  refine ⟨hholds, fun hne hnext => (h'.answer_eq_false_iff hnext).trans ?_⟩
  constructor
  · intro ⟨j', _, hj'⟩
    rw [← (h'.declared _ hj' : true = _)] at hholds
    exact hholds
  · exact fun hi => ⟨_, hne.symm, hi⟩

def order : Key := ⟨"d", "orderId", "42"⟩

def recorded (unique : Bool) : Index := (recordIn .empty none order 1 unique).1

theorem step_recorded (unique : Bool) :
    Step .empty (.record order 1 unique true) (recorded unique) := by
  have hnone : SqlFindLive .empty order none := fun _ _ h => nomatch h
  refine .record hnone (Prod.ext rfl ?_)
  cases unique <;> decide

theorem findLive_recorded (unique : Bool) : SqlFindLive (recorded unique) order (some 1) := by
  refine ⟨unique, ?_⟩
  cases unique <;> exact .head _

theorem order_refused : ∃ t, Run Step .empty [.record order 1 true true] t ∧
    ∀ answer t', Step t (.record order 2 true answer) t' → answer = false := by
  have hrun := Run.cons (step_recorded true) (.nil _)
  refine ⟨_, hrun, fun answer t' hstep => ?_⟩
  have hone := @unique_key_one_live_owner _ (fun _ => true) _ hrun (by simp)
  exact (hone.2 hstep).1.mpr ⟨1, by decide, .head _⟩

/-- **A key that was recorded as plain does not become unique**: the record of the instance that has
the live plain row is answered with `true`, its row stays plain, and another instance records the
same key as unique after it. -/
theorem plain_row_stays_plain : ∃ t t' t'',
    Run Step .empty [.record order 1 false true] t ∧ Step t (.record order 1 true true) t' ∧
    ¬ Holds t' order 1 true ∧ Step t' (.record order 2 true true) t'' ∧ Holds t'' order 2 true := by
  refine ⟨recorded false, recorded false, (recordIn (recorded false) (some 1) order 2 true).1,
    .cons (step_recorded false) (.nil _), .record (findLive_recorded false) rfl, ?_,
    .record (findLive_recorded false) (Prod.ext rfl (by decide)), ?_⟩
  · exact fun h => nomatch h
  · exact .tail _ (.head _)

end Sutra.AliasIndex
