import Mathlib

/-!
# Sorted association lists

A finite map kept as a list of entries in strictly ascending key order. The order is a field of
the structure, so every value of the type is canonical.

* `SortedMap.ext_get`: two maps with the same lookups are equal.
-/

structure SortedMap (K V : Type) [LinearOrder K] where
  entries : List (K × V)
  /-- Keys ascend strictly; in particular no key occurs twice. -/
  sorted : (entries.map Prod.fst).Pairwise (· < ·)

namespace SortedMap

open List Option

variable {K V : Type} [LinearOrder K]

instance [DecidableEq V] : DecidableEq (SortedMap K V) := fun a b =>
  decidable_of_iff (a.entries = b.entries) (by cases a; cases b; simp)

/-! ## The operations on plain lists -/

/-- The value of the first entry for `k`. -/
def getList : List (K × V) → K → Option V
  | [], _ => none
  | (k', v) :: rest, k => if k' = k then some v else getList rest k

/-- Write `v` under `k`, keeping the list ascending. -/
def insertList : List (K × V) → K → V → List (K × V)
  | [], k, v => [(k, v)]
  | (k', v') :: rest, k, v =>
    if k < k' then (k, v) :: (k', v') :: rest
    else if k = k' then (k, v) :: rest
    else (k', v') :: insertList rest k v

variable {l : List (K × V)} {k : K} {v : V}

theorem mem_insertList {e : K × V} (h : e ∈ insertList l k v) : e = (k, v) ∨ e ∈ l := by
  induction l with
  | nil => simpa [insertList] using h
  | cons e' rest ih =>
    obtain ⟨k', v'⟩ := e'
    simp only [insertList] at h
    split at h
    · simpa using h
    · split at h
      · simp only [mem_cons] at h ⊢
        exact h.imp_right .inr
      · simp only [mem_cons] at h ⊢
        rcases h with h | h
        · exact .inr (.inl h)
        · exact (ih h).imp_right .inr

theorem insertList_sorted (h : (l.map Prod.fst).Pairwise (· < ·))
    (k : K) (v : V) : ((insertList l k v).map Prod.fst).Pairwise (· < ·) := by
  induction l with
  | nil => simp [insertList]
  | cons e rest ih =>
    obtain ⟨k', v'⟩ := e
    simp only [map_cons, pairwise_cons] at h
    simp only [insertList]
    split
    · rename_i hlt
      simp only [map_cons, pairwise_cons, mem_cons, forall_eq_or_imp]
      exact ⟨⟨hlt, fun a ha => hlt.trans (h.1 a ha)⟩, h⟩
    · rename_i hge
      split
      · rename_i heq
        subst heq
        simpa using h
      · rename_i hne
        have hlt : k' < k := lt_of_le_of_ne (not_lt.1 hge) (.symm hne)
        simp only [map_cons, pairwise_cons]
        refine ⟨fun a ha => ?_, ih h.2⟩
        obtain ⟨e, he, rfl⟩ := mem_map.1 ha
        rcases mem_insertList he with rfl | he
        · exact hlt
        · exact h.1 _ (mem_map_of_mem he)

theorem getList_insertList (l : List (K × V)) (k : K) (v : V) (q : K) :
    getList (insertList l k v) q = if k = q then some v else getList l q := by
  induction l with
  | nil => simp [insertList, getList]
  | cons e rest ih =>
    obtain ⟨k', v'⟩ := e
    simp only [insertList]
    split
    · simp only [getList]
    · split
      · rename_i heq
        subst heq
        simp only [getList]
        split <;> rfl
      · rename_i hne
        simp only [getList, ih]
        split
        · rename_i hq
          rw [if_neg (fun h => hne (h.trans hq.symm))]
        · rfl

theorem getList_filter_ne (l : List (K × V)) (k q : K) :
    getList (l.filter fun e => e.1 ≠ k) q = if k = q then none else getList l q := by
  induction l with
  | nil => simp [getList]
  | cons e rest ih =>
    obtain ⟨k', v'⟩ := e
    by_cases hk : k' = k
    · subst hk
      simp only [filter_cons, ne_eq, not_true_eq_false, decide_false, Bool.false_eq_true,
        if_false, ih, getList]
      split <;> rfl
    · simp only [filter_cons, ne_eq, hk, not_false_eq_true, decide_true, if_true, getList, ih]
      split
      · rename_i hq
        rw [if_neg (fun h => hk (hq.trans h.symm))]
      · rfl

theorem getList_eq_some_iff (h : (l.map Prod.fst).Pairwise (· < ·)) :
    getList l k = some v ↔ (k, v) ∈ l := by
  induction l with
  | nil => simp [getList]
  | cons e rest ih =>
    obtain ⟨k', v'⟩ := e
    simp only [map_cons, pairwise_cons] at h
    simp only [getList, mem_cons, Prod.mk.injEq]
    split
    · rename_i heq
      subst heq
      have hnot : (k', v) ∉ rest := fun hm =>
        lt_irrefl _ (h.1 k' (mem_map_of_mem (f := Prod.fst) hm))
      simp [hnot, eq_comm]
    · rename_i hne
      rw [ih h.2]
      constructor
      · exact .inr
      · rintro (⟨rfl, -⟩ | hm)
        · exact absurd rfl hne
        · exact hm

theorem nodup_of_sorted (h : (l.map Prod.fst).Pairwise (· < ·)) : l.Nodup :=
  List.Pairwise.imp (S := (· ≠ ·)) (fun hab heq => ne_of_lt hab (congrArg Prod.fst heq))
    (pairwise_map.1 h)

theorem list_ext {l' : List (K × V)} (h : (l.map Prod.fst).Pairwise (· < ·))
    (h' : (l'.map Prod.fst).Pairwise (· < ·)) (hmem : ∀ e, e ∈ l ↔ e ∈ l') : l = l' := by
  have hperm := (perm_ext_iff_of_nodup (nodup_of_sorted h) (nodup_of_sorted h')).2 hmem
  exact hperm.eq_of_pairwise (fun _ _ _ _ hab hba => absurd hab (not_lt_of_gt hba))
    (pairwise_map.1 h) (pairwise_map.1 h')

/-! ## The operations on maps -/

def empty : SortedMap K V := ⟨[], by simp⟩

instance : Inhabited (SortedMap K V) := ⟨empty⟩

/-- The value stored under `k`. -/
def get (m : SortedMap K V) (k : K) : Option V := getList m.entries k

/-- Store `v` under `k`, replacing any earlier value. -/
def insert (m : SortedMap K V) (k : K) (v : V) : SortedMap K V :=
  ⟨insertList m.entries k v, insertList_sorted m.sorted k v⟩

def erase (m : SortedMap K V) (k : K) : SortedMap K V :=
  ⟨m.entries.filter fun e => e.1 ≠ k, m.sorted.sublist (filter_sublist.map _)⟩

/-- Whether `k` has an entry. -/
def contains (m : SortedMap K V) (k : K) : Bool := (m.get k).isSome

/-- Insert the entries of a list from left to right: a later entry wins. -/
def ofList (l : List (K × V)) : SortedMap K V := l.foldl (fun m e => m.insert e.1 e.2) empty

@[simp] theorem get_empty (k : K) : (empty : SortedMap K V).get k = none := rfl

theorem get_insert (m : SortedMap K V) (k : K) (v : V) (q : K) :
    (m.insert k v).get q = if k = q then some v else m.get q :=
  getList_insertList m.entries k v q

@[simp] theorem get_insert_self (m : SortedMap K V) (k : K) (v : V) :
    (m.insert k v).get k = some v := by simp [get_insert]

variable {q : K} {m m' : SortedMap K V}

theorem get_insert_of_ne (m : SortedMap K V) (v : V) (h : k ≠ q) :
    (m.insert k v).get q = m.get q := by simp [get_insert, h]

theorem get_insert_cases {w : V}
    (h : (m.insert k v).get q = some w) : (q = k ∧ w = v) ∨ (q ≠ k ∧ m.get q = some w) := by
  rw [get_insert] at h
  split at h
  · exact .inl ⟨by simp_all, (some.inj h).symm⟩
  · exact .inr ⟨.symm ‹_›, h⟩

theorem forall_insert {P : K → V → Prop}
    (h : ∀ q w, m.get q = some w → P q w) (hnew : P k v) (q : K) (w : V)
    (hw : (m.insert k v).get q = some w) : P q w := by
  obtain ⟨rfl, rfl⟩ | ⟨-, hw⟩ := get_insert_cases hw
  · exact hnew
  · exact h q w hw

theorem get_erase (m : SortedMap K V) (k q : K) :
    (m.erase k).get q = if k = q then none else m.get q :=
  getList_filter_ne m.entries k q

@[simp] theorem get_erase_self (m : SortedMap K V) (k : K) : (m.erase k).get k = none := by
  simp [get_erase]

theorem get_erase_of_ne (m : SortedMap K V) (h : k ≠ q) :
    (m.erase k).get q = m.get q := by simp [get_erase, h]

/-- **Maps with the same lookups are equal.** -/
theorem ext_get (h : ∀ k, m.get k = m'.get k) : m = m' := by
  obtain ⟨l, hl⟩ := m
  obtain ⟨l', hl'⟩ := m'
  have hmem : ∀ e, e ∈ l ↔ e ∈ l' := by
    rintro ⟨k, v⟩
    rw [← getList_eq_some_iff hl, ← getList_eq_some_iff hl']
    exact (congrArg (· = some v) (h k)).to_iff
  have : l = l' := list_ext hl hl' hmem
  subst this
  rfl

theorem get_foldl_insert_of_notMem (h : k ∉ l.map Prod.fst)
    (m : SortedMap K V) : (l.foldl (fun m e => m.insert e.1 e.2) m).get k = m.get k := by
  induction l generalizing m with
  | nil => rfl
  | cons e rest ih =>
    rw [map_cons, mem_cons, not_or] at h
    rw [foldl_cons, ih h.2, get_insert_of_ne _ _ (Ne.symm h.1)]

theorem get_foldl_insert (h : (l.map Prod.fst).Pairwise (· < ·)) (m : SortedMap K V) (k : K) :
    (l.foldl (fun m e => m.insert e.1 e.2) m).get k = (getList l k).or (m.get k) := by
  induction l generalizing m with
  | nil => rfl
  | cons e rest ih =>
    obtain ⟨k', v'⟩ := e
    rw [map_cons, pairwise_cons] at h
    rw [foldl_cons, getList]
    split
    · rename_i heq
      subst heq
      have hfresh : k' ∉ rest.map Prod.fst := fun hmem => lt_irrefl _ (h.1 _ hmem)
      rw [get_foldl_insert_of_notMem hfresh, get_insert_self, some_or]
    · rename_i hne
      rw [ih h.2, get_insert_of_ne _ _ hne]

theorem ofList_entries (m : SortedMap K V) : ofList m.entries = m := by
  refine ext_get fun k => ?_
  rw [ofList, get_foldl_insert m.sorted, get_empty, or_none]
  rfl

theorem mem_entries : (k, v) ∈ m.entries ↔ m.get k = some v :=
  (getList_eq_some_iff m.sorted).symm

theorem mem_map_entries {K' W : Type} {key : K → K'}
    (hkey : ∀ {a b}, key a = key b → a = b) {text : V → W} {t : W} :
    (key k, t) ∈ m.entries.map (fun e => (key e.1, text e.2)) ↔ (m.get k).map text = some t := by
  rw [List.mem_map, map_eq_some_iff]
  constructor
  · rintro ⟨⟨k', v⟩, he, heq⟩
    obtain ⟨hk, rfl⟩ := Prod.mk.inj heq
    rw [← hkey hk]
    exact ⟨v, mem_entries.mp he, rfl⟩
  · rintro ⟨v, hv, rfl⟩
    exact ⟨(k, v), mem_entries.mpr hv, rfl⟩

theorem filter_entries_congr {p : K → Bool} (h : ∀ k, p k → m.get k = m'.get k) :
    m.entries.filter (fun e => p e.1) = m'.entries.filter (fun e => p e.1) := by
  refine list_ext (m.sorted.sublist (filter_sublist.map _))
    (m'.sorted.sublist (filter_sublist.map _)) ?_
  rintro ⟨k, v⟩
  rw [mem_filter, mem_filter, mem_entries, mem_entries]
  exact and_congr_left fun hk => by rw [h k hk]

/-! ## Maps from lists -/

theorem get_foldl_insert_or (l : List (K × V)) (m : SortedMap K V) (k : K) :
    (l.foldl (fun m e => m.insert e.1 e.2) m).get k = ((ofList l).get k).or (m.get k) := by
  induction l generalizing m with
  | nil => rfl
  | cons e rest ih =>
    have hcons : (ofList (e :: rest)).get k =
        ((ofList rest).get k).or ((empty.insert e.1 e.2).get k) := ih (empty.insert e.1 e.2)
    rw [foldl_cons, ih, hcons, get_insert, get_insert, Option.or_assoc]
    split <;> rfl

theorem get_ofList_append (l l' : List (K × V)) (k : K) :
    (ofList (l ++ l')).get k = ((ofList l').get k).or ((ofList l).get k) := by
  rw [ofList, foldl_append, get_foldl_insert_or]
  rfl

theorem get_ofList_cons (e : K × V) (l : List (K × V)) (k : K) :
    (ofList (e :: l)).get k = ((ofList l).get k).or (if e.1 = k then some e.2 else none) := by
  rw [ofList, foldl_cons, get_foldl_insert_or, get_insert, get_empty]

@[simp] theorem get_ofList_nil (k : K) : (ofList ([] : List (K × V))).get k = none := rfl

theorem mem_of_get_ofList (h : (ofList l).get k = some v) : (k, v) ∈ l := by
  induction l with
  | nil => exact absurd h (by simp)
  | cons e rest ih =>
    rw [get_ofList_cons, or_eq_some_iff] at h
    rcases h with h | ⟨-, h⟩
    · exact .tail _ (ih h)
    · split at h
      · rename_i hk
        cases h
        exact hk ▸ (.head _)
      · cases h

theorem exists_get_ofList (h : (k, v) ∈ l) : ∃ v', (ofList l).get k = some v' := by
  rw [← isSome_iff_exists, ← ne_none_iff_isSome]
  intro hnone
  induction l with
  | nil => cases h
  | cons e rest ih =>
    rw [get_ofList_cons, or_eq_none_iff] at hnone
    rcases mem_cons.mp h with rfl | h
    · exact absurd hnone.2 (by simp)
    · exact ih h hnone.1

theorem mem_keys_ofList (h : (k, v) ∈ l) : k ∈ (ofList l).entries.map Prod.fst := by
  obtain ⟨_, hget⟩ := exists_get_ofList h
  exact mem_map.mpr ⟨_, mem_entries.mpr hget, rfl⟩

theorem get_ofList_eq_none (h : ∀ e ∈ l, e.1 ≠ k) : (ofList l).get k = none :=
  eq_none_iff_forall_not_mem.mpr fun _ hv => h _ (mem_of_get_ofList hv) rfl

theorem get_ofList_eq_last : (ofList l).get k = some v ↔
    ∃ before after, l = before ++ (k, v) :: after ∧ ∀ e ∈ after, e.1 ≠ k := by
  constructor
  · intro h
    induction l with
    | nil => exact absurd h (by simp)
    | cons e rest ih =>
      rw [get_ofList_cons, or_eq_some_iff] at h
      rcases h with h | ⟨hrest, h⟩
      · obtain ⟨before, after, rfl, hafter⟩ := ih h
        exact ⟨e :: before, after, rfl, hafter⟩
      · split at h <;> cases h
        rename_i hk
        refine ⟨[], rest, by rw [← hk]; rfl, fun e' he' hkey => ?_⟩
        obtain ⟨v', hv'⟩ := exists_get_ofList (hkey ▸ he' : (k, e'.2) ∈ rest)
        rw [hrest] at hv'
        cases hv'
  · rintro ⟨before, after, rfl, hafter⟩
    rw [get_ofList_append, get_ofList_cons, get_ofList_eq_none hafter]
    simp

theorem get_ofList_eq {o : Option V} (h : ∀ v, (k, v) ∈ l ↔ o = some v) : (ofList l).get k = o := by
  refine Option.ext fun v => ⟨fun hget => (h v).mp (mem_of_get_ofList hget), fun ho => ?_⟩
  obtain ⟨v', hv'⟩ := exists_get_ofList ((h v).mpr ho)
  rw [hv', ← (h v').mp (mem_of_get_ofList hv'), ho]

end SortedMap
