import Sutra.Executor.DataTask

/-!
# Paging through a key prefix

A key query selects the rows of one store between two bounds and answers with a page of them, in
ascending order; the key of the last row of a page is where the next one goes on. Keys are compared
by code point, which is the order of their bytes in UTF-8.

* `prefix_iff_range`: a prefix is asked for as a range, whose upper bound is the prefix with its
  last character replaced by the next one.
-/

namespace Sutra.KeyQuery

open List

variable {V R : Type}

/-- The paths of the summed field and of the field that rows are grouped by. -/
abbrev Aggregate := Option (List String) × Option (List String)

def maxRowLimit : Nat := 10000

def pathIsSafe (path : List String) : Bool :=
  !path.isEmpty && path.all fun s =>
    !s.isEmpty && s.toList.all fun c => c.isAlphanum || c = '_' || c = '-'

def validate (q : StoreKeyQuery) : Bool :=
  q.rowLimit.all (fun limit => limit ≠ 0 ∧ limit ≤ maxRowLimit) &&
    q.aggregates.all fun agg => agg.1.all pathIsSafe && agg.2.all pathIsSafe

structure KeyQueryPage (V R : Type) where
  rows : List (String × V)
  aggregates : List R
  truncated : Bool
  next : Option String

def selected (store : SortedMap String V) (q : StoreKeyQuery) (withAfter : Bool) :
    List (String × V) :=
  let rows := store.entries.filter fun e => q.lower ≤ e.1 ∧ ∀ u ∈ q.upper, e.1 < u
  match if withAfter then q.after else none with
  | some key => rows.filter fun e => key < e.1
  | none => rows

def finishPage (rows : List (String × V)) (limit : Nat) :
    List (String × V) × Bool × Option String :=
  let truncated := decide (limit < rows.length)
  let rows := rows.take limit
  (rows, truncated, if truncated then rows.getLast?.map Prod.fst else none)

def query (eval : Aggregate → List (String × V) → R)
    (store : SortedMap String V) (q : StoreKeyQuery) : Option (KeyQueryPage V R) :=
  if validate q then
    let aggregates := q.aggregates.map (eval · (selected store q false))
    match q.rowLimit with
    | none => some ⟨[], aggregates, false, none⟩
    | some limit =>
      -- one row more than the limit tells whether the page is the last
      let (rows, truncated, next) := finishPage ((selected store q true).take (limit + 1)) limit
      some ⟨rows, aggregates, truncated, next⟩
  else none

def follow (eval : Aggregate → List (String × V) → R)
    (store : SortedMap String V) : Nat → StoreKeyQuery → Option (List (KeyQueryPage V R))
  | 0, _ => none
  | fuel + 1, q => do
    let page ← query eval store q
    if page.truncated then
      let rest ← follow eval store fuel { q with after := page.next }
      some (page :: rest)
    else some [page]

def prefixQuery (key : String) (limit : Nat)
    (aggregates : List Aggregate) : StoreKeyQuery :=
  ⟨key, (prefixUpperBound key.toList.reverse).map String.ofList, none, some limit, aggregates⟩

/-! ## The range of a prefix -/

section order

variable {α : Type} [LinearOrder α] {q k : List α} {c c' : α}

theorem prefix_iff_of_succ (h : ∀ d, d < c' ↔ d ≤ c) :
    q ++ [c] <+: k ↔ ¬ k < q ++ [c] ∧ k < q ++ [c'] := by
  induction q generalizing k with
  | nil =>
    cases k with
    | nil => simp
    | cons d t =>
      have hd := h d
      simp only [nil_append, cons_prefix_cons, nil_prefix, cons_lt_cons_iff, not_lt_nil]
      grind
  | cons a q ih =>
    cases k with
    | nil => simp
    | cons d t =>
      simp only [cons_append, cons_prefix_cons, cons_lt_cons_iff, ih]
      grind

/-- After the last character of all there is no bound, and none is needed. -/
theorem prefix_iff_of_max (h : ∀ d, d ≤ c) : q ++ [c] <+: k ↔ ¬ k < q ++ [c] ∧ q <+: k := by
  induction q generalizing k with
  | nil =>
    cases k with
    | nil => simp
    | cons d t =>
      have hd := h d
      simp only [nil_append, cons_prefix_cons, nil_prefix, cons_lt_cons_iff, not_lt_nil]
      grind
  | cons a q ih =>
    cases k with
    | nil => simp
    | cons d t =>
      simp only [cons_append, cons_prefix_cons, cons_lt_cons_iff, ih]
      grind

end order

theorem toNat_valid (d : Char) : d.toNat < 0xD800 ∨ 0xDFFF < d.toNat ∧ d.toNat ≤ 0x10FFFF := by
  have hd : d.toNat.isValidChar := d.valid
  rw [Nat.isValidChar] at hd
  omega

theorem prefix_iff_range (rev k : List Char) :
    rev.reverse <+: k ↔ ¬ k < rev.reverse ∧ ∀ u, prefixUpperBound rev = some u → k < u := by
  induction rev with
  | nil => simp [prefixUpperBound]
  | cons c rest ih =>
    have hc := toNat_valid c
    rw [reverse_cons, prefixUpperBound]
    generalize hnext : (if 0xD800 ≤ c.toNat + 1 ∧ c.toNat + 1 ≤ 0xDFFF then 0xE000 else c.toNat + 1)
      = next
    split
    · have hvalid : (Char.ofNat next).toNat = next := by
        have hv : next.isValidChar := by
          rw [Nat.isValidChar]
          grind
        rw [Char.ofNat, dif_pos hv]
        rfl
      have hsucc : ∀ d, d < Char.ofNat next ↔ d ≤ c := by
        intro d
        have hd := toNat_valid d
        change d.toNat < (Char.ofNat next).toNat ↔ d.toNat ≤ c.toNat
        rw [hvalid]
        grind
      rw [prefix_iff_of_succ hsucc]
      simp
    · have hmax : ∀ d, d ≤ c := by
        intro d
        have hd := toNat_valid d
        change d.toNat ≤ c.toNat
        grind
      rw [prefix_iff_of_max hmax, ih]
      exact and_congr_right fun h => and_iff_right fun hlt =>
        h (hlt.trans_le (not_lt.mp le_append_left))

/-! ## Pages -/

variable {eval : Aggregate → List (String × V) → R}
  {store : SortedMap String V} {q : StoreKeyQuery} {l : List (String × V)} {limit : Nat}

/-- The rows after the last one of a page are those that the page left out. -/
theorem filter_after_take (h : (l.map Prod.fst).Pairwise (· < ·)) {last : String × V}
    (hlast : (l.take limit).getLast? = some last) :
    l.filter (fun e => last.1 < e.1) = l.drop limit := by
  obtain ⟨init, hinit⟩ := getLast?_eq_some_iff.mp hlast
  rw [pairwise_map, ← take_append_drop limit l, hinit, pairwise_append] at h
  obtain ⟨htake, -, hdrop⟩ := h
  conv_lhs => rw [← take_append_drop limit l, hinit, filter_append]
  rw [filter_eq_nil_iff.mpr, filter_eq_self.mpr, nil_append]
  · exact fun e he => decide_eq_true (hdrop last (by simp) e he)
  · intro e he
    rw [decide_eq_true_iff, not_lt]
    rcases mem_append.mp he with he | he
    · exact ((pairwise_append.mp htake).2.2 e he last (.head _)).le
    · rw [mem_singleton.mp he]

theorem selected_sorted (b : Bool) : ((selected store q b).map Prod.fst).Pairwise (· < ·) := by
  refine store.sorted.sublist (Sublist.map _ ?_)
  rw [selected]
  split
  · exact filter_sublist.trans filter_sublist
  · exact filter_sublist

/-- Going on after a row, of those that are left, forgets where the query went on before. -/
theorem selected_after {last : String × V} (h : last ∈ selected store q true) :
    selected store { q with after := some last.1 } true =
      (selected store q true).filter (fun e => last.1 < e.1) := by
  cases hafter : q.after with
  | none => simp [selected, hafter]
  | some key =>
    simp only [selected, hafter, if_true] at h ⊢
    have hkey := of_decide_eq_true (mem_filter.mp h).2
    symm
    rw [filter_filter]
    refine filter_congr fun e _ => ?_
    rw [Bool.eq_iff_iff, Bool.and_eq_true, decide_eq_true_iff, decide_eq_true_iff]
    exact ⟨And.left, fun hlt => ⟨hlt, hkey.trans hlt⟩⟩

theorem query_eq (hvalid : validate q) (hlimit : q.rowLimit = some limit) :
    let rows := selected store q true
    query eval store q = some ⟨rows.take limit, q.aggregates.map (eval · (selected store q false)),
      limit < rows.length,
      if limit < rows.length then (rows.take limit).getLast?.map Prod.fst else none⟩ := by
  have hmin : ∀ n, limit < min (limit + 1) n ↔ limit < n := by omega
  simp only [query, hvalid, hlimit, finishPage, take_take, length_take, hmin, if_true,
    min_eq_left (Nat.le_succ limit), decide_eq_true_iff]

/-- **Pages cut the rows that are left into pieces**, and each page has the aggregates of all. -/
theorem follow_eq (hvalid : validate q) (hlimit : q.rowLimit = some limit)
    {fuel : Nat} (hfuel : (selected store q true).length < fuel) :
    ∃ pages, follow eval store fuel q = some pages ∧
      pages.flatMap (·.rows) = selected store q true ∧
      ∀ page ∈ pages, page.aggregates = q.aggregates.map (eval · (selected store q false)) := by
  -- every page takes at least one row off those that are left
  induction fuel generalizing q with
  | zero => omega
  | succ fuel ih =>
    have hpos : limit ≠ 0 := by
      rintro rfl
      simp [validate, hlimit] at hvalid
    rw [follow, query_eq hvalid hlimit]
    generalize hl : selected store q true = l at hfuel
    by_cases hmore : limit < l.length
    · have hne : l.take limit ≠ [] := by
        rw [ne_eq, take_eq_nil_iff, not_or]
        exact ⟨hpos, ne_nil_of_length_pos (by omega)⟩
      have hlast := getLast?_eq_some_getLast hne
      generalize (l.take limit).getLast hne = last at hlast
      have hmem : last ∈ l := mem_of_mem_take (mem_of_getLast? hlast)
      have hnext : selected store { q with after := some last.1 } true = l.drop limit := by
        rw [selected_after (hl ▸ hmem), hl, filter_after_take (hl ▸ selected_sorted true) hlast]
      obtain ⟨pages, hpages, hrows, haggs⟩ := @ih { q with after := some last.1 } hvalid hlimit (by
        rw [hnext, length_drop]
        omega)
      simp only [hmore, if_true, hlast, Option.bind_eq_bind, Option.bind_some, decide_true,
        Option.map_some, hpages]
      refine ⟨_, rfl, ?_, forall_mem_cons.mpr ⟨rfl, haggs⟩⟩
      rw [flatMap_cons, hrows, hnext]
      exact take_append_drop limit l
    · simp only [hmore, Option.bind_eq_bind, Option.bind_some, decide_false, if_false,
        Bool.false_eq_true]
      refine ⟨_, rfl, ?_, by simp⟩
      rw [flatMap_singleton, take_of_length_le (by omega)]

theorem follow_of_refused (hvalid : validate q = false) (fuel : Nat) :
    query eval store q = none ∧ follow eval store fuel q = none := by
  have hquery : query eval store q = none := by rw [query, hvalid, if_neg Bool.false_ne_true]
  refine ⟨hquery, ?_⟩
  cases fuel with
  | zero => rfl
  | succ fuel => rw [follow, hquery, Option.bind_eq_bind, Option.bind_none]

/-- **Following the pages of a prefix gives the rows whose key starts with it**, each once and in
order, and every page has the aggregates of all of them. This is for page limits from 1 to
`maxRowLimit`; with another limit every query is refused. -/
theorem prefix_query_pages_exactly (eval : Aggregate → List (String × V) → R)
    (store : SortedMap String V) (key : String) (limit : Nat) (aggregates : List Aggregate) :
    let rows := store.entries.filter fun e => key.toList <+: e.1.toList
    let q := prefixQuery key limit aggregates
    (1 ≤ limit ∧ limit ≤ maxRowLimit →
      (∀ agg ∈ aggregates, agg.1.all pathIsSafe ∧ agg.2.all pathIsSafe) →
      ∃ pages, follow eval store (rows.length + 1) q = some pages ∧
        pages.flatMap (·.rows) = rows ∧
        ∀ page ∈ pages, page.aggregates = aggregates.map (eval · rows)) ∧
    (¬(1 ≤ limit ∧ limit ≤ maxRowLimit) →
      ∀ fuel, query eval store q = none ∧ follow eval store fuel q = none) := by
  intro rows q
  refine ⟨fun hlimit hpaths => ?_, fun hlimit => follow_of_refused ?_⟩
  · have hrows : ∀ b, selected store q b = rows := by
      intro b
      simp only [q, selected, prefixQuery, ite_self]
      refine filter_congr fun e _ => decide_eq_decide.mpr ?_
      have hiff := prefix_iff_range key.toList.reverse e.1.toList
      rw [reverse_reverse] at hiff
      simp only [hiff, ← not_lt, String.lt_iff_toList_lt, Option.mem_def, Option.map_eq_some_iff,
        forall_exists_index, and_imp, forall_apply_eq_imp_iff₂, String.toList_ofList]
    have hvalid : validate q := by
      have hpos : limit ≠ 0 := by omega
      simpa [q, validate, prefixQuery, hpos, hlimit.2] using hpaths
    have hfollow := @follow_eq _ _ eval store _ limit hvalid rfl (rows.length + 1) (by simp [hrows])
    simp only [hrows] at hfollow
    exact hfollow
  · have hbad : ¬(limit ≠ 0 ∧ limit ≤ maxRowLimit) := by omega
    simp only [q, validate, prefixQuery, Option.all_some, hbad, decide_false, Bool.false_and]

/-- Two accounts in pages of one: the second page goes on after the key of the first. -/
theorem account_paged :
    ∃ pages, follow (fun _ rows => rows.length)
        (((SortedMap.empty.insert "a/1" 7).insert "a/2" 8).insert "b/1" 9) 3
        (prefixQuery "a/" 1 [(none, none)]) = some pages ∧
      pages.flatMap (·.rows) = [("a/1", 7), ("a/2", 8)] ∧
      ∀ page ∈ pages, page.aggregates = [2] :=
  (prefix_query_pages_exactly (fun _ rows => rows.length)
    (((SortedMap.empty.insert "a/1" 7).insert "a/2" 8).insert "b/1" 9) "a/" 1 [(none, none)]).1
    (by decide) (by decide)

/-- A limit above `maxRowLimit` is refused, so there is no page to follow. -/
theorem large_limit_refused :
    ¬ ∃ fuel pages, follow (fun _ rows => rows.length) (.insert .empty "a/1" 7) fuel
      (prefixQuery "a/" 10001 []) = some pages := by
  rintro ⟨fuel, pages, h⟩
  cases fuel with
  | zero => cases h
  | succ fuel => cases h

end Sutra.KeyQuery
