import Mathlib

/-!
# Tables with a key

A table is a list of rows no two of which have one key. Rows are inserted at the end.

* `insert?` refuses a key that is there, `insertNew` does nothing then.
* `rows_foldl_insertNew`, `rows_of_insertAll?`: what a sequence of inserts leaves.
-/

structure Table {κ α : Type} (key : α → κ) where
  rows : List α
  nodup : (rows.map key).Nodup

namespace Table

open List

variable {κ α : Type} {key : α → κ} {t t' : Table key} {a : α}

theorem ext {s : Table key} (h : s.rows = t.rows) : s = t := by
  cases s
  cases t
  cases h
  rfl

def empty : Table key := ⟨[], nodup_nil⟩

def map (t : Table key) (f : α → α) (hf : ∀ a, key (f a) = key a) : Table key where
  rows := t.rows.map f
  nodup := by
    have hkey : key ∘ f = key := funext hf
    rw [List.map_map, hkey]
    exact t.nodup

theorem eq_of_key (t : Table key) {b : α} (ha : a ∈ t.rows) (hb : b ∈ t.rows)
    (h : key a = key b) : a = b :=
  inj_on_of_nodup_map t.nodup ha hb h

variable [DecidableEq κ]

def insert? (t : Table key) (a : α) : Option (Table key) :=
  if h : key a ∈ t.rows.map key then none
  else some ⟨t.rows ++ [a], by
    rw [map_append]
    exact t.nodup.append (nodup_singleton _) (disjoint_singleton.mpr h)⟩

def insertNew (t : Table key) (a : α) : Table key := (t.insert? a).getD t

theorem insert?_eq_some (h : t.insert? a = some t') : t'.rows = t.rows ++ [a] := by
  rw [insert?] at h
  split at h
  · cases h
  · cases h
    rfl

theorem insert?_of_notMem (h : key a ∉ t.rows.map key) :
    ∃ t', t.insert? a = some t' ∧ t'.rows = t.rows ++ [a] := by
  rw [insert?, dif_neg h]
  exact ⟨_, rfl, rfl⟩

theorem rows_insertNew (h : key a ∉ t.rows.map key) : (t.insertNew a).rows = t.rows ++ [a] := by
  obtain ⟨t', ht', hrows⟩ := insert?_of_notMem h
  rw [insertNew, ht']
  exact hrows

theorem rows_foldl_insertNew {l : List α} (h : ((t.rows ++ l).map key).Nodup) :
    (l.foldl insertNew t).rows = t.rows ++ l := by
  induction l generalizing t with
  | nil => simp
  | cons a l ih =>
    have ha : key a ∉ t.rows.map key := by
      rw [map_append, List.map_cons] at h
      exact fun hmem => (nodup_append.mp h).2.2 _ hmem _ (.head _) rfl
    have hrows := rows_insertNew ha
    rw [foldl_cons, ih (by rw [hrows]; simpa using h), hrows]
    simp

theorem rows_of_insertAll? {l : List α} (h : l.foldlM insert? t = some t') :
    t'.rows = t.rows ++ l := by
  induction l generalizing t with
  | nil =>
    cases h
    simp
  | cons a l ih =>
    rw [foldlM_cons] at h
    obtain ⟨t₁, h₁, h⟩ := Option.bind_eq_some_iff.mp h
    rw [ih h, insert?_eq_some h₁]
    simp

end Table
