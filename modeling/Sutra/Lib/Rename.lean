import Sutra.Lib.SortedMap

/-!
# Renaming keys in place

`SortedMap.move` takes the value of one key to another, overwriting what is there. `moveAll` does
so for a list of keys, one after the other, inside the live map: a key that is still to be moved can
lose its value to one that was moved onto it.

The keys ascend and the renaming `g` is injective on them. A key is *overrun* when a smaller key of
the list is renamed to it.
-/

namespace SortedMap

open List

variable {K V W : Type} [LinearOrder K]

def move (m : SortedMap K V) (old new : K) : SortedMap K V :=
  if new = old then m
  else
    match m.get old with
    | some v => (m.erase old).insert new v
    | none => m

def moveAll (g : K → K) (keys : List K) (m : SortedMap K V) : SortedMap K V :=
  keys.foldl (fun m k => m.move k (g k)) m

theorem moveAll_cons (g : K → K) (k : K) (keys : List K) (m : SortedMap K V) :
    moveAll g (k :: keys) m = moveAll g keys (m.move k (g k)) := rfl

variable {m : SortedMap K V} {new old q : K}

theorem get_move_of_ne (hold : old ≠ q) (hnew : new ≠ q) : (m.move old new).get q = m.get q := by
  rw [move]
  split
  · rfl
  · split
    · rw [get_insert_of_ne _ _ hnew, get_erase_of_ne _ hold]
    · rfl

theorem get_move_old (h : new ≠ old) : (m.move old new).get old = none := by
  rw [move, if_neg h]
  split
  · rw [get_insert_of_ne _ _ h, get_erase_self]
  · assumption

theorem get_move_new {v : V} (h : m.get old = some v) : (m.move old new).get new = some v := by
  rw [move, h]
  split
  · rename_i heq
    rw [heq, h]
  · exact get_insert_self _ _ _

theorem get_moveAll_of_ne {g : K → K} {keys : List K} (h : ∀ k ∈ keys, k ≠ q ∧ g k ≠ q)
    (m : SortedMap K V) : (moveAll g keys m).get q = m.get q := by
  induction keys generalizing m with
  | nil => rfl
  | cons k rest ih =>
    obtain ⟨hk, hgk⟩ := h k (.head _)
    rw [moveAll_cons, ih (fun k' hk' => h k' (.tail _ hk')), get_move_of_ne hk hgk]

theorem get_moveAll_eq_none {g : K → K} {keys : List K} (h : ∀ k ∈ keys, g k ≠ q)
    (hm : m.get q = none) : (moveAll g keys m).get q = none := by
  induction keys generalizing m with
  | nil => exact hm
  | cons k rest ih =>
    refine ih (fun k' hk' => h k' (.tail _ hk')) ?_
    by_cases hk : k = q
    · rw [← hk]
      exact get_move_old (hk ▸ h k (.head _))
    · rw [get_move_of_ne hk (h k mem_cons_self), hm]

section Ascending

variable {g : K → K} {keys : List K}

structure Moved (read : V → Option W) (g : K → K) (keys : List K) (m₀ : SortedMap K V)
    (done todo : List K) (m : SortedMap K V) : Prop where
  waiting : ∀ k ∈ todo, ∃ w, m.get k = some w ∧ ((∃ p ∈ done, g p = k) → read w = none) ∧
    ((∀ p ∈ done, g p ≠ k) → m₀.get k = some w)
  /-- Elsewhere the keys that were moved and not overrun are found under their new names. -/
  settled : ∀ k, k ∉ todo → (k ∈ keys ∨ m₀.get k = none) → ∀ w,
    ((m.get k).bind read = some w ↔ ∃ n ∈ done, (∀ p ∈ keys, p < n → g p ≠ n) ∧ g n = k ∧
      (m₀.get n).bind read = some w)

def OverrunsBlank (read : V → Option W) (g : K → K) (keys : List K) (m : SortedMap K V) : Prop :=
  ∀ n ∈ keys, ∀ k ∈ keys, n < k → g n = k → (m.get n).bind read = none

variable {read : V → Option W} {m₀ : SortedMap K V}

variable (hsorted : keys.Pairwise (· < ·)) (hinj : ∀ a ∈ keys, ∀ b ∈ keys, g a = g b → a = b)
include hsorted hinj

/-- **An overrun key ends without a value.** -/
theorem get_moveAll_overrun {n k : K} (hn : n ∈ keys) (hk : k ∈ keys) (hlt : n < k)
    (hg : g n = k) (m : SortedMap K V) : (moveAll g keys m).get k = none := by
  obtain ⟨before, after, rfl⟩ := append_of_mem hk
  have hafter : ∀ r ∈ after, g r ≠ k := by
    intro r hr hgr
    have hr' : r ∈ before ++ k :: after := mem_append_right _ (.tail _ hr)
    have hrn : r = n := hinj r hr' n hn (hgr.trans hg.symm)
    have hkr : k < r := (pairwise_cons.mp (pairwise_append.mp hsorted).2.1).1 r hr
    exact lt_asymm hlt (hrn ▸ hkr)
  have hkk : g k ≠ k := by
    intro heq
    exact (ne_of_lt hlt) (hinj n hn k hk (hg.trans heq.symm))
  have hsplit : moveAll g (before ++ k :: after) m =
      moveAll g after ((moveAll g before m).move k (g k)) := by
    rw [moveAll, foldl_append]
    rfl
  rw [hsplit]
  exact get_moveAll_eq_none hafter (get_move_old hkk)

theorem Moved.step {done todo : List K} {n : K} (hkeys : keys = done ++ n :: todo)
    (hblank : OverrunsBlank read g keys m₀) (h : Moved read g keys m₀ done (n :: todo) m) :
    Moved read g keys m₀ (done ++ [n]) todo (m.move n (g n)) := by
  have hdone : ∀ {p}, p ∈ done → p ∈ keys := fun hp => hkeys ▸ mem_append_left _ hp
  have hn : n ∈ keys := hkeys ▸ mem_append_right _ (.head _)
  have htodo : ∀ {k}, k ∈ todo → k ∈ keys := fun hk => hkeys ▸ mem_append_right _ (.tail _ hk)
  rw [hkeys] at hsorted
  obtain ⟨-, hrest, hcross⟩ := pairwise_append.mp hsorted
  have hbefore : ∀ p ∈ done, p < n := fun p hp => hcross p hp n (.head _)
  have hafter : ∀ k ∈ todo, n < k := (pairwise_cons.mp hrest).1
  -- the keys below `n` are the ones moved so far
  have hbelow : ∀ p ∈ keys, p < n → p ∈ done := by
    intro p hp hlt
    rw [hkeys, mem_append, mem_cons] at hp
    rcases hp with hp | rfl | hp
    · exact hp
    · exact absurd hlt (lt_irrefl p)
    · exact absurd (hafter p hp) (lt_asymm hlt)
  obtain ⟨w, hget, hover, hown⟩ := h.waiting n (.head _)
  -- what `n` holds when its turn comes
  have hread : ∀ u, read w = some u ↔
      (∀ p ∈ keys, p < n → g p ≠ n) ∧ (m₀.get n).bind read = some u := by
    intro u
    by_cases hp : ∃ p ∈ done, g p = n
    · obtain ⟨p, hp, hgp⟩ := hp
      rw [hover ⟨p, hp, hgp⟩]
      exact ⟨fun hu => (nomatch hu), fun hu => absurd hgp (hu.1 p (hdone hp) (hbefore p hp))⟩
    · have hp : ∀ p ∈ done, g p ≠ n := fun p hpd hgp => hp ⟨p, hpd, hgp⟩
      rw [hown hp, Option.bind_some]
      exact ⟨fun hu => ⟨fun p hpk hlt => hp p (hbelow p hpk hlt), hu⟩, fun hu => hu.2⟩
  refine ⟨fun k hk => ?_, fun k hk hregion u => ?_⟩
  · have hnk : n ≠ k := ne_of_lt (hafter k hk)
    by_cases hgk : g n = k
    · refine ⟨w, hgk ▸ get_move_new hget, fun _ => ?_, fun hno => ?_⟩
      · refine Option.eq_none_iff_forall_ne_some.mpr fun u hu => ?_
        have hnone := hblank n hn k (htodo hk) (hafter k hk) hgk
        exact nomatch hnone.symm.trans ((hread u).mp hu).2
      · exact absurd hgk (hno n (mem_append_right _ (mem_singleton_self n)))
    · obtain ⟨w', hget', hover', hown'⟩ := h.waiting k (.tail _ hk)
      refine ⟨w', (get_move_of_ne hnk hgk).trans hget', fun hex => ?_, fun hno => ?_⟩
      · obtain ⟨p, hp, hgp⟩ := hex
        rcases mem_append.mp hp with hp | hp
        · exact hover' ⟨p, hp, hgp⟩
        · rw [mem_singleton.mp hp] at hgp
          exact absurd hgp hgk
      · exact hown' fun p hp => hno p (mem_append_left _ hp)
  · have hsplit : (∃ n' ∈ done ++ [n], (∀ p ∈ keys, p < n' → g p ≠ n') ∧ g n' = k ∧
        (m₀.get n').bind read = some u) ↔
        (∃ n' ∈ done, (∀ p ∈ keys, p < n' → g p ≠ n') ∧ g n' = k ∧
          (m₀.get n').bind read = some u) ∨ (g n = k ∧ read w = some u) := by
      rw [hread]
      constructor
      · rintro ⟨n', hn', hno, hgn, hu⟩
        rcases mem_append.mp hn' with hn' | hn'
        · exact .inl ⟨n', hn', hno, hgn, hu⟩
        · rw [mem_singleton.mp hn'] at hno hgn hu
          exact .inr ⟨hgn, hno, hu⟩
      · rintro (⟨n', hn', hrest'⟩ | ⟨hgn, hno, hu⟩)
        · exact ⟨n', mem_append_left _ hn', hrest'⟩
        · exact ⟨n, mem_append_right _ (mem_singleton_self n), hno, hgn, hu⟩
    rw [hsplit]
    by_cases hgk : g n = k
    · -- the target of `n`: nothing else was moved there
      have hget' : (m.move n (g n)).get k = some w := hgk ▸ get_move_new hget
      rw [hget', Option.bind_some]
      refine ⟨fun hu => .inr ⟨hgk, hu⟩, ?_⟩
      rintro (⟨n', hn', -, hgn, -⟩ | ⟨-, hu⟩)
      · have heq : n' = n := hinj n' (hdone hn') n hn (hgn.trans hgk.symm)
        exact absurd (hbefore n' hn') (heq ▸ lt_irrefl n)
      · exact hu
    · by_cases hnk : n = k
      · -- the old place of `n`: whoever was moved there overran it, and read as nothing
        have hget' : (m.move n (g n)).get k = none := hnk ▸ get_move_old (hnk ▸ hgk)
        rw [hget']
        refine ⟨fun hu => (nomatch hu), ?_⟩
        rintro (⟨n', hn', -, hgn, hu⟩ | ⟨hgn, -⟩)
        · have hnone := hblank n' (hdone hn') n hn (hbefore n' hn') (hgn.trans hnk.symm)
          exact nomatch hnone.symm.trans hu
        · exact absurd hgn hgk
      · rw [get_move_of_ne hnk hgk, h.settled k (by simp [hk, Ne.symm hnk]) hregion u]
        exact ⟨.inl, fun hu => hu.resolve_right fun hgn => hgk hgn.1⟩

theorem Moved.run {done todo : List K} (hkeys : keys = done ++ todo)
    (hblank : OverrunsBlank read g keys m₀) (h : Moved read g keys m₀ done todo m) :
    Moved read g keys m₀ keys [] (moveAll g todo m) := by
  induction todo generalizing done m with
  | nil =>
    rw [append_nil] at hkeys
    exact hkeys ▸ h
  | cons n rest ih =>
    refine ih ?_ (h.step hsorted hinj hkeys hblank)
    rw [hkeys, append_assoc]
    rfl

/-- **If every value that overruns a key reads as nothing, the keys that were not overrun are found
under their new names, and nothing else is.** -/
theorem read_moveAll (hblank : OverrunsBlank read g keys m)
    (hpresent : ∀ k ∈ keys, ∃ v, m.get k = some v) {k : K} (hk : k ∈ keys ∨ m.get k = none)
    (w : W) : ((moveAll g keys m).get k).bind read = some w ↔
      ∃ n ∈ keys, (∀ p ∈ keys, p < n → g p ≠ n) ∧ g n = k ∧ (m.get n).bind read = some w := by
  have hinit : Moved read g keys m [] keys m := by
    refine ⟨fun k hk => ?_, fun k hk hregion w => ?_⟩
    · obtain ⟨v, hv⟩ := hpresent k hk
      exact ⟨v, hv, fun hex => (nomatch hex), fun _ => hv⟩
    · rw [hregion.resolve_left hk]
      exact ⟨fun hu => (nomatch hu), fun hex => (nomatch hex)⟩
  have hdone := hinit.run hsorted hinj (nil_append keys).symm hblank
  exact hdone.settled k not_mem_nil hk w

end Ascending

end SortedMap
