import Mathlib
import Sutra.Deploy.Fair

/-!
# The order of the deployments

Every part of a round depends on the deployments and not on where they stand.

* `round_rel`: a reordering `σ` takes the round on `ds ∘ σ` to the round on `ds`. Only the lists of
  labels come out in another order (`SettledClaim.Same`).
-/

namespace Sutra.Deploy

open SortedMap

open List Function Option

/-- The same refusal; the contenders may be listed in another order. -/
inductive Refusal.Same : Refusal → Refusal → Prop
  | held (key : EndpointKey) (holder label slot : String) :
      Same (.held key holder label slot) (.held key holder label slot)
  | unheld {key : EndpointKey} {named named' : List (String × String)} (h : named.Perm named') :
      Same (.unheld key named) (.unheld key named')

/-- The same verdict; labels may be listed in another order. -/
inductive SettledClaim.Same : SettledClaim → SettledClaim → Prop
  | active : Same .active .active
  | superseded {labels labels' : List String} (h : labels.Perm labels') :
      Same (.superseded labels) (.superseded labels')
  | refused {why why' : Refusal} (h : why.Same why') : Same (.refused why) (.refused why')

section reorder

variable {n : Nat} {ds : Fin n → DeploymentFacts}
  {holders : EndpointKey → Option EndpointHolding} (σ : Equiv.Perm (Fin n))

def Aligned (refused' refused : Fin n → Option Refusal) : Prop :=
  ∀ i, Option.Rel Refusal.Same (refused' i) (refused (σ i))

variable {σ} {refused' refused : Fin n → Option Refusal}

theorem isNone_of_rel {R : Refusal → Refusal → Prop} {a b : Option Refusal}
    (h : Option.Rel R a b) : a.isNone = b.isNone := by
  cases h with
  | none => rfl
  | some _ => rfl

variable {l' l : List (Fin n)}

/-- What does not look at positions is the same for two lists of which one is the other reordered.
-/
theorem filter_map_perm (h : (l'.map σ).Perm l) (q : Fin n → Bool) :
    ((l'.filter fun i => q (σ i)).map σ).Perm (l.filter q) := by
  have hmap : (l'.filter fun i => q (σ i)).map σ = (l'.map σ).filter q := (List.filter_map).symm
  rw [hmap]
  exact h.filter q

theorem length_filter_eq (h : (l'.map σ).Perm l) (q : Fin n → Bool) :
    (l'.filter fun i => q (σ i)).length = (l.filter q).length := by
  rw [← (filter_map_perm h q).length_eq, length_map]

theorem narrowToContest_perm (key : EndpointKey) (h : (l'.map σ).Perm l) :
    ((narrowToContest (ds ∘ σ) key l').map σ).Perm (narrowToContest ds key l) := by
  have hlen : l'.length = l.length := by rw [← h.length_eq, length_map]
  have hany : (l'.any fun i => ((ds ∘ σ) i).claimsAlone key) =
      l.any fun i => (ds i).claimsAlone key := by
    rw [← h.any_eq, List.any_map]
    rfl
  rw [narrowToContest, narrowToContest, hlen, hany]
  split
  · exact List.Perm.refl _
  · split
    · exact h
    · simp only [comp_apply]
      have hcount : ∀ i, (l'.filter fun j => (ds (σ j)).owner = (ds i).owner).length =
          (l.filter fun j => (ds j).owner = (ds i).owner).length :=
        fun i => length_filter_eq h fun j => (ds j).owner = (ds i).owner
      simp only [hcount]
      exact filter_map_perm h fun i => 1 < (l.filter fun j => (ds j).owner = (ds i).owner).length

theorem holdersAmong_rel (holder : Option EndpointHolding)
    (h : (l'.map σ).Perm l) : Option.Rel (fun kept' kept => (kept'.map σ).Perm kept)
      (holdersAmong (ds ∘ σ) holder l') (holdersAmong ds holder l) := by
  cases holder with
  | none => exact .none
  | some holding =>
    have hexact := filter_map_perm h fun i => holding.names (ds i).deploymentId
    have howner := filter_map_perm h fun i => decide ((ds i).owner = holding.owner)
    have hlen := length_filter_eq h fun i => decide ((ds i).owner = holding.owner)
    rw [holdersAmong, holdersAmong]
    simp only [comp_apply]
    by_cases hnil : (l.filter fun i => holding.names (ds i).deploymentId) = []
    · have hnil' : (l'.filter fun i => holding.names (ds (σ i)).deploymentId) = [] := by
        rw [← map_eq_nil_iff (f := σ)]
        exact (hnil ▸ hexact).eq_nil
      rw [if_neg (not_not_intro hnil), if_neg (not_not_intro hnil'), hlen]
      split
      · exact .some howner
      · exact .none
    · have hnil' : (l'.filter fun i => holding.names (ds (σ i)).deploymentId) ≠ [] := by
        intro heq
        rw [heq] at hexact
        exact hnil hexact.nil_eq.symm
      rw [if_pos hnil, if_pos hnil']
      exact .some hexact

theorem findSome_rel {α β γ : Type} {R : β → γ → Prop} {f : α → Option β} {g : α → Option γ}
    {l : List α} (h : ∀ a ∈ l, Option.Rel R (f a) (g a)) :
    Option.Rel R (l.findSome? f) (l.findSome? g) := by
  induction l with
  | nil => exact .none
  | cons a l ih =>
    rw [forall_mem_cons] at h
    rw [findSome?_cons, findSome?_cons]
    have hhead := h.1
    generalize f a = b at hhead ⊢
    generalize g a = c at hhead ⊢
    cases hhead with
    | none => exact ih h.2
    | some hbc => exact .some hbc

theorem mem_iff_of_map_perm (h : (l'.map σ).Perm l) (i : Fin n) : σ i ∈ l ↔ i ∈ l' := by
  rw [← h.mem_iff, List.mem_map_of_injective σ.injective]

variable (h : Aligned σ refused' refused)

include h

theorem outranks_comp (j i : Fin n) :
    outranks (ds ∘ σ) refused' j i = outranks ds refused (σ j) (σ i) := by
  rw [outranks, outranks, isNone_of_rel (h j)]
  simp only [comp_apply, ne_eq, EmbeddingLike.apply_eq_iff_eq]

theorem supersededBy_perm (i : Fin n) :
    (supersededBy (ds ∘ σ) refused' i).Perm (supersededBy ds refused (σ i)) := by
  rw [supersededBy, supersededBy]
  simp only [outranks_comp h]
  have hperm := (filter_map_perm (Equiv.Perm.map_finRange_perm σ) fun j =>
    outranks ds refused j (σ i)).map fun j => (ds j).label
  rwa [List.map_map] at hperm

theorem live_perm : ((live (ds ∘ σ) refused').map σ).Perm (live ds refused) := by
  have hlive : ∀ i, ((refused' i).isNone && (supersededBy (ds ∘ σ) refused' i).isEmpty) =
      ((refused (σ i)).isNone && (supersededBy ds refused (σ i)).isEmpty) := by
    intro i
    rw [isNone_of_rel (h i), (supersededBy_perm h i).isEmpty_eq]
  rw [live, live]
  simp only [hlive]
  exact filter_map_perm (Equiv.Perm.map_finRange_perm σ) fun i =>
    (refused i).isNone && (supersededBy ds refused i).isEmpty

theorem contestants_perm (key : EndpointKey) :
    ((contestants (ds ∘ σ) refused' key).map σ).Perm (contestants ds refused key) :=
  narrowToContest_perm key (filter_map_perm (live_perm h) fun i => (ds i).claims key)

theorem claimedKeys_eq : claimedKeys (ds ∘ σ) refused' = claimedKeys ds refused := by
  have hperm : ((live (ds ∘ σ) refused').flatMap fun i =>
      ((ds ∘ σ) i).endpoints.map fun e => (e.key, ())).Perm
      ((live ds refused).flatMap fun i => (ds i).endpoints.map fun e => (e.key, ())) := by
    have hflat := (@live_perm _ ds _ _ _ h).flatMap_right fun i =>
      (ds i).endpoints.map fun e => (e.key, ())
    rwa [flatMap_map] at hflat
  have hmap : SortedMap.ofList ((live (ds ∘ σ) refused').flatMap fun i =>
      ((ds ∘ σ) i).endpoints.map fun e => (e.key, ())) =
      SortedMap.ofList ((live ds refused).flatMap fun i =>
        (ds i).endpoints.map fun e => (e.key, ())) := by
    refine ext_get fun k => ext fun u => ?_
    have hiff : ∀ {l : List (EndpointKey × Unit)}, (SortedMap.ofList l).get k = some u ↔
        (k, u) ∈ l := fun {l} => ⟨mem_of_get_ofList, fun hmem =>
      (exists_get_ofList hmem).elim fun _ hget => hget⟩
    rw [hiff, hiff, hperm.mem_iff]
  rw [claimedKeys, claimedKeys, hmap]

theorem contested_eq : contested (ds ∘ σ) refused' = contested ds refused := by
  rw [contested, contested, claimedKeys_eq h]
  refine filter_congr fun key _ => ?_
  have hperm := @contestants_perm _ ds _ _ _ h key
  have hnil : contestants (ds ∘ σ) refused' key = [] ↔ contestants ds refused key = [] := by
    rw [← map_eq_nil_iff (f := σ)]
    exact ⟨fun heq => (heq ▸ hperm).nil_eq.symm, fun heq => (heq ▸ hperm).eq_nil⟩
  simp only [ne_eq, hnil]

theorem byHolder_rel (i : Fin n) : Option.Rel Refusal.Same (byHolder (ds ∘ σ) holders refused' i)
      (byHolder ds holders refused (σ i)) := by
  rw [byHolder, byHolder, contested_eq h]
  refine findSome_rel fun key _ => ?_
  have hperm := @contestants_perm _ ds _ _ _ h key
  have hrel := @holdersAmong_rel _ ds σ _ _ (holders key) hperm
  generalize holdersAmong (ds ∘ σ) (holders key) _ = kept' at hrel ⊢
  generalize holdersAmong ds (holders key) _ = kept at hrel ⊢
  cases hrel with
  | none => exact .none
  | some hkept =>
    simp only [mem_iff_of_map_perm hperm i, mem_iff_of_map_perm hkept i]
    split
    · exact .some (.held _ _ _ _)
    · exact .none

theorem unheld_rel (i : Fin n) : Option.Rel Refusal.Same (unheld (ds ∘ σ) holders refused' i)
      (unheld ds holders refused (σ i)) := by
  rw [unheld, unheld, contested_eq h]
  refine findSome_rel fun key _ => ?_
  have hperm := @contestants_perm _ ds _ _ _ h key
  have hrel := @holdersAmong_rel _ ds σ _ _ (holders key) hperm
  generalize holdersAmong (ds ∘ σ) (holders key) _ = kept' at hrel ⊢
  generalize holdersAmong ds (holders key) _ = kept at hrel ⊢
  cases hrel with
  | some hkept => exact .none
  | none =>
    simp only [mem_iff_of_map_perm hperm i]
    split
    · refine .some (.unheld ?_)
      have hnamed := hperm.map fun j => ((ds j).label, (ds j).slot)
      rwa [List.map_map] at hnamed
    · exact .none

/-- **A reordering takes rounds to rounds.** -/
theorem round_rel :
    Option.Rel (Aligned σ) (round (ds ∘ σ) holders refused') (round ds holders refused) := by
  have hany : ∀ {f f' : Fin n → Option Refusal},
      (∀ i, Option.Rel Refusal.Same (f' i) (f (σ i))) →
      ((finRange n).any fun i => (f' i).isSome) = (finRange n).any fun i => (f i).isSome := by
    intro f f' hrel
    have hsome : ∀ i, (f' i).isSome = (f (σ i)).isSome := by
      intro i
      rw [← not_isNone, ← not_isNone, isNone_of_rel (hrel i)]
    have hperm : (((finRange n).map σ).any fun i => (f i).isSome) =
        (finRange n).any fun i => (f i).isSome := (Equiv.Perm.map_finRange_perm σ).any_eq
    rw [← hperm, List.any_map]
    simp only [hsome, comp_def]
  have hrefuse : ∀ {f f' : Fin n → Option Refusal},
      (∀ i, Option.Rel Refusal.Same (f' i) (f (σ i))) →
      Aligned σ (refuse refused' f') (refuse refused f) := by
    intro f f' hrel i
    have hi := hrel i
    rw [refuse, refuse]
    generalize f' i = a at hi ⊢
    generalize f (σ i) = b at hi ⊢
    cases hi with
    | none => exact h i
    | some hsame => exact .some hsame
  rw [round, round, hany (byHolder_rel h), hany (unheld_rel h)]
  split
  · exact .some (hrefuse (byHolder_rel h))
  · split
    · exact .some (hrefuse (unheld_rel h))
    · exact .none

theorem verdict_same (i : Fin n) :
    (verdict (ds ∘ σ) refused' i).Same (verdict ds refused (σ i)) := by
  have hi := h i
  have hperm := @supersededBy_perm _ ds _ _ _ h i
  rw [verdict, verdict]
  generalize refused' i = a at hi ⊢
  generalize refused (σ i) = b at hi ⊢
  cases hi with
  | some hsame => exact .refused hsame
  | none =>
    generalize supersededBy (ds ∘ σ) refused' i = labels' at hperm ⊢
    generalize supersededBy ds refused (σ i) = labels at hperm ⊢
    cases labels' with
    | nil =>
      rw [← hperm.nil_eq]
      exact .active
    | cons label' rest' =>
      cases labels with
      | nil => cases hperm.eq_nil
      | cons label rest => exact .superseded hperm

end reorder

/-! ## The law -/

def facts (id : String) (identities : List String) : DeploymentFacts where
  deploymentId := id
  label := "label-" ++ id
  owner := "owner-" ++ id
  version := "1"
  slot := "slot-" ++ id
  endpoints := identities.map fun identity => ⟨"t", ⟨identity, .exclusive⟩⟩

/-- `b` claims an endpoint of `a` and one that `c` claims as well. -/
def threeDeployments : Fin 3 → DeploymentFacts
  | 0 => facts "a" ["e1"]
  | 1 => facts "b" ["e1", "e2"]
  | 2 => facts "c" ["e2"]

def firstHeld (key : EndpointKey) : Option EndpointHolding :=
  if key = toLex ("t", "e1") then some ⟨"owner-a", "a", "label-a", []⟩ else none

def bothHeld (key : EndpointKey) : Option EndpointHolding :=
  if key = toLex ("t", "e2") then some ⟨"owner-b", "b", "label-b", []⟩ else firstHeld key

theorem claims_facts {id : String} {identities : List String} {key : EndpointKey} :
    (facts id identities).claims key ↔ ∃ identity ∈ identities, toLex ("t", identity) = key := by
  rw [DeploymentFacts.claims, List.any_eq_true]
  constructor
  · rintro ⟨e, he, hkey⟩
    obtain ⟨identity, hmem, rfl⟩ := mem_map.mp he
    exact ⟨identity, hmem, of_decide_eq_true hkey⟩
  · rintro ⟨identity, hmem, hkey⟩
    exact ⟨_, mem_map.mpr ⟨identity, hmem, rfl⟩, decide_eq_true hkey⟩

theorem firstHeld_firm : Firm threeDeployments firstHeld := by
  intro i key h _ hholder hsupports key' hcontends
  rw [firstHeld] at hholder
  split at hholder
  · cases hholder
    match i with
    | 0 =>
      obtain ⟨identity, hmem, rfl⟩ := claims_facts.mp hcontends.1
      rw [mem_singleton.mp hmem]
      exact ⟨_, rfl, .inl rfl⟩
    | 1 => exact absurd hsupports (by rw [EndpointHolding.Supports]; decide)
    | 2 => exact absurd hsupports (by rw [EndpointHolding.Supports]; decide)
  · cases hholder

end Sutra.Deploy
