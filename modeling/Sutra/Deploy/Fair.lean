import Mathlib
import Sutra.Deploy.Settle

/-!
# What settling comes to

A round refuses deployments and never takes a refusal back, so that the rounds end. What holds of
the last state is read off the round that finds nothing more to refuse; what a refusal rests on is
kept from the round that made it (`Grounds`). The holder in whose favour it was made can be refused
in its turn, in the same round or later. With a record that is `Firm` that does not happen.

* `settles`: the rounds end.
* `active_named`: two active deployments share an endpoint of one owner only if the record names
  both.
* `lower_not_active`: a version is not active beside a higher one of its owner on a common endpoint.
* `grounds_round`, `Grounds.justified_or`: what stands behind a refusal, and what is left in the
  end.
* `supported_round`: with a firm record a contender that the record supports is not refused.
-/

namespace Sutra.Deploy

open List Option

variable {n : Nat} {ds : Fin n → DeploymentFacts}
  {holders : EndpointKey → Option EndpointHolding} {refused : Fin n → Option Refusal}

/-! ## One round -/

variable {i j : Fin n} {why : Refusal} {claimants : List (Fin n)}

theorem outranks_iff : outranks ds refused j i ↔
    j ≠ i ∧ refused j = none ∧ (ds j).owner = (ds i).owner ∧
      compareDeploymentVersions (ds j).version (ds i).version = .gt ∧
      (ds j).sharesEndpoint (ds i) := by
  rw [outranks]
  simp only [Bool.and_eq_true, decide_eq_true_eq, isNone_iff_eq_none, and_assoc]

variable {i : Fin n}

theorem supersededBy_eq_nil :
    supersededBy ds refused i = [] ↔ ∀ j, outranks ds refused j i = false := by
  rw [supersededBy, map_eq_nil_iff, filter_eq_nil_iff]
  simp only [mem_finRange, true_imp_iff, Bool.not_eq_true]

theorem mem_live : i ∈ live ds refused ↔ refused i = none ∧ supersededBy ds refused i = [] := by
  rw [live, mem_filter, Bool.and_eq_true, isNone_iff_eq_none, List.isEmpty_iff]
  simp only [mem_finRange, true_and]

theorem narrowToContest_sublist (key : EndpointKey) (claimants : List (Fin n)) :
    (narrowToContest ds key claimants).Sublist claimants := by
  rw [narrowToContest]
  split
  · exact nil_sublist _
  · split
    · exact List.Sublist.refl _
    · exact filter_sublist

variable {key : EndpointKey}

theorem mem_contestants (h : i ∈ contestants ds refused key) :
    i ∈ live ds refused ∧ (ds i).claims key :=
  mem_filter.mp ((narrowToContest_sublist key _).subset h)

theorem nodup_contestants (key : EndpointKey) : (contestants ds refused key).Nodup :=
  (((nodup_finRange n).filter _).filter _).sublist (narrowToContest_sublist key _)

theorem two_le_contestants (h : contestants ds refused key ≠ []) :
    2 ≤ (contestants ds refused key).length := by
  rw [contestants, narrowToContest] at h ⊢
  split at h
  · exact absurd rfl h
  · rename_i hlen
    rw [if_neg hlen]
    split at h
    · rename_i halone
      rw [if_pos halone]
      exact Nat.not_lt.mp hlen
    · rename_i halone
      rw [if_neg halone]
      -- the contestants of one owner are among the contestants
      obtain ⟨i, hi⟩ := exists_mem_of_ne_nil _ h
      obtain ⟨hi, hcount⟩ := mem_filter.mp hi
      rw [decide_eq_true_eq] at hcount
      refine Nat.le_trans hcount (List.Sublist.length_le ?_)
      refine monotone_filter_right _ fun j hj => ?_
      rw [decide_eq_true_eq] at hj ⊢
      rw [hj]
      exact hcount

theorem mem_contested : key ∈ contested ds refused ↔ contestants ds refused key ≠ [] := by
  rw [contested, mem_filter, decide_eq_true_eq]
  refine ⟨fun h => h.2, fun h => ⟨?_, h⟩⟩
  obtain ⟨i, hi⟩ := exists_mem_of_ne_nil _ h
  obtain ⟨hlive, hclaims⟩ := mem_contestants hi
  obtain ⟨e, he, hkey⟩ := any_eq_true.mp hclaims
  rw [← of_decide_eq_true hkey]
  exact SortedMap.mem_keys_ofList (mem_flatMap.mpr ⟨i, hlive, mem_map.mpr ⟨e, he, rfl⟩⟩)

theorem byHolder_eq_some (h : byHolder ds holders refused i = some why) : ∃ key kept holder,
      holdersAmong ds (holders key) (contestants ds refused key) = some kept ∧
      i ∈ contestants ds refused key ∧ i ∉ kept ∧
      why = .held key holder (ds i).label (ds i).slot := by
  obtain ⟨key, -, hkey⟩ := exists_of_findSome?_eq_some h
  split at hkey
  · rename_i kept hkept
    split at hkey
    · rename_i hi
      cases hkey
      exact ⟨key, kept, _, hkept, hi.1, hi.2, rfl⟩
    · cases hkey
  · cases hkey

theorem unheld_eq_some (h : unheld ds holders refused i = some why) : ∃ key,
      holdersAmong ds (holders key) (contestants ds refused key) = none ∧
      i ∈ contestants ds refused key ∧
      why = .unheld key ((contestants ds refused key).map fun j =>
        ((ds j).label, (ds j).slot)) := by
  obtain ⟨key, -, hkey⟩ := exists_of_findSome?_eq_some h
  split at hkey
  · cases hkey
  · rename_i hkept
    split at hkey
    · rename_i hi
      cases hkey
      exact ⟨key, hkept, hi, rfl⟩
    · cases hkey

/-- Everybody who contests an endpoint that the record cannot decide is refused. -/
theorem unheld_isSome (hkept : holdersAmong ds (holders key) (contestants ds refused key) = none)
    (hi : i ∈ contestants ds refused key) : unheld ds holders refused i ≠ none := by
  intro hnone
  have hkey := List.findSome?_eq_none_iff.mp hnone key (mem_contested.mpr (ne_nil_of_mem hi))
  rw [hkept] at hkey
  rw [if_pos hi] at hkey
  cases hkey

theorem byHolder_isSome {kept : List (Fin n)}
    (hkept : holdersAmong ds (holders key) (contestants ds refused key) = some kept)
    (hi : i ∈ contestants ds refused key) (hout : i ∉ kept) :
    byHolder ds holders refused i ≠ none := by
  intro hnone
  have hkey := List.findSome?_eq_none_iff.mp hnone key (mem_contested.mpr (ne_nil_of_mem hi))
  rw [hkept] at hkey
  dsimp only at hkey
  rw [if_pos ⟨hi, hout⟩] at hkey
  cases hkey

variable {refused' : Fin n → Option Refusal}

/-- **What a round can do.** -/
theorem round_eq_some (h : round ds holders refused = some refused') : ∃ more,
      refused' = refuse refused more ∧ (∃ i, (more i).isSome) ∧
      (more = byHolder ds holders refused ∨ more = unheld ds holders refused) := by
  rw [round] at h
  split at h
  · rename_i hany
    cases h
    obtain ⟨i, -, hi⟩ := any_eq_true.mp hany
    exact ⟨_, rfl, ⟨i, hi⟩, .inl rfl⟩
  · split at h
    · rename_i hany
      cases h
      obtain ⟨i, -, hi⟩ := any_eq_true.mp hany
      exact ⟨_, rfl, ⟨i, hi⟩, .inr rfl⟩
    · cases h

theorem round_eq_none (h : round ds holders refused = none) (i : Fin n) :
    byHolder ds holders refused i = none ∧ unheld ds holders refused i = none := by
  rw [round] at h
  split at h
  · cases h
  · rename_i hholder
    split at h
    · cases h
    · rename_i hunheld
      simp only [List.any_eq_true, mem_finRange, true_and, not_exists,
        not_isSome_iff_eq_none] at hholder hunheld
      exact ⟨hholder i, hunheld i⟩

theorem live_of_more {more : Fin n → Option Refusal} (hi : (more i).isSome)
    (hmore : more = byHolder ds holders refused ∨ more = unheld ds holders refused) :
    i ∈ live ds refused := by
  obtain ⟨why, hwhy⟩ := isSome_iff_exists.mp hi
  rcases hmore with rfl | rfl
  · obtain ⟨key, kept, holder, -, hcontest, -, -⟩ := byHolder_eq_some hwhy
    exact (mem_contestants hcontest).1
  · obtain ⟨key, -, hcontest, -⟩ := unheld_eq_some hwhy
    exact (mem_contestants hcontest).1

def remaining (refused : Fin n → Option Refusal) : Nat :=
  (Finset.univ.filter fun i => (refused i).isNone = true).card

theorem remaining_round (h : round ds holders refused = some refused') :
    remaining refused' < remaining refused := by
  obtain ⟨more, rfl, ⟨i, hi⟩, hmore⟩ := round_eq_some h
  have hnone := (mem_live.mp (live_of_more hi hmore)).1
  refine Finset.card_lt_card ((Finset.ssubset_iff_of_subset fun j hj => ?_).mpr ⟨i, ?_, ?_⟩)
  · rw [Finset.mem_filter, isNone_iff_eq_none, refuse, or_eq_none_iff] at hj
    rw [Finset.mem_filter, isNone_iff_eq_none]
    exact ⟨hj.1, hj.2.2⟩
  · rw [Finset.mem_filter, isNone_iff_eq_none]
    exact ⟨Finset.mem_univ _, hnone⟩
  · rw [Finset.mem_filter, isNone_iff_eq_none, refuse, or_eq_none_iff]
    rintro ⟨-, hmore', -⟩
    rw [hmore'] at hi
    cases hi

/-- **The rounds end.** -/
theorem settles (ds : Fin n → DeploymentFacts)
    (holders : EndpointKey → Option EndpointHolding) : ∃ refused,
      Rounds.settle (round ds holders) (n + 1) (fun _ => none) = some refused := by
  refine Rounds.settle_isSome remaining (fun _ _ => remaining_round) (Nat.lt_succ_of_le ?_)
  exact Nat.le_trans (Finset.card_filter_le _ _) (Nat.le_of_eq (Finset.card_fin n))

/-! ## Who may keep an endpoint -/

def EndpointHolding.Supports (h : EndpointHolding) (d : DeploymentFacts) : Prop :=
  h.names d.deploymentId = true ∨ d.owner = h.owner

theorem holdersAmong_eq_some {holder : Option EndpointHolding} {kept : List (Fin n)}
    (h : holdersAmong ds holder claimants = some kept) : ∃ holding, holder = some holding ∧
      kept ≠ [] ∧ (∀ k ∈ kept, k ∈ claimants ∧ holding.Supports (ds k)) ∧
      (2 ≤ kept.length → ∀ k ∈ kept, holding.names (ds k).deploymentId) := by
  rw [holdersAmong.eq_def] at h
  split at h
  · cases h
  · rename_i holding
    dsimp only at h
    split at h
    · rename_i hexact
      cases h
      have hnames : ∀ k ∈ claimants.filter fun i => holding.names (ds i).deploymentId,
          k ∈ claimants ∧ holding.names (ds k).deploymentId :=
        fun k hk => mem_filter.mp hk
      exact ⟨holding, rfl, hexact, fun k hk => ⟨(hnames k hk).1, .inl (hnames k hk).2⟩,
        fun _ k hk => (hnames k hk).2⟩
    · split at h
      · rename_i hone
        cases h
        refine ⟨holding, rfl, fun hnil => ?_, fun k hk => ?_, fun htwo => ?_⟩
        · rw [hnil] at hone
          cases hone
        · obtain ⟨hmem, howner⟩ := mem_filter.mp hk
          exact ⟨hmem, .inr (of_decide_eq_true howner)⟩
        · rw [hone] at htwo
          exact absurd htwo (by decide)
      · cases h

theorem holdersAmong_eq_none {holding : EndpointHolding}
    (h : holdersAmong ds (some holding) claimants = none) :
    ∀ k ∈ claimants, holding.names (ds k).deploymentId = false := by
  rw [holdersAmong] at h
  split at h
  · cases h
  · rename_i hexact
    rw [not_not, filter_eq_nil_iff] at hexact
    exact fun k hk => Bool.eq_false_of_not_eq_true (hexact k hk)

/-! ## In the end -/

theorem verdict_eq_active : verdict ds refused i = .active ↔ i ∈ live ds refused := by
  rw [mem_live, verdict]
  cases refused i with
  | some why => exact iff_of_false nofun fun h => nomatch h.1
  | none =>
    cases supersededBy ds refused i with
    | nil => exact iff_of_true rfl ⟨rfl, rfl⟩
    | cons label labels => exact iff_of_false nofun fun h => nomatch h.2

theorem verdict_eq_refused : verdict ds refused i = .refused why ↔ refused i = some why := by
  rw [verdict]
  cases refused i with
  | some why' => exact ⟨fun h => congrArg some (SettledClaim.refused.inj h),
      fun h => by cases h; rfl⟩
  | none =>
    dsimp only
    split <;> exact iff_of_false nofun nofun

/-- **Two active deployments share an endpoint of one owner only if the record names both.** -/
theorem active_named (hstable : round ds holders refused = none) (hne : i ≠ j)
    (hi : i ∈ live ds refused) (hj : j ∈ live ds refused)
    (hikey : (ds i).claims key) (hjkey : (ds j).claims key)
    (halone : (ds i).claimsAlone key ∨ (ds j).claimsAlone key) :
    ∃ h, holders key = some h ∧ h.names (ds i).deploymentId ∧ h.names (ds j).deploymentId := by
  have hiclaim : i ∈ (live ds refused).filter fun i => (ds i).claims key :=
    mem_filter.mpr ⟨hi, hikey⟩
  have hjclaim : j ∈ (live ds refused).filter fun i => (ds i).claims key :=
    mem_filter.mpr ⟨hj, hjkey⟩
  have htwo : ∀ {l : List (Fin n)}, i ∈ l → j ∈ l → 2 ≤ l.length := by
    intro l hil hjl
    have hnodup : [i, j].Nodup := by simpa using hne
    have hsub : [i, j] ⊆ l := by
      intro k hk
      simp only [mem_cons, not_mem_nil, or_false] at hk
      rcases hk with rfl | rfl
      · exact hil
      · exact hjl
    exact (subperm_of_subset hnodup hsub).length_le
  have hcontest : contestants ds refused key =
      (live ds refused).filter fun i => (ds i).claims key := by
    rw [contestants, narrowToContest, if_neg (Nat.not_lt.mpr (htwo hiclaim hjclaim)), if_pos]
    exact any_eq_true.mpr (halone.elim (fun h => ⟨i, hiclaim, h⟩) fun h => ⟨j, hjclaim, h⟩)
  have hiin : i ∈ contestants ds refused key := hcontest ▸ hiclaim
  have hjin : j ∈ contestants ds refused key := hcontest ▸ hjclaim
  cases hkept : holdersAmong ds (holders key) (contestants ds refused key) with
  | none => exact absurd (round_eq_none hstable i).2 (unheld_isSome hkept hiin)
  | some kept =>
    have hikept : i ∈ kept := by
      by_contra hout
      exact byHolder_isSome hkept hiin hout (round_eq_none hstable i).1
    have hjkept : j ∈ kept := by
      by_contra hout
      exact byHolder_isSome hkept hjin hout (round_eq_none hstable j).1
    obtain ⟨h, hholder, -, -, hnames⟩ := holdersAmong_eq_some hkept
    have hnames := hnames (htwo hikept hjkept)
    exact ⟨h, hholder, hnames i hikept, hnames j hjkept⟩

/-- **A version is not active beside a higher one on a common endpoint.** -/
theorem lower_not_active (howner : (ds j).owner = (ds i).owner)
    (hlower : compareDeploymentVersions (ds i).version (ds j).version = .lt)
    (hshares : (ds j).sharesEndpoint (ds i)) (hj : j ∈ live ds refused) : i ∉ live ds refused := by
  intro hi
  have hhigher : compareDeploymentVersions (ds j).version (ds i).version = .gt := by
    rw [← compareDeploymentVersions_swap, hlower]
    rfl
  have hne : j ≠ i := by
    rintro rfl
    rw [hlower] at hhigher
    cases hhigher
  have hrank := supersededBy_eq_nil.mp (mem_live.mp hi).2 j
  rw [outranks_iff.mpr ⟨hne, (mem_live.mp hj).1, howner, hhigher, hshares⟩] at hrank
  cases hrank

/-! ## Why a deployment is refused -/

theorem sharesEndpoint_of_claims {a b : DeploymentFacts}
    (ha : a.claims key) (hb : b.claims key) : a.sharesEndpoint b := by
  obtain ⟨e, he, hekey⟩ := any_eq_true.mp ha
  obtain ⟨o, ho, hokey⟩ := any_eq_true.mp hb
  refine any_eq_true.mpr ⟨e, he, any_eq_true.mpr ⟨o, ho, ?_⟩⟩
  exact decide_eq_true ((of_decide_eq_true hokey).trans (of_decide_eq_true hekey).symm)

/-- A lower version of the same owner. -/
def Below (ds : Fin n → DeploymentFacts) (j i : Fin n) : Prop :=
  (ds j).owner = (ds i).owner ∧ compareDeploymentVersions (ds j).version (ds i).version = .lt

/-- The deployment cannot stay on the endpoint beside another claimant: neither supersedes the
other, and somebody wants the endpoint alone or both are of one owner. -/
def Contends (ds : Fin n → DeploymentFacts) (i : Fin n) (key : EndpointKey) : Prop :=
  (ds i).claims key = true ∧ ∃ j, j ≠ i ∧ (ds j).claims key = true ∧ ¬Below ds j i ∧ ¬Below ds i j ∧
    ((∃ k, (ds k).claimsAlone key = true) ∨ (ds j).owner = (ds i).owner)

/-- Deployments that contest an endpoint, all of them refused and none of them named by the record.
-/
structure Unranked (ds : Fin n → DeploymentFacts)
    (holders : EndpointKey → Option EndpointHolding) (refused : Fin n → Option Refusal)
    (key : EndpointKey) (contenders : List (Fin n)) : Prop where
  nodup : contenders.Nodup
  two : 2 ≤ contenders.length
  claims : ∀ j ∈ contenders, (ds j).claims key = true
  refused : ∀ j ∈ contenders, (refused j).isSome = true
  unnamed : ∀ j ∈ contenders, ∀ h, holders key = some h →
    h.names (ds j).deploymentId = false

/-- What a refusal rests on. -/
inductive Grounds (candidates : Fin n → DeploymentFacts)
    (holders : EndpointKey → Option EndpointHolding) (refused : Fin n → Option Refusal)
    (i : Fin n) : Prop
  /-- The record lets `k` keep an endpoint, and no higher version displaces `k`. -/
  | held {key : EndpointKey} {h : EndpointHolding} {k : Fin n}
      (hi : (candidates i).claims key = true) (hk : Contends candidates k key)
      (hholder : holders key = some h) (hsupports : h.Supports (candidates k))
      (hfront : supersededBy candidates refused k = [])
  | unheld {key : EndpointKey} {contenders : List (Fin n)} (hi : i ∈ contenders)
      (hunranked : Unranked candidates holders refused key contenders)

theorem supersededBy_refuse (h : supersededBy ds refused i = [])
    (more : Fin n → Option Refusal) : supersededBy ds (refuse refused more) i = [] := by
  rw [supersededBy_eq_nil] at h ⊢
  intro j
  rw [← Bool.not_eq_true, outranks_iff]
  rintro ⟨hne, hrefused, hrest⟩
  rw [refuse, or_eq_none_iff] at hrefused
  have hrank := h j
  rw [outranks_iff.mpr ⟨hne, hrefused.2, hrest⟩] at hrank
  cases hrank

theorem Grounds.refuse (h : Grounds ds holders refused i)
    (more : Fin n → Option Refusal) : Grounds ds holders (refuse refused more) i := by
  cases h with
  | held hi hk hholder hsupports hfront =>
    exact .held hi hk hholder hsupports (supersededBy_refuse hfront more)
  | unheld hi hunranked =>
    refine .unheld hi { hunranked with refused := fun j hj => ?_ }
    rw [Deploy.refuse, isSome_or, hunranked.refused j hj, Bool.or_true]

theorem exists_ne_of_two_le {l : List (Fin n)} (hnodup : l.Nodup) (hlen : 2 ≤ l.length) :
    ∃ j ∈ l, j ≠ i := by
  by_contra hnone
  push Not at hnone
  have hle := (subperm_of_subset hnodup fun j hj => mem_singleton.mpr (hnone j hj)).length_le
  exact absurd (Nat.le_trans hlen hle) (Nat.not_succ_le_self 1)

/-- **Who contests an endpoint in a round contends for it.** -/
theorem contends_of_contestant (h : i ∈ contestants ds refused key) : Contends ds i key := by
  obtain ⟨hilive, hiclaims⟩ := mem_contestants h
  have hnodup : ((live ds refused).filter fun i => (ds i).claims key).Nodup :=
    ((nodup_finRange n).filter _).filter _
  -- two live deployments on one endpoint are not versions of which one is lower
  have hrival : ∀ j, j ≠ i → j ∈ (live ds refused).filter (fun i => (ds i).claims key) →
      ((∃ k, (ds k).claimsAlone key = true) ∨ (ds j).owner = (ds i).owner) →
      Contends ds i key := by
    intro j hne hj hcause
    obtain ⟨hjlive, hjclaims⟩ := mem_filter.mp hj
    refine ⟨hiclaims, j, hne, hjclaims, fun hbelow => ?_, fun hbelow => ?_, hcause⟩
    · exact lower_not_active hbelow.1.symm hbelow.2 (sharesEndpoint_of_claims hiclaims hjclaims)
        hilive hjlive
    · exact lower_not_active hbelow.1.symm hbelow.2 (sharesEndpoint_of_claims hjclaims hiclaims)
        hjlive hilive
  rw [contestants, narrowToContest] at h
  split at h
  · cases h
  rename_i hlen
  split at h
  · rename_i halone
    obtain ⟨j, hj, hne⟩ := exists_ne_of_two_le hnodup (Nat.not_lt.mp hlen)
    obtain ⟨k, -, hk⟩ := any_eq_true.mp halone
    exact hrival j hne hj (.inl ⟨k, hk⟩)
  · have hcount := of_decide_eq_true (mem_filter.mp h).2
    obtain ⟨j, hj, hne⟩ := exists_ne_of_two_le (hnodup.filter _) hcount
    obtain ⟨hj, howner⟩ := mem_filter.mp hj
    exact hrival j hne hj (.inr (of_decide_eq_true howner))

/-- **Every round refuses on grounds.** -/
theorem grounds_round (hround : round ds holders refused = some refused')
    (h : ∀ i, (refused i).isSome → Grounds ds holders refused i) :
    ∀ i, (refused' i).isSome → Grounds ds holders refused' i := by
  obtain ⟨more, rfl, -, hmore⟩ := round_eq_some hround
  intro i hi
  cases hwhy : more i with
  | none =>
    rw [refuse, hwhy, none_or] at hi
    exact (h i hi).refuse more
  | some why =>
    rcases hmore with rfl | rfl
    · obtain ⟨key, kept, -, hkept, hcontest, -, -⟩ := byHolder_eq_some hwhy
      obtain ⟨holding, hholder, hne, hall, -⟩ := holdersAmong_eq_some hkept
      obtain ⟨k, hk⟩ := exists_mem_of_ne_nil _ hne
      obtain ⟨hkcontest, hsupports⟩ := hall k hk
      exact .held (mem_contestants hcontest).2 (contends_of_contestant hkcontest) hholder hsupports
        (supersededBy_refuse (mem_live.mp (mem_contestants hkcontest).1).2 _)
    · obtain ⟨key, hkept, hcontest, -⟩ := unheld_eq_some hwhy
      refine .unheld hcontest ⟨nodup_contestants key, two_le_contestants (ne_nil_of_mem hcontest),
        fun j hj => (mem_contestants hj).2, fun j hj => ?_, fun j hj holding hholding => ?_⟩
      · rw [refuse, isSome_or, isSome_iff_ne_none.mpr (unheld_isSome hkept hj), Bool.true_or]
      · rw [hholding] at hkept
        exact holdersAmong_eq_none hkept j hj

/-! ## Holders that are not refused -/

/-- The record keeps the deployment on the endpoint, whoever is left beside it. -/
def Secure (ds : Fin n → DeploymentFacts) (holders : EndpointKey → Option EndpointHolding)
    (i : Fin n) (key : EndpointKey) : Prop :=
  ∃ h, holders key = some h ∧ (h.names (ds i).deploymentId = true ∨
    ((ds i).owner = h.owner ∧ ∀ j, j ≠ i → (ds j).claims key = true →
      Below ds j i ∨ ((ds j).owner ≠ (ds i).owner ∧ h.names (ds j).deploymentId = false)))

/-- Whom the record supports on an endpoint it contends for is secure on all of those. -/
def Firm (ds : Fin n → DeploymentFacts) (holders : EndpointKey → Option EndpointHolding) : Prop :=
  ∀ i key h, Contends ds i key → holders key = some h → h.Supports (ds i) →
    ∀ key', Contends ds i key' → Secure ds holders i key'

theorem Secure.kept (h : Secure ds holders i key) (hi : i ∈ contestants ds refused key) : ∃ kept,
      holdersAmong ds (holders key) (contestants ds refused key) = some kept ∧ i ∈ kept := by
  obtain ⟨holding, hholder, hsecure⟩ := h
  rw [hholder, holdersAmong]
  rcases hsecure with hnames | ⟨howner, hothers⟩
  · have hexact : i ∈ (contestants ds refused key).filter fun j =>
        holding.names (ds j).deploymentId := mem_filter.mpr ⟨hi, hnames⟩
    rw [if_pos (ne_nil_of_mem hexact)]
    exact ⟨_, rfl, hexact⟩
  · -- another version of the owner is lower, so that it does not contest anything beside `i`
    have hrival : ∀ j ∈ contestants ds refused key, j ≠ i →
        (ds j).owner ≠ holding.owner ∧ holding.names (ds j).deploymentId = false := by
      intro j hj hne
      obtain ⟨hjlive, hjclaims⟩ := mem_contestants hj
      obtain ⟨hilive, hiclaims⟩ := mem_contestants hi
      rcases hothers j hne hjclaims with ⟨hown, hlower⟩ | ⟨hown, hnot⟩
      · exact absurd hjlive (lower_not_active hown.symm hlower
          (sharesEndpoint_of_claims hiclaims hjclaims) hilive)
      · exact ⟨howner ▸ hown, hnot⟩
    split
    · rename_i hexact
      obtain ⟨k, hk⟩ := exists_mem_of_ne_nil _ hexact
      obtain ⟨hkin, hknames⟩ := mem_filter.mp hk
      by_cases hki : k = i
      · exact ⟨_, rfl, hki ▸ hk⟩
      · exact nomatch (hrival k hkin hki).2.symm.trans hknames
    · have hmem : i ∈ (contestants ds refused key).filter fun j => (ds j).owner = holding.owner :=
        mem_filter.mpr ⟨hi, decide_eq_true howner⟩
      have hall : ∀ j ∈ (contestants ds refused key).filter fun j =>
          (ds j).owner = holding.owner, j ∈ [i] := by
        intro j hj
        obtain ⟨hjin, hjowner⟩ := mem_filter.mp hj
        rw [mem_singleton]
        by_contra hne
        exact (hrival j hjin hne).1 (of_decide_eq_true hjowner)
      have hle := (subperm_of_subset ((nodup_contestants key).filter _) hall).length_le
      have hone : ((contestants ds refused key).filter fun j =>
          (ds j).owner = holding.owner).length = 1 :=
        Nat.le_antisymm hle (length_pos_of_mem hmem)
      rw [if_pos hone]
      exact ⟨_, rfl, hmem⟩

/-- **With a firm record a contender that the record supports is not refused.** -/
theorem supported_round (hfirm : Firm ds holders)
    (hround : round ds holders refused = some refused')
    {h : EndpointHolding} (hcontends : Contends ds i key) (hholder : holders key = some h)
    (hsupports : h.Supports (ds i)) (hi : refused i = none) : refused' i = none := by
  obtain ⟨more, rfl, -, hmore⟩ := round_eq_some hround
  have hsecure : ∀ {key}, i ∈ contestants ds refused key → ∃ kept,
      holdersAmong ds (holders key) (contestants ds refused key) = some kept ∧
        i ∈ kept := fun hcontest =>
    (hfirm i key h hcontends hholder hsupports _ (contends_of_contestant hcontest)).kept hcontest
  rw [refuse, hi, or_none]
  cases hwhy : more i with
  | none => rfl
  | some why =>
    rcases hmore with rfl | rfl
    · obtain ⟨key', kept, -, hkept, hcontest, hout, -⟩ := byHolder_eq_some hwhy
      obtain ⟨kept', hkept', hin⟩ := hsecure hcontest
      cases hkept.symm.trans hkept'
      exact absurd hin hout
    · obtain ⟨key', hkept, hcontest, -⟩ := unheld_eq_some hwhy
      obtain ⟨kept', hkept', hin⟩ := hsecure hcontest
      cases hkept.symm.trans hkept'

/-- The deployment claims an endpoint that an active one keeps by the record, or that nothing ranks
its contenders for. -/
def Justified (ds : Fin n → DeploymentFacts) (holders : EndpointKey → Option EndpointHolding)
    (refused : Fin n → Option Refusal) (i : Fin n) : Prop :=
  ∃ key, (ds i).claims key = true ∧
    ((∃ k h, verdict ds refused k = .active ∧ (ds k).claims key = true ∧
        holders key = some h ∧ h.Supports (ds k)) ∨
      ∃ contenders, i ∈ contenders ∧ Unranked ds holders refused key contenders)

/-- The deployment claims an endpoint that the record gives to a contender that is refused. -/
def LostToRefused (ds : Fin n → DeploymentFacts) (holders : EndpointKey → Option EndpointHolding)
    (refused : Fin n → Option Refusal) (i : Fin n) : Prop :=
  ∃ key k h, (ds i).claims key = true ∧ Contends ds k key ∧ holders key = some h ∧
    h.Supports (ds k) ∧ (refused k).isSome = true

/-- **The grounds of a refusal are there in the end, unless the holder was refused.** -/
theorem Grounds.justified_or (h : Grounds ds holders refused i) :
    Justified ds holders refused i ∨ LostToRefused ds holders refused i := by
  cases h with
  | @held key h k hi hk hholder hsupports hfront =>
    cases hrefused : refused k with
    | none =>
      have hactive := verdict_eq_active.mpr (mem_live.mpr ⟨hrefused, hfront⟩)
      exact .inl ⟨key, hi, .inl ⟨k, h, hactive, hk.1, hholder, hsupports⟩⟩
    | some why => exact .inr ⟨key, k, h, hi, hk, hholder, hsupports, by rw [hrefused]; rfl⟩
  | unheld hi hunranked => exact .inl ⟨_, hunranked.claims i hi, .inr ⟨_, hi, hunranked⟩⟩

end Sutra.Deploy
