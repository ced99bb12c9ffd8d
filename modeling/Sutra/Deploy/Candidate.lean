import Sutra.Deploy.Settle

/-!
# The check of one candidate

A candidate is judged against the active deployments before anything changes. On an endpoint that
some claim keeps for one owner, every later deployment of another owner collides with the *first*
claimant (`collisionsAt`). Nobody is compared with the second claimant, so where the candidate's
own owner came first and somebody else already shares the endpoint, nothing is reported
(`upgrade_not_reported`).

* `evaluateCandidate_ne_nil_iff`: a collision is reported exactly for an endpoint on which the first
  claimant is another owner.
* `deploy_check_exact`: for which lists, and for which sets in every order, the verdict is right.
-/

namespace Sutra.Deploy

open List

/-- A declared endpoint with the deployment that declares it. -/
abbrev Claimed := DeploymentFacts × DeclaredEndpoint

/-- What is reported: the endpoint, who is there and who wants it. -/
structure EndpointCollision where
  key : EndpointKey
  holderLabel : String
  claimantLabel : String
  deriving DecidableEq

/-- The later claimants of an endpoint against its first one, each deployment reported once. -/
def reportAgainst (holder : Claimed) : List Claimed → List String → List EndpointCollision
  | [], _ => []
  | c :: rest, reported =>
    if c.1.deploymentId ∈ reported ∨ c.1.owner = holder.1.owner then
      reportAgainst holder rest reported
    else ⟨c.2.key, holder.1.label, c.1.label⟩ ::
      reportAgainst holder rest (c.1.deploymentId :: reported)

/-- The collisions on one endpoint; broadcast claims do not collide among themselves. -/
def collisionsAt : List Claimed → List EndpointCollision
  | [] => []
  | holder :: rest =>
    if (holder :: rest).all fun c => c.2.claim.sharing = .broadcast then []
    else reportAgainst holder rest [holder.1.deploymentId]

/-- All claims, in the order of the deployments. -/
def claimsOf (ds : List DeploymentFacts) : List Claimed :=
  ds.flatMap fun d => d.endpoints.map fun e => (d, e)

/-- The claims on one endpoint. -/
def claimsAt (ds : List DeploymentFacts) (key : EndpointKey) : List Claimed :=
  (claimsOf ds).filter fun c => c.2.key = key

/-- **The collisions of a list of deployments**, endpoint by endpoint in key order. -/
def findEndpointCollisions (ds : List DeploymentFacts) : List EndpointCollision :=
  ((SortedMap.ofList ((claimsOf ds).map fun c => (c.2.key, ()))).entries.map Prod.fst).flatMap
    fun key => collisionsAt (claimsAt ds key)

/-- **The collisions of a candidate.**  It comes last, so that it is the claimant. -/
def evaluateCandidate (candidate : DeploymentFacts) (others : List DeploymentFacts) :
    List EndpointCollision :=
  (findEndpointCollisions (others ++ [candidate])).filter fun c => c.claimantLabel = candidate.label

/-- Some claim on the endpoint is not broadcast. -/
def Exclusive (ds : List DeploymentFacts) (key : EndpointKey) : Prop :=
  ∃ c ∈ claimsAt ds key, c.2.claim.sharing ≠ .broadcast

/-- **What a collision is**: another owner is on an exclusive endpoint of the candidate. -/
def Collides (d : DeploymentFacts) (os : List DeploymentFacts) : Prop :=
  ∃ key, d.claims key ∧ (∃ o ∈ os, o.owner ≠ d.owner ∧ o.claims key) ∧ Exclusive (os ++ [d]) key

/-- On some exclusive endpoint of the candidate the first claimant has another owner. -/
def LedByOther (d : DeploymentFacts) (os : List DeploymentFacts) : Prop :=
  ∃ key, d.claims key ∧ Exclusive (os ++ [d]) key ∧
    ∃ first ∈ (claimsAt os key).head?, first.1.owner ≠ d.owner

/-- On some exclusive endpoint of the candidate there are claimants, and all have other owners. -/
def LeftToOthers (d : DeploymentFacts) (os : List DeploymentFacts) : Prop :=
  ∃ key, d.claims key ∧ Exclusive (os ++ [d]) key ∧ (∃ o ∈ os, o.claims key) ∧
    ∀ o ∈ os, o.claims key → o.owner ≠ d.owner

variable {d : DeploymentFacts} {os : List DeploymentFacts} {holder : Claimed}
  {l : List Claimed} {reported : List String} {key : EndpointKey}

/-- The deployment's id and its label are its own. -/
def Told (d : DeploymentFacts) (ds : List DeploymentFacts) : Prop :=
  ∀ o ∈ ds, o.deploymentId = d.deploymentId ∨ o.label = d.label → o = d

theorem mem_reportAgainst (h : Told d (l.map Prod.fst)) :
    d.label ∈ (reportAgainst holder l reported).map (·.claimantLabel) ↔
      d.deploymentId ∉ reported ∧ d.owner ≠ holder.1.owner ∧ d ∈ l.map Prod.fst := by
  induction l generalizing reported with
  | nil => simp [reportAgainst]
  | cons c rest ih =>
    have hc := h c.1 (.head _)
    have hrest : Told d (rest.map Prod.fst) := fun o ho => h o (.tail _ ho)
    rw [reportAgainst, map_cons, mem_cons]
    split
    · rw [ih hrest]
      grind
    · rw [map_cons, mem_cons, ih hrest, mem_cons]
      grind

theorem mem_collisionsAt (h : Told d (l.map Prod.fst)) :
    d.label ∈ (collisionsAt l).map (·.claimantLabel) ↔
      (∃ c ∈ l, c.2.claim.sharing ≠ .broadcast) ∧ d ∈ l.map Prod.fst ∧
        ∃ first ∈ l.head?, first.1.owner ≠ d.owner := by
  cases l with
  | nil => simp [collisionsAt]
  | cons holder rest =>
    have hc := h holder.1 (.head _)
    have hrest : Told d (rest.map Prod.fst) := fun o ho => h o (.tail _ ho)
    rw [collisionsAt]
    split
    · grind
    · rw [mem_reportAgainst hrest, map_cons, mem_cons]
      grind

theorem mem_claimsAt {ds : List DeploymentFacts} {e : DeclaredEndpoint} :
    (d, e) ∈ claimsAt ds key ↔ d ∈ ds ∧ e ∈ d.endpoints ∧ e.key = key := by
  simp [claimsAt, claimsOf, and_assoc]

theorem mem_map_claimsAt {ds : List DeploymentFacts} :
    d ∈ (claimsAt ds key).map Prod.fst ↔ d ∈ ds ∧ d.claims key := by
  simp [mem_claimsAt, DeploymentFacts.claims]

theorem evaluateCandidate_ne_nil : evaluateCandidate d os ≠ [] ↔
    ∃ key, d.label ∈ (collisionsAt (claimsAt (os ++ [d]) key)).map (·.claimantLabel) := by
  rw [evaluateCandidate, ne_eq, filter_eq_nil_iff, findEndpointCollisions]
  simp only [mem_flatMap, mem_map, decide_eq_true_eq]
  constructor
  · grind
  · rintro ⟨key, x, hx, hlabel⟩ hnone
    refine hnone x ⟨key, mem_map.mp ?_, hx⟩ hlabel
    cases hl : claimsAt (os ++ [d]) key with
    | nil => rw [hl] at hx; cases hx
    | cons c rest =>
      obtain ⟨hc, hkey⟩ := mem_filter.mp (hl ▸ mem_cons_self : c ∈ claimsAt (os ++ [d]) key)
      rw [← of_decide_eq_true hkey]
      exact SortedMap.mem_keys_ofList (mem_map.mpr ⟨c, hc, rfl⟩)

theorem claimsAt_append (os tail : List DeploymentFacts) (key : EndpointKey) :
    claimsAt (os ++ tail) key = claimsAt os key ++ claimsAt tail key := by
  simp [claimsAt, claimsOf]

/-- Where a deployment of the first part claims the endpoint, the first claimant is one of them. -/
theorem head_claimsAt (tail : List DeploymentFacts) (h : ∃ o ∈ os, o.claims key) :
    ∃ first ∈ (claimsAt (os ++ tail) key).head?, first.1 ∈ os ∧ first.1.claims key := by
  obtain ⟨o, ho, hclaims⟩ := h
  have hmem := mem_map_claimsAt.mpr ⟨ho, hclaims⟩
  rw [claimsAt_append]
  cases hl : claimsAt os key with
  | nil => rw [hl] at hmem; cases hmem
  | cons first rest =>
    exact ⟨first, rfl, mem_map_claimsAt.mp (mem_map_of_mem (hl ▸ mem_cons_self))⟩

theorem claims_of_head {first : Claimed} (h : first ∈ (claimsAt os key).head?) :
    first.1 ∈ os ∧ first.1.claims key :=
  mem_map_claimsAt.mp (mem_map_of_mem (mem_of_mem_head? h))

/-- **When a collision is reported.** -/
theorem evaluateCandidate_ne_nil_iff (h : Told d os) :
    evaluateCandidate d os ≠ [] ↔ LedByOther d os := by
  have htold : ∀ key, Told d ((claimsAt (os ++ [d]) key).map Prod.fst) := by
    intro key o ho hsame
    rcases mem_append.mp (mem_map_claimsAt.mp ho).1 with ho | ho
    · exact h o ho hsame
    · exact mem_singleton.mp ho
  rw [evaluateCandidate_ne_nil]
  refine exists_congr fun key => ?_
  rw [mem_collisionsAt (htold key), mem_map_claimsAt, claimsAt_append]
  have hmem : d ∈ os ++ [d] := mem_append_right _ (.head _)
  cases hl : claimsAt os key with
  | cons first rest =>
    simp only [cons_append, head?_cons]
    grind [Exclusive, claimsAt_append]
  | nil =>
    -- nobody is there but the candidate
    refine iff_of_false ?_ (by simp)
    rintro ⟨-, -, first, hfirst, howner⟩
    rw [nil_append] at hfirst
    exact howner (congrArg _ (mem_singleton.mp (claims_of_head hfirst).1))

theorem LedByOther.collides (h : LedByOther d os) : Collides d os := by
  obtain ⟨key, hmine, halone, first, hfirst, howner⟩ := h
  obtain ⟨hmem, hclaims⟩ := claims_of_head hfirst
  exact ⟨key, hmine, ⟨_, hmem, howner, hclaims⟩, halone⟩

theorem LeftToOthers.ledByOther (h : LeftToOthers d os) : LedByOther d os := by
  obtain ⟨key, hmine, halone, hthere, hothers⟩ := h
  obtain ⟨first, hfirst, hmem, hclaims⟩ := head_claimsAt [] hthere
  rw [append_nil] at hfirst
  exact ⟨key, hmine, halone, first, hfirst, hothers _ hmem hclaims⟩

theorem collides_perm {os' : List DeploymentFacts} (hperm : os'.Perm os) :
    Collides d os' ↔ Collides d os := by
  simp only [Collides, Exclusive, Prod.exists, mem_claimsAt, mem_append, hperm.mem_iff]

theorem leftToOthers_perm {os' : List DeploymentFacts} (hperm : os'.Perm os) :
    LeftToOthers d os' ↔ LeftToOthers d os := by
  simp only [LeftToOthers, Exclusive, Prod.exists, mem_claimsAt, mem_append, hperm.mem_iff]

/-- With the deployments of the candidate's owner listed first, only an endpoint that is left to the
others has a first claimant of another owner. -/
theorem leftToOthers_of_ownFirst
    (h : LedByOther d (os.filter (·.owner = d.owner) ++ os.filter fun o => !(o.owner = d.owner))) :
    LeftToOthers d os := by
  have hperm := filter_append_perm (fun o : DeploymentFacts => decide (o.owner = d.owner)) os
  obtain ⟨key, hmine, halone, first, hfirst, howner⟩ := h
  refine (leftToOthers_perm hperm).mp ⟨key, hmine, halone, ⟨_, claims_of_head hfirst⟩, ?_⟩
  intro o ho hclaims hown
  have hamong : o ∈ os.filter (·.owner = d.owner) :=
    mem_filter.mpr ⟨hperm.mem_iff.mp ho, decide_eq_true hown⟩
  obtain ⟨first', hfirst', hmem, -⟩ := head_claimsAt (os.filter fun o => !(o.owner = d.owner))
    ⟨o, hamong, hclaims⟩
  cases Option.some.inj (hfirst.symm.trans hfirst')
  exact howner (of_decide_eq_true (mem_filter.mp hmem).2)

/-- **When the deploy check is exact.**  On one list it is unless a collision has the candidate's
owner as the first claimant of every endpoint that collides; in every order of the list it is unless
the candidate's owner is on every such endpoint. It never reports what is no collision. -/
theorem deploy_check_exact (candidate : DeploymentFacts) (others : List DeploymentFacts)
    (h : Told candidate others) :
    (evaluateCandidate candidate others ≠ [] → Collides candidate others) ∧
    ((evaluateCandidate candidate others ≠ [] ↔ Collides candidate others) ↔
      (Collides candidate others → LedByOther candidate others)) ∧
    ((∀ others' : List DeploymentFacts, others'.Perm others →
        (evaluateCandidate candidate others' ≠ [] ↔ Collides candidate others)) ↔
      (Collides candidate others → LeftToOthers candidate others)) := by
  have htold : ∀ {others' : List DeploymentFacts}, others'.Perm others →
      Told candidate others' := fun hperm o ho => h o (hperm.mem_iff.mp ho)
  rw [evaluateCandidate_ne_nil_iff h]
  refine ⟨LedByOther.collides, ⟨Iff.mpr, fun hled => ⟨LedByOther.collides, hled⟩⟩, ?_⟩
  constructor
  · intro hall hcollides
    have hperm := filter_append_perm
      (fun o : DeploymentFacts => decide (o.owner = candidate.owner)) others
    exact leftToOthers_of_ownFirst
      ((evaluateCandidate_ne_nil_iff (htold hperm)).mp ((hall _ hperm).mpr hcollides))
  · intro hleft others' hperm
    rw [evaluateCandidate_ne_nil_iff (htold hperm), ← collides_perm hperm]
    rw [← collides_perm hperm, ← leftToOthers_perm hperm] at hleft
    exact ⟨LedByOther.collides, fun hcollides => (hleft hcollides).ledByOther⟩

/-- A deployment with one exclusive endpoint. -/
def onOrders (id owner : String) : DeploymentFacts :=
  ⟨id, id, owner, "1", id, [⟨"rest", ⟨"/orders", .exclusive⟩⟩]⟩

/-- The collision of `b1` with two versions of another owner is reported in both orders. -/
theorem orders_collide :
    evaluateCandidate (onOrders "b1" "b") [onOrders "a1" "a", onOrders "a2" "a"] ≠ [] ∧
      evaluateCandidate (onOrders "b1" "b") [onOrders "a2" "a", onOrders "a1" "a"] ≠ [] := by
  have hleft : LeftToOthers (onOrders "b1" "b") [onOrders "a1" "a", onOrders "a2" "a"] :=
    ⟨toLex ("rest", "/orders"), by decide, ⟨_, .head _, by decide⟩, ⟨_, .head _, by decide⟩,
      by decide⟩
  have htold : Told (onOrders "b1" "b") [onOrders "a1" "a", onOrders "a2" "a"] := by
    intro o ho hsame
    simp only [mem_cons, not_mem_nil, or_false] at ho
    rcases ho with rfl | rfl <;> exact absurd hsame (by decide)
  have h := (deploy_check_exact _ _ htold).2.2.mpr fun _ => hleft
  exact ⟨(h _ (.refl _)).mpr hleft.ledByOther.collides,
    (h _ (.swap ..)).mpr hleft.ledByOther.collides⟩

/-- With an earlier version of its own first, the candidate takes an endpoint that another owner is
on. -/
theorem upgrade_not_reported :
    evaluateCandidate (onOrders "a2" "a") [onOrders "a1" "a", onOrders "b1" "b"] = [] ∧
      evaluateCandidate (onOrders "a2" "a") [onOrders "b1" "b", onOrders "a1" "a"] ≠ [] := by
  decide

end Sutra.Deploy
