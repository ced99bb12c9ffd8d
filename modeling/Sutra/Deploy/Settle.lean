import Mathlib
import Sutra.Lib.Rounds
import Sutra.Lib.SortedMap
import Sutra.Deploy.Version

/-!
# Settling the endpoints of a set of deployments

A set of deployments is decided at once. Of two versions of one owner on one endpoint the lower is
superseded. On an endpoint that several owners want, the record of holders says who keeps it and
the others are refused.

* `round`: a refused version supersedes nothing, so the decision is taken in rounds.
-/

namespace Sutra.Deploy

/-! ## What a deployment claims -/

/-- How many deployments may hold one endpoint. -/
inductive EndpointSharing where
  | exclusive
  | broadcast
  | exclusiveToNewDeployments (remedy : String)
  deriving DecidableEq

/-- One inbound endpoint of a channel on its transport. -/
structure EndpointClaim where
  identity : String
  sharing : EndpointSharing

/-- One endpoint: its transport and its identity there, ordered in this order. -/
abbrev EndpointKey := String ×ₗ String

structure DeclaredEndpoint where
  transport : String
  claim : EndpointClaim

def DeclaredEndpoint.key (e : DeclaredEndpoint) : EndpointKey :=
  toLex (e.transport, e.claim.identity)

structure DeploymentFacts where
  deploymentId : String
  label : String
  owner : String
  version : String
  slot : String
  endpoints : List DeclaredEndpoint

structure EndpointHolding where
  owner : String
  deploymentId : String
  label : String
  alsoHeldBy : List String

def EndpointHolding.names (h : EndpointHolding) (id : String) : Bool :=
  h.deploymentId == id || h.alsoHeldBy.contains id

namespace DeploymentFacts

def claims (d : DeploymentFacts) (key : EndpointKey) : Bool := d.endpoints.any fun e => e.key = key

def claimsAlone (d : DeploymentFacts) (key : EndpointKey) : Bool :=
  d.endpoints.any fun e => e.key = key && e.claim.sharing ≠ .broadcast

def sharesEndpoint (a b : DeploymentFacts) : Bool :=
  a.endpoints.any fun e => b.endpoints.any fun o => o.key = e.key

end DeploymentFacts

/-! ## The verdicts -/

inductive Refusal where
  | held (key : EndpointKey) (holder label slot : String)
  /-- Nothing records which of the claimants holds the endpoint. -/
  | unheld (key : EndpointKey) (named : List (String × String))
  deriving DecidableEq

/-- What became of one deployment. -/
inductive SettledClaim where
  | active
  /-- Higher versions of its owner serve an endpoint of its; these are their labels. -/
  | superseded (labels : List String)
  | refused (why : Refusal)
  deriving DecidableEq

section Settle

variable {n : Nat} (candidates : Fin n → DeploymentFacts)
  (holders : EndpointKey → Option EndpointHolding)

/-- Reduce the claimants of an endpoint to those who cannot all stay. -/
def narrowToContest (key : EndpointKey) (claimants : List (Fin n)) : List (Fin n) :=
  if claimants.length < 2 then []
  else if claimants.any fun i => (candidates i).claimsAlone key then claimants
  else claimants.filter fun i =>
    1 < (claimants.filter fun j => (candidates j).owner = (candidates i).owner).length

def holdersAmong (holder : Option EndpointHolding) (claimants : List (Fin n)) :
    Option (List (Fin n)) :=
  match holder with
  | none => none
  | some h =>
    let exact := claimants.filter fun i => h.names (candidates i).deploymentId
    if exact ≠ [] then some exact
    else
      let ofOwner := claimants.filter fun i => (candidates i).owner = h.owner
      if ofOwner.length = 1 then some ofOwner else none

variable (refused : Fin n → Option Refusal)

def outranks (j i : Fin n) : Bool :=
  j ≠ i && (refused j).isNone && (candidates j).owner = (candidates i).owner &&
    compareDeploymentVersions (candidates j).version (candidates i).version = .gt &&
    (candidates j).sharesEndpoint (candidates i)

def supersededBy (i : Fin n) : List String :=
  ((List.finRange n).filter fun j => outranks candidates refused j i).map fun j =>
    (candidates j).label

def live : List (Fin n) :=
  (List.finRange n).filter fun i =>
    (refused i).isNone && (supersededBy candidates refused i).isEmpty

/-- Those of them that cannot all stay on an endpoint. -/
def contestants (key : EndpointKey) : List (Fin n) :=
  narrowToContest candidates key
    ((live candidates refused).filter fun i => (candidates i).claims key)

def claimedKeys : List EndpointKey :=
  (SortedMap.ofList ((live candidates refused).flatMap fun i =>
    (candidates i).endpoints.map fun e => (e.key, ()))).entries.map Prod.fst

def contested : List EndpointKey :=
  (claimedKeys candidates refused).filter fun key => contestants candidates refused key ≠ []

def byHolder (i : Fin n) : Option Refusal :=
  (contested candidates refused).findSome? fun key =>
    match holdersAmong candidates (holders key) (contestants candidates refused key) with
    | some kept =>
      if i ∈ contestants candidates refused key ∧ i ∉ kept then
        some (.held key (((holders key).map (·.label)).getD "") (candidates i).label
          (candidates i).slot)
      else none
    | none => none

def unheld (i : Fin n) : Option Refusal :=
  (contested candidates refused).findSome? fun key =>
    match holdersAmong candidates (holders key) (contestants candidates refused key) with
    | some _ => none
    | none =>
      if i ∈ contestants candidates refused key then
        some (.unheld key ((contestants candidates refused key).map fun j =>
          ((candidates j).label, (candidates j).slot)))
      else none

def refuse (more : Fin n → Option Refusal) : Fin n → Option Refusal :=
  fun i => (more i).or (refused i)

def round : Option (Fin n → Option Refusal) :=
  if (List.finRange n).any fun i => (byHolder candidates holders refused i).isSome then
    some (refuse refused (byHolder candidates holders refused))
  else if (List.finRange n).any fun i => (unheld candidates holders refused i).isSome then
    some (refuse refused (unheld candidates holders refused))
  else none

def verdict (i : Fin n) : SettledClaim :=
  match refused i with
  | some why => .refused why
  | none =>
    match supersededBy candidates refused i with
    | [] => .active
    | label :: labels => .superseded (label :: labels)

/-- **Decide the whole set.** -/
def settleClaims : Option (Fin n → SettledClaim) :=
  (Rounds.settle (round candidates holders) (n + 1) fun _ => none).map (verdict candidates)

end Settle

end Sutra.Deploy
