import Sutra.Ack.Registry
import Sutra.Lib.Run

/-!
# Deliveries that are settled when their instance is over

The dispatch of a delivery in the mode `on-complete` puts its callbacks into a slot. A handler that
parks its instance takes them out, registers them, and commits; when the commit fails it withdraws
them. A synchronous chain takes the callbacks along.

* `settled_exactly_once`: under `Clean` a delivery is settled exactly once.
* `settled_twice`: an error of a later handler of a broadcast fails the whole dispatch although an
  earlier one may have committed.
-/

namespace Sutra.Ack

open List Function Registry

/-! ## The state -/

inductive Told where
  /-- To settle the delivery itself, from the outcome or the error. -/
  | settled
  /-- Not to settle it. -/
  | deferred (inst : String)
  deriving DecidableEq

/-- How far a delivery has come. -/
inductive Dispatch where
  | fresh
  /-- Between two handlers: the callbacks are in the slot, the instance of the last outcome, how
  many handlers are left, and whether there are several. -/
  | running (slot : Bool) (last : Option String) (left : Nat) (fanOut : Bool)
  | parking (slot : Bool) (inst : String) (left : Nat) (fanOut : Bool) (registered : Bool)
  | chain (settle : Bool) (inst : String)
  | chainParking (inst : String) (registered : Bool)
  | told (t : Told)
  deriving DecidableEq

/-- Why a callback fired. -/
inductive Cause where
  /-- A terminal event of the instance. -/
  | ended
  | timedOut
  | evicted
  deriving DecidableEq

structure Fire where
  delivery : String
  instanceId : String
  ack : Bool
  cause : Cause
  deriving DecidableEq

structure World where
  now : Nat
  entries : Registry
  deliveries : String → Dispatch
  fired : List Fire
  /-- The ids that were given to instances. -/
  used : String → Bool
  committed : String → Bool
  /-- A terminal event of the instance was published. -/
  ended : String → Bool

namespace World

def initial : World where
  now := 0
  entries := []
  deliveries := fun _ => .fresh
  fired := []
  used := fun _ => false
  committed := fun _ => false
  ended := fun _ => false

def setDelivery (a : World) (d : String) (s : Dispatch) : World :=
  { a with deliveries := update a.deliveries d s }

def use (a : World) (inst : String) : World :=
  { a with used := update a.used inst true }

def setCommitted (a : World) (inst : String) (b : Bool) : World :=
  { a with committed := update a.committed inst b }

def fire (a : World) (cause : Cause) (ack : Bool) (ps : List Pending) : World :=
  { a with fired := a.fired ++ ps.map fun p => ⟨p.delivery, p.instanceId, ack, cause⟩ }

/-- Register the callbacks of a delivery. The callbacks of one that is refused are dropped. -/
def register (a : World) (c : Config) (inst d : String) : World :=
  match a.entries.register c ⟨inst, d, a.now⟩ with
  | none => a
  | some (r, evicted) => { a with entries := r }.fire .evicted false evicted.toList

/-- Take the callbacks of an instance back, without firing them. -/
def withdraw (a : World) (inst : String) : World :=
  { a with entries := (a.entries.remove inst).1 }

def settle (a : World) (inst : String) (ok : Bool) : World :=
  { a.withdraw inst with ended := update a.ended inst true }.fire .ended ok
    (a.entries.remove inst).2.toList

/-- The callbacks that have waited for too long. -/
def sweepTimeouts (a : World) (c : Config) : World :=
  { a with entries := (a.entries.sweep c a.now).1 }.fire .timedOut false
    (a.entries.sweep c a.now).2

end World

theorem World.register_setDelivery (a : World) (c : Config) (inst d : String) (s s' : Dispatch) :
    ((a.setDelivery d s).register c inst d).setDelivery d s' =
      (a.register c inst d).setDelivery d s' := by
  have hidem : update (update a.deliveries d s) d s' = update a.deliveries d s' := update_idem _ _ _
  simp only [World.register, World.setDelivery]
  split
  · simp only [hidem]
  · simp only [World.fire, hidem]

/-! ## The steps -/

/-- What can happen. -/
inductive Event where
  | tick (dt : Nat)
  | begin (d : String)
  | ran (d : String)
  | pass (d : String)
  | reject (d : String)
  | park (d : String)
  | commit (d : String)
  | commitFail (d : String)
  | finish (d : String)
  | chain (d : String)
  | chainEnd (d : String)
  | chainPark (d : String)
  | terminal (inst : String) (ok : Bool)
  | sweep

/-- **One atomic step.** -/
inductive Step (c : Config) : World → Event → World → Prop where
  | tick {a : World} (dt : Nat) : Step c a (.tick dt) { a with now := a.now + dt }
  | begin {a : World} (d : String) (more : Nat) (hnew : a.deliveries d = .fresh) :
      Step c a (.begin d) (a.setDelivery d (.running true none (more + 1) (0 < more)))
  /-- A handler runs its instance to the end. -/
  | ran {a : World} (d inst : String) (slot fanOut ok : Bool) (last : Option String) (left : Nat)
      (hd : a.deliveries d = .running slot last (left + 1) fanOut)
      (hnew : a.used inst = false) :
      Step c a (.ran d)
        (((a.use inst).settle inst ok).setDelivery d (.running slot (some inst) left fanOut))
  /-- A relay, a duplicate, a hand-over or a dead letter; the outcome may name an instance. -/
  | pass {a : World} (d : String) (slot fanOut : Bool) (last last' : Option String) (left : Nat)
      (hd : a.deliveries d = .running slot last (left + 1) fanOut) :
      Step c a (.pass d) (a.setDelivery d (.running slot last' left fanOut))
  | reject {a : World} (d : String) (slot fanOut : Bool) (last : Option String) (left : Nat)
      (hd : a.deliveries d = .running slot last (left + 1) fanOut) :
      Step c a (.reject d) (a.setDelivery d (.told .settled))
  /-- A handler comes to a wait, and takes the callbacks that are in the slot. -/
  | park {a : World} (d inst : String) (slot fanOut : Bool) (last : Option String) (left : Nat)
      (hd : a.deliveries d = .running slot last (left + 1) fanOut)
      (hnew : a.used inst = false) (htake : (c.wired && slot) = true) :
      Step c a (.park d)
        (((a.use inst).register c inst d).setDelivery d (.parking false inst left fanOut true))
  | parkPlain {a : World} (d inst : String) (slot fanOut : Bool) (last : Option String) (left : Nat)
      (hd : a.deliveries d = .running slot last (left + 1) fanOut)
      (hnew : a.used inst = false) (htake : (c.wired && slot) = false) :
      Step c a (.park d) ((a.use inst).setDelivery d (.parking slot inst left fanOut false))
  | commit {a : World} (d inst : String) (slot fanOut registered : Bool) (left : Nat)
      (hd : a.deliveries d = .parking slot inst left fanOut registered) :
      Step c a (.commit d)
        ((a.setCommitted inst true).setDelivery d (.running slot (some inst) left fanOut))
  | commitFail {a : World} (d inst : String) (slot fanOut registered durable : Bool) (left : Nat)
      (hd : a.deliveries d = .parking slot inst left fanOut registered) :
      Step c a (.commitFail d)
        (((if registered then a.withdraw inst else a).setCommitted inst durable).setDelivery d
          (.told .settled))
  | finish {a : World} (d : String) (slot fanOut : Bool) (last : Option String)
      (hd : a.deliveries d = .running slot last 0 fanOut) :
      Step c a (.finish d)
        (a.setDelivery d (.told (if slot then .settled else .deferred (last.getD ""))))
  /-- A handler that is the only one starts a synchronous chain. -/
  | chain {a : World} (d inst : String) (slot : Bool) (last : Option String) (left : Nat)
      (hd : a.deliveries d = .running slot last (left + 1) false)
      (hnew : a.used inst = false) :
      Step c a (.chain d) ((a.use inst).setDelivery d (.chain (c.wired && slot) inst))
  | chainEnd {a : World} (d inst : String) (settle ok : Bool)
      (hd : a.deliveries d = .chain settle inst) :
      Step c a (.chainEnd d) ((a.settle inst ok).setDelivery d (.told .settled))
  | chainAbort {a : World} (d inst : String) (settle : Bool)
      (hd : a.deliveries d = .chain settle inst) :
      Step c a (.chainEnd d) (a.setDelivery d (.told .settled))
  | chainPark {a : World} (d inst : String) (settle : Bool)
      (hd : a.deliveries d = .chain settle inst) :
      Step c a (.chainPark d)
        ((if settle then a.register c inst d else a).setDelivery d (.chainParking inst settle))
  | chainCommit {a : World} (d inst : String) (registered : Bool)
      (hd : a.deliveries d = .chainParking inst registered) :
      Step c a (.commit d)
        ((a.setCommitted inst true).setDelivery d
          (.told (if registered then .deferred inst else .settled)))
  | chainCommitFail {a : World} (d inst : String) (registered durable : Bool)
      (hd : a.deliveries d = .chainParking inst registered) :
      Step c a (.commitFail d)
        (((if registered then a.withdraw inst else a).setCommitted inst durable).setDelivery d
          (.told .settled))
  | terminal {a : World} (inst : String) (ok : Bool) (hparked : a.committed inst = true) :
      Step c a (.terminal inst ok) (a.settle inst ok)
  | sweep {a : World} : Step c a .sweep (a.sweepTimeouts c)

/-! ## The condition -/

/-- The callbacks of the delivery are still in the slot. -/
def Dispatch.slotted : Dispatch → Bool
  | .running slot _ _ _ => slot
  | _ => true

/-- A step of a delivery that is settled once. -/
def Clean (c : Config) (a : World) : Event → Prop
  | .ran d | .pass d | .reject d | .chain d => (a.deliveries d).slotted = true
  | .park d => (a.deliveries d).slotted = true ∧ a.entries.full c = false
  | .chainPark _ => a.entries.full c = false
  | .sweep =>
    ∀ p ∈ a.entries, Registry.timedOut c a.now p = true → a.committed p.instanceId = true
  | _ => True

def CleanStep (c : Config) (a : World) (e : Event) (b : World) : Prop := Step c a e b ∧ Clean c a e

/-! ## The invariant -/

namespace Dispatch

/-- The instance that the callbacks of the delivery wait for, or waited for. -/
def placed : Dispatch → Option String
  | .running false last _ _ => last
  | .told (.deferred inst) => some inst
  | _ => none

/-- The instance that the callbacks are registered for, while its park is being committed. -/
def held : Dispatch → Option String
  | .parking _ inst _ _ true => some inst
  | .chainParking inst true => some inst
  | _ => none

def minted : Dispatch → Option String
  | .parking _ inst _ _ _ => some inst
  | .chain _ inst => some inst
  | .chainParking inst _ => some inst
  | _ => none

def Neat : Dispatch → Prop
  | .running false last _ _ => last.isSome = true
  | .parking slot _ _ _ registered => slot = !registered
  | _ => True

theorem minted_of_held {s : Dispatch} {inst : String} (h : s.held = some inst) :
    s.minted = some inst := by
  match s, h with
  | .parking _ _ _ _ true, h => exact h
  | .chainParking _ true, h => exact h

theorem placed_of_held {s : Dispatch} {inst : String} (h : s.held = some inst) :
    s.placed = none := by
  match s, h with
  | .parking _ _ _ _ true, _ => rfl
  | .chainParking _ true, _ => rfl

end Dispatch

def World.Placed (a : World) (d inst : String) : Prop :=
  (∃ p ∈ a.entries, p.delivery = d ∧ p.instanceId = inst) ∨
    ∃ f ∈ a.fired, f.delivery = d ∧ f.instanceId = inst

/-- What holds between two steps. -/
structure Sound (a : World) : Prop where
  distinct : a.entries.Distinct
  entryUsed : ∀ p ∈ a.entries, a.used p.instanceId = true
  entryEnded : ∀ p ∈ a.entries, a.ended p.instanceId = false
  entryOf : ∀ p ∈ a.entries, (a.deliveries p.delivery).held = some p.instanceId ∨
    (a.deliveries p.delivery).placed = some p.instanceId
  fireOf : ∀ f ∈ a.fired, f.cause ≠ .evicted ∧
    (a.deliveries f.delivery).placed = some f.instanceId
  once : (a.fired.map Fire.delivery).Nodup
  apart : ∀ p ∈ a.entries, ∀ f ∈ a.fired, p.delivery ≠ f.delivery
  placed : ∀ d inst, (a.deliveries d).placed = some inst →
    a.committed inst = true ∧ a.Placed d inst
  held : ∀ d inst, (a.deliveries d).held = some inst →
    ∃ p ∈ a.entries, p.delivery = d ∧ p.instanceId = inst
  minted : ∀ d inst, (a.deliveries d).minted = some inst →
    a.used inst = true ∧ a.committed inst = false ∧ a.ended inst = false
  mintedOnce : ∀ d d' inst, (a.deliveries d).minted = some inst →
    (a.deliveries d').minted = some inst → d = d'
  committedUsed : ∀ inst, a.committed inst = true → a.used inst = true
  endedUsed : ∀ inst, a.ended inst = true → a.used inst = true
  neat : ∀ d, (a.deliveries d).Neat

namespace Sound

variable {c : Config} {a b : World} {d inst : String} {s : Dispatch}

theorem initial : Sound .initial where
  distinct := nodup_nil
  entryUsed _ h := nomatch h
  entryEnded _ h := nomatch h
  entryOf _ h := nomatch h
  fireOf _ h := nomatch h
  once := nodup_nil
  apart _ h := nomatch h
  placed _ _ h := nomatch h
  held _ _ h := nomatch h
  minted _ _ h := nomatch h
  mintedOnce _ _ _ h := nomatch h
  committedUsed _ h := nomatch h
  endedUsed _ h := nomatch h
  neat _ := trivial

theorem tick (h : Sound a) (dt : Nat) : Sound { a with now := a.now + dt } := { h with }

/-- An instance that is in memory only has no entry, unless its park is being committed. -/
theorem no_entry (h : Sound a) (hminted : (a.deliveries d).minted = some inst)
    (hheld : (a.deliveries d).held = none) : a.entries.has inst = false := by
  refine has_eq_false.mpr fun p hp hinst => ?_
  subst hinst
  rcases h.entryOf p hp with hp' | hp'
  · rw [h.mintedOnce _ _ _ (Dispatch.minted_of_held hp') hminted, hheld] at hp'
    cases hp'
  · have hcommitted := (h.placed _ _ hp').1
    rw [(h.minted _ _ hminted).2.1] at hcommitted
    cases hcommitted

theorem not_minted_of_unused (h : Sound a) (hnew : a.used inst = false) (d : String) :
    (a.deliveries d).minted ≠ some inst := fun hminted =>
  Bool.noConfusion ((h.minted d inst hminted).1.symm.trans hnew)

theorem deliveries_ne {x : String} (hx : x ≠ d) :
    (a.setDelivery d s).deliveries x = a.deliveries x := update_of_ne hx _ _

theorem deliveries_self : (a.setDelivery d s).deliveries d = s := update_self _ _ _

theorem deliveries_cases {P : Dispatch → Prop} {x : String}
    (h : P ((a.setDelivery d s).deliveries x)) : (x = d ∧ P s) ∨ (x ≠ d ∧ P (a.deliveries x)) :=
  update_cases P h

theorem deliveries_none {f : Dispatch → Option String} (hs : f s = none) {x i : String}
    (h : f ((a.setDelivery d s).deliveries x) = some i) : x ≠ d ∧ f (a.deliveries x) = some i := by
  rcases deliveries_cases (P := fun t => f t = some i) h with ⟨-, hi⟩ | hi
  · rw [hs] at hi
    cases hi
  · exact hi

theorem deliveries_eq {β : Type} {f : Dispatch → β} (hs : f s = f (a.deliveries d)) (x : String) :
    f ((a.setDelivery d s).deliveries x) = f (a.deliveries x) := by
  by_cases hx : x = d
  · rw [hx, deliveries_self, hs]
  · rw [deliveries_ne hx]

theorem neat_setDelivery (h : ∀ x, (a.deliveries x).Neat) (hneat : s.Neat) (x : String) :
    ((a.setDelivery d s).deliveries x).Neat := by
  by_cases hx : x = d
  · rw [hx, deliveries_self]
    exact hneat
  · rw [deliveries_ne hx]
    exact h x

variable {t : Dispatch}

/-- A delivery goes on, and nothing about its callbacks changes. -/
theorem setDelivery (h : Sound a) (hd : a.deliveries d = t)
    (hplaced : s.placed = t.placed) (hheld : s.held = t.held)
    (hminted : s.minted = none ∨ s.minted = t.minted) (hneat : s.Neat) :
    Sound (a.setDelivery d s) := by
  subst hd
  have hp := deliveries_eq hplaced
  have hh := deliveries_eq hheld
  have hm : ∀ x i, ((a.setDelivery d s).deliveries x).minted = some i →
      (a.deliveries x).minted = some i := by
    intro x i hx
    rcases hminted with hnone | hsame
    · exact (deliveries_none hnone hx).2
    · rwa [deliveries_eq hsame] at hx
  exact { h with
    entryOf := fun p hmem => by
      rw [hp, hh]
      exact h.entryOf p hmem
    fireOf := fun f hmem => by
      rw [hp]
      exact h.fireOf f hmem
    placed := fun x i hx => h.placed x i (by rw [← hp]; exact hx)
    held := fun x i hx => h.held x i (by rw [← hh]; exact hx)
    minted := fun x i hx => h.minted x i (hm x i hx)
    mintedOnce := fun x y i hx hy => h.mintedOnce x y i (hm x i hx) (hm y i hy)
    neat := neat_setDelivery h.neat hneat }

theorem update_true {f : String → Bool} {i : String} (hi : f i) :
    update f inst true i := update_eq_of (fun _ => rfl) fun _ => hi

section Moves

variable (h : Sound a)
include h

theorem use (inst : String) : Sound (a.use inst) := by
  have hmono : ∀ {i}, a.used i → (a.use inst).used i := update_true
  exact { h with
    entryUsed := fun p hp => hmono (h.entryUsed p hp)
    minted := fun x i hx => ⟨hmono (h.minted x i hx).1, (h.minted x i hx).2⟩
    committedUsed := fun i hi => hmono (h.committedUsed i hi)
    endedUsed := fun i hi => hmono (h.endedUsed i hi) }

theorem delivery_ne_of_entry (hplaced : (a.deliveries d).placed = none)
    (hheld : (a.deliveries d).held = none) {p : Pending} (hp : p ∈ a.entries) : p.delivery ≠ d := by
  rintro rfl
  rcases h.entryOf p hp with hp' | hp'
  · rw [hheld] at hp'
    cases hp'
  · rw [hplaced] at hp'
    cases hp'

theorem delivery_ne_of_fire (hplaced : (a.deliveries d).placed = none) {f : Fire}
    (hf : f ∈ a.fired) : f.delivery ≠ d := by
  rintro rfl
  have hf' := (h.fireOf f hf).2
  rw [hplaced] at hf'
  cases hf'

theorem fireOf_setDelivery (hplaced : (a.deliveries d).placed = none) :
    ∀ f ∈ a.fired, f.cause ≠ .evicted ∧
      ((a.setDelivery d s).deliveries f.delivery).placed = some f.instanceId := by
  intro f hf
  rw [deliveries_ne (h.delivery_ne_of_fire hplaced hf)]
  exact h.fireOf f hf

theorem mint (hd : a.deliveries d = t) (hnew : a.used inst = false)
    (hplaced : t.placed = none) (hheld : t.held = none)
    (hs : s.placed = none ∧ s.held = none ∧ s.minted = some inst) (hneat : s.Neat) :
    Sound ((a.use inst).setDelivery d s) := by
  subst hd
  have hu := h.use inst
  have hself : (a.use inst).used inst := update_self _ _ _
  have hcommitted : a.committed inst = false :=
    eq_false_of_ne_true fun htrue => Bool.noConfusion ((h.committedUsed _ htrue).symm.trans hnew)
  have hended : a.ended inst = false :=
    eq_false_of_ne_true fun htrue => Bool.noConfusion ((h.endedUsed _ htrue).symm.trans hnew)
  have hm : ∀ {x i}, (((a.use inst).setDelivery d s).deliveries x).minted = some i →
      (x = d ∧ i = inst) ∨ (x ≠ d ∧ (a.deliveries x).minted = some i ∧ i ≠ inst) := by
    intro x i hx
    rcases deliveries_cases (P := fun t => t.minted = some i) hx with ⟨hxd, hi⟩ | ⟨hxd, hi⟩
    · rw [hs.2.2, Option.some.injEq] at hi
      exact .inl ⟨hxd, hi.symm⟩
    · refine .inr ⟨hxd, hi, ?_⟩
      rintro rfl
      exact h.not_minted_of_unused hnew x hi
  exact { hu with
    entryOf := fun p hp => by
      rw [deliveries_ne (h.delivery_ne_of_entry hplaced hheld hp)]
      exact h.entryOf p hp
    fireOf := h.fireOf_setDelivery hplaced
    placed := fun x i hx => h.placed x i (deliveries_none (f := Dispatch.placed) hs.1 hx).2
    held := fun x i hx => h.held x i (deliveries_none (f := Dispatch.held) hs.2.1 hx).2
    minted := fun x i hx => by
      rcases hm hx with ⟨-, rfl⟩ | ⟨-, hi, -⟩
      · exact ⟨hself, hcommitted, hended⟩
      · exact hu.minted x i hi
    mintedOnce := fun x y i hx hy => by
      rcases hm hx with ⟨rfl, rfl⟩ | ⟨-, hi, hne⟩
      · rcases hm hy with ⟨rfl, -⟩ | ⟨-, -, hne⟩
        · rfl
        · exact absurd rfl hne
      · rcases hm hy with ⟨-, rfl⟩ | ⟨-, hi', -⟩
        · exact absurd rfl hne
        · exact h.mintedOnce x y i hi hi'
    neat := neat_setDelivery h.neat hneat }

theorem register (hd : a.deliveries d = t)
    (hroom : a.entries.full c = false) (hminted : t.minted = some inst)
    (hplaced : t.placed = none) (hheld : t.held = none)
    (hs : s.placed = none ∧ s.held = some inst ∧ s.minted = some inst) (hneat : s.Neat) :
    Sound ((a.register c inst d).setDelivery d s) := by
  subst hd
  have hnew := h.no_entry hminted hheld
  have hreg : a.register c inst d =
      { a with entries := a.entries ++ [⟨inst, d, a.now⟩], fired := a.fired ++ [] } := by
    rw [World.register, register_of_room hnew hroom]
    rfl
  rw [hreg, append_nil]
  have hm : ∀ {x i}, ((World.setDelivery { a with entries := a.entries ++ [⟨inst, d, a.now⟩] } d
      s).deliveries x).minted = some i → (a.deliveries x).minted = some i := by
    intro x i hx
    rcases deliveries_cases (P := fun t => t.minted = some i) hx with ⟨rfl, hi⟩ | ⟨-, hi⟩
    · rw [hminted, ← hs.2.2]
      exact hi
    · exact hi
  have hmem : ∀ {p : Pending}, p ∈ a.entries ++ [⟨inst, d, a.now⟩] →
      p ∈ a.entries ∨ p = ⟨inst, d, a.now⟩ := fun hp =>
    (mem_append.mp hp).imp_right mem_singleton.mp
  exact { h with
    distinct := h.distinct.append hnew
    entryUsed := fun p hp => by
      rcases hmem hp with hp | rfl
      · exact h.entryUsed p hp
      · exact (h.minted d inst hminted).1
    entryEnded := fun p hp => by
      rcases hmem hp with hp | rfl
      · exact h.entryEnded p hp
      · exact (h.minted d inst hminted).2.2
    entryOf := fun p hp => by
      rcases hmem hp with hp | rfl
      · rw [deliveries_ne (h.delivery_ne_of_entry hplaced hheld hp)]
        exact h.entryOf p hp
      · rw [deliveries_self]
        exact .inl hs.2.1
    fireOf := h.fireOf_setDelivery hplaced
    apart := fun p hp f hf => by
      rcases hmem hp with hp | rfl
      · exact h.apart p hp f hf
      · exact (h.delivery_ne_of_fire hplaced hf).symm
    placed := fun x i hx => by
      have hi := deliveries_none (f := Dispatch.placed) hs.1 hx
      obtain ⟨hcommitted, hplaced⟩ := h.placed x i hi.2
      refine ⟨hcommitted, hplaced.imp_left ?_⟩
      rintro ⟨p, hp, hpx⟩
      exact ⟨p, mem_append_left _ hp, hpx⟩
    held := fun x i hx => by
      rcases deliveries_cases (P := fun t => t.held = some i) hx with ⟨rfl, hi⟩ | ⟨-, hi⟩
      · rw [hs.2.1, Option.some.injEq] at hi
        exact ⟨_, mem_append_right _ (.head _), rfl, hi⟩
      · obtain ⟨p, hp, hpx⟩ := h.held x i hi
        exact ⟨p, mem_append_left _ hp, hpx⟩
    minted := fun x i hx => h.minted x i (hm hx)
    mintedOnce := fun x y i hx hy => h.mintedOnce x y i (hm hx) (hm hy)
    neat := neat_setDelivery h.neat hneat }

theorem commit (hd : a.deliveries d = t)
    (hminted : t.minted = some inst) (hplaced : t.placed = none)
    (hs : s.placed = t.held ∧ s.held = none ∧ s.minted = none) (hneat : s.Neat) :
    Sound ((a.setCommitted inst true).setDelivery d s) := by
  subst hd
  have hmono : ∀ {i}, a.committed i → (a.setCommitted inst true).committed i := update_true
  have hself : (a.setCommitted inst true).committed inst := update_self _ _ _
  have hm : ∀ {x i}, (((a.setCommitted inst true).setDelivery d s).deliveries x).minted = some i →
      (a.deliveries x).minted = some i ∧ i ≠ inst := by
    intro x i hx
    obtain ⟨hxd, hi⟩ := deliveries_none (f := Dispatch.minted) hs.2.2 hx
    refine ⟨hi, ?_⟩
    rintro rfl
    exact hxd (h.mintedOnce x d _ hi hminted)
  exact { h with
    entryOf := fun p hp => by
      by_cases hpd : p.delivery = d
      · rw [hpd, deliveries_self, hs.1]
        right
        rcases h.entryOf p hp with hp' | hp'
        · rw [← hpd]
          exact hp'
        · rw [hpd, hplaced] at hp'
          cases hp'
      · rw [deliveries_ne hpd]
        exact h.entryOf p hp
    fireOf := h.fireOf_setDelivery hplaced
    placed := fun x i hx => by
      rcases deliveries_cases (P := fun t => t.placed = some i) hx with ⟨rfl, hi⟩ | ⟨-, hi⟩
      · rw [hs.1] at hi
        have heq := Dispatch.minted_of_held hi
        rw [hminted, Option.some.injEq] at heq
        subst heq
        exact ⟨hself, .inl (h.held x inst hi)⟩
      · obtain ⟨hcommitted, hplaced⟩ := h.placed x i hi
        exact ⟨hmono hcommitted, hplaced⟩
    held := fun x i hx => h.held x i (deliveries_none (f := Dispatch.held) hs.2.1 hx).2
    minted := fun x i hx => by
      obtain ⟨hi, hne⟩ := hm hx
      obtain ⟨hused, hcommitted, hended⟩ := h.minted x i hi
      exact ⟨hused, (update_of_ne hne _ _).trans hcommitted, hended⟩
    mintedOnce := fun x y i hx hy => h.mintedOnce x y i (hm hx).1 (hm hy).1
    committedUsed := fun i hi => by
      by_cases hii : i = inst
      · rw [hii]
        exact (h.minted d inst hminted).1
      · exact h.committedUsed i ((update_of_ne hii _ _).symm.trans hi)
    neat := neat_setDelivery h.neat hneat }

theorem withdraw (durable : Bool) (hd : a.deliveries d = t)
    (hminted : t.minted = some inst) (hplaced : t.placed = none) :
    Sound (((a.withdraw inst).setCommitted inst durable).setDelivery d (.told .settled)) := by
  subst hd
  have hmem : ∀ {p}, p ∈ (a.entries.remove inst).1 ↔ p ∈ a.entries ∧ p.instanceId ≠ inst := by
    intro p
    rw [remove_eq_filter h.distinct, mem_filter, Bool.not_eq_true', beq_eq_false_iff_ne]
  have hother : ∀ {x i}, x ≠ d → (a.deliveries x).minted = some i → i ≠ inst := by
    rintro x i hxd hi rfl
    exact hxd (h.mintedOnce x d _ hi hminted)
  have hne : ∀ {p}, p ∈ (a.entries.remove inst).1 → p.delivery ≠ d := by
    rintro p hp rfl
    obtain ⟨hp, hpi⟩ := hmem.mp hp
    rcases h.entryOf p hp with hp' | hp'
    · have heq := Dispatch.minted_of_held hp'
      rw [hminted, Option.some.injEq] at heq
      exact hpi heq.symm
    · rw [hplaced] at hp'
      cases hp'
  have hcommitted : ∀ {i}, i ≠ inst → ((a.withdraw inst).setCommitted inst durable).committed i =
      a.committed i := fun hi => update_of_ne hi _ _
  exact { h with
    distinct := h.distinct.sublist eraseP_sublist
    entryUsed := fun p hp => h.entryUsed p (hmem.mp hp).1
    entryEnded := fun p hp => h.entryEnded p (hmem.mp hp).1
    entryOf := fun p hp => by
      rw [deliveries_ne (hne hp)]
      exact h.entryOf p (hmem.mp hp).1
    fireOf := h.fireOf_setDelivery hplaced
    apart := fun p hp => h.apart p (hmem.mp hp).1
    placed := fun x i hx => by
      have hi := deliveries_none (f := Dispatch.placed) rfl hx
      obtain ⟨hi', hplaced⟩ := h.placed x i hi.2
      have hii : i ≠ inst := by
        rintro rfl
        rw [(h.minted d i hminted).2.1] at hi'
        cases hi'
      refine ⟨(hcommitted hii).trans hi', hplaced.imp_left ?_⟩
      rintro ⟨p, hp, hpx, hpi⟩
      exact ⟨p, hmem.mpr ⟨hp, hpi ▸ hii⟩, hpx, hpi⟩
    held := fun x i hx => by
      obtain ⟨hxd, hi⟩ := deliveries_none (f := Dispatch.held) rfl hx
      obtain ⟨p, hp, hpx, hpi⟩ := h.held x i hi
      exact ⟨p, hmem.mpr ⟨hp, hpi ▸ hother hxd (Dispatch.minted_of_held hi)⟩, hpx, hpi⟩
    minted := fun x i hx => by
      obtain ⟨hxd, hi⟩ := deliveries_none (f := Dispatch.minted) rfl hx
      obtain ⟨hused, hi', hended⟩ := h.minted x i hi
      exact ⟨hused, (hcommitted (hother hxd hi)).trans hi', hended⟩
    mintedOnce := fun x y i hx hy =>
      h.mintedOnce x y i (deliveries_none (f := Dispatch.minted) rfl hx).2
        (deliveries_none (f := Dispatch.minted) rfl hy).2
    committedUsed := fun i hi => by
      by_cases hii : i = inst
      · rw [hii]
        exact (h.minted d inst hminted).1
      · exact h.committedUsed i ((hcommitted hii).symm.trans hi)
    neat := neat_setDelivery h.neat trivial }

theorem fireAll {out : Pending → Bool} {cause : Cause} (ack : Bool)
    (hcause : cause ≠ .evicted) (hout : ∀ p ∈ a.entries, out p →
      (a.deliveries p.delivery).placed = some p.instanceId) :
    Sound ({ a with entries := a.entries.filter fun p => !out p }.fire cause ack
      (a.entries.filter out)) := by
  have hkeep : ∀ {p}, (p ∈ a.entries.filter fun p => !out p) → p ∈ a.entries := fun hp =>
    mem_of_mem_filter hp
  have hfired : ∀ {f : Fire}, f ∈ a.fired ++ (a.entries.filter out).map
        (fun p => (⟨p.delivery, p.instanceId, ack, cause⟩ : Fire)) →
      f ∈ a.fired ∨ ∃ p ∈ a.entries, out p ∧ f = ⟨p.delivery, p.instanceId, ack, cause⟩ := by
    intro f hf
    refine (mem_append.mp hf).imp_right fun hf => ?_
    obtain ⟨p, hp, rfl⟩ := mem_map.mp hf
    obtain ⟨hp, hpo⟩ := mem_filter.mp hp
    exact ⟨p, hp, hpo, rfl⟩
  -- Entries of one delivery that are placed are one entry.
  have hsame : ∀ {p q}, p ∈ a.entries → q ∈ a.entries → out p →
      p.delivery = q.delivery → p = q := by
    intro p q hp hq hpo hpq
    refine h.distinct.eq hp hq ?_
    have hpp := hout p hp hpo
    rw [hpq] at hpp
    rcases h.entryOf q hq with hq' | hq'
    · rw [Dispatch.placed_of_held hq'] at hpp
      cases hpp
    · rw [hq', Option.some.injEq] at hpp
      exact hpp.symm
  exact { h with
    distinct := h.distinct.sublist filter_sublist
    entryUsed := fun p hp => h.entryUsed p (hkeep hp)
    entryEnded := fun p hp => h.entryEnded p (hkeep hp)
    entryOf := fun p hp => h.entryOf p (hkeep hp)
    fireOf := fun f hf => by
      rcases hfired hf with hf | ⟨p, hp, hpo, rfl⟩
      · exact h.fireOf f hf
      · exact ⟨hcause, hout p hp hpo⟩
    once := by
      change ((a.fired ++ _).map Fire.delivery).Nodup
      rw [map_append, List.map_map, nodup_append]
      refine ⟨h.once, ?_, ?_⟩
      · refine List.Nodup.map_on ?_ ((List.Nodup.of_map _ h.distinct).filter _)
        intro p hp q hq hpq
        obtain ⟨hp, hpo⟩ := mem_filter.mp hp
        exact hsame hp (mem_of_mem_filter hq) hpo hpq
      · intro x hx y hy
        obtain ⟨f, hf, rfl⟩ := mem_map.mp hx
        obtain ⟨p, hp, rfl⟩ := mem_map.mp hy
        exact (h.apart p (mem_of_mem_filter hp) f hf).symm
    apart := fun p hp f hf => by
      obtain ⟨hp, hpo⟩ := mem_filter.mp hp
      rcases hfired hf with hf | ⟨q, hq, hqo, rfl⟩
      · exact h.apart p hp f hf
      · intro hpq
        rw [hsame hq hp hqo hpq.symm] at hqo
        rw [hqo] at hpo
        cases hpo
    placed := fun x i hx => by
      obtain ⟨hcommitted, hplaced⟩ := h.placed x i hx
      refine ⟨hcommitted, ?_⟩
      rcases hplaced with ⟨p, hp, hpx, hpi⟩ | ⟨f, hf, hfx⟩
      · cases hpo : out p with
        | false => exact .inl ⟨p, mem_filter.mpr ⟨hp, by rw [hpo]; rfl⟩, hpx, hpi⟩
        | true =>
          refine .inr ⟨⟨p.delivery, p.instanceId, ack, cause⟩, ?_, hpx, hpi⟩
          exact mem_append_right _ (List.mem_map_of_mem (mem_filter.mpr ⟨hp, hpo⟩))
      · exact .inr ⟨f, mem_append_left _ hf, hfx⟩
    held := fun x i hx => by
      obtain ⟨p, hp, hpx, hpi⟩ := h.held x i hx
      refine ⟨p, mem_filter.mpr ⟨hp, ?_⟩, hpx, hpi⟩
      cases hpo : out p with
      | false => rfl
      | true =>
        have hpp := hout p hp hpo
        have hnone : (a.deliveries x).placed = none := Dispatch.placed_of_held hx
        rw [hpx, hnone] at hpp
        cases hpp }

theorem settle (ok : Bool) (hused : a.used inst)
    (hminted : ∀ x, (a.deliveries x).minted ≠ some inst) : Sound (a.settle inst ok) := by
  have hout : ∀ p ∈ a.entries, (p.instanceId == inst) →
      (a.deliveries p.delivery).placed = some p.instanceId := by
    intro p hp hpi
    refine (h.entryOf p hp).resolve_left fun hheld => hminted p.delivery ?_
    rw [Dispatch.minted_of_held hheld, beq_iff_eq.mp hpi]
  have hcause : Cause.ended ≠ .evicted := nofun
  have hfire := h.fireAll ok hcause hout
  have heq : a.settle inst ok =
      { { a with entries := a.entries.filter fun p => !(p.instanceId == inst) }.fire .ended ok
          (a.entries.filter fun p => p.instanceId == inst) with
        ended := update a.ended inst true } := by
    rw [World.settle, World.withdraw, removed_eq_filter h.distinct, remove_eq_filter h.distinct]
    rfl
  have hne : ∀ {i}, i ≠ inst → update a.ended inst true i = a.ended i := fun hi =>
    update_of_ne hi _ _
  rw [heq]
  exact { hfire with
    entryEnded := fun p hp => by
      obtain ⟨hp, hpi⟩ := mem_filter.mp hp
      rw [Bool.not_eq_true', beq_eq_false_iff_ne] at hpi
      exact (hne hpi).trans (h.entryEnded p hp)
    minted := fun x i hx => by
      obtain ⟨hu, hc, he⟩ := h.minted x i hx
      have hi : i ≠ inst := by
        rintro rfl
        exact hminted x hx
      exact ⟨hu, hc, (hne hi).trans he⟩
    endedUsed := fun i hi => by
      by_cases hii : i = inst
      · rw [hii]
        exact hused
      · exact h.endedUsed i ((hne hii).symm.trans hi) }

theorem sweep (hclean : ∀ p ∈ a.entries, Registry.timedOut c a.now p →
      a.committed p.instanceId) : Sound (a.sweepTimeouts c) := by
  refine h.fireAll false nofun fun p hp hpo => ?_
  refine (h.entryOf p hp).resolve_left fun hheld => ?_
  have hcommitted := hclean p hp hpo
  rw [(h.minted _ _ (Dispatch.minted_of_held hheld)).2.1] at hcommitted
  cases hcommitted

theorem withdraw_plain (durable : Bool) (hd : a.deliveries d = t)
    (hminted : t.minted = some inst) (hplaced : t.placed = none) (hheld : t.held = none) :
    Sound ((a.setCommitted inst durable).setDelivery d (.told .settled)) := by
  have hdrop := h.withdraw durable hd hminted hplaced
  subst hd
  rwa [World.withdraw, remove_of_has (h.no_entry hminted hheld)] at hdrop

end Moves

theorem slot_of_clean {slot fanOut : Bool} {last : Option String} {left : Nat}
    (hclean : (a.deliveries d).slotted)
    (hd : a.deliveries d = .running slot last left fanOut) : slot := by
  rw [hd] at hclean
  exact hclean

/-- **A clean step keeps the world sound.** -/
theorem step {ev : Event} (h : Sound a) (hab : CleanStep c a ev b) : Sound b := by
  obtain ⟨hstep, hclean⟩ := hab
  cases hstep with
  | tick dt => exact h.tick dt
  | begin d more hnew => exact h.setDelivery hnew rfl rfl (.inl rfl) trivial
  | ran d inst slot fanOut ok last left hd hnew =>
    obtain rfl := slot_of_clean hclean hd
    have hused : (a.use inst).used inst := update_self _ _ _
    have hsettled := (h.use inst).settle ok hused (h.not_minted_of_unused hnew)
    exact hsettled.setDelivery hd rfl rfl (.inl rfl) trivial
  | pass d slot fanOut last last' left hd | reject d slot fanOut last left hd =>
    obtain rfl := slot_of_clean hclean hd
    exact h.setDelivery hd rfl rfl (.inl rfl) trivial
  | park d inst slot fanOut last left hd hnew htake =>
    obtain rfl := slot_of_clean hclean.1 hd
    have hmint := h.mint (s := .chain true inst) hd hnew rfl rfl ⟨rfl, rfl, rfl⟩ trivial
    have hreg := hmint.register (s := .parking false inst left fanOut true) deliveries_self
      hclean.2 rfl rfl rfl ⟨rfl, rfl, rfl⟩ rfl
    rwa [World.register_setDelivery] at hreg
  | parkPlain d inst slot fanOut last left hd hnew htake =>
    obtain rfl := slot_of_clean hclean.1 hd
    exact h.mint hd hnew rfl rfl ⟨rfl, rfl, rfl⟩ rfl
  | commit d inst slot fanOut registered left hd =>
    have hneat := h.neat d
    rw [hd] at hneat
    obtain rfl : slot = !registered := hneat
    cases registered with
    | true => exact h.commit hd rfl rfl ⟨rfl, rfl, rfl⟩ rfl
    | false => exact h.commit hd rfl rfl ⟨rfl, rfl, rfl⟩ trivial
  | commitFail d inst slot fanOut registered durable left hd
  | chainCommitFail d inst registered durable hd =>
    cases registered with
    | true => exact h.withdraw durable hd rfl rfl
    | false => exact h.withdraw_plain durable hd rfl rfl rfl
  | finish d slot fanOut last hd =>
    cases slot with
    | true => exact h.setDelivery hd rfl rfl (.inl rfl) trivial
    | false =>
      have hneat := h.neat d
      rw [hd] at hneat
      obtain ⟨inst, rfl⟩ := Option.isSome_iff_exists.mp hneat
      exact h.setDelivery hd rfl rfl (.inl rfl) trivial
  | chain d inst slot last left hd hnew =>
    obtain rfl := slot_of_clean hclean hd
    exact h.mint hd hnew rfl rfl ⟨rfl, rfl, rfl⟩ trivial
  | chainEnd d inst settle ok hd =>
    have htold := h.setDelivery (s := .told .settled) hd rfl rfl (.inl rfl) trivial
    have hminted : (a.deliveries d).minted = some inst := by
      rw [hd]
      rfl
    refine htold.settle ok (h.minted d inst hminted).1 fun x hx => ?_
    obtain ⟨hxd, hi⟩ := deliveries_none (f := Dispatch.minted) rfl hx
    exact hxd (h.mintedOnce x d inst hi hminted)
  | chainAbort d inst settle hd => exact h.setDelivery hd rfl rfl (.inl rfl) trivial
  | chainPark d inst settle hd =>
    cases settle with
    | true => exact h.register hd hclean rfl rfl rfl ⟨rfl, rfl, rfl⟩ trivial
    | false => exact h.setDelivery hd rfl rfl (.inr rfl) trivial
  | chainCommit d inst registered hd =>
    cases registered with
    | true => exact h.commit hd rfl rfl ⟨rfl, rfl, rfl⟩ trivial
    | false => exact h.commit hd rfl rfl ⟨rfl, rfl, rfl⟩ trivial
  | terminal inst ok hparked =>
    refine h.settle ok (h.committedUsed inst hparked) fun x hx => ?_
    exact Bool.noConfusion (hparked.symm.trans (h.minted x inst hx).2.1)
  | sweep => exact h.sweep hclean

end Sound

/-! ## The theorem -/

structure SettledOnce (a : World) : Prop where
  settled : ∀ d, a.deliveries d = .told .settled →
    (∀ f ∈ a.fired, f.delivery ≠ d) ∧ ∀ p ∈ a.entries, p.delivery ≠ d
  /-- The park is committed. The callbacks wait for the end of the instance and none has fired, or
  exactly one has: at a terminal event of the instance, or at a sweep. -/
  deferred : ∀ d inst, a.deliveries d = .told (.deferred inst) → a.committed inst = true ∧
    ((a.ended inst = false ∧ (∃ p ∈ a.entries, p.delivery = d ∧ p.instanceId = inst) ∧
        ∀ f ∈ a.fired, f.delivery ≠ d) ∨
      ((a.fired.map Fire.delivery).count d = 1 ∧
        ∃ f ∈ a.fired, f.delivery = d ∧ f.instanceId = inst ∧ f.cause ≠ .evicted))

theorem Sound.settledOnce {a : World} (h : Sound a) : SettledOnce a where
  settled d hd := by
    have hplaced : (a.deliveries d).placed = none := by
      rw [hd]
      rfl
    have hheld : (a.deliveries d).held = none := by
      rw [hd]
      rfl
    exact ⟨fun f hf => h.delivery_ne_of_fire hplaced hf,
      fun p hp => h.delivery_ne_of_entry hplaced hheld hp⟩
  deferred d inst hd := by
    have hplaced : (a.deliveries d).placed = some inst := by
      rw [hd]
      rfl
    obtain ⟨hcommitted, ⟨p, hp, rfl, rfl⟩ | ⟨f, hf, rfl, rfl⟩⟩ := h.placed d inst hplaced
    · refine ⟨hcommitted, .inl ⟨h.entryEnded p hp, ⟨p, hp, rfl, rfl⟩, fun f hf => ?_⟩⟩
      exact (h.apart p hp f hf).symm
    · refine ⟨hcommitted, .inr ⟨?_, f, hf, rfl, rfl, (h.fireOf f hf).1⟩⟩
      exact count_eq_one_of_mem h.once (List.mem_map_of_mem hf)

/-- After a sweep nothing has waited for too long. -/
theorem sweep_leaves {c : Config} {a b : World} (h : Step c a .sweep b) :
    ∀ p ∈ b.entries, Registry.timedOut c b.now p = false := by
  cases h with
  | sweep =>
    intro p hp
    have hkeep := (mem_filter.mp hp).2
    rwa [Bool.not_eq_true'] at hkeep

/-- **A deferred delivery is settled exactly once**, in every run of clean steps; and a sweep leaves
no callback behind that has waited for too long. -/
theorem settled_exactly_once (c : Config) :
    (∀ ls a, Run (CleanStep c) .initial ls a → SettledOnce a) ∧
    (∀ a b, Step c a .sweep b → ∀ p ∈ b.entries, Registry.timedOut c b.now p = false) := by
  refine ⟨fun ls a hrun => ?_, fun a b => sweep_leaves⟩
  exact (hrun.invariant (fun _ _ _ _ hab h => h.step hab) Sound.initial).settledOnce

def tenDeliveries : Config := ⟨10, 3600, true⟩

/-- A delivery is deferred and acknowledged when its instance is over; another times out. -/
theorem deferred_then_acked : ∃ ls a, Run (CleanStep tenDeliveries) .initial ls a ∧
    a.deliveries "first" = .told (.deferred "one") ∧
    a.fired = [⟨"first", "one", true, .ended⟩, ⟨"second", "two", false, .timedOut⟩] ∧
    SettledOnce a ∧ ∀ p ∈ a.entries, Registry.timedOut tenDeliveries a.now p = false := by
  have hrun : Run (CleanStep tenDeliveries) .initial _ _ :=
    .cons ⟨.begin "first" 0 rfl, trivial⟩ <|
      .cons ⟨.park "first" "one" true _ none 0 rfl rfl rfl, rfl, rfl⟩ <|
      .cons ⟨.commit "first" "one" false _ true 0 rfl, trivial⟩ <|
      .cons ⟨.finish "first" false _ (some "one") rfl, trivial⟩ <|
      .cons ⟨.begin "second" 0 rfl, trivial⟩ <|
      .cons ⟨.chain "second" "two" true none 0 rfl rfl, rfl⟩ <|
      .cons ⟨.chainPark "second" "two" true rfl, rfl⟩ <|
      .cons ⟨.chainCommit "second" "two" true rfl, trivial⟩ <|
      .cons ⟨.terminal "one" true rfl, trivial⟩ <|
      .cons ⟨.tick 3600, trivial⟩ <|
      .cons ⟨.sweep, forall_mem_singleton.mpr fun _ => rfl⟩ <|
      .nil _
  exact ⟨_, _, hrun, rfl, rfl, (settled_exactly_once tenDeliveries).1 _ _ hrun,
    (settled_exactly_once tenDeliveries).2 _ _ .sweep⟩

/-- The first handler of a broadcast parks, and the second one fails: the transport is told to
settle the delivery, and is settled again when the instance of the first handler is over. -/
theorem settled_twice : ∃ ls a, Run (Step tenDeliveries) .initial ls a ∧
    a.deliveries "first" = .told .settled ∧ a.fired = [⟨"first", "one", true, .ended⟩] := by
  have hrun : Run (Step tenDeliveries) .initial _ _ :=
    .cons (.begin "first" 1 rfl) <|
      .cons (.park "first" "one" true _ none 1 rfl rfl rfl) <|
      .cons (.commit "first" "one" false _ true 1 rfl) <|
      .cons (.reject "first" false _ (some "one") 0 rfl) <|
      .cons (.terminal "one" true rfl) <|
      .nil _
  exact ⟨_, _, hrun, rfl, rfl⟩

end Sutra.Ack
