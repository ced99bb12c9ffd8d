import Sutra.Executor.NodeEffect
import Sutra.Lib.Run

/-!
# The run of a work list

* `moves` lists what `drain` moves, each `Move` with the node and the machine it ran on.
* `run_drain`: the machine `drain` leaves is reached through exactly these steps, whether it returns
  or fails.
-/

namespace Sutra

open Prog Relation

variable {ω : Type}

/-- One token to move: the budget left, the node, and the machine with the token taken off the
work list. -/
structure Move (ω : Type) where
  fuel : Nat
  node : String
  before : Machine ω

def Machine.withWork (m : Machine ω) (work : List String) : Machine ω :=
  { m with st := { m.st with work := work } }

namespace TokenExecutor

variable (ex : TokenExecutor ω)

/-- What runs the scopes inside the node. -/
abbrev inner (mv : Move ω) : Nested ω := ⟨mv.fuel, ex.drain mv.fuel⟩

def result (kind : ScopeKind) (mv : Move ω) : Except Signal Bool × Machine ω :=
  ex.tokenStep ⟨mv.fuel, ex.drain mv.fuel⟩ kind mv.node mv.before

/-- The moves that `drain` makes, in order. -/
def moves : Nat → ScopeKind → Machine ω → List (Move ω)
  | 0, _, _ => []
  | fuel + 1, kind, m =>
    match m.st.work with
    | [] => []
    | n :: rest =>
      let mv : Move ω := ⟨fuel, n, m.withWork rest⟩
      mv :: match ex.result kind mv with
        | (.ok true, m') => moves fuel kind m'
        | _ => []

def Steps (kind : ScopeKind) (m : Machine ω) (mv : Move ω) (m' : Machine ω) : Prop :=
  ∃ rest, m.st.work = mv.node :: rest ∧ mv.before = m.withWork rest ∧ m' = (ex.result kind mv).2

variable {kind : ScopeKind} {fuel : Nat}

theorem drain_succ_nil {m : Machine ω} (h : m.st.work = []) :
    ex.drain (fuel + 1) kind m = (.ok false, m) := by
  have hpop : popWork m = (.ok none, m) := by
    simp [popWork, Exec.updateState, h]
  exact bind_run_ok hpop

theorem drain_succ_cons {m : Machine ω} {n : String}
    {rest : List String} (h : m.st.work = n :: rest) :
    ex.drain (fuel + 1) kind m = match ex.result kind ⟨fuel, n, m.withWork rest⟩ with
      | (.ok true, m') => ex.drain fuel kind m'
      | (.ok false, m') => (.ok true, m')
      | (.error sig, m') => (.error sig, m') := by
  have hpop : popWork m = (.ok (some n), m.withWork rest) := by
    simp [popWork, Exec.updateState, h, Machine.withWork]
  have hdrain : ex.drain (fuel + 1) kind m
      = (ex.tokenStep ⟨fuel, ex.drain fuel⟩ kind n >>= fun go =>
          if go then ex.drain fuel kind else pure true) (m.withWork rest) := bind_run_ok hpop
  rw [hdrain, bind_run]
  rw [result]
  rcases ex.tokenStep ⟨fuel, ex.drain fuel⟩ kind n (m.withWork rest) with ⟨_ | _ | _, m'⟩ <;> rfl

/-- **The machine a drained work list leaves is reached through its moves.** -/
theorem run_drain (fuel : Nat) (kind : ScopeKind) (m : Machine ω) :
    Run (ex.Steps kind) m (ex.moves fuel kind m) (ex.drain fuel kind m).2 := by
  induction fuel generalizing m with
  | zero => exact .nil m
  | succ fuel ih =>
    rcases h : m.st.work with _ | ⟨n, rest⟩
    · rw [ex.drain_succ_nil h]
      simp only [moves, h]
      exact .nil m
    · rw [ex.drain_succ_cons h]
      simp only [moves, h]
      refine .cons ⟨rest, h, rfl, rfl⟩ ?_
      rcases hr : ex.result kind ⟨fuel, n, m.withWork rest⟩ with ⟨sig | _ | _, m'⟩
      · exact .nil m'
      · exact .nil m'
      · exact ih m'

variable {m m' : Machine ω}

theorem run_of_drain {c : Except Signal Bool}
    (h : ex.drain fuel kind m = (c, m')) : Run (ex.Steps kind) m (ex.moves fuel kind m) m' := by
  have hrun := ex.run_drain fuel kind m
  rwa [h] at hrun

/-- A work list stops early only when its transaction was cancelled, and then it is empty. -/
theorem handleSignal_false {r : Nested ω} {sig : Signal}
    (h : handleSignal r kind sig m = (.ok false, m')) : m'.st.work = [] := by
  have routed : ∀ {source code : String},
      (routeError r source code >>= fun _ => pure true) m ≠ (.ok false, m') := by
    intro source code h
    obtain ⟨_, _, -, h⟩ := bind_eq_ok h
    cases (Prod.mk.inj h).1
  cases sig with
  | bpmnError source code =>
    cases kind with
    | top => exact absurd h routed
    | sub id | tx id =>
      change (if errorIsCaught m.st.process source code = true then
        (routeError r source code >>= fun _ => pure true) else Exec.fail _) m = _ at h
      split at h
      · exact absurd h routed
      · cases (Prod.mk.inj h).1
  | txCancel =>
    cases kind with
    | top | sub id => cases (Prod.mk.inj h).1
    | tx id =>
      obtain ⟨-, h⟩ := Prod.mk.inj h
      rw [← h]
      rfl
  | fatal e | panic | outOfFuel => cases kind <;> cases (Prod.mk.inj h).1

theorem tokenStep_false {r : Nested ω} {nodeId : String}
    (h : ex.tokenStep r kind nodeId m = (.ok false, m')) : m'.st.work = [] := by
  obtain ⟨res, m₁, hres, h⟩ := bind_eq_ok h
  cases res with
  | ok => cases (Prod.mk.inj h).1
  | error sig => exact handleSignal_false h

/-- **A drained work list is empty, and none of its moves failed.** -/
theorem drain_ok {c : Bool} (h : ex.drain fuel kind m = (.ok c, m')) :
    m'.st.work = [] ∧ ∀ mv ∈ ex.moves fuel kind m, ∃ go, (ex.result kind mv).1 = .ok go := by
  induction fuel generalizing m with
  | zero => cases (Prod.mk.inj h).1
  | succ fuel ih =>
    rcases hw : m.st.work with _ | ⟨n, rest⟩
    · rw [ex.drain_succ_nil hw] at h
      obtain ⟨-, rfl⟩ := Prod.mk.inj h
      simp [moves, hw]
    · rw [ex.drain_succ_cons hw] at h
      simp only [moves, hw, List.forall_mem_cons]
      rcases hr : ex.result kind ⟨fuel, n, m.withWork rest⟩ with ⟨sig | _ | _, m₁⟩
      · rw [hr] at h
        cases (Prod.mk.inj h).1
      · rw [hr] at h
        obtain ⟨-, rfl⟩ := Prod.mk.inj h
        exact ⟨ex.tokenStep_false hr, ⟨false, rfl⟩, by simp⟩
      · rw [hr] at h
        obtain ⟨hwork, hall⟩ := ih h
        exact ⟨hwork, ⟨true, rfl⟩, hall⟩

section steps

variable {ex} {kind : ScopeKind} {m m' : Machine ω} {mv : Move ω} (h : ex.Steps kind m mv m')

include h

/-- **A step parks no wait but those of its node**, and records as completed what `C` allows. -/
theorem Steps.records {C : String → Prop} (hC : Records m.st.process C) (hown : C mv.node) :
    Effects (waitsOf m.st mv.node) m.st.firedTimer C true mv.before.st m'.st := by
  obtain ⟨rest, -, hbefore, rfl⟩ := h
  have heff := ex.effects_tokenStep (ex.inner mv) kind mv.node (m := m.withWork rest) hC hown
  rw [result, hbefore]
  exact heff

theorem Steps.effects :
    Effects (waitsOf m.st mv.node) m.st.firedTimer (fun _ => True) true mv.before.st m'.st :=
  h.records (records_true _) trivial

theorem Steps.process_eq : m'.st.process = m.st.process := by
  have hbefore : mv.before.st.process = m.st.process := by
    obtain ⟨rest, -, hbefore, -⟩ := h
    rw [hbefore]
    rfl
  exact h.effects.process_eq.trans hbefore

theorem Steps.ghost_eq : m'.st.ghost = m.st.ghost := by
  have hbefore : mv.before.st.ghost = m.st.ghost := by
    obtain ⟨rest, -, hbefore, -⟩ := h
    rw [hbefore]
    rfl
  exact h.effects.ghost_eq.trans hbefore

end steps

end TokenExecutor

end Sutra
