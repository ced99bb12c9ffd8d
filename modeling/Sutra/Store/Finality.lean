import Sutra.Store.Orderly

/-!
# Finished is final

An instance is finished when its row carries `COMPLETED` or `TERMINATED`, or is gone.

* `finished_is_final`: in calm runs it then stays so: nobody is at work on it, a lane that loads the
  row turns away, and its waits and aliases are out of reach.
* `cancelled_then_parked`: a cancel that lands between the load and the commit of a step is undone.
-/

namespace Sutra.Store

open Sutra.Store.World Tables

variable {B : Type} {e : Engine B} {a b : World B}

theorem Step.keeps {x : Event B} (h : Step e a x b) :
    (b.tables.stored = a.tables.stored ∧ b.history = a.history) ∨ (∃ w, x = .park w) ∨
      (∃ o, x = .commit o) ∨ ∃ k, x = .cancelMark k := by
  cases h with
  | park w _ => exact .inr (.inl ⟨w, rfl⟩)
  | commit o => exact .inr (.inr (.inl ⟨o, rfl⟩))
  | cancelMark k => exact .inr (.inr (.inr ⟨k, rfl⟩))
  | granted o w hidle hnew hoffer hclaim =>
    have hrows := sameRows_hand ((a.setTables (a.tables.claim o a.now)).setLane o (.claimed w)) o w
    refine .inl ⟨?_, hrows.history⟩
    rw [hrows.tables]
    exact stored_claim _ _ _
  | denied o w =>
    have hrows := sameRows_hand (a.setLane o (.denied w)) o w
    exact .inl ⟨by rw [hrows.tables]; rfl, hrows.history⟩
  | bounce o w =>
    have hrows := sameRows_answer (a.setLane o .idle) w .failed
    exact .inl ⟨by rw [hrows.tables]; rfl, hrows.history⟩
  | goneTimer o p n =>
    have hrows := sameRows_answer (a.setLane o .idle) (.timer p n) .stale
    exact .inl ⟨by rw [hrows.tables]; rfl, hrows.history⟩
  | missing o w =>
    have hrows := sameRows_answer (a.setLane o .releasing) w .stale
    exact .inl ⟨by rw [hrows.tables]; rfl, hrows.history⟩
  | turnedAway o w s =>
    have hrows := sameRows_answer (a.setLane o .releasing) w
      (if e.verdict s w = .stale then .stale else .failed)
    exact .inl ⟨by rw [hrows.tables]; rfl, hrows.history⟩
  | abort o =>
    have hrows := sameRows_answerLane a o .failed
    exact .inl ⟨by rw [setLane_tables, hrows.tables], hrows.history⟩
  | crash o =>
    have hrows := sameRows_answerLane a o fun _ => .idle
    exact .inl ⟨by rw [setLane_tables, hrows.tables], hrows.history⟩
  | release o => exact .inl ⟨stored_release _ _, rfl⟩
  | heartbeat o => exact .inl ⟨stored_heartbeat _ _ _, rfl⟩
  | refresh o => exact .inl ⟨stored_claim _ _ _, rfl⟩
  | sweep => exact .inl ⟨stored_sweepStuck _ _ _, rfl⟩
  | _ => exact .inl ⟨rfl, rfl⟩

def World.Over (gone : Prop) (a : World B) : Prop :=
  a.Finished ∧ (gone → a.tables.stored = none)

theorem Orderly.over_step (h : Orderly a) {x : Event B} {gone : Prop} (hstep : Step e a x b)
    (hf : a.Over gone) : b.Over gone := by
  rcases hstep.keeps with ⟨hstored, hhistory⟩ | ⟨w, rfl⟩ | ⟨o, rfl⟩ | ⟨k, rfl⟩
  · refine ⟨⟨by rw [hhistory]; exact hf.1.1, ?_⟩, ?_⟩
    · rw [hstored]
      exact hf.1.2
    · rw [hstored]
      exact hf.2
  · cases hstep with
    | park _ hnew => exact absurd hnew hf.1.1
  · cases hstep with
    | commit _ w s basis out hlane =>
      -- a lane at work has a suspended snapshot in the row
      obtain ⟨-, hs, -, hstatus, -⟩ := h.atWork o s basis (by rw [hlane]; rfl)
      have hfin := hf.1.2 s hs
      rw [hstatus] at hfin
      exact nomatch hfin
  · cases hstep with
    | cancelMark _ s hk =>
      cases hretain : e.retain with
      | false => exact ⟨⟨List.cons_ne_nil _ _, nofun⟩, fun _ => rfl⟩
      | true =>
        have hstored := stored_markTerminal a.tables { s with status := .terminated } a.now
        refine ⟨⟨List.cons_ne_nil _ _, fun s' hs' => ?_⟩, fun hgone => ?_⟩
        · obtain ⟨-, -, rfl⟩ := Option.map_eq_some_iff.mp (hstored.symm.trans hs')
          rfl
        · exact hstored.trans (by rw [hf.2 hgone]; rfl)

/-- **Finished is final.**  Once calm steps have finished an instance, it stays finished under
further calm steps, its row is not re-created, and it has no waiting row and no live alias. -/
theorem finished_is_final {xs ys : List (Event B)}
    (h : Run (StepIf e (Calm e)) World.init xs a) (hf : a.Finished)
    (h' : Run (StepIf e (Calm e)) a ys b) :
    b.Finished ∧ b.tables.Quiet ∧ (a.tables.stored = none → b.tables.stored = none) := by
  have hover : Orderly b ∧ b.Over (a.tables.stored = none) :=
    h'.invariant (I := fun c => Orderly c ∧ c.Over (a.tables.stored = none))
      (fun _ _ _ _ hab hc => ⟨hc.1.step hab.1 hab.2, hc.1.over_step hab.1 hc.2⟩)
      ⟨.run h, hf, id⟩
  exact ⟨hover.2.1, hover.1.quiet hover.2.1, hover.2.2⟩

theorem completed_turns_away : ∃ xs a ys b,
    Run (StepIf (anyPass true) (Calm (anyPass true))) World.init xs a ∧ a.Finished ∧
      Run (StepIf (anyPass true) (Calm (anyPass true))) a ys b ∧
      b.lanes "b" = .releasing ∧ b.tables.Quiet := by
  have hrun : ∃ xs a ys b,
      Run (StepIf (anyPass true) (Calm (anyPass true))) .init xs a ∧ a.Finished ∧
        Run (StepIf (anyPass true) (Calm (anyPass true))) a ys b ∧ b.lanes "b" = .releasing := by
    refine ⟨_, _, _, _, .cons (.mk (.park atApproval rfl) trivial)
      (.cons (.mk (.granted "a" (.relay "approval") rfl nofun trivial rfl) trivial)
      (.cons (.mk (.load "a" (.relay "approval") _ rfl rfl rfl) fun _ => rfl)
      (.cons (.mk (.compute "a" _ _ _ .complete rfl trivial) trivial)
      (.cons (.mk (.commit "a" _ _ _ _ rfl) trivial) (.nil _))))),
      ⟨nofun, fun s hs => ?_⟩,
      .cons (.mk (.granted "b" (.relay "approval") rfl nofun trivial rfl) trivial)
      (.cons (.mk (.turnedAway "b" (.relay "approval") _ rfl rfl nofun) fun _ => rfl) (.nil _)),
      rfl⟩
    obtain rfl := Option.some.inj hs
    rfl
  obtain ⟨xs, a, ys, b, h, hf, h', hlane⟩ := hrun
  exact ⟨xs, a, ys, b, h, hf, h', hlane, (finished_is_final h hf h').2.1⟩

/-- The operator cancels while a lane works on the snapshot; the commit of the lane brings the
instance back, suspended and waiting. -/
theorem cancelled_then_parked : ∃ xs a ys b, Run (Step (anyPass true)) World.init xs a ∧
    a.Finished ∧ Run (Step (anyPass true)) a ys b ∧
    b.tables.stored.map (·.status) = some .suspended ∧ b.tables.WaitingAt "shipment" := by
  refine ⟨_, _, _, _, .cons (.park atApproval rfl)
    (.cons (.granted "a" (.relay "approval") rfl nofun trivial rfl)
    (.cons (.load "a" (.relay "approval") _ rfl rfl rfl)
    (.cons (.cancelLoad 0 _ rfl rfl rfl) (.cons (.cancelResolve 0 _ rfl)
    (.cons (.cancelRetire 0 _ rfl) (.cons (.cancelMark 0 _ rfl) (.nil _))))))),
    ⟨nofun, fun s hs => ?_⟩,
    .cons (.compute "a" _ _ _ (.repark (atShipment 1)) rfl trivial)
    (.cons (.commit "a" _ _ _ _ rfl) (.nil _)), rfl, _, rfl, rfl⟩
  obtain rfl := Option.some.inj hs
  rfl

end Sutra.Store
