import Mathlib

/-!
# Buffered updates

A family of cells and a log of updates to single cells. A *buffer* is a private copy of one cell.

* `replay` applies the log at once, in its order; `publish` puts buffers back.
* `publish_eq_replay`: if every buffer holds what the log makes of its cell, and every cell of the
  log has a buffer, then publishing the buffers is replaying the log.
-/

namespace Sutra

open List Function

variable {ι R : Type} [DecidableEq ι]

def replay (log : List (ι × (R → R))) (cells : ι → R) : ι → R :=
  log.foldl (fun cells e => Function.update cells e.1 (e.2 (cells e.1))) cells

def publish (buffers : List (ι × R)) (cells : ι → R) : ι → R :=
  buffers.foldl (fun cells e => Function.update cells e.1 e.2) cells

theorem replay_concat (log : List (ι × (R → R))) (e : ι × (R → R)) (cells : ι → R) :
    replay (log ++ [e]) cells = update (replay log cells) e.1 (e.2 (replay log cells e.1)) := by
  rw [replay, foldl_append]
  rfl

variable {i : ι} {log : List (ι × (R → R))}

theorem foldl_update_of_notMem {α : Type*} {l : List (ι × α)} (h : ∀ e ∈ l, e.1 ≠ i)
    (f : (ι → R) → ι × α → R) (cells : ι → R) :
    l.foldl (fun cells e => update cells e.1 (f cells e)) cells i = cells i := by
  induction l generalizing cells with
  | nil => rfl
  | cons e rest ih =>
    rw [foldl_cons, ih (fun e' he' => h e' (.tail _ he')), update_of_ne (h e (.head _)).symm]

theorem replay_of_notMem (h : ∀ e ∈ log, e.1 ≠ i) (cells : ι → R) : replay log cells i = cells i :=
  foldl_update_of_notMem h (fun cells e => e.2 (cells e.1)) cells

variable {buffers : List (ι × R)}

theorem publish_of_notMem (h : ∀ e ∈ buffers, e.1 ≠ i)
    (cells : ι → R) : publish buffers cells i = cells i :=
  foldl_update_of_notMem h (fun _ e => e.2) cells

theorem publish_of_mem {v : R}
    (hv : ∀ e ∈ buffers, e.1 = i → e.2 = v) (h : ∃ e ∈ buffers, e.1 = i) (cells : ι → R) :
    publish buffers cells i = v := by
  induction buffers generalizing cells with
  | nil =>
    obtain ⟨e, he, -⟩ := h
    cases he
  | cons e rest ih =>
    have hstep : publish (e :: rest) cells = publish rest (update cells e.1 e.2) := rfl
    rw [hstep]
    by_cases hrest : ∃ e' ∈ rest, e'.1 = i
    · exact ih (fun e' he' => hv e' (.tail _ he')) hrest _
    · -- the first buffer is the last word on its cell
      have he : e.1 = i := by
        obtain ⟨e', he', heq⟩ := h
        rcases mem_cons.mp he' with rfl | he'
        · exact heq
        · exact absurd ⟨e', he', heq⟩ hrest
      rw [publish_of_notMem fun e' he' heq => hrest ⟨e', he', heq⟩, ← he, update_self]
      exact hv e (.head _) he

/-- **Publishing the buffers is replaying the log.** -/
theorem publish_eq_replay {cells : ι → R} (hbuffers : ∀ e ∈ buffers, e.2 = replay log cells e.1)
    (hlog : ∀ e ∈ log, ∃ e' ∈ buffers, e'.1 = e.1) : publish buffers cells = replay log cells := by
  funext i
  by_cases h : ∃ e ∈ buffers, e.1 = i
  · refine publish_of_mem (fun e he hi => ?_) h cells
    rw [hbuffers e he, hi]
  · rw [publish_of_notMem fun e he hi => h ⟨e, he, hi⟩]
    refine (replay_of_notMem (fun e he hi => ?_) cells).symm
    obtain ⟨e', he', heq⟩ := hlog e he
    exact h ⟨e', he', heq.trans hi⟩

end Sutra
