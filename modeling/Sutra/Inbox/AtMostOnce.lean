import Sutra.Inbox.Dispatch

/-!
# A key is recorded exactly when its work is committed

A delivery whose key is recorded is answered as a duplicate and does nothing. So a record without
the work loses the delivery, and work without the record lets a redelivery do it again.

The dispatch keeps the two together only while the pending list of a lane holds nothing but the keys
of the handler that is running, and it does not see to that itself. A chain of synchronous calls
has its keys recorded before its work is committed; its marker names them, and a check of such a key
does not answer duplicate.

* `Clean`: the steps that keep records and work together.
* `Sound.step`, `Sound.run`: what every run of such steps keeps.
* `commit_records`: what a commit records, and for which of its keys the work is then done.
* `recorded_iff_committed`: the record of a key that no marker names is there exactly when the work
  is committed, and at most once.
* `broadcast_loses_handler`: a run that loses a handler.
-/

namespace Sutra.Inbox

open List Sutra.Inbox.World Lane

/-! ## The condition -/

/-- The keys that wait in the lane guard the handler that is running and no other, and no marker
names them. -/
def World.Alone (a : World) (l : String) : Prop :=
  ∀ j h, (a.lanes l).activity = .running j → j.current = some h →
    ∀ k ∈ (a.lanes l).pending, j.delivery.guarded k = [h] ∧ a.held k = false

/-- A step that keeps records and work together: a handler that ends without a commit has no key
pending, a commit writes the keys of its handler alone, a chain starts on an instance without a
marker, and the sweep takes up a marker that is still there and whose chain is gone. -/
def Clean (a : World) : Event → Prop
  | .enter l c => c = .duplicate → (a.lanes l).pending = []
  | .silent l | .panic l => (a.lanes l).pending = []
  | .commit l => a.Alone l
  | .launch l i => a.Alone l ∧ ∀ m ∈ a.markers, m.inst ≠ i
  | .sweep m => m ∈ a.markers ∧ a.chains m.inst = none
  | _ => True

def CleanStep (a : World) (x : Event) (b : World) : Prop := Step a x b ∧ Clean a x

/-! ## Jobs -/

/-- The keys of the handlers that are still to run, as far as they were checked, are pending. -/
structure Job.Sound (j : Job) (pending : List String) : Prop where
  rest : (j.current.toList ++ j.todo) <:+ j.delivery.handlers
  current : ∀ h, j.current = some h → ∀ k, j.delivery.guards k h = true → k ∈ pending
  todo : ∀ h ∈ j.todo, ∀ k ∈ j.checked, j.delivery.guards k h = true → k ∈ pending
  explicit : ∀ k, j.delivery.explicit = some k → j.todo ≠ [] → k ∈ j.checked
  between : j.current = none → j.todo ≠ j.delivery.handlers → pending = []
  untouched : j.touched = false → pending = []

def Lane.Sound (lane : Lane) : Prop :=
  match lane.activity with
  | .idle => lane.pending = []
  | .running j => j.Sound lane.pending
  | .settling keys => keys = [] ∧ lane.pending = []

/-- A relay on its way has its only handler ahead of it. -/
def Handover.Sound (q : Handover) : Prop :=
  q.job.Sound q.keys ∧ ∃ h, q.job.current = some h ∧ q.job.delivery.handlers = [h]

theorem sound_idle : Lane.Sound ⟨[], .idle⟩ := rfl

variable {j : Job} {pending : List String} {h : Handler} {rest : List Handler} {k : String}

theorem Delivery.guards_iff (d : Delivery) :
    d.guards k h ↔ d.explicit = some k ∨ h.declared = some k := by simp [Delivery.guards]

theorem Delivery.mem_guarded (d : Delivery) :
    h ∈ d.guarded k ↔ h ∈ d.handlers ∧ d.guards k h := mem_filter

variable {lane : Lane}

theorem sound_of_idle (hs : lane.Sound) (hidle : lane.activity = .idle) : lane.pending = [] := by
  rw [Lane.Sound, hidle] at hs
  exact hs

theorem sound_of_running (hs : lane.Sound) (hrun : lane.activity = .running j) :
    j.Sound lane.pending := by
  rw [Lane.Sound, hrun] at hs
  exact hs

variable {keys : List String}

theorem sound_of_settling (hs : lane.Sound)
    (hset : lane.activity = .settling keys) : keys = [] ∧ lane.pending = [] := by
  rw [Lane.Sound, hset] at hs
  exact hs

theorem sound_settle (hnil : lane.pending = []) : lane.settle.Sound :=
  ⟨hnil, rfl⟩

namespace Job.Sound

theorem suffix_todo (hs : j.Sound pending) : j.todo <:+ j.delivery.handlers :=
  (suffix_append _ _).trans hs.rest

theorem current_not_mem_todo (hs : j.Sound pending) (hcur : j.current = some h) : h ∉ j.todo := by
  have hnd := hs.rest.sublist.nodup j.delivery.distinct
  rw [hcur] at hnd
  exact (nodup_cons.mp hnd).1

theorem todo_nil (hs : j.Sound pending) (hcur : j.current = some h)
    (hone : j.delivery.handlers = [h]) : j.todo = [] := by
  refine eq_nil_iff_forall_not_mem.mpr fun g hg => ?_
  have hmem := hs.suffix_todo.mem hg
  rw [hone, mem_singleton] at hmem
  exact hs.current_not_mem_todo hcur (hmem ▸ hg)

theorem begin_plain (d : Delivery) (n : Nat) (hkey : d.explicit = none) : (d.job n).Sound [] where
  rest := suffix_rfl
  current _ h := nomatch h
  todo _ _ _ h := nomatch h
  explicit k h := by
    rw [show (d.job n).delivery.explicit = none from hkey] at h
    exact nomatch h
  between _ h := absurd rfl h
  untouched _ := rfl

theorem begin_keyed (d : Delivery) (n : Nat) (hkey : d.explicit = some k) :
    Job.Sound { d.job n with checked := [k], touched := true } [k] where
  rest := suffix_rfl
  current _ h := nomatch h
  todo _ _ _ hc _ := hc
  explicit k' h _ := by
    have heq : d.explicit = some k' := h
    rw [hkey, Option.some.injEq] at heq
    exact heq ▸ mem_singleton_self k
  between _ h := absurd rfl h
  untouched h := nomatch h

theorem keys_pending (hs : j.Sound pending) (htodo : j.todo = h :: rest)
    (hkey : ∀ k, h.declared = some k → k ∈ j.checked) (hk : j.delivery.guards k h) :
    k ∈ pending := by
  have hmem : h ∈ j.todo := htodo ▸ (.head _)
  refine hs.todo h hmem k ?_ hk
  rcases (Delivery.guards_iff _).mp hk with hexp | hdecl
  · exact hs.explicit k hexp (ne_nil_of_mem hmem)
  · exact hkey k hdecl

theorem enter (hs : j.Sound pending) (hcur : j.current = none) (htodo : j.todo = h :: rest)
    (hkey : ∀ k, h.declared = some k → k ∈ j.checked) : (j.enter h rest).Sound pending where
  rest := by
    have hsuf := hs.rest
    rw [hcur, htodo] at hsuf
    exact hsuf
  current h' heq k hk := by
    cases heq
    exact hs.keys_pending htodo hkey hk
  todo h' hmem := hs.todo h' (htodo ▸ mem_cons_of_mem h hmem)
  explicit k hexp _ := hs.explicit k hexp (htodo ▸ cons_ne_nil h rest)
  between heq := nomatch heq
  untouched := hs.untouched

theorem observe (hs : j.Sound pending) (k : String) (hcur : j.current = none)
    (htodo : j.todo = h :: rest) (hkey : h.declared = some k) :
    Job.Sound { j.enter h rest with checked := j.checked ++ [k], touched := true }
      (pending ++ [k]) where
  rest := by
    have hsuf := hs.rest
    rw [hcur, htodo] at hsuf
    exact hsuf
  current h' heq k' hk := by
    cases heq
    rcases (Delivery.guards_iff _).mp hk with hexp | hdecl
    · have hmem : h ∈ j.todo := htodo ▸ (.head _)
      exact mem_append_left _ (hs.todo h hmem k' (hs.explicit k' hexp (ne_nil_of_mem hmem)) hk)
    · rw [hkey, Option.some.injEq] at hdecl
      exact hdecl ▸ mem_concat_self
  todo h' hmem k' hk' hguard := by
    rcases mem_append.mp hk' with hk' | hk'
    · exact mem_append_left _ (hs.todo h' (htodo ▸ mem_cons_of_mem h hmem) k' hk' hguard)
    · exact mem_append_right _ hk'
  explicit k' hexp _ := mem_append_left _ (hs.explicit k' hexp (htodo ▸ cons_ne_nil h rest))
  between heq := nomatch heq
  untouched heq := nomatch heq

theorem skip (hs : j.Sound []) (hcur : j.current = none) (htodo : j.todo = h :: rest) :
    (j.skip rest).Sound [] where
  rest := by
    have hsuf := hs.rest
    rw [htodo] at hsuf
    refine List.IsSuffix.trans ?_ hsuf
    rw [show (j.skip rest).current = none from hcur, hcur]
    exact suffix_cons h rest
  current h' heq := by
    rw [show (j.skip rest).current = none from hcur] at heq
    exact nomatch heq
  todo h' hmem := hs.todo h' (htodo ▸ mem_cons_of_mem h hmem)
  explicit k hexp _ := hs.explicit k hexp (htodo ▸ cons_ne_nil h rest)
  between _ _ := rfl
  untouched _ := rfl

/-- The keys of a handler that is over guard no other one, so nothing has to stay pending. -/
theorem leave (hs : j.Sound pending) (hcur : j.current = some h)
    (halone : ∀ k ∈ pending, j.delivery.guarded k = [h]) : j.leave.Sound [] where
  rest := hs.suffix_todo
  current _ heq := nomatch heq
  todo g hmem k hk hguard := by
    have hpend : k ∈ pending := hs.todo g hmem k hk hguard
    have hg : g ∈ j.delivery.guarded k :=
      (Delivery.mem_guarded _).mpr ⟨hs.suffix_todo.mem hmem, hguard⟩
    rw [halone k hpend, mem_singleton] at hg
    exact absurd (hg ▸ hmem) (hs.current_not_mem_todo hcur)
  explicit := hs.explicit
  between _ _ := rfl
  untouched _ := rfl

end Job.Sound

/-- The lane that owns the instance finds everything that the relay needs. -/
theorem Handover.Sound.resume {q : Handover} (hq : q.Sound) : q.resume.Sound q.keys := by
  obtain ⟨hs, h, hcur, hone⟩ := hq
  have hnil : q.job.todo = [] := hs.todo_nil hcur hone
  refine ⟨hs.rest, hs.current, (nofun), fun _ _ hne => absurd hnil hne,
    fun hnone => ?_, fun hun => ?_⟩
  · rw [show q.resume.current = some h from hcur] at hnone
    exact nomatch hnone
  · simpa [Handover.resume] using hun

/-! ## Tables -/

/-- A chain has its marker. While it makes its calls, its rows are there, and they are those of its
handler; when it takes them back, the ones it took are gone. -/
def Chain.Sound (a : World) (i : String) (c : Chain) : Prop :=
  ⟨i, c.keys⟩ ∈ a.markers ∧
    match c.phase with
    | .calling => (∀ k ∈ c.keys, a.inbox k = true ∧ c.delivery.guarded k = [c.handler]) ∧
        ∀ k, c.committed.under k = true → k ∈ c.keys
    | .releasing left released => (∀ k ∈ left, k ∈ c.keys) ∧
        (released = true → ∀ k ∈ c.keys, k ∈ left ∨ a.inbox k = false)

/-- What holds of the tables: whose work a row stands for. -/
structure Kept (a : World) : Prop where
  chains : ∀ i c, a.chains i = some c → c.Sound a i
  rows : ∀ k, a.inbox k = true → a.held k = true ∨
    ∃ e ∈ a.effects, e.delivery.guarded k = [e.handler]
  under : ∀ e ∈ a.effects, ∀ k, e.under k = true → a.inbox k = true ∧ a.held k = false
  apart : ∀ m ∈ a.markers, ∀ m' ∈ a.markers,
    (m.inst = m'.inst ∨ ∃ k ∈ m.keys, k ∈ m'.keys) → m = m'
  once : ∀ k, a.effects.Pairwise fun e f => ¬ (e.under k = true ∧ f.under k = true)

variable {a b : World} {i : String} {c : Chain} {m : Marker}

theorem held_iff : a.held k ↔ ∃ m ∈ a.markers, k ∈ m.keys := by simp [held]

theorem held_eq_false_iff : a.held k = false ↔ ∀ m ∈ a.markers, k ∉ m.keys := by simp [held]

theorem mem_clear : m ∈ (a.clear i).markers ↔ m ∈ a.markers ∧ m.inst ≠ i := by simp [clear]

theorem inbox_record : (a.record keys).inbox k ↔ k ∈ keys ∨ a.inbox k := by
  simp [record]

theorem inbox_record_of_not_mem (hk : k ∉ keys) : (a.record keys).inbox k = a.inbox k := by
  simp [record, hk]

theorem inbox_forget : (a.forget keys).inbox k ↔ k ∉ keys ∧ a.inbox k := by
  simp [forget]

theorem Chain.Sound.of_rows (hc : c.Sound a i) (hm : ⟨i, c.keys⟩ ∈ b.markers)
    (hrow : ∀ k ∈ c.keys, b.inbox k = a.inbox k) : c.Sound b i := by
  refine ⟨hm, ?_⟩
  have hphase := hc.2
  revert hphase
  cases c.phase with
  | calling =>
    rintro ⟨hrows, hcover⟩
    exact ⟨fun k hk => ⟨(hrow k hk).trans (hrows k hk).1, (hrows k hk).2⟩, hcover⟩
  | releasing left released =>
    rintro ⟨hleft, hgone⟩
    exact ⟨hleft, fun hrel k hk => (hgone hrel k hk).imp_right (hrow k hk).trans⟩

theorem chains_erase (i' : String) (c' : Chain)
    (hc : (a.setChain i none).chains i' = some c') : i' ≠ i ∧ a.chains i' = some c' := by
  rcases update_eq_cases hc with ⟨-, ⟨⟩⟩ | hc
  exact hc

namespace Kept

/-- A step that touches no table, no chain and no work. -/
theorem of_eq (h : Kept a)
    (hchains : ∀ i c, b.chains i = some c → a.chains i = some c := by exact fun _ _ hc => hc)
    (hinbox : b.inbox = a.inbox := by rfl) (hmarkers : b.markers = a.markers := by rfl)
    (heffects : b.effects = a.effects := by rfl) : Kept b := by
  have hheld : ∀ k, b.held k = a.held k := fun k => by rw [held, held, hmarkers]
  refine ⟨fun i c hc => ?_, fun k hk => ?_, fun e he k hk => ?_, ?_, ?_⟩
  · rw [Chain.Sound, hmarkers, hinbox]
    exact h.chains i c (hchains i c hc)
  · rw [hheld, heffects]
    exact h.rows k (hinbox ▸ hk)
  · rw [hheld, hinbox]
    exact h.under e (heffects ▸ he) k hk
  · rw [hmarkers]
    exact h.apart
  · rw [heffects]
    exact h.once

/-- A row that a marker names is nobody's work yet. -/
theorem not_under (h : Kept a) (hm : m ∈ a.markers) (hk : k ∈ m.keys) {e : Committed}
    (he : e ∈ a.effects) : e.under k = false := by
  by_contra hne
  have hheld := (h.under e he k (eq_true_of_ne_false hne)).2
  exact held_eq_false_iff.mp hheld m hm hk

theorem commit {e : Committed} (h : Kept a) (hfree : a.Free keys)
    (halone : ∀ k ∈ keys, e.delivery.guarded k = [e.handler] ∧ a.held k = false)
    (hkeys : ∀ k, e.under k → k ∈ keys) : Kept ((a.record keys).addEffect e) where
  chains i' c' hc := by
    have hsound := h.chains i' c' hc
    refine hsound.of_rows hsound.1 fun k hk => inbox_record_of_not_mem fun hin => ?_
    exact held_eq_false_iff.mp (halone k hin).2 _ hsound.1 hk
  rows k hk := by
    rcases inbox_record.mp hk with hk | hk
    · exact .inr ⟨e, mem_concat_self, (halone k hk).1⟩
    · refine (h.rows k hk).imp_right ?_
      rintro ⟨f, hf, hguard⟩
      exact ⟨f, mem_append_left _ hf, hguard⟩
  under f hf k hk := by
    rcases mem_append.mp hf with hf | hf
    · exact ⟨inbox_record.mpr (.inr (h.under f hf k hk).1), (h.under f hf k hk).2⟩
    · rw [mem_singleton.mp hf] at hk
      exact ⟨inbox_record.mpr (.inl (hkeys k hk)), (halone k (hkeys k hk)).2⟩
  apart := h.apart
  once k := by
    refine pairwise_append.mpr ⟨h.once k, pairwise_singleton _ _, fun f hf g hg => ?_⟩
    rw [mem_singleton.mp hg]
    rintro ⟨hfk, hek⟩
    have hno := hfree.2 k (hkeys k hek)
    rw [(h.under f hf k hfk).1] at hno
    exact nomatch hno

theorem launch (h : Kept a) (hfree : a.Free c.keys) (hphase : c.phase = .calling)
    (halone : ∀ k ∈ c.keys, c.delivery.guarded k = [c.handler] ∧ a.held k = false)
    (hkeys : ∀ k, c.committed.under k → k ∈ c.keys) (hinst : ∀ m ∈ a.markers, m.inst ≠ i)
    (hinbox : b.inbox = (a.record c.keys).inbox)
    (hmarkers : b.markers = (a.clear i).markers ++ [⟨i, c.keys⟩])
    (hchains : b.chains = (a.setChain i (some c)).chains) (heffects : b.effects = a.effects) :
    Kept b := by
  have hmem : ∀ m, m ∈ b.markers ↔ m ∈ a.markers ∨ m = ⟨i, c.keys⟩ := fun m => by
    rw [hmarkers, mem_append, mem_singleton, mem_clear]
    exact or_congr_left ⟨And.left, fun hm => ⟨hm, hinst m hm⟩⟩
  have hrow : ∀ k, b.inbox k ↔ k ∈ c.keys ∨ a.inbox k := fun k => by
    rw [hinbox]
    exact inbox_record
  refine ⟨fun i' c' hc' => ?_, fun k hk => ?_, fun e he k hk => ?_,
    fun m hm m' hm' hshare => ?_, ?_⟩
  · rw [hchains] at hc'
    rcases update_eq_cases hc' with ⟨rfl, ⟨⟩⟩ | ⟨heq, hc'⟩
    · rw [Chain.Sound, hphase]
      exact ⟨(hmem _).mpr (.inr rfl), fun k hk => ⟨(hrow k).mpr (.inl hk), (halone k hk).1⟩, hkeys⟩
    · have hsound := h.chains i' c' hc'
      refine hsound.of_rows ((hmem _).mpr (.inl hsound.1)) fun k hk => ?_
      rw [hinbox]
      refine inbox_record_of_not_mem fun hin => ?_
      exact held_eq_false_iff.mp (halone k hin).2 _ hsound.1 hk
  · rcases (hrow k).mp hk with hk | hk
    · exact .inl (held_iff.mpr ⟨_, (hmem _).mpr (.inr rfl), hk⟩)
    · rw [heffects]
      refine (h.rows k hk).imp_left fun hheld => ?_
      obtain ⟨m, hm, hkm⟩ := held_iff.mp hheld
      exact held_iff.mpr ⟨m, (hmem m).mpr (.inl hm), hkm⟩
  · obtain ⟨hin, hheld⟩ := h.under e (heffects ▸ he) k hk
    refine ⟨(hrow k).mpr (.inr hin), held_eq_false_iff.mpr fun m hm hkm => ?_⟩
    rcases (hmem m).mp hm with hm | rfl
    · exact held_eq_false_iff.mp hheld m hm hkm
    · rw [hfree.2 k hkm] at hin
      exact nomatch hin
  · -- an old marker shares neither its instance nor a key with the new one
    have hnew : ∀ m₀ ∈ a.markers, ¬ (m₀.inst = i ∨ ∃ k ∈ m₀.keys, k ∈ c.keys) := by
      rintro m₀ hm₀ (hi | ⟨k, hk₀, hk⟩)
      · exact hinst m₀ hm₀ hi
      · exact held_eq_false_iff.mp (halone k hk).2 m₀ hm₀ hk₀
    rcases (hmem m).mp hm with hm | rfl <;> rcases (hmem m').mp hm' with hm' | rfl
    · exact h.apart m hm m' hm' hshare
    · exact absurd hshare (hnew m hm)
    · refine absurd (hshare.imp Eq.symm ?_) (hnew m' hm')
      rintro ⟨k, hk, hk'⟩
      exact ⟨k, hk', hk⟩
    · rfl
  · rw [heffects]
    exact h.once

theorem settleMarker (h : Kept a) (new : List Committed) (hm : m ∈ a.markers)
    (hmarkers : b.markers = (a.clear m.inst).markers)
    (hchains : ∀ i c, b.chains i = some c → i ≠ m.inst ∧ a.chains i = some c)
    (heffects : b.effects = a.effects ++ new) (honce : new.length ≤ 1)
    (hother : ∀ k ∉ m.keys, b.inbox k = a.inbox k)
    (hown : ∀ k ∈ m.keys, b.inbox k → ∃ e ∈ new, e.delivery.guarded k = [e.handler])
    (hnew : ∀ e ∈ new, ∀ k, e.under k → k ∈ m.keys ∧ b.inbox k) : Kept b := by
  have hmem : ∀ m', m' ∈ b.markers ↔ m' ∈ a.markers ∧ m'.inst ≠ m.inst := fun m' => by
    rw [hmarkers]
    exact mem_clear
  have hfree : ∀ k ∈ m.keys, b.held k = false := fun k hk => by
    refine held_eq_false_iff.mpr fun m' hm' hk' => ?_
    obtain ⟨hm', hne⟩ := (hmem m').mp hm'
    exact hne (congrArg Marker.inst (h.apart m' hm' m hm (.inr ⟨k, hk', hk⟩)))
  refine ⟨fun i c hc => ?_, fun k hk => ?_, fun e he k hk => ?_, fun m₁ h₁ m₂ h₂ => ?_, fun k => ?_⟩
  · obtain ⟨hne, hc⟩ := hchains i c hc
    have hsound := h.chains i c hc
    refine hsound.of_rows ((hmem _).mpr ⟨hsound.1, hne⟩) fun k hk => hother k fun hk' => hne ?_
    exact congrArg Marker.inst (h.apart _ hsound.1 m hm (.inr ⟨k, hk, hk'⟩))
  · rw [heffects]
    by_cases hkm : k ∈ m.keys
    · obtain ⟨e, he, hguard⟩ := hown k hkm hk
      exact .inr ⟨e, mem_append_right _ he, hguard⟩
    · rcases h.rows k (hother k hkm ▸ hk) with hheld | ⟨e, he, hguard⟩
      · obtain ⟨m', hm', hk'⟩ := held_iff.mp hheld
        refine .inl (held_iff.mpr ⟨m', (hmem m').mpr ⟨hm', fun heq => hkm ?_⟩, hk'⟩)
        exact h.apart m' hm' m hm (.inl heq) ▸ hk'
      · exact .inr ⟨e, mem_append_left _ he, hguard⟩
  · rw [heffects] at he
    rcases mem_append.mp he with he | he
    · obtain ⟨hin, hheld⟩ := h.under e he k hk
      have hkm : k ∉ m.keys := held_eq_false_iff.mp hheld m hm
      refine ⟨(hother k hkm).trans hin, held_eq_false_iff.mpr fun m' hm' => ?_⟩
      exact held_eq_false_iff.mp hheld m' ((hmem m').mp hm').1
    · exact ⟨(hnew e he k hk).2, hfree k (hnew e he k hk).1⟩
  · exact h.apart m₁ ((hmem m₁).mp h₁).1 m₂ ((hmem m₂).mp h₂).1
  · rw [heffects]
    refine pairwise_append.mpr ⟨h.once k, ?_, fun e he f hf => ?_⟩
    · match new, honce with
      | [], _ => exact .nil
      | [e], _ => exact pairwise_singleton _ _
    · rintro ⟨hek, hfk⟩
      rw [h.not_under hm (hnew f hf k hfk).1 he] at hek
      exact nomatch hek

/-- The chain of an instance changes, and with it only rows that it names. -/
theorem setChain {c' : Chain} (h : Kept a) (hc : a.chains i = some c)
    (hmarkers : b.markers = a.markers) (hchains : b.chains = (a.setChain i (some c')).chains)
    (heffects : b.effects = a.effects) (hsound : c'.Sound b i)
    (hother : ∀ k ∉ c.keys, b.inbox k = a.inbox k)
    (hown : ∀ k ∈ c.keys, b.inbox k → a.inbox k) : Kept b := by
  have hheld : ∀ k, b.held k = a.held k := fun k => by rw [held, held, hmarkers]
  have hmark := (h.chains i c hc).1
  refine ⟨fun i₁ c₁ hc₁ => ?_, fun k hk => ?_, fun e he k hk => ?_, ?_, ?_⟩
  · rw [hchains] at hc₁
    rcases update_eq_cases hc₁ with ⟨rfl, ⟨⟩⟩ | ⟨heq, hc₁⟩
    · exact hsound
    · have hs₁ := h.chains i₁ c₁ hc₁
      refine hs₁.of_rows (hmarkers ▸ hs₁.1) fun k hk => hother k fun hk' => heq ?_
      exact congrArg Marker.inst (h.apart _ hs₁.1 _ hmark (.inr ⟨k, hk, hk'⟩))
  · rw [hheld, heffects]
    by_cases hkc : k ∈ c.keys
    · exact h.rows k (hown k hkc hk)
    · exact h.rows k (hother k hkc ▸ hk)
  · obtain ⟨hin, hno⟩ := h.under e (heffects ▸ he) k hk
    rw [hheld]
    exact ⟨(hother k (held_eq_false_iff.mp hno _ hmark)).trans hin, hno⟩
  · rw [hmarkers]
    exact h.apart
  · rw [heffects]
    exact h.once

end Kept

/-! ## The invariant -/

/-- **Records and work agree**, and no job will part them. -/
structure Sound (a : World) : Prop where
  lanes : ∀ l, (a.lanes l).Sound
  transit : ∀ q ∈ a.transit, q.Sound
  kept : Kept a

namespace Sound

variable {l : String} {lane : Lane} {x : Event} {xs : List Event}

theorem initial : Sound World.initial where
  lanes _ := rfl
  transit _ hq := nomatch hq
  kept :=
    { chains := nofun
      rows := nofun
      under := nofun
      apart := nofun
      once := fun _ => .nil }

theorem setLane (h : Sound a) (hlane : lane.Sound) (hlanes : b.lanes = (a.setLane l lane).lanes)
    (htransit : ∀ q ∈ b.transit, q.Sound) (hkept : Kept b) : Sound b := by
  refine ⟨fun l' => ?_, htransit, hkept⟩
  rw [hlanes]
  exact update_of Lane.Sound (fun _ => hlane) fun _ => h.lanes l'

theorem ofLane (h : Sound a) (hlane : lane.Sound)
    (hlanes : b.lanes = (a.setLane l lane).lanes := by rfl)
    (htransit : b.transit = a.transit := by rfl) (hinbox : b.inbox = a.inbox := by rfl)
    (hmarkers : b.markers = a.markers := by rfl) (hchains : b.chains = a.chains := by rfl)
    (heffects : b.effects = a.effects := by rfl) : Sound b :=
  h.setLane hlane hlanes (htransit ▸ h.transit)
    (h.kept.of_eq (fun _ _ hc => hchains ▸ hc) hinbox hmarkers heffects)

/-- The chains and the tables go on, and the lanes stay. -/
theorem ofKept (h : Sound a) (hkept : Kept b) (hlanes : b.lanes = a.lanes := by rfl)
    (htransit : b.transit = a.transit := by rfl) : Sound b :=
  ⟨hlanes ▸ h.lanes, htransit ▸ h.transit, hkept⟩

theorem running (h : Sound a) (hlane : (a.lanes l).activity = .running j) :
    j.Sound (a.lanes l).pending := sound_of_running (h.lanes l) hlane

/-- **Every step that meets the condition keeps it.** -/
theorem step (h : Sound a) (hstep : CleanStep a x b) : Sound b := by
  obtain ⟨hstep, hclean⟩ := hstep
  cases hstep with
  | beginPlain l d hidle hkey =>
    refine h.ofLane ?_
    rw [sound_of_idle (h.lanes l) hidle]
    exact Job.Sound.begin_plain d a.next hkey
  | beginKeyed l d k c hidle hkey hc =>
    have hnil := sound_of_idle (h.lanes l) hidle
    refine h.ofLane ?_
    cases c with
    | first =>
      rw [observe, hnil]
      exact Job.Sound.begin_keyed d a.next hkey
    | duplicate => exact sound_settle hnil
    | inDoubt => exact sound_idle
    | unavailable => exact sound_idle
  | enterPlain l j g rest hlane hcur htodo hkey =>
    refine h.ofLane ?_
    exact (h.running hlane).enter hcur htodo hkey
  | enterKeyed l j g rest k c hlane hcur htodo hkey hnew hc =>
    refine h.ofLane ?_
    have hj := h.running hlane
    cases c with
    | first => exact hj.observe k hcur htodo hkey
    | duplicate =>
      rw [hclean rfl] at hj
      rw [observe, hclean rfl]
      exact hj.skip hcur htodo
    | inDoubt => exact sound_idle
    | unavailable => exact sound_idle
  | commit l j g hlane hcur hfree =>
    have hj := h.running hlane
    have halone := hclean j g hlane hcur
    refine h.setLane ?_ rfl h.transit ?_
    · exact hj.leave hcur fun k hk => (halone k hk).1
    · exact (h.kept.commit (e := j.committed g) hfree halone fun k hk =>
        hj.current g hcur k hk).of_eq
  | rollback l j g hlane hcur =>
    exact h.ofLane sound_idle
  | silent l j g hlane hcur =>
    refine h.ofLane ?_
    have hj := h.running hlane
    have hnil : (a.lanes l).pending = [] := hclean
    rw [hnil] at hj ⊢
    exact hj.leave hcur nofun
  | fail l j hlane =>
    refine h.ofLane ?_
    rw [fail]
    cases htouch : j.touched with
    | true => exact sound_idle
    | false => exact (h.running hlane).untouched htouch
  | finish l j hlane hcur htodo hsome =>
    have hnil := (h.running hlane).between hcur (htodo ▸ hsome.symm)
    refine h.ofLane ?_
    split
    · exact sound_settle hnil
    · exact hnil
  | settle l k ks hlane | settleLost l k ks hlane =>
    exact nomatch (sound_of_settling (h.lanes l) hlane).1
  | settled l hlane =>
    refine h.ofLane ?_
    exact (sound_of_settling (h.lanes l) hlane).2
  | panic l j hlane =>
    refine h.ofLane ?_
    exact hclean
  | crash dead =>
    refine ⟨fun l => ?_, h.transit, h.kept.of_eq fun i c hc => ?_⟩
    · change Lane.Sound (if dead l = true then ⟨[], .idle⟩ else a.lanes l)
      split
      · exact sound_idle
      · exact h.lanes l
    · exact (Option.filter_eq_some_iff.mp hc).1
  | handOver l j g hlane hcur hone =>
    refine h.setLane sound_idle rfl (fun q hq => ?_) h.kept.of_eq
    rcases mem_append.mp hq with hq | hq
    · exact h.transit q hq
    · rw [mem_singleton.mp hq]
      exact ⟨h.running hlane, g, hcur, hone⟩
  | takeOver l q pre post hidle hq =>
    have hmem : ∀ q' ∈ pre ++ post, q' ∈ a.transit := fun q' hq' =>
      hq ▸ (sublist_append_right [q] post).append_left pre |>.mem hq'
    refine h.setLane ?_ rfl (fun q' hq' => h.transit q' (hmem q' hq')) h.kept.of_eq
    rw [sound_of_idle (h.lanes l) hidle, nil_append]
    exact (h.transit q (hq ▸ mem_append_right _ (.head _))).resume
  | lose q pre post hq =>
    refine ⟨h.lanes, fun q' hq' => h.transit q' ?_, h.kept.of_eq⟩
    exact hq ▸ (sublist_append_right [q] post).append_left pre |>.mem hq'
  | launch l i j g hlane hcur hone hnew hfree =>
    have hj := h.running hlane
    have halone := hclean.1 j g hlane hcur
    refine h.setLane sound_idle rfl h.transit ?_
    exact h.kept.launch (c := ⟨l, j.number, j.delivery, g, (a.lanes l).pending, .calling⟩) hfree rfl
      halone (fun k hk => hj.current g hcur k hk) hclean.2 rfl rfl rfl rfl
  | chainCommit i c hchain hphase =>
    obtain ⟨hmark, hcall⟩ := h.kept.chains i c hchain
    rw [hphase] at hcall
    refine h.ofKept (h.kept.settleMarker [c.committed] hmark rfl ?_ rfl (Nat.le_refl 1)
      (fun _ _ => rfl) (fun k hk _ => ?_) fun e he k hk => ?_)
    · exact chains_erase
    · exact ⟨_, mem_singleton_self _, (hcall.1 k hk).2⟩
    · rw [mem_singleton.mp he] at hk
      exact ⟨hcall.2 k hk, (hcall.1 k (hcall.2 k hk)).1⟩
  | chainFail i c hchain hphase =>
    refine h.ofKept (h.kept.setChain hchain rfl rfl rfl ?_ (fun _ _ => rfl) fun _ _ hk => hk)
    exact ⟨(h.kept.chains i c hchain).1, fun k hk => hk, fun _ k hk => .inl hk⟩
  | chainForget i k ks released c hchain hphase =>
    obtain ⟨hmark, hrel⟩ := h.kept.chains i c hchain
    rw [hphase] at hrel
    have hk : k ∈ c.keys := hrel.1 k (.head _)
    refine h.ofKept (h.kept.setChain hchain rfl rfl rfl ⟨hmark, ?_, fun hall k' hk' => ?_⟩
      (fun k' hk' => ?_) fun k' _ hin => (inbox_forget.mp hin).2)
    · exact fun k' hk' => hrel.1 k' (.tail _ hk')
    · -- the key that was taken back just now, or one that is gone already
      rw [Bool.and_eq_true] at hall
      by_cases heq : k' = k
      · exact .inr (by simp [setChain, forget, heq])
      · refine (hrel.2 hall.1 k' hk').imp (fun hin => mem_of_ne_of_mem heq hin) fun hno => ?_
        simp [setChain, forget, hno]
    · have hne : k' ≠ k := fun heq => hk' (heq ▸ hk)
      simp [setChain, forget, hne]
  | chainForgetLost i k ks released c hchain hphase =>
    obtain ⟨hmark, hrel⟩ := h.kept.chains i c hchain
    rw [hphase] at hrel
    refine h.ofKept (h.kept.setChain hchain rfl rfl rfl ⟨hmark, ?_, nofun⟩ (fun _ _ => rfl)
      fun _ _ hk => hk)
    exact fun k' hk' => hrel.1 k' (.tail _ hk')
  | chainEnd i c hchain hphase =>
    obtain ⟨hmark, hrel⟩ := h.kept.chains i c hchain
    rw [hphase] at hrel
    refine h.ofKept (h.kept.settleMarker [] hmark rfl chains_erase
      (append_nil _).symm (Nat.zero_le 1) (fun _ _ => rfl) (fun k hk hin => ?_)
      nofun)
    have hno := (hrel.2 rfl k hk).resolve_left not_mem_nil
    rw [show a.inbox k = true from hin] at hno
    exact nomatch hno
  | chainEndMarked i released c hchain hphase =>
    exact h.ofKept (h.kept.of_eq fun i' c' hc' => (chains_erase i' c' hc').2)
  | scan => exact ⟨h.lanes, h.transit, h.kept.of_eq⟩
  | sweep m hm =>
    refine h.ofKept (h.kept.settleMarker [] hclean.1 rfl (fun i c hc => ⟨?_, hc⟩)
      (append_nil _).symm (Nat.zero_le 1) (fun k hk => ?_) (fun k hk hin => ?_)
      nofun)
    · intro heq
      have hgone : a.chains i = none := heq ▸ hclean.2
      rw [show a.chains i = some c from hc] at hgone
      exact nomatch hgone
    · simp [clear, forget, hk]
    · exact absurd hk (inbox_forget.mp hin).1

theorem run (hrun : Run CleanStep World.initial xs a) : Sound a :=
  hrun.invariant (fun _ _ _ _ hstep h => h.step hstep) initial

end Sound

/-! ## What it comes to -/

/-- Some delivery with the key has its work committed, for each of the handlers that run under the
key. -/
def World.Done (a : World) (k : String) : Prop :=
  ∃ n d, d.guarded k ≠ [] ∧ ∀ h ∈ d.guarded k, ⟨n, d, h⟩ ∈ a.effects

theorem check_eq_duplicate : a.check k = .duplicate ↔ a.inbox k ∧ a.held k = false := by
  rw [check]
  cases a.inbox k <;> cases a.held k <;> simp

theorem Kept.done_iff (h : Kept a) : a.check k = .duplicate ↔ a.Done k := by
  rw [check_eq_duplicate]
  constructor
  · rintro ⟨hin, hheld⟩
    obtain ⟨e, he, hguard⟩ := (h.rows k hin).resolve_left (by rw [hheld]; exact nofun)
    refine ⟨e.number, e.delivery, hguard ▸ cons_ne_nil _ _, fun g hg => ?_⟩
    rw [hguard, mem_singleton] at hg
    exact hg ▸ he
  · rintro ⟨n, d, hne, hall⟩
    obtain ⟨g, hg⟩ := exists_mem_of_ne_nil _ hne
    exact h.under ⟨n, d, g⟩ (hall g hg) k ((Delivery.mem_guarded d).mp hg).2

/-- **A commit records all pending keys, and has done the work of those that guard its handler
alone.** -/
theorem commit_records (h : Kept a) {l : String} {j : Job} {g : Handler}
    (hlane : (a.lanes l).activity = .running j) (hcur : j.current = some g)
    (hstep : Step a (.commit l) b) (hk : k ∈ (a.lanes l).pending) :
    b.inbox k = true ∧ (b.Done k ↔ j.delivery.guarded k = [g]) := by
  cases hstep with
  | commit _ j' g' hlane' hcur' hfree =>
    cases hlane.symm.trans hlane'
    cases hcur.symm.trans hcur'
    refine ⟨inbox_record.mpr (.inl hk), ?_, fun hguard => ⟨j.number, j.delivery, ?_, ?_⟩⟩
    · rintro ⟨n, d, hne, hall⟩
      -- before the commit nothing was done under the key, for it was not recorded
      have hnew : ∀ h' ∈ d.guarded k, (⟨n, d, h'⟩ : Committed) = j.committed g := by
        intro h' hh'
        rcases mem_append.mp (hall h' hh') with hold | hnew
        · have hrow := (h.under _ hold k ((Delivery.mem_guarded d).mp hh').2).1
          rw [hfree.2 k hk] at hrow
          cases hrow
        · exact mem_singleton.mp hnew
      obtain ⟨h', hh'⟩ := exists_mem_of_ne_nil _ hne
      cases hnew h' hh'
      refine perm_singleton.mp ((perm_ext_iff_of_nodup (j.delivery.distinct.filter _)
        (nodup_singleton _)).mpr fun f => ?_)
      rw [mem_singleton]
      constructor
      · intro hf
        cases hnew f hf
        rfl
      · rintro rfl
        exact hh'
    · rw [hguard]
      exact cons_ne_nil _ _
    · intro f hf
      rw [hguard, mem_singleton] at hf
      rw [hf]
      exact mem_append_right _ (mem_singleton_self _)

/-- **A key is recorded exactly when its work is committed, and at most once.**  In every run of
steps that meet the condition: the record of a key that no marker names is there if and only if some
delivery with that key has its work committed for all the handlers under the key; of a key that a
marker names nothing is committed; and no two pieces of committed work were done by one handler
under one key. From there on a commit by any lane records its keys, and leaves work undone under
each of them that guards another handler. -/
theorem recorded_iff_committed {xs : List Event} {a : World}
    (hrun : Run CleanStep World.initial xs a) :
    (∀ k, a.held k = false → (a.inbox k = true ↔ a.Done k)) ∧
    (∀ k, a.held k = true → ¬a.Done k) ∧
    (∀ k, a.effects.Pairwise fun e f =>
      ¬ (e.under k = true ∧ f.under k = true ∧ e.handler.id = f.handler.id)) ∧
    ∀ l j h b, (a.lanes l).activity = .running j → j.current = some h → Step a (.commit l) b →
      ∀ k ∈ (a.lanes l).pending, b.inbox k = true ∧ (b.Done k ↔ j.delivery.guarded k = [h]) := by
  have hkept := (Sound.run hrun).kept
  refine ⟨fun k hheld => ?_, fun k hheld hdone => ?_,
    fun k => (hkept.once k).imp fun {e f} hno => ?_,
    fun l j h b hlane hcur hstep k hk => commit_records hkept hlane hcur hstep hk⟩
  · rw [← hkept.done_iff, check_eq_duplicate, and_iff_left hheld]
  · rw [(check_eq_duplicate.mp (hkept.done_iff.mpr hdone)).2] at hheld
    cases hheld
  · rintro ⟨he, hf, -⟩
    exact hno ⟨he, hf⟩

/-! ### A broadcast -/

/-- Two processes subscribe to the channel. -/
def billing : Handler := ⟨"billing", none⟩

def shipping : Handler := ⟨"shipping", none⟩

/-- An order with an event id, for both of them. -/
def order : Delivery := ⟨some "order-7", [billing, shipping], by decide⟩

def parcel : Delivery := ⟨some "order-7", [shipping], by decide⟩

/-- The one handler of a delivery fails, the redelivery commits, and a third one is a duplicate. -/
theorem redelivery_commits :
    ∃ xs a, Run CleanStep World.initial xs a ∧ a.check "order-7" = .duplicate ∧
      a.inbox "order-7" = true ∧ a.Done "order-7" := by
  have hrun : Run CleanStep .initial _ _ :=
    .cons ⟨.beginKeyed "lane" parcel "order-7" .first rfl rfl (.inr rfl), trivial⟩ <|
    .cons ⟨.enterPlain "lane" _ shipping [] rfl rfl rfl nofun, nofun⟩ <|
    .cons ⟨.fail "lane" _ rfl, trivial⟩ <|
    .cons ⟨.beginKeyed "lane" parcel "order-7" .first rfl rfl (.inr rfl), trivial⟩ <|
    .cons ⟨.enterPlain "lane" _ shipping [] rfl rfl rfl nofun, nofun⟩ <|
    .cons ⟨.commit "lane" _ shipping rfl rfl ⟨by decide, by decide⟩, by
      intro j h hj hh k hk
      cases hj
      cases hh
      cases mem_singleton.mp hk
      exact ⟨rfl, rfl⟩⟩ <|
    .nil _
  exact ⟨_, _, hrun, rfl, rfl, ((recorded_iff_committed hrun).1 "order-7" rfl).mp rfl⟩

/-- The first handler of a broadcast commits and the second fails. The key is recorded all the
same: a redelivery is a duplicate, and the second handler never runs. -/
theorem broadcast_loses_handler :
    ∃ xs a, Run Step World.initial xs a ∧ a.check "order-7" = .duplicate ∧ ¬ a.Done "order-7" ∧
      (∃ b, Step a (.begin "lane" order .duplicate) b ∧
        (b.lanes "lane").activity = .settling []) := by
  refine ⟨_, _,
    .cons (.beginKeyed "lane" order "order-7" .first rfl rfl (.inr rfl)) <|
    .cons (.enterPlain "lane" _ billing [shipping] rfl rfl rfl nofun) <|
    .cons (.commit "lane" _ billing rfl rfl ⟨by decide, by decide⟩) <|
    .cons (.enterPlain "lane" _ shipping [] rfl rfl rfl nofun) <|
    .cons (.fail "lane" _ rfl) <|
    .nil _, rfl, ?_, _, .beginKeyed "lane" order "order-7" .duplicate rfl rfl (.inr rfl), rfl⟩
  rintro ⟨n, d, hne, hall⟩
  obtain ⟨g, hg⟩ := exists_mem_of_ne_nil _ hne
  cases mem_singleton.mp (hall g hg)
  exact nomatch mem_singleton.mp (hall shipping (by decide))

end Sutra.Inbox
