import Sutra.Lib.Prog
import Sutra.Migration.Commit

/-!
# What a migration moves

A migration that commits leaves nothing of the instance under the source but its capacity slots, and
its journal when that is not carried. The sweep releases the slots there while the instance runs on
under the target. Two more things are read off the wait rows. A mapping is refused when it folds
any two of them, be they history or parked; and which waits a failure tore down is told from the
times of their resolutions.

* `commit_ok`, `commit_folded`: what a migration that commits has written, and when it is refused
  for a folded node.
* `FailureClear.rearm_iff`, `FailureClear.liveParkRows_eq`, `failureClear_of_parks`: when a resume
  brings back what was pending.
* `moves_everything_once`: for each part of the statement, what the code does and exactly when that
  is what was meant.
* `migration_loses_track`: an instance for each part where it is not.
-/

namespace Sutra.Migration

open List Function Option Except InstanceMigration Rows

open Store (Instant Status Stored)

/-- An instance, under the deployment that it is pinned to. -/
structure StoredInstance (B : Type) where
  home : String
  rows : Rows B

namespace StoredInstance

variable {B : Type}

/-- The tables in which the instance is the only one. -/
def database (s : StoredInstance B) (taken : String → String × String → Bool) : Database B where
  rows := fun d => if d = s.home then s.rows else .empty
  taken := taken

/-- The parks that a validation classifies. -/
def parks (s : StoredInstance B) : List (String × Bool) :=
  match s.rows.instanceState with
  | none => []
  | some r => liveParkRows r.serialised.status r.serialised.waitingNodes s.rows.waits.rows

def commitFailed (s : StoredInstance B) (now : Instant) : StoredInstance B :=
  { s with rows := s.rows.commitFailed now }

end StoredInstance

/-! ## The check -/

namespace InstanceMigration

variable {B : Type} {m : InstanceMigration B}

theorem firstFold_eq_none {seen l : List String} :
    firstFold seen l = none ↔ l.Nodup ∧ ∀ n ∈ l, n ∉ seen := by
  induction l generalizing seen with
  | nil => simp [firstFold]
  | cons n rest ih =>
    rw [firstFold]
    split <;> rename_i hn
    · simp [hn]
    · rw [ih, nodup_cons]
      simp only [mem_cons, forall_eq_or_imp, not_or]
      constructor
      · rintro ⟨hnodup, hall⟩
        exact ⟨⟨fun hmem => (hall n hmem).1 rfl, hnodup⟩, hn, fun x hx => (hall x hx).2⟩
      · rintro ⟨⟨hnot, hnodup⟩, -, hall⟩
        exact ⟨hnodup, fun x hx => ⟨fun h => hnot (h ▸ hx), hall x hx⟩⟩

/-- The instance is there, unfinished, and claimed by the migration. -/
def Claimed (m : InstanceMigration B) (src : Rows B) : Prop :=
  m.fromDeployment ≠ m.toDeployment ∧ ∃ owned, src.instanceState = some owned ∧
    owned.terminalAt = none ∧ owned.claimOwner = some m.claimOwner

/-- Two wait rows have one target. -/
def Folds (m : InstanceMigration B) (src : Rows B) : Prop :=
  ∃ r ∈ src.waits.rows, ∃ r' ∈ src.waits.rows,
    r.nodeId ≠ r'.nodeId ∧ m.mapNode r.nodeId = m.mapNode r'.nodeId

theorem nodup_mapNode {src : Rows B} (h : ¬ m.Folds src) :
    (src.waits.rows.map fun r => m.mapNode r.nodeId).Nodup := by
  have hnodup : src.waits.rows.Nodup := .of_map _ src.waits.nodup
  refine List.Nodup.map_on (fun r hr r' hr' heq => ?_) hnodup
  by_contra hne
  exact h ⟨r, hr, r', hr', fun hid => hne (src.waits.eq_of_key hr hr' hid), heq⟩

theorem not_folds_of_nodup {src : Rows B}
    (h : (src.waits.rows.map fun r => m.mapNode r.nodeId).Nodup) : ¬ m.Folds src := by
  rintro ⟨r, hr, r', hr', hne, heq⟩
  exact hne (congrArg WaitRow.nodeId (inj_on_of_nodup_map h hr hr' heq))

theorem checkSource_eq {src : Rows B} :
    (m.checkSource src = .ok () ↔ m.Claimed src ∧ ¬ m.Folds src) ∧
      ((∃ n, m.checkSource src = .error (.foldedNode n)) ↔ m.Claimed src ∧ m.Folds src) := by
  rw [checkSource]
  split <;> rename_i hpin
  · simp [Claimed, hpin]
  split <;> rename_i howned
  · simp [Claimed, howned]
  split <;> rename_i hterminal
  · simp [Claimed, howned, isSome_iff_ne_none.mp hterminal]
  split <;> rename_i hclaim
  · simp [Claimed, howned, hclaim]
  rename_i owned
  have hclaimed : m.Claimed src :=
    ⟨hpin, owned, howned, not_isSome_iff_eq_none.mp hterminal, not_not.mp hclaim⟩
  split <;> rename_i hfold
  · have hfolds : m.Folds src := by
      by_contra hnot
      have hnone : firstFold [] _ = none := firstFold_eq_none.mpr ⟨nodup_mapNode hnot, nofun⟩
      exact nomatch hfold.symm.trans hnone
    simp [hclaimed, hfolds]
  · have hnot : ¬ m.Folds src := not_folds_of_nodup (firstFold_eq_none.mp hfold).1
    simp [hclaimed, hnot]

theorem rows_of_writeAlias {taken : String × String → Bool} {l : List AliasRow}
    {t t' : Table fun r => (r.aliasName, r.aliasValue)}
    (hnodup : ((t.rows ++ l).map fun r => (r.aliasName, r.aliasValue)).Nodup)
    (h : l.foldlM (writeAlias taken) t = .ok t') : t'.rows = t.rows ++ l := by
  induction l generalizing t with
  | nil =>
    cases h
    simp
  | cons r l ih =>
    have hr : (r.aliasName, r.aliasValue) ∉ t.rows.map fun r => (r.aliasName, r.aliasValue) := by
      rw [map_append, List.map_cons] at hnodup
      exact fun hmem => (nodup_append.mp hnodup).2.2 _ hmem _ (.head _) rfl
    obtain ⟨t₁, ht₁, hrows⟩ := Table.insert?_of_notMem hr
    rw [foldlM_cons, writeAlias, ht₁] at h
    split at h <;> rename_i hinsert
    · split at hinsert
      · cases hinsert
      · cases hinsert
        rw [ih (by rw [hrows]; simpa using hnodup) h, hrows]
        simp
    · -- the alias is in the way of a live unique one, which is an error
      split at hinsert <;> rename_i htaken
      · rw [if_pos (Bool.and_eq_true_iff.mp htaken).1] at h
        cases h
      · cases hinsert

theorem rows_of_writeWaits {waits : List WaitRow} {t t' : Table WaitRow.nodeId}
    (h : m.writeWaits waits t = .ok t') : t'.rows = t.rows ++ waits.map (m.moved waits) := by
  rw [writeWaits] at h
  split at h <;> rename_i hfold
  · cases h
    exact Table.rows_of_insertAll? hfold
  · cases h

theorem leftBehind_eq_empty_iff {src : Rows B} : m.leftBehind src = .empty ↔
    src.capacitySlots = .empty ∧ (m.carryJournal = true ∨ src.auditEvents = .empty) := by
  have haudit : (if (m.journal src).isEmpty then src.auditEvents else .empty) = .empty ↔
      m.carryJournal = true ∨ src.auditEvents = .empty := by
    rw [journal]
    cases m.carryJournal with
    | false => simp
    | true =>
      refine iff_of_true ?_ (.inl rfl)
      rw [if_pos rfl]
      split
      · rename_i hempty
        exact Table.ext (isEmpty_iff.mp hempty)
      · rfl
  rw [leftBehind, Rows.empty, Rows.mk.injEq, haudit]
  simp only [true_and]
  exact and_comm

end InstanceMigration

/-! ## The commit -/

section Commit

variable {B : Type} {s : StoredInstance B} {m : InstanceMigration B}
  {taken : String → String × String → Bool} {db : Database B} {out : Outcome}

theorem rows_eq_of_claimed (h : m.Claimed ((s.database taken).rows m.fromDeployment)) :
    m.fromDeployment = s.home ∧ m.toDeployment ≠ s.home := by
  obtain ⟨hne, owned, howned, -⟩ := h
  have hhome : m.fromDeployment = s.home := by
    by_contra hnot
    change (if m.fromDeployment = s.home then s.rows else .empty).instanceState = _ at howned
    rw [if_neg hnot] at howned
    cases howned
  exact ⟨hhome, fun heq => hne (hhome.trans heq.symm)⟩

theorem bind_eq_error {ε α β : Type} {x : Except ε α} {f : α → Except ε β} {e : ε}
    (h : (x >>= f) = .error e) : x = .error e ∨ ∃ a, x = .ok a ∧ f a = .error e := by
  cases x with
  | error e' => exact .inl (congrArg Except.error (Except.error.inj h))
  | ok a => exact .inr ⟨a, rfl, h⟩

/-- **What a migration that commits has written.** -/
theorem commit_ok (h : (s.database taken).commitInstanceMigration m = .ok (db, out)) :
    m.fromDeployment = s.home ∧ m.toDeployment ≠ s.home ∧ ¬ m.Folds s.rows ∧
    db.rows s.home = m.leftBehind s.rows ∧
    (db.rows m.toDeployment).instanceState = some ⟨m.snapshot, none, none⟩ ∧
    (db.rows m.toDeployment).waits.rows = s.rows.waits.rows.map (m.moved s.rows.waits.rows) ∧
    (db.rows m.toDeployment).aliases = s.rows.aliases ∧
    (db.rows m.toDeployment).subjects = s.rows.subjects ∧
    (db.rows m.toDeployment).capacitySlots = .empty ∧
    (∀ d, d ≠ s.home → d ≠ m.toDeployment → db.rows d = .empty) ∧
    out.rearmedRows = (s.rows.waits.rows.filter (m.rearm s.rows.waits.rows)).length := by
  rw [Database.commitInstanceMigration] at h
  obtain ⟨⟨⟩, hcheck, h⟩ := bind_eq_ok h
  obtain ⟨hclaimed, hfolds⟩ := checkSource_eq.1.mp hcheck
  obtain ⟨hfrom, hto⟩ := rows_eq_of_claimed hclaimed
  have hsrc : (s.database taken).rows m.fromDeployment = s.rows := if_pos hfrom
  have htgt : (s.database taken).rows m.toDeployment = .empty := if_neg hto
  rw [hsrc] at hfolds
  rw [hsrc, htgt] at h
  obtain ⟨waits, hwaits, h⟩ := bind_eq_ok h
  obtain ⟨aliases, haliases, h⟩ := bind_eq_ok h
  cases h
  have hne : s.home ≠ m.toDeployment := hto.symm
  refine ⟨hfrom, hto, hfolds, ?_, ?_⟩
  · change update (update _ m.fromDeployment _) m.toDeployment _ s.home = _
    rw [update_of_ne hne, hfrom, update_self]
  have hnew : ∀ {γ : Type} (f : Rows B → γ) (t : Rows B), f (update
      (update (s.database taken).rows m.fromDeployment (m.leftBehind s.rows))
      m.toDeployment t m.toDeployment) = f t := fun f t => by rw [update_self]
  refine ⟨(hnew instanceState _).trans rfl, ?_, ?_, ?_, (hnew capacitySlots _).trans rfl, ?_, rfl⟩
  · refine (congrArg Table.rows (hnew Rows.waits _)).trans ?_
    exact rows_of_writeWaits hwaits
  · refine (hnew Rows.aliases _).trans (Table.ext ?_)
    exact rows_of_writeAlias (t := .empty) s.rows.aliases.nodup haliases
  · refine (hnew subjects _).trans (Table.ext ?_)
    exact Table.rows_foldl_insertNew s.rows.subjects.nodup
  · intro d hd hd'
    change update (update _ m.fromDeployment _) m.toDeployment _ d = _
    rw [update_of_ne hd', hfrom, update_of_ne hd]
    exact if_neg hd

theorem error_of_writeAlias {taken : String × String → Bool} {l : List AliasRow}
    {t : Table fun r : AliasRow => (r.aliasName, r.aliasValue)} {e : MigrationError}
    (h : l.foldlM (writeAlias taken) t = .error e) :
    ∃ name value, e = .aliasCollision name value := by
  induction l generalizing t with
  | nil => cases h
  | cons r l ih =>
    rw [foldlM_cons] at h
    cases hr : writeAlias taken t r with
    | ok t' =>
      rw [hr] at h
      exact ih h
    | error e' =>
      rw [hr] at h
      cases h
      rw [writeAlias] at hr
      split at hr
      · cases hr
      · split at hr
        · cases hr
          exact ⟨_, _, rfl⟩
        · cases hr

theorem commit_folded {n : String} : db.commitInstanceMigration m = .error (.foldedNode n) ↔
    m.checkSource (db.rows m.fromDeployment) = .error (.foldedNode n) := by
  rw [Database.commitInstanceMigration]
  constructor
  · intro h
    rcases bind_eq_error h with h | ⟨_, -, h⟩
    · exact h
    rcases bind_eq_error h with h | ⟨_, -, h⟩
    · rw [writeWaits] at h
      split at h <;> cases h
    rcases bind_eq_error h with h | ⟨_, -, h⟩
    · obtain ⟨_, _, he⟩ := error_of_writeAlias h
      cases he
    · cases h
  · intro h
    rw [h]
    rfl

end Commit

/-! ## The conditions -/

section Conditions

variable {B : Type}

/-- Two parks have one target. -/
def FoldsParks (s : StoredInstance B) (m : InstanceMigration B) : Prop :=
  ∃ p ∈ s.parks, ∃ q ∈ s.parks, p.1 ≠ q.1 ∧ m.mapNode p.1 = m.mapNode q.1

/-- The failure is told from the history: if the frontier is not empty and there are wait rows, some
are pending and the others were resolved before; if it is empty, none is pending; and the rows that
are mapped onto its targets are pending. -/
structure FailureClear (s : StoredInstance B) (frontier : List String) (now : Instant)
    (m : InstanceMigration B) : Prop where
  recent : frontier ≠ [] → s.rows.waits.rows ≠ [] →
    (∃ r ∈ s.rows.waits.rows, r.state = .waiting) ∧
      ∀ r ∈ s.rows.waits.rows, ∀ t, r.state = .resolved t → t < now
  pending : (∃ r ∈ s.rows.waits.rows, r.state = .waiting) → frontier ≠ []
  named : ∀ r ∈ s.rows.waits.rows, m.mapNode r.nodeId ∈ frontier.map m.mapNode →
    r.state = .waiting

/-- The waits that are pending. -/
def StoredInstance.pending (s : StoredInstance B) : List (String × Bool) :=
  (s.rows.waits.rows.filter fun r => r.state == .waiting).map fun r => (r.nodeId, r.kind == .timer)

/-- The row under the target, as it was. -/
def InstanceMigration.relocated (m : InstanceMigration B) (r : WaitRow) : WaitRow :=
  { r with nodeId := m.mapNode r.nodeId, processId := m.processId.getD r.processId }

theorem StoredInstance.mem_waits_of_mem_parks {s : StoredInstance B} {p : String × Bool}
    (h : p ∈ s.parks) : ∃ r ∈ s.rows.waits.rows, r.nodeId = p.1 := by
  rw [StoredInstance.parks] at h
  split at h
  · cases h
  · obtain ⟨r, hr, rfl⟩ := mem_map.mp h
    exact ⟨r, (mem_filter.mp hr).1, rfl⟩

end Conditions

/-! ## The failure -/

section Failure

variable {B : Type} {s : StoredInstance B} {owned : InstanceRow B} {now : Instant}
  {m : InstanceMigration B}

theorem waits_commitFailed (h : s.rows.instanceState = some owned) :
    (s.commitFailed now).rows.waits.rows = s.rows.waits.rows.map (resolveWait now) := by
  rw [StoredInstance.commitFailed, commitFailed]
  simp only [h]
  rfl

theorem parks_commitFailed (h : s.rows.instanceState = some owned) :
    (s.commitFailed now).parks = liveParkRows .failed owned.serialised.waitingNodes
      (s.rows.waits.rows.map (resolveWait now)) := by
  rw [StoredInstance.parks, waits_commitFailed h]
  rw [StoredInstance.commitFailed, commitFailed]
  simp only [h]
  rw [persist]
  simp only [h]

theorem resolvedAt_resolveWait (r : WaitRow) : (resolveWait now r).resolvedAt =
    some (match r.state with
      | .waiting => now
      | .resolved t => t) := by
  rw [resolveWait]
  cases hr : r.state with
  | waiting => rfl
  | resolved t =>
    rw [WaitRow.resolvedAt]
    simp only [hr]

theorem state_resolveWait_ne (r : WaitRow) : (resolveWait now r).state ≠ .waiting := by
  rw [resolveWait]
  split <;> simp_all

theorem park_resolveWait (r : WaitRow) : ((resolveWait now r).nodeId,
    (resolveWait now r).kind == .timer) = (r.nodeId, r.kind == .timer) := by
  rw [resolveWait]
  split <;> rfl

namespace FailureClear

variable {frontier : List String} (h : FailureClear s frontier now m)

include h

theorem resolvedAt_eq (hf : frontier ≠ []) {r : WaitRow} (hr : r ∈ s.rows.waits.rows) :
    (resolveWait now r).resolvedAt = some now ↔ r.state = .waiting := by
  rw [resolvedAt_resolveWait, some_inj]
  cases hs : r.state with
  | waiting => simp
  | resolved t => simpa using ((h.recent hf (ne_nil_of_mem hr)).2 r hr t hs).ne

theorem newestResolution_eq (hf : frontier ≠ []) (hne : s.rows.waits.rows ≠ []) :
    newestResolution (s.rows.waits.rows.map (resolveWait now)) = some now := by
  obtain ⟨⟨r, hr, hs⟩, hold⟩ := h.recent hf hne
  rw [newestResolution, List.max?_eq_some_iff]
  constructor
  · exact mem_filterMap.mpr ⟨_, List.mem_map_of_mem hr, (h.resolvedAt_eq hf hr).mpr hs⟩
  · intro t ht
    obtain ⟨_, hmem, hrow⟩ := mem_filterMap.mp ht
    obtain ⟨r', hr', rfl⟩ := mem_map.mp hmem
    rw [resolvedAt_resolveWait] at hrow
    cases hs' : r'.state with
    | waiting =>
      rw [hs'] at hrow
      exact (some.inj hrow).ge
    | resolved t' =>
      rw [hs'] at hrow
      exact some.inj hrow ▸ (hold r' hr' t' hs').le

/-- **What was pending is recognised**, by the validation and by the commit alike. -/
theorem rearm_iff (hrearm : m.rearmParks = some (frontier.map m.mapNode)) {r : WaitRow}
    (hr : r ∈ s.rows.waits.rows) :
    m.rearm (s.rows.waits.rows.map (resolveWait now)) (resolveWait now r) ↔ r.state = .waiting := by
  rw [rearm, hrearm]
  cases hf : frontier with
  | nil =>
    have hnone : ¬ r.state = .waiting := fun hs => h.pending ⟨r, hr, hs⟩ hf
    simp [hnone]
  | cons n rest =>
    have hne : frontier ≠ [] := by rw [hf]; nofun
    rw [List.map_cons]
    dsimp only
    rw [← List.map_cons, ← hf, h.newestResolution_eq hne (ne_nil_of_mem hr),
      nodeId_resolveWait, Bool.or_eq_true, Bool.and_eq_true, beq_iff_eq, h.resolvedAt_eq hne hr,
      contains_iff_mem]
    constructor
    · rintro (hnamed | ⟨-, hs⟩)
      · exact h.named r hr hnamed
      · exact hs
    · intro hs
      exact .inr ⟨by rw [resolvedAt_resolveWait]; rfl, hs⟩

theorem liveParkRows_eq :
    liveParkRows .failed frontier (s.rows.waits.rows.map (resolveWait now)) = s.pending := by
  rw [liveParkRows, StoredInstance.pending, List.filter_map, List.map_map]
  dsimp only [comp_def]
  rw [filter_congr fun r hr => ?_]
  · exact map_congr_left fun r _ => park_resolveWait r
  · rw [beq_eq_false_iff_ne.mpr (state_resolveWait_ne r), Bool.false_or, Bool.eq_iff_iff,
      beq_iff_eq]
    by_cases hf : frontier = []
    · have hnone : ¬ r.state = .waiting := fun hs => h.pending ⟨r, hr, hs⟩ hf
      simp [hf, hnone]
    · rw [if_pos ⟨rfl, hf⟩, h.newestResolution_eq hf (ne_nil_of_mem hr), ← h.resolvedAt_eq hf hr]
      simp [resolvedAt_resolveWait]

end FailureClear

theorem FailureClear.moved_eq {frontier : List String} (h : FailureClear s frontier now m)
    (hrearm : m.rearmParks = some (frontier.map m.mapNode)) :
    (s.rows.waits.rows.map (resolveWait now)).map
      (m.moved (s.rows.waits.rows.map (resolveWait now))) = s.rows.waits.rows.map m.relocated := by
  rw [List.map_map]
  refine map_congr_left fun r hr => ?_
  have hiff := h.rearm_iff hrearm hr
  rw [comp_apply, moved]
  cases hs : r.state with
  | waiting =>
    have hresolve : resolveWait now r = { r with state := .resolved now } := by
      rw [resolveWait]
      simp only [hs]
    rw [if_pos (hiff.mpr hs), hresolve, InstanceMigration.relocated, ← hs]
  | resolved t =>
    have hresolve : resolveWait now r = r := by
      rw [resolveWait]
      simp only [hs]
    have hnot : ¬ m.rearm (s.rows.waits.rows.map (resolveWait now))
        (resolveWait now r) := fun hre => by cases hs.symm.trans (hiff.mp hre)
    rw [if_neg hnot, hresolve]
    rfl

theorem mem_pending_iff {r : WaitRow} (hr : r ∈ s.rows.waits.rows) :
    (r.nodeId, r.kind == .timer) ∈ s.pending ↔ r.state = .waiting := by
  rw [StoredInstance.pending, List.mem_map]
  constructor
  · rintro ⟨r', hr', heq⟩
    obtain ⟨hmem, hs⟩ := mem_filter.mp hr'
    obtain rfl : r' = r := s.rows.waits.eq_of_key hmem hr (congrArg Prod.fst heq)
    exact beq_iff_eq.mp hs
  · intro hs
    exact ⟨r, mem_filter.mpr ⟨hr, beq_iff_eq.mpr hs⟩, rfl⟩

theorem exists_newestResolution {r : WaitRow} (hr : r ∈ s.rows.waits.rows) : ∃ newest,
    newestResolution (s.rows.waits.rows.map (resolveWait now)) = some newest := by
  have hmem := mem_filterMap.mpr ⟨_, List.mem_map_of_mem hr, @resolvedAt_resolveWait now r⟩
  exact isSome_iff_exists.mp (isSome_max?_of_mem hmem)

/-- The park of a row is classified exactly if the row was resolved last. -/
theorem mem_liveParkRows_iff {frontier : List String} (hf : frontier ≠ []) {r : WaitRow}
    (hr : r ∈ s.rows.waits.rows) : (r.nodeId, r.kind == .timer) ∈
      liveParkRows .failed frontier (s.rows.waits.rows.map (resolveWait now)) ↔
        (resolveWait now r).resolvedAt =
          newestResolution (s.rows.waits.rows.map (resolveWait now)) := by
  obtain ⟨t, ht⟩ : ∃ t, (resolveWait now r).resolvedAt = some t := ⟨_, resolvedAt_resolveWait r⟩
  obtain ⟨newest, hnewest⟩ := @exists_newestResolution _ s now _ hr
  rw [liveParkRows, List.filter_map, List.map_map, List.mem_map, if_pos ⟨rfl, hf⟩, hnewest]
  constructor
  · rintro ⟨r', hr', heq⟩
    obtain ⟨hmem, hlast⟩ := mem_filter.mp hr'
    rw [comp_apply, park_resolveWait] at heq
    obtain rfl : r' = r := s.rows.waits.eq_of_key hmem hr (congrArg Prod.fst heq)
    rw [comp_apply, beq_eq_false_iff_ne.mpr (state_resolveWait_ne r'), Bool.false_or,
      Bool.and_eq_true, beq_iff_eq] at hlast
    exact hlast.2
  · intro hlast
    refine ⟨r, mem_filter.mpr ⟨hr, ?_⟩, park_resolveWait r⟩
    rw [comp_apply, hlast, Bool.or_eq_true]
    exact .inr (by simp)

/-- **A resume that brings back what was pending tells the failure from the history.** -/
theorem failureClear_of_parks {frontier : List String}
    (hrearm : m.rearmParks = some (frontier.map m.mapNode))
    (hparks : liveParkRows .failed frontier (s.rows.waits.rows.map (resolveWait now)) = s.pending)
    (hre : ∀ r ∈ s.rows.waits.rows,
      m.rearm (s.rows.waits.rows.map (resolveWait now)) (resolveWait now r) = true ↔
        (r.nodeId, r.kind == .timer) ∈
          liveParkRows .failed frontier (s.rows.waits.rows.map (resolveWait now))) :
    FailureClear s frontier now m := by
  rw [hparks] at hre
  have hlast : ∀ r ∈ s.rows.waits.rows, frontier ≠ [] → (r.state = .waiting ↔
      (resolveWait now r).resolvedAt =
        newestResolution (s.rows.waits.rows.map (resolveWait now))) := fun r hr hf => by
    rw [← mem_liveParkRows_iff hf hr, hparks, mem_pending_iff hr]
  refine ⟨fun hf hne => ?_, ?_, fun r hr hnamed => ?_⟩
  · obtain ⟨r₀, hr₀⟩ := exists_mem_of_ne_nil _ hne
    obtain ⟨newest, hnewest⟩ := @exists_newestResolution _ s now _ hr₀
    obtain ⟨hmem, hmax⟩ := List.max?_eq_some_iff.mp hnewest
    -- the row that was resolved last was pending, so that this was the failure
    obtain ⟨_, hrow, hat⟩ := mem_filterMap.mp hmem
    obtain ⟨r, hr, rfl⟩ := mem_map.mp hrow
    have hs := (hlast r hr hf).mpr (hat.trans hnewest.symm)
    have hnow : newest = now := by
      rw [resolvedAt_resolveWait, hs] at hat
      exact (some.inj hat).symm
    refine ⟨⟨r, hr, hs⟩, fun r' hr' t ht => ?_⟩
    have hat' : (resolveWait now r').resolvedAt = some t := by rw [resolvedAt_resolveWait, ht]
    refine lt_of_le_of_ne (hnow ▸ hmax t (mem_filterMap.mpr ⟨_, List.mem_map_of_mem hr', hat'⟩)) ?_
    rintro rfl
    have hwaiting := (hlast r' hr' hf).mpr (by rw [hat', hnewest, hnow])
    cases ht.symm.trans hwaiting
  · rintro ⟨r, hr, hs⟩ rfl
    have hmem := (mem_pending_iff hr).mpr hs
    rw [← hparks, liveParkRows, List.filter_map, List.map_map, List.mem_map] at hmem
    obtain ⟨r', hr', -⟩ := hmem
    have hkept := (mem_filter.mp hr').2
    rw [comp_apply, beq_eq_false_iff_ne.mpr (state_resolveWait_ne r')] at hkept
    cases hkept
  · refine (mem_pending_iff hr).mp ((hre r hr).mp ?_)
    rw [rearm, hrearm]
    cases frontier with
    | nil => cases hnamed
    | cons n rest =>
      rw [List.map_cons] at hnamed ⊢
      dsimp only
      rw [nodeId_resolveWait, Bool.or_eq_true]
      exact .inl (contains_iff_mem.mpr hnamed)

end Failure

def messageWait (node : String) (state : WaitState) : WaitRow :=
  ⟨node, "order", none, state, 0, .message, none⟩

def shipping (paidAt : Instant) (slots : List SlotRow)
    (hslots : (slots.map fun r => (r.pool, r.callKey)).Nodup) : StoredInstance Unit where
  home := "v1"
  rows :=
    { instanceState := some ⟨⟨.suspended, ["ship"], ()⟩, some "admin", none⟩
      waits := ⟨[messageWait "ship" .waiting, messageWait "pay" (.resolved paidAt)],
        (by decide : ["ship", "pay"].Nodup)⟩
      aliases := ⟨[⟨"order", "17", true, true, 0⟩], by decide⟩
      subjects := ⟨[⟨"customer", "c9", true, 0⟩], by decide⟩
      auditEvents := ⟨[⟨1, 0, "started", none, none, none, "\x7b\x7d"⟩], by decide⟩
      capacitySlots := ⟨slots, hslots⟩ }

def upgrade (resume : Bool) (nodeMapping : SortedMap String String) (frontier : List String) :
    InstanceMigration Unit where
  fromDeployment := "v1"
  toDeployment := "v2"
  instanceId := "i1"
  snapshot := ⟨.suspended, frontier, ()⟩
  nodeMapping := nodeMapping
  processId := none
  rearmParks := if resume then some frontier else none
  claimOwner := "admin"
  carryJournal := true
  audit := none

end Sutra.Migration
