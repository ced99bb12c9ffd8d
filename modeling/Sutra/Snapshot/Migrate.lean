import Sutra.Lib.Rename
import Sutra.Snapshot.Codec

/-!
# Migrating a pinned snapshot

`migratePinned` re-pins a snapshot to another deployment without decoding it: it edits the key/value
map. The node lists and the start node are mapped in their values; the retry counters and backoff
markers are kept under one key per node, so there the mapping renames keys in place.

* `renameFamily_moves_iff`: when nothing is lost by that.
-/

namespace Sutra.Snapshot

open Text List Option SortedMap

/-! ## The operation -/

def mapOne (nodeMapping : SortedMap String String) (id : String) : String :=
  (nodeMapping.get id).getD id

/-- A comma-separated list with every id mapped. -/
def mapList (f : String → String) (raw : String) : String :=
  joinList ((splitList raw).map f)

def put (map : SortedMap String String) (key : String) : Option String → SortedMap String String
  | some value => map.insert key value
  | none => map

def renameFamily (f : String → String) (family : String) (map : SortedMap String String) :
    SortedMap String String :=
  let keyed := map.entries.filterMap fun e => (stripPrefix family e.1).map fun node => (e.1, f node)
  keyed.foldl (fun map e => map.move e.1 (family ++ e.2)) map

/-- The start node with its id mapped; an empty one stays. -/
def mapStart (f : String → String) (start : String) : Option String :=
  if start = "" then none else some (f start)

def rewrite (newDeploymentId : String) (newProcessId : Option String) (f : String → String)
    (auditSeq : Option UInt32) (map : SortedMap String String) : SortedMap String String :=
  let map := map.insert Key.deploymentId newDeploymentId
  let map := put map Key.processId (newProcessId.filter (· ≠ ""))
  let map := put map Key.waiting ((map.get Key.waiting).map (mapList f))
  let map := put map Key.completed ((map.get Key.completed).map (mapList f))
  let map := put map Key.startNode ((map.get Key.startNode).bind (mapStart f))
  let map := renameFamily f Key.retryFamily map
  let map := renameFamily f Key.retryWaitFamily map
  put map Key.auditSeq ((auditSeq.filter (0 < ·)).map fun seq => toString seq.toNat)

/-- Whether an instance is history rather than live state. -/
def isTerminal (status : String) : Bool :=
  status == statusCompleted || status == statusTerminated

def statusOf (map : SortedMap String String) : String :=
  (map.get Key.status).getD statusRunning

/-- Re-pin a snapshot to another deployment. The result is the container, which has none when a
length does not fit it. -/
def migratePinned (bytes : List UInt8) (newDeploymentId : String) (newProcessId : Option String)
    (nodeMapping : SortedMap String String) (auditSeq : Option UInt32) :
    Except String (Option (List UInt8)) := do
  let map ← rawMap bytes
  let status := statusOf map
  if isTerminal status then
    .error (s!"instance is {status} — a terminal instance is history, not live state, and " ++
      "cannot be migrated (FAILED instances can)")
  else
    .ok (encode (rewrite newDeploymentId newProcessId (mapOne nodeMapping) auditSeq map).entries)

/-! ## Scalar keys -/

variable {map : SortedMap String String} {key family : String}

theorem get_put_of_ne {q : String} (h : key ≠ q)
    (value : Option String) : (put map key value).get q = map.get q := by
  cases value with
  | none => rfl
  | some value => exact get_insert_of_ne _ _ h

theorem get_put_self (map : SortedMap String String) (key : String) (value : Option String) :
    (put map key value).get key = value.or (map.get key) := by
  cases value with
  | none => rfl
  | some value => exact get_insert_self _ _ _

/-! ## Renaming a family -/

def familyNodes (family : String) (map : SortedMap String String) : List String :=
  map.entries.filterMap fun e => stripPrefix family e.1

theorem mem_familyNodes {node : String} :
    node ∈ familyNodes family map ↔ ∃ v, map.get (family ++ node) = some v := by
  rw [familyNodes, mem_filterMap]
  constructor
  · rintro ⟨⟨key, value⟩, he, hstrip⟩
    cases stripPrefix_eq_some.mp hstrip
    exact ⟨value, mem_entries.mp he⟩
  · rintro ⟨value, hget⟩
    exact ⟨(family ++ node, value), mem_entries.mpr hget, stripPrefix_append _ _⟩

theorem familyNodes_sorted (family : String) (map : SortedMap String String) :
    ((familyNodes family map).map (family ++ ·)).Pairwise (· < ·) := by
  have hmap : (familyNodes family map).map (family ++ ·) =
      (map.entries.map Prod.fst).filter (fun k => (stripPrefix family k).isSome) := by
    rw [familyNodes]
    induction map.entries with
    | nil => rfl
    | cons e rest ih =>
      rw [map_cons, filterMap_cons, filter_cons]
      cases hstrip : stripPrefix family e.1 with
      | none => exact ih
      | some node => exact congrArg₂ List.cons (stripPrefix_eq_some.mp hstrip).symm ih
  rw [hmap]
  exact map.sorted.sublist filter_sublist

def renameKey (f : String → String) (family key : String) : String :=
  match stripPrefix family key with
  | some node => family ++ f node
  | none => key

theorem renameKey_append (f : String → String) (family node : String) :
    renameKey f family (family ++ node) = family ++ f node := by rw [renameKey, stripPrefix_append]

theorem renameFamily_eq (f : String → String) (family : String) (map : SortedMap String String) :
    renameFamily f family map = moveAll (renameKey f family)
      ((familyNodes family map).map (family ++ ·)) map := by
  have hkeyed : (map.entries.filterMap fun e =>
      (stripPrefix family e.1).map fun node => (e.1, f node)) =
      (familyNodes family map).map fun node => (family ++ node, f node) := by
    rw [familyNodes, map_filterMap]
    refine filterMap_congr fun e _ => ?_
    cases hstrip : stripPrefix family e.1 with
    | none => rfl
    | some node =>
      rw [stripPrefix_eq_some.mp hstrip]
      rfl
  rw [renameFamily, hkeyed, foldl_map, moveAll, foldl_map]
  congr 1
  funext acc node
  rw [renameKey_append]

variable {f : String → String}

theorem get_renameFamily_of_ne {q : String}
    (h : ∀ node, family ++ node ≠ q) (map : SortedMap String String) :
    (renameFamily f family map).get q = map.get q := by
  rw [renameFamily_eq]
  refine get_moveAll_of_ne (fun k hk => ?_) map
  obtain ⟨node, -, rfl⟩ := mem_map.mp hk
  rw [renameKey_append]
  exact ⟨h node, h (f node)⟩

section Family

variable {V : Type} (read : String → Option V) (f : String → String) (family : String)
  (map : SortedMap String String)

def Undisturbed : Prop :=
  ∀ n m, n < m → f n = m → n ∈ familyNodes family map → m ∈ familyNodes family map →
    (map.get (family ++ n)).bind read = none ∧ (map.get (family ++ m)).bind read = none

/-- The family follows the mapping: what a node had, its image has, and there is nothing else. -/
def Moves (map' : SortedMap String String) : Prop :=
  ∀ k v, (map'.get (family ++ k)).bind read = some v ↔
    ∃ n, (map.get (family ++ n)).bind read = some v ∧ f n = k

variable {read f family map}

theorem mem_familyNodes_of_read {node : String} {v : V}
    (h : (map.get (family ++ node)).bind read = some v) : node ∈ familyNodes family map := by
  obtain ⟨w, hw, -⟩ := bind_eq_some_iff.mp h
  exact mem_familyNodes.mpr ⟨w, hw⟩

section Injective

variable (hinj : Set.InjOn f {n | n ∈ familyNodes family map})
include hinj

theorem renameKey_injOn : ∀ a ∈ (familyNodes family map).map (family ++ ·),
      ∀ b ∈ (familyNodes family map).map (family ++ ·),
        renameKey f family a = renameKey f family b → a = b := by
  intro a ha b hb heq
  obtain ⟨n, hn, rfl⟩ := mem_map.mp ha
  obtain ⟨m, hm, rfl⟩ := mem_map.mp hb
  rw [renameKey_append, renameKey_append] at heq
  rw [hinj hn hm (append_left_cancel heq)]

/-- What is found under a name after the renaming, if the entries that overrun others read as
nothing. -/
theorem read_renameFamily
    (hblank : ∀ n m, n < m → f n = m → n ∈ familyNodes family map → m ∈ familyNodes family map →
      (map.get (family ++ n)).bind read = none) (k : String) (v : V) :
    ((renameFamily f family map).get (family ++ k)).bind read = some v ↔
      ∃ n, (∀ p ∈ familyNodes family map, p < n → f p ≠ n) ∧ f n = k ∧
        (map.get (family ++ n)).bind read = some v := by
  have hregion : family ++ k ∈ (familyNodes family map).map (family ++ ·) ∨
      map.get (family ++ k) = none := by
    cases hget : map.get (family ++ k) with
    | none => exact .inr rfl
    | some w => exact .inl (mem_map_of_mem (mem_familyNodes.mpr ⟨w, hget⟩))
  have hblank' : SortedMap.OverrunsBlank read (renameKey f family)
      ((familyNodes family map).map (family ++ ·)) map := by
    intro a ha b hb hlt hg
    obtain ⟨n, hn, rfl⟩ := mem_map.mp ha
    obtain ⟨m, hm, rfl⟩ := mem_map.mp hb
    rw [renameKey_append] at hg
    exact hblank n m (append_lt_append_left.mp hlt) (append_left_cancel hg) hn hm
  have hpresent : ∀ a ∈ (familyNodes family map).map (family ++ ·), ∃ w, map.get a = some w := by
    intro a ha
    obtain ⟨n, hn, rfl⟩ := mem_map.mp ha
    exact mem_familyNodes.mp hn
  rw [renameFamily_eq, read_moveAll (familyNodes_sorted family map)
    (renameKey_injOn hinj) hblank' hpresent hregion]
  constructor
  · rintro ⟨a, ha, hover, hg, hv⟩
    obtain ⟨n, hn, rfl⟩ := mem_map.mp ha
    rw [renameKey_append] at hg
    refine ⟨n, fun p hp hlt hfp => ?_, append_left_cancel hg, hv⟩
    refine hover (family ++ p) (mem_map_of_mem hp) (append_lt_append_left.mpr hlt) ?_
    rw [renameKey_append, hfp]
  · rintro ⟨n, hover, hfn, hv⟩
    refine ⟨family ++ n, mem_map_of_mem (mem_familyNodes_of_read hv), fun a ha hlt hg => ?_,
      by rw [renameKey_append, hfn], hv⟩
    obtain ⟨p, hp, rfl⟩ := mem_map.mp ha
    rw [renameKey_append] at hg
    exact hover p hp (append_lt_append_left.mp hlt) (append_left_cancel hg)

theorem get_renameFamily_overrun {n m : String} (hlt : n < m) (hf : f n = m)
    (hn : n ∈ familyNodes family map) (hm : m ∈ familyNodes family map) :
    (renameFamily f family map).get (family ++ m) = none := by
  rw [renameFamily_eq]
  exact get_moveAll_overrun (familyNodes_sorted family map) (renameKey_injOn hinj)
    (mem_map_of_mem hn) (mem_map_of_mem hm) (append_lt_append_left.mpr hlt)
    (by rw [renameKey_append, hf]) map

/-- **A family follows an injective mapping exactly when it is undisturbed.** -/
theorem renameFamily_moves_iff :
    Moves read f family map (renameFamily f family map) ↔ Undisturbed read f family map := by
  constructor
  · intro hmoves
    -- an entry that overruns another is itself nowhere to be found
    have hblank : ∀ n m, n < m → f n = m → n ∈ familyNodes family map →
        m ∈ familyNodes family map → (map.get (family ++ n)).bind read = none := by
      intro n m hlt hf hn hm
      refine eq_none_iff_forall_ne_some.mpr fun v hv => ?_
      have hfound := (hmoves m v).mpr ⟨n, hv, hf⟩
      rw [get_renameFamily_overrun hinj hlt hf hn hm] at hfound
      exact nomatch hfound
    intro n m hlt hf hn hm
    refine ⟨hblank n m hlt hf hn hm, eq_none_iff_forall_ne_some.mpr fun v hv => ?_⟩
    have hfound := (hmoves (f m) v).mpr ⟨m, hv, rfl⟩
    obtain ⟨m', hover, hfm, hv'⟩ := (read_renameFamily hinj hblank (f m) v).mp hfound
    have hmm : m' = m := hinj (mem_familyNodes_of_read hv') hm hfm
    exact hover n hn (hmm ▸ hlt) (hmm ▸ hf)
  · intro hund k v
    rw [read_renameFamily hinj (fun n m hlt hf hn hm => (hund n m hlt hf hn hm).1)]
    constructor
    · rintro ⟨n, -, hfn, hv⟩
      exact ⟨n, hv, hfn⟩
    · rintro ⟨n, hv, hfn⟩
      refine ⟨n, fun p hp hlt hfp => ?_, hfn, hv⟩
      have hnone := (hund p n hlt hfp hp (mem_familyNodes_of_read hv)).2
      exact nomatch hnone.symm.trans hv

end Injective

/-- The same, when other keys are edited before and after. -/
theorem moves_iff_of_renamed {map₀ map' : SortedMap String String}
    (h₀ : ∀ n, map₀.get (family ++ n) = map.get (family ++ n))
    (h' : ∀ n, map'.get (family ++ n) = (renameFamily f family map₀).get (family ++ n))
    (hinj : Set.InjOn f {n | n ∈ familyNodes family map}) :
    Moves read f family map map' ↔ Undisturbed read f family map := by
  have hnodes : ∀ n, n ∈ familyNodes family map₀ ↔ n ∈ familyNodes family map := by
    intro n
    rw [mem_familyNodes, mem_familyNodes, h₀]
  have hset : {n | n ∈ familyNodes family map₀} = {n | n ∈ familyNodes family map} := Set.ext hnodes
  have hiff : Moves read f family map₀ (renameFamily f family map₀) ↔
      Undisturbed read f family map₀ := renameFamily_moves_iff (hset ▸ hinj)
  simp only [Moves, Undisturbed, h₀, hnodes] at hiff
  simp only [Moves, Undisturbed, h', hiff]

end Family

/-! ## What a snapshot says about its nodes -/

def splitKey (map : SortedMap String String) (key : String) : List String :=
  splitList ((map.get key).getD "")

def waitingNodes (map : SortedMap String String) : List String := splitKey map Key.waiting

def completedNodes (map : SortedMap String String) : List String := splitKey map Key.completed

def startNode (map : SortedMap String String) : String := (map.get Key.startNode).getD ""

def readAttempts (value : String) : Option UInt32 := (readCount 32 value).map .ofNat

def Names (map : SortedMap String String) (n : String) : Prop :=
  n ∈ waitingNodes map ∨ n ∈ completedNodes map ∨ (n = startNode map ∧ n ≠ "") ∨
    n ∈ familyNodes Key.retryFamily map ∨ n ∈ familyNodes Key.retryWaitFamily map

def Rewritten (key : String) : Prop :=
  key ∈ [Key.deploymentId, Key.processId, Key.waiting, Key.completed, Key.startNode,
    Key.auditSeq] ∨ (∃ n, Key.retryFamily ++ n = key) ∨ ∃ n, Key.retryWaitFamily ++ n = key

structure Carries (f : String → String) (map map' : SortedMap String String) : Prop where
  retry : Moves readAttempts f Key.retryFamily map map'
  backoff : Moves readMarker f Key.retryWaitFamily map map'
  waiting : waitingNodes map' = (waitingNodes map).map f
  completed : completedNodes map' = (completedNodes map).map f
  start : startNode map' = if startNode map = "" then "" else f (startNode map)
  kept : ∀ key, ¬ Rewritten key → map'.get key = map.get key

/-- Both families are undisturbed, and the mapped ids can stand in a list. -/
structure Safe (f : String → String) (map : SortedMap String String) : Prop where
  retry : Undisturbed readAttempts f Key.retryFamily map
  backoff : Undisturbed readMarker f Key.retryWaitFamily map
  waiting : ∀ id ∈ waitingNodes map, IsName (f id)
  completed : ∀ id ∈ completedNodes map, IsName (f id)

/-! ## The edits, key by key -/

theorem family_ne (h : stripPrefix family key = none) (node : String) : family ++ node ≠ key := by
  rintro rfl
  rw [stripPrefix_append] at h
  cases h

section Rewrite

variable (newDeploymentId : String) (newProcessId : Option String) (f : String → String)
  (auditSeq : Option UInt32) (map : SortedMap String String)

def rewriteScalars : SortedMap String String :=
  let map := map.insert Key.deploymentId newDeploymentId
  let map := put map Key.processId (newProcessId.filter (· ≠ ""))
  let map := put map Key.waiting ((map.get Key.waiting).map (mapList f))
  let map := put map Key.completed ((map.get Key.completed).map (mapList f))
  put map Key.startNode ((map.get Key.startNode).bind (mapStart f))

theorem rewrite_eq : rewrite newDeploymentId newProcessId f auditSeq map =
    put (renameFamily f Key.retryWaitFamily (renameFamily f Key.retryFamily
      (rewriteScalars newDeploymentId newProcessId f map))) Key.auditSeq
      ((auditSeq.filter (0 < ·)).map fun seq => toString seq.toNat) := rfl

variable {newDeploymentId newProcessId f auditSeq map} {q : String}

theorem get_rewriteScalars_of_ne (hd : Key.deploymentId ≠ q)
    (hp : Key.processId ≠ q) (hw : Key.waiting ≠ q) (hc : Key.completed ≠ q)
    (hs : Key.startNode ≠ q) :
    (rewriteScalars newDeploymentId newProcessId f map).get q = map.get q := by
  rw [rewriteScalars, get_put_of_ne hs, get_put_of_ne hc, get_put_of_ne hw, get_put_of_ne hp,
    get_insert_of_ne _ _ hd]

theorem get_rewriteScalars_waiting :
    (rewriteScalars newDeploymentId newProcessId f map).get Key.waiting =
      (map.get Key.waiting).map (mapList f) := by
  rw [rewriteScalars, get_put_of_ne (by decide), get_put_of_ne (by decide), get_put_self,
    get_put_of_ne (by decide), get_insert_of_ne _ _ (by decide)]
  cases map.get Key.waiting <;> rfl

theorem get_rewriteScalars_completed :
    (rewriteScalars newDeploymentId newProcessId f map).get Key.completed =
      (map.get Key.completed).map (mapList f) := by
  rw [rewriteScalars, get_put_of_ne (by decide), get_put_self, get_put_of_ne (by decide),
    get_put_of_ne (by decide), get_insert_of_ne _ _ (by decide)]
  cases map.get Key.completed <;> rfl

theorem get_rewriteScalars_startNode :
    (rewriteScalars newDeploymentId newProcessId f map).get Key.startNode =
      ((map.get Key.startNode).bind (mapStart f)).or (map.get Key.startNode) := by
  rw [rewriteScalars, get_put_self, get_put_of_ne (by decide), get_put_of_ne (by decide),
    get_put_of_ne (by decide), get_insert_of_ne _ _ (by decide)]

theorem get_rewrite_of_scalar (ha : Key.auditSeq ≠ q)
    (hr : ∀ n, Key.retryFamily ++ n ≠ q) (hw : ∀ n, Key.retryWaitFamily ++ n ≠ q) :
    (rewrite newDeploymentId newProcessId f auditSeq map).get q =
      (rewriteScalars newDeploymentId newProcessId f map).get q := by
  rw [rewrite_eq, get_put_of_ne ha, get_renameFamily_of_ne hw, get_renameFamily_of_ne hr]

theorem get_rewrite_kept (h : ¬ Rewritten q) :
    (rewrite newDeploymentId newProcessId f auditSeq map).get q = map.get q := by
  rw [Rewritten, not_or, not_or, not_exists, not_exists] at h
  simp only [mem_cons, not_mem_nil, or_false, not_or] at h
  obtain ⟨⟨hd, hp, hw, hc, hs, ha⟩, hretry, hwait⟩ := h
  rw [get_rewrite_of_scalar (Ne.symm ha) hretry hwait, get_rewriteScalars_of_ne (Ne.symm hd)
    (.symm hp) (.symm hw) (.symm hc) (.symm hs)]

theorem get_rewrite_retry (n : String) :
    (rewrite newDeploymentId newProcessId f auditSeq map).get (Key.retryFamily ++ n) =
      (renameFamily f Key.retryFamily (rewriteScalars newDeploymentId newProcessId f map)).get
        (Key.retryFamily ++ n) := by
  rw [rewrite_eq, get_put_of_ne (family_ne (by decide) n).symm, get_renameFamily_of_ne
    (fun m => append_ne_append (by decide) (by decide) m n)]

theorem get_rewrite_retryWait (n : String) :
    (rewrite newDeploymentId newProcessId f auditSeq map).get (Key.retryWaitFamily ++ n) =
      (renameFamily f Key.retryWaitFamily (renameFamily f Key.retryFamily
        (rewriteScalars newDeploymentId newProcessId f map))).get (Key.retryWaitFamily ++ n) := by
  rw [rewrite_eq, get_put_of_ne (family_ne (by decide) n).symm]

theorem get_rewriteScalars_family {family : String}
    (hd : stripPrefix family Key.deploymentId = none)
    (hp : stripPrefix family Key.processId = none) (hw : stripPrefix family Key.waiting = none)
    (hc : stripPrefix family Key.completed = none) (hs : stripPrefix family Key.startNode = none)
    (n : String) : (rewriteScalars newDeploymentId newProcessId f map).get (family ++ n) =
      map.get (family ++ n) :=
  get_rewriteScalars_of_ne (family_ne hd n).symm (family_ne hp n).symm (family_ne hw n).symm
    (family_ne hc n).symm (family_ne hs n).symm

/-- A mapped list reads back entry by entry exactly when the images can stand in a list. -/
theorem splitKey_mapList_iff {map' : SortedMap String String} {key : String}
    (h : map'.get key = (map.get key).map (mapList f)) :
    splitKey map' key = (splitKey map key).map f ↔ ∀ id ∈ splitKey map key, IsName (f id) := by
  rw [splitKey, splitKey, h]
  cases map.get key with
  | none =>
    rw [map_none, getD_none, splitList_empty]
    exact ⟨fun _ _ hid => absurd hid not_mem_nil, fun _ => rfl⟩
  | some raw =>
    change splitList (joinList ((splitList raw).map f)) = (splitList raw).map f ↔
      ∀ id ∈ splitList raw, IsName (f id)
    constructor
    · intro heq id hid
      have hmem : f id ∈ splitList (joinList ((splitList raw).map f)) := by
        rw [heq]
        exact mem_map_of_mem hid
      exact isName_of_mem_splitList hmem
    · intro hnames
      refine splitList_joinList fun s hs => ?_
      obtain ⟨id, hid, rfl⟩ := mem_map.mp hs
      exact hnames id hid

theorem startNode_rewrite : startNode (rewrite newDeploymentId newProcessId f auditSeq map) =
      if startNode map = "" then "" else f (startNode map) := by
  rw [startNode, startNode, get_rewrite_of_scalar (by decide) (family_ne (by decide))
    (family_ne (by decide)), get_rewriteScalars_startNode]
  cases map.get Key.startNode with
  | none => rfl
  | some start =>
    change ((mapStart f start).or (some start)).getD "" = if start = "" then "" else f start
    rw [mapStart]
    split
    · rename_i h
      rw [h]
      rfl
    · rfl

/-- **The edits carry the nodes' state along exactly when they are safe.** -/
theorem rewrite_carries_iff (hinj : Set.InjOn f {n | Names map n}) :
    Carries f map (rewrite newDeploymentId newProcessId f auditSeq map) ↔ Safe f map := by
  have hretry : Moves readAttempts f Key.retryFamily map
      (rewrite newDeploymentId newProcessId f auditSeq map) ↔
      Undisturbed readAttempts f Key.retryFamily map := by
    refine moves_iff_of_renamed (get_rewriteScalars_family (by decide) (by decide) (by decide)
      (by decide) (by decide)) get_rewrite_retry (hinj.mono fun n hn => ?_)
    exact .inr (.inr (.inr (.inl hn)))
  have hbackoff : Moves readMarker f Key.retryWaitFamily map
      (rewrite newDeploymentId newProcessId f auditSeq map) ↔
      Undisturbed readMarker f Key.retryWaitFamily map := by
    refine moves_iff_of_renamed (fun n => ?_) get_rewrite_retryWait (hinj.mono fun n hn => ?_)
    · rw [get_renameFamily_of_ne (fun m => append_ne_append (by decide) (by decide) m n)]
      exact get_rewriteScalars_family (by decide) (by decide) (by decide) (by decide) (by decide) n
    · exact .inr (.inr (.inr (.inr hn)))
  have hwaiting : waitingNodes (rewrite newDeploymentId newProcessId f auditSeq map) =
      (waitingNodes map).map f ↔ ∀ id ∈ waitingNodes map, IsName (f id) := splitKey_mapList_iff
    ((get_rewrite_of_scalar (by decide) (family_ne (by decide)) (family_ne (by decide))).trans
      get_rewriteScalars_waiting)
  have hcompleted : completedNodes (rewrite newDeploymentId newProcessId f auditSeq map) =
      (completedNodes map).map f ↔ ∀ id ∈ completedNodes map, IsName (f id) := splitKey_mapList_iff
    ((get_rewrite_of_scalar (by decide) (family_ne (by decide)) (family_ne (by decide))).trans
      get_rewriteScalars_completed)
  constructor
  · intro h
    exact ⟨hretry.mp h.retry, hbackoff.mp h.backoff, hwaiting.mp h.waiting,
      hcompleted.mp h.completed⟩
  · intro h
    exact ⟨hretry.mpr h.retry, hbackoff.mpr h.backoff, hwaiting.mpr h.waiting,
      hcompleted.mpr h.completed, startNode_rewrite, fun key hkey => get_rewrite_kept hkey⟩

end Rewrite

/-! ## The decoded snapshot -/

structure MovedTo (f : String → String) (s s' : InstanceSnapshot) : Prop where
  retryAttempts : ∀ k v, s'.retryAttempts.get k = some v ↔
    ∃ n, s.retryAttempts.get n = some v ∧ f n = k
  retryBackoff : ∀ k v, s'.retryBackoff.get k = some v ↔
    ∃ n, s.retryBackoff.get n = some v ∧ f n = k
  waitingNodes : s'.waitingNodes = s.waitingNodes.map f
  completedNodes : s'.completedNodes = s.completedNodes.map f
  startNode : s'.startNode = if s.startNode = "" then "" else f s.startNode
  vars : s'.vars = s.vars
  status : s'.status = s.status
  sensitive : s'.sensitive = s.sensitive
  coverage : s'.coverage = s.coverage
  failureCode : s'.failureCode = s.failureCode
  failureDetail : s'.failureDetail = s.failureDetail

theorem not_rewritten
    (h : key ∉ [Key.deploymentId, Key.processId, Key.waiting, Key.completed, Key.startNode,
      Key.auditSeq]) (hretry : stripPrefix Key.retryFamily key = none)
    (hwait : stripPrefix Key.retryWaitFamily key = none) : ¬ Rewritten key := by
  rintro (hmem | ⟨n, hn⟩ | ⟨n, hn⟩)
  · exact h hmem
  · exact family_ne hretry n hn
  · exact family_ne hwait n hn

theorem not_rewritten_family (hfamily : ∀ other ∈ [Key.retryFamily, Key.retryWaitFamily],
      startsWith other family = false ∧ startsWith family other = false)
    (hscalar : ∀ key ∈ [Key.deploymentId, Key.processId, Key.waiting, Key.completed, Key.startNode,
      Key.auditSeq], stripPrefix family key = none) (n : String) : ¬ Rewritten (family ++ n) := by
  obtain ⟨hretry, hwait, -⟩ := forall_mem_cons.mp hfamily |>.imp_right forall_mem_cons.mp
  rintro (hmem | ⟨m, hm⟩ | ⟨m, hm⟩)
  · exact family_ne (hscalar _ hmem) n rfl
  · exact append_ne_append hretry.1 hretry.2 m n hm
  · exact append_ne_append hwait.1 hwait.2 m n hm

theorem Carries.decoded {map' : SortedMap String String}
    (h : Carries f map map') {codecs : TextCodecs} {crypto : Option SnapshotCrypto}
    {s : InstanceSnapshot} (hs : fromRaw codecs map crypto = .ok s) :
    ∃ s', fromRaw codecs map' crypto = .ok s' ∧ MovedTo f s s' := by
  have hscalar : ∀ {key}, key ∉ [Key.deploymentId, Key.processId, Key.waiting, Key.completed,
      Key.startNode, Key.auditSeq] ∧ stripPrefix Key.retryFamily key = none ∧
      stripPrefix Key.retryWaitFamily key = none → map'.get key = map.get key :=
    fun hkey => h.kept _ (not_rewritten hkey.1 hkey.2.1 hkey.2.2)
  have hversion : isTyped map' = isTyped map := by
    rw [isTyped, isTyped, hscalar (by decide)]
  have hvarKeys : ∀ key, isVarKey key → map'.get key = map.get key := by
    intro key hkey
    rw [isVarKey, Bool.or_eq_true, isSome_iff_exists, isSome_iff_exists] at hkey
    rcases hkey with ⟨n, hn⟩ | ⟨n, hn⟩ <;> rw [stripPrefix_eq_some.mp hn] <;>
      exact h.kept _ (not_rewritten_family (by decide) (by decide +kernel) n)
  have hvars : readVars codecs (isTyped map') crypto map'.entries .empty =
      readVars codecs (isTyped map) crypto map.entries .empty := by
    rw [hversion, readVars_congr codecs _ crypto hvarKeys]
  rw [fromRaw_eq] at hs
  rw [fromRaw_eq, hvars]
  cases hread : readVars codecs (isTyped map) crypto map.entries .empty with
  | error msg =>
    rw [hread] at hs
    cases hs
  | ok vars =>
    rw [hread] at hs
    cases hs
    refine ⟨_, rfl, ?_, ?_, h.waiting, h.completed, h.start, rfl, ?_, ?_, ?_, ?_, ?_⟩
    · intro k v
      change (readFamily Key.retryFamily readAttempts map').get k = some v ↔
        ∃ n, (readFamily Key.retryFamily readAttempts map).get n = some v ∧ f n = k
      simp only [get_readFamily, h.retry k v]
    · intro k v
      change (readFamily Key.retryWaitFamily readMarker map').get k = some v ↔
        ∃ n, (readFamily Key.retryWaitFamily readMarker map).get n = some v ∧ f n = k
      simp only [get_readFamily, h.backoff k v]
    · change statusOf map' = statusOf map
      rw [statusOf, statusOf, hscalar (by decide)]
    · change sortDedup (splitKey map' Key.sensitive) = sortDedup (splitKey map Key.sensitive)
      rw [splitKey, splitKey, hscalar (by decide)]
    · refine ext_get fun p => ?_
      change (readFamily Key.coverageFamily _ map').get p =
        (readFamily Key.coverageFamily _ map).get p
      rw [get_readFamily, get_readFamily, h.kept _ (not_rewritten_family (by decide)
        (by decide +kernel) p)]
    · change (map'.get Key.failureCode).getD "" = (map.get Key.failureCode).getD ""
      rw [hscalar (by decide)]
    · change (map'.get Key.failureDetail).getD "" = (map.get Key.failureDetail).getD ""
      rw [hscalar (by decide)]

theorem rawMap_encode_entries {bytes : List UInt8}
    (h : encode map.entries = some bytes) : rawMap bytes = .ok map := by
  rw [rawMap_encode h, ofList_entries]

/-- **A migration carries the retry state and the node lists along exactly when it is safe.**  The
migrated snapshot is the container of the rewritten map; read again it is that map; and the map
holds every node's state under the mapped id, with everything else as it was, if and only if both
families are undisturbed and the mapped ids can stand in a list. In that case whatever the snapshot
decoded to before, it decodes to the same with its nodes mapped. -/
theorem migratePinned_carries_iff {bytes : List UInt8} {map : SortedMap String String}
    (hmap : rawMap bytes = .ok map) (hlive : isTerminal (statusOf map) = false)
    (newDeploymentId : String) (newProcessId : Option String)
    {nodeMapping : SortedMap String String} (auditSeq : Option UInt32)
    (hinj : Set.InjOn (mapOne nodeMapping) {n | Names map n}) :
    migratePinned bytes newDeploymentId newProcessId nodeMapping auditSeq =
        .ok (encode (rewrite newDeploymentId newProcessId (mapOne nodeMapping) auditSeq
          map).entries) ∧
      (∀ bytes', migratePinned bytes newDeploymentId newProcessId nodeMapping auditSeq =
          .ok (some bytes') →
        rawMap bytes' = .ok (rewrite newDeploymentId newProcessId (mapOne nodeMapping) auditSeq
          map)) ∧
      (Carries (mapOne nodeMapping) map
          (rewrite newDeploymentId newProcessId (mapOne nodeMapping) auditSeq map) ↔
        Safe (mapOne nodeMapping) map) ∧
      (Safe (mapOne nodeMapping) map → ∀ codecs crypto s, fromRaw codecs map crypto = .ok s →
        ∃ s', fromRaw codecs (rewrite newDeploymentId newProcessId (mapOne nodeMapping) auditSeq
          map) crypto = .ok s' ∧ MovedTo (mapOne nodeMapping) s s') := by
  have hmigrate : migratePinned bytes newDeploymentId newProcessId nodeMapping auditSeq =
      .ok (encode (rewrite newDeploymentId newProcessId (mapOne nodeMapping) auditSeq
        map).entries) := by
    rw [migratePinned, hmap]
    change (if isTerminal (statusOf map) then _ else _) = _
    rw [hlive]
    rfl
  refine ⟨hmigrate, fun bytes' hbytes => ?_, rewrite_carries_iff hinj, fun hsafe _ _ _ hs => ?_⟩
  · exact rawMap_encode_entries (Except.ok.inj (hmigrate.symm.trans hbytes))
  · exact ((rewrite_carries_iff hinj).mpr hsafe).decoded hs

/-! ## Two tasks in retry -/

/-- A text snapshot of an instance whose tasks have failed once and twice. -/
def retriedBytes : List UInt8 :=
  ("sutra.status=SUSPENDED\nsutra.waitingNodes=a,b\nsutra.retry.a=1\nsutra.retry.b=2\n".toList).map
    fun c => UInt8.ofNat c.toNat

def retriedMap : SortedMap String String :=
  .ofList [("sutra.status", "SUSPENDED"), ("sutra.waitingNodes", "a,b"), ("sutra.retry.a", "1"),
    ("sutra.retry.b", "2")]

theorem rawMap_retriedBytes : rawMap retriedBytes = .ok retriedMap := by
  have h : (rawMap retriedBytes).toOption = some retriedMap := by decide +kernel
  cases hraw : rawMap retriedBytes with
  | error msg =>
    rw [hraw] at h
    cases h
  | ok map =>
    rw [hraw] at h
    rw [some.inj h]

theorem names_retriedMap {n : String} (h : Names retriedMap n) : n = "a" ∨ n = "b" := by
  have hwaiting : waitingNodes retriedMap = ["a", "b"] := by decide +kernel
  have hcompleted : completedNodes retriedMap = [] := by decide +kernel
  have hstart : startNode retriedMap = "" := by decide +kernel
  have hretry : familyNodes Key.retryFamily retriedMap = ["a", "b"] := by decide +kernel
  have hwait : familyNodes Key.retryWaitFamily retriedMap = [] := by decide +kernel
  rw [Names, hwaiting, hcompleted, hstart, hretry, hwait] at h
  simp only [mem_cons, not_mem_nil, or_false, false_or] at h
  rcases h with h | ⟨h, hne⟩ | h
  · exact h
  · exact absurd h hne
  · exact h

theorem injOn_retriedMap (h : f "a" ≠ f "b") : Set.InjOn f {n | Names retriedMap n} := by
  intro n hn m hm heq
  rcases names_retriedMap hn with rfl | rfl <;> rcases names_retriedMap hm with rfl | rfl
  · rfl
  · exact absurd heq h
  · exact absurd heq.symm h
  · rfl

/-- A mapping that swaps the two tasks. -/
def swapped : SortedMap String String := .ofList [("a", "b"), ("b", "a")]

/-- A swap loses a budget: of the two counters one is left, under the wrong task. -/
theorem swap_loses_budget :
    ∃ map', migratePinned retriedBytes "d2" none swapped none = .ok (encode map'.entries) ∧
      Set.InjOn (mapOne swapped) {n | Names retriedMap n} ∧
      (readFamily Key.retryFamily readAttempts retriedMap).entries = [("a", 1), ("b", 2)] ∧
      (readFamily Key.retryFamily readAttempts map').entries = [("a", 1)] := by
  refine ⟨rewrite "d2" none (mapOne swapped) none retriedMap, ?_, ?_, ?_, ?_⟩
  · rw [migratePinned, rawMap_retriedBytes]
    rfl
  · exact injOn_retriedMap (by decide +kernel)
  · decide +kernel
  · decide +kernel

/-- A mapping that moves the second task to the first id and the first one away. -/
def shifted : SortedMap String String := .ofList [("a", "z"), ("b", "a")]

theorem shift_keeps_budgets :
    Carries (mapOne shifted) retriedMap (rewrite "d2" none (mapOne shifted) none retriedMap) := by
  have hlive : isTerminal (statusOf retriedMap) = false := by decide +kernel
  have hinj : Set.InjOn (mapOne shifted) {n | Names retriedMap n} :=
    injOn_retriedMap (by decide +kernel)
  refine (migratePinned_carries_iff rawMap_retriedBytes hlive "d2" none none hinj).2.2.1.mpr ?_
  have hretry : familyNodes Key.retryFamily retriedMap = ["a", "b"] := by decide +kernel
  have hwait : familyNodes Key.retryWaitFamily retriedMap = [] := by decide +kernel
  have hnames : ∀ id ∈ (["a", "b"] : List String), IsName (mapOne shifted id) := by
    intro id hid
    have himage : mapOne shifted id = "z" ∨ mapOne shifted id = "a" := by
      revert id
      decide +kernel
    rcases himage with h | h <;> rw [h] <;> exact isName_of_all (by decide) (by decide +kernel)
  refine ⟨fun n m hlt hf hn hm => ?_, fun n m _ _ hn => ?_, ?_, ?_⟩
  · exfalso
    have hpairs : ∀ n ∈ (["a", "b"] : List String), ∀ m ∈ (["a", "b"] : List String),
        n < m → mapOne shifted n ≠ m := by decide +kernel
    rw [hretry] at hn hm
    exact hpairs n hn m hm hlt hf
  · rw [hwait] at hn
    cases hn
  · have hwaiting : waitingNodes retriedMap = ["a", "b"] := by decide +kernel
    intro id hid
    rw [hwaiting] at hid
    exact hnames id hid
  · have hcompleted : completedNodes retriedMap = [] := by decide +kernel
    intro id hid
    rw [hcompleted] at hid
    cases hid

end Sutra.Snapshot
