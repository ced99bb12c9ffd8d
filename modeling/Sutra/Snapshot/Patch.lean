import Mathlib
import Sutra.Snapshot.Migrate
import Sutra.Snapshot.Write

/-!
# Patching a stored snapshot

An instance that fails, ends, or is brought back from a failure has its snapshot re-stamped: the
key/value map is read from whichever container it is in, its status and its two failure keys are
edited, and the map is written as a format-5 container. Nothing is decrypted on the way.

* `patched_reads_as_edited`: the result is read as the edited record would be.
-/

namespace Sutra.Snapshot

open List Option SortedMap

/-! ## The edits -/

def putOrErase (map : SortedMap String String) (key text : String) : SortedMap String String :=
  if text = "" then map.erase key else map.insert key text

def stampFailed (failureCode detail : String) (map : SortedMap String String) :
    SortedMap String String :=
  putOrErase (putOrErase (map.insert Key.status statusFailed) Key.failureCode failureCode)
    Key.failureDetail detail

/-- The edits that bring a failed instance back. -/
def stampResumed (map : SortedMap String String) : SortedMap String String :=
  ((map.insert Key.status statusSuspended).erase Key.failureCode).erase Key.failureDetail

def markFailed (bytes : List UInt8) (failureCode detail : String) :
    Except String (Option (List UInt8)) := do
  let map ← rawMap bytes
  .ok (encode (stampFailed failureCode detail map).entries)

def markTerminal (bytes : List UInt8) (status : String) : Except String (Option (List UInt8)) :=
  if isTerminal status then do
    let map ← rawMap bytes
    .ok (encode (map.insert Key.status status).entries)
  else
    .error (s!"mark_terminal accepts only {statusCompleted} or {statusTerminated}, not " ++
      s!"'{status}' (FAILED has its own commit shape — see mark_failed)")

def resumeFromFailed (bytes : List UInt8) : Except String (Option (List UInt8)) := do
  let map ← rawMap bytes
  let status := statusOf map
  if status ≠ statusFailed then
    .error (s!"resume_from_failed accepts only a {statusFailed} snapshot, not '{status}' — a " ++
      "non-failed instance has no failure state to clear and resumes by correlation or by its " ++
      "timers")
  else
    .ok (encode (stampResumed map).entries)

/-! ## What an edit leaves alone -/

def patchedKeys : List String := [Key.status, Key.failureCode, Key.failureDetail]

variable {map : SortedMap String String} {q : String} {map' : SortedMap String String}

theorem get_putOrErase_of_ne {key : String} (h : key ≠ q)
    (text : String) : (putOrErase map key text).get q = map.get q := by
  rw [putOrErase]
  split
  · exact get_erase_of_ne _ h
  · exact get_insert_of_ne _ _ h

theorem get_stampFailed (h : q ∉ patchedKeys) (code detail : String)
    (map : SortedMap String String) : (stampFailed code detail map).get q = map.get q := by
  simp only [patchedKeys, mem_cons, not_mem_nil, or_false, not_or] at h
  rw [stampFailed, get_putOrErase_of_ne (Ne.symm h.2.2), get_putOrErase_of_ne (Ne.symm h.2.1),
    get_insert_of_ne _ _ (.symm h.1)]

theorem get_stampResumed (h : q ∉ patchedKeys) (map : SortedMap String String) :
    (stampResumed map).get q = map.get q := by
  simp only [patchedKeys, mem_cons, not_mem_nil, or_false, not_or] at h
  rw [stampResumed, get_erase_of_ne _ (Ne.symm h.2.2),
    get_erase_of_ne _ (.symm h.2.1), get_insert_of_ne _ _ (.symm h.1)]

theorem status_stampFailed (code detail : String) (map : SortedMap String String) :
    (stampFailed code detail map).get Key.status = some statusFailed := by
  rw [stampFailed, get_putOrErase_of_ne (by decide), get_putOrErase_of_ne (by decide),
    get_insert_self]

theorem stampResumed_stampFailed
    (hstatus : map.get Key.status = some statusSuspended) (hcode : map.get Key.failureCode = none)
    (hdetail : map.get Key.failureDetail = none) (code detail : String) :
    stampResumed (stampFailed code detail map) = map := by
  refine SortedMap.ext_get fun q => ?_
  by_cases hq : q ∈ patchedKeys
  · simp only [patchedKeys, mem_cons, not_mem_nil, or_false] at hq
    rcases hq with rfl | rfl | rfl
    · rw [stampResumed, get_erase_of_ne _ (by decide),
        get_erase_of_ne _ (by decide), get_insert_self, hstatus]
    · rw [stampResumed, get_erase_of_ne _ (by decide), get_erase_self, hcode]
    · rw [stampResumed, get_erase_self, hdetail]
  · rw [get_stampResumed hq, get_stampFailed hq]

def Patches (keys : List String) (map : SortedMap String String) (bytes : List UInt8) : Prop :=
  ∃ map', encode map'.entries = some bytes ∧ rawMap bytes = .ok map' ∧
    ∀ q ∉ keys, map'.get q = map.get q

variable {bytes : List UInt8}

theorem Patches.of_encode {keys : List String} (h : encode map'.entries = some bytes)
    (hframe : ∀ q ∉ keys, map'.get q = map.get q) : Patches keys map bytes := by
  refine ⟨map', h, ?_, hframe⟩
  rw [rawMap_encode h, ofList_entries]

/-! ## What can be patched -/

theorem encode_entries_isSome : (∃ bytes, encode map.entries = some bytes) ↔ Fits map := by
  rw [← isSome_iff_exists, encode_isSome, ofList_entries]

theorem Fits.of_keys (h : Fits map')
    (hmap : ∀ k v, map.get k = some v → k ∈ map'.entries.map Prod.fst ∧
      (textBytes v).length < 2 ^ 32) : Fits map := by
  have hkeys : ∀ k ∈ map.entries.map Prod.fst, k ∈ map'.entries.map Prod.fst := by
    intro k hk
    obtain ⟨⟨k, v⟩, he, rfl⟩ := mem_map.mp hk
    exact (hmap k v (mem_entries.mp he)).1
  have hnodup : (map.entries.map Prod.fst).Nodup := map.sorted.imp fun h => ne_of_lt h
  refine ⟨?_, fun e he => ?_⟩
  · have hlen := (subperm_of_subset hnodup hkeys).length_le
    rw [length_map, length_map] at hlen
    exact Nat.lt_of_le_of_lt hlen h.1
  · obtain ⟨hk, hv⟩ := hmap e.1 e.2 (mem_entries.mp he)
    obtain ⟨e', he', heq⟩ := mem_map.mp hk
    exact ⟨heq ▸ (h.2 e' he').1, hv⟩

theorem mem_keys_of_get {k v : String} (h : map.get k = some v) : k ∈ map.entries.map Prod.fst :=
  mem_map.mpr ⟨(k, v), mem_entries.mpr h, rfl⟩

theorem Fits.of_stampFailed {code detail : String}
    (hstatus : map.get Key.status = some statusSuspended) (hcode : map.get Key.failureCode = none)
    (hdetail : map.get Key.failureDetail = none) (h : Fits (stampFailed code detail map)) :
    Fits map := by
  refine h.of_keys fun k v hk => ?_
  by_cases hq : k ∈ patchedKeys
  · simp only [patchedKeys, mem_cons, not_mem_nil, or_false] at hq
    rcases hq with rfl | rfl | rfl
    · rw [hstatus] at hk
      cases hk
      exact ⟨mem_keys_of_get (status_stampFailed _ _ _), by decide⟩
    · exact nomatch hcode.symm.trans hk
    · exact nomatch hdetail.symm.trans hk
  · rw [← get_stampFailed hq code detail] at hk
    exact ⟨mem_keys_of_get hk, (h.2 _ (mem_entries.mpr hk)).2⟩

/-! ## What a container holds -/

variable {pairs : List (String × String)}

theorem fits_ofList (hlen : pairs.length < 2 ^ 32)
    (hall : ∀ e ∈ pairs, (textBytes e.1).length < 2 ^ 32 ∧ (textBytes e.2).length < 2 ^ 32) :
    Fits (SortedMap.ofList pairs) := by
  have hmem : ∀ e ∈ (SortedMap.ofList pairs).entries, e ∈ pairs := fun e he =>
    mem_of_get_ofList (mem_entries.mp he)
  have hnodup := nodup_of_sorted (SortedMap.ofList pairs).sorted
  exact ⟨Nat.lt_of_le_of_lt (subperm_of_subset hnodup hmem).length_le hlen,
    fun e he => hall e (hmem e he)⟩

/-- What a format-5 container holds can be written to one. -/
theorem fits_of_decode (h : decode bytes = .ok pairs) : Fits (SortedMap.ofList pairs) := by
  obtain ⟨count, body, hcount, hbody, -⟩ := decode_eq_ok.mp h
  have hsome : (encodeEntries pairs).isSome := by
    rw [hbody]
    rfl
  exact fits_ofList (lenU32_eq_some.mp hcount).1 (encodeEntries_isSome.mp hsome)

/-- **Bringing back what a format-5 container holds has a result.** -/
theorem fits_stampResumed (hbinary : isBinary bytes) (hmap : rawMap bytes = .ok map)
    (hstatus : map.get Key.status = some statusFailed) : Fits (stampResumed map) := by
  rw [rawMap, if_pos hbinary] at hmap
  obtain ⟨pairs, hpairs, hmap⟩ := Except.bind_eq_ok hmap
  cases hmap
  have hfits := fits_of_decode hpairs
  refine hfits.of_keys fun k v hk => ?_
  by_cases hq : k ∈ patchedKeys
  · simp only [patchedKeys, mem_cons, not_mem_nil, or_false] at hq
    rcases hq with rfl | rfl | rfl
    · rw [stampResumed, get_erase_of_ne _ (by decide),
        get_erase_of_ne _ (by decide), get_insert_self] at hk
      cases hk
      exact ⟨mem_keys_of_get hstatus, by decide⟩
    · rw [stampResumed, get_erase_of_ne _ (by decide), get_erase_self] at hk
      cases hk
    · rw [stampResumed, get_erase_self] at hk
      cases hk
  · rw [get_stampResumed hq] at hk
    exact ⟨mem_keys_of_get hk, (hfits.2 _ (mem_entries.mpr hk)).2⟩

/-! ## The patchers -/

theorem statusOf_eq_failed :
    statusOf map = statusFailed ↔ map.get Key.status = some statusFailed := by
  rw [statusOf]
  cases map.get Key.status with
  | none => exact iff_of_false (by decide) fun h => by cases h
  | some status => exact (some_inj).symm

theorem markFailed_eq (h : rawMap bytes = .ok map) (code detail : String) :
    markFailed bytes code detail = .ok (encode (stampFailed code detail map).entries) := by
  rw [markFailed, h]
  rfl

theorem markTerminal_eq
    (h : rawMap bytes = .ok map) {status : String} (hstatus : isTerminal status) :
    markTerminal bytes status = .ok (encode (map.insert Key.status status).entries) := by
  rw [markTerminal, if_pos hstatus, h]
  rfl

theorem resumeFromFailed_eq
    (h : rawMap bytes = .ok map) (hstatus : map.get Key.status = some statusFailed) :
    resumeFromFailed bytes = .ok (encode (stampResumed map).entries) := by
  rw [resumeFromFailed, h]
  exact if_neg (not_not_intro (statusOf_eq_failed.mpr hstatus))

theorem resumeFromFailed_ok {out : Option (List UInt8)}
    (h : resumeFromFailed bytes = .ok out) : ∃ map, rawMap bytes = .ok map ∧
      map.get Key.status = some statusFailed ∧ out = encode (stampResumed map).entries := by
  rw [resumeFromFailed] at h
  obtain ⟨map, hmap, h⟩ := Except.bind_eq_ok h
  refine ⟨map, hmap, ?_⟩
  dsimp only at h
  split at h
  · cases h
  · rename_i hstatus
    exact ⟨statusOf_eq_failed.mp (not_not.mp hstatus), (Except.ok.inj h).symm⟩

section patchers

variable {bytes : List UInt8} {map : SortedMap String String} {out : List UInt8}

theorem markFailed_some_iff (hmap : rawMap bytes = .ok map) {code detail : String} :
    markFailed bytes code detail = .ok (some out) ↔
      encode (stampFailed code detail map).entries = some out := by
  rw [markFailed_eq hmap]
  exact ⟨Except.ok.inj, congrArg Except.ok⟩

theorem markTerminal_some_iff (hmap : rawMap bytes = .ok map) {status : String} :
    markTerminal bytes status = .ok (some out) ↔
      isTerminal status ∧ encode (map.insert Key.status status).entries = some out := by
  by_cases hstatus : isTerminal status
  · rw [markTerminal_eq hmap hstatus]
    exact ⟨fun h => ⟨hstatus, Except.ok.inj h⟩, fun h => congrArg Except.ok h.2⟩
  · rw [markTerminal, if_neg hstatus]
    exact iff_of_false nofun fun h => hstatus h.1

theorem resumeFromFailed_some_iff (hmap : rawMap bytes = .ok map) :
    resumeFromFailed bytes = .ok (some out) ↔
      map.get Key.status = some statusFailed ∧ encode (stampResumed map).entries = some out := by
  constructor
  · intro h
    obtain ⟨map', hmap', hstatus, hout⟩ := resumeFromFailed_ok h
    cases Except.ok.inj (hmap.symm.trans hmap')
    exact ⟨hstatus, hout.symm⟩
  · rintro ⟨hstatus, hout⟩
    rw [resumeFromFailed_eq hmap hstatus, hout]

/-- **The patchers keep every key but the status and the failure keys, and bringing back undoes
failing.**  A patcher has a result unless a length of the patched map does not fit its container. -/
theorem patchers_frame_and_invert (hmap : rawMap bytes = .ok map) : (∀ failureCode detail,
      ((∃ out, markFailed bytes failureCode detail = .ok (some out)) ↔
        Fits (stampFailed failureCode detail map)) ∧
      ∀ out, markFailed bytes failureCode detail = .ok (some out) → Patches patchedKeys map out) ∧
    (∀ status, ((∃ out, markTerminal bytes status = .ok (some out)) ↔
        isTerminal status = true ∧ Fits (map.insert Key.status status)) ∧
      ∀ out, markTerminal bytes status = .ok (some out) → Patches [Key.status] map out) ∧
    ((∃ out, resumeFromFailed bytes = .ok (some out)) ↔
      map.get Key.status = some statusFailed ∧ Fits (stampResumed map)) ∧
    (isBinary bytes = true → ((∃ out, resumeFromFailed bytes = .ok (some out)) ↔
      map.get Key.status = some statusFailed)) ∧
    (∀ out, resumeFromFailed bytes = .ok (some out) → Patches patchedKeys map out) ∧
    (map.get Key.status = some statusSuspended → map.get Key.failureCode = none →
      map.get Key.failureDetail = none → ∀ failureCode detail out,
        markFailed bytes failureCode detail = .ok (some out) →
          ∃ original, encode map.entries = some original ∧
            resumeFromFailed out = .ok (some original)) := by
  have hresumed : (∃ out, resumeFromFailed bytes = .ok (some out)) ↔
      map.get Key.status = some statusFailed ∧ Fits (stampResumed map) := by
    simp only [resumeFromFailed_some_iff hmap, exists_and_left, encode_entries_isSome]
  refine ⟨fun failureCode detail => ⟨?_, fun out hout => ?_⟩,
    fun status => ⟨?_, fun out hout => ?_⟩, hresumed, fun hbinary => ?_, fun out hout => ?_, ?_⟩
  · simp only [markFailed_some_iff hmap, encode_entries_isSome]
  · exact .of_encode ((markFailed_some_iff hmap).mp hout) fun q hq => get_stampFailed hq _ _ _
  · simp only [markTerminal_some_iff hmap, exists_and_left, encode_entries_isSome]
  · exact .of_encode ((markTerminal_some_iff hmap).mp hout).2 fun q hq =>
      get_insert_of_ne _ _ fun heq => hq (heq ▸ mem_singleton_self _)
  · exact hresumed.trans (and_iff_left_of_imp (fits_stampResumed hbinary hmap))
  · exact .of_encode ((resumeFromFailed_some_iff hmap).mp hout).2 fun q hq => get_stampResumed hq _
  · intro hstatus hcode hdetail failureCode detail out hout
    have hencode := (markFailed_some_iff hmap).mp hout
    have hback : rawMap out = .ok (stampFailed failureCode detail map) := by
      rw [rawMap_encode hencode, ofList_entries]
    obtain ⟨original, horiginal⟩ := encode_entries_isSome.mpr
      (Fits.of_stampFailed hstatus hcode hdetail (encode_entries_isSome.mp ⟨out, hencode⟩))
    refine ⟨original, horiginal, (resumeFromFailed_some_iff hback).mpr ?_⟩
    rw [stampResumed_stampFailed hstatus hcode hdetail]
    exact ⟨status_stampFailed _ _ _, horiginal⟩

end patchers

/-! ## Reading what was patched -/

def familyKeys : List String :=
  [Key.varFamily, Key.encFamily, Key.coverageFamily, Key.retryFamily, Key.retryWaitFamily]

theorem stripPrefix_patchedKeys :
    ∀ family ∈ familyKeys, ∀ key ∈ patchedKeys, Text.stripPrefix family key = none := by
  decide

/-- **A map that differs in the patched keys only is read alike**, failures included, but for the
three fields of those keys. -/
theorem fromRaw_patched (h : ∀ q ∉ patchedKeys, map'.get q = map.get q) (codecs : TextCodecs)
    (crypto : Option SnapshotCrypto) :
    fromRaw codecs map' crypto = (fromRaw codecs map crypto).map fun s =>
      { s with
        status := (map'.get Key.status).getD statusRunning
        failureCode := (map'.get Key.failureCode).getD ""
        failureDetail := (map'.get Key.failureDetail).getD "" } := by
  have hfamily : ∀ family ∈ familyKeys, ∀ n, map'.get (family ++ n) = map.get (family ++ n) :=
    fun family hmem n => h _ fun hkey =>
      family_ne (stripPrefix_patchedKeys family hmem _ hkey) n rfl
  have hread : ∀ {V : Type} (read : String → Option V), ∀ family ∈ familyKeys,
      readFamily family read map' = readFamily family read map := by
    intro V read family hmem
    refine ext_get fun n => ?_
    rw [get_readFamily, get_readFamily, hfamily family hmem]
  have hvarKeys : ∀ key, isVarKey key → map'.get key = map.get key := by
    intro key hkey
    rw [isVarKey, Bool.or_eq_true, isSome_iff_exists, isSome_iff_exists] at hkey
    rcases hkey with ⟨n, hn⟩ | ⟨n, hn⟩
    · exact Text.stripPrefix_eq_some.mp hn ▸ hfamily Key.varFamily (by simp [familyKeys]) n
    · exact Text.stripPrefix_eq_some.mp hn ▸ hfamily Key.encFamily (by simp [familyKeys]) n
  have hversion : isTyped map' = isTyped map := by
    rw [isTyped, isTyped, h _ (by decide)]
  rw [fromRaw_eq, fromRaw_eq, hversion, readVars_congr codecs _ crypto hvarKeys]
  cases readVars codecs (isTyped map) crypto map.entries .empty with
  | error e => rfl
  | ok vars =>
    refine congrArg Except.ok ?_
    simp only [familiesOf, ofFamilies, hread _ Key.coverageFamily (by simp [familyKeys]),
      hread _ Key.retryFamily (by simp [familyKeys]),
      hread _ Key.retryWaitFamily (by simp [familyKeys]), h Key.processId (by decide),
      h Key.deploymentId (by decide), h Key.completed (by decide), h Key.waiting (by decide),
      h Key.startNode (by decide), h Key.auditSeq (by decide), h Key.sensitive (by decide)]

theorem getD_putOrErase (map : SortedMap String String) (key text : String) :
    ((putOrErase map key text).get key).getD "" = text := by
  rw [putOrErase]
  split
  · rename_i hempty
    rw [get_erase_self, hempty]
    rfl
  · rw [get_insert_self, getD_some]

theorem failure_of_fromRaw {codecs : TextCodecs} {crypto : Option SnapshotCrypto}
    {s : InstanceSnapshot} (h : fromRaw codecs map crypto = .ok s) :
    (map.get Key.failureCode).getD "" = s.failureCode ∧
      (map.get Key.failureDetail).getD "" = s.failureDetail := by
  rw [fromRaw_eq] at h
  cases hvars : readVars codecs (isTyped map) crypto map.entries .empty with
  | error e =>
    rw [hvars] at h
    cases h
  | ok vars =>
    rw [hvars] at h
    cases h
    exact ⟨rfl, rfl⟩

theorem readEncrypted_eq (h : rawMap bytes = .ok map) (codecs : TextCodecs)
    (crypto : Option SnapshotCrypto) :
    readEncrypted codecs bytes crypto = fromRaw codecs map crypto := by
  rw [readEncrypted, h]
  rfl

theorem readEncrypted_encode (h : encode map'.entries = some bytes) (codecs : TextCodecs)
    (crypto : Option SnapshotCrypto) :
    readEncrypted codecs bytes crypto = fromRaw codecs map' crypto :=
  readEncrypted_eq (rawMap_encode_entries h) codecs crypto

/-- **A patcher does to the bytes what an edit of the record does**: the patched container is read
as the stored one with its status and failure set, and fails to be read as the stored one does. -/
theorem patched_reads_as_edited (hmap : rawMap bytes = .ok map) (codecs : TextCodecs)
    (crypto : Option SnapshotCrypto) :
    (∀ failureCode detail out, markFailed bytes failureCode detail = .ok (some out) →
      readEncrypted codecs out crypto = (readEncrypted codecs bytes crypto).map fun s =>
        { s with status := statusFailed, failureCode := failureCode, failureDetail := detail }) ∧
    (∀ status out, markTerminal bytes status = .ok (some out) →
      readEncrypted codecs out crypto = (readEncrypted codecs bytes crypto).map fun s =>
        { s with status := status }) ∧
    ∀ out, resumeFromFailed bytes = .ok (some out) →
      readEncrypted codecs out crypto = (readEncrypted codecs bytes crypto).map fun s =>
        { s with status := statusSuspended, failureCode := "", failureDetail := "" } := by
  rw [readEncrypted_eq hmap]
  refine ⟨fun failureCode detail out hout => ?_, fun status out hout => ?_, fun out hout => ?_⟩
  · rw [readEncrypted_encode ((markFailed_some_iff hmap).mp hout),
      fromRaw_patched fun q hq => get_stampFailed hq _ _ _, status_stampFailed, getD_some]
    rw [stampFailed, getD_putOrErase, get_putOrErase_of_ne (by decide), getD_putOrErase]
  · have hsame : ∀ q ∉ patchedKeys, (map.insert Key.status status).get q = map.get q :=
      fun q hq => get_insert_of_ne _ _ fun heq => hq (heq ▸ .head _)
    rw [readEncrypted_encode ((markTerminal_some_iff hmap).mp hout).2, fromRaw_patched hsame]
    cases hread : fromRaw codecs map crypto with
    | error e => rfl
    | ok s =>
      obtain ⟨hcode, hdetail⟩ := failure_of_fromRaw hread
      rw [get_insert_self, get_insert_of_ne _ _ (by decide), get_insert_of_ne _ _ (by decide),
        hcode, hdetail]
      rfl
  · rw [readEncrypted_encode ((resumeFromFailed_some_iff hmap).mp hout).2,
      fromRaw_patched fun q hq => get_stampResumed hq _]
    rw [stampResumed, get_erase_of_ne _ (by decide), get_erase_of_ne _ (by decide), get_insert_self,
      get_erase_of_ne _ (by decide), get_erase_self, get_erase_self]
    rfl

/-! ## A suspended snapshot -/

/-- A suspended instance with an encrypted variable. -/
def suspendedEntries : List (String × String) :=
  [(Key.encFamily ++ "card", "b64"), (Key.status, statusSuspended)]

theorem suspended_failed_and_back : ∃ bytes failed original, encode suspendedEntries = some bytes ∧
      markFailed bytes "TIMEOUT" "no answer" = .ok (some failed) ∧
      resumeFromFailed failed = .ok (some original) ∧ original = bytes := by
  have hencode : encode suspendedEntries = some _ := rfl
  have hmap := rawMap_encode hencode
  obtain ⟨-, -, -, -, -, hback⟩ := patchers_frame_and_invert hmap
  have hmark : markFailed _ "TIMEOUT" "no answer" = .ok (some _) :=
    (markFailed_some_iff hmap).mpr rfl
  obtain ⟨original, horiginal, hresume⟩ := hback (by decide) (by decide) (by decide) _ _ _ hmark
  exact ⟨_, _, original, hencode, hmark, hresume, (some.inj horiginal).symm⟩

theorem suspended_read_as_failed : ∃ bytes failed,
    markFailed bytes "TIMEOUT" "" = .ok (some failed) ∧ ∀ codecs crypto,
      readEncrypted codecs failed crypto = (readEncrypted codecs bytes crypto).map fun s =>
        { s with status := statusFailed, failureCode := "TIMEOUT", failureDetail := "" } := by
  have hencode : encode suspendedEntries = some _ := rfl
  have hmap := rawMap_encode hencode
  have hmark : markFailed _ "TIMEOUT" "" = .ok (some _) := (markFailed_some_iff hmap).mpr rfl
  refine ⟨_, _, hmark, fun codecs crypto => ?_⟩
  exact (patched_reads_as_edited hmap codecs crypto).1 _ _ _ hmark

theorem length_le_textBytes (chars : List Char) :
    chars.length ≤ (textBytes (String.ofList chars)).length := by
  have hsize : (textBytes (String.ofList chars)).length = String.utf8Len chars :=
    String.utf8ByteSize_ofList chars
  rw [hsize]
  clear hsize
  induction chars with
  | nil => exact Nat.zero_le _
  | cons c rest ih =>
    rw [String.utf8Len_cons, length_cons]
    exact Nat.add_le_add ih c.utf8Size_pos

/-- **A detail of 4 GiB stops the code with a panic**: the snapshot is not marked failed. -/
theorem huge_detail_not_marked : ∃ bytes detail, encode suspendedEntries = some bytes ∧
    markFailed bytes "TIMEOUT" detail = .ok none := by
  obtain ⟨chars, hchars⟩ : ∃ chars, 2 ^ 32 ≤ chars.length :=
    ⟨List.replicate (2 ^ 32) 'x', by rw [length_replicate]⟩
  have hlong := Nat.le_trans hchars (length_le_textBytes chars)
  have hencode : encode suspendedEntries = some _ := rfl
  refine ⟨_, String.ofList chars, hencode, ?_⟩
  rw [markFailed_eq (rawMap_encode hencode)]
  refine congrArg Except.ok (not_isSome_iff_eq_none.mp fun hsome => ?_)
  have hfits := encode_entries_isSome.mp (isSome_iff_exists.mp hsome)
  have hne : String.ofList chars ≠ "" := by
    intro heq
    rw [heq] at hlong
    exact absurd hlong (by decide)
  have hget : (stampFailed "TIMEOUT" (String.ofList chars) (.ofList suspendedEntries)).get
      Key.failureDetail = some (String.ofList chars) := by
    rw [stampFailed, putOrErase, if_neg hne, get_insert_self]
  exact absurd (hfits.2 _ (mem_entries.mpr hget)).2 (Nat.not_lt.mpr hlong)

end Sutra.Snapshot
