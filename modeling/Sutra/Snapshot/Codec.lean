import Sutra.Snapshot.Container
import Sutra.Snapshot.Props
import Sutra.Snapshot.Value

/-!
# The instance snapshot and how it is read

An `InstanceSnapshot` is the decoded state of one in-flight instance. It is stored as a flat map of
string keys and values, one key per scalar field and one key per entry of each family (variables,
encrypted variables, coverage counters, retry counters, backoff markers). Reading splits the map by
key prefix, in key order. A variable is stored as text if every variable is text, and else in its
typed form; the version key says which.
-/

namespace Sutra.Snapshot

open Text List Option SortedMap

/-! ## Keys -/

def statusRunning : String := "RUNNING"
def statusSuspended : String := "SUSPENDED"
def statusCompleted : String := "COMPLETED"
def statusTerminated : String := "TERMINATED"
def statusFailed : String := "FAILED"

def formatVersion : Nat := 2
def formatVersionEncrypted : Nat := 3
def formatVersionTyped : Nat := 4

namespace Key

def snapshotVersion : String := "sutra.snapshot"
def deploymentId : String := "sutra.deploymentId"
def processId : String := "sutra.processId"
def status : String := "sutra.status"
def completed : String := "sutra.completedNodes"
def waiting : String := "sutra.waitingNodes"
def startNode : String := "sutra.startNode"
def auditSeq : String := "sutra.auditSeq"
def sensitive : String := "sutra.sensitive"
def failureCode : String := "sutra.failureCode"
def failureDetail : String := "sutra.failureDetail"
def keyId : String := "sutra.keyId"
def varFamily : String := "sutra.var."
def encFamily : String := "sutra.enc."
def coverageFamily : String := "sutra.coverage."
def retryFamily : String := "sutra.retry."
def retryWaitFamily : String := "sutra.retryWait."

end Key

/-! ## The snapshot -/

@[ext]
structure InstanceSnapshot where
  processId : String
  deploymentId : String
  status : String
  completedNodes : List String
  vars : SortedMap String SnapshotValue
  waitingNodes : List String
  startNode : String
  auditSeq : UInt32
  sensitive : List String
  sensitive_sorted : sensitive.Pairwise (· < ·)
  coverage : SortedMap String UInt64
  retryAttempts : SortedMap String UInt32
  retryBackoff : SortedMap String String
  failureCode : String
  failureDetail : String

def sortDedup (names : List String) : List String :=
  (SortedMap.ofList (names.map fun n => (n, ()))).entries.map Prod.fst

theorem sortDedup_sorted (names : List String) : (sortDedup names).Pairwise (· < ·) :=
  (SortedMap.ofList (names.map fun n => (n, ()))).sorted

structure PayloadCipher where
  encrypt : List UInt8 → List UInt8 → Except String (List UInt8)
  decrypt : List UInt8 → List UInt8 → Except String (List UInt8)

structure SnapshotCrypto where
  cipher : PayloadCipher
  keyId : String
  instanceId : String

def SnapshotCrypto.aad (c : SnapshotCrypto) (varName : String) : List UInt8 :=
  textBytes c.keyId ++ [0x1f] ++ textBytes c.instanceId ++ [0x1f] ++ textBytes varName

/-! ## Reading -/

def rawMap (bytes : List UInt8) : Except String (SortedMap String String) := do
  let pairs ← if isBinary bytes then decode bytes else Props.readLines bytes
  .ok (SortedMap.ofList pairs)

theorem rawMap_encode {entries : List (String × String)} {bytes : List UInt8}
    (h : encode entries = some bytes) : rawMap bytes = .ok (SortedMap.ofList entries) := by
  rw [rawMap, if_pos (isBinary_encode h), decode_encode h]
  change Except.ok (SortedMap.ofList (SortedMap.ofList entries).entries) = _
  rw [ofList_entries]

structure Families where
  vars : SortedMap String SnapshotValue := .empty
  coverage : SortedMap String UInt64 := .empty
  retryAttempts : SortedMap String UInt32 := .empty
  retryBackoff : SortedMap String String := .empty

def readCount (width : Nat) (value : String) : Option Nat :=
  let count := (parseUnsigned width (trim value)).getD 0
  if 0 < count then some count else none

def readMarker (value : String) : Option String :=
  if trim value ≠ "" then some (trim value) else none

section Read

variable (codecs : TextCodecs)

/-- A stored value, tagged or plain text. -/
def decodeValue (typed : Bool) (raw : String) : SnapshotValue :=
  if typed then SnapshotValue.decode codecs raw else .string raw

/-- An encrypted value in the clear; as above, without the position of bytes which are no text. -/
def decryptText (crypto : Option SnapshotCrypto) (name value : String) : Except String String :=
  match crypto with
  | none => .error (s!"snapshot variable '{name}' is encrypted (sutra.enc.) but no cipher was " ++
      "supplied to decrypt it")
  | some c =>
    match codecs.decodeBase64 value with
    | .error e => .error s!"snapshot variable '{name}' has malformed base64 ciphertext: {e}"
    | .ok ciphertext =>
      match c.cipher.decrypt ciphertext (c.aad name) with
      | .error e => .error s!"snapshot variable '{name}' failed to decrypt (fail-closed): {e}"
      | .ok plaintext =>
        match textOfBytes plaintext with
        | none => .error s!"snapshot variable '{name}' decrypted to non-UTF-8 bytes"
        | some text => .ok text

def absorb (typed : Bool) (crypto : Option SnapshotCrypto) (acc : Families)
    (entry : String × String) : Except String Families :=
  let (key, value) := entry
  match stripPrefix Key.varFamily key with
  | some name =>
    .ok { acc with vars := acc.vars.insert name (decodeValue codecs typed value) }
  | none =>
  match stripPrefix Key.encFamily key with
  | some name => do
    let text ← decryptText codecs crypto name value
    .ok { acc with vars := acc.vars.insert name (decodeValue codecs typed text) }
  | none =>
  match stripPrefix Key.coverageFamily key with
  | some pathId =>
    match readCount 64 value with
    | some count => .ok { acc with coverage := acc.coverage.insert pathId (.ofNat count) }
    | none => .ok acc
  | none =>
  match stripPrefix Key.retryWaitFamily key with
  | some nodeId =>
    match readMarker value with
    | some code => .ok { acc with retryBackoff := acc.retryBackoff.insert nodeId code }
    | none => .ok acc
  | none =>
  match stripPrefix Key.retryFamily key with
  | some nodeId =>
    match readCount 32 value with
    | some attempts =>
      .ok { acc with retryAttempts := acc.retryAttempts.insert nodeId (.ofNat attempts) }
    | none => .ok acc
  | none => .ok acc

def isTyped (map : SortedMap String String) : Bool :=
  match map.get Key.snapshotVersion with
  | some v => formatVersionTyped ≤ (parseUnsigned 32 (trim v)).getD formatVersion
  | none => false

def ofFamilies (map : SortedMap String String) (families : Families) : InstanceSnapshot :=
  let get (key : String) : String := (map.get key).getD ""
  { processId := get Key.processId
    deploymentId := get Key.deploymentId
    status := (map.get Key.status).getD statusRunning
    completedNodes := splitList (get Key.completed)
    vars := families.vars
    waitingNodes := splitList (get Key.waiting)
    startNode := get Key.startNode
    auditSeq := .ofNat ((parseUnsigned 32 (trim (get Key.auditSeq))).getD 0)
    sensitive := sortDedup (splitList (get Key.sensitive))
    sensitive_sorted := sortDedup_sorted _
    coverage := families.coverage
    retryAttempts := families.retryAttempts
    retryBackoff := families.retryBackoff
    failureCode := get Key.failureCode
    failureDetail := get Key.failureDetail }

def fromRaw (map : SortedMap String String) (crypto : Option SnapshotCrypto) :
    Except String InstanceSnapshot := do
  let families ← map.entries.foldlM (absorb codecs (isTyped map) crypto) {}
  .ok (ofFamilies map families)

end Read

/-! ## Reading, family by family -/

def familyEntry {V : Type} (family : String) (read : String → Option V)
    (entry : String × String) : Option (String × V) :=
  (stripPrefix family entry.1).bind fun name => (read entry.2).map (name, ·)

def readFamily {V : Type} (family : String) (read : String → Option V)
    (map : SortedMap String String) : SortedMap String V :=
  SortedMap.ofList (map.entries.filterMap (familyEntry family read))

theorem familyEntry_eq_some {V : Type} {family : String} {read : String → Option V}
    {entry : String × String} {name : String} {v : V} :
    familyEntry family read entry = some (name, v) ↔
      entry.1 = family ++ name ∧ read entry.2 = some v := by
  rw [familyEntry, bind_eq_some_iff]
  constructor
  · rintro ⟨n, hn, hv⟩
    obtain ⟨w, hw, heq⟩ := map_eq_some_iff.mp hv
    cases heq
    exact ⟨stripPrefix_eq_some.mp hn, hw⟩
  · rintro ⟨hn, hv⟩
    exact ⟨name, stripPrefix_eq_some.mpr hn, by rw [hv]; rfl⟩

/-- **A family holds what its keys hold.** -/
theorem get_readFamily {V : Type} (family : String) (read : String → Option V)
    (map : SortedMap String String) (name : String) :
    (readFamily family read map).get name = (map.get (family ++ name)).bind read := by
  refine get_ofList_eq fun v => ?_
  rw [mem_filterMap, bind_eq_some_iff]
  constructor
  · rintro ⟨⟨key, value⟩, he, hread⟩
    obtain ⟨rfl, hv⟩ := familyEntry_eq_some.mp hread
    exact ⟨value, mem_entries.mp he, hv⟩
  · rintro ⟨value, hget, hv⟩
    exact ⟨(family ++ name, value), mem_entries.mpr hget, familyEntry_eq_some.mpr ⟨rfl, hv⟩⟩

section Families

variable (codecs : TextCodecs) (typed : Bool) (crypto : Option SnapshotCrypto)

def readVar (entry : String × String) : Except String (Option (String × SnapshotValue)) :=
  match stripPrefix Key.varFamily entry.1 with
  | some name => .ok (some (name, decodeValue codecs typed entry.2))
  | none =>
    match stripPrefix Key.encFamily entry.1 with
    | some name => do
      let text ← decryptText codecs crypto name entry.2
      .ok (some (name, decodeValue codecs typed text))
    | none => .ok none

/-- Write an entry, if there is one. -/
def insertSome {V : Type} (map : SortedMap String V) : Option (String × V) → SortedMap String V
  | some e => map.insert e.1 e.2
  | none => map

def readVars (entries : List (String × String)) (acc : SortedMap String SnapshotValue) :
    Except String (SortedMap String SnapshotValue) :=
  entries.foldlM (fun vars e => (readVar codecs typed crypto e).map (insertSome vars)) acc

theorem stripPrefix_other {p k s : String} (q : String) (h : stripPrefix p k = some s)
    (hpq : startsWith p q = false := by decide) (hqp : startsWith q p = false := by decide) :
    stripPrefix q k = none := by
  refine stripPrefix_eq_none fun t ht => ?_
  exact append_ne_append hpq hqp s t ((stripPrefix_eq_some.mp h).symm.trans ht)

theorem absorb_eq (acc : Families) (entry : String × String) :
    absorb codecs typed crypto acc entry =
      (readVar codecs typed crypto entry).map fun var =>
        { vars := insertSome acc.vars var
          coverage := insertSome acc.coverage
            (familyEntry Key.coverageFamily (fun v => (readCount 64 v).map .ofNat) entry)
          retryAttempts := insertSome acc.retryAttempts
            (familyEntry Key.retryFamily (fun v => (readCount 32 v).map .ofNat) entry)
          retryBackoff := insertSome acc.retryBackoff
            (familyEntry Key.retryWaitFamily readMarker entry) } := by
  obtain ⟨key, value⟩ := entry
  rw [absorb, readVar, familyEntry, familyEntry, familyEntry]
  cases hvar : stripPrefix Key.varFamily key with
  | some name =>
    rw [stripPrefix_other Key.coverageFamily hvar, stripPrefix_other Key.retryFamily hvar,
      stripPrefix_other Key.retryWaitFamily hvar]
    rfl
  | none =>
    cases henc : stripPrefix Key.encFamily key with
    | some name =>
      rw [stripPrefix_other Key.coverageFamily henc, stripPrefix_other Key.retryFamily henc,
        stripPrefix_other Key.retryWaitFamily henc]
      change (decryptText codecs crypto name value >>= _) =
        Except.map _ (decryptText codecs crypto name value >>= _)
      cases decryptText codecs crypto name value <;> rfl
    | none =>
      cases hcov : stripPrefix Key.coverageFamily key with
      | some pathId =>
        rw [stripPrefix_other Key.retryFamily hcov, stripPrefix_other Key.retryWaitFamily hcov]
        cases readCount 64 value <;> rfl
      | none =>
        cases hwait : stripPrefix Key.retryWaitFamily key with
        | some nodeId =>
          rw [stripPrefix_other Key.retryFamily hwait]
          cases readMarker value <;> rfl
        | none =>
          cases stripPrefix Key.retryFamily key with
          | some nodeId => cases readCount 32 value <;> rfl
          | none => rfl

def addFamily {V : Type} (family : String) (read : String → Option V)
    (entries : List (String × String)) (acc : SortedMap String V) : SortedMap String V :=
  entries.foldl (fun map e => insertSome map (familyEntry family read e)) acc

theorem addFamily_empty {V : Type} (family : String) (read : String → Option V)
    (map : SortedMap String String) :
    addFamily family read map.entries .empty = readFamily family read map := by
  rw [addFamily, readFamily, SortedMap.ofList, foldl_filterMap]
  congr 1
  funext acc e
  cases familyEntry family read e <;> rfl

theorem foldlM_absorb (entries : List (String × String)) (acc : Families) :
    entries.foldlM (absorb codecs typed crypto) acc =
      (readVars codecs typed crypto entries acc.vars).map fun vars =>
        { vars := vars
          coverage := addFamily Key.coverageFamily (fun v => (readCount 64 v).map .ofNat) entries
            acc.coverage
          retryAttempts := addFamily Key.retryFamily (fun v => (readCount 32 v).map .ofNat) entries
            acc.retryAttempts
          retryBackoff := addFamily Key.retryWaitFamily readMarker entries acc.retryBackoff } := by
  induction entries generalizing acc with
  | nil => rfl
  | cons e rest ih =>
    rw [readVars, foldlM_cons, foldlM_cons, absorb_eq]
    cases readVar codecs typed crypto e with
    | error msg => rfl
    | ok var => exact ih _

def familiesOf (map : SortedMap String String) (vars : SortedMap String SnapshotValue) :
    Families where
  vars := vars
  coverage := readFamily Key.coverageFamily (fun v => (readCount 64 v).map .ofNat) map
  retryAttempts := readFamily Key.retryFamily (fun v => (readCount 32 v).map .ofNat) map
  retryBackoff := readFamily Key.retryWaitFamily readMarker map

/-- **Reading a map, family by family.** -/
theorem fromRaw_eq (map : SortedMap String String) :
    fromRaw codecs map crypto =
      (readVars codecs (isTyped map) crypto map.entries .empty).map fun vars =>
        ofFamilies map (familiesOf map vars) := by
  rw [fromRaw, foldlM_absorb, addFamily_empty, addFamily_empty, addFamily_empty]
  cases readVars codecs (isTyped map) crypto map.entries .empty <;> rfl

def isVarKey (key : String) : Bool :=
  (stripPrefix Key.varFamily key).isSome || (stripPrefix Key.encFamily key).isSome

theorem readVar_of_not_isVarKey {entry : String × String} (h : isVarKey entry.1 = false) :
    readVar codecs typed crypto entry = .ok none := by
  rw [isVarKey, Bool.or_eq_false_iff, isSome_eq_false_iff, isSome_eq_false_iff,
    isNone_iff_eq_none, isNone_iff_eq_none] at h
  rw [readVar, h.1, h.2]

theorem readVars_filter (entries : List (String × String)) (acc : SortedMap String SnapshotValue) :
    readVars codecs typed crypto entries acc =
      readVars codecs typed crypto (entries.filter fun e => isVarKey e.1) acc := by
  induction entries generalizing acc with
  | nil => rfl
  | cons e rest ih =>
    rw [filter_cons]
    cases hkey : isVarKey e.1 with
    | false =>
      rw [readVars, foldlM_cons, readVar_of_not_isVarKey codecs typed crypto hkey]
      exact ih acc
    | true =>
      rw [if_pos rfl, readVars, readVars, foldlM_cons, foldlM_cons]
      cases readVar codecs typed crypto e with
      | error msg => rfl
      | ok var => exact ih _

theorem readVars_congr {map map' : SortedMap String String}
    (h : ∀ key, isVarKey key → map'.get key = map.get key) (acc : SortedMap String SnapshotValue) :
    readVars codecs typed crypto map'.entries acc =
      readVars codecs typed crypto map.entries acc := by
  rw [readVars_filter, filter_entries_congr h, ← readVars_filter]

end Families

end Sutra.Snapshot
