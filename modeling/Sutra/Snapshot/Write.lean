import Mathlib
import Sutra.Snapshot.Codec
import Sutra.Snapshot.Texts

/-!
# Writing a snapshot, and reading it back

The writer lists one entry per scalar field that is set and one per entry of each family. A variable
named in the encrypt set goes under the encrypted family when there is a cipher; its plaintext is
the rendered value, so the tag rides inside the ciphertext.

* `readEncrypted_writeEncrypted`: what is written is read back.
-/

namespace Sutra.Snapshot

open Text List Option SortedMap

/-! ## Writing -/

def emit (entries : List (Bool × String × String)) : List (String × String) :=
  entries.filterMap fun e => if e.1 then some e.2 else none

def selected (secret : Bool) (entries : List (Bool × String × String)) : List (String × String) :=
  (entries.filter fun e => e.1 == secret).map Prod.snd

section Write

variable (codecs : TextCodecs)

def render (typed : Bool) (v : SnapshotValue) : String :=
  if typed then v.encode codecs else v.toCanonicalString codecs

def writeVar (crypto : Option SnapshotCrypto) (encryptNames : List String)
    (name rendered : String) :
    Except String (Bool × String × String) :=
  match crypto with
  | some c =>
    if name ∈ encryptNames then do
      let ciphertext ← c.cipher.encrypt (textBytes rendered) (c.aad name)
      .ok (true, Key.encFamily ++ name, codecs.encodeBase64 ciphertext)
    else .ok (false, Key.varFamily ++ name, rendered)
  | none => .ok (false, Key.varFamily ++ name, rendered)

def writeVars (crypto : Option SnapshotCrypto) (encryptNames : List String) :
    List (String × String) → Except String (List (Bool × String × String))
  | [] => .ok []
  | (name, rendered) :: rest => do
    let entry ← writeVar codecs crypto encryptNames name rendered
    let entries ← writeVars crypto encryptNames rest
    .ok (entry :: entries)

namespace InstanceSnapshot

variable (s : InstanceSnapshot)

def typed : Bool := s.vars.entries.any fun e => e.2.needsTypedEncoding

/-- The lowest generation that can carry the snapshot. -/
def version (encrypted : Bool) : Nat :=
  if s.typed then formatVersionTyped
  else if encrypted then formatVersionEncrypted
  else formatVersion

def scalars (encrypted : Bool) (keyId : Option String) : List (Bool × String × String) :=
  [(true, Key.snapshotVersion, toString (s.version encrypted)),
    (true, Key.deploymentId, s.deploymentId),
    (true, Key.processId, s.processId),
    (true, Key.status, s.status),
    (true, Key.completed, joinList s.completedNodes),
    (encrypted && keyId.isSome, Key.keyId, keyId.getD ""),
    (!s.waitingNodes.isEmpty, Key.waiting, joinList s.waitingNodes),
    (s.startNode ≠ "", Key.startNode, s.startNode),
    (0 < s.auditSeq, Key.auditSeq, toString s.auditSeq.toNat),
    (!s.sensitive.isEmpty, Key.sensitive, joinList s.sensitive),
    (s.failureCode ≠ "", Key.failureCode, s.failureCode),
    (s.failureDetail ≠ "", Key.failureDetail, s.failureDetail)]

def coverageEntries : List (String × String) :=
  (s.coverage.entries.filter fun e => 0 < e.2).map fun e =>
    (Key.coverageFamily ++ e.1, toString e.2.toNat)

def retryEntries : List (String × String) :=
  (s.retryAttempts.entries.filter fun e => 0 < e.2).map fun e =>
    (Key.retryFamily ++ e.1, toString e.2.toNat)

def retryWaitEntries : List (String × String) :=
  (s.retryBackoff.entries.filter fun e => trim e.2 ≠ "").map fun e =>
    (Key.retryWaitFamily ++ e.1, e.2)

/-- The variables with their texts. -/
def rendered : List (String × String) :=
  s.vars.entries.map fun e => (e.1, render codecs s.typed e.2)

def writeEntries (crypto : Option SnapshotCrypto) (encryptNames : List String) :
    Except String (List (String × String)) := do
  let vars ← writeVars codecs crypto encryptNames (s.rendered codecs)
  let varPairs := selected false vars
  let encPairs := selected true vars
  .ok (emit (s.scalars (!encPairs.isEmpty) (crypto.map (·.keyId))) ++ s.coverageEntries ++
    s.retryEntries ++ s.retryWaitEntries ++ varPairs ++ encPairs)

/-- Encode the snapshot. The result is the container, which has none when a length does not fit
it. -/
def writeEncrypted (crypto : Option SnapshotCrypto) (encryptNames : List String) :
    Except String (Option (List UInt8)) := do
  let entries ← s.writeEntries codecs crypto encryptNames
  .ok (encode entries)

end InstanceSnapshot

def readEncrypted (bytes : List UInt8) (crypto : Option SnapshotCrypto) :
    Except String InstanceSnapshot := do
  let map ← rawMap bytes
  fromRaw codecs map crypto

end Write

/-! ## Scalar keys of the written map -/

variable {entries : List (Bool × String × String)} {value family : String} {v : SnapshotValue}

theorem mem_emit {key : String} : (key, value) ∈ emit entries ↔ (true, key, value) ∈ entries := by
  rw [emit, mem_filterMap]
  constructor
  · rintro ⟨⟨c, e⟩, he, heq⟩
    cases c with
    | false => cases heq
    | true =>
      cases heq
      exact he
  · intro h
    exact ⟨_, h, rfl⟩

theorem get_emit (hnodup : (entries.map fun e => e.2.1).Nodup) {c : Bool} {key : String}
    (h : (c, key, value) ∈ entries) :
    (ofList (emit entries)).get key = if c then some value else none := by
  have hunique : ∀ {c' value'}, (c', key, value') ∈ entries → (c', value') = (c, value) := by
    intro c' value' h'
    have heq := inj_on_of_nodup_map hnodup h' h rfl
    cases heq
    rfl
  refine get_ofList_eq fun value' => mem_emit.trans ⟨fun h' => ?_, fun h' => ?_⟩
  · cases hunique h'
    rfl
  · cases c <;> cases h'
    exact h

/-! ## Families of the written map -/

def InFamily (family : String) (entries : List (String × String)) : Prop :=
  ∀ e ∈ entries, ∃ n, e.1 = family ++ n

def Incomparable (p q : String) : Prop := startsWith p q = false ∧ startsWith q p = false

theorem get_ofList_outside {key : String} {entries : List (String × String)}
    (h : InFamily family entries) (hkey : ∀ n, family ++ n ≠ key) :
    (ofList entries).get key = none := by
  refine get_ofList_eq_none fun e he heq => ?_
  obtain ⟨n, hn⟩ := h e he
  exact hkey n (hn.symm.trans heq)

/-- The entries of several families, one after the other. -/
def joined (parts : List (String × List (String × String))) : List (String × String) :=
  parts.flatMap Prod.snd

theorem get_joined_outside {parts : List (String × List (String × String))} {key : String}
    (hin : ∀ p ∈ parts, InFamily p.1 p.2) (hkey : ∀ p ∈ parts, ∀ n, p.1 ++ n ≠ key) :
    (ofList (joined parts)).get key = none := by
  refine get_ofList_eq_none fun e he heq => ?_
  obtain ⟨p, hp, hep⟩ := mem_flatMap.mp he
  obtain ⟨n, hn⟩ := hin p hp e hep
  exact hkey p hp n (hn.symm.trans heq)

theorem get_joined {parts : List (String × List (String × String))}
    (hin : ∀ p ∈ parts, InFamily p.1 p.2) (hdisj : parts.Pairwise fun p q => Incomparable p.1 q.1)
    {entries : List (String × String)} (h : (family, entries) ∈ parts) (n : String) :
    (ofList (joined parts)).get (family ++ n) = (ofList entries).get (family ++ n) := by
  induction parts with
  | nil => cases h
  | cons p rest ih =>
    rw [pairwise_cons] at hdisj
    have hcons : joined (p :: rest) = p.2 ++ joined rest := flatMap_cons
    have hin' : ∀ q ∈ rest, InFamily q.1 q.2 := fun q hq => hin q (.tail _ hq)
    rw [hcons, get_ofList_append]
    rcases mem_cons.mp h with rfl | h
    · rw [get_joined_outside hin' fun q hq m =>
        append_ne_append (hdisj.1 q hq).2 (hdisj.1 q hq).1 m n, none_or]
    · have hp := hdisj.1 _ h
      rw [ih hin' hdisj.2 h, get_ofList_outside (hin p mem_cons_self)
        fun m => append_ne_append hp.1 hp.2 m n, or_none]

theorem get_prefixed {V : Type} {map : SortedMap String V} {keep : String × V → Bool}
    (hkeep : ∀ e ∈ map.entries, keep e) (family : String) (text : V → String) (n : String) :
    (ofList ((map.entries.filter keep).map fun e => (family ++ e.1, text e.2))).get
      (family ++ n) = (map.get n).map text := by
  rw [filter_eq_self.mpr hkeep]
  exact get_ofList_eq fun t => mem_map_entries append_left_cancel

theorem inFamily_prefixed {V : Type} (family : String) (text : V → String)
    (entries : List (String × V)) :
    InFamily family (entries.map fun e => (family ++ e.1, text e.2)) := by
  intro e he
  obtain ⟨e', -, rfl⟩ := mem_map.mp he
  exact ⟨e'.1, rfl⟩

/-! ## Variables -/

section Vars

variable (codecs : TextCodecs) (crypto : Option SnapshotCrypto) (encryptNames : List String)

def Writes (var : String × String) (entry : Bool × String × String) : Prop :=
  (entry.1 = false ∧ entry.2 = (Key.varFamily ++ var.1, var.2)) ∨
    (entry.1 = true ∧ entry.2.1 = Key.encFamily ++ var.1 ∧
      decryptText codecs crypto var.1 entry.2.2 = .ok var.2)

def PayloadCipher.Lawful (cipher : PayloadCipher) : Prop :=
  ∀ payload aad, ∃ ciphertext, cipher.encrypt payload aad = .ok ciphertext ∧
    cipher.decrypt ciphertext aad = .ok payload

variable {codecs crypto}

section Lawful

variable (hbase64 : ∀ b, codecs.decodeBase64 (codecs.encodeBase64 b) = .ok b)
include hbase64

theorem decryptText_encrypted {c : SnapshotCrypto} {name text : String} {ciphertext : List UInt8}
    (h : c.cipher.decrypt ciphertext (c.aad name) = .ok (textBytes text)) :
    decryptText codecs (some c) name (codecs.encodeBase64 ciphertext) = .ok text := by
  simp only [decryptText, hbase64, h, textOfBytes_textBytes]

variable (hcipher : ∀ c, crypto = some c → c.cipher.Lawful)
include hcipher

theorem writeVar_ok (name text : String) :
    ∃ entry, writeVar codecs crypto encryptNames name text = .ok entry ∧
      Writes codecs crypto (name, text) entry := by
  cases crypto with
  | none => exact ⟨_, rfl, .inl ⟨rfl, rfl⟩⟩
  | some c =>
    by_cases hname : name ∈ encryptNames
    · obtain ⟨ciphertext, henc, hdec⟩ := hcipher c rfl (textBytes text) (c.aad name)
      refine ⟨(true, Key.encFamily ++ name, codecs.encodeBase64 ciphertext), ?_,
        .inr ⟨rfl, rfl, decryptText_encrypted hbase64 hdec⟩⟩
      rw [writeVar, if_pos hname, henc]
      rfl
    · refine ⟨(false, Key.varFamily ++ name, text), ?_, .inl ⟨rfl, rfl⟩⟩
      rw [writeVar, if_neg hname]

theorem writeVars_ok (vars : List (String × String)) :
    ∃ entries, writeVars codecs crypto encryptNames vars = .ok entries ∧
      List.Forall₂ (Writes codecs crypto) vars entries := by
  induction vars with
  | nil => exact ⟨[], rfl, .nil⟩
  | cons var rest ih =>
    obtain ⟨name, text⟩ := var
    obtain ⟨entry, hentry, hwrites⟩ := writeVar_ok encryptNames hbase64 hcipher name text
    obtain ⟨entries, hentries, hrest⟩ := ih
    refine ⟨entry :: entries, ?_, .cons hwrites hrest⟩
    rw [writeVars, hentry, hentries]
    rfl

end Lawful

theorem readVar_of_writes {typed : Bool} {var : String × String} {entry : Bool × String × String}
    (h : Writes codecs crypto var entry) : readVar codecs typed crypto entry.2 =
      .ok (some (var.1, decodeValue codecs typed var.2)) := by
  rcases h with ⟨-, heq⟩ | ⟨-, hkey, hdec⟩
  · rw [heq, readVar, stripPrefix_append]
  · have hvar : stripPrefix Key.varFamily entry.2.1 = none := by
      rw [hkey]
      exact stripPrefix_eq_none fun m => append_ne_append (by decide) (by decide) _ m
    rw [readVar, hvar, hkey, stripPrefix_append]
    change (decryptText codecs crypto var.1 entry.2.2 >>= _) = _
    rw [hdec]
    rfl

variable {entries : List (String × String)}

theorem readVars_eq_ok {typed : Bool}
    (h : ∀ e ∈ entries, ∃ var, readVar codecs typed crypto e = .ok var)
    (acc : SortedMap String SnapshotValue) : readVars codecs typed crypto entries acc = .ok
      ((entries.filterMap fun e => ((readVar codecs typed crypto e).toOption).join).foldl
        (fun map e => map.insert e.1 e.2) acc) := by
  induction entries generalizing acc with
  | nil => rfl
  | cons e rest ih =>
    obtain ⟨var, hvar⟩ := h e (.head _)
    have hrest := fun e' he' => h e' (.tail _ he')
    rw [readVars, foldlM_cons, hvar, filterMap_cons, hvar]
    cases var with
    | none => exact ih hrest acc
    | some var => exact ih hrest _

theorem get_of_readVars {typed : Bool} {values : String → Option SnapshotValue}
    (hread : ∀ e ∈ entries, readVar codecs typed crypto e = .ok none ∨
      ∃ n v, readVar codecs typed crypto e = .ok (some (n, v)) ∧ values n = some v)
    (hall : ∀ n v, values n = some v →
      ∃ e ∈ entries, readVar codecs typed crypto e = .ok (some (n, v))) :
    ∃ vars, readVars codecs typed crypto entries .empty = .ok vars ∧
      ∀ n, vars.get n = values n := by
  refine ⟨_, readVars_eq_ok (fun e he => ?_) .empty, fun n => ?_⟩
  · rcases hread e he with h | ⟨n, v, h, -⟩
    · exact ⟨_, h⟩
    · exact ⟨_, h⟩
  · refine get_ofList_eq fun v => ?_
    rw [mem_filterMap]
    constructor
    · rintro ⟨e, he, hjoin⟩
      rcases hread e he with h | ⟨n', v', h, hv⟩ <;> rw [h] at hjoin
      · cases hjoin
      · cases hjoin
        exact hv
    · intro hv
      obtain ⟨e, he, h⟩ := hall n v hv
      exact ⟨e, he, by rw [h]; rfl⟩

end Vars

/-! ## The written map -/

def scalarKeys : List String :=
  [Key.snapshotVersion, Key.deploymentId, Key.processId, Key.status, Key.completed, Key.keyId,
    Key.waiting, Key.startNode, Key.auditSeq, Key.sensitive, Key.failureCode, Key.failureDetail]

def families : List String :=
  [Key.coverageFamily, Key.retryFamily, Key.retryWaitFamily, Key.varFamily, Key.encFamily]

theorem scalarKeys_outside : ∀ key ∈ scalarKeys, ∀ family ∈ families,
    stripPrefix family key = none := by
  decide

structure InstanceSnapshot.WellFormed (s : InstanceSnapshot) : Prop where
  completed : ∀ id ∈ s.completedNodes, IsName id
  waiting : ∀ id ∈ s.waitingNodes, IsName id
  sensitive : ∀ name ∈ s.sensitive, IsName name
  coverage : ∀ path count, s.coverage.get path = some count → 0 < count
  retry : ∀ node attempts, s.retryAttempts.get node = some attempts → 0 < attempts
  backoff : ∀ node code, s.retryBackoff.get node = some code → code ≠ "" ∧ trim code = code
  vars : ∀ name v, s.vars.get name = some v → v.Sorted

/-- The entries of the variables are of their families. -/
def VarPairs (varPairs encPairs : List (String × String)) : Prop :=
  InFamily Key.varFamily varPairs ∧ InFamily Key.encFamily encPairs

namespace InstanceSnapshot

variable (s : InstanceSnapshot) (encrypted : Bool) (keyId : Option String)
  (varPairs encPairs : List (String × String))

def parts : List (String × List (String × String)) :=
  [(Key.coverageFamily, s.coverageEntries), (Key.retryFamily, s.retryEntries),
    (Key.retryWaitFamily, s.retryWaitEntries), (Key.varFamily, varPairs),
    (Key.encFamily, encPairs)]

def rawOf : SortedMap String String :=
  .ofList (emit (s.scalars encrypted keyId) ++ joined (s.parts varPairs encPairs))

variable {s encrypted keyId varPairs encPairs}

theorem scalars_nodup : ((s.scalars encrypted keyId).map fun e => e.2.1).Nodup := by
  change scalarKeys.Nodup
  decide

theorem parts_disjoint : (s.parts varPairs encPairs).Pairwise fun p q => Incomparable p.1 q.1 := by
  have hfamilies : ((s.parts varPairs encPairs).map Prod.fst).Pairwise
      fun p q => startsWith p q = false ∧ startsWith q p = false := by
    change families.Pairwise _
    decide
  exact pairwise_map.mp hfamilies

variable {family : String} {names : List String}

theorem readCount_toString {width n : Nat} (h : n < 2 ^ width) (hpos : 0 < n) :
    readCount width (toString n) = some n := by
  rw [readCount, parseUnsigned_toString h, getD_some]
  exact if_pos hpos

theorem splitList_joinList_of_names (h : ∀ n ∈ names, IsName n) :
    splitList (((if !names.isEmpty then some (joinList names) else none) : Option String).getD "") =
      names := by
  cases names with
  | nil => exact splitList_empty
  | cons n rest => exact splitList_joinList h

theorem getD_ite_ne_empty (text : String) :
    ((if decide (text ≠ "") then some text else none) : Option String).getD "" = text := by
  by_cases h : text = ""
  · rw [h]
    rfl
  · rw [if_pos (decide_eq_true h)]
    rfl

theorem sortDedup_of_sorted (h : names.Pairwise (· < ·)) : sortDedup names = names := by
  have hkeys : (names.map fun n => (n, ())).map Prod.fst = names := by
    rw [List.map_map]
    exact List.map_id names
  have hmap := ofList_entries ⟨names.map fun n => (n, ()), hkeys.symm ▸ h⟩
  rw [sortDedup, hmap, hkeys]

theorem auditSeq_read (seq : UInt32) :
    UInt32.ofNat ((parseUnsigned 32 (trim (((if decide (0 < seq) then some (toString seq.toNat)
      else none) : Option String).getD ""))).getD 0) = seq := by
  by_cases h : 0 < seq
  · rw [decide_eq_true h, if_pos rfl, getD_some, parseUnsigned_toString seq.toNat_lt, getD_some]
    exact UInt32.ofNat_toNat
  · have hzero : seq = 0 := by
      have := UInt32.lt_iff_toNat_lt.not.mp h
      exact UInt32.toNat_inj.mp (by simpa using this)
    rw [hzero]
    decide

structure Holds (s : InstanceSnapshot) (raw : SortedMap String String) : Prop where
  processId : raw.get Key.processId = some s.processId
  deploymentId : raw.get Key.deploymentId = some s.deploymentId
  status : raw.get Key.status = some s.status
  completed : raw.get Key.completed = some (joinList s.completedNodes)
  waiting : raw.get Key.waiting =
    if !s.waitingNodes.isEmpty then some (joinList s.waitingNodes) else none
  startNode : raw.get Key.startNode = if decide (s.startNode ≠ "") then some s.startNode else none
  auditSeq : raw.get Key.auditSeq =
    if decide (0 < s.auditSeq) then some (toString s.auditSeq.toNat) else none
  sensitive : raw.get Key.sensitive =
    if !s.sensitive.isEmpty then some (joinList s.sensitive) else none
  failureCode : raw.get Key.failureCode =
    if decide (s.failureCode ≠ "") then some s.failureCode else none
  failureDetail : raw.get Key.failureDetail =
    if decide (s.failureDetail ≠ "") then some s.failureDetail else none
  coverage : readFamily Key.coverageFamily (fun v => (readCount 64 v).map .ofNat) raw = s.coverage
  retryAttempts : readFamily Key.retryFamily (fun v => (readCount 32 v).map .ofNat) raw =
    s.retryAttempts
  retryBackoff : readFamily Key.retryWaitFamily readMarker raw = s.retryBackoff

section Read

variable (hin : VarPairs varPairs encPairs)
include hin

theorem parts_inFamily : ∀ p ∈ s.parts varPairs encPairs, InFamily p.1 p.2 := by
  intro p hp
  simp only [parts, mem_cons, not_mem_nil, or_false] at hp
  rcases hp with rfl | rfl | rfl | rfl | rfl
  · exact inFamily_prefixed Key.coverageFamily (fun n : UInt64 => toString n.toNat) _
  · exact inFamily_prefixed Key.retryFamily (fun n : UInt32 => toString n.toNat) _
  · exact inFamily_prefixed Key.retryWaitFamily (fun code => code) _
  · exact hin.1
  · exact hin.2

theorem rawOf_scalar {c : Bool} {key value : String}
    (h : (c, key, value) ∈ s.scalars encrypted keyId) :
    (s.rawOf encrypted keyId varPairs encPairs).get key = if c then some value else none := by
  have hkey : key ∈ scalarKeys := List.mem_map_of_mem (f := fun e => e.2.1) h
  have houtside : ∀ p ∈ s.parts varPairs encPairs, ∀ n, p.1 ++ n ≠ key := by
    intro p hp n heq
    have hfamily : p.1 ∈ families := List.mem_map_of_mem (f := Prod.fst) hp
    have hnone := scalarKeys_outside key hkey p.1 hfamily
    rw [← heq, stripPrefix_append] at hnone
    cases hnone
  rw [rawOf, get_ofList_append, get_joined_outside (parts_inFamily hin) houtside,
    none_or, get_emit scalars_nodup h]

theorem rawOf_family {entries : List (String × String)}
    (h : (family, entries) ∈ s.parts varPairs encPairs) (n : String) :
    (s.rawOf encrypted keyId varPairs encPairs).get (family ++ n) =
      (ofList entries).get (family ++ n) := by
  have hfamily : family ∈ families := List.mem_map_of_mem (f := Prod.fst) h
  have hscalar : (ofList (emit (s.scalars encrypted keyId))).get (family ++ n) = none := by
    refine get_ofList_eq_none ?_
    rintro ⟨key, value⟩ he rfl
    have hkey : family ++ n ∈ scalarKeys :=
      List.mem_map_of_mem (f := fun e => e.2.1) (mem_emit.mp he)
    have hnone := scalarKeys_outside _ hkey family hfamily
    rw [stripPrefix_append] at hnone
    cases hnone
  rw [rawOf, get_ofList_append, hscalar, or_none, get_joined (parts_inFamily hin) parts_disjoint h]

theorem readFamily_rawOf {V : Type} {map : SortedMap String V} {t : V → String}
    {keep : String × V → Bool} {read : String → Option V}
    (hpart : (family, (map.entries.filter keep).map fun e => (family ++ e.1, t e.2)) ∈
      s.parts varPairs encPairs)
    (hread : ∀ n v, map.get n = some v → keep (n, v) ∧ read (t v) = some v) :
    readFamily family read (s.rawOf encrypted keyId varPairs encPairs) = map := by
  have hkeep : ∀ e ∈ map.entries, keep e := fun e he => (hread e.1 e.2 (mem_entries.mp he)).1
  refine ext_get fun n => ?_
  rw [get_readFamily, rawOf_family hin hpart, get_prefixed hkeep]
  cases hget : map.get n with
  | none => rfl
  | some v => exact (hread n v hget).2

theorem isTyped_rawOf : isTyped (s.rawOf encrypted keyId varPairs encPairs) = s.typed := by
  have hget : (s.rawOf encrypted keyId varPairs encPairs).get Key.snapshotVersion =
      some (toString (s.version encrypted)) := rawOf_scalar hin (.head _)
  rw [isTyped, hget, version]
  have hread : ∀ n, n < 2 ^ 32 → (parseUnsigned 32 (trim (toString n))).getD formatVersion = n := by
    intro n hn
    rw [parseUnsigned_toString hn]
    rfl
  cases s.typed with
  | true => exact decide_eq_true ((hread formatVersionTyped (by decide)).symm ▸ Nat.le_refl _)
  | false =>
    cases encrypted with
    | true =>
      refine decide_eq_false ?_
      rw [if_neg nofun, if_pos rfl, hread _ (by decide)]
      decide
    | false =>
      refine decide_eq_false ?_
      rw [if_neg nofun, if_neg nofun, hread _ (by decide)]
      decide

variable (s encrypted keyId) in
theorem rawOf_scalar_at (i : Fin 12) :
    (s.rawOf encrypted keyId varPairs encPairs).get ((s.scalars encrypted keyId).get i).2.1 =
      if ((s.scalars encrypted keyId).get i).1 then some ((s.scalars encrypted keyId).get i).2.2
      else none :=
  rawOf_scalar hin (List.get_mem (s.scalars encrypted keyId) i)

variable (h : s.WellFormed)
include h

theorem coverage_rawOf :
    readFamily Key.coverageFamily (fun v => (readCount 64 v).map .ofNat)
      (s.rawOf encrypted keyId varPairs encPairs) = s.coverage := by
  refine readFamily_rawOf hin (t := fun v => toString v.toNat) (.head _) fun n v hv =>
    ⟨decide_eq_true (h.coverage n v hv), ?_⟩
  rw [readCount_toString v.toNat_lt (UInt64.lt_iff_toNat_lt.mp (h.coverage n v hv))]
  exact congrArg some UInt64.ofNat_toNat

theorem retryAttempts_rawOf :
    readFamily Key.retryFamily (fun v => (readCount 32 v).map .ofNat)
      (s.rawOf encrypted keyId varPairs encPairs) = s.retryAttempts := by
  refine readFamily_rawOf hin (t := fun v => toString v.toNat)
    (.tail _ (.head _)) fun n v hv => ⟨decide_eq_true (h.retry n v hv), ?_⟩
  rw [readCount_toString v.toNat_lt (UInt32.lt_iff_toNat_lt.mp (h.retry n v hv))]
  exact congrArg some UInt32.ofNat_toNat

theorem retryBackoff_rawOf :
    readFamily Key.retryWaitFamily readMarker (s.rawOf encrypted keyId varPairs encPairs) =
      s.retryBackoff := by
  refine readFamily_rawOf hin (t := fun code => code) (.tail _ (.tail _ (.head _))) fun n v hv => ?_
  obtain ⟨hne, htrim⟩ := h.backoff n v hv
  rw [readMarker, htrim, if_pos hne]
  exact ⟨decide_eq_true hne, rfl⟩

theorem holds_rawOf : s.Holds (s.rawOf encrypted keyId varPairs encPairs) where
  processId := rawOf_scalar_at s encrypted keyId hin 2
  deploymentId := rawOf_scalar_at s encrypted keyId hin 1
  status := rawOf_scalar_at s encrypted keyId hin 3
  completed := rawOf_scalar_at s encrypted keyId hin 4
  waiting := rawOf_scalar_at s encrypted keyId hin 6
  startNode := rawOf_scalar_at s encrypted keyId hin 7
  auditSeq := rawOf_scalar_at s encrypted keyId hin 8
  sensitive := rawOf_scalar_at s encrypted keyId hin 9
  failureCode := rawOf_scalar_at s encrypted keyId hin 10
  failureDetail := rawOf_scalar_at s encrypted keyId hin 11
  coverage := coverage_rawOf hin h
  retryAttempts := retryAttempts_rawOf hin h
  retryBackoff := retryBackoff_rawOf hin h

end Read

/-- Everything but the variables is read back. -/
theorem Holds.ofFamilies_eq {raw : SortedMap String String} (hraw : s.Holds raw)
    (h : s.WellFormed) (vars : SortedMap String SnapshotValue) :
    ofFamilies raw (familiesOf raw vars) = { s with vars := vars } := by
  rw [ofFamilies, familiesOf]
  ext1
  · exact congrArg (Option.getD · "") hraw.processId
  · exact congrArg (Option.getD · "") hraw.deploymentId
  · exact congrArg (Option.getD · statusRunning) hraw.status
  · change splitList ((raw.get Key.completed).getD "") = s.completedNodes
    rw [hraw.completed]
    exact splitList_joinList h.completed
  · rfl
  · change splitList ((raw.get Key.waiting).getD "") = s.waitingNodes
    rw [hraw.waiting]
    exact splitList_joinList_of_names h.waiting
  · change (raw.get Key.startNode).getD "" = s.startNode
    rw [hraw.startNode]
    exact getD_ite_ne_empty s.startNode
  · change UInt32.ofNat ((parseUnsigned 32
      (trim ((raw.get Key.auditSeq).getD ""))).getD 0) = s.auditSeq
    rw [hraw.auditSeq]
    exact auditSeq_read s.auditSeq
  · change sortDedup (splitList ((raw.get Key.sensitive).getD "")) = s.sensitive
    rw [hraw.sensitive]
    exact (congrArg sortDedup (splitList_joinList_of_names h.sensitive)).trans
      (sortDedup_of_sorted s.sensitive_sorted)
  · exact hraw.coverage
  · exact hraw.retryAttempts
  · exact hraw.retryBackoff
  · change (raw.get Key.failureCode).getD "" = s.failureCode
    rw [hraw.failureCode]
    exact getD_ite_ne_empty s.failureCode
  · change (raw.get Key.failureDetail).getD "" = s.failureDetail
    rw [hraw.failureDetail]
    exact getD_ite_ne_empty s.failureDetail

end InstanceSnapshot

/-! ## The variables of the written map -/

theorem forall₂_mem_right {α β : Type} {r : α → β → Prop} {xs : List α} {ys : List β}
    (h : List.Forall₂ r xs ys) {y : β} (hy : y ∈ ys) : ∃ x ∈ xs, r x y := by
  induction h with
  | nil => cases hy
  | cons hr _ ih =>
    rcases mem_cons.mp hy with rfl | hy
    · exact ⟨_, .head _, hr⟩
    · obtain ⟨x, hx, hxy⟩ := ih hy
      exact ⟨x, .tail _ hx, hxy⟩

section Variables

variable {codecs : TextCodecs} {crypto : Option SnapshotCrypto} {typed : Bool}

/-- The counters' families and those of variables have no key in common. -/
theorem incomparable_vars : ∀ family ∈ [Key.coverageFamily, Key.retryFamily, Key.retryWaitFamily],
    ∀ vars ∈ [Key.varFamily, Key.encFamily],
      startsWith family vars = false ∧ startsWith vars family = false := by decide

variable {e : String × String} {vars : List (String × String)}

theorem InFamily.isVarKey {family : String} {entries : List (String × String)}
    (h : InFamily family entries)
    (hfamily : family ∈ [Key.coverageFamily, Key.retryFamily, Key.retryWaitFamily])
    (he : e ∈ entries) : isVarKey e.1 = false := by
  obtain ⟨n, hn⟩ := h e he
  have hvar := incomparable_vars family hfamily Key.varFamily (by simp)
  have henc := incomparable_vars family hfamily Key.encFamily (by simp)
  rw [Snapshot.isVarKey, hn, stripPrefix_eq_none fun m => append_ne_append hvar.1 hvar.2 n m,
    stripPrefix_eq_none fun m => append_ne_append henc.1 henc.2 n m]
  rfl

theorem isVarKey_scalar {key : String} (h : key ∈ scalarKeys) : isVarKey key = false := by
  rw [isVarKey, scalarKeys_outside key h Key.varFamily (by decide),
    scalarKeys_outside key h Key.encFamily (by decide)]
  rfl

theorem readVar_name {n value : String} {key : String}
    (hkey : key = Key.varFamily ++ n ∨ key = Key.encFamily ++ n)
    {var : Option (String × SnapshotValue)}
    (h : readVar codecs typed crypto (key, value) = .ok var) : ∃ v, var = some (n, v) := by
  rcases hkey with rfl | rfl
  · rw [readVar, stripPrefix_append] at h
    cases h
    exact ⟨_, rfl⟩
  · have hvar : stripPrefix Key.varFamily (Key.encFamily ++ n) = none :=
      stripPrefix_eq_none fun m => append_ne_append (by decide) (by decide) n m
    rw [readVar, hvar, stripPrefix_append] at h
    obtain ⟨text, -, h⟩ := Except.bind_eq_ok h
    cases h
    exact ⟨_, rfl⟩

theorem Writes.key {var : String × String} {entry : Bool × String × String}
    (h : Writes codecs crypto var entry) : (entry.1 = false ∧ entry.2.1 = Key.varFamily ++ var.1) ∨
      (entry.1 ∧ entry.2.1 = Key.encFamily ++ var.1) := by
  rcases h with ⟨hplain, heq⟩ | ⟨hsecret, hkey, -⟩
  · exact .inl ⟨hplain, by rw [heq]⟩
  · exact .inr ⟨hsecret, hkey⟩

variable {s : InstanceSnapshot} {encrypted : Bool} {keyId : Option String}
  {entries : List (Bool × String × String)}

theorem mem_selected {secret : Bool} : e ∈ selected secret entries ↔ (secret, e) ∈ entries := by
  rw [selected, List.mem_map]
  constructor
  · rintro ⟨⟨c, e'⟩, he, rfl⟩
    obtain ⟨hmem, hc⟩ := mem_filter.mp he
    cases beq_iff_eq.mp hc
    exact hmem
  · intro h
    exact ⟨(secret, e), mem_filter.mpr ⟨h, beq_self_eq_true secret⟩, rfl⟩

theorem inFamily_selected (h : List.Forall₂ (Writes codecs crypto) vars entries) :
    VarPairs (selected false entries) (selected true entries) := by
  constructor
  · intro e he
    obtain ⟨var, -, hw⟩ := forall₂_mem_right h (mem_selected.mp he)
    rcases hw.key with ⟨-, hkey⟩ | ⟨hsecret, -⟩
    · exact ⟨var.1, hkey⟩
    · cases hsecret
  · intro e he
    obtain ⟨var, -, hw⟩ := forall₂_mem_right h (mem_selected.mp he)
    rcases hw.key with ⟨hplain, -⟩ | ⟨-, hkey⟩
    · cases hplain
    · exact ⟨var.1, hkey⟩

theorem rawOf_entry_cases (h : List.Forall₂ (Writes codecs crypto) vars entries)
    (he : e ∈ (s.rawOf encrypted keyId (selected false entries) (selected true entries)).entries) :
    isVarKey e.1 = false ∨ ∃ secret, ∃ var ∈ vars, Writes codecs crypto var (secret, e) := by
  have hmem := mem_of_get_ofList (mem_entries.mp he)
  rcases mem_append.mp hmem with hmem | hmem
  · exact .inl (isVarKey_scalar (List.mem_map_of_mem (f := fun e => e.2.1) (mem_emit.mp hmem)))
  · obtain ⟨p, hp, hep⟩ := mem_flatMap.mp hmem
    have hin := InstanceSnapshot.parts_inFamily (inFamily_selected h) p hp
    simp only [InstanceSnapshot.parts, mem_cons, not_mem_nil, or_false] at hp
    rcases hp with rfl | rfl | rfl | rfl | rfl
    · exact .inl (hin.isVarKey (by simp) hep)
    · exact .inl (hin.isVarKey (by simp) hep)
    · exact .inl (hin.isVarKey (by simp) hep)
    · obtain ⟨var, hvar, hw⟩ := forall₂_mem_right h (mem_selected.mp hep)
      exact .inr ⟨false, var, hvar, hw⟩
    · obtain ⟨var, hvar, hw⟩ := forall₂_mem_right h (mem_selected.mp hep)
      exact .inr ⟨true, var, hvar, hw⟩

theorem readVars_rawOf (encrypted : Bool) (keyId : Option String)
    (h : List.Forall₂ (Writes codecs crypto) (s.rendered codecs) entries) :
    ∃ vars, readVars codecs s.typed crypto
        (s.rawOf encrypted keyId (selected false entries) (selected true entries)).entries .empty =
        .ok vars ∧
      ∀ n, vars.get n =
        (s.vars.get n).map fun v => decodeValue codecs s.typed (render codecs s.typed v) := by
  have hvalue : ∀ {var}, var ∈ s.rendered codecs →
      ((s.vars.get var.1).map fun v => decodeValue codecs s.typed (render codecs s.typed v)) =
        some (decodeValue codecs s.typed var.2) := by
    intro var hvar
    obtain ⟨⟨n, v⟩, he, rfl⟩ := mem_map.mp hvar
    rw [mem_entries.mp he]
    rfl
  have hread : ∀ e ∈ (s.rawOf encrypted keyId (selected false entries)
      (selected true entries)).entries, readVar codecs s.typed crypto e = .ok none ∨
      ∃ n v, readVar codecs s.typed crypto e = .ok (some (n, v)) ∧
        ((s.vars.get n).map fun v => decodeValue codecs s.typed (render codecs s.typed v)) =
          some v := by
    intro e he
    rcases rawOf_entry_cases h he with hkey | ⟨secret, var, hvar, hw⟩
    · exact .inl (readVar_of_not_isVarKey codecs s.typed crypto hkey)
    · exact .inr ⟨_, _, readVar_of_writes hw, hvalue hvar⟩
  refine get_of_readVars hread fun n v hv => ?_
  obtain ⟨v₀, hv₀, rfl⟩ := map_eq_some_iff.mp hv
  have hrendered : (n, render codecs s.typed v₀) ∈ s.rendered codecs :=
    List.mem_map_of_mem (f := fun e => (e.1, render codecs s.typed e.2)) (mem_entries.mpr hv₀)
  obtain ⟨entry, hentry, hw⟩ := forall₂_mem_right h.flip hrendered
  have hkey : entry.2.1 = Key.varFamily ++ n ∨ entry.2.1 = Key.encFamily ++ n := by
    rcases Writes.key hw with ⟨-, hkey⟩ | ⟨-, hkey⟩
    · exact .inl hkey
    · exact .inr hkey
  have hmem : entry.2 ∈ joined (s.parts (selected false entries) (selected true entries)) := by
    rw [joined, mem_flatMap]
    obtain ⟨secret, e⟩ := entry
    cases secret with
    | false =>
      exact ⟨(Key.varFamily, selected false entries), by simp [InstanceSnapshot.parts],
        mem_selected.mpr hentry⟩
    | true =>
      exact ⟨(Key.encFamily, selected true entries), by simp [InstanceSnapshot.parts],
        mem_selected.mpr hentry⟩
  obtain ⟨value, hget⟩ := exists_get_ofList
    (mem_append_right (emit (s.scalars encrypted keyId)) hmem)
  have he := mem_entries.mpr hget
  refine ⟨_, he, ?_⟩
  rcases hread _ he with hnone | ⟨n', v', hsome, hv'⟩
  · obtain ⟨v, hv⟩ := readVar_name hkey hnone
    cases hv
  · obtain ⟨v, hv⟩ := readVar_name hkey hsome
    cases hv
    rw [hsome, ← some.inj (hv.symm.trans hv')]

end Variables

/-! ## Reading back what was written -/

namespace SnapshotValue

theorem Same.needsTypedEncoding {v w : SnapshotValue} (h : Same v w) :
    v.needsTypedEncoding = w.needsTypedEncoding := by cases h <;> rfl

end SnapshotValue

namespace InstanceSnapshot

variable {codecs : TextCodecs} {s : InstanceSnapshot}

def Same (s' s : InstanceSnapshot) : Prop :=
  s' = { s with vars := s'.vars } ∧
    ∀ n, Option.Rel SnapshotValue.Same (s'.vars.get n) (s.vars.get n)

theorem typed_eq_true_iff : s.typed ↔ ∃ n v, s.vars.get n = some v ∧ v.needsTypedEncoding := by
  rw [typed, List.any_eq_true]
  constructor
  · rintro ⟨⟨n, v⟩, he, hv⟩
    exact ⟨n, v, mem_entries.mp he, hv⟩
  · rintro ⟨n, v, hget, hv⟩
    exact ⟨(n, v), mem_entries.mpr hget, hv⟩

theorem decodeValue_render (h : s.WellFormed)
    (hexact : ∀ n v, s.vars.get n = some v → v.Exact codecs) {n : String} {v : SnapshotValue}
    (hv : s.vars.get n = some v) :
    SnapshotValue.Same (decodeValue codecs s.typed (render codecs s.typed v)) v ∧
      render codecs s.typed (decodeValue codecs s.typed (render codecs s.typed v)) =
        render codecs s.typed v := by
  cases htyped : s.typed with
  | true => exact SnapshotValue.decode_encode (h.vars n v hv) (hexact n v hv)
  | false =>
    have hplain : v.needsTypedEncoding = false := by
      rw [← Bool.not_eq_true]
      intro hneeds
      rw [typed_eq_true_iff.mpr ⟨n, v, hv, hneeds⟩] at htyped
      cases htyped
    cases v with
    | string text => exact ⟨.refl _, rfl⟩
    | _ => cases hplain

theorem rendered_congr {s' : InstanceSnapshot} (htyped : s'.typed = s.typed)
    (hvars : ∀ n, (s'.vars.get n).map (render codecs s.typed) =
      (s.vars.get n).map (render codecs s.typed)) : s'.rendered codecs = s.rendered codecs := by
  have hsorted : ∀ m : SortedMap String SnapshotValue,
      ((m.entries.map fun e => (e.1, render codecs s.typed e.2)).map Prod.fst).Pairwise
        (· < ·) := by
    intro m
    rw [List.map_map]
    exact m.sorted
  have hmem : ∀ (m : SortedMap String SnapshotValue) (n text : String),
      (n, text) ∈ m.entries.map (fun e => (e.1, render codecs s.typed e.2)) ↔
        (m.get n).map (render codecs s.typed) = some text := fun m n text =>
    mem_map_entries id
  rw [rendered, rendered, htyped]
  refine list_ext (hsorted _) (hsorted _) ?_
  rintro ⟨n, text⟩
  rw [hmem, hmem, hvars]

theorem writeEncrypted_congr {vars : SortedMap String SnapshotValue}
    (htyped : ({ s with vars := vars } : InstanceSnapshot).typed = s.typed)
    (hvars : ∀ n, (vars.get n).map (render codecs s.typed) =
      (s.vars.get n).map (render codecs s.typed))
    (crypto : Option SnapshotCrypto) (encryptNames : List String) :
    ({ s with vars := vars } : InstanceSnapshot).writeEncrypted codecs crypto encryptNames =
      s.writeEncrypted codecs crypto encryptNames := by
  have hscalars : ∀ encrypted keyId,
      ({ s with vars := vars } : InstanceSnapshot).scalars encrypted keyId =
        s.scalars encrypted keyId := by
    intro encrypted keyId
    rw [scalars, scalars, version, version, htyped]
  rw [writeEncrypted, writeEncrypted, writeEntries, writeEntries, rendered_congr htyped hvars]
  simp only [hscalars]
  rfl

/-- **What was written is read back, and is written again as it was.**  With a cipher that decrypts
what it encrypts, a well-formed snapshot always has a list of entries; the container exists exactly
when its lengths fit; and reading it gives the same snapshot, which any cipher and any encrypt set
then write as they write the original. -/
theorem readEncrypted_writeEncrypted
    (hbase64 : ∀ b, codecs.decodeBase64 (codecs.encodeBase64 b) = .ok b) (h : s.WellFormed)
    (hexact : ∀ n v, s.vars.get n = some v → v.Exact codecs) {crypto : Option SnapshotCrypto}
    (hcipher : ∀ c, crypto = some c → c.cipher.Lawful) (encryptNames : List String) :
    ∃ entries, s.writeEntries codecs crypto encryptNames = .ok entries ∧
      (¬ Fits (ofList entries) → s.writeEncrypted codecs crypto encryptNames = .ok none) ∧
      (Fits (ofList entries) → ∃ bytes s',
        s.writeEncrypted codecs crypto encryptNames = .ok (some bytes) ∧
        readEncrypted codecs bytes crypto = .ok s' ∧ s'.Same s ∧
        ∀ crypto' encryptNames', s'.writeEncrypted codecs crypto' encryptNames' =
          s.writeEncrypted codecs crypto' encryptNames') := by
  obtain ⟨vars, hwrite, hwrites⟩ := writeVars_ok encryptNames hbase64 hcipher (s.rendered codecs)
  have hin := inFamily_selected hwrites
  have hentries : s.writeEntries codecs crypto encryptNames = .ok
      (emit (s.scalars (!(selected true vars).isEmpty) (crypto.map (·.keyId))) ++
        joined (s.parts (selected false vars) (selected true vars))) := by
    rw [writeEntries, hwrite]
    simp [joined, parts, Bind.bind, Except.bind]
  refine ⟨_, hentries, fun hfits => ?_, fun hfits => ?_⟩
  · rw [writeEncrypted, hentries]
    have hnone := encode_isSome.not.mpr hfits
    rw [not_isSome_iff_eq_none] at hnone
    exact congrArg Except.ok hnone
  · obtain ⟨bytes, hbytes⟩ := isSome_iff_exists.mp (encode_isSome.mpr hfits)
    obtain ⟨vars', hread, hget⟩ :=
      readVars_rawOf (!(selected true vars).isEmpty) (crypto.map (·.keyId)) hwrites
    refine ⟨bytes, { s with vars := vars' }, ?_, ?_, ⟨rfl, fun n => ?_⟩, ?_⟩
    · rw [writeEncrypted, hentries]
      exact congrArg Except.ok hbytes
    · rw [readEncrypted, rawMap_encode hbytes]
      change fromRaw codecs (s.rawOf _ _ (selected false vars) (selected true vars)) crypto = _
      rw [fromRaw_eq, isTyped_rawOf hin, hread]
      exact congrArg Except.ok ((holds_rawOf hin h).ofFamilies_eq h vars')
    · rw [hget]
      cases hv : s.vars.get n with
      | none => exact .none
      | some v => exact .some (decodeValue_render h hexact hv).1
    · refine writeEncrypted_congr ?_ fun n => ?_
      · rw [Bool.eq_iff_iff, typed_eq_true_iff, typed_eq_true_iff]
        simp only [hget]
        constructor
        · rintro ⟨n, v, hv, hneeds⟩
          obtain ⟨v₀, hv₀, rfl⟩ := map_eq_some_iff.mp hv
          rw [(decodeValue_render h hexact hv₀).1.needsTypedEncoding] at hneeds
          exact ⟨n, v₀, hv₀, hneeds⟩
        · rintro ⟨n, v, hv, hneeds⟩
          refine ⟨n, _, by rw [hv]; rfl, ?_⟩
          rw [(decodeValue_render h hexact hv).1.needsTypedEncoding]
          exact hneeds
      · rw [hget, Option.map_map]
        cases hv : s.vars.get n with
        | none => rfl
        | some v => exact congrArg some (decodeValue_render h hexact hv).2

end InstanceSnapshot

/-! ## A snapshot with a number and a secret -/

/-- A cipher that puts the associated data before the plaintext. -/
def bindingCipher : PayloadCipher where
  encrypt payload aad := .ok (aad ++ payload)
  decrypt ciphertext aad := .ok (ciphertext.drop aad.length)

theorem bindingCipher_lawful : bindingCipher.Lawful := fun payload aad =>
  ⟨aad ++ payload, rfl, congrArg Except.ok drop_left⟩

/-- A booking that waits for its payment, with one marker of a retry. -/
def paymentSnapshot (code : String) : InstanceSnapshot where
  processId := "booking"
  deploymentId := "d1"
  status := statusSuspended
  completedNodes := ["start"]
  vars := .ofList [("amount", .number ⟨1250, 2⟩), ("card", .string "4711")]
  waitingNodes := ["pay"]
  startNode := "start"
  auditSeq := 3
  sensitive := ["card"]
  sensitive_sorted := pairwise_singleton _ _
  coverage := .empty
  retryAttempts := .ofList [("pay", 1)]
  retryBackoff := .ofList [("pay", code)]
  failureCode := ""
  failureDetail := ""

theorem paymentSnapshot_vars {code n : String} (h : (paymentSnapshot code).vars.get n = some v) :
    v = .number ⟨1250, 2⟩ ∨ v = .string "4711" := by
  have hmem := mem_of_get_ofList h
  simp only [mem_cons, not_mem_nil, or_false, Prod.mk.injEq] at hmem
  rcases hmem with ⟨-, rfl⟩ | ⟨-, rfl⟩
  · exact .inl rfl
  · exact .inr rfl

/-- A marker with blanks around it is not read back as it was: the reader trims it. -/
theorem padded_code_trimmed :
    ((((paymentSnapshot " TIMEOUT ").writeEncrypted standardCodecs none []).toOption.join.bind
        fun bytes => (readEncrypted standardCodecs bytes none).toOption).map
          fun s => s.retryBackoff.get "pay") = some (some "TIMEOUT") ∧
      (paymentSnapshot " TIMEOUT ").retryBackoff.get "pay" = some " TIMEOUT " := by
  constructor <;> decide +kernel

theorem paymentSnapshot_wellFormed : (paymentSnapshot "TIMEOUT").WellFormed where
  completed id hid := by
    rw [mem_singleton.mp hid]
    exact isName_of_all (by decide) (by decide)
  waiting id hid := by
    rw [mem_singleton.mp hid]
    exact isName_of_all (by decide) (by decide)
  sensitive name hname := by
    rw [mem_singleton.mp hname]
    exact isName_of_all (by decide) (by decide)
  coverage path count h := by cases h
  retry node attempts h := by
    obtain ⟨-, rfl⟩ := Prod.mk.inj (mem_singleton.mp (mem_of_get_ofList h))
    decide
  backoff node code h := by
    obtain ⟨-, rfl⟩ := Prod.mk.inj (mem_singleton.mp (mem_of_get_ofList h))
    exact ⟨by decide, by decide⟩
  vars name v h := by
    rcases paymentSnapshot_vars h with rfl | rfl <;> rw [SnapshotValue.Sorted] <;> trivial

theorem paymentSnapshot_exact {n : String}
    (h : (paymentSnapshot "TIMEOUT").vars.get n = some v) : v.Exact standardCodecs := by
  rcases paymentSnapshot_vars h with rfl | rfl
  · refine ⟨?_, ?_⟩
    · rw [SnapshotValue.ExactNumbers]
      exact ⟨⟨1250, 2⟩, by decide, rfl, rfl⟩
    · rfl
  · refine ⟨?_, ?_⟩
    · rw [SnapshotValue.ExactNumbers]
      trivial
    · rfl

/-- A snapshot with the amount 12.50 and an encrypted card number comes back through its bytes. -/
theorem payment_read_back : ∃ bytes s', (paymentSnapshot "TIMEOUT").writeEncrypted standardCodecs
        (some ⟨bindingCipher, "tenant", "i-1"⟩) ["card"] = .ok (some bytes) ∧
      readEncrypted standardCodecs bytes (some ⟨bindingCipher, "tenant", "i-1"⟩) = .ok s' ∧
      s'.Same (paymentSnapshot "TIMEOUT") := by
  have hlawful : ∀ c, some (⟨bindingCipher, "tenant", "i-1"⟩ : SnapshotCrypto) = some c →
      c.cipher.Lawful := by
    intro c hc
    cases hc
    exact bindingCipher_lawful
  obtain ⟨entries, hentries, -, hread⟩ := InstanceSnapshot.readEncrypted_writeEncrypted
    standardCodecs_base64 paymentSnapshot_wellFormed (fun _ _ h => paymentSnapshot_exact h) hlawful
    ["card"]
  have hfits : Fits (ofList entries) := by
    rw [← encode_isSome]
    have hsome : ((((paymentSnapshot "TIMEOUT").writeEntries standardCodecs
        (some ⟨bindingCipher, "tenant", "i-1"⟩) ["card"]).toOption.bind encode).isSome) := by
      decide
    rw [hentries] at hsome
    exact hsome
  obtain ⟨bytes, s', hwrite, hback, hsame, -⟩ := hread hfits
  exact ⟨bytes, s', hwrite, hback, hsame⟩

end Sutra.Snapshot
