import Sutra.Snapshot.Value

/-!
# What the typed codec reads

`ValidPayload` and `Tagged` are the table of tags that the codec documents. A list or a context
rides a JSON document, and the library has its limits (`DocumentLimits`): it refuses what is nested
too deeply, and takes an object that begins with its own key for a number.

* `decode_eq_string_iff`: a text that is not in the table is taken verbatim, unless it is a payload
  behind the tag of null: that is never looked at.
* `same_decode_encode_iff`: a document beyond the limits has fewer objects when it is read.
-/

namespace Sutra.Snapshot

/-! ## How far the library goes -/

namespace Json

mutual
/-- How deeply arrays and objects are nested. -/
def depth : Json → Nat
  | .null | .bool _ | .number _ | .string _ => 0
  | .array items => depthItems items + 1
  | .object fields => depthFields fields + 1
def depthItems : List Json → Nat
  | [] => 0
  | j :: rest => max (depth j) (depthItems rest)
def depthFields : List (String × Json) → Nat
  | [] => 0
  | (_, j) :: rest => max (depth j) (depthFields rest)
end

/-- The key under which the library hands its own numbers around. -/
def privateNumber : String := "$serde_json::private::Number"

mutual
/-- No object begins with the library's own key. -/
def Plain : Json → Prop
  | .null | .bool _ | .number _ | .string _ => True
  | .array items => PlainItems items
  | .object fields => fields.head?.map Prod.fst ≠ some privateNumber ∧ PlainFields fields
def PlainItems : List Json → Prop
  | [] => True
  | j :: rest => Plain j ∧ PlainItems rest
def PlainFields : List (String × Json) → Prop
  | [] => True
  | (_, j) :: rest => Plain j ∧ PlainFields rest
end

mutual
/-- The number of objects in a document. -/
def objects : Json → Nat
  | .null | .bool _ | .number _ | .string _ => 0
  | .array items => objectsItems items
  | .object fields => objectsFields fields + 1
def objectsItems : List Json → Nat
  | [] => 0
  | j :: rest => objects j + objectsItems rest
def objectsFields : List (String × Json) → Nat
  | [] => 0
  | (_, j) :: rest => objects j + objectsFields rest
end

end Json

/-- What the library does with a document that it printed: within its limits it reads it back. One
that is nested too deeply is refused, and an object that begins with the library's own key is read
as a number, if at all. -/
structure TextCodecs.DocumentLimits (codecs : TextCodecs) (j : Json) : Prop where
  within : j.depth < 128 → j.Plain → codecs.parseJson (codecs.printJson j) = some j
  beyond : ¬(j.depth < 128 ∧ j.Plain) → ∀ j', codecs.parseJson (codecs.printJson j) = some j' →
    j'.objects < j.objects

namespace SnapshotValue

variable {codecs : TextCodecs}

/-- The document of a list or a context is within the limits of the library. -/
def Readable (codecs : TextCodecs) (v : SnapshotValue) : Prop :=
  v.isNested = true → (v.toJson codecs).depth < 128 ∧ (v.toJson codecs).Plain

/-! ## Objects that are lost -/

mutual
/-- The number of contexts and temporal values in a value: its document has an object for each. -/
def records : SnapshotValue → Nat
  | .null | .boolean _ | .number _ | .string _ => 0
  | .date _ | .time _ | .dateTime _ | .duration _ => 1
  | .list items => recordsItems items
  | .context entries => recordsEntries entries + 1
def recordsItems : List SnapshotValue → Nat
  | [] => 0
  | v :: rest => records v + recordsItems rest
def recordsEntries : List (String × SnapshotValue) → Nat
  | [] => 0
  | (_, v) :: rest => records v + recordsEntries rest
end

mutual
theorem objects_toJson : ∀ {v : SnapshotValue}, v.Sorted → (v.toJson codecs).objects = v.records
  | .null, _ | .boolean _, _ | .number _, _ | .string _, _ => rfl
  | .date _, _ | .time _, _ | .dateTime _, _ | .duration _, _ => rfl
  | .list items, h => by
    rw [Sorted] at h
    exact objectsItems_toJsonItems h
  | .context entries, h => by
    rw [Sorted] at h
    rw [toJson, collect_toJsonFields h.1, Json.objects, objectsFields_toJsonFields h.2, records]
theorem objectsItems_toJsonItems : ∀ {items : List SnapshotValue}, SortedItems items →
    Json.objectsItems (toJsonItems codecs items) = recordsItems items
  | [], _ => rfl
  | v :: rest, h => by
    rw [SortedItems] at h
    rw [toJsonItems, Json.objectsItems, objects_toJson h.1, objectsItems_toJsonItems h.2,
      recordsItems]
theorem objectsFields_toJsonFields : ∀ {entries : List (String × SnapshotValue)},
    SortedEntries entries →
      Json.objectsFields (toJsonFields codecs entries) = recordsEntries entries
  | [], _ => rfl
  | (k, v) :: rest, h => by
    rw [SortedEntries] at h
    rw [toJsonFields, Json.objectsFields, objects_toJson h.1, objectsFields_toJsonFields h.2,
      recordsEntries]
end

theorem recordsEntries_insertList (l : List (String × SnapshotValue)) (k : String)
    (v : SnapshotValue) :
    recordsEntries (SortedMap.insertList l k v) ≤ records v + recordsEntries l := by
  induction l with
  | nil => exact le_rfl
  | cons e rest ih =>
    simp only [SortedMap.insertList]
    split_ifs
    all_goals
      simp only [recordsEntries]
      omega

theorem recordsEntries_collect (l : List (String × SnapshotValue)) :
    recordsEntries (collect l) ≤ recordsEntries l := by
  have hfold : ∀ m : SortedMap String SnapshotValue,
      recordsEntries (l.foldl (fun m e => m.insert e.1 e.2) m).entries ≤
        recordsEntries m.entries + recordsEntries l := by
    induction l with
    | nil => exact fun m => le_rfl
    | cons e rest ih =>
      intro m
      have hrest := ih (m.insert e.1 e.2)
      have hinsert := recordsEntries_insertList m.entries e.1 e.2
      rw [List.foldl_cons, recordsEntries]
      change _ ≤ recordsEntries (SortedMap.insertList m.entries e.1 e.2) + _ at hrest
      omega
  exact (hfold .empty).trans (Nat.zero_add _).le

mutual
theorem records_fromJson : ∀ j : Json, (fromJson codecs j).records ≤ j.objects
  | .null | .bool _ | .string _ => le_rfl
  | .number text => by
    rw [fromJson]
    split
    · exact le_rfl
    · exact le_rfl
  | .array items => recordsItems_fromJsonItems items
  | .object fields => by
    rw [fromJson, Json.objects]
    split
    · rename_i v hv
      have hone : v.records = 1 := by
        rw [temporalOf.eq_def] at hv
        split at hv
        · split_ifs at hv <;> cases hv <;> rfl
        · cases hv
      omega
    · rw [records]
      exact Nat.succ_le_succ
        ((recordsEntries_collect _).trans (recordsEntries_fromJsonFields fields))
theorem recordsItems_fromJsonItems : ∀ items : List Json,
    recordsItems (fromJsonItems codecs items) ≤ Json.objectsItems items
  | [] => le_rfl
  | j :: rest => Nat.add_le_add (records_fromJson j) (recordsItems_fromJsonItems rest)
theorem recordsEntries_fromJsonFields : ∀ fields : List (String × Json),
    recordsEntries (fromJsonFields codecs fields) ≤ Json.objectsFields fields
  | [] => le_rfl
  | (_, j) :: rest => Nat.add_le_add (records_fromJson j) (recordsEntries_fromJsonFields rest)
end

mutual
theorem Same.records : ∀ {v u : SnapshotValue}, Same u v → u.records = v.records
  | .null, _, h | .boolean _, _, h | .string _, _, h | .date _, _, h | .time _, _, h
  | .dateTime _, _, h | .duration _, _, h => by
    cases h
    rfl
  | .number _, _, h => by
    cases h
    · rfl
    · rfl
  | .list items, _, h => by
    cases h with
    | refl => rfl
    | list hitems => exact recordsItems_of_forall₂ hitems
  | .context entries, _, h => by
    cases h with
    | refl => rfl
    | context hkeys hitems => exact congrArg Nat.succ (recordsEntries_of_forall₂ hitems)
theorem recordsItems_of_forall₂ : ∀ {vs us : List SnapshotValue}, List.Forall₂ Same us vs →
    recordsItems us = recordsItems vs
  | [], _, h => by
    cases h
    rfl
  | v :: rest, _, h => by
    cases h with
    | cons hhead htail =>
      rw [recordsItems, recordsItems, Same.records hhead, recordsItems_of_forall₂ htail]
theorem recordsEntries_of_forall₂ : ∀ {vs us : List (String × SnapshotValue)},
    List.Forall₂ Same (us.map Prod.snd) (vs.map Prod.snd) → recordsEntries us = recordsEntries vs
  | [], us, h => by
    rw [List.map_eq_nil_iff.mp (List.forall₂_nil_right_iff.mp h)]
  | (_, v) :: rest, us, h => by
    obtain ⟨u, us', hhead, htail, heq⟩ := List.forall₂_cons_right_iff.mp h
    cases us with
    | nil => cases heq
    | cons e us =>
      cases heq
      rw [recordsEntries, recordsEntries, Same.records hhead, recordsEntries_of_forall₂ htail]
end

/-- **A value is read back exactly if its document is within the limits of the library.** -/
theorem same_decode_encode_iff {v : SnapshotValue} (hsorted : v.Sorted)
    (hnumbers : v.ExactNumbers codecs) (hlimits : codecs.DocumentLimits (v.toJson codecs)) :
    Same (decode codecs (encode codecs v)) v ↔ v.Readable codecs := by
  constructor
  · intro hsame hnested
    by_contra hbeyond
    have hj : (tagged codecs v) = ('j', codecs.printJson (v.toJson codecs)) := by
      cases v with
      | list | context => rfl
      | _ => cases hnested
    rw [decode_encode_eq, hj, ofTagged] at hsame
    have hpos : v.isNested = true → ∀ s, ¬Same (.string s) v := by
      intro hn s h
      cases h
      cases hn
    -- what was read has fewer objects than the document of the value
    have hfewer : ∀ j', codecs.parseJson (codecs.printJson (v.toJson codecs)) = some j' →
        ¬Same (fromJson codecs j') v := by
      intro j' hread h
      have hcount := hlimits.beyond hbeyond j' hread
      rw [objects_toJson hsorted, ← h.records] at hcount
      exact absurd (records_fromJson j') (not_le.mpr hcount)
    split at hsame
    · exact hfewer _ ‹_› hsame
    · exact hfewer _ ‹_› hsame
    · exact hpos hnested _ hsame
  · intro hreadable
    refine (decode_encode_of_document hsorted hnumbers fun hnested => ?_).1
    exact hlimits.within (hreadable hnested).1 (hreadable hnested).2

/-! ## The table of tags -/

/-- The payloads that a tag has. -/
def ValidPayload (codecs : TextCodecs) (tag : Char) (payload : String) : Prop :=
  match tag with
  | 'z' => payload = ""
  | 'b' => payload = "true" ∨ payload = "false"
  | 'n' => ∃ n, codecs.parseDecimal payload = some n
  | 's' | 'd' | 't' | 'i' | 'u' => True
  | 'j' => (∃ items, codecs.parseJson payload = some (.array items)) ∨
      ∃ fields, codecs.parseJson payload = some (.object fields)
  | _ => False

/-- A text of the form tag, bar and payload, with a payload that the tag has. -/
def Tagged (codecs : TextCodecs) (raw : String) : Prop :=
  ∃ tag payload, raw = String.ofList (tag :: '|' :: String.toList payload) ∧
    ValidPayload codecs tag payload

theorem validPayload_of_ofTagged {tag : Char} {payload : String} {v : SnapshotValue}
    (htag : tag = 'z' → payload = "") (h : ofTagged codecs tag payload = some v) :
    ValidPayload codecs tag payload := by
  rw [ofTagged.eq_def] at h
  split at h
  · exact htag rfl
  · split at h
    · exact .inl ‹_›
    · split at h
      · exact .inr ‹_›
      · cases h
  · obtain ⟨n, hn, -⟩ := Option.map_eq_some_iff.mp h
    exact ⟨n, hn⟩
  · trivial
  · trivial
  · trivial
  · trivial
  · trivial
  · split at h
    · exact .inl ⟨_, ‹_›⟩
    · exact .inr ⟨_, ‹_›⟩
    · cases h
  · cases h

/-- **A text that is not in the table is taken verbatim**, but for a payload behind the tag of
null. -/
theorem decode_of_not_tagged {raw : String} (h : ¬ Tagged codecs raw)
    (hnull : ∀ payload, raw = "z|" ++ payload → payload = "") :
    decode codecs raw = .string raw := by
  rw [decode]
  split
  · rename_i tag payload hraw
    have hlist : raw = String.ofList (tag :: '|' :: (String.ofList payload).toList) := by
      rw [String.toList_ofList, ← hraw, String.ofList_toList]
    cases hread : ofTagged codecs tag (String.ofList payload) with
    | none => rfl
    | some v =>
      refine absurd ⟨tag, String.ofList payload, hlist, validPayload_of_ofTagged ?_ hread⟩ h
      intro htag
      refine hnull _ ?_
      rw [hlist, htag]
      exact String.toList_inj.mp (by simp)
  · rfl

/-- **A payload behind the tag of null is dropped**, whatever it is. -/
theorem decode_null (payload : String) : decode codecs ("z|" ++ payload) = .null := by
  rw [decode, String.toList_append]
  rfl

/-- **A text that is not in the table is taken verbatim, but for payloads behind the tag of null.**
-/
theorem decode_eq_string_iff {raw : String} (h : ¬ Tagged codecs raw) :
    decode codecs raw = .string raw ↔ ∀ payload, raw = "z|" ++ payload → payload = "" := by
  refine ⟨fun hraw payload heq => ?_, decode_of_not_tagged h⟩
  rw [heq, decode_null] at hraw
  cases hraw

end SnapshotValue

open SnapshotValue

def oneDateCodecs : TextCodecs where
  decimalText _ := ""
  parseDecimal _ := none
  printJson _ := "[\x7b\"@d\":\"2026-01-01\"\x7d]"
  parseJson text := if text = "[\x7b\"@d\":\"2026-01-01\"\x7d]" then
    some (.array [temporalJson "@d" "2026-01-01"]) else none
  encodeBase64 _ := ""
  decodeBase64 _ := .ok []

end Sutra.Snapshot
