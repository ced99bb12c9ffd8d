import Mathlib
import Sutra.Executor.Value

/-!
# The persisted form of one variable

A variable is kept with its type: `SnapshotValue` is the closed set of kinds a snapshot can carry.
Its wire form is one tag character, a bar, and a payload; lists and contexts ride a JSON document,
in which a temporal value is an object with one reserved key and a context key that would look
reserved has its `@` doubled. Decimal text, JSON text and base64 are parameters (`TextCodecs`).
-/

namespace Sutra

def Decimal.value (d : Decimal) : ℚ := d.digits * 10 ^ (-d.scale)

namespace Snapshot

open Text List

/-! ## Values and documents -/

/-- One persisted variable. -/
inductive SnapshotValue where
  | null
  | boolean (b : Bool)
  | number (n : Decimal)
  | string (s : String)
  | date (text : String)
  | time (text : String)
  | dateTime (text : String)
  | duration (text : String)
  | list (items : List SnapshotValue)
  | context (entries : List (String × SnapshotValue))

/-- A JSON document. A number is its text; the fields of an object are in key order. -/
inductive Json where
  | null
  | bool (b : Bool)
  | number (text : String)
  | string (s : String)
  | array (items : List Json)
  | object (fields : List (String × Json))

structure TextCodecs where
  decimalText : Decimal → String
  parseDecimal : String → Option Decimal
  printJson : Json → String
  parseJson : String → Option Json
  encodeBase64 : List UInt8 → String
  decodeBase64 : String → Except String (List UInt8)

def collect {V : Type} (entries : List (String × V)) : List (String × V) :=
  (SortedMap.ofList entries).entries

/-- Double a leading `@`. -/
def escapeContextKey (key : String) : String :=
  match stripPrefix "@" key with
  | some rest => "@@" ++ rest
  | none => key

def unescapeContextKey (key : String) : String :=
  match stripPrefix "@@" key with
  | some rest => "@" ++ rest
  | none => key

def temporalJson (key text : String) : Json := .object [(key, .string text)]

namespace TextCodecs

variable (codecs : TextCodecs)

def canonicalDecimalString (n : Decimal) : String :=
  let s := codecs.decimalText n
  if s = "0" ∧ 0 < n.scale then "0." ++ String.ofList (replicate n.scale.toNat '0') else s

end TextCodecs

namespace SnapshotValue

variable (codecs : TextCodecs)

def needsTypedEncoding : SnapshotValue → Bool
  | .string _ => false
  | _ => true

mutual
/-- The display form a value had before it was typed. -/
def toCanonicalString : SnapshotValue → String
  | .null => "null"
  | .boolean b => toString b
  | .number n => codecs.decimalText n
  | .string s => s
  | .date s | .time s | .dateTime s | .duration s => s
  | .list items => "[" ++ ", ".intercalate (canonicalItems items) ++ "]"
  | .context entries => "\x7b" ++ ", ".intercalate (canonicalEntries entries) ++ "\x7d"
def canonicalItems : List SnapshotValue → List String
  | [] => []
  | v :: rest => toCanonicalString v :: canonicalItems rest
def canonicalEntries : List (String × SnapshotValue) → List String
  | [] => []
  | (k, v) :: rest => (k ++ "=" ++ toCanonicalString v) :: canonicalEntries rest
end

mutual
def toJson : SnapshotValue → Json
  | .null => .null
  | .boolean b => .bool b
  | .number n => .number (codecs.canonicalDecimalString n)
  | .string s => .string s
  | .date s => temporalJson "@d" s
  | .time s => temporalJson "@t" s
  | .dateTime s => temporalJson "@i" s
  | .duration s => temporalJson "@u" s
  | .list items => .array (toJsonItems items)
  | .context entries => .object (collect (toJsonFields entries))
def toJsonItems : List SnapshotValue → List Json
  | [] => []
  | v :: rest => toJson v :: toJsonItems rest
def toJsonFields : List (String × SnapshotValue) → List (String × Json)
  | [] => []
  | (k, v) :: rest => (escapeContextKey k, toJson v) :: toJsonFields rest
end

def temporalOf : List (String × Json) → Option SnapshotValue
  | [(key, .string text)] =>
    if key = "@d" then some (.date text)
    else if key = "@t" then some (.time text)
    else if key = "@i" then some (.dateTime text)
    else if key = "@u" then some (.duration text)
    else none
  | _ => none

mutual
def fromJson : Json → SnapshotValue
  | .null => .null
  | .bool b => .boolean b
  | .number text =>
    match codecs.parseDecimal text with
    | some n => .number n
    | none => .string text
  | .string s => .string s
  | .array items => .list (fromJsonItems items)
  | .object fields =>
    match temporalOf fields with
    | some v => v
    | none => .context (collect (fromJsonFields fields))
def fromJsonItems : List Json → List SnapshotValue
  | [] => []
  | j :: rest => fromJson j :: fromJsonItems rest
def fromJsonFields : List (String × Json) → List (String × SnapshotValue)
  | [] => []
  | (k, j) :: rest => (unescapeContextKey k, fromJson j) :: fromJsonFields rest
end

def tagged : SnapshotValue → Char × String
  | .null => ('z', "")
  | .boolean b => ('b', toString b)
  | .number n => ('n', codecs.canonicalDecimalString n)
  | .string s => ('s', s)
  | .date s => ('d', s)
  | .time s => ('t', s)
  | .dateTime s => ('i', s)
  | .duration s => ('u', s)
  | v@(.list _) => ('j', codecs.printJson (v.toJson codecs))
  | v@(.context _) => ('j', codecs.printJson (v.toJson codecs))

/-- The typed wire form. -/
def encode (v : SnapshotValue) : String :=
  String.ofList ((tagged codecs v).1 :: '|' :: (tagged codecs v).2.toList)

def ofTagged (tag : Char) (payload : String) : Option SnapshotValue :=
  match tag with
  | 'z' => some .null
  | 'b' => if payload = "true" then some (.boolean true)
    else if payload = "false" then some (.boolean false) else none
  | 'n' => (codecs.parseDecimal payload).map .number
  | 's' => some (.string payload)
  | 'd' => some (.date payload)
  | 't' => some (.time payload)
  | 'i' => some (.dateTime payload)
  | 'u' => some (.duration payload)
  | 'j' =>
    match codecs.parseJson payload with
    | some (.array items) => some (fromJson codecs (.array items))
    | some (.object fields) => some (fromJson codecs (.object fields))
    | _ => none
  | _ => none

/-- Decode a typed wire form. It never fails: what it cannot read is text. -/
def decode (raw : String) : SnapshotValue :=
  match raw.toList with
  | tag :: '|' :: payload => (ofTagged codecs tag (String.ofList payload)).getD (.string raw)
  | _ => .string raw

end SnapshotValue

/-! ## Keys of a context -/

theorem collect_of_sorted {V : Type} {entries : List (String × V)}
    (h : (entries.map Prod.fst).Pairwise (· < ·)) : collect entries = entries :=
  congrArg SortedMap.entries (SortedMap.ofList_entries ⟨entries, h⟩)

theorem escapeContextKey_at (rest : String) : escapeContextKey ("@" ++ rest) = "@@" ++ rest := by
  rw [escapeContextKey, stripPrefix_append]

theorem escapeContextKey_plain {key : String} (h : ∀ rest, key ≠ "@" ++ rest) :
    escapeContextKey key = key := by
  rw [escapeContextKey, stripPrefix_eq_none h]

theorem escapeContextKey_cases (key : String) :
    (∃ rest, key = "@" ++ rest ∧ escapeContextKey key = "@@" ++ rest) ∨
      ((∀ rest, key ≠ "@" ++ rest) ∧ escapeContextKey key = key) := by
  by_cases h : ∃ rest, key = "@" ++ rest
  · obtain ⟨rest, rfl⟩ := h
    exact .inl ⟨rest, rfl, escapeContextKey_at rest⟩
  · rw [not_exists] at h
    exact .inr ⟨h, escapeContextKey_plain h⟩

theorem unescapeContextKey_escapeContextKey (key : String) :
    unescapeContextKey (escapeContextKey key) = key := by
  rcases escapeContextKey_cases key with ⟨rest, rfl, hesc⟩ | ⟨hplain, hesc⟩
  · rw [hesc, unescapeContextKey, stripPrefix_append]
  · have hnone : ∀ rest, key ≠ "@@" ++ rest := by
      intro rest heq
      have hassoc : "@@" ++ rest = "@" ++ ("@" ++ rest) := by
        rw [← String.append_assoc]
        rfl
      exact hplain ("@" ++ rest) (heq.trans hassoc)
    rw [hesc, unescapeContextKey, stripPrefix_eq_none hnone]

theorem escapeContextKey_ne {key : String} {c : Char} (hc : c ≠ '@') :
    escapeContextKey key ≠ "@" ++ String.ofList [c] := by
  intro heq
  rcases escapeContextKey_cases key with ⟨rest, rfl, hesc⟩ | ⟨hplain, hesc⟩
  · rw [hesc] at heq
    have hlist : '@' :: '@' :: rest.toList = ['@', c] := by
      simpa using congrArg String.toList heq
    exact hc (cons.inj (cons.inj hlist).2).1.symm
  · rw [hesc] at heq
    exact hplain (String.ofList [c]) heq

theorem cons_cons_lt_iff {l : List Char} (r : List Char) (hl : ∀ t, l ≠ '@' :: t) :
    ('@' :: '@' :: r < l ↔ '@' :: r < l) ∧ (l < '@' :: '@' :: r ↔ l < '@' :: r) := by
  cases l with
  | nil => simp
  | cons c t =>
    have hc : c ≠ '@' := fun h => hl t (h ▸ rfl)
    simp [cons_lt_cons_iff, hc, hc.symm]

theorem escapeContextKey_lt {k k' : String} (h : k < k') :
    escapeContextKey k < escapeContextKey k' := by
  have hplain : ∀ {key : String}, (∀ rest, key ≠ "@" ++ rest) → ∀ t, key.toList ≠ '@' :: t := by
    intro key hkey t ht
    exact hkey (String.ofList t) (String.toList_inj.mp (by simp [ht]))
  rw [String.lt_iff_toList_lt] at h ⊢
  rcases escapeContextKey_cases k with ⟨r, rfl, hk⟩ | ⟨hk, hesc⟩ <;>
    rcases escapeContextKey_cases k' with ⟨r', rfl, hk'⟩ | ⟨hk', hesc'⟩
  · rw [hk, hk']
    rw [String.toList_append, String.toList_append] at h ⊢
    exact cons_lt_cons_iff.mpr (.inr ⟨rfl, h⟩)
  · rw [hk, hesc']
    rw [String.toList_append] at h ⊢
    exact (cons_cons_lt_iff r.toList (hplain hk')).1.mpr h
  · rw [hesc, hk']
    rw [String.toList_append] at h ⊢
    exact (cons_cons_lt_iff r'.toList (hplain hk)).2.mpr h
  · rw [hesc, hesc']
    exact h

/-! ## Reading back -/

def TextCodecs.ExactDecimal (codecs : TextCodecs) (n : Decimal) : Prop :=
  ∃ n', codecs.parseDecimal (codecs.canonicalDecimalString n) = some n' ∧ n'.value = n.value ∧
    codecs.canonicalDecimalString n' = codecs.canonicalDecimalString n

namespace SnapshotValue

/-- The same value, numbers compared by the number they stand for. -/
inductive Same : SnapshotValue → SnapshotValue → Prop where
  | refl (v : SnapshotValue) : Same v v
  | number {m n : Decimal} (h : m.value = n.value) : Same (.number m) (.number n)
  | list {xs ys : List SnapshotValue} (h : List.Forall₂ Same xs ys) : Same (.list xs) (.list ys)
  | context {xs ys : List (String × SnapshotValue)} (hkeys : xs.map Prod.fst = ys.map Prod.fst)
      (h : List.Forall₂ Same (xs.map Prod.snd) (ys.map Prod.snd)) :
      Same (.context xs) (.context ys)

mutual
def Sorted : SnapshotValue → Prop
  | .list items => SortedItems items
  | .context entries => (entries.map Prod.fst).Pairwise (· < ·) ∧ SortedEntries entries
  | .null | .boolean _ | .number _ | .string _ | .date _ | .time _ | .dateTime _
  | .duration _ => True
def SortedItems : List SnapshotValue → Prop
  | [] => True
  | v :: rest => Sorted v ∧ SortedItems rest
def SortedEntries : List (String × SnapshotValue) → Prop
  | [] => True
  | (_, v) :: rest => Sorted v ∧ SortedEntries rest
end

variable (codecs : TextCodecs)

mutual
def ExactNumbers : SnapshotValue → Prop
  | .number n => codecs.ExactDecimal n
  | .list items => ExactItems items
  | .context entries => ExactEntries entries
  | .null | .boolean _ | .string _ | .date _ | .time _ | .dateTime _ | .duration _ => True
def ExactItems : List SnapshotValue → Prop
  | [] => True
  | v :: rest => ExactNumbers v ∧ ExactItems rest
def ExactEntries : List (String × SnapshotValue) → Prop
  | [] => True
  | (_, v) :: rest => ExactNumbers v ∧ ExactEntries rest
end

def Exact (v : SnapshotValue) : Prop :=
  v.ExactNumbers codecs ∧ codecs.parseJson (codecs.printJson (v.toJson codecs)) =
    some (v.toJson codecs)

variable {codecs} (entries : List (String × SnapshotValue))

theorem keys_toJsonFields :
    (toJsonFields codecs entries).map Prod.fst = (entries.map Prod.fst).map escapeContextKey := by
  induction entries with
  | nil => rfl
  | cons e rest ih =>
    obtain ⟨k, v⟩ := e
    rw [toJsonFields, map_cons, ih]
    rfl

theorem keys_fromJsonFields (fields : List (String × Json)) :
    (fromJsonFields codecs fields).map Prod.fst = (fields.map Prod.fst).map unescapeContextKey := by
  induction fields with
  | nil => rfl
  | cons e rest ih =>
    obtain ⟨k, v⟩ := e
    rw [fromJsonFields, map_cons, ih]
    rfl

theorem collect_toJsonFields {entries : List (String × SnapshotValue)}
    (h : (entries.map Prod.fst).Pairwise (· < ·)) :
    collect (toJsonFields codecs entries) = toJsonFields codecs entries := by
  refine collect_of_sorted ?_
  rw [keys_toJsonFields]
  exact pairwise_map.mpr (h.imp escapeContextKey_lt)

theorem keys_fromJson_toJson :
    (fromJsonFields codecs (toJsonFields codecs entries)).map Prod.fst = entries.map Prod.fst := by
  rw [keys_fromJsonFields, keys_toJsonFields, map_map, map_map]
  exact map_congr_left fun e _ => unescapeContextKey_escapeContextKey e.1

theorem temporalOf_toJsonFields : temporalOf (toJsonFields codecs entries) = none := by
  cases entries with
  | nil => rfl
  | cons e rest =>
    obtain ⟨k, v⟩ := e
    have hd : escapeContextKey k ≠ "@d" := escapeContextKey_ne (c := 'd') (by decide)
    have ht : escapeContextKey k ≠ "@t" := escapeContextKey_ne (c := 't') (by decide)
    have hi : escapeContextKey k ≠ "@i" := escapeContextKey_ne (c := 'i') (by decide)
    have hu : escapeContextKey k ≠ "@u" := escapeContextKey_ne (c := 'u') (by decide)
    rw [toJsonFields, temporalOf.eq_def]
    split
    · rename_i heq
      obtain ⟨hhead, -⟩ := cons.inj heq
      obtain ⟨hkey, -⟩ := Prod.mk.inj hhead
      rw [← hkey, if_neg hd, if_neg ht, if_neg hi, if_neg hu]
    · rfl

mutual
/-- A value is read back from its document, and has the same document again. -/
theorem fromJson_toJson : ∀ {v : SnapshotValue}, v.Sorted → v.ExactNumbers codecs →
    Same (fromJson codecs (toJson codecs v)) v ∧
      toJson codecs (fromJson codecs (toJson codecs v)) = toJson codecs v
  | .null, _, _ => ⟨.refl _, rfl⟩
  | .boolean _, _, _ => ⟨.refl _, rfl⟩
  | .string _, _, _ => ⟨.refl _, rfl⟩
  | .date _, _, _ => ⟨.refl _, rfl⟩
  | .time _, _, _ => ⟨.refl _, rfl⟩
  | .dateTime _, _, _ => ⟨.refl _, rfl⟩
  | .duration _, _, _ => ⟨.refl _, rfl⟩
  | .number n, _, hexact => by
    rw [ExactNumbers] at hexact
    obtain ⟨n', hparse, hvalue, htext⟩ := hexact
    have hread : fromJson codecs (toJson codecs (.number n)) = .number n' := by
      rw [toJson, fromJson, hparse]
    rw [hread]
    exact ⟨.number hvalue, congrArg Json.number htext⟩
  | .list items, hsorted, hexact => by
    rw [Sorted] at hsorted
    rw [ExactNumbers] at hexact
    obtain ⟨hsame, hjson⟩ := fromJsonItems_toJsonItems hsorted hexact
    exact ⟨.list hsame, congrArg Json.array hjson⟩
  | .context entries, hsorted, hexact => by
    rw [Sorted] at hsorted
    rw [ExactNumbers] at hexact
    obtain ⟨hsame, hjson⟩ := fromJsonFields_toJsonFields hsorted.2 hexact
    have hkeys : (fromJsonFields codecs (toJsonFields codecs entries)).map Prod.fst =
        entries.map Prod.fst := keys_fromJson_toJson entries
    have hread : fromJson codecs (toJson codecs (.context entries)) =
        .context (fromJsonFields codecs (toJsonFields codecs entries)) := by
      rw [toJson, collect_toJsonFields hsorted.1, fromJson, temporalOf_toJsonFields,
        collect_of_sorted (hkeys ▸ hsorted.1)]
    rw [hread]
    exact ⟨.context hkeys hsame, congrArg (fun l => Json.object (collect l)) hjson⟩
theorem fromJsonItems_toJsonItems : ∀ {items : List SnapshotValue}, SortedItems items →
    ExactItems codecs items →
    List.Forall₂ Same (fromJsonItems codecs (toJsonItems codecs items)) items ∧
      toJsonItems codecs (fromJsonItems codecs (toJsonItems codecs items)) =
        toJsonItems codecs items
  | [], _, _ => ⟨.nil, rfl⟩
  | v :: rest, hsorted, hexact => by
    rw [SortedItems] at hsorted
    rw [ExactItems] at hexact
    obtain ⟨hhead, hhead'⟩ := fromJson_toJson hsorted.1 hexact.1
    obtain ⟨htail, htail'⟩ := fromJsonItems_toJsonItems hsorted.2 hexact.2
    exact ⟨.cons hhead htail, congrArg₂ cons hhead' htail'⟩
theorem fromJsonFields_toJsonFields : ∀ {entries : List (String × SnapshotValue)},
    SortedEntries entries → ExactEntries codecs entries →
    List.Forall₂ Same ((fromJsonFields codecs (toJsonFields codecs entries)).map Prod.snd)
        (entries.map Prod.snd) ∧
      toJsonFields codecs (fromJsonFields codecs (toJsonFields codecs entries)) =
        toJsonFields codecs entries
  | [], _, _ => ⟨.nil, rfl⟩
  | (k, v) :: rest, hsorted, hexact => by
    rw [SortedEntries] at hsorted
    rw [ExactEntries] at hexact
    obtain ⟨hhead, hhead'⟩ := fromJson_toJson hsorted.1 hexact.1
    obtain ⟨htail, htail'⟩ := fromJsonFields_toJsonFields hsorted.2 hexact.2
    refine ⟨.cons hhead htail, ?_⟩
    rw [toJsonFields, fromJsonFields, toJsonFields, hhead', htail',
      unescapeContextKey_escapeContextKey]
end

theorem decode_encode_eq (v : SnapshotValue) : decode codecs (encode codecs v) =
      (ofTagged codecs (tagged codecs v).1 (tagged codecs v).2).getD
        (.string (encode codecs v)) := by
  rw [decode, encode, String.toList_ofList]
  change (ofTagged codecs _ (String.ofList (tagged codecs v).2.toList)).getD _ = _
  rw [String.ofList_toList]

def isNested : SnapshotValue → Bool
  | .list _ | .context _ => true
  | _ => false

/-- **Decoding what was encoded gives the same value, and the result encodes to the same text.**
Only the document of a list or a context has to be read back. -/
theorem decode_encode_of_document {v : SnapshotValue} (hsorted : v.Sorted)
    (hnumbers : v.ExactNumbers codecs) (hdocument : v.isNested →
      codecs.parseJson (codecs.printJson (v.toJson codecs)) = some (v.toJson codecs)) :
    Same (decode codecs (encode codecs v)) v ∧
      encode codecs (decode codecs (encode codecs v)) = encode codecs v := by
  have hdone : ofTagged codecs (tagged codecs v).1 (tagged codecs v).2 = some v →
      Same (decode codecs (encode codecs v)) v ∧
        encode codecs (decode codecs (encode codecs v)) = encode codecs v := by
    intro h
    rw [decode_encode_eq, h]
    exact ⟨.refl v, rfl⟩
  cases v with
  | null | string | date | time | dateTime | duration => exact hdone rfl
  | boolean b =>
    cases b with
    | false => exact hdone rfl
    | true => exact hdone rfl
  | number n =>
    rw [ExactNumbers] at hnumbers
    obtain ⟨n', hread, hvalue, htext⟩ := hnumbers
    have hdec : decode codecs (encode codecs (.number n)) = .number n' := by
      rw [decode_encode_eq, tagged, ofTagged, hread]
      rfl
    rw [hdec]
    refine ⟨.number hvalue, ?_⟩
    rw [encode, encode, tagged, tagged, htext]
  | list items =>
    have hdec : decode codecs (encode codecs (.list items)) =
        fromJson codecs (toJson codecs (.list items)) := by
      rw [decode_encode_eq, tagged, ofTagged, hdocument rfl, toJson]
      rfl
    obtain ⟨hsame, hjson⟩ := fromJson_toJson hsorted hnumbers
    rw [hdec]
    refine ⟨hsame, ?_⟩
    rw [toJson, fromJson] at hjson ⊢
    rw [encode, encode, tagged, tagged, hjson]
    rfl
  | context entries =>
    have hread : fromJson codecs (toJson codecs (.context entries)) =
        .context (collect (fromJsonFields codecs (collect (toJsonFields codecs entries)))) := by
      rw [Sorted] at hsorted
      rw [toJson, fromJson, collect_toJsonFields hsorted.1, temporalOf_toJsonFields]
    have hdec : decode codecs (encode codecs (.context entries)) =
        fromJson codecs (toJson codecs (.context entries)) := by
      rw [decode_encode_eq, tagged, ofTagged, hdocument rfl, toJson]
      rfl
    obtain ⟨hsame, hjson⟩ := fromJson_toJson hsorted hnumbers
    rw [hdec]
    refine ⟨hsame, ?_⟩
    rw [hread] at hjson ⊢
    rw [encode, encode, tagged, tagged, hjson]

theorem decode_encode {v : SnapshotValue} (hsorted : v.Sorted) (hexact : v.Exact codecs) :
    Same (decode codecs (encode codecs v)) v ∧
      encode codecs (decode codecs (encode codecs v)) = encode codecs v :=
  decode_encode_of_document hsorted hexact.1 fun _ => hexact.2

end SnapshotValue

end Snapshot

end Sutra
