import Mathlib
import Sutra.Lib.Prog
import Sutra.Lib.SortedMap

/-!
# The binary snapshot container

Format 5 writes a map of string keys to string values as a marker, the number of entries, and per
entry a length-prefixed key and a length-prefixed value, keys ascending. Lengths are four
little-endian bytes; text is UTF-8.

* `encode` sorts its entries, the last one of a key winning, and has no result when a length does
  not fit: the code stops there with a panic.
-/

namespace Sutra.Snapshot

open List Option SortedMap Except

/-! ## Text and lengths as bytes -/

def textBytes (s : String) : List UInt8 := s.toByteArray.data.toList

def textOfBytes (bytes : List UInt8) : Option String := String.fromUTF8? ⟨bytes.toArray⟩

theorem textOfBytes_textBytes (s : String) : textOfBytes (textBytes s) = some s := by
  have hbytes : (⟨(textBytes s).toArray⟩ : ByteArray) = s.toByteArray := rfl
  rw [textOfBytes, hbytes, String.fromUTF8?, dif_pos s.isValidUTF8]
  rfl

variable {bytes rest tail : List UInt8} {s : String} {n : Nat} {pairs : List (String × String)}

theorem textBytes_textOfBytes (h : textOfBytes bytes = some s) : textBytes s = bytes := by
  rw [textOfBytes, String.fromUTF8?] at h
  split at h <;> cases h
  rfl

def leBytes (n : Nat) : List UInt8 :=
  [UInt8.ofNat n, UInt8.ofNat (n / 2 ^ 8), UInt8.ofNat (n / 2 ^ 16), UInt8.ofNat (n / 2 ^ 24)]

/-- The number four little-endian bytes stand for. -/
def ofLeBytes (b₀ b₁ b₂ b₃ : UInt8) : Nat :=
  b₀.toNat + 2 ^ 8 * b₁.toNat + 2 ^ 16 * b₂.toNat + 2 ^ 24 * b₃.toNat

theorem ofLeBytes_leBytes (h : n < 2 ^ 32) :
    ofLeBytes (UInt8.ofNat n) (UInt8.ofNat (n / 2 ^ 8)) (UInt8.ofNat (n / 2 ^ 16))
      (UInt8.ofNat (n / 2 ^ 24)) = n := by
  simp only [ofLeBytes, UInt8.toNat_ofNat']
  omega

theorem ofLeBytes_lt (b₀ b₁ b₂ b₃ : UInt8) : ofLeBytes b₀ b₁ b₂ b₃ < 2 ^ 32 := by
  have h₀ := b₀.toNat_lt
  have h₁ := b₁.toNat_lt
  have h₂ := b₂.toNat_lt
  have h₃ := b₃.toNat_lt
  rw [ofLeBytes]
  omega

theorem leBytes_ofLeBytes (b₀ b₁ b₂ b₃ : UInt8) :
    leBytes (ofLeBytes b₀ b₁ b₂ b₃) = [b₀, b₁, b₂, b₃] := by
  have h₀ := b₀.toNat_lt
  have h₁ := b₁.toNat_lt
  have h₂ := b₂.toNat_lt
  have h₃ := b₃.toNat_lt
  simp only [leBytes, ofLeBytes, List.cons.injEq, ← UInt8.toNat_inj, UInt8.toNat_ofNat', and_true]
  omega

/-! ## Writing -/

/-- The marker every format-5 snapshot starts with: a backslash, `uSNAPSHOT/5` and a newline. -/
def magic : List UInt8 := [92, 117, 83, 78, 65, 80, 83, 72, 79, 84, 47, 53, 10]

def isBinary (bytes : List UInt8) : Bool := magic.isPrefixOf bytes

/-- A length as a 32-bit word; `none` when it does not fit. -/
def lenU32 (n : Nat) : Option (List UInt8) := if n < 2 ^ 32 then some (leBytes n) else none

def encodeText (s : String) : Option (List UInt8) := do
  let len ← lenU32 (textBytes s).length
  some (len ++ textBytes s)

def encodeEntries : List (String × String) → Option (List UInt8)
  | [] => some []
  | (k, v) :: rest => do
    let key ← encodeText k
    let value ← encodeText v
    let body ← encodeEntries rest
    some (key ++ value ++ body)

def encode (entries : List (String × String)) : Option (List UInt8) := do
  let sorted := SortedMap.ofList entries
  let count ← lenU32 sorted.entries.length
  let body ← encodeEntries sorted.entries
  some (magic ++ count ++ body)

/-! ## Reading -/

/-- The next 32-bit word. -/
def takeU32 (rest : List UInt8) (what : String) : Except String (Nat × List UInt8) :=
  match rest with
  | b₀ :: b₁ :: b₂ :: b₃ :: tail => .ok (ofLeBytes b₀ b₁ b₂ b₃, tail)
  | _ => .error s!"format-5 snapshot truncated in its {what}"

/-- A length and that many bytes of UTF-8. The position that the decoder adds to its message for
bytes which are no text is left out. -/
def takeText (rest : List UInt8) (entry : Nat) (what : String) :
    Except String (String × List UInt8) := do
  let (len, rest) ← takeU32 rest what
  if rest.length < len then
    .error s!"format-5 snapshot entry {entry}: {what} length {len} runs past the end"
  else
    match textOfBytes (rest.take len) with
    | some text => .ok (text, rest.drop len)
    | none => .error s!"format-5 snapshot entry {entry}: {what} is not UTF-8"

def takeEntries : (count entry : Nat) → List UInt8 →
    Except String (List (String × String) × List UInt8)
  | 0, _, rest => .ok ([], rest)
  | count + 1, entry, rest => do
    let (key, rest) ← takeText rest entry "key"
    let (value, rest) ← takeText rest entry "value"
    let (pairs, rest) ← takeEntries count (entry + 1) rest
    .ok ((key, value) :: pairs, rest)

def decode (bytes : List UInt8) : Except String (List (String × String)) := do
  if isBinary bytes then
    let (count, rest) ← takeU32 (bytes.drop magic.length) "entry count"
    if rest.length / 8 < count then
      let held := rest.length
      .error s!"format-5 snapshot declares {count} entries but holds {held} bytes"
    else
      let (pairs, rest) ← takeEntries count 0 rest
      if rest.isEmpty then .ok pairs
      else
        let left := rest.length
        .error s!"format-5 snapshot has {left} trailing bytes after its {count} entries"
  else .error "not a format-5 snapshot (missing marker)"

/-! ## The grammar -/

/-- **The grammar of a container**: the marker, the number of the entries, and the entries one after
the other, with nothing after them. -/
def Spells (bytes : List UInt8) (pairs : List (String × String)) : Prop :=
  ∃ count body, lenU32 pairs.length = some count ∧ encodeEntries pairs = some body ∧
    bytes = magic ++ (count ++ body)

theorem lenU32_eq_some {word : List UInt8} :
    lenU32 n = some word ↔ n < 2 ^ 32 ∧ word = leBytes n := by
  rw [lenU32]
  split
  · rw [Option.some.injEq, and_iff_right ‹_›, eq_comm]
  · exact ⟨nofun, fun h => absurd h.1 ‹_›⟩

theorem takeU32_eq_ok {what : String} :
    takeU32 rest what = .ok (n, tail) ↔ ∃ word, lenU32 n = some word ∧ rest = word ++ tail := by
  simp only [lenU32_eq_some]
  constructor
  · intro h
    unfold takeU32 at h
    split at h <;> cases h
    rename_i b₀ b₁ b₂ b₃
    exact ⟨_, ⟨ofLeBytes_lt b₀ b₁ b₂ b₃, rfl⟩, by rw [leBytes_ofLeBytes]; rfl⟩
  · rintro ⟨_, ⟨hn, rfl⟩, rfl⟩
    exact congrArg (fun k => Except.ok (k, tail)) (ofLeBytes_leBytes hn)

theorem encodeText_eq_some : encodeText s = some bytes ↔
    ∃ word, lenU32 (textBytes s).length = some word ∧ word ++ textBytes s = bytes := by
  simp [encodeText, bind_eq_some_iff]

theorem takeText_eq_ok {entry : Nat} {what : String} : takeText rest entry what = .ok (s, tail) ↔
      ∃ bytes, encodeText s = some bytes ∧ rest = bytes ++ tail := by
  simp only [encodeText_eq_some]
  constructor
  · intro h
    obtain ⟨⟨len, more⟩, hlen, hrest⟩ := bind_eq_ok h
    obtain ⟨word, hword, rfl⟩ := takeU32_eq_ok.mp hlen
    dsimp only at hrest
    split at hrest
    · cases hrest
    · rename_i hfits
      split at hrest <;> cases hrest
      rename_i htext
      have hbytes := textBytes_textOfBytes htext
      refine ⟨_, ⟨word, ?_, rfl⟩, ?_⟩
      · rwa [hbytes, length_take, Nat.min_eq_left (not_lt.mp hfits)]
      · rw [hbytes, append_assoc, take_append_drop]
  · rintro ⟨_, ⟨word, hword, rfl⟩, rfl⟩
    have hlen : takeU32 (word ++ (textBytes s ++ tail)) what =
      .ok ((textBytes s).length, textBytes s ++ tail) := takeU32_eq_ok.mpr ⟨word, hword, rfl⟩
    rw [takeText, append_assoc, hlen]
    change (if (textBytes s ++ tail).length < (textBytes s).length then _ else _) = _
    rw [if_neg (by simp), take_left, drop_left, textOfBytes_textBytes]

theorem encodeEntries_cons {k v : String} {rest : List (String × String)} :
    encodeEntries ((k, v) :: rest) = some bytes ↔
      ∃ key, encodeText k = some key ∧ ∃ value, encodeText v = some value ∧
        ∃ body, encodeEntries rest = some body ∧ key ++ (value ++ body) = bytes := by
  simp [encodeEntries, bind_eq_some_iff]

theorem takeEntries_eq_ok {count entry : Nat} :
    takeEntries count entry rest = .ok (pairs, tail) ↔ pairs.length = count ∧
      ∃ body, encodeEntries pairs = some body ∧ rest = body ++ tail := by
  induction count generalizing entry rest pairs with
  | zero =>
    constructor
    · intro h
      cases h
      exact ⟨rfl, [], rfl, rfl⟩
    · rintro ⟨hlen, body, hbody, rfl⟩
      cases length_eq_zero_iff.mp hlen
      cases hbody
      rfl
  | succ count ih =>
    constructor
    · intro h
      obtain ⟨⟨key, r₁⟩, hkey, hrest⟩ := bind_eq_ok h
      obtain ⟨⟨value, r₂⟩, hvalue, hrest⟩ := bind_eq_ok hrest
      obtain ⟨⟨more, r₃⟩, hmore, hrest⟩ := bind_eq_ok hrest
      cases hrest
      obtain ⟨b₁, hb₁, rfl⟩ := takeText_eq_ok.mp hkey
      obtain ⟨b₂, hb₂, rfl⟩ := takeText_eq_ok.mp hvalue
      obtain ⟨rfl, b₃, hb₃, rfl⟩ := ih.mp hmore
      exact ⟨rfl, _, encodeEntries_cons.mpr ⟨b₁, hb₁, b₂, hb₂, b₃, hb₃, rfl⟩, by simp⟩
    · rintro ⟨hlen, body, hbody, rfl⟩
      obtain ⟨⟨k, v⟩, more, rfl⟩ := exists_cons_of_length_eq_add_one hlen
      obtain ⟨b₁, hb₁, b₂, hb₂, b₃, hb₃, rfl⟩ := encodeEntries_cons.mp hbody
      have hmore : takeEntries count (entry + 1) (b₃ ++ tail) = .ok (more, tail) :=
        ih.mpr ⟨Nat.succ.inj hlen, b₃, hb₃, rfl⟩
      rw [takeEntries, append_assoc, append_assoc, takeText_eq_ok.mpr ⟨b₁, hb₁, rfl⟩]
      change takeText (b₂ ++ (b₃ ++ tail)) entry "value" >>= _ = _
      rw [takeText_eq_ok.mpr ⟨b₂, hb₂, rfl⟩]
      change takeEntries count (entry + 1) (b₃ ++ tail) >>= _ = _
      rw [hmore]
      rfl

theorem length_encodeEntries
    (h : encodeEntries pairs = some bytes) : 8 * pairs.length ≤ bytes.length := by
  have htext : ∀ {s b}, encodeText s = some b → 4 ≤ b.length := by
    intro s b hb
    obtain ⟨word, hword, rfl⟩ := encodeText_eq_some.mp hb
    rw [(lenU32_eq_some.mp hword).2, length_append]
    exact Nat.le_add_right 4 _
  induction pairs generalizing bytes with
  | nil => exact Nat.zero_le _
  | cons e rest ih =>
    obtain ⟨key, hkey, value, hvalue, body, hbody, rfl⟩ := encodeEntries_cons.mp h
    have hkey := htext hkey
    have hvalue := htext hvalue
    have hbody := ih hbody
    rw [length_append, length_append, length_cons]
    omega

/-- **What is decoded is what the grammar spells**: the guard on the declared number of entries
keeps no container out, as every entry takes its two length words. -/
theorem decode_eq_ok : decode bytes = .ok pairs ↔ Spells bytes pairs := by
  constructor
  · intro h
    rw [decode] at h
    split at h
    · rename_i hmagic
      obtain ⟨more, rfl⟩ := isPrefixOf_iff_prefix.mp hmagic
      rw [drop_left] at h
      obtain ⟨⟨count, rest⟩, hcount, hrest⟩ := bind_eq_ok h
      obtain ⟨word, hword, rfl⟩ := takeU32_eq_ok.mp hcount
      dsimp only at hrest
      split at hrest
      · cases hrest
      · obtain ⟨⟨found, tail⟩, hfound, hend⟩ := bind_eq_ok hrest
        obtain ⟨rfl, body, hbody, rfl⟩ := takeEntries_eq_ok.mp hfound
        split at hend <;> rename_i htail <;> cases hend
        cases isEmpty_iff.mp htail
        exact ⟨word, body, hword, hbody, by rw [append_nil]⟩
    · cases h
  · rintro ⟨word, body, hword, hbody, rfl⟩
    have hlen := length_encodeEntries hbody
    have hentries : takeEntries pairs.length 0 body = .ok (pairs, []) :=
      takeEntries_eq_ok.mpr ⟨rfl, body, hbody, (append_nil body).symm⟩
    rw [decode, isBinary, if_pos (List.isPrefixOf_iff_prefix.mpr (prefix_append _ _)),
      drop_left, takeU32_eq_ok.mpr ⟨word, hword, rfl⟩]
    change (if body.length / 8 < pairs.length then _ else _) = _
    rw [if_neg (by omega), hentries]
    rfl

variable {entries : List (String × String)} {bytes : List UInt8}

theorem encode_spells (h : encode entries = some bytes) :
    Spells bytes (SortedMap.ofList entries).entries := by
  rw [encode] at h
  obtain ⟨count, hcount, h⟩ := bind_eq_some_iff.mp h
  obtain ⟨body, hbody, h⟩ := bind_eq_some_iff.mp h
  cases h
  exact ⟨count, body, hcount, hbody, append_assoc _ _ _⟩

/-- **What was encoded is decoded to the entries of the map, in order.** -/
theorem decode_encode (h : encode entries = some bytes) :
    decode bytes = .ok (SortedMap.ofList entries).entries := decode_eq_ok.mpr (encode_spells h)

theorem isBinary_encode (h : encode entries = some bytes) : isBinary bytes := by
  obtain ⟨count, body, -, -, rfl⟩ := encode_spells h
  exact isPrefixOf_iff_prefix.mpr (prefix_append _ _)

theorem decode_prefix {bytes' : List UInt8} {pairs' : List (String × String)}
    (h : decode bytes = .ok pairs) (h' : decode bytes' = .ok pairs') (hle : bytes <+: bytes') :
    bytes = bytes' := by
  obtain ⟨count, body, hcount, hbody, rfl⟩ := decode_eq_ok.mp h
  obtain ⟨count', body', hcount', hbody', rfl⟩ := decode_eq_ok.mp h'
  obtain ⟨more, hmore⟩ := hle
  have hrest : count' ++ body' = count ++ (body ++ more) := by
    rw [append_assoc, append_assoc] at hmore
    exact (append_cancel_left hmore).symm
  have hread : takeU32 (count' ++ body') "" = .ok (pairs'.length, body') :=
    takeU32_eq_ok.mpr ⟨count', hcount', rfl⟩
  rw [hrest, takeU32_eq_ok.mpr ⟨count, hcount, rfl⟩] at hread
  obtain ⟨hlen, hbodies⟩ := Prod.mk.inj (Except.ok.inj hread)
  have hpairs : takeEntries pairs'.length 0 body' = .ok (pairs', []) :=
    takeEntries_eq_ok.mpr ⟨rfl, body', hbody', (append_nil _).symm⟩
  rw [← hlen, ← hbodies, takeEntries_eq_ok.mpr ⟨rfl, body, hbody, rfl⟩] at hpairs
  rw [(Prod.mk.inj (Except.ok.inj hpairs)).2, append_nil] at hmore
  exact hmore

/-! ## What can be written -/

def Fits (map : SortedMap String String) : Prop :=
  map.entries.length < 2 ^ 32 ∧
    ∀ e ∈ map.entries, (textBytes e.1).length < 2 ^ 32 ∧ (textBytes e.2).length < 2 ^ 32

theorem encodeText_isSome : (encodeText s).isSome ↔ (textBytes s).length < 2 ^ 32 := by
  rw [encodeText, lenU32]
  split <;> rename_i h
  · exact ⟨fun _ => h, fun _ => rfl⟩
  · exact ⟨fun hs => absurd hs nofun, fun hs => absurd hs h⟩

theorem encodeEntries_isSome : (encodeEntries entries).isSome ↔
      ∀ e ∈ entries, (textBytes e.1).length < 2 ^ 32 ∧ (textBytes e.2).length < 2 ^ 32 := by
  induction entries with
  | nil => exact ⟨fun _ _ he => (nomatch he), fun _ => rfl⟩
  | cons e rest ih =>
    rw [forall_mem_cons, ← ih, ← encodeText_isSome, ← encodeText_isSome]
    obtain ⟨k, v⟩ := e
    rw [encodeEntries]
    cases encodeText k <;> cases encodeText v <;> cases encodeEntries rest <;>
      simp [bind_eq_bind]

theorem encode_isSome : (encode entries).isSome ↔ Fits (SortedMap.ofList entries) := by
  rw [Fits, ← encodeEntries_isSome, encode, lenU32]
  by_cases hcount : (SortedMap.ofList entries).entries.length < 2 ^ 32
  · rw [if_pos hcount]
    cases encodeEntries (SortedMap.ofList entries).entries with
    | none => exact ⟨fun h => absurd h nofun, fun h => absurd h.2 nofun⟩
    | some body => exact ⟨fun _ => ⟨hcount, rfl⟩, fun _ => rfl⟩
  · rw [if_neg hcount]
    exact ⟨fun h => absurd h nofun, fun h => absurd h.1 hcount⟩

/-! ## The theorem -/

/-- **The container grammar.**  Bytes are decoded to some entries exactly when they spell them; no
proper beginning and no proper extension of a container is one; and every map whose lengths fit
32 bits is decoded from its encoding, keys ascending, with the last value that was given for a
key. -/
theorem container_grammar : (∀ bytes pairs, decode bytes = .ok pairs ↔ Spells bytes pairs) ∧
    (∀ bytes bytes' pairs pairs', decode bytes = .ok pairs → decode bytes' = .ok pairs' →
      bytes <+: bytes' → bytes = bytes') ∧
    ∀ entries, Fits (SortedMap.ofList entries) → ∃ bytes pairs, encode entries = some bytes ∧
      decode bytes = .ok pairs ∧ (pairs.map Prod.fst).Pairwise (· < ·) ∧ ∀ k v, (k, v) ∈ pairs ↔
        ∃ before after, entries = before ++ (k, v) :: after ∧ ∀ e ∈ after, e.1 ≠ k := by
  refine ⟨fun _ _ => decode_eq_ok, fun _ _ _ _ => decode_prefix, fun entries hfits => ?_⟩
  obtain ⟨bytes, hbytes⟩ := isSome_iff_exists.mp (encode_isSome.mpr hfits)
  refine ⟨bytes, _, hbytes, decode_encode hbytes, (SortedMap.ofList entries).sorted, fun k v => ?_⟩
  rw [mem_entries]
  exact get_ofList_eq_last

/-- Three entries, two of them for one key. -/
theorem container_of_repeated : ∃ bytes, encode [("b", "2"), ("a", "1"), ("b", "3")] = some bytes ∧
    ∃ pairs, decode bytes = .ok pairs ∧ ("b", "3") ∈ pairs := by
  obtain ⟨bytes, pairs, hbytes, hpairs, -, hmem⟩ :=
    container_grammar.2.2 [("b", "2"), ("a", "1"), ("b", "3")]
      ⟨by decide, by decide⟩
  exact ⟨bytes, hbytes, pairs, hpairs,
    (hmem "b" "3").mpr ⟨[("b", "2"), ("a", "1")], [], rfl, nofun⟩⟩

/-- A text of four gibibytes cannot be written. -/
theorem encode_too_long : encode [("", String.ofList (List.replicate (2 ^ 32) 'a'))] = none := by
  have hlen : ∀ n, (textBytes (String.ofList (List.replicate n 'a'))).length = n := by
    intro n
    change (String.ofList (List.replicate n 'a')).utf8ByteSize = n
    rw [String.utf8ByteSize_ofList]
    induction n with
    | zero => rfl
    | succ n ih =>
      rw [replicate_succ, String.utf8Len_cons, ih]
      rfl
  rw [← not_isSome_iff_eq_none, encode_isSome]
  intro h
  have hlong := (h.2 _ (mem_entries.mpr (get_insert_self _ _ _))).2
  rw [hlen] at hlong
  exact lt_irrefl _ hlong

end Sutra.Snapshot
