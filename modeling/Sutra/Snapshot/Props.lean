import Mathlib

/-!
# The Properties text container

Formats 2 to 4 stored a snapshot as Properties lines. The engine keeps only the reader: it accepts
the whole line format — comments, blank lines, continued lines, the three separators and the escapes
— and reads bytes as ISO-8859-1, with `\uXXXX` escapes for UTF-16 code units beyond it.

* `readLines_writeLines`: the writer survives in the source's tests, and is read back.
-/

namespace Sutra.Snapshot.Props

open List

/-! ## Characters -/

def isWs (c : Char) : Bool := c == ' ' || c == '\t' || c == '\x0c'

def utf16Units (c : Char) : List Nat :=
  if c.toNat < 0x10000 then [c.toNat]
  else [0xD800 + (c.toNat - 0x10000) / 0x400, 0xDC00 + (c.toNat - 0x10000) % 0x400]

def ofUtf16 : List Nat → Option (List Char)
  | [] => some []
  | u :: rest =>
    if u < 0xD800 || 0xE000 ≤ u then (ofUtf16 rest).map (Char.ofNat u :: ·)
    else
      match rest with
      | v :: rest =>
        if u < 0xDC00 && 0xDC00 ≤ v && v < 0xE000 then
          (ofUtf16 rest).map (Char.ofNat (0x10000 + (u - 0xD800) * 0x400 + (v - 0xDC00)) :: ·)
        else none
      | [] => none

def hexDigit (c : Char) : Option Nat :=
  if '0' ≤ c && c ≤ '9' then some (c.toNat - '0'.toNat)
  else if 'a' ≤ c && c ≤ 'f' then some (c.toNat - 'a'.toNat + 10)
  else if 'A' ≤ c && c ≤ 'F' then some (c.toNat - 'A'.toNat + 10)
  else none

def malformedUnicode : String := "malformed \\uXXXX encoding"

/-! ## Unescaping -/

/-- The code units of a key or a value with its escapes resolved. -/
def loadUnits : List Char → Except String (List Nat)
  | [] => .ok []
  -- a lone backslash at the end counts for nothing
  | ['\\'] => .ok []
  | '\\' :: 'u' :: a :: b :: c :: d :: rest =>
    match hexDigit a, hexDigit b, hexDigit c, hexDigit d with
    | some a, some b, some c, some d => do
      let units ← loadUnits rest
      .ok ((a * 0x1000 + b * 0x100 + c * 0x10 + d) :: units)
    | _, _, _, _ => .error malformedUnicode
  | '\\' :: esc :: rest =>
    if esc = 'u' then .error malformedUnicode
    else do
      let units ← loadUnits rest
      .ok ((match esc with
        | 't' => [9]
        | 'n' => [10]
        | 'r' => [13]
        | 'f' => [12]
        | other => utf16Units other) ++ units)
  | c :: rest => do
    let units ← loadUnits rest
    .ok (utf16Units c ++ units)

/-- Unescape a key or a value. -/
def loadConvert (chars : List Char) : Except String String := do
  let units ← loadUnits chars
  match ofUtf16 units with
  | some text => .ok (String.ofList text)
  | none => .error "invalid UTF-16 sequence in \\u escapes"

/-! ## Lines -/

def isEol (c : Char) : Bool := c == '\n' || c == '\r'

/-- What follows the end of a natural line. -/
def afterEol : List Char → List Char
  | '\r' :: '\n' :: rest => rest
  | _ :: rest => rest
  | [] => []

def naturalLine (chars : List Char) : List Char × List Char :=
  (chars.takeWhile (!isEol ·), afterEol (chars.dropWhile (!isEol ·)))

def endsWithOddBackslashes (line : List Char) : Bool :=
  (line.reverse.takeWhile (· == '\\')).length % 2 == 1

def continueLine : Nat → (line rest : List Char) → List Char × List Char
  | 0, line, rest => (line, rest)
  | fuel + 1, line, rest =>
    if endsWithOddBackslashes line then
      let (next, rest) := naturalLine rest
      continueLine fuel (line.dropLast ++ next.dropWhile isWs) rest
    else (line, rest)

def splitKey : List Char → List Char × List Char
  | '\\' :: c :: rest =>
    let (key, value) := splitKey rest
    ('\\' :: c :: key, value)
  | c :: rest =>
    if c = '\\' then ([c], [])
    else if c == '=' || c == ':' || isWs c then ([], c :: rest)
    else
      let (key, value) := splitKey rest
      (c :: key, value)
  | [] => ([], [])

def afterSeparator (chars : List Char) : List Char :=
  match chars.dropWhile isWs with
  | '=' :: rest | ':' :: rest => rest.dropWhile isWs
  | rest => rest

def readEntry (line : List Char) : Except String (String × String) := do
  let (key, value) := splitKey line
  let key ← loadConvert key
  let value ← loadConvert (afterSeparator value)
  .ok (key, value)

def readChars : Nat → List Char → Except String (List (String × String))
  | 0, _ => .ok []
  | _ + 1, [] => .ok []
  | fuel + 1, chars =>
    let (natural, rest) := naturalLine chars
    match natural.dropWhile isWs with
    | [] => readChars fuel rest
    | '#' :: _ | '!' :: _ => readChars fuel rest
    | line => do
      let (line, rest) := continueLine (rest.length + 1) line rest
      let entry ← readEntry line
      let entries ← readChars fuel rest
      .ok (entry :: entries)

/-- Parse Properties-format bytes into entries in file order. -/
def readLines (bytes : List UInt8) : Except String (List (String × String)) :=
  readChars bytes.length (bytes.map fun b => Char.ofNat b.toNat)

/-! ## The writer of formats 2 to 4

Kept by the source to build stored inputs: every UTF-16 code unit is spelled on its own, so that a
line is printable ASCII and breaks nowhere. -/

def hexUpper (d : Nat) : Char := if d < 10 then Char.ofNat (0x30 + d) else Char.ofNat (0x37 + d)

def saveUnit (escapeSpace first : Bool) (unit : Nat) : List Char :=
  match unit with
  | 0x5C => ['\\', '\\']
  -- keys escape every space, values only a leading one
  | 0x20 => if first || escapeSpace then ['\\', ' '] else [' ']
  | 0x09 => ['\\', 't']
  | 0x0A => ['\\', 'n']
  | 0x0D => ['\\', 'r']
  | 0x0C => ['\\', 'f']
  | 0x3D => ['\\', '=']
  | 0x3A => ['\\', ':']
  | 0x23 => ['\\', '#']
  | 0x21 => ['\\', '!']
  | unit =>
    if 0x20 ≤ unit && unit ≤ 0x7E then [Char.ofNat unit]
    else ['\\', 'u', hexUpper (unit / 0x1000 % 16), hexUpper (unit / 0x100 % 16),
      hexUpper (unit / 0x10 % 16), hexUpper (unit % 16)]

def saveUnits (escapeSpace : Bool) : (first : Bool) → List Nat → List Char
  | _, [] => []
  | first, unit :: units => saveUnit escapeSpace first unit ++ saveUnits escapeSpace false units

def encodeUtf16 (s : String) : List Nat := s.toList.flatMap utf16Units

def saveConvert (s : String) (escapeSpace : Bool) : List Char :=
  saveUnits escapeSpace true (encodeUtf16 s)

def writeLine (entry : String × String) : List Char :=
  saveConvert entry.1 true ++ '=' :: saveConvert entry.2 false

def writeLines (entries : List (String × String)) : List UInt8 :=
  (((entries.map writeLine).mergeSort fun a b => !decide (b < a)).flatMap (· ++ ['\n'])).flatMap
    String.utf8EncodeChar

/-! ### What one code unit is spelled as -/

def escapes : List (Char × Nat) :=
  [('\\', 0x5C), (' ', 0x20), ('t', 0x09), ('n', 0x0A), ('r', 0x0D), ('f', 0x0C), ('=', 0x3D),
    (':', 0x3A), ('#', 0x23), ('!', 0x21)]

inductive Spelled (escapeSpace first : Bool) : Nat → List Char → Prop
  | plain (c : Char) (low : 0x20 ≤ c.toNat) (high : c.toNat ≤ 0x7E)
      (special : c ∉ ['\\', '=', ':', '#', '!'])
      (space : c = ' ' → (first || escapeSpace) = false) : Spelled escapeSpace first c.toNat [c]
  | escaped (c : Char) (unit : Nat) (mem : (c, unit) ∈ escapes) :
      Spelled escapeSpace first unit ['\\', c]
  | unicode (a b c d : Nat) (ha : a < 16) (hb : b < 16) (hc : c < 16) (hd : d < 16) :
      Spelled escapeSpace first (a * 0x1000 + b * 0x100 + c * 0x10 + d)
        ['\\', 'u', hexUpper a, hexUpper b, hexUpper c, hexUpper d]

theorem spelled_saveUnit (escapeSpace first : Bool) (unit : Nat) (h : unit < 0x10000) :
    Spelled escapeSpace first unit (saveUnit escapeSpace first unit) := by
  have hplain : ∀ u < 0x7F, 0x20 ≤ u → u ∉ [0x5C, 0x20, 0x3D, 0x3A, 0x23, 0x21] →
      (Char.ofNat u).toNat = u ∧ Char.ofNat u ∉ ['\\', '=', ':', '#', '!', ' '] := by
    decide
  rw [saveUnit.eq_def]
  split
  case h_2 =>
    split
    · exact .escaped _ _ (by decide)
    · exact .plain ' ' (by decide) (by decide) (by decide) fun _ => by simp_all
  case h_11 =>
    split
    case isTrue hrange =>
      simp only [Bool.and_eq_true, decide_eq_true_eq] at hrange
      obtain ⟨hunit, hspecial⟩ := hplain unit (by omega) hrange.1 (by simp_all)
      have := @Spelled.plain escapeSpace first (Char.ofNat unit) (by omega) (by omega)
        (by simp_all) (by simp_all)
      rwa [hunit] at this
    case isFalse =>
      have hdigits : unit = unit / 0x1000 % 16 * 0x1000 + unit / 0x100 % 16 * 0x100
        + unit / 0x10 % 16 * 0x10 + unit % 16 := by omega
      have := @Spelled.unicode escapeSpace first (unit / 0x1000 % 16) (unit / 0x100 % 16)
        (unit / 0x10 % 16) (unit % 16) (by omega) (by omega) (by omega) (by omega)
      rwa [← hdigits] at this
  all_goals exact .escaped _ _ (by decide)

section Spelled

variable {escapeSpace first : Bool} {unit : Nat} {c : Char} {cs : List Char}

theorem hexUpper_facts : ∀ d < 16, hexDigit (hexUpper d) = some d ∧
    0x20 ≤ (hexUpper d).toNat ∧ (hexUpper d).toNat ≤ 0x7E ∧ hexUpper d ≠ '\\' := by
  decide

theorem Spelled.loadUnits (h : Spelled escapeSpace first unit cs) (rest : List Char) :
    loadUnits (cs ++ rest) = (loadUnits rest).map (unit :: ·) := by
  cases h with
  | plain c low high special space =>
    have hc : c ≠ '\\' := by rintro rfl; simp at special
    have hu : utf16Units c = [c.toNat] := by rw [utf16Units, if_pos (by omega)]
    cases hrest : Props.loadUnits rest <;>
      simp [Props.loadUnits, hc, hu, hrest, Except.map, Bind.bind, Except.bind]
  | escaped c unit mem =>
    simp only [escapes, mem_cons, Prod.mk.injEq, not_mem_nil, or_false] at mem
    cases hrest : Props.loadUnits rest <;>
      obtain ⟨rfl, rfl⟩ | ⟨rfl, rfl⟩ | ⟨rfl, rfl⟩ | ⟨rfl, rfl⟩ | ⟨rfl, rfl⟩ | ⟨rfl, rfl⟩ |
        ⟨rfl, rfl⟩ | ⟨rfl, rfl⟩ | ⟨rfl, rfl⟩ | ⟨rfl, rfl⟩ := mem <;>
      simp [Props.loadUnits, utf16Units, hrest, Except.map, Bind.bind, Except.bind]
  | unicode a b c d ha hb hc hd =>
    simp only [cons_append, nil_append, Props.loadUnits, (hexUpper_facts _ ha).1,
      (hexUpper_facts _ hb).1, (hexUpper_facts _ hc).1, (hexUpper_facts _ hd).1]
    cases Props.loadUnits rest <;> rfl

theorem Spelled.printable (h : Spelled escapeSpace first unit cs) :
    ∀ c ∈ cs, 0x20 ≤ c.toNat ∧ c.toNat ≤ 0x7E := by
  cases h with
  | plain c low high => simpa using ⟨low, high⟩
  | escaped c unit mem =>
    have hall : ∀ e ∈ escapes, 0x20 ≤ e.1.toNat ∧ e.1.toNat ≤ 0x7E := by decide
    simpa using hall _ mem
  | unicode a b c d ha hb hc hd =>
    have hex := fun d hd => (hexUpper_facts d hd).2
    simp [(hex _ ha).1, (hex _ ha).2.1, (hex _ hb).1, (hex _ hb).2.1, (hex _ hc).1,
      (hex _ hc).2.1, (hex _ hd).1, (hex _ hd).2.1]

theorem splitKey_cons (h : c ∉ ['\\', '=', ':', ' ', '\t', '\x0c']) (rest : List Char) :
    splitKey (c :: rest) = (c :: (splitKey rest).1, (splitKey rest).2) := by
  simp only [mem_cons, not_mem_nil, or_false, not_or] at h
  simp [splitKey, isWs, h]

theorem Spelled.plain_ne (low : 0x20 ≤ c.toNat) : c ≠ '\t' ∧ c ≠ '\x0c' :=
  ⟨by rintro rfl; simp at low, by rintro rfl; simp at low⟩

theorem Spelled.splitKey (h : Spelled true first unit cs) (rest : List Char) :
    splitKey (cs ++ rest) = (cs ++ (splitKey rest).1, (splitKey rest).2) := by
  cases h with
  | plain c low high special space =>
    have hws := plain_ne low
    have hspace : c ≠ ' ' := fun h => by simpa using space h
    exact splitKey_cons (by simp_all) rest
  | escaped c unit mem => simp [Props.splitKey]
  | unicode a b c d ha hb hc hd =>
    have hex : ∀ d < 16, hexUpper d ∉ ['\\', '=', ':', ' ', '\t', '\x0c'] := by decide
    simp [Props.splitKey, splitKey_cons (hex _ ha), splitKey_cons (hex _ hb),
      splitKey_cons (hex _ hc), splitKey_cons (hex _ hd)]

/-- The first spelling of a text starts neither with whitespace nor with a comment sign. -/
theorem Spelled.head (h : Spelled escapeSpace true unit cs) :
    ∃ c rest, cs = c :: rest ∧ isWs c = false ∧ c ≠ '#' ∧ c ≠ '!' := by
  cases h with
  | plain c low high special space =>
    have hspace : c ≠ ' ' := fun h => by simpa using space h
    obtain ⟨htab, hfeed⟩ := plain_ne low
    simp only [mem_cons, not_mem_nil, or_false, not_or] at special
    exact ⟨c, [], rfl, by simp [isWs, hspace, htab, hfeed], special.2.2.2⟩
  | escaped c => exact ⟨'\\', [c], rfl, by decide⟩
  | unicode => exact ⟨'\\', _, rfl, by decide⟩

theorem endsWithOddBackslashes_concat (h : c ≠ '\\') (line : List Char) :
    endsWithOddBackslashes (line ++ [c]) = false := by
  simp [endsWithOddBackslashes, h]

theorem Spelled.closed (h : Spelled escapeSpace first unit cs) {line : List Char}
    (hline : endsWithOddBackslashes line = false) :
    endsWithOddBackslashes (line ++ cs) = false := by
  cases h with
  | plain c low high special space =>
    exact endsWithOddBackslashes_concat (by rintro rfl; simp at special) line
  | escaped c unit mem =>
    by_cases hc : c = '\\'
    · subst hc
      simp only [endsWithOddBackslashes, beq_eq_false_iff_ne] at hline
      simp [endsWithOddBackslashes]
      omega
    · simpa using endsWithOddBackslashes_concat hc (line ++ ['\\'])
  | unicode a b c d ha hb hc hd =>
    simpa using endsWithOddBackslashes_concat (hexUpper_facts d hd).2.2.2
      (line ++ ['\\', 'u', hexUpper a, hexUpper b, hexUpper c])

end Spelled

/-! ### Whole texts -/

section Text

variable {units : List Nat} (hunits : ∀ u ∈ units, u < 0x10000)

include hunits

variable (escapeSpace first : Bool)

theorem loadUnits_saveUnits : loadUnits (saveUnits escapeSpace first units) = .ok units := by
  induction units generalizing first with
  | nil => rfl
  | cons u units ih =>
    rw [forall_mem_cons] at hunits
    rw [saveUnits, (spelled_saveUnit _ _ u hunits.1).loadUnits, ih hunits.2]
    rfl

theorem printable_saveUnits :
    ∀ c ∈ saveUnits escapeSpace first units, 0x20 ≤ c.toNat ∧ c.toNat ≤ 0x7E := by
  induction units generalizing first with
  | nil => simp [saveUnits]
  | cons u units ih =>
    rw [forall_mem_cons] at hunits
    rw [saveUnits, forall_mem_append]
    exact ⟨(spelled_saveUnit _ _ u hunits.1).printable, ih hunits.2 _⟩

theorem splitKey_saveUnits (first : Bool) (value : List Char) :
    splitKey (saveUnits true first units ++ '=' :: value)
      = (saveUnits true first units, '=' :: value) := by
  induction units generalizing first with
  | nil => simp [saveUnits, splitKey]
  | cons u units ih =>
    rw [forall_mem_cons] at hunits
    rw [saveUnits, append_assoc, (spelled_saveUnit _ _ u hunits.1).splitKey, ih hunits.2]

theorem closed_saveUnits {line : List Char} (hline : endsWithOddBackslashes line = false) :
    endsWithOddBackslashes (line ++ saveUnits escapeSpace first units) = false := by
  induction units generalizing first line with
  | nil => simpa [saveUnits] using hline
  | cons u units ih =>
    rw [forall_mem_cons] at hunits
    rw [saveUnits, ← append_assoc]
    exact ih hunits.2 _ ((spelled_saveUnit _ _ u hunits.1).closed hline)

theorem saveUnits_head (escapeSpace : Bool) :
    units = [] ∨ ∃ c rest, saveUnits escapeSpace true units = c :: rest ∧ isWs c = false ∧
      c ≠ '#' ∧ c ≠ '!' := by
  cases units with
  | nil => exact .inl rfl
  | cons u units =>
    obtain ⟨c, rest, hcs, hc⟩ := (spelled_saveUnit escapeSpace true u (hunits u (by simp))).head
    exact .inr ⟨c, rest ++ saveUnits escapeSpace false units, by rw [saveUnits, hcs]; rfl, hc⟩

end Text

/-! ### UTF-16 -/

theorem toNat_lt_or (c : Char) : c.toNat < 0xD800 ∨ 0xE000 ≤ c.toNat ∧ c.toNat < 0x110000 := by
  have := c.valid
  simp only [UInt32.isValidChar, Nat.isValidChar] at this
  simp only [Char.toNat]
  omega

theorem utf16Units_lt (c : Char) : ∀ u ∈ utf16Units c, u < 0x10000 := by
  have := toNat_lt_or c
  simp only [utf16Units]
  split
  · simpa using ‹_›
  · simp
    omega

theorem encodeUtf16_lt (s : String) : ∀ u ∈ encodeUtf16 s, u < 0x10000 := by
  intro u hu
  obtain ⟨c, -, hc⟩ := mem_flatMap.mp hu
  exact utf16Units_lt c u hc

theorem ofUtf16_units (c : Char) (rest : List Nat) :
    ofUtf16 (utf16Units c ++ rest) = (ofUtf16 rest).map (c :: ·) := by
  have hc := toNat_lt_or c
  rw [utf16Units]
  split
  · rw [singleton_append, ofUtf16.eq_def]
    dsimp only
    rw [if_pos (by simp; omega), Char.ofNat_toNat]
  · have hpair : 0x10000 + (0xD800 + (c.toNat - 0x10000) / 0x400 - 0xD800) * 0x400
        + (0xDC00 + (c.toNat - 0x10000) % 0x400 - 0xDC00) = c.toNat := by omega
    rw [cons_append, singleton_append, ofUtf16.eq_def]
    dsimp only
    rw [if_neg (by simp; omega), if_pos (by simp; omega), hpair, Char.ofNat_toNat]

theorem ofUtf16_encodeUtf16 (s : String) : ofUtf16 (encodeUtf16 s) = some s.toList := by
  rw [encodeUtf16]
  induction s.toList with
  | nil => rfl
  | cons c cs ih => rw [flatMap_cons, ofUtf16_units, ih]; rfl

theorem loadConvert_saveConvert (s : String) (escapeSpace : Bool) :
    loadConvert (saveConvert s escapeSpace) = .ok s := by
  rw [loadConvert, saveConvert, loadUnits_saveUnits (encodeUtf16_lt s)]
  simp [Bind.bind, Except.bind, ofUtf16_encodeUtf16]

/-! ### Lines -/

variable (entry : String × String)

theorem readEntry_writeLine : readEntry (writeLine entry) = .ok entry := by
  obtain ⟨k, v⟩ := entry
  have hvalue : afterSeparator ('=' :: saveConvert v false) = saveConvert v false := by
    have hdrop : (saveConvert v false).dropWhile isWs = saveConvert v false := by
      rcases saveUnits_head (encodeUtf16_lt v) false with hnil | ⟨c, rest, hcs, hc, -⟩
      · rw [saveConvert, hnil]; rfl
      · rw [saveConvert, hcs, dropWhile_cons_of_neg (by simp [hc])]
    simp [afterSeparator, isWs, hdrop]
  have hkey : splitKey (writeLine (k, v)) = (saveConvert k true, '=' :: saveConvert v false) :=
    splitKey_saveUnits (encodeUtf16_lt k) true _
  rw [readEntry, hkey]
  simp only [hvalue, loadConvert_saveConvert]
  rfl

theorem printable_writeLine : ∀ c ∈ writeLine entry, 0x20 ≤ c.toNat ∧ c.toNat ≤ 0x7E := by
  rw [writeLine, forall_mem_append, forall_mem_cons]
  exact ⟨printable_saveUnits (encodeUtf16_lt _) _ _, by decide,
    printable_saveUnits (encodeUtf16_lt _) _ _⟩

theorem writeLine_head :
    ∃ c rest, writeLine entry = c :: rest ∧ isWs c = false ∧ c ≠ '#' ∧ c ≠ '!' := by
  rcases saveUnits_head (encodeUtf16_lt entry.1) true with hnil | ⟨c, rest, hcs, hc⟩
  · refine ⟨'=', saveConvert entry.2 false, ?_, by decide⟩
    rw [writeLine, saveConvert, hnil]
    rfl
  · refine ⟨c, rest ++ '=' :: saveConvert entry.2 false, ?_, hc⟩
    rw [writeLine, saveConvert, hcs]
    rfl

theorem closed_writeLine : endsWithOddBackslashes (writeLine entry) = false := by
  have hkey := endsWithOddBackslashes_concat (c := '=') (by decide) (saveConvert entry.1 true)
  have := closed_saveUnits (encodeUtf16_lt entry.2) false true hkey
  simpa [writeLine, saveConvert] using this

theorem readChars_writeLine (fuel : Nat) (entry : String × String) (rest : List Char) :
    readChars (fuel + 1) (writeLine entry ++ '\n' :: rest)
      = (readChars fuel rest).map (entry :: ·) := by
  have hplain : ∀ c ∈ writeLine entry, (!isEol c) := by
    intro c hc
    have := (printable_writeLine entry c hc).1
    have hfeed : c ≠ '\n' := by rintro rfl; simp at this
    have hreturn : c ≠ '\r' := by rintro rfl; simp at this
    simp [isEol, hfeed, hreturn]
  have hnatural : naturalLine (writeLine entry ++ '\n' :: rest) = (writeLine entry, rest) := by
    rw [naturalLine, takeWhile_append_of_pos hplain, dropWhile_append_of_pos hplain]
    simp [isEol, afterEol]
  obtain ⟨c, tail, hline, hws, hhash, hbang⟩ := writeLine_head entry
  have hentry := readEntry_writeLine entry
  have hclosed := closed_writeLine entry
  rw [hline] at hnatural hentry hclosed ⊢
  rw [readChars.eq_def]
  simp only [cons_append] at hnatural ⊢
  simp only [hnatural, dropWhile_cons_of_neg (by simp [hws] : ¬ isWs c)]
  split
  · simp_all
  · simp_all
  · simp_all
  · rw [continueLine, if_neg (by simp [hclosed])]
    simp only [hentry]
    cases readChars fuel rest <;> rfl

variable (entries : List (String × String))

theorem readChars_lines (fuel : Nat) (hfuel : entries.length ≤ fuel) :
    readChars fuel ((entries.map writeLine).flatMap (· ++ ['\n'])) = .ok entries := by
  induction entries generalizing fuel with
  | nil => cases fuel <;> rfl
  | cons entry entries ih =>
    obtain _ | fuel := fuel
    · simp at hfuel
    rw [List.map_cons, flatMap_cons, append_assoc, singleton_append,
      readChars_writeLine, ih fuel (by simpa using hfuel)]
    rfl

theorem length_le_lines :
    entries.length ≤ ((entries.map writeLine).flatMap (· ++ ['\n'])).length := by
  induction entries with
  | nil => simp
  | cons entry entries ih =>
    simp only [List.map_cons, flatMap_cons, length_append, length_cons]
    omega

theorem decoded_ascii {chars : List Char} (h : ∀ c ∈ chars, c.toNat ≤ 0x7F) :
    (chars.flatMap String.utf8EncodeChar).map (fun b => Char.ofNat b.toNat) = chars := by
  induction chars with
  | nil => rfl
  | cons c cs ih =>
    rw [forall_mem_cons] at h
    have hval : c.val.toNat ≤ 0x7F := h.1
    have hsize : c.utf8Size = 1 := by
      rw [Char.utf8Size, if_pos (UInt32.le_iff_toNat_le.mpr hval)]
    have hbyte : c.val.toUInt8.toNat = c.toNat := by
      simp only [UInt32.toNat_toUInt8, Char.toNat]
      omega
    rw [flatMap_cons, String.utf8EncodeChar_eq_singleton hsize, map_append, ih h.2,
      map_singleton, hbyte, Char.ofNat_toNat, singleton_append]

theorem ascii_lines : ∀ c ∈ (entries.map writeLine).flatMap (· ++ ['\n']), c.toNat ≤ 0x7F := by
  intro c hc
  obtain ⟨line, hline, hc⟩ := mem_flatMap.mp hc
  obtain ⟨entry, -, rfl⟩ := mem_map.mp hline
  rcases mem_append.mp hc with hc | hc
  · have := printable_writeLine entry c hc
    omega
  · obtain rfl : c = '\n' := by simpa using hc
    decide

/-- **The text reader loses nothing.**  Whatever the entries, reading the bytes the writer of
formats 2 to 4 makes of them gives exactly these entries, in the order of their lines. -/
theorem readLines_writeLines (entries : List (String × String)) :
    ∃ out, readLines (writeLines entries) = .ok out ∧ out.Perm entries := by
  have hlines : List.Forall₂ (fun line entry => line = writeLine entry)
      (entries.map writeLine) entries := by
    simp [forall₂_map_left_iff]
  -- the sorted lines are the lines of the entries in some order
  obtain ⟨out, hout, hperm⟩ := perm_comp_forall₂
    (mergeSort_perm (entries.map writeLine) fun a b => !decide (b < a)) hlines
  refine ⟨out, ?_, hperm⟩
  rw [← forall₂_map_right_iff, forall₂_eq_eq_eq] at hout
  rw [readLines, writeLines, hout]
  have hdecoded := decoded_ascii (ascii_lines out)
  have hlength := congrArg List.length hdecoded
  rw [length_map] at hlength
  rw [hdecoded, hlength]
  exact readChars_lines out _ (length_le_lines out)

end Sutra.Snapshot.Props
