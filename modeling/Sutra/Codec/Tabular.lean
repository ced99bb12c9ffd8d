import Mathlib
import Sutra.Lib.Prog
import Sutra.Snapshot.Value

/-!
# Tables as text

The `csv` and the `fixed-width` format write a list of flat rows as lines of text and read it back
as rows of strings. A cell of `csv` is quoted when it has a separator in it. A cell of
`fixed-width` is padded and never quoted, and a blank line is no record, so some rows are split or
lost there. A body is the characters of its text, which UTF-8 keeps.

* `parseRows_flatMap`, `csv_decode`: the rows of a `csv` text.
* `pieces_flatMap`: the records of a `fixed-width` text, line by line.
* `tables_round_trip`: `csv` always comes back; `fixed-width` exactly if each row survives.
-/

namespace Sutra.Tabular

open List Snapshot SortedMap

/-- The text of a cell; a nested value has none. -/
def canonicalText : Json → Option String
  | .null => some ""
  | .string s => some s
  | .number n => some n
  | .bool b => some (toString b)
  | .array _ | .object _ => none

/-- The row list inside the three shapes that both formats accept. -/
def rowsOf : Json → Option (List Json)
  | .array rows => some rows
  | .object map =>
    match (ofList map).get "value" with
    | some (.array rows) => some rows
    | _ => some [.object map]
  | _ => none

/-- The value of a field, `null` when it is missing. -/
def field (name : String) : Json → Json
  | .object map => ((ofList map).get name).getD .null
  | _ => .null

def orRefuse {α : Type} (message : String) : Option α → Except String α
  | some x => .ok x
  | none => .error message

/-! ## Comma separated values -/

structure CsvCodec where
  delimiter : Char
  hasHeader : Bool

/-- One cell; it is quoted when it has the delimiter, a quote or an end of line in it. -/
def writeCell (d : Char) (cell : String) : List Char :=
  if d ∈ cell.toList ∨ '"' ∈ cell.toList ∨ '\n' ∈ cell.toList ∨ '\r' ∈ cell.toList then
    '"' :: (cell.toList.flatMap fun c => if c = '"' then ['"', '"'] else [c]) ++ ['"']
  else cell.toList

def writeRow (d : Char) : List String → List Char
  | [] => ['\n']
  | [cell] => writeCell d cell ++ ['\n']
  | cell :: cells => writeCell d cell ++ d :: writeRow d cells

/-- The header: the union of the keys of all rows, in order. -/
def headerOf (rows : List Json) : Except String (List String) := do
  let keys ← rows.mapM fun
    | .object map => .ok (map.map Prod.fst)
    | _ => .error "format 'csv' with a header encodes rows as name→scalar objects"
  return (ofList (keys.flatten.map (·, ()))).entries.map Prod.fst

def csvText (v : Json) : Except String String :=
  orRefuse "format 'csv' cannot encode a nested value in a cell — csv rows are flat"
    (canonicalText v)

/-- The cells that are written, the header first. -/
def CsvCodec.cells (c : CsvCodec) (rows : List Json) : Except String (List (List String)) :=
  if c.hasHeader then do
    let columns ← headerOf rows
    let lines ← rows.mapM fun row => columns.mapM fun name => csvText (field name row)
    return columns :: lines
  else rows.mapM fun
    | .array cells => cells.mapM csvText
    | _ => .error "format 'csv' without a header encodes rows as arrays of cells"

def CsvCodec.encode (c : CsvCodec) (tree : Json) : Except String (List Char) := do
  let rows ← orRefuse "format 'csv' encodes rows (an array, or one row object), not a scalar"
    (rowsOf tree)
  if rows.isEmpty then return []
  return (← c.cells rows).flatMap (writeRow c.delimiter)

/-- The rows of a text: whether it is inside quotes, and what it has of the field and of the row. -/
def scan (d : Char) : List Char → Bool → List Char → List String → List (List String)
  | [], _, field, row =>
    if field ≠ [] ∨ row ≠ [] then [row ++ [String.ofList field]] else []
  | '"' :: '"' :: rest, true, field, row => scan d rest true (field ++ ['"']) row
  | '\r' :: '\n' :: rest, false, field, row =>
    if '\r' = d then scan d ('\n' :: rest) false [] (row ++ [String.ofList field])
    else (row ++ [String.ofList field]) :: scan d rest false [] []
  | ch :: rest, true, field, row =>
    if ch = '"' then scan d rest false field row else scan d rest true (field ++ [ch]) row
  | ch :: rest, false, field, row =>
    if ch = '"' then scan d rest true field row
    else if ch = d then scan d rest false [] (row ++ [String.ofList field])
    else if ch = '\n' ∨ ch = '\r' then (row ++ [String.ofList field]) :: scan d rest false [] []
    else scan d rest false (field ++ [ch]) row

def parseRows (text : List Char) (d : Char) : List (List String) := scan d text false [] []

/-- The fields of a row; a cell that is not there is empty. -/
def fields : List String → List String → List (String × Json)
  | [], _ => []
  | name :: header, cells => (name, .string (cells.head?.getD "")) :: fields header cells.tail

def CsvCodec.decode (c : CsvCodec) (body : List Char) : Except String Json :=
  if body.isEmpty then .error "CSV parse failed: empty document"
  else match parseRows body c.delimiter with
    | [] => .error "CSV parse failed: no rows"
    | header :: rows =>
      .ok (.array (if c.hasHeader then
          rows.map fun cells => .object (ofList (fields header cells)).entries
        else (header :: rows).map fun cells => .array (cells.map .string)))

/-! ## Fixed columns -/

structure FixedWidthField where
  name : String
  width : Nat

/-- A layout that `new` accepts. -/
structure FixedWidthCodec where
  layout : List FixedWidthField
  nonempty : layout ≠ []
  named : ∀ f ∈ layout, Text.isBlank f.name = false ∧ 0 < f.width
  distinct : (layout.map (·.name)).Nodup

/-- The column of a row: the text padded with blanks, unless it is too long. -/
def FixedWidthField.column (f : FixedWidthField) (row : Json) : Except String (List Char) := do
  let text ← orRefuse (s!"format 'fixed-width' cannot encode a nested value in field '{f.name}' — "
    ++ "records are flat") (canonicalText (field f.name row))
  if f.width < text.length then
    .error (s!"format 'fixed-width' field '{f.name}' holds {text.length} characters but its column "
      ++ s!"is {f.width} wide — truncating would shift every column after it")
  else return text.toList ++ replicate (f.width - text.length) ' '

def FixedWidthCodec.line (c : FixedWidthCodec) : Json → Except String (List Char)
  | .object map => do return (← c.layout.mapM fun f => f.column (.object map)).flatten
  | _ => .error "format 'fixed-width' encodes records as name→scalar objects"

def FixedWidthCodec.encode (c : FixedWidthCodec) (tree : Json) : Except String (List Char) := do
  let rows ← orRefuse
    "format 'fixed-width' encodes records (an array, or one record object), not a scalar"
    (rowsOf tree)
  return (← rows.mapM c.line).flatMap (· ++ ['\n'])

def splitLines : List Char → List (List Char)
  | [] => [[]]
  | '\r' :: '\n' :: rest => [] :: splitLines rest
  | c :: rest =>
    if c = '\r' ∨ c = '\n' then [] :: splitLines rest
    else match splitLines rest with
      | [] => [[c]]
      | line :: lines => (c :: line) :: lines

/-- The fields of a line; the columns begin where the ones before them end. -/
def record : List FixedWidthField → List Char → List (String × Json)
  | [], _ => []
  | f :: fs, line =>
    (f.name, .string (String.ofList (Text.trimChars (line.take f.width)))) ::
      record fs (line.drop f.width)

def FixedWidthCodec.decode (c : FixedWidthCodec) (body : List Char) : Except String Json :=
  if body.isEmpty then .error "fixed-width parse failed: empty document"
  else
    let out := ((splitLines body).filter fun line => !line.all Text.isSpace).map fun line =>
      Json.object (ofList (record c.layout line)).entries
    if out.isEmpty then .error "fixed-width parse failed: no records" else .ok (.array out)

/-! ## The text of a row is read back -/

variable {d : Char} {rest : List Char} {row : List String}

theorem scan_true {c : Char} (hc : c ≠ '"') (field : List Char) :
    scan d (c :: rest) true field row = scan d rest true (field ++ [c]) row := by
  rw [scan.eq_def]
  grind

theorem scan_false {c : Char} (hquote : c ≠ '"') (hd : c ≠ d) (hlf : c ≠ '\n') (hcr : c ≠ '\r')
    (field : List Char) :
    scan d (c :: rest) false field row = scan d rest false (field ++ [c]) row := by
  rw [scan.eq_def]
  grind

theorem scan_quoted (cs field : List Char) :
    scan d ((cs.flatMap fun c => if c = '"' then ['"', '"'] else [c]) ++ rest) true field row =
      scan d rest true (field ++ cs) row := by
  induction cs generalizing field with
  | nil => simp
  | cons c cs ih =>
    rw [flatMap_cons, append_assoc]
    split
    · rename_i hc
      rw [hc]
      exact (ih _).trans (by rw [append_assoc]; rfl)
    · rename_i hc
      exact (scan_true hc _).trans ((ih _).trans (by rw [append_assoc]; rfl))

theorem scan_plain {cs : List Char} (h : ∀ c ∈ cs, c ≠ '"' ∧ c ≠ d ∧ c ≠ '\n' ∧ c ≠ '\r')
    (field : List Char) :
    scan d (cs ++ rest) false field row = scan d rest false (field ++ cs) row := by
  induction cs generalizing field with
  | nil => simp
  | cons c cs ih =>
    obtain ⟨hquote, hd, hlf, hcr⟩ := h c (.head _)
    refine (scan_false hquote hd hlf hcr field).trans ?_
    exact (ih (fun c hc => h c (.tail _ hc)) _).trans (by rw [append_assoc]; rfl)

/-- What a delimiter can be. -/
def Delimits (d : Char) : Prop := d ≠ '"' ∧ d ≠ '\n' ∧ d ≠ '\r'

theorem scan_writeCell {c : Char} (hc : c ≠ '"') (cell : String) :
    scan d (writeCell d cell ++ c :: rest) false [] row =
      scan d (c :: rest) false cell.toList row := by
  rw [writeCell]
  split
  · rw [cons_append, cons_append, append_assoc]
    have hopen : ∀ cs, scan d ('"' :: cs) false [] row = scan d cs true [] row := fun cs => by
      rw [scan.eq_def]
      simp
    have hclose : scan d ('"' :: c :: rest) true cell.toList row =
        scan d (c :: rest) false cell.toList row := by
      rw [scan.eq_def]
      grind
    exact (hopen _).trans ((scan_quoted _ _).trans hclose)
  · rename_i hplain
    simp only [not_or] at hplain
    have hne : ∀ c ∈ cell.toList, ∀ b ∉ cell.toList, c ≠ b := fun c hc b hb heq => hb (heq ▸ hc)
    exact scan_plain (fun c hc => ⟨hne c hc _ hplain.2.1, hne c hc _ hplain.1,
      hne c hc _ hplain.2.2.1, hne c hc _ hplain.2.2.2⟩) []

/-- **A row is read back**; a row of no cells as an empty cell. -/
theorem scan_writeRow (hd : Delimits d) (cells row : List String) :
    scan d (writeRow d cells ++ rest) false [] row =
      (row ++ if cells = [] then [""] else cells) :: scan d rest false [] [] := by
  have hend : ∀ (field : List Char) (row : List String), scan d ('\n' :: rest) false field row =
      (row ++ [String.ofList field]) :: scan d rest false [] [] := fun field row => by
    rw [scan.eq_def]
    simp [hd.2.1.symm]
  induction cells generalizing row with
  | nil => exact hend [] row
  | cons cell cells ih =>
    cases cells with
    | nil =>
      rw [writeRow, append_assoc]
      refine (scan_writeCell (by decide) cell).trans ((hend _ _).trans ?_)
      rw [String.ofList_toList]
      rfl
    | cons next cells =>
      rw [writeRow, append_assoc, cons_append, scan_writeCell hd.1 cell]
      have hsep : ∀ cs, scan d (d :: cs) false cell.toList row =
          scan d cs false [] (row ++ [cell]) := fun cs => by
        rw [scan.eq_def]
        grind [Delimits, String.ofList_toList]
      rw [hsep, ih, append_assoc]
      rfl
      exact nofun

theorem parseRows_flatMap (hd : Delimits d) (table : List (List String)) :
    parseRows (table.flatMap (writeRow d)) d =
      table.map fun cells => if cells = [] then [""] else cells := by
  induction table with
  | nil => rfl
  | cons cells table ih =>
    rw [flatMap_cons, parseRows, scan_writeRow hd]
    exact congrArg _ ih

/-- The lines of a text that are records: those that are not blank. -/
def pieces (cs : List Char) : List (List Char) :=
  (splitLines cs).filter fun line => !line.all Text.isSpace

theorem splitLines_cons {c : Char} (hcr : c ≠ '\r') (hlf : c ≠ '\n') {cs line : List Char}
    {lines : List (List Char)} (h : splitLines cs = line :: lines) :
    splitLines (c :: cs) = (c :: line) :: lines := by
  rw [splitLines, if_neg (not_or.mpr ⟨hcr, hlf⟩), h]
  exact fun _ h _ => hcr h

theorem splitLines_of_notMem {line : List Char} (hlf : '\n' ∉ line) (hcr : '\r' ∉ line) :
    splitLines line = [line] := by
  induction line with
  | nil => rfl
  | cons c line ih =>
    rw [mem_cons, not_or] at hlf hcr
    exact splitLines_cons (Ne.symm hcr.1) (Ne.symm hlf.1) (ih hlf.2 hcr.2)

/-- A line feed after a text ends its last line; with a carriage return before it, it is one end. -/
theorem splitLines_append (cs rest : List Char) : ∃ line lines lines',
    splitLines cs = line :: lines ∧ splitLines (cs ++ '\n' :: rest) = line :: lines' ∧
      lines'.filter (fun line => !line.all Text.isSpace) =
        lines.filter (fun line => !line.all Text.isSpace) ++ pieces rest := by
  fun_induction splitLines cs with
  | case1 => exact ⟨[], [], _, rfl, rfl, rfl⟩
  | case2 cs ih =>
    obtain ⟨line, lines, lines', hcs, hrest, hfilter⟩ := ih
    refine ⟨[], line :: lines, line :: lines', by rw [hcs], ?_, ?_⟩
    · exact congrArg ([] :: ·) hrest
    · rw [filter_cons, filter_cons]
      split <;> rw [hfilter]
      rfl
  | case3 c cs hne hend ih =>
    obtain ⟨line, lines, lines', hcs, hrest, hfilter⟩ := ih
    by_cases hlone : c = '\r' ∧ cs = []
    · obtain ⟨rfl, rfl⟩ := hlone
      exact ⟨[], [[]], splitLines rest, rfl, rfl, rfl⟩
    · have hsplit : splitLines (c :: (cs ++ '\n' :: rest)) = [] :: line :: lines' := by
        rw [splitLines, if_pos hend, hrest]
        intro tail hc htail
        cases cs with
        | nil => exact hlone ⟨hc, rfl⟩
        | cons c' cs =>
          cases htail
          exact hne cs hc rfl
      refine ⟨[], line :: lines, line :: lines', by rw [hcs], hsplit, ?_⟩
      rw [filter_cons, filter_cons]
      split <;> rw [hfilter]
      rfl
  | case4 c cs hne hend hnil ih =>
    obtain ⟨line, lines, lines', hcs, -⟩ := ih
    cases hnil.symm.trans hcs
  | case5 c cs hne hend line lines hcs ih =>
    obtain ⟨line', lines₀, lines', hcs', hrest, hfilter⟩ := ih
    cases hcs.symm.trans hcs'
    obtain ⟨hcr, hlf⟩ := not_or.mp hend
    exact ⟨c :: line, lines, lines', rfl, splitLines_cons hcr hlf hrest, hfilter⟩

theorem pieces_append (cs rest : List Char) :
    pieces (cs ++ '\n' :: rest) = pieces cs ++ pieces rest := by
  obtain ⟨line, lines, lines', hcs, hrest, hfilter⟩ := splitLines_append cs rest
  rw [pieces, pieces, hcs, hrest, filter_cons, filter_cons]
  split <;> rw [hfilter]
  rfl

/-- **The records of a text are those of its lines.** -/
theorem pieces_flatMap (lines : List (List Char)) :
    pieces (lines.flatMap (· ++ ['\n'])) = lines.flatMap pieces := by
  induction lines with
  | nil => rfl
  | cons line lines ih =>
    rw [flatMap_cons, append_assoc, singleton_append, pieces_append, ih, flatMap_cons]

theorem length_le_of_mem_splitLines {cs line : List Char} (h : line ∈ splitLines cs) :
    line.length ≤ cs.length := by
  fun_induction splitLines cs generalizing line with
  | case1 => rw [mem_singleton.mp h]
  | case2 cs ih | case3 c cs hne hend ih =>
    rcases mem_cons.mp h with rfl | h
    · exact Nat.zero_le _
    · have := ih h
      simp only [length_cons]
      omega
  | case4 c cs hne hend hnil ih => simp_all
  | case5 c cs hne hend first lines hcs ih =>
    rcases mem_cons.mp h with rfl | h
    · exact Nat.succ_le_succ (ih (hcs ▸ mem_cons_self))
    · exact Nat.le_succ_of_le (ih (hcs ▸ mem_cons_of_mem _ h))

theorem trimChars_eq_nil_iff {cs : List Char} :
    Text.trimChars cs = [] ↔ ∀ c ∈ cs, Text.isSpace c = true := by
  rw [Text.trimChars_eq, rdropWhile_eq_nil_iff, ← dropWhile_eq_nil_iff, dropWhile_idempotent,
    dropWhile_eq_nil_iff]

theorem ne_of_not_space {c : Char} (h : Text.isSpace c = false) : c ≠ ' ' := by
  rintro rfl
  cases h

theorem exists_mem_splitLines {cs : List Char} {c : Char} (h : c ∈ cs)
    (hspace : Text.isSpace c = false) : ∃ line ∈ splitLines cs, c ∈ line := by
  fun_induction splitLines cs with
  | case1 => cases h
  | case2 cs ih =>
    rcases mem_cons.mp h with rfl | h
    · cases hspace
    rcases mem_cons.mp h with rfl | h
    · cases hspace
    obtain ⟨line, hline, hc⟩ := ih h
    exact ⟨line, .tail _ hline, hc⟩
  | case3 c' cs hne hend ih =>
    rcases mem_cons.mp h with rfl | h
    · rcases hend with rfl | rfl <;> cases hspace
    obtain ⟨line, hline, hc⟩ := ih h
    exact ⟨line, .tail _ hline, hc⟩
  | case4 c' cs hne hend hnil ih =>
    rcases mem_cons.mp h with rfl | h
    · exact ⟨_, .head _, .head _⟩
    obtain ⟨line, hline, -⟩ := ih h
    rw [hnil] at hline
    cases hline
  | case5 c' cs hne hend first lines hcs ih =>
    rcases mem_cons.mp h with rfl | h
    · exact ⟨_, .head _, .head _⟩
    obtain ⟨line, hline, hc⟩ := ih h
    rcases mem_cons.mp (hcs ▸ hline) with rfl | hline
    · exact ⟨_, .head _, .tail _ hc⟩
    · exact ⟨line, .tail _ hline, hc⟩

/-- Where every line gives something, one for each row is exactly one of each line. -/
theorem forall₂_flatMap_iff {α β γ : Type} {Q : α → β → Prop} {S : α → γ → Prop}
    {f : β → List γ} {l : List α} {u : List β} (h : Forall₂ Q l u) (hne : ∀ b ∈ u, f b ≠ []) :
    Forall₂ S l (u.flatMap f) ↔ Forall₂ (fun a b => ∃ c, f b = [c] ∧ S a c) l u := by
  induction h with
  | nil => exact iff_of_true .nil .nil
  | @cons a b l u _ hu ih =>
    rw [forall_mem_cons] at hne
    rw [flatMap_cons, forall₂_cons, ← ih hne.2]
    obtain ⟨c, cs, hb⟩ := exists_cons_of_ne_nil hne.1
    rw [hb, cons_append, forall₂_cons]
    constructor
    · rintro ⟨hc, hrest⟩
      have hlen := hrest.length_eq
      have hle := length_le_sum_of_one_le (u.map fun b => (f b).length) (by
        simpa [Nat.one_le_iff_ne_zero] using hne.2)
      rw [length_append, length_flatMap, hu.length_eq] at hlen
      rw [length_map] at hle
      obtain rfl : cs = [] := eq_nil_of_length_eq_zero (by omega)
      exact ⟨⟨c, rfl, hc⟩, hrest⟩
    · rintro ⟨⟨c', hcs, hc⟩, hrest⟩
      cases hcs
      exact ⟨hc, hrest⟩

theorem trimChars_append_replicate (cs : List Char) (n : Nat) :
    Text.trimChars (cs ++ replicate n ' ') = Text.trimChars cs := by
  have hpad : ∀ c ∈ replicate n ' ', Text.isSpace c = true :=
    fun c hc => (mem_replicate.mp hc).2 ▸ rfl
  rw [Text.trimChars, Text.trimChars, dropWhile_append]
  split
  · rename_i hcs
    rw [isEmpty_iff.mp hcs, dropWhile_eq_nil_iff.mpr hpad]
  · rw [reverse_append, dropWhile_append_of_pos fun c hc => hpad c (mem_reverse.mp hc)]

/-! ## Tables -/

theorem forall₂_of_mapM {α β : Type} {f : α → Except String β} {l : List α} {ys : List β}
    (h : l.mapM f = .ok ys) : Forall₂ (fun x y => f x = .ok y) l ys := by
  induction l generalizing ys with
  | nil =>
    cases h
    exact .nil
  | cons x l ih =>
    rw [mapM_cons] at h
    obtain ⟨y, hx, h⟩ := Except.bind_eq_ok h
    obtain ⟨ys, hl, h⟩ := Except.bind_eq_ok h
    cases h
    exact .cons hx (ih hl)

theorem exists_mem_of_forall₂ {α β : Type} {R : α → β → Prop} {l : List α} {u : List β}
    (h : Forall₂ R l u) : ∀ a ∈ l, ∃ b ∈ u, R a b := by
  induction h with
  | nil => exact fun a ha => absurd ha not_mem_nil
  | cons hab _ ih =>
    refine forall_mem_cons.mpr ⟨⟨_, .head _, hab⟩, fun a ha => ?_⟩
    obtain ⟨b, hb, hR⟩ := ih a ha
    exact ⟨b, .tail _ hb, hR⟩

theorem orRefuse_eq_ok {α : Type} {message : String} {o : Option α} {x : α}
    (h : orRefuse message o = .ok x) : o = some x := by
  cases o with
  | none => cases h
  | some y =>
    cases h
    rfl

theorem field_ofList {l : List (String × Json)} {name : String} {v : Json}
    (hnodup : (l.map Prod.fst).Nodup) (hmem : (name, v) ∈ l) :
    field name (.object (ofList l).entries) = v := by
  rw [field, ofList_entries, get_ofList_eq (o := some v), Option.getD_some]
  refine fun v' => ⟨fun h => ?_, fun h => Option.some.inj h ▸ hmem⟩
  exact congrArg (some ∘ Prod.snd) (inj_on_of_nodup_map hnodup hmem h rfl)

/-- Each of the cells has the text of the value that it was given. -/
def SameCells (names : List String) (canon : String → String) (row back : Json) : Prop :=
  ∀ name ∈ names, ∃ text, canonicalText (field name row) = some text ∧
    field name back = .string (canon text)

def SameItems (row back : Json) : Prop :=
  ∃ cells cells', row = .array cells ∧ back = .array cells' ∧
    Forall₂ (fun v b => ∃ text, canonicalText v = some text ∧ b = .string text) cells
      (cells'.take cells.length)

theorem map_fst_fields (header cells : List String) :
    (fields header cells).map Prod.fst = header := by
  induction header generalizing cells with
  | nil => rfl
  | cons name header ih => exact congrArg _ (ih cells.tail)

theorem mem_fields {R : String → String → Prop} {header cells : List String}
    (h : Forall₂ R header cells) {name : String} (hname : name ∈ header) :
    ∃ cell, R name cell ∧ (name, .string cell) ∈ fields header cells := by
  induction h with
  | nil => cases hname
  | cons hcell _ ih =>
    rcases mem_cons.mp hname with rfl | hname
    · exact ⟨_, hcell, .head _⟩
    · obtain ⟨cell, hR, hmem⟩ := ih hname
      exact ⟨cell, hR, .tail _ hmem⟩

theorem headerOf_nodup {rows : List Json} {columns : List String}
    (h : headerOf rows = .ok columns) : columns.Nodup := by
  obtain ⟨keys, -, h⟩ := Except.bind_eq_ok h
  cases h
  exact (SortedMap.sorted _).imp fun hlt => hlt.ne

variable {csv : CsvCodec} {fixed : FixedWidthCodec} {rows : List Json}

theorem csv_decode (hd : Delimits csv.delimiter) {table : List (List String)}
    {header : List String} :
    csv.decode ((header :: table).flatMap (writeRow csv.delimiter)) =
      .ok (.array (if csv.hasHeader then table.map fun cells =>
          .object (ofList (fields (if header = [] then [""] else header)
            (if cells = [] then [""] else cells))).entries
        else (header :: table).map fun cells =>
          .array ((if cells = [] then [""] else cells).map .string))) := by
  have hbody : ((header :: table).flatMap (writeRow csv.delimiter)).isEmpty = false := by
    match header with
    | [] | [_] | _ :: _ :: _ => simp [writeRow]
  rw [CsvCodec.decode, hbody, parseRows_flatMap hd]
  simp only [map_cons, map_map, Bool.false_eq_true, if_false]
  rfl

theorem csv_header (hd : Delimits csv.delimiter) (hheader : csv.hasHeader = true)
    {table : List (List String)} (h : csv.cells rows = .ok table) :
    ∃ back columns, csv.decode (table.flatMap (writeRow csv.delimiter)) = .ok (.array back) ∧
      headerOf rows = .ok columns ∧ Forall₂ (SameCells columns id) rows back := by
  rw [CsvCodec.cells, if_pos hheader] at h
  obtain ⟨columns, hcolumns, h⟩ := Except.bind_eq_ok h
  obtain ⟨lines, hlines, h⟩ := Except.bind_eq_ok h
  cases h
  refine ⟨_, columns, (csv_decode hd).trans (by rw [if_pos hheader]), hcolumns, ?_⟩
  refine forall₂_map_right_iff.mpr ((forall₂_of_mapM hlines).imp fun row cells hcells => ?_)
  have hcells := forall₂_of_mapM hcells
  intro name hname
  have hne : columns ≠ [] := ne_nil_of_mem hname
  have hne' : cells ≠ [] := fun h => hne (by cases h; cases hcells; rfl)
  obtain ⟨cell, hcell, hmem⟩ := mem_fields hcells hname
  refine ⟨cell, orRefuse_eq_ok hcell, ?_⟩
  rw [if_neg hne, if_neg hne']
  exact field_ofList (by rw [map_fst_fields]; exact headerOf_nodup hcolumns) hmem

theorem csv_items (hd : Delimits csv.delimiter) (hheader : csv.hasHeader = false) (hne : rows ≠ [])
    {table : List (List String)} (h : csv.cells rows = .ok table) :
    ∃ back, csv.decode (table.flatMap (writeRow csv.delimiter)) = .ok (.array back) ∧
      Forall₂ SameItems rows back := by
  rw [CsvCodec.cells, hheader, if_neg Bool.false_ne_true] at h
  have hrows := forall₂_of_mapM h
  cases table with
  | nil =>
    cases hrows
    exact absurd rfl hne
  | cons first table =>
    refine ⟨_, (csv_decode hd).trans (by rw [hheader, if_neg Bool.false_ne_true]), ?_⟩
    refine forall₂_map_right_iff.mpr (hrows.imp fun row cells hcells => ?_)
    cases row with
    | array items =>
      have hall : Forall₂ (fun v cell => csvText v = .ok cell) items cells := forall₂_of_mapM hcells
      refine ⟨items, _, rfl, rfl, ?_⟩
      cases cells with
      | nil =>
        cases hall
        exact .nil
      | cons cell cells =>
        rw [if_neg (cons_ne_nil _ _), take_of_length_le (by simp [hall.length_eq])]
        exact forall₂_map_right_iff.mpr (hall.imp fun v cell hcell =>
          ⟨cell, orRefuse_eq_ok hcell, rfl⟩)
    | null | bool | number | string | object => cases hcells

theorem column_eq {f : FixedWidthField} {row : Json} {col : List Char}
    (h : f.column row = .ok col) : ∃ text, canonicalText (field f.name row) = some text ∧
      text.length ≤ f.width ∧ col = text.toList ++ replicate (f.width - text.length) ' ' := by
  obtain ⟨text, htext, h⟩ := Except.bind_eq_ok h
  split at h
  · cases h
  · rename_i hlen
    cases h
    exact ⟨text, orRefuse_eq_ok htext, Nat.not_lt.mp hlen, rfl⟩

/-- **A line is read back**, column by column; it has the characters of the texts, and blanks. -/
theorem mem_record {layout : List FixedWidthField} {row : Json} {cols : List (List Char)}
    (h : Forall₂ (fun f col => f.column row = .ok col) layout cols) :
    (record layout cols.flatten).map Prod.fst = layout.map (·.name) ∧
    (∀ f ∈ layout, ∃ text, canonicalText (field f.name row) = some text ∧
      text.toList ⊆ cols.flatten ∧
      (f.name, .string (Text.trim text)) ∈ record layout cols.flatten) ∧
    ∀ c ∈ cols.flatten, c = ' ' ∨
      ∃ f ∈ layout, ∃ text, canonicalText (field f.name row) = some text ∧ c ∈ text.toList := by
  induction h with
  | nil => exact ⟨rfl, nofun, nofun⟩
  | @cons f col layout cols hcol _ ih =>
    obtain ⟨text, htext, hlen, hpad⟩ := column_eq hcol
    have hwidth : col.length = f.width := by
      rw [hpad, length_append, length_replicate, String.length_toList]
      omega
    have htrim : String.ofList (Text.trimChars col) = Text.trim text := by
      rw [hpad, trimChars_append_replicate, Text.trim]
    rw [flatten_cons, record, ← hwidth, take_left, drop_left, htrim]
    refine ⟨congrArg _ ih.1, forall_mem_cons.mpr ⟨⟨text, htext, ?_, .head _⟩, fun g hg => ?_⟩,
      fun c hc => ?_⟩
    · exact fun c hc => mem_append_left _ (hpad ▸ mem_append_left _ hc)
    · obtain ⟨text, htext, hsub, hmem⟩ := ih.2.1 g hg
      exact ⟨text, htext, fun c hc => mem_append_right _ (hsub hc), .tail _ hmem⟩
    · rcases mem_append.mp hc with hc | hc
      · rw [hpad, mem_append, mem_replicate] at hc
        exact hc.symm.imp And.right fun hc => ⟨f, .head _, text, htext, hc⟩
      · exact (ih.2.2 c hc).imp_right (Exists.imp fun g h => h.imp_left (.tail _))

theorem line_eq {row : Json} {line : List Char} (h : fixed.line row = .ok line) :
    ∃ cols, Forall₂ (fun f col => f.column row = .ok col) fixed.layout cols ∧
      line = cols.flatten := by
  cases row with
  | object map =>
    obtain ⟨cols, hcols, h⟩ := Except.bind_eq_ok h
    cases h
    exact ⟨cols, forall₂_of_mapM hcols, rfl⟩
  | null | bool | number | string | array => cases h

/-- The record that `decode` makes of a line. -/
def FixedWidthCodec.recordOf (c : FixedWidthCodec) (line : List Char) : Json :=
  .object (ofList (record c.layout line)).entries

theorem recordOf_line {row : Json} {line : List Char} (h : fixed.line row = .ok line) :
    SameCells (fixed.layout.map (·.name)) Text.trim row (fixed.recordOf line) := by
  obtain ⟨cols, hcols, rfl⟩ := line_eq h
  obtain ⟨hnames, hcells, -⟩ := mem_record hcols
  intro name hname
  obtain ⟨f, hf, rfl⟩ := mem_map.mp hname
  obtain ⟨text, htext, -, hmem⟩ := hcells f hf
  exact ⟨text, htext, field_ofList (hnames ▸ fixed.distinct) hmem⟩

/-- The row has the character `c` in one of its cells. -/
def FixedWidthCodec.Holds (fixed : FixedWidthCodec) (row : Json) (c : Char) : Prop :=
  ∃ f ∈ fixed.layout, ∃ text, canonicalText (field f.name row) = some text ∧ c ∈ text.toList

theorem mem_line_iff {row : Json} {line : List Char} (h : fixed.line row = .ok line) {c : Char}
    (hc : c ≠ ' ') : c ∈ line ↔ fixed.Holds row c := by
  obtain ⟨cols, hcols, rfl⟩ := line_eq h
  obtain ⟨-, hcells, hchars⟩ := mem_record hcols
  constructor
  · exact fun hmem => (hchars c hmem).resolve_left hc
  · rintro ⟨f, hf, text, htext, hmem⟩
    obtain ⟨text', htext', hsub, -⟩ := hcells f hf
    cases htext.symm.trans htext'
    exact hsub hmem

theorem length_line {row : Json} {line : List Char} (h : fixed.line row = .ok line) :
    line.length = (fixed.layout.map (·.width)).sum := by
  obtain ⟨cols, hcols, rfl⟩ := line_eq h
  clear h
  generalize fixed.layout = layout at hcols ⊢
  induction hcols with
  | nil => rfl
  | cons hcol _ ih =>
    obtain ⟨text, -, hlen, rfl⟩ := column_eq hcol
    rw [flatten_cons, length_append, ih, map_cons, sum_cons, length_append, length_replicate,
      String.length_toList, Nat.add_sub_cancel' hlen]

theorem map_fst_record (layout : List FixedWidthField) (line : List Char) :
    (record layout line).map Prod.fst = layout.map (·.name) := by
  induction layout generalizing line with
  | nil => rfl
  | cons f layout ih => exact congrArg _ (ih _)

/-- A line within the columns that is not blank has a column that is not. -/
theorem exists_mem_record {layout : List FixedWidthField} {line : List Char}
    (hlen : line.length ≤ (layout.map (·.width)).sum) (hline : line.all Text.isSpace = false) :
    ∃ f ∈ layout, ∃ text, text ≠ "" ∧ (f.name, .string text) ∈ record layout line := by
  induction layout generalizing line with
  | nil =>
    cases eq_nil_of_length_eq_zero (Nat.le_zero.mp hlen)
    cases hline
  | cons f layout ih =>
    by_cases hfirst : Text.trimChars (line.take f.width) = []
    · have htake := all_eq_true.mpr (trimChars_eq_nil_iff.mp hfirst)
      rw [← take_append_drop f.width line, all_append, htake, Bool.true_and] at hline
      rw [map_cons, sum_cons] at hlen
      obtain ⟨g, hg, text, hne, hmem⟩ := ih (by rw [length_drop]; omega) hline
      exact ⟨g, .tail _ hg, text, hne, .tail _ hmem⟩
    · refine ⟨f, .head _, _, fun h => hfirst ?_, .head _⟩
      rw [← String.toList_ofList (l := Text.trimChars _), h, String.toList_empty]

/-- The line of the row holds one record, and that has the row's cells. -/
def FixedWidthCodec.Survives (fixed : FixedWidthCodec) (row : Json) : Prop :=
  ∃ line piece, fixed.line row = .ok line ∧ pieces line = [piece] ∧
    SameCells (fixed.layout.map (·.name)) Text.trim row (fixed.recordOf piece)

/-- A row with no end of line in it survives exactly if one of its cells is not blank. -/
theorem survives_iff {row : Json} {line : List Char} (h : fixed.line row = .ok line)
    (hlf : ¬fixed.Holds row '\n') (hcr : ¬fixed.Holds row '\r') :
    fixed.Survives row ↔ ∃ c, fixed.Holds row c ∧ Text.isSpace c = false := by
  have hsplit : splitLines line = [line] := splitLines_of_notMem
    (mt (mem_line_iff h (by decide)).mp hlf) (mt (mem_line_iff h (by decide)).mp hcr)
  constructor
  · rintro ⟨line', piece, hline, hpiece, -⟩
    cases h.symm.trans hline
    have hmem : piece ∈ pieces line := hpiece ▸ mem_singleton_self piece
    rw [pieces, hsplit, mem_filter, mem_singleton, Bool.not_eq_true'] at hmem
    obtain ⟨c, hc, hspace⟩ := all_eq_false.mp (hmem.1 ▸ hmem.2)
    have hspace := Bool.not_eq_true _ ▸ hspace
    exact ⟨c, (mem_line_iff h (ne_of_not_space hspace)).mp hc, hspace⟩
  · rintro ⟨c, hc, hspace⟩
    have hline : line.all Text.isSpace = false := all_eq_false.mpr
      ⟨c, (mem_line_iff h (ne_of_not_space hspace)).mpr hc, ne_true_of_eq_false hspace⟩
    refine ⟨line, line, h, ?_, recordOf_line h⟩
    rw [pieces, hsplit, filter_singleton, hline]
    rfl

/-- A record that has the cells of a row has come from a row that is not blank. -/
theorem pieces_ne_nil {row : Json} {line piece : List Char} (h : fixed.line row = .ok line)
    (hlen : piece.length ≤ (fixed.layout.map (·.width)).sum)
    (hpiece : piece.all Text.isSpace = false)
    (hcells : SameCells (fixed.layout.map (·.name)) Text.trim row (fixed.recordOf piece)) :
    pieces line ≠ [] := by
  obtain ⟨f, hf, text, hne, hmem⟩ := exists_mem_record hlen hpiece
  obtain ⟨given, hgiven, hback⟩ := hcells f.name (mem_map_of_mem hf)
  rw [FixedWidthCodec.recordOf,
    field_ofList (map_fst_record fixed.layout piece ▸ fixed.distinct) hmem] at hback
  cases hback
  have hshown : ¬∀ c ∈ given.toList, Text.isSpace c = true := fun hall =>
    hne (by rw [Text.trim, trimChars_eq_nil_iff.mpr hall, String.ofList_nil])
  simp only [not_forall, Bool.not_eq_true] at hshown
  obtain ⟨c, hc, hspace⟩ := hshown
  have hmem := (mem_line_iff h (ne_of_not_space hspace)).mpr ⟨f, hf, given, hgiven, hc⟩
  obtain ⟨part, hpart, hc⟩ := exists_mem_splitLines hmem hspace
  exact ne_nil_of_mem (mem_filter.mpr ⟨hpart, by
    rw [all_eq_false.mpr ⟨c, hc, ne_true_of_eq_false hspace⟩]; rfl⟩)

theorem fixed_decode (lines : List (List Char)) :
    fixed.decode (lines.flatMap (· ++ ['\n'])) = if lines = [] then
        .error "fixed-width parse failed: empty document"
      else if lines.flatMap pieces = [] then .error "fixed-width parse failed: no records"
      else .ok (.array ((lines.flatMap pieces).map fixed.recordOf)) := by
  rw [FixedWidthCodec.decode]
  cases lines with
  | nil => rfl
  | cons line lines =>
    rw [if_neg (by simp), if_neg (cons_ne_nil _ _), ← pieces_flatMap]
    refine if_congr ?_ rfl rfl
    rw [List.isEmpty_iff, map_eq_nil_iff]
    rfl

/-- **The table comes back exactly if each of its rows survives.** -/
theorem fixed_round_trip {lines : List (List Char)} (hne : rows ≠ [])
    (hlines : Forall₂ (fun row line => fixed.line row = .ok line) rows lines) :
    (∃ back, fixed.decode (lines.flatMap (· ++ ['\n'])) = .ok (.array back) ∧
      Forall₂ (SameCells (fixed.layout.map (·.name)) Text.trim) rows back) ↔
    ∀ row ∈ rows, fixed.Survives row := by
  have hne' : lines ≠ [] := fun h => hne (by cases h; cases hlines; rfl)
  have hwithin : ∀ piece ∈ lines.flatMap pieces,
      piece.length ≤ (fixed.layout.map (·.width)).sum ∧ piece.all Text.isSpace = false := by
    intro piece hpiece
    obtain ⟨line, hline, hpiece⟩ := mem_flatMap.mp hpiece
    obtain ⟨row, -, h⟩ := exists_mem_of_forall₂ hlines.flip line hline
    rw [pieces, mem_filter, Bool.not_eq_true'] at hpiece
    exact ⟨length_line h ▸ length_le_of_mem_splitLines hpiece.1, hpiece.2⟩
  rw [fixed_decode, if_neg hne']
  constructor
  · rintro ⟨back, hback, hcells⟩
    split at hback
    · cases hback
    cases hback
    have hcells := forall₂_map_right_iff.mp hcells
    have hshown : ∀ line ∈ lines, pieces line ≠ [] := by
      intro line hline
      obtain ⟨row, hrow, h⟩ := exists_mem_of_forall₂ hlines.flip line hline
      obtain ⟨piece, hpiece, hrow⟩ := exists_mem_of_forall₂ hcells row hrow
      obtain ⟨hlen, hblank⟩ := hwithin piece hpiece
      exact pieces_ne_nil h hlen hblank hrow
    intro row hrow
    have hone := (forall₂_flatMap_iff hlines hshown).mp hcells
    obtain ⟨line, -, h, piece, hpiece, hback⟩ :=
      exists_mem_of_forall₂ (Forall₂.mp (fun _ _ => And.intro) hlines hone) row hrow
    exact ⟨line, piece, h, hpiece, hback⟩
  · intro hsurvive
    have hone : Forall₂ (fun row line => ∃ piece, pieces line = [piece] ∧
        SameCells (fixed.layout.map (·.name)) Text.trim row (fixed.recordOf piece)) rows lines := by
      refine ((forall₂_and_left _ _).mpr ⟨hsurvive, hlines⟩).imp fun row line h => ?_
      obtain ⟨⟨line', piece, hline, hpiece, hback⟩, h⟩ := h
      cases h.symm.trans hline
      exact ⟨piece, hpiece, hback⟩
    have hshown : ∀ line ∈ lines, pieces line ≠ [] := by
      intro line hline
      obtain ⟨row, -, piece, hpiece, -⟩ := exists_mem_of_forall₂ hone.flip line hline
      rw [hpiece]
      exact cons_ne_nil _ _
    have hall := (forall₂_flatMap_iff hlines hshown).mpr hone
    have hsome : lines.flatMap pieces ≠ [] := fun h => hne (by rw [h] at hall; cases hall; rfl)
    rw [if_neg hsome]
    exact ⟨_, rfl, forall₂_map_right_iff.mpr hall⟩

def narrow : FixedWidthCodec where
  layout := [⟨"payee", 6⟩, ⟨"note", 4⟩]
  nonempty := nofun
  named := by decide
  distinct := by decide

def entry (payee note : String) : Json := .object [("note", .string note), ("payee", .string payee)]

/-- Two rows with a delimiter, a quote and a line feed in them; the line feed is in the last column,
with nothing after it, and is trimmed. -/
def account : List Json := [entry "Ada" "a,\"b", entry "Bob" "x\n"]

end Sutra.Tabular
