import Sutra.Executor.Task
import Sutra.Snapshot.Value

/-!
# Records in the columns of a table

A store with a declared structure keeps a record as a row, with a column for each declared field.
What a column is bound with depends on the class of the field and on the kind of the value, and what
is read from it on the class alone, so some values come back as others.

* `decode_cellText`: which values a column gives back (`Kept`).
* `projected_round_trip`: a record that is bound comes back exactly if all its values are kept.
-/

namespace Sutra.Projected

open List Snapshot SortedMap

/-- The marshalling class of a declared type. -/
inductive ValueClass where
  | text | number | boolean | date | dateTime | time

/-- A declared field, with the name of its type and the class that `new` found for it. -/
structure ProjectedField where
  field : String
  builtin : String
  valueClass : ValueClass

/-- A store with its projection. `Projection::derive` refuses two fields with one column, and a
name has one column. -/
structure ProjectedStore where
  store : String
  typeName : String
  fields : List ProjectedField
  distinct : (fields.map (·.field)).Nodup

/-- A refusal, with the code of its kind where it has one. -/
structure DataStoreError where
  code : Option String
  message : String

/-- The kind of a value, in the words of the messages. -/
def jsonKind : Json → String
  | .null => "null"
  | .bool _ => "a boolean"
  | .number _ => "a number"
  | .string _ => "a string"
  | .array _ => "an array"
  | .object _ => "a record"

/-! ## Cells -/

/-- The text of a boolean that every dialect takes. -/
def boolLiteral (b : Bool) : String := if b then "1" else "0"

/-- A boolean in one of its ten spellings. -/
def parseBool (text : String) : Option Bool :=
  let word := (Text.trim text).map Char.toLower
  if word ∈ ["true", "t", "1", "yes", "y"] then some true
  else if word ∈ ["false", "f", "0", "no", "n"] then some false
  else none

/-- A date-time with a `T` for its first blank, and with minutes after a bare hour offset; `none`, a
panic, when the last three bytes begin inside a character. -/
def canonicalDatetime (text : String) : Option String :=
  let out := match Text.splitOnce ' ' text with
    | some (day, time) => day ++ "T" ++ time
    | none => text
  if out.utf8ByteSize < 3 then some out
  else (TokenExecutor.truncate (out.utf8ByteSize - 3) out.toList).map fun start =>
    match out.toList.drop start.length with
    | sign :: digits =>
      if (sign = '+' ∨ sign = '-') ∧ digits.all Char.isDigit ∧ start.getLast? ≠ some 'T' then
        out ++ ":00"
      else out
    | [] => out

/-- The text that a column is bound with; `none` when it cannot hold the value. -/
def cellText : ValueClass → Json → Option String
  | .text, .string s => some s
  | .text, .number n => some n
  | .text, .bool b => some (toString b)
  | .number, .number n => some n
  | .number, .string s => some s
  | .boolean, .bool b => some (boolLiteral b)
  | .boolean, .number n => some (boolLiteral (n ≠ "0"))
  | .boolean, .string s => (parseBool s).map boolLiteral
  | .date, .string s | .dateTime, .string s | .time, .string s => some s
  | _, _ => none

section Read

-- The number that `serde_json` reads from a text, if the text is one: its digits as they are kept.
variable (readNumber : String → Option String)

/-- What is read from the text of a column. -/
def decode (c : ValueClass) (text : String) : Option Json :=
  match c with
  | .text | .date | .time => some (.string text)
  | .number => some (((readNumber text).map Json.number).getD (.string text))
  | .boolean => some (((parseBool text).map Json.bool).getD (.string text))
  | .dateTime => (canonicalDatetime text).map Json.string

/-- The values that a column, if it takes them, gives back: of the kind of its class, a number with
the digits it has in JSON, and a date-time in canonical form. -/
def Kept : ValueClass → Json → Prop
  | .text, .number _ | .text, .bool _ | .boolean, .number _ | .boolean, .string _ => False
  | .number, .number n => readNumber n = some n
  | .number, .string s => readNumber s = none
  | .dateTime, .string s => canonicalDatetime s = some s
  | _, _ => True

variable {readNumber}

theorem parseBool_boolLiteral : ∀ b, parseBool (boolLiteral b) = some b := by decide +kernel

/-- **A column gives a value back exactly if it is kept.** -/
theorem decode_cellText {c : ValueClass} {v : Json} {text : String}
    (htext : cellText c v = some text) :
    decode readNumber c text = some v ↔ Kept readNumber c v := by
  cases c <;> cases v <;> try cases htext
  case boolean.string s =>
    obtain ⟨b, _, rfl⟩ := Option.map_eq_some_iff.mp htext
    simp [decode, parseBool_boolLiteral, Kept]
  case number.number => cases h : readNumber text <;> simp [decode, h, Kept]
  case number.string => cases h : readNumber text <;> simp [decode, h, Kept]
  all_goals simp [decode, parseBool_boolLiteral, Kept]

end Read

/-! ## Rows -/

/-- A null is an absent value. -/
def present : Option Json → Option Json
  | some .null => none
  | value => value

namespace ProjectedStore

variable (s : ProjectedStore)

/-- The cell of one field, or the refusal of its value. -/
def cellFor (key : String) (f : ProjectedField) (value : Option Json) :
    Except DataStoreError (Option String) :=
  match present value with
  | none => .ok none
  | some value =>
    match cellText f.valueClass value with
    | some text => .ok (some text)
    | none => .error ⟨none, s!"data store '{s.store}'[{key}] field '{f.field}' is declared " ++
        s!"'{f.builtin}' but was written as {jsonKind value} — a projected column cannot hold it."⟩

/-- **The cells of a record**; one with a field that is not declared is refused. -/
def bindValues (key : String) : Json → Except DataStoreError (List (Option String))
  | .object record =>
    let record := ofList record
    let undeclared := (record.entries.map Prod.fst).filter fun k => !s.fields.any (·.field = k)
    if undeclared ≠ [] then
      let names := ", ".intercalate undeclared
      let declared := ", ".intercalate (s.fields.map (·.field))
      .error ⟨some "SUTRA.RUNTIME.DATASTORE.UNDECLARED_FIELD",
        s!"data store '{s.store}'[{key}] was written with field(s) [{names}], which structure " ++
          s!"type '{s.typeName}' does not declare (declared: [{declared}]). A projected " ++
          "store's row IS its declared scalars — declare the field and ship the column in a " ++
          "migration, or remove the 'structure' block and keep the opaque store."⟩
    else s.fields.mapM fun f => s.cellFor key f (record.get f.field)
  | value => .error ⟨some "SUTRA.RUNTIME.DATASTORE.VALUE_NOT_A_RECORD",
      s!"data store '{s.store}'[{key}] declares structure '{s.typeName}', so its value must be a "
        ++ s!"record of the declared fields — got {jsonKind value}."⟩

/-- The entries of a row, cell by cell; an empty cell has none. -/
def rowEntries (readNumber : String → Option String) :
    List ProjectedField → List (Option String) → Option (List (String × Json))
  | f :: fs, some text :: cells => do
    let v ← decode readNumber f.valueClass text
    return (f.field, v) :: (← rowEntries readNumber fs cells)
  | _ :: fs, none :: cells => rowEntries readNumber fs cells
  | _, _ => some []

/-- **The record of a row**; `none` is a panic. -/
def rowToJson (readNumber : String → Option String) (cells : List (Option String)) : Option Json :=
  (rowEntries readNumber s.fields cells).map fun l => .object (ofList l).entries

end ProjectedStore

open ProjectedStore

/-- The store refuses the value, or the row of its cells is the record without its nulls. -/
def GivesBack (readNumber : String → Option String) (s : ProjectedStore) (key : String)
    (value : Json) : Prop :=
  (∃ e, s.bindValues key value = .error e) ∨
    ∃ record cells back, value = .object record ∧ s.bindValues key value = .ok cells ∧
      s.rowToJson readNumber cells = some (.object (entries back)) ∧
      ∀ k, back.get k = present ((ofList record).get k)

variable {readNumber : String → Option String} {s : ProjectedStore} {key : String}
  {record : SortedMap String Json} {value : Json}

theorem present_eq_some {o : Option Json} {v : Json} (h : present o = some v) : o = some v := by
  revert h
  cases o with
  | none => exact id
  | some w => cases w <;> first | exact id | exact nofun

theorem rowEntries_of_bound {fields : List ProjectedField} {cells : List (Option String)}
    (h : fields.mapM (fun f => s.cellFor key f (record.get f.field)) = .ok cells)
    (hkept : ∀ f ∈ fields, ∀ v, record.get f.field = some v → Kept readNumber f.valueClass v) :
    rowEntries readNumber fields cells =
      some (fields.filterMap fun f => (present (record.get f.field)).map (f.field, ·)) := by
  induction fields generalizing cells with
  | nil => cases h; rfl
  | cons f fs ih =>
    rw [mapM_cons] at h
    obtain ⟨cell, hcell, h⟩ := Except.bind_eq_ok h
    obtain ⟨rest, hrest, h⟩ := Except.bind_eq_ok h
    cases h
    have ih := ih hrest fun g hg => hkept g (mem_cons_of_mem _ hg)
    unfold cellFor at hcell
    cases hv : present (record.get f.field) with
    | none =>
      rw [hv] at hcell
      cases hcell
      rw [filterMap_cons, hv]
      exact ih
    | some v =>
      simp only [hv] at hcell
      split at hcell <;> cases hcell
      next htext _ =>
      have hdec := (decode_cellText htext).mpr (hkept f mem_cons_self v (present_eq_some hv))
      simp [rowEntries, hdec, ih, hv]

/-- An entry of a row was read from the cell of its field. -/
theorem mem_rowEntries {fields : List ProjectedField} {cells : List (Option String)}
    {l : List (String × Json)} {k : String} {w : Json}
    (h : fields.mapM (fun f => s.cellFor key f (record.get f.field)) = .ok cells)
    (hrow : rowEntries readNumber fields cells = some l) (hmem : (k, w) ∈ l) :
    ∃ f ∈ fields, f.field = k ∧ ∃ v text, present (record.get k) = some v ∧
      cellText f.valueClass v = some text ∧ decode readNumber f.valueClass text = some w := by
  induction fields generalizing cells l with
  | nil =>
    cases hrow
    cases hmem
  | cons f fs ih =>
    rw [mapM_cons] at h
    obtain ⟨cell, hcell, h⟩ := Except.bind_eq_ok h
    obtain ⟨rest, hrest, h⟩ := Except.bind_eq_ok h
    cases h
    have hlater : ∀ l', rowEntries readNumber fs rest = some l' → (k, w) ∈ l' → ∃ g ∈ f :: fs,
        g.field = k ∧ ∃ v text, present (record.get k) = some v ∧
          cellText g.valueClass v = some text ∧ decode readNumber g.valueClass text = some w :=
      fun l' hl' hin => (ih hrest hl' hin).imp fun g hg => ⟨mem_cons_of_mem _ hg.1, hg.2⟩
    unfold cellFor at hcell
    cases hv : present (record.get f.field) with
    | none =>
      rw [hv] at hcell
      cases hcell
      exact hlater l hrow hmem
    | some v =>
      simp only [hv] at hcell
      split at hcell <;> cases hcell
      next htext _ =>
      obtain ⟨x, hx, hrow⟩ := Option.bind_eq_some_iff.mp hrow
      obtain ⟨l', hl', hrow⟩ := Option.bind_eq_some_iff.mp hrow
      cases hrow
      rcases mem_cons.mp hmem with heq | hin
      · cases heq
        exact ⟨f, mem_cons_self, rfl, v, _, hv, htext, hx⟩
      · exact hlater l' hl' hin

/-- The cells of a record that is accepted, and that all its keys are declared. -/
theorem bindValues_eq_ok {value : Json} {cells : List (Option String)}
    (h : s.bindValues key value = .ok cells) : ∃ record, value = .object record ∧
      s.fields.mapM (fun f => s.cellFor key f ((ofList record).get f.field)) = .ok cells ∧
      ∀ k v, (ofList record).get k = some v → ∃ f ∈ s.fields, f.field = k := by
  cases value with
  | object record =>
    unfold bindValues at h
    dsimp only at h
    split at h
    · cases h
    · rename_i hdecl
      refine ⟨record, rfl, h, fun k v hv => ?_⟩
      have hany := filter_eq_nil_iff.mp (not_not.mp hdecl) k (mem_map_of_mem (mem_entries.mpr hv))
      simpa using hany
  | null | bool | number | string | array => cases h

theorem givesBack_of_kept {record : List (String × Json)} {cells : List (Option String)}
    (h : s.bindValues key (.object record) = .ok cells)
    (hkept : ∀ f ∈ s.fields, ∀ v, (ofList record).get f.field = some v →
      Kept readNumber f.valueClass v) : GivesBack readNumber s key (.object record) := by
  obtain ⟨_, ⟨⟩, hcells, hdeclared⟩ := bindValues_eq_ok h
  have hrow := rowEntries_of_bound hcells hkept
  refine .inr ⟨record, cells, _, rfl, h, congrArg (Option.map _) hrow, fun k => ?_⟩
  refine get_ofList_eq fun v => mem_filterMap.trans ⟨?_, fun hv => ?_⟩
  · rintro ⟨f, -, hf⟩
    obtain ⟨w, hw, heq⟩ := Option.map_eq_some_iff.mp hf
    cases heq
    exact hw
  · obtain ⟨f, hf, rfl⟩ := hdeclared k v (present_eq_some hv)
    exact ⟨f, hf, by rw [hv]; rfl⟩

/-- What comes back under the name of a field was read from its own column, the only one of that
name, so that the column has kept it. -/
theorem kept_of_givesBack {record : List (String × Json)} {cells : List (Option String)}
    (h : s.bindValues key (.object record) = .ok cells) {back : SortedMap String Json}
    (hrow : s.rowToJson readNumber cells = some (.object back.entries))
    (hback : ∀ k, back.get k = present ((ofList record).get k))
    {f : ProjectedField} (hf : f ∈ s.fields) {v : Json}
    (hv : (ofList record).get f.field = some v) : Kept readNumber f.valueClass v := by
  obtain ⟨_, ⟨⟩, hcells, -⟩ := bindValues_eq_ok h
  obtain ⟨l, hl, hobject⟩ := Option.map_eq_some_iff.mp hrow
  have hget : (ofList l).get f.field = back.get f.field :=
    congrArg (getList · f.field) (Json.object.inj hobject)
  cases hp : present ((ofList record).get f.field) with
  | none =>
    cases v with
    | null => cases f.valueClass <;> trivial
    | bool | number | string | array | object =>
      rw [hv] at hp
      cases hp
  | some w =>
    have hw : w = v := Option.some.inj ((present_eq_some hp).symm.trans hv)
    have hmem : (f.field, w) ∈ l :=
      mem_of_get_ofList (by rw [hget, hback, hp])
    obtain ⟨g, hg, hname, u, text, hu, htext, hdecode⟩ := mem_rowEntries hcells hl hmem
    obtain rfl : g = f := inj_on_of_nodup_map s.distinct hg hf hname
    obtain rfl : u = w := Option.some.inj (hu.symm.trans hp)
    exact hw ▸ (decode_cellText htext).mp hdecode

/-- A store of orders with one field of four classes each. -/
def orders : ProjectedStore :=
  ⟨"orders", "Order", [⟨"code", "string", .text⟩, ⟨"amount", "decimal", .number⟩,
    ⟨"paid", "boolean", .boolean⟩, ⟨"due", "dateTime", .dateTime⟩], by decide⟩

end Sutra.Projected
