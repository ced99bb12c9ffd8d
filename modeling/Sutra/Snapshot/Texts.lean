import Mathlib
import Sutra.Lib.Base64
import Sutra.Snapshot.Value

/-!
# Texts for the codecs of a snapshot

`TextCodecs` leaves the texts of numbers, documents and bytes open. `standardCodecs` is one choice:
plain decimal texts, compact JSON and standard base64. Its JSON reader reads the documents of one
scalar.

* `standardCodecs_base64`: bytes come back from their base64.
-/

namespace Sutra.Snapshot

open Text List

/-! ## Numbers -/

/-- The plain text of a decimal: no exponent, and as many places as its scale. -/
def plainText (n : Decimal) : String :=
  let whole := n.digits.natAbs * 10 ^ (-n.scale).toNat
  let unit := 10 ^ n.scale.toNat
  let fraction := toString (whole % unit)
  let places := String.ofList (replicate (n.scale.toNat - fraction.length) '0') ++ fraction
  (if n.digits < 0 then "-" else "") ++ toString (whole / unit) ++
    if 0 < n.scale then "." ++ places else ""

/-- A decimal from a plain text. -/
def readPlain (text : String) : Option Decimal := do
  let (negative, unsigned) := match stripPrefix "-" text with
    | some rest => (true, rest)
    | none => (false, text)
  let (whole, places) := (splitOnce '.' unsigned).getD (unsigned, "")
  let n ← parseUnsigned 64 (whole ++ places)
  some ⟨if negative then -n else n, places.length⟩

/-! ## Documents -/

/-- A character inside a JSON string. -/
def escapeChar (c : Char) : List Char :=
  if c = '"' then ['\\', '"']
  else if c = '\\' then ['\\', '\\']
  else if c = '\n' then ['\\', 'n']
  else if c = '\r' then ['\\', 'r']
  else if c = '\t' then ['\\', 't']
  else if c.toNat < 32 then
    "\\u00".toList ++ [Nat.digitChar (c.toNat / 16), Nat.digitChar (c.toNat % 16)]
  else [c]

/-- A JSON string. -/
def quoted (s : String) : String :=
  "\"" ++ String.ofList (s.toList.flatMap escapeChar) ++ "\""

mutual
/-- The compact text of a document. -/
def Json.text : Json → String
  | .null => "null"
  | .bool b => toString b
  | .number text => text
  | .string s => quoted s
  | .array items => "[" ++ ",".intercalate (itemTexts items) ++ "]"
  | .object fields => "\x7b" ++ ",".intercalate (fieldTexts fields) ++ "\x7d"
def itemTexts : List Json → List String
  | [] => []
  | j :: rest => j.text :: itemTexts rest
def fieldTexts : List (String × Json) → List String
  | [] => []
  | (k, j) :: rest => (quoted k ++ ":" ++ j.text) :: fieldTexts rest
end

/-- The text up to the closing quote, which must be the end. -/
def unquote : List Char → Option (List Char)
  | [] => none
  | c :: rest =>
    if c = '"' then if rest = [] then some [] else none
    else if c = '\\' then none
    else (unquote rest).map (c :: ·)

/-- A document of one scalar; a string is read if nothing in it is escaped. -/
def readScalar (text : String) : Option Json :=
  match text.toList with
  | '"' :: rest => (unquote rest).map fun cs => .string (String.ofList cs)
  | _ =>
    if text = "null" then some .null
    else if text = "true" then some (.bool true)
    else if text = "false" then some (.bool false)
    else (readPlain text).map fun _ => .number text

/-! ## The codecs -/

/-- Plain decimal texts, compact JSON and standard base64. -/
def standardCodecs : TextCodecs where
  decimalText := plainText
  parseDecimal := readPlain
  printJson := Json.text
  parseJson := readScalar
  encodeBase64 bytes := String.ofList (Base64.encode bytes)
  decodeBase64 text :=
    match Base64.decode text.toList with
    | some bytes => .ok bytes
    | none => .error "Invalid base64"

/-- **Bytes come back from their base64.** -/
theorem standardCodecs_base64 (b : List UInt8) :
    standardCodecs.decodeBase64 (standardCodecs.encodeBase64 b) = .ok b := by
  simp only [standardCodecs, String.toList_ofList, Base64.decode_encode]

end Sutra.Snapshot
