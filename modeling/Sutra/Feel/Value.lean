import Sutra.Feel.Temporal
import Sutra.Snapshot.Value

/-!
# FEEL values

The runtime value model of the expression engine, and the canonical text of a value: a scalar as it
is written, a list or a map with its parts in order. The texts of numbers and of temporal values are
left open.
-/

namespace Sutra.Feel

/-- A FEEL runtime value. The four temporal kinds are one constructor; a function or a native
callable is its parameter list, since nothing here calls it. -/
inductive Value where
  | null
  | boolean (b : Bool)
  | number (n : Decimal)
  | string (s : String)
  | temporal (t : Temporal)
  | list (items : List Value)
  | map (entries : List (String × Value))
  | function (params : List String)
  | range (start stop : Value) (startInclusive endInclusive : Bool)

namespace Value

variable (decimalText : Decimal → String) (temporalText : Temporal → String)

mutual

/-- The canonical text. -/
def canonicalStringOf : Value → String
  | .null => "null"
  | .boolean b => toString b
  | .number n => decimalText n
  | .string s => s
  | .temporal t => temporalText t
  | .function params => "function(" ++ ", ".intercalate params ++ ")"
  | .range start stop startInclusive endInclusive =>
    (if startInclusive then "[" else "(") ++ canonicalStringOf start ++ ".." ++
      canonicalStringOf stop ++ (if endInclusive then "]" else ")")
  | .list items => "[" ++ ", ".intercalate (canonicalItems items) ++ "]"
  | .map entries => "\x7b" ++ ", ".intercalate (canonicalEntries entries) ++ "\x7d"

def canonicalItems : List Value → List String
  | [] => []
  | v :: rest => canonicalStringOf v :: canonicalItems rest

def canonicalEntries : List (String × Value) → List String
  | [] => []
  | (k, v) :: rest => (k ++ "=" ++ canonicalStringOf v) :: canonicalEntries rest

end

end Value

end Sutra.Feel
