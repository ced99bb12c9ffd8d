import Mathlib

/-!
# The predicates of start events

A start event may carry a FEEL predicate over the attributes that the codec of its channel reports
(`attr.<key>`). The constructs that the lint can read are modelled: literals, attributes,
comparisons, the connectives, membership and `matches`. Every other construct is a node with a name
and arguments (`FeelExpr.other`), and what it evaluates to is a parameter (`Feel`), as is the
regular expression engine.

Evaluation has three truths. An attribute that is absent reads as null. Equality with null is
decided: `=` is false and `!=` is true of null and a literal, and null is in no list of literals.
An ordering with null on a side is null, and a predicate that comes to null does not hold
(`evalBoolean`).

* `equalsFeel`, `compareFeel`, `evalCompare`, `evalIn`: the scalars.
* `eval`, `evalBoolean`: expressions, and predicates.
-/

namespace Sutra.Select

/-- A value. Lists only come from list literals here; `other` is every value that is no scalar. -/
inductive Value where
  | null
  | boolean (b : Bool)
  | number (n : ℚ)
  | string (s : String)
  | list (items : List Value)
  | other (tag : String)

/-- A comparison. -/
inductive CompareOp where
  | eq | neq | lt | le | gt | ge
  deriving DecidableEq

/-- A connective. -/
inductive LogicalOp where
  | and | or
  deriving DecidableEq

/-- The constructs that no predicate of the recognised form has. -/
inductive Construct where
  | arith | ifThenElse | contextLit | range | quantifier | forLoop | filter | fieldAccess
  | instanceOf | functionDef | invoke | openRange
  deriving DecidableEq

/-- An expression. -/
inductive FeelExpr where
  | literal (value : Value)
  | path (segments : List String)
  | compare (left : FeelExpr) (op : CompareOp) (right : FeelExpr)
  | boolOp (left : FeelExpr) (op : LogicalOp) (right : FeelExpr)
  | not (arg : FeelExpr)
  | negate (arg : FeelExpr)
  | inTest (value test : FeelExpr)
  | listLit (items : List FeelExpr)
  /-- A call; `names` are those of its arguments, none when they are given by position. -/
  | call (name : String) (args : List FeelExpr) (names : List String)
  | other (construct : Construct) (detail : String) (args : List FeelExpr)

/-- What a predicate is evaluated on. An attribute that is absent is null. -/
structure Context where
  attr : String → Value
  messageType : Option String

/-- The parts of the evaluator that are not modelled. `none` is an error. -/
structure Feel where
  /-- `matches(input, pattern, flags)`. -/
  isMatch : String → String → String → Option Bool
  equalsOther : Value → Value → Option Bool
  compareOther : Value → Value → Option Ordering
  path : List String → Context → Value
  negateOther : Value → Value
  call : String → List Value → List String → Context → Option Value
  other : Construct → String → List FeelExpr → Context → Option Value
  /-- Membership in a value that is neither a list nor a scalar. -/
  inOther : Value → String → Value

section Scalars

variable (F : Feel)

/-- Equality; of values of different kinds it is undecided. -/
def equalsFeel : Value → Value → Option Bool
  | .null, .null => some true
  | .null, _ => some false
  | _, .null => some false
  | .boolean a, .boolean b => some (a = b)
  | .number a, .number b => some (a = b)
  | .string a, .string b => some (a = b)
  | .list a, .list b => F.equalsOther (.list a) (.list b)
  | .other a, .other b => F.equalsOther (.other a) (.other b)
  | _, _ => none

/-- The order of two scalars of one kind. -/
def compareFeel : Value → Value → Option Ordering
  | .number a, .number b => some (cmp a b)
  | .string a, .string b => some (cmp a b)
  | .boolean a, .boolean b => some (cmp a b)
  | .other a, .other b => F.compareOther (.other a) (.other b)
  | _, _ => none

/-- The truth of a value, if it has one. -/
def tri : Value → Option Bool
  | .boolean b => some b
  | _ => none

/-- The value of a truth; an undecided one is null. -/
def ofTri : Option Bool → Value
  | some b => .boolean b
  | none => .null

def isNull : Value → Bool
  | .null => true
  | _ => false

/-- Equality is decided also on null; an ordering with null is null. -/
def evalCompare (op : CompareOp) (l r : Value) : Option Value :=
  match op with
  | .eq => some (ofTri (equalsFeel F l r))
  | .neq => some (ofTri ((equalsFeel F l r).map not))
  | .lt => ordered Ordering.isLT
  | .le => ordered Ordering.isLE
  | .gt => ordered Ordering.isGT
  | .ge => ordered Ordering.isGE
where
  ordered (test : Ordering → Bool) : Option Value :=
    if isNull l || isNull r then some .null
    else (compareFeel F l r).map fun o => .boolean (test o)

/-- Membership. -/
def evalIn (v : Value) : Value → Value
  | .list items => .boolean (items.any fun e => (equalsFeel F v e).getD false)
  | .other tag => F.inOther v tag
  | t => .boolean ((equalsFeel F v t).getD false)

def evalNegate : Value → Value
  | .number n => .number (-n)
  | v => F.negateOther v

/-- `matches`; it is null of anything but texts. -/
def evalMatches : List Value → Option Value
  | [.string s, .string p] | [.string s, .string p, .null] => (F.isMatch s p "").map .boolean
  | [.string s, .string p, .string f] => (F.isMatch s p f).map .boolean
  | [_, _] | [_, _, _] => some .null
  | _ => none

end Scalars

mutual

/-- **Evaluation.**  `none` is an error. -/
def eval (F : Feel) (ctx : Context) : FeelExpr → Option Value
  | .literal v => some v
  | .path segments =>
    match segments with
    | ["attr", key] => some (ctx.attr key)
    | segments => some (F.path segments ctx)
  | .compare left op right => do
    let l ← eval F ctx left
    let r ← eval F ctx right
    evalCompare F op l r
  | .boolOp left .and right => do
    let l ← eval F ctx left
    if tri l = some false then some (.boolean false)
    else
      let r ← eval F ctx right
      match tri l, tri r with
      | _, some false => some (.boolean false)
      | some true, some true => some (.boolean true)
      | _, _ => some .null
  | .boolOp left .or right => do
    let l ← eval F ctx left
    if tri l = some true then some (.boolean true)
    else
      let r ← eval F ctx right
      match tri l, tri r with
      | _, some true => some (.boolean true)
      | some false, some false => some (.boolean false)
      | _, _ => some .null
  | .not arg => do
    let v ← eval F ctx arg
    some (ofTri ((tri v).map not))
  | .negate arg => do
    let v ← eval F ctx arg
    some (evalNegate F v)
  | .inTest value test => do
    let v ← eval F ctx value
    let t ← eval F ctx test
    some (evalIn F v t)
  | .listLit items => do
    let vs ← evalList F ctx items
    some (.list vs)
  | .call name args names => do
    let vs ← evalList F ctx args
    if name = "matches" ∧ names = [] then evalMatches F vs else F.call name vs names ctx
  | .other construct detail args => F.other construct detail args ctx

def evalList (F : Feel) (ctx : Context) : List FeelExpr → Option (List Value)
  | [] => some []
  | e :: rest => do
    let v ← eval F ctx e
    let vs ← evalList F ctx rest
    some (v :: vs)

end

/-- Whether a predicate holds. Null does not, and any other value is an error. -/
def evalBoolean (F : Feel) (ctx : Context) (e : FeelExpr) : Option Bool :=
  match eval F ctx e with
  | some (.boolean b) => some b
  | some .null => some false
  | _ => none

end Sutra.Select
