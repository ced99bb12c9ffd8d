import Sutra.Lib.Interval
import Sutra.Lib.Prog
import Sutra.Lib.SortedMap
import Sutra.Select.Expr

/-!
# The analysis of predicates

The lint reads a predicate of the recognised form as a set of cubes. One construct outside of the
form, and there is no cube set at all (`Opacity`).

* `Constraint`: a cube says of each attribute which values it may have.
* `dnf`: negation is pushed to the atoms as the expression is walked.
* `narrow`: an atom over an attribute whose domain the codec closes is narrowed to its values.
-/

namespace Sutra.Select

open Ranges

/-! ## Literals and the declared vocabulary -/

/-- A scalar. -/
inductive Lit where
  | bool (b : Bool)
  | number (n : ℚ)
  | text (s : String)
  deriving DecidableEq

namespace Lit

def toValue : Lit → Value
  | .bool b => .boolean b
  | .number n => .number n
  | .text s => .string s

def ofValue : Value → Option Lit
  | .boolean b => some (.bool b)
  | .number n => some (.number n)
  | .string s => some (.text s)
  | _ => none

def asNumber : Lit → Option ℚ
  | .number n => some n
  | _ => none

end Lit

/-- The kinds of values that a codec declares. -/
inductive AttributeKind where
  | text | integer | decimal | boolean
  deriving DecidableEq

/-- The literal is of the kind. -/
def Lit.matchesKind : Lit → AttributeKind → Bool
  | .text _, .text => true
  | .bool _, .boolean => true
  | .number n, .integer => n.den = 1
  | .number _, .decimal => true
  | _, _ => false

/-- A codec's declaration of one attribute. An empty domain leaves the values open. -/
structure AttributeSpec where
  key : String
  kind : AttributeKind
  domain : List Lit
  deriving DecidableEq

def AttributeSpec.closedDomain (spec : AttributeSpec) : Option (List Lit) :=
  if spec.domain = [] then none else some spec.domain

/-- The declarations by key. -/
abbrev Specs := String → Option AttributeSpec

def Specs.closedDomain (specs : Specs) (key : String) : Option (List Lit) :=
  (specs key).bind AttributeSpec.closedDomain

/-! ## Constraints and cubes -/

/-- What a cube says of one attribute. -/
inductive Constraint where
  | any
  | oneOf (values : List Lit)
  | noneOf (values : List Lit)
  | numRange (bounds : Bounds ℚ)
  | unsat
  deriving DecidableEq

namespace Constraint

def mkOneOf (values : List Lit) : Constraint := if values = [] then .unsat else .oneOf values

def mkNoneOf (values : List Lit) : Constraint := if values = [] then .any else .noneOf values

def mkRange (bounds : Bounds ℚ) : Constraint := if isEmpty bounds then .unsat else .numRange bounds

/-- The numbers of an interval among some literals. -/
def within (bounds : Bounds ℚ) (values : List Lit) : List Lit :=
  values.filter fun v => (v.asNumber.map (contains bounds)).getD false

/-- The conjunction of two constraints. Of an exclusion and an interval only the interval is kept.
-/
def meet : Constraint → Constraint → Constraint
  | .unsat, _ | _, .unsat => .unsat
  | .any, c | c, .any => c
  | .oneOf x, .oneOf y => mkOneOf (x.filter (· ∈ y))
  | .oneOf x, .noneOf y | .noneOf y, .oneOf x => mkOneOf (x.filter (· ∉ y))
  | .noneOf x, .noneOf y => mkNoneOf (x ++ y)
  | .oneOf x, .numRange r | .numRange r, .oneOf x => mkOneOf (within r x)
  | .noneOf _, .numRange r | .numRange r, .noneOf _ => .numRange r
  | .numRange x, .numRange y => mkRange (Ranges.meet x y)

end Constraint

/-- A conjunction: a constraint for each attribute that it names. -/
structure Cube where
  keys : SortedMap String Constraint
  contradiction : Bool

namespace Cube

def any : Cube := ⟨.empty, false⟩

def never : Cube := ⟨.empty, true⟩

def of (key : String) (c : Constraint) : Cube := ⟨SortedMap.empty.insert key c, false⟩

def isUnsat (x : Cube) : Bool :=
  x.contradiction || x.keys.entries.any fun e => decide (e.2 = .unsat)

def meet (x y : Cube) : Cube :=
  ⟨y.keys.entries.foldl (fun keys e => keys.insert e.1 (match keys.get e.1 with
      | some c => c.meet e.2
      | none => e.2)) x.keys,
    x.contradiction || y.contradiction⟩

end Cube

/-! ## The analysis -/

/-- The most cubes that are analysed. -/
def maxCubes : Nat := 64

/-- The most atoms that are analysed. -/
def maxAtoms : Nat := 32

/-- Why a predicate is not analysed. -/
inductive Opacity where
  | tooManyCubes
  | tooManyAtoms
  | construct
  deriving DecidableEq

/-- The attribute that a path names. -/
def keyOf : FeelExpr → Option String
  | .path ["attr", key] => some key
  | _ => none

/-- The literal, with its sign. -/
def litOf : FeelExpr → Option Lit
  | .literal v => Lit.ofValue v
  | .negate arg =>
    match litOf arg with
    | some (.number n) => some (.number (-n))
    | _ => none
  | _ => none

/-- The operator with the sides exchanged. -/
def CompareOp.flip : CompareOp → CompareOp
  | .lt => .gt
  | .le => .ge
  | .gt => .lt
  | .ge => .le
  | op => op

/-- The operator that is true where this one is false. -/
def CompareOp.negated : CompareOp → CompareOp
  | .eq => .neq
  | .neq => .eq
  | .lt => .ge
  | .le => .gt
  | .gt => .le
  | .ge => .lt

/-- Over a closed domain an exclusion or an interval becomes the values that are left. Null is not
among them. -/
def narrow (specs : Specs) (key : String) (c : Constraint) : Constraint :=
  match specs.closedDomain key with
  | none => c
  | some domain =>
    match c with
    | .noneOf excluded => .mkOneOf (domain.filter (· ∉ excluded))
    | .numRange bounds => .mkOneOf (Constraint.within bounds domain)
    | c => c

/-- The cube of one constraint. -/
def singleCube (specs : Specs) (key : String) (c : Constraint) : Except Opacity (List Cube) :=
  .ok [Cube.of key (narrow specs key c)]

/-- The attribute is declared as a number. -/
def numericKind (specs : Specs) (key : String) : Bool :=
  (specs key).any fun s => s.kind = .integer || s.kind = .decimal

/-- The interval of a relational operator. -/
def rangeOf (op : CompareOp) (n : ℚ) : Bounds ℚ :=
  match op with
  | .lt => atMost n false
  | .le => atMost n true
  | .gt => atLeast n false
  | _ => atLeast n true

/-- The cube of a comparison with a literal. An ordering is read only of numbers. -/
def compareAtom (specs : Specs) (key : String) (op : CompareOp) (lit : Lit) :
    Except Opacity (List Cube) :=
  match op with
  | .eq => singleCube specs key (.mkOneOf [lit])
  | .neq => singleCube specs key (.mkNoneOf [lit])
  | op =>
    match lit.asNumber with
    | none => .error .construct
    | some n =>
      if numericKind specs key then singleCube specs key (.mkRange (rangeOf op n))
      else .error .construct

/-- A comparison of an attribute with a literal, in either order. -/
def comparison (left : FeelExpr) (op : CompareOp) (right : FeelExpr) :
    Option (String × CompareOp × Lit) :=
  match keyOf left, litOf right with
  | some key, some lit => some (key, op, lit)
  | _, _ =>
    match litOf left, keyOf right with
    | some lit, some key => some (key, op.flip, lit)
    | _, _ => none

/-- What a membership test lists. -/
def testItems : FeelExpr → List FeelExpr
  | .listLit items => items
  | e => [e]

/-- A call whose arguments are an attribute and texts. -/
def matchesKey : List FeelExpr → Option String
  | e :: rest =>
    if rest.length = 1 ∨ rest.length = 2 then
      if rest.all fun a => (litOf a).any fun l => l.matchesKind .text then keyOf e else none
    else none
  | [] => none

/-- A message with one attribute. -/
def oneAttribute (key : String) (lit : Lit) : Context :=
  ⟨fun k => if k = key then lit.toValue else .null, none⟩

/-- The members of the domain on which the call is true, by the engine's own evaluator. -/
def matched (F : Feel) (e : FeelExpr) (key : String) : List Lit → Except Opacity (List Lit)
  | [] => .ok []
  | lit :: rest =>
    match evalBoolean F (oneAttribute key lit) e with
    | none => .error .construct
    | some b => do
      let ms ← matched F e key rest
      .ok (if b then lit :: ms else ms)

/-- The cubes of an atom, or of its negation. -/
def atom (F : Feel) (specs : Specs) (e : FeelExpr) (negated : Bool) : Except Opacity (List Cube) :=
  match e with
  | .literal (.boolean b) => .ok [if b = negated then Cube.never else Cube.any]
  | .path segments =>
    match keyOf (.path segments) with
    | none => .error .construct
    | some key =>
      if (specs key).any fun s => s.kind = .boolean then
        singleCube specs key (.mkOneOf [.bool (!negated)])
      else .error .construct
  | .compare left op right =>
    match comparison left op right with
    | none => .error .construct
    | some (key, op, lit) => compareAtom specs key (if negated then op.negated else op) lit
  | .inTest value test =>
    match keyOf value, (testItems test).mapM litOf with
    | some key, some lits =>
      singleCube specs key (if negated then .mkNoneOf lits else .mkOneOf lits)
    | _, _ => .error .construct
  | .call name args names =>
    if name = "matches" ∧ names = [] then
      match matchesKey args with
      | none => .error .construct
      | some key =>
        match specs.closedDomain key with
        | none => .error .construct
        | some domain => do
          let ms ← matched F e key domain
          singleCube specs key (.mkOneOf (if negated then domain.filter (· ∉ ms) else ms))
    else .error .construct
  | _ => .error .construct

/-- An atom, counted. -/
def dnfAtom (F : Feel) (specs : Specs) (e : FeelExpr) (negated : Bool) (atoms : Nat) :
    Except Opacity (List Cube × Nat) :=
  if atoms + 1 > maxAtoms then .error .tooManyAtoms
  else do
    let cubes ← atom F specs e negated
    .ok (cubes, atoms + 1)

/-- Disjunctive normal form, with the negation pushed inward. The number of atoms so far goes
through. -/
def dnf (F : Feel) (specs : Specs) : FeelExpr → Bool → Nat → Except Opacity (List Cube × Nat)
  | .not arg, negated, atoms => dnf F specs arg (!negated) atoms
  | .boolOp left op right, negated, atoms => do
    let (l, atoms) ← dnf F specs left negated atoms
    let (r, atoms) ← dnf F specs right negated atoms
    -- a negated conjunction is a disjunction of negations
    if decide (op = .and) != negated then
      if l.length * r.length > maxCubes then .error .tooManyCubes
      else .ok (l.flatMap fun a => r.map fun b => a.meet b, atoms)
    else if l.length + r.length > maxCubes then .error .tooManyCubes
    else .ok (l ++ r, atoms)
  | e, negated, atoms => dnfAtom F specs e negated atoms

/-- **What the analyser makes of a predicate.** -/
def analyse (F : Feel) (specs : Specs) (e : FeelExpr) : Except Opacity (List Cube) :=
  (dnf F specs e false 0).map Prod.fst

/-- A cube of either side that some message may satisfy together. -/
def overlapWitness (a b : List Cube) : Option Cube :=
  a.findSome? fun x =>
    if x.isUnsat then none
    else b.findSome? fun y =>
      if y.isUnsat then none
      else if (x.meet y).isUnsat then none else some (x.meet y)

end Sutra.Select
