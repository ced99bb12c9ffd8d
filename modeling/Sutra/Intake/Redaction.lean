import Sutra.Executor.Value
import Sutra.Lib.Text

/-!
# The masked view of a payload

A redactor locates the sensitive spans of a decoded payload by JSON pointers, and every surface that
shows the payload shows it with a marker there.

* `maskOne`: the pointers are masked one after another, each in the tree that the ones before left.
-/

namespace Sutra.Redaction

open List

/-! ## Pointers -/

inductive PathSegment where
  | key (k : String)
  | index (i : UInt64)
  deriving DecidableEq

/-- The reference token of a segment, before it is escaped. -/
def PathSegment.token : PathSegment → String
  | .key k => k
  | .index i => toString i.toNat

/-- `str::replace` of one character by a text. -/
def replaceChar (c : Char) (by_ : List Char) (cs : List Char) : List Char :=
  cs.flatMap fun x => if x = c then by_ else [x]

/-- `str::replace` of the two characters `a`, `b` by one. -/
def replacePair (a b by_ : Char) : List Char → List Char
  | x :: y :: rest =>
    if x = a ∧ y = b then by_ :: replacePair a b by_ rest else x :: replacePair a b by_ (y :: rest)
  | cs => cs

def escapeToken (k : String) : String :=
  String.ofList (replaceChar '/' ['~', '1'] (replaceChar '~' ['~', '0'] k.toList))

def unescapeToken (token : String) : String :=
  String.ofList (replacePair '~' '0' '~' (replacePair '~' '1' '/' token.toList))

/-- The text of a path. The digits of an index need no escape. -/
def renderPointer (path : List PathSegment) : String :=
  path.foldr (fun seg rest => "/" ++ (match seg with
    | .key k => escapeToken k
    | .index i => toString i.toNat) ++ rest) ""

def parsePointer (pointer : String) : Option (List String) :=
  if pointer = "" then some []
  else (Text.stripPrefix "/" pointer).map fun rest => (Text.split '/' rest).map unescapeToken

/-! ## Masks -/

def marker : FeelValue := .string "[REDACTED]"

/-- Change the value of an entry, if the map has the key. -/
def alterEntry (k : String) (f : FeelValue → FeelValue) :
    List (String × FeelValue) → List (String × FeelValue)
  | [] => []
  | e :: m => if e.1 = k then (e.1, f e.2) :: m else e :: alterEntry k f m

/-- `str::parse::<usize>`. -/
def parseIndex (head : String) : Option UInt64 := (Text.parseUnsigned 64 head).map .ofNat

/-- Change what a token names in a container; a token that names nothing there changes nothing. -/
def alter (head : String) (f : FeelValue → FeelValue) : FeelValue → FeelValue
  | .map m => .map (alterEntry head f m)
  | .list items =>
    match parseIndex head with
    | some idx => .list (items.modify idx.toNat f)
    | none => .list items
  | value => value

/-- A copy of the value with the node that the tokens reach replaced by `x`. -/
def replaceAt (x : FeelValue) : List String → FeelValue → FeelValue
  | [] => fun _ => x
  | head :: rest => alter head (replaceAt x rest)

def maskOne (value : FeelValue) (tokens : List String) : FeelValue := replaceAt marker tokens value

def maskPaths (payload : FeelValue) (paths : List String) : FeelValue :=
  if paths.any (· = "") then marker
  else paths.foldl (fun out p =>
    match parsePointer p with
    | some tokens => maskOne out tokens
    | none => out) payload

structure RedactionLocator where
  path : String
  reasonCode : String

inductive RedactionOutcome where
  | located (locators : List RedactionLocator)
  | failed (redactor message : String)

namespace RedactionOutcome

def isFailed : RedactionOutcome → Bool
  | .located _ => false
  | .failed _ _ => true

def paths : RedactionOutcome → List String
  | .located locators => locators.map (·.path)
  | .failed _ _ => []

end RedactionOutcome

def maskProjection (payload : FeelValue) (outcomes : List RedactionOutcome) : FeelValue :=
  if outcomes.any (·.isFailed) then marker
  else maskPaths payload (outcomes.flatMap (·.paths))

/-- A redactor. A panic is an error with the message of the panic. -/
structure ContentRedactor where
  name : String
  locate : FeelValue → Variables → Except String (List RedactionLocator)

def runRedactor (r : ContentRedactor) (payload : FeelValue) (vars : Variables) :
    RedactionOutcome :=
  match r.locate payload vars with
  | .ok locators => .located locators
  | .error message => .failed r.name message

/-- What the intake stores beside the payload, for the redactors of the source. -/
def redacted (chain : List ContentRedactor) (payload : FeelValue) (vars : Variables) : FeelValue :=
  maskProjection payload (chain.map (runRedactor · payload vars))

/-! ## Positions -/

def child : PathSegment → FeelValue → Option FeelValue
  | .key k, .map m => SortedMap.getList m k
  | .index i, .list items => items[i.toNat]?
  | _, _ => none

/-- The segment that a token stands for in a container. -/
def segment (head : String) : FeelValue → Option PathSegment
  | .map _ => some (.key head)
  | .list _ => (parseIndex head).map .index
  | _ => none

/-- The value at a position. -/
def follow : List PathSegment → FeelValue → Option FeelValue
  | [], v => some v
  | seg :: rest, v => (child seg v).bind (follow rest)

/-- The position that the tokens reach in a value. -/
def resolve : List String → FeelValue → Option (List PathSegment)
  | [], _ => some []
  | head :: rest, v =>
    (segment head v).bind fun seg => (child seg v).bind fun w => (resolve rest w).map (seg :: ·)

/-- The paths that the outcomes locate. -/
def located (outcomes : List RedactionOutcome) : List (List String) :=
  (outcomes.flatMap (·.paths)).filterMap parsePointer

/-- `w` is `v` with other values at positions that are located by `ts`. -/
def DifferOnly (ts : List (List String)) : FeelValue → FeelValue → Prop :=
  Relation.ReflTransGen fun v w => ∃ t ∈ ts, ∃ x, w = replaceAt x t v

/-- The position is neither at, nor above, nor below a located one. -/
def Apart (ts : List (List String)) (v : FeelValue) (s : List PathSegment) : Prop :=
  ∀ t ∈ ts, ∀ r, resolve t v = some r → ¬r <+: s ∧ ¬s <+: r

/-! ## The text of a path -/

theorem replacePair_cons {a b by_ x : Char} (h : x ≠ a) (cs : List Char) :
    replacePair a b by_ (x :: cs) = x :: replacePair a b by_ cs := by
  cases cs with
  | nil => rfl
  | cons y rest => rw [replacePair, if_neg fun hx => h hx.1]

theorem replacePair_slash (cs : List Char) :
    replacePair '~' '1' '/' (replaceChar '/' ['~', '1'] (replaceChar '~' ['~', '0'] cs)) =
      replaceChar '~' ['~', '0'] cs := by
  induction cs with
  | nil => rfl
  | cons c cs ih =>
    simp only [replaceChar, flatMap_cons, flatMap_append] at ih ⊢
    split
    · exact congrArg ('~' :: ·) ((replacePair_cons (by decide) _).trans (congrArg _ ih))
    · rename_i hc
      rw [flatMap_singleton, singleton_append]
      split
      · rename_i hslash
        rw [hslash]
        exact congrArg ('/' :: ·) ih
      · exact (replacePair_cons hc _).trans (congrArg _ ih)

theorem replacePair_tilde (cs : List Char) :
    replacePair '~' '0' '~' (replaceChar '~' ['~', '0'] cs) = cs := by
  induction cs with
  | nil => rfl
  | cons c cs ih =>
    rw [replaceChar, flatMap_cons]
    split
    · rename_i hc
      rw [hc]
      exact congrArg ('~' :: ·) ih
    · rename_i hc
      exact (replacePair_cons hc _).trans (congrArg _ ih)

theorem unescapeToken_escapeToken (k : String) : unescapeToken (escapeToken k) = k := by
  rw [unescapeToken, escapeToken, String.toList_ofList, replacePair_slash, replacePair_tilde,
    String.ofList_toList]

theorem slash_notMem_escapeToken (k : String) : '/' ∉ (escapeToken k).toList := by
  rw [escapeToken, String.toList_ofList, replaceChar, mem_flatMap]
  rintro ⟨x, -, hx⟩
  split at hx
  · simp at hx
  · rename_i hne
    exact hne (mem_singleton.mp hx).symm

theorem escapeToken_toString (n : Nat) : escapeToken (toString n) = toString n := by
  have hplain : ∀ c, c.isDigit = false → ∀ t, replaceChar c t (toString n).toList =
      (toString n).toList := by
    intro c hc t
    rw [replaceChar, Text.toList_toString]
    conv_rhs => rw [← flatMap_singleton' (Nat.toDigits 10 n)]
    refine flatMap_congr fun x hx => if_neg fun heq => ?_
    have hdigit := Nat.isDigit_of_mem_toDigits (by decide) (by decide) hx
    rw [heq, hc] at hdigit
    cases hdigit
  rw [escapeToken, hplain _ rfl, hplain _ rfl, String.ofList_toList]

theorem renderPointer_cons (seg : PathSegment) (path : List PathSegment) :
    renderPointer (seg :: path) = "/" ++ escapeToken seg.token ++ renderPointer path := by
  cases seg with
  | key k => rfl
  | index i =>
    rw [PathSegment.token, escapeToken_toString]
    rfl

theorem splitChars_renderPointer (seg : PathSegment) (path : List PathSegment) :
    Text.splitChars '/' (escapeToken seg.token ++ renderPointer path).toList =
      (seg :: path).map fun s => (escapeToken s.token).toList := by
  induction path generalizing seg with
  | nil =>
    rw [renderPointer, foldr_nil, String.append_empty]
    exact Text.splitChars_of_notMem (slash_notMem_escapeToken _)
  | cons next path ih =>
    rw [renderPointer_cons, String.append_assoc, String.toList_append, String.toList_append]
    exact (Text.splitChars_append (slash_notMem_escapeToken _) _).trans (congrArg _ (ih next))

/-- **The pointer of a path is parsed as that path.** -/
theorem parsePointer_renderPointer (path : List PathSegment) :
    parsePointer (renderPointer path) = some (path.map (·.token)) := by
  cases path with
  | nil => rfl
  | cons seg path =>
    have hne : renderPointer (seg :: path) ≠ "" := by
      rw [renderPointer_cons, String.append_assoc]
      intro h
      have htext := congrArg String.toList h
      rw [String.toList_append] at htext
      cases htext
    rw [parsePointer, if_neg hne, renderPointer_cons, String.append_assoc, Text.stripPrefix_append,
      Option.map_some, Text.split, splitChars_renderPointer, map_map, map_map]
    refine congrArg some (map_congr_left fun s _ => ?_)
    exact (congrArg unescapeToken (String.ofList_toList)).trans (unescapeToken_escapeToken _)

/-- A position of the payload is what its pointer reaches. -/
theorem resolve_token {path : List PathSegment} {v w : FeelValue} (h : follow path v = some w) :
    resolve (path.map PathSegment.token) v = some path := by
  induction path generalizing v with
  | nil => rfl
  | cons seg path ih =>
    obtain ⟨next, hnext, hfollow⟩ := Option.bind_eq_some_iff.mp h
    have hseg : segment seg.token v = some seg := by
      match seg, v with
      | .key k, .map m => rfl
      | .index i, .list items =>
        have hidx := Text.parseUnsigned_toString i.toNat_lt
        rw [Text.trim_toString] at hidx
        rw [segment, PathSegment.token, parseIndex, hidx, Option.map_some, UInt64.ofNat_toNat]
        rfl
    rw [map_cons, resolve, hseg, Option.bind_some, hnext, Option.bind_some, ih hfollow]
    rfl

/-! ## Changes in a container -/

section

variable {f g : FeelValue → FeelValue} {a b : String} {v : FeelValue}

theorem getList_alterEntry (m : List (String × FeelValue)) (k : String) :
    SortedMap.getList (alterEntry a f m) k =
      (SortedMap.getList m k).map fun v => if a = k then f v else v := by
  induction m with
  | nil => rfl
  | cons e m ih =>
    rw [alterEntry, SortedMap.getList]
    split
    · rename_i ha
      rw [SortedMap.getList, ha]
      split
      · rfl
      · simp
    · rename_i ha
      rw [SortedMap.getList, ih]
      split
      · rename_i hk
        rw [Option.map_some, if_neg fun h => ha (hk.trans h.symm)]
      · rfl

theorem child_alter (seg : PathSegment) :
    child seg (alter a f v) =
      (child seg v).map fun w => if segment a v = some seg then f w else w := by
  match seg, v with
  | .key k, .map m => simp [alter, child, segment, getList_alterEntry]
  | .index i, .list items =>
    rw [alter, segment]
    cases parseIndex a with
    | none => simp [child]
    | some j => simp [child, getElem?_modify, UInt64.toNat_inj]
  | .key _, .list items =>
    rw [alter]
    cases parseIndex a with
    | none | some => rfl
  | .key _, .null | .key _, .boolean _ | .key _, .number _ | .key _, .string _
  | .key _, .other _ | .index _, .map _ | .index _, .null | .index _, .boolean _
  | .index _, .number _ | .index _, .string _ | .index _, .other _ => rfl

theorem segment_alter : segment a (alter b f v) = segment a v := by
  cases v with
  | list items =>
    rw [alter]
    cases parseIndex b with
    | none | some => rfl
  | map | null | boolean | number | string | other => rfl

theorem alter_comm (h : ∀ v, f (g v) = g (f v)) (v : FeelValue) :
    alter a f (alter b g v) = alter b g (alter a f v) := by
  cases v with
  | map m =>
    refine congrArg FeelValue.map ?_
    induction m with
    | nil => rfl
    | cons e m ih => grind [alterEntry]
  | list items =>
    simp only [alter]
    cases parseIndex a with
    | none =>
      cases parseIndex b with
      | none | some => simp
    | some i =>
      cases parseIndex b with
      | none => simp
      | some j =>
        simp only
        by_cases hij : j.toNat = i.toNat
        · rw [hij, modify_modify_eq, modify_modify_eq]
          exact congrArg (fun f => FeelValue.list (items.modify _ f)) (funext h)
        · rw [modify_modify_ne _ _ _ hij]
  | null | boolean | number | string | other => rfl

theorem alter_alter (v : FeelValue) : alter a f (alter a g v) = alter a (f ∘ g) v := by
  cases v with
  | map m =>
    refine congrArg FeelValue.map ?_
    induction m with
    | nil => rfl
    | cons e m ih => grind [alterEntry]
  | list items =>
    simp only [alter]
    cases parseIndex a with
    | none => simp
    | some i => simp only [modify_modify_eq]
  | null | boolean | number | string | other => rfl

theorem alter_eq_self (h : ∀ seg w, segment a v = some seg → child seg v = some w → f w = w) :
    alter a f v = v := by
  cases v with
  | map m =>
    have hm : ∀ w, SortedMap.getList m a = some w → f w = w := fun w => h (.key a) w rfl
    clear h
    refine congrArg FeelValue.map ?_
    induction m with
    | nil => rfl
    | cons e m ih => grind [alterEntry, SortedMap.getList]
  | list items =>
    rw [alter]
    cases ha : parseIndex a with
    | none => rfl
    | some i =>
      refine congrArg FeelValue.list (ext_getElem? fun j => ?_)
      rw [getElem?_modify]
      cases hj : items[j]? with
      | none => rfl
      | some w =>
        refine congrArg some (ite_eq_right_iff.mpr fun hij => h (.index i) w ?_ ?_)
        · rw [segment, ha]
          rfl
        · rw [child, hij, hj]
  | null | boolean | number | string | other => rfl

end

/-! ## Masks one after another -/

variable {v w x : FeelValue} {t u : List String} {ts : List (List String)}
  {r s : List PathSegment}

theorem maskOne_marker (t : List String) : maskOne marker t = marker := by
  cases t with
  | nil => rfl
  | cons => rfl

theorem maskOne_comm (v : FeelValue) (t u : List String) :
    maskOne (maskOne v t) u = maskOne (maskOne v u) t := by
  induction t generalizing u v with
  | nil => exact maskOne_marker u
  | cons a t ih =>
    cases u with
    | nil => exact (maskOne_marker (a :: t)).symm
    | cons b u => exact alter_comm (fun v => ih v u) v

/-- **A mask hides what stands at its position.** -/
theorem maskOne_replaceAt (x v : FeelValue) (t : List String) :
    maskOne (replaceAt x t v) t = maskOne v t := by
  induction t generalizing v with
  | nil => rfl
  | cons a t ih =>
    refine (alter_alter v).trans ?_
    exact congrArg (fun f => alter a f v) (funext ih)

theorem maskOne_eq_self (h : resolve t v = none) : maskOne v t = v := by
  induction t generalizing v with
  | nil => cases h
  | cons a t ih =>
    refine alter_eq_self fun seg w hseg hw => ih ?_
    rw [resolve, hseg, Option.bind_some, hw, Option.bind_some] at h
    exact Option.map_eq_none_iff.mp h

theorem resolve_cons {a : String} : resolve (a :: t) v = some r ↔
    ∃ seg w r', segment a v = some seg ∧ child seg v = some w ∧ resolve t w = some r' ∧
      seg :: r' = r := by
  simp only [resolve, Option.bind_eq_some_iff, Option.map_eq_some_iff]
  grind

/-- A pointer reaches in a masked tree only what it reaches in the tree. -/
theorem resolve_of_maskOne (h : resolve u (maskOne v t) = some r) : resolve u v = some r := by
  induction u generalizing v t r with
  | nil => exact h
  | cons b u ih =>
    cases t with
    | nil => cases h
    | cons a t =>
      obtain ⟨seg, w, r', hseg, hw, hr', rfl⟩ := resolve_cons.mp h
      rw [maskOne, replaceAt, child_alter] at hw
      obtain ⟨old, hold, rfl⟩ := Option.map_eq_some_iff.mp hw
      refine resolve_cons.mpr ⟨seg, old, r', segment_alter ▸ hseg, hold, ?_, rfl⟩
      split at hr'
      · exact ih hr'
      · exact hr'

theorem follow_maskOne (h : ∀ r, resolve t v = some r → ¬r <+: s ∧ ¬s <+: r) :
    follow s (maskOne v t) = follow s v := by
  induction s generalizing v t with
  | nil =>
    cases hr : resolve t v with
    | none => rw [maskOne_eq_self hr]
    | some r => exact absurd nil_prefix (h r hr).2
  | cons seg s ih =>
    cases t with
    | nil => exact absurd nil_prefix (h [] rfl).1
    | cons a t =>
      rw [maskOne, replaceAt, follow, child_alter, follow]
      cases hw : child seg v with
      | none => rfl
      | some w =>
        rw [Option.map_some, Option.bind_some, Option.bind_some]
        split
        · rename_i hseg
          refine ih fun r hr => ?_
          have hlift := h (seg :: r) (resolve_cons.mpr ⟨seg, w, r, hseg, hw, hr, rfl⟩)
          simpa only [cons_prefix_cons, true_and] using hlift
        · rfl

/-- **A position apart from all located ones is left alone.** -/
theorem follow_foldl_maskOne (h : Apart ts v s) :
    follow s (ts.foldl maskOne v) = follow s v := by
  induction ts generalizing v with
  | nil => rfl
  | cons t ts ih =>
    refine (ih fun u hu r hr => h u (mem_cons_of_mem t hu) r (resolve_of_maskOne hr)).trans ?_
    exact follow_maskOne (h t (mem_cons_self))

theorem foldl_maskOne_marker (ts : List (List String)) : ts.foldl maskOne marker = marker := by
  induction ts with
  | nil => rfl
  | cons t ts ih => rw [foldl_cons, maskOne_marker, ih]

theorem foldl_maskOne_perm {us : List (List String)} (h : us.Perm ts) (v : FeelValue) :
    us.foldl maskOne v = ts.foldl maskOne v :=
  h.foldl_eq' (fun t _ u _ v => maskOne_comm v t u) v

/-- A located path may be masked first. -/
theorem foldl_maskOne_of_mem (h : t ∈ ts) (v : FeelValue) :
    ts.foldl maskOne v = (ts.erase t).foldl maskOne (maskOne v t) :=
  foldl_maskOne_perm (perm_cons_erase h) v |>.symm ▸ rfl

/-- **Payloads that differ only at located positions look alike.** -/
theorem foldl_maskOne_differOnly (h : DifferOnly ts v w) :
    ts.foldl maskOne w = ts.foldl maskOne v := by
  induction h with
  | refl => rfl
  | tail _ hstep ih =>
    obtain ⟨t, ht, x, rfl⟩ := hstep
    rw [← ih, foldl_maskOne_of_mem ht, foldl_maskOne_of_mem ht, maskOne_replaceAt]

/-! ## The projection -/

theorem maskPaths_eq (v : FeelValue) (paths : List String) :
    maskPaths v paths = (paths.filterMap parsePointer).foldl maskOne v := by
  rw [maskPaths]
  split
  · rename_i h
    obtain ⟨p, hp, hempty⟩ := any_eq_true.mp h
    have hroot : [] ∈ paths.filterMap parsePointer :=
      mem_filterMap.mpr ⟨p, hp, if_pos (of_decide_eq_true hempty)⟩
    rw [foldl_maskOne_of_mem hroot]
    exact (foldl_maskOne_marker _).symm
  · rw [foldl_filterMap]
    refine foldl_ext _ _ v fun out p _ => ?_
    cases parsePointer p with
    | none | some => rfl

variable {outcomes : List RedactionOutcome}

theorem maskProjection_of_any (h : outcomes.any (·.isFailed)) :
    maskProjection v outcomes = marker :=
  if_pos h

theorem maskProjection_eq (h : outcomes.any (·.isFailed) = false) :
    maskProjection v outcomes = (located outcomes).foldl maskOne v := by
  rw [maskProjection, h, if_neg Bool.false_ne_true, maskPaths_eq, located]

theorem maskProjection_congr {w : FeelValue} {others : List RedactionOutcome}
    (hsame : others.any (·.isFailed) = outcomes.any (·.isFailed))
    (h : (located outcomes).foldl maskOne v = (located others).foldl maskOne w) :
    maskProjection v outcomes = maskProjection w others := by
  cases hfail : outcomes.any (·.isFailed) with
  | true => rw [maskProjection_of_any hfail, maskProjection_of_any (hsame.trans hfail)]
  | false => rw [maskProjection_eq hfail, maskProjection_eq (hsame.trans hfail), h]

theorem maskOne_eq_marker_iff (a : String) (t : List String) :
    maskOne v (a :: t) = marker ↔ v = marker := by
  cases v with
  | list items =>
    rw [maskOne, replaceAt, alter]
    cases parseIndex a with
    | none | some => exact iff_of_false FeelValue.noConfusion FeelValue.noConfusion
  | map m => exact iff_of_false FeelValue.noConfusion FeelValue.noConfusion
  | null | boolean | number | string | other => exact .rfl

/-- Below the root a mask leaves a container a container, so that only the marker is the marker. -/
theorem foldl_maskOne_eq_marker_iff (h : [] ∉ ts) : ts.foldl maskOne v = marker ↔ v = marker := by
  induction ts generalizing v with
  | nil => exact .rfl
  | cons t ts ih =>
    obtain ⟨hne, hts⟩ := not_or.mp (mt mem_cons.mpr h)
    cases t with
    | nil => exact absurd rfl hne
    | cons a t => rw [foldl_cons, ih hts, maskOne_eq_marker_iff]

theorem parsePointer_eq_some_nil {p : String} (h : parsePointer p = some []) : p = "" := by
  rw [parsePointer] at h
  split at h
  · assumption
  · obtain ⟨rest, -, hsplit⟩ := Option.map_eq_some_iff.mp h
    exact absurd (map_eq_nil_iff.mp (map_eq_nil_iff.mp hsplit)) (Text.splitChars_ne_nil _ _)

/-- **When everything is masked**: a redactor failed, a pointer is the whole document, or the
payload was the marker. -/
theorem maskProjection_eq_marker_iff : maskProjection v outcomes = marker ↔
    outcomes.any (·.isFailed) ∨ "" ∈ outcomes.flatMap (·.paths) ∨ v = marker := by
  cases hfail : outcomes.any (·.isFailed) with
  | true => exact iff_of_true (maskProjection_of_any hfail) (.inl rfl)
  | false =>
    rw [maskProjection_eq hfail, or_iff_right Bool.false_ne_true]
    by_cases hroot : [] ∈ located outcomes
    · obtain ⟨p, hp, hparse⟩ := mem_filterMap.mp hroot
      refine iff_of_true ?_ (.inl (parsePointer_eq_some_nil hparse ▸ hp))
      rw [foldl_maskOne_of_mem hroot]
      exact foldl_maskOne_marker _
    · rw [foldl_maskOne_eq_marker_iff hroot, or_iff_right]
      exact fun hp => hroot (mem_filterMap.mpr ⟨"", hp, rfl⟩)

/-- **Redaction hides what was located, and nothing else.**  Payloads that differ only at or below
located positions look alike, a position that is apart from all of them is shown as it is, the order
of the outcomes and of their pointers is irrelevant, the pointer of a path is that path, and one
failure masks everything. That a malformed pointer masks everything is right in these cases only:
there is none, a redactor failed, another pointer is the whole document, or the payload is the
marker. -/
theorem redaction_hides (v : FeelValue) (outcomes : List RedactionOutcome) :
    (∀ w, DifferOnly (located outcomes) v w →
      maskProjection w outcomes = maskProjection v outcomes) ∧
    (outcomes.any (·.isFailed) = false → ∀ s, Apart (located outcomes) v s →
      follow s (maskProjection v outcomes) = follow s v) ∧
    (∀ others : List RedactionOutcome, others.any (·.isFailed) = outcomes.any (·.isFailed) →
      (others.flatMap (·.paths)).Perm (outcomes.flatMap (·.paths)) →
      maskProjection v others = maskProjection v outcomes) ∧
    (∀ path : List PathSegment, parsePointer (renderPointer path) = some (path.map (·.token)) ∧
      ∀ x, follow path v = some x → resolve (path.map (·.token)) v = some path) ∧
    (outcomes.any (·.isFailed) → maskProjection v outcomes = marker) ∧
    (∀ chain vars, (∃ r ∈ chain, ∃ message, r.locate v vars = .error message) →
      redacted chain v vars = marker) ∧
    (((∃ p ∈ outcomes.flatMap (·.paths), parsePointer p = none) →
        maskProjection v outcomes = marker) ↔
      (∀ p ∈ outcomes.flatMap (·.paths), parsePointer p ≠ none) ∨ outcomes.any (·.isFailed) ∨
        "" ∈ outcomes.flatMap (·.paths) ∨ v = marker) := by
  refine ⟨fun w hw => ?_, fun hfine s hs => ?_, fun others hsame hperm => ?_,
    fun path => ⟨parsePointer_renderPointer path, fun x hx => resolve_token hx⟩,
    maskProjection_of_any, ?_, ?_⟩
  · exact maskProjection_congr rfl (foldl_maskOne_differOnly hw)
  · rw [maskProjection_eq hfine]
    exact follow_foldl_maskOne hs
  · exact maskProjection_congr hsame.symm (foldl_maskOne_perm (hperm.filterMap _) v)
  · rintro chain vars ⟨r, hr, message, hlocate⟩
    refine maskProjection_of_any (any_eq_true.mpr ⟨_, mem_map_of_mem hr, ?_⟩)
    rw [runRedactor, hlocate]
    rfl
  · rw [maskProjection_eq_marker_iff, imp_iff_not_or]
    push Not
    rfl

theorem differOnly_foldl_maskOne {us : List (List String)} (h : us ⊆ ts) (v : FeelValue) :
    DifferOnly ts v (us.foldl maskOne v) := by
  induction us generalizing v with
  | nil => exact .refl
  | cons t us ih =>
    obtain ⟨ht, hus⟩ := cons_subset.mp h
    exact (ih hus (maskOne v t)).head ⟨t, ht, marker, rfl⟩

theorem maskProjection_maskProjection (v : FeelValue) (outcomes more : List RedactionOutcome) :
    maskProjection (maskProjection v outcomes) more = maskProjection v (outcomes ++ more) := by
  cases hmore : more.any (·.isFailed) with
  | true => rw [maskProjection_of_any hmore, maskProjection_of_any (by simp [hmore])]
  | false =>
    rw [maskProjection_eq hmore]
    cases hfail : outcomes.any (·.isFailed) with
    | true =>
      rw [maskProjection_of_any hfail, maskProjection_of_any (by simp [hfail]),
        foldl_maskOne_marker]
    | false =>
      rw [maskProjection_eq hfail, maskProjection_eq (by simp [hfail, hmore]), ← foldl_append]
      simp [located]

/-- **A redacted view can be redacted again**: the masks of two chains add up, in either order, and
those of one chain change nothing the second time. -/
theorem redactions_add_up (v : FeelValue) (outcomes more : List RedactionOutcome) :
    maskProjection (maskProjection v outcomes) more = maskProjection v (outcomes ++ more) ∧
    maskProjection (maskProjection v outcomes) more =
      maskProjection (maskProjection v more) outcomes ∧
    maskProjection (maskProjection v outcomes) outcomes = maskProjection v outcomes := by
  refine ⟨maskProjection_maskProjection v outcomes more, ?_, ?_⟩
  · rw [maskProjection_maskProjection, maskProjection_maskProjection]
    refine maskProjection_congr (by rw [any_append, any_append, Bool.or_comm]) ?_
    exact foldl_maskOne_perm ((perm_append_comm.flatMap_right _).filterMap _) v
  · cases hfail : outcomes.any (·.isFailed) with
    | true => rw [maskProjection_of_any hfail, maskProjection_of_any hfail]
    | false =>
      rw [maskProjection_eq hfail, maskProjection_eq hfail]
      exact foldl_maskOne_differOnly (differOnly_foldl_maskOne (Subset.refl _) v)

/-- A payload with a list, as a redactor for card numbers sees it. -/
def order : FeelValue :=
  .map [("cards", .list [.map [("number", .string "4111"), ("bank", .string "A")]]),
    ("holder", .string "Ada")]

/-- The outcomes of one redactor with the given pointers. -/
def pointed (pointers : List String) : List RedactionOutcome :=
  [.located (pointers.map fun p => ⟨p, "CARD"⟩)]

/-- Nested and repeated pointers leave the bank alone; beside a failed redactor a
pointer without its slash is masked with everything else. -/
theorem card_masked :
    follow [.key "cards", .index 0, .key "bank"]
        (maskProjection order (pointed ["/cards/0/number", "/holder", "/cards/0/number/x"]))
      = some (.string "A") ∧
    maskProjection order (.failed "card" "timeout" :: pointed ["card"]) = marker := by
  have hparse : located (pointed ["/cards/0/number", "/holder", "/cards/0/number/x"])
      = [["cards", "0", "number"], ["holder"], ["cards", "0", "number", "x"]] := by decide
  refine ⟨(redaction_hides order _).2.1 rfl _ ?_, (redaction_hides order _).2.2.2.2.1 rfl⟩
  rw [hparse]
  have hcards : resolve ["cards", "0", "number"] order
      = some [.key "cards", .index 0, .key "number"] := by decide
  have hholder : resolve ["holder"] order = some [.key "holder"] := by decide
  have hnone : resolve ["cards", "0", "number", "x"] order = none := by decide
  simp only [Apart, forall_mem_cons, hcards, hholder, hnone, Option.some_inj, forall_eq',
    reduceCtorEq, false_imp_iff, implies_true, not_mem_nil]
  decide

/-- A payload with a card number beside a name. -/
def card : FeelValue := .map [("card", .string "4111"), ("name", .string "Ada")]

/-- **A pointer without its slash masks nothing**: the number is shown. -/
theorem bare_pointer_masks_nothing :
    parsePointer "card" = none ∧ maskProjection card (pointed ["card"]) = card :=
  ⟨rfl, rfl⟩

end Sutra.Redaction
