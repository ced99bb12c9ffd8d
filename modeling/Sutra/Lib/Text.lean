import Mathlib

/-!
# Text helpers

Trimming, blankness and splitting of strings, by structural recursion on the list of characters.
Whitespace is Unicode's `White_Space` property, which is what a trim in the modelled code uses.
-/

namespace Text

open List

/-- Keys are pairs of texts in many tables. -/
instance lawfulBEq_pair : LawfulBEq (String × String) := inferInstance

def isSpace (c : Char) : Bool :=
  let n := c.toNat
  (9 ≤ n && n ≤ 13) || n == 32 || n == 0x85 || n == 0xA0 || n == 0x1680 ||
    (0x2000 ≤ n && n ≤ 0x200A) || n == 0x2028 || n == 0x2029 || n == 0x202F || n == 0x205F ||
    n == 0x3000

/-- The characters without leading and trailing whitespace. -/
def trimChars (cs : List Char) : List Char :=
  ((cs.dropWhile isSpace).reverse.dropWhile isSpace).reverse

/-- The string without leading and trailing whitespace. -/
def trim (s : String) : String := String.ofList (trimChars s.toList)

/-- Nothing but whitespace. -/
def isBlank (s : String) : Bool := s.toList.all isSpace

/-- Split at every separator; the parts between separators may be empty. -/
def splitChars (sep : Char) : List Char → List (List Char)
  | [] => [[]]
  | c :: cs =>
    match splitChars sep cs with
    | [] => [[c]]
    | part :: parts => if c = sep then [] :: part :: parts else (c :: part) :: parts

def split (sep : Char) (s : String) : List String :=
  (splitChars sep s.toList).map String.ofList

/-- The text before the first separator and the text after it, when there is one. -/
def splitOnce (sep : Char) (s : String) : Option (String × String) :=
  match s.toList.dropWhile (· ≠ sep) with
  | [] => none
  | _ :: rest => some (String.ofList (s.toList.takeWhile (· ≠ sep)), String.ofList rest)

/-- `s` without the leading `p`, when it starts with it. -/
def stripPrefix (p s : String) : Option String :=
  if p.toList.isPrefixOf s.toList then some (String.ofList (s.toList.drop p.length)) else none

def startsWith (p s : String) : Bool := p.toList.isPrefixOf s.toList

/-! ## Prefixes -/

theorem stripPrefix_append (p s : String) : stripPrefix p (p ++ s) = some s := by
  have hpre : p.toList.isPrefixOf (p ++ s).toList := by
    rw [String.toList_append]
    exact isPrefixOf_iff_prefix.mpr (prefix_append _ _)
  have hdrop : (p ++ s).toList.drop p.length = s.toList := by
    rw [String.toList_append, ← String.length_toList]
    exact drop_left
  rw [stripPrefix, if_pos hpre, hdrop, String.ofList_toList]

variable {p s : String} {cs : List Char} {sep : Char} {names : List String}

theorem stripPrefix_eq_some {k : String} : stripPrefix p k = some s ↔ k = p ++ s := by
  refine ⟨fun h => ?_, fun h => h ▸ stripPrefix_append p s⟩
  rw [stripPrefix] at h
  split at h
  · rename_i hpre
    obtain ⟨rest, hrest⟩ := isPrefixOf_iff_prefix.mp hpre
    have hs : String.ofList rest = s := by
      rw [← hrest, ← String.length_toList, drop_left] at h
      exact Option.some.inj h
    rw [← String.toList_inj, String.toList_append, ← hs, String.toList_ofList, hrest]
  · cases h

/-- A key outside a family is not taken for one of it. -/
theorem stripPrefix_eq_none {k : String} (h : ∀ s, k ≠ p ++ s) : stripPrefix p k = none :=
  Option.eq_none_iff_forall_ne_some.mpr fun s hs => h s (stripPrefix_eq_some.mp hs)

theorem append_ne_append {q : String} (hpq : startsWith p q = false)
    (hqp : startsWith q p = false) (s t : String) : p ++ s ≠ q ++ t := by
  intro heq
  have hlist : p.toList ++ s.toList = q.toList ++ t.toList := by
    rw [← String.toList_append, ← String.toList_append, heq]
  have hp : p.toList <+: q.toList ++ t.toList := hlist ▸ prefix_append _ _
  rcases prefix_or_prefix_of_prefix hp (prefix_append _ _) with h | h
  · exact Bool.false_ne_true (hpq.symm.trans (List.isPrefixOf_iff_prefix.mpr h))
  · exact Bool.false_ne_true (hqp.symm.trans (List.isPrefixOf_iff_prefix.mpr h))

theorem append_left_cancel {t : String} (h : p ++ s = p ++ t) : s = t := by
  have hlist : p.toList ++ s.toList = p.toList ++ t.toList := by
    rw [← String.toList_append, ← String.toList_append, h]
  exact String.toList_inj.mp (append_cancel_left hlist)

theorem append_lt_append_left {t : String} : p ++ s < p ++ t ↔ s < t := by
  rw [String.lt_iff_toList_lt, String.lt_iff_toList_lt, String.toList_append, String.toList_append]
  induction p.toList with
  | nil => exact Iff.rfl
  | cons c cs ih => simp [ih]

/-! ## Trimming -/

theorem trimChars_eq (cs : List Char) :
    trimChars cs = (cs.dropWhile isSpace).rdropWhile isSpace := rfl

theorem trimChars_trimChars (cs : List Char) : trimChars (trimChars cs) = trimChars cs := by
  have hdrop : (trimChars cs).dropWhile isSpace = trimChars cs := by
    rw [dropWhile_eq_self_iff]
    intro hpos hspace
    have hpre : trimChars cs <+: cs.dropWhile isSpace := rdropWhile_prefix _ _
    have hpos' : 0 < (cs.dropWhile isSpace).length := lt_of_lt_of_le hpos hpre.length_le
    have hhead := dropWhile_get_zero_not isSpace cs hpos'
    rw [get_eq_getElem, ← hpre.getElem hpos] at hhead
    exact hhead hspace
  rw [trimChars_eq, hdrop]
  exact rdropWhile_idempotent _ _

theorem trim_trim (s : String) : trim (trim s) = trim s := by
  rw [trim, trim, String.toList_ofList, trimChars_trimChars]

theorem mem_of_mem_trim {c : Char} (h : c ∈ (trim s).toList) : c ∈ s.toList := by
  rw [trim, String.toList_ofList] at h
  exact (dropWhile_suffix _).subset ((List.rdropWhile_prefix _ _).subset h)

theorem trimChars_eq_self (h : ∀ c ∈ cs, isSpace c = false) : trimChars cs = cs := by
  have hdrop : cs.dropWhile isSpace = cs := by
    rw [dropWhile_eq_self_iff]
    intro hpos hspace
    rw [h _ (getElem_mem _)] at hspace
    cases hspace
  have hrdrop : cs.rdropWhile isSpace = cs := by
    rw [rdropWhile_eq_self_iff]
    intro hne hspace
    rw [h _ (getLast_mem hne)] at hspace
    cases hspace
  rw [trimChars_eq, hdrop, hrdrop]

theorem trim_eq_self (h : ∀ c ∈ s.toList, isSpace c = false) : trim s = s := by
  rw [trim, trimChars_eq_self h, String.ofList_toList]

/-! ## Lists of names -/

theorem splitChars_of_notMem (h : sep ∉ cs) : splitChars sep cs = [cs] := by
  induction cs with
  | nil => rfl
  | cons c cs ih =>
    rw [mem_cons, not_or] at h
    rw [splitChars, ih h.2]
    exact if_neg fun heq => h.1 heq.symm

theorem splitChars_ne_nil (sep : Char) (cs : List Char) : splitChars sep cs ≠ [] := by
  induction cs with
  | nil => exact cons_ne_nil _ _
  | cons c cs ih =>
    rw [splitChars]
    split
    · exact cons_ne_nil _ _
    · split <;> exact cons_ne_nil _ _

theorem splitChars_append (h : sep ∉ cs) (rest : List Char) :
    splitChars sep (cs ++ sep :: rest) = cs :: splitChars sep rest := by
  induction cs with
  | nil =>
    rw [nil_append, splitChars]
    split
    · rename_i hnil
      exact absurd hnil (splitChars_ne_nil sep rest)
    · rename_i hsplit
      rw [if_pos rfl, hsplit]
  | cons c cs ih =>
    rw [mem_cons, not_or] at h
    rw [cons_append, splitChars, ih h.2]
    exact if_neg fun heq => h.1 heq.symm

theorem notMem_of_mem_splitChars {part : List Char}
    (h : part ∈ splitChars sep cs) : sep ∉ part := by
  induction cs generalizing part with
  | nil =>
    rw [mem_singleton.mp h]
    exact not_mem_nil
  | cons c cs ih =>
    rw [splitChars] at h
    split at h
    · rename_i hnil
      exact absurd hnil (splitChars_ne_nil sep cs)
    · rename_i first parts hsplit
      rw [hsplit] at ih
      split at h
      · rcases mem_cons.mp h with rfl | h
        · exact not_mem_nil
        · exact ih h
      · rename_i hne
        rcases mem_cons.mp h with rfl | h
        · rw [mem_cons, not_or]
          exact ⟨fun heq => hne heq.symm, ih (.head _)⟩
        · exact ih (.tail _ h)

/-- The names of a comma-separated list: trimmed, and blank ones left out. -/
def splitList (raw : String) : List String :=
  ((split ',' raw).map trim).filter fun s => !s.isEmpty

theorem splitList_empty : splitList "" = [] := rfl

def joinList (names : List String) : String := ",".intercalate names

def IsName (s : String) : Prop := s ≠ "" ∧ trim s = s ∧ ',' ∉ s.toList

theorem isName_of_all (hne : s ≠ "")
    (h : s.toList.all (fun c => !isSpace c && c != ',')) : IsName s := by
  rw [all_eq_true] at h
  refine ⟨hne, trim_eq_self fun c hc => ?_, fun hcomma => ?_⟩
  · exact Bool.not_eq_true' _ ▸ (Bool.and_eq_true_iff.mp (h c hc)).1
  · exact absurd (Bool.and_eq_true_iff.mp (h ',' hcomma)).2 (by decide)

theorem isName_of_mem_splitList {raw : String} (h : s ∈ splitList raw) : IsName s := by
  obtain ⟨hmem, hne⟩ := mem_filter.mp h
  obtain ⟨part, hpart, rfl⟩ := mem_map.mp hmem
  obtain ⟨cs, hcs, rfl⟩ := mem_map.mp hpart
  refine ⟨fun heq => ?_, trim_trim _, fun hc => ?_⟩
  · rw [heq] at hne
    cases hne
  · have hc := mem_of_mem_trim hc
    rw [String.toList_ofList] at hc
    exact notMem_of_mem_splitChars hcs hc

theorem split_joinList (h : ∀ s ∈ names, ',' ∉ s.toList)
    (hne : names ≠ []) : split ',' (joinList names) = names := by
  induction names with
  | nil => exact absurd rfl hne
  | cons s rest ih =>
    have hs := h s (.head _)
    cases rest with
    | nil =>
      rw [joinList, String.intercalate_singleton, split, splitChars_of_notMem hs]
      simp only [map_cons, map_nil, String.ofList_toList]
    | cons t rest =>
      have ih := ih (fun u hu => h u (.tail _ hu)) (cons_ne_nil _ _)
      have hchars : (joinList (s :: t :: rest)).toList
          = s.toList ++ ',' :: (joinList (t :: rest)).toList := by
        rw [joinList, String.intercalate_cons_cons, String.toList_append, String.toList_append,
          append_assoc]
        rfl
      rw [split, hchars, splitChars_append hs, map_cons, String.ofList_toList]
      rw [split] at ih
      rw [ih]

/-- **A list of names is read back as it was joined.** -/
theorem splitList_joinList (h : ∀ s ∈ names, IsName s) : splitList (joinList names) = names := by
  by_cases hne : names = []
  · rw [hne]
    decide
  · rw [splitList, split_joinList (fun s hs => (h s hs).2.2) hne]
    have htrim : names.map trim = names := by
      conv_rhs => rw [← map_id names]
      exact map_congr_left fun s hs => (h s hs).2.1
    rw [htrim, filter_eq_self]
    intro s hs
    simpa using (h s hs).1

/-! ## Decimal numbers -/

def parseUnsigned (width : Nat) (text : String) : Option Nat :=
  let digits := match text.toList with
    | '+' :: rest => rest
    | cs => cs
  if digits.isEmpty || !digits.all Char.isDigit then none
  else
    let n := Nat.ofDigitChars 10 digits 0
    if n < 2 ^ width then some n else none

theorem isSpace_of_isDigit {c : Char} (h : c.isDigit) : isSpace c = false := by
  obtain ⟨hlo, hhi⟩ := Char.isDigit_iff_toNat.mp h
  change 48 ≤ c.toNat at hlo
  change c.toNat ≤ 57 at hhi
  simp only [isSpace, Bool.or_eq_false_iff, Bool.and_eq_false_iff, decide_eq_false_iff_not,
    beq_eq_false_iff_ne]
  omega

theorem toList_toString (n : Nat) : (toString n).toList = Nat.toDigits 10 n := by
  rw [Nat.toString_eq_ofList_toDigits, String.toList_ofList]

theorem trim_toString (n : Nat) : trim (toString n) = toString n := by
  refine trim_eq_self fun c hc => isSpace_of_isDigit ?_
  rw [toList_toString] at hc
  exact Nat.isDigit_of_mem_toDigits (by decide) (by decide) hc

theorem parseUnsigned_toString {width n : Nat} (h : n < 2 ^ width) :
    parseUnsigned width (trim (toString n)) = some n := by
  have hdigits : ∀ c ∈ Nat.toDigits 10 n, c.isDigit := fun c hc =>
    Nat.isDigit_of_mem_toDigits (by decide) (by decide) hc
  have hplain : (match (toString n).toList with
      | '+' :: rest => rest
      | cs => cs) = Nat.toDigits 10 n := by
    rw [toList_toString]
    split
    · rename_i rest heq
      have hplus := hdigits '+' (heq ▸ (.head _))
      cases hplus
    · rfl
  have hall : (Nat.toDigits 10 n).all Char.isDigit := all_eq_true.mpr hdigits
  have hne : (Nat.toDigits 10 n).isEmpty = false := isEmpty_eq_false_iff.mpr Nat.toDigits_ne_nil
  simp only [parseUnsigned, trim_toString, hplain, hall, hne, Nat.ofDigitChars_ten_toDigits, h,
    Bool.not_true, Bool.or_self, Bool.false_eq_true, if_false, if_true]

end Text
