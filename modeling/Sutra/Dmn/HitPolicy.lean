import Sutra.Dmn.Table

/-!
# Which rules win

Each of the three evaluators of a decision table is brought into the form "select rules, then shape
the answer": `winners` for the verdict (which may also be a violation), the first rule for the
business rule task, `tableWinners` for the decision result.

* `applyHitPolicy_eq`, `evaluateRules_eq`, `evalTable_eq`: this is what the functions compute.
* `evaluators_agree_iff`: when the three selections are the same.
-/

namespace Sutra.Dmn

open List

open Feel (Value)

/-- A hit policy that the rules which fired do not meet. -/
inductive Violation where
  | unique
  | any
  deriving DecidableEq

namespace FeelCore

variable (core : FeelCore)

/-! ## The verdict path -/

def uniqueWinner (first : RuleFiring) (rest : List RuleFiring) :
    Except Violation (List RuleFiring) :=
  match rest with
  | [] => .ok [first]
  | _ :: _ => .error .unique

def winners (table : DmnDecisionTable) (firings : List RuleFiring) :
    Except Violation (List RuleFiring) :=
  match firings with
  | [] => .ok []
  | first :: rest =>
    match table.hitPolicy with
    | .unique => uniqueWinner first rest
    | .first => .ok [first]
    | .any =>
      if rest.all fun f => core.outputsAgree first.outputs f.outputs then .ok [first]
      else .error .any
    | .ruleOrder | .collect => .ok firings
    | .priority =>
      match table.firstOutputWithPriorityList with
      | none => uniqueWinner first rest
      | some clause => .ok [core.priorityWinner clause first rest]
    | .outputOrder =>
      match table.firstOutputWithPriorityList with
      | none => .ok firings
      | some clause => .ok (core.sortByRank clause firings)

def warnings (decision : DmnDecision) (firings : List RuleFiring) : List ValidationIssue :=
  if firings.isEmpty || decision.table.firstOutputWithPriorityList.isSome then []
  else
    match decision.table.hitPolicy with
    | .priority => [missingOutputValuesWarning decision Codes.priorityMissingOutputValues "PRIORITY"
        decision.table.firstOutputId "UNIQUE"]
    | .outputOrder => [missingOutputValuesWarning decision Codes.outputOrderMissingOutputValues
        "OUTPUT_ORDER" decision.table.firstOutputId "COLLECT"]
    | _ => []

variable {dec : DmnDecision} {rest rules : List RuleFiring} {f : RuleFiring}

theorem warnings_of_some (firings : List RuleFiring)
    (h : dec.table.firstOutputWithPriorityList.isSome) :
    warnings dec firings = [] := by rw [warnings, h, Bool.or_true, if_pos rfl]

theorem warnings_of_policy (firings : List RuleFiring)
    (h1 : dec.table.hitPolicy ≠ .priority) (h2 : dec.table.hitPolicy ≠ .outputOrder) :
    warnings dec firings = [] := by
  rw [warnings]
  split_ifs
  · rfl
  · split
    · exact absurd ‹_› h1
    · exact absurd ‹_› h2
    · rfl

def violationIssue (decision : DmnDecision) (firings : List RuleFiring) :
    Violation → ValidationIssue
  | .unique => uniqueIssue decision firings
  | .any => anyIssue decision firings

/-- The verdict that the winners make. -/
def report (decision : DmnDecision) (firings : List RuleFiring) :
    Except Violation (List RuleFiring) → Except SutraError (List ValidationIssue)
  | .ok rules => (core.flatten decision rules).map (warnings decision firings ++ ·)
  | .error v => .ok (warnings decision firings ++ [violationIssue decision firings v])

theorem flatten_singleton (dec : DmnDecision) (f : RuleFiring) :
    core.flatten dec [f] = core.issuesFor dec f := by
  rw [flatten, flatten]
  cases core.issuesFor dec f with
  | error e => rfl
  | ok issues =>
    change Except.ok (issues ++ []) = _
    rw [append_nil]

theorem map_nil_append (x : Except SutraError (List ValidationIssue)) :
    x.map (([] : List ValidationIssue) ++ ·) = x := by cases x <;> rfl

theorem map_cons (w : ValidationIssue) (x : Except SutraError (List ValidationIssue)) :
    (do let issues ← x; pure (w :: issues)) = x.map ([w] ++ ·) := by
  cases x <;> rfl

/-- **The verdict is the report of its winners.** -/
theorem applyHitPolicy_eq (dec : DmnDecision) (firings : List RuleFiring) :
    core.applyHitPolicy dec firings = core.report dec firings (core.winners dec.table firings) := by
  cases firings with
  | nil => rfl
  | cons first rest =>
    have hplain := @warnings_of_policy dec (first :: rest)
    rw [applyHitPolicy, winners]
    cases hp : dec.table.hitPolicy with
    | unique =>
      have hw := hplain (by rw [hp]; decide) (by rw [hp]; decide)
      cases rest with
      | nil =>
        simp only [applyUnique, uniqueWinner, report, hw, flatten_singleton, map_nil_append]
      | cons g rest =>
        simp only [applyUnique, uniqueWinner, report, hw, violationIssue, nil_append]
    | first =>
      have hw := hplain (by rw [hp]; decide) (by rw [hp]; decide)
      simp only [report, hw, flatten_singleton, map_nil_append]
    | any =>
      have hw := hplain (by rw [hp]; decide) (by rw [hp]; decide)
      simp only [applyAny]
      split_ifs
      · simp only [report, hw, flatten_singleton, map_nil_append]
      · simp only [report, hw, violationIssue, nil_append]
    | ruleOrder =>
      have hw := hplain (by rw [hp]; decide) (by rw [hp]; decide)
      simp only [report, hw, map_nil_append]
    | collect =>
      have hw := hplain (by rw [hp]; decide) (by rw [hp]; decide)
      simp only [report, hw, map_nil_append]
    | priority =>
      cases hlist : dec.table.firstOutputWithPriorityList with
      | none =>
        have hw : warnings dec (first :: rest) = [missingOutputValuesWarning dec
            Codes.priorityMissingOutputValues "PRIORITY" dec.table.firstOutputId "UNIQUE"] := by
          rw [warnings, hlist, hp]
          rfl
        simp only [applyPriority, hlist, map_cons]
        cases rest with
        | nil => simp only [applyUnique, uniqueWinner, report, hw, flatten_singleton]
        | cons g rest => simp only [applyUnique, uniqueWinner, report, hw, violationIssue]; rfl
      | some clause =>
        have hw : warnings dec (first :: rest) = [] := warnings_of_some _ (by rw [hlist]; rfl)
        simp only [applyPriority, hlist, report, hw, flatten_singleton, map_nil_append]
    | outputOrder =>
      cases hlist : dec.table.firstOutputWithPriorityList with
      | none =>
        have hw : warnings dec (first :: rest) = [missingOutputValuesWarning dec
            Codes.outputOrderMissingOutputValues "OUTPUT_ORDER" dec.table.firstOutputId
            "COLLECT"] := by
          rw [warnings, hlist, hp]
          rfl
        simp only [applyOutputOrder, hlist, map_cons, report, hw]
      | some clause =>
        have hw : warnings dec (first :: rest) = [] := warnings_of_some _ (by rw [hlist]; rfl)
        simp only [applyOutputOrder, hlist, report, hw, map_nil_append]

/-! ## The business rule path -/

def evaluateWinners (firings : List RuleFiring) : List RuleFiring := firings.take 1

def resultOf : List RuleFiring → SortedMap String Value
  | [] => SortedMap.empty
  | f :: _ => resultMap f.outputs

variable (table : DmnDecisionTable) (ctx : FeelContext)

/-- **The business rule path is the first rule that fires.** -/
theorem evaluateRules_eq (rules : List DmnRule) : core.evaluateRules table ctx rules =
      resultOf (evaluateWinners (core.collectFirings table ctx rules)) := by
  induction rules with
  | nil => rfl
  | cons rule rest ih =>
    rw [evaluateRules, collectFirings]
    split_ifs
    · rfl
    · exact ih

theorem evaluateAll_singleton (now : Feel.OffsetDateTime) (dec : DmnDecision)
    (input : FeelContext) : core.evaluateAll now [dec] input = core.evaluate dec now input :=
  SortedMap.ofList_entries _

/-! ## The decision path -/

def tableWinners (table : DmnDecisionTable) (firings : List RuleFiring) : List RuleFiring :=
  match table.hitPolicy with
  | .unique | .first | .any => firings.take 1
  | .collect | .ruleOrder => firings
  | .outputOrder =>
    match table.firstOutputWithPriorityList with
    | some clause => core.sortByRank clause firings
    | none => firings
  | .priority =>
    match table.firstOutputWithPriorityList with
    | none => firings.take 1
    | some clause => prioritized clause firings
where
  prioritized (clause : DmnOutputClause) : List RuleFiring → List RuleFiring
    | [] => []
    | first :: rest => [core.priorityWinner clause first rest]

def rowsOf (table : DmnDecisionTable) (rules : List RuleFiring) : List Value :=
  rules.map fun f => shapeRow table f.outputs

def shape (table : DmnDecisionTable) (aggregation : Option Aggregation) (ctx : FeelContext)
    (rules : List RuleFiring) : Except String Value :=
  match table.hitPolicy with
  | .collect =>
    if rules.isEmpty && (aggregation == some .min || aggregation == some .max) then
      core.noRuleFired table ctx
    else
      match aggregation with
      | some agg => core.aggregate agg (rowsOf table rules)
      | none => .ok (.list (rowsOf table rules))
  | .ruleOrder | .outputOrder => .ok (.list (rowsOf table rules))
  | _ =>
    match rules with
    | f :: _ => .ok (shapeRow table f.outputs)
    | [] => core.noRuleFired table ctx

theorem evalFirings_false (rules : List DmnRule) : core.evalFirings table false ctx rules =
      (core.collectFirings table ctx rules).map RuleFiring.outputs := by
  induction rules with
  | nil => rfl
  | cons rule rest ih =>
    by_cases h : core.fires table ctx rule
    · rw [evalFirings, collectFirings, if_pos h, if_pos h, if_neg nofun, ih]
      rfl
    · rw [evalFirings, collectFirings, if_neg h, if_neg h, ih]

theorem evalFirings_true (rules : List DmnRule) : core.evalFirings table true ctx rules =
      ((core.collectFirings table ctx rules).take 1).map RuleFiring.outputs := by
  induction rules with
  | nil => rfl
  | cons rule rest ih =>
    by_cases h : core.fires table ctx rule
    · rw [evalFirings, collectFirings, if_pos h, if_pos h]
      rfl
    · rw [evalFirings, collectFirings, if_neg h, if_neg h, ih]

variable (clause : DmnOutputClause)

/-- The two loops over ranks choose the same rule. -/
theorem foldl_minByRank (rest : List RuleFiring) :
    ∀ first, (rest.map RuleFiring.outputs).foldl (fun best c =>
      if core.rankOfOutput clause c < core.rankOfOutput clause best then c else best) first.outputs
      = (core.priorityWinner clause first rest).outputs := by
  induction rest with
  | nil => exact fun _ => rfl
  | cons g rest ih =>
    intro first
    rw [List.map_cons, foldl_cons, priorityWinner]
    split_ifs with h h' h'
    · exact ih g
    · exact absurd h h'
    · exact absurd h' h
    · exact ih first

theorem mergeSort_outputs (firings : List RuleFiring) :
    (firings.map RuleFiring.outputs).mergeSort (fun a b =>
      core.rankOfOutput clause a ≤ core.rankOfOutput clause b)
      = (core.sortByRank clause firings).map RuleFiring.outputs := by
  symm
  exact map_mergeSort (r := fun f g => core.rankOf clause f ≤ core.rankOf clause g)
    fun _ _ _ _ => rfl

/-- **The decision result is the shape of its winners.** -/
theorem evalTable_eq (aggregation : Option Aggregation)
    (ctx : FeelContext) : core.evalTable table aggregation ctx = core.shape table aggregation ctx
      (core.tableWinners table (core.collectFirings table ctx table.rules)) := by
  generalize hF : core.collectFirings table ctx table.rules = firings
  have hall := core.evalFirings_false table ctx table.rules
  have hfirst := core.evalFirings_true table ctx table.rules
  rw [hF] at hall hfirst
  cases hp : table.hitPolicy with
  | unique | first | any =>
    have hstop : (!returnsList table.hitPolicy && table.hitPolicy != .priority) = true := by
      rw [hp]
      rfl
    rw [hp] at hstop
    simp only [evalTable, shape, tableWinners, hp, hstop, hfirst]
    cases firings <;> rfl
  | collect | ruleOrder =>
    simp only [evalTable, shape, tableWinners, hp, returnsList, Bool.not_true, Bool.false_and, hall,
      isEmpty_map, List.map_map, rowsOf]
    rfl
  | outputOrder =>
    cases hlist : table.firstOutputWithPriorityList with
    | none =>
      simp only [evalTable, shape, tableWinners, hp, hlist, returnsList, Bool.not_true,
        Bool.false_and, hall, List.map_map, rowsOf]
      rfl
    | some clause =>
      simp only [evalTable, shape, tableWinners, hp, hlist, returnsList, Bool.not_true,
        Bool.false_and, hall, mergeSort_outputs, List.map_map, rowsOf]
      rfl
  | priority =>
    have hstop : (!returnsList .priority && HitPolicy.priority != .priority) = false := rfl
    cases hlist : table.firstOutputWithPriorityList with
    | none =>
      simp only [evalTable, shape, tableWinners, hp, hlist, hstop, hall]
      cases firings <;> rfl
    | some clause =>
      simp only [evalTable, shape, tableWinners, hp, hlist, hstop, hall]
      cases firings with
      | nil => rfl
      | cons first rest =>
        simp only [List.map_cons, minByRank, foldl_minByRank, tableWinners.prioritized]

/-! ## Agreement -/

def Agree (table : DmnDecisionTable) (firings : List RuleFiring) : Prop :=
  match core.winners table firings with
  | .ok rules => evaluateWinners firings = rules ∧ core.tableWinners table firings = rules
  | .error _ => evaluateWinners firings = [] ∧ core.tableWinners table firings = []

def OneAnswer (table : DmnDecisionTable) (firings : List RuleFiring) : Prop :=
  match firings with
  | [] => True
  | first :: rest =>
    rest = [] ∨ table.hitPolicy = .first ∨
      (table.hitPolicy = .any ∧ ∀ f ∈ rest, core.outputsAgree first.outputs f.outputs = true) ∨
      (table.hitPolicy = .priority ∧ ∃ clause, table.firstOutputWithPriorityList = some clause ∧
        ∀ f ∈ rest, core.rankOf clause first ≤ core.rankOf clause f)

theorem rankOf_priorityWinner_le (rest : List RuleFiring) : ∀ first, ∀ f ∈ first :: rest,
      core.rankOf clause (core.priorityWinner clause first rest) ≤ core.rankOf clause f := by
  induction rest with
  | nil =>
    intro first f hf
    rw [mem_singleton.mp hf, priorityWinner]
  | cons g rest ih =>
    intro first f hf
    rw [priorityWinner]
    rcases mem_cons.mp hf with rfl | hf
    · split_ifs with h
      · exact (ih g g (.head _)).trans h.le
      · exact ih f f (.head _)
    · split_ifs with h
      · exact ih g f hf
      · rcases mem_cons.mp hf with rfl | hf
        · exact (ih first first (.head _)).trans (not_lt.mp h)
        · exact ih first f (mem_cons_of_mem first hf)

theorem priorityWinner_eq_first {first : RuleFiring}
    (h : ∀ f ∈ rest, core.rankOf clause first ≤ core.rankOf clause f) :
    core.priorityWinner clause first rest = first := by
  induction rest with
  | nil => rfl
  | cons g rest ih =>
    rw [priorityWinner, if_neg (not_lt.mpr (h g mem_cons_self))]
    exact ih fun f hf => h f (mem_cons_of_mem g hf)

theorem priorityWinner_eq_first_iff (first : RuleFiring)
    (rest : List RuleFiring) : core.priorityWinner clause first rest = first ↔
      ∀ f ∈ rest, core.rankOf clause first ≤ core.rankOf clause f := by
  refine ⟨fun h f hf => ?_, core.priorityWinner_eq_first clause⟩
  have hle := core.rankOf_priorityWinner_le clause rest first f (mem_cons_of_mem first hf)
  rw [h] at hle
  exact hle

theorem length_sortByRank (firings : List RuleFiring) :
    (core.sortByRank clause firings).length = firings.length := length_mergeSort firings

theorem agree_singleton (first : RuleFiring) : core.Agree table [first] := by
  have hsort : ∀ clause, core.sortByRank clause [first] = [first] := fun _ =>
    mergeSort_singleton first
  rw [Agree, winners, tableWinners]
  cases table.hitPolicy with
  | unique | first | any | collect | ruleOrder => exact ⟨rfl, rfl⟩
  | priority => cases table.firstOutputWithPriorityList <;> exact ⟨rfl, rfl⟩
  | outputOrder =>
    cases table.firstOutputWithPriorityList with
    | none => exact ⟨rfl, rfl⟩
    | some clause => exact ⟨(hsort clause).symm, rfl⟩

theorem take_one_ne {g : RuleFiring} (h : rules.length = (f :: g :: rest).length) :
    ¬ (evaluateWinners (f :: g :: rest) = rules) := by
  intro heq
  have hlen := congrArg List.length heq
  rw [h] at hlen
  simp only [evaluateWinners, take_succ_cons, take_zero, length_cons, length_nil] at hlen
  omega

theorem not_agree_violation :
    ¬ (evaluateWinners (f :: rest) = [] ∧ rules = []) := fun h => cons_ne_nil _ _ h.1

/-- **When the selections are the same**, policy by policy. -/
theorem agree_iff (firings : List RuleFiring) :
    core.Agree table firings ↔ core.OneAnswer table firings := by
  match firings with
  | [] =>
    rw [Agree, winners, OneAnswer, tableWinners]
    refine ⟨fun _ => trivial, fun _ => ⟨rfl, ?_⟩⟩
    have hsort : ∀ clause, core.sortByRank clause [] = [] := fun _ => mergeSort_nil
    cases table.hitPolicy with
    | unique | first | any | collect | ruleOrder => rfl
    | priority => cases table.firstOutputWithPriorityList <;> rfl
    | outputOrder =>
      cases table.firstOutputWithPriorityList with
      | none => rfl
      | some clause => exact hsort clause
  | [first] => exact ⟨fun _ => .inl rfl, fun _ => core.agree_singleton table first⟩
  | first :: g :: rest =>
    have hmany : ¬ (g :: rest = []) := cons_ne_nil g rest
    rw [OneAnswer, or_iff_right hmany, Agree, winners, tableWinners]
    cases hp : table.hitPolicy with
    | unique =>
      exact iff_of_false not_agree_violation (by simp)
    | first => exact iff_of_true ⟨rfl, rfl⟩ (.inl rfl)
    | any =>
      simp only [reduceCtorEq, false_or, true_and, false_and, or_false, ← List.all_eq_true]
      split_ifs with hagree
      · exact iff_of_true ⟨rfl, rfl⟩ hagree
      · exact iff_of_false not_agree_violation hagree
    | collect | ruleOrder => exact iff_of_false (fun h => take_one_ne rfl h.1) (by simp)
    | outputOrder =>
      refine iff_of_false ?_ (by simp)
      cases table.firstOutputWithPriorityList with
      | none => exact fun h => take_one_ne rfl h.1
      | some clause => exact fun h => take_one_ne (core.length_sortByRank clause _) h.1
    | priority =>
      simp only [reduceCtorEq, false_or, true_and, false_and]
      cases table.firstOutputWithPriorityList with
      | none => exact iff_of_false not_agree_violation (by simp)
      | some clause =>
        simp only [Option.some.injEq, exists_eq_left', ← core.priorityWinner_eq_first_iff]
        constructor
        · intro h
          exact (List.cons.inj h.1).1.symm
        · intro h
          exact ⟨congrArg (· :: []) h.symm, rfl⟩

/-- **One decision table, one answer: exactly when.**  For every decision, every context and every
evaluation clock, the verdict is the report of its winners, the business rule task (also as a file
of one decision) the result map of the first rule, and the decision result the shape of its winners;
and the three select the same rules in the same order, with no rule selected on a violation, if and
only if the rules that fire leave one answer. -/
theorem evaluators_agree_iff (decision : DmnDecision) (now : Feel.OffsetDateTime)
    (input : FeelContext) (aggregation : Option Aggregation) :
    let ctx := withNow now input
    let firings := core.collectFirings decision.table ctx decision.table.rules
    core.validateAgainst decision ctx =
        core.report decision firings (core.winners decision.table firings) ∧
      core.evaluate decision now input = resultOf (evaluateWinners firings) ∧
      core.evaluateAll now [decision] input = resultOf (evaluateWinners firings) ∧
      core.evalTable decision.table aggregation ctx =
        core.shape decision.table aggregation ctx (core.tableWinners decision.table firings) ∧
      (core.Agree decision.table firings ↔ core.OneAnswer decision.table firings) := by
  have hevaluate := core.evaluateRules_eq decision.table (withNow now input) decision.table.rules
  refine ⟨core.applyHitPolicy_eq decision _, hevaluate, ?_, core.evalTable_eq decision.table _ _,
    core.agree_iff decision.table _⟩
  rw [evaluateAll_singleton]
  exact hevaluate

end FeelCore

/-! ## Two rules under `UNIQUE` -/

def literalCore : FeelCore where
  eval text _ := .ok (.string text)
  evalBoolean _ _ := .ok true
  toFullExpression entry := entry
  equals _ _ := true
  decimalText _ := ""
  temporalText _ := ""
  debugText _ := ""

def grading : DmnDecision where
  id := "grading"
  table :=
    { hitPolicy := .unique
      inputs := [⟨"amount"⟩]
      outputs := [⟨"out", some "grade", none, [], none⟩]
      rules := [⟨"r1", ["-"], ["low"]⟩, ⟨"r2", ["-"], ["high"]⟩] }

/-- A day. -/
def newYear : Feel.OffsetDateTime := ⟨⟨⟨2026, 1, 1, by decide⟩, ⟨0, 0, 0, 0, by decide⟩⟩, .utc⟩

/-- The verdict is a violation, and the other two evaluators answer with the first rule. -/
theorem grading_answers :
    literalCore.validateAgainst grading (FeelCore.withNow newYear SortedMap.empty) =
        .ok [⟨Codes.uniqueViolation, .error,
          "Decision 'grading' has hitPolicy=UNIQUE but 2 rules fired: [r1, r2]", none⟩] ∧
      (literalCore.evaluate grading newYear SortedMap.empty).entries = [("grade", .string "low")] ∧
      literalCore.evalTable grading.table none (FeelCore.withNow newYear SortedMap.empty) =
        .ok (.string "low") := by
  refine ⟨?_, ?_, ?_⟩
  · rfl
  · rfl
  · rfl

end Sutra.Dmn
