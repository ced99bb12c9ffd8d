import Sutra.Feel.Value

/-!
# Decision tables and their three evaluators

A decision table has input clauses, output clauses, rules and a hit policy. Three functions of the
engine evaluate one. The expression engine is a parameter, `FeelCore`.

* `validateAgainst`: the verdict of the content validator.
* `evaluate`: the result map of a business rule task.
* `evalTable`: the result value of a decision in a requirements graph.
-/

namespace Sutra.Dmn

open Feel (Value)

abbrev FeelContext := SortedMap String Value

structure FeelCore where
  eval : String → FeelContext → Except String Value
  evalBoolean : String → FeelContext → Except String Bool
  toFullExpression : String → String
  equals : Value → Value → Bool
  decimalText : Decimal → String
  temporalText : Feel.Temporal → String
  debugText : Value → String

/-! ## The model of a table -/

inductive HitPolicy where
  | unique
  | first
  | collect
  | any
  | priority
  | outputOrder
  | ruleOrder
  deriving DecidableEq

structure DmnInputClause where
  expression : String
  deriving DecidableEq

structure DmnOutputClause where
  id : String
  name : Option String := none
  diagnosticCode : Option String := none
  outputValues : List String := []
  defaultOutput : Option String := none
  deriving DecidableEq

structure DmnRule where
  id : String
  inputEntries : List String
  outputEntries : List String
  deriving DecidableEq

structure DmnDecisionTable where
  hitPolicy : HitPolicy
  inputs : List DmnInputClause
  outputs : List DmnOutputClause
  rules : List DmnRule
  deriving DecidableEq

structure DmnDecision where
  id : String
  table : DmnDecisionTable
  deriving DecidableEq

structure EvaluatedOutput where
  clause : DmnOutputClause
  value : Value

structure RuleFiring where
  rule : DmnRule
  outputs : List EvaluatedOutput

/-- How grave an issue is. -/
inductive Severity where
  | error
  | warning
  deriving DecidableEq

structure ValidationIssue where
  code : String
  severity : Severity
  message : String
  value : Option Value

/-- How collected rows are collapsed. -/
inductive Aggregation where
  | sum
  | count
  | min
  | max
  deriving DecidableEq

namespace FeelCore

variable (core : FeelCore)

/-! ## The firing core -/

def inputContext (value : Value) (payload : FeelContext) : FeelContext :=
  payload.entries.foldl (fun m e => if m.contains e.1 then m else m.insert e.1 e.2)
    (SortedMap.empty.insert "input" value)

def entryHolds (payload : FeelContext) (clause : DmnInputClause) (entry : String) : Bool :=
  if Text.trim entry = "" ∨ Text.trim entry = "-" then true
  else
    match core.eval clause.expression payload with
    | .error _ => false
    | .ok value =>
      match core.evalBoolean (core.toFullExpression entry) (inputContext value payload) with
      | .ok b => b
      | .error _ => false

def ruleFires (rule : DmnRule) (table : DmnDecisionTable) (payload : FeelContext) : Bool :=
  (table.inputs.zip rule.inputEntries).all fun e => core.entryHolds payload e.1 e.2

def evaluateOutputs (rule : DmnRule) (table : DmnDecisionTable) (payload : FeelContext) :
    List EvaluatedOutput :=
  table.outputs.zipIdx.filterMap fun (clause, i) =>
    let entry := (rule.outputEntries[i]?).getD ""
    if Text.trim entry = "" then none
    else
      some ⟨clause, match core.eval entry payload with
        | .ok value => value
        | .error _ => .string entry⟩

def fires (table : DmnDecisionTable) (payload : FeelContext) (rule : DmnRule) : Bool :=
  rule.inputEntries.length == table.inputs.length && core.ruleFires rule table payload

def firing (table : DmnDecisionTable) (payload : FeelContext) (rule : DmnRule) : RuleFiring :=
  ⟨rule, core.evaluateOutputs rule table payload⟩

def stringify : Value → String
  | .null => "(null)"
  | .string s => s
  | v => Value.canonicalStringOf core.decimalText core.temporalText v

/-! ## Priorities -/

/-- The largest machine word: the rank of a value that is not in the list. -/
def unranked : Nat := 2 ^ 64 - 1

def rankOfOutput (clause : DmnOutputClause) (outputs : List EvaluatedOutput) : Nat :=
  match outputs.find? fun ev => ev.clause.id == clause.id with
  | some ev => (clause.outputValues.findIdx? fun v => v == core.stringify ev.value).getD unranked
  | none => unranked

def rankOf (clause : DmnOutputClause) (firing : RuleFiring) : Nat :=
  core.rankOfOutput clause firing.outputs

end FeelCore

namespace DmnDecisionTable

def firstOutputWithPriorityList (table : DmnDecisionTable) : Option DmnOutputClause :=
  table.outputs.find? fun o => !o.outputValues.isEmpty

def firstOutputId (table : DmnDecisionTable) : String := (table.outputs.head?.map (·.id)).getD ""

end DmnDecisionTable

/-! ## The verdict -/

namespace Codes

/-- More than one rule fired under a policy that allows one. -/
def uniqueViolation : String := "SUTRA.VALIDATE.DMN.UNIQUE_VIOLATION"

/-- Rules that fired disagree under the `ANY` policy. -/
def anyHitPolicyAmbiguous : String := "SUTRA.VALIDATE.DMN.ANY_HIT_POLICY_AMBIGUOUS"

/-- The default code of a fired rule. -/
def rulesetFailed : String := "SUTRA.VALIDATE.DMN.RULESET_FAILED"

def priorityMissingOutputValues : String := "SUTRA.VALIDATE.DMN.PRIORITY_MISSING_OUTPUT_VALUES"

def outputOrderMissingOutputValues : String :=
  "SUTRA.VALIDATE.DMN.OUTPUT_ORDER_MISSING_OUTPUT_VALUES"

def fileParseError : String := "SUTRA.VALIDATE.DMN.FILE_PARSE_ERROR"

end Codes

/-- Check a diagnostic code: the prefix and three to five segments. -/
def toCode (dotted : String) : Except SutraError String :=
  if !Text.startsWith "SUTRA." dotted then
    .error ⟨Codes.fileParseError,
      s!"Invalid <bpm:code> '{dotted}': DiagnosticCode must start with 'SUTRA.': {dotted}"⟩
  else
    let segments := (Text.split '.' dotted).length
    if segments < 3 ∨ 5 < segments then
      .error ⟨Codes.fileParseError, s!"Invalid <bpm:code> '{dotted}': " ++
        s!"DiagnosticCode must have 3-5 dotted segments (got {segments}): {dotted}"⟩
    else .ok dotted

def joinRuleIds (firings : List RuleFiring) : String :=
  ", ".intercalate (firings.map (·.rule.id))

namespace FeelCore

variable (core : FeelCore)

def strictEquals (a b : Value) : Bool :=
  match a, b with
  | .number x, .number y => x = y
  | _, _ => core.equals a b

/-- Whether two rules that fired have the same outputs. -/
def outputsAgree (a b : List EvaluatedOutput) : Bool :=
  a.length == b.length && (a.zip b).all fun e => core.strictEquals e.1.value e.2.value

variable (decision : DmnDecision)

def issueFor (ev : EvaluatedOutput) : Except SutraError ValidationIssue := do
  let code ← match ev.clause.diagnosticCode with
    | some dotted => toCode dotted
    | none => pure Codes.rulesetFailed
  pure ⟨code, .error, core.stringify ev.value,
    match ev.value with
    | .null => none
    | v => some v⟩

def issuesFor (firing : RuleFiring) : Except SutraError (List ValidationIssue) :=
  if firing.outputs.isEmpty then
    .ok [⟨Codes.rulesetFailed, .error,
      s!"Decision '{decision.id}' rule '{firing.rule.id}' fired", none⟩]
  else firing.outputs.mapM core.issueFor

def flatten : List RuleFiring → Except SutraError (List ValidationIssue)
  | [] => .ok []
  | f :: rest => do
    let issues ← core.issuesFor decision f
    let more ← flatten rest
    pure (issues ++ more)

def uniqueIssue (firings : List RuleFiring) : ValidationIssue :=
  ⟨Codes.uniqueViolation, .error, s!"Decision '{decision.id}' has hitPolicy=UNIQUE but " ++
    s!"{firings.length} rules fired: [{joinRuleIds firings}]", none⟩

def anyIssue (firings : List RuleFiring) : ValidationIssue :=
  ⟨Codes.anyHitPolicyAmbiguous, .error, s!"Decision '{decision.id}' has hitPolicy=ANY but " ++
    s!"rules disagree on output: [{joinRuleIds firings}]", none⟩

def missingOutputValuesWarning (code policyName outputId fallbackPolicy : String) :
    ValidationIssue :=
  ⟨code, .warning, s!"Decision '{decision.id}' output '{outputId}' has hitPolicy={policyName} " ++
    s!"but no <outputValues> priority list; falling back to {fallbackPolicy}", none⟩

def applyUnique (first : RuleFiring) (rest : List RuleFiring) :
    Except SutraError (List ValidationIssue) :=
  match rest with
  | [] => core.issuesFor decision first
  | _ :: _ => .ok [uniqueIssue decision (first :: rest)]

def applyAny (first : RuleFiring) (rest : List RuleFiring) :
    Except SutraError (List ValidationIssue) :=
  if rest.all fun f => core.outputsAgree first.outputs f.outputs then
    core.issuesFor decision first
  else .ok [anyIssue decision (first :: rest)]

def priorityWinner (clause : DmnOutputClause) (winner : RuleFiring) : List RuleFiring → RuleFiring
  | [] => winner
  | candidate :: rest =>
    if core.rankOf clause candidate < core.rankOf clause winner then
      priorityWinner clause candidate rest
    else priorityWinner clause winner rest

def applyPriority (first : RuleFiring) (rest : List RuleFiring) :
    Except SutraError (List ValidationIssue) :=
  match decision.table.firstOutputWithPriorityList with
  | none => do
    let issues ← core.applyUnique decision first rest
    pure (missingOutputValuesWarning decision Codes.priorityMissingOutputValues "PRIORITY"
      decision.table.firstOutputId "UNIQUE" :: issues)
  | some clause => core.issuesFor decision (core.priorityWinner clause first rest)

def sortByRank (clause : DmnOutputClause) (firings : List RuleFiring) : List RuleFiring :=
  firings.mergeSort fun f g => core.rankOf clause f ≤ core.rankOf clause g

def applyOutputOrder (firings : List RuleFiring) : Except SutraError (List ValidationIssue) :=
  match decision.table.firstOutputWithPriorityList with
  | none => do
    let issues ← core.flatten decision firings
    pure (missingOutputValuesWarning decision Codes.outputOrderMissingOutputValues "OUTPUT_ORDER"
      decision.table.firstOutputId "COLLECT" :: issues)
  | some clause => core.flatten decision (core.sortByRank clause firings)

def applyHitPolicy (firings : List RuleFiring) : Except SutraError (List ValidationIssue) :=
  match firings with
  | [] => .ok []
  | first :: rest =>
    match decision.table.hitPolicy with
    | .unique => core.applyUnique decision first rest
    | .first => core.issuesFor decision first
    | .any => core.applyAny decision first rest
    | .ruleOrder | .collect => core.flatten decision firings
    | .priority => core.applyPriority decision first rest
    | .outputOrder => core.applyOutputOrder decision firings

/-- The loop of the verdict path: every rule that fires, in document order. -/
def collectFirings (table : DmnDecisionTable) (payload : FeelContext) :
    List DmnRule → List RuleFiring
  | [] => []
  | rule :: rest =>
    if core.fires table payload rule then
      core.firing table payload rule :: collectFirings table payload rest
    else collectFirings table payload rest

/-- The verdict path. -/
def validateAgainst (safePayload : FeelContext) : Except SutraError (List ValidationIssue) :=
  core.applyHitPolicy decision (core.collectFirings decision.table safePayload decision.table.rules)

/-! ## The business rule task -/

/-- Inject the evaluation clock under its reserved name. -/
def withNow (now : Feel.OffsetDateTime) (context : FeelContext) : FeelContext :=
  context.insert "now" (.temporal (.instant now (some .zulu)))

def resultMap (outputs : List EvaluatedOutput) : SortedMap String Value :=
  outputs.foldl (fun out eo => match eo.clause.name with
    | some name => out.insert name eo.value
    | none => out) SortedMap.empty

def evaluateRules (table : DmnDecisionTable) (safe : FeelContext) :
    List DmnRule → SortedMap String Value
  | [] => SortedMap.empty
  | rule :: rest =>
    if core.fires table safe rule then resultMap (core.evaluateOutputs rule table safe)
    else evaluateRules table safe rest

def evaluate (now : Feel.OffsetDateTime) (input : FeelContext) : SortedMap String Value :=
  core.evaluateRules decision.table (withNow now input) decision.table.rules

/-- The business rule path for a decision file: every decision in document order, a later one
winning a name. -/
def evaluateAll (now : Feel.OffsetDateTime) (decisions : List DmnDecision) (input : FeelContext) :
    SortedMap String Value :=
  decisions.foldl (fun result d => (core.evaluate d now input).entries.foldl
    (fun r e => r.insert e.1 e.2) result) SortedMap.empty

/-! ## The decision result -/

def returnsList : HitPolicy → Bool
  | .collect | .outputOrder | .ruleOrder => true
  | _ => false

def evalFirings (table : DmnDecisionTable) (stopEarly : Bool) (ctx : FeelContext) :
    List DmnRule → List (List EvaluatedOutput)
  | [] => []
  | rule :: rest =>
    if core.fires table ctx rule then
      core.evaluateOutputs rule table ctx ::
        if stopEarly then [] else evalFirings table stopEarly ctx rest
    else evalFirings table stopEarly ctx rest

def shapeRow (table : DmnDecisionTable) (outputs : List EvaluatedOutput) : Value :=
  if table.outputs.length ≤ 1 then (outputs.head?.map (·.value)).getD .null
  else .map (SortedMap.ofList (outputs.zipIdx.map fun (o, i) =>
    (o.clause.name.getD s!"output{i + 1}", o.value))).entries

def defaultRow (table : DmnDecisionTable) (ctx : FeelContext) : Option Value :=
  if table.outputs.all fun o => o.defaultOutput.isNone then none
  else
    let values := table.outputs.map fun o =>
      ((o.defaultOutput.bind fun text => (core.eval text ctx).toOption).getD .null)
    if table.outputs.length ≤ 1 then some (values.head?.getD .null)
    else some (.map (SortedMap.ofList ((table.outputs.zip values).zipIdx.map fun (e, i) =>
      (e.1.name.getD s!"output{i + 1}", e.2))).entries)

def noRuleFired (table : DmnDecisionTable) (ctx : FeelContext) : Except String Value :=
  match core.defaultRow table ctx with
  | some v => .ok v
  | none => .error "no rule fired"

def addDecimal (a b : Decimal) : Decimal :=
  let scale := Max.max a.scale b.scale
  ⟨a.digits * 10 ^ (scale - a.scale).toNat + b.digits * 10 ^ (scale - b.scale).toNat, scale⟩

def sumRows (sum : Decimal) : List Value → Except String Value
  | [] => .ok (.number sum)
  | .number n :: rest => sumRows (addDecimal sum n) rest
  | other :: _ => .error s!"COLLECT SUM over a non-number: {core.debugText other}"

/-- The least or the greatest row, which must be numbers; the first of several. -/
def chooseRows (better : Decimal → Decimal → Bool) (chosen : Option Decimal) :
    List Value → Except String Value
  | [] =>
    match chosen with
    | some n => .ok (.number n)
    | none => .error "COLLECT MIN/MAX over an empty result"
  | .number n :: rest =>
    chooseRows better (match chosen with
      | none => some n
      | some c => if better n c then some n else some c) rest
  | other :: _ => .error s!"COLLECT MIN/MAX over a non-number: {core.debugText other}"

def aggregate (agg : Aggregation) (rows : List Value) : Except String Value :=
  match agg with
  | .count => .ok (.number ⟨rows.length, 0⟩)
  | .sum => core.sumRows ⟨0, 0⟩ rows
  | .min => core.chooseRows (fun n c => n.value < c.value) none rows
  | .max => core.chooseRows (fun n c => c.value < n.value) none rows

def minByRank (clause : DmnOutputClause) : List (List EvaluatedOutput) →
    Option (List EvaluatedOutput)
  | [] => none
  | o :: rest =>
    some (rest.foldl (fun best c =>
      if core.rankOfOutput clause c < core.rankOfOutput clause best then c else best) o)

def evalTable (table : DmnDecisionTable) (aggregation : Option Aggregation) (ctx : FeelContext) :
    Except String Value :=
  let stopEarly := !returnsList table.hitPolicy && table.hitPolicy != .priority
  let firings := core.evalFirings table stopEarly ctx table.rules
  match table.hitPolicy with
  | .collect =>
    if firings.isEmpty && (aggregation == some .min || aggregation == some .max) then
      core.noRuleFired table ctx
    else
      let rows := firings.map (shapeRow table)
      match aggregation with
      | some agg => core.aggregate agg rows
      | none => .ok (.list rows)
  | .ruleOrder => .ok (.list (firings.map (shapeRow table)))
  | .outputOrder =>
    let sorted := match table.firstOutputWithPriorityList with
      | some clause => firings.mergeSort fun a b =>
        core.rankOfOutput clause a ≤ core.rankOfOutput clause b
      | none => firings
    .ok (.list (sorted.map (shapeRow table)))
  | .priority =>
    let winner := match table.firstOutputWithPriorityList with
      | some clause => core.minByRank clause firings
      | none => firings.head?
    match winner with
    | some o => .ok (shapeRow table o)
    | none => core.noRuleFired table ctx
  | _ =>
    match firings.head? with
    | some o => .ok (shapeRow table o)
    | none => core.noRuleFired table ctx

end FeelCore

end Sutra.Dmn
