import Sutra.Select.Cubes

/-!
# The uniqueness of a channel's handlers

A channel that is not a broadcast has to resolve every message to one process. The lint checks this
of the start events that subscribe to it (`checkNonBroadcastUniqueness`).

* `groupVerdict`: those that the message types do not separate must have predicates whose cubes do
  not meet.
* `dedupByProcess`: only one start event of each process is compared, on the message types that are
  pinned or declared.
-/

namespace Sutra.Select

/-! ## Deployments -/

structure SourceBinding where
  channel : String
  messageTypeValue : Option String
  messageTypePattern : Option String
  filterExpression : Option FeelExpr
  exclusive : messageTypeValue = none ∨ messageTypePattern = none

structure StartEvent where
  id : String
  source : Option SourceBinding

def StartEvent.channels (s : StartEvent) : List String := (s.source.map (·.channel)).toList

/-- A process has its nodes by their ids. -/
structure Process where
  id : String
  startEvents : List StartEvent
  distinct : (startEvents.map (·.id)).Nodup

structure Codec where
  declaredMessageTypes : List String
  declaredAttributes : Option String → List AttributeSpec

structure ChannelDefinition where
  channelName : String
  codec : Codec
  broadcast : Bool

structure Deployment where
  processes : List Process
  channels : List ChannelDefinition
  distinct : (processes.map (·.id)).Nodup

/-! ## The vocabulary -/

/-- Append the values that are not there yet. -/
def pushNew {α : Type} [DecidableEq α] (out new : List α) : List α :=
  new.foldl (fun out x => if x ∈ out then out else out ++ [x]) out

def addSpec (union : SortedMap String AttributeSpec) (spec : AttributeSpec) :
    Option (SortedMap String AttributeSpec) :=
  match union.get spec.key with
  | none => some (union.insert spec.key spec)
  | some existing =>
    if existing.kind ≠ spec.kind then none
    else if existing.domain = [] ∨ spec.domain = [] then
      some (union.insert spec.key { existing with domain := [] })
    else some (union.insert spec.key
      { existing with domain := pushNew existing.domain spec.domain })

def unionSpecs (codec : Codec) : Option (SortedMap String AttributeSpec) :=
  codec.declaredMessageTypes.foldlM (fun union t =>
    (codec.declaredAttributes (some t)).foldlM addSpec union) .empty

def declaredSpecs (codec : Codec) (pinnedType : Option String) : Option (List AttributeSpec) :=
  match pinnedType with
  | some t => some (codec.declaredAttributes (some t))
  | none =>
    if codec.declaredMessageTypes = [] then some (codec.declaredAttributes none)
    else (unionSpecs codec).map fun union => union.entries.map Prod.snd

def declaredAttributes (codec : Codec) (pinnedType : Option String) :
    Option (SortedMap String AttributeSpec) :=
  match declaredSpecs codec pinnedType with
  | none | some [] => none
  | some specs => some (.ofList (specs.map fun s => (s.key, s)))

def vocabulary (codec : Codec) (pinnedType : Option String) : Specs :=
  (declaredAttributes codec pinnedType).elim (fun _ => none) SortedMap.get

/-! ## Subscribers -/

structure Subscriber where
  processId : String
  nodeId : String
  source : SourceBinding
  analysis : Except Opacity (List Cube)

def analysisOf (F : Feel) (codec : Codec) (source : SourceBinding) : Except Opacity (List Cube) :=
  match source.filterExpression with
  | none => .ok [Cube.any]
  | some e => analyse F (vocabulary codec source.messageTypeValue) e

def subscribersOfProcess (F : Feel) (chan : ChannelDefinition) (p : Process) : List Subscriber :=
  p.startEvents.filterMap fun s =>
    s.source.bind fun source =>
      if source.channel = chan.channelName then
        some ⟨p.id, s.id, source, analysisOf F chan.codec source⟩
      else none

def subscribersOf (F : Feel) (d : Deployment) (chan : ChannelDefinition) : List Subscriber :=
  d.processes.flatMap (subscribersOfProcess F chan)

/-! ## The checks of one predicate -/

/-- What makes a deployment fail to package. -/
inductive LintError where
  | selectAttributeUnknown (process node key : String)
  | selectTypeMismatch (process node key : String)
  | selectValueUnknown (process node key : String)
  | selectorUnsatisfiable (process node : String)
  | messageTypeUnknown (process value : String)
  | ambiguousHandler (channel messageType : String) (processes : List String)
  | selectorOverlap (channel messageType : String) (processes : List String)
  | selectorNotAnalysable (channel messageType : String) (processes : List String)
      (process node : String) (why : Opacity)
  deriving DecidableEq

def Construct.numericOperands : Construct → Bool
  | .arith | .range | .openRange => true
  | _ => false

def CompareOp.isNumeric : CompareOp → Bool
  | .lt | .le | .gt | .ge => true
  | .eq | .neq => false

mutual

def attributeRefs (numeric : Bool) : FeelExpr → List (String × Bool)
  | .literal _ => []
  | .path segments => ((keyOf (.path segments)).map fun key => (key, numeric)).toList
  | .compare left op right => attributeRefs op.isNumeric left ++ attributeRefs op.isNumeric right
  | .boolOp left _ right => attributeRefs false left ++ attributeRefs false right
  | .not arg => attributeRefs false arg
  | .negate arg => attributeRefs true arg
  | .inTest value test => attributeRefs false value ++ attributeRefs false test
  | .listLit items => attributeRefsList false items
  | .call _ args _ => attributeRefsList false args
  | .other .ifThenElse _ (cond :: branches) =>
    attributeRefs false cond ++ attributeRefsList numeric branches
  | .other construct _ args => attributeRefsList construct.numericOperands args

def attributeRefsList (numeric : Bool) : List FeelExpr → List (String × Bool)
  | [] => []
  | e :: rest => attributeRefs numeric e ++ attributeRefsList numeric rest

end

/-- The attribute and the literal of an equality. -/
def comparedPair (left right : FeelExpr) : Option (String × Lit) :=
  (comparison left .eq right).map fun c => (c.1, c.2.2)

mutual

def attributeComparisons : FeelExpr → List (String × Lit)
  | .literal _ | .path _ => []
  | .compare left op right =>
    (if op.isNumeric then [] else (comparedPair left right).toList) ++
      attributeComparisons left ++ attributeComparisons right
  | .inTest value test =>
    ((keyOf value).elim [] fun key =>
      ((testItems test).filterMap litOf).map fun lit => (key, lit)) ++
      attributeComparisons value ++ attributeComparisons test
  | .boolOp left _ right => attributeComparisons left ++ attributeComparisons right
  | .not arg | .negate arg => attributeComparisons arg
  | .listLit items => attributeComparisonsList items
  | .call _ args _ => attributeComparisonsList args
  -- the callee of an invocation is not searched
  | .other .invoke _ (_ :: args) => attributeComparisonsList args
  | .other _ _ args => attributeComparisonsList args

def attributeComparisonsList : List FeelExpr → List (String × Lit)
  | [] => []
  | e :: rest => attributeComparisons e ++ attributeComparisonsList rest

end

/-- The checks of the references against the declarations. An unknown attribute is reported once.
-/
def refErrors (process node : String) (specs : SortedMap String AttributeSpec) :
    List (String × Bool) → List String → List LintError
  | [], _ => []
  | (key, numeric) :: rest, reported =>
    match specs.get key with
    | none =>
      if key ∈ reported then refErrors process node specs rest reported
      else .selectAttributeUnknown process node key ::
        refErrors process node specs rest (key :: reported)
    | some spec =>
      if numeric ∧ ¬(spec.kind = .integer ∨ spec.kind = .decimal) then
        .selectTypeMismatch process node key :: refErrors process node specs rest reported
      else refErrors process node specs rest reported

def comparisonErrors (process node : String) (specs : SortedMap String AttributeSpec)
    (c : String × Lit) : List LintError :=
  match specs.get c.1 with
  | none => []
  | some spec =>
    if c.2.matchesKind spec.kind then
      match spec.closedDomain with
      | some domain => if c.2 ∈ domain then [] else [.selectValueUnknown process node c.1]
      | none => []
    else [.selectTypeMismatch process node c.1]

def checkSelectVocabulary (codec : Codec) (sub : Subscriber) : List LintError :=
  match sub.source.filterExpression, declaredAttributes codec sub.source.messageTypeValue with
  | some e, some specs =>
    refErrors sub.processId sub.nodeId specs (attributeRefs false e) [] ++
      (attributeComparisons e).flatMap (comparisonErrors sub.processId sub.nodeId specs)
  | _, _ => []

def checkSatisfiable (sub : Subscriber) : List LintError :=
  match sub.source.filterExpression, sub.analysis with
  | some _, .ok cubes =>
    if cubes ≠ [] ∧ cubes.all Cube.isUnsat then
      [.selectorUnsatisfiable sub.processId sub.nodeId]
    else []
  | _, _ => []

def checkPin (codec : Codec) (sub : Subscriber) : List LintError :=
  match sub.source.messageTypeValue with
  | some value =>
    if codec.declaredMessageTypes ≠ [] ∧ value ∉ codec.declaredMessageTypes then
      [.messageTypeUnknown sub.processId value]
    else []
  | none => []

/-! ## The checks of a group -/

/-- What is known of two predicates. -/
inductive Disjointness where
  | disjoint
  | overlap (witness : Cube)
  | unanalysable (why : Opacity)

def predDisjoint : Except Opacity (List Cube) → Except Opacity (List Cube) → Disjointness
  | .error why, _ | _, .error why => .unanalysable why
  | .ok a, .ok b =>
    match overlapWitness a b with
    | some witness => .overlap witness
    | none => .disjoint

/-- The verdict on a group that the message types do not separate. -/
inductive GroupVerdict where
  | disjoint
  | overlap (witness : Cube)
  | unanalysable (process node : String) (why : Opacity)

/-- Compare one subscriber with the others. An overlap ends the search; the first pair that is not
analysed is remembered, with the side that is not. -/
def comparePairs (a : Subscriber) :
    List Subscriber → Option GroupVerdict → Except Cube (Option GroupVerdict)
  | [], unanalysable => .ok unanalysable
  | b :: rest, unanalysable =>
    match predDisjoint a.analysis b.analysis with
    | .disjoint => comparePairs a rest unanalysable
    | .overlap witness => .error witness
    | .unanalysable why =>
      let culprit := match a.analysis with
        | .error _ => a
        | .ok _ => b
      comparePairs a rest
        (unanalysable.orElse fun _ => some (.unanalysable culprit.processId culprit.nodeId why))

def groupVerdict : List Subscriber → Option GroupVerdict → GroupVerdict
  | [], unanalysable => unanalysable.getD .disjoint
  | a :: rest, unanalysable =>
    match comparePairs a rest unanalysable with
    | .error witness => .overlap witness
    | .ok unanalysable => groupVerdict rest unanalysable

def reportGroup (channel messageType : String) (group : List Subscriber) : List LintError :=
  if group.length < 2 then []
  else
    let processes := group.map (·.processId)
    match groupVerdict group none with
    | .disjoint => []
    | .overlap _ =>
      if group.any fun s => s.source.filterExpression.isSome then
        [.selectorOverlap channel messageType processes]
      else [.ambiguousHandler channel messageType processes]
    | .unanalysable process node why =>
      [.selectorNotAnalysable channel messageType processes process node why]

def dedupByProcess : List Subscriber → List String → List Subscriber
  | [], _ => []
  | s :: rest, seen =>
    if s.processId ∈ seen then dedupByProcess rest seen
    else s :: dedupByProcess rest (s.processId :: seen)

/-! ## The check of a channel -/

namespace Subscriber

def isExact (s : Subscriber) : Bool := s.source.messageTypeValue.isSome

def isPattern (s : Subscriber) : Bool := !s.isExact && s.source.messageTypePattern.isSome

def isCatchAll (s : Subscriber) : Bool := !s.isExact && !s.source.messageTypePattern.isSome

end Subscriber

def candidates (exact : List Subscriber) (declared : List String) : List String :=
  pushNew [] (exact.filterMap (·.source.messageTypeValue) ++ declared)

/-- **A channel that is no broadcast resolves every message to one process.**  `fullMatch` says
whether a type matches a pattern end to end. -/
def checkNonBroadcastUniqueness (fullMatch : String → String → Bool) (channel : String)
    (subscribers : List Subscriber) (declared : List String) : List LintError :=
  let catchAll := subscribers.filter (·.isCatchAll)
  let exact := subscribers.filter (·.isExact)
  let patterns := subscribers.filter (·.isPattern)
  -- a catch-all claims every type
  (if catchAll.length > 1 ∨ (catchAll ≠ [] ∧ (exact ≠ [] ∨ patterns ≠ [])) then
    reportGroup channel "(catch-all)" (dedupByProcess (catchAll ++ exact ++ patterns) [])
  else []) ++
  (candidates exact declared).flatMap fun t =>
    reportGroup channel t (dedupByProcess
      (exact.filter (fun s => s.source.messageTypeValue = some t) ++
        patterns.filter (fun s => s.source.messageTypePattern.any (fullMatch t))) [])

def checkChannel (F : Feel) (fullMatch : String → String → Bool) (d : Deployment)
    (chan : ChannelDefinition) : List LintError :=
  let subscribers := subscribersOf F d chan
  subscribers.flatMap (checkSelectVocabulary chan.codec) ++
    subscribers.flatMap checkSatisfiable ++
    subscribers.flatMap (checkPin chan.codec) ++
    if chan.broadcast then []
    else checkNonBroadcastUniqueness fullMatch chan.channelName subscribers
      chan.codec.declaredMessageTypes

/-- **The channel-uniqueness lint.** -/
def checkChannelUniqueness (F : Feel) (fullMatch : String → String → Bool) (d : Deployment) :
    List LintError :=
  d.channels.flatMap (checkChannel F fullMatch d)

end Sutra.Select
