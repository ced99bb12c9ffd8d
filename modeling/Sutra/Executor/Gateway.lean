import Sutra.Executor.State

/-!
# Gateways

The four diverging and converging gateways. A diverging gateway fires some of its outgoing flows;
a converging one counts arrivals and fires once the set is complete. Each handler answers whether
the token was held back at the gateway.
-/

namespace Sutra

variable {ω : Type}

def isInclusiveJoin (p : ProcessDefinition) (nodeId : String) : Bool :=
  match p.node nodeId with
  | .ok (.inclusiveGateway _ _) => 1 < (p.incoming nodeId).length
  | _ => false

/-- Breadth-first search for the inclusive joins ahead of the queued nodes. The search does not go
past a join. A node pushes its outgoing flows at most once, so there are never more than
`flows + 1` nodes to take from the queue. -/
def searchInclusiveJoins (p : ProcessDefinition) :
    Nat → (queue seen hits : List String) → List String
  | 0, _, _, hits => hits
  | _ + 1, [], _, hits => hits
  | fuel + 1, cur :: queue, seen, hits =>
    if cur ∈ seen then searchInclusiveJoins p fuel queue seen hits
    else
      match p.node cur with
      | .error _ => searchInclusiveJoins p fuel queue (cur :: seen) hits
      | .ok _ =>
        if isInclusiveJoin p cur then
          searchInclusiveJoins p fuel queue (cur :: seen) (hits ++ [cur])
        else
          searchInclusiveJoins p fuel (queue ++ (p.outgoing cur).map (·.targetRef)) (cur :: seen)
            hits

def reachableInclusiveJoins (p : ProcessDefinition) (startId : String) : List String :=
  searchInclusiveJoins p (p.flows.length + 1) [startId] [] []

def ExecutionState.routeInclusiveFork (s : ExecutionState) (flow : SequenceFlow) : ExecutionState :=
  (reachableInclusiveJoins s.process flow.targetRef).foldl
    (fun s joinId => { s with
      inclusiveExpected :=
        Function.update s.inclusiveExpected joinId (s.inclusiveExpected joinId + 1) })
    (s.fire flow)

namespace TokenExecutor

variable (ex : TokenExecutor ω)

open Exec

def flowSatisfied (vars : Variables) (flow : SequenceFlow) : Except ExecError Bool :=
  match flow.condition with
  | none => .ok true
  | some cond => ex.conditionEvaluator cond vars

def chooseFlow (vars : Variables) (defaultFlowId : Option String) :
    List SequenceFlow → Except ExecError (Option SequenceFlow)
  | [] => .ok none
  | flow :: rest =>
    if defaultFlowId = some flow.id then chooseFlow vars defaultFlowId rest
    else
      match ex.flowSatisfied vars flow with
      | .error e => .error e
      | .ok true => .ok (some flow)
      | .ok false => chooseFlow vars defaultFlowId rest

def exclusiveChoice (p : ProcessDefinition) (vars : Variables) (id : String)
    (defaultFlowId : Option String) : Except Signal SequenceFlow :=
  match ex.chooseFlow vars defaultFlowId (p.outgoing id) with
  | .error e => .error (.fatal e)
  | .ok (some flow) => .ok flow
  | .ok none =>
    match defaultFlowId.bind fun d => (p.outgoing id).find? (fun f => f.id == d) with
    | some flow => .ok flow
    | none => .error (fatalDiag Codes.runtimeUnexpected
        s!"ExclusiveGateway {id} has no satisfied condition and no default flow")

def handleExclusive (id : String) (defaultFlowId : Option String) : Exec ω Unit := do
  let p ← process
  let current ← vars
  let flow ← Prog.ofExcept (ex.exclusiveChoice p current id defaultFlowId)
  modifyState (·.fire flow)

/-- Fire every flow other than the default whose condition holds; answers whether any did. -/
def forkSatisfied (vars : Variables) (defaultFlowId : Option String) :
    List SequenceFlow → Exec ω Bool
  | [] => pure false
  | flow :: rest =>
    if defaultFlowId = some flow.id then forkSatisfied vars defaultFlowId rest
    else do
      let satisfied ← liftEval (ex.flowSatisfied vars flow)
      modifyState fun s => if satisfied then s.routeInclusiveFork flow else s
      let more ← forkSatisfied vars defaultFlowId rest
      pure (satisfied || more)

def handleInclusiveFork (id : String) (defaultFlowId : Option String) (noFlow : Signal) :
    Exec ω Unit := do
  let p ← process
  let current ← vars
  let taken ← ex.forkSatisfied current defaultFlowId (p.outgoing id)
  if taken then pure ()
  else
    match defaultFlowId.bind fun d => (p.outgoing id).find? (fun f => f.id == d) with
    | some flow => modifyState (·.routeInclusiveFork flow)
    | none => fail noFlow

def notifyLeft (nodeId nodeType : String) : Exec ω Unit := do
  let st ← state
  if st.ghost then pure () else notify (.tokenLeft nodeId nodeType)

def handleInclusive (id : String) (defaultFlowId : Option String) : Exec ω Bool := do
  let st ← state
  if 1 < (st.process.incoming id).length then
    let arrivals := st.inclusiveArrivals id + 1
    modifyState fun s =>
      { s with inclusiveArrivals := Function.update s.inclusiveArrivals id arrivals }
    let expected := st.inclusiveExpected id
    if 0 < expected ∧ arrivals < expected then
      notifyLeft id "inclusiveGateway"
      pure true
    else
      modifyState fun s =>
        { s with
          inclusiveArrivals := Function.update s.inclusiveArrivals id 0
          inclusiveExpected := Function.update s.inclusiveExpected id 0 }
      modifyState (·.enqueueOutgoing id)
      pure false
  else
    ex.handleInclusiveFork id defaultFlowId (fatalDiag Codes.runtimeUnexpected
      s!"InclusiveGateway {id} has no satisfied condition and no default flow")
    pure false

/-- A parallel gateway: a converging one waits for as many tokens as it has incoming flows, and its
count starts over when it fires. -/
def handleParallel (id : String) : Exec ω Bool := do
  let st ← state
  let incoming := (st.process.incoming id).length
  if 1 < incoming then
    let arrived := st.parallelArrivals id + 1
    if arrived < incoming then
      modifyState fun s =>
        { s with parallelArrivals := Function.update s.parallelArrivals id arrived }
      notifyLeft id "parallelGateway"
      pure true
    else
      modifyState fun s => { s with parallelArrivals := Function.update s.parallelArrivals id 0 }
      modifyState (·.enqueueOutgoing id)
      pure false
  else
    modifyState (·.enqueueOutgoing id)
    pure false

def complexFires (activationCondition : Option String) (arrived expected : Nat) (vars : Variables) :
    Except ExecError Bool :=
  match activationCondition with
  | none => .ok (expected ≤ arrived)
  | some cond => ex.conditionEvaluator cond
      ((vars.insert "arrivedCount" (.ofInt arrived)).insert "expectedCount" (.ofInt expected))

/-- A complex gateway: an inclusive fork, or an N-of-M join that fires once and absorbs later
tokens. -/
def handleComplex (id : String) (defaultFlowId activationCondition : Option String) :
    Exec ω Bool := do
  let st ← state
  let current ← vars
  let expected := (st.process.incoming id).length
  if 1 < expected then
    if id ∈ st.complexFired then
      notifyLeft id "complexGateway"
      pure true
    else
      let arrived := st.complexArrivals id + 1
      modifyState fun s =>
        { s with complexArrivals := Function.update s.complexArrivals id arrived }
      let fires ← liftEval (ex.complexFires activationCondition arrived expected current)
      if fires then
        modifyState fun s =>
          { s with
            complexFired := s.complexFired ++ [id]
            complexArrivals := Function.update s.complexArrivals id 0 }
        modifyState (·.enqueueOutgoing id)
        pure false
      else
        notifyLeft id "complexGateway"
        pure true
  else
    ex.handleInclusiveFork id defaultFlowId (fatalDiag Codes.runtimeUnexpected
      (s!"ComplexGateway {id} (diverging) has no satisfied condition and no " ++ "default flow"))
    pure false

end TokenExecutor

end Sutra
