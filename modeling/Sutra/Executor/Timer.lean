import Sutra.Executor.State

/-!
# Timers and retries

* `computeDueAt`, `recordTimerWait`, `scheduleTimerBoundaries`: arming a timer.
* `rearmFiredBoundary`: re-arming a recurring boundary.
* `planRetry`: the verdict on a failed attempt of a retried task: park on a backoff timer, fail for
  good, or no policy at all.
-/

namespace Sutra

variable {ω : Type}

def ExecError.display (e : ExecError) : String :=
  let d := e.toDiagnostic
  s!"[{d.code}] {e.message}"

namespace TokenExecutor

variable (ex : TokenExecutor ω)

open Exec

def deploymentConfigValue (deployment : DeploymentId) : FeelValue :=
  .map ((((ex.deploymentConfig deployment).getD []).map fun e => (e.1, FeelValue.string e.2)).foldl
    (fun acc e => SortedMap.insertList acc e.1 e.2) [])

def timerVariables (deployment : DeploymentId) (vars : Variables) : Variables :=
  vars.insert "config" (ex.deploymentConfigValue deployment)

def evaluateTimerExpression (form : TimerExpressionForm) (expression : String) (vars : Variables) :
    Except String TimerDefinition :=
  match ex.valueEvaluator expression vars with
  | .error e => .error ("it did not evaluate: " ++ e.display)
  | .ok value => ex.resolveTimerExpressionValue form value

def resolveTimer (timer : TimerDefinition) (nodeId : String) : Exec ω TimerDefinition := do
  match timer with
  | .expression form expression =>
    let st ← state
    let vars ← vars
    match ex.evaluateTimerExpression form expression (ex.timerVariables st.deployment vars) with
    | .ok t => pure t
    | .error reason =>
      let element := form.elementName
      fail (fatalDiag Codes.runtimeTimerExpressionInvalid
        s!"timer '{nodeId}' <{element}> expression '{expression}' could not be armed: {reason}")
  | t => pure t

def computeDueAt (timer : TimerDefinition) (nodeId : String) : Exec ω String := do
  let timer ← ex.resolveTimer timer nodeId
  let now ← callOut ex.nowSupplier
  match ex.firstDueAt timer now with
  | .ok due => pure due
  | .error rejection =>
    let spec := timer.specText
    fail (fatalDiag Codes.runtimeUnexpected
      s!"timer node '{nodeId}' spec '{spec}' failed to schedule: {rejection}")

def recordTimerWait (nodeId dueAt : String) : Exec ω Unit := do
  modifyState fun s => { s with timerWaits := s.timerWaits ++ [⟨nodeId, dueAt⟩] }
  notify (.timerScheduled nodeId dueAt)

def freshTimerBoundaries (hostId : String) : List Node → Exec ω (List (String × String))
  | [] => pure []
  | .boundaryEvent boundaryId attachedToRef .timer _ _ _ (some timer) :: rest => do
    let st ← state
    if attachedToRef ≠ hostId ∨ boundaryId ∈ st.timerWaits.map TimerWait.nodeId then
      freshTimerBoundaries hostId rest
    else
      let dueAt ← ex.computeDueAt timer boundaryId
      let more ← freshTimerBoundaries hostId rest
      pure ((boundaryId, dueAt) :: more)
  | _ :: rest => freshTimerBoundaries hostId rest

def scheduleTimerBoundaries (hostId : String) : Exec ω Unit := do
  let p ← process
  let fresh ← ex.freshTimerBoundaries hostId p.nodes
  Prog.forEach fresh fun b => recordTimerWait b.1 b.2

/-- Re-arm a fired non-interrupting boundary for its next occurrence, when it recurs. -/
def rearmFiredBoundary (fired : FiredTimer) : Exec ω Unit := do
  match fired.timer with
  | some (.cycle spec) =>
    let now ← callOut ex.nowSupplier
    match ex.advanceCycle spec now with
    | .ok (some due) => recordTimerWait fired.boundaryId due
    | .ok none => pure ()
    | .error rejection =>
      let boundaryId := fired.boundaryId
      fail (fatalDiag Codes.runtimeUnexpected
        s!"recurring boundary '{boundaryId}' could not advance its cycle: {rejection}")
  | _ => pure ()

/-! ## Retries -/

def failureClassificationCode (message : String) : String :=
  let trimmed := message.toList.dropWhile Text.isSpace
  if ':' ∈ trimmed then
    let candidate := trimmed.takeWhile (· ≠ ':')
    if !candidate.isEmpty && candidate.all (fun c => c.isUpper || c.isDigit || c == '_' || c == '.')
    then String.ofList candidate
    else Codes.runtimeTaskUncaught
  else Codes.runtimeTaskUncaught

inductive RetryDisposition where
  | park (dueAt : String) (attempt : Nat)
  | fail (e : ExecError)
  | noPolicy

def retryDelay (raw : String) (isExpression : Bool) (vars : Variables) : Except String Nat :=
  if isExpression then
    match ex.valueEvaluator raw vars with
    | .error e => .error ("it did not evaluate: " ++ e.display)
    | .ok value => ex.durationFromFeelValue value
  else ex.parseIso8601Duration raw

def parseRetryDelay (id raw : String) (isExpression : Bool) (which : String) (vars : Variables) :
    Except Signal Nat :=
  match ex.retryDelay raw isExpression vars with
  | .ok d => .ok d
  | .error reason => .error <|
    if isExpression then
      fatalDiag Codes.runtimeTimerExpressionInvalid
        s!"<q:retry> on node '{id}' @{which} expression '{raw}' could not be armed: {reason}"
    else
      fatalDiag Codes.runtimeUnexpected
        (s!"<q:retry> on node '{id}' has an unparseable @{which} '{raw}' at runtime ({reason}); " ++
          "the loader validates it, so this is an engine-internal inconsistency.")

def computeRetryDueAt (id : String) (policy : RetryBinding) (attempt : Nat) : Exec ω String := do
  let st ← state
  let current ← vars
  let vars := if policy.initialDelayExpression || policy.maxDelayExpression then
    ex.timerVariables st.deployment current else .empty
  let initialMs ← Prog.ofExcept (ex.parseRetryDelay id policy.initialDelay
    policy.initialDelayExpression "initialDelay" vars)
  let ceilingMs ← Prog.ofExcept (ex.parseRetryDelay id policy.maxDelay
    policy.maxDelayExpression "maxDelay" vars)
  if ceilingMs < initialMs then
    fail (fatalDiag Codes.runtimeTimerExpressionInvalid
      (s!"<q:retry> on node '{id}' resolved @maxDelay ({ceilingMs} ms) below " ++
        s!"@initialDelay ({initialMs} ms); the ceiling clamps the growing delay, so it " ++
        "can never be the smaller of the two"))
  else
    let now ← callOut ex.nowSupplier
    match ex.backoffDueAt now initialMs ceilingMs policy.backoffCoefficient attempt with
    | .ok due => pure due
    | .error e => fail (fatalDiag Codes.runtimeUnexpected
        s!"retry due-at for node '{id}' could not be formatted: {e}")

/-- **The verdict on a failed attempt.** -/
def planRetry (id : String) (parkable : Bool) (failureMessage : String) :
    Exec ω RetryDisposition := do
  let st ← state
  match st.process.retryPolicy id with
  | none => pure .noPolicy
  | some policy =>
    if !parkable then
      pure (.fail (.diag Codes.dispatchRetryUnsupportedContext
        (s!"<serviceTask> '{id}' declares <q:retry> but failed inside a " ++
          "multi-instance / ad-hoc / compensation / embedded sub-process scope, " ++
          "which cannot park the durable backoff timer a retry needs. Model the " ++
          "retried task at the top level of the process. Underlying failure: " ++
          failureMessage)))
    else
      let attempt := (st.retryAttempts.get id).getD 0 + 1
      let classification := failureClassificationCode failureMessage
      let budget := policy.maxAttempts
      if classification ∈ policy.nonRetryableCodes then
        pure (.fail (.diag Codes.runtimeRetryExhausted
          (s!"<serviceTask> '{id}' failed on attempt {attempt} of {budget} with " ++
            s!"classification '{classification}', which its <q:retry " ++
            "nonRetryableCodes> declares NON-RETRYABLE; the remaining attempts are " ++
            "skipped and the instance fails now. Underlying failure: " ++ failureMessage)))
      else if policy.maxAttempts ≤ attempt then
        pure (.fail (.diag Codes.runtimeRetryExhausted
          (s!"<serviceTask> '{id}' exhausted its <q:retry maxAttempts=\"{budget}\"> budget " ++
            s!"(attempt {attempt} failed). Underlying failure: " ++ failureMessage)))
      else
        let dueAt ← ex.computeRetryDueAt id policy attempt
        pure (.park dueAt attempt)

end TokenExecutor

end Sutra
