import Sutra.Lib.Run

/-!
# Channel calls and their attempts

A channel call sends a request and waits for the answer. When its timeout fires or its request
cannot be delivered, the attempt is given up: the call waits for its next attempt, with a marker in
the snapshot (`retryBackoff`), its request is withdrawn and its timeout resolved. Three paths lead
to a call:

* a *relay* is refused when the node that it names has the marker, and may be rebound after that;
* the *wake* of a poisoned delivery needs a call without the marker and a poisoned row of the node;
* the *fire* of a timeout is stale when the host has the marker.

The attempts are numbered here.
-/

namespace Sutra.Call

open Function

/-- What the guards and the retry policy read of a process. -/
structure Graph where
  /-- The node takes messages from the channel. -/
  subscribes : String → String → Bool
  isCall : String → Bool
  attachedTo : String → Option String
  interrupting : String → Bool
  /-- The boundary has an outgoing flow. -/
  routed : String → Bool
  maxAttempts : String → Option Nat
  nonRetryable : String → String → Bool
  retryParkable : String → Bool
  /-- A boundary or an event subprocess catches the failure code at the node. -/
  catches : String → String → Bool

/-- The failure of a call that was not answered in time. -/
def dispatchChannelCallTimeout : String := "SUTRA.DISPATCH.CHANNEL_CALL.TIMEOUT"

def outboundDeliveryAttemptsExhausted : String := "SUTRA.OUTBOUND.DELIVERY_ATTEMPTS_EXHAUSTED"

structure Relay where
  named : String
  candidates : List String
  channel : String

structure DueTimeout where
  boundary : String
  attempt : Nat
  deriving DecidableEq

structure World where
  suspended : Bool
  waiting : List String
  retryBackoff : String → Option String
  /-- The failed attempts that count against the budget. -/
  retryAttempts : String → Nat
  /-- The outbox rows of a node, by attempt; `true` when the row is poisoned. -/
  requests : String → Nat → Option Bool
  /-- The attempt whose timeout a boundary waits for. -/
  timeouts : String → Option Nat
  pollers : Nat → Option DueTimeout
  wakes : List String
  /-- The requests sent so far. This and what follows is not stored anywhere. -/
  attempt : String → Nat
  abandoned : String → Nat → Bool
  strayed : List String
  /-- The calls whose budget an attempt that was given up was counted against. -/
  mischarged : List String

def World.initial : World where
  suspended := true
  waiting := []
  retryBackoff := fun _ => none
  retryAttempts := fun _ => 0
  requests := fun _ _ => none
  timeouts := fun _ => none
  pollers := fun _ => none
  wakes := []
  attempt := fun _ => 0
  abandoned := fun _ _ => false
  strayed := []
  mischarged := []

/-! ## The guards -/

def Graph.rebindRelayToWaiting (g : Graph) (waiting : List String) (r : Relay) : String :=
  if waiting.contains r.named then r.named
  else
    (if r.candidates.isEmpty then waiting.find? fun n => g.subscribes n r.channel
      else r.candidates.find? fun n => waiting.contains n && g.subscribes n r.channel).getD r.named

namespace World

variable (a : World)

def relayTarget (g : Graph) (r : Relay) : Option String :=
  if !a.suspended then none
  else if (a.retryBackoff r.named).isSome then none
  else
    let node := g.rebindRelayToWaiting a.waiting r
    if a.waiting.contains node then some node else none

def awaits (n : String) : Bool :=
  a.suspended && a.waiting.contains n && (a.retryBackoff n).isNone

/-- There is a row of the node that was given up on. -/
def PoisonedCallEmissionExists (n : String) : Prop := ∃ k, a.requests n k = some true

def wakeApplies (g : Graph) (n : String) : Bool :=
  a.awaits n && g.isCall n &&
    ((g.maxAttempts n).isSome || g.catches n outboundDeliveryAttemptsExhausted)

/-! ## What a step does -/

def resolveTimeouts (g : Graph) (n : String) : World :=
  { a with timeouts := fun b => if g.attachedTo b = some n then none else a.timeouts b }

def leaveWait (g : Graph) (n : String) : World :=
  { a.resolveTimeouts g n with waiting := a.waiting.filter fun x => x != n }

def clearRetry (n : String) : World :=
  { a with
    retryBackoff := update a.retryBackoff n none
    retryAttempts := update a.retryAttempts n 0 }

def satisfy (g : Graph) (n : String) : World :=
  if g.isCall n then (a.clearRetry n).leaveWait g n else a.leaveWait g n

def request (g : Graph) (n : String) : World :=
  { a with
    attempt := update a.attempt n (a.attempt n + 1)
    requests := update a.requests n (update (a.requests n) (a.attempt n + 1) (some false))
    timeouts := fun b => if g.attachedTo b = some n then some (a.attempt n + 1) else a.timeouts b }

def backOff (g : Graph) (n code : String) : World :=
  { a.resolveTimeouts g n with
    retryBackoff := update a.retryBackoff n (some code)
    retryAttempts := update a.retryAttempts n (a.retryAttempts n + 1)
    requests := update a.requests n fun _ => none
    abandoned := update a.abandoned n (update (a.abandoned n) (a.attempt n) true) }

/-- The policy allows another attempt after this failure. -/
def planRetry (g : Graph) (n code : String) : Bool :=
  match g.maxAttempts n with
  | none => false
  | some max => g.retryParkable n && !g.nonRetryable n code && a.retryAttempts n + 1 < max

def raiseChannelCallFailure (g : Graph) (n code : String) : World :=
  if g.catches n code then (a.clearRetry n).leaveWait g n else { a with suspended := false }

def parkOrFailChannelCallRetry (g : Graph) (n code : String) : World :=
  if a.planRetry g n code then a.backOff g n code else a.raiseChannelCallFailure g n code

def routeTimerBoundary (g : Graph) (b n : String) : World :=
  if g.routed b || g.catches n dispatchChannelCallTimeout then a.leaveWait g n
  else { a with suspended := false }

/-- Note a failure of the attempt `k`. -/
def charge (n : String) (k : Nat) : World :=
  { a with mischarged := a.mischarged ++ if a.abandoned n k then [n] else [] }

def release (p : Nat) : World := { a with pollers := update a.pollers p none }

end World

/-- What can happen. -/
inductive Event where
  | callOut (n : String)
  | park (n : String)
  | leave (n : String)
  | relay (r : Relay)
  | redrive (n : String)
  | withdraw (n : String)
  | deliver (n : String) (k : Nat)
  | poison (n : String) (k : Nat)
  | wake (n : String)
  | pollDue (p : Nat)
  | fire (p : Nat)
  | stale (p : Nat)
  | pollStop (p : Nat)

/-- **One atomic step.** -/
inductive Step (g : Graph) : World → Event → World → Prop where
  | callOut {a : World} (n : String) (hcall : g.isCall n = true) (hnew : n ∉ a.waiting)
      (hlive : a.suspended = true) :
      Step g a (.callOut n) { a.request g n with waiting := a.waiting ++ [n] }
  | park {a : World} (n : String) (hcall : g.isCall n = false) (hnew : n ∉ a.waiting)
      (hlive : a.suspended = true) :
      Step g a (.park n) { a with waiting := a.waiting ++ [n] }
  | leave {a : World} (n : String) (hwait : n ∈ a.waiting) : Step g a (.leave n) (a.leaveWait g n)
  | relay {a : World} (r : Relay) (n : String) (htarget : a.relayTarget g r = some n) :
      Step g a (.relay r)
        { a.satisfy g n with
          strayed := a.strayed ++ if (a.retryBackoff n).isSome then [n] else [] }
  | refused {a : World} (r : Relay) (htarget : a.relayTarget g r = none) : Step g a (.relay r) a
  /-- The time of the next attempt has come. -/
  | redrive {a : World} (n : String) (hlive : a.suspended = true) (hwait : n ∈ a.waiting)
      (hmark : (a.retryBackoff n).isSome = true) :
      Step g a (.redrive n) { a.request g n with retryBackoff := update a.retryBackoff n none }
  | withdraw {a : World} (n : String) (hmark : (a.retryBackoff n).isSome = true) :
      Step g a (.withdraw n) { a with requests := update a.requests n fun _ => none }
  | deliver {a : World} (n : String) (k : Nat) :
      Step g a (.deliver n k)
        { a with requests := update a.requests n (update (a.requests n) k none) }
  /-- A request is given up on; its row is marked if it is still there. -/
  | poison {a : World} (n : String) (k : Nat) :
      Step g a (.poison n k)
        { a with
          requests := update a.requests n
            (update (a.requests n) k ((a.requests n k).map fun _ => true))
          wakes := a.wakes ++ [n] }
  | wake {a : World} (n : String) (k : Nat) (hwake : n ∈ a.wakes)
      (happly : a.wakeApplies g n = true) (hevidence : a.requests n k = some true) :
      Step g a (.wake n)
        ((({ a with wakes := a.wakes.erase n }).charge n k).parkOrFailChannelCallRetry g n
          outboundDeliveryAttemptsExhausted)
  | ignore {a : World} (n : String) (hwake : n ∈ a.wakes)
      (hnot : a.wakeApplies g n = false ∨ ¬ a.PoisonedCallEmissionExists n) :
      Step g a (.wake n) { a with wakes := a.wakes.erase n }
  | pollDue {a : World} (p : Nat) (b : String) (k : Nat) (hidle : a.pollers p = none)
      (hdue : a.timeouts b = some k) :
      Step g a (.pollDue p) { a with pollers := update a.pollers p (some ⟨b, k⟩) }
  /-- A timeout of a call, without a flow of its own, is a failure that the policy rules on. -/
  | fire {a : World} (p : Nat) (b n : String) (k : Nat) (hp : a.pollers p = some ⟨b, k⟩)
      (hhost : g.attachedTo b = some n) (hawaits : a.awaits n = true)
      (hcall : g.isCall n = true) (hinterrupting : g.interrupting b = true)
      (hroute : g.routed b = false) (hpolicy : (g.maxAttempts n).isSome = true) :
      Step g a (.fire p)
        (((a.release p).charge n k).parkOrFailChannelCallRetry g n dispatchChannelCallTimeout)
  | fireRouted {a : World} (p : Nat) (b n : String) (k : Nat) (hp : a.pollers p = some ⟨b, k⟩)
      (hhost : g.attachedTo b = some n) (hawaits : a.awaits n = true)
      (hinterrupting : g.interrupting b = true)
      (hroute : g.isCall n = false ∨ g.routed b = true ∨ g.maxAttempts n = none) :
      Step g a (.fire p) ((a.release p).routeTimerBoundary g b n)
  | fireAside {a : World} (p : Nat) (b n : String) (k : Nat) (cycle : Bool)
      (hp : a.pollers p = some ⟨b, k⟩) (hhost : g.attachedTo b = some n)
      (hawaits : a.awaits n = true) (hinterrupting : g.interrupting b = false) :
      Step g a (.fire p)
        { (a.release p).resolveTimeouts g n with
          timeouts := fun x => if g.attachedTo x = some n then
            (if x = b ∧ cycle = true then some (a.attempt n) else none) else a.timeouts x }
  | stale {a : World} (p : Nat) (b n : String) (k : Nat) (hp : a.pollers p = some ⟨b, k⟩)
      (hhost : g.attachedTo b = some n) (hawaits : a.awaits n = false) :
      Step g a (.stale p) { a.release p with timeouts := update a.timeouts b none }
  | pollStop {a : World} (p : Nat) : Step g a (.pollStop p) (a.release p)

end Sutra.Call
