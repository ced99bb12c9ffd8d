import Sutra.Bpmn.Model

/-!
# Values, variables and errors of the executor

* `FeelValue` is what a process variable holds. The temporal, range and function values are kept
  as their canonical text (`FeelValue.other`): the executor never looks inside them.
* `Variables` is the insertion-ordered variable map.
* `ExecError` is what a pass fails with, `Signal` what a node raises towards its scope.
-/

namespace Sutra

structure Decimal where
  digits : Int
  scale : Int
  deriving DecidableEq

/-- The integer part as a 64-bit integer, when it fits. -/
def Decimal.toI64 (d : Decimal) : Option Int :=
  let n := if 0 ≤ d.scale then d.digits.tdiv (10 ^ d.scale.toNat)
    else d.digits * 10 ^ (-d.scale).toNat
  if -(2 ^ 63) ≤ n ∧ n < 2 ^ 63 then some n else none

/-- The value of a process variable. -/
inductive FeelValue where
  | null
  | boolean (b : Bool)
  | number (n : Decimal)
  | string (s : String)
  | list (items : List FeelValue)
  | map (entries : List (String × FeelValue))
  | other (canonical : String)

namespace FeelValue

def ofInt (n : Int) : FeelValue := .number ⟨n, 0⟩

def isNull : FeelValue → Bool
  | .null => true
  | _ => false

def field (k : String) : FeelValue → Option FeelValue
  | .map entries => (entries.find? fun e => e.1 == k).map Prod.snd
  | _ => none

/-- Write one field of a context, keeping the entries in key order. -/
def setField (k : String) (v : FeelValue) (entries : List (String × FeelValue)) : FeelValue :=
  .map (SortedMap.insertList entries k v)

end FeelValue

/-! ## The variable map -/

/-- The process variables: an insertion-ordered map. -/
structure Variables where
  entries : List (String × FeelValue)

namespace Variables

def empty : Variables := ⟨[]⟩

def get (v : Variables) (name : String) : Option FeelValue :=
  (v.entries.find? fun e => e.1 == name).map Prod.snd

def insertEntry (name : String) (value : FeelValue) :
    List (String × FeelValue) → List (String × FeelValue)
  | [] => [(name, value)]
  | e :: rest => if e.1 == name then (name, value) :: rest else e :: insertEntry name value rest

def insert (v : Variables) (name : String) (value : FeelValue) : Variables :=
  ⟨insertEntry name value v.entries⟩

/-- Write every entry of `other`, in its order. -/
def merge (v other : Variables) : Variables :=
  other.entries.foldl (fun acc e => acc.insert e.1 e.2) v

def toFeelContext (v : Variables) : FeelValue :=
  .map (v.entries.foldl (fun acc e => SortedMap.insertList acc e.1 e.2) [])

end Variables

/-! ## Errors and signals -/

/-- The failure of a pass. -/
inductive ExecError where
  | diagnostic (d : SutraError)
  | notYetImplemented (nodeId implementation : String)
  deriving DecidableEq

namespace ExecError

def diag (code message : String) : ExecError := .diagnostic ⟨code, message⟩

def message : ExecError → String
  | .diagnostic d => d.message
  | .notYetImplemented nodeId implementation =>
    s!"Service task '{nodeId}' is a channel-call task ({implementation}); " ++
      "channel-call execution (enqueue + park + correlate) is not implemented " ++
      "in the synchronous executor."

/-- The failure as listeners see it. -/
def toDiagnostic : ExecError → SutraError
  | .diagnostic d => d
  | e => ⟨"SUTRA.EXEC.NOT_YET_IMPLEMENTED", e.message⟩

end ExecError

/-- What a node raises towards the scope it runs in. -/
inductive Signal where
  | bpmnError (source code : String)
  /-- A cancel end event unwinding to the transaction around it. -/
  | txCancel
  /-- A terminal failure. -/
  | fatal (e : ExecError)
  | panic
  /-- The step budget of the model ran out. The executor has no such signal: nothing catches it
  and no result is reported for it. -/
  | outOfFuel
  deriving DecidableEq

def fatalDiag (code message : String) : Signal := .fatal (.diag code message)

inductive TaskFailure where
  | bpmn (code : String)
  | uncaught (message : String)
  | diag (d : SutraError)

/-- What a registered task function returns instead of a value. -/
inductive TaskError where
  | bpmnError (code : String)
  | failed (message : String)

namespace Codes

def runtimeUnexpected : String := "SUTRA.RUNTIME.UNEXPECTED"
def runtimeTaskUncaught : String := "SUTRA.RUNTIME.TASK.UNCAUGHT"
def runtimeErrorUncaught : String := "SUTRA.RUNTIME.ERROR.UNCAUGHT"
def runtimeCompensationFailed : String := "SUTRA.RUNTIME.COMPENSATION.FAILED"
def runtimeMultiInstanceCompletionFailed : String :=
  "SUTRA.RUNTIME.MULTI_INSTANCE.COMPLETION_FAILED"
def runtimeAdhocCompletionFailed : String := "SUTRA.RUNTIME.ADHOC.COMPLETION_FAILED"
def runtimeDatastoreConflict : String := "SUTRA.RUNTIME.DATASTORE.CONFLICT"
def runtimeDecodeNotText : String := "SUTRA.RUNTIME.DECODE.NOT_TEXT"
def runtimeDecodeFailed : String := "SUTRA.RUNTIME.DECODE.FAILED"
def runtimeDecodeTooLarge : String := "SUTRA.RUNTIME.DECODE.TOO_LARGE"
def runtimeDatastoreQueryNotNumeric : String := "SUTRA.RUNTIME.DATASTORE.QUERY_NOT_NUMERIC"
def runtimeDatastoreQueryInvalid : String := "SUTRA.RUNTIME.DATASTORE.QUERY_INVALID"
def runtimeRetryExhausted : String := "SUTRA.RUNTIME.RETRY.EXHAUSTED"
def runtimeTimerExpressionInvalid : String := "SUTRA.RUNTIME.TIMER.EXPRESSION_INVALID"
def dispatchNoMatch : String := "SUTRA.DISPATCH.NO_MATCH"
def dispatchFeelEvalFailed : String := "SUTRA.DISPATCH.FEEL_EVAL_FAILED"
def dispatchSubProcessNotFound : String := "SUTRA.DISPATCH.SUB_PROCESS_NOT_FOUND"
def dispatchChannelCallTimeout : String := "SUTRA.DISPATCH.CHANNEL_CALL.TIMEOUT"
def dispatchChannelCallUnsupportedContext : String :=
  "SUTRA.DISPATCH.CHANNEL_CALL.UNSUPPORTED_CONTEXT"
def dispatchRetryUnsupportedContext : String := "SUTRA.DISPATCH.RETRY.UNSUPPORTED_CONTEXT"
def outboundReplyDestRequiredNotSet : String := "SUTRA.OUTBOUND.REPLY_DEST_REQUIRED_NOT_SET"
def outboundReplyAuthResolverNotFound : String :=
  "SUTRA.OUTBOUND.REPLY_AUTH_RESOLVER_NOT_FOUND"
def outboundHeaderFeelEvalFailed : String := "SUTRA.OUTBOUND.HEADER_FEEL_EVAL_FAILED"
def configChannelOutboundUnknown : String := "SUTRA.CONFIG.CHANNEL.OUTBOUND_UNKNOWN"
def configCoverageStoreMissing : String := "SUTRA.CONFIG.COVERAGE.STORE_MISSING"
def resolveTemplateUnknown : String := "SUTRA.RESOLVE.TEMPLATE.UNKNOWN"
def resolveTaskUnknown : String := "SUTRA.RESOLVE.TASK.UNKNOWN"
def resolveModuleNotFound : String := "SUTRA.RESOLVE.MODULE.NOT_FOUND"
def parseDataAssociationUnsupported : String := "SUTRA.PARSE.DATA_ASSOCIATION.UNSUPPORTED"
def parseThrowSendRequired : String := "SUTRA.PARSE.THROW.SEND_REQUIRED"

end Codes

end Sutra
