import Sutra.Executor.Timer

/-!
# Data tasks and data stores

A data task reads rows into variables, decodes messages, computes assignments and writes rows
back, in that order. Outside a transaction every operation goes straight to the store. Inside one
(`ExecutionState.storeTx` is present) reads and writes go to a private copy of the rows.

* `txFor` opens the copy on first use.
* `commitStoreTx` publishes it, `rollbackStoreTx` discards it.
-/

namespace Sutra

variable {ω : Type}

def findErrorBoundary (p : ProcessDefinition) (source code : String) : Option String :=
  p.nodes.findSome? fun
    | .boundaryEvent id attachedToRef .error errorCode _ _ _ =>
      if attachedToRef = source ∧ (errorCode.getD code) = code then some id else none
    | _ => none

def findErrorEventSubProcess (p : ProcessDefinition) (code : String) : Option String :=
  p.nodes.findSome? fun
    | .eventSubProcess id _ errorCode => if (errorCode.getD code) = code then some id else none
    | _ => none

def errorIsCaught (p : ProcessDefinition) (source code : String) : Bool :=
  (findErrorBoundary p source code).isSome || (findErrorEventSubProcess p code).isSome

def raiseOrFail (p : ProcessDefinition) (nodeId code message : String) : Signal :=
  if errorIsCaught p nodeId code then .bpmnError nodeId code else fatalDiag code message

/-- A `<q:decode>` that could not produce a value. -/
def decodeFailure (code nodeId : String) (decode : MessageDecodeBinding) (detail : String)
    (p : ProcessDefinition) : Signal :=
  raiseOrFail p nodeId code
    (s!"<q:decode name='{decode.name}'> at data task '{nodeId}' with codec '{decode.codec}': " ++
      s!"{detail}. Catch {code} with an error boundary to route around it.")

/-- A compare-and-set write that did not apply. -/
def storeConflict (write : StoreWrite) (key : String) (expectedRev : Int) (nodeId : String)
    (p : ProcessDefinition) : Signal :=
  let code := Codes.runtimeDatastoreConflict
  let detail := if write.expectAbsent then "the key already exists (expect=\"absent\")"
    else s!"the value changed since it was read (expected revision {expectedRev})"
  raiseOrFail p nodeId code
    (s!"Optimistic-concurrency conflict writing data store '{write.store}' key '{key}' at " ++
      s!"data task '{nodeId}': {detail}. Retry the operation, or catch {code} with an error " ++
      "boundary.")

def storeOpFailed (store key nodeId op err : String) : Signal :=
  fatalDiag Codes.runtimeUnexpected
    s!"Data task '{nodeId}' {op} on store '{store}'[{key}] failed: {err}"

def mergeField (write : StoreWrite) (value : FeelValue) (current : Option FeelValue) : FeelValue :=
  match write.field with
  | none => value
  | some field =>
    match current with
    | some (.map m) => FeelValue.setField field value m
    | _ => FeelValue.setField field value []

/-- Whether a compare-and-set write applies: a revision that is not positive expects the key to be
absent, any other one has to be the current revision. -/
def putApplies (data : SortedMap String FeelValue) (rev : Int) (key : String) (expected : Int) :
    Bool :=
  if expected ≤ 0 then !data.contains key else expected == rev

def prefixUpperBound : List Char → Option (List Char)
  | [] => none
  | c :: rest =>
    let next := c.toNat + 1
    let next := if 0xD800 ≤ next ∧ next ≤ 0xDFFF then 0xE000 else next
    if next ≤ 0x10FFFF then some ((Char.ofNat next :: rest).reverse) else prefixUpperBound rest

namespace TokenExecutor

variable (ex : TokenExecutor ω)

open Exec

def asStoreKey (value : FeelValue) (expr nodeId : String) : Except Signal String :=
  match value with
  | .null => .error (fatalDiag Codes.runtimeUnexpected
      s!"Data task '{nodeId}' store key expression '{expr}' evaluated to null.")
  | .string s => .ok s
  | other => .ok (ex.canonicalStringOf other)

def resolveStore (storeName nodeId : String) : Exec ω String := do
  let st ← state
  match ex.dataStores with
  | none => fail (fatalDiag Codes.runtimeUnexpected
      (s!"Data task '{nodeId}' references data store '{storeName}' but no " ++
        "DataStoreRegistry is wired (TokenExecutor.Builder#withDataStores)."))
  | some registry =>
    match registry st.deployment storeName with
    | some store => pure store
    | none =>
      let deployment := st.deployment.value
      fail (fatalDiag Codes.runtimeUnexpected
        (s!"Data task '{nodeId}' references data store '{storeName}' which is not " ++
          s!"declared in deployment {deployment} (datastores.yaml)."))

/-- One backend operation: it goes through, or it fails without an effect. -/
def storeCall (op : StoreOp) (store : String) (failed : String → Signal) : Exec ω Unit := do
  match ← callOut (ex.storeFault op store) with
  | some err => fail (failed err)
  | none => pure ()

def storeCell (store : String) : Exec ω StoreCell := Prog.gets fun m => m.world.stores store

def writeStore (store : String) (data : SortedMap String FeelValue) : Exec ω Unit :=
  Prog.modify fun m =>
    { m with world := { m.world with
        stores := Function.update m.world.stores store ⟨data, (m.world.stores store).rev + 1⟩ } }

def recordWrite (store key : String) (value : FeelValue) : Exec ω Unit :=
  Prog.modify fun m =>
    { m with world := { m.world with writes := m.world.writes ++ [⟨store, key, value⟩] } }

/-- The open transaction on a store in the active scope, opened on first use. -/
def txFor (storeName nodeId : String) : Exec ω StoreTx := do
  let st ← state
  match (st.storeTx.getD .empty).get storeName with
  | some tx => pure tx
  | none =>
    let store ← ex.resolveStore storeName nodeId
    ex.storeCall .begin store (storeOpFailed storeName "" nodeId "begin")
    if ex.supportsTransactions store then
      let cell ← storeCell store
      let tx : StoreTx := ⟨store, cell.data⟩
      modifyState fun s => { s with storeTx := s.storeTx.map (·.insert storeName tx) }
      pure tx
    else
      fail (fatalDiag Codes.runtimeUnexpected
        (s!"Data store '{storeName}' does not support transactions (data task " ++
          s!"'{nodeId}' runs inside a <bpmn:transaction> scope)."))

/-- Write the private rows of an open transaction. -/
def putTx (storeName : String) (tx : StoreTx) (data : SortedMap String FeelValue) : Exec ω Unit :=
  modifyState fun s =>
    { s with storeTx := s.storeTx.map (·.insert storeName { tx with pending := data }) }

/-! ## Reads -/

def queryBound (id store expr what : String) (vars : Variables) : Exec ω String := do
  match ← liftEval (ex.valueEvaluator expr vars) with
  | .string s => pure s
  | other =>
    let shown := ex.canonicalStringOf other
    fail (fatalDiag Codes.runtimeDatastoreQueryInvalid
      (s!"Data task '{id}' key query on store '{store}': {what} expression '{expr}' " ++
        s!"evaluated to {shown} — a key bound must be a string."))

def queryUpper (id store lower : String) (mode : StoreQueryMode) (vars : Variables) :
    Exec ω (Option String) := do
  match mode with
  | .keyPrefix =>
    if lower.isEmpty then
      fail (fatalDiag Codes.runtimeDatastoreQueryInvalid
        (s!"Data task '{id}' key query on store '{store}': the prefix evaluated to " ++
          "the empty string, which would read the whole store."))
    else pure ((prefixUpperBound lower.toList.reverse).map String.ofList)
  | .range toExpression =>
    let upper ← ex.queryBound id store toExpression "the @to" vars
    pure (some upper)

def queryAfter (id store : String) (afterExpression : Option String) (vars : Variables) :
    Exec ω (Option String) := do
  match afterExpression with
  | none => pure none
  | some expr =>
    match ← liftEval (ex.valueEvaluator expr vars) with
    | .null => pure none
    | .string s => pure (some s)
    | other =>
      let shown := ex.canonicalStringOf other
      fail (fatalDiag Codes.runtimeDatastoreQueryInvalid
        (s!"Data task '{id}' key query on store '{store}': @after expression " ++
          s!"'{expr}' evaluated to {shown} — it must be a key (string) or null."))

def runStoreQuery (id : String) (read : StoreRead) (query : StoreQuery) (vars : Variables) :
    Exec ω FeelValue := do
  let lower ← ex.queryBound id read.store read.keyExpression "the key" vars
  let upper ← ex.queryUpper id read.store lower query.mode vars
  let after ← ex.queryAfter id read.store query.afterExpression vars
  let spec : StoreKeyQuery := {
    lower := lower
    upper := upper
    after := after
    rowLimit := if query.rows then some query.limit else none
    aggregates := query.aggregates.map fun a =>
      (a.field.map (Text.split '.'), a.groupBy.map (Text.split '.')) }
  let store ← ex.resolveStore read.store id
  ex.storeCall .query store (storeOpFailed read.store lower id "key query")
  let cell ← storeCell store
  let result := ex.storeQuery cell spec
  match (query.aggregates.zip result.nonNumeric).find? (fun e => 0 < e.2) with
  | some (agg, bad) =>
    let field := agg.field.getD ""
    fail (fatalDiag Codes.runtimeDatastoreQueryNotNumeric
      (s!"Data task '{id}' key query on store '{read.store}' sums field '{field}', which holds a "
        ++ s!"value that is not a number in {bad} matching row(s). A sum adds JSON " ++
        "numbers and decimal strings; a missing field or null is skipped."))
  | none => pure result.value

def readRow (id : String) (read : StoreRead) (key : String) : Exec ω (Option FeelValue × Int) := do
  let st ← state
  if st.storeTx.isSome then
    let tx ← ex.txFor read.store id
    ex.storeCall .read tx.store (storeOpFailed read.store key id "read")
    let cell ← storeCell tx.store
    pure (tx.pending.get key, cell.rev)
  else
    let store ← ex.resolveStore read.store id
    ex.storeCall .read store (storeOpFailed read.store key id "read")
    let cell ← storeCell store
    pure (cell.data.get key, cell.rev)

def runStoreRead (id : String) (read : StoreRead) : Exec ω Unit := do
  let vars ← vars
  match read.query with
  | some query =>
    let result ← ex.runStoreQuery id read query vars
    setVar read.targetVar result
  | none =>
    let keyValue ← liftEval (ex.valueEvaluator read.keyExpression vars)
    let key ← Prog.ofExcept (ex.asStoreKey keyValue read.keyExpression id)
    let row ← ex.readRow id read key
    modifyState fun s => { s with storeRevs := s.storeRevs.insert (read.store ++ "#" ++ key) row.2 }
    setVar read.targetVar (row.1.getD .null)

/-! ## Decoding and assignments -/

def decodeContentType (decode : MessageDecodeBinding) (vars : Variables) :
    Exec ω (Option String) := do
  match decode.contentTypeExpression with
  | none => pure none
  | some expression =>
    match ← liftEval (ex.valueEvaluator expression vars) with
    | .string s => pure (if Text.isBlank s then none else some s)
    | _ => pure none

/-- Bind the masked projection of a decoded message, when there is one. -/
def setMasked (name : String) : Option FeelValue → Exec ω Unit
  | some masked => setVar (name ++ ".redacted") masked
  | none => pure ()

def runMessageDecode (id : String) (decode : MessageDecodeBinding) : Exec ω Unit := do
  let st ← state
  let vars ← vars
  match ← liftEval (ex.valueEvaluator decode.expression vars) with
  | .string text =>
    let contentType ← ex.decodeContentType decode vars
    match ex.messageDecodeSeam with
    | none => fail (decodeFailure Codes.runtimeDecodeFailed id decode
        "this engine has no codec registry wired" st.process)
    | some seam =>
      match seam st.deployment decode text contentType vars with
      | .error (.tooLarge, detail) =>
        fail (decodeFailure Codes.runtimeDecodeTooLarge id decode detail st.process)
      | .error (_, detail) =>
        fail (decodeFailure Codes.runtimeDecodeFailed id decode detail st.process)
      | .ok (value, masked) =>
        setMasked decode.name masked
        setVar decode.name value
  | _ => fail (decodeFailure Codes.runtimeDecodeNotText id decode
      s!"expression '{decode.expression}' did not give a string" st.process)

def runAssignment (a : Assignment) : Exec ω Unit := do
  let vars ← vars
  let value ← liftEval (ex.valueEvaluator a.expression vars)
  setVar a.targetVar value

/-! ## Writes -/

def expectedRevision (write : StoreWrite) (key : String) (st : ExecutionState) : Int :=
  if write.expectAbsent then 0 else (st.storeRevs.get (write.store ++ "#" ++ key)).getD 0

def writeRowTx (id : String) (write : StoreWrite) (key : String) (value : FeelValue) :
    Exec ω Unit := do
  let tx ← ex.txFor write.store id
  ex.storeCall .read tx.store (storeOpFailed write.store key id "write")
  let toStore := mergeField write value (tx.pending.get key)
  let st ← state
  let cell ← storeCell tx.store
  ex.storeCall .write tx.store (storeOpFailed write.store key id "write")
  if write.expectUnchanged || write.expectAbsent then
    let expected := expectedRevision write key st
    if putApplies tx.pending cell.rev key expected then
      putTx write.store tx (tx.pending.insert key toStore)
      recordWrite tx.store key toStore
    else fail (storeConflict write key expected id st.process)
  else
    putTx write.store tx (tx.pending.insert key toStore)
    recordWrite tx.store key toStore

def readForField (id : String) (write : StoreWrite) (store key : String) : Exec ω Unit :=
  if write.field.isSome then
    ex.storeCall .read store (storeOpFailed write.store key id "write")
  else pure ()

def writeRowDirect (id : String) (write : StoreWrite) (key : String) (value : FeelValue) :
    Exec ω Unit := do
  let store ← ex.resolveStore write.store id
  let st ← state
  let cell ← storeCell store
  ex.readForField id write store key
  let toStore := mergeField write value (cell.data.get key)
  ex.storeCall .write store (storeOpFailed write.store key id "write")
  if write.expectUnchanged || write.expectAbsent then
    let expected := expectedRevision write key st
    if putApplies cell.data cell.rev key expected then
      writeStore store (cell.data.insert key toStore)
      recordWrite store key toStore
    else fail (storeConflict write key expected id st.process)
  else
    writeStore store (cell.data.insert key toStore)
    recordWrite store key toStore

def runStoreWrite (id : String) (write : StoreWrite) : Exec ω Unit := do
  let vars ← vars
  let keyValue ← liftEval (ex.valueEvaluator write.keyExpression vars)
  let key ← Prog.ofExcept (ex.asStoreKey keyValue write.keyExpression id)
  let value := (vars.get write.valueVar).getD .null
  let st ← state
  if st.storeTx.isSome then ex.writeRowTx id write key value
  else ex.writeRowDirect id write key value

/-- **A data task**: reads, decodes, assignments and writes, in this order. -/
def runDataTask (id : String) (dm : DataMapping) : Exec ω Unit := do
  Prog.forEach dm.storeReads (ex.runStoreRead id)
  Prog.forEach dm.messageDecodes (ex.runMessageDecode id)
  Prog.forEach dm.assignments ex.runAssignment
  Prog.forEach dm.storeWrites (ex.runStoreWrite id)

/-! ## The end of a transaction -/

def commitAll : List (String × StoreTx) → Option String → Exec ω (Option String)
  | [], firstError => pure firstError
  | (name, tx) :: rest, firstError => do
    match ← callOut (ex.storeFault .commit tx.store) with
    | some err =>
      commitAll rest (firstError.or (some s!"commit of store '{name}' failed: {err}"))
    | none =>
      writeStore tx.store tx.pending
      commitAll rest firstError

/-- Take the open transactions out of the scope. -/
def takeStoreTx : Exec ω (Option (SortedMap String StoreTx)) :=
  updateState fun s => (s.storeTx, { s with storeTx := none })

/-- Commit and release the open store transactions; answers the first failure. -/
def commitStoreTx : Exec ω (Option String) := do
  match ← takeStoreTx with
  | none => pure none
  | some txs => ex.commitAll txs.entries none

def rollbackStoreTx : Exec ω Unit := do
  match ← takeStoreTx with
  | none => pure ()
  | some txs => Prog.forEach txs.entries fun e => do
    let _ ← callOut (ex.storeFault .rollback e.2.store)
    pure ()

end TokenExecutor

end Sutra
