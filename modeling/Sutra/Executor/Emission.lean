import Sutra.Executor.State

/-!
# Outbound messages

What a node with a `<q:reply>` or `<q:send>` binding emits: the destination, the authentication
reference, the headers and the body. An emission is handed to the sink and reported to the
listeners; nothing here touches the scope's state.
-/

namespace Sutra

variable {ω : Type}

/-- A send in the form of a reply: it is required, and ends no pass. -/
def SendBinding.asReply (sb : SendBinding) (destination : Option String) : ReplyBinding where
  mode := sb.mode
  destination := destination
  contentType := sb.contentType
  required := true
  ceType := sb.ceType
  ceSource := sb.ceSource
  ceSubject := sb.ceSubject
  ceDataContentType := sb.ceDataContentType
  auth := sb.auth
  authSecretRef := sb.authSecretRef
  authHeader := sb.authHeader
  continueAfter := false
  headers := sb.headers

/-- The name of a scheme on the wire, and in messages. -/
def OutboundAuthScheme.schemeName : OutboundAuthScheme → String × String
  | .mtls => ("mtls", "Mtls")
  | .bearer => ("bearer", "Bearer")
  | .apikey => ("apikey", "Apikey")

namespace TokenExecutor

variable (ex : TokenExecutor ω)

open Exec

/-- A text stands for itself, everything else for its JSON. -/
def bodyText : Option FeelValue → String
  | none | some .null => ""
  | some (.string s) => s
  | some other => ex.jsonText other

/-- The first variable that is set, else the body of the inbound payload. -/
def firstBody (names : List String) (vars : Variables) : Option FeelValue :=
  (names.findSome? vars.get).or ((vars.get "payload").bind (FeelValue.field "body"))

/-- The body of a request. -/
def channelCallBody (vars : Variables) : String :=
  ex.bodyText (firstBody ["requestBody", "responseBody", "responseObject", "payload.body"] vars)

/-- The body of a reply or a send. -/
def extractReplyBody (vars : Variables) : String :=
  ex.bodyText (firstBody ["responseBody", "responseObject", "payload.body"] vars)

/-- The declared destination, else the reply-to of the inbound message. -/
def resolveDestination (rb : ReplyBinding) (vars : Variables) : Option String :=
  match rb.destination with
  | some d => some d
  | none =>
    match vars.get "replyTo" with
    | some (.string s) => if Text.isBlank s then none else some s
    | _ => none

/-- The credential of an emission, if some resolver claims its scheme. -/
def buildAuthRef (rb : ReplyBinding) (nodeId : String) : Except Signal (Option AuthRef) :=
  match rb.auth with
  | none => .ok none
  | some scheme =>
    let shown := scheme.schemeName.2
    match rb.authSecretRef with
    | none => .error (fatalDiag Codes.outboundReplyAuthResolverNotFound
        s!"Reply on node {nodeId} declares auth={shown} but no authSecretRef was set")
    | some secretRef =>
      let uriScheme := ((Text.splitOnce ':' secretRef).map Prod.fst).getD ""
      if Text.isBlank uriScheme then
        .error (fatalDiag Codes.outboundReplyAuthResolverNotFound
          (s!"Reply on node {nodeId} authSecretRef '{secretRef}' has no URI scheme — " ++
            "cannot dispatch to an AuthRefResolver"))
      else
        match ex.authResolvers with
        | none => .error (fatalDiag Codes.outboundReplyAuthResolverNotFound
            (s!"Reply on node {nodeId} declared auth={shown} secretRef={secretRef} " ++
              "but no AuthRefResolverRegistry is wired"))
        | some resolvers =>
          let authRef : AuthRef := ⟨scheme.schemeName.1, secretRef, rb.authHeader⟩
          if resolvers authRef then .ok (some authRef)
          else .error (fatalDiag Codes.outboundReplyAuthResolverNotFound
            (s!"Reply on node {nodeId} declared auth={shown} secretRef={secretRef} " ++
              s!"but no AuthRefResolver claims URI scheme '{uriScheme}'"))

/-- The envelope, with its defaults. -/
def buildCloudEvent (rb : ReplyBinding) : Exec ω CloudEventLite := do
  let st ← state
  let now ← callOut ex.nowSupplier
  pure {
    id := st.instanceId
    source := rb.ceSource.getD ("/sutra/instance/" ++ st.instanceId)
    specVersion := "1.0"
    ceType := rb.ceType.getD "io.sutra.reply.v1"
    subject := rb.ceSubject
    time := some now
    dataContentType := rb.ceDataContentType.or rb.contentType }

/-- Only the CloudEvents modes have an envelope. -/
def cloudEventFor (rb : ReplyBinding) : Exec ω (Option CloudEventLite) :=
  if rb.mode = .native then pure none
  else do
    let ce ← ex.buildCloudEvent rb
    pure (some ce)

/-- Header by header; one that comes to null is left out. -/
def evaluateOutboundHeaders (nodeId : String) (vars : Variables) :
    List HeaderAttr → SortedMap String String → Except Signal (SortedMap String String)
  | [], out => .ok out
  | header :: rest, out =>
    match ex.valueEvaluator header.value vars with
    | .error e =>
      let reason := e.message
      .error (fatalDiag Codes.outboundHeaderFeelEvalFailed
        (s!"<q:header {header.name}> value expression '{header.value}' on node {nodeId} threw at "
          ++ s!"evaluation: {reason}"))
    | .ok value =>
      if value.isNull then evaluateOutboundHeaders nodeId vars rest out
      else evaluateOutboundHeaders nodeId vars rest
        (out.insert header.name (ex.canonicalStringOf value))

/-- Hand a message to the sink and report it. -/
def enqueueOutbound (kind : EmissionKind) (rb : ReplyBinding) (destination : String)
    (authRef : Option AuthRef) (nodeId : String) : Exec ω Unit := do
  let st ← state
  let vars ← vars
  let cloudEvent ← ex.cloudEventFor rb
  let headers ← Prog.ofExcept (ex.evaluateOutboundHeaders nodeId vars rb.headers .empty)
  emit {
    kind := kind
    nodeId := nodeId
    instanceId := st.instanceId
    mode := rb.mode
    destination := destination
    contentType := rb.contentType
    required := rb.required
    body := ex.extractReplyBody vars
    cloudEvent := cloudEvent
    authRef := authRef
    headers := headers }
  notify (.replyEmitted nodeId rb.mode destination)

/-- Without a destination a reply that is not required is dropped. -/
def emitReplyIfBound (nodeId : String) : Exec ω Unit := do
  let st ← state
  let vars ← vars
  match (st.process.bindingsFor nodeId).reply with
  | none => pure ()
  | some rb =>
    match resolveDestination rb vars with
    | none =>
      if rb.required then
        let instanceId := st.instanceId
        fail (fatalDiag Codes.outboundReplyDestRequiredNotSet
          (s!"Reply on instance {instanceId} node {nodeId} is required=true but no " ++
            "destination resolved (no <q:reply destination=...> and no inbound " ++
            "reply-to override)"))
      else pure ()
    | some destination =>
      let authRef ← Prog.ofExcept (ex.buildAuthRef rb nodeId)
      ex.enqueueOutbound .reply rb destination authRef nodeId

/-- The destination, mode and credential are those of the channel. -/
def emitSendViaChannel (sb : SendBinding) (channelName nodeId : String) : Exec ω Unit := do
  let st ← state
  match ex.outboundChannels st.deployment channelName with
  | none =>
    let instanceId := st.instanceId
    fail (fatalDiag Codes.configChannelOutboundUnknown
      (s!"Node '{nodeId}' on instance '{instanceId}' does a <q:send channel='{channelName}'> " ++
        s!"but no channel named '{channelName}' is registered with direction: outbound."))
  | some resolved =>
    let mode := if sb.mode = .native then resolved.mode else sb.mode
    let adapter := { sb.asReply (some resolved.destination) with mode := mode }
    ex.enqueueOutbound .send adapter resolved.destination resolved.authRef nodeId

/-- Through the channel of the binding, if it names one. -/
def emitSendIfBound (nodeId : String) (required : Bool) : Exec ω Unit := do
  let st ← state
  match (st.process.bindingsFor nodeId).send with
  | none =>
    if required then
      let instanceId := st.instanceId
      fail (fatalDiag Codes.parseThrowSendRequired
        s!"Message throw {nodeId} on instance {instanceId} has no <q:send> to emit")
    else pure ()
  | some sb =>
    match sb.channel with
    | some channelName => ex.emitSendViaChannel sb channelName nodeId
    | none =>
      let adapter := sb.asReply sb.destination
      let authRef ← Prog.ofExcept (ex.buildAuthRef adapter nodeId)
      ex.enqueueOutbound .send adapter (sb.destination.getD "") authRef nodeId

end TokenExecutor

end Sutra
