import TinyAgents.Interaction.Executions

namespace Harness.AgentLoop

open Interaction

variable (V : Type)

structure ToolCall where
  id : String
  name : String
  arguments : V
  invalid : Option String := none
  deriving DecidableEq

inductive TinyAgentsError (V : Type) where
  | cancelled
  | timeout (message : String)
  | limitExceeded (message : String)
  | validation (message : String)
  | tool (message : String)
  | toolNotFound (name : String)
  | approvalRequired (metadata : V)
  | callDeferred (metadata : V)
  | toolFailed (message : String)
  | modelRetry (message : String)
  | other (message : String)
  | panicked

inductive ToolContent (V : Type) where
  | text (text : String)
  | block (value : V)

structure ToolControl where
  returnDirect : Option Bool := none
  terminate : Bool := false
  goto : Option String := none
  stateUpdate : Option V := none

structure ToolResult where
  content : List (ToolContent V) := []
  markdownFormatted : Option String := none
  isError : Bool := false
  control : Option (ToolControl V) := none
  followUp : List (ToolContent V) := []
  metadata : Option V := none

def ToolResult.error {V : Type} (message : String) : ToolResult V :=
  { content := [.text message], isError := true }

inductive LoopTarget where
  | model
  | tools
  | end

inductive MiddlewareControl (V : Type) where
  | continue
  | updateState (update : V)
  | jumpTo (target : LoopTarget)
  | stopWithFinal (text : String)
  | interrupt (node message : String)

def MiddlewareControl.precedence {V : Type} : MiddlewareControl V → Nat
  | .continue => 0
  | .updateState _ => 1
  | .jumpTo _ => 2
  | .stopWithFinal _ => 3
  | .interrupt _ _ => 4

inductive LimitKind where
  | wallClock
  | toolCalls

inductive AgentEvent (V : Type) where
  | toolStarted (callId toolName : String) (input : Option V)
  | toolCompleted (callId toolName : String) (input : Option V) (output : Option String)
      (outputBytes : Nat) (error : Option String) (metadata : Option V)
  | toolFailed (callId toolName error : String)
  | toolDeferred (callId reason : String)
  | toolApproved (callId : String)
  | toolDenied (callId message : String)
  | limitReached (kind : LimitKind)
  | invalidToolArgs (callId toolName : String) (arguments : V) (error recovery : String)
  | unknownToolCall (callId requestedName : String) (arguments : V) (recovery : String)
  | deferredToolCall (callId toolName : String)
  | toolSearched (callId : String) (matched : Nat)
  | toolEffectReconciled (callId action : String)
  | controlApplied (control detail : String)

inductive ToolEffectStatus where
  | started
  | completed
  | failed
  | deferred
  | interrupted
  deriving DecidableEq

inductive ToolReplay where
  | safe
  | never
  deriving DecidableEq

inductive LedgerFailure where
  | abort
  | continue

inductive ApprovalDirective where
  | default
  | required
  | waived
  deriving DecidableEq

inductive CallGate where
  | admits (approval : ApprovalDirective)
  | refuse (message : String)

inductive UnknownToolPolicy where
  | fail
  | returnToolError
  | rewrite (toolName : String)
  deriving DecidableEq

inductive InvalidArgsPolicy where
  | fail
  | returnToolError
  | normalizeThenReturnToolError
  deriving DecidableEq

inductive EndStrategy where
  | early
  | graceful
  | exhaustive
  deriving DecidableEq

inductive ScreenOutcome where
  | pass
  | redacted (text : String)
  | block (reason : String)

inductive OutcomeClass where
  | success
  | permanentFailure
  | retryableFailure

inductive DeferredKind where
  | approval
  | external

structure DeferredRequest where
  call : ToolCall V
  kind : DeferredKind
  reason : String
  metadata : Option V

structure DeferredToolRequests where
  calls : List (ToolCall V) := []
  approvals : List (ToolCall V) := []
  metadata : List (String × V) := []

def DeferredToolRequests.isEmpty {V : Type} (requests : DeferredToolRequests V) : Bool :=
  requests.calls.isEmpty && requests.approvals.isEmpty

inductive ToolApprovalDecision (V : Type) where
  | approve
  | approveWithArgs (arguments : V)
  | deny (message : String)

inductive DeferredCallResult (V : Type) where
  | result (result : ToolResult V)
  | retry (message : String)
  | failed (message : String)

structure DeferredToolResults where
  approvals : String → Option (ToolApprovalDecision V) := fun _ => none
  calls : String → Option (DeferredCallResult V) := fun _ => none

inductive Message (V : Type) where
  | assistant (toolCalls : List (ToolCall V))
  | tool (callId : String) (result : ToolResult V)
  | user (content : List (ToolContent V))
  | other

structure ToolOutcomeRecord where
  name : String
  argsDigest : String
  success : Bool
  failureClass : Option String

structure AgentRun where
  toolCalls : Nat := 0
  executedTools : List String := []
  toolMetadata : List (String × String × V) := []
  toolOutcomes : List ToolOutcomeRecord := []
  finalResponse : Option String := none

structure PreparedToolCall where
  call : ToolCall V
  preferMarkdown : Bool
  capturedInput : Option V
  executed : Bool

inductive RunOutcome where
  | returned
  | deferred
  | failed
  deriving DecidableEq

structure Ran where
  turn : Nat
  asked : ToolCall V
  needed : Bool
  outcome : RunOutcome

-- A decision to run a call: the turn, the calls that were to be decided on, the one of them that
-- the decision is about and the call to run.
structure Granted where
  turn : Nat
  pending : List (ToolCall V)
  shown : ToolCall V
  run : ToolCall V

-- The code reads none of `turn`, `ran`, `stopped` and `granted`.
structure RunContext where
  events : List (AgentEvent V) := []
  activeToolCalls : List String := []
  approvedCalls : List String := []
  effects : String → Option ToolEffectStatus := fun _ => none
  terminateVotes : List (Option String) := []
  control : Option (MiddlewareControl V) := none
  stateUpdates : List V := []
  batchAdmissions : Nat := 0
  truncatedCallPositions : List Nat := []
  truncatedRepeatPositions : List Nat := []
  promotedNames : List String := []
  toolCalls : Nat := 0
  run : AgentRun V := {}
  messages : List (Message V) := []
  turn : Nat := 0
  ran : List (Ran V) := []
  stopped : List String := []
  granted : List (Granted V) := []

structure AgentHarness (V T : Type) where
  runId : String
  dispatch : String → Option T
  modelDispatch : String → Option T
  get : String → Option T
  unwrapWrappedCall : String → V → Option (String × V)
  allowsName : String → Bool
  isDeferred : T → Bool
  unknownToolMessage : String → V → String
  strictest : ApprovalDirective → ApprovalDirective → ApprovalDirective
  admissionTarget : T → Option (T × V)
  isExternal : T → Bool
  approvalRequired : T → Bool
  display : T → Option V
  injectsArguments : T → Bool
  isConcurrencySafe : T → V → Bool
  returnDirect : T → Bool
  preferMarkdown : T → V → Bool
  recoverObject : V → Option V
  normalize : T → V → V
  validateCall : T → ToolCall V → Option String
  signature : T → String
  unknownTool : UnknownToolPolicy
  invalidArgs : InvalidArgsPolicy
  captureToolIo : Bool
  hosted : Bool
  classify : Option (String → ToolResult V → OutcomeClass)
  ledger : Option LedgerFailure
  wrapsConcurrentSafe : Bool
  hasHandler : Bool
  failed : String → ToolResult V
  retry : String → ToolResult V
  outputForLlm : ToolResult V → Bool → String
  errorText : TinyAgentsError V → String
  idempotencyKey : String → V → String
  argsDigest : V → String
  failureClass : ToolResult V → String
  replay : T → ToolReplay := fun _ => .never
  structuredCallNames : List String := []
  endStrategy : EndStrategy := .graceful

section

inductive Discovery (V : Type) where
  | absent
  | refused (message : String)
  | answered (result : ToolResult V) (matchedNames : List String)

inductive Injected (V : Type) where
  | unavailable
  | invalid (error : String)
  | ready (arguments : V)

def Injected.preparing {V : Type} (injects : Bool) (arguments : V) : Injected V → Injected V
  | .unavailable => .unavailable
  | injected => if injects then injected else .ready arguments

-- `asked` and `needed` are told of an execution; the tool is given neither.
inductive LoopOp (V T : Type) where
  | read
  | update (f : RunContext V → RunContext V)
  | cancelled
  | deadline
  | recordToolCall
  | discover (call : ToolCall V)
  | rules (tool : T) (arguments : V)
  | beforeTool (call : ToolCall V)
  | refusalMetadata (callId : String)
  | inject (tool : T) (call : ToolCall V)
  | bindCall (tool : T) (arguments : V)
  | prepareAuthorization (tool : T) (arguments : V)
  | authorize (call : ToolCall V) (modelArguments : V)
  | ledgerStarted (callId tool idempotencyKey : String)
  | ledgerSettled (callId : String) (status : ToolEffectStatus)
  | execute (tool : T) (prepared : PreparedToolCall V) (asked : ToolCall V) (needed : Bool)
  | afterTool (callId toolName : String) (result : ToolResult V)
  | screenInput (callId text : String)
  | outputScreened (callId toolName : String) (result : ToolResult V) (text : String)
  | handle (requests : DeferredToolRequests V)
  | modelTurn

variable {V T : Type}

abbrev Answer (V α : Type) := Except (TinyAgentsError V) α

-- `queued` are the messages that were appended before the call: a prompt to repair the answer, and
-- what was queued for the run. `cutOff` says that a schema call was among the truncated ones.
structure Turn (V : Type) where
  calls : List (ToolCall V)
  truncated : List Nat := []
  repeated : List Nat := []
  cutOff : Bool := false
  queued : List (List (ToolContent V)) := []

def LoopAns : LoopOp V T → Type
  | .read => RunContext V
  | .update _ => Unit
  | .cancelled => Bool
  | .deadline => Bool
  | .recordToolCall => Option String
  | .discover _ => Answer V (Discovery V)
  | .rules _ _ => Answer V CallGate
  | .beforeTool _ => ToolCall V × Option (TinyAgentsError V)
  | .refusalMetadata _ => Option V
  | .inject _ _ => Injected V
  | .bindCall _ _ => Option (Option T)
  | .prepareAuthorization _ _ | .authorize _ _ => Answer V (Option String)
  | .ledgerStarted _ _ _ => Answer V Unit
  | .ledgerSettled _ _ => Answer V Unit
  | .execute _ _ _ _ => Answer V (ToolResult V × Option (MiddlewareControl V))
  | .afterTool _ _ _ => Answer V (ToolResult V)
  | .screenInput _ _ => Answer V ScreenOutcome
  | .outputScreened _ _ _ _ => Answer V Unit
  | .handle _ => Answer V (DeferredToolResults V)
  | .modelTurn => Answer V (Option (Turn V))

abbrev Loop (V T : Type) := Program (LoopOp V T) LoopAns
abbrev Task (V T : Type) := Fallible (LoopOp V T) LoopAns (TinyAgentsError V)

def runOutcome {α : Type} : Answer V α → RunOutcome
  | .ok _ => .returned
  | .error (.approvalRequired _) => .deferred
  | .error (.callDeferred _) => .deferred
  | .error _ => .failed

namespace RunContext

variable (c : RunContext V)

def emit (event : AgentEvent V) : RunContext V := { c with events := c.events++[event] }

variable (callId : String)

def activate : RunContext V :=
  { c with activeToolCalls := c.activeToolCalls++[callId] }

def releaseActiveToolCall : RunContext V :=
  { c with activeToolCalls := c.activeToolCalls.erase callId }

def effect (status : ToolEffectStatus) : RunContext V :=
  { c with effects := Function.update c.effects callId (some status) }

def recordToolCall : RunContext V := { c with toolCalls := c.toolCalls+1 }

def rollbackToolCall : RunContext V := { c with toolCalls := c.toolCalls-1 }

def requestControl (control : MiddlewareControl V) : RunContext V :=
  if control.precedence = 0 then c
  else if (c.control.all fun pending => decide (pending.precedence < control.precedence)) then
    { c with control := some control }
  else c

def stopOn {α : Type} (callId : String) (x : Answer V α) : RunContext V :=
  match x with
  | .ok _ => c
  | .error _ => { c with stopped := c.stopped++[callId] }

end RunContext

-- What a request does to the context; the answers of the host, the hooks and the tools are free.
def LoopOutcome : (op : LoopOp V T) → RunContext V → LoopAns op → RunContext V → Prop
  | .read, c, x, c' => x = c ∧ c' = c
  | .update f, c, _, c' => c' = f c
  | .recordToolCall, c, _, c' => c' = c.recordToolCall
  | .ledgerStarted callId _ _, c, x, c' =>
    c' = c.effect callId .started ∨ c' = c ∧ ∃ e, x = .error e
  | .ledgerSettled callId status, c, x, c' =>
    c' = c.effect callId status ∨ c' = c ∧ ∃ e, x = .error e
  | .execute _ _ asked needed, c, x, c' =>
    c' = { c with ran := c.ran++[⟨c.turn,asked,needed,runOutcome x⟩] }
  | .afterTool callId _ _, c, x, c' | .screenInput callId _, c, x, c'
  | .outputScreened callId _ _ _, c, x, c' => c' = c.stopOn callId x
  | .modelTurn, c, x, c' => match x with
      | .ok (some turn) => c' = { c with
          turn := c.turn+1
          messages := c.messages++(turn.queued.map .user++[.assistant turn.calls])
          truncatedCallPositions := turn.truncated, truncatedRepeatPositions := turn.repeated }
      | _ => c' = c
  | _, c, _, c' => c' = c

def request (op : LoopOp V T) : Loop V T (LoopAns op) := Program.perform op

variable (f : RunContext V → RunContext V)

def update : Loop V T Unit := request (.update f)

def emit (event : AgentEvent V) : Loop V T Unit := update fun c => c.emit event

def asking (op : LoopOp V T) : Task V T (LoopAns op) := ExceptT.lift (request op)

def telling : Task V T Unit := ExceptT.lift (update f)

def ask {α : Type} (p : Loop V T (Answer V α)) : Task V T α := ExceptT.mk p

inductive ResolvedToolCall (V T : Type) where
  | tool (tool : T) (needed : Bool)
  | answered (result : ToolResult V)
  | deferred (request : DeferredRequest V)

variable (H : AgentHarness V T)

def truncatedToolCallMessage (toolName : String) : String :=
  "Tool call `"++toolName++"` was cut off at the output token limit: your response ended "++
  "before its arguments were complete, so it was not run. Do not repeat this call; the "++
  "same content will be cut off again at the same limit. Split the change into smaller "++
  "incremental calls (for example create a minimal version first, then add or edit one "++
  "part per call), each well under the limit."

def repeatedTruncatedToolCallMessage (toolName : String) : String :=
  "Tool call `"++toolName++"` was cut off at the output token limit again, so it was not "++
  "run. Stop sending `"++toolName++"` calls this large: the limit is fixed, and another "++
  "oversized `"++toolName++"` call will end the run. Make the change in several smaller "++
  "incremental steps, one part per call."

def unparseableToolCallMessage (toolName detail : String) : String :=
  "Tool call `"++toolName++"` was not run: its arguments are not valid JSON ("++detail++"). "++
  "Re-send it as well-formed JSON that matches the tool's argument schema. If the "++
  "arguments carry a large document, do not inline it again: build it in smaller "++
  "incremental calls (for example with an editing tool that returns a handle or id) and "++
  "pass that reference instead."

def withRefusalMetadata (callId : String) (result : ToolResult V) : Task V T (ToolResult V) := do
  let metadata ← asking (.refusalMetadata callId)
  return { result with metadata := Option.or metadata result.metadata }

variable (tool : T) (approval : ApprovalDirective) (modelArguments : V) (call : ToolCall V)

def admitDispatch (arguments : V) : Task V T CallGate := do
  match ← ask (request (.rules tool arguments)) with
  | .refuse message => return .refuse message
  | .admits approval =>
    match H.admissionTarget tool with
    | none => return .admits approval
    | some (target,targetArguments) =>
      match ← ask (request (.rules target targetArguments)) with
      | .refuse message => return .refuse message
      | .admits targetApproval => return .admits (H.strictest approval targetApproval)

def ruleAdmission (name : String) (arguments : V) : Task V T CallGate :=
  match if H.allowsName name then H.modelDispatch name else none with
  | none => return .admits .default
  | some tool => admitDispatch H tool arguments

def refused (callId message : String) : Task V T (ResolvedToolCall V T) := do
  telling RunContext.rollbackToolCall
  let result ← withRefusalMetadata callId (.error message)
  return .answered result

def authorizeToolCall : Task V T (Option String) :=
  if H.hosted then do
    match ← ask (request (.prepareAuthorization tool call.arguments)) with
    | some error => return some ("tool authorization preparation failed: "++error)
    | none => ask (request (.authorize call modelArguments))
  else return none

def needsApproval (tool : T) : Bool :=
  match approval with
  | .required => true
  | .waived => false
  | .default => H.approvalRequired tool

def gateToolCall : Task V T (ResolvedToolCall V T × ToolCall V) := do
  let needed := needsApproval H approval tool
  let original : ToolCall V := { id := call.id, name := call.name, arguments := modelArguments }
  let c ← asking .read
  let approved := c.approvedCalls.contains call.id
  if !approved && H.isExternal tool then do
    telling RunContext.rollbackToolCall
    return (.deferred ⟨original,.external,"external",none⟩,call)
  else if !approved && needed then do
    telling RunContext.rollbackToolCall
    return (.deferred ⟨original,.approval,"approval_required",H.display tool⟩,call)
  else do
    match ← authorizeToolCall H tool modelArguments call with
    | some reason => do
      telling RunContext.rollbackToolCall
      return (.answered (.error reason),call)
    | none => return (.tool tool needed,call)

def admitTool : Task V T (ResolvedToolCall V T × ToolCall V) := do
  let injected ← asking (.inject tool call)
  match Injected.preparing (H.injectsArguments tool) call.arguments injected with
  | .unavailable =>
    throw (.validation ("failed to prepare injected arguments for tool `"++call.name++"`"))
  | .invalid error =>
    if H.invalidArgs = .fail then throw (.validation error)
    else return (.answered (.error
      ("invalid injected arguments for tool `"++call.name++"`: "++error)),call)
  | .ready prepared => do
    let arguments := if H.invalidArgs = .normalizeThenReturnToolError then
      H.normalize tool prepared else prepared
    let call := { call with arguments := arguments }
    match H.validateCall tool call with
    | some detail =>
      if H.invalidArgs = .fail then throw (.validation detail)
      else do
        telling fun c => c.emit
          (.invalidToolArgs call.id call.name prepared detail "tool_error")
        return (.answered (.error ("invalid arguments for tool `"++call.name++"`: "++detail++
          "; expected arguments: "++H.signature tool)),call)
    | none => do
      match ← asking (.bindCall tool call.arguments) with
      | none => throw (.tool "tool call binding failed")
      | some bound => do
        let tool := Option.getD bound tool
        match ← admitDispatch H tool call.arguments with
        | .refuse message => do
          let answer ← refused call.id message
          return (answer,call)
        | .admits last => gateToolCall H tool (H.strictest approval last) modelArguments call

def rewriteTarget (arguments : V) : Task V T (Option (String × T × ApprovalDirective)) :=
  match H.unknownTool with
  | .rewrite toolName =>
    match if H.allowsName toolName then H.dispatch toolName else none with
    | none => return none
    | some tool => do
      match ← ask (request (.rules tool arguments)) with
      | .refuse _ => return none
      | .admits approval => return some (toolName,tool,approval)
  | _ => return none

def admitParsed : Task V T (ResolvedToolCall V T × ToolCall V) :=
  match if H.allowsName call.name then H.modelDispatch call.name else none with
  | some tool => do
    if H.isDeferred tool then telling fun c => c.emit (.deferredToolCall call.id call.name)
    admitTool H tool approval modelArguments call
  | none => do
    match ← rewriteTarget H call.arguments with
    | some (toolName,tool,approval) => do
      telling fun c => c.emit
        (.unknownToolCall call.id call.name call.arguments ("rewrite:"++toolName))
      admitTool H tool approval modelArguments { call with name := toolName }
    | none =>
      if H.unknownTool = .fail then throw (.toolNotFound call.name)
      else do
        telling fun c => c.emit (.unknownToolCall call.id call.name call.arguments "tool_error")
        return (.answered (.error (H.unknownToolMessage call.name call.arguments)),call)

def admitRepaired : Task V T (ResolvedToolCall V T × ToolCall V) :=
  match call.invalid with
  | none => admitParsed H approval modelArguments call
  | some detail =>
    match H.recoverObject call.arguments with
    | some repaired => do
      telling fun c => c.emit
        (.invalidToolArgs call.id call.name call.arguments detail "repaired")
      admitParsed H approval modelArguments
        { call with arguments := repaired, invalid := none }
    | none => do
      telling fun c => c.emit
        (.invalidToolArgs call.id call.name call.arguments detail "tool_error")
      return (.answered (.error (unparseableToolCallMessage call.name detail)),call)

def signalled : TinyAgentsError V → Task V T (ResolvedToolCall V T)
  | .approvalRequired metadata =>
    return .deferred ⟨call,.approval,"approval_required",some metadata⟩
  | .callDeferred metadata => return .deferred ⟨call,.external,"call_deferred",some metadata⟩
  | .toolFailed message => do
    let result ← withRefusalMetadata call.id (H.failed message)
    return .answered result
  | .modelRetry message => do
    let result ← withRefusalMetadata call.id (H.retry message)
    return .answered result
  | e => throw e

def admitByRules : Task V T (ResolvedToolCall V T × ToolCall V) := do
  let modelArguments := call.arguments
  match ← ruleAdmission H call.name modelArguments with
  | .refuse message => do
    let answer ← refused call.id message
    return (answer,call)
  | .admits approval => do
    match ← asking (.beforeTool call) with
    | (call,some e) => do
      telling RunContext.rollbackToolCall
      let answer ← signalled H call e
      return (answer,call)
    | (call,none) => admitRepaired H approval modelArguments call

def unwrapped (call : ToolCall V) : Task V T (ToolCall V) :=
  match H.dispatch call.name, H.unwrapWrappedCall call.name call.arguments with
  | none, some (target,arguments) => do
    telling fun c => c.emit (.invalidToolArgs call.id call.name call.arguments
      ("call to `"++target++"` wrapped in pseudo tool `"++call.name++"`") ("unwrapped:"++target))
    return { call with name := target, arguments := arguments, invalid := none }
  | _, _ => return call

def answerDiscoveryBridge : Task V T (Option (ToolResult V)) :=
  if call.invalid = none ∧ (H.dispatch call.name).isNone then do
    match ← ask (request (.discover call)) with
    | .absent => return none
    | .refused message => return some (.error message)
    | .answered result matched => do
      telling fun c => { c with promotedNames := c.promotedNames++matched }
      telling fun c => c.emit (.toolSearched call.id matched.length)
      return some result
  else return none

def admitToolCall : Task V T (ResolvedToolCall V T × ToolCall V) := do
  let cancelled : Bool ← asking .cancelled
  if cancelled then throw .cancelled
  let passed : Bool ← asking .deadline
  if passed then do
    telling fun c => c.emit (.limitReached .wallClock)
    throw (.timeout ("run `"++H.runId++"` exceeded its wall-clock deadline"))
  else do
    let c ← asking .read
    let position := c.batchAdmissions
    telling fun c => { c with batchAdmissions := c.batchAdmissions+1 }
    if c.truncatedCallPositions.contains position then
      let message := if c.truncatedRepeatPositions.contains position then
        repeatedTruncatedToolCallMessage call.name else truncatedToolCallMessage call.name
      return (.answered (.error message),call)
    else do
      match ← asking .recordToolCall with
      | some error => do
        telling fun c => c.emit (.limitReached .toolCalls)
        throw (.limitExceeded error)
      | none => do
        let call ← unwrapped H call
        match ← answerDiscoveryBridge H call with
        | some result => return (.answered result,call)
        | none => admitByRules H call

end

variable {V T : Type} (H : AgentHarness V T) (call : ToolCall V) (calls : List (ToolCall V))
  (prepared : PreparedToolCall V) (result : ToolResult V)

def startToolCall (preferMarkdown executed : Bool) : Loop V T (PreparedToolCall V) := do
  let capturedInput := if H.captureToolIo then some call.arguments else none
  update fun c => c.activate call.id
  emit (.toolStarted call.id call.name capturedInput)
  return ⟨call,preferMarkdown,capturedInput,executed⟩

def recordToolEffectStarted : Loop V T (Answer V Unit) :=
  match H.ledger with
  | none => return .ok ()
  | some failure => do
    let key := H.idempotencyKey prepared.call.name prepared.call.arguments
    match ← request (.ledgerStarted prepared.call.id prepared.call.name key) with
    | .ok _ => return .ok ()
    | .error e => match failure with
        | .abort => return .error e
        | .continue => return .ok ()

def recordToolEffectSettled (status : ToolEffectStatus) : Loop V T Unit :=
  match H.ledger with
  | none => return ()
  | some _ => do
    let _ ← request (.ledgerSettled prepared.call.id status)
    return ()

variable (e : TinyAgentsError V)

def failToolCall : Loop V T Unit := do
  update fun c => c.releaseActiveToolCall prepared.call.id
  emit (.toolFailed prepared.call.id prepared.call.name (H.errorText e))

def orFail {α : Type} (prepared : PreparedToolCall V) (p : Loop V T (Answer V α)) :
    Task V T α := ExceptT.mk do
  match ← p with
  | .ok a => return .ok a
  | .error e => do
    failToolCall H prepared e
    return .error e

def screened : Task V T (ToolResult V) :=
  if H.hosted then do
    let text := H.outputForLlm result prepared.preferMarkdown
    match ← orFail H prepared (request (.screenInput prepared.call.id text)) with
    | .pass => return result
    | .redacted text =>
      return { result with content := [.text text], markdownFormatted := none }
    | .block reason => return .error reason
  else return result

def classified : ToolResult V :=
  match if H.hosted then H.classify else none with
  | none => result
  | some classify =>
    match classify prepared.call.name result with
    | .success => { result with isError := false }
    | .permanentFailure => { result with isError := true }
    | .retryableFailure =>
      let failed := { result with isError := true }
      let detail := H.outputForLlm failed prepared.preferMarkdown
      { failed with
        content := [.text ("retryable tool failure: "++detail)], markdownFormatted := none }

def gotoTarget : Option String → Option LoopTarget
  | some "model" => some .model
  | some "tools" => some .tools
  | some "end" => some .end
  | _ => none

def applyToolControl (c : RunContext V) : RunContext V :=
  match result.control with
  | none => { c with terminateVotes := c.terminateVotes++[none] }
  | some control =>
    let output := H.outputForLlm result prepared.preferMarkdown
    let returnDirect := control.returnDirect.getD
      ((H.dispatch prepared.call.name).any H.returnDirect)
    let terminates := !returnDirect && control.terminate
    let target := if returnDirect then some .end
      else if terminates then none else gotoTarget control.goto
    let c := if returnDirect then
      { c with run := { c.run with finalResponse := some output } } else c
    let c := match target with
      | some target => c.requestControl (.jumpTo target)
      | none => c
    { c with
      stateUpdates := c.stateUpdates++control.stateUpdate.toList
      terminateVotes := c.terminateVotes++[if terminates then some output else none] }

def countToolCall (run : AgentRun V) : AgentRun V :=
  let call := prepared.call
  let outcome : ToolOutcomeRecord := {
    name := call.name
    argsDigest := H.argsDigest call.arguments
    success := !result.isError
    failureClass := if result.isError then some (H.failureClass result) else none }
  { run with
    toolCalls := run.toolCalls+1
    executedTools := run.executedTools++(if prepared.executed then [call.name] else [])
    toolMetadata := run.toolMetadata++(result.metadata.map fun m => (call.id,call.name,m)).toList
    toolOutcomes := run.toolOutcomes++(if prepared.executed then [outcome] else []) }

def completedEvent : AgentEvent V :=
  let output := H.outputForLlm result prepared.preferMarkdown
  .toolCompleted prepared.call.id prepared.call.name prepared.capturedInput
    (if H.captureToolIo then some output else none) output.utf8ByteSize
    (if result.isError then some output else none) result.metadata

def followUpMessage (followUp : List (ToolContent V)) : Option (Message V) :=
  if followUp.isEmpty then none else some (.user followUp)

def finishToolCall : Task V T (Option (Message V)) := do
  let call := prepared.call
  let result ← orFail H prepared (request (.afterTool call.id call.name result))
  let result ← screened H prepared result
  let result := classified H prepared result
  let text := H.outputForLlm result prepared.preferMarkdown
  orFail H prepared (request (.outputScreened call.id call.name result text))
  telling (applyToolControl H prepared result)
  telling fun c => { c with run := countToolCall H prepared result c.run }
  telling fun c => c.releaseActiveToolCall call.id
  telling fun c => c.emit (completedEvent H prepared result)
  telling fun c => { c with messages := c.messages++[.tool call.id result] }
  return followUpMessage result.followUp

def recoverToolCall : Task V T (Option (Message V)) := do
  let prepared ← ExceptT.lift (startToolCall H call false false)
  finishToolCall H prepared result

def DeferredToolRequests.add (deferred : DeferredToolRequests V) (request : DeferredRequest V) :
    DeferredToolRequests V :=
  let deferred := { deferred with
    metadata := deferred.metadata++(request.metadata.map fun m => (request.call.id,m)).toList }
  match request.kind with
  | .approval => { deferred with approvals := deferred.approvals++[request.call] }
  | .external => { deferred with calls := deferred.calls++[request.call] }

def deferToolCall (request : DeferredRequest V) (deferred : DeferredToolRequests V) :
    Loop V T (DeferredToolRequests V) := do
  emit (.toolDeferred request.call.id request.reason)
  return deferred.add request

def deferStartedToolCall (request : DeferredRequest V) (deferred : DeferredToolRequests V) :
    Loop V T (DeferredToolRequests V) := do
  update fun c => c.releaseActiveToolCall prepared.call.id
  update RunContext.rollbackToolCall
  recordToolEffectSettled H prepared .deferred
  deferToolCall request deferred

def failStartedToolCall : Loop V T Unit := do
  recordToolEffectSettled H prepared .failed
  failToolCall H prepared e

def executionDeferral : TinyAgentsError V → Option (DeferredRequest V)
  | .approvalRequired metadata => some ⟨call,.approval,"approval_required",some metadata⟩
  | .callDeferred metadata => some ⟨call,.external,"call_deferred",some metadata⟩
  | _ => none

def appendFollowUps (followUps : List (Message V)) : Task V T Unit :=
  telling fun c => { c with messages := c.messages++followUps }

def requestWrapControl (control : Option (MiddlewareControl V)) (c : RunContext V) : RunContext V :=
  match control with
  | some control => c.requestControl control
  | none => c

def finishStartedToolCall (answer : ToolResult V × Option (MiddlewareControl V)) :
    Task V T (Option (Message V)) := do
  telling (requestWrapControl answer.2)
  ExceptT.lift (recordToolEffectSettled H prepared .completed)
  finishToolCall H prepared answer.1

abbrev Batch (V : Type) := DeferredToolRequests V × List (Message V)

def executeStarted (tool : T) (prepared : PreparedToolCall V) (asked : ToolCall V) (needed : Bool)
    (batch : Batch V) : Task V T (Batch V) := do
  let (deferred,followUps) := batch
  match ← asking (.execute tool prepared asked needed) with
  | .error e =>
    match executionDeferral prepared.call e with
    | some request => do
      let deferred ← ExceptT.lift (deferStartedToolCall H prepared request deferred)
      return (deferred,followUps)
    | none => do
      ExceptT.lift (failStartedToolCall H prepared e)
      throw e
  | .ok answer => do
    let followUp ← finishStartedToolCall H prepared answer
    return (deferred,followUps++followUp.toList)

def executeToolSerially (asked : ToolCall V) (batch : Batch V) : Task V T (Batch V) := do
  let (deferred,followUps) := batch
  match ← admitToolCall H asked with
  | (.answered result,call) => do
    let followUp ← recoverToolCall H call result
    return (deferred,followUps++followUp.toList)
  | (.deferred request,_) => do
    let deferred ← ExceptT.lift (deferToolCall request deferred)
    return (deferred,followUps)
  | (.tool tool needed,call) => do
    let prepared ← ExceptT.lift
      (startToolCall H call (H.preferMarkdown tool call.arguments) true)
    orFail H prepared (recordToolEffectStarted H prepared)
    executeStarted H tool prepared asked needed batch

def executeToolsSerially : List (ToolCall V) → Batch V → Task V T (DeferredToolRequests V)
  | [], (deferred,followUps) => do
    appendFollowUps followUps
    return deferred
  | call :: rest, batch => do
    let batch ← executeToolSerially H call batch
    executeToolsSerially rest batch

inductive AdmittedCall (V T : Type) where
  | execute (tool : T) (call asked : ToolCall V) (needed : Bool)
  | recovered (call : ToolCall V) (result : ToolResult V)
  | deferred (request : DeferredRequest V)

inductive ToolSlot (V T : Type) where
  | execute (tool : T) (prepared : PreparedToolCall V) (asked : ToolCall V) (needed : Bool)
  | recovered (call : ToolCall V) (result : ToolResult V)
  | deferred (request : DeferredRequest V)

inductive FoldSlot (V : Type) where
  | executed (prepared : PreparedToolCall V)
      (outcome : Answer V (ToolResult V × Option (MiddlewareControl V)))
  | recovered (call : ToolCall V) (result : ToolResult V)
  | deferred (request : DeferredRequest V)

def admitted (asked : ToolCall V) : ResolvedToolCall V T × ToolCall V → AdmittedCall V T
  | (.tool tool needed,call) => .execute tool call asked needed
  | (.answered result,call) => .recovered call result
  | (.deferred request,_) => .deferred request

def admitAll : List (ToolCall V) → Task V T (List (AdmittedCall V T))
  | [] => return []
  | call :: rest => do
    let resolved ← admitToolCall H call
    let calls ← admitAll rest
    return admitted call resolved :: calls

def failAll : List (PreparedToolCall V) → Loop V T Unit
  | [] => return ()
  | prepared :: rest => do
    failToolCall H prepared e
    failAll rest

def announce : List (AdmittedCall V T) → List (PreparedToolCall V) → Task V T (List (ToolSlot V T))
  | [], _ => return []
  | .recovered call result :: rest, started => do
    let slots ← announce rest started
    return .recovered call result :: slots
  | .deferred request :: rest, started => do
    let slots ← announce rest started
    return .deferred request :: slots
  | .execute tool call asked needed :: rest, started => do
    let prepared ← ExceptT.lift
      (startToolCall H call (H.preferMarkdown tool call.arguments) true)
    let started := started++[prepared]
    match ← ExceptT.lift (recordToolEffectStarted H prepared) with
    | .error e => do
      ExceptT.lift (failAll H e started)
      throw e
    | .ok _ => do
      let slots ← announce rest started
      return .execute tool prepared asked needed :: slots

-- The calls run side by side; none of them touches what the batch keeps of the others.
def runAll : List (ToolSlot V T) → Loop V T (List (FoldSlot V))
  | [] => return []
  | .recovered call result :: rest => do
    let slots ← runAll rest
    return .recovered call result :: slots
  | .deferred request :: rest => do
    let slots ← runAll rest
    return .deferred request :: slots
  | .execute tool prepared asked needed :: rest => do
    let outcome ← request (.execute tool prepared asked needed)
    let slots ← runAll rest
    return .executed prepared outcome :: slots

def abortSiblings : List (FoldSlot V) → Loop V T Unit
  | [] => return ()
  | .executed prepared _ :: rest => do
    failStartedToolCall H prepared (.tool "aborted: sibling tool call failed")
    abortSiblings rest
  | _ :: rest => abortSiblings rest

def foldAll : List (FoldSlot V) → Batch V → Task V T (DeferredToolRequests V)
  | [], (deferred,followUps) => do
    appendFollowUps followUps
    return deferred
  | .recovered call result :: rest, (deferred,followUps) => do
    let followUp ← recoverToolCall H call result
    foldAll rest (deferred,followUps++followUp.toList)
  | .deferred request :: rest, (deferred,followUps) => do
    let deferred ← ExceptT.lift (deferToolCall request deferred)
    foldAll rest (deferred,followUps)
  | .executed prepared outcome :: rest, (deferred,followUps) =>
    match outcome with
    | .error e =>
      match executionDeferral prepared.call e with
      | some request => do
        let deferred ← ExceptT.lift (deferStartedToolCall H prepared request deferred)
        foldAll rest (deferred,followUps)
      | none => do
        ExceptT.lift (failStartedToolCall H prepared e)
        ExceptT.lift (abortSiblings H rest)
        throw e
    | .ok answer => do
      let followUp ← finishStartedToolCall H prepared answer
      foldAll rest (deferred,followUps++followUp.toList)

def executeToolsConcurrently : Task V T (DeferredToolRequests V) := do
  let calls ← admitAll H calls
  let slots ← announce H calls []
  let slots ← ExceptT.lift (runAll slots)
  foldAll H slots ({},[])

def batchIsCanonicalParallelSafe : Bool :=
  calls.all fun call => (H.get call.name).any fun tool =>
    !H.injectsArguments tool && H.isConcurrencySafe tool call.arguments

def shouldExecuteToolsConcurrently : Bool :=
  1 < calls.length && (H.invalidArgs != .normalizeThenReturnToolError &&
    batchIsCanonicalParallelSafe H calls) && H.wrapsConcurrentSafe

def settleBatchTermination (allAnswered : Bool) (c : RunContext V) : RunContext V :=
  let votes := c.terminateVotes
  let c := { c with terminateVotes := [] }
  if votes.any Option.isSome && allAnswered && votes.all Option.isSome then
    match votes.getLast?.join with
    | some output => { c with
        run := { c.run with finalResponse := some output } }.requestControl (.jumpTo .end)
    | none => c
  else c

def executeBatch : Task V T (DeferredToolRequests V) :=
  if shouldExecuteToolsConcurrently H calls then executeToolsConcurrently H calls
  else executeToolsSerially H calls ({},[])

def executeTools : Task V T (DeferredToolRequests V) := do
  telling fun c => { c with terminateVotes := [], batchAdmissions := 0 }
  let deferred ← executeBatch H calls
  telling (settleBatchTermination deferred.isEmpty)
  telling fun c => { c with truncatedCallPositions := [], truncatedRepeatPositions := [] }
  return deferred

end Harness.AgentLoop
