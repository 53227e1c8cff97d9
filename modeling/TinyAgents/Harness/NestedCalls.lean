import TinyAgents.Harness.ToolCalls

namespace Harness.NestedCalls

open Interaction
open Harness.AgentLoop (ToolCall TinyAgentsError ToolResult ApprovalDirective AgentEvent
  AgentHarness Answer Injected ToolEffectStatus needsApproval)

inductive GateHold where
  | none
  | shared
  | exclusive
  deriving DecidableEq

structure Caller where
  issuer : Nat
  path : List Nat := []
  deriving DecidableEq

structure NestedRequest (V : Type) where
  caller : Caller
  parent : String
  level : Nat
  held : GateHold
  name : String
  arguments : V

inductive Ending (V : Type) where
  | failed (error : TinyAgentsError V)
  | dropped

structure NestedLimits where
  maxNestedDepth : Nat
  maxToolCalls : Nat

def maxNestedRefusals : Nat := 8

section

-- Nothing outside is told the caller of a call, or what `start` is given.
inductive NestedOp (V T : Type) where
  | enter (caller : Caller) (held : GateHold)
  | leave
  | reserveRefusal (caller : Caller)
  | refundRefusal (caller : Caller)
  | commitRefusal (caller : Caller)
  | commitLateRefusal (caller : Caller)
  | cancelled
  | checkWallClock
  | emit (event : AgentEvent V)
  | tryReserveNestedToolCall
  | releaseNestedToolCall
  | rules (tool : T) (arguments : V)
  | inject (tool : T) (call : ToolCall V)
  | bindCall (tool : T) (arguments : V)
  | checkNestedTool (call : ToolCall V)
  | prepareAuthorization (tool : T) (arguments : V)
  | authorize (call : ToolCall V) (modelArguments : V)
  | unresolved (callId : String)
  | ledgerStarted (callId tool idempotencyKey : String)
  | ledgerSettled (callId : String) (status : ToolEffectStatus)
  | acquireSerial (exclusive : Bool)
  | acquireGate (exclusive : Bool)
  | releaseGates
  | start (caller : Caller) (serialize : Bool) (held : GateHold)
  | execute (caller : Caller) (tool : T) (call : ToolCall V)
  | observeNestedResult (call : ToolCall V) (result : ToolResult V)

variable {V T : Type}

abbrev Await (V α : Type) := Option (Answer V α)

def NestedAns : NestedOp V T → Type
  | .enter _ _ => Nat
  | .leave => Unit
  | .reserveRefusal _ => Bool
  | .refundRefusal _ => Unit
  | .commitRefusal _ => Unit
  | .commitLateRefusal _ => Unit
  | .cancelled => Bool
  | .checkWallClock => Bool
  | .emit _ => Unit
  | .tryReserveNestedToolCall => Bool
  | .releaseNestedToolCall => Unit
  | .rules _ _ => Await V AgentLoop.CallGate
  | .inject _ _ => Injected V
  | .bindCall _ _ => Option (Option T)
  | .checkNestedTool _ => Await V Unit
  | .prepareAuthorization _ _ | .authorize _ _ => Await V (Option String)
  | .unresolved _ => Await V Bool
  | .ledgerStarted _ _ _ => Await V Unit
  | .ledgerSettled _ _ => Option Unit
  | .acquireSerial _ => Option Unit
  | .acquireGate _ => Option Unit
  | .releaseGates => Unit
  | .start _ _ _ => Unit
  | .execute _ _ _ => Await V (ToolResult V)
  | .observeNestedResult _ _ => Option Unit

abbrev Steps (V T : Type) := Program (NestedOp V T) NestedAns
abbrev Nested (V T : Type) := Fallible (NestedOp V T) NestedAns (Ending V)

def request (op : NestedOp V T) : Steps V T (NestedAns op) := Program.perform op

def asking (op : NestedOp V T) : Nested V T (NestedAns op) := ExceptT.lift (request op)

def await {α : Type} (p : Steps V T (Await V α)) : Nested V T α := ExceptT.mk do
  match ← p with
  | none => return .error .dropped
  | some (.error e) => return .error (.failed e)
  | some (.ok a) => return .ok a

def waiting (p : Steps V T (Option Unit)) : Nested V T Unit := ExceptT.mk do
  match ← p with
  | none => return .error .dropped
  | some _ => return .ok ()

def fail {α : Type} (e : TinyAgentsError V) : Nested V T α := throw (.failed e)

variable (H : AgentHarness V T) (limits : NestedLimits)

def approvalError (name : String) : TinyAgentsError V :=
  .toolFailed ("nested call '"++name++"' requires approval; nested calls cannot be deferred")

def invalidArguments (name detail : String) : TinyAgentsError V :=
  .toolFailed ("invalid arguments for nested call '"++name++"': "++detail)

variable (tool : T) (approval : ApprovalDirective)

def admitsByRules (arguments : V) : Nested V T ApprovalDirective := do
  match ← await (request (.rules tool arguments)) with
  | .admits approval => return approval
  | .refuse message => fail (.toolFailed message)

def admitsTarget : Nested V T ApprovalDirective :=
  match H.admissionTarget tool with
  | none => return approval
  | some (target,arguments) => do
    let last ← admitsByRules target arguments
    return H.strictest approval last

def checkNested (call : ToolCall V) : Nested V T Unit := do
  match ← asking (.checkNestedTool call) with
  | none => throw .dropped
  | some (.ok _) => return ()
  | some (.error e) =>
    match e with
    | .toolFailed message => fail (.toolFailed message)
    | .cancelled => fail .cancelled
    | .timeout message => fail (.timeout message)
    | .approvalRequired _ | .callDeferred _ => fail (approvalError call.name)
    | other => fail (.toolFailed
        ("nested call '"++call.name++"' refused: "++H.errorText other))

def authorizeNested (modelArguments : V) (call : ToolCall V) : Nested V T Unit :=
  if H.hosted then do
    match ← await (request (.prepareAuthorization tool call.arguments)) with
    | some error => fail (.toolFailed ("nested call '"++call.name++
        "' refused: tool authorization preparation failed: "++error))
    | none => do
      match ← await (request (.authorize call modelArguments)) with
      | some reason => fail (.toolFailed ("nested call '"++call.name++"' denied: "++reason))
      | none => return ()
  else return ()

def gateNested (modelArguments : V) (call : ToolCall V) : Nested V T (T × ToolCall V) := do
  let last ← admitsByRules tool call.arguments
  let approval ← admitsTarget H tool (H.strictest approval last)
  if H.isExternal tool || needsApproval H approval tool then fail (approvalError call.name)
  else do
    checkNested H call
    authorizeNested H tool modelArguments call
    return (tool,call)

def admitNestedTool (call : ToolCall V) : Nested V T (T × ToolCall V) :=
  match if H.allowsName call.name then H.modelDispatch call.name else none with
  | none => fail (.toolNotFound call.name)
  | some tool => do
    let approval ← admitsByRules tool call.arguments
    let injected ← asking (.inject tool call)
    match Injected.preparing (H.injectsArguments tool) call.arguments injected with
    | .unavailable => fail (.validation
        ("failed to prepare injected arguments for tool `"++call.name++"`"))
    | .invalid error => fail (invalidArguments call.name error)
    | .ready prepared => do
      let arguments := if H.invalidArgs = .normalizeThenReturnToolError then
        H.normalize tool prepared else prepared
      let final := { call with arguments := arguments }
      match H.validateCall tool final with
      | some detail => fail (invalidArguments call.name detail)
      | none => do
        match ← asking (.bindCall tool final.arguments) with
        | none => fail (.tool "tool call binding failed")
        | some bound =>
          gateNested H (Option.getD bound tool) approval call.arguments final

def reserved {α : Type} (p : Nested V T α) : Nested V T α := do
  match ← ExceptT.lift p.run with
  | .ok a => return a
  | .error e => do
    asking .releaseNestedToolCall
    throw e

def admitNested (level : Nat) (call : ToolCall V) : Nested V T (T × ToolCall V) :=
  if limits.maxNestedDepth = 0 then
    fail (.toolFailed "nested tool calls are disabled (max_nested_depth = 0)")
  else if limits.maxNestedDepth < level then
    fail (.toolFailed ("nested call '"++call.name++"' exceeds max_nested_depth ("++
      toString limits.maxNestedDepth++")"))
  else do
    let cancelled : Bool ← asking .cancelled
    if cancelled then fail .cancelled
    else do
      let passed : Bool ← asking .checkWallClock
      if passed then do
        asking (.emit (.limitReached .wallClock))
        fail (.timeout ("run `"++H.runId++"` exceeded its wall-clock deadline"))
      else do
        let slot : Bool ← asking .tryReserveNestedToolCall
        if slot then reserved (admitNestedTool H call)
        else do
          asking (.emit (.limitReached .toolCalls))
          fail (.limitExceeded ("max tool calls ("++toString limits.maxToolCalls++
            ") exceeded by a nested tool call"))

end

variable {V T : Type} (H : AgentHarness V T) (limits : NestedLimits) {α : Type}
  (n : NestedRequest V) (tool : T) (call : ToolCall V)

def serializes (arguments : V) : Bool :=
  H.injectsArguments tool || !H.isConcurrencySafe tool arguments || !H.wrapsConcurrentSafe

def failNested (e : TinyAgentsError V) : Nested V T α := do
  asking (.emit (.toolFailed call.id call.name (H.errorText e)))
  fail e

def closing (p : Nested V T α) : Nested V T α := do
  match ← ExceptT.lift p.run with
  | .ok a => return a
  | .error .dropped => do
    asking (.emit (.toolFailed call.id call.name
      "parent settled: the nested call was dropped before completing"))
    throw .dropped
  | .error e => throw e

def recordNestedStarted : Nested V T Unit :=
  match H.ledger with
  | none => return ()
  | some failure => do
    let key := H.idempotencyKey call.name call.arguments
    match ← asking (.ledgerStarted call.id call.name key) with
    | none => throw .dropped
    | some (.ok _) => return ()
    | some (.error e) => match failure with
        | .abort => failNested H call e
        | .continue => return ()

def recordNestedSettled (status : ToolEffectStatus) : Nested V T Unit :=
  match H.ledger with
  | none => return ()
  | some _ => waiting (request (.ledgerSettled call.id status))

def checkReplay : Nested V T Unit :=
  if H.ledger.isSome && H.replay tool != .safe then do
    let found ← await (request (.unresolved call.id))
    if found then fail (.toolFailed ("nested call '"++call.name++
      "' refused: an earlier attempt of '"++call.id++
      "' never settled and the tool is not replay-safe"))
    else return ()
  else return ()

def acquireGates (held : GateHold) (serialize : Bool) : Nested V T Unit := do
  waiting (request (.acquireSerial serialize))
  if held = .none then do
    match ← asking (.acquireGate serialize) with
    | some _ => return ()
    | none => do
      asking .releaseGates
      throw .dropped
  else return ()

def GateHold.below (held : GateHold) (serialize : Bool) : GateHold :=
  match held with
  | .none => if serialize then .exclusive else .shared
  | held => held

def isDeferral : TinyAgentsError V → Bool
  | .approvalRequired _ => true
  | .callDeferred _ => true
  | _ => false

def settleNested (caller : Caller) (tool : T) (call : ToolCall V) :
    Await V (ToolResult V) → Nested V T (ToolResult V)
  | none => throw .dropped
  | some (.ok result) => do
    recordNestedSettled H call .completed
    waiting (request (.observeNestedResult call result))
    let output := H.outputForLlm result (H.preferMarkdown tool call.arguments)
    asking (.emit (.toolCompleted call.id call.name
      (if H.captureToolIo then some call.arguments else none)
      (if H.captureToolIo then some output else none) output.utf8ByteSize
      (if result.isError then some output else none) result.metadata))
    return result
  | some (.error e) => do
    recordNestedSettled H call .failed
    if isDeferral e then do
      asking (.commitLateRefusal caller)
      failNested H call (approvalError call.name)
    else failNested H call e

def startNested (serialize : Bool) (call : ToolCall V) : Nested V T Unit := do
  recordNestedStarted H call
  acquireGates n.held serialize
  asking (.start n.caller serialize (n.held.below serialize))

def announceNested : Nested V T Unit := do
  let serialize := serializes H tool call.arguments
  if serialize && n.held = .shared then do
    asking (.commitLateRefusal n.caller)
    fail (.toolFailed ("nested call '"++call.name++
      "' refused: it is not concurrency-safe and its caller runs under the shared "++
      "nested-call gate"))
  else do
    checkReplay H tool call
    asking (.emit (.toolStarted call.id call.name
      (if H.captureToolIo then some call.arguments else none)))
    closing call (startNested H n serialize call)

def executeNested : Nested V T (ToolResult V) := do
  let answer ← asking (.execute n.caller tool call)
  closing call (settleNested H n.caller tool call answer)

def runNestedTool (id : String) : Nested V T (ToolResult V) := do
  let call : ToolCall V := { id := id, name := n.name, arguments := n.arguments }
  match ← ExceptT.lift (admitNested H limits n.level call).run with
  | .error (.failed e) => do
    asking (.commitRefusal n.caller)
    fail e
  | .error .dropped => do
    asking (.refundRefusal n.caller)
    throw .dropped
  | .ok (tool,call) => do
    asking (.refundRefusal n.caller)
    reserved (announceNested H n tool call)
    let outcome ← ExceptT.lift (executeNested H n tool call).run
    asking .releaseGates
    Fallible.ofExcept outcome

def nestedCallId (parent : String) (index : Nat) : String := parent++"/"++toString (index+1)

def serve : Steps V T (Except (Ending V) (ToolResult V)) := do
  let index : Nat ← request (.enter n.caller n.held)
  let slot : Bool ← request (.reserveRefusal n.caller)
  let outcome ← if slot then
      (runNestedTool H limits n (nestedCallId n.parent index)).run
    else pure (.error (.failed (.toolFailed ("nested call '"++n.name++"' refused: tool call '"++
      n.parent++"' already had "++toString maxNestedRefusals++" nested calls refused"))))
  request .leave
  return outcome

end Harness.NestedCalls
