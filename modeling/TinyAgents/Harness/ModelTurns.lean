import TinyAgents.Interaction.Executions

namespace Harness.ModelTurns

open Interaction

structure ModelResponse (U : Type) where
  usage : Option U
  servedFromCache : Bool := false
  resolvedModel : Option String := none

def ModelResponse.billed {U : Type} (response : ModelResponse U) : Option U :=
  if response.servedFromCache then none else response.usage

-- One provider call. A response is spoiled if it had been completed but was not handed on: its
-- streamed tool calls did not add up, a dispatch of the call had been refused, the tail flushed
-- on completion failed a delta hook or looked stalled, or the stream then idled or was cancelled.
inductive Attempt (U E : Type) where
  | completed (response : ModelResponse U)
  | spoiled (response : ModelResponse U) (error : E)
  | failed (error : E)

def Attempt.billed {U E : Type} : Attempt U E → Option U
  | .completed response => response.billed
  | .spoiled response _ => response.billed
  | .failed _ => none

def Attempt.result {U E : Type} : Attempt U E → Except E (ModelResponse U)
  | .completed response => .ok response
  | .spoiled _ error => .error error
  | .failed error => .error error

inductive Layer (E : Type) where
  | retry (maxAttempts : Nat) (shouldRetry : Nat → E → Bool)
  | fallback (models : List String)
  | timeout
  | rateLimit
  | compression (maxOverflowAttempts : Nat)
  | observer

def Layer.overridesRetry {E : Type} : Layer E → Bool
  | .retry _ _ => true
  | _ => false

-- The code does not read `completed`: the usages the provider billed, in order.
structure TurnContext (U : Type) where
  recorded : List U := []
  discarded : List U := []
  modelCalls : Nat := 0
  steps : Nat := 0
  baseCalled : Bool := false
  completed : List U := []

structure ModelHarness (U E : Type) where
  layers : List (Layer E)
  hooks : Nat
  budget : Bool
  hosted : Bool
  streaming : Bool
  cacheable : Bool
  maxAttempts : Nat
  retryable : E → Bool
  isTimeout : E → Bool
  isTerminalLimit : E → Bool
  isStreamIdleTimeout : E → Bool
  isRetryable : E → Bool
  surfaces : E → Bool
  fallbacks : Nat
  skipsEmpty : ModelResponse U → Bool
  overflows : Except E (ModelResponse U) → Bool
  cancelled : E
  timedOut : E

section

variable {U E : Type}

-- `held` is told of a response that is at hand and not yet accounted for; nothing outside is
-- given it.
inductive TurnOp (U E : Type) where
  | read
  | update (f : TurnContext U → TurnContext U)
  | elapsed (held : Option U)
  | rebind (requested : Option String)
  | lookup
  | replay (response : ModelResponse U)
  | cachePut (response : ModelResponse U)
  | cancelled
  | skipped (model : String)
  | attempt (model : String)
  | idleBreaker (model : String) (error : E)
  | backoff (attempt : Nat)
  | selectFallback (model : String)
  | acquire
  | truncate
  | compact (held : Option U)
  | afterModelDispatch (hook : Nat) (baseCalled : Bool) (held : Option U)
  | recordHostUsage (usage : U)
  | afterModel (response : ModelResponse U)
  | goOn

def TurnAns : TurnOp U E → Type
  | .read => TurnContext U
  | .update _ => Unit
  | .elapsed _ => Bool
  | .rebind _ => Except E String
  | .lookup => Option (ModelResponse U)
  | .replay _ => Except E Unit
  | .cachePut _ => Unit
  | .cancelled => Bool
  | .skipped _ => Bool
  | .attempt _ => Attempt U E
  | .idleBreaker _ _ => Option E
  | .backoff _ => Bool
  | .selectFallback _ => Except E (Option String)
  | .acquire => Except E Unit
  | .truncate => Bool
  | .compact _ => Bool
  | .afterModelDispatch _ _ _ => Except E Unit
  | .recordHostUsage _ => Except E Unit
  | .afterModel _ => Except E Unit
  | .goOn => Bool

abbrev Turn (U E : Type) := Program (TurnOp U E) TurnAns
abbrev Call (U E : Type) := Fallible (TurnOp U E) TurnAns E

def TurnOutcome : (op : TurnOp U E) → TurnContext U → TurnAns op → TurnContext U → Prop
  | .read, c, x, c' => x = c ∧ c' = c
  | .update f, c, _, c' => c' = f c
  | .attempt _, c, x, c' => c' = { c with completed := c.completed++x.billed.toList }
  | _, c, _, c' => c' = c

def TurnOp.waiting : TurnOp U E → Option (Option U)
  | .rebind _ => some none
  | .lookup => some none
  | .replay _ => some none
  | .cachePut response => some response.billed
  | .attempt _ => some none
  | .backoff _ => some none
  | .selectFallback _ => some none
  | .acquire => some none
  | .compact held => some held
  | _ => none

def request (op : TurnOp U E) : Turn U E (TurnAns op) := Program.perform op

def asking (op : TurnOp U E) : Call U E (TurnAns op) := ExceptT.lift (request op)

def ask {α : Type} (p : Turn U E (Except E α)) : Call U E α := ExceptT.mk p

def telling (f : TurnContext U → TurnContext U) : Call U E Unit := asking (.update f)

def interruptible {α : Type} : Turn U E α → Turn U E (Option α)
  | .ret a => .ret (some a)
  | .ask op next =>
    match op.waiting with
    | none => .ask op fun x => interruptible (next x)
    | some held => .ask (.elapsed held) fun (late : Bool) =>
      if late then .ret none else .ask op fun x => interruptible (next x)

variable (H : ModelHarness U E)

def ModelHarness.retryOverridden : Bool := H.layers.any Layer.overridesRetry

variable (model : String) (response : ModelResponse U)

def attemptModel (attempt : Nat) (again : Option (Call U E (Except E (ModelResponse U)))) :
    Call U E (Except E (ModelResponse U)) := do
  let cancelled : Bool ← asking .cancelled
  if cancelled then throw H.cancelled
  let tried : Attempt U E ← asking (.attempt model)
  match tried.result with
  | .ok response => return .ok response
  | .error e =>
    if H.isTerminalLimit e then return .error e
    else do
      let tripped : Option E ← asking (.idleBreaker model e)
      match tripped, again with
      | some tripped, _ => return .error tripped
      | none, none => return .error e
      | none, some again =>
        if !H.retryOverridden && H.retryable e then do
          let cancelled : Bool ← asking (.backoff attempt)
          if cancelled then throw H.cancelled
          again
        else return .error e

def invokeAttempts (model : String) : Nat → Nat → Call U E (Except E (ModelResponse U))
  | 0, attempt => attemptModel H model attempt none
  | left+1, attempt =>
    attemptModel H model attempt (some (invokeAttempts model left (attempt+1)))

def resolvedBy : ModelResponse U :=
  { response with resolvedModel := Option.or response.resolvedModel (some model) }

def invokeModel (fallBack : String → Call U E (ModelResponse U)) : Call U E (ModelResponse U) := do
  match ← invokeAttempts H model (H.maxAttempts-1) 0 with
  | .ok response => return resolvedBy model response
  | .error e =>
    if H.isTimeout e || H.isTerminalLimit e || H.hosted then throw e
    else do
      let selected : Option String ← ask (request (.selectFallback model))
      match selected with
      | some next => if H.surfaces e then throw e else fallBack next
      | none => throw e

def invokeModels : Nat → String → Call U E (ModelResponse U)
  | 0, model => do
    match ← invokeAttempts H model (H.maxAttempts-1) 0 with
    | .ok response => return resolvedBy model response
    | .error e => throw e
  | fallbacks+1, model => invokeModel H model (invokeModels fallbacks)

def invokeModelResolving : Call U E (ModelResponse U) := do
  let skipped : Bool ← asking (.skipped model)
  if skipped && !H.hosted then do
    match ← ask (request (.selectFallback model)) with
    | some next => invokeModels H H.fallbacks next
    | none => invokeModels H H.fallbacks model
  else invokeModels H H.fallbacks model

def servedByFallback : Bool :=
  response.resolvedModel.any (· != model)

def invokeAndCache : Call U E (ModelResponse U) := do
  let response ← invokeModelResolving H model
  if H.cacheable && !H.skipsEmpty response && !servedByFallback model response then do
    let _ ← asking (.cachePut response)
    return response
  else return response

def replayCached (cached : ModelResponse U) : Call U E (ModelResponse U) := do
  let cached := { cached with servedFromCache := true }
  if H.streaming then do
    ask (request (.replay cached))
    return cached
  else return cached

def invokeModelWithRetry : Call U E (ModelResponse U) :=
  if H.cacheable then do
    let found : Option (ModelResponse U) ← asking .lookup
    match found with
    | some cached => if H.skipsEmpty cached then invokeAndCache H model else replayCached H cached
    | none => invokeAndCache H model
  else invokeAndCache H model

def modelCallBase (requested : Option String) : Call U E (ModelResponse U) := do
  telling fun c => { c with baseCalled := true }
  let model ← ask (request (.rebind requested))
  invokeModelWithRetry H model

variable (next : Call U E (ModelResponse U)) (shouldRetry : Nat → E → Bool)

def retryOnce (attempt : Nat)
    (again : Option (Call U E (ModelResponse U))) : Call U E (ModelResponse U) := do
  match ← ExceptT.lift next.run with
  | .ok response => return response
  | .error e =>
    if H.isTerminalLimit e || H.isStreamIdleTimeout e then throw e
    else match again with
      | none => throw e
      | some again =>
        if shouldRetry attempt e then do
          let cancelled : Bool ← asking (.backoff attempt)
          if cancelled then throw H.cancelled
          again
        else throw e

def retrying : Nat → Nat → Call U E (ModelResponse U)
  | 0, attempt => retryOnce H next shouldRetry attempt none
  | left+1, attempt =>
    retryOnce H next shouldRetry attempt (some (retrying left (attempt+1)))

def fallingBack (next : Option String → Call U E (ModelResponse U)) :
    List String → E → Call U E (ModelResponse U)
  | [], e => throw e
  | model :: models, e =>
    if H.isRetryable e then do
      match ← ExceptT.lift (next (some model)).run with
      | .ok response => return response
      | .error e => fallingBack next models e
    else throw e

variable (result : Except E (ModelResponse U))

def held : Option U :=
  match result with
  | .ok response => response.billed
  | .error _ => none

def reportsOverflow : Bool :=
  match result with
  | .ok response => !response.servedFromCache && !H.streaming && H.overflows result
  | .error _ => H.overflows result

def accountDiscarded : Call U E Unit :=
  match result with
  | .ok { usage := some usage, .. } =>
    telling fun c => { c with discarded := c.discarded++[usage] }
  | _ => return ()

def compressing : Nat → Call U E (ModelResponse U)
  | 0 => next
  | left+1 => do
    let result ← ExceptT.lift next.run
    if reportsOverflow H result then do
      let cut : Bool ← asking .truncate
      if cut then do
        accountDiscarded result
        compressing left
      else do
        let shrunk : Bool ← asking (.compact (held result))
        if shrunk then do
          accountDiscarded result
          compressing left
        else do
          let cut : Bool ← asking .truncate
          if cut then do
            accountDiscarded result
            compressing left
          else Fallible.ofExcept result
    else Fallible.ofExcept result

def runWrapped : List (Layer E) → Option String → Call U E (ModelResponse U)
  | [], requested => modelCallBase H requested
  | .retry maxAttempts shouldRetry :: layers, requested =>
    retrying H (runWrapped layers requested) shouldRetry (maxAttempts-1) 0
  | .fallback models :: layers, requested => do
    match ← ExceptT.lift (runWrapped layers requested).run with
    | .ok response => return response
    | .error e => fallingBack H (runWrapped layers) models e
  | .timeout :: layers, requested => do
    match ← ExceptT.lift (interruptible (runWrapped layers requested).run) with
    | some result => Fallible.ofExcept result
    | none => throw H.timedOut
  | .rateLimit :: layers, requested => do
    ask (request .acquire)
    runWrapped layers requested
  | .compression maxAttempts :: layers, requested =>
    compressing H (runWrapped layers requested) maxAttempts
  | .observer :: layers, requested => runWrapped layers requested

end

variable {U E : Type} (H : ModelHarness U E)

def record (usage : U) : Call U E Unit :=
  telling fun c => { c with recorded := c.recorded++[usage] }

def accountUsages : List U → Option E → Call U E (Option E)
  | [], first => return first
  | usage :: rest, first => do
    record usage
    if H.budget then do
      let told : Except E Unit ← asking (.recordHostUsage usage)
      match told with
      | .ok _ => accountUsages rest first
      | .error e => accountUsages rest (Option.or first (some e))
    else accountUsages rest first

def accountDiscardedUsage : Call U E (Option E) := do
  let c : TurnContext U ← asking .read
  telling fun c => { c with discarded := [] }
  accountUsages H c.discarded none

def raise : Option E → Call U E Unit
  | some e => throw e
  | none => return ()

def accountModelResponse (response : ModelResponse U) : Call U E Unit := do
  telling fun c => { c with modelCalls := c.modelCalls+1, steps := c.steps+1 }
  let first ← accountDiscardedUsage H
  match response.billed with
  | none => raise first
  | some usage => do
    record usage
    if H.budget then do
      let told : Except E Unit ← asking (.recordHostUsage usage)
      match told with
      | .ok _ => raise first
      | .error e => throw (first.getD e)
    else raise first

def runAfterModelDispatch (held : Option U) : Nat → Call U E Unit
  | 0 => return ()
  | hook+1 => do
    let c : TurnContext U ← asking .read
    ask (request (.afterModelDispatch hook c.baseCalled held))
    runAfterModelDispatch held hook

def modelTurn : Call U E Unit := do
  telling fun c => { c with baseCalled := false }
  match ← ExceptT.lift (runWrapped H H.layers none).run with
  | .error e => do
    runAfterModelDispatch none H.hooks
    let first ← accountDiscardedUsage H
    raise first
    throw e
  | .ok response => do
    runAfterModelDispatch response.billed H.hooks
    accountModelResponse H response
    ask (request (.afterModel response))

def runModelTurns : Nat → Call U E Unit
  | 0 => return ()
  | n+1 => do
    modelTurn H
    let more : Bool ← asking .goOn
    if more then runModelTurns n else return ()

end Harness.ModelTurns
