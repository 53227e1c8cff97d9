import TinyAgents.Completions.Router
import TinyAgents.Interaction.Watching
import TinyAgents.Orchestration.Lifecycles

namespace Orchestration

open Interaction

inductive SubagentError where
  | invalidRequest (message : String)
  | planning (message : String)
  | execution (message : String)
  | persistence (message : String)
  | taskIdMismatch (expected actual : String)
  | transient (message : String) (toolsRan : Bool)
  | cancelled
  | spawnRejected (message : String)

inductive SubagentPersistenceDisposition where
  | pauseCommitted
  | pauseReplaced
  | terminalInserted
  | pauseExisting
  | terminalExisting
  | observerCancelled
  deriving DecidableEq

namespace SubagentPersistenceDisposition

def shouldEmitHostEffects : SubagentPersistenceDisposition → Bool
  | .pauseCommitted | .pauseReplaced | .terminalInserted => true
  | _ => false

def observed : SubagentPersistenceDisposition → SubagentPersistenceDisposition
  | .pauseCommitted | .pauseReplaced | .pauseExisting => .pauseExisting
  | .terminalInserted | .terminalExisting => .terminalExisting
  | .observerCancelled => .observerCancelled

end SubagentPersistenceDisposition

structure SubagentRunResult (H X : Type) where
  outcome : SubagentOutcome H X
  disposition : SubagentPersistenceDisposition

namespace SubagentOutcome

variable {H X : Type} [Inhabited X]

def cancelled (taskId : String) : SubagentOutcome H X :=
  ⟨taskId,"",[],.cancelled,default⟩

def incomplete (taskId : String) (incomplete : SubagentIncomplete) : SubagentOutcome H X :=
  { cancelled taskId with status := .incomplete incomplete }

omit [Inhabited X] in
def cancelledPreserving (outcome : SubagentOutcome H X) : SubagentOutcome H X :=
  { outcome with status := .cancelled }

end SubagentOutcome

structure PreparedSubagent where
  taskId : String
  agentKey : String
  maxAttempts : Nat
  notifyMode : Option Completions.NotifyMode
  completionParent : Option String

structure CompletionOrigin where
  taskId : String
  parentKey : String
  parentEpoch : Nat
  agentId : String
  notifyMode : Completions.NotifyMode

namespace CompletionOrigin

variable {H X : Type}

def parentKeyOf (key : SubagentTaskKey) (prepared : PreparedSubagent) : String :=
  ((prepared.completionParent).or key.threadId).getD key.parentRunId

variable (origin : CompletionOrigin)

def record (status : Completions.CompletionStatus) (result : String) :
    Completions.CompletionRecord where
  taskId := origin.taskId
  parentKey := origin.parentKey
  parentEpoch := origin.parentEpoch
  agentId := origin.agentId
  status := status
  result := result
  notifyMode := origin.notifyMode

def recordForOutcome (outcome : SubagentOutcome H X) : Option Completions.CompletionRecord :=
  match outcome.status with
  | .awaitingInput _ => none
  | .cancelled => some (origin.record .cancelled "")
  | .incomplete incomplete =>
    some (origin.record .incomplete
      (if outcome.output = "" then incomplete.reason else outcome.output))
  | .completed => some (origin.record .success outcome.output)

def recordForError : SubagentError → Option Completions.CompletionRecord
  | .execution message =>
    some (origin.record .failed ("subagent execution failed: "++message))
  | .transient message _ =>
    some (origin.record .failed ("subagent execution failed transiently: "++message))
  | _ => none

end CompletionOrigin

inductive Attempted (H X : Type) where
  | fenceLost
  | timedOut (limit : String)
  | done (result : Except SubagentError (SubagentOutcome H X))

inductive Backoff where
  | fenceLost
  | cancelled
  | slept

structure RunCall (H : Type) where
  driver : Nat
  key : SubagentTaskKey
  resume : Option (SubagentResume H) := none
  routed : Bool := true

-- `fence` answers whether the caller's turn is lost or the caller is gone. `planned` only notes
-- whether the planner has run when the caller's cancellation is looked at.
inductive DriverOp (H X : Type) where
  | fence
  | cached (driver : Nat) (key : SubagentTaskKey)
  | cache (driver : Nat) (key : SubagentTaskKey) (outcome : SubagentOutcome H X)
  | loadTerminal (key : SubagentTaskKey)
  | load (key : SubagentTaskKey)
  | loadPause (key : SubagentTaskKey)
  | savePause (pause : PersistedSubagentPause H X)
  | recordTerminal (key : SubagentTaskKey) (outcome : SubagentOutcome H X)
      (replaces : Option (SubagentResume H))
  | claim (driver : Nat) (key : SubagentTaskKey)
  | wait (entry : Nat)
  | complete (entry : Nat) (result : Except SubagentError (SubagentRunResult H X))
  | retire (driver : Nat) (key : SubagentTaskKey) (entry : Nat)
  | cancelled (planned : Bool)
  | tokenCancelled
  | reserve (key : SubagentTaskKey) (continuation : Bool)
  | prepare (key : SubagentTaskKey) (resume : Option (SubagentResume H))
  | admitChild (parentKey : String)
  | execute (key : SubagentTaskKey) (attempt : Nat)
  | mayRetry (attempt : Nat)
  | backoff (attempt : Nat)
  | nextAttempt (attempt : Nat)
  | policies (outcome : SubagentOutcome H X)
  | deliver (record : Completions.CompletionRecord)

abbrev DriverAns {H X : Type} : DriverOp H X → Type
  | .fence | .cancelled _ | .tokenCancelled | .mayRetry _ => Bool
  | .cached _ _ => Option (SubagentOutcome H X)
  | .cache _ _ _ | .complete _ _ | .retire _ _ _ => Unit
  | .loadTerminal _ | .loadPause _ => Except SubagentError (Option (SubagentOutcome H X))
  | .load _ => Except SubagentError (Option (SubagentResume H))
  | .savePause _ => Except SubagentError SubagentPausePersistenceDisposition
  | .recordTerminal _ _ _ => Except SubagentError SubagentTerminalPersistenceDisposition
  | .claim _ _ => Nat × Bool
  | .wait _ => Option (Except SubagentError (SubagentRunResult H X))
  | .reserve _ _ | .nextAttempt _ => Except SubagentError Unit
  | .prepare _ _ => Except SubagentError PreparedSubagent
  | .admitChild _ => Except SubagentError (Option Nat)
  | .execute _ _ => Attempted H X
  | .backoff _ => Backoff
  | .policies _ => SubagentOutcome H X
  | .deliver _ => Except SubagentError Completions.RecordOutcome

abbrev DriverTask (H X α : Type) := Fallible (DriverOp H X) DriverAns SubagentError α

namespace SubagentDriver

variable {H X α : Type}

def ask (op : DriverOp H X) : DriverTask H X (DriverAns op) :=
  ExceptT.lift (.perform op)

def ensureFence : DriverTask H X Unit := do
  if ← ask .fence then throw .cancelled

def fenced (future : DriverTask H X α) : DriverTask H X α := do
  ensureFence
  ExceptT.mk (future.run.watched .fence id (.error .cancelled))

section

variable (key : SubagentTaskKey)

def loadTerminal : DriverTask H X (Option (SubagentOutcome H X)) :=
  ExceptT.mk (.perform (DriverOp.loadTerminal key))

def load : DriverTask H X (Option (SubagentResume H)) :=
  ExceptT.mk (.perform (DriverOp.load key))

def loadPause : DriverTask H X (Option (SubagentOutcome H X)) :=
  ExceptT.mk (.perform (DriverOp.loadPause key))

def savePause (pause : PersistedSubagentPause H X) :
    DriverTask H X SubagentPausePersistenceDisposition :=
  ExceptT.mk (.perform (DriverOp.savePause pause))

def recordTerminal (outcome : SubagentOutcome H X) (replaces :
    Option (SubagentResume H)) : DriverTask H X SubagentTerminalPersistenceDisposition :=
  ExceptT.mk (.perform (DriverOp.recordTerminal key outcome replaces))

variable (driver : Nat) (key : SubagentTaskKey) (outcome : SubagentOutcome H X)
  (expectedPause : Option (SubagentResume H))

def replay : DriverTask H X (SubagentRunResult H X) := do
  ask (.cache driver key outcome)
  return ⟨outcome,.terminalExisting⟩

def terminalOr (e : SubagentError) : DriverTask H X (SubagentRunResult H X) := do
  match ← loadTerminal key with
  | some terminal => replay driver key terminal
  | none => throw e

def loadTerminalWinner : DriverTask H X (SubagentRunResult H X) :=
  terminalOr driver key
    (.persistence "terminal compare-and-swap lost without a durable terminal outcome")

def recheckTerminal : DriverTask H X (SubagentRunResult H X) :=
  terminalOr driver key
    (.persistence "pause compare-and-swap lost without a durable pause or terminal outcome")

def loadPauseWinner : DriverTask H X (SubagentRunResult H X) := do
  match ← loadTerminal key with
  | some terminal => replay driver key terminal
  | none =>
    match ← loadPause key with
    | none => recheckTerminal driver key
    | some paused =>
      match paused.status with
      | .awaitingInput _ => return ⟨paused,.pauseExisting⟩
      | _ => throw (.persistence
          "durable pause record did not contain an awaiting-input outcome")

def persistCancelled : DriverTask H X (SubagentRunResult H X) := do
  let outcome := { outcome with status := .cancelled }
  match ← recordTerminal key outcome expectedPause with
  | .inserted =>
    ask (.cache driver key outcome)
    return ⟨outcome,.terminalInserted⟩
  | .existing => loadTerminalWinner driver key
  | .pauseExisting => loadPauseWinner driver key

def commitOrCancel (operation : DriverTask H X α) : DriverTask H X (Option α) := do
  if ← ask (.cancelled true) then return none
  else return some (← operation)

def persistPause : DriverTask H X (SubagentRunResult H X) := do
  match ← commitOrCancel (savePause ⟨key,outcome,expectedPause⟩) with
  | some .inserted => return ⟨outcome,.pauseCommitted⟩
  | some .replaced => return ⟨outcome,.pauseReplaced⟩
  | some .existing => loadPauseWinner driver key
  | some .terminalExisting => loadTerminalWinner driver key
  | none => persistCancelled driver key outcome expectedPause

def persistTerminal : DriverTask H X (SubagentRunResult H X) := do
  match ← commitOrCancel (recordTerminal key outcome expectedPause) with
  | some .inserted =>
    ask (.cache driver key outcome)
    return ⟨outcome,.terminalInserted⟩
  | some .existing =>
    terminalOr driver key (.persistence "terminal insert lost without durable outcome")
  | some .pauseExisting => loadPauseWinner driver key
  | none => persistCancelled driver key outcome expectedPause

def persist : DriverTask H X (SubagentRunResult H X) :=
  match outcome.status with
  | .cancelled => persistCancelled driver key outcome expectedPause
  | .awaitingInput _ => persistPause driver key outcome expectedPause
  | .completed | .incomplete _ => persistTerminal driver key outcome expectedPause

end

def completionOrigin (routed : Bool) (key : SubagentTaskKey) (prepared : PreparedSubagent) :
    DriverTask H X (Option CompletionOrigin) :=
  match routed, prepared.notifyMode with
  | true, some notifyMode => do
    let parentKey := CompletionOrigin.parentKeyOf key prepared
    match ← (ExceptT.mk (.perform (DriverOp.admitChild parentKey)) : DriverTask H X _) with
    | some parentEpoch =>
      return some ⟨key.taskId,parentKey,parentEpoch,prepared.agentKey,notifyMode⟩
    | none => throw (.persistence ("parent lifecycle is closed: "++parentKey.quote))
  | _, _ => return none

def deliver (record : Completions.CompletionRecord) : DriverTask H X Unit := do
  let _ ← ask (.deliver record)

section

variable (origin : Option CompletionOrigin)

def recordCompletion (result : SubagentRunResult H X) : DriverTask H X Unit :=
  match origin.bind (·.recordForOutcome result.outcome) with
  | some record =>
    if result.disposition.shouldEmitHostEffects then deliver record else return ()
  | none => return ()

def recordFailure (expectedPause : Option (SubagentResume H)) (error : SubagentError) :
    DriverTask H X Unit :=
  match origin.bind (·.recordForError error) with
  | some record =>
    if expectedPause.isNone then fenced (deliver record) else return ()
  | none => return ()

end

inductive Executed (H X : Type) where
  | fenceLost
  | ended (result : Except SubagentError (SubagentOutcome H X)) (timedOut : Bool)

def retryAllowed (n : Nat) : DriverTask H X Bool := do
  if ← ask (.cancelled true) then return false
  else if ← ask .tokenCancelled then return false
  else ask (.mayRetry n)

variable [Inhabited X] (driver : Nat) (key : SubagentTaskKey)
  (expectedPause : Option (SubagentResume H)) (origin : Option CompletionOrigin)

def attempts : (left n : Nat) → DriverTask H X (Executed H X)
  | left, n => do
    if ← ask .fence then return .fenceLost
    else
      match ← ask (.execute key n) with
      | .fenceLost => return .fenceLost
      | .timedOut limit => return .ended (.ok (.incomplete key.taskId
          ⟨"subagent timed out after "++limit,.timeout⟩)) true
      | .done (.error (.transient message toolsRan)) =>
        match left with
        | 0 => return .ended (.error (.transient message toolsRan)) false
        | left+1 =>
          if !(← retryAllowed n) then
            return .ended (.error (.transient message toolsRan)) false
          else
            match ← ask (.backoff (n+1)) with
            | .fenceLost => return .fenceLost
            | .cancelled => return .ended (.error .cancelled) false
            | .slept =>
              match ← ask (.nextAttempt (n+1)) with
              | .ok _ => attempts left (n+1)
              | .error e => return .ended (.error e) false
      | .done result => return .ended result false

def interrupted (timedOut : Bool) : DriverTask H X Bool := do
  if ← ask (.cancelled true) then return true
  else if timedOut then return false
  else ask .tokenCancelled

def conclude (timedOut : Bool) :
    Except SubagentError (SubagentOutcome H X) → DriverTask H X (SubagentOutcome H X)
  | .ok outcome => do
    if outcome.taskId ≠ key.taskId then throw (.taskIdMismatch key.taskId outcome.taskId)
    else if ← interrupted timedOut then return outcome.cancelledPreserving
    else fenced (ask (.policies outcome))
  | .error .cancelled => return .cancelled key.taskId
  | .error e => do
    if ← ask (.cancelled true) then return .cancelled key.taskId
    else
      recordFailure origin expectedPause e
      throw e

def settle (outcome : SubagentOutcome H X) : DriverTask H X (SubagentRunResult H X) := do
  let result ← fenced (persist driver key outcome expectedPause)
  fenced (recordCompletion origin result)
  return result

def cancelNow : DriverTask H X (SubagentRunResult H X) := do
  let result ← fenced (persistCancelled driver key (.cancelled key.taskId) expectedPause)
  fenced (recordCompletion origin result)
  return result

def launch (prepared : PreparedSubagent) : DriverTask H X (SubagentRunResult H X) := do
  match ← attempts key (prepared.maxAttempts-1) 0 with
  | .fenceLost => throw .cancelled
  | .ended result timedOut =>
    ensureFence
    let outcome ← conclude key expectedPause origin timedOut result
    settle driver key expectedPause origin outcome

variable (call : RunCall H)

def plan (expectedPause : Option (SubagentResume H)) : DriverTask H X (SubagentRunResult H X) := do
  ExceptT.mk (.perform (DriverOp.reserve call.key expectedPause.isSome))
  ensureFence
  let prepared ← fenced (ExceptT.mk (.perform (DriverOp.prepare call.key expectedPause)) :
    DriverTask H X PreparedSubagent)
  if prepared.taskId ≠ call.key.taskId then
    throw (.taskIdMismatch call.key.taskId prepared.taskId)
  else
    let origin ← completionOrigin call.routed call.key prepared
    ensureFence
    if ← ask (.cancelled true) then cancelNow call.driver call.key expectedPause origin
    else launch call.driver call.key expectedPause origin prepared

def expected : DriverTask H X (Option (SubagentResume H)) :=
  match call.resume with
  | some resume => return some resume
  | none => fenced (load call.key)

def runReserved : DriverTask H X (SubagentRunResult H X) := do
  ensureFence
  if ← ask (.cancelled false) then cancelNow call.driver call.key none none
  else
    let expectedPause ← expected call
    if ← ask (.cancelled false) then cancelNow call.driver call.key expectedPause none
    else plan call expectedPause

omit [Inhabited X] in
def finish (entry : Nat) (result : Except SubagentError (SubagentRunResult H X)) :
    DriverTask H X (SubagentRunResult H X) := do
  ask (.complete entry result)
  ask (.retire driver key entry)
  ExceptT.mk (.ret result)

def reserved : DriverTask H X (SubagentRunResult H X) := do
  match ← fenced (ask (.cached call.driver call.key)) with
  | some outcome => return ⟨outcome,.terminalExisting⟩
  | none => runReserved call

def lead (entry : Nat) : DriverTask H X (SubagentRunResult H X) :=
  ExceptT.mk do (finish call.driver call.key entry (← (reserved call).run)).run

def follow (entry : Nat) : DriverTask H X (SubagentRunResult H X) := do
  match ← fenced (ask (.wait entry)) with
  | none => return ⟨.cancelled key.taskId,.observerCancelled⟩
  | some (.error e) => throw e
  | some (.ok result) => return ⟨result.outcome,result.disposition.observed⟩

def enter : DriverTask H X (SubagentRunResult H X) := do
  let (entry,isLeader) ← ask (.claim call.driver call.key)
  if isLeader then lead call entry else follow call.key entry

def run : DriverTask H X (SubagentRunResult H X) := do
  ensureFence
  match ← fenced (ask (.cached call.driver call.key)) with
  | some outcome => return ⟨outcome,.terminalExisting⟩
  | none =>
    match ← fenced (loadTerminal call.key) with
    | some outcome =>
      fenced (ask (.cache call.driver call.key outcome))
      return ⟨outcome,.terminalExisting⟩
    | none => enter call

end SubagentDriver

end Orchestration
