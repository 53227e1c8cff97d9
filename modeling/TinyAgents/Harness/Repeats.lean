import TinyAgents.Interaction.Table

namespace Harness

open Interaction

def u32Max : Nat := 2^32-1

def satAdd (a b : Nat) : Nat := min (a+b) u32Max

def maxTrackedCalls : Nat := 65536

structure Hashes where
  hashOf : String → UInt64
  hashPair : String → String → UInt64

inductive SuccessfulRepeat where
  | continue
  | warn (message : String)
  | halt (summary : String)

inductive CallGate where
  | allow
  | block (message : String)
  | halt (summary : String)
  deriving DecidableEq

structure RepeatEscalation where
  blockAfterWarn : Nat := 2
  blocksBeforeHalt : Nat := 2

namespace RepeatEscalation

def gap (e : RepeatEscalation) : Nat := max e.blockAfterWarn 1

def haltBlock (e : RepeatEscalation) : Nat := max e.blocksBeforeHalt 1

end RepeatEscalation

structure Streak where
  lastHash : Option UInt64 := none
  consecutive : Nat := 0

def Streak.record (H : Hashes) (s : Streak) (signature : String) : Streak :=
  if s.lastHash = some (H.hashOf signature) then
    { s with consecutive := satAdd s.consecutive 1 }
  else ⟨some (H.hashOf signature),1⟩

structure SuccessfulRepeatTracker where
  outputThreshold : Nat
  callThreshold : Nat
  escalation : Option RepeatEscalation
  hashes : Hashes
  positive : 1 ≤ callThreshold
  fits : callThreshold ≤ u32Max

structure RepeatState where
  output : Streak := {}
  calls : Streak := {}
  recurrences : Map UInt64 Nat := .empty
  lastOutcome : Map UInt64 UInt64 := .empty
  predictable : List UInt64 := []
  blocks : Map UInt64 Nat := .empty

variable (count : Nat) (consecutive : Nat)

def outputWarning : String :=
  s!"the last {consecutive} iterations produced the identical response and tool call with no " ++
     "change; you are repeating the same step without making progress."

def outputStop : String :=
  s!"Stopping: the last {consecutive} iterations produced the identical response and tool call " ++
     "with no change; the run is stuck repeating the same step without making progress."

def batchWarning : String :=
  s!"the same successful tool-call batch was issued {consecutive} times in a row with identical " ++
     "arguments and no new information; you are repeating one action without making progress."

def batchStop : String :=
  s!"Stopping: the same successful tool-call batch was issued {consecutive} times in a row with " ++
     "identical arguments and no new information; the run is stuck repeating one action without " ++
     "making progress."

def cycleWarning : String :=
  s!"the same successful tool call returned the identical result {count} times in this run; " ++
     "re-running steps whose results are already in the conversation adds no new information, " ++
     "so you are cycling without making progress."

def cycleStop : String :=
  s!"Stopping: the same successful tool call returned the identical result {count} times in " ++
     "this run; re-running steps whose results are already in the conversation adds no new " ++
     "information, so the run is cycling without making progress."

def blockedStop (blocked count : Nat) : String :=
  s!"Stopping: the same successful tool call was blocked {blocked} times for returning the " ++
     s!"identical result {count} times; the model kept re-issuing it after being warned, so the " ++
     "run is stuck cycling without making progress."

def blockedNote : String :=
  s!"Blocked: this exact call has already returned the identical result {count} times and was " ++
     "not executed again. Its result is already in the conversation. Reassess: use that result, " ++
     "or take a different action. Issuing it again will stop the run."

namespace SuccessfulRepeatTracker

variable (T : SuccessfulRepeatTracker)

def streakVerdict (consecutive threshold : Nat) (warn halt : String) : SuccessfulRepeat :=
  match T.escalation with
  | none => if threshold ≤ consecutive then .halt halt else .continue
  | some escalation =>
    if satAdd threshold escalation.gap ≤ consecutive then .halt halt
    else if consecutive = threshold then .warn warn
    else .continue

variable (s : RepeatState) (call : UInt64) (callSignature outcomeIdentity : String)

def recordOutput (signature : String) (exempt : Bool) : SuccessfulRepeat × RepeatState :=
  if exempt then (.continue,{ s with output := {} })
  else (.continue,{ s with output := s.output.record T.hashes signature })

def worst : SuccessfulRepeat → SuccessfulRepeat → SuccessfulRepeat
  | .halt m, _ => .halt m
  | _, .halt m => .halt m
  | .warn m, _ => .warn m
  | _, .warn m => .warn m
  | _, _ => .continue

def recordCallBatch (signature : String) (allSuccessful exempt : Bool) :
    SuccessfulRepeat × RepeatState :=
  if exempt ∨ ¬ allSuccessful then (.continue,{ s with output := {}, calls := {} })
  else
    let n := s.output.consecutive
    let calls := s.calls.record T.hashes signature
    let k := calls.consecutive
    (worst (T.streakVerdict n T.outputThreshold (outputWarning n) (outputStop n))
      (T.streakVerdict k T.callThreshold (batchWarning k) (batchStop k)),{ s with calls := calls })

def predictionHasRoom : Bool :=
  (s.lastOutcome.lookup call).isSome || s.lastOutcome.entries.length < maxTrackedCalls

def blockCount (escalation : RepeatEscalation) : Nat :=
  satAdd T.callThreshold escalation.gap

def countRecurrence (key : UInt64) : Nat × RepeatState :=
  if maxTrackedCalls ≤ s.recurrences.entries.length ∧ (s.recurrences.lookup key).isNone then (1,s)
  else
    let count := satAdd ((s.recurrences.lookup key).getD 0) 1
    (count,{ s with recurrences := s.recurrences.put key count })

def predict (call key : UInt64) : RepeatState :=
  if T.escalation.isSome ∧ predictionHasRoom s call then
    { s with
      lastOutcome := s.lastOutcome.put call key
      predictable := s.predictable.insert call
      blocks := if (s.lastOutcome.lookup call).any (· ≠ key) then s.blocks.remove call
        else s.blocks }
  else s

def cycleVerdict (count : Nat) : SuccessfulRepeat :=
  match T.escalation with
  | none => if T.callThreshold ≤ count then .halt (cycleStop count) else .continue
  | some escalation =>
    if satAdd (T.blockCount escalation) (escalation.haltBlock-1) ≤ count then
      .halt (cycleStop count)
    else if count = T.callThreshold then .warn (cycleWarning count)
    else .continue

def recordCallIdentity : SuccessfulRepeat × RepeatState :=
  let call := T.hashes.hashOf callSignature
  let key := T.hashes.hashPair callSignature outcomeIdentity
  let (count,s) := countRecurrence s key
  (T.cycleVerdict count,T.predict s call key)

def recurrenceCount : Nat :=
  (s.recurrences.lookup (T.hashes.hashPair callSignature outcomeIdentity)).getD 0

def countBlock : Nat × RepeatState :=
  if maxTrackedCalls ≤ s.blocks.entries.length ∧ (s.blocks.lookup call).isNone then (1,s)
  else
    let blocked := satAdd ((s.blocks.lookup call).getD 0) 1
    (blocked,{ s with blocks := s.blocks.put call blocked })

def predicted : Option Nat :=
  if call ∈ s.predictable then
    (s.lastOutcome.lookup call).map fun key => (s.recurrences.lookup key).getD 0
  else none

def preCall (callSignature : String) : CallGate × RepeatState :=
  match T.escalation, predicted s (T.hashes.hashOf callSignature) with
  | some escalation, some count =>
    if satAdd count 1 < T.blockCount escalation then (.allow,s)
    else
      let (blocked,s) := countBlock s (T.hashes.hashOf callSignature)
      if escalation.haltBlock ≤ blocked then (.halt (blockedStop blocked count),s)
      else (.block (blockedNote count),s)
  | _, _ => (.allow,s)

def invalidatePredictionsExcept (callSignature : String) : RepeatState :=
  { s with predictable := s.predictable.filter (· = T.hashes.hashOf callSignature) }

def invalidateAllPredictions : RepeatState :=
  { s with predictable := [] }

def clearLedger : RepeatState :=
  { s with output := {}, calls := {}, recurrences := .empty, predictable := [] }

def reset : RepeatState :=
  { clearLedger s with lastOutcome := .empty, blocks := .empty }

def resetLedger : RepeatState :=
  clearLedger s

end SuccessfulRepeatTracker

end Harness
