import TinyAgents.Interaction.Trail
import TinyAgents.Harness.LoopPatterns

namespace Harness

open Interaction

structure RepeatProgressConfig where
  outputThreshold : Nat := 4
  callThreshold : Nat := 3
  escalation : Option RepeatEscalation := some {}
  pingPongAlternations : Nat := 6
  churnVariants : Nat := 3
  churnCallsPerVariant : Nat := 3
  postCompactionWindow : Nat := 3
  fits : callThreshold ≤ u32Max := by decide

structure CallObservation where
  verdict : SuccessfulRepeat
  notes : List String

structure RepeatMonitor where
  tracker : SuccessfulRepeatTracker
  pingPong : Option PingPongDetector
  churn : Option ArgumentChurnDetector
  guard : Option PostCompactionGuard

structure MonitorState where
  tracker : RepeatState := {}
  pingPong : PingPongState := {}
  churn : ChurnState := {}
  guard : GuardState := {}

namespace RepeatMonitor

def new (H : Hashes) (config : RepeatProgressConfig) : RepeatMonitor where
  tracker :=
    { outputThreshold := max config.outputThreshold 1
      callThreshold := max config.callThreshold 1
      escalation := config.escalation
      hashes := H
      positive := Nat.le_max_right _ _
      fits := Nat.max_le.2 ⟨config.fits,by decide⟩ }
  pingPong :=
    if 0 < config.pingPongAlternations then some (.new config.pingPongAlternations) else none
  churn := if 0 < config.churnVariants then
    some (.new config.churnVariants config.churnCallsPerVariant) else none
  guard := if 0 < config.postCompactionWindow then some ⟨config.postCompactionWindow⟩ else none

variable (M : RepeatMonitor)

def preCall (s : MonitorState) (tool argumentsFingerprint : String) : CallGate × MonitorState :=
  let (gate,tracker) := M.tracker.preCall s.tracker (callSignature tool argumentsFingerprint)
  (gate,{ s with tracker := tracker })

variable (s : MonitorState) (tool argumentsFingerprint outcomeIdentity : String)

def notePingPong (signature outcomeIdentity : String) : List String × MonitorState :=
  match M.pingPong with
  | none => ([],s)
  | some D =>
    let (note,state) := D.record M.tracker.hashes s.pingPong signature outcomeIdentity
    (note.toList,{ s with pingPong := state })

def noteChurn : List String × MonitorState :=
  match M.churn with
  | none => ([],s)
  | some D =>
    let (note,state) :=
      D.record M.tracker.hashes s.churn tool argumentsFingerprint outcomeIdentity
    (note.toList,{ s with churn := state })

def compactionNote (tool : String) : String :=
  s!"`{tool}` with these arguments, returning this result, is what you were repeating right " ++
     "before the context was compacted; you may be looping. Use the result you have or take a " ++
     "different action."

def noteCompaction (tool signature outcomeIdentity : String) : List String × MonitorState :=
  match M.guard with
  | none => ([],s)
  | some G =>
    let repeating : Bool :=
      repeatingAt ≤ M.tracker.recurrenceCount s.tracker signature outcomeIdentity
    let (repeated,state) :=
      G.record M.tracker.hashes s.guard signature outcomeIdentity repeating
    (if repeated then [compactionNote tool] else [],{ s with guard := state })

def recordCall (readOnly : Bool) : CallObservation × MonitorState :=
  let signature := callSignature tool argumentsFingerprint
  let (verdict,tracker) := M.tracker.recordCallIdentity s.tracker signature outcomeIdentity
  let s := { s with tracker := tracker }
  let (pingPong,s) := M.notePingPong s signature outcomeIdentity
  let (churn,s) := M.noteChurn s tool argumentsFingerprint outcomeIdentity
  let (guard,s) := M.noteCompaction s tool signature outcomeIdentity
  let tracker :=
    if readOnly then s.tracker else M.tracker.invalidatePredictionsExcept s.tracker signature
  (⟨verdict,pingPong ++ churn ++ guard⟩,{ s with tracker := tracker })

def noteUntrackedSuccess (readOnly : Bool) : MonitorState :=
  if readOnly then s
  else { s with tracker := SuccessfulRepeatTracker.invalidateAllPredictions s.tracker }

def onContextEvicted : MonitorState where
  tracker := SuccessfulRepeatTracker.resetLedger s.tracker
  pingPong := if M.pingPong.isSome then {} else s.pingPong
  churn := if M.churn.isSome then {} else s.churn
  guard := (M.guard.map fun G => G.arm s.guard).getD s.guard

def reset (s : MonitorState) : MonitorState where
  tracker := SuccessfulRepeatTracker.reset s.tracker
  pingPong := if M.pingPong.isSome then {} else s.pingPong
  churn := if M.churn.isSome then {} else s.churn
  guard := if M.guard.isSome then {} else s.guard

end RepeatMonitor

inductive MonitorCall where
  | recordOutput (signature : String) (exempt : Bool)
  | recordCallBatch (signature : String) (allSuccessful exempt : Bool)
  | preCall (tool argumentsFingerprint : String)
  | recordCall (tool argumentsFingerprint outcomeIdentity : String) (readOnly : Bool)
  | noteUntrackedSuccess (readOnly : Bool)
  | onContextEvicted
  | reset

inductive MonitorAnswer where
  | verdict (verdict : SuccessfulRepeat)
  | gate (gate : CallGate)
  | observation (observation : CallObservation)
  | done

abbrev MonitorEntry := MonitorCall × MonitorAnswer

def RepeatMonitor.recorder (M : RepeatMonitor) :
    Recorder MonitorState MonitorCall MonitorAnswer where
  init := {}
  step := fun s call =>
    match call with
    | .recordOutput signature exempt =>
      let (verdict,tracker) := M.tracker.recordOutput s.tracker signature exempt
      (.verdict verdict,{ s with tracker := tracker })
    | .recordCallBatch signature allSuccessful exempt =>
      let (verdict,tracker) :=
        M.tracker.recordCallBatch s.tracker signature allSuccessful exempt
      (.verdict verdict,{ s with tracker := tracker })
    | .preCall tool arguments =>
      let (gate,s) := M.preCall s tool arguments
      (.gate gate,s)
    | .recordCall tool arguments outcome readOnly =>
      let (observation,s) := M.recordCall s tool arguments outcome readOnly
      (.observation observation,s)
    | .noteUntrackedSuccess readOnly => (.done,RepeatMonitor.noteUntrackedSuccess s readOnly)
    | .onContextEvicted => (.done,M.onContextEvicted s)
    | .reset => (.done,M.reset s)

end Harness
