import TinyAgents.Completions.Lifecycle

namespace Completions

open Interaction RouterState

inductive QueueLane where
  | followup
  | collect

def NotifyMode.lane : NotifyMode → Option QueueLane
  | .followup => some .followup
  | .collect => some .collect
  | .holdForNextTurn => none
  | .off => none

inductive RecordOutcome where
  | recorded (lane : Option QueueLane) (receipt : Option CompletionReceipt)
  | duplicate
  | suppressed
  | idCollision

inductive TombstoneOutcome where
  | suppressed
  | reserved
  | alreadyFinal

def claimVisibility : Nat := 30000

def resolve (receipt : CompletionReceipt) (resolution : ClaimResolution) (gate : ParentGateClaim) :
    Task (Option CompletionRecord) :=
  attempt (ask (.resolveClaim
    ⟨receipt.taskId,receipt.parentKey,receipt.parentEpoch,gate,receipt.token,resolution⟩))

variable (router : Router)

def releaseEach : List CompletionReceipt → Program Op Ans Unit
  | [] => return ()
  | receipt :: rest => do
    updateState router (acknowledge receipt)
    let _ ← (withGate router.lifecycle receipt.parentKey (resolve receipt .release)).run
    releaseEach rest

variable (lifecycle : Nat) (router : Router) (receipts : List CompletionReceipt)
  (parentKey : String) (state : CompletionState) (gate : ParentGateClaim) (parentEpoch : Nat)

def release : Task Unit :=
  withRouter router (plain (releaseEach router receipts))

def resolveEach (resolution : ClaimResolution) : List CompletionReceipt → Nat → Task Nat
  | [], changed => return changed
  | receipt :: rest, changed => do
    let resolved ← withGate router.lifecycle receipt.parentKey fun gate => do
      let resolved ← resolve receipt resolution gate
      plain (updateState router (acknowledge receipt))
      return resolved
    resolveEach resolution rest (changed+resolved.elim 0 (fun _ => 1))

def releaseAll : Task Nat :=
  withRouter router do
    resolveEach router .release (← plain (readState router)).activeReceipts.entries 0

def releaseParentEach (gate : ParentGateClaim) : List CompletionRecord → Program Op Ans Unit
  | [] => return ()
  | record :: rest => do
    let state ← readState router
    updateState router fun s => (s.unlease record.taskId).forget record.taskId
    if let some receipt := state.activeReceipts.get record.taskId then
      let _ ← (resolve receipt .release gate).run
    releaseParentEach gate rest

def listRecords (parentKey : Option String) : Program Op Ans (List CompletionRecord) :=
  ask (.list parentKey)

def detachParent : Task Unit :=
  withRouter router do
    plain (updateState router (detach parentKey))
    let _ ← plain (withGate router.lifecycle parentKey fun gate => plain do
      releaseParentEach router gate (← listRecords (some parentKey))).run
    return ()

def attachParent : Task Unit :=
  withRouter router <| plain <| updateState router fun s =>
    { s with parents := parentKey :: s.parents.filter (· ≠ parentKey) }

def classifyExisting (existing incoming : CompletionRecord) : RecordOutcome :=
  if existing.state = .tombstoned then .suppressed
  else if existing.parentKey ≠ "" ∧ existing.parentKey ≠ incoming.parentKey then .idCollision
  else .duplicate

inductive RecordStep where
  | done (outcome : RecordOutcome)
  | push (receipt : Option (QueueLane × CompletionReceipt))

def StaleSupply (record : CompletionRecord) (markerBefore : Option CompletionRecord)
    (parentEpoch : Nat) : Prop :=
  (record.parentEpoch ≠ 0 ∧ record.parentEpoch ≠ parentEpoch) ∨
    (record.parentEpoch = 0 ∧ markerBefore.any (fun marker => 1 < marker.parentEpoch))

instance (record : CompletionRecord) (markerBefore : Option CompletionRecord)
    (parentEpoch : Nat) : Decidable (StaleSupply record markerBefore parentEpoch) :=
  inferInstanceAs (Decidable (_ ∨ _))

def claimPush (record : CompletionRecord) (gate : ParentGateClaim) (lane : QueueLane) :
    Task RecordStep := do
  let token ← plain newUuid
  let now ← plain clock
  let claimed ← attempt (α := Option CompletionRecord) (ask (.claimTask
    ⟨record.taskId,record.parentKey,record.parentEpoch,gate,.followup,token,
      now+claimVisibility⟩))
  match claimed with
  | none => return .done (.recorded none none)
  | some claimed =>
    plain (updateState router fun s => s.own claimed)
    return .push (claimed.receipt.map fun receipt => (lane,receipt))

def storeRecord (record : CompletionRecord) (gate : ParentGateClaim) : Task RecordStep := do
  if !(← attempt (α := Bool) (ask (.insertIfAbsent record gate))) then
    match ← tryGet record.taskId with
    | some existing => return .done (classifyExisting existing record)
    | none => throw .conflictUnreadable
  else
    let state ← plain (readState router)
    match record.notifyMode.lane with
    | some lane =>
      if record.parentKey ∈ state.parents then claimPush router record gate lane
      else return .push none
    | none => return .push none

def getRecord (taskId : String) : Program Op Ans (Option CompletionRecord) :=
  ask (.get taskId)

def recordLocked (record : CompletionRecord) (gate : ParentGateClaim) : Task RecordStep := do
  let markerBefore ← tryGet (parentMarkerId record.parentKey)
  match ← admitChildLocked router.lifecycle record.parentKey gate with
  | none => return .done .suppressed
  | some parentEpoch =>
    match ← plain (getRecord record.taskId) with
    | some existing => return .done (classifyExisting existing record)
    | none =>
      if StaleSupply record markerBefore parentEpoch then return .done .suppressed
      else
        let now ← plain clock
        storeRecord router { record with
          state := .pending, parentEpoch := parentEpoch, attempts := 0, updatedAt := now } gate

def recordPush : Option (QueueLane × CompletionReceipt) → Task RecordOutcome
  | none => return .recorded none none
  | some (lane,receipt) => do
    if !(← attempt (renewParentGate parentKey gate)) then
      release router [receipt]
      throw .admissionGateLost
    else return .recorded (some lane) (some receipt)

def record (record : CompletionRecord) : Task RecordOutcome :=
  attempt do
    ask (.lockRouter router.id)
    match ← (ParentGateGuard.acquire router.lifecycle record.parentKey).run with
    | .error e => do
      ask (.unlockRouter router.id)
      return .error e
    | .ok gate =>
      match ← (recordLocked router record gate).run with
      | .error e => do
        ParentGateGuard.drop router.lifecycle record.parentKey gate
        ask (.unlockRouter router.id)
        return .error e
      | .ok (.done outcome) => do
        ParentGateGuard.drop router.lifecycle record.parentKey gate
        ask (.unlockRouter router.id)
        return .ok outcome
      | .ok (.push push) => do
        ask (.unlockRouter router.id)
        let result ← (recordPush router record.parentKey gate push).run
        ParentGateGuard.drop router.lifecycle record.parentKey gate
        return result

def tombstone (taskId : String) : Task TombstoneOutcome :=
  withRouter router do
    match ← plain (getRecord taskId) with
    | some existing =>
      if existing.state = .pending then
        withGate router.lifecycle existing.parentKey fun gate => do
          let now ← plain clock
          putFenced (.suppress existing)
            { existing with state := .tombstoned, updatedAt := now } existing.parentKey gate
          plain (updateState router (unlease taskId))
          return .suppressed
      else return .alreadyFinal
    | none =>
      let gateKey := "completion-task:" ++ taskId
      withGate router.lifecycle gateKey fun gate => do
        let now ← plain clock
        putFenced .reserve (.tombstoneStub taskId now) gateKey gate
        return .reserved

def withdrawEach (parentKey : String) (gate : ParentGateClaim) :
    List CompletionRecord → Nat → Task Nat
  | [], withdrawn => return withdrawn
  | record :: rest, withdrawn => do
    if record.state = .pending then
      let now ← plain clock
      putFenced (.withdraw record)
        { record with state := .tombstoned, updatedAt := now } parentKey gate
      plain (updateState router (unlease record.taskId))
      withdrawEach parentKey gate rest (withdrawn+1)
    else withdrawEach parentKey gate rest withdrawn

def closeLocked : Task Nat := do
  match ← parentLifecycleStatus router.lifecycle parentKey with
  | some (.deleted _) => do
    plain (updateState router (detach parentKey))
    return 0
  | _ => do
    setParentMarker .close router.lifecycle parentKey state gate
    plain (updateState router (detach parentKey))
    withdrawEach router parentKey gate (← tryList (some parentKey)) 0

def closeParent : Task Nat :=
  withRouter router (withGate router.lifecycle parentKey (closeLocked router parentKey state))

def cancelParent : Task Nat :=
  closeParent router parentKey .tombstoned

def deleteParent : Task Nat :=
  closeParent router parentKey .parentDeleted

def resumeLocked : Task Unit := do
  match ← parentLifecycleStatus router.lifecycle parentKey with
  | some (.opened _) => return ()
  | some (.deleted _) => throw .deletedParent
  | _ => setParentMarker .resume router.lifecycle parentKey .delivered gate

def resumeParent : Task Unit :=
  withRouter router (withGate router.lifecycle parentKey (resumeLocked router parentKey))

def admitChildGeneration : Task (Option Nat) :=
  withRouter router <| withGate router.lifecycle parentKey <|
    admitChildLocked router.lifecycle parentKey

def generationOpen : Task Bool := do
  let status ← parentLifecycleStatus lifecycle parentKey
  return status = some (.opened parentEpoch)

def parentGenerationAdmitted : Task Bool :=
  withRouter router <| withGate router.lifecycle parentKey fun _ =>
    generationOpen router.lifecycle parentKey parentEpoch

def acquirePermit : Task Bool :=
  withGate lifecycle parentKey fun gate => do
    if ← generationOpen lifecycle parentKey parentEpoch then
      plain (ask (.handOff parentKey parentEpoch gate))
      return true
    else return false

def claimLocked (max : Nat) (mode : CompletionClaimMode) (gate : ParentGateClaim) :
    Task (List CompletionRecord) := do
  match ← admitChildLocked router.lifecycle parentKey gate with
  | none => return []
  | some parentEpoch => do
    let token ← plain newUuid
    let now ← plain clock
    let claimed ← attempt (α := List CompletionRecord) (ask (.claimPending
      ⟨parentKey,parentEpoch,gate,mode,max,token,now+claimVisibility⟩))
    let candidates := claimed.insertionSort CompletionRecord.Older
    plain (updateState router fun s => candidates.foldl RouterState.own s)
    return candidates

def claim (max : Nat) (mode : CompletionClaimMode) : Task (List CompletionRecord) :=
  withRouter router (withGate router.lifecycle parentKey (claimLocked router parentKey max mode))

def markDelivered : Task Nat :=
  withRouter router (resolveEach router .delivered receipts 0)

def failEach :
    List CompletionReceipt → List CompletionRecord → Program Op Ans (List CompletionRecord)
  | [], gaveUp => return gaveUp
  | receipt :: rest, gaveUp => do
    let resolved ← (withGate router.lifecycle receipt.parentKey
      (resolve receipt (.failed router.maxAttempts))).run
    updateState router (acknowledge receipt)
    match resolved with
    | .ok (some record) =>
      failEach rest (if record.state = .gaveUp then gaveUp++[record] else gaveUp)
    | _ => failEach rest gaveUp

def markFailed : Task (List CompletionRecord) :=
  withRouter router (plain (failEach router receipts []))

def compact (retain : Nat) : Task Nat :=
  withRouter router (attempt (ask (.compact retain)))

end Completions
