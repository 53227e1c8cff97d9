import TinyAgents.Completions.World

namespace Completions

open Interaction

abbrev Task (α : Type) := Fallible Op Ans Fault α

structure Router where
  id : Nat
  lifecycle : Nat
  maxAttempts : Nat := 5
  attempts_pos : 0 < maxAttempts := by decide
  deriving DecidableEq

theorem attempts_default : 0 < 5 := by decide

def ask (op : Op) : Program Op Ans (Ans op) := .perform op

variable {α : Type} (router : Router) (lifecycle : Nat) (parentKey : String)
  (gate : ParentGateClaim)

def plain (p : Program Op Ans α) : Task α := ExceptT.lift p

def attempt (p : Program Op Ans (Except Fault α)) : Task α := ExceptT.mk p

def clock : Program Op Ans Nat := ask .clock

def tryGet (taskId : String) : Task (Option CompletionRecord) :=
  attempt (ask (.tryGet taskId))

def tryList (parentKey : Option String) : Task (List CompletionRecord) :=
  attempt (ask (.tryList parentKey))

def putFenced (site : WriteSite) (r : CompletionRecord) (parentKey : String)
    (gate : ParentGateClaim) : Task Unit :=
  attempt (ask (.putFenced site r parentKey gate))

def localStatus (lifecycle : Nat) (parentKey : String) : Task (Option ParentLifecycleStatus) :=
  attempt (ask (.localStatus lifecycle parentKey))

def setLocalStatus (lifecycle : Nat) (parentKey : String) (status : ParentLifecycleStatus) :
    Task Unit :=
  attempt (ask (.setLocalStatus lifecycle parentKey status))

def isProcessLocal : Program Op Ans Bool := ask .isProcessLocal

def newUuid : Program Op Ans Uuid := ask .newUuid

def renewParentGate (parentKey : String) (claim : ParentGateClaim) :
    Program Op Ans (Except Fault Bool) :=
  ask (.renewParentGate parentKey claim)

def acquireLocal (lifecycle : Nat) (parentKey : String) : Program Op Ans (Except Fault Unit) :=
  ask (.acquireLocal lifecycle parentKey)

namespace ParentGateGuard

def dropNative (parentKey : String) (claim : ParentGateClaim) : Program Op Ans Unit := do
  let _ ← ask (.releaseParentGate parentKey claim)
  return ()

variable (lifecycle : Nat)

def drop (parentKey : String) (claim : ParentGateClaim) : Program Op Ans Unit := do
  dropNative parentKey claim
  ask (.releaseLocal lifecycle parentKey)

def acquireNative (parentKey : String) : Task ParentGateClaim := do
  let holder ← plain newUuid
  attempt (ask (.acquireParentGate parentKey holder))

def renewLocked (parentKey : String) (claim : ParentGateClaim) :
    Program Op Ans (Except Fault ParentGateClaim) := do
  match ← renewParentGate parentKey claim with
  | .ok true => return .ok claim
  | .ok false => do
    drop lifecycle parentKey claim
    return .error .gateExpired
  | .error e => do
    drop lifecycle parentKey claim
    return .error e

def acquire (parentKey : String) : Task ParentGateClaim := do
  let claim ← acquireNative parentKey
  attempt do
    match ← acquireLocal lifecycle parentKey with
    | .error e => do
      dropNative parentKey claim
      return .error e
    | .ok () => renewLocked lifecycle parentKey claim

end ParentGateGuard

def withGate (body : ParentGateClaim → Task α) : Task α := do
  let claim ← ParentGateGuard.acquire lifecycle parentKey
  attempt do
    let result ← (body claim).run
    ParentGateGuard.drop lifecycle parentKey claim
    return result

def withRouter (body : Task α) : Task α :=
  attempt do
    ask (.lockRouter router.id)
    let result ← body.run
    ask (.unlockRouter router.id)
    return result

def updateState (f : RouterState → RouterState) : Program Op Ans Unit := do
  let _ ← ask (.updateRouter router.id f)
  return ()

def readState : Program Op Ans RouterState :=
  ask (.updateRouter router.id id)

namespace RouterState

def unlease (taskId : String) (s : RouterState) : RouterState :=
  { s with leased := s.leased.filter (· ≠ taskId) }

def forget (taskId : String) (s : RouterState) : RouterState :=
  { s with activeReceipts := s.activeReceipts.retain (·.taskId ≠ taskId) }

def acknowledge (receipt : CompletionReceipt) (s : RouterState) : RouterState :=
  if s.activeReceipts.get receipt.taskId = some receipt then
    (s.unlease receipt.taskId).forget receipt.taskId
  else s

def own (s : RouterState) (r : CompletionRecord) : RouterState :=
  let leased := r.taskId :: s.leased.filter (· ≠ r.taskId)
  match r.receipt with
  | some receipt => { s with leased := leased, activeReceipts := s.activeReceipts.insert receipt }
  | none => { s with leased := leased }

def detach (parentKey : String) (s : RouterState) : RouterState :=
  { s with parents := s.parents.filter (· ≠ parentKey) }

end RouterState

def mergeLocal (marker cached : Option ParentLifecycleStatus) : Option ParentLifecycleStatus :=
  match marker, cached with
  | some (.deleted markerEpoch), snapshot =>
    some (.deleted (max markerEpoch (snapshot.elim 0 ParentLifecycleStatus.epoch)))
  | some marker, some (.deleted snapshotEpoch) =>
    some (.deleted (max snapshotEpoch marker.epoch))
  | none, some (.deleted epoch) => some (.deleted epoch)
  | some marker, some snapshot =>
    some (if snapshot.epoch ≤ marker.epoch then marker else snapshot)
  | some marker, none => some marker
  | none, snapshot => snapshot

def cacheStatus : Option ParentLifecycleStatus → Task (Option ParentLifecycleStatus)
  | some status => do
    setLocalStatus lifecycle parentKey status
    return some status
  | none => return none

def parentLifecycleStatus : Task (Option ParentLifecycleStatus) := do
  let marker ← tryGet (parentMarkerId parentKey)
  let markerStatus := marker.map CompletionRecord.lifecycle
  let processLocal ← plain isProcessLocal
  if processLocal then
    let cached ← localStatus lifecycle parentKey
    cacheStatus lifecycle parentKey (mergeLocal markerStatus cached)
  else
    match markerStatus with
    | some status => cacheStatus lifecycle parentKey (some status)
    | none => localStatus lifecycle parentKey

def parentMarker (state : CompletionState) (epoch now : Nat) : CompletionRecord :=
  { CompletionRecord.tombstoneStub (parentMarkerId parentKey) now with
    parentKey := parentKey, state := state, parentEpoch := epoch }

def writeParentMarker (status : ParentLifecycleStatus) (gate : ParentGateClaim) : Task Unit := do
  let now ← plain clock
  putFenced .restore (parentMarker parentKey status.markerState status.epoch now) parentKey gate

def nextEpoch (processLocal : Bool) (current : Option CompletionRecord)
    (cached : Option ParentLifecycleStatus) : Nat :=
  let stored := current.map CompletionRecord.parentEpoch
  let snapshot := cached.map ParentLifecycleStatus.epoch
  let epoch := if processLocal then snapshot.or stored else stored.or snapshot
  epoch.elim 1 (saturatingSucc u64Max)

def setParentMarker (site : WriteSite) (lifecycle : Nat) (parentKey : String)
    (state : CompletionState) (gate : ParentGateClaim) : Task Unit := do
  let now ← plain clock
  let current ← tryGet (parentMarkerId parentKey)
  let cached ← localStatus lifecycle parentKey
  let processLocal ← plain isProcessLocal
  let epoch := nextEpoch processLocal current cached
  putFenced site (parentMarker parentKey state epoch now) parentKey gate
  setLocalStatus lifecycle parentKey (.fromMarker state epoch)

def upgradeLegacy (parentKey : String) (gate : ParentGateClaim) : List CompletionRecord → Task Unit
  | [] => return ()
  | legacy :: rest =>
    if legacy.parentEpoch = 0 then do
      putFenced (.upgrade legacy) { legacy with parentEpoch := 1 } parentKey gate
      upgradeLegacy parentKey gate rest
    else upgradeLegacy parentKey gate rest

def restoreOpen (epoch : Nat) (gate : ParentGateClaim) : Task Unit := do
  let processLocal ← plain isProcessLocal
  if processLocal then
    let marker ← tryGet (parentMarkerId parentKey)
    if marker.isNone then writeParentMarker parentKey (.opened epoch) gate else return ()
  else writeParentMarker parentKey (.opened epoch) gate

def restoreClosed : Task Unit := do
  let processLocal ← plain isProcessLocal
  if processLocal then return ()
  else
    let marker ← tryGet (parentMarkerId parentKey)
    if marker.isNone then
      let cached ← localStatus lifecycle parentKey
      match cached with
      | some status => writeParentMarker parentKey status gate
      | none => throw .markerDisappeared
    else return ()

def openFirst : Task (Option Nat) := do
  let records ← tryList (some parentKey)
  upgradeLegacy parentKey gate records
  setParentMarker .enrol lifecycle parentKey .delivered gate
  let marker ← tryGet (parentMarkerId parentKey)
  match marker with
  | some marker => return some marker.parentEpoch
  | none => throw .markerDisappeared

def admitChildLocked : Task (Option Nat) := do
  let status ← parentLifecycleStatus lifecycle parentKey
  match status with
  | some (.opened epoch) => do
    restoreOpen parentKey epoch gate
    return some epoch
  | some _ => do
    restoreClosed lifecycle parentKey gate
    return none
  | none => openFirst lifecycle parentKey gate

end Completions
