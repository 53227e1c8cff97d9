import Mathlib.Algebra.GroupWithZero.Nat

namespace Completions

abbrev Uuid := Nat × Nat

inductive NotifyMode where
  | followup
  | collect
  | holdForNextTurn
  | off
  deriving DecidableEq

inductive CompletionStatus where
  | success
  | failed
  | cancelled
  | incomplete
  deriving DecidableEq

inductive CompletionState where
  | pending
  | delivered
  | tombstoned
  | parentDeleted
  | gaveUp
  deriving DecidableEq

structure ClaimToken where
  uuid : Uuid
  taskId : String
  deriving DecidableEq

structure CompletionClaim where
  token : ClaimToken
  visibleAfter : Nat
  deriving DecidableEq

structure CompletionReceipt where
  taskId : String
  parentKey : String
  parentEpoch : Nat
  token : ClaimToken
  deriving DecidableEq

structure CompletionRecord where
  taskId : String
  parentKey : String
  parentEpoch : Nat := 0
  agentId : String := ""
  label : Option String := none
  status : CompletionStatus := .incomplete
  result : String := ""
  finishedAt : Nat := 0
  updatedAt : Nat := 0
  attempts : Nat := 0
  state : CompletionState := .pending
  notifyMode : NotifyMode := .followup
  claim : Option CompletionClaim := none
  deriving DecidableEq

def u32Max : Nat := 2^32-1
def u64Max : Nat := 2^64-1

def saturatingSucc (limit n : Nat) : Nat :=
  min (n+1) limit

namespace CompletionRecord

def receipt (r : CompletionRecord) : Option CompletionReceipt :=
  r.claim.map fun claim => ⟨r.taskId,r.parentKey,r.parentEpoch,claim.token⟩

def tombstoneStub (taskId : String) (now : Nat) : CompletionRecord :=
  { taskId := taskId, parentKey := "", finishedAt := now, updatedAt := now, state := .tombstoned }

end CompletionRecord

inductive CompletionClaimMode where
  | followup
  | holdForNextTurn
  | pull

def CompletionClaimMode.accepts : CompletionClaimMode → NotifyMode → Bool
  | .followup, .followup => true
  | .followup, .collect => true
  | .holdForNextTurn, .holdForNextTurn => true
  | .pull, .off => true
  | _, _ => false

structure ParentGateClaim where
  holder : Uuid
  epoch : Nat
  deriving DecidableEq

structure PendingClaimRequest where
  parentKey : String
  parentEpoch : Nat
  gate : ParentGateClaim
  mode : CompletionClaimMode
  max : Nat
  token : Uuid
  visibleAfter : Nat

structure TaskClaimRequest where
  taskId : String
  parentKey : String
  parentEpoch : Nat
  gate : ParentGateClaim
  mode : CompletionClaimMode
  token : Uuid
  visibleAfter : Nat

inductive ClaimResolution where
  | delivered
  | failed (maxAttempts : Nat)
  | release
  deriving DecidableEq

structure ResolveClaimRequest where
  taskId : String
  parentKey : String
  parentEpoch : Nat
  gate : ParentGateClaim
  token : ClaimToken
  resolution : ClaimResolution

inductive ParentLifecycleStatus where
  | opened (epoch : Nat)
  | stopped (epoch : Nat)
  | deleted (epoch : Nat)
  deriving DecidableEq

namespace ParentLifecycleStatus

def epoch : ParentLifecycleStatus → Nat
  | opened e => e
  | stopped e => e
  | deleted e => e

def markerState : ParentLifecycleStatus → CompletionState
  | opened _ => .delivered
  | stopped _ => .tombstoned
  | deleted _ => .parentDeleted

def fromMarker (state : CompletionState) (epoch : Nat) : ParentLifecycleStatus :=
  match state with
  | .delivered => opened epoch
  | .parentDeleted => deleted epoch
  | _ => stopped epoch

@[simp] theorem fromMarker_epoch (state : CompletionState) (e : Nat) :
    (fromMarker state e).epoch = e := by
  cases state <;> rfl

theorem fromMarker_markerState (s : ParentLifecycleStatus) :
    fromMarker s.markerState s.epoch = s := by
  cases s <;> rfl

end ParentLifecycleStatus

def CompletionRecord.lifecycle (marker : CompletionRecord) : ParentLifecycleStatus :=
  .fromMarker marker.state marker.parentEpoch

def markerPrefix : String := "\x01parent-cancelled:"

def parentMarkerId (parentKey : String) : String :=
  markerPrefix ++ parentKey

def IsMarkerId (taskId : String) : Prop :=
  markerPrefix.toList.isPrefixOf taskId.toList

instance (taskId : String) : Decidable (IsMarkerId taskId) :=
  inferInstanceAs (Decidable (_ = true))

theorem parentMarkerId_isMarkerId (parentKey : String) : IsMarkerId (parentMarkerId parentKey) := by
  simp [IsMarkerId,parentMarkerId]

theorem isMarkerId_iff {taskId : String} :
    IsMarkerId taskId ↔ ∃ parentKey, taskId = parentMarkerId parentKey := by
  constructor
  · intro h
    obtain ⟨t,ht⟩ := List.isPrefixOf_iff_prefix.1 h
    refine ⟨String.ofList t,String.toList_inj.1 ?_⟩
    simp [parentMarkerId,ht]
  · rintro ⟨p,rfl⟩
    exact parentMarkerId_isMarkerId p

theorem parentMarkerId_inj {p q : String} (h : parentMarkerId p = parentMarkerId q) : p = q := by
  simpa [parentMarkerId] using h

def parentFromMarkerId (taskId : String) : Option String :=
  if IsMarkerId taskId then some (String.ofList (taskId.toList.drop markerPrefix.length)) else none

end Completions
