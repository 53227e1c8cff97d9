import Mathlib.Data.List.Sort
import TinyAgents.Interaction.Table
import TinyAgents.Completions.Record

namespace Completions

open Interaction

inductive Fault where
  | store
  | staleParentGate
  | gateEpochOverflow
  | gateTimeout
  | gateExpired
  | localGateTimeout
  | guardNotHeld
  | markerDisappeared
  | deletedParent
  | conflictUnreadable
  | admissionGateLost
  deriving DecidableEq

structure MemoryParentGate where
  claim : ParentGateClaim
  expiresAt : Nat

abbrev Records := Table CompletionRecord.taskId

structure Store where
  records : Records
  parentGates : String → Option MemoryParentGate
  parentGateEpochs : String → Nat
  processLocal : Bool

def parentGateTtl : Nat := 60000

namespace Store

variable (s : Store) (r : CompletionRecord) (parentKey : String) (holder : Uuid)
  (claim : ParentGateClaim) (gate : ParentGateClaim) (now : Nat)

def setGate (gate : Option MemoryParentGate) : Store :=
  { s with parentGates := Function.update s.parentGates parentKey gate }

def grantParentGate : Except Fault (Option ParentGateClaim × Store) :=
  let epoch := s.parentGateEpochs parentKey+1
  if u64Max < epoch then .error .gateEpochOverflow
  else
    let epochs := Function.update s.parentGateEpochs parentKey epoch
    .ok (some ⟨holder,epoch⟩,({ s with parentGateEpochs := epochs }).setGate parentKey
      (some ⟨⟨holder,epoch⟩,now+parentGateTtl⟩))

def acquireParentGate : Except Fault (Option ParentGateClaim × Store) :=
  match s.parentGates parentKey with
  | some existing =>
    if now < existing.expiresAt then
      if existing.claim.holder = holder then .ok (some existing.claim,s) else .ok (none,s)
    else s.grantParentGate parentKey holder now
  | none => s.grantParentGate parentKey holder now

def renewParentGate : Bool × Store :=
  match s.parentGates parentKey with
  | some gate =>
    if gate.claim = claim ∧ now < gate.expiresAt then
      (true,s.setGate parentKey (some ⟨claim,now+parentGateTtl⟩))
    else (false,s)
  | none => (false,s)

def releaseParentGate : Bool × Store :=
  match s.parentGates parentKey with
  | some gate =>
    if gate.claim = claim ∧ now < gate.expiresAt then
      (true,s.setGate parentKey none)
    else (false,s)
  | none => (false,s)

def GateCurrent : Prop :=
  (s.parentGates parentKey).any (fun g => g.claim = gate ∧ now < g.expiresAt)

instance (s : Store) (parentKey : String) (gate : ParentGateClaim) (now : Nat) :
    Decidable (s.GateCurrent parentKey gate now) :=
  inferInstanceAs (Decidable (_ = true))

def withCurrentGate {α : Type} (s : Store) (parentKey : String) (gate : ParentGateClaim) (now : Nat)
    (f : Records → α × Records) : Except Fault (α × Store) :=
  if s.GateCurrent parentKey gate now then
    .ok ((f s.records).1,{ s with records := (f s.records).2 })
  else .error .staleParentGate

-- Only the in-memory store moves an unversioned record into its parent's open generation.
def adoptEpoch : CompletionRecord :=
  if s.processLocal ∧ r.parentEpoch = 0 ∧ r.parentKey ≠ "" then
    match s.records.get (parentMarkerId r.parentKey) with
    | some marker =>
      if marker.state = .delivered then { r with parentEpoch := marker.parentEpoch } else r
    | none => r
  else r

def putFenced : Except Fault (Unit × Store) :=
  s.withCurrentGate parentKey gate now fun records => ((),records.insert (s.adoptEpoch r))

def insertIfAbsent : Except Fault (Bool × Store) :=
  s.withCurrentGate r.parentKey gate now fun records =>
    if (records.get r.taskId).isSome then (false,records) else (true,records.insert r)

end Store

namespace CompletionRecord

variable (r : CompletionRecord)

def Claimable (parentKey : String) (parentEpoch : Nat) (mode : CompletionClaimMode) (now : Nat) :
    Prop :=
  r.parentKey = parentKey ∧ r.parentEpoch = parentEpoch ∧ r.state = .pending ∧
    mode.accepts r.notifyMode ∧ r.claim.all (fun claim => claim.visibleAfter ≤ now)

instance (r : CompletionRecord) (parentKey : String) (parentEpoch : Nat)
    (mode : CompletionClaimMode) (now : Nat) :
    Decidable (r.Claimable parentKey parentEpoch mode now) :=
  inferInstanceAs (Decidable (_ ∧ _))

def claimed (token : Uuid) (visibleAfter now : Nat) : CompletionRecord :=
  { r with
    attempts := saturatingSucc u32Max r.attempts
    updatedAt := now
    claim := some ⟨⟨token,r.taskId⟩,visibleAfter⟩ }

def Older (a b : CompletionRecord) : Prop :=
  a.finishedAt < b.finishedAt ∨ a.finishedAt = b.finishedAt ∧ a.taskId ≤ b.taskId

instance : DecidableRel Older := fun _ _ => inferInstanceAs (Decidable (_ ∨ _))

def Settles (request : ResolveClaimRequest) (now : Nat) (r : CompletionRecord) : Prop :=
  r.parentKey = request.parentKey ∧ r.parentEpoch = request.parentEpoch ∧ r.state = .pending ∧
    r.claim.any (fun claim => claim.token = request.token ∧ now < claim.visibleAfter)

instance (request : ResolveClaimRequest) (now : Nat) (r : CompletionRecord) :
    Decidable (r.Settles request now) :=
  inferInstanceAs (Decidable (_ ∧ _))

def settledState : ClaimResolution → CompletionState
  | .delivered => .delivered
  | .failed maxAttempts => if maxAttempts ≤ r.attempts then .gaveUp else r.state
  | .release => r.state

def settled (resolution : ClaimResolution) (now : Nat) : CompletionRecord :=
  { r with updatedAt := now, claim := none, state := r.settledState resolution }

def Expired (now retain : Nat) : Prop :=
  r.state ≠ .pending ∧ r.updatedAt+retain < now

instance (r : CompletionRecord) (now retain : Nat) : Decidable (r.Expired now retain) :=
  inferInstanceAs (Decidable (_ ∧ _))

end CompletionRecord

namespace Store

variable (s : Store) (request : PendingClaimRequest)

def candidates (now : Nat) : List CompletionRecord :=
  ((s.records.entries.filter fun r =>
    r.Claimable request.parentKey request.parentEpoch request.mode now).insertionSort
      CompletionRecord.Older).take request.max

def claimPending (now : Nat) : Except Fault (List CompletionRecord × Store) :=
  let claimed := (s.candidates request now).map fun r =>
    r.claimed request.token request.visibleAfter now
  s.withCurrentGate request.parentKey request.gate now fun records =>
    (claimed,records.insertAll claimed)

def claimTask (request : TaskClaimRequest) (now : Nat) :
    Except Fault (Option CompletionRecord × Store) :=
  s.withCurrentGate request.parentKey request.gate now fun records =>
    match records.get request.taskId with
    | some r =>
      if r.Claimable request.parentKey request.parentEpoch request.mode now then
        let claimed := r.claimed request.token request.visibleAfter now
        (some claimed,records.insert claimed)
      else (none,records)
    | none => (none,records)

def resolveClaim (request : ResolveClaimRequest) (now : Nat) :
    Except Fault (Option CompletionRecord × Store) :=
  s.withCurrentGate request.parentKey request.gate now fun records =>
    match records.get request.taskId with
    | some r =>
      if r.Settles request now then
        let resolved := r.settled request.resolution now
        (some resolved,records.insert resolved)
      else (none,records)
    | none => (none,records)

def listed (parentKey : Option String) : List CompletionRecord :=
  s.records.entries.filter fun r => parentKey.all (fun p => r.parentKey = p)

def compact (retain now : Nat) : Nat × Store :=
  let kept := s.records.retain fun r => IsMarkerId r.taskId ∨ ¬ r.Expired now retain
  (s.records.entries.length-kept.entries.length,{ s with records := kept })

end Store

end Completions
