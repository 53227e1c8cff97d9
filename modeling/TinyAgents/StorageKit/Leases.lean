import Mathlib.Algebra.Group.Int.Defs
import TinyAgents.Interaction.Driver
import TinyAgents.StorageKit.Repo

namespace StorageKit

open Interaction

namespace Leases

def i64Max : Int := 2^63-1
def u64Max : Nat := 2^64-1

structure Body where
  holder : String
  epoch : Nat
  expiresMs : Int
  endpoint : Option String := none
  released : Bool := false

namespace Body

def Live (b : Body) (now : Int) : Prop :=
  now < b.expiresMs ∧ ¬ b.released

instance (b : Body) (now : Int) : Decidable (b.Live now) :=
  inferInstanceAs (Decidable (_ ∧ _))

def Held (b : Body) (holder : String) (epoch : Nat) (now : Int) : Prop :=
  b.holder = holder ∧ b.epoch = epoch ∧ now < b.expiresMs ∧ ¬ b.released

instance (b : Body) (holder : String) (epoch : Nat) (now : Int) :
    Decidable (b.Held holder epoch now) :=
  inferInstanceAs (Decidable (_ ∧ _))

end Body

structure LeaseRecord where
  holder : String
  endpoint : Option String
  epoch : Nat
  expiresMs : Int
  released : Bool

def LeaseRecord.fromBody (b : Body) : LeaseRecord :=
  ⟨b.holder,b.endpoint,b.epoch,b.expiresMs,b.released⟩

structure Acquire where
  holder : String
  ttlMs : Int
  endpoint : Option String := none
  heldEpoch : Option Nat := none

structure Lease where
  holder : String
  epoch : Nat
  expiresMs : Int
  endpoint : Option String
  deriving DecidableEq

def Lease.fromBody (b : Body) : Lease :=
  ⟨b.holder,b.epoch,b.expiresMs,b.endpoint⟩

inductive Acquisition where
  | granted (lease : Lease) (previousUnclean : Bool)
  | held (record : LeaseRecord)

inductive LeaseRequest where
  | acquire (holder : String) (ttlMs : Int)
  | acquireWith (request : Acquire)
  | renew (holder : String) (epoch : Nat) (ttlMs : Int)
  | release (holder : String) (epoch : Nat)

inductive LeaseReply where
  | lease (lease : Option Lease)
  | acquisition (outcome : Acquisition)
  | released (done : Bool)

structure LeaseCall where
  request : LeaseRequest
  attempts : Nat := 32

def nextEpoch (b : Body) : Except StorageError Nat :=
  if b.epoch+1 ≤ u64Max then .ok (b.epoch+1) else .error (.backend "lease epoch overflow")

variable (holder : String)

def acquireEpoch (now : Int) : Option Body → Except StorageError (Option Nat)
  | none => .ok (some 1)
  | some lease =>
    if lease.Live now then
      if lease.holder = holder then .ok (some lease.epoch) else .ok none
    else (nextEpoch lease).map some

def acquireNext (now expiresMs : Int) (current : Option Body) : Except StorageError (Option Body) :=
  (acquireEpoch holder now current).map fun epoch => epoch.map fun epoch =>
    { holder := holder, epoch := epoch, expiresMs := expiresMs }

def acquireWithEpoch (request : Acquire) (raced : Bool) (now : Int) :
    Option Body → Except StorageError (Option (Nat × Bool))
  | none => .ok (some (1,false))
  | some found =>
    if found.Live now ∧ found.holder = request.holder ∧ request.heldEpoch = some found.epoch then
      .ok (some (found.epoch,false))
    else if found.Live now ∧
        (found.holder ≠ request.holder ∨ raced ∨ request.heldEpoch.isSome) then .ok none
    else (nextEpoch found).map fun next => some (next,!found.released)

def acquireWithNext (request : Acquire) (raced : Bool) (now expiresMs : Int)
    (current : Option Body) : Except StorageError (Option Body × Bool × Option Body) :=
  (acquireWithEpoch request raced now current).map fun
    | some (epoch,unclean) =>
      (some ⟨request.holder,epoch,expiresMs,request.endpoint,false⟩,unclean,none)
    | none => (none,false,current)

def renewNext (epoch : Nat) (now expiresMs : Int) (current : Option Body) : Option Body :=
  (current.filter fun lease => lease.Held holder epoch now).map fun lease =>
    { lease with expiresMs := expiresMs }

def releaseNext (epoch : Nat) (now : Int) (current : Option Body) : Option Body :=
  (current.filter fun lease => lease.Held holder epoch now).map fun lease =>
    { lease with expiresMs := now, released := true }

structure LeaseWorld where
  cell : Cell Body
  now : Nat

def Lease.WriteCondition (l : Lease) (w : LeaseWorld) : Prop :=
  ∃ b ∈ w.cell.doc, b.holder = l.holder ∧ b.epoch = l.epoch ∧ ¬ b.released ∧ w.now < b.expiresMs

-- A write names the request it is made for. The store never looks at it.
inductive LeaseOp where
  | clock
  | get
  | put (request : LeaseRequest) (precondition : Precondition) (body : Body)

abbrev LeaseAns : LeaseOp → Type
  | .clock => Nat
  | .get => Except StorageError (Option (Versioned Body))
  | .put _ _ _ => Except StorageError Nat

def LeaseOutcome : (op : LeaseOp) → LeaseWorld → LeaseAns op → LeaseWorld → Prop
  | .clock, w, x, w' => x = w.now ∧ w' = w
  | .get, w, x, w' => w' = w ∧ ((∃ e, x = .error e) ∨ x = .ok w.cell.current)
  | .put _ precondition body, w, x, w' =>
    ((∃ e, x = .error e) ∧ w' = w) ∨
      w.cell.Meets precondition ∧ w' = { w with cell := w.cell.write body } ∧
        (x = .ok w.cell.next ∨ ∃ e, e ≠ .conflict ∧ x = .error e)

abbrev LeaseTask (α : Type) := Fallible LeaseOp LeaseAns StorageError α

def clock : LeaseTask Nat := ExceptT.lift (.perform LeaseOp.clock)

def port (request : LeaseRequest) : Port LeaseOp LeaseAns Body where
  get := .perform LeaseOp.get
  put := fun precondition body => .perform (LeaseOp.put request precondition body)

def now : LeaseTask Int := do
  let t ← clock
  if (t : Int) ≤ i64Max then return (t : Int) else throw (.invalidInput "clock out of range")

def deadline (ttlMs : Int) : LeaseTask (Int × Int) :=
  if ttlMs ≤ 0 then throw (.invalidInput "a lease ttl must be positive")
  else do
    let now ← now
    if now+ttlMs ≤ i64Max then return (now,now+ttlMs)
    else throw (.invalidInput "lease ttl out of range")

variable (attempts : Nat)

def acquire (holder : String) (ttlMs : Int) : LeaseTask (Option Lease) := do
  let (stored,_) ← Repo.update (port (.acquire holder ttlMs)) attempts (fun s current => do
    let (now,expiresMs) ← deadline ttlMs
    ExceptT.mk (.ret ((acquireNext holder now expiresMs current).map fun next => (next,s)))) ()
  return stored.map fun (body,_) => .fromBody body

structure AcquireVars where
  unclean : Bool := false
  seen : Option Body := none
  attempts : Nat := 0

def acquireWith (request : Acquire) : LeaseTask Acquisition := do
  let (stored,s) ← Repo.update (port (.acquireWith request)) attempts
    (fun s current => do
      let (now,expiresMs) ← deadline request.ttlMs
      ExceptT.mk (.ret ((acquireWithNext request (0 < s.attempts) now expiresMs current).map
        fun (next,unclean,seen) => (next,(⟨unclean,seen,s.attempts+1⟩ : AcquireVars))))) {}
  match stored, s.seen with
  | some (body,_), _ => return .granted (.fromBody body) s.unclean
  | none, some body => return .held (.fromBody body)
  | none, none => throw (.backend "lease acquire declined without a live record")

def renew (holder : String) (epoch : Nat) (ttlMs : Int) : LeaseTask (Option Lease) := do
  let (stored,_) ← Repo.update (port (.renew holder epoch ttlMs)) attempts (fun s current => do
    let (now,expiresMs) ← deadline ttlMs
    return (renewNext holder epoch now expiresMs current,s)) ()
  return stored.map fun (body,_) => .fromBody body

def release (holder : String) (epoch : Nat) : LeaseTask Bool := do
  let now ← now
  let (stored,_) ← Repo.update (port (.release holder epoch)) attempts
    (fun s current => return (releaseNext holder epoch now current,s)) ()
  return stored.isSome

def LeaseCall.task (call : LeaseCall) : LeaseTask LeaseReply :=
  match call.request with
  | .acquire holder ttlMs => do
    let lease ← acquire call.attempts holder ttlMs
    return .lease lease
  | .acquireWith request => do
    let outcome ← acquireWith call.attempts request
    return .acquisition outcome
  | .renew holder epoch ttlMs => do
    let lease ← renew call.attempts holder epoch ttlMs
    return .lease lease
  | .release holder epoch => do
    let done ← release call.attempts holder epoch
    return .released done

end Leases

end StorageKit
