import TinyAgents.Interaction.Traces
import TinyAgents.Completions.Copying
import TinyAgents.Completions.Lifecycle

namespace Completions

open Interaction

namespace Migration

structure AdmissionStoreSlot where
  store : Nat
  migrating : Bool

def admissionStoreSnapshot (slot : AdmissionStoreSlot) : Option Nat :=
  if slot.migrating then none else some slot.store

-- Stores are known by their handles; `current` and `slot` are those of the router that migrates.
structure MigrationWorld where
  shared : World
  stores : Nat → Store
  lifecycleOf : Nat → Option Nat := fun _ => none
  current : Nat
  slot : AdmissionStoreSlot

namespace MigrationWorld

def focus (w : MigrationWorld) (handle : Nat) : World :=
  w.shared.setStore (w.stores handle)

def back (w : MigrationWorld) (handle : Nat) (v : World) : MigrationWorld :=
  { w with
    shared := v.setStore w.shared.store
    stores := Function.update w.stores handle v.store }

end MigrationWorld

inductive MigrationFault where
  | store (fault : Fault)
  | boundElsewhere
  | sourceGateExpired
  | gainedParent
  deriving DecidableEq

inductive CompletionStoreReplaceOutcome where
  | current (store : Nat)
  | replaced (store : Nat)
  deriving DecidableEq

inductive MigrationOp where
  | on (handle : Nat) (op : Op)
  | bindParentLifecycle (handle lifecycle : Nat)
  | putCopy (handle : Nat) (record : CompletionRecord) (parentKey : String)
      (gate : ParentGateClaim)
  | currentStore
  | setCurrentStore (handle : Nat)
  | beginMigration
  | dropMigration (replacement : Option Nat)

abbrev MigrationAns : MigrationOp → Type
  | .on _ op => Ans op
  | .bindParentLifecycle _ _ => Except MigrationFault Unit
  | .putCopy _ _ _ _ => Except Fault Unit
  | .currentStore => Nat
  | .setCurrentStore _ => Unit
  | .beginMigration => Unit
  | .dropMigration _ => Unit

namespace MigrationWorld

def putCopy (w : MigrationWorld) (handle : Nat) (r : CompletionRecord) (parentKey : String)
    (gate : ParentGateClaim) : Except Fault (Unit × Store) :=
  (w.stores handle).putCopy r parentKey gate w.shared.now

def publish (w : MigrationWorld) (replacement : Option Nat) : MigrationWorld :=
  { w with slot := ⟨replacement.getD w.slot.store,false⟩ }

end MigrationWorld

def MigrationOutcome (i : Nat) :
    (op : MigrationOp) → MigrationWorld → MigrationAns op → MigrationWorld → Prop
  | .on handle op, w, x, w' => ∃ v, Outcome i op (w.focus handle) x v ∧ w' = w.back handle v
  | .bindParentLifecycle handle lifecycle, w, x, w' =>
    ((∃ e, x = .error e) ∧ w' = w) ∨
      (∀ bound ∈ w.lifecycleOf handle, bound = lifecycle) ∧ x = .ok () ∧
        w' = { w with lifecycleOf := Function.update w.lifecycleOf handle (some lifecycle) }
  | .putCopy handle r parentKey gate, w, x, w' => ∃ v,
      Attempted (w.focus handle) (w.putCopy handle r parentKey gate) x v ∧ w' = w.back handle v
  | .currentStore, w, x, w' => x = w.current ∧ w' = w
  | .setCurrentStore handle, w, _, w' => w' = { w with current := handle }
  | .beginMigration, w, _, w' => w' = { w with slot := { w.slot with migrating := true } }
  | .dropMigration replacement, w, _, w' => w' = w.publish replacement

abbrev Migrating (α : Type) := Fallible MigrationOp MigrationAns MigrationFault α

def ask (op : MigrationOp) : Program MigrationOp MigrationAns (MigrationAns op) := .perform op

def plain {α : Type} (p : Program MigrationOp MigrationAns α) : Migrating α := ExceptT.lift p

def onStore {α : Type} (handle : Nat) (p : Program Op Ans α) : Program MigrationOp MigrationAns α :=
  p.embed (.on handle) fun _ x => x

def tryOn {α : Type} (handle : Nat) (task : Task α) : Migrating α :=
  ExceptT.mk do
    let result ← onStore handle task.run
    return result.mapError .store

def dropEach {γ : Type} (drop : γ → Program MigrationOp MigrationAns Unit) :
    List γ → Program MigrationOp MigrationAns Unit
  | [] => return ()
  | guard :: rest => do
    drop guard
    dropEach drop rest

def acquireEach {γ : Type} (acquire : String → Migrating γ)
    (drop : γ → Program MigrationOp MigrationAns Unit) : List String → List γ → Migrating (List γ)
  | [], held => return held
  | parentKey :: rest, held => ExceptT.mk do
    match ← (acquire parentKey).run with
    | .ok guard => (acquireEach acquire drop rest (held ++ [guard])).run
    | .error e => do
      dropEach drop held
      return .error e

def withEach {α γ : Type} (acquire : String → Migrating γ) (drop : γ → Program MigrationOp
    MigrationAns Unit) (parents : List String) (body : List γ → Migrating α) : Migrating α := do
  let guards ← acquireEach acquire drop parents []
  ExceptT.mk do
    let result ← (body guards).run
    dropEach drop guards
    return result

def acquireSourceGate (source : Nat) (parentKey : String) :
    Migrating (String × ParentGateClaim) := do
  let claim ← tryOn source (ParentGateGuard.acquireNative parentKey)
  return (parentKey,claim)

def dropSourceGate (source : Nat) (gate : String × ParentGateClaim) :
    Program MigrationOp MigrationAns Unit :=
  onStore source (ParentGateGuard.dropNative gate.1 gate.2)

def acquireLocalGate (source lifecycle : Nat) (parentKey : String) : Migrating String := do
  tryOn source (ExceptT.mk (acquireLocal lifecycle parentKey))
  return parentKey

def dropLocalGate (source lifecycle : Nat) (parentKey : String) :
    Program MigrationOp MigrationAns Unit :=
  ask (.on source (.releaseLocal lifecycle parentKey))

def renewSourceGates (source : Nat) : List (String × ParentGateClaim) → Migrating Unit
  | [] => return ()
  | gate :: rest => do
    let renewed ← tryOn source (ExceptT.mk (renewParentGate gate.1 gate.2))
    if renewed then renewSourceGates source rest else throw .sourceGateExpired

def migrationParent (r : CompletionRecord) : String :=
  if r.parentKey = "" then (parentFromMarkerId r.taskId).getD r.taskId else r.parentKey

def migrationParents (discovered : List CompletionRecord) : List String :=
  ((discovered.map migrationParent).insertionSort (· ≤ ·)).dedup

def copyRecord (replacement : Nat) (r : CompletionRecord) : Migrating Unit := do
  let claim ← tryOn replacement (ParentGateGuard.acquireNative (migrationParent r))
  ExceptT.mk do
    let result ← ask (.putCopy replacement r (migrationParent r) claim)
    dropSourceGate replacement (migrationParent r,claim)
    return result.mapError .store

def copyRecords (replacement : Nat) : List CompletionRecord → Migrating Unit
  | [] => return ()
  | r :: rest => do
    copyRecord replacement r
    copyRecords replacement rest

variable (router : Router) (source replacement : Nat)

def copySnapshot (parents : List String) (gates : List (String × ParentGateClaim)) :
    Migrating CompletionStoreReplaceOutcome := do
  renewSourceGates source gates
  let records ← tryOn source (tryList none)
  if records.all (fun r => migrationParent r ∈ parents) then
    copyRecords replacement records
    plain (ask (.setCurrentStore replacement))
    plain (ask (.dropMigration (some replacement)))
    return .replaced replacement
  else throw .gainedParent

def bindReplacement (replacement lifecycle : Nat) : Migrating Unit := do
  let processLocal ← plain (ask (.on replacement .isProcessLocal))
  if processLocal then ExceptT.mk (ask (.bindParentLifecycle replacement lifecycle))
  else return ()

def copyStore : Migrating CompletionStoreReplaceOutcome := do
  bindReplacement replacement router.lifecycle
  let discovered ← tryOn source (tryList none)
  let parents := migrationParents discovered
  withEach (acquireSourceGate source) (dropSourceGate source) parents fun gates =>
    withEach (acquireLocalGate source router.lifecycle) (dropLocalGate source router.lifecycle)
      parents fun _ => copySnapshot source replacement parents gates

def migrate : Migrating CompletionStoreReplaceOutcome := ExceptT.mk do
  ask .beginMigration
  match ← (copyStore router source replacement).run with
  | .ok outcome => return .ok outcome
  | .error e => do
    ask (.dropMigration none)
    return .error e

def replaceLocked (expected replacement : Nat) : Migrating CompletionStoreReplaceOutcome := do
  let current ← plain (ask .currentStore)
  if current ≠ expected then return .current current
  else if current = replacement then return .current current
  else migrate router expected replacement

def replaceStoreIfCurrent (expected replacement : Nat) :
    Migrating CompletionStoreReplaceOutcome := ExceptT.mk do
  ask (.on expected (.lockRouter router.id))
  let result ← (replaceLocked router expected replacement).run
  ask (.on expected (.unlockRouter router.id))
  return result

end Migration

end Completions
