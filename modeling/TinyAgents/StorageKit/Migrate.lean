import TinyAgents.StorageKit.SchemaSteps

namespace StorageKit

namespace Schemas

open Interaction

section

variable {V : Type}

inductive RegistryOp (V : Type) where
  | store (scope : String) (op : StoreOp V)
  | setPending (scope : String) (items : List String)
  | markReady (scope item : String)

abbrev RegistryAns {V : Type} : RegistryOp V → Type
  | .store _ op => StoreAns op
  | .setPending _ _ | .markReady _ _ => Unit

abbrev RegistryTask (V α : Type) := Fallible (RegistryOp V) RegistryAns Failure α

def within {α : Type} (scope : String) (task : StoreTask V α) : RegistryTask V α :=
  ExceptT.mk (task.run.embed (RegistryOp.store scope) fun _ x => x)

end

variable {V D : Type} [DecidableEq V] (codec : KeyCodec) (rules : Rules D)
  (registry : PreparedRegistry V D)

structure MigrateCall where
  scope : String
  batchSize : Nat := 100
  executor : Bool := true
  fuel : Nat

structure StepReport where
  owner : String
  item : String
  step : String
  written : Nat

structure MigrationReport where
  ran : List StepReport := []
  alreadyDone : Nat := 0

structure Planned (V : Type) where
  owner : Owner
  step : PreparedStep V
  key : String
  progress : Option Progress

def Planned.done (planned : Planned V) : Bool := planned.progress.any fun found => found.done

def keyOf (owner : Owner) (step : PreparedStep V) : Except Failure String :=
  (stepKey codec owner.name step.item step.id).mapError fun _ => invalidInput "key"

def plan : List (Owner × PreparedStep V) → StoreTask V (List (Planned V))
  | [] => return []
  | (owner,step) :: rest => do
    let key ← Fallible.ofExcept (keyOf codec owner step)
    let progress ← loadProgress key
    let rest ← plan rest
    return ⟨owner,step,key,progress⟩ :: rest

def remaining (planned : List (Planned V)) : List String :=
  (planned.filter fun entry => !entry.done).map fun entry => entry.step.item

variable (call : MigrateCall)

def runBody (entry : Planned V) : StoreTask V Nat :=
  let context : Context V := ⟨entry.owner,entry.step,call.executor,entry.key,call.batchSize⟩
  match entry.step.run with
  | .documents run => StepRun.runStep
      ⟨registry,entry.owner,entry.step,run,call.executor,call.batchSize⟩ entry.key call.fuel
      entry.progress
  | .streams run => runStreams codec rules.validateStream context run call.fuel entry.progress
  | .blobs run => runBlobs rules.sealedBlobPath context run entry.progress

def runPlan : List (Planned V) → MigrationReport → RegistryTask V MigrationReport
  | [], report => return report
  | entry :: rest, report =>
    if entry.done then runPlan rest { report with alreadyDone := report.alreadyDone+1 }
    else do
      let written ← within call.scope (runBody codec rules registry call entry)
      let report := { report with ran := report.ran++
        [⟨entry.owner.name,entry.step.item,entry.step.id,written⟩] }
      if (remaining rest).contains entry.step.item then runPlan rest report
      else do
        ExceptT.lift (.perform (RegistryOp.markReady call.scope entry.step.item))
        runPlan rest report

def migrate : RegistryTask V MigrationReport := do
  if call.batchSize = 0 then throw (invalidInput "migration batch size must be at least 1")
  else
    within call.scope (ExceptT.mk (.perform (StoreOp.ensureCollection migrationsCollection)))
    let planned ← within call.scope (plan codec registry.steps)
    ExceptT.lift (.perform (RegistryOp.setPending call.scope (remaining planned).dedup))
    runPlan codec rules registry call planned {}

end Schemas

end StorageKit
