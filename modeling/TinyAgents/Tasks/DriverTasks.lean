import TinyAgents.Interaction.Driver
import TinyAgents.StorageKit.Repo
import TinyAgents.Tasks.Lifecycle

namespace Tasks

open Interaction StorageKit Function

variable {V : Type}

def i64Max : Nat := 2^63-1

def toMs (time : Nat) : Nat := min (time/1000000) i64Max

def fromMs (ms : Nat) : Nat := ms*1000000

structure TaskDoc (V : Type) where
  spec : OrchestrationTaskSpec
  kindLabel : String
  status : OrchestrationTaskStatus
  rev : Nat
  result : Option (OrchestrationTaskResult V)
  error : Option String
  createdMs : Nat
  startedMs : Option Nat
  endedMs : Option Nat

namespace TaskDoc

def fromRecord (r : OrchestrationTaskRecord V) (rev : Nat) : TaskDoc V :=
  ⟨r.spec,r.spec.kind.asStr,r.status,rev,r.result,r.error,toMs r.createdAt,r.startedAt.map toMs,
    r.endedAt.map toMs⟩

def intoRecord (d : TaskDoc V) (updatedMs : Nat) : OrchestrationTaskRecord V :=
  ⟨d.spec,d.status,d.result,d.error,fromMs d.createdMs,fromMs updatedMs,d.startedMs.map fromMs,
    d.endedMs.map fromMs⟩

def state (d : TaskDoc V) : TaskState V := ⟨d.spec,d.status,d.result,d.error⟩

end TaskDoc

inductive TaskError where
  | lifecycle (error : LifecycleError)
  | storage (error : StorageError)
  | internal (message : String)
  deriving DecidableEq

-- The documents of both collections by task id. No code reads `log` and `owed`: the documents
-- that were committed, and the snapshot a thread still has to write.
structure TaskWorld (V : Type) where
  records : String → Cell (TaskDoc V)
  history : String → Nat → Option (TaskDoc V)
  log : String → List (TaskDoc V)
  owed : Nat → Option (String × TaskDoc V)

-- A write names the call it is made for. The store never looks at it.
inductive TaskOp (V : Type) where
  | declare
  | clock
  | get (taskId : String)
  | put (call : TaskCall V) (precondition : Precondition) (doc : TaskDoc V)
  | snapshot (taskId : String) (rev : Nat) (doc : TaskDoc V)

abbrev TaskAns : TaskOp V → Type
  | .declare => Option StorageError
  | .clock => Nat
  | .get _ => Except StorageError (Option (Versioned (TaskDoc V)))
  | .put _ _ _ | .snapshot _ _ _ => Except StorageError Nat

namespace TaskWorld

variable (w : TaskWorld V)

def commit (i : Nat) (taskId : String) (doc : TaskDoc V) : TaskWorld V :=
  { w with
    records := update w.records taskId ((w.records taskId).write doc)
    log := update w.log taskId (w.log taskId++[doc])
    owed := update w.owed i (some (taskId,doc)) }

def clear (i : Nat) : TaskWorld V :=
  { w with owed := update w.owed i none }

def note (i : Nat) (taskId : String) (rev : Nat) (doc : TaskDoc V) : TaskWorld V :=
  { w.clear i with
    history := update w.history taskId
      (update (w.history taskId) rev (some doc)) }

end TaskWorld

def TaskOutcome (i : Nat) : (op : TaskOp V) → TaskWorld V → TaskAns op → TaskWorld V → Prop
  | .declare, w, x, w' => x = none ∧ w' = w
  | .clock, w, _, w' => w' = w
  | .get taskId, w, x, w' => x = .ok (w.records taskId).current ∧ w' = w
  | .put call precondition doc, w, x, w' =>
    if (w.records call.taskId).Meets precondition then
      x = .ok (w.records call.taskId).next ∧ w' = w.commit i call.taskId doc
    else x = .error .conflict ∧ w' = w
  | .snapshot taskId rev doc, w, x, w' => match w.history taskId rev with
      | none => x = .ok 0 ∧ w' = w.note i taskId rev doc
      | some _ => x = .error .conflict ∧ w' = w.clear i

abbrev Stored (V α : Type) := Fallible (TaskOp V) TaskAns StorageError α
abbrev Task (V α : Type) := Fallible (TaskOp V) TaskAns TaskError α

namespace DriverTaskStore

def asking (op : TaskOp V) : Task V (TaskAns op) := ExceptT.lift (.perform op)

def mapError {α : Type} (p : Stored V α) : Task V α := ExceptT.mk do
  let r ← p.run
  return r.mapError TaskError.storage

def declare : Task V Unit := do
  match ← asking .declare with
  | none => return ()
  | some e => throw (.storage e)

def snapshot (record : OrchestrationTaskRecord V) (rev : Nat) : Task V Unit := do
  match ← asking (.snapshot record.spec.taskId rev (.fromRecord record rev)) with
  | .ok _ => return ()
  | .error .conflict => return ()
  | .error e => throw (.storage e)

def port (call : TaskCall V) : Port (TaskOp V) TaskAns (TaskDoc V) where
  get := .perform (TaskOp.get call.taskId)
  put := fun precondition doc => .perform (TaskOp.put call precondition doc)

abbrev Decided (V : Type) :=
  Option (Except LifecycleError (TaskAnswer V × OrchestrationTaskRecord V))

def change (taskId : String) (t : Transition V) :
    Repo.Change (TaskOp V) TaskAns (TaskDoc V) (Decided V) := fun _ current =>
  match current with
  | none => return (none,some (.error (orchestrationNotFound taskId)))
  | some doc => do
    let now : Nat ← ExceptT.lift (.perform TaskOp.clock)
    match t.apply now (doc.intoRecord 0) with
    | .ok (answer,record) =>
      return (some (.fromRecord record (doc.rev+1)),some (.ok (answer,record)))
    | .error e => return (none,some (.error e))

def modify (attempts : Nat) (taskId : String) (t : Transition V) : Task V (TaskAnswer V) := do
  declare
  let (stored,decided) ← mapError
    (Repo.update (port (.modify taskId t)) attempts (change taskId t) none)
  match decided with
  | none => throw (.internal "task store: no transition ran")
  | some (.error e) => throw (.lifecycle e)
  | some (.ok (answer,record)) => match stored with
      | none => throw (.internal "task store: transition was not stored")
      | some (doc,_) => do
        snapshot record doc.rev
        return answer

def insert (spec : OrchestrationTaskSpec) : Task V (TaskAnswer V) := do
  declare
  let now : Nat ← asking .clock
  let record := OrchestrationTaskRecord.pending now spec
  match ← asking (.put (.insert spec) .absent (.fromRecord record 1)) with
  | .ok _ => do
    snapshot record 1
    return .record record
  | .error .conflict => throw (.lifecycle (duplicateTask spec.taskId))
  | .error e => throw (.storage e)

def perform (attempts : Nat) : TaskCall V → Task V (TaskAnswer V)
  | .insert spec => insert spec
  | .modify taskId t => modify attempts taskId t

end DriverTaskStore

abbrev TaskReply (V : Type) := Except TaskError (TaskAnswer V)

def machine (V : Type) (attempts : Nat) :
    Machine (TaskCall V) (TaskOp V) TaskAns (TaskWorld V) (TaskReply V) where
  code := fun call => (DriverTaskStore.perform attempts call).run
  outcome := TaskOutcome

def retryAttempts : Nat := 32

end Tasks
