import TinyAgents.Interaction.Table

namespace Tasks

open Interaction

inductive OrchestrationTaskKind where
  | graph (graphId : String)
  | subAgent (agent : String)
  | tool (tool : String)
  | externalProcess (label : String)
  deriving DecidableEq

def OrchestrationTaskKind.asStr : OrchestrationTaskKind → String
  | .graph _ => "graph"
  | .subAgent _ => "sub_agent"
  | .tool _ => "tool"
  | .externalProcess _ => "external_process"

inductive OrchestrationTaskStatus where
  | pending
  | running
  | awaiting
  | completed
  | failed
  | cancelRequested
  | cancelled
  | timedOut
  | abandoned
  deriving DecidableEq

namespace OrchestrationTaskStatus

def debug : OrchestrationTaskStatus → String
  | pending => "Pending"
  | running => "Running"
  | awaiting => "Awaiting"
  | completed => "Completed"
  | failed => "Failed"
  | cancelRequested => "CancelRequested"
  | cancelled => "Cancelled"
  | timedOut => "TimedOut"
  | abandoned => "Abandoned"

def isTerminal : OrchestrationTaskStatus → Bool
  | completed | failed | cancelled | timedOut | abandoned => true
  | _ => false

def isLive (s : OrchestrationTaskStatus) : Bool := !s.isTerminal

end OrchestrationTaskStatus

structure OrchestrationTaskSpec where
  taskId : String
  kind : OrchestrationTaskKind
  timeoutMs : Option Nat := none
  deriving DecidableEq

structure OrchestrationTaskResult (V : Type) where
  text : Option String
  output : Option V
  deriving DecidableEq

structure OrchestrationTaskRecord (V : Type) where
  spec : OrchestrationTaskSpec
  status : OrchestrationTaskStatus
  result : Option (OrchestrationTaskResult V)
  error : Option String
  createdAt : Nat
  updatedAt : Nat
  startedAt : Option Nat
  endedAt : Option Nat
  deriving DecidableEq

structure OrchestrationControlOutcome where
  taskId : String
  status : OrchestrationTaskStatus
  message : String
  deriving DecidableEq

inductive TaskAnswer (V : Type) where
  | record (r : OrchestrationTaskRecord V)
  | control (o : OrchestrationControlOutcome)
  deriving DecidableEq

section

variable {V : Type}

inductive LifecycleError where
  | graph (message : String)
  | duplicateComponent (message : String)
  deriving DecidableEq

def orchestrationNotFound (taskId : String) : LifecycleError :=
  .graph ("orchestration task `"++taskId++"` does not exist")

def duplicateTask (taskId : String) : LifecycleError :=
  .duplicateComponent ("orchestration task `"++taskId++"`")

namespace OrchestrationTaskRecord

def pending (now : Nat) (spec : OrchestrationTaskSpec) : OrchestrationTaskRecord V :=
  ⟨spec,.pending,none,none,now,now,none,none⟩

variable (now : Nat) (r : OrchestrationTaskRecord V) (next : OrchestrationTaskStatus)

def invalidTransition : LifecycleError :=
  .graph ("cannot transition orchestration task `"++r.spec.taskId++"` from "++r.status.debug++
    " to "++next.debug)

def requireLive : Except LifecycleError Unit :=
  if r.status.isLive then .ok () else .error (r.invalidTransition next)

def requireStatus (allowed : List OrchestrationTaskStatus) (next : OrchestrationTaskStatus) :
    Except LifecycleError Unit :=
  if r.status ∈ allowed then .ok () else .error (r.invalidTransition next)

def markRunning : Except LifecycleError (OrchestrationTaskRecord V) := do
  r.requireStatus [.pending] .running
  return { r with status := .running, startedAt := some now, updatedAt := now }

def markAwaiting : Except LifecycleError (OrchestrationTaskRecord V) := do
  r.requireStatus [.pending,.running] .awaiting
  return { r with status := .awaiting, updatedAt := now }

def markAwaitingWithQuestion (question : String) :
    Except LifecycleError (OrchestrationTaskRecord V) := do
  r.requireStatus [.pending,.running] .awaiting
  return { r with status := .awaiting, error := some question, updatedAt := now }

def markCancelled : Except LifecycleError (OrchestrationTaskRecord V) := do
  r.requireStatus [.cancelRequested] .cancelled
  return { r with status := .cancelled, updatedAt := now, endedAt := some now }

def settle (result : Option (OrchestrationTaskResult V))
    (error : Option String) : Except LifecycleError (OrchestrationTaskRecord V) :=
  if r.status = .cancelRequested then r.markCancelled now
  else do
    r.requireLive next
    return { r with
      status := next, result := result, error := error, updatedAt := now, endedAt := some now }

def complete (result : OrchestrationTaskResult V) :
    Except LifecycleError (OrchestrationTaskRecord V) :=
  r.settle now .completed (some result) none

def fail (error : String) : Except LifecycleError (OrchestrationTaskRecord V) :=
  r.settle now .failed none (some error)

def timeout (error : String) : Except LifecycleError (OrchestrationTaskRecord V) :=
  r.settle now .timedOut none (some error)

def requestCancel : Except LifecycleError (String × OrchestrationTaskRecord V) :=
  if r.status = .cancelRequested then .ok ("cancellation was already requested",r)
  else do
    r.requireLive .cancelRequested
    return ("cancellation requested",{ r with status := .cancelRequested, updatedAt := now })

def kill : Except LifecycleError (String × OrchestrationTaskRecord V) := do
  r.requireLive .abandoned
  return ("task abandoned after kill request",{ r with
    status := .abandoned
    error := some "task abandoned after kill request"
    updatedAt := now
    endedAt := some now })

def setTimeoutMs (timeoutMs : Nat) : Except LifecycleError (OrchestrationTaskRecord V) :=
  if r.status.isTerminal then .error (r.invalidTransition .running)
  else .ok { r with spec := { r.spec with timeoutMs := some timeoutMs }, updatedAt := now }

def controlOutcome (message : String) : OrchestrationControlOutcome :=
  ⟨r.spec.taskId,r.status,message⟩

end OrchestrationTaskRecord

inductive Transition (V : Type) where
  | markRunning
  | markAwaiting
  | markAwaitingWithQuestion (question : String)
  | complete (result : OrchestrationTaskResult V)
  | fail (error : String)
  | timeout (error : String)
  | requestCancel
  | markCancelled
  | kill
  | setTimeoutMs (timeoutMs : Nat)
  deriving DecidableEq

def answerRecord (x : Except LifecycleError (OrchestrationTaskRecord V)) :
    Except LifecycleError (TaskAnswer V × OrchestrationTaskRecord V) :=
  x.map fun r => (.record r,r)

def answerControl (x : Except LifecycleError (String × OrchestrationTaskRecord V)) :
    Except LifecycleError (TaskAnswer V × OrchestrationTaskRecord V) :=
  x.map fun (message,r) => (.control (r.controlOutcome message),r)

def Transition.apply (t : Transition V) (now : Nat) (r : OrchestrationTaskRecord V) :
    Except LifecycleError (TaskAnswer V × OrchestrationTaskRecord V) :=
  match t with
  | .markRunning => answerRecord (r.markRunning now)
  | .markAwaiting => answerRecord (r.markAwaiting now)
  | .markAwaitingWithQuestion question => answerRecord (r.markAwaitingWithQuestion now question)
  | .complete result => answerRecord (r.complete now result)
  | .fail error => answerRecord (r.fail now error)
  | .timeout error => answerRecord (r.timeout now error)
  | .requestCancel => answerControl (r.requestCancel now)
  | .markCancelled => answerRecord (r.markCancelled now)
  | .kill => answerControl (r.kill now)
  | .setTimeoutMs timeoutMs => answerRecord (r.setTimeoutMs now timeoutMs)

inductive TaskCall (V : Type) where
  | insert (spec : OrchestrationTaskSpec)
  | modify (taskId : String) (t : Transition V)
  deriving DecidableEq

def TaskCall.taskId : TaskCall V → String
  | .insert spec => spec.taskId
  | .modify taskId _ => taskId

end

section

variable {V : Type}

abbrev InMemoryTaskStore (V : Type) := Map String (OrchestrationTaskRecord V)

namespace InMemoryTaskStore

variable (store : InMemoryTaskStore V)

def insert (now : Nat) (spec : OrchestrationTaskSpec) :
    Except LifecycleError (TaskAnswer V) × InMemoryTaskStore V :=
  if (store.lookup spec.taskId).isSome then (.error (duplicateTask spec.taskId),store)
  else
    let record := OrchestrationTaskRecord.pending now spec
    (.ok (.record record),store.put spec.taskId record)

def withTask (taskId : String) (f : OrchestrationTaskRecord V → Except LifecycleError (TaskAnswer V
    × OrchestrationTaskRecord V)) : Except LifecycleError (TaskAnswer V) × InMemoryTaskStore V :=
  match store.lookup taskId with
  | none => (.error (orchestrationNotFound taskId),store)
  | some r => match f r with
      | .ok (answer,r') => (.ok answer,store.put taskId r')
      | .error e => (.error e,store)

def perform (now : Nat) : TaskCall V → Except LifecycleError (TaskAnswer V) × InMemoryTaskStore V
  | .insert spec => store.insert now spec
  | .modify taskId t => store.withTask taskId (t.apply now)

end InMemoryTaskStore

def InMemoryTaskStore.replay : List (Nat × TaskCall V) → InMemoryTaskStore V →
    List (Except LifecycleError (TaskAnswer V)) × InMemoryTaskStore V
  | [], store => ([],store)
  | (now,call) :: rest, store =>
    let (answer,store) := store.perform now call
    let (answers,store) := replay rest store
    (answer :: answers,store)

end

section

variable {V : Type}

structure TaskState (V : Type) where
  spec : OrchestrationTaskSpec
  status : OrchestrationTaskStatus
  result : Option (OrchestrationTaskResult V)
  error : Option String

def OrchestrationTaskRecord.state (r : OrchestrationTaskRecord V) : TaskState V :=
  ⟨r.spec,r.status,r.result,r.error⟩

def TaskState.record (s : TaskState V) : OrchestrationTaskRecord V :=
  ⟨s.spec,s.status,s.result,s.error,0,0,none,none⟩

def TaskState.pending (spec : OrchestrationTaskSpec) : TaskState V :=
  ⟨spec,.pending,none,none⟩

def Transition.next (t : Transition V) (s : TaskState V) : Except LifecycleError (TaskState V) :=
  (t.apply 0 s.record).map fun x => x.2.state

inductive TaskView (V : Type) where
  | record (s : TaskState V)
  | control (taskId : String) (status : OrchestrationTaskStatus)

def TaskAnswer.view : TaskAnswer V → TaskView V
  | .record r => .record r.state
  | .control o => .control o.taskId o.status

def Transition.view (t : Transition V) (s : TaskState V) : TaskView V :=
  match t with
  | .requestCancel | .kill => .control s.spec.taskId s.status
  | _ => .record s

def TaskCall.view (call : TaskCall V) (s : TaskState V) : TaskView V :=
  match call with
  | .insert _ => .record s
  | .modify _ t => t.view s

abbrev TaskStates (V : Type) := String → Option (TaskState V)

def TaskCall.serve (states : TaskStates V) (call : TaskCall V) :
    Except LifecycleError (TaskState V) × TaskStates V :=
  match call with
  | .insert spec =>
    if (states spec.taskId).isSome then (.error (duplicateTask spec.taskId),states)
    else (.ok (.pending spec),Function.update states spec.taskId (some (.pending spec)))
  | .modify taskId t => match states taskId with
      | none => (.error (orchestrationNotFound taskId),states)
      | some s => match t.next s with
          | .ok s' => (.ok s',Function.update states taskId (some s'))
          | .error e => (.error e,states)

end

section

variable {V : Type}

theorem apply_state {t : Transition V} {now : Nat} {r} :
    (t.apply now r).map (fun x => x.2.state) = t.next r.state := by
  obtain ⟨_,status,_,_,_,_,_,_⟩ := r
  cases status <;> cases t <;> rfl

variable {now : Nat} {r : OrchestrationTaskRecord V} {a : TaskAnswer V} {t : Transition V}

theorem next_of_apply {r'} (h : t.apply now r = .ok (a,r')) : t.next r.state = .ok r'.state := by
  rw [← apply_state,h]
  rfl

theorem next_of_apply_error {e : LifecycleError} (h : t.apply now r = .error e) :
    t.next r.state = .error e := by
  rw [← apply_state,h]
  rfl

theorem answerRecord_eq_ok {x} (h : answerRecord x = .ok (a,r)) : x = .ok r ∧ a = .record r := by
  cases x with
  | error => cases h
  | ok =>
    cases h
    exact ⟨rfl,rfl⟩

theorem answerControl_eq_ok {x} (h : answerControl x = .ok (a,r)) :
    ∃ message, x = .ok (message,r) ∧ a = .control (r.controlOutcome message) := by
  cases x with
  | error => cases h
  | ok =>
    cases h
    exact ⟨_,rfl,rfl⟩

theorem apply_view {r'} (h : t.apply now r = .ok (a,r')) : a.view = t.view r'.state := by
  cases t with
  | requestCancel | kill =>
    obtain ⟨_,-,rfl⟩ := answerControl_eq_ok h
    rfl
  | _ =>
    obtain ⟨-,rfl⟩ := answerRecord_eq_ok h
    rfl

theorem next_taskId {s s'} (h : t.next s = .ok s') : s'.spec.taskId = s.spec.taskId := by
  obtain ⟨_,status,_,_⟩ := s
  cases status <;> cases t <;> cases h <;> rfl

theorem next_of_terminal (t : Transition V) {s} (h : s.status.isTerminal) :
    ∃ e, t.next s = .error e := by
  obtain ⟨_,status,_,_⟩ := s
  cases status <;> cases h <;> cases t <;> exact ⟨_,rfl⟩

end

variable {V : Type}

def InMemoryTaskStore.states (store : InMemoryTaskStore V) : TaskStates V :=
  fun taskId => (store.lookup taskId).map OrchestrationTaskRecord.state

theorem states_put (store : InMemoryTaskStore V) (taskId : String) (r : OrchestrationTaskRecord V) :
    InMemoryTaskStore.states (store.put taskId r) =
      Function.update store.states taskId (some r.state) := by
  funext k
  by_cases hk : k = taskId
  · subst hk
    simp [InMemoryTaskStore.states]
  · simp [InMemoryTaskStore.states,Map.lookup_put,Ne.symm hk,hk]

theorem perform_serve {store : InMemoryTaskStore V} {now : Nat} {call : TaskCall V} :
    (store.perform now call).1.map TaskAnswer.view = (call.serve store.states).1.map call.view ∧
    InMemoryTaskStore.states (store.perform now call).2 = (call.serve store.states).2 := by
  cases call with
  | insert spec =>
    have hs : (store.states spec.taskId).isSome = (store.lookup spec.taskId).isSome := by
      simp [InMemoryTaskStore.states]
    simp only [InMemoryTaskStore.perform,InMemoryTaskStore.insert,TaskCall.serve,hs]
    split
    · exact ⟨rfl,rfl⟩
    · exact ⟨rfl,states_put store _ _⟩
  | modify taskId t =>
    simp only [InMemoryTaskStore.perform,InMemoryTaskStore.withTask,TaskCall.serve]
    cases hl : store.lookup taskId with
    | none =>
      have hs : store.states taskId = none := by simp [InMemoryTaskStore.states,hl]
      rw [hs]
      exact ⟨rfl,rfl⟩
    | some r =>
      have hs : store.states taskId = some r.state := by simp [InMemoryTaskStore.states,hl]
      rw [hs]
      cases ha : t.apply now r with
      | error =>
        simp only [ha,next_of_apply_error ha]
        exact ⟨rfl,trivial⟩
      | ok x =>
        obtain ⟨a,_⟩ := x
        simp only [ha,next_of_apply ha]
        refine ⟨?_,states_put store _ _⟩
        rw [Except.map,Except.map,apply_view ha]
        rfl

end Tasks
