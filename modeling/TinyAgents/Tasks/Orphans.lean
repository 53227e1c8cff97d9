import Mathlib.Data.List.Sort
import TinyAgents.Interaction.Driver
import TinyAgents.Interaction.Exchanges
import TinyAgents.Tasks.Lifecycle

namespace Tasks

open Interaction

variable {V : Type}

section

inductive ReconcileOutcome where
  | cancelled
  | failed
  | error (message : String)
  deriving DecidableEq

structure ReconciledTask (V : Type) where
  taskId : String
  priorStatus : OrchestrationTaskStatus
  outcome : ReconcileOutcome
  record : OrchestrationTaskRecord V
  recordedReason : Option String

def LifecycleError.toString : LifecycleError → String
  | .graph message => "graph error: "++message
  | .duplicateComponent message => "duplicate component: "++message

def InMemoryTaskStore.list (store : InMemoryTaskStore V) (keep : OrchestrationTaskRecord V → Bool) :
    List (OrchestrationTaskRecord V) :=
  ((store.entries.map Prod.snd).filter keep).insertionSort fun a b => a.spec.taskId ≤ b.spec.taskId

-- Each call holds the store's lock for its whole time.
inductive StoreOp (V : Type) where
  | list (keep : OrchestrationTaskRecord V → Bool)
  | perform (call : TaskCall V)

abbrev StoreAns : StoreOp V → Type
  | .list _ => List (OrchestrationTaskRecord V)
  | .perform _ => Except LifecycleError (TaskAnswer V)

def StoreOutcome : (op : StoreOp V) → InMemoryTaskStore V → StoreAns op → InMemoryTaskStore V → Prop
  | .list keep, store, x, store' => x = store.list keep ∧ store' = store
  | .perform call, store, x, store' => ∃ now, store.perform now call = (x,store')

variable (reason : OrchestrationTaskRecord V → String)

def settleOrphan (record : OrchestrationTaskRecord V) :
    Program (StoreOp V) StoreAns (ReconciledTask V) :=
  let taskId := record.spec.taskId
  if record.status = .cancelRequested then do
    let outcome ← Program.perform (StoreOp.perform (.modify taskId .markCancelled))
    match outcome with
    | .ok _ => return ⟨taskId,record.status,.cancelled,record,none⟩
    | .error e => return ⟨taskId,record.status,.error e.toString,record,none⟩
  else do
    let text := reason record
    let outcome ← Program.perform (StoreOp.perform (.modify taskId (.fail text)))
    match outcome with
    | .ok _ => return ⟨taskId,record.status,.failed,record,some text⟩
    | .error e => return ⟨taskId,record.status,.error e.toString,record,none⟩

def settleOrphans :
    List (OrchestrationTaskRecord V) → Program (StoreOp V) StoreAns (List (ReconciledTask V))
  | [] => return []
  | record :: orphans => do
    let task ← settleOrphan reason record
    let tasks ← settleOrphans orphans
    return task :: tasks

def reconcileOrphanedTasks (keep : OrchestrationTaskRecord V → Bool)
    (reason : OrchestrationTaskRecord V → String) :
    Program (StoreOp V) StoreAns (List (ReconciledTask V)) := do
  let records ← Program.perform (StoreOp.list keep)
  settleOrphans reason (records.filter fun record => record.status.isLive)

inductive StoreCall (V : Type) where
  | reconcile (keep : OrchestrationTaskRecord V → Bool)
      (reason : OrchestrationTaskRecord V → String)
  | operate (call : TaskCall V)

inductive StoreReply (V : Type) where
  | report (tasks : List (ReconciledTask V))
  | answer (x : Except LifecycleError (TaskAnswer V))

def storeMachine (V : Type) :
    Machine (StoreCall V) (StoreOp V) StoreAns (InMemoryTaskStore V) (StoreReply V) where
  code
    | .reconcile keep reason => do return .report (← reconcileOrphanedTasks keep reason)
    | .operate call => do return .answer (← Program.perform (StoreOp.perform call))
  outcome := fun _ => StoreOutcome

end

namespace ReconciledTask

def Truthful (task : ReconciledTask V) (store store' : InMemoryTaskStore V) : Prop :=
  match task.outcome with
  | .failed => ∃ r ∈ store'.lookup task.taskId, r.status = .failed ∧ r.error = task.recordedReason
  | .cancelled => ∃ r ∈ store'.lookup task.taskId, r.status = .cancelled
  | .error _ => store' = store

-- The cancellation came after the listing.
def Overtaken (task : ReconciledTask V) (store : InMemoryTaskStore V) : Prop :=
  task.priorStatus ≠ .cancelRequested ∧
    ∃ r ∈ store.lookup task.taskId, r.status = .cancelRequested

end ReconciledTask

abbrev StoreExchange (V : Type) := Exchange (StoreOp V) StoreAns (InMemoryTaskStore V)

structure Settled (task : ReconciledTask V) (e : StoreExchange V) : Prop where
  op : ∃ t, e.op = .perform (.modify task.taskId t)
  truthful : task.Truthful e.before e.after ↔ ¬ task.Overtaken e.before

section

variable {store store' : InMemoryTaskStore V} {now : Nat} {taskId text : String} {a : TaskAnswer V}
  {r r' : OrchestrationTaskRecord V} {reason : OrchestrationTaskRecord V → String}

theorem modify_cases {t} {x} (h : StoreOutcome (.perform (.modify taskId t)) store x store') :
    (∃ e, x = .error e ∧ store' = store ∧
      ∀ r ∈ store.lookup taskId, ∃ now e, t.apply now r = .error e) ∨
    ∃ now a r r', x = .ok a ∧ store.lookup taskId = some r ∧ t.apply now r = .ok (a,r') ∧
    store'.lookup taskId = some r' := by
  obtain ⟨now,h⟩ := h
  simp only [InMemoryTaskStore.perform,InMemoryTaskStore.withTask] at h
  cases hl : store.lookup taskId with
  | none =>
    simp only [hl] at h
    cases h
    exact .inl ⟨_,rfl,rfl,by simp⟩
  | some r =>
    cases ha : t.apply now r with
    | error e =>
      simp only [hl,ha] at h
      cases h
      exact .inl ⟨e,rfl,rfl,fun _ hr => ⟨now,e,Option.mem_some.1 hr ▸ ha⟩⟩
    | ok y =>
      obtain ⟨a,r'⟩ := y
      simp only [hl,ha] at h
      cases h
      exact .inr ⟨now,a,r,r',rfl,rfl,ha,Map.lookup_put_self _ _ _⟩

theorem markCancelled_ok (h : Transition.markCancelled.apply now r = .ok (a,r')) :
    r'.status = .cancelled := by
  obtain ⟨_,status,_,_,_,_,_,_⟩ := r
  cases status <;> cases h
  rfl

theorem fail_ok (h : (Transition.fail text).apply now r = .ok (a,r')) :
    if r.status = .cancelRequested then r'.status = .cancelled else r'.status = .failed ∧
    r'.error = some text := by
  obtain ⟨_,status,_,_,_,_,_,_⟩ := r
  cases status <;> cases h <;> simp

variable {es : List (StoreExchange V)}

theorem recorded_settleOrphan :
    Safe (recording fun e => StoreOutcome e.op e.before e.answer e.after)
      (fun task es' => ∃ e, es' = e :: es ∧ Settled task e) (settleOrphan reason r) es := by
  unfold settleOrphan
  dsimp only
  split
  next hc =>
    refine recording_perform fun store x store' h => ?_
    rcases modify_cases h with ⟨e,rfl,hs,-⟩ | ⟨now,a,_,r',rfl,-,ha,hl⟩
    · exact recording_ret ⟨_,rfl,⟨_,rfl⟩,iff_of_true hs fun h => h.1 hc⟩
    · exact recording_ret ⟨_,rfl,⟨_,rfl⟩,iff_of_true ⟨r',hl,markCancelled_ok ha⟩ fun h => h.1 hc⟩
  next hc =>
    refine recording_perform fun store x store' h => ?_
    rcases modify_cases h with ⟨e,rfl,hs,hno⟩ | ⟨now,a,found,r',rfl,hfound,ha,hl⟩
    · refine recording_ret ⟨_,rfl,⟨_,rfl⟩,iff_of_true hs ?_⟩
      rintro ⟨-,found,hfound,hstatus⟩
      obtain ⟨_,e,he⟩ := hno found hfound
      obtain ⟨_,_,_,_,_,_,_,_⟩ := found
      cases hstatus
      cases he
    · refine recording_ret ⟨_,rfl,⟨_,rfl⟩,?_⟩
      have hok := fail_ok ha
      constructor
      · rintro ⟨_,hr,hfailed,-⟩ ⟨-,_,hstored,hstatus⟩
        cases Option.mem_unique hr hl
        cases Option.mem_unique hstored hfound
        rw [if_pos hstatus,hfailed] at hok
        cases hok
      · intro hnot
        rw [if_neg fun hstatus => hnot ⟨hc,found,hfound,hstatus⟩] at hok
        exact ⟨r',hl,hok⟩

theorem recorded_settleOrphans {orphans} :
    Safe (recording fun e => StoreOutcome e.op e.before e.answer e.after)
      (fun tasks es' => ∃ new, es' = new.reverse++es ∧ List.Forall₂ Settled tasks new)
      (settleOrphans reason orphans) es := by
  induction orphans generalizing es with
  | nil => exact recording_ret ⟨[],rfl,.nil⟩
  | cons _ _ ih =>
    refine safe_bind ?_ recorded_settleOrphan
    rintro _ _ ⟨e,rfl,he⟩
    refine safe_bind ?_ ih
    rintro _ _ ⟨new,rfl,hnew⟩
    exact recording_ret ⟨e :: new,by simp,.cons he hnew⟩

theorem report_truthful_iff {w : InMemoryTaskStore V} {i : Nat}
    {keep : OrchestrationTaskRecord V → Bool} {tasks : List (ReconciledTask V)} {ms ns m d}
    (h : (storeMachine V).Run (.idle w) (ms++m :: ns) d)
    (hm : m.event = .finish i (.reconcile keep reason) (.report tasks)) :
    List.Forall₂ Settled tasks (own i ms).reverse.tail := by
  refine h.finish_own (Q := fun call reply es => match call, reply with
    | .reconcile _ _, .report tasks => List.Forall₂ Settled tasks es.reverse.tail
    | _, _ => True) (fun call => ?_) hm
  cases call with
  | operate => exact recording_true
  | reconcile =>
    refine recording_perform fun _ _ _ _ => safe_bind ?_ recorded_settleOrphans
    rintro _ _ ⟨_,rfl,hnew⟩
    exact recording_ret (by simpa using hnew)

end

def storeDriver : Driver (StoreOp V) StoreAns (InMemoryTaskStore V) where
  perform := fun _ op store => match op with
    | .list keep => some (store.list keep,store)
    | .perform call => some (store.perform 0 call)

theorem storeDriver_fits : (storeDriver (V := V)).Fits (storeMachine V) where
  perform := by
    rintro i (_ | _) w x _ h
    · obtain ⟨hx,hw⟩ := Prod.mk.inj (Option.some.inj h)
      exact ⟨hx.symm,hw.symm⟩
    · exact ⟨0,Option.some.inj h⟩

def oneRunning : InMemoryTaskStore Unit :=
  Map.put .empty "t"
    { OrchestrationTaskRecord.pending 0 ⟨"t",.tool "x",none⟩ with status := .running }

def sweep : StoreCall Unit := .reconcile (fun _ => true) fun _ => "executor lost"

def reportsOne : Option (StoreCall V × Program (StoreOp V) StoreAns (StoreReply V)) → Bool
  | some (.reconcile _ _,.ret (.report [_])) => true
  | _ => false

theorem report_truthful_iff_alone :
    ∃ ms d task, (storeMachine Unit).Run (.idle oneRunning) ms d ∧
    List.Forall₂ Settled [task] (own 0 ms).reverse.tail := by
  obtain ⟨ms,d,h,hc⟩ := Driver.drive_any storeDriver_fits [.start 0 sweep,.act 0 2]
    (.idle oneRunning) (fun _ d => reportsOne (d.thread 0) = true) (by decide +kernel)
  unfold reportsOne at hc
  split at hc
  next ht => exact ⟨ms,d,_,h,report_truthful_iff (h.snoc (.finish ht)) rfl⟩
  · cases hc

def reported (ms : List (Moment (StoreCall V) (StoreOp V) StoreAns (InMemoryTaskStore V)
    (StoreReply V))) : List (String × ReconcileOutcome × Option String) :=
  ms.flatMap fun m => match m.event with
    | .finish _ _ (.report tasks) => tasks.map fun t => (t.taskId,t.outcome,t.recordedReason)
    | _ => []

theorem cancelled_reported_failed :
    ∃ ms d, (storeMachine Unit).Run (.idle oneRunning) ms d ∧
    reported ms = [("t",.failed,some "executor lost")] ∧
    (d.world.lookup "t").map (fun r => (r.status,r.error)) = some (.cancelled,none) := by
  obtain ⟨ms,d,h,hc⟩ := Driver.drive_any storeDriver_fits
    [.start 0 sweep,.act 0 1,.start 1 (.operate (.modify "t" .requestCancel)),.complete 1 2,
      .complete 0 2] (.idle oneRunning)
    (fun ms d => reported ms = [("t",.failed,some "executor lost")] ∧
      (d.world.lookup "t").map (fun r => (r.status,r.error)) = some (.cancelled,none))
    (by decide +kernel)
  exact ⟨ms,d,h,hc⟩

end Tasks
