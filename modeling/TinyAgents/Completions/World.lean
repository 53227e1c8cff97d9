import TinyAgents.Interaction.Driver
import TinyAgents.Completions.Store

namespace Completions

open Interaction Function

structure ParentLifecycleEntry where
  -- the thread whose guard holds the entry; the code keeps only whether there is one
  held : Option Nat := none
  status : Option ParentLifecycleStatus := none

structure RouterState where
  leased : List String := []
  activeReceipts : Table CompletionReceipt.taskId := .empty
  parents : List String := []

structure RouterCell where
  locked : Bool := false
  state : RouterState := {}

structure World where
  store : Store
  now : Nat := 0
  uuids : Nat → Nat := fun _ => 0
  lifecycles : Nat → String → ParentLifecycleEntry := fun _ _ => {}
  routers : Nat → RouterCell := fun _ => {}

-- The call site of a fenced write, and the record it read there. The store never looks at it.
inductive WriteSite where
  | suppress (seen : CompletionRecord)
  | reserve
  | withdraw (seen : CompletionRecord)
  | upgrade (seen : CompletionRecord)
  | enrol
  | restore
  | close
  | resume

inductive Op where
  | lockRouter (router : Nat)
  | unlockRouter (router : Nat)
  | updateRouter (router : Nat) (f : RouterState → RouterState)
  | newUuid
  | clock
  | acquireParentGate (parentKey : String) (holder : Uuid)
  | renewParentGate (parentKey : String) (claim : ParentGateClaim)
  | releaseParentGate (parentKey : String) (claim : ParentGateClaim)
  | acquireLocal (lifecycle : Nat) (parentKey : String)
  | releaseLocal (lifecycle : Nat) (parentKey : String)
  | localStatus (lifecycle : Nat) (parentKey : String)
  | setLocalStatus (lifecycle : Nat) (parentKey : String) (status : ParentLifecycleStatus)
  | isProcessLocal
  | get (taskId : String)
  | tryGet (taskId : String)
  | list (parentKey : Option String)
  | tryList (parentKey : Option String)
  | putFenced (site : WriteSite) (record : CompletionRecord) (parentKey : String)
      (gate : ParentGateClaim)
  | insertIfAbsent (record : CompletionRecord) (gate : ParentGateClaim)
  | claimPending (request : PendingClaimRequest)
  | claimTask (request : TaskClaimRequest)
  | resolveClaim (request : ResolveClaimRequest)
  | compact (retain : Nat)
  | handOff (parentKey : String) (parentEpoch : Nat) (gate : ParentGateClaim)

abbrev Ans : Op → Type
  | .lockRouter _ => Unit
  | .unlockRouter _ => Unit
  | .updateRouter _ _ => RouterState
  | .newUuid => Uuid
  | .clock => Nat
  | .acquireParentGate _ _ => Except Fault ParentGateClaim
  | .renewParentGate _ _ => Except Fault Bool
  | .releaseParentGate _ _ => Except Fault Bool
  | .acquireLocal _ _ => Except Fault Unit
  | .releaseLocal _ _ => Unit
  | .localStatus _ _ => Except Fault (Option ParentLifecycleStatus)
  | .setLocalStatus _ _ _ => Except Fault Unit
  | .isProcessLocal => Bool
  | .get _ => Option CompletionRecord
  | .tryGet _ => Except Fault (Option CompletionRecord)
  | .list _ => List CompletionRecord
  | .tryList _ => Except Fault (List CompletionRecord)
  | .putFenced _ _ _ _ => Except Fault Unit
  | .insertIfAbsent _ _ => Except Fault Bool
  | .claimPending _ => Except Fault (List CompletionRecord)
  | .claimTask _ | .resolveClaim _ => Except Fault (Option CompletionRecord)
  | .compact _ => Except Fault Nat
  | .handOff _ _ _ => Unit

namespace World

variable (w : World)

def setStore (s : Store) : World :=
  { w with store := s }

def setRouter (router : Nat) (cell : RouterCell) : World :=
  { w with routers := update w.routers router cell }

def entry (lifecycle : Nat) (parentKey : String) : ParentLifecycleEntry :=
  w.lifecycles lifecycle parentKey

def setEntry (lifecycle : Nat) (parentKey : String) (e : ParentLifecycleEntry) : World :=
  let entries := update (w.lifecycles lifecycle) parentKey e
  { w with lifecycles := update w.lifecycles lifecycle entries }

def get (w : World) (taskId : String) : Option CompletionRecord :=
  w.store.records.get taskId

end World

variable {α : Type}

def Attempted (w : World) (result : Except Fault (α × Store)) (x : Except Fault α) (w' : World) :
    Prop :=
  (∃ e, x = .error e ∧ w' = w) ∨ ∃ a s, result = .ok (a,s) ∧ x = .ok a ∧ w' = w.setStore s

def Answered (w : World) (a : α) (x : Except Fault α) (w' : World) : Prop :=
  w' = w ∧ ((∃ e, x = .error e) ∨ x = .ok a)

def Outcome (i : Nat) : (op : Op) → World → Ans op → World → Prop
  | .lockRouter router, w, _, w' =>
    (w.routers router).locked = false ∧
      w' = w.setRouter router { w.routers router with locked := true }
  | .unlockRouter router, w, _, w' =>
    w' = w.setRouter router { w.routers router with locked := false }
  | .updateRouter router f, w, x, w' =>
    x = (w.routers router).state ∧
      w' = w.setRouter router { w.routers router with state := f (w.routers router).state }
  | .newUuid, w, x, w' =>
    x = (i,w.uuids i) ∧ w' = { w with uuids := update w.uuids i (w.uuids i+1) }
  | .clock, w, x, w' => x = w.now ∧ w' = w
  | .acquireParentGate parentKey holder, w, x, w' =>
    (∃ e, x = .error e ∧ w' = w) ∨ ∃ claim s,
      w.store.acquireParentGate parentKey holder w.now = .ok (some claim,s) ∧
        x = .ok claim ∧ w' = w.setStore s
  | .renewParentGate parentKey claim, w, x, w' =>
    Attempted w (.ok (w.store.renewParentGate parentKey claim w.now)) x w'
  | .releaseParentGate parentKey claim, w, x, w' =>
    Attempted w (.ok (w.store.releaseParentGate parentKey claim w.now)) x w'
  | .acquireLocal lifecycle parentKey, w, x, w' =>
    (∃ e, x = .error e ∧ w' = w) ∨ (w.entry lifecycle parentKey).held = none ∧ x = .ok () ∧
      w' = w.setEntry lifecycle parentKey { w.entry lifecycle parentKey with held := some i }
  | .releaseLocal lifecycle parentKey, w, _, w' =>
    w' = w.setEntry lifecycle parentKey { w.entry lifecycle parentKey with held := none }
  | .localStatus lifecycle parentKey, w, x, w' =>
    Answered w (w.entry lifecycle parentKey).status x w'
  | .setLocalStatus lifecycle parentKey status, w, x, w' =>
    (∃ e, x = .error e ∧ w' = w) ∨
      (w.entry lifecycle parentKey).held.isSome ∧ x = .ok () ∧
        w' = w.setEntry lifecycle parentKey
          { w.entry lifecycle parentKey with status := some status }
  | .isProcessLocal, w, x, w' => x = w.store.processLocal ∧ w' = w
  | .get taskId, w, x, w' =>
    w' = w ∧ (x = w.get taskId ∨ w.store.processLocal = false ∧ x = none)
  | .tryGet taskId, w, x, w' => Answered w (w.get taskId) x w'
  | .list parentKey, w, x, w' =>
    w' = w ∧ (x.Perm (w.store.listed parentKey) ∨ x = [])
  | .tryList parentKey, w, x, w' =>
    w' = w ∧ ((∃ e, x = .error e) ∨ ∃ l, l.Perm (w.store.listed parentKey) ∧ x = .ok l)
  | .putFenced _ record parentKey gate, w, x, w' =>
    Attempted w (w.store.putFenced record parentKey gate w.now) x w'
  | .insertIfAbsent record gate, w, x, w' =>
    Attempted w (w.store.insertIfAbsent record gate w.now) x w'
  | .claimPending request, w, x, w' =>
    Attempted w (w.store.claimPending request w.now) x w'
  | .claimTask request, w, x, w' =>
    Attempted w (w.store.claimTask request w.now) x w'
  | .resolveClaim request, w, x, w' =>
    Attempted w (w.store.resolveClaim request w.now) x w'
  | .compact retain, w, x, w' =>
    Attempted w (.ok (w.store.compact retain w.now)) x w'
  | .handOff _ _ _, w, _, w' => w' = w

def tryStore (w : World) : Except Fault (α × Store) → Option (Except Fault α × World)
  | .ok (a,s) => some (.ok a,w.setStore s)
  | .error e => some (.error e,w)

def perform (i : Nat) : (op : Op) → (w : World) → Option (Ans op × World)
  | .lockRouter router, w =>
    if (w.routers router).locked then none
    else some ((),w.setRouter router { w.routers router with locked := true })
  | .unlockRouter router, w =>
    some ((),w.setRouter router { w.routers router with locked := false })
  | .updateRouter router f, w =>
    some ((w.routers router).state,
      w.setRouter router { w.routers router with state := f (w.routers router).state })
  | .newUuid, w =>
    some ((i,w.uuids i),{ w with uuids := update w.uuids i (w.uuids i+1) })
  | .clock, w => some (w.now,w)
  | .acquireParentGate parentKey holder, w =>
    match w.store.acquireParentGate parentKey holder w.now with
    | .ok (some claim,s) => some (.ok claim,w.setStore s)
    | .ok (none,_) => none
    | .error e => some (.error e,w)
  | .renewParentGate parentKey claim, w =>
    tryStore w (.ok (w.store.renewParentGate parentKey claim w.now))
  | .releaseParentGate parentKey claim, w =>
    tryStore w (.ok (w.store.releaseParentGate parentKey claim w.now))
  | .acquireLocal lifecycle parentKey, w =>
    if (w.entry lifecycle parentKey).held.isSome then none
    else some (.ok (),w.setEntry lifecycle parentKey
      { w.entry lifecycle parentKey with held := some i })
  | .releaseLocal lifecycle parentKey, w =>
    some ((),w.setEntry lifecycle parentKey { w.entry lifecycle parentKey with held := none })
  | .localStatus lifecycle parentKey, w => some (.ok (w.entry lifecycle parentKey).status,w)
  | .setLocalStatus lifecycle parentKey status, w =>
    if (w.entry lifecycle parentKey).held.isSome then
      some (.ok (),w.setEntry lifecycle parentKey
        { w.entry lifecycle parentKey with status := some status })
    else some (.error .guardNotHeld,w)
  | .isProcessLocal, w => some (w.store.processLocal,w)
  | .get taskId, w => some (w.get taskId,w)
  | .tryGet taskId, w => some (.ok (w.get taskId),w)
  | .list parentKey, w => some (w.store.listed parentKey,w)
  | .tryList parentKey, w => some (.ok (w.store.listed parentKey),w)
  | .putFenced _ record parentKey gate, w =>
    tryStore w (w.store.putFenced record parentKey gate w.now)
  | .insertIfAbsent record gate, w => tryStore w (w.store.insertIfAbsent record gate w.now)
  | .claimPending request, w => tryStore w (w.store.claimPending request w.now)
  | .claimTask request, w => tryStore w (w.store.claimTask request w.now)
  | .resolveClaim request, w => tryStore w (w.store.resolveClaim request w.now)
  | .compact retain, w => tryStore w (.ok (w.store.compact retain w.now))
  | .handOff _ _ _, w => some ((),w)

def refuse : (op : Op) → Option (Ans op)
  | .acquireParentGate _ _ | .renewParentGate _ _ | .releaseParentGate _ _ | .tryGet _
  | .tryList _ | .putFenced _ _ _ _ | .insertIfAbsent _ _ | .claimPending _ | .claimTask _
  | .resolveClaim _ | .compact _ => some (.error .store)
  | _ => none

def driver : Driver Op Ans World where
  perform := perform
  refuse := refuse
  tick := fun t w => { w with now := t }

theorem tryStore_attempted {w w' : World} {result} {x : Except Fault α}
    (h : tryStore w result = some (x,w')) : Attempted w result x w' := by
  cases result with
  | ok p =>
    cases h
    exact .inr ⟨p.1,p.2,rfl,rfl,rfl⟩
  | error e =>
    cases h
    exact .inl ⟨e,rfl,rfl⟩

theorem perform_outcome {i : Nat} {op : Op} {w w' : World} {x : Ans op}
    (h : perform i op w = some (x,w')) : Outcome i op w x w' := by
  cases op with
  | lockRouter =>
    simp only [perform] at h
    split at h
    · cases h
    next hl =>
      cases h
      exact ⟨by simpa using hl,rfl⟩
  | acquireParentGate =>
    simp only [perform] at h
    split at h
    next claim s hs =>
      cases h
      exact .inr ⟨claim,s,hs,rfl,rfl⟩
    · cases h
    next e _ =>
      cases h
      exact .inl ⟨e,rfl,rfl⟩
  | acquireLocal =>
    simp only [perform] at h
    split at h
    · cases h
    next hl =>
      cases h
      exact .inr ⟨by simpa using hl,rfl,rfl⟩
  | setLocalStatus =>
    simp only [perform] at h
    split at h
    next hl =>
      cases h
      exact .inr ⟨hl,rfl,rfl⟩
    · cases h
      exact .inl ⟨_,rfl,rfl⟩
  | renewParentGate | releaseParentGate
  | putFenced | insertIfAbsent | claimPending | claimTask | resolveClaim | compact =>
    exact tryStore_attempted h
  | get =>
    cases h
    exact ⟨rfl,.inl rfl⟩
  | list =>
    cases h
    exact ⟨rfl,.inl (List.Perm.refl _)⟩
  | tryList =>
    cases h
    exact ⟨rfl,.inr ⟨_,List.Perm.refl _,rfl⟩⟩
  | tryGet | localStatus =>
    cases h
    exact ⟨rfl,.inr rfl⟩
  | unlockRouter | releaseLocal | handOff =>
    cases h
    rfl
  | updateRouter | newUuid | clock | isProcessLocal =>
    cases h
    exact ⟨rfl,rfl⟩

theorem refuse_outcome {i : Nat} {op : Op} {w : World} {x : Ans op} (h : refuse op = some x) :
    Outcome i op w x w := by
  cases op <;> cases h
  case tryGet => exact ⟨rfl,.inl ⟨_,rfl⟩⟩
  case tryList => exact ⟨rfl,.inl ⟨_,rfl⟩⟩
  all_goals exact .inl ⟨_,rfl,rfl⟩

end Completions
