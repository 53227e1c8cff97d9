import TinyAgents.StorageKit.Repo

namespace Session

open Interaction StorageKit

inductive TurnLifecycle where
  | started
  | streaming
  | interrupted
  | completed
  deriving DecidableEq

inductive TurnPhase where
  | thinking
  | toolUse
  | subagent
  deriving DecidableEq

structure TurnState where
  threadId : String
  requestId : String
  lifecycle : TurnLifecycle
  phase : Option TurnPhase
  activeTool : Option String
  activeSubagent : Option String
  startedAt : String
  updatedAt : String
  deriving DecidableEq

def TurnLifecycle.terminal : TurnLifecycle → Bool
  | .interrupted | .completed => true
  | .started | .streaming => false

def isTerminal (state : TurnState) : Bool :=
  state.lifecycle.terminal

namespace TurnStates

def completedRetention : Nat := 20

structure Support (B : Type) where
  id : String → String → Except StorageError String
  encode : TurnState → Except StorageError B
  decode : B → Except StorageError TurnState
  parseRfc3339 : String → Option Int
  display : StorageError → String
  lifecycle_decode : ∀ state body turn, encode state = .ok body → decode body = .ok turn →
    turn.lifecycle = state.lifecycle

inductive TurnCall where
  | put (state : TurnState)
  | putUnlessCompleted (state : TurnState)
  | settleTurn (threadId requestId : String) (lifecycle : TurnLifecycle) (now : String)
  | markAllInterrupted (now : String)
  deriving DecidableEq

inductive TurnReply where
  | put
  | putUnlessCompleted (wrote : Bool)
  | settleTurn (settled : Bool)
  | markAllInterrupted (count : Nat)
  deriving DecidableEq

abbrev TurnWorld (B : Type) := String → Cell B

-- A write names the call it is made for. The store never looks at it.
inductive TurnOp (B : Type) where
  | declare
  | get (id : String)
  | put (call : TurnCall) (id : String) (precondition : Option Precondition) (body : B)
  | query (thread : Option String)
  | delete (id : String) (version : Nat)

abbrev TurnAns (B : Type) : TurnOp B → Type
  | .declare => Except StorageError Unit
  | .get _ => Except StorageError (Option (Versioned B))
  | .put _ _ _ _ => Except StorageError Nat
  | .query _ => Except StorageError (List (String × Versioned B))
  | .delete _ _ => Except StorageError Bool

variable {B : Type}

def Meets (cell : Cell B) (precondition : Option Precondition) : Prop :=
  ∀ p ∈ precondition, cell.Meets p

-- A write may be lost, or done and its answer lost. A conflict says that it was not done.
def TurnOutcome : (op : TurnOp B) → TurnWorld B → TurnAns B op → TurnWorld B → Prop
  | .declare, w, _, w' => w' = w
  | .get id, w, x, w' => w' = w ∧ ((∃ e, x = .error e) ∨ x = .ok (w id).current)
  | .put _ id precondition body, w, x, w' =>
    ((∃ e, x = .error e) ∧ w' = w) ∨
      Meets (w id) precondition ∧ w' = Function.update w id ((w id).write body) ∧
        (x = .ok (w id).next ∨ ∃ e, e ≠ .conflict ∧ x = .error e)
  | .query _, w, x, w' => w' = w ∧ ∀ listed, x = .ok listed → ∀ entry ∈ listed,
      entry.2.version < (w entry.1).next ∧
        ∀ y ∈ (w entry.1).current, y.version = entry.2.version → y = entry.2
  | .delete id version, w, x, w' =>
    (((∃ e, x = .error e) ∨ x = .ok false) ∧ w' = w) ∨
      (w id).Meets (.version version) ∧ w' = Function.update w id (w id).delete ∧
        (x = .ok true ∨ ∃ e, e ≠ .conflict ∧ x = .error e)

variable (support : Support B) (attempts : Nat)

abbrev TurnTask (B : Type) (α : Type) := Fallible (TurnOp B) (TurnAns B) StorageError α

def compareRfc3339 (left right : String) : Ordering :=
  match support.parseRfc3339 left, support.parseRfc3339 right with
  | some l, some r => compare l r
  | _, _ => compare left right

def completedNewestFirst (a b : TurnState) : Ordering :=
  (compareRfc3339 support b.updatedAt a.updatedAt).then
    (compareRfc3339 support b.startedAt a.startedAt)

def declared : TurnTask B Unit := ExceptT.mk (.perform TurnOp.declare)

variable (call : TurnCall)

def port (id : String) : Port (TurnOp B) (TurnAns B) B where
  get := .perform (TurnOp.get id)
  put := fun precondition body => .perform (TurnOp.put call id (some precondition) body)

def decode (stored : String × Versioned B) : Except StorageError (String × Versioned TurnState) :=
  match support.decode stored.2.doc with
  | .ok turn => .ok (stored.1,⟨turn,stored.2.version⟩)
  | .error e => .error (.serialization
      ("turn state " ++ stored.1 ++ " is unreadable: " ++ support.display e))

def query (thread : Option String) : TurnTask B (List (String × Versioned TurnState)) := do
  declared
  let listed ← ExceptT.mk (.perform (TurnOp.query thread))
  Fallible.ofExcept (listed.mapM (decode support))

variable (state : TurnState)

def write : TurnTask B Unit := do
  declared
  let id ← Fallible.ofExcept (support.id state.threadId state.requestId)
  let body ← Fallible.ofExcept (support.encode state)
  let _ ← ExceptT.mk (.perform (TurnOp.put (.put state) id none body))

def deleteStale : List (String × Versioned TurnState) → TurnTask B Unit
  | [] => return ()
  | (id,stale) :: rest => ExceptT.mk do
    match ← Program.perform (TurnOp.delete id stale.version) with
    | .ok _ | .error .conflict => (deleteStale rest).run
    | .error e => return .error e

def pruneCompleted (threadId : String) : TurnTask B Unit := do
  let listed ← query support (some threadId)
  let completed := listed.filter fun stored => stored.2.doc.lifecycle = .completed
  let sorted := completed.mergeSort fun a b => completedNewestFirst support a.2.doc b.2.doc != .gt
  deleteStale (sorted.drop completedRetention)

def changed (change : TurnState → Option TurnState) (applied : Option TurnState) :
    Option B → Except StorageError (Option B × Option TurnState)
  | none => .ok (none,applied)
  | some current =>
    match support.decode current with
    | .error e => .error e
    | .ok turn =>
      match change turn with
      | none => .ok (none,applied)
      | some next => (support.encode next).map fun body => (some body,some next)

def update (threadId requestId : String) (change : TurnState → Option TurnState) :
    TurnTask B (Option TurnState) := do
  declared
  let id ← Fallible.ofExcept (support.id threadId requestId)
  let (_,applied) ← Repo.update (port call id) attempts
    (fun applied current => Fallible.ofExcept (changed support change applied current)) none
  return applied

def interrupted (now : String) (turn : TurnState) : Option TurnState :=
  if isTerminal turn then none
  else some { turn with
    lifecycle := .interrupted, updatedAt := now, activeTool := none, activeSubagent := none }

def settled (lifecycle : TurnLifecycle) (now : String) (turn : TurnState) : Option TurnState :=
  if isTerminal turn then none
  else some { turn with
    lifecycle := lifecycle, phase := none, activeTool := none, activeSubagent := none
    updatedAt := now }

def put : TurnTask B Unit := do
  write support state
  if state.lifecycle = .completed then pruneCompleted support state.threadId

def unlessCompleted : Option B → Except StorageError (Option B × Bool)
  | none => (support.encode state).map fun body => (some body,false)
  | some current =>
    match support.decode current with
    | .error e => .error e
    | .ok turn =>
      if turn.lifecycle = .completed then .ok (none,true)
      else (support.encode state).map fun body => (some body,false)

def putUnlessCompleted (state : TurnState) : TurnTask B Bool := do
  declared
  let id ← Fallible.ofExcept (support.id state.threadId state.requestId)
  let (written,declined) ← Repo.update (port (.putUnlessCompleted state) id) attempts
    (fun (_ : Bool) current => Fallible.ofExcept (unlessCompleted support state current)) false
  if declined || written.isNone then return false
  if state.lifecycle = .completed then pruneCompleted support state.threadId
  return true

def settleTurn (threadId requestId : String) (lifecycle : TurnLifecycle) (now : String) :
    TurnTask B Bool := do
  let applied ← update support attempts (.settleTurn threadId requestId lifecycle now) threadId
    requestId (settled lifecycle now)
  if applied.isSome ∧ lifecycle = .completed then pruneCompleted support threadId
  return applied.isSome

def markListed (now : String) : List (String × Versioned TurnState) → Nat → TurnTask B Nat
  | [], count => return count
  | (_,stored) :: rest, count =>
    if isTerminal stored.doc then markListed now rest count
    else do
      let applied ← update support attempts (.markAllInterrupted now) stored.doc.threadId
        stored.doc.requestId (interrupted now)
      markListed now rest (if applied.isSome then count+1 else count)

def markAllInterrupted (now : String) : TurnTask B Nat := do
  let listed ← query support none
  markListed support attempts now listed 0

def task : TurnCall → TurnTask B TurnReply
  | .put state => do
    put support state
    return .put
  | .putUnlessCompleted state => do
    let wrote ← putUnlessCompleted support attempts state
    return .putUnlessCompleted wrote
  | .settleTurn threadId requestId lifecycle now => do
    let settled ← settleTurn support attempts threadId requestId lifecycle now
    return .settleTurn settled
  | .markAllInterrupted now => do
    let count ← markAllInterrupted support attempts now
    return .markAllInterrupted count

abbrev TurnResult := Except String TurnReply

def code : Program (TurnOp B) (TurnAns B) TurnResult := do
  let result ← (task support attempts call).run
  return result.mapError support.display

def machine : Machine TurnCall (TurnOp B) (TurnAns B) (TurnWorld B) TurnResult where
  code := code support attempts
  outcome := fun _ => TurnOutcome

end TurnStates

end Session
