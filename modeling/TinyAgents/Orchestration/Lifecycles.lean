import TinyAgents.StorageKit.Keys

namespace Orchestration

open Interaction StorageKit

structure SubagentTaskKey where
  rootRunId : String
  parentRunId : String
  threadId : Option String
  taskId : String
  deriving DecidableEq

structure SubagentResume (H : Type) where
  history : List H := []
  checkpoint : Option String := none
  metadata : List (String × String) := []
  deriving DecidableEq

structure SubagentPause (H : Type) where
  reason : String
  resume : SubagentResume H
  deriving DecidableEq

inductive IncompleteKind where
  | unspecified
  | timeout
  | budgetExceeded
  deriving DecidableEq

structure SubagentIncomplete where
  reason : String
  kind : IncompleteKind := .unspecified
  deriving DecidableEq

inductive SubagentOutcomeKind (H : Type) where
  | completed
  | awaitingInput (pause : SubagentPause H)
  | incomplete (incomplete : SubagentIncomplete)
  | cancelled
  deriving DecidableEq

-- `details` are the fields that the lifecycle hands on without looking at them.
structure SubagentOutcome (H X : Type) where
  taskId : String
  output : String
  history : List H
  status : SubagentOutcomeKind H
  details : X
  deriving DecidableEq

structure PersistedSubagentPause (H X : Type) where
  key : SubagentTaskKey
  outcome : SubagentOutcome H X
  replaces : Option (SubagentResume H)

inductive SubagentPausePersistenceDisposition where
  | inserted
  | replaced
  | existing
  | terminalExisting

inductive SubagentTerminalPersistenceDisposition where
  | inserted
  | existing
  | pauseExisting

structure LifecycleRecord (H X : Type) where
  pause : Option (PersistedSubagentPause H X) := none
  terminal : Option (SubagentOutcome H X) := none

section

variable {H X : Type} [DecidableEq H]

def pauseResume (pause : PersistedSubagentPause H X) : Option (SubagentResume H) :=
  match pause.outcome.status with
  | .awaitingInput state => some state.resume
  | _ => none

namespace LifecycleRecord

variable (record : LifecycleRecord H X)

def loadTerminal : Option (SubagentOutcome H X) :=
  record.terminal

def load : Option (SubagentResume H) :=
  if record.terminal.isSome then none else record.pause.bind pauseResume

def loadPause : Option (SubagentOutcome H X) :=
  if record.terminal.isSome then none
  else (record.pause.filter fun pause => (pauseResume pause).isSome).map (·.outcome)

def matchesPause (replaces : Option (SubagentResume H)) : Bool :=
  match record.pause, replaces with
  | none, none => true
  | some current, some expected => (pauseResume current).any (· = expected)
  | _, _ => false

def savePause (pause : PersistedSubagentPause H X) (record : LifecycleRecord H X) :
    SubagentPausePersistenceDisposition × Option (LifecycleRecord H X) :=
  if record.terminal.isSome then (.terminalExisting,none)
  else if !record.matchesPause pause.replaces then (.existing,none)
  else (if record.pause.isSome then .replaced else .inserted,
    some { record with pause := some pause })

def recordTerminal (outcome : SubagentOutcome H X) (replaces : Option (SubagentResume H)) (record :
    LifecycleRecord H X) : SubagentTerminalPersistenceDisposition × Option (LifecycleRecord H X) :=
  if record.terminal.isSome then (.existing,none)
  else if !record.matchesPause replaces then (.pauseExisting,none)
  else (.inserted,some { pause := none, terminal := some outcome })

def importRecord (pause : Option (PersistedSubagentPause H X)) (terminal : Option
    (SubagentOutcome H X)) (record : LifecycleRecord H X) : Unit × Option (LifecycleRecord H X) :=
  if record.terminal.isSome then ((),none)
  else match terminal with
    | some terminal => ((),some { pause := none, terminal := some terminal })
    | none =>
      if record.pause.isNone && pause.isSome then ((),some { record with pause := pause })
      else ((),none)

end LifecycleRecord

end

def encodedKey (key : SubagentTaskKey) : List Char :=
  joined '-' (hexBytes (bytes key.rootRunId))
    [hexBytes (bytes key.parentRunId),hexBytes (bytes (key.threadId.getD "")),
      hexBytes (bytes key.taskId)]

def keyComponent (codec : KeyCodec) (key : SubagentTaskKey) : String :=
  let encoded := String.ofList (encodedKey key)
  if encoded.utf8ByteSize ≤ 180 then encoded
  else "sha256-"++String.ofList (hexBytes (codec.sha256 (bytes encoded)))

def recordName (component : String) : String := "record/"++component

def documentId (codec : KeyCodec) (name : String) : Except StorageError String :=
  compositeKey codec ["subagents","lifecycle-neutral",name]

def SubagentTaskKey.Alike (k l : SubagentTaskKey) : Prop :=
  k.rootRunId = l.rootRunId ∧ k.parentRunId = l.parentRunId ∧
    k.threadId.getD "" = l.threadId.getD "" ∧ k.taskId = l.taskId

variable {k l : SubagentTaskKey}

theorem encodedKey_inj (h : encodedKey k = encodedKey l) : k.Alike l := by
  have hdash (value : String) : '-' ∉ hexBytes (bytes value) := notMem_hexBytes (by decide)
  have hparts (k : SubagentTaskKey) : ∀ s ∈ hexBytes (bytes k.rootRunId) ::
      [hexBytes (bytes k.parentRunId),hexBytes (bytes (k.threadId.getD "")),
        hexBytes (bytes k.taskId)], '-' ∉ s := by
    simp only [List.forall_mem_cons,hdash,not_false_eq_true,true_and]
    exact nofun
  obtain ⟨hroot,hrest⟩ := joined_inj (hparts k) (hparts l) h
  obtain ⟨hparent,hrest⟩ := List.cons.inj hrest
  obtain ⟨hthread,hrest⟩ := List.cons.inj hrest
  obtain ⟨htask,-⟩ := List.cons.inj hrest
  have hbytes {s t : String} (h : hexBytes (bytes s) = hexBytes (bytes t)) : s = t :=
    bytes_injective (hexBytes_injective h)
  exact ⟨hbytes hroot,hbytes hparent,hbytes hthread,hbytes htask⟩

theorem notMem_encodedKey (key : SubagentTaskKey) : 's' ∉ encodedKey key := by
  have hno value : 's' ∉ hexBytes (bytes value) := notMem_hexBytes (by decide)
  simp [encodedKey,joined,hno]

variable {codec : KeyCodec}

theorem keyComponent_inj (law : codec.Lawful) (h : keyComponent codec k = keyComponent codec l) :
    k.Alike l := by
  have hmixed {key} {digest} (he : String.ofList (encodedKey key) = "sha256-"++digest) : False := by
    refine notMem_encodedKey key ?_
    have hl := congrArg String.toList he
    rw [String.toList_ofList,String.toList_append] at hl
    rw [hl]
    exact List.mem_append_left _ (by decide)
  simp only [keyComponent] at h
  split at h <;> split at h
  · exact encodedKey_inj (String.ofList_injective h)
  · exact (hmixed h).elim
  · exact (hmixed h.symm).elim
  have hdigest := String.ofList_injective ((String.append_right_inj _).1 h)
  have hencoded := bytes_injective (law.sha256 (hexBytes_injective hdigest))
  exact encodedKey_inj (String.ofList_injective hencoded)

end Orchestration
