import TinyAgents.Interaction.Ledger
import TinyAgents.Harness.Summarization
import TinyAgents.Session.MemoryTranscripts
import TinyAgents.Session.MessageLines
import TinyAgents.StorageKit.Leases

namespace Session

open Interaction

variable {N : Type}

section

open Harness.Summarization (rposition)

def isAssistant (m : TranscriptMessage N) : Bool := m.role == "assistant"

variable (messages : List (TranscriptMessage N))

def turnSteps (last : Nat) : List Nat :=
  let turnStart :=
    ((rposition (fun m => m.role == "user") (messages.take last)).map (·+1)).getD 0
  (List.range' turnStart (last-turnStart)).filter fun i =>
    messages[i]?.any fun m => isAssistant m && !m.preserveRequestId

def turnStepStamps (last : Option Nat) (turnUsage : Option (TurnUsage N)) (i : Nat) :
    Option (Nat × String) :=
  match last, turnUsage with
  | some last, some usage =>
    if usage.iteration = 0 ∨ messages[last]?.any TranscriptMessage.preserveRequestId then none
    else
      let steps := turnSteps messages last
      (steps.idxOf? i).map fun k => (max (usage.iteration-(steps.length-k)) 1,usage.ts)
  | _, _ => none

def MessageLine.stamped (line : MessageLine N) : Option (Nat × String) → MessageLine N
  | none => line
  | some (iteration,ts) =>
    { line with
      iteration := line.iteration.or (some iteration)
      ts := if line.ts.isNone ∧ ts ≠ "" then some ts else line.ts }

def stampedLines [DecidableEq N] (D : Dialect N) (messages : List (TranscriptMessage N))
    (turnUsage : Option (TurnUsage N)) (requestId : Option String) : List (MessageLine N) :=
  let last := rposition isAssistant messages
  messages.zipIdx.map fun (msg,i) =>
    let usage := if some i = last then turnUsage.or msg.turnUsage else msg.turnUsage
    (buildMessageLine D msg usage requestId false).stamped
      (turnStepStamps messages last turnUsage i)

def stampedRows [DecidableEq N] (D : Dialect N) (messages : List (TranscriptMessage N))
    (turnUsage : Option (TurnUsage N)) (requestId : Option String) : List (TranscriptMessage N) :=
  (stampedLines D messages turnUsage requestId).map (messageFromLine D)

end

namespace DriverTranscripts

open StorageKit StorageKit.Leases

structure Entry (N : Type) where
  written : Bool := false
  transcriptMeta : Option TranscriptMeta := none
  set : Option (List (TranscriptMessage N)) := none
  extend : Option (List (TranscriptMessage N)) := none
  tools : Option N := none
  shown : Option TranscriptPartial := none
  requestId : Option String := none
  clear : Bool := false
  sealing : Bool := false
  deriving DecidableEq

structure Reservation where
  holder : String
  epoch : Nat

structure Replay (N : Type) where
  nextSeq : Nat := 0
  transcriptMeta : Option TranscriptMeta := none
  messages : List (TranscriptMessage N) := []
  tools : Option N := none
  partials : List (TranscriptPartial × Option String) := []
  written : Bool := false
  sealed : Bool := false
  reservation : Option Reservation := none

inductive TranscriptError where
  | storage (error : StorageError)
  | message (text : String)
  deriving DecidableEq

structure Deployment (N : Type) where
  entryId : String → Nat → String
  reread : Entry N → Except String (Entry N)
  conditionedEntries : Bool
  scope : Bool
  leaseAttempts : Nat
  acked : Bool
  reread_flags : ∀ entry found, reread entry = .ok found →
    found.written = entry.written ∧ found.sealing = entry.sealing
  reread_seal : reread { sealing := true } = .ok { sealing := true }

structure TurnRecord (N : Type) where
  prev : List (TranscriptMessage N)
  next : List (TranscriptMessage N)
  transcriptMeta : TranscriptMeta
  turnUsage : Option (TurnUsage N)
  tools : Option N
  requestId : Option String
  shown : Option TranscriptPartial

inductive TranscriptCall (N : Type) where
  | openStem (stem : String) (seed : TranscriptMeta)
  | appendTurn (handle : Nat) (turn : TranscriptTurn N) (shown : Option TranscriptPartial)
  | append (handle : Nat) (message : TranscriptMessage N)
  | adoptIfEmpty (handle : Nat) (messages : List (TranscriptMessage N))
  | replace (handle : Nat) (messages : List (TranscriptMessage N))
  | clear (handle : Nat)
  | messages (handle : Nat)
  | partials (handle : Nat)
  | readSession (handle : Nat)
  | appendInterruptedPartial (threadId : String) (agentId : Option String)
      (shown : TranscriptPartial) (requestId : Option String)
  | beginGeneration (session : SessionRef) (seed : TranscriptMeta)
      (baseline : Option (List (TranscriptMessage N)))
  deriving DecidableEq

inductive Reply (N : Type) where
  | done
  | flag (value : Bool)
  | handle (handle : Nat)
  | generation (session : SessionRef) (handle : Nat)
  | messages (rows : List (TranscriptMessage N))
  | partials (partials : List (TranscriptPartial × Option String))
  | session (found : Option (TranscriptMeta × List (TranscriptMessage N) × Option N))
  deriving DecidableEq

-- `reserved` is the reservation the handle was opened with and `gaveUp` whether it was dropped
-- unclaimed. The code reads neither.
structure Handle (N : Type) where
  stem : String
  seed : TranscriptMeta
  replay : Replay N := {}
  reserved : Option Reservation := none
  gaveUp : Bool := false
  owner : Option Nat := none

-- A write names the call it is made for and the shared handle it goes through.
inductive TranscriptOp (N : Type) where
  | openHandle (stem : String) (seed : TranscriptMeta) (reservation : Option Reservation)
  | lock (handle : Nat)
  | takeReservation (handle : Nat)
  | unlock (handle : Nat) (replay : Replay N)
  | query (stem : String) (seq : Nat)
  | count (stem : String)
  | openEntries (lease : Lease)
  | insert (call : TranscriptCall N) (handle : Option Nat) (stem : String) (seq : Nat)
      (entry : Entry N) (condition : Option Lease)
  | index (stem : String)
  | newestRoot (threadId : String) (agentId : Option String)
  | uuid
  | lease (stem : String) (op : LeaseOp)

abbrev TranscriptAns : TranscriptOp N → Type
  | .openHandle _ _ _ => Nat
  | .lock _ => Handle N
  | .takeReservation _ => Unit
  | .unlock _ _ => Unit
  | .query _ _ => Except StorageError (List (Nat × Entry N))
  | .count _ => Except StorageError Nat
  | .openEntries _ | .insert _ _ _ _ _ _ | .index _ => Except StorageError Unit
  | .newestRoot _ _ => Option String
  | .uuid => String
  | .lease _ op => LeaseAns op

def casAttempts : Nat := 64
def indexAttempts : Nat := 3
def reservationTtlMs : Int := 30000

section

variable [DecidableEq N] (D : Dialect N) (r : Replay N) (messages : List (TranscriptMessage N))
  (replay : Replay N) (seed : TranscriptMeta)

def Replay.apply (seq : Nat) (entry : Entry N) : Replay N :=
  let messages := ((entry.set.map (normalizedRows D)).getD r.messages)++
    ((entry.extend.map (normalizedRows D)).getD [])
  let partials := r.partials++(entry.shown.map fun p => (p,entry.requestId)).toList
  { nextSeq := seq+1
    transcriptMeta := entry.transcriptMeta.or r.transcriptMeta
    messages := if entry.clear then [] else messages
    tools := entry.tools.or r.tools
    partials := if entry.clear then [] else partials
    written := r.written || entry.written
    sealed := r.sealed || entry.sealing
    reservation := r.reservation }

def Replay.claimedBy (lease : Option Lease) : Replay N :=
  if lease.isSome then { r with reservation := none } else r

def Replay.current : List (TranscriptMessage N) :=
  if r.written then r.messages else []

def sealedError : TranscriptError := .message "transcript generation is sealed"

def TurnRecord.new (turn : TranscriptTurn N) (shown : Option TranscriptPartial) : TurnRecord N where
  prev := normalizedRows D turn.prev
  next := normalizedRows D turn.next
  transcriptMeta := turn.transcriptMeta
  turnUsage := turn.turnUsage
  tools := turn.tools
  requestId := turn.requestId
  shown := shown.filter fun p => p.content ≠ ""

def commonRows (stored next : List (TranscriptMessage N)) : Nat :=
  ((stored.zip next).takeWhile fun pair => pair.1.SameRowAs D pair.2).length

def turnRows (turn : TurnRecord N) :
    Option (List (TranscriptMessage N)) × Option (List (TranscriptMessage N)) :=
  let common := commonRows D replay.current turn.next
  if replay.written ∧ common = replay.current.length then
    (none,some (stampedRows D (turn.next.drop common) turn.turnUsage turn.requestId))
  else (some (stampedRows D turn.next turn.turnUsage turn.requestId),none)

def turnEntry (turn : TurnRecord N) : Except TranscriptError (Option (Entry N)) :=
  if replay.sealed then .error sealedError
  else if replay.written ∧ ¬ SameTranscriptMessages D replay.current turn.prev then
    .error (.message "transcript baseline is stale; reload the session before persisting")
  else .ok (some {
    written := true
    transcriptMeta := some turn.transcriptMeta
    set := (turnRows D replay turn).1
    extend := (turnRows D replay turn).2
    tools := turn.tools
    shown := turn.shown
    requestId := turn.requestId })

def firstMeta : Option TranscriptMeta :=
  if replay.written then none else some seed

def unlessSealed (entry : Option (Entry N)) : Except TranscriptError (Option (Entry N)) :=
  if replay.sealed then .error sealedError else .ok entry

def appendEntry (message : TranscriptMessage N) (replay : Replay N) (seed : TranscriptMeta) :
    Except TranscriptError (Option (Entry N)) :=
  unlessSealed replay (some {
    written := true
    transcriptMeta := firstMeta replay seed
    extend := some [message.normalized D] })

def adoptEntry : Except TranscriptError (Option (Entry N)) :=
  if replay.written then .ok none
  else unlessSealed replay (some {
    written := true
    transcriptMeta := some seed
    set := some (normalizedRows D messages) })

def replaceEntry : Except TranscriptError (Option (Entry N)) :=
  unlessSealed replay (some {
    written := true
    transcriptMeta := firstMeta replay seed
    set := some (normalizedRows D messages) })

def clearEntry : Except TranscriptError (Option (Entry N)) :=
  unlessSealed replay (if replay.written then some { written := true, clear := true } else none)

def partialEntry (shown : TranscriptPartial) (requestId : Option String) (replay : Replay N)
    (seed : TranscriptMeta) : Except TranscriptError (Option (Entry N)) :=
  .ok (if replay.sealed then none
    else some {
      written := true
      transcriptMeta := firstMeta replay seed
      shown := some shown
      requestId := requestId })

def sealEntry (baseline : Option (List (TranscriptMessage N))) (replay : Replay N) :
    Except TranscriptError (Option (Entry N)) :=
  if ∃ rows ∈ baseline, ¬ SameTranscriptMessages D replay.current rows then
    .error (.message
      "transcript baseline is stale; reload the session before creating a generation")
  else .ok (if replay.sealed then none else some { sealing := true })

def TranscriptCall.build (call : TranscriptCall N) (replay : Replay N) (seed : TranscriptMeta) :
    Except TranscriptError (Option (Entry N)) :=
  match call with
  | .appendTurn _ turn shown => turnEntry D replay (.new D turn shown)
  | .append _ message => appendEntry D message replay seed
  | .adoptIfEmpty _ rows => adoptEntry D rows replay seed
  | .replace _ rows => replaceEntry D rows replay seed
  | .clear _ => clearEntry replay
  | .appendInterruptedPartial _ _ shown requestId => partialEntry shown requestId replay seed
  | .beginGeneration _ _ baseline => sealEntry D (baseline.map (normalizedRows D)) replay
  | .openStem _ _ | .messages _ | .partials _ | .readSession _ => .ok none

variable (S : Deployment N)

abbrev TranscriptProgram (N : Type) (α : Type) := Program (TranscriptOp N) TranscriptAns α

abbrev TranscriptTask (N : Type) (α : Type) :=
  Fallible (TranscriptOp N) TranscriptAns TranscriptError α

def request (op : TranscriptOp N) : TranscriptProgram N (TranscriptAns op) := .perform op

variable {α : Type} (call : TranscriptCall N) (handle : Nat) (stem : String)

def ask (op : TranscriptProgram N (Except StorageError α)) : TranscriptTask N α :=
  ExceptT.mk do
    match ← op with
    | .ok a => return .ok a
    | .error e => return .error (.storage e)

def leasing (p : Program LeaseOp LeaseAns α) : TranscriptProgram N α :=
  p.embed (TranscriptOp.lease stem) fun _ x => x

def onLease (task : LeaseTask α) : TranscriptTask N α :=
  ask (leasing stem task.run)

def applyListed (stem : String) (r : Replay N) :
    List (Nat × Entry N) → Except StorageError Unit × Replay N
  | [] => (.ok (),r)
  | (seq,stored) :: rest =>
    match S.reread stored with
    | .error error =>
      let id := S.entryId stem seq
      (.error (.serialization s!"transcript entry {id} is unreadable: {error}"),r)
    | .ok entry => applyListed stem (r.apply D seq entry) rest

def refresh (r : Replay N) : TranscriptProgram N (Except StorageError Unit × Replay N) := do
  match ← request (.query stem r.nextSeq) with
  | .error e => return (.error e,r)
  | .ok docs => return applyListed D S stem r docs

def claim (held : Reservation) : TranscriptTask N Lease := do
  match ← onLease stem (renew S.leaseAttempts held.holder held.epoch reservationTtlMs) with
  | some lease => return lease
  | none => throw (.message
      s!"session generation {stem} was taken over by another writer; reload the session")

def claimReservation (r : Replay N) : TranscriptTask N (Option Lease) :=
  match r.reservation with
  | none => return none
  | some held => some <$> claim S stem held

def checkOpener : Except TranscriptError Unit :=
  if S.conditionedEntries = false then
    .error (.message s!"session generation {stem} requires atomic lease-conditioned entry writes")
  else if S.scope = false then
    .error (.message s!"session generation {stem} has no bound storage scope")
  else .ok ()

def insertNext (handle : Option Nat) (stem : String) (r : Replay N) (entry : Entry N) :
    TranscriptTask N (Option Lease × Except StorageError Unit) := do
  match ← claimReservation S stem r with
  | none =>
    let answer ← ExceptT.lift
      (request (.insert call handle stem r.nextSeq entry none))
    return (none,answer)
  | some lease =>
    .ofExcept (checkOpener S stem)
    ask (request (.openEntries lease))
    let answer ← ExceptT.lift
      (request (.insert call handle stem r.nextSeq entry (some lease)))
    return (some lease,answer)

def indexing (stem : String) : Nat → TranscriptProgram N Unit
  | 0 => return ()
  | n+1 => do
    match ← request (.index stem) with
    | .ok _ => return ()
    | .error _ => indexing stem n

def commitFrom (call : TranscriptCall N) (handle : Option Nat) (h : Handle N) :
    Nat → Replay N → TranscriptProgram N (Except TranscriptError Bool × Replay N)
  | 0, r =>
    let stem := h.stem
    return (.error (.message
      s!"transcript {stem} kept changing under {casAttempts} write attempts"),r)
  | n+1, r => do
    match ← refresh D S h.stem r with
    | (.error e,r) => return (.error (.storage e),r)
    | (.ok _,r) =>
      match call.build D r h.seed with
      | .error e => return (.error e,r)
      | .ok none => return (.ok false,r)
      | .ok (some entry) =>
        match ← (insertNext S call handle h.stem r entry).run with
        | .error e => return (.error e,r)
        | .ok (_,.error .conflict) => commitFrom call handle h n r
        | .ok (_,.error e) => return (.error (.storage e),r)
        | .ok (lease,.ok _) => do
          let r := (r.claimedBy lease).apply D r.nextSeq entry
          if r.written then indexing h.stem indexAttempts
          return (.ok true,r)

def locked (body : Handle N → TranscriptProgram N (Except TranscriptError α × Replay N)) :
    TranscriptTask N α :=
  ExceptT.mk do
    let h ← request (.lock handle)
    let (result,replay) ← body h
    let _ ← request (.unlock handle replay)
    return result

def commit : TranscriptTask N Bool :=
  locked handle fun h => commitFrom D S call (some handle) h casAttempts h.replay

def commitAlone (seed : TranscriptMeta) : TranscriptTask N Bool :=
  ExceptT.mk do
    let (result,_) ← commitFrom D S call none { stem := stem, seed := seed } casAttempts {}
    return result

def reading (repair : Bool) (view : Handle N → Replay N → α) : TranscriptTask N α :=
  locked handle fun h => do
    match ← refresh D S h.stem h.replay with
    | (.error e,r) => return (.error (.storage e),r)
    | (.ok _,r) => do
      if repair && r.written then indexing h.stem 1
      return (.ok (view h r),r)

def releaseReservation (held : Reservation) : TranscriptTask N Bool :=
  onLease stem (release S.leaseAttempts held.holder held.epoch)

def giveBack : TranscriptTask N Bool :=
  locked handle fun h => do
    match ← refresh D S h.stem h.replay with
    | (.error e,r) => return (.error (.storage e),r)
    | (.ok _,r) =>
      match r.written, r.reservation with
      | false, some held => do
        let _ ← request (.takeReservation handle)
        let r := { r with reservation := none }
        match ← (releaseReservation S h.stem held).run with
        | .error e => return (.error e,r)
        | .ok _ => return (.ok true,r)
      | _, _ => return (.ok false,r)

def clear (handle : Nat) : TranscriptTask N (Reply N) := do
  let released ← giveBack D S handle
  if released then return .done
  else do
    let _ ← commit D S (.clear handle) handle
    return .done

def reserve : TranscriptTask N Reservation := do
  let written ← ask (request (.count stem))
  if written ≠ 0 then throw (.message "session generation already exists")
  else do
    let uuid ← ExceptT.lift (request .uuid)
    let holder := "reservation:"++uuid
    match ← onLease stem (acquire S.leaseAttempts holder reservationTtlMs) with
    | some lease => return ⟨holder,lease.epoch⟩
    | none => throw (.message "session generation already exists or is reserved")

def beginGenerationChecked (session : SessionRef) (seed : TranscriptMeta)
    (baseline : Option (List (TranscriptMessage N))) : TranscriptTask N (Reply N) :=
  let successor := session.nextGeneration
  let stem := sessionStem successor
  if maxGenerations < successor.generation.toNat then
    throw (.message "session generation limit reached")
  else do
    let reservation ← reserve S stem
    let call := .beginGeneration session seed baseline
    ExceptT.mk do
      match ← (commitAlone D S call (sessionStem session) seed).run with
      | .error e => do
        let _ ← (releaseReservation S stem reservation).run
        return .error e
      | .ok _ => do
        let seed := { seed with
          sessionId := some successor.sessionId, parentSessionId := successor.parentSessionId }
        let handle ← request (.openHandle stem seed (some reservation))
        return .ok (.generation successor handle)

def discoveredSeed : TranscriptMeta := { agentName := stem }

def appendInterruptedPartial (threadId : String) (agentId : Option String)
    (shown : TranscriptPartial) (requestId : Option String) : TranscriptTask N (Reply N) :=
  let thread := trim threadId
  if shown.content = "" ∨ thread = "" then return .flag false
  else do
    match ← ExceptT.lift (request (.newestRoot thread agentId)) with
    | none => return .flag false
    | some stem => do
      let call := .appendInterruptedPartial threadId agentId shown requestId
      let wrote ← commitAlone D S call stem (discoveredSeed stem)
      return .flag wrote

def TranscriptCall.task : TranscriptTask N (Reply N) :=
  match call with
  | .openStem stem seed => do
    let handle ← ExceptT.lift (request (.openHandle stem seed none))
    return .handle handle
  | .appendTurn handle _ _ | .append handle _ | .replace handle _ => do
    let _ ← commit D S call handle
    return .done
  | .adoptIfEmpty handle rows =>
    if rows = [] then return .flag false
    else do
      let wrote ← commit D S call handle
      return .flag wrote
  | .clear handle => DriverTranscripts.clear D S handle
  | .messages handle => reading D S handle false fun _ r => .messages r.messages
  | .partials handle => reading D S handle false fun _ r => .partials r.partials
  | .readSession handle => reading D S handle true fun h r => .session
      (if r.written then some (r.transcriptMeta.getD h.seed,r.messages,r.tools) else none)
  | .appendInterruptedPartial threadId agentId shown requestId =>
    DriverTranscripts.appendInterruptedPartial D S threadId agentId shown requestId
  | .beginGeneration session seed baseline => beginGenerationChecked D S session seed baseline

end

structure Doc (N : Type) where
  stem : String
  seq : Nat
  entry : Entry N
  deriving DecidableEq

structure World (N : Type) where
  docs : List (Doc N) := []
  handles : List (Handle N) := []
  leases : String → Cell Body := fun _ => .empty
  now : Nat := 0

namespace World

variable (w : World N) (stem : String)

def lease : LeaseWorld := ⟨w.leases stem,w.now⟩

def entries : Ledger (Entry N) :=
  fun seq => (w.docs.find? fun d => d.stem = stem ∧ d.seq = seq).map Doc.entry

def written (stem : String) : Nat :=
  w.docs.countP fun d => d.stem = stem ∧ d.entry.written

def put (seq : Nat) (entry : Entry N) : World N :=
  { w with docs := ⟨stem,seq,entry⟩ :: w.docs }

def modify (handle : Nat) (f : Handle N → Handle N) : World N :=
  { w with handles := w.handles.modify handle f }

def Meets : Option Lease → String → Prop
  | none, _ => True
  | some lease, stem => lease.WriteCondition (w.lease stem)

end World

def Handle.lockedBy (i : Nat) (h : Handle N) : Handle N := { h with owner := some i }

def Handle.dropped (h : Handle N) : Handle N :=
  { h with replay := { h.replay with reservation := none }, gaveUp := true }

def Handle.freed (replay : Replay N) (h : Handle N) : Handle N :=
  { h with replay := replay, owner := none }

variable (S : Deployment N)

def TranscriptOutcome (i : Nat) :
    (op : TranscriptOp N) → World N → TranscriptAns op → World N → Prop
  | .openHandle stem seed reservation, w, x, w' => x = w.handles.length ∧
      w' = { w with handles := w.handles++[{
        stem := stem, seed := seed, replay := { reservation := reservation }
        reserved := reservation }] }
  | .lock handle, w, x, w' => w.handles[handle]? = some x ∧ x.owner = none ∧
      w' = w.modify handle (.lockedBy i)
  | .takeReservation handle, w, _, w' => w' = w.modify handle .dropped
  | .unlock handle replay, w, _, w' => w' = w.modify handle (.freed replay)
  | .query stem seq, w, x, w' => w' = w ∧
      ((∃ e, x = .error e) ∨ ∃ docs, x = .ok docs ∧ (w.entries stem).Listing seq docs)
  | .count stem, w, x, w' => w' = w ∧ ((∃ e, x = .error e) ∨ x = .ok (w.written stem))
  | .openEntries _, w, _, w' => w' = w
  | .insert _ _ stem seq entry condition, w, x, w' =>
    (w' = w ∧ ∃ e, x = .error e) ∨
      w.entries stem seq = none ∧ w.Meets condition stem ∧ w' = w.put stem seq entry ∧
        (x = .ok () ∨ S.acked = false ∧ ∃ e, e ≠ .conflict ∧ x = .error e)
  | .index _, w, _, w' => w' = w
  | .newestRoot _ _, w, _, w' => w' = w
  | .uuid, w, _, w' => w' = w
  | .lease stem op, w, x, w' => ∃ cell, LeaseOutcome op (w.lease stem) x ⟨cell,w.now⟩ ∧
      w' = { w with leases := Function.update w.leases stem cell }

abbrev TranscriptResult (N : Type) := Except TranscriptError (Reply N)

abbrev TranscriptMoment (N : Type) :=
  Moment (TranscriptCall N) (TranscriptOp N) TranscriptAns (World N) (TranscriptResult N)

def machine [DecidableEq N] (D : Dialect N) : Machine (TranscriptCall N) (TranscriptOp N)
    TranscriptAns (World N) (TranscriptResult N) where
  code := fun call => (call.task D S).run
  outcome := TranscriptOutcome S
  env := fun w w' => w'.docs = w.docs ∧ w'.handles = w.handles ∧ w'.leases = w.leases ∧
    w.now ≤ w'.now

end DriverTranscripts

end Session
