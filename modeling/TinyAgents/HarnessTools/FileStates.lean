import TinyAgents.Interaction.Driver
import TinyAgents.Interaction.Table

namespace HarnessTools.FileStates

open Interaction

structure ReadStamp where
  timestamp : Nat
  partly : Bool

structure Written where
  agent : String
  clock : Nat

structure Section where
  agent : String
  locked : Bool
  hadRead : Bool
  stored : Bool

-- One file, the coordinator's entries for it, and the clock. The code reads none of `history`,
-- `loads`, `known` and `sections`: the writes so far, how many of them a thread's last load has
-- seen, how many of them an agent has read, and the calls that are between check and record.
structure World where
  content : Option String
  clock : Nat := 0
  reads : Map String ReadStamp := Table.empty
  writes : Map String Nat := Table.empty
  lock : Option Nat := none
  history : List Written := []
  loads : Nat → Nat := fun _ => 0
  known : String → Option Nat := fun _ => none
  sections : Map Nat Section := Table.empty

structure Text where
  count : String → String → Nat
  replace : String → String → String → String
  replaceFirst : String → String → String → String

structure Edit where
  oldString : String
  newString : String
  replaceAll : Bool

structure FileBuffer where
  original : Option String
  contents : String
  editCount : Nat

def writersAfterRead (writers : List (String × Nat)) (reader : String) (readAt : Nat) :
    List (String × Nat) :=
  writers.filter fun e => e.1 ≠ reader ∧ readAt < e.2

def laterWriter (a b : String × Nat) : String × Nat :=
  if a.2 < b.2 ∨ a.2 = b.2 ∧ b.1 < a.1 then b else a

def latestWriter : List (String × Nat) → Option String
  | [] => none
  | e :: rest => some (rest.foldl laterWriter e).1

namespace World

variable (w : World) (i : Nat) (agent : String)

def checkStaleRead : Option String :=
  (w.reads.lookup agent).bind fun stamp =>
    latestWriter (writersAfterRead w.writes.entries agent stamp.timestamp)

def checkPartialRead : Bool :=
  (w.reads.lookup agent).any fun stamp => stamp.partly

def recordRead (stamp : ReadStamp) : World :=
  { w with reads := w.reads.put agent stamp }

def recordWrite (now : Nat) : World :=
  { w with
    clock := now
    writes := w.writes.put agent now
    reads := w.reads.put agent ⟨now,false⟩ }

def enter (locked : Bool) : World :=
  { w with sections := w.sections.put i ⟨agent,locked,(w.known agent).isSome,false⟩ }

def leave : World := { w with sections := w.sections.remove i }

def release : World :=
  { w.leave i with lock := if w.lock = some i then none else w.lock }

def learn : World :=
  let seen := max (w.loads i) ((w.known agent).getD 0)
  { w with known := Function.update w.known agent (some seen) }

def store (agent content : String) : World :=
  { w with
    content := some content
    history := w.history++[⟨agent,w.clock⟩]
    sections := match w.sections.lookup i with
      | some s => w.sections.put i { s with stored := true }
      | none => w.sections }

end World

-- `validate` stands for the gates, the path checks and the size limits.
inductive FileOp where
  | validate
  | now
  | load
  | present
  | resolve (agent : String) (locked : Bool)
  | lock
  | unlock
  | checkStale (agent : String) (locked : Bool)
  | checkPartial (agent : String)
  | store (agent content : String)
  | recordRead (agent : String) (stamp : ReadStamp)
  | recordWrite (agent : String)

def FileAns : FileOp → Type
  | .validate => Option String
  | .now => Nat
  | .load => Option String
  | .present => Bool
  | .resolve _ _ => Bool
  | .checkStale _ _ => Option String
  | .checkPartial _ => Bool
  | .store _ _ => Option String
  | _ => Unit

def FileOutcome (i : Nat) : (op : FileOp) → World → FileAns op → World → Prop
  | .validate, w, _, w' => w' = w
  | .now, w, x, w' => w.clock < x ∧ w' = { w with clock := x }
  | .load, w, x, w' => (x = w.content ∨ x = none) ∧
      w' = { w with loads := Function.update w.loads i w.history.length }
  | .present, w, x, w' => x = w.content.isSome ∧ w' = w
  | .resolve agent locked, w, x, w' =>
    x = w.content.isSome ∧ w' = if w.content.isSome then w else w.enter i agent locked
  | .lock, w, _, w' => w.lock = none ∧ w' = { w with lock := some i }
  | .unlock, w, _, w' => w' = w.release i
  | .checkStale agent locked, w, x, w' => x = w.checkStaleRead agent ∧
      w' = if (w.checkStaleRead agent).isSome then w else w.enter i agent locked
  | .checkPartial agent, w, x, w' => x = w.checkPartialRead agent ∧
      w' = if w.checkPartialRead agent then w.leave i else w
  | .store agent content, w, x, w' => match x with
      | none => w' = w.store i agent content
      | some _ => w' = w.leave i
  | .recordRead agent stamp, w, _, w' => w' = (w.learn i agent).recordRead agent stamp
  | .recordWrite agent, w, _, w' => ∃ now, w.clock < now ∧ w' = (w.leave i).recordWrite agent now

abbrev Task := Fallible FileOp FileAns String

def asking (op : FileOp) : Task (FileAns op) := ExceptT.lift (Program.perform op)

section

variable (X : Text) (path : String)

def validated : Task Unit := do
  match ← asking .validate with
  | some error => throw error
  | none => return ()

def staleMessage (latest : String) : String :=
  "Stale read: file '"++path++"' was modified by agent '"++latest++"' after your last "++
  "read. Re-read the file before editing."

def partialMessage : String :=
  "Partial read: your last read of '"++path++"' was partial (paginated). "++
  "Perform a full read before overwriting."

variable (agent : String) (e : Edit)

def checkState (locked : Bool) : Task Unit := do
  match ← asking (.checkStale agent locked) with
  | some latest => throw (staleMessage path latest)
  | none => do
    let partly : Bool ← asking (.checkPartial agent)
    if partly then throw (partialMessage path) else return ()

def written (failure : String → String) (agent content : String) : Task Unit := do
  match ← asking (.store agent content) with
  | some error => throw (failure error)
  | none => asking (.recordWrite agent)

def writeFailure (error : String) : String := "Failed to write file: "++error

def patchFailure (error : String) : String :=
  "Failed to write "++path++": "++error++"; previously-written files restored from snapshot"

def dropping {α : Type} (p : Task α) : Task α := ExceptT.mk do
  let r ← p.run
  let _ ← Program.perform .unlock
  return r

def holding {α : Type} (p : Task α) : Task α := do
  asking .lock
  dropping p

def fileRead : Task String := do
  validated
  let started ← asking .now
  validated
  match ← asking .load with
  | none => throw "Failed to read file"
  | some contents => do
    asking (.recordRead agent ⟨started,false⟩)
    validated
    return contents

def Edit.apply (contents : String) : String :=
  if e.replaceAll then X.replace contents e.oldString e.newString
  else X.replaceFirst contents e.oldString e.newString

def editLocked : Task String := do
  checkState path agent true
  match ← asking .load with
  | none => throw "Failed to read file"
  | some contents =>
    let count := X.count contents e.oldString
    if count = 0 then throw ("`old_string` not found in "++path)
    else if 1 < count ∧ !e.replaceAll then
      throw ("`old_string` matches "++toString count++" times in "++path++
        "; pass `replace_all: true` or expand `old_string` so it is unique")
    else do
      written writeFailure agent (e.apply X contents)
      return ("Edited "++path++": "++toString count++" replacement(s)")

def editFile : Task String :=
  if e.oldString.isEmpty then throw "`old_string` must not be empty"
  else if e.oldString = e.newString then
    throw "`old_string` and `new_string` are identical — nothing to do"
  else do
    validated
    holding (editLocked X path agent e)

def fileWrite (agent content : String) : Task String := do
  validated
  checkState path agent false
  written writeFailure agent content
  return ("Written "++toString content.utf8ByteSize++" bytes to "++path)

def maxEdits : Nat := 50

def editLabel (index : Nat) : String := "edit["++toString index++"]: "

def parseEdits : List Edit → Nat → Task Unit
  | [], _ => return ()
  | e :: rest, index => do
    let found : Bool ← asking .present
    if e.oldString.isEmpty && found then
      throw (editLabel index++"`old_string` must not be empty for an existing file ("++path++
        "). Pass the exact text to replace, or write to a new path to create a file.")
    else parseEdits rest (index+1)

def FileBuffer.edit (index : Nat) (buffer : FileBuffer) : Task FileBuffer :=
  let count := X.count buffer.contents e.oldString
  if count = 0 then throw (editLabel index++"`old_string` not found in "++path)
  else if 1 < count ∧ !e.replaceAll then
    throw (editLabel index++"`old_string` matches "++toString count++" times in "++path++
      "; pass `replace_all`")
  else return { buffer with
    contents := e.apply X buffer.contents, editCount := buffer.editCount+count }

def patchAll : List Edit → Nat → Option FileBuffer → Task FileBuffer
  | [], _, some buffer => return buffer
  | [], _, none => throw "`edits` array is empty"
  | e :: rest, index, none =>
    if e.oldString.isEmpty then patchAll rest (index+1) (some ⟨none,e.newString,1⟩)
    else do
      match ← asking .load with
      | none => throw (editLabel index++"failed to read "++path)
      | some contents => do
        let buffer ← FileBuffer.edit X path e index ⟨some contents,contents,0⟩
        patchAll rest (index+1) (some buffer)
  | e :: rest, index, some buffer =>
    if e.oldString.isEmpty then
      throw (editLabel index++path++
        " is created earlier in this batch; only one create per path")
    else do
      let buffer ← FileBuffer.edit X path e index buffer
      patchAll rest (index+1) (some buffer)

def FileBuffer.summary (buffer : FileBuffer) : String :=
  match buffer.original with
  | none => path++": created ("++toString buffer.contents.utf8ByteSize++" bytes)"
  | some _ => path++": "++toString buffer.editCount++" replacement(s)"

def patchResolved (edits : List Edit) (locked : Bool) : Task String := do
  let resolved : Bool ← asking (.resolve agent locked)
  if resolved then checkState path agent locked
  let buffer ← patchAll X path edits 0 none
  written (patchFailure path) agent buffer.contents
  return ("Applied "++toString edits.length++" edit(s) across 1 file(s)\n"++buffer.summary path)

def applyPatch (edits : List Edit) : Task String :=
  if edits.isEmpty then throw "`edits` array is empty"
  else if maxEdits < edits.length then
    throw ("Too many edits: "++toString edits.length++" (max "++toString maxEdits++")")
  else do
    validated
    parseEdits path edits 0
    let found : Bool ← asking .present
    if found then holding (patchResolved X path agent edits true)
    else dropping (patchResolved X path agent edits false)

end

inductive Call where
  | read (agent : String)
  | edit (agent : String) (e : Edit)
  | patch (agent : String) (edits : List Edit)
  | write (agent content : String)

def Call.task (X : Text) (path : String) : Call → Task String
  | .read agent => fileRead agent
  | .edit agent e => editFile X path agent e
  | .patch agent edits => applyPatch X path agent edits
  | .write agent content => fileWrite path agent content

def machine (X : Text) (path : String) :
    Machine Call FileOp FileAns World (Except String String) where
  code := fun call => (call.task X path).run
  outcome := FileOutcome
  begins := fun i _ w => w.sections.lookup i = none

end HarnessTools.FileStates
