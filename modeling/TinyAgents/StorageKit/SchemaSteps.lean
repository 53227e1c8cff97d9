import TinyAgents.StorageKit.Schemas

namespace StorageKit

namespace Schemas

open Interaction

section

variable {V : Type}

structure Progress where
  owner : String
  step : String
  fromVersion : Nat
  toVersion : Nat
  cursor : Option String
  written : Nat
  done : Bool

structure Stored (V : Type) where
  id : String
  doc : V
  version : Nat
  info : Meta

structure Page (V : Type) where
  items : List (Stored V)
  next : Option String

structure StreamEntry (V : Type) where
  offset : Nat
  value : V

structure StreamInfo where
  sealedMs : Option Int

structure Blob where
  contentType : Option String
  bytes : List UInt8
  deriving DecidableEq

def migrationsCollection : String := "tsd.migrations"

theorem dot_notMem_ownerName {owner : Owner} : '.' ∉ owner.name.toList := by
  intro h
  have hv := owner.valid
  simp only [ownerName,Bool.and_eq_true] at hv
  have hc := List.all_eq_true.1 hv.2 '.' h
  exact absurd hc (by decide)

theorem ne_migrations {owner : Owner} {name : String} {rest : List Char}
    (h : name.toList = owner.name.toList++ '.' :: rest) : name ≠ migrationsCollection := by
  rintro rfl
  have ht : migrationsCollection.toList = ['t','s','d']++ '.' :: "migrations".toList := by decide
  rw [ht] at h
  obtain ⟨he,-⟩ := append_cons_inj (by decide) dot_notMem_ownerName h
  exact owner.unreserved (String.toList_injective (he.symm.trans (by decide)))

-- `iterate` gives the order in which a hash map happens to list its keys.
inductive StoreOp (V : Type) where
  | ensureCollection (name : String)
  | loadProgress (key : String)
  | saveProgress (key : String) (progress : Progress)
  | deleteProgress (key : String)
  | query (collection : String) (below : Option Nat) (after : Option String) (limit : Nat)
  | get (collection id : String)
  | putWith (collection : String) (elsewhere : collection ≠ migrationsCollection) (id : String)
      (body : V) (precondition : Precondition) (schema : Nat) (expiresMs : Option Int)
  | delete (collection id : String) (version : Nat)
  | deleteWhere (collection : String)
  | iterate (ids : List String)
  | streams (path : String)
  | readWindow (stream : String) (start limit : Nat)
  | info (stream : String)
  | len (stream : String)
  | appendBatchIfOffset (stream : String) (offset : Nat) (batch : List V)
  | seal (stream : String)
  | deleteStream (stream : String)
  | listBlobs (path : String)
  | getBlob (key : String)
  | putBlob (key : String) (blob : Blob)
  | deleteBlob (key : String)
  | mapDocuments (owner operation : String) (version : Nat) (records : List (SourceRecord V))
  | mapStream (owner operation : String) (version : Nat) (source : String) (entries : List V)
  | mapBlob (owner operation : String) (version : Nat) (source : String) (blob : Blob)

abbrev StoreAns {V : Type} : StoreOp V → Type
  | .ensureCollection _ | .saveProgress _ _ | .deleteProgress _ | .deleteWhere _
  | .appendBatchIfOffset _ _ _ | .seal _ | .deleteStream _ | .putBlob _ _ | .deleteBlob _
  | .putWith _ _ _ _ _ _ _ | .delete _ _ _ => Except Failure Unit
  | .loadProgress _ => Except Failure (Option Progress)
  | .query _ _ _ _ => Except Failure (Page V)
  | .get _ _ => Except Failure (Option (Stored V))
  | .iterate _ => List String
  | .streams _ => Except Failure (List String)
  | .readWindow _ _ _ => Except Failure (List (StreamEntry V))
  | .info _ => Except Failure (Option StreamInfo)
  | .len _ => Except Failure Nat
  | .listBlobs _ => Except Failure (List String)
  | .getBlob _ => Except Failure (Option Blob)
  | .mapDocuments _ _ _ _ => Except Failure (List (TargetRecord V))
  | .mapStream _ _ _ _ _ => Except Failure (Option (String × List V))
  | .mapBlob _ _ _ _ _ => Except Failure (Option (String × Option String × List UInt8))

abbrev StoreTask (V α : Type) := Fallible (StoreOp V) StoreAns Failure α

def outOfFuel : Failure := ⟨.outOfFuel,""⟩

def transformUnavailable : Failure :=
  ⟨.unavailable,"external migration requires a transform executor"⟩

def tell (op : StoreOp V) : Program (StoreOp V) StoreAns (StoreAns op) := .perform op

def loadProgress (key : String) : StoreTask V (Option Progress) :=
  ExceptT.mk (.perform (StoreOp.loadProgress key))

def saveProgress (key : String) (progress : Progress) : StoreTask V Unit :=
  ExceptT.mk (.perform (StoreOp.saveProgress key progress))

structure Context (V : Type) where
  owner : Owner
  step : PreparedStep V
  executor : Bool
  key : String
  batchSize : Nat

def Context.fresh (context : Context V) (cursor : Option String) : Progress where
  owner := context.owner.name
  step := context.step.id
  fromVersion := context.step.fromVersion
  toVersion := context.step.toVersion
  cursor := cursor
  written := 0
  done := false

variable {D : Type} [DecidableEq V]

structure Emitted (V : Type) where
  output : TargetRecord V
  schema : Nat
  elsewhere : output.collection ≠ migrationsCollection

structure StepRun (V D : Type) where
  registry : PreparedRegistry V D
  owner : Owner
  step : PreparedStep V
  run : Transform (StepFn V)
  executor : Bool
  batchSize : Nat

namespace StepRun

variable (task : StepRun V D)

def inPlace : Bool := task.step.sourceCollection = task.step.item

def mapRecords (records : List (SourceRecord V)) : StoreTask V (List (TargetRecord V)) :=
  match task.run with
  | .closure run => Fallible.ofExcept (run records)
  | .external operation version =>
    if task.executor then ExceptT.mk (.perform
      (StoreOp.mapDocuments task.owner.name operation version records))
    else throw transformUnavailable

variable (key : String) (items : List (Stored V)) (output : TargetRecord V)

def targetSchema : Except Failure (Emitted V) :=
  match ho : after task.owner '.' output.collection,
      task.registry.collectionVersion output.collection with
  | some _, some version => .ok
      { output
        schema := if output.collection = task.step.item then task.step.toVersion else version
        elsewhere := ne_migrations (after_eq_some ho) }
  | _, _ => .error (invalidInput ("step `"++task.step.id++"` of `"++task.step.item++
      "` emitted a record for `"++output.collection++
      "`, which is not a collection declared by owner `"++task.owner.name++"`"))

def targetSchemas : List (TargetRecord V) → Except Failure (List (Emitted V))
  | [] => .ok []
  | output :: rest => do
    let emitted ← task.targetSchema output
    let rest ← targetSchemas rest
    return emitted :: rest

def found (id : String) : Option (Stored V) :=
  items.find? fun item => item.id = id

def expiry : Option Int :=
  match output.expires with
  | .at ms => some ms
  | .carry =>
    if output.collection = task.step.item then
      (found items output.id).bind fun item => item.info.expiresMs
    else none
  | .never => none

def rewritten : Option (Stored V) :=
  if task.inPlace && output.collection = task.step.item then found items output.id else none

def precondition : Precondition :=
  match task.rewritten items output with
  | some item => .version item.version
  | none => .absent

def identical (schema : Nat) (stored : Option (Stored V)) : Bool :=
  stored.any fun found =>
    found.doc = output.body && found.info.schema = schema &&
      (output.createdMs.filter fun _ => (task.rewritten items output).isSome).all
        (· = found.info.createdMs) &&
      found.info.expiresMs = task.expiry items output

def writeOutput (emitted : Emitted V) : StoreTask V Unit := ExceptT.mk do
  let output := emitted.output
  match ← tell (.putWith output.collection emitted.elsewhere output.id output.body
      (task.precondition items output) emitted.schema (task.expiry items output)) with
  | .ok _ => return .ok ()
  | .error e =>
    if e.kind = .alreadyExists ∨ e.kind = .conflict then
      match ← tell (.get output.collection output.id) with
      | .error e' => return .error e'
      | .ok stored =>
        return (if task.identical items output emitted.schema stored then .ok () else .error e)
    else return .error e

def writeOutputs (items : List (Stored V)) : List (Emitted V) → StoreTask V Unit
  | [] => return ()
  | emitted :: rest => do
    task.writeOutput items emitted
    writeOutputs items rest

def removeReplaced (id : String) (version : Nat) : StoreTask V Unit := ExceptT.mk do
  match ← tell (.delete task.step.item id version) with
  | .ok _ => return .ok ()
  | .error e =>
    if e.kind = .conflict then
      match ← tell (.get task.step.item id) with
      | .error e' => return .error e'
      | .ok stored => return (if stored.isSome then .error e else .ok ())
    else return .error e

def removeAll (items : List (Stored V)) : List String → StoreTask V Unit
  | [] => return ()
  | id :: rest => do
    match found items id with
    | some item => task.removeReplaced id item.version
    | none => pure ()
    removeAll items rest

def kept (outputs : List (TargetRecord V)) : List String :=
  (outputs.filter fun output => output.collection = task.step.item).map fun output => output.id

def writeBatch : StoreTask V Nat := do
  let outputs ← task.mapRecords (items.map fun item => ⟨item.id,item.doc,item.info⟩)
  let emitted ← Fallible.ofExcept (task.targetSchemas outputs)
  task.writeOutputs items emitted
  if task.inPlace then
    let order ← ExceptT.lift (.perform (StoreOp.iterate (items.map fun item => item.id)))
    task.removeAll items (order.filter fun id => !(task.kept outputs).contains id)
    return outputs.length
  else return outputs.length

def query (cursor : Option String) : StoreTask V (Page V) :=
  ExceptT.mk (.perform (StoreOp.query task.step.sourceCollection
    (if task.inPlace then some task.step.toVersion else none) cursor task.batchSize))

def batch (progress : Progress) (page : Page V) : StoreTask V Progress :=
  if page.items.isEmpty then return progress
  else do
    let count ← task.writeBatch page.items
    let progress := { progress with written := progress.written+count, cursor := page.next }
    saveProgress key progress
    return progress

def batches (key : String) : (fuel : Nat) → Progress → StoreTask V Progress
  | 0, _ => throw outOfFuel
  | fuel+1, progress => do
    let page ← task.query progress.cursor
    let progress ← task.batch key progress page
    if page.next.isNone then return progress else batches key fuel progress

def prepare : StoreTask V Unit :=
  if task.inPlace then return ()
  else ExceptT.mk (.perform (StoreOp.ensureCollection task.step.sourceCollection))

def finish (progress : Progress) : StoreTask V Nat := do
  if !task.inPlace then
    ExceptT.mk (.perform (StoreOp.deleteWhere task.step.sourceCollection))
    saveProgress key { progress with cursor := none, done := true }
    return progress.written
  else
    saveProgress key { progress with cursor := none, done := true }
    return progress.written

def fresh : Progress where
  owner := task.owner.name
  step := task.step.id
  fromVersion := task.step.fromVersion
  toVersion := task.step.toVersion
  cursor := none
  written := 0
  done := false

def runStep (fuel : Nat) (progress : Option Progress) : StoreTask V Nat := do
  task.prepare
  let progress ← task.batches key fuel (progress.getD task.fresh)
  task.finish key progress

end StepRun

variable (codec : KeyCodec) (rules : String → Except Failure Unit) (context : Context V)
  (stream : String)

def readFrom (limit : Nat) : (fuel start : Nat) → List V → StoreTask V (List V)
  | 0, _, _ => throw outOfFuel
  | fuel+1, start, values => do
    let window ← (ExceptT.mk (.perform (StoreOp.readWindow stream start limit)) :
      StoreTask V (List (StreamEntry V)))
    match window.getLast? with
    | none => return values
    | some last =>
      readFrom limit fuel (last.offset+1) (values++window.map fun entry => entry.value)

def readAll (limit fuel : Nat) : StoreTask V (List V) :=
  readFrom stream limit fuel 0 []

def isSealed : StoreTask V Bool := ExceptT.mk do
  match ← tell (.info stream) with
  | .ok info => return .ok (info.any fun info => info.sealedMs.isSome)
  | .error e => return (if e.kind = .unsupported then .ok false else .error e)

def insideItem (item target : String) : Bool :=
  target = item || startsWith target (item++"/")

variable (target : String) (run : Transform (StreamStepFn V))

def checkStreamTarget : Except Failure Unit := do
  refuse (insideItem context.step.item target = false) (invalidInput ("step `"++
    context.step.id++"` of `"++context.step.item++"` mapped a stream to `"++target++
    "`, which is not `"++context.step.item++"` or under `"++context.step.item++"/`"))
  rules target

def competingRunner (e : Failure) (target : String) : Failure :=
  if e.kind ≠ .conflict then e
  else ⟨.conflict,"step `"++context.step.id++"` of `"++context.step.item++"`: stream `"++target++
    "` changed under this run; another migrator is working on it"⟩

variable (source : String)

def mapEntries (entries : List V) : StoreTask V (Option (String × List V)) :=
  match run with
  | .closure run => Fallible.ofExcept (run source entries)
  | .external operation version =>
    if context.executor then ExceptT.mk (.perform
      (StoreOp.mapStream context.owner.name operation version source entries))
    else throw transformUnavailable

def checkRecorded (source target : String) (total have_ : Nat) :
    Option Progress → Except Failure Unit
  | none => refuse (have_ ≠ 0) ⟨.conflict,"step `"++context.step.id++"` of `"++
      context.step.item++"`: stream `"++target++"` already holds "++toString have_++
      " entries that this step did not write; refusing to append to it"⟩
  | some recorded => do
    refuse (recorded.cursor ≠ some target) ⟨.conflict,"step `"++context.step.id++"` of `"++
      context.step.item++"`: the recorded target of `"++source++"` differs from `"++target++
      "`; the step function is not deterministic"⟩
    refuse (have_ < recorded.written ∨ total < have_) ⟨.conflict,"step `"++context.step.id++
      "` of `"++context.step.item++"`: stream `"++target++"` holds "++toString have_++
      " entries but "++toString recorded.written++" were recorded and "++toString total++
      " are expected"⟩

def checkExisting (values : List V) (have_ fuel : Nat) : StoreTask V Unit :=
  if have_ = 0 then return ()
  else do
    let existing ← readAll target context.batchSize fuel
    Fallible.ofExcept (refuse (existing.length ≠ have_ ∨ existing ≠ values.take have_)
      ⟨.conflict,"step `"++context.step.id++"` of `"++context.step.item++"`: stream `"++target++
        "` contains entries that do not match the migrated prefix; refusing to resume"⟩)

def appendAll (key target : String) (progress : Progress) :
    (fuel have_ : Nat) → List V → StoreTask V Unit
  | _, _, [] => return ()
  | 0, _, _ => throw outOfFuel
  | fuel+1, have_, value :: rest => do
    let batch := (value :: rest).take context.batchSize
    ExceptT.mk do
      match ← tell (.appendBatchIfOffset target have_ batch) with
      | .ok _ => return .ok ()
      | .error e => return .error (competingRunner context e target)
    let now := have_+batch.length
    saveProgress key { progress with written := now }
    appendAll key target progress fuel now ((value :: rest).drop context.batchSize)

def deleteStream : StoreTask V Unit :=
  ExceptT.mk (.perform (StoreOp.deleteStream source))

def deleteProgress (key : String) : StoreTask V Unit :=
  ExceptT.mk (.perform (StoreOp.deleteProgress key))

def sourceKey : Except Failure String :=
  (compositeKey codec [context.owner.name,context.step.item,context.step.id,source]).mapError
    fun _ => invalidInput "key"

def sealTarget (closed : Bool) (total : Nat) : StoreTask V Unit :=
  if closed && decide (0 < total) then ExceptT.mk (.perform (StoreOp.seal target))
  else return ()

def copyStream (key source target : String) (values : List V) (closed : Bool) (fuel : Nat) :
    StoreTask V Nat := do
  Fallible.ofExcept (checkStreamTarget rules context target)
  let have_ ← (ExceptT.mk (.perform (StoreOp.len target)) : StoreTask V Nat)
  let recorded ← loadProgress key
  Fallible.ofExcept (checkRecorded context source target values.length have_ recorded)
  checkExisting context target values have_ fuel
  let progress := recorded.getD (context.fresh (some target))
  if have_ = 0 then saveProgress key progress else pure ()
  appendAll context key target progress fuel have_ (values.drop have_)
  sealTarget target closed values.length
  deleteStream source
  deleteProgress key
  return values.length

def migrateStream (fuel : Nat) (source : String) : StoreTask V Nat := do
  let entries ← readAll source context.batchSize fuel
  let closed ← isSealed source
  let key ← Fallible.ofExcept (sourceKey codec context source)
  match ← mapEntries context run source entries with
  | none =>
    deleteStream source
    deleteProgress key
    return 0
  | some (target,values) => copyStream rules context key source target values closed fuel

def migrateStreams (run : Transform (StreamStepFn V)) (fuel : Nat) :
    Progress → List String → StoreTask V Progress
  | progress, [] => return progress
  | progress, source :: rest => do
    let count ← migrateStream codec rules context run fuel source
    let progress := { progress with written := progress.written+count }
    saveProgress context.key progress
    migrateStreams run fuel progress rest

def conclude (progress : Progress) : StoreTask V Nat := do
  saveProgress context.key { progress with done := true }
  return progress.written

def runStreams (fuel : Nat) (progress : Option Progress) : StoreTask V Nat := do
  let sources ← (ExceptT.mk (.perform (StoreOp.streams (context.step.source.getD ""))) :
    StoreTask V (List String))
  let progress ← migrateStreams codec rules context run fuel
    (progress.getD (context.fresh none)) sources
  conclude context progress

end

variable {V : Type} (sealedBlobPath : String) (context : Context V)

def validateUserBlobKey (key : String) : Except Failure Unit := do
  refuse (key = "" ∨ maxBlobKeyLen < key.utf8ByteSize ∨ '\x00' ∈ key.toList)
    (invalidInput "invalid blob key")
  refuse (startsWith key sealedBlobPath) (invalidInput "reserved blob key")

def checkBlobTarget (target : String) : Except Failure Unit := do
  refuse (startsWith target context.step.item = false) (invalidInput ("step `"++
    context.step.id++"` of `"++context.step.item++"` mapped a blob to `"++target++
    "`, which is not under `"++context.step.item++"`"))
  validateUserBlobKey sealedBlobPath target

def getBlob (key : String) : StoreTask V (Option Blob) :=
  ExceptT.mk (.perform (StoreOp.getBlob key))

def writeTarget (target : String) (blob : Blob) : StoreTask V Unit := do
  match ← getBlob target with
  | none => ExceptT.mk (.perform (StoreOp.putBlob target blob))
  | some existing =>
    if existing = blob then return ()
    else throw ⟨.conflict,"step `"++context.step.id++"` of `"++context.step.item++
      "` maps a blob to `"++target++
      "`, which already holds different content; the source is kept"⟩

variable (run : Transform BlobStepFn)

def mapBlob (source : String) (blob : Blob) :
    StoreTask V (Option (String × Option String × List UInt8)) :=
  match run with
  | .closure run => Fallible.ofExcept (run source blob.contentType blob.bytes)
  | .external operation version =>
    if context.executor then ExceptT.mk (.perform
      (StoreOp.mapBlob context.owner.name operation version source blob))
    else throw transformUnavailable

def moveBlob (source : String) (blob : Blob) : StoreTask V Nat := do
  match ← mapBlob context run source blob with
  | none =>
    ExceptT.mk (.perform (StoreOp.deleteBlob source))
    return 0
  | some (target,contentType,bytes) =>
    Fallible.ofExcept (checkBlobTarget sealedBlobPath context target)
    writeTarget context target ⟨contentType,bytes⟩
    ExceptT.mk (.perform (StoreOp.deleteBlob source))
    return 1

def moveBlobs : Progress → List String → StoreTask V Progress
  | progress, [] => return progress
  | progress, source :: rest => do
    match ← getBlob source with
    | none => moveBlobs progress rest
    | some blob =>
      let count ← moveBlob sealedBlobPath context run source blob
      let progress := { progress with written := progress.written+count }
      saveProgress context.key progress
      moveBlobs progress rest

def runBlobs (progress : Option Progress) : StoreTask V Nat := do
  let sources ← (ExceptT.mk (.perform (StoreOp.listBlobs (context.step.source.getD ""))) :
    StoreTask V (List String))
  let progress ← moveBlobs sealedBlobPath context run (progress.getD (context.fresh none)) sources
  conclude context progress

end Schemas

end StorageKit
