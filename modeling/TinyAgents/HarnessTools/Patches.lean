import Mathlib.Data.List.Sort
import TinyAgents.HarnessTools.FileStates

namespace HarnessTools.Patches

open Interaction List Function
open FileStates (Text)

inductive Field where
  | absent
  | text (s : String)
  | other

structure RawEdit where
  path : Field
  oldString : Field
  newString : Field
  replaceAll : Option Bool := none

structure ParsedEdit where
  index : Nat
  path : String
  oldString : String
  newString : String
  replaceAll : Bool
  create : Bool

structure FileBuffer where
  resolved : String
  original : Option String
  contents : String
  editCount : Nat

-- `invalid` is an `Err` of the call, `refused` an error result of the tool.
inductive PatchError where
  | invalid (message : String)
  | refused (message : String)

abbrev Files := String → Option String

abbrev Queue := List (String × FileBuffer)

-- The answers of the gate, of the file-state coordinator and of the file system other than file
-- contents. `fails k` says that write `k` fails and what it leaves of its file.
structure Workspace where
  text : Text
  canAct : Bool := true
  isRateLimited : Bool := false
  recordAction : Bool := true
  isPathStringAllowed : String → Bool := fun _ => true
  pathExists : String → Bool
  stateMessage : String → Option String := fun _ => none
  isSymlink : String → Bool := fun _ => false
  validatePath : String → Except String String
  validateParentPath : String → Except String String
  createDirError : String → Option String := fun _ => none
  readError : String → Option String := fun _ => none
  fails : Nat → Option (String × Option String) := fun _ => none
  order : Queue → Queue
  order_perm : ∀ l, (order l).Perm l

def maxFileBytes : Nat := 5*1024*1024

def maxEdits : Nat := 50

section

variable (ws : Workspace)

def Field.require (message : String) : Field → Except PatchError String
  | .text s => .ok s
  | _ => .error (.invalid message)

variable (defaultPath : Option String) (files : Files)

def editPath (i : Nat) (raw : RawEdit) : Except PatchError String :=
  match raw.path, defaultPath with
  | .text path, _ | .absent, some path => .ok path
  | .other, _ => .error (.invalid s!"edit[{i}]: `path` must be a string")
  | .absent, none => .error (.invalid (s!"edit[{i}]: missing `path` (give each edit a `path`, "++
      "or one top-level `path` for all edits)"))

def parseEdit (i : Nat) (raw : RawEdit) : Except PatchError ParsedEdit := do
  let path ← editPath defaultPath i raw
  let oldString ← raw.oldString.require s!"edit[{i}]: missing `old_string`"
  let newString ← raw.newString.require s!"edit[{i}]: missing `new_string`"
  let create := oldString.isEmpty
  if !ws.isPathStringAllowed path then .error (.refused s!"edit[{i}]: path not allowed: {path}")
  else if create && ws.pathExists path then
    .error (.refused (s!"edit[{i}]: `old_string` must not be empty for an existing file "++
      s!"({path}). Pass the exact text to replace, or write to a new path to create a file."))
  else return ⟨i,path,oldString,newString,raw.replaceAll.getD false,create⟩

def loadBuffer (edit : ParsedEdit) : Except PatchError FileBuffer := do
  let refuse (message : String) : PatchError := .refused s!"edit[{edit.index}]: {message}"
  if ws.isSymlink edit.path then throw (refuse "refusing to edit through symlink")
  let validate := if edit.create then ws.validateParentPath else ws.validatePath
  let resolved ← (validate edit.path).mapError refuse
  if edit.create then
    match ws.createDirError resolved with
    | some e => throw (refuse s!"failed to create parent of {edit.path}: {e}")
    | none => return ⟨resolved,none,edit.newString,1⟩
  let size := (files resolved).elim 0 String.utf8ByteSize
  if maxFileBytes < size then throw (refuse s!"file too large ({size} bytes)")
  match files resolved, ws.readError resolved with
  | some contents, none => return ⟨resolved,some contents,contents,0⟩
  | _, e => throw (refuse (s!"failed to read {edit.path}: "++e.getD ""))

def applyEdit (edit : ParsedEdit) (buf : FileBuffer) : Except PatchError FileBuffer := do
  let refuse (message : String) : PatchError := .refused s!"edit[{edit.index}]: {message}"
  if edit.create then
    throw (refuse s!"{edit.path} is created earlier in this batch; only one create per path")
  let count := ws.text.count buf.contents edit.oldString
  if count = 0 then throw (refuse s!"`old_string` not found in {edit.path}")
  if 1 < count ∧ !edit.replaceAll then
    throw (refuse s!"`old_string` matches {count} times in {edit.path}; pass `replace_all`")
  let replace := if edit.replaceAll then ws.text.replace else ws.text.replaceFirst
  return { buf with
    contents := replace buf.contents edit.oldString edit.newString
    editCount := buf.editCount+count }

def bufferEdit (buffers : Map String FileBuffer) (edit : ParsedEdit) :
    Except PatchError (Map String FileBuffer) := do
  match buffers.lookup edit.path with
  | some buf => return buffers.put edit.path (← applyEdit ws edit buf)
  | none =>
    let buf ← loadBuffer ws files edit
    if edit.create then return buffers.put edit.path buf
    else return buffers.put edit.path (← applyEdit ws edit buf)

def mayAct : Option (List RawEdit) → Except PatchError (List RawEdit)
  | none => .error (.invalid "Missing 'edits' array")
  | some edits =>
    if edits.isEmpty then .error (.refused "`edits` array is empty")
    else if maxEdits < edits.length then
      .error (.refused s!"Too many edits: {edits.length} (max {maxEdits})")
    else if !ws.canAct then
      .error (.refused "[policy-blocked] Action blocked: autonomy is read-only")
    else if ws.isRateLimited then
      .error (.refused "Rate limit exceeded: too many actions in the last hour")
    else if !ws.recordAction then
      .error (.refused "Rate limit exceeded: action budget exhausted")
    else .ok edits

def Field.asDefault : Field → Except PatchError (Option String)
  | .text path => .ok (some path)
  | .absent => .ok none
  | .other => .error (.invalid "top-level `path` must be a string")

def prepare (path : Field) (edits : Option (List RawEdit)) :
    Except PatchError (List ParsedEdit × Map String FileBuffer) := do
  let edits ← mayAct ws edits
  let defaultPath ← path.asDefault
  let parsed ← edits.zipIdx.mapM fun (raw,i) => parseEdit ws defaultPath i raw
  match parsed.findSome? fun edit => ws.stateMessage edit.path with
  | some message => .error (.refused message)
  | none => return (parsed,← parsed.foldlM (bufferEdit ws files) .empty)

def restoreOriginals (written : List FileBuffer) : Files :=
  written.foldl (fun files buf => update files buf.resolved buf.original) files

def summaryLine (path : String) (buf : FileBuffer) : String :=
  match buf.original with
  | none => s!"{path}: created ({buf.contents.utf8ByteSize} bytes)"
  | some _ => s!"{path}: {buf.editCount} replacement(s)"

def writeAll (k : Nat) (written : List FileBuffer) : Queue → Files → Except PatchError Unit × Files
  | [], files => (.ok (),files)
  | (path,buf) :: rest, files => match ws.fails k with
    | some (e,left) =>
      (.error (.refused (s!"Failed to write {path}: {e}"++
        "; previously-written files restored from snapshot")),
        restoreOriginals (update files buf.resolved left) written)
    | none => writeAll (k+1) (written++[buf]) rest
        (update files buf.resolved (some buf.contents))

def applyPatch (path : Field) (edits : Option (List RawEdit)) : Except PatchError String × Files :=
  match prepare ws files path edits with
  | .error e => (.error e,files)
  | .ok (parsed,buffers) =>
    let queue := ws.order buffers.entries
    let (done,files) := writeAll ws 0 [] queue files
    let summary := (queue.map fun (path,buf) => summaryLine path buf).insertionSort (· ≤ ·)
    (done.map fun _ => s!"Applied {parsed.length} edit(s) across {queue.length} file(s)\n"++
      "\n".intercalate summary,files)

variable (text : Text)

def editText (edit : ParsedEdit) (content : Option String) : Option String :=
  if edit.create then some edit.newString
  else content.bind fun c =>
    let count := text.count c edit.oldString
    let replace := if edit.replaceAll then text.replace else text.replaceFirst
    if count = 0 ∨ 1 < count ∧ edit.replaceAll = false then none
    else some (replace c edit.oldString edit.newString)

def editAll (edits : List ParsedEdit) (content : Option String) : Option (Option String) :=
  edits.foldlM (fun content edit => (editText text edit content).map some) content

end

section

variable {ws : Workspace} {files : Files} {edit : ParsedEdit} {buf buf' : FileBuffer}

theorem editText_of_applyEdit (h : applyEdit ws edit buf = .ok buf') :
    buf'.resolved = buf.resolved ∧ buf'.original = buf.original ∧
    editText ws.text edit (some buf.contents) = some buf'.contents := by
  simp only [applyEdit] at h
  split at h
  · cases h
  next hc =>
    split at h
    · cases h
    next h0 =>
      split at h
      · cases h
      next h1 =>
        cases h
        refine ⟨rfl,rfl,?_⟩
        simp only [editText,hc]
        simp_all

theorem loadBuffer_ok (h : loadBuffer ws files edit = .ok buf) :
    (if edit.create then ws.validateParentPath else ws.validatePath) edit.path = .ok buf.resolved ∧
      if edit.create then buf.original = none ∧ buf.contents = edit.newString
      else buf.original = some buf.contents ∧ files buf.resolved = some buf.contents := by
  simp only [loadBuffer] at h
  split at h
  · cases h
  · cases hv : (if edit.create then ws.validateParentPath else ws.validatePath) edit.path with
    | error => simp [hv,Except.mapError,bind,Except.bind] at h
    | ok resolved =>
      simp only [hv,Except.mapError,bind,Except.bind] at h
      split at h
      next hc =>
        split at h
        · cases h
        · cases h
          simp [hc]
      next hc =>
        split at h
        · cases h
        · split at h
          next hf _ =>
            cases h
            simp [hc,hf]
          · cases h

def target (ws : Workspace) (edits : List ParsedEdit) (path : String) : Option String :=
  (edits.find? fun edit => edit.path = path).bind fun edit =>
    ((if edit.create then ws.validateParentPath else ws.validatePath) path).toOption

def Fresh (ws : Workspace) (files : Files) (edits : List ParsedEdit) : Prop :=
  ∀ edit ∈ edits, edit.create = true → ∀ f, ws.validateParentPath edit.path = .ok f → files f = none

structure Buffered (ws : Workspace) (files : Files) (edits : List ParsedEdit) (path : String)
    (buf : FileBuffer) : Prop where
  target : target ws edits path = some buf.resolved
  original : Fresh ws files edits → buf.original = files buf.resolved
  contents : editAll ws.text (edits.filter fun edit => edit.path = path) (files buf.resolved) =
    some (some buf.contents)

structure AllBuffered (ws : Workspace) (files : Files) (edits : List ParsedEdit)
    (buffers : Map String FileBuffer) : Prop where
  all : ∀ edit ∈ edits, (buffers.lookup edit.path).isSome
  each : ∀ path buf, buffers.lookup path = some buf → Buffered ws files edits path buf

variable {edits rest : List ParsedEdit} {buffers buffers' : Map String FileBuffer} {path : String}

theorem Fresh.left (h : Fresh ws files (edits++rest)) : Fresh ws files edits :=
  fun edit he => h edit (mem_append_left _ he)

theorem target_append {f : String} (h : target ws edits path = some f) :
    target ws (edits++rest) path = some f := by
  unfold target at h ⊢
  cases hf : edits.find? fun edit => edit.path = path with
  | none => simp [hf] at h
  | some => simpa [List.find?_append,hf] using h

theorem Buffered.apply (h : Buffered ws files edits edit.path buf)
    (ha : applyEdit ws edit buf = .ok buf') : Buffered ws files (edits++[edit]) edit.path buf' := by
  obtain ⟨hres,horig,htext⟩ := editText_of_applyEdit ha
  refine ⟨?_,fun hf => ?_,?_⟩
  · rw [hres]
    exact target_append h.target
  · rw [horig,hres]
    exact h.original hf.left
  have hedits := h.contents
  unfold editAll at hedits ⊢
  simp [foldlM_append,hres,hedits,htext]

theorem buffered_first (hnone : ∀ e ∈ edits, e.path ≠ edit.path)
    (hload : loadBuffer ws files edit = .ok buf) (hres : buf'.resolved = buf.resolved)
    (horig : buf'.original = buf.original)
    (htext : editText ws.text edit (files buf.resolved) = some buf'.contents) :
    Buffered ws files (edits++[edit]) edit.path buf' := by
  obtain ⟨hvalid,hloaded⟩ := loadBuffer_ok hload
  have hfind : edits.find? (fun e => e.path = edit.path) = none := by simpa using hnone
  have hfilter : edits.filter (fun e => e.path = edit.path) = [] := by simpa using hnone
  refine ⟨?_,fun hf => ?_,?_⟩
  · simp [target,List.find?_append,hfind,hvalid,hres,Except.toOption]
  · rw [horig,hres]
    cases hc : edit.create with
    | true =>
      simp only [hc,if_true] at hvalid hloaded
      rw [hloaded.1,hf edit (by simp) hc _ hvalid]
    | false =>
      simp only [hc,Bool.false_eq_true,if_false] at hloaded
      rw [hloaded.1,hloaded.2]
  · simp [editAll,filter_append,hfilter,hres,htext]

section

variable (h : AllBuffered ws files edits buffers)
  (hb : bufferEdit ws files buffers edit = .ok buffers')

include h hb

theorem bufferEdit_ok :
    ∃ buf', buffers' = buffers.put edit.path buf' ∧
    Buffered ws files (edits++[edit]) edit.path buf' := by
  unfold bufferEdit at hb
  split at hb
  next buf hl =>
    obtain ⟨buf',ha,hb⟩ := ok_of_bind hb
    cases hb
    exact ⟨buf',rfl,(h.each _ _ hl).apply ha⟩
  next hl =>
    have hnone e (he : e ∈ edits) : e.path ≠ edit.path := fun hp => by
      simpa [hp,hl] using h.all e he
    obtain ⟨buf,hload,hb⟩ := ok_of_bind hb
    have hloaded := (loadBuffer_ok hload).2
    split at hb
    next hc =>
      cases hb
      refine ⟨buf,rfl,buffered_first hnone hload rfl rfl ?_⟩
      rw [if_pos hc] at hloaded
      simp [editText,hc,hloaded.2]
    next hc =>
      obtain ⟨buf',ha,hb⟩ := ok_of_bind hb
      cases hb
      obtain ⟨hres,horig,_⟩ := editText_of_applyEdit ha
      rw [if_neg hc] at hloaded
      refine ⟨buf',rfl,buffered_first hnone hload hres horig ?_⟩
      rwa [hloaded.2]

theorem allBuffered_step : AllBuffered ws files (edits++[edit]) buffers' := by
  obtain ⟨_,rfl,hnew⟩ := bufferEdit_ok h hb
  constructor
  · intro e he
    rw [Map.lookup_put]
    split
    · rfl
    next hne =>
      rcases mem_append.1 he with he | he
      · exact h.all e he
      · exact absurd (by rw [mem_singleton.1 he]) hne
  · intro path buf hl
    rw [Map.lookup_put] at hl
    split at hl
    next hp =>
      cases hl
      exact hp ▸ hnew
    next hne =>
      have hold := h.each path buf hl
      refine ⟨target_append hold.target,fun hf => hold.original hf.left,?_⟩
      simpa [filter_append,hne] using hold.contents

end

theorem allBuffered_foldlM (h : AllBuffered ws files edits buffers)
    (hb : rest.foldlM (bufferEdit ws files) buffers = .ok buffers') :
    AllBuffered ws files (edits++rest) buffers' := by
  induction rest generalizing edits buffers with
  | nil =>
    cases hb
    rwa [append_nil]
  | cons edit rest ih =>
    rw [foldlM_cons] at hb
    obtain ⟨_,hstep,hb⟩ := ok_of_bind hb
    simpa using ih (allBuffered_step h hstep) hb

variable {files' : Files} {f : String} {queue : Queue}

def store (files : Files) (queue : Queue) : Files :=
  queue.foldl (fun files entry => update files entry.2.resolved (some entry.2.contents))
    files

theorem store_apply :
    store files queue f =
      ((queue.filter fun entry => entry.2.resolved = f).getLast?.map fun entry =>
      some entry.2.contents).getD (files f) := by
  induction queue using List.reverseRecOn with
  | nil => rfl
  | append_singleton queue entry ih =>
    rw [store,foldl_append,filter_append]
    by_cases hf : entry.2.resolved = f
    · simp [hf]
    · rw [foldl_cons,foldl_nil,update_of_ne (Ne.symm hf)]
      simpa [hf,store] using ih

theorem restoreOriginals_apply {written} (h : ∀ buf ∈ written, buf.original = files buf.resolved) :
    restoreOriginals files' written f =
      if f ∈ written.map FileBuffer.resolved then files f else files' f := by
  induction written using List.reverseRecOn with
  | nil => rfl
  | append_singleton written buf ih =>
    have hrest := ih fun buf hb => h buf (mem_append_left _ hb)
    rw [restoreOriginals,foldl_append]
    by_cases hf : f = buf.resolved
    · subst hf
      simp [h buf (by simp)]
    · rw [foldl_cons,foldl_nil,update_of_ne hf]
      simpa [hf,restoreOriginals] using hrest

def firstFailure (ws : Workspace) (done : Queue) :
    Queue → Option (Queue × FileBuffer × Option String)
  | [] => none
  | entry :: queue => match ws.fails done.length with
    | some (_,left) => some (done,entry.2,left)
    | none => firstFailure ws (done++[entry]) queue

theorem writeAll_spec {done : Queue} :
    let out := writeAll ws done.length (done.map Prod.snd) queue (store files done)
    match firstFailure ws done queue with
    | none => out = (.ok (),store files (done++queue))
    | some (done,buf,left) => (∃ e, out.1 = .error e) ∧ out.2 = restoreOriginals
        (update (store files done) buf.resolved left) (done.map Prod.snd) := by
  induction queue generalizing done with
  | nil => simp [writeAll,firstFailure]
  | cons entry queue ih =>
    obtain ⟨path,buf⟩ := entry
    cases hf : ws.fails done.length with
    | some => simp [writeAll,firstFailure,hf]
    | none =>
      simpa [writeAll,firstFailure,hf,store,foldl_append] using @ih (done++[(path,buf)])

theorem firstFailure_done {done before : Queue} {buf : FileBuffer} {left}
    (h : firstFailure ws done queue = some (before,buf,left)) : before <+: done++queue := by
  induction queue generalizing done with
  | nil => cases h
  | cons entry queue ih =>
    unfold firstFailure at h
    split at h
    · cases h
      exact prefix_append _ _
    · simpa using ih h

end

variable {ws : Workspace} {files files' : Files} {path : Field} {raw : Option (List RawEdit)}
  {edits : List ParsedEdit} {buffers : Map String FileBuffer}

theorem parseEdit_create {defaultPath} {i : Nat} {raw : RawEdit} {edit : ParsedEdit}
    (h : parseEdit ws defaultPath i raw = .ok edit) (hc : edit.create) :
    ws.pathExists edit.path = false := by
  obtain ⟨_,-,h⟩ := ok_of_bind h
  obtain ⟨oldString,-,h⟩ := ok_of_bind h
  obtain ⟨_,-,h⟩ := ok_of_bind h
  dsimp only at h
  split at h
  · cases h
  · split at h
    · cases h
    next hn =>
      cases h
      simpa [show oldString.isEmpty from hc] using hn

theorem mapM_ok {α β : Type} {g : α → Except PatchError β} {P : β → Prop} {l : List α} {l' : List β}
    (h : l.mapM g = .ok l') (hg : ∀ a b, g a = .ok b → P b) : ∀ b ∈ l', P b := by
  induction l generalizing l' with
  | nil =>
    cases h
    simp
  | cons a l ih =>
    rw [mapM_cons] at h
    obtain ⟨b,hb,h⟩ := ok_of_bind h
    obtain ⟨_,hbs,h⟩ := ok_of_bind h
    cases h
    exact forall_mem_cons.2 ⟨hg a b hb,ih hbs⟩

theorem prepare_ok (h : prepare ws files path raw = .ok (edits,buffers)) :
    AllBuffered ws files edits buffers ∧
    ∀ edit ∈ edits, edit.create → ws.pathExists edit.path = false := by
  obtain ⟨_,-,h⟩ := ok_of_bind h
  obtain ⟨_,-,h⟩ := ok_of_bind h
  obtain ⟨_,hparsed,h⟩ := ok_of_bind h
  split at h
  · cases h
  · obtain ⟨_,hb,h⟩ := ok_of_bind h
    cases h
    exact ⟨allBuffered_foldlM (⟨by simp,by simp⟩ : AllBuffered ws files [] _) hb,
      mapM_ok hparsed fun _ _ => parseEdit_create⟩

theorem buffered_of_mem (h : AllBuffered ws files edits buffers) {entry}
    (he : entry ∈ ws.order buffers.entries) : Buffered ws files edits entry.1 entry.2 :=
  h.each _ _ (Map.lookup_eq_some.2 ((ws.order_perm _).mem_iff.1 he))

theorem applyPatch_of_prepare {x}
    (hprep : prepare ws files path raw = .ok (edits,buffers))
    (h : applyPatch ws files path raw = (x,files')) :
    match firstFailure ws [] (ws.order buffers.entries) with
    | none => (∃ message, x = .ok message) ∧ files' = store files (ws.order buffers.entries)
    | some (done,buf,left) => (∃ e, x = .error e) ∧ files' = restoreOriginals
        (update (store files done) buf.resolved left) (done.map Prod.snd) := by
  have hspec := @writeAll_spec ws files (ws.order buffers.entries) []
  simp only [applyPatch,hprep] at h
  obtain ⟨hx,hfiles⟩ := Prod.mk.inj h
  subst hx hfiles
  split at hspec
  · change writeAll ws 0 [] _ files = _ at hspec
    simp [hspec,Except.map]
  · obtain ⟨⟨e,he⟩,hfiles⟩ := hspec
    change (writeAll ws 0 [] _ files).1 = _ at he
    exact ⟨⟨e,by rw [he]; rfl⟩,hfiles⟩

def named (ws : Workspace) (edits : List ParsedEdit) (f : String) : List ParsedEdit :=
  edits.filter fun edit => target ws edits edit.path = some f

section

variable {message : String} (hprep : prepare ws files path raw = .ok (edits,buffers))
  (h : applyPatch ws files path raw = (.ok message,files'))

include hprep h

theorem applied_file (f : String) :
    (((ws.order buffers.entries).filter fun entry => entry.2.resolved = f).getLast? = none ∧
      named ws edits f = [] ∧ files' f = files f) ∨
    ∃ last ∈ ((ws.order buffers.entries).filter fun entry => entry.2.resolved = f).getLast?,
      target ws edits last.1 = some f ∧
      editAll ws.text (edits.filter fun edit => edit.path = last.1) (files f) =
        some (files' f) := by
  have hall := (prepare_ok hprep).1
  have hout := applyPatch_of_prepare hprep h
  split at hout
  · rw [hout.2,store_apply]
    cases hl : ((ws.order buffers.entries).filter fun entry => entry.2.resolved = f).getLast? with
    | none =>
      refine .inl ⟨rfl,filter_eq_nil_iff.2 fun edit he ht => ?_,rfl⟩
      obtain ⟨buf,hb⟩ := Option.isSome_iff_exists.1 (hall.all edit he)
      have hf : buf.resolved = f := by simpa [(hall.each _ _ hb).target] using ht
      have hmem : (edit.path,buf) ∈ ws.order buffers.entries :=
        (ws.order_perm _).mem_iff.2 (Map.lookup_eq_some.1 hb)
      simp only [List.getLast?_eq_none_iff,filter_eq_nil_iff] at hl
      exact hl _ hmem (by simpa using hf)
    | some entry =>
      obtain ⟨hmem,hf⟩ := mem_filter.1 (mem_of_getLast? hl)
      have hbuf := buffered_of_mem hall hmem
      obtain rfl := of_decide_eq_true hf
      exact .inr ⟨entry,rfl,hbuf.target,hbuf.contents⟩
  · simp at hout

theorem patch_applies_edits
    (hone : ∀ e ∈ edits, ∀ e' ∈ edits,
      target ws edits e.path = target ws edits e'.path → e.path = e'.path) (f : String) :
    editAll ws.text (named ws edits f) (files f) = some (files' f) := by
  obtain ⟨-,hnone,hf⟩ | ⟨last,-,ht,hf⟩ := applied_file hprep h f
  · rw [hnone,hf]
    rfl
  · rw [← hf,named]
    congr 1
    refine filter_congr fun e he => decide_eq_decide.2 ⟨fun hte => ?_,fun hp => hp ▸ ht⟩
    obtain ⟨e',hfind,-⟩ := Option.bind_eq_some_iff.1 ht
    have hp : e'.path = last.1 := by simpa using find?_some hfind
    exact hp ▸ hone e he e' (mem_of_find?_eq_some hfind) (hte.trans (hp ▸ ht.symm))

theorem patch_applies_edits_iff :
    (∀ f, editAll ws.text (named ws edits f) (files f) = some (files' f)) ↔
    ∀ f, ∀ last ∈ ((ws.order buffers.entries).filter fun entry => entry.2.resolved = f).getLast?,
    editAll ws.text (named ws edits f) (files f) =
      editAll ws.text (edits.filter fun edit => edit.path = last.1) (files f) := by
  refine forall_congr' fun f => ?_
  obtain ⟨hl,hnone,hf⟩ | ⟨last,hl,-,hf⟩ := applied_file hprep h f
  · rw [hl,hnone,hf]
    exact iff_of_true rfl (by simp)
  · rw [Option.mem_def.1 hl,← hf]
    simp

end

def exchange (c old new : String) : String :=
  .ofList (c.toList.map fun d => if [d] = old.toList then new.front else d)

def letters : Text :=
  ⟨fun c old => (c.toList.filter fun d => [d] = old.toList).length,exchange,exchange⟩

def folder : Files := fun f => if f = "a" then some "xy" else none

def desk (fails : Nat → Option (String × Option String)) : Workspace where
  text := letters
  pathExists := fun path => path ∈ ["a","./a"]
  validatePath := fun path => .ok (if path = "./a" then "a" else path)
  validateParentPath := .ok
  fails := fails
  order := id
  order_perm := .refl

def swap (path old new : String) : RawEdit := ⟨.text path,.text old,.text new,none⟩

def oneSwap : Option (List RawEdit) := some [swap "a" "x" "1"]

def calm : Workspace := desk fun _ => none

def denied : Workspace := desk fun _ => some ("denied",some "xy")

theorem patch_applies_edits_iff_single :
    ∃ edits buffers message files', prepare calm folder .absent oneSwap = .ok (edits,buffers) ∧
    applyPatch calm folder .absent oneSwap = (.ok message,files') ∧
    ∀ f, editAll letters (named calm edits f) (folder f) = some (files' f) := by
  have hprep : prepare calm folder .absent oneSwap = .ok (_,_) := rfl
  have h : applyPatch calm folder .absent oneSwap = (.ok _,_) := rfl
  refine ⟨_,_,_,_,hprep,h,(patch_applies_edits_iff hprep h).2 fun f last hlast => ?_⟩
  obtain ⟨hm,hf⟩ := mem_filter.1 (mem_of_getLast? hlast)
  obtain rfl := mem_singleton.1 hm
  obtain rfl : "a" = f := of_decide_eq_true hf
  rfl

theorem two_spellings_lose_edit : let edits := some [swap "a" "x" "1",swap "./a" "y" "2"]
    (prepare calm folder .absent edits).toOption.map (fun x =>
        editAll letters (named calm x.1 "a") (folder "a")) =
      some (some (some "12")) ∧
    let out := applyPatch calm folder .absent edits
    out.1.isOk = true ∧ out.2 "a" = some "1y" := by
  decide +kernel

theorem patch_error_restores_iff {e : PatchError}
    (hnew : ∀ path f, ws.pathExists path = false →
      ws.validateParentPath path = .ok f → files f = none)
    (h : applyPatch ws files path raw = (.error e,files')) :
    files' = files ↔
      ∀ edits buffers, prepare ws files path raw = .ok (edits,buffers) →
      ∀ done buf left, firstFailure ws [] (ws.order buffers.entries) = some (done,buf,left) →
      left = files buf.resolved ∨ buf.resolved ∈ done.map fun entry => entry.2.resolved := by
  cases hprep : prepare ws files path raw with
  | error =>
    simp only [applyPatch,hprep] at h
    cases h
    exact iff_of_true rfl (by simp)
  | ok prepared =>
    obtain ⟨edits,_⟩ := prepared
    obtain ⟨hall,hcreates⟩ := prepare_ok hprep
    have hout := applyPatch_of_prepare hprep h
    split at hout
    · simp at hout
    next done buf left hfail =>
      have hfresh : Fresh ws files edits := fun edit he hc f hv =>
        hnew edit.path f (hcreates edit he hc) hv
      have hdone (entry : String × FileBuffer) (he : entry ∈ done) :
          entry.2.original = files entry.2.resolved :=
        (buffered_of_mem hall ((firstFailure_done hfail).subset he)).original hfresh
      have hfile f : files' f = if f ∈ done.map (fun entry => entry.2.resolved) then files f
          else if f = buf.resolved then left else files f := by
        rw [hout.2,restoreOriginals_apply (forall_mem_map.2 hdone),map_map]
        change (if f ∈ done.map fun entry => entry.2.resolved then _ else _) = _
        split
        · rfl
        next hmem =>
          rw [update_apply,store_apply]
          have hnone : (done.filter fun entry => entry.2.resolved = f) = [] := by
            simpa [filter_eq_nil_iff] using hmem
          rw [hnone]
          rfl
      constructor
      · rintro rfl _ _ ⟨⟩ _ _ _ hfail'
        cases hfail.symm.trans hfail'
        by_cases hmem : buf.resolved ∈ done.map fun entry => entry.2.resolved
        · exact .inr hmem
        have hself := hfile buf.resolved
        rw [if_neg hmem,if_pos rfl] at hself
        exact .inl hself.symm
      · intro hcond
        funext f
        rw [hfile]
        split
        · rfl
        next hmem =>
          split
          next hf =>
            subst hf
            exact (hcond _ _ rfl _ _ _ hfail).resolve_right hmem
          · rfl

theorem patch_error_restores_iff_refused :
    ∃ e files', applyPatch denied folder .absent oneSwap = (.error e,files') ∧ files' = folder := by
  have hnew path f (hp : denied.pathExists path = false)
      (hv : denied.validateParentPath path = .ok f) : folder f = none := by
    cases hv
    simp only [denied,desk,mem_cons,decide_eq_false_iff_not,not_or] at hp
    exact if_neg hp.1
  have h : applyPatch denied folder .absent oneSwap = (.error _,_) := rfl
  refine ⟨_,_,h,(patch_error_restores_iff hnew h).2 ?_⟩
  rintro _ _ hprep _ _ _ hfail
  have hprep' : prepare denied folder .absent oneSwap = .ok (_,_) := rfl
  cases hprep'.symm.trans hprep
  cases hfail
  exact .inl rfl

theorem failed_write_truncates :
    let out := applyPatch (desk fun _ => some ("disk full",some "")) folder .absent oneSwap
    out.1.isOk = false ∧ folder "a" = some "xy" ∧ out.2 "a" = some "" := by
  decide +kernel

end HarnessTools.Patches
