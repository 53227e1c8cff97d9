import TinyAgents.Interaction.Renaming
import TinyAgents.Interaction.Text
import TinyAgents.Harness.ToolCalls

namespace Harness.Handoff

open Interaction List Option
open Harness.AgentLoop (ToolCall)

-- `X` is what is passed on unread: images, other blocks, usages, artifacts.
inductive ContentBlock (X : Type) where
  | text (text : String)
  | thinking (text : String) (signature : Option String)
  | redactedThinking (data : String)
  | image (image : X)
  | other (block : X)

structure MessageOrigin where
  provider : String
  api : String
  model : String
  deriving DecidableEq

structure AssistantMessage (V X : Type) where
  id : Option String := none
  content : List (ContentBlock X) := []
  toolCalls : List (ToolCall V) := []
  usage : Option X := none
  origin : Option MessageOrigin := none

structure ToolMessage (X : Type) where
  toolCallId : String
  content : List (ContentBlock X) := []
  trustedVerbatim : Bool := false
  artifact : Option X := none

inductive Message (V X : Type) where
  | system (message : X)
  | user (content : List (ContentBlock X))
  | assistant (assistant : AssistantMessage V X)
  | tool (tool : ToolMessage X)
  | custom (message : X)

structure ModelProfile where
  provider : Option String := none
  model : Option String := none
  imageIn : Bool := false
  toolCallIdPattern : Option String := none
  maxToolCallIdLen : Option Nat := none

structure HandoffTransformOutcome (V X : Type) where
  messages : List (Message V X)
  changes : Nat

section

variable {V X : Type}

def imagePlaceholder : String := "[image omitted: not supported by the target model]"

def targetOriginFor (profile : ModelProfile) : MessageOrigin :=
  let provider := profile.provider.getD ""
  { provider := provider
    api := if provider = "anthropic" then "messages" else
      if provider = "" then "" else "chat_completions"
    model := profile.model.getD "" }

variable (target : ModelProfile) (content : List (ContentBlock X))

def toolCallIdConforms (idPattern : Option (String → Bool)) (id : String) : Bool :=
  let fits := match target.maxToolCallIdLen with
    | some maxLen => id.length ≤ maxLen
    | none => true
  fits && match idPattern with
    | some pattern => pattern id
    | none => true

def isForeign (targetOrigin : MessageOrigin) (idPattern : Option (String → Bool))
    (assistant : AssistantMessage V X) : Bool :=
  match assistant.origin with
  | some origin => origin != targetOrigin
  | none => assistant.content.any (fun
      | .redactedThinking _ => true
      | .thinking _ (some _) => true
      | .image _ => !target.imageIn
      | _ => false) ||
      assistant.toolCalls.any fun call => !toolCallIdConforms target idPattern call.id

def isImage : ContentBlock X → Bool
  | .image _ => true
  | _ => false

def contentNeedsImageDowngrade : Bool :=
  !target.imageIn && content.any isImage

def downgradeImages : List (ContentBlock X) :=
  if target.imageIn then content
  else content.map fun
    | .image _ => .text imagePlaceholder
    | other => other

def truncated (limit : Option Nat) (id : String) : String :=
  match limit with
  | none => id
  | some limit => String.ofList (id.toList.take limit)

def sanitized (id : String) : String :=
  let clean := String.ofList (id.toList.map fun c =>
    if c.isAlphanum || c == '_' || c == '-' then c else '_')
  if clean = "" then "tc" else clean

def candidate (limit : Option Nat) (base : String) : Nat → String
  | 0 => base
  | n+1 =>
    let suffix := "-"++toString (n+1)
    truncated (limit.map fun limit => max (limit-suffix.length) 1) base++suffix

def mintToolCallId (id : String) (used : List String) : Option String :=
  let base := truncated target.maxToolCallIdLen (sanitized id)
  (seek used (candidate target.maxToolCallIdLen base) (used.length+2) 0).map
    (candidate target.maxToolCallIdLen base)

def transformAssistant (idMap : Renaming String)
    (assistant : AssistantMessage V X) : AssistantMessage V X where
  id := assistant.id
  content := assistant.content.filterMap fun
    | .redactedThinking _ => none
    | .thinking text (some _) => if text = "" then none else some (.text text)
    | .image image => if target.imageIn then some (.image image) else some (.text imagePlaceholder)
    | other => some other
  toolCalls := assistant.toolCalls.map fun call => { call with id := idMap.rename call.id }
  usage := assistant.usage
  origin := none

section

variable (target : ModelProfile) (targetOrigin : MessageOrigin) (idPattern : Option (String → Bool))

def scanCalls (foreign : Bool) : List (ToolCall V) → Renaming String → Option (Renaming String)
  | [], r => some r
  | call :: calls, r =>
    if foreign && !toolCallIdConforms target idPattern call.id then do
      let newId ← mintToolCallId target call.id r.used
      scanCalls foreign calls ⟨newId :: r.used,(call.id,newId) :: r.names⟩
    else scanCalls foreign calls { r with used := call.id :: r.used }

def scan : List (Message V X) → Renaming String → Option (Renaming String)
  | [], r => some r
  | .assistant assistant :: messages, r => do
    let foreign := isForeign target targetOrigin idPattern assistant
    let r ← scanCalls target idPattern foreign assistant.toolCalls r
    scan messages r
  | _ :: messages, r => scan messages r

def needsRewrite : Message V X → Bool
  | .assistant assistant => isForeign target targetOrigin idPattern assistant
  | .user content => contentNeedsImageDowngrade target content
  | .tool tool => contentNeedsImageDowngrade target tool.content
  | .system _ => false
  | .custom _ => false

def rewrite (idMap : Renaming String) : Message V X → Message V X × Bool
  | .assistant assistant =>
    if isForeign target targetOrigin idPattern assistant then
      (.assistant (transformAssistant target idMap assistant),true)
    else (.assistant assistant,false)
  | .tool tool =>
    let remappedId := idMap.names.lookup tool.toolCallId
    let downgrade := contentNeedsImageDowngrade target tool.content
    if remappedId.isSome || downgrade then
      (.tool { tool with
        toolCallId := remappedId.getD tool.toolCallId
        content := if downgrade then downgradeImages target tool.content else tool.content },true)
    else (.tool tool,false)
  | .user content =>
    if contentNeedsImageDowngrade target content then
      (.user (downgradeImages target content),true)
    else (.user content,false)
  | other => (other,false)

end

variable (compile : String → Option (String → Bool)) (target : ModelProfile)

def idPattern : Option (String → Bool) :=
  target.toolCallIdPattern.bind compile

def prepareForModel (targetOrigin : MessageOrigin)
    (messages : List (Message V X)) : Option (HandoffTransformOutcome V X) := do
  let idPattern := idPattern compile target
  let idMap ← scan target targetOrigin idPattern messages {}
  if idMap.names.isEmpty && !messages.any (needsRewrite target targetOrigin idPattern) then
    return { messages := messages, changes := 0 }
  else
    let out := messages.map (rewrite target targetOrigin idPattern idMap)
    return { messages := out.map Prod.fst, changes := out.countP Prod.snd }

variable {limit : Option Nat} {base : String}

theorem candidate_injective {i j : Nat} (hi : 0 < i) (hj : 0 < j)
    (h : candidate limit base i = candidate limit base j) : i = j := by
  obtain ⟨i,rfl⟩ : ∃ k, i = k+1 := ⟨i-1,by omega⟩
  obtain ⟨j,rfl⟩ : ∃ k, j = k+1 := ⟨j-1,by omega⟩
  have hlist := congrArg String.toList h
  simp only [candidate,String.toList_append] at hlist
  exact (append_number_inj (c := '-') (by decide) (by simpa using hlist)).2

theorem mintToolCallId_isSome (id : String) (used : List String) :
    (mintToolCallId target id used).isSome := by
  rw [mintToolCallId,isSome_map]
  exact seek_isSome (fun _ _ => candidate_injective) (Nat.lt_succ_self _)

end

variable {V X : Type}

def Message.callIds : Message V X → List String
  | .assistant turn => turn.toolCalls.map ToolCall.id
  | _ => []

def Message.rowIds : Message V X → List String
  | .tool row => [row.toolCallId]
  | _ => []

def callIds (messages : List (Message V X)) : List String := messages.flatMap Message.callIds

def rowIds (messages : List (Message V X)) : List String := messages.flatMap Message.rowIds

inductive Shape where
  | system
  | user
  | assistant (calls : Nat)
  | tool
  | custom

def Message.shape : Message V X → Shape
  | .system _ => .system
  | .user _ => .user
  | .assistant turn => .assistant turn.toolCalls.length
  | .tool _ => .tool
  | .custom _ => .custom

structure Preserved (messages messages' : List (Message V X)) : Prop where
  shape : messages'.map Message.shape = messages.map Message.shape
  calls : ∀ p ∈ (callIds messages).zip (callIds messages'),
    ∀ q ∈ (callIds messages).zip (callIds messages'), p.2 = q.2 → p.1 = q.1
  answers : ∀ p ∈ (rowIds messages).zip (rowIds messages'),
    ∀ q ∈ (callIds messages).zip (callIds messages'), p.2 = q.2 ↔ p.1 = q.1

section

variable (target : ModelProfile) (targetOrigin : MessageOrigin) (pattern : Option (String → Bool))

def Message.marked : Message V X → List (Bool × String)
  | .assistant turn => turn.toolCalls.map fun call =>
    (isForeign target targetOrigin pattern turn &&
      !toolCallIdConforms target pattern call.id,call.id)
  | _ => []

def marked (messages : List (Message V X)) : List (Bool × String) :=
  messages.flatMap (Message.marked target targetOrigin pattern)

end

variable {target : ModelProfile} {targetOrigin : MessageOrigin} {pattern : Option (String → Bool)}
  {idMap : Renaming String} {messages : List (Message V X)}

theorem scanCalls_eq_assign (foreign : Bool) (calls : List (ToolCall V)) (r : Renaming String) :
    scanCalls target pattern foreign calls r =
      assign (mintToolCallId target)
      (calls.map fun call => (foreign && !toolCallIdConforms target pattern call.id,call.id))
      r := by
  induction calls generalizing r with
  | nil => rfl
  | cons call _ ih =>
    rw [scanCalls,map_cons]
    cases hm : foreign && !toolCallIdConforms target pattern call.id with
    | false => exact ih _
    | true =>
      rw [if_pos rfl,assign]
      simp only [ih]

theorem scan_eq_assign (r : Renaming String) :
    scan target targetOrigin pattern messages r =
      assign (mintToolCallId target) (marked target targetOrigin pattern messages) r := by
  induction messages generalizing r with
  | nil => rfl
  | cons message _ ih =>
    rw [marked,flatMap_cons]
    cases message with
    | assistant =>
      rw [assign_append,← marked,Message.marked,← scanCalls_eq_assign]
      simp only [scan,ih]
      rfl
    | _ => exact ih r

theorem marked_ids :
    (marked target targetOrigin pattern messages).map Prod.snd = callIds messages := by
  rw [marked,callIds,map_flatMap]
  refine flatMap_congr fun message _ => ?_
  cases message with
  | assistant => simp [Message.marked,Message.callIds]
  | _ => rfl

theorem rewrite_shape (message : Message V X) :
    (rewrite target targetOrigin pattern idMap message).1.shape = message.shape := by
  cases message with
  | assistant =>
    rw [rewrite]
    split
    · simp [Message.shape,transformAssistant]
    · rfl
  | tool | user =>
    rw [rewrite]
    split <;> rfl
  | _ => rfl

theorem rewrite_rowIds {message : Message V X} :
    (rewrite target targetOrigin pattern idMap message).1.rowIds =
      message.rowIds.map idMap.rename := by
  cases message with
  | assistant | user =>
    rw [rewrite]
    split <;> rfl
  | tool tool =>
    rw [rewrite]
    split
    · rfl
    next hkept =>
      have hnone : idMap.names.lookup tool.toolCallId = none :=
        not_isSome_iff_eq_none.1 fun hs => hkept (Bool.or_eq_true_iff.2 (.inl hs))
      simp [Message.rowIds,Renaming.rename,hnone]
  | _ => rfl

theorem rewrite_callIds (hnd : (callIds messages).Nodup)
    (h : scan target targetOrigin pattern messages {} = some idMap) {message}
    (hm : message ∈ messages) :
    (rewrite target targetOrigin pattern idMap message).1.callIds =
      message.callIds.map idMap.rename := by
  cases message with
  | assistant assistant =>
    rw [rewrite]
    split
    · simp [Message.callIds,transformAssistant]
    next hforeign =>
      have hkept : ∀ id ∈ assistant.toolCalls.map ToolCall.id, id = idMap.rename id := by
        rintro _ hid
        obtain ⟨call,hcall,rfl⟩ := mem_map.1 hid
        rw [scan_eq_assign] at h
        refine (assign_rename h (marked_once (marked_ids ▸ hnd) ?_)).symm
        refine mem_flatMap.2 ⟨_,hm,mem_map.2 ⟨call,hcall,?_⟩⟩
        rw [eq_false_of_ne_true hforeign,Bool.false_and]
      exact (map_id' _).symm.trans (map_congr_left hkept)
  | tool | user =>
    rw [rewrite]
    split <;> rfl
  | _ => rfl

theorem prepareForModel_ids {compile} (hnd : (callIds messages).Nodup) :
    ∃ idMap out, scan target targetOrigin (idPattern compile target) messages {} = some idMap ∧
    prepareForModel compile target targetOrigin messages = some out ∧
    out.messages.map Message.shape = messages.map Message.shape ∧
    callIds out.messages = (callIds messages).map idMap.rename ∧
    rowIds out.messages = (rowIds messages).map idMap.rename := by
  have hsome : (scan target targetOrigin (idPattern compile target) messages {}).isSome := by
    rw [scan_eq_assign]
    exact assign_isSome (mintToolCallId_isSome target)
  obtain ⟨idMap,hscan⟩ := isSome_iff_exists.1 hsome
  refine ⟨idMap,?_⟩
  rw [prepareForModel]
  simp only [hscan,bind_eq_bind,bind_some,true_and]
  split
  next hsame =>
    have hempty : idMap.names = [] := isEmpty_iff.1 (Bool.and_eq_true_iff.1 hsame).1
    have hid : idMap.rename = id := by
      funext key
      simp [Renaming.rename,hempty]
    exact ⟨_,rfl,rfl,by simp [hid],by simp [hid]⟩
  · refine ⟨_,rfl,?_,?_,?_⟩
    · simp [rewrite_shape]
    · rw [callIds,callIds,List.map_map,List.flatMap_map,List.map_flatMap]
      exact List.flatMap_congr fun message hm => rewrite_callIds hnd hscan hm
    · rw [rowIds,rowIds,List.map_map,List.flatMap_map,List.map_flatMap]
      exact List.flatMap_congr fun message _ => rewrite_rowIds

theorem mem_zip_map {f : String → String} {ids : List String} {p : String × String} :
    p ∈ ids.zip (ids.map f) ↔ p.1 ∈ ids ∧ p.2 = f p.1 := by
  rw [← map_prod_left_eq_zip,List.mem_map]
  constructor
  · rintro ⟨_,hid,rfl⟩
    exact ⟨hid,rfl⟩
  · rintro ⟨hid,hp⟩
    exact ⟨p.1,hid,Prod.ext rfl hp.symm⟩

def clashes (compile : String → Option (String → Bool)) (target : ModelProfile)
    (targetOrigin : MessageOrigin) (messages : List (Message V X)) : Bool :=
  Interaction.clashes (mintToolCallId target)
    (marked target targetOrigin (idPattern compile target) messages) []

theorem handoff_preserves_iff (compile : String → Option (String → Bool)) (target : ModelProfile)
    (targetOrigin : MessageOrigin) (messages : List (Message V X))
    (hpaired : ∀ id ∈ rowIds messages, id ∈ callIds messages) (hnd : (callIds messages).Nodup) :
    ∃ out, prepareForModel compile target targetOrigin messages = some out ∧
    (Preserved messages out.messages ↔ clashes compile target targetOrigin messages = false) := by
  obtain ⟨idMap,out,hscan,hout,hshape,hcalls,hrows⟩ :=
    prepareForModel_ids hnd
  refine ⟨out,hout,?_⟩
  have hassign := hscan
  rw [scan_eq_assign] at hassign
  have hinj := renamed_nodup_iff (fun _ _ _ h => by
    obtain ⟨n,hn,rfl⟩ := map_eq_some_iff.1 h
    exact (seek_spec hn).1) (marked_ids ▸ hnd) hassign fun _ _ => rfl
  rw [marked_ids,nodup_map_iff_inj_on hnd] at hinj
  rw [clashes,← hinj]
  constructor
  · intro h a ha b hb he
    have hcall id (hid : id ∈ callIds messages) :
        (id,idMap.rename id) ∈ (callIds messages).zip (callIds out.messages) := by
      rw [hcalls]
      exact mem_zip_map.2 ⟨hid,rfl⟩
    exact h.calls _ (hcall a ha) _ (hcall b hb) he
  · intro h
    refine ⟨hshape,?_,?_⟩
    · rw [hcalls]
      rintro p hp q hq he
      obtain ⟨hp,hpe⟩ := mem_zip_map.1 hp
      obtain ⟨hq,hqe⟩ := mem_zip_map.1 hq
      exact h _ hp _ hq (hpe ▸ hqe ▸ he)
    · rw [hcalls,hrows]
      rintro p hp q hq
      obtain ⟨hp,hpe⟩ := mem_zip_map.1 hp
      obtain ⟨hq,hqe⟩ := mem_zip_map.1 hq
      rw [hpe,hqe]
      exact ⟨h _ (hpaired _ hp) _ hq,congrArg idMap.rename⟩

def twoTurns (first second : String) : List (Message Unit Unit) :=
  [.assistant { toolCalls := [{ id := first, name := "read", arguments := () }]
                origin := some ⟨"openai","responses","a"⟩ },
    .tool { toolCallId := first },
    .assistant { toolCalls := [{ id := second, name := "read", arguments := () }]
                 origin := some ⟨"anthropic","messages","b"⟩ },
    .tool { toolCallId := second }]

def strictIds : ModelProfile :=
  { provider := some "anthropic", model := some "b", imageIn := true
    toolCallIdPattern := some "^[a-zA-Z0-9_-]{1,64}$", maxToolCallIdLen := some 64 }

def compileStrict (_ : String) : Option (String → Bool) :=
  some fun id => id.toList.all fun c => c.isAlphanum || c == '_' || c == '-'

theorem handoff_preserves_iff_spaced :
    clashes compileStrict strictIds (targetOriginFor strictIds) (twoTurns "a b" "c") = false ∧
    ∃ out, prepareForModel compileStrict strictIds (targetOriginFor strictIds)
        (twoTurns "a b" "c") = some out ∧ Preserved (twoTurns "a b" "c") out.messages := by
  have hclear : clashes compileStrict strictIds (targetOriginFor strictIds)
      (twoTurns "a b" "c") = false := by decide +kernel
  obtain ⟨out,hout,hiff⟩ := handoff_preserves_iff compileStrict strictIds
    (targetOriginFor strictIds) (twoTurns "a b" "c") (by decide) (by decide)
  exact ⟨hclear,out,hout,hiff.2 hclear⟩

-- The id minted for the first call is that of the second, which is kept.
theorem minted_id_taken :
    ∃ out,
    prepareForModel compileStrict strictIds (targetOriginFor strictIds) (twoTurns "a b" "a_b") =
      some out ∧ callIds (twoTurns "a b" "a_b") = ["a b","a_b"] ∧
    callIds out.messages = ["a_b","a_b"] ∧ ¬ Preserved (twoTurns "a b" "a_b") out.messages := by
  have hids : (prepareForModel compileStrict strictIds (targetOriginFor strictIds)
      (twoTurns "a b" "a_b")).any (fun out => callIds out.messages == ["a_b","a_b"]) = true := by
    decide +kernel
  obtain ⟨out,hout,hcalls⟩ := (any_eq_true _ _).1 hids
  have hcalls : callIds out.messages = ["a_b","a_b"] := eq_of_beq hcalls
  refine ⟨out,hout,rfl,hcalls,fun h => ?_⟩
  have hsame := h.calls
  rw [hcalls] at hsame
  have := hsame ("a b","a_b") (by decide) ("a_b","a_b") (by decide) rfl
  revert this
  decide

end Harness.Handoff
