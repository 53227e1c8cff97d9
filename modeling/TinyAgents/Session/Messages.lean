import Mathlib.Data.Finmap
import Mathlib.Data.List.Forall2
import TinyAgents.Interaction.Text

namespace Session

structure F64 where
  bits : BitVec 64
  deriving DecidableEq

-- `N` is the type of the JSON values that are carried and never looked into.
inductive Metadata (N : Type) where
  | object (fields : Finmap fun _ : String => N)
  | other (value : N)
  deriving DecidableEq

def Metadata.get {N : Type} (key : String) : Metadata N → Option N
  | .object fields => fields.lookup key
  | .other _ => none

variable (N : Type)

structure TranscriptToolCall where
  id : String
  name : String
  arguments : String
  extraContent : Option N
  deriving DecidableEq

inductive TranscriptMediaRef where
  | path (path : String)
  | url (url : String)
  deriving DecidableEq

inductive TranscriptPart where
  | text (text : String)
  | image (url : String)
  | audio (source : TranscriptMediaRef) (mimeType : String)
  | video (source : TranscriptMediaRef) (mimeType : String)
  | document (source : TranscriptMediaRef) (mimeType : String)
  deriving DecidableEq

inductive ContentPart where
  | text (text : String)
  | image (url : String)

structure ToolFailure where
  failed : Bool
  detail : Option String
  deriving DecidableEq

inductive UsageCostSource where
  | charged
  | estimated
  | unknown
  deriving DecidableEq

structure MessageUsage where
  input : Nat
  output : Nat
  cachedInput : Nat
  contextWindow : Nat
  costUsd : F64
  lastCallInput : Nat
  lastCallOutput : Nat
  costSource : Option UsageCostSource
  deriving DecidableEq

structure TurnUsage where
  provider : String
  model : String
  usage : MessageUsage
  ts : String
  reasoningContent : Option String
  toolCalls : List (TranscriptToolCall N)
  iteration : Nat
  deriving DecidableEq

structure BackgroundOrigin where
  idempotencyKey : String
  provenance : N

structure TranscriptMessage where
  id : Option String := none
  role : String
  content : String
  toolCalls : List (TranscriptToolCall N) := []
  toolCallId : Option String := none
  parts : Option (List TranscriptPart) := none
  legacy : Option String := none
  extraMetadata : Option (Metadata N) := none
  cacheBreakpoints : List Nat := []
  turnUsage : Option (TurnUsage N) := none
  requestId : Option String := none
  preserveRequestId : Bool := false
  interrupted : Bool := false
  toolFailure : Option ToolFailure := none
  deriving DecidableEq

structure TranscriptMeta where
  agentName : String
  agentId : Option String := none
  created : String := ""
  chargedAmountUsd : F64 := ⟨0⟩
  threadId : Option String := none
  sessionId : Option String := none
  parentSessionId : Option String := none
  deriving DecidableEq

structure TranscriptPartial where
  content : String
  reasoningContent : Option String := none
  iteration : Option Nat := none
  deriving DecidableEq

structure TranscriptTurn where
  prev : List (TranscriptMessage N)
  next : List (TranscriptMessage N)
  transcriptMeta : TranscriptMeta
  turnUsage : Option (TurnUsage N) := none
  requestId : Option String := none
  tools : Option N := none
  deriving DecidableEq

structure Dialect where
  parseAssistantEnvelope : String → Option (String × List (TranscriptToolCall N))
  parseCanonicalAssistantEnvelope : String → Option (String × List (TranscriptToolCall N))
  encodeAssistantEnvelope : String → List (TranscriptToolCall N) → String
  parseToolEnvelope : String → Option (String × String)
  parseCanonicalToolEnvelope : String → Option (String × String)
  encodeToolEnvelope : String → String → String
  splitImageParts : String → List ContentPart
  joinImageParts : List ContentPart → String
  parseMediaParts : String → Option (List TranscriptPart)
  encodeMediaParts : List TranscriptPart → String
  parseOrigin : N → Option (BackgroundOrigin N)
  originValue : BackgroundOrigin N → N
  nested : Metadata N → N
  asStr : N → Option String
  envelopeReasoning : String → Option String
  envelopeToolCalls : String → Option (List (TranscriptToolCall N))
  calls_ne_nil : ∀ text content calls,
    parseAssistantEnvelope text = some (content,calls) → calls ≠ []
  assistant_inverse : ∀ content calls, calls ≠ [] →
    parseAssistantEnvelope (encodeAssistantEnvelope content calls) = some (content,calls)
  tool_inverse : ∀ id content,
    parseToolEnvelope (encodeToolEnvelope id content) = some (id,content)

def TranscriptPart.isMedia : TranscriptPart → Bool
  | .audio _ _ | .video _ _ | .document _ _ => true
  | _ => false

def TranscriptPart.ofContent : ContentPart → TranscriptPart
  | .text s => .text s
  | .image url => .image url

def TranscriptPart.asText : TranscriptPart → Option String
  | .text s => some s
  | _ => none

def ContentPart.isImage : ContentPart → Bool
  | .image _ => true
  | .text _ => false

def partsText (parts : List TranscriptPart) : String :=
  String.join (parts.filterMap TranscriptPart.asText)

variable {N : Type}

structure Envelope (N : Type) where
  content : String
  toolCalls : List (TranscriptToolCall N) := []
  toolCallId : Option String := none
  parts : Option (List TranscriptPart) := none

section

variable (D : Dialect N)

def mediaParts (content : String) : Option (List TranscriptPart) :=
  (D.parseMediaParts content).filter fun parts =>
    parts.any TranscriptPart.isMedia && D.encodeMediaParts parts == content

def imageParts (content : String) : Option (List TranscriptPart) :=
  if (D.splitImageParts content).any ContentPart.isImage then
    some ((D.splitImageParts content).map TranscriptPart.ofContent)
  else none

def envelope (role content : String) : Option (Envelope N) :=
  if role = "assistant" then
    (D.parseAssistantEnvelope content).map fun (content,calls) =>
      { content := content, toolCalls := calls }
  else if role = "tool" then
    (D.parseToolEnvelope content).map fun (toolCallId,content) =>
      { content := content, toolCallId := some toolCallId }
  else if role = "user" then
    ((mediaParts D content).or (imageParts D content)).map fun parts =>
      { content := partsText parts, parts := some parts }
  else none

end

namespace TranscriptMessage

variable (m : TranscriptMessage N)

def isTyped : Bool :=
  !m.toolCalls.isEmpty || m.toolCallId.isSome || m.parts.isSome

def carrying (e : Envelope N) : TranscriptMessage N :=
  { m with
    content := e.content, toolCalls := e.toolCalls, toolCallId := e.toolCallId, parts := e.parts }

def normalized (D : Dialect N) (m : TranscriptMessage N) : TranscriptMessage N :=
  if m.isTyped then m
  else
    match envelope D m.role m.content with
    | none => m
    | some e =>
      { m.carrying e with
        legacy := if (m.carrying e).isTyped then some m.content else m.legacy }

def SameStructure (m n : TranscriptMessage N) : Prop :=
  m.role = n.role ∧ m.content = n.content ∧ m.toolCalls = n.toolCalls ∧
    m.toolCallId = n.toolCallId ∧ m.parts = n.parts

instance [DecidableEq N] (m n : TranscriptMessage N) : Decidable (m.SameStructure n) :=
  inferInstanceAs (Decidable (_ ∧ _))

theorem SameStructure.refl : m.SameStructure m :=
  ⟨rfl,rfl,rfl,rfl,rfl⟩

variable {m n : TranscriptMessage N}

theorem SameStructure.symm (h : m.SameStructure n) : n.SameStructure m :=
  ⟨h.1.symm,h.2.1.symm,h.2.2.1.symm,h.2.2.2.1.symm,h.2.2.2.2.symm⟩

theorem SameStructure.trans {k} (h : m.SameStructure n) (h' : n.SameStructure k) :
    m.SameStructure k :=
  ⟨h.1.trans h'.1,h.2.1.trans h'.2.1,h.2.2.1.trans h'.2.2.1,h.2.2.2.1.trans h'.2.2.2.1,
    h.2.2.2.2.trans h'.2.2.2.2⟩

theorem SameStructure.isTyped (h : m.SameStructure n) : m.isTyped = n.isTyped := by
  obtain ⟨-,-,h1,h2,h3⟩ := h
  simp only [TranscriptMessage.isTyped,h1,h2,h3]

section

variable [DecidableEq N] (D : Dialect N)

def liveLegacy (m : TranscriptMessage N) : Option String :=
  m.legacy.filter fun raw => (normalized D { role := m.role, content := raw }).SameStructure m

def unlifted (m : TranscriptMessage N) : Option (TranscriptMessage N) :=
  (m.liveLegacy D).map fun raw =>
    { m with content := raw, toolCalls := [], toolCallId := none, parts := none, legacy := none }

def SameStoredText (left right : Option String) : Prop :=
  ∀ a ∈ left, ∀ b ∈ right, a = b

instance (left right : Option String) : Decidable (SameStoredText left right) :=
  inferInstanceAs (Decidable (∀ a ∈ left, _))

def SameRowAs (m n : TranscriptMessage N) : Prop :=
  (m.normalized D).id = (n.normalized D).id ∧
    (m.normalized D).SameStructure (n.normalized D) ∧
    SameStoredText ((m.normalized D).liveLegacy D) ((n.normalized D).liveLegacy D)

instance (m n : TranscriptMessage N) : Decidable (m.SameRowAs D n) :=
  inferInstanceAs (Decidable (_ ∧ _))

end

section

variable {D : Dialect N} {m n : TranscriptMessage N}

theorem isTyped_of_envelope {role content : String} {e : Envelope N}
    (h : envelope D role content = some e) (m : TranscriptMessage N) : (m.carrying e).isTyped := by
  unfold envelope at h
  split_ifs at h
  · obtain ⟨⟨_,_⟩,hp,rfl⟩ := Option.map_eq_some_iff.1 h
    have hcalls := D.calls_ne_nil _ _ _ hp
    simp [isTyped,carrying,hcalls]
  · obtain ⟨⟨_,_⟩,-,rfl⟩ := Option.map_eq_some_iff.1 h
    simp [isTyped,carrying]
  · obtain ⟨_,-,rfl⟩ := Option.map_eq_some_iff.1 h
    simp [isTyped,carrying]

theorem normalized_of_typed (h : m.isTyped) : m.normalized D = m := by
  rw [normalized,if_pos h]

theorem normalized_of_none (h : envelope D m.role m.content = none) : m.normalized D = m := by
  unfold normalized
  rw [h,ite_self]

theorem normalized_of_some (ht : m.isTyped = false) {e : Envelope N}
    (h : envelope D m.role m.content = some e) :
    m.normalized D = { m.carrying e with legacy := some m.content } := by
  have hm : ¬ m.isTyped := by rw [ht]; exact Bool.false_ne_true
  rw [normalized,if_neg hm,h]
  simp only [isTyped_of_envelope h m,if_true]

theorem normalized_cases (D : Dialect N) (m : TranscriptMessage N) :
    m.normalized D = m ∨ m.isTyped = false ∧
    ∃ e, envelope D m.role m.content = some e ∧
    m.normalized D = { m.carrying e with legacy := some m.content } := by
  cases ht : m.isTyped with
  | true => exact .inl (normalized_of_typed ht)
  | false =>
    cases he : envelope D m.role m.content with
    | none => exact .inl (normalized_of_none he)
    | some e => exact .inr ⟨rfl,e,rfl,normalized_of_some ht he⟩

@[simp] theorem normalized_id : (m.normalized D).id = m.id := by
  rcases normalized_cases D m with h | ⟨-,e,-,h⟩
  · rw [h]
  · rw [h]
    rfl

theorem normalized_idem (D : Dialect N) (m : TranscriptMessage N) :
    (m.normalized D).normalized D = m.normalized D := by
  rcases normalized_cases D m with h | ⟨-,e,he,h⟩
  · rw [h,h]
  · rw [h]
    exact normalized_of_typed (isTyped_of_envelope he m)

theorem normalized_sameStructure (h : m.SameStructure n) :
    (m.normalized D).SameStructure (n.normalized D) := by
  unfold normalized
  rw [h.isTyped,h.1,h.2.1]
  split
  · exact h
  cases envelope D n.role n.content with
  | none => exact h
  | some => exact ⟨h.1,rfl,rfl,rfl,rfl⟩

def Alike (m n : TranscriptMessage N) : Prop :=
  m.id = n.id ∧ m.SameStructure n ∧ m.legacy = n.legacy

theorem Alike.normalized (h : m.Alike n) : (m.normalized D).Alike (n.normalized D) := by
  refine ⟨by simpa using h.1,normalized_sameStructure h.2.1,?_⟩
  unfold TranscriptMessage.normalized
  rw [h.2.1.isTyped,h.2.1.1,h.2.1.2.1]
  split
  · exact h.2.2
  cases envelope D n.role n.content with
  | none => exact h.2.2
  | some e =>
    have hc : (m.carrying e).isTyped = (n.carrying e).isTyped := rfl
    simp only [hc,h.2.2]

def bare (m : TranscriptMessage N) (text : String) : TranscriptMessage N :=
  { role := m.role, content := text, id := m.id }

theorem sameStructure_bare_content (h : m.isTyped = false) :
    m.SameStructure (m.bare m.content) := by
  simp only [isTyped,Bool.or_eq_false_iff,Bool.not_eq_false',List.isEmpty_iff,
    Option.isSome_eq_false_iff,Option.isNone_iff_eq_none] at h
  exact ⟨rfl,rfl,h.1.1,h.1.2,h.2⟩

variable [DecidableEq N]

theorem SameRowAs.symm (h : m.SameRowAs D n) : n.SameRowAs D m :=
  ⟨h.1.symm,h.2.1.symm,fun a ha b hb => (h.2.2 b hb a ha).symm⟩

def storedText (D : Dialect N) (m : TranscriptMessage N) : Option String :=
  (m.normalized D).liveLegacy D

theorem same_row_as_relation (D : Dialect N) (a b c : TranscriptMessage N) :
    a.SameRowAs D a ∧ (a.SameRowAs D b ↔ b.SameRowAs D a) ∧
    (a.SameRowAs D b → b.SameRowAs D c →
      (¬ a.SameRowAs D c ↔ b.storedText D = none ∧
      ∃ s ∈ a.storedText D, ∃ t ∈ c.storedText D, s ≠ t)) := by
  refine ⟨⟨rfl,.refl _,fun _ ha _ hb => Option.mem_unique ha hb⟩,⟨.symm,.symm⟩,fun hab hbc => ?_⟩
  constructor
  · intro hno
    have hdiffer : ¬ SameStoredText (a.storedText D) (c.storedText D) := fun h =>
      hno ⟨hab.1.trans hbc.1,hab.2.1.trans hbc.2.1,h⟩
    simp only [SameStoredText,not_forall] at hdiffer
    obtain ⟨s,hs,t,ht,hne⟩ := hdiffer
    refine ⟨Option.eq_none_iff_forall_not_mem.2 fun text hb => hne ?_,s,hs,t,ht,hne⟩
    exact (hab.2.2 s hs text hb).trans (hbc.2.2 text hb t ht)
  · rintro ⟨-,s,hs,t,ht,hne⟩ h
    exact hne (h.2.2 s hs t ht)

theorem sameRowAs_normalized_right : m.SameRowAs D (n.normalized D) ↔ m.SameRowAs D n := by
  simp only [SameRowAs,normalized_idem]

theorem Alike.liveLegacy (h : m.Alike n) : m.liveLegacy D = n.liveLegacy D := by
  unfold TranscriptMessage.liveLegacy
  rw [h.2.2,h.2.1.1]
  congr 1
  funext raw
  rw [decide_eq_decide]
  exact ⟨fun k => k.trans h.2.1,fun k => k.trans h.2.1.symm⟩

theorem Alike.sameRowAs {k : TranscriptMessage N} (h : m.Alike n) :
    k.SameRowAs D m ↔ k.SameRowAs D n := by
  have hn := h.normalized (D := D)
  unfold SameRowAs
  simp only [hn.1,hn.liveLegacy]
  constructor
  · exact fun ⟨h1,h2,h3⟩ => ⟨h1,h2.trans hn.2.1,h3⟩
  · exact fun ⟨h1,h2,h3⟩ => ⟨h1,h2.trans hn.2.1.symm,h3⟩

theorem mem_liveLegacy {raw : String} :
    raw ∈ m.liveLegacy D ↔ m.legacy = some raw ∧
    (TranscriptMessage.normalized D { role := m.role, content := raw }).SameStructure m := by
  simp [liveLegacy,Option.filter_eq_some_iff]

theorem liveLegacy_of_none (h : m.legacy = none) : m.liveLegacy D = none := by
  rw [liveLegacy,h]
  rfl

variable {text : String}

theorem sameStructure_of_liveLegacy (h : text ∈ m.liveLegacy D) :
    ((m.bare text).normalized D).SameStructure m := by
  refine SameStructure.trans ?_ (mem_liveLegacy.1 h).2
  exact normalized_sameStructure ⟨rfl,rfl,rfl,rfl,rfl⟩

theorem liveLegacy_bare {raw : String} (h : raw ∈ ((m.bare text).normalized D).liveLegacy D) :
    raw = text ∧ ((m.bare text).normalized D).isTyped := by
  have hl := (mem_liveLegacy.1 h).1
  rcases normalized_cases D (m.bare text) with he | ⟨-,e,henv,he⟩
  · rw [he] at hl
    cases hl
  rw [he] at hl ⊢
  cases hl
  exact ⟨rfl,isTyped_of_envelope henv (m.bare text)⟩

theorem sameRowAs_bare (h : text ∈ m.liveLegacy D ∨ m.isTyped = false ∧ text = m.content) :
    m.SameRowAs D (m.bare text) := by
  have hstructure : (m.normalized D).SameStructure ((m.bare text).normalized D) := by
    rcases h with h | ⟨ht,rfl⟩
    · have hs := normalized_sameStructure (D := D) (sameStructure_of_liveLegacy h).symm
      rwa [normalized_idem] at hs
    · exact normalized_sameStructure (sameStructure_bare_content ht)
  refine ⟨by simp [bare],hstructure,fun a ha b hb => ?_⟩
  obtain ⟨rfl,htyped⟩ := liveLegacy_bare hb
  rw [← hstructure.isTyped] at htyped
  cases ht : m.isTyped with
  | true =>
    rw [normalized_of_typed ht] at ha
    rcases h with h | ⟨hf,-⟩
    · exact Option.mem_unique ha h
    · rw [ht] at hf
      cases hf
  | false =>
    rcases normalized_cases D m with he | ⟨-,e,-,he⟩
    · rw [he,ht] at htyped
      cases htyped
    rcases h with h | ⟨-,rfl⟩
    · rw [(sameStructure_of_liveLegacy h).isTyped.symm.trans hstructure.isTyped.symm] at ht
      rw [ht] at htyped
      cases htyped
    have hlegacy := (mem_liveLegacy.1 ha).1
    rw [he] at hlegacy
    cases hlegacy
    rfl

end

end TranscriptMessage

section

variable [DecidableEq N] (D : Dialect N)

def normalizedRows (rows : List (TranscriptMessage N)) : List (TranscriptMessage N) :=
  rows.map (TranscriptMessage.normalized D)

def SameTranscriptMessages (left right : List (TranscriptMessage N)) : Prop :=
  left.length = right.length ∧ ∀ pair ∈ left.zip right, pair.1.SameRowAs D pair.2

instance (left right : List (TranscriptMessage N)) :
    Decidable (SameTranscriptMessages D left right) :=
  inferInstanceAs (Decidable (_ ∧ _))

variable {D} {left right : List (TranscriptMessage N)}

theorem sameTranscriptMessages_iff :
    SameTranscriptMessages D left right ↔ List.Forall₂ (fun a b => a.SameRowAs D b) left right := by
  rw [List.forall₂_iff_zip]
  simp [SameTranscriptMessages]

theorem sameTranscriptMessages_normalized_right :
    SameTranscriptMessages D left (normalizedRows D right) ↔
    SameTranscriptMessages D left right := by
  rw [sameTranscriptMessages_iff,sameTranscriptMessages_iff,normalizedRows,
    List.forall₂_map_right_iff]
  simp only [TranscriptMessage.sameRowAs_normalized_right]

end

open Interaction Option

def TranscriptToolCall.texts (call : TranscriptToolCall String) : List (List Char) :=
  [call.id.toList,call.name.toList,call.arguments.toList,
    (call.extraContent.map fun value => ' ' :: value.toList).getD []]

def callsOf : List (List Char) → Option (List (TranscriptToolCall String))
  | [] => some []
  | id :: name :: arguments :: extra :: rest => (callsOf rest).map fun calls =>
    { id := .ofList id, name := .ofList name, arguments := .ofList arguments
      extraContent := extra.tail?.map String.ofList } :: calls
  | _ => none

theorem callsOf_texts (calls : List (TranscriptToolCall String)) :
    callsOf (calls.flatMap TranscriptToolCall.texts) = some calls := by
  induction calls with
  | nil => rfl
  | cons call _ ih =>
    obtain ⟨_,_,_,extra⟩ := call
    cases extra <;> simp [TranscriptToolCall.texts,callsOf,ih]

def assistantOf : List (List Char) → Option (String × List (TranscriptToolCall String))
  | content :: call :: rest => (callsOf (call :: rest)).map fun calls => (.ofList content,calls)
  | _ => none

def toolOf : List (List Char) → Option (String × String)
  | [id,content] => some (.ofList id,.ofList content)
  | _ => none

def Dialect.packed : Dialect String where
  parseAssistantEnvelope := fun text => (unpack text.toList).bind assistantOf
  parseCanonicalAssistantEnvelope := fun text => (unpack text.toList).bind assistantOf
  encodeAssistantEnvelope := fun content calls =>
    .ofList (pack (content.toList :: calls.flatMap TranscriptToolCall.texts))
  parseToolEnvelope := fun text => (unpack text.toList).bind toolOf
  parseCanonicalToolEnvelope := fun text => (unpack text.toList).bind toolOf
  encodeToolEnvelope := fun id content => .ofList (pack [id.toList,content.toList])
  splitImageParts := fun text => [.text text]
  joinImageParts := fun _ => ""
  parseMediaParts := fun _ => none
  encodeMediaParts := fun _ => ""
  parseOrigin := fun _ => none
  originValue := fun origin => origin.provenance
  nested := fun _ => ""
  asStr := some
  envelopeReasoning := fun _ => none
  envelopeToolCalls := fun _ => none
  calls_ne_nil := by
    intro text content calls h hnil
    obtain ⟨texts,-,h⟩ := bind_eq_some_iff.1 h
    unfold assistantOf at h
    split at h
    · obtain ⟨calls,hc,he⟩ := map_eq_some_iff.1 h
      cases he
      unfold callsOf at hc
      split at hc
      · contradiction
      · simp [hnil] at hc
      · cases hc
    · cases h
  assistant_inverse := by
    intro content calls h
    obtain ⟨call,calls,rfl⟩ := List.exists_cons_of_ne_nil h
    have hcalls := callsOf_texts (call :: calls)
    rw [String.toList_ofList,unpack_pack,bind_some]
    rw [List.flatMap_cons,TranscriptToolCall.texts,List.cons_append] at hcalls ⊢
    rw [assistantOf,hcalls,map_some,String.ofList_toList]
  tool_inverse := by
    intro id content
    rw [String.toList_ofList,unpack_pack,bind_some]
    simp [toolOf]

def Dialect.keyed : Dialect String :=
  { Dialect.packed with
    parseToolEnvelope := fun text => (unpack text.toList).bind fun texts => toolOf (texts.take 2)
    tool_inverse := by
      intro id content
      change (unpack (String.ofList _).toList).bind _ = _
      rw [String.toList_ofList,unpack_pack,bind_some]
      simp [toolOf] }

def toolText (key : String) : TranscriptMessage String :=
  { role := "tool", content := .ofList (pack [['c'],['r'],key.toList]) }

theorem stored_texts_not_transitive : let lifted : TranscriptMessage String :=
      { role := "tool", content := "r", toolCallId := some "c" }
    (toolText "x").SameRowAs .keyed lifted ∧ lifted.SameRowAs .keyed (toolText "y") ∧
      ¬ (toolText "x").SameRowAs .keyed (toolText "y") := by
  decide +kernel

end Session
