import TinyAgents.Session.Messages

namespace Session

open Option TranscriptMessage

inductive TypedShape where
  | assistantCalls
  | toolResult
  | userParts
  deriving DecidableEq

def TypedShape.asStr : TypedShape → String
  | .assistantCalls => "assistant_calls"
  | .toolResult => "tool_result"
  | .userParts => "user_parts"

def TypedShape.parse (raw : String) : Option TypedShape :=
  if raw = "assistant_calls" then some .assistantCalls
  else if raw = "tool_result" then some .toolResult
  else if raw = "user_parts" then some .userParts
  else none

theorem TypedShape.parse_asStr (shape : TypedShape) : parse shape.asStr = some shape := by
  cases shape <;> decide

def typedRowVersion : Nat := 2

def backgroundMetadataKey : String := "tinyagents_background"

structure TypedForm (N : Type) where
  shape : TypedShape
  content : String
  toolCalls : Option (List (TranscriptToolCall N)) := none
  toolCallId : Option String := none
  parts : Option (List TranscriptPart) := none

structure MessageLine (N : Type) where
  id : Option String
  role : String
  content : String
  extraMetadata : Option (Metadata N)
  cacheBreakpoints : List Nat
  provider : Option String
  model : Option String
  usage : Option MessageUsage
  reasoningContent : Option String
  toolCalls : Option (List (TranscriptToolCall N))
  iteration : Option Nat
  ts : Option String
  requestId : Option String
  interrupted : Bool
  failure : Bool
  failureDetail : Option String
  rowVersion : Nat
  shape : Option String
  toolCallId : Option String
  parts : Option (List TranscriptPart)
  background : Option (BackgroundOrigin N)

variable {N : Type} (D : Dialect N)

section

variable [DecidableEq N] (metadata : Option (Metadata N))

def backgroundOf : Option (BackgroundOrigin N) :=
  (metadata.bind (Metadata.get backgroundMetadataKey)).bind D.parseOrigin

def splitBackground : Option (Metadata N) × Option (BackgroundOrigin N) :=
  match backgroundOf D metadata with
  | none => (metadata,none)
  | some origin =>
    match metadata with
    | some (.object fields) =>
      let rest := fields.erase backgroundMetadataKey
      (if rest = ∅ then none else some (.object rest),some origin)
    | metadata => (metadata,some origin)

def metadataWithBackground (origin : BackgroundOrigin N) : Option (Metadata N) :=
  let fields :=
    match metadata with
    | some (.object fields) => fields
    | some other => Finmap.singleton "value" (D.nested other)
    | none => ∅
  some (.object (fields.insert backgroundMetadataKey (D.originValue origin)))

end

def TranscriptPart.toContent : TranscriptPart → Option ContentPart
  | .text s => some (.text s)
  | .image url => some (.image url)
  | _ => none

def directForm (msg : TranscriptMessage N) : Option (TypedForm N) :=
  if msg.role = "assistant" ∧ msg.toolCalls ≠ [] then
    some { shape := .assistantCalls, content := msg.content, toolCalls := some msg.toolCalls }
  else if msg.role = "tool" ∧ msg.toolCallId.isSome then
    some { shape := .toolResult, content := msg.content, toolCallId := msg.toolCallId }
  else if msg.role = "user" ∧ msg.parts.isSome then
    some { shape := .userParts, content := msg.content, parts := msg.parts }
  else none

def rebuildContent (form : TypedForm N) : Option String :=
  match form.shape with
  | .assistantCalls => form.toolCalls.bind fun calls =>
    if calls = [] then none else some (D.encodeAssistantEnvelope form.content calls)
  | .toolResult => form.toolCallId.map fun id => D.encodeToolEnvelope id form.content
  | .userParts => form.parts.map fun parts =>
    if parts.any TranscriptPart.isMedia then D.encodeMediaParts parts
    else D.joinImageParts (parts.filterMap TranscriptPart.toContent)

def canonicalForm (role content : String) : Option (TypedForm N) :=
  if role = "assistant" then
    (D.parseCanonicalAssistantEnvelope content).map fun (content,calls) =>
      { shape := .assistantCalls, content := content, toolCalls := some calls }
  else if role = "tool" then
    (D.parseCanonicalToolEnvelope content).map fun (toolCallId,content) =>
      { shape := .toolResult, content := content, toolCallId := some toolCallId }
  else if role = "user" then
    (imageParts D content).map fun parts =>
      { shape := .userParts, content := partsText parts, parts := some parts }
  else none

def typedForm (msg : TranscriptMessage N) : Option (TypedForm N) :=
  if msg.isTyped then directForm msg
  else (canonicalForm D msg.role msg.content).filter fun form =>
    rebuildContent D form = some msg.content

def buildMessageLine [DecidableEq N] (msg : TranscriptMessage N) (turnUsage : Option (TurnUsage N))
    (requestId : Option String) (interrupted : Bool) : MessageLine N :=
  let msg := (msg.unlifted D).getD msg
  let assistantUsage := if msg.role = "assistant" then turnUsage else none
  let extraMetadata := (splitBackground D msg.extraMetadata).1
  let messageReasoning :=
    if msg.role = "assistant" then
      (extraMetadata.bind (Metadata.get "reasoning_content")).bind D.asStr
    else none
  let envelopeReasoning :=
    if msg.role = "assistant" then D.envelopeReasoning msg.content else none
  let envelopeToolCalls :=
    if msg.role = "assistant" then (D.envelopeToolCalls msg.content).filter (· ≠ []) else none
  let typed := typedForm D msg
  { id := msg.id
    role := msg.role
    content := (typed.map TypedForm.content).getD msg.content
    extraMetadata := extraMetadata
    cacheBreakpoints := msg.cacheBreakpoints
    provider := assistantUsage.map TurnUsage.provider
    model := assistantUsage.map TurnUsage.model
    usage := assistantUsage.map TurnUsage.usage
    reasoningContent := (messageReasoning.or envelopeReasoning).or
      (assistantUsage.bind TurnUsage.reasoningContent)
    toolCalls := ((typed.bind TypedForm.toolCalls).or envelopeToolCalls).or
      ((assistantUsage.map TurnUsage.toolCalls).filter (· ≠ []))
    iteration := assistantUsage.map TurnUsage.iteration
    ts := assistantUsage.map TurnUsage.ts
    requestId := if msg.preserveRequestId then msg.requestId else requestId
    interrupted := interrupted
    failure := msg.toolFailure.any ToolFailure.failed
    failureDetail := msg.toolFailure.bind ToolFailure.detail
    rowVersion := if typed.isSome then typedRowVersion else 0
    shape := typed.map fun form => form.shape.asStr
    toolCallId := typed.bind TypedForm.toolCallId
    parts := typed.bind TypedForm.parts
    background := (splitBackground D msg.extraMetadata).2 }

variable (line : MessageLine N)

def typedFields (row : TranscriptMessage N) : Option (TranscriptMessage N) :=
  match line.shape.bind TypedShape.parse with
  | some .assistantCalls => (line.toolCalls.filter (· ≠ [])).map fun calls =>
    { row with toolCalls := calls }
  | some .toolResult => line.toolCallId.map fun id => { row with toolCallId := some id }
  | some .userParts => line.parts.map fun parts => { row with parts := some parts }
  | none => none

def MessageLine.flat : TranscriptMessage N :=
  { role := line.role, content := line.content, id := line.id }

def rowFromLine : TranscriptMessage N :=
  if line.rowVersion = typedRowVersion then
    (typedFields line line.flat).getD (line.flat.normalized D)
  else if typedRowVersion < line.rowVersion then line.flat
  else line.flat.normalized D

def turnUsageFromLine : Option (TurnUsage N) :=
  match line.provider, line.model, line.usage, line.ts with
  | some provider, some model, some usage, some ts =>
    if line.role = "assistant" then
      some { provider := provider, model := model, usage := usage, ts := ts
             reasoningContent := line.reasoningContent
             toolCalls := line.toolCalls.getD []
             iteration := line.iteration.getD 0 }
    else none
  | _, _, _, _ => none

def messageFromLine : TranscriptMessage N :=
  let typed := rowFromLine D line
  { typed with
    extraMetadata :=
      match line.background with
      | some origin => metadataWithBackground D line.extraMetadata origin
      | none => line.extraMetadata
    cacheBreakpoints := line.cacheBreakpoints
    turnUsage := turnUsageFromLine line
    requestId := line.requestId
    preserveRequestId := true
    interrupted := line.interrupted
    toolFailure := if line.failure then some ⟨true,line.failureDetail⟩ else none }

section

variable {D} {msg : TranscriptMessage N} {form : TypedForm N}

namespace TypedForm

def envelope (form : TypedForm N) : Envelope N :=
  { content := form.content, toolCalls := form.toolCalls.getD [], toolCallId := form.toolCallId
    parts := form.parts }

def Formed (form : TypedForm N) : Prop :=
  match form.shape with
  | .assistantCalls => (∃ calls, form.toolCalls = some calls ∧ calls ≠ []) ∧
      form.toolCallId = none ∧ form.parts = none
  | .toolResult => form.toolCalls = none ∧ (∃ id, form.toolCallId = some id) ∧ form.parts = none
  | .userParts => form.toolCalls = none ∧ form.toolCallId = none ∧
      ∃ parts, form.parts = some parts

end TypedForm

theorem directForm_formed (h : directForm msg = some form) : form.Formed := by
  unfold directForm at h
  split_ifs at h with h1 h2 h3
  · cases h
    exact ⟨⟨_,rfl,h1.2⟩,rfl,rfl⟩
  · cases h
    exact ⟨rfl,isSome_iff_exists.1 h2.2,rfl⟩
  · cases h
    exact ⟨rfl,rfl,isSome_iff_exists.1 h3.2⟩

theorem typedForm_formed (h : typedForm D msg = some form) : form.Formed := by
  unfold typedForm at h
  split at h
  · exact directForm_formed h
  obtain ⟨h,hrebuild⟩ := filter_eq_some_iff.1 h
  unfold canonicalForm at h
  split_ifs at h
  · obtain ⟨⟨_,calls⟩,-,rfl⟩ := map_eq_some_iff.1 h
    refine ⟨⟨calls,rfl,?_⟩,rfl,rfl⟩
    rintro rfl
    simp [rebuildContent] at hrebuild
  · obtain ⟨⟨id,_⟩,-,rfl⟩ := map_eq_some_iff.1 h
    exact ⟨rfl,⟨id,rfl⟩,rfl⟩
  · obtain ⟨parts,-,rfl⟩ := map_eq_some_iff.1 h
    exact ⟨rfl,rfl,parts,rfl⟩

end

section

variable {D} {m : TranscriptMessage N} {form : TypedForm N}

def TranscriptMessage.OwnFields (m : TranscriptMessage N) : Prop :=
  (m.role ≠ "assistant" → m.toolCalls = []) ∧ (m.role ≠ "tool" → m.toolCallId = none) ∧
    (m.role ≠ "user" → m.parts = none)

theorem TranscriptMessage.SameStructure.ownFields {n} (h : m.SameStructure n) :
    m.OwnFields ↔ n.OwnFields := by
  obtain ⟨h1,-,h3,h4,h5⟩ := h
  simp only [TranscriptMessage.OwnFields,h1,h3,h4,h5]

theorem ownFields_of_untyped (h : m.isTyped = false) : m.OwnFields := by
  obtain ⟨-,-,h1,h2,h3⟩ := sameStructure_bare_content h
  exact ⟨fun _ => h1,fun _ => h2,fun _ => h3⟩

theorem ownFields_normalized (h : m.isTyped = false) : (m.normalized D).OwnFields := by
  rcases normalized_cases D m with he | ⟨-,e,henv,he⟩
  · rw [he]
    exact ownFields_of_untyped h
  rw [he]
  unfold envelope at henv
  split_ifs at henv with h1 h2 h3
  · obtain ⟨_,-,rfl⟩ := map_eq_some_iff.1 henv
    exact ⟨fun hn => (hn h1).elim,fun _ => rfl,fun _ => rfl⟩
  · obtain ⟨_,-,rfl⟩ := map_eq_some_iff.1 henv
    exact ⟨fun _ => rfl,fun hn => (hn h2).elim,fun _ => rfl⟩
  · obtain ⟨_,-,rfl⟩ := map_eq_some_iff.1 henv
    exact ⟨fun _ => rfl,fun _ => rfl,fun hn => (hn h3).elim⟩

theorem directForm_of_ownFields (ht : m.isTyped) (h : m.OwnFields) :
    ∃ form, directForm m = some form ∧
    m.SameStructure ((m.bare form.content).carrying form.envelope) := by
  obtain ⟨h1,h2,h3⟩ := h
  have hroles : "tool" ≠ "assistant" ∧ "user" ≠ "assistant" ∧ "user" ≠ "tool" := by decide
  unfold directForm
  by_cases hassistant : m.role = "assistant"
  · have hid := h2 (by rw [hassistant]; exact hroles.1.symm)
    have hparts := h3 (by rw [hassistant]; exact hroles.2.1.symm)
    have hcalls : m.toolCalls ≠ [] := by simpa [isTyped,hid,hparts] using ht
    rw [if_pos ⟨hassistant,hcalls⟩]
    exact ⟨_,rfl,rfl,rfl,rfl,hid,hparts⟩
  have hcalls := h1 hassistant
  rw [if_neg (fun h => hassistant h.1)]
  by_cases htool : m.role = "tool"
  · have hparts := h3 (by rw [htool]; exact hroles.2.2.symm)
    have hid : m.toolCallId.isSome := by
      simpa [isTyped,hcalls,hparts] using ht
    rw [if_pos ⟨htool,hid⟩]
    exact ⟨_,rfl,rfl,rfl,hcalls,rfl,hparts⟩
  have hid := h2 htool
  have hparts : m.parts.isSome := by
    simpa [isTyped,hcalls,hid] using ht
  have huser : m.role = "user" := by
    by_contra hn
    rw [h3 hn] at hparts
    cases hparts
  rw [if_neg (fun h => htool h.1),if_pos ⟨huser,hparts⟩]
  exact ⟨_,rfl,rfl,rfl,hcalls,hid,rfl⟩

theorem ownFields_of_directForm (h : directForm m = some form)
    (hs : m.SameStructure ((m.bare form.content).carrying form.envelope)) : m.OwnFields := by
  obtain ⟨-,-,hcalls,hid,hparts⟩ := hs
  unfold directForm at h
  split_ifs at h with h1 h2 h3
  · cases h
    exact ⟨fun hn => (hn h1.1).elim,fun _ => hid,fun _ => hparts⟩
  · cases h
    exact ⟨fun _ => hcalls,fun hn => (hn h2.1).elim,fun _ => hparts⟩
  · cases h
    exact ⟨fun _ => hcalls,fun _ => hid,fun hn => (hn h3.1).elim⟩

theorem envelope_of_typedForm (ht : m.isTyped = false) (h : typedForm D m = some form)
    (hm : m.role = "user" → mediaParts D m.content = none) :
    envelope D m.role m.content = some form.envelope := by
  rw [typedForm,if_neg (by simp [ht])] at h
  obtain ⟨h,hrebuild⟩ := filter_eq_some_iff.1 h
  have hrebuild := of_decide_eq_true hrebuild
  unfold canonicalForm at h
  unfold envelope
  split_ifs at h ⊢ with h1 h2 h3
  · obtain ⟨⟨content,calls⟩,-,rfl⟩ := map_eq_some_iff.1 h
    simp only [rebuildContent,bind_some] at hrebuild
    split at hrebuild
    · cases hrebuild
    next hcalls =>
      rw [← Option.some.inj hrebuild,D.assistant_inverse content calls hcalls]
      rfl
  · obtain ⟨⟨id,content⟩,-,rfl⟩ := map_eq_some_iff.1 h
    rw [← Option.some.inj hrebuild,D.tool_inverse id content]
    rfl
  · obtain ⟨_,hp,rfl⟩ := map_eq_some_iff.1 h
    rw [hm h3,none_or,hp]
    rfl

theorem not_media_of_image {content : String} {parts} (h : imageParts D content = some parts) :
    parts.any TranscriptPart.isMedia = false := by
  unfold imageParts at h
  split at h
  · cases h
    rw [List.any_eq_false]
    intro _ hpart
    obtain ⟨c,-,rfl⟩ := List.mem_map.1 hpart
    cases c <;> simp [TranscriptPart.ofContent,TranscriptPart.isMedia]
  · cases h

theorem parts_of_typedForm (ht : m.isTyped = false) (hr : m.role = "user")
    (h : typedForm D m = some form) : form.parts = imageParts D m.content := by
  have hroles : "user" ≠ "assistant" ∧ "user" ≠ "tool" := by decide
  rw [typedForm,if_neg (by simp [ht])] at h
  obtain ⟨h,-⟩ := filter_eq_some_iff.1 h
  rw [canonicalForm,hr,if_neg hroles.1,if_neg hroles.2,if_pos rfl] at h
  obtain ⟨_,hp,rfl⟩ := map_eq_some_iff.1 h
  exact hp.symm

end

section

variable [DecidableEq N] {D} {m : TranscriptMessage N}

def storedForm (D : Dialect N) (m : TranscriptMessage N) : TranscriptMessage N :=
  (m.unlifted D).getD m

def roundTrip (D : Dialect N) (m : TranscriptMessage N) (turnUsage : Option (TurnUsage N))
    (requestId : Option String) (interrupted : Bool) : TranscriptMessage N :=
  messageFromLine D (buildMessageLine D m turnUsage requestId interrupted)

theorem storedForm_cases (D : Dialect N) (m : TranscriptMessage N) :
    (storedForm D m = m ∧ m.liveLegacy D = none) ∨
      ∃ text ∈ m.liveLegacy D, storedForm D m = { m with
        content := text, toolCalls := [], toolCallId := none, parts := none, legacy := none } := by
  unfold storedForm unlifted
  cases hl : m.liveLegacy D with
  | none => exact .inl ⟨rfl,rfl⟩
  | some text => exact .inr ⟨text,rfl,rfl⟩

structure Carries (line : MessageLine N) (form : TypedForm N) : Prop where
  version : line.rowVersion = typedRowVersion
  shape : line.shape = some form.shape.asStr
  content : line.content = form.content
  calls : ∀ calls, form.toolCalls = some calls → line.toolCalls = some calls
  toolCallId : line.toolCallId = form.toolCallId
  parts : line.parts = form.parts

variable {form : TypedForm N}

theorem build_carries (h : typedForm D (storedForm D m) = some form) {turnUsage} {requestId}
    {interrupted : Bool} : Carries (buildMessageLine D m turnUsage requestId interrupted) form := by
  constructor
  · change (if (typedForm D (storedForm D m)).isSome = true then _ else _) = _
    rw [h]
    rfl
  · change (typedForm D (storedForm D m)).map _ = _
    rw [h]
    rfl
  · change ((typedForm D (storedForm D m)).map _).getD _ = _
    rw [h]
    rfl
  · intro _ hcalls
    change (((typedForm D (storedForm D m)).bind _).or _).or _ = _
    rw [h,bind_some,hcalls,some_or,some_or]
  all_goals
    change (typedForm D (storedForm D m)).bind _ = _
    rw [h]
    rfl

omit [DecidableEq N] in
theorem rowFromLine_typed {line} (hf : form.Formed) (h : Carries line form) :
    rowFromLine D line = line.flat.carrying form.envelope := by
  unfold rowFromLine typedFields MessageLine.flat
  rw [if_pos h.version,h.shape,bind_some,TypedShape.parse_asStr,h.content]
  unfold TypedForm.Formed at hf
  split at hf
  next hs =>
    obtain ⟨⟨calls,hcalls,hne⟩,hid,hparts⟩ := hf
    have hfilter : (some calls).filter (· ≠ []) = some calls := by simp [Option.filter,hne]
    rw [hs,h.calls calls hcalls,hfilter]
    simp [carrying,TypedForm.envelope,hcalls,hid,hparts]
  next hs =>
    obtain ⟨hcalls,⟨_,hid⟩,hparts⟩ := hf
    simp [hs,h.toolCallId,carrying,TypedForm.envelope,hcalls,hid,hparts]
  next hs =>
    obtain ⟨hcalls,hid,⟨parts,hparts⟩⟩ := hf
    simp [hs,h.parts,carrying,TypedForm.envelope,hcalls,hid,hparts]

def readBack (D : Dialect N) (stored : TranscriptMessage N) : TranscriptMessage N :=
  match typedForm D stored with
  | some form => (stored.bare form.content).carrying form.envelope
  | none => (stored.bare stored.content).normalized D

theorem rowFromLine_build (D : Dialect N) (m : TranscriptMessage N)
    (turnUsage : Option (TurnUsage N)) (requestId : Option String) (interrupted : Bool) :
    rowFromLine D (buildMessageLine D m turnUsage requestId interrupted) =
      readBack D (storedForm D m) := by
  unfold readBack
  cases ht : typedForm D (storedForm D m) with
  | none =>
    have hversion : (buildMessageLine D m turnUsage requestId interrupted).rowVersion = 0 := by
      change (if (typedForm D (storedForm D m)).isSome = true then _ else _) = 0
      rw [ht]
      rfl
    have hcontent : (buildMessageLine D m turnUsage requestId interrupted).content =
        (storedForm D m).content := by
      change ((typedForm D (storedForm D m)).map _).getD _ = _
      rw [ht]
      rfl
    unfold rowFromLine MessageLine.flat
    rw [hversion,hcontent,if_neg (by decide),if_neg (by decide)]
    rfl
  | some => exact rowFromLine_typed (typedForm_formed ht) (build_carries ht)

def TranscriptMessage.Ambiguous (D : Dialect N) (m : TranscriptMessage N) : Prop :=
  let stored := storedForm D m
  stored.isTyped = false ∧ stored.role = "user" ∧ (mediaParts D stored.content).isSome ∧
    (typedForm D stored).isSome

def TranscriptMessage.PlainOrigin (D : Dialect N) (m : TranscriptMessage N) : Prop :=
  ∀ value origin, m.extraMetadata.bind (Metadata.get backgroundMetadataKey) = some value →
    D.parseOrigin value = some origin → D.originValue origin = value

def TranscriptMessage.Storable (D : Dialect N) (m : TranscriptMessage N) : Prop :=
  m.OwnFields ∧ ¬ m.Ambiguous D ∧ m.PlainOrigin D ∧ ∀ f ∈ m.toolFailure, f.failed = true

theorem metadata_restored_iff {fields} {value : N}
    {origin} (h : fields.lookup backgroundMetadataKey = some value) :
    metadataWithBackground D (if fields.erase backgroundMetadataKey = ∅ then none
        else some (.object (fields.erase backgroundMetadataKey))) origin = some (.object fields) ↔
      D.originValue origin = value := by
  have hwith : metadataWithBackground D (if fields.erase backgroundMetadataKey = ∅ then none
      else some (.object (fields.erase backgroundMetadataKey))) origin =
      some (.object ((fields.erase backgroundMetadataKey).insert backgroundMetadataKey
        (D.originValue origin))) := by
    split
    next he => rw [he]; rfl
    · rfl
  rw [hwith,Option.some.injEq,Metadata.object.injEq]
  constructor
  · intro he
    rw [← he,Finmap.lookup_insert] at h
    exact Option.some.inj h
  rintro rfl
  apply Finmap.ext_lookup
  intro key
  by_cases hk : key = backgroundMetadataKey
  · rw [hk,Finmap.lookup_insert,h]
  · rw [Finmap.lookup_insert_of_ne _ hk,Finmap.lookup_erase_ne hk]

theorem metadata_kept_iff (D : Dialect N) (metadata : Option (Metadata N)) :
    (match (splitBackground D metadata).2 with
      | some origin => metadataWithBackground D (splitBackground D metadata).1 origin
      | none => (splitBackground D metadata).1) = metadata ↔
    ∀ value origin, metadata.bind (Metadata.get backgroundMetadataKey) = some value →
      D.parseOrigin value = some origin → D.originValue origin = value := by
  unfold splitBackground backgroundOf
  cases hget : metadata.bind (Metadata.get backgroundMetadataKey) with
  | none => simp
  | some value =>
    cases horigin : D.parseOrigin value with
    | none =>
      simp only [bind_some,horigin,true_iff]
      rintro _ _ ⟨⟩ ho
      rw [horigin] at ho
      cases ho
    | some origin =>
      obtain ⟨md,rfl,hmd⟩ := bind_eq_some_iff.1 hget
      cases md with
      | other => cases hmd
      | object fields =>
        have hl : fields.lookup backgroundMetadataKey = some value := hmd
        simp only [bind_some,horigin]
        rw [metadata_restored_iff hl]
        constructor
        · rintro h _ _ ⟨⟩ ho
          rw [horigin] at ho
          cases ho
          exact h
        · exact fun h => h value origin rfl horigin

theorem sameRowAs_typed {n} (hm : m.isTyped) (hn : n.isTyped) (hlegacy : n.legacy = none)
    (hid : m.id = n.id) : m.SameRowAs D n ↔ m.SameStructure n := by
  unfold TranscriptMessage.SameRowAs
  rw [normalized_of_typed hm,normalized_of_typed hn,
    liveLegacy_of_none hlegacy]
  constructor
  · exact fun h => h.2.1
  · exact fun h => ⟨hid,h,fun _ _ _ hb => by cases hb⟩

omit [DecidableEq N] in
theorem isTyped_carrying (h : form.Formed) (n : TranscriptMessage N) :
    (n.carrying form.envelope).isTyped := by
  unfold TypedForm.Formed at h
  split at h
  · obtain ⟨⟨_,hcalls,hne⟩,-⟩ := h
    simp [isTyped,carrying,TypedForm.envelope,hcalls,hne]
  · obtain ⟨-,⟨_,hid⟩,-⟩ := h
    simp [isTyped,carrying,TypedForm.envelope,hid]
  · obtain ⟨-,-,_,hparts⟩ := h
    simp [isTyped,carrying,TypedForm.envelope,hparts]

theorem readBack_typed (ht : m.isTyped) : m.SameRowAs D (readBack D m) ↔ m.OwnFields := by
  have hdirect : typedForm D m = directForm m := by rw [typedForm,if_pos ht]
  unfold readBack
  rw [hdirect]
  cases hform : directForm m with
  | some form =>
    have htyped := isTyped_carrying (directForm_formed hform) (m.bare form.content)
    refine (sameRowAs_typed ht htyped rfl rfl).trans ?_
    refine ⟨ownFields_of_directForm hform,fun hown => ?_⟩
    obtain ⟨_,hform',hs⟩ := directForm_of_ownFields ht hown
    rw [hform] at hform'
    cases hform'
    exact hs
  | none =>
    have hnot : ¬ m.OwnFields := by
      intro hown
      obtain ⟨_,hform',-⟩ := directForm_of_ownFields ht hown
      rw [hform] at hform'
      cases hform'
    refine ⟨fun h => (hnot ?_).elim,fun h => (hnot h).elim⟩
    have hs := h.2.1
    rw [normalized_of_typed ht,normalized_idem] at hs
    exact hs.ownFields.2 (ownFields_normalized rfl)

theorem readBack_flat {stored} (ht : stored.isTyped = false)
    (hbase : m.SameRowAs D (stored.bare stored.content)) :
    m.SameRowAs D (readBack D stored) ↔ ¬ (stored.role = "user" ∧
      (mediaParts D stored.content).isSome ∧ (typedForm D stored).isSome) := by
  unfold readBack
  cases hform : typedForm D stored with
  | none => simpa [sameRowAs_normalized_right] using hbase
  | some form =>
    have htyped := isTyped_carrying (typedForm_formed hform) (stored.bare form.content)
    have hnorm := normalized_of_typed (D := D) htyped
    by_cases hmedia : stored.role = "user" ∧ (mediaParts D stored.content).isSome
    · obtain ⟨hrole,hmedia⟩ := hmedia
      refine iff_of_false (fun h => ?_) (by simp [hrole,hmedia])
      obtain ⟨parts,hparts⟩ := isSome_iff_exists.1 hmedia
      have henv : envelope D stored.role stored.content =
          some { content := partsText parts, parts := some parts } := by
        have hroles : "user" ≠ "assistant" ∧ "user" ≠ "tool" := by decide
        rw [envelope,hrole,if_neg hroles.1,if_neg hroles.2,if_pos rfl,hparts]
        rfl
      have hlift := normalized_of_some (m := stored.bare stored.content) rfl henv
      have hs := hbase.2.1.symm.trans h.2.1
      rw [hlift,hnorm] at hs
      have heq : some parts = form.parts := hs.2.2.2.2
      rw [parts_of_typedForm ht hrole hform] at heq
      have hno := not_media_of_image heq.symm
      rw [(Bool.and_eq_true_iff.1 (filter_eq_some_iff.1 hparts).2).1] at hno
      cases hno
    · refine iff_of_true ?_ (fun h => hmedia ⟨h.1,h.2.1⟩)
      have henv := envelope_of_typedForm ht hform fun hrole => by
        by_contra hne
        exact hmedia ⟨hrole,isSome_iff_ne_none.2 hne⟩
      have hlift := normalized_of_some (m := stored.bare stored.content) rfl henv
      refine ⟨by rw [hbase.1,hlift,hnorm]; rfl,?_,fun a _ b hb => ?_⟩
      · rw [hnorm]
        refine hbase.2.1.trans ?_
        rw [hlift]
        exact ⟨rfl,rfl,rfl,rfl,rfl⟩
      · rw [hnorm,liveLegacy_of_none rfl] at hb
        cases hb

theorem sameRow_readBack_iff :
    m.SameRowAs D (readBack D (storedForm D m)) ↔ m.OwnFields ∧ ¬ m.Ambiguous D := by
  unfold TranscriptMessage.Ambiguous
  rcases storedForm_cases D m with ⟨he,_⟩ | ⟨_,ht,he⟩
  · rw [he]
    cases ht : m.isTyped with
    | true => simp [readBack_typed ht,ht]
    | false =>
      have hown := ownFields_of_untyped ht
      have hbase := sameRowAs_bare (D := D) (.inr ⟨ht,rfl⟩)
      rw [readBack_flat ht hbase]
      simp [hown,ht]
  · have hbase := sameRowAs_bare (.inl ht)
    have hown : m.OwnFields := by
      have hs := sameStructure_of_liveLegacy ht
      exact hs.ownFields.1 (ownFields_normalized rfl)
    have hflat : (storedForm D m).isTyped = false := by rw [he]; rfl
    rw [readBack_flat hflat (by rw [he]; exact hbase)]
    simp [hown,hflat]

theorem storedForm_keeps (D : Dialect N) (m : TranscriptMessage N) :
    (storedForm D m).id = m.id ∧ (storedForm D m).extraMetadata = m.extraMetadata ∧
    (storedForm D m).toolFailure = m.toolFailure := by
  rcases storedForm_cases D m with ⟨he,-⟩ | ⟨_,-,he⟩
  all_goals
    rw [he]
    exact ⟨rfl,rfl,rfl⟩

omit [DecidableEq N] in
theorem readBack_id (D : Dialect N) (stored : TranscriptMessage N) :
    (readBack D stored).id = stored.id := by
  unfold readBack
  cases typedForm D stored with
  | some => rfl
  | none => exact normalized_id

theorem failure_kept_iff (failure : Option ToolFailure) :
    (if failure.any ToolFailure.failed =
      true then some (⟨true,failure.bind ToolFailure.detail⟩ : ToolFailure) else none) = failure ↔
    ∀ f ∈ failure, f.failed := by
  cases failure with
  | none => simp
  | some f =>
    obtain ⟨failed,_⟩ := f
    cases failed <;> simp

theorem line_keeps_message_iff (D : Dialect N) (m : TranscriptMessage N)
    (turnUsage : Option (TurnUsage N)) (requestId : Option String) (interrupted : Bool) :
    (m.SameRowAs D (roundTrip D m turnUsage requestId interrupted) ∧
      (roundTrip D m turnUsage requestId interrupted).id = m.id ∧
      (roundTrip D m turnUsage requestId interrupted).extraMetadata = m.extraMetadata ∧
      (roundTrip D m turnUsage requestId interrupted).toolFailure = m.toolFailure) ↔
    m.Storable D := by
  obtain ⟨hid,hmetadata,hfailure⟩ := storedForm_keeps D m
  have hrow := rowFromLine_build D m turnUsage requestId interrupted
  have halike : (roundTrip D m turnUsage requestId interrupted).Alike
      (readBack D (storedForm D m)) := by
    rw [← hrow]
    exact ⟨rfl,.refl _,rfl⟩
  have h1 := (halike.sameRowAs).trans sameRow_readBack_iff
  have h2 : (roundTrip D m turnUsage requestId interrupted).id = m.id := by
    rw [halike.1,readBack_id,hid]
  have h3 := metadata_kept_iff D (storedForm D m).extraMetadata
  have h4 := failure_kept_iff (storedForm D m).toolFailure
  rw [hmetadata] at h3
  rw [hfailure] at h4
  have h5 : (roundTrip D m turnUsage requestId interrupted).extraMetadata = m.extraMetadata ↔
      m.PlainOrigin D := by
    rw [TranscriptMessage.PlainOrigin,← h3,← hmetadata]
    rfl
  have h6 : (roundTrip D m turnUsage requestId interrupted).toolFailure = m.toolFailure ↔
      ∀ f ∈ m.toolFailure, f.failed = true := by
    rw [← h4,← hfailure]
    rfl
  rw [TranscriptMessage.Storable,h1,h5,h6]
  tauto

end

def imageResult : TranscriptMessage String :=
  { role := "tool", content := "done", toolCallId := some "call"
    parts := some [.text "done",.image "file.png"] }

theorem line_drops_parts :
    ¬ imageResult.SameRowAs .packed (roundTrip .packed imageResult none none false) := by
  decide +kernel

end Session
