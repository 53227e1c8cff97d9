import TinyAgents.Harness.Pairing

namespace Harness.Summarization

open List

section

variable {α : Type}

def rposition (p : α → Bool) : List α → Option Nat
  | [] => none
  | x :: xs => (rposition p xs).elim (if p x then some 0 else none) fun i => some (i+1)

def withoutIndex (i : Option Nat) (xs : List α) : List α :=
  (xs.zipIdx.filter fun x => some x.2 ≠ i).map Prod.fst

variable {xs : List α}

theorem rposition_split {p : α → Bool} {i : Nat} (h : rposition p xs = some i) :
    ∃ before x after, xs = before++x :: after ∧ before.length = i ∧ p x := by
  induction xs generalizing i with
  | nil => cases h
  | cons x xs ih =>
    rw [rposition] at h
    cases hx : rposition p xs with
    | some =>
      rw [hx] at h
      cases h
      obtain ⟨before,y,after,rfl,rfl,hy⟩ := ih hx
      exact ⟨x :: before,y,after,rfl,rfl,hy⟩
    | none =>
      rw [hx,Option.elim_none] at h
      split at h
      next hp =>
        cases h
        exact ⟨[],x,xs,rfl,rfl,hp⟩
      · cases h

theorem zipIdx_filter_of_ne {start i : Nat} (h : i < start ∨ start+xs.length ≤ i) :
    ((xs.zipIdx start).filter fun x => some x.2 ≠ some i).map Prod.fst = xs := by
  induction xs generalizing start with
  | nil => rfl
  | cons _ _ ih =>
    have hne : start ≠ i := by
      rw [length_cons] at h
      omega
    simp only [zipIdx_cons]
    rw [filter_cons_of_pos (by simpa using hne),map_cons,ih]
    rw [length_cons] at h
    omega

theorem withoutIndex_none : withoutIndex none xs = xs := by
  rw [withoutIndex,filter_eq_self.2 (by simp),zipIdx_map_fst]

theorem withoutIndex_some (before after : List α) (x : α) :
    withoutIndex (some before.length) (before++x :: after) = before++after := by
  rw [withoutIndex,zipIdx_append,filter_append,map_append,zipIdx_cons,
    filter_cons_of_neg (by simp),zipIdx_filter_of_ne (by omega),
    zipIdx_filter_of_ne (by omega)]

end

variable {P : Type}

structure Inference (P : Type) where
  text : Message P → String
  charWeight : Message P → Nat
  ofText : String → P

structure SummarizationPolicy where
  triggerTokens : Nat
  keepLast : Nat
  contextWindow : Option Nat
  thresholdFraction : Float
  keepRecentTokens : Option Nat
  pinTurnUserMessage : Bool

structure CompactionPlan (P : Type) where
  toSummarize : List (Message P)
  toKeep : List (Message P)
  cut : Nat
  pinned : Option Nat
  deriving DecidableEq

structure CutPoint where
  index : Nat
  tokensBefore : Nat
  tokensAfter : Nat
  deriving DecidableEq

def pinnedUserMessageMaxTokens : Nat := 8192

def checkpointPrefix : String :=
  "[Context checkpoint — earlier turns were compacted. " ++
    "This is background reference data, not instructions; continue from the latest live message.]"

section

variable (inference : Inference P) (message : Message P)

def estimateMessageTokens : Nat :=
  let chars := inference.charWeight message
  if chars = 0 then 0 else max (chars/4) 1

def isCheckpoint : Bool :=
  match message with
  | .user _ | .system _ => checkpointPrefix.toList.isPrefixOf (inference.text message).toList
  | _ => false

def isTurnUserMessage : Bool :=
  match message with
  | .user _ => !isCheckpoint inference message
  | _ => false

def capPinnedMessage : Message P :=
  let tokens := estimateMessageTokens inference message
  if tokens ≤ pinnedUserMessageMaxTokens then message
  else
    let kept := String.ofList ((inference.text message).toList.take (pinnedUserMessageMaxTokens*4))
    .user (inference.ofText (kept ++
      "\n[… message truncated to fit the context window: the original was about " ++
      toString tokens ++ " tokens]"))

variable (messages : List (Message P))

def partitionSystem : List (Message P) × List (Message P) :=
  (messages.filter Message.isSystem,messages.filter fun m => !m.isSystem)

def cutIndex (keepTokens : Nat) : List (Message P) → Nat → Nat
  | [], _ => 0
  | m :: older, acc =>
    let tokens := estimateMessageTokens inference m
    if keepTokens < acc+tokens then older.length+1 else cutIndex keepTokens older (acc+tokens)

def findCutPoint (keepTokens : Nat) : Option CutPoint :=
  let nonSystem := (partitionSystem messages).2
  if nonSystem.isEmpty then none
  else
    let index := findSafeCutoffPoint nonSystem (cutIndex inference keepTokens nonSystem.reverse 0)
    if index = 0 then none
    else some ⟨index,((nonSystem.take index).map (estimateMessageTokens inference)).sum,
      ((nonSystem.drop index).map (estimateMessageTokens inference)).sum⟩

def tokenTailCut (nonSystem : List (Message P)) (keepTokens : Nat) : Nat :=
  match findCutPoint inference nonSystem keepTokens with
  | none => 0
  | some cut =>
    if nonSystem.length ≤ cut.index then findSafeCutoffPoint nonSystem (nonSystem.length-1)
    else cut.index

def splitAtCut (system nonSystem : List (Message P)) (cut : Nat) (pin : Bool) : CompactionPlan P :=
  let cut := min cut nonSystem.length
  let tailHasUser := (nonSystem.drop cut).any (isTurnUserMessage inference)
  let pinned :=
    if pin && !tailHasUser then rposition (isTurnUserMessage inference) (nonSystem.take cut)
    else none
  { toSummarize := withoutIndex pinned (nonSystem.take cut)
    toKeep := system++((pinned.bind (nonSystem[·]?)).toList.map (capPinnedMessage inference)++
      nonSystem.drop cut)
    cut := cut
    pinned := pinned }

namespace SummarizationPolicy

variable (policy : SummarizationPolicy)

def triggerBudget : Nat :=
  match policy.contextWindow with
  | some window => (Float.ofNat window*policy.thresholdFraction).toUInt64.toNat
  | none => policy.triggerTokens

def countTailCut (nonSystem : List (Message P)) : Nat :=
  if nonSystem.length ≤ policy.keepLast then 0
  else findSafeCutoffPoint nonSystem (nonSystem.length-policy.keepLast)

def planSplit (messages : List (Message P)) : CompactionPlan P :=
  let (system,nonSystem) := partitionSystem messages
  let cut :=
    match policy.keepRecentTokens with
    | some keepTokens => tokenTailCut inference nonSystem keepTokens
    | none => policy.countTailCut nonSystem
  splitAtCut inference system nonSystem cut policy.pinTurnUserMessage

def recentStart (budget : Nat) : List (Message P) → (kept start : Nat) → Nat
  | [], _, start => start
  | m :: older, kept, start =>
    let tokens := estimateMessageTokens inference m
    if budget < kept+tokens then start else recentStart budget older (kept+tokens) older.length

def planSplitRecentTokens (messages : List (Message P))
    (keepRecentTokens : Nat) : CompactionPlan P :=
  let (system,nonSystem) := partitionSystem messages
  let budget :=
    match policy.triggerBudget with
    | 0 => keepRecentTokens
    | trigger => min keepRecentTokens (trigger/2)
  let start := recentStart inference budget nonSystem.reverse 0 nonSystem.length
  let start := if start = nonSystem.length then nonSystem.length-1 else start
  splitAtCut inference system nonSystem (findSafeCutoffPoint nonSystem start)
    policy.pinTurnUserMessage

end SummarizationPolicy

end

section

variable {inference : Inference P} {messages nonSystem : List (Message P)}

theorem wellFormed_nonSystem (h : WellFormed messages) :
    WellFormed (partitionSystem messages).2 := by
  induction h with
  | nil => exact .nil
  | @plain m rest hm ht _ ih =>
    cases hs : m.isSystem with
    | true => simpa [partitionSystem,hs] using ih
    | false => simpa [partitionSystem,hs] using WellFormed.plain hm ht ih
  | @turn a results rest ha hans _ ih =>
    have hs : a.isSystem = false := by
      cases a with
      | assistant => rfl
      | _ => cases ha
    have hres : results.filter (fun m => !m.isSystem) = results := by
      apply filter_eq_self.2
      intro r hr
      have ht := hans.tools r hr
      cases r with
      | tool => rfl
      | _ => cases ht
    have heq : (partitionSystem (a :: (results++rest))).2 =
        a :: (results++(partitionSystem rest).2) := by
      simp [partitionSystem,hs,hres]
    rw [heq]
    exact .turn ha hans ih

theorem partitionSystem_nonSystem (messages : List (Message P)) :
    (partitionSystem (partitionSystem messages).2).2 = (partitionSystem messages).2 := by
  simp [partitionSystem]

theorem wellFormed_append {quiet rest : List (Message P)}
    (hq : ∀ m ∈ quiet, isToolCallingAssistant m = false ∧ m.isTool = false) (h : WellFormed rest) :
    WellFormed (quiet++rest) := by
  induction quiet with
  | nil => exact h
  | cons m _ ih =>
    obtain ⟨hm,ht⟩ := hq m mem_cons_self
    exact .plain hm ht (ih fun m hm => hq m (mem_cons_of_mem _ hm))

theorem system_quiet {m : Message P} (hm : m ∈ (partitionSystem messages).1) :
    isToolCallingAssistant m = false ∧ m.isTool = false := by
  have hs := (mem_filter.1 hm).2
  cases m with
  | system => exact ⟨rfl,rfl⟩
  | _ => cases hs

theorem wellFormed_tokenTailCut (h : WellFormed (partitionSystem messages).2) {keepTokens : Nat} :
    WellFormed
      ((partitionSystem messages).2.drop
      (tokenTailCut inference (partitionSystem messages).2 keepTokens)) := by
  unfold tokenTailCut
  split
  · exact h
  next hc =>
    split
    · exact wellFormed_cutoff h
    · simp only [findCutPoint,partitionSystem_nonSystem] at hc
      split at hc
      · cases hc
      · split at hc
        · cases hc
        · cases hc
          exact wellFormed_cutoff h

theorem capPinnedMessage_plain {m : Message P} (h : isTurnUserMessage inference m) :
    isToolCallingAssistant (capPinnedMessage inference m) = false ∧
    (capPinnedMessage inference m).isTool = false := by
  cases m with
  | user =>
    simp only [capPinnedMessage]
    split <;> exact ⟨rfl,rfl⟩
  | _ => cases h

structure Compacts (inference : Inference P) (messages : List (Message P))
    (plan : CompactionPlan P) : Prop where
  split : ∃ head tail, messages.filter (fun m => !m.isSystem) = head++tail ∧
    plan.cut = head.length ∧
    ((plan.pinned = none ∧ plan.toSummarize = head ∧
        plan.toKeep = messages.filter Message.isSystem++tail) ∨
      ∃ earlier user later, plan.pinned = some earlier.length ∧ head = earlier++user :: later ∧
        isTurnUserMessage inference user = true ∧ plan.toSummarize = earlier++later ∧
        plan.toKeep = messages.filter Message.isSystem++capPinnedMessage inference user :: tail)
  wellFormed : WellFormed plan.toKeep
  intact : toolPairingIsIntact plan.toKeep = true

theorem compacts_splitAtCut {cut : Nat} (pin : Bool)
    (h : WellFormed ((partitionSystem messages).2.drop cut)) :
    Compacts inference messages
      (splitAtCut inference (partitionSystem messages).1 (partitionSystem messages).2 cut pin) := by
  generalize hn : (partitionSystem messages).2 = nonSystem at h
  have hdrop : nonSystem.drop (min cut nonSystem.length) = nonSystem.drop cut := by
    rcases Nat.le_total cut nonSystem.length with hc | hc
    · rw [Nat.min_eq_left hc]
    · rw [Nat.min_eq_right hc,drop_length,drop_of_length_le hc]
  have hlen : min cut nonSystem.length = (nonSystem.take (min cut nonSystem.length)).length := by
    rw [length_take]
    omega
  have hsplit : nonSystem = nonSystem.take (min cut nonSystem.length)++
      nonSystem.drop (min cut nonSystem.length) := (take_append_drop _ _).symm
  rw [← hdrop] at h
  simp only [splitAtCut]
  generalize min cut nonSystem.length = k at h hlen hsplit
  generalize hp : (if (pin && !(nonSystem.drop k).any (isTurnUserMessage inference)) = true then
    rposition (isTurnUserMessage inference) (nonSystem.take k) else none) = pinned
  have hpinned : pinned = none ∨ ∃ earlier user later, pinned = some earlier.length ∧
      nonSystem.take k = earlier++user :: later ∧ isTurnUserMessage inference user := by
    split at hp
    · cases pinned with
      | none => exact .inl rfl
      | some =>
        obtain ⟨earlier,user,later,he,rfl,hu⟩ := rposition_split hp
        exact .inr ⟨earlier,user,later,rfl,he,hu⟩
    · exact .inl hp.symm
  have hfilter : messages.filter (fun m => !m.isSystem) = nonSystem := hn
  rcases hpinned with rfl | ⟨earlier,user,later,rfl,hhead,hu⟩
  · have hkeep : WellFormed ((partitionSystem messages).1++nonSystem.drop k) :=
      wellFormed_append (fun _ => system_quiet) h
    refine ⟨⟨_,_,hfilter.trans hsplit,hlen,.inl ⟨rfl,withoutIndex_none,rfl⟩⟩,hkeep,?_⟩
    exact toolPairingIsIntact_of_wellFormed hkeep
  · have hat : nonSystem[earlier.length]? = some user := by
      rw [hsplit,hhead]
      simp
    have hcap := capPinnedMessage_plain hu
    have hkeep : WellFormed ((partitionSystem messages).1++
        capPinnedMessage inference user :: nonSystem.drop k) :=
      wellFormed_append (fun _ => system_quiet) (.plain hcap.1 hcap.2 h)
    simp only [Option.bind_some,hat,Option.toList_some,map_cons,map_nil,singleton_append]
    refine ⟨⟨_,_,hfilter.trans hsplit,hlen,.inr ⟨earlier,user,later,rfl,hhead,hu,?_,rfl⟩⟩,
      hkeep,toolPairingIsIntact_of_wellFormed hkeep⟩
    rw [hhead,withoutIndex_some]

theorem plans_keep_turns (policy : SummarizationPolicy) (h : WellFormed messages) :
    Compacts inference messages (policy.planSplit inference messages) ∧
    ∀ keepRecentTokens,
    Compacts inference messages
      (policy.planSplitRecentTokens inference messages keepRecentTokens) := by
  have hn := wellFormed_nonSystem h
  constructor
  · apply compacts_splitAtCut
    split
    · exact wellFormed_tokenTailCut hn
    unfold SummarizationPolicy.countTailCut
    split
    · exact hn
    · exact wellFormed_cutoff hn
  · intro _
    apply compacts_splitAtCut
    exact wellFormed_cutoff hn

def sample : List (Message String) :=
  [.system "be brief",.user "look it up",.assistant "" [⟨"c1"⟩],.tool "c1" "found",
    .assistant "done" []]

theorem wellFormed_sample : WellFormed sample := by
  have ha : Answers (.assistant "" [⟨"c1"⟩]) [.tool "c1" "found"] :=
    ⟨by decide,by simp [Message.callIds,Message.resultId]⟩
  exact .plain rfl rfl (.plain rfl rfl (.turn rfl ha (.plain rfl rfl .nil)))

def bareInference : Inference String where
  text := fun
    | .system content | .user content | .custom content => content
    | .assistant content _ | .tool _ content => content
  charWeight := fun _ => 4
  ofText := id

def lastTwo : SummarizationPolicy := ⟨0,2,none,0.9,none,true⟩

theorem plans_keep_turns_sample :
    WellFormed sample ∧ lastTwo.planSplit bareInference sample = ⟨[],sample,1,some 0⟩ ∧
    Compacts bareInference sample (lastTwo.planSplit bareInference sample) :=
  ⟨wellFormed_sample,by decide +kernel,(plans_keep_turns lastTwo wellFormed_sample).1⟩

end

variable {inference : Inference P} {messages ms : List (Message P)} {n j keepTokens : Nat}

theorem wellFormed_take (h : WellFormed ms) (hd : WellFormed (ms.drop n)) :
    WellFormed (ms.take n) := by
  induction h generalizing n with
  | nil => simpa using WellFormed.nil
  | plain hm ht _ ih =>
    cases n with
    | zero => exact .nil
    | succ => exact .plain hm ht (ih hd)
  | @turn a results rest ha hans hr ih =>
    cases n with
    | zero => exact .nil
    | succ n =>
      rw [drop_succ_cons,drop_append] at hd
      rw [take_succ_cons,take_append]
      by_cases hn : n < results.length
      · rw [drop_eq_getElem_cons hn] at hd
        have hhead := head_isTool hd _ rfl
        rw [hans.tools _ (getElem_mem hn)] at hhead
        cases hhead
      · have hn := Nat.le_of_not_lt hn
        rw [drop_of_length_le hn] at hd
        rw [take_of_length_le hn]
        exact .turn ha hans (ih hd)

theorem owner_spec {ids} {i : Nat} (h : owner ms ids n = some i) :
    i < n ∧ ms[i]?.any Message.isTool = false := by
  induction n with
  | zero => cases h
  | succ n ih =>
    rw [owner] at h
    split at h
    next hany =>
      cases h
      refine ⟨Nat.lt_succ_self _,Bool.eq_false_iff.2 fun ht => ?_⟩
      obtain ⟨m,hm,ht⟩ := (Option.any_eq_true _ _).1 ht
      simp [hm,Message.declaredCallIds,callIds_of_tool ht] at hany
    · exact (ih h).imp_left Nat.lt_succ_of_lt

theorem tools_le_boundary (hn : ms[n]?.any Message.isTool = false) :
    (ms.takeWhile Message.isTool).length ≤ n := by
  induction ms generalizing n with
  | nil => exact Nat.zero_le _
  | cons m _ ih =>
    cases ht : m.isTool with
    | false => simp [ht]
    | true =>
      cases n with
      | zero => simp [ht] at hn
      | succ => simpa [ht] using ih hn

theorem after_tools : ms[(ms.takeWhile Message.isTool).length]?.any Message.isTool = false := by
  induction ms with
  | nil => rfl
  | cons m _ ih =>
    cases ht : m.isTool with
    | false => simp [ht]
    | true => simpa [ht] using ih

theorem safe_boundary : ms[findSafeCutoffPoint ms n]?.any Message.isTool = false := by
  rw [findSafeCutoffPoint]
  split
  · dsimp only
    cases ho : owner ms (orphanIds ((ms.drop n).takeWhile Message.isTool)) n with
    | some => exact (owner_spec ho).2
    | none =>
      rw [Option.getD_none,← getElem?_drop]
      exact after_tools
  next hn => exact Bool.eq_false_iff.2 hn

theorem safe_le_boundary (hj : ms[j]?.any Message.isTool = false) (hn : n ≤ j) :
    findSafeCutoffPoint ms n ≤ j := by
  rw [findSafeCutoffPoint]
  split
  · dsimp only
    cases ho : owner ms (orphanIds ((ms.drop n).takeWhile Message.isTool)) n with
    | some => exact Nat.le_trans (Nat.le_of_lt (owner_spec ho).1) hn
    | none =>
      obtain ⟨k,rfl⟩ := Nat.exists_eq_add_of_le hn
      rw [← getElem?_drop] at hj
      exact Nat.add_le_add_left (tools_le_boundary hj) n
  · exact hn

def totalTokens (inference : Inference P) (ms : List (Message P)) : Nat :=
  (ms.map (estimateMessageTokens inference)).sum

theorem totalTokens_append (inference : Inference P) (ms l : List (Message P)) :
    totalTokens inference (ms++l) = totalTokens inference ms+totalTokens inference l := by
  simp [totalTokens]

theorem totalTokens_drop_le {i : Nat} (h : i ≤ j) :
    totalTokens inference (ms.drop j) ≤ totalTokens inference (ms.drop i) := by
  obtain ⟨k,rfl⟩ := Nat.exists_eq_add_of_le h
  have hsplit := totalTokens_append inference ((ms.drop i).take k) ((ms.drop i).drop k)
  rw [take_append_drop,drop_drop] at hsplit
  omega

theorem cutIndex_spec {acc : Nat} (h : acc ≤ keepTokens) :
    let k := cutIndex inference keepTokens ms.reverse acc
    k ≤ ms.length ∧ acc+totalTokens inference (ms.drop k) ≤ keepTokens ∧
      ∀ i < k, keepTokens < acc+totalTokens inference (ms.drop i) := by
  induction ms using List.reverseRecOn generalizing acc with
  | nil => exact ⟨Nat.le_refl _,h,nofun⟩
  | append_singleton ms m ih =>
    have hdrop {i} (hi : i ≤ ms.length) : totalTokens inference ((ms++[m]).drop i) =
        totalTokens inference (ms.drop i)+estimateMessageTokens inference m := by
      rw [drop_append_of_le_length hi,totalTokens_append]
      simp [totalTokens]
    rw [reverse_concat,cutIndex,length_reverse,length_append,length_singleton]
    split
    next hm =>
      refine ⟨Nat.le_refl _,by simpa [totalTokens] using h,fun i hi => ?_⟩
      rw [hdrop (Nat.le_of_lt_succ hi)]
      omega
    next hm =>
      obtain ⟨hk,_,hlt⟩ := ih (Nat.le_of_not_lt hm)
      refine ⟨Nat.le_succ_of_le hk,?_,fun i hi => ?_⟩
      · rw [hdrop hk]
        omega
      rw [hdrop (by omega)]
      have := hlt i hi
      omega

def heavyInference : Inference String := { bareInference with charWeight := fun _ => 12 }

end Harness.Summarization
