import Mathlib.Data.List.DropRight
import TinyAgents.Harness.Summarization

namespace Harness.Summarization

open List Option

inductive MessageRole where
  | system
  | user
  | assistant
  | tool
  | custom
  deriving DecidableEq

inductive TrimStrategy where
  | keepLast (n : Nat)
  | keepFirstAndLast (first last : Nat)
  | maxTokens (limit : Nat)

structure TrimOptions where
  repairToolPairs : Bool := true
  startOn : Option (List MessageRole) := none
  endOn : Option (List MessageRole) := none

variable {P : Type}

section

def MessageRole.of : Message P → MessageRole
  | .system _ => .system
  | .user _ => .user
  | .assistant _ _ => .assistant
  | .tool _ _ => .tool
  | .custom _ => .custom

variable (inference : Inference P) (messages : List (Message P)) (strategy : TrimStrategy)
  (options : TrimOptions) (retained : List (Message P))

def advancePastOrphanTools (cutoff : Nat) : Nat :=
  cutoff+((messages.drop cutoff).takeWhile Message.isTool).length

def retractOrphanToolCalls (stop : Nat) : Nat :=
  ((messages.take stop).rdropWhile isToolCallingAssistant).length

def shed (limit others : Nat) : (tokens : List Nat) → (total : Nat) → Option (Nat × Nat)
  | [], total => some (0,total)
  | t :: tokens, total =>
    if limit < others+total then
      if t ≤ total then (shed limit others tokens (total-t)).map (Prod.map (·+1) id) else none
    else some (0,total)

def applyStrategy (system nonSystem : List (Message P)) :
    TrimStrategy → Option (List (Message P) × List (Message P))
  | .keepLast n =>
    let start := nonSystem.length-n
    let start := if options.repairToolPairs then findSafeCutoffPoint nonSystem start else start
    some (system,nonSystem.drop start)
  | .keepFirstAndLast first last =>
    if nonSystem.length ≤ first+last then some (system,nonSystem)
    else
      let suffix := nonSystem.length-last
      let (stop,start) :=
        if options.repairToolPairs then
          let stop := retractOrphanToolCalls nonSystem first
          (stop,max (findSafeCutoffPoint nonSystem suffix) stop)
        else (first,suffix)
      some (system,nonSystem.take stop++nonSystem.drop start)
  | .maxTokens limit => do
    let sysTokens := system.map (estimateMessageTokens inference)
    let nonSysTokens := nonSystem.map (estimateMessageTokens inference)
    let (start,nonSysTotal) ← shed limit sysTokens.sum nonSysTokens nonSysTokens.sum
    let start := if options.repairToolPairs then advancePastOrphanTools nonSystem start else start
    let (sysStart,_) ← shed limit nonSysTotal sysTokens sysTokens.sum
    some (system.drop sysStart,nonSystem.drop start)

def dropEnd : List (Message P) :=
  match options.endOn.filter (!·.isEmpty) with
  | some roles =>
    let popped := retained.rdropWhile fun m => !roles.contains (.of m)
    if options.repairToolPairs then popped.take (retractOrphanToolCalls popped popped.length)
    else popped
  | none => retained

def dropStart : List (Message P) :=
  match options.startOn.filter (!·.isEmpty) with
  | some roles => retained.dropWhile fun m => !roles.contains (.of m)
  | none => retained

def applyRoleBoundaries : List (Message P) :=
  dropStart options (dropEnd options retained)

def finish : List (Message P) :=
  let retained := applyRoleBoundaries options retained
  if options.repairToolPairs then retained.drop (advancePastOrphanTools retained 0) else retained

def trimMessagesWith : Option (List (Message P)) :=
  let (system,nonSystem) := partitionSystem messages
  (applyStrategy inference options system nonSystem strategy).map fun (system,retained) =>
    system++finish options retained

def trimMessages : Option (List (Message P)) :=
  trimMessagesWith inference messages strategy {}

end

section

variable {inference : Inference P} {ms : List (Message P)} {n limit others : Nat}

theorem drop_advance :
    ms.drop (advancePastOrphanTools ms n) = (ms.drop n).dropWhile Message.isTool := by
  rw [advancePastOrphanTools,← drop_drop]
  generalize ms.drop n = run
  calc run.drop (run.takeWhile Message.isTool).length
      = (run.takeWhile Message.isTool++run.dropWhile Message.isTool).drop
          (run.takeWhile Message.isTool).length := by rw [takeWhile_append_dropWhile]
    _ = run.dropWhile Message.isTool := drop_left

theorem take_retract :
    ms.take (retractOrphanToolCalls ms n) = (ms.take n).rdropWhile isToolCallingAssistant := by
  have hp := rdropWhile_prefix isToolCallingAssistant (ms.take n)
  replace hp := IsPrefix.trans hp <| take_prefix _ _
  exact (prefix_iff_eq_take.1 hp).symm

theorem shed_messages (inference : Inference P) (limit others : Nat) (ms : List (Message P)) :
    ∃ k, shed limit others (ms.map (estimateMessageTokens inference)) (totalTokens inference ms) =
      some (k,totalTokens inference (ms.drop k)) ∧
    (others+totalTokens inference (ms.drop k) ≤ limit ∨ ms.length ≤ k) ∧
    (k = 0 ∨ limit < others+totalTokens inference ms) := by
  induction ms with
  | nil => exact ⟨0,rfl,.inr (Nat.le_refl _),.inl rfl⟩
  | cons m ms ih =>
    have htotal : totalTokens inference (m :: ms) =
      estimateMessageTokens inference m+totalTokens inference ms := sum_cons
    rw [map_cons,shed,htotal,if_pos (Nat.le_add_right _ _),Nat.add_sub_cancel_left]
    by_cases hl : limit < others+(estimateMessageTokens inference m+totalTokens inference ms)
    · obtain ⟨k,hk,hend,-⟩ := ih
      refine ⟨k+1,?_,hend.imp_right Nat.succ_le_succ,.inr hl⟩
      rw [if_pos hl,hk]
      rfl
    · rw [← htotal] at hl
      exact ⟨0,if_neg hl,.inl (Nat.le_of_not_lt hl),.inl rfl⟩

theorem finish_bare (repair : Bool) (retained : List (Message P)) :
    ∃ j, finish { repairToolPairs := repair } retained = retained.drop j := by
  cases repair with
  | true => exact ⟨_,rfl⟩
  | false => exact ⟨0,rfl⟩

theorem applyStrategy_maxTokens (inference : Inference P) (options : TrimOptions)
    (system nonSystem : List (Message P)) (limit : Nat) :
    ∃ k s s', s ≤ s' ∧
    s' = (if options.repairToolPairs then advancePastOrphanTools nonSystem s else s) ∧
    applyStrategy inference options system nonSystem (.maxTokens limit) =
      some (system.drop k,nonSystem.drop s') ∧
    totalTokens inference (system.drop k)+totalTokens inference (nonSystem.drop s) ≤ limit ∧
    (k = 0 ∨ nonSystem.length ≤ s) ∧
    (totalTokens inference system+totalTokens inference nonSystem ≤ limit → k = 0 ∧ s = 0) := by
  obtain ⟨s,hs,hfit,hnone⟩ :=
    shed_messages inference limit (totalTokens inference system) nonSystem
  obtain ⟨k,hk,hall,hfirst⟩ :=
    shed_messages inference limit (totalTokens inference (nonSystem.drop s)) system
  have hnil {n : Nat} {ms : List (Message P)} (hn : ms.length ≤ n) :
      totalTokens inference (ms.drop n) = 0 := by
    rw [drop_of_length_le hn]
    rfl
  refine ⟨k,s,_,?_,rfl,?_,?_,hfirst.imp_right fun _ => hfit.resolve_left (by omega),fun hle => ?_⟩
  · split
    · exact Nat.le_add_right _ _
    · exact Nat.le_refl _
  · simp only [applyStrategy]
    rw [← totalTokens,← totalTokens,hs]
    simp only [bind_eq_bind,bind_some,hk]
  · rcases hall with hall | hall
    · omega
    have := hnil hall
    rcases hfit with hfit | hfit
    · omega
    · have := hnil hfit
      omega
  · obtain rfl := hnone.resolve_right (by omega)
    rw [drop_zero] at hfirst
    exact ⟨hfirst.resolve_right (by omega),rfl⟩

theorem max_tokens_within_limit (inference : Inference P) (messages : List (Message P))
    (limit : Nat) (repair : Bool) : let parts := partitionSystem messages
    ∃ k s, trimMessagesWith inference messages (.maxTokens limit) { repairToolPairs := repair } =
        some (parts.1.drop k++parts.2.drop s) ∧
      totalTokens inference (parts.1.drop k++parts.2.drop s) ≤ limit ∧
      (k = 0 ∨ parts.2.drop s = []) := by
  simp only [trimMessagesWith]
  generalize partitionSystem messages = parts
  obtain ⟨k,s,s',_,-,happly,_,hfirst,-⟩ := applyStrategy_maxTokens inference
    { repairToolPairs := repair } parts.1 parts.2 limit
  obtain ⟨j,hj⟩ := finish_bare repair (parts.2.drop s')
  have hle : totalTokens inference (parts.2.drop (s'+j)) ≤
    totalTokens inference (parts.2.drop s) := totalTokens_drop_le (by omega)
  refine ⟨k,s'+j,?_,?_,hfirst.imp_right fun _ => drop_of_length_le (by omega)⟩
  · simp only [happly,map_some,hj,drop_drop]
  · rw [totalTokens_append]
    omega

variable {options : TrimOptions} {retained : List (Message P)}

def permits (roles : Option (List MessageRole)) (m : Message P) : Bool :=
  match roles.filter (!·.isEmpty) with
  | some roles => roles.contains (.of m)
  | none => true

theorem role_of_isTool {m : Message P} (h : m.isTool) : MessageRole.of m = .tool := by
  cases m with
  | tool => rfl
  | _ => cases h

theorem dropWhile_dropWhile {α : Type} {p q : α → Bool} (h : ∀ x, p x → q x) (l : List α) :
    (l.dropWhile q).dropWhile p = l.dropWhile q := by
  induction l with
  | nil => rfl
  | cons x _ ih =>
    cases hq : q x with
    | true => simpa [hq] using ih
    | false =>
      have hp : p x = false := Bool.eq_false_iff.2 fun hp => by simp [h x hp] at hq
      simp [hq,hp]

theorem finish_repaired (hr : options.repairToolPairs)
    (ht : ∀ roles ∈ options.startOn, .tool ∉ roles) :
    finish options retained = (dropEnd options retained).dropWhile fun m =>
      !permits options.startOn m || m.isTool := by
  simp only [finish,applyRoleBoundaries,hr,if_true,drop_advance,drop_zero,dropStart,permits]
  cases hs : options.startOn.filter (!·.isEmpty) with
  | none => simp
  | some roles =>
    have htool (m : Message P) (hm : m.isTool) : (!roles.contains (.of m)) := by
      have hmem : roles ∈ options.startOn := (filter_eq_some_iff.1 hs).1
      simpa [role_of_isTool hm] using ht roles hmem
    have hsame : (fun m : Message P => !roles.contains (.of m) || m.isTool) =
        fun m => !roles.contains (.of m) := by
      funext m
      cases hm : m.isTool with
      | true => simpa using htool m hm
      | false => simp
    simp only [hsame]
    exact dropWhile_dropWhile htool _

def popped (options : TrimOptions) (kept : List (Message P)) : List (Message P) :=
  kept.rdropWhile fun m => !permits options.endOn m

-- The turns at the end of what is left after the pops follow a message that may not be the last.
structure Uncovers (options : TrimOptions) (kept : List (Message P)) (m : Message P)
    (earlier calls : List (Message P)) : Prop where
  eq : popped options kept = earlier++[m]++calls
  some : calls ≠ []
  turns : ∀ a ∈ calls, isToolCallingAssistant a = true
  plain : isToolCallingAssistant m = false
  barred : permits options.endOn m = false
  begins : ∃ x ∈ earlier++[m], permits options.startOn x = true ∧ x.isTool = false

theorem dropEnd_repaired (hr : options.repairToolPairs) {roles}
    (he : options.endOn.filter (!·.isEmpty) = some roles) :
    dropEnd options kept = (popped options kept).rdropWhile isToolCallingAssistant := by
  have hpop : popped options kept = kept.rdropWhile fun m => !roles.contains (.of m) := by
    simp only [popped,permits,he]
  rw [hpop]
  simp only [dropEnd,he,hr,if_true]
  rw [take_retract,take_length]

theorem rdropWhile_all {p : Message P → Bool} {l calls : List (Message P)}
    (h : ∀ a ∈ calls, p a) : (l++calls).rdropWhile p = l.rdropWhile p := by
  rw [rdropWhile,reverse_append,dropWhile_append_of_pos (by simpa using h),rdropWhile]

theorem rdropWhile_last {p : Message P → Bool} {l : List (Message P)} {m}
    (h : m ∈ (l.rdropWhile p).getLast?) : p m = false := by
  obtain ⟨hne,rfl⟩ := mem_getLast?_eq_getLast h
  simpa using rdropWhile_last_not p l hne

theorem uncovers_of_last (hr : options.repairToolPairs) {m : Message P}
    (hm : m ∈ (dropEnd options kept).getLast?) (hbar : permits options.endOn m = false)
    (hx : ∃ x ∈ dropEnd options kept, permits options.startOn x = true ∧ x.isTool = false) :
    ∃ earlier calls, Uncovers options kept m earlier calls := by
  cases he : options.endOn.filter (!·.isEmpty) with
  | none => simp [permits,he] at hbar
  | some =>
    rw [dropEnd_repaired hr he] at hm hx
    have hplain := rdropWhile_last hm
    obtain ⟨earlier,hD⟩ := getLast?_eq_some_iff.1 hm
    have hsplit : _ = popped options kept :=
      rdropWhile_append_rtakeWhile (p := isToolCallingAssistant)
    rw [hD] at hx hsplit
    refine ⟨earlier,_,hsplit.symm,fun hnil => ?_,fun _ => mem_rtakeWhile_imp,hplain,hbar,hx⟩
    rw [hnil,append_nil] at hsplit
    have hlast := rdropWhile_last (p := fun m => !permits options.endOn m) (l := kept) (m := m) (by
      rw [← popped,← hsplit]
      simp)
    simp [hbar] at hlast

theorem Uncovers.dropEnd {m : Message P} {earlier calls} (h : Uncovers options kept m earlier calls)
    (hr : options.repairToolPairs) : dropEnd options kept = earlier++[m] := by
  cases he : options.endOn.filter (!·.isEmpty) with
  | none => simpa [permits,he] using h.barred
  | some =>
    rw [dropEnd_repaired hr he,h.eq,rdropWhile_all h.turns,
      rdropWhile_concat_neg _ _ _ (by simp [h.plain])]

def lookup : List (Message String) := [.user "q",.assistant "" [⟨"c1"⟩],.tool "c1" "r"]

theorem wellFormed_lookup : WellFormed lookup :=
  have ha : Answers (.assistant "" [⟨"c1"⟩]) [.tool "c1" "r"] :=
    ⟨by decide,by simp [Message.callIds,Message.resultId]⟩
  .plain rfl rfl (.turn rfl ha .nil)

def endingOn (role : MessageRole) : TrimOptions := { endOn := some [role] }

end

variable {inference : Inference P} {ms before done left post kept : List (Message P)}
  {a : Message P} {n : Nat}

theorem WellFormed.append (h : WellFormed ms) (hp : WellFormed post) : WellFormed (ms++post) := by
  induction h with
  | nil => exact hp
  | plain hm ht _ ih => exact .plain hm ht ih
  | turn ha hans _ ih =>
    rw [cons_append,append_assoc]
    exact .turn ha hans ih

theorem WellFormed.suffix (h : WellFormed (before++post))
    (ht : ∀ m ∈ post.head?, m.isTool = false) : WellFormed post := by
  have hd : (before++post).drop before.length = post := drop_left
  rcases cut_cases h before.length with hw | ⟨_,_,_,_,_,hs⟩
  · rwa [hd] at hw
  have hhead := hs.head
  rw [← List.head?_drop,hd] at hhead
  cases hp : post.head? with
  | none => simp [hp] at hhead
  | some m => simp [hp,ht m hp] at hhead

theorem answers_of_wellFormed (ha : isToolCallingAssistant a) (hd : ∀ r ∈ done, r.isTool)
    (h : WellFormed (a :: done)) : Answers a done := by
  cases h with
  | plain hm => simp [ha] at hm
  | @turn _ results rest _ hans hr =>
    cases rest with
    | nil => simpa using hans
    | cons m => exact absurd (hd m (by simp)) (by simp [head_isTool hr m rfl])

theorem WellFormed.retract (h : WellFormed ms) : ms.rdropWhile isToolCallingAssistant = ms := by
  refine rdropWhile_eq_self_iff.2 fun hne hc => ?_
  have hlast := dropLast_append_getLast hne
  generalize ms.getLast hne = a at *
  rw [← hlast] at h
  have hw := h.suffix (by simpa using isTool_of_turn hc)
  have hids := (answers_of_wellFormed hc (by simp) hw).ids
  cases a with
  | assistant _ toolCalls =>
    cases toolCalls with
    | nil => cases hc
    | cons c => exact absurd ((hids c.id).1 (by simp [Message.callIds])) (by simp)
  | _ => cases hc

theorem Splits.take (hs : Splits ms n before a done left post) : ms.take n = before++a :: done := by
  have hsplit : ms = (before++a :: done)++(left++post) := by
    rw [hs.eq]
    simp
  rw [hsplit]
  apply take_left'
  rw [hs.cut,length_append,length_cons]
  omega

theorem Splits.earlier (hs : Splits ms n before a done left post) (h : WellFormed ms) :
    WellFormed before := by
  have hd : WellFormed (ms.drop before.length) := by
    rw [hs.eq,drop_left]
    exact .turn hs.turn hs.answers hs.rest
  have ht := wellFormed_take h hd
  rwa [hs.eq,take_left] at ht

def TurnAnswered (ms : List (Message P)) (n : Nat) : Prop :=
  ∀ before a done left post, Splits ms n before a done left post → done = [] ∨ Answers a done

theorem wellFormed_retract_iff (h : WellFormed ms) :
    WellFormed (ms.take (retractOrphanToolCalls ms n)) ↔ TurnAnswered ms n := by
  rw [take_retract]
  constructor
  · intro hw _ a done _ _ hs
    have hdone : ∀ r ∈ done, r.isTool := fun r hr =>
      hs.answers.tools r (mem_append_left _ hr)
    rw [hs.take] at hw
    rcases eq_nil_or_concat' done with rfl | ⟨_,r,rfl⟩
    · exact .inl rfl
    have hr : ¬ isToolCallingAssistant r := fun hc => by
      simpa [isTool_of_turn hc] using hdone r (by simp)
    rw [← cons_append,← append_assoc,rdropWhile_concat_neg _ _ _ hr,append_assoc,cons_append] at hw
    exact .inr (answers_of_wellFormed hs.turn hdone
      (hw.suffix (by simpa using isTool_of_turn hs.turn)))
  · intro hturn
    rcases cut_cases h n with hw | ⟨before,a,done,left,post,hs⟩
    · have ht := wellFormed_take h hw
      rwa [ht.retract]
    have hbefore := hs.earlier h
    rw [hs.take]
    rcases hturn _ _ _ _ _ hs with rfl | hans
    · rwa [rdropWhile_concat_pos _ _ _ hs.turn,hbefore.retract]
    have hw : WellFormed (before++a :: done) := by
      simpa using hbefore.append (.turn hs.turn hans .nil)
    rwa [hw.retract]

def TrimStrategy.KeepsAll (inference : Inference P) (messages : List (Message P)) :
    TrimStrategy → Prop
  | .keepLast n => (partitionSystem messages).2.length ≤ n
  | .keepFirstAndLast first last => (partitionSystem messages).2.length ≤ first+last
  | .maxTokens limit => totalTokens inference messages ≤ limit

def TrimStrategy.CutsBetween (ms : List (Message P)) : TrimStrategy → Prop
  | .keepFirstAndLast first last =>
    findSafeCutoffPoint ms (ms.length-last) ≤ retractOrphanToolCalls ms first ∨
      TurnAnswered ms first
  | _ => True

def TrimStrategy.KeepsTurns (inference : Inference P) (messages : List (Message P))
    (strategy : TrimStrategy) : Prop :=
  strategy.KeepsAll inference messages ∨
    WellFormed (partitionSystem messages).2 ∧ strategy.CutsBetween (partitionSystem messages).2

theorem dropWhile_plain (h : ∀ m ∈ kept.head?, m.isTool = false) :
    kept.dropWhile Message.isTool = kept := by
  cases kept with
  | nil => rfl
  | cons m => simp [h m rfl]

theorem finish_plain (h : ∀ m ∈ kept.head?, m.isTool = false) : finish {} kept = kept := by
  change kept.drop (advancePastOrphanTools kept 0) = kept
  rw [drop_advance,drop_zero,dropWhile_plain h]

theorem wellFormed_advance (h : WellFormed ms) :
    WellFormed (ms.drop (advancePastOrphanTools ms n)) := by
  rw [advancePastOrphanTools,← drop_drop]
  rcases cut_cases h n with hw | ⟨_,_,_,_,_,hs⟩
  · have htools := takeWhile_tools (P := P) hw (forall_mem_nil _)
    rw [nil_append] at htools
    rwa [htools]
  rw [hs.drop,takeWhile_tools hs.rest fun r hr => hs.answers.tools r (mem_append_right _ hr),
    drop_left]
  exact hs.rest

variable {messages : List (Message P)}

theorem wellFormed_trimmed_iff (hms : WellFormed (partitionSystem messages).2)
    (strategy : TrimStrategy) :
    ∃ result, trimMessages inference messages strategy = some result ∧
    (WellFormed result ↔ strategy.KeepsTurns inference messages) := by
  have hkept {k} {kept} (hw : WellFormed kept) :
      WellFormed ((partitionSystem messages).1.drop k++finish {} kept) := by
    rw [finish_plain (head_isTool hw)]
    exact wellFormed_append (fun m hm => system_quiet (mem_of_mem_drop hm)) hw
  cases strategy with
  | keepLast =>
    exact ⟨_,rfl,iff_of_true (hkept (k := 0) (wellFormed_cutoff hms)) (.inr ⟨hms,trivial⟩)⟩
  | maxTokens limit =>
    obtain ⟨k,s,_,-,rfl,happly,-⟩ := applyStrategy_maxTokens inference {}
      (partitionSystem messages).1 (partitionSystem messages).2 limit
    refine ⟨_,?_,iff_of_true (hkept (k := k) (wellFormed_advance (n := s) hms))
      (.inr ⟨hms,trivial⟩)⟩
    exact congrArg (Option.map _) happly
  | keepFirstAndLast first last =>
    simp only [trimMessages,trimMessagesWith,applyStrategy,TrimStrategy.KeepsTurns,
      TrimStrategy.KeepsAll,TrimStrategy.CutsBetween,if_true]
    generalize hparts : (partitionSystem messages).2 = ms at hms
    by_cases hlen : ms.length ≤ first+last
    · rw [if_pos hlen]
      exact ⟨_,rfl,iff_of_true (hkept (k := 0) hms) (.inl hlen)⟩
    rw [if_neg hlen,or_iff_right hlen,and_iff_right hms]
    refine ⟨_,rfl,?_⟩
    dsimp only
    by_cases hall : findSafeCutoffPoint ms (ms.length-last) ≤ retractOrphanToolCalls ms first
    · rw [Nat.max_eq_right hall,take_append_drop]
      exact iff_of_true (hkept (k := 0) hms) (.inl hall)
    have hd := wellFormed_cutoff (n := ms.length-last) hms
    rw [Nat.max_eq_left (Nat.le_of_not_le hall),or_iff_right hall,← wellFormed_retract_iff hms]
    generalize ms.drop (findSafeCutoffPoint ms (ms.length-last)) = tail at hd
    refine ⟨fun hw => ?_,fun hw => hkept (k := 0) (hw.append hd)⟩
    have hhead : ∀ m ∈ (ms.take (retractOrphanToolCalls ms first)++tail).head?,
        m.isTool = false := by
      intro m hm
      rw [List.head?_append,List.head?_take] at hm
      split at hm
      · exact head_isTool hd m hm
      · rcases or_eq_some_iff.1 hm with hm | ⟨-,hm⟩
        · exact head_isTool hms m hm
        · exact head_isTool hd m hm
    rw [finish_plain hhead] at hw
    have ht := wellFormed_take (hw.suffix hhead)
      (show WellFormed (List.drop (ms.take _).length _) by rwa [drop_left])
    rwa [take_left] at ht

theorem toolPairingFrom_system {declared answered : List String} :
    toolPairingFrom declared answered ((partitionSystem messages).1++ms) =
    toolPairingFrom declared answered ms := by
  induction messages with
  | nil => rfl
  | cons m _ ih => cases m <;> exact ih

theorem toolPairingFrom_nonSystem {declared answered : List String} :
    toolPairingFrom declared answered (partitionSystem messages).2 =
    toolPairingFrom declared answered messages := by
  induction messages generalizing declared answered with
  | nil => rfl
  | cons m _ ih =>
    cases m with
    | tool => exact congrArg (_ && ·) ih
    | _ => exact ih

theorem head_of_intact (h : toolPairingIsIntact ms) : ∀ m ∈ ms.head?, m.isTool = false := by
  rintro m hm
  cases ms with
  | nil => cases hm
  | cons =>
    cases hm
    cases m with
    | tool => cases h
    | _ => rfl

theorem trimMessages_keepsAll (h : toolPairingIsIntact messages) {strategy}
    (hall : strategy.KeepsAll inference messages) :
    trimMessages inference messages strategy =
      some ((partitionSystem messages).1++(partitionSystem messages).2) := by
  have hhead := head_of_intact (toolPairingFrom_nonSystem.trans h)
  generalize hms : (partitionSystem messages).2 = ms at hhead
  have hzero : findSafeCutoffPoint ms 0 = 0 := by
    refine Nat.le_zero.1 (safe_le_boundary ?_ (Nat.le_refl _))
    cases ms with
    | nil => rfl
    | cons m => simpa using hhead m rfl
  have hkeep {system : List (Message P)} :
      some (system++finish {} (ms.drop 0)) = some (system++ms) := by
    rw [drop_zero,finish_plain hhead]
  simp only [trimMessages,trimMessagesWith,hms]
  cases strategy with
  | keepLast n =>
    have hlen : ms.length-n = 0 := Nat.sub_eq_zero_of_le (hms ▸ hall)
    simp only [applyStrategy,if_true,hlen,hzero]
    exact hkeep
  | keepFirstAndLast first last =>
    have hlen : ms.length ≤ first+last := hms ▸ hall
    simp only [applyStrategy,if_pos hlen]
    exact hkeep
  | maxTokens limit =>
    have htotal : totalTokens inference (partitionSystem messages).1+totalTokens inference ms =
        totalTokens inference messages := by
      rw [← totalTokens_append,← hms]
      exact ((filter_append_perm _ messages).map _).sum_nat
    obtain ⟨k,s,_,-,rfl,happly,-,-,hnone⟩ := applyStrategy_maxTokens inference {}
      (partitionSystem messages).1 ms limit
    obtain ⟨rfl,rfl⟩ := hnone (htotal ▸ hall)
    rw [happly,if_pos rfl,drop_advance,drop_zero,drop_zero,dropWhile_plain hhead]
    exact hkeep

theorem trimMessages_some (inference : Inference P) (messages : List (Message P))
    (strategy : TrimStrategy) :
    ∃ result, trimMessages inference messages strategy = some result := by
  cases strategy with
  | keepLast => exact ⟨_,rfl⟩
  | keepFirstAndLast =>
    simp only [trimMessages,trimMessagesWith,applyStrategy]
    split <;> exact ⟨_,rfl⟩
  | maxTokens limit =>
    obtain ⟨_,_,_,-,-,happly,-⟩ := applyStrategy_maxTokens inference {}
      (partitionSystem messages).1 (partitionSystem messages).2 limit
    exact ⟨_,congrArg (Option.map _) happly⟩

def parallel : List (Message String) :=
  [.assistant "" [⟨"c1"⟩,⟨"c2"⟩],.tool "c1" "r",.tool "c2" "r",.user "q",.user "q"]

def spread : List (Message String) :=
  [.user "q",.assistant "" [⟨"c1"⟩,⟨"c2"⟩],.tool "c1" "r",.user "q",.tool "c2" "r"]

end Harness.Summarization
