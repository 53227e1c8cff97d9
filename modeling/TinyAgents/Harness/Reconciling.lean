import TinyAgents.Harness.Panics

namespace Harness.AgentLoop

open Interaction List Message

variable {V T : Type}

section

variable (H : AgentHarness V T)

def AgentHarness.replayOf (call : ToolCall V) : ToolReplay :=
  ((H.dispatch call.name).map H.replay).getD .never

def interruptedRow (callId : String) : Message V :=
  .tool callId (.error "interrupted before settlement")

variable (messages : List (Message V)) (excluded : String → Bool)

def lastCalls : Option (List (ToolCall V)) :=
  messages.reverse.findSome? fun
    | .assistant calls => if calls.isEmpty then none else some calls
    | _ => none

def openCalls (calls : List (ToolCall V)) : List (ToolCall V) :=
  calls.filter fun call => !messages.any (answers call.id) && !excluded call.id

variable (effects : String → Option ToolEffectStatus)

def reconcileCall (call : ToolCall V) : Loop V T Unit :=
  if effects call.id = some .started then
    match H.replayOf call with
    | .safe => emit (.toolEffectReconciled call.id "re_execute")
    | .never => do
      update fun c => { c with messages := c.messages++[interruptedRow call.id] }
      let _ ← request (.ledgerSettled call.id .interrupted)
      emit (.toolEffectReconciled call.id "interrupted")
  else return ()

def reconcileCalls : List (ToolCall V) → Loop V T Unit
  | [] => return ()
  | call :: rest => do
    reconcileCall H effects call
    reconcileCalls rest

def reconcileToolEffects : Loop V T Unit :=
  if H.ledger.isNone then return ()
  else do
    let c ← request .read
    match lastCalls c.messages with
    | none => return ()
    | some calls => reconcileCalls H c.effects (openCalls c.messages excluded calls)

def resumeDeferred (n : Nat) (results : DeferredToolResults V) :
    Task V T (Option (LoopExit V)) := do
  ExceptT.lift (reconcileToolEffects H results.resolves)
  runLoop H n (some results)

end

section

variable {H : AgentHarness V T} {c c' : RunContext V} {results : DeferredToolResults V}
  {calls : List (ToolCall V)} {rest : List (Message V)}

structure Stranded (H : AgentHarness V T) (c : RunContext V) (results : DeferredToolResults V)
    (call : ToolCall V) : Prop where
  ledger : H.ledger.isSome = true
  turn : ∃ calls rest, lastBatch c.messages = some (calls,rest) ∧ call ∈ calls ∧
    ∀ m ∈ rest, m.answers call.id = false
  started : c.effects call.id = some .started
  unsupplied : results.resolves call.id = false

def interrupts (H : AgentHarness V T) (effects : String → Option ToolEffectStatus)
    (call : ToolCall V) : Bool :=
  decide (effects call.id = some .started) && decide (H.replayOf call = .never)

def stopped (H : AgentHarness V T) (c : RunContext V) (excluded : String → Bool)
    (calls : List (ToolCall V)) : List (ToolCall V) :=
  (openCalls c.messages excluded calls).filter (interrupts H c.effects)

def interruptions (H : AgentHarness V T) (c : RunContext V) (excluded : String → Bool) :
    List (Message V) :=
  if H.ledger.isNone then []
  else match lastCalls c.messages with
    | none => []
    | some calls => (stopped H c excluded calls).map fun call => interruptedRow call.id

structure Interrupted (messages : List (Message V)) (call : ToolCall V) : Prop where
  rows : ∃ calls rest, lastBatch messages = some (calls,rest) ∧
    rest.filter (answers call.id) =
      List.replicate ((ids calls).count call.id) (interruptedRow call.id)
  settled : ∀ pending, pendingToolCalls messages = .ok pending → call.id ∉ ids pending

def Replayed (c c' : RunContext V) (call : ToolCall V) : Prop :=
  ∃ x ∈ c'.ran.drop c.ran.length, x.asked.id = call.id

variable {messages : List (Message V)}

def Message.isAssistant : Message V → Bool
  | .assistant _ => true
  | _ => false

theorem lastBatch_eq_none : lastBatch messages = none ↔ ∀ m ∈ messages, m.isAssistant = false := by
  induction messages with
  | nil => simp [lastBatch]
  | cons message messages ih =>
    unfold lastBatch
    cases hb : lastBatch messages with
    | some =>
      have hn : ¬ ∀ m ∈ messages, m.isAssistant = false := fun h => by
        simpa [hb] using ih.2 h
      simp only [reduceCtorEq,forall_mem_cons,hn,and_false]
    | none =>
      have hn := ih.1 hb
      cases message <;> simp_all [isAssistant]

theorem lastBatch_append {more} (hm : ∀ m ∈ more, m.isAssistant = false) :
    lastBatch (messages++more) = (lastBatch messages).map fun x => (x.1,x.2++more) := by
  induction messages with
  | nil => exact lastBatch_eq_none.2 hm
  | cons message messages ih =>
    rw [cons_append]
    unfold lastBatch
    rw [ih]
    cases lastBatch messages with
    | some => rfl
    | none => cases message <;> rfl

theorem lastBatch_eq_some (h : lastBatch messages = some (calls,rest)) :
    (∃ earlier, messages = earlier++.assistant calls :: rest) ∧
    ∀ m ∈ rest, m.isAssistant = false := by
  induction messages with
  | nil => cases h
  | cons message messages ih =>
    unfold lastBatch at h
    cases hb : lastBatch messages with
    | some =>
      rw [hb] at h
      cases h
      obtain ⟨⟨earlier,rfl⟩,hrest⟩ := ih hb
      exact ⟨⟨message :: earlier,rfl⟩,hrest⟩
    | none =>
      rw [hb] at h
      cases message with
      | assistant =>
        cases h
        exact ⟨⟨[],rfl⟩,lastBatch_eq_none.1 hb⟩
      | _ => cases h

theorem lastCalls_of_lastBatch (h : lastBatch messages = some (calls,rest)) (hne : calls ≠ []) :
    lastCalls messages = some calls := by
  obtain ⟨⟨_,rfl⟩,hrest⟩ := lastBatch_eq_some h
  unfold lastCalls
  rw [reverse_append,reverse_cons,append_assoc,List.findSome?_append]
  have hnone : rest.reverse.findSome? (fun
      | .assistant calls => if calls.isEmpty then none else some calls
      | _ => none) = (none : Option (List (ToolCall V))) := by
    refine List.findSome?_eq_none_iff.2 fun m hm => ?_
    have := hrest m (mem_reverse.1 hm)
    cases m with
    | assistant => cases this
    | _ => rfl
  rw [hnone]
  simp [hne]

theorem count_unanswered (calls : List (ToolCall V)) (left : String → Nat) (id : String) :
    (ids (unanswered calls left)).count id = (ids calls).count id-left id := by
  induction calls generalizing left with
  | nil => simp [unanswered,ids]
  | cons call _ ih =>
    simp only [ids] at ih
    unfold unanswered
    by_cases hid : call.id = id
    · subst hid
      split
      next hl =>
        rw [ids,ih]
        simp only [Function.update_self,ids,map_cons,count_cons_self]
        omega
      next hl =>
        simp only [ids,map_cons,count_cons_self,ih]
        omega
    · split
      next hl =>
        rw [ids,ih]
        simp [Function.update_of_ne (Ne.symm hid),hid]
      next hl => simp [ids,hid,ih]

theorem filter_interruptedRows (calls : List (ToolCall V)) (id : String) :
    (calls.map fun call => interruptedRow (V := V) call.id).filter (answers id) =
    List.replicate ((ids calls).count id) (interruptedRow id) := by
  induction calls with
  | nil => rfl
  | cons call _ ih =>
    rw [map_cons,filter_cons,ih]
    by_cases hid : call.id = id
    · subst hid
      simp [answers,interruptedRow,ids,replicate_succ]
    · simp [answers,interruptedRow,ids,hid]

theorem count_ids (calls : List (ToolCall V)) (id : String) :
    (ids calls).count id = calls.countP fun call => call.id == id := by
  rw [ids,count_eq_countP,countP_map]
  rfl

theorem interruptions_rows {excluded} :
    ∀ m ∈ interruptions H c excluded, m.isAssistant = false := by
  unfold interruptions
  split
  · simp
  split
  · simp
  intro m hm
  obtain ⟨_,-,rfl⟩ := mem_map.1 hm
  rfl

theorem lastBatch_interrupted (h : lastBatch c.messages = some (calls,rest))
    (excluded : String → Bool) :
    lastBatch (c.messages++interruptions H c excluded) =
      some (calls,rest++interruptions H c excluded) := by
  rw [lastBatch_append interruptions_rows,h]
  rfl

theorem filter_interrupted (h : lastBatch c.messages = some (calls,rest))
    (hl : H.ledger.isSome = true) (hne : calls ≠ []) {id : String}
    (hid : ∀ m ∈ rest, m.answers id = false) (excluded : String → Bool) :
    (rest++interruptions H c excluded).filter (answers id) =
    List.replicate ((ids (stopped H c excluded calls)).count id) (interruptedRow id) := by
  have hnone : rest.filter (answers id) = [] :=
    filter_eq_nil_iff.2 fun m hm => by simp [hid m hm]
  rw [filter_append,hnone,nil_append,interruptions,Option.isNone_eq_false_iff.2 hl,
    lastCalls_of_lastBatch h hne]
  exact filter_interruptedRows _ _

variable {call : ToolCall V}

theorem interrupted_of_stranded (hs : Stranded H c results call)
    (hnever : ∀ other, Stranded H c results other → H.replayOf other = .never)
    (hrow : ∀ m ∈ c.messages, m.answers call.id = false) :
    Interrupted (c.messages++interruptions H c results.resolves) call := by
  obtain ⟨calls,rest,hlast,hmem,hrest⟩ := hs.turn
  have hall other (ho : other ∈ calls) (hid : other.id = call.id) :
      (interrupts H c.effects other && (!c.messages.any (answers other.id) &&
        !results.resolves other.id)) := by
    have hother : Stranded H c results other :=
      ⟨hs.ledger,⟨calls,rest,hlast,ho,by rwa [hid]⟩,by rw [hid]; exact hs.started,
        by rw [hid]; exact hs.unsupplied⟩
    simp [interrupts,hs.started,hnever other hother,hs.unsupplied,hid,
      any_eq_false.2 fun m hm => ne_true_of_eq_false (hrow m hm)]
  have hcount : (ids (stopped H c results.resolves calls)).count call.id =
      (ids calls).count call.id := by
    rw [count_ids,count_ids,stopped,openCalls,filter_filter,countP_filter]
    refine countP_congr fun other ho => ?_
    rw [Bool.and_eq_true]
    exact ⟨fun h => h.1,fun h => ⟨h,hall other ho (by simpa using h)⟩⟩
  have hfilter := filter_interrupted hlast hs.ledger (ne_nil_of_mem hmem) hrest results.resolves
  rw [hcount] at hfilter
  refine ⟨⟨calls,_,lastBatch_interrupted hlast _,hfilter⟩,fun _ hp hin => ?_⟩
  rw [pendingToolCalls,lastBatch_interrupted hlast] at hp
  have hzero : (ids (unanswered calls fun id => (rest++interruptions H c results.resolves).countP
      (answers id))).count call.id = 0 := by
    rw [count_unanswered,countP_eq_length_filter,hfilter,length_replicate,Nat.sub_self]
  refine (count_eq_zero.1 hzero) ?_
  dsimp only at hp
  split at hp
  · cases hp
  · cases hp
    exact hin

theorem not_interrupted_of_row (hs : Stranded H c results call)
    (hrow : ∃ m ∈ c.messages, m.answers call.id) :
    ¬ Interrupted (c.messages++interruptions H c results.resolves) call := by
  obtain ⟨calls,_,hlast,hmem,hrest⟩ := hs.turn
  rintro ⟨⟨_,_,hlast',hrows⟩,-⟩
  rw [lastBatch_interrupted hlast] at hlast'
  cases hlast'
  rw [filter_interrupted hlast hs.ledger (ne_nil_of_mem hmem) hrest,replicate_left_inj] at hrows
  have hzero : call.id ∉ ids (stopped H c results.resolves calls) := by
    intro hin
    obtain ⟨_,ho,hid⟩ := mem_map.1 hin
    have hopen := (mem_filter.1 (mem_filter.1 ho).1).2
    rw [hid] at hopen
    have hany : c.messages.any (answers call.id) := any_eq_true.2 hrow
    simp [hany] at hopen
  rw [count_eq_zero.2 hzero] at hrows
  exact Nat.ne_of_lt (count_pos_iff.2 (mem_map_of_mem hmem)) hrows

theorem pending_of_safe (hs : Stranded H c results call) (hsafe : H.replayOf call = .safe) :
    ∃ pending, pendingToolCalls (c.messages++interruptions H c results.resolves) = .ok pending ∧
    call.id ∈ ids pending := by
  obtain ⟨calls,rest,hlast,hmem,hrest⟩ := hs.turn
  have hlt : (ids (stopped H c results.resolves calls)).count call.id <
      (ids calls).count call.id := by
    obtain ⟨earlier,later,rfl⟩ := append_of_mem hmem
    have hno : interrupts H c.effects call = false := by simp [interrupts,hsafe]
    have hle calls : (ids (stopped H c results.resolves calls)).count call.id ≤
        (ids calls).count call.id :=
      ((filter_sublist.trans filter_sublist).map _).count_le _
    have h1 := hle earlier
    have h2 := hle later
    simp only [stopped,openCalls,filter_filter] at h1 h2 ⊢
    simp only [filter_append,filter_cons,hno,Bool.false_and,Bool.false_eq_true,if_false,
      ids,map_append,map_cons,count_append,count_cons_self] at h1 h2 ⊢
    omega
  have hin : call.id ∈ ids (unanswered calls fun id =>
      (rest++interruptions H c results.resolves).countP (answers id)) := by
    rw [← count_pos_iff,count_unanswered,countP_eq_length_filter,filter_interrupted hlast hs.ledger
      (ne_nil_of_mem hmem) hrest,length_replicate]
    omega
  refine ⟨_,?_,hin⟩
  rw [pendingToolCalls,lastBatch_interrupted hlast]
  dsimp only
  split
  next h =>
    rw [h] at hin
    cases hin
  · rfl

abbrev Adds (c : RunContext V) (rows : List (Message V)) (_ : Unit) (c' : RunContext V) : Prop :=
  c'.ran = c.ran ∧ c'.messages = c.messages++rows

abbrev Hosted (V T : Type) : Logic (LoopOp V T) LoopAns (RunContext V) :=
  alone steady fun _ _ => True

theorem safe_updating {α : Type} {Q : α → RunContext V → Prop} {f : RunContext V → RunContext V}
    {next : Unit → Loop V T α} (h : Safe (Hosted V T) Q (next ()) (f c)) :
    Safe (Hosted V T) Q (update f >>= next) c := by
  refine alone_perform trivial fun x _ ho => ?_
  obtain ⟨rfl,-⟩ := ho
  exact h

theorem safe_reconcileCall {effects : String → Option ToolEffectStatus} {call : ToolCall V} :
    Safe (Hosted V T)
      (Adds c (([call].filter (interrupts H effects)).map fun call => interruptedRow call.id))
      (reconcileCall H effects call) c := by
  unfold reconcileCall
  split
  next hs =>
    cases hr : H.replayOf call with
    | safe => exact safe_updating (alone_ret ⟨rfl,by simp [interrupts,hr,RunContext.emit]⟩)
    | never =>
      refine safe_updating (alone_perform trivial fun x _ ho => ?_)
      refine safe_updating (alone_ret ?_)
      obtain ⟨rfl | ⟨rfl,-⟩,-⟩ := ho
      · exact ⟨rfl,by simp [interrupts,hr,hs,RunContext.emit,RunContext.effect]⟩
      · exact ⟨rfl,by simp [interrupts,hr,hs,RunContext.emit]⟩
  next hs => exact alone_ret ⟨rfl,by simp [interrupts,hs]⟩

variable (effects : String → Option ToolEffectStatus)

theorem safe_reconcileCalls (calls : List (ToolCall V)) (c : RunContext V) :
    Safe (Hosted V T)
      (Adds c ((calls.filter (interrupts H effects)).map fun call => interruptedRow call.id))
      (reconcileCalls H effects calls) c := by
  induction calls generalizing c with
  | nil => exact alone_ret ⟨rfl,by simp⟩
  | cons _ _ ih =>
    refine safe_bind ?_ safe_reconcileCall
    rintro _ c1 ⟨hr,hm⟩
    refine safe_mono ?_ (ih c1)
    rintro _ _ ⟨hr2,hm2⟩
    refine ⟨hr2.trans hr,?_⟩
    rw [hm2,hm,append_assoc,← map_append,← filter_append]
    rfl

theorem safe_reconcileToolEffects {excluded} :
    Safe (Hosted V T) (Adds c (interruptions H c excluded))
      (reconcileToolEffects H excluded) c := by
  unfold reconcileToolEffects interruptions
  split
  · exact alone_ret ⟨rfl,by simp⟩
  · refine alone_perform trivial fun x c' ho => ?_
    obtain ⟨⟨rfl,rfl⟩,-⟩ := ho
    cases lastCalls c'.messages with
    | none => exact alone_ret ⟨rfl,by simp⟩
    | some => exact safe_reconcileCalls _ _ _

theorem possibly_reconcileCalls (calls : List (ToolCall V)) (c : RunContext V) :
    Possibly steady (fun _ _ => True) (reconcileCalls H effects calls) c := by
  induction calls generalizing c with
  | nil => exact possibly_ret trivial
  | cons call _ ih =>
    refine possibly_bind ?_ fun _ c1 (_ : True) => ih c1
    unfold reconcileCall
    split
    · cases H.replayOf call with
      | safe => exact possibly_ask () ⟨rfl,trivial⟩ (possibly_ret trivial)
      | never =>
        refine possibly_ask () ⟨rfl,trivial⟩ ?_
        refine possibly_ask (.ok ()) ⟨.inl rfl,trivial⟩ ?_
        exact possibly_ask () ⟨rfl,trivial⟩ (possibly_ret trivial)
    · exact possibly_ret trivial

theorem possibly_reconcileToolEffects {excluded} :
    Possibly steady (Adds c (interruptions H c excluded)) (reconcileToolEffects H excluded) c := by
  have h : Possibly steady (fun _ _ => True) (reconcileToolEffects H excluded) c := by
    unfold reconcileToolEffects
    split
    · exact possibly_ret trivial
    refine possibly_ask c ⟨⟨rfl,rfl⟩,trivial⟩ ?_
    change Possibly steady _ (match lastCalls c.messages with
      | none => _
      | some calls => _) c
    split
    · exact possibly_ret trivial
    · exact possibly_reconcileCalls _ _ _
  obtain ⟨x,c',hx,-⟩ := h
  exact ⟨x,c',hx,hx.safe safe_reconcileToolEffects⟩

variable {α β : Type} {P : α → Prop} {Q : β → Prop}

def Gives (P : α → Prop) (p : Task V T α) : Prop :=
  ∀ c, Possibly steady (fun r _ => ∃ a, r = .ok a ∧ P a) p.run c

theorem gives_pure {a : α} (h : P a) : Gives P (pure a : Task V T α) :=
  fun _ => possibly_ret ⟨a,rfl,h⟩

theorem gives_try {p : Task V T α} {f} (h : Gives P p) (hf : ∀ a, P a → Gives Q (f a)) :
    Gives Q (p >>= f) :=
  fun c => possibly_try (h c) fun a c' ha => hf a ha c'

theorem gives_still {op : LoopOp V T} {next} (x : LoopAns op) (hx : ∀ c, steady op c x c)
    (h : Gives Q (next x)) : Gives Q (asking op >>= next) :=
  fun c => possibly_ask x (hx c) (h c)

variable {prepared : PreparedToolCall V} {result : ToolResult V} {pending : List (ToolCall V)}
  {R : Answer V β → RunContext V → Prop} {f : RunContext V → RunContext V}
  {next : Unit → Task V T β}

theorem possibly_telling (h : Possibly steady R (next ()).run (f c)) :
    Possibly steady R (telling f >>= next).run c :=
  possibly_ask () ⟨rfl,trivial⟩ h

theorem possibly_read {next : RunContext V → Task V T β} (h : Possibly steady R (next c).run c) :
    Possibly steady R (asking .read >>= next).run c :=
  possibly_ask c ⟨⟨rfl,rfl⟩,trivial⟩ h

theorem gives_telling (h : Gives Q (next ())) : Gives Q (telling f >>= next) :=
  fun c => possibly_telling (h (f c))

theorem gives_orFail {p} (h : ∀ c, Possibly steady (fun r _ => ∃ a, r = .ok a ∧ P a) p c) :
    Gives P (orFail H prepared p) := by
  intro c
  refine possibly_bind (h c) ?_
  rintro _ _ ⟨a,rfl,ha⟩
  exact possibly_ret ⟨a,rfl,ha⟩

abbrev Returns (p : Task V T α) : Prop := Gives (fun _ => True) p

theorem returns_screened : Returns (screened H prepared result) := by
  unfold screened
  split
  · refine gives_try (P := fun x => x = .pass) (gives_orFail fun c => ?_) ?_
    · exact possibly_ask (.ok .pass) ⟨rfl,calm_ok _⟩ (possibly_ret ⟨_,rfl,rfl⟩)
    · rintro _ rfl
      exact gives_pure trivial
  · exact gives_pure trivial

theorem returns_finishToolCall : Returns (finishToolCall H prepared result) := by
  refine gives_try (P := fun _ => True) (gives_orFail fun c => ?_) fun result _ => ?_
  · exact possibly_ask (.ok result) ⟨rfl,calm_ok _⟩ (possibly_ret ⟨_,rfl,trivial⟩)
  refine gives_try returns_screened fun result _ => ?_
  refine gives_try (P := fun _ => True) (gives_orFail fun c => ?_) fun _ _ => ?_
  · exact possibly_ask (.ok ()) ⟨rfl,calm_ok _⟩ (possibly_ret ⟨_,rfl,trivial⟩)
  exact gives_telling (gives_telling (gives_telling (gives_telling (gives_telling
    (gives_pure trivial)))))

theorem returns_recoverToolCall : Returns (recoverToolCall H call result) := by
  refine gives_try (P := fun _ => True) (fun c => ?_) fun _ _ =>
    returns_finishToolCall
  exact possibly_ask () ⟨rfl,trivial⟩ (possibly_ask () ⟨rfl,trivial⟩ (possibly_ret ⟨_,rfl,trivial⟩))

def IsAnswered : ResolvedToolCall V T × ToolCall V → Prop
  | (.answered _,_) => True
  | _ => False

theorem gives_withRefusalMetadata {callId : String} :
    Returns (withRefusalMetadata (T := T) callId result) :=
  gives_still none (fun _ => ⟨rfl,trivial⟩) (gives_pure trivial)

theorem gives_ruleAdmission {name : String} {arguments : V} :
    Returns (ruleAdmission H name arguments) := by
  unfold ruleAdmission
  split
  · exact gives_pure trivial
  refine gives_try (P := fun x => x = .refuse "") (fun c => ?_) ?_
  · exact possibly_ask (.ok (.refuse "")) ⟨rfl,calm_ok _⟩ (possibly_ret ⟨_,rfl,rfl⟩)
  · rintro _ rfl
    exact gives_pure trivial

theorem gives_admitByRules : Gives IsAnswered (admitByRules H call) := by
  have hrefused (result : ToolResult V) : Gives (fun x => ∃ result, x = .answered result)
      (do return .answered (← withRefusalMetadata call.id result) :
        Task V T (ResolvedToolCall V T)) :=
    gives_try gives_withRefusalMetadata fun result _ => gives_pure ⟨result,rfl⟩
  refine gives_try gives_ruleAdmission fun gate _ => ?_
  cases gate with
  | refuse =>
    refine gives_try (gives_telling (hrefused _)) ?_
    rintro _ ⟨_,rfl⟩
    exact gives_pure trivial
  | admits =>
    refine gives_still (call,some (.toolFailed "")) (fun _ => ⟨rfl,nofun⟩) (gives_telling ?_)
    refine gives_try (hrefused _) ?_
    rintro _ ⟨_,rfl⟩
    exact gives_pure trivial

theorem gives_admitToolCall : Gives IsAnswered (admitToolCall H call) := by
  refine gives_still false (fun _ => ⟨rfl,trivial⟩) ?_
  refine gives_still false (fun _ => ⟨rfl,trivial⟩) fun c => ?_
  refine possibly_read (possibly_telling ?_)
  split
  · exact possibly_ret ⟨_,rfl,trivial⟩
  refine possibly_ask none ⟨rfl,trivial⟩ ?_
  refine gives_try (P := fun _ => True) ?_ (fun call _ => ?_) _
  · unfold unwrapped
    split
    · exact gives_telling (gives_pure trivial)
    · exact gives_pure trivial
  refine gives_try (P := fun x => x = none) ?_ ?_
  · unfold answerDiscoveryBridge
    split
    · refine gives_try (P := fun x => x = .absent) (fun c => ?_) ?_
      · exact possibly_ask (.ok .absent) ⟨rfl,calm_ok _⟩ (possibly_ret ⟨_,rfl,rfl⟩)
      · rintro _ rfl
        exact gives_pure rfl
    · exact gives_pure rfl
  · rintro _ rfl
    exact gives_admitByRules

theorem returns_executeToolSerially {asked : ToolCall V} {batch : Batch V} :
    Returns (executeToolSerially H asked batch) := by
  refine gives_try gives_admitToolCall fun resolved hr => ?_
  obtain ⟨_ | _ | _,_⟩ := resolved
  · exact hr.elim
  · exact gives_try returns_recoverToolCall fun _ _ => gives_pure trivial
  · exact hr.elim

theorem returns_applyDecision {batch : Batch V} {decision} :
    Returns (applyDecision H pending call batch decision) := by
  cases decision with
  | deny =>
    exact gives_telling (gives_try returns_recoverToolCall fun _ _ => gives_pure trivial)
  | approveWithArgs | approve =>
    exact gives_telling (gives_telling returns_executeToolSerially)

def Panicking {α : Type} (r : Answer V α) (_ : RunContext V) : Prop := r = .error .panicked

theorem possibly_applyAll (pending : List (ToolCall V)) {rest} {results}
    (h : ∃ id, results.given id < (ids rest).count id) (batch : Batch V) (c : RunContext V) :
    Possibly steady Panicking (applyAll H pending rest results batch).run c := by
  induction rest generalizing results batch c with
  | nil =>
    obtain ⟨_,hid⟩ := h
    cases hid
  | cons call rest ih =>
    have hleft (left : DeferredToolResults V) (hl : ∀ id, left.given id+
        (if call.id = id then 1 else 0) = results.given id) :
        ∃ id, left.given id < (ids rest).count id := by
      obtain ⟨id,hid⟩ := h
      rw [count_ids_cons,← hl id] at hid
      exact ⟨id,Nat.add_lt_add_iff_right.1 hid⟩
    unfold applyAll
    cases hc : results.calls call.id with
    | some outcome =>
      have hgives : Returns (answerPending H call (intoToolResult H outcome) batch) :=
        gives_try returns_recoverToolCall fun _ _ => gives_pure trivial
      exact possibly_try (hgives c) fun batch c' _ =>
        ih (hleft _ (given_removeCall (by rw [hc]; rfl))) batch c'
    | none =>
      cases ha : results.approvals call.id with
      | some =>
        exact possibly_try (returns_applyDecision c)
          fun batch c' _ => ih (hleft _ (given_removeApproval (by rw [ha]; rfl))) batch c'
      | none => exact possibly_ret rfl

theorem possibly_applyDeferredResults {results : DeferredToolResults V}
    (h : ¬ Covers results pending) :
    Possibly steady (fun r c' => ∃ e, r = .error e ∧ Panicking (.error e : Answer V β) c')
      (applyDeferredResults H pending results).run c := by
  obtain ⟨hall,hcount⟩ := not_or.1 h
  have hmissing : (pending.filter fun call => !results.resolves call.id).isEmpty := by
    refine isEmpty_iff.2 (filter_eq_nil_iff.2 fun call hc hr => hall ⟨call,hc,?_⟩)
    simpa using hr
  obtain ⟨id,hid⟩ := not_forall.1 hcount
  unfold applyDeferredResults
  dsimp only
  rw [if_pos hmissing]
  refine possibly_telling (possibly_read ?_)
  refine possibly_bind (possibly_applyAll pending ⟨id,Nat.lt_of_not_le hid⟩ ({},[]) _) ?_
  rintro _ _ rfl
  exact possibly_ret ⟨_,rfl,rfl⟩

end

variable {H : AgentHarness V T} {c c' : RunContext V} {results : DeferredToolResults V}

structure Recovers (H : AgentHarness V T) (c : RunContext V) (results : DeferredToolResults V) :
    Prop where
  panics : ∀ n x c', Executes steady (resumeDeferred H n results).run c x c' →
    x ≠ .error .panicked
  interrupts : ∀ c', Executes steady (reconcileToolEffects H results.resolves) c () c' →
    ∀ call, Stranded H c results call → H.replayOf call = .never → Interrupted c'.messages call
  replays : ∀ n x c', Executes steady (resumeDeferred H n results).run c x c' →
    ∀ call, Stranded H c results call → H.replayOf call = .safe → Replayed c c' call

structure Resumable (H : AgentHarness V T) (c : RunContext V) (results : DeferredToolResults V) :
    Prop where
  never : ∀ call, Stranded H c results call → H.replayOf call = .never
  unnamed : ∀ call, Stranded H c results call → ∀ m ∈ c.messages, m.answers call.id = false
  covered : ∀ pending,
    pendingToolCalls (c.messages++interruptions H c results.resolves) = .ok pending →
      Covers results pending

theorem calm_pendingToolCalls (messages : List (Message V)) : Calm (pendingToolCalls messages) := by
  unfold pendingToolCalls
  split
  · exact calm_error nofun
  split
  · exact calm_error nofun
  · exact calm_ok _

theorem calm_resumeDeferred (h : Resumable H c results) {n : Nat} {x}
    (hx : Executes steady (resumeDeferred H n results).run c x c') : x ≠ .error .panicked := by
  obtain ⟨_,c1,hr,hl⟩ := executes_lifted hx
  have hm := (hr.safe safe_reconcileToolEffects).2
  cases hl with
  | ask ho hl =>
    obtain ⟨⟨hx,hc⟩,-⟩ := ho
    rw [hx,hc] at hl
    have hcovered := h.covered
    rw [← hm] at hcovered
    have hcalm : Calm x := by
      refine hl.yields (fun _ _ _ _ ho => ho.2) ?_
      have hpending := calm_pendingToolCalls c1.messages
      change NeverPanics (Fallible.ofExcept (pendingToolCalls c1.messages) >>= _)
      cases hp : pendingToolCalls c1.messages with
      | error e =>
        rw [hp] at hpending
        exact calm_error (hpending e rfl)
      | ok pending =>
        change NeverPanics (applyDeferredResults H pending results >>= _)
        refine calm_try (calm_applyDeferredResults (hcovered pending hp)) fun _ => ?_
        exact calm_unlessExit calm_settleDeferred calm_runTurns
    intro he
    exact hcalm _ he rfl

theorem possibly_resumeDeferred {R : Answer V (Option (LoopExit V)) → RunContext V → Prop} {pending}
    (hp : pendingToolCalls (c.messages++interruptions H c results.resolves) = .ok pending)
    (h : ∀ c1, c1.ran = c.ran → Possibly steady (fun r c' => ∃ e, r = .error e ∧ R (.error e) c')
      (applyDeferredResults H pending results).run c1) :
    Possibly steady R (resumeDeferred H 0 results).run c := by
  refine possibly_lifted possibly_reconcileToolEffects ?_
  rintro _ c1 ⟨hr,hm⟩
  refine possibly_read ?_
  rw [hm,hp]
  change Possibly steady R (ExceptT.run (applyDeferredResults H pending results >>= _)) c1
  refine possibly_bind (h c1 hr) ?_
  rintro _ _ ⟨e,rfl,hR⟩
  exact possibly_ret hR

theorem possibly_unresolved {call : ToolCall V} (hs : Stranded H c results call)
    (hsafe : H.replayOf call = .safe) :
    Possibly steady (fun _ c' => c'.ran = c.ran) (resumeDeferred H 0 results).run c := by
  obtain ⟨pending,hp,hin⟩ := pending_of_safe hs hsafe
  refine possibly_resumeDeferred hp fun _ hr => ?_
  obtain ⟨other,ho,hid⟩ := mem_map.1 hin
  have hmissing : ¬ (pending.filter fun call => !results.resolves call.id).isEmpty := by
    intro h
    have := resolved_of_missing h other ho
    rw [hid,hs.unsupplied] at this
    cases this
  unfold applyDeferredResults
  dsimp only
  rw [if_neg hmissing]
  exact possibly_ret ⟨_,rfl,hr⟩

theorem not_replayed {call : ToolCall V} (h : c'.ran = c.ran) : ¬ Replayed c c' call := by
  rintro ⟨x,hx,-⟩
  simp [h] at hx

theorem resumed_calls_recover_iff (H : AgentHarness V T) (c : RunContext V)
    (results : DeferredToolResults V) : Recovers H c results ↔ Resumable H c results := by
  constructor
  · intro h
    have hnever call (hs : Stranded H c results call) : H.replayOf call = .never := by
      cases hr : H.replayOf call with
      | never => rfl
      | safe =>
        obtain ⟨x,c',hx,hran⟩ := possibly_unresolved hs hr
        exact (not_replayed hran (h.replays 0 x c' hx call hs hr)).elim
    refine ⟨hnever,fun call hs => ?_,fun _ hp => ?_⟩
    · by_contra hrow
      have hrow : ∃ m ∈ c.messages, m.answers call.id = true := by simpa using hrow
      obtain ⟨⟨⟩,c',hx,-,hm⟩ := possibly_reconcileToolEffects
      have hi := h.interrupts c' hx call hs (hnever call hs)
      rw [hm] at hi
      exact not_interrupted_of_row hs hrow hi
    · by_contra hc
      have hpanic : Possibly steady Panicking (resumeDeferred H 0 results).run c :=
        possibly_resumeDeferred hp fun _ _ => possibly_applyDeferredResults hc
      obtain ⟨x,c',hx,hpanic⟩ := hpanic
      exact h.panics 0 x c' hx hpanic
  · intro h
    refine ⟨fun n x c' hx => calm_resumeDeferred h hx,fun c' hx call hs _ => ?_,?_⟩
    · rw [(hx.safe safe_reconcileToolEffects).2]
      exact interrupted_of_stranded hs h.never (h.unnamed call hs)
    intro n x _ _ call hs hr
    rw [h.never call hs] at hr
    cases hr

def editCall : ToolCall Unit := { id := "a", name := "edit", arguments := () }

def approving : DeferredToolResults Unit where
  approvals := fun id => if id = "a" then some .approve else none

def replaying : AgentHarness Unit String :=
  { AgentHarness.plain fun _ => true with replay := fun _ => .safe }

def interruptedAfter (earlier : List (Message Unit)) : RunContext Unit where
  messages := earlier++[.assistant [editCall]]
  effects := fun id => if id = "a" then some .started else none

-- One decision for two calls with one id; a call that is safe to replay; and an id that an
-- earlier turn used.
theorem resumption_fails :
    (∃ x c',
      Executes steady (resumeDeferred (AgentHarness.plain fun _ => true) 0 approving).run
      { messages := [.assistant [editCall,editCall]] } x c' ∧ x = .error .panicked) ∧
    (Stranded replaying (interruptedAfter []) {} editCall ∧ replaying.replayOf editCall = .safe ∧
      ∃ x c', Executes steady (resumeDeferred replaying 0 {}).run (interruptedAfter []) x c' ∧
      ¬ Replayed (interruptedAfter []) c' editCall) ∧
    (Stranded (AgentHarness.plain fun _ => true)
      (interruptedAfter [.assistant [editCall],.tool "a" {}]) {} editCall ∧
      ∃ c',
      Executes steady (reconcileToolEffects (AgentHarness.plain fun _ => true) fun _ => false)
      (interruptedAfter [.assistant [editCall],.tool "a" {}]) () c' ∧
      ¬ Interrupted c'.messages editCall) := by
  have hstranded (H : AgentHarness Unit String) (hl : H.ledger.isSome = true)
      (earlier : List (Message Unit)) (hb : lastBatch (interruptedAfter earlier).messages =
        some ([editCall],[])) : Stranded H (interruptedAfter earlier) {} editCall :=
    ⟨hl,⟨[editCall],[],hb,by simp,by simp⟩,by simp [interruptedAfter,editCall],rfl⟩
  refine ⟨?_,⟨hstranded _ rfl _ rfl,rfl,?_⟩,hstranded _ rfl _ rfl,?_⟩
  · have hp : pendingToolCalls ([.assistant [editCall,editCall]]++interruptions
        (AgentHarness.plain fun _ => true) { messages := [.assistant [editCall,editCall]] }
        approving.resolves) = .ok [editCall,editCall] := rfl
    refine possibly_resumeDeferred hp fun _ _ => possibly_applyDeferredResults ?_
    rintro (⟨_,hc,hr⟩ | h)
    · simp only [mem_cons,not_mem_nil,or_false,or_self] at hc
      rw [hc] at hr
      cases hr
    · exact absurd (h "a") (by decide)
  · obtain ⟨x,c',hx,hr⟩ := possibly_unresolved (hstranded replaying rfl [] rfl) rfl
    exact ⟨x,c',hx,not_replayed hr⟩
  · obtain ⟨⟨⟩,c',hx,-,hm⟩ := possibly_reconcileToolEffects
    refine ⟨c',hx,?_⟩
    rw [hm]
    exact not_interrupted_of_row (hstranded _ rfl _ rfl)
      ⟨.tool "a" {},by simp [interruptedAfter],rfl⟩

end Harness.AgentLoop
