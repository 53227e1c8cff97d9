import TinyAgents.Harness.Approvals

namespace Harness.AgentLoop

open Interaction List

variable {V T : Type} {H : AgentHarness V T}

section

def Message.isTool : Message V → Bool
  | .tool _ _ => true
  | _ => false

def Message.rowId : Message V → Option String
  | .tool callId _ => some callId
  | _ => none

def rowIds (messages : List (Message V)) : List String := messages.filterMap Message.rowId

def DeferredToolRequests.pending (deferred : DeferredToolRequests V) : List String :=
  ids (deferred.approvals++deferred.calls)

structure Folds (done : List String) (c : RunContext V) (batch batch' : Batch V)
    (c' : RunContext V) : Prop where
  rows : ∃ rows, c'.messages = c.messages++rows ∧ (∀ m ∈ rows, m.isTool = true) ∧
    (rowIds rows++batch'.1.pending).Perm (batch.1.pending++done)
  followUps : ∃ more, batch'.2 = batch.2++more ∧ ∀ m ∈ more, m.isTool = false

variable {c c' c'' : RunContext V} {batch batch' batch'' : Batch V} {done done' : List String}

theorem folds_refl : Folds [] c batch batch c :=
  ⟨⟨[],by simp,by simp,by simp [rowIds]⟩,[],by simp,by simp⟩

theorem Folds.trans (h : Folds done c batch batch' c') (k : Folds done' c' batch' batch'' c'') :
    Folds (done++done') c batch batch'' c'' := by
  obtain ⟨⟨rows,hm,ht,hp⟩,more,hf,hn⟩ := h
  obtain ⟨⟨rows',hm',ht',hp'⟩,more',hf',hn'⟩ := k
  refine ⟨⟨rows++rows',?_,forall_mem_append.2 ⟨ht,ht'⟩,?_⟩,more++more',?_,
    forall_mem_append.2 ⟨hn,hn'⟩⟩
  · rw [hm',hm,append_assoc]
  · calc
      (rowIds (rows++rows')++batch''.1.pending).Perm (rowIds rows++(batch'.1.pending++done')) := by
        rw [rowIds,filterMap_append,append_assoc]
        exact hp'.append_left _
      List.Perm _ (batch.1.pending++(done++done')) := by
        rw [← append_assoc,← append_assoc]
        exact hp.append_right _
  · rw [hf',hf,append_assoc]

theorem Folds.messages (h : Folds done c batch batch' c') (hm : c.messages = c''.messages) :
    Folds done c'' batch batch' c' := by
  obtain ⟨⟨rows,hr,ht,hp⟩,hf⟩ := h
  exact ⟨⟨rows,by rw [hr,hm],ht,hp⟩,hf⟩

def AppendsRow (id : String) (c : RunContext V) (followUp : Option (Message V))
    (c' : RunContext V) : Prop :=
  ∃ result, c'.messages = c.messages++[.tool id result] ∧
    followUp = followUpMessage result.followUp

theorem folds_row {id : String} {followUp} (h : AppendsRow id c followUp c') :
    Folds [id] c batch (batch.1,batch.2++followUp.toList) c' := by
  obtain ⟨result,hm,rfl⟩ := h
  refine ⟨⟨[.tool id result],hm,by simp [Message.isTool],?_⟩,_,rfl,?_⟩
  · exact (perm_append_comm : List.Perm ([id]++batch.1.pending) _)
  unfold followUpMessage
  split <;> simp [Message.isTool]

theorem folds_deferred {request} (hm : c'.messages = c.messages) :
    Folds [request.call.id] c batch (batch.1.add request,batch.2) c' := by
  refine ⟨⟨[],by rw [hm,append_nil],by simp,?_⟩,[],by simp,by simp⟩
  unfold DeferredToolRequests.add DeferredToolRequests.pending ids
  cases request.kind with
  | approval =>
    simp only [rowIds,filterMap_nil,nil_append,map_append,append_assoc]
    exact perm_append_comm.append_left _
  | external => simp [rowIds]

def Mute : LoopOp V T → Prop
  | .update f => ∀ c, (f c).messages = c.messages
  | .modelTurn => False
  | _ => True

structure Kept (c' c : RunContext V) : Prop where
  messages : c'.messages = c.messages
  ran : c'.ran = c.ran
  toolCalls : c'.toolCalls = c.toolCalls

def Filed : LoopOp V T → Prop
  | .update f => ∀ c, Kept (f c) c
  | .modelTurn | .execute _ _ _ _ | .recordToolCall => False
  | _ => True

abbrev Freely (V T : Type) : Logic (LoopOp V T) LoopAns (RunContext V) :=
  guarded T False fun _ _ _ => True

variable {α β : Type}

theorem mute_outcome {op : LoopOp V T} {x : LoopAns op} {c'} (hop : Mute op)
    (h : running False op c x c') : c'.messages = c.messages := by
  cases op with
  | update =>
    obtain ⟨rfl,-⟩ := h
    exact hop c
  | modelTurn => exact hop.elim
  | ledgerStarted | ledgerSettled => obtain ⟨rfl | ⟨rfl,-⟩,-⟩ := h <;> rfl
  | read =>
    obtain ⟨⟨-,rfl⟩,-⟩ := h
    rfl
  | afterTool | screenInput | outputScreened =>
    obtain ⟨rfl,-⟩ := h
    cases x <;> rfl
  | _ =>
    obtain ⟨rfl,-⟩ := h
    rfl

theorem Kept.trans {c₁ c2 c3 : RunContext V} (h : Kept c₁ c2) (k : Kept c2 c3) : Kept c₁ c3 :=
  ⟨h.messages.trans k.messages,h.ran.trans k.ran,h.toolCalls.trans k.toolCalls⟩

theorem mute_of_filed (op : LoopOp V T) (h : Filed op) : Mute op := by
  cases op with
  | update => exact fun c => (h c).1
  | modelTurn => exact h.elim
  | _ => trivial

theorem safe_mute {p : Loop V T α} (h : Asks Filed p) :
    Safe (Freely V T) (fun _ c' => c'.messages = c.messages) p c :=
  alone_keeps (asks_mono mute_of_filed h)
    (fun op _ _ => by cases op <;> trivial)
    (fun _ _ _ _ hop hw ho => (mute_outcome hop ho).trans hw) rfl

variable (R : α → RunContext V → Prop)

def OnOk (x : Answer V α) (c : RunContext V) : Prop :=
  ∀ a, x = .ok a → R a c

abbrev Keeps (p : Task V T α) : RunContext V → Prop :=
  Safe (Freely V T) (OnOk R) p.run

theorem onOk_ok {R} {a : α} (h : R a c) : OnOk R (.ok a) c := by
  rintro _ ⟨⟩
  exact h

variable {prepared : PreparedToolCall V}

theorem onOk_error {R : α → RunContext V → Prop} {e : TinyAgentsError V} :
    OnOk R (.error e) c := nofun

theorem safe_muted {R : β → RunContext V → Prop} {p : Task V T α} {next : α → Task V T β}
    (hp : Asks Filed p.run) (h : ∀ a c', c'.messages = c.messages → Keeps R (next a) c') :
    Keeps R (p >>= next) c :=
  alone_then (safe_mute hp) (fun _ _ _ => onOk_error) h

theorem safe_ok_then {P : α → RunContext V → Prop} {R : β → RunContext V → Prop} {p : Task V T α}
    {next : α → Task V T β} (hp : Keeps P p c) (h : ∀ a c', P a c' → Keeps R (next a) c') :
    Keeps R (p >>= next) c :=
  alone_then hp (fun _ _ _ => onOk_error) fun a c' ha => h a c' (ha a rfl)

theorem asks_lift {P} {p : Loop V T α} (h : Asks P p) : Asks P (ExceptT.lift p : Task V T α).run :=
  asks_bind h fun _ => trivial

theorem filed_startToolCall {call : ToolCall V} {preferMarkdown executed : Bool} :
    Asks Filed (startToolCall H call preferMarkdown executed) :=
  ⟨fun _ => ⟨rfl,rfl,rfl⟩,fun _ => ⟨fun _ => ⟨rfl,rfl,rfl⟩,fun _ => trivial⟩⟩

theorem filed_failToolCall {e} : Asks Filed (failToolCall H prepared e) :=
  ⟨fun _ => ⟨rfl,rfl,rfl⟩,fun _ => ⟨fun _ => ⟨rfl,rfl,rfl⟩,fun _ => trivial⟩⟩

theorem filed_recordStarted : Asks Filed (recordToolEffectStarted H prepared) := by
  unfold recordToolEffectStarted
  cases H.ledger with
  | none => trivial
  | some failure =>
    refine ⟨trivial,fun x => ?_⟩
    cases x with
    | ok => trivial
    | error => cases failure <;> trivial

theorem filed_settled {status} : Asks Filed (recordToolEffectSettled H prepared status) := by
  unfold recordToolEffectSettled
  cases H.ledger with
  | none => trivial
  | some => exact ⟨trivial,fun _ => trivial⟩

theorem filed_orFail {p : Loop V T (Answer V α)} (h : Asks Filed p) :
    Asks Filed (orFail H prepared p).run := by
  refine asks_bind h fun x => ?_
  cases x with
  | ok => trivial
  | error => exact asks_bind filed_failToolCall fun _ => trivial

theorem filed_screened {result : ToolResult V} : Asks Filed (screened H prepared result).run := by
  unfold screened
  split
  · refine asks_try (filed_orFail ⟨trivial,fun _ => trivial⟩) fun outcome => ?_
    cases outcome <;> trivial
  · trivial

theorem kept_requestControl {control} : Kept (c.requestControl control) c := by
  unfold RunContext.requestControl
  split_ifs <;> exact ⟨rfl,rfl,rfl⟩

theorem kept_requestWrapControl (control : Option (MiddlewareControl V)) (c : RunContext V) :
    Kept (requestWrapControl control c) c := by
  cases control with
  | none => exact ⟨rfl,rfl,rfl⟩
  | some => exact kept_requestControl

theorem kept_applyToolControl (prepared : PreparedToolCall V) (result : ToolResult V)
    (c : RunContext V) : Kept (applyToolControl H prepared result c) c := by
  unfold applyToolControl
  split
  · exact ⟨rfl,rfl,rfl⟩
  dsimp only
  have h c' target (hc : Kept c' c) :
      Kept (match target with
        | some target => c'.requestControl (.jumpTo target)
        | none => c') c := by
    cases target with
    | none => exact hc
    | some => exact (kept_requestControl).trans hc
  refine ⟨(h _ _ ?_).messages,(h _ _ ?_).ran,(h _ _ ?_).toolCalls⟩ <;> split_ifs <;>
    exact ⟨rfl,rfl,rfl⟩

theorem kept_settleBatchTermination (allAnswered : Bool) (c : RunContext V) :
    Kept (settleBatchTermination allAnswered c) c := by
  unfold settleBatchTermination
  dsimp only
  split
  · split
    · exact (kept_requestControl).trans ⟨rfl,rfl,rfl⟩
    · exact ⟨rfl,rfl,rfl⟩
  · exact ⟨rfl,rfl,rfl⟩

theorem filed_telling {f : RunContext V → RunContext V} (hf : ∀ c, Kept (f c) c) :
    Asks Filed (telling (T := T) f).run :=
  ⟨hf,fun _ => trivial⟩

theorem filed_failStartedToolCall {e} : Asks Filed (failStartedToolCall H prepared e) :=
  asks_bind filed_settled fun _ => filed_failToolCall

theorem rows_finishToolCall {result : ToolResult V} :
    Keeps (AppendsRow prepared.call.id c) (finishToolCall H prepared result) c := by
  refine safe_muted (filed_orFail ⟨trivial,fun _ => trivial⟩) fun result _ h1 => ?_
  refine safe_muted filed_screened fun result _ h2 => ?_
  refine safe_muted (filed_orFail ⟨trivial,fun _ => trivial⟩) fun _ _ h3 => ?_
  refine safe_muted (filed_telling (kept_applyToolControl prepared _)) fun _ c4 h4 => ?_
  refine safe_telling (safe_telling (safe_telling (safe_telling (alone_ret (onOk_ok
    ⟨classified H prepared result,?_,rfl⟩)))))
  change c4.messages++[_] = _
  rw [h4,h3,h2,h1]

theorem rows_recoverToolCall {call : ToolCall V} {result} :
    Keeps (AppendsRow call.id c) (recoverToolCall H call result) c := by
  refine alone_lifted (safe_and (safe_mute filed_startToolCall)
    (safe_startToolCall (at_self False c call.id))) ?_
  rintro _ _ ⟨hm,rfl,-,-⟩
  unfold AppendsRow
  rw [← hm]
  exact rows_finishToolCall

theorem rows_deferToolCall {request} {deferred} :
    Safe (Freely V T) (fun d c' => d = deferred.add request ∧ c'.messages = c.messages)
      (deferToolCall (T := T) request deferred) c :=
  safe_update (alone_ret ⟨rfl,rfl⟩)

theorem rows_deferStartedToolCall {request} {deferred} :
    Safe (Freely V T) (fun d c' => d = deferred.add request ∧ c'.messages = c.messages)
      (deferStartedToolCall H prepared request deferred) c := by
  refine safe_update (safe_update (safe_bind ?_ (safe_mute filed_settled)))
  rintro _ _ hm
  refine safe_mono ?_ rows_deferToolCall
  rintro _ _ ⟨hd,hm2⟩
  exact ⟨hd,hm2.trans hm⟩

theorem rows_finishStartedToolCall {answer} :
    Keeps (AppendsRow prepared.call.id c) (finishStartedToolCall H prepared answer) c := by
  refine safe_muted (filed_telling (kept_requestWrapControl answer.2)) fun _ _ h1 => ?_
  refine safe_muted (asks_lift filed_settled) fun _ _ h2 => ?_
  unfold AppendsRow
  rw [← h1,← h2]
  exact rows_finishToolCall

theorem rows_executeStarted {tool : T} {asked : ToolCall V} {needed : Bool} :
    Keeps (Folds [prepared.call.id] c batch)
      (executeStarted H tool prepared asked needed batch) c := by
  refine alone_lift trivial fun x _ ho => ?_
  obtain ⟨rfl,-,-⟩ := ho
  cases x with
  | error =>
    dsimp only
    split
    next hr =>
      refine alone_lifted rows_deferStartedToolCall ?_
      rintro _ _ ⟨rfl,hm⟩
      rw [← (executionDeferral_some hr).1]
      exact alone_ret (onOk_ok ((folds_deferred hm).messages rfl))
    next hr =>
      exact safe_muted (asks_lift filed_failStartedToolCall) fun _ _ _ => alone_ret onOk_error
  | ok =>
    refine safe_ok_then rows_finishStartedToolCall fun _ _ h => ?_
    exact alone_ret (onOk_ok ((folds_row h).messages rfl))

theorem rows_executeToolSerially {asked : ToolCall V} :
    Keeps (Folds [asked.id] c batch) (executeToolSerially H asked batch) c := by
  refine alone_then safe_admitToolCall (fun e _ _ => onOk_error) ?_
  rintro ⟨resolved,call⟩ c₁ ⟨hq,hr⟩
  obtain ⟨hid,hres⟩ := hr resolved call rfl
  cases resolved with
  | answered result =>
    refine safe_ok_then rows_recoverToolCall fun _ _ h => ?_
    rw [hid] at h
    exact alone_ret (onOk_ok ((folds_row h).messages hq.messages))
  | deferred =>
    refine alone_lifted rows_deferToolCall ?_
    rintro _ _ ⟨rfl,hm⟩
    rw [← hres]
    exact alone_ret (onOk_ok (folds_deferred (hm.trans hq.messages)))
  | tool =>
    refine alone_lifted (safe_and (safe_mute filed_startToolCall)
      (safe_startToolCall (at_self False c₁ call.id))) ?_
    rintro _ _ ⟨hm,rfl,-,-⟩
    refine safe_muted (filed_orFail filed_recordStarted) fun _ _ h3 => ?_
    rw [← hid]
    refine safe_mono (fun x _ h b hb => ?_) rows_executeStarted
    exact (h b hb).messages (h3.trans (hm.trans hq.messages))

end

variable {c c' : RunContext V} {batch : Batch V}

def Trailed (done : List String) (c : RunContext V) (batch : Batch V)
    (deferred : DeferredToolRequests V) (c' : RunContext V) : Prop :=
  ∃ batch' c₁, Folds done c batch batch' c₁ ∧ deferred = batch'.1 ∧
    c'.messages = c₁.messages++batch'.2

theorem Folds.trailed {done done'} {batch' : Batch V} {d} {c''} (h : Folds done c batch batch' c')
    (k : Trailed done' c' batch' d c'') : Trailed (done++done') c batch d c'' := by
  obtain ⟨batch'',c₁,hf,hd,hm⟩ := k
  exact ⟨batch'',c₁,h.trans hf,hd,hm⟩

theorem rows_appendFollowUps : Keeps (Trailed [] c batch)
    (do appendFollowUps batch.2; return batch.1 : Task V T _) c :=
  safe_telling (alone_ret (onOk_ok ⟨batch,c,folds_refl,rfl,rfl⟩))

theorem rows_executeToolsSerially (calls : List (ToolCall V)) (c : RunContext V) (batch : Batch V) :
    Keeps (Trailed (ids calls) c batch) (executeToolsSerially H calls batch) c := by
  induction calls generalizing c batch with
  | nil => exact rows_appendFollowUps
  | cons _ _ ih =>
    refine safe_ok_then rows_executeToolSerially fun batch1 c₁ h1 => ?_
    exact safe_mono (fun x _ h d hd => h1.trailed (h d hd)) (ih c₁ batch1)

def AdmittedCall.callId : AdmittedCall V T → String
  | .execute _ call _ _ => call.id
  | .recovered call _ => call.id
  | .deferred request => request.call.id

def ToolSlot.callId : ToolSlot V T → String
  | .execute _ prepared _ _ => prepared.call.id
  | .recovered call _ => call.id
  | .deferred request => request.call.id

def FoldSlot.callId : FoldSlot V → String
  | .executed prepared _ => prepared.call.id
  | .recovered call _ => call.id
  | .deferred request => request.call.id

variable {calls : List (ToolCall V)}

theorem callIds_of_admits {approved : List String} {admitted : List (AdmittedCall V T)}
    (h : List.Forall₂ (AdmitsAs approved) calls admitted) :
    admitted.map AdmittedCall.callId = ids calls := by
  induction h with
  | nil => rfl
  | @cons call found _ _ hc _ ih =>
    rw [map_cons,ih]
    refine congrArg (· :: _) ?_
    cases found with
    | execute => exact hc.2.1
    | recovered | deferred => exact hc

theorem filed_failAll (e : TinyAgentsError V) (started : List (PreparedToolCall V)) :
    Asks Filed (failAll H e started) := by
  induction started with
  | nil => trivial
  | cons _ _ ih => exact asks_bind filed_failToolCall fun _ => ih

theorem rows_announce (calls : List (AdmittedCall V T)) (started : List (PreparedToolCall V))
    (c : RunContext V) :
    Keeps (fun slots c' => c'.messages = c.messages ∧
      slots.map ToolSlot.callId = calls.map AdmittedCall.callId) (announce H calls started) c := by
  induction calls generalizing started c with
  | nil => exact alone_ret (onOk_ok ⟨rfl,rfl⟩)
  | cons call _ ih =>
    cases call with
    | recovered call =>
      refine safe_ok_then (ih started c) ?_
      rintro _ _ ⟨hm,hs⟩
      exact alone_ret (onOk_ok ⟨hm,congrArg (call.id :: ·) hs⟩)
    | deferred request =>
      refine safe_ok_then (ih started c) ?_
      rintro _ _ ⟨hm,hs⟩
      exact alone_ret (onOk_ok ⟨hm,congrArg (request.call.id :: ·) hs⟩)
    | execute _ call =>
      refine alone_lifted (safe_and (safe_mute filed_startToolCall)
        (safe_startToolCall (at_self False c call.id))) ?_
      rintro prepared _ ⟨h1,rfl,-,-⟩
      refine safe_muted (asks_lift filed_recordStarted) fun x c2 h2 => ?_
      cases x with
      | error e =>
        refine safe_muted (asks_lift (filed_failAll e _)) fun _ c3 _ => ?_
        exact alone_ret onOk_error
      | ok =>
        refine safe_ok_then (ih _ c2) ?_
        rintro _ _ ⟨hm,hs⟩
        exact alone_ret (onOk_ok ⟨hm.trans (h2.trans h1),congrArg (prepared.call.id :: ·) hs⟩)

theorem rows_runAll (slots : List (ToolSlot V T)) (c : RunContext V) :
    Safe (Freely V T) (fun folds c' => c'.messages = c.messages ∧
      folds.map FoldSlot.callId = slots.map ToolSlot.callId) (runAll slots) c := by
  induction slots generalizing c with
  | nil => exact alone_ret ⟨rfl,rfl⟩
  | cons slot _ ih =>
    cases slot with
    | recovered call =>
      refine safe_bind ?_ (ih c)
      rintro _ _ ⟨hm,hs⟩
      exact alone_ret ⟨hm,congrArg (call.id :: ·) hs⟩
    | deferred request =>
      refine safe_bind ?_ (ih c)
      rintro _ _ ⟨hm,hs⟩
      exact alone_ret ⟨hm,congrArg (request.call.id :: ·) hs⟩
    | execute _ prepared =>
      refine alone_perform trivial fun x c₁ ho => ?_
      obtain ⟨rfl,-,-⟩ := ho
      refine safe_bind ?_ (ih _)
      rintro _ _ ⟨hm,hs⟩
      exact alone_ret ⟨hm,congrArg (prepared.call.id :: ·) hs⟩

theorem filed_abortSiblings (slots : List (FoldSlot V)) : Asks Filed (abortSiblings H slots) := by
  induction slots with
  | nil => trivial
  | cons slot _ ih =>
    cases slot with
    | executed =>
      exact asks_bind filed_failStartedToolCall fun _ => ih
    | recovered | deferred => exact ih

theorem rows_foldAll (slots : List (FoldSlot V)) (c : RunContext V) (batch : Batch V) :
    Keeps (Trailed (slots.map FoldSlot.callId) c batch) (foldAll H slots batch) c := by
  induction slots generalizing c batch with
  | nil => exact rows_appendFollowUps
  | cons slot slots ih =>
    have hnext {batch1} {c₁} (h : Folds [slot.callId] c batch batch1 c₁) :
        Keeps (Trailed ((slot :: slots).map FoldSlot.callId) c batch)
          (foldAll H slots batch1) c₁ :=
      safe_mono (fun x c2 k d hd => h.trailed (k d hd)) (ih c₁ batch1)
    cases slot with
    | recovered _ result =>
      exact safe_ok_then rows_recoverToolCall fun _ _ h => hnext (folds_row h)
    | deferred =>
      refine alone_lifted rows_deferToolCall ?_
      rintro _ _ ⟨rfl,hm⟩
      exact hnext (folds_deferred hm)
    | executed prepared outcome =>
      cases outcome with
      | error =>
        unfold foldAll
        dsimp only
        split
        next hr =>
          refine alone_lifted rows_deferStartedToolCall ?_
          rintro _ _ ⟨rfl,hm⟩
          refine hnext ?_
          change Folds [prepared.call.id] _ _ _ _
          rw [← (executionDeferral_some hr).1]
          exact folds_deferred hm
        next hr =>
          refine safe_muted (asks_lift filed_failStartedToolCall) fun _ _ _ => ?_
          refine safe_muted (asks_lift (filed_abortSiblings slots)) fun _ _ _ => ?_
          exact alone_ret onOk_error
      | ok => exact safe_ok_then rows_finishStartedToolCall fun _ _ h => hnext (folds_row h)

theorem rows_executeToolsConcurrently :
    Keeps (Trailed (ids calls) c ({},[])) (executeToolsConcurrently H calls) c := by
  refine alone_then (safe_admitAll calls c) (fun e _ _ => onOk_error) ?_
  rintro admitted c₁ ⟨hq,hr⟩
  refine safe_ok_then (rows_announce admitted [] c₁) ?_
  rintro slots c2 ⟨hm,hs⟩
  refine alone_lifted (rows_runAll slots c2) ?_
  rintro folds c3 ⟨hm3,hs3⟩
  have hids : folds.map FoldSlot.callId = ids calls := by
    rw [hs3,hs,callIds_of_admits (hr admitted rfl)]
  refine safe_mono (fun x _ h d hd => ?_) (rows_foldAll folds c3 ({},[]))
  obtain ⟨batch',c5,hf,hd,hmsgs⟩ := h d hd
  rw [hids] at hf
  exact ⟨batch',c5,hf.messages (hm3.trans (hm.trans hq.messages)),hd,hmsgs⟩

structure Leaves (done : List String) (c : RunContext V) (left : List String)
    (rows more : List (Message V)) (c' : RunContext V) : Prop where
  messages : c'.messages = c.messages++rows++more
  tools : ∀ m ∈ rows, m.isTool = true
  others : ∀ m ∈ more, m.isTool = false
  perm : (rowIds rows++left).Perm done

theorem Leaves.trans {done left left' : List String} {rows rows' more} {c''}
    (h : Leaves done c left rows [] c') (k : Leaves left c' left' rows' more c'') :
    Leaves done c left' (rows++rows') more c'' := by
  refine ⟨?_,forall_mem_append.2 ⟨h.tools,k.tools⟩,k.others,?_⟩
  · rw [k.messages,h.messages,append_nil,append_assoc c.messages]
  · rw [rowIds,filterMap_append,append_assoc]
    exact (k.perm.append_left _).trans h.perm

theorem leaves_of_trailed {done} {d} (h : Trailed done c ({},[]) d c') :
    ∃ rows more, Leaves done c d.pending rows more c' := by
  obtain ⟨_,_,⟨⟨rows,hm,ht,hp⟩,more,hf,hn⟩,rfl,hc⟩ := h
  refine ⟨rows,more,?_,ht,hn,hp⟩
  rw [hc,hm,hf,nil_append]

theorem rows_executeTools :
    Keeps (fun d c' => ∃ rows more, Leaves (ids calls) c d.pending rows more c')
      (executeTools H calls) c := by
  refine safe_telling ?_
  have hbatch {c} : Keeps (Trailed (ids calls) c ({},[])) (executeBatch H calls) c := by
    unfold executeBatch
    split
    · exact rows_executeToolsConcurrently
    · exact rows_executeToolsSerially calls c ({},[])
  refine safe_ok_then hbatch fun _ _ h => ?_
  refine safe_muted (filed_telling (kept_settleBatchTermination _)) fun _ c3 h3 => ?_
  obtain ⟨rows,more,hl⟩ := leaves_of_trailed h
  refine safe_telling (alone_ret (onOk_ok ?_))
  exact ⟨rows,more,h3.trans hl.messages,hl.tools,hl.others,hl.perm⟩

theorem rows_applyDecision {pending} {call : ToolCall V} {decision} :
    Keeps (Folds [call.id] c batch) (applyDecision H pending call batch decision) c := by
  have hrun run (hid : run.id = call.id) :
      Keeps (Folds [call.id] c batch) (runApproved H pending call run batch) c := by
    rw [← hid]
    refine safe_telling (safe_telling (safe_mono ?_ rows_executeToolSerially))
    exact fun _ _ h b hb => (h b hb).messages (show _ = c.messages from rfl)
  cases decision with
  | deny =>
    exact safe_telling (safe_ok_then rows_recoverToolCall fun _ _ h =>
      alone_ret (onOk_ok ((folds_row h).messages rfl)))
  | approveWithArgs arguments => exact hrun { call with arguments := arguments } rfl
  | approve => exact hrun call rfl

theorem rows_applyAll (pending rest : List (ToolCall V)) (results : DeferredToolResults V)
    (c : RunContext V) (batch : Batch V) :
    Keeps (Folds (ids rest) c batch) (applyAll H pending rest results batch) c := by
  induction rest generalizing results c batch with
  | nil => exact alone_ret (onOk_ok folds_refl)
  | cons call rest ih =>
    have hnext results batch1 c₁ (h : Folds [call.id] c batch batch1 c₁) :
        Keeps (Folds (ids (call :: rest)) c batch) (applyAll H pending rest results batch1) c₁ :=
      safe_mono (fun x _ k b hb => h.trans (k b hb)) (ih results c₁ batch1)
    unfold applyAll
    cases results.calls call.id with
    | some =>
      refine safe_ok_then ?_ (hnext _)
      exact safe_ok_then rows_recoverToolCall fun _ _ h => alone_ret (onOk_ok (folds_row h))
    | none =>
      cases results.approvals call.id with
      | none => exact alone_ret onOk_error
      | some => exact safe_ok_then rows_applyDecision (hnext _)

theorem rows_applyDeferredResults {pending} {results} :
    Keeps (fun d c' => ∃ rows more, Leaves (ids pending) c d.pending rows more c')
      (applyDeferredResults H pending results) c := by
  unfold applyDeferredResults
  dsimp only
  split
  · refine safe_telling (safe_read ?_)
    refine safe_ok_then (rows_applyAll pending pending results _ ({},[])) fun batch c2 h2 => ?_
    refine safe_telling ?_
    refine safe_muted (filed_telling (kept_settleBatchTermination _)) fun _ _ h3 => ?_
    have htrailed : Trailed (ids pending) c ({},[]) batch.1
        { c2 with messages := c2.messages++batch.2 } := ⟨batch,c2,h2.messages rfl,rfl,rfl⟩
    obtain ⟨rows,more,hl⟩ := leaves_of_trailed htrailed
    exact alone_ret (onOk_ok ⟨rows,more,h3.trans hl.messages,hl.tools,hl.others,hl.perm⟩)
  · exact alone_ret onOk_error

theorem pending_eq_nil {deferred : DeferredToolRequests V} :
    deferred.pending = [] ↔ deferred.isEmpty := by
  simp [DeferredToolRequests.pending,DeferredToolRequests.isEmpty,ids,and_comm]

theorem rows_settleDeferred {deferred} :
    Keeps (fun exit c' => exit = none → ∃ rows more, Leaves deferred.pending c [] rows more c' ∧
      (deferred.isEmpty → more = [])) (settleDeferred H deferred) c := by
  unfold settleDeferred
  split
  next he =>
    refine alone_ret (onOk_ok fun _ => ⟨[],[],⟨by simp,by simp,by simp,?_⟩,fun _ => rfl⟩)
    rw [pending_eq_nil.2 he]
    exact .nil
  split
  next he _ =>
    refine safe_ask (alone_ask trivial fun x c' ho => ?_)
    obtain rfl : c' = c := ho.1
    cases x with
    | error => exact alone_ret onOk_error
    | ok =>
      refine alone_ret (safe_ok_then rows_applyDeferredResults ?_)
      rintro _ _ ⟨rows,more,hl⟩
      split
      next ha =>
        rw [pending_eq_nil.2 ha] at hl
        exact alone_ret (onOk_ok fun _ => ⟨rows,more,hl,fun h => (he h).elim⟩)
      · exact alone_ret (onOk_ok nofun)
  · exact alone_ret (onOk_ok nofun)

theorem rows_answerCalls {note} (left : List String) :
    Keeps (fun _ c' => ∃ rows, Leaves (ids calls++left) c left rows [] c')
      (answerCalls (T := T) note calls) c := by
  refine alone_ask trivial fun _ _ ho => alone_ret (onOk_ok ?_)
  obtain ⟨rfl,-⟩ := ho
  refine ⟨_,(append_nil _).symm,by simp [Message.isTool],nofun,?_⟩
  simp [rowIds,ids,filterMap_map,Function.comp_def,Message.rowId]

theorem ids_partition (calls : List (ToolCall V)) :
    (ids (structuredHits H calls)++ids (realToolCalls H calls)).Perm (ids calls) := by
  rw [ids,ids,← map_append]
  exact (filter_append_perm _ calls).map _

theorem rows_foldRecovered {result : ToolCall V → ToolResult V} (calls : List (ToolCall V))
    (c : RunContext V) (batch : Batch V) :
    Keeps (fun d c' => d = batch.1 ∧ Trailed (ids calls) c batch d c')
      (foldAll H (calls.map fun call => .recovered call (result call)) batch) c := by
  induction calls generalizing c batch with
  | nil => exact safe_telling (alone_ret (onOk_ok ⟨rfl,batch,c,folds_refl,rfl,rfl⟩))
  | cons call _ ih =>
    refine safe_ok_then rows_recoverToolCall fun followUp c₁ h => ?_
    refine safe_mono (fun _ _ k d hd => ?_) (ih c₁ (batch.1,batch.2++followUp.toList))
    exact ⟨(k d hd).1,(folds_row h).trailed (k d hd).2⟩

theorem rows_failTruncatedToolCalls :
    Keeps (fun _ c' => ∃ rows more, Leaves (ids calls) c [] rows more c')
      (failTruncatedToolCalls H calls) c := by
  refine safe_ok_then (rows_foldRecovered calls c ({},[])) ?_
  rintro _ _ ⟨rfl,h⟩
  obtain ⟨rows,more,hl⟩ := leaves_of_trailed h
  exact safe_telling (alone_ret (onOk_ok ⟨rows,more,hl.messages,hl.tools,hl.others,hl.perm⟩))

def Opens (H : AgentHarness V T) (turn : Turn V) (c : RunContext V) :
    Option (List (ToolCall V)) → RunContext V → Prop
  | some calls, c' => ∃ rows, Leaves (ids turn.calls) c (ids calls) rows [] c'
  | none, c' =>
    (turn.cutOff = true ∨ realToolCalls H turn.calls ≠ []) ∧
        (∃ rows more, Leaves (ids turn.calls) c [] rows more c') ∨
      turn.cutOff = false ∧ realToolCalls H turn.calls = [] ∧ c'.messages = c.messages

theorem rows_openTurn {turn} : Keeps (Opens H turn c) (openTurn H turn) c := by
  have hpart := ids_partition (H := H) turn.calls
  unfold openTurn
  dsimp only
  split
  next hcut =>
    exact safe_ok_then rows_failTruncatedToolCalls fun _ _ h =>
      alone_ret (onOk_ok (.inl ⟨.inl hcut,h⟩))
  split
  next hcut hreal =>
    exact alone_ret (onOk_ok (.inr ⟨by simpa using hcut,isEmpty_iff.1 hreal,rfl⟩))
  next hreal =>
    split
    next hhits =>
      rw [isEmpty_iff.1 hhits] at hpart
      exact alone_ret (onOk_ok ⟨[],by simp,nofun,nofun,hpart⟩)
    refine safe_telling (safe_ok_then (rows_answerCalls (ids (realToolCalls H turn.calls))) ?_)
    rintro _ _ ⟨rows,hl⟩
    have hl : Leaves (ids turn.calls) c _ rows [] _ :=
      ⟨hl.messages,hl.tools,hl.others,hl.perm.trans hpart⟩
    split
    · refine safe_ok_then (rows_answerCalls []) ?_
      rintro _ _ ⟨_,hl'⟩
      rw [append_nil] at hl'
      exact alone_ret (onOk_ok (.inl ⟨.inr (by simpa using hreal),_,[],hl.trans hl'⟩))
    · exact alone_ret (onOk_ok ⟨rows,hl⟩)

def RowsFollow (before : List (Message V)) (calls : List (ToolCall V)) (after : List (Message V)) :
    Prop :=
  ∃ rows others, after = before++rows++others ∧ (∀ m ∈ rows, m.isTool = true) ∧
    (rowIds rows).Perm (ids calls) ∧ ∀ m ∈ others, m.isTool = false

theorem length_rowIds {rows : List (Message V)} (h : ∀ m ∈ rows, m.isTool) :
    (rowIds rows).length = rows.length := by
  induction rows with
  | nil => rfl
  | cons row _ ih =>
    obtain ⟨hrow,hrows⟩ := forall_mem_cons.1 h
    cases row with
    | tool => exact congrArg (·+1) (ih hrows)
    | _ => cases hrow

theorem not_rowsFollow {before rows1 rest : List (Message V)} {m : Message V}
    (hm : m.isTool = false) (hlt : rows1.length < calls.length) :
    ¬ RowsFollow before calls (before++rows1++m :: rest) := by
  rintro ⟨rows,_,he,ht,hp,-⟩
  rw [append_assoc,append_assoc] at he
  have he := append_cancel_left he
  have hlen : rows.length = calls.length := by
    rw [← length_rowIds ht,hp.length_eq,ids,length_map]
  rcases append_eq_append_iff.1 he with ⟨more,rfl,hrest⟩ | ⟨more,rfl,-⟩
  · cases more with
    | nil => simp at hlen; omega
    | cons =>
      cases hrest
      have := ht m (by simp)
      rw [hm] at this
      cases this
  · simp only [length_append] at hlt
    omega

theorem rowsFollow_of_leaves {rows more} (h : Leaves (ids calls) c [] rows more c') :
    RowsFollow c.messages calls c'.messages :=
  ⟨rows,more,h.messages,h.tools,by simpa using h.perm,h.others⟩

theorem rowsFollow_self {before} : RowsFollow before calls before ↔ calls = [] := by
  constructor
  · rintro ⟨rows,_,he,-,hp,-⟩
    obtain ⟨rfl,-⟩ : rows = [] ∧ _ := by simpa using he
    exact map_eq_nil_iff.1 hp.symm.eq_nil
  · rintro rfl
    exact ⟨[],[],by simp,nofun,.nil,nofun⟩

theorem rowsFollow_settled {deferred : DeferredToolRequests V} {c₂ : RunContext V}
    {rows more rows2 more2 : List (Message V)}
    (hl : Leaves (ids calls) c deferred.pending rows more c₂)
    (hl2 : Leaves deferred.pending c₂ [] rows2 more2 c') (hmore2 : deferred.isEmpty → more2 = []) :
    RowsFollow c.messages calls c'.messages ↔
      deferred.isEmpty = true ∨ ∀ m ∈ c₂.messages.drop c.messages.length, m.isTool = true := by
  have hdrop : c₂.messages.drop c.messages.length = rows++more := by
    rw [hl.messages,append_assoc,drop_left]
  rw [hdrop]
  constructor
  · intro h
    by_contra hcon
    obtain ⟨hd,htools⟩ := not_or.1 hcon
    cases more with
    | nil => exact htools (by simpa using hl.tools)
    | cons m =>
      rw [hl2.messages,hl.messages] at h
      refine not_rowsFollow (hl.others m (by simp)) ?_ (by simpa using h)
      have hlen := hl.perm.length_eq
      rw [length_append,length_rowIds hl.tools,ids,length_map] at hlen
      have hpos : 0 < deferred.pending.length :=
        length_pos_iff.2 fun h => hd (pending_eq_nil.1 h)
      omega
  · rintro (hd | ht)
    · rw [pending_eq_nil.2 hd] at hl hl2
      have hrows2 : rows2 = [] := by
        have := hl2.perm.length_eq
        rw [append_nil,length_rowIds hl2.tools] at this
        exact length_eq_zero_iff.1 this
      rw [hl2.messages,hrows2,hmore2 hd,append_nil,append_nil]
      exact rowsFollow_of_leaves hl
    · obtain rfl : more = [] := eq_nil_iff_forall_not_mem.2 fun m hm =>
        Bool.eq_false_iff.1 (hl.others m hm) (ht m (mem_append_right _ hm))
      exact rowsFollow_of_leaves (hl.trans hl2)

variable (H) in
def SettlesTurn (turn : Turn V) (c : RunContext V) (deferred : DeferredToolRequests V)
    (c₂ c' : RunContext V) : Prop :=
  ∃ calls c₁, Executes (running False) (openTurn H turn).run c (.ok (some calls)) c₁ ∧
    Executes (running False) (executeTools H calls).run c₁ (.ok deferred) c₂ ∧
    Executes (running False) (settleDeferred H deferred).run c₂ (.ok none) c'

theorem Script.play_turn (s : Script) (host : AgentHarness Unit String) (turn : Turn Unit)
    (c : RunContext Unit)
    (check : DeferredToolRequests Unit → RunContext Unit → RunContext Unit → Bool)
    (h : ((openTurn host turn).run.play s.perform c).any (fun x => match x.1 with
      | .ok (some calls) => ((executeTools host calls).run.play s.perform x.2).any fun y =>
        match y.1 with
        | .ok deferred => ((settleDeferred host deferred).run.play s.perform y.2).any fun z =>
          match z.1 with
          | .ok none => check deferred y.2 z.2
          | _ => false
        | .error _ => false
      | _ => false)) :
    ∃ deferred c₂ c', SettlesTurn host turn c deferred c₂ c' ∧ check deferred c₂ c' := by
  obtain ⟨⟨r,c₁⟩,hp,h⟩ := (Option.any_eq_true _ _).1 h
  obtain e | (_ | calls) := r
  · cases h
  · cases h
  obtain ⟨⟨r',c₂⟩,hp',h⟩ := (Option.any_eq_true _ _).1 h
  obtain e | deferred := r'
  · cases h
  obtain ⟨⟨r',c'⟩,hp'',h⟩ := (Option.any_eq_true _ _).1 h
  obtain e | (_ | exit) := r'
  · cases h
  · exact ⟨deferred,c₂,c',⟨calls,c₁,Program.executes_of_play s.perform_runs hp,
      Program.executes_of_play s.perform_runs hp',Program.executes_of_play s.perform_runs hp''⟩,h⟩
  · cases h

def noteCall : ToolCall Unit := { id := "a", name := "note", arguments := () }

def editedCall : ToolCall Unit := { id := "b", name := "edit", arguments := () }

def approvingEdits : AgentHarness Unit String := AgentHarness.plain (· == "edit")

def approver (followUp : List (ToolContent Unit)) : Script where
  results := { approvals := fun id => if id = "b" then some .approve else none }
  followUps := fun id => if id = "a" then followUp else []

def asked (calls : List (ToolCall Unit)) : RunContext Unit :=
  { turn := 1, messages := [.assistant calls] }

theorem asked_running {calls} :
    running (T := String) False .modelTurn {} (.ok (some { calls := calls })) (asked calls) :=
  ⟨rfl,trivial,trivial⟩

def splitRows : List (Message Unit) → Bool
  | [.assistant _,.tool _ _,.user _,.tool _ _] => true
  | _ => false

theorem not_rowsFollow_of_split {messages} (h : splitRows messages) :
    ¬ RowsFollow [.assistant [noteCall,editedCall]] [noteCall,editedCall] messages := by
  unfold splitRows at h
  split at h
  next calls id result content id' result' =>
    intro hr
    have hcalls : calls = [noteCall,editedCall] := by
      obtain ⟨_,_,he,-⟩ := hr
      exact Message.assistant.inj (head_eq_of_cons_eq he)
    subst hcalls
    have hsplit : ¬ RowsFollow [.assistant [noteCall,editedCall]] [noteCall,editedCall]
        ([.assistant [noteCall,editedCall]]++[.tool id result]++.user content ::
          [.tool id' result']) := not_rowsFollow rfl (Nat.lt_succ_self 1)
    exact hsplit hr
  · cases h

def reportCall : ToolCall Unit := { id := "r", name := "report", arguments := () }

def reporting : AgentHarness Unit String :=
  { AgentHarness.plain fun _ => false with structuredCallNames := ["report"] }

end Harness.AgentLoop
