import TinyAgents.Harness.Approvals

namespace Harness.AgentLoop

open Interaction

variable {V T : Type}

def Calm {α : Type} (x : Answer V α) : Prop := ∀ e, x = .error e → e ≠ .panicked

variable (results : DeferredToolResults V)

def DeferredToolResults.given (id : String) : Nat :=
  (results.calls id).isSome.toNat+(results.approvals id).isSome.toNat

def Covers (pending : List (ToolCall V)) : Prop :=
  (∃ call ∈ pending, results.resolves call.id = false) ∨
    ∀ id, (ids pending).count id ≤ results.given id

def Steady : (op : LoopOp V T) → LoopAns op → Prop
  | .discover _, x => Calm x
  | .rules _ _, x => Calm x
  | .beforeTool _, x => x.2 ≠ some .panicked
  | .prepareAuthorization _ _, x => Calm x
  | .authorize _ _, x => Calm x
  | .ledgerStarted _ _ _, x => Calm x
  | .execute _ _ _ _, x => Calm x
  | .afterTool _ _ _, x => Calm x
  | .screenInput _ _, x => Calm x
  | .outputScreened _ _ _ _, x => Calm x
  | .handle requests, x => Calm x ∧
      ∀ results, x = .ok results → Covers results (requests.approvals++requests.calls)
  | .modelTurn, x => Calm x
  | _, _ => True

def steady (op : LoopOp V T) (c : RunContext V) (x : LoopAns op) (c' : RunContext V) : Prop :=
  LoopOutcome op c x c' ∧ Steady op x

variable {α β : Type} {H : AgentHarness V T}

abbrev NeverPanics (p : Task V T α) : Prop := Yields Steady Calm p.run

theorem calm_ok (a : α) : Calm (.ok a : Answer V α) := fun _ h => nomatch h

variable {e : TinyAgentsError V}

theorem calm_error (he : e ≠ .panicked) : Calm (.error e : Answer V α) := by
  rintro _ ⟨⟩
  exact he

theorem calm_pure {a : α} : NeverPanics (pure a : Task V T α) := calm_ok a

theorem calm_throw (he : e ≠ .panicked) : NeverPanics (throw e : Task V T α) := calm_error he

theorem calm_try {p : Task V T α} {f : α → Task V T β} (h : NeverPanics p)
    (hf : ∀ a, NeverPanics (f a)) : NeverPanics (p >>= f) := yields_try h hf

theorem calm_then {p : Loop V T α} {f : α → Task V T β} (hf : ∀ a, NeverPanics (f a)) :
    NeverPanics (ExceptT.lift p >>= f) :=
  yields_try (yields_bind yields_true fun _ _ _ h => nomatch h) hf

variable {approval : ApprovalDirective} {prepared : PreparedToolCall V} {tool : T}
  {call : ToolCall V} {arguments modelArguments : V}

theorem calm_orFail {p : Loop V T (Answer V α)} (h : Yields Steady Calm p) :
    NeverPanics (orFail H prepared p) := by
  refine yields_bind h fun x hx => ?_
  cases x with
  | ok a => exact calm_ok a
  | error => exact yields_bind yields_true fun _ _ => hx

variable {result : ToolResult V}

theorem calm_withRefusalMetadata {callId : String} :
    NeverPanics (withRefusalMetadata (T := T) callId result) :=
  calm_then fun _ => calm_pure

theorem calm_admitDispatch : NeverPanics (admitDispatch H tool arguments) := by
  refine calm_try (fun _ h => h) fun gate => ?_
  cases gate with
  | refuse => exact calm_pure
  | admits =>
    dsimp only
    split
    · exact calm_pure
    refine calm_try (fun _ h => h) fun gate => ?_
    cases gate with
    | refuse | admits => exact calm_pure

theorem calm_ruleAdmission {name : String} : NeverPanics (ruleAdmission H name arguments) := by
  unfold ruleAdmission
  split
  · exact calm_pure
  · exact calm_admitDispatch

theorem calm_refused {callId message : String} :
    NeverPanics (refused (V := V) (T := T) callId message) :=
  calm_then fun _ => calm_try calm_withRefusalMetadata fun _ => calm_pure

theorem calm_authorizeToolCall : NeverPanics (authorizeToolCall H tool modelArguments call) := by
  unfold authorizeToolCall
  split
  · refine calm_try (fun _ h => h) fun prepared => ?_
    cases prepared with
    | some => exact calm_pure
    | none => exact fun _ h => h
  · exact calm_pure

theorem calm_gateToolCall : NeverPanics (gateToolCall H tool approval modelArguments call) := by
  refine calm_then fun c => ?_
  dsimp only
  split
  · exact calm_then fun _ => calm_pure
  split
  · exact calm_then fun _ => calm_pure
  refine calm_try calm_authorizeToolCall fun reason => ?_
  cases reason with
  | some => exact calm_then fun _ => calm_pure
  | none => exact calm_pure

theorem calm_admitTool : NeverPanics (admitTool H tool approval modelArguments call) := by
  refine calm_then fun _ => ?_
  split
  · exact calm_throw nofun
  · split
    · exact calm_throw nofun
    · exact calm_pure
  dsimp only
  split
  · split
    · exact calm_throw nofun
    · exact calm_then fun _ => calm_pure
  refine calm_then fun bound => ?_
  cases bound with
  | none => exact calm_throw nofun
  | some =>
    refine calm_try calm_admitDispatch fun gate => ?_
    cases gate with
    | refuse => exact calm_try calm_refused fun _ => calm_pure
    | admits => exact calm_gateToolCall

theorem calm_rewriteTarget : NeverPanics (rewriteTarget H arguments) := by
  unfold rewriteTarget
  split
  · split
    · exact calm_pure
    refine calm_try (fun _ h => h) fun gate => ?_
    cases gate with
    | refuse | admits => exact calm_pure
  · exact calm_pure

theorem calm_admitParsed : NeverPanics (admitParsed H approval modelArguments call) := by
  unfold admitParsed
  split
  · dsimp only
    split
    · exact calm_then fun _ => calm_admitTool
    · exact calm_admitTool
  · refine calm_try calm_rewriteTarget fun target => ?_
    cases target with
    | some => exact calm_then fun _ => calm_admitTool
    | none =>
      dsimp only
      split
      · exact calm_throw nofun
      · exact calm_then fun _ => calm_pure

theorem calm_admitRepaired : NeverPanics (admitRepaired H approval modelArguments call) := by
  unfold admitRepaired
  split
  · exact calm_admitParsed
  split
  · exact calm_then fun _ => calm_admitParsed
  · exact calm_then fun _ => calm_pure

theorem calm_signalled (he : e ≠ .panicked) : NeverPanics (signalled H call e) := by
  cases e with
  | approvalRequired | callDeferred => exact calm_pure
  | toolFailed | modelRetry => exact calm_try calm_withRefusalMetadata fun _ => calm_pure
  | _ => exact calm_throw he

theorem calm_admitByRules : NeverPanics (admitByRules H call) := by
  refine calm_try calm_ruleAdmission fun gate => ?_
  cases gate with
  | refuse => exact calm_try calm_refused fun _ => calm_pure
  | admits =>
    rintro ⟨_,signal⟩ hx
    cases signal with
    | some =>
      refine calm_then fun _ => ?_
      exact calm_try (calm_signalled fun h => hx (congrArg some h)) fun _ => calm_pure
    | none => exact calm_admitRepaired

theorem calm_unwrapped : NeverPanics (unwrapped H call) := by
  unfold unwrapped
  split
  · exact calm_then fun _ => calm_pure
  · exact calm_pure

theorem calm_answerDiscoveryBridge : NeverPanics (answerDiscoveryBridge H call) := by
  unfold answerDiscoveryBridge
  split
  · refine calm_try (fun _ h => h) fun found => ?_
    cases found with
    | absent | refused => exact calm_pure
    | answered =>
      exact calm_then fun _ => calm_then fun _ => calm_pure
  · exact calm_pure

theorem calm_admitToolCall : NeverPanics (admitToolCall H call) := by
  refine calm_then fun _ => ?_
  split
  · exact calm_throw nofun
  refine calm_then fun _ => ?_
  split
  · exact calm_then fun _ => calm_throw nofun
  refine calm_then fun c => calm_then fun _ => ?_
  split
  · exact calm_pure
  refine calm_then fun _ => ?_
  split
  · exact calm_then fun _ => calm_throw nofun
  refine calm_try calm_unwrapped fun call => ?_
  refine calm_try calm_answerDiscoveryBridge fun found => ?_
  cases found with
  | some => exact calm_pure
  | none => exact calm_admitByRules

theorem calm_recordToolEffectStarted {prepared} :
    Yields Steady Calm (recordToolEffectStarted H prepared) := by
  unfold recordToolEffectStarted
  split
  · exact calm_ok _
  intro x hx
  cases x with
  | ok => exact calm_ok _
  | error =>
    dsimp only
    split
    · exact hx
    · exact calm_ok _

theorem calm_screened : NeverPanics (screened H prepared result) := by
  unfold screened
  split
  · refine calm_try (calm_orFail fun _ h => h) fun outcome => ?_
    cases outcome with
    | pass | redacted | block => exact calm_pure
  · exact calm_pure

theorem calm_finishToolCall {prepared : PreparedToolCall V} :
    NeverPanics (finishToolCall H prepared result) := by
  refine calm_try (calm_orFail fun _ h => h) fun result => ?_
  refine calm_try calm_screened fun result => ?_
  refine calm_try (calm_orFail fun _ h => h) fun _ => ?_
  exact calm_then fun _ => calm_then fun _ =>
    calm_then fun _ => calm_then fun _ =>
    calm_then fun _ => calm_pure

theorem calm_recoverToolCall {call : ToolCall V} : NeverPanics (recoverToolCall H call result) :=
  calm_then fun _ => calm_finishToolCall

theorem calm_finishStartedToolCall {answer} :
    NeverPanics (finishStartedToolCall H prepared answer) :=
  calm_then fun _ => calm_then fun _ => calm_finishToolCall

theorem calm_executeStarted {asked : ToolCall V} {needed : Bool} {batch : Batch V} :
    NeverPanics (executeStarted H tool prepared asked needed batch) := by
  intro x hx
  cases x with
  | error e =>
    dsimp only [Program.bind,Function.comp,ExceptT.bindCont]
    split
    · exact calm_then fun _ => calm_pure
    · exact calm_then fun _ => calm_throw (hx e rfl)
  | ok => exact calm_try calm_finishStartedToolCall fun _ => calm_pure

theorem calm_executeToolSerially {asked : ToolCall V} {batch : Batch V} :
    NeverPanics (executeToolSerially H asked batch) := by
  refine calm_try calm_admitToolCall fun resolved => ?_
  obtain ⟨_ | _ | _,_⟩ := resolved
  · exact calm_then fun _ =>
      calm_try (calm_orFail calm_recordToolEffectStarted) fun _ =>
        calm_executeStarted
  · exact calm_try calm_recoverToolCall fun _ => calm_pure
  · exact calm_then fun _ => calm_pure

theorem calm_executeToolsSerially (calls : List (ToolCall V)) (batch : Batch V) :
    NeverPanics (executeToolsSerially H calls batch) := by
  induction calls generalizing batch with
  | nil => exact calm_then fun _ => calm_pure
  | cons _ _ ih => exact calm_try calm_executeToolSerially fun _ => ih _

theorem calm_admitAll (calls : List (ToolCall V)) : NeverPanics (admitAll H calls) := by
  induction calls with
  | nil => exact calm_pure
  | cons _ _ ih =>
    exact calm_try calm_admitToolCall fun _ => calm_try ih fun _ => calm_pure

theorem calm_announce (calls : List (AdmittedCall V T)) (started : List (PreparedToolCall V)) :
    NeverPanics (announce H calls started) := by
  induction calls generalizing started with
  | nil => exact calm_pure
  | cons call _ ih =>
    cases call with
    | recovered | deferred => exact calm_try (ih _) fun _ => calm_pure
    | execute =>
      refine calm_then fun _ => ?_
      refine yields_lifted calm_recordToolEffectStarted fun x hx => ?_
      cases x with
      | ok => exact calm_try (ih _) fun _ => calm_pure
      | error e => exact calm_then fun _ => calm_throw (hx e rfl)

def CalmSlot : FoldSlot V → Prop
  | .executed _ outcome => Calm outcome
  | _ => True

theorem calm_runAll {slots : List (ToolSlot V T)} :
    Yields Steady (fun slots => ∀ slot ∈ slots, CalmSlot slot) (runAll slots) := by
  induction slots with
  | nil => exact fun _ h => nomatch h
  | cons slot slots ih =>
    cases slot with
    | recovered | deferred =>
      exact yields_bind ih fun _ h => List.forall_mem_cons.2 ⟨trivial,h⟩
    | execute =>
      intro x hx
      change Yields Steady _ (runAll slots >>= _)
      exact yields_bind ih fun _ h => List.forall_mem_cons.2 ⟨hx,h⟩

theorem calm_foldAll {slots} (h : ∀ slot ∈ slots, CalmSlot slot) (batch : Batch V) :
    NeverPanics (foldAll H slots batch) := by
  induction slots generalizing batch with
  | nil => exact calm_then fun _ => calm_pure
  | cons slot _ ih =>
    obtain ⟨hslot,hrest⟩ := List.forall_mem_cons.1 h
    cases slot with
    | recovered => exact calm_try calm_recoverToolCall fun _ => ih hrest _
    | deferred => exact calm_then fun _ => ih hrest _
    | executed _ outcome =>
      cases outcome with
      | error e =>
        unfold foldAll
        dsimp only
        split
        · exact calm_then fun _ => ih hrest _
        · exact calm_then fun _ => calm_then fun _ => calm_throw (hslot e rfl)
      | ok => exact calm_try calm_finishStartedToolCall fun _ => ih hrest _

theorem calm_executeToolsConcurrently {calls : List (ToolCall V)} :
    NeverPanics (executeToolsConcurrently H calls) := by
  refine calm_try (calm_admitAll calls) fun calls => ?_
  refine calm_try (calm_announce calls []) fun _ => ?_
  exact yields_lifted calm_runAll fun slots hs => calm_foldAll hs _

theorem calm_executeTools {calls} : NeverPanics (executeTools H calls) := by
  have hbatch : NeverPanics (executeBatch H calls) := by
    unfold executeBatch
    split
    · exact calm_executeToolsConcurrently
    · exact calm_executeToolsSerially calls _
  exact calm_then fun _ => calm_try hbatch fun _ => calm_then fun _ => calm_then fun _ => calm_pure

variable {results : DeferredToolResults V}

theorem given_removeCall {callId : String} (h : (results.calls callId).isSome) (id : String) :
    (results.removeCall callId).given id+(if callId = id then 1 else 0) = results.given id := by
  unfold DeferredToolResults.given DeferredToolResults.removeCall
  by_cases hid : callId = id
  · subst hid
    simp [h,Nat.add_comm]
  · simp [hid,Function.update_of_ne (Ne.symm hid)]

theorem given_removeApproval {callId : String} (h : (results.approvals callId).isSome)
    (id : String) : (results.removeApproval callId).given id+(if callId = id then 1 else 0) =
      results.given id := by
  unfold DeferredToolResults.given DeferredToolResults.removeApproval
  by_cases hid : callId = id
  · subst hid
    simp [h]
  · simp [hid,Function.update_of_ne (Ne.symm hid)]

theorem count_ids_cons (call : ToolCall V) (calls : List (ToolCall V)) (id : String) :
    (ids (call :: calls)).count id = (ids calls).count id+(if call.id = id then 1 else 0) := by
  simp [ids,List.count_cons]

variable {batch : Batch V}

theorem calm_answerPending {result : ToolResult V} :
    NeverPanics (answerPending H call result batch) :=
  calm_try calm_recoverToolCall fun _ => calm_pure

variable {pending : List (ToolCall V)}

theorem calm_applyDecision {pending} {decision} :
    NeverPanics (applyDecision H pending call batch decision) := by
  cases decision with
  | deny => exact calm_then fun _ => calm_answerPending
  | approveWithArgs | approve =>
    exact calm_then fun _ => calm_then fun _ => calm_executeToolSerially

theorem calm_applyAll (pending : List (ToolCall V)) {rest}
    (h : ∀ id, (ids rest).count id ≤ results.given id) (batch : Batch V) :
    NeverPanics (applyAll H pending rest results batch) := by
  induction rest generalizing results batch with
  | nil => exact calm_pure
  | cons call rest ih =>
    have hleft (left : DeferredToolResults V) (hl : ∀ id, left.given id+
        (if call.id = id then 1 else 0) = results.given id) (id : String) :
        (ids rest).count id ≤ left.given id := by
      have hid := h id
      rw [count_ids_cons,← hl id] at hid
      exact Nat.add_le_add_iff_right.1 hid
    unfold applyAll
    cases hc : results.calls call.id with
    | some =>
      exact calm_try calm_answerPending fun _ =>
        ih (hleft _ (given_removeCall (by rw [hc]; rfl))) _
    | none =>
      cases ha : results.approvals call.id with
      | some =>
        exact calm_try calm_applyDecision fun _ =>
          ih (hleft _ (given_removeApproval (by rw [ha]; rfl))) _
      | none =>
        have hcall := h call.id
        rw [count_ids_cons,DeferredToolResults.given,hc,ha] at hcall
        simp at hcall

theorem resolved_of_missing
    (h : (pending.filter fun call => !results.resolves call.id).isEmpty = true) :
    ∀ call ∈ pending, results.resolves call.id := by
  intro call hc
  have := List.filter_eq_nil_iff.1 (List.isEmpty_iff.1 h) call hc
  simpa using this

theorem calm_applyDeferredResults (h : Covers results pending) :
    NeverPanics (applyDeferredResults H pending results) := by
  unfold applyDeferredResults
  dsimp only
  split
  next hm =>
    have hcount : ∀ id, (ids pending).count id ≤ results.given id := by
      rcases h with ⟨call,hc,hr⟩ | h
      · exact absurd (resolved_of_missing hm call hc) (by simp [hr])
      · exact h
    refine calm_then fun _ => calm_then fun c => ?_
    refine calm_try (calm_applyAll pending hcount _) fun _ => ?_
    exact calm_then fun _ => calm_then fun _ => calm_pure
  · exact calm_throw nofun

theorem calm_settleDeferred {deferred} : NeverPanics (settleDeferred H deferred) := by
  unfold settleDeferred
  split
  · exact calm_pure
  split
  · intro x hx
    cases x with
    | error e => exact calm_error (hx.1 e rfl)
    | ok results =>
      refine calm_try (calm_applyDeferredResults (hx.2 results rfl)) fun _ => ?_
      split <;> exact calm_pure
  · exact calm_pure

theorem calm_openTurn {turn} : NeverPanics (openTurn H turn) := by
  unfold openTurn
  dsimp only
  split_ifs
  · refine calm_try (calm_try (calm_foldAll (fun _ hs => ?_) _) fun _ _ _ => calm_ok ()) fun _ =>
      calm_pure
    obtain ⟨_,-,rfl⟩ := List.mem_map.1 hs
    trivial
  · exact calm_pure
  · exact calm_pure
  · refine calm_then fun _ => calm_then fun _ => ?_
    split
    · exact calm_then fun _ => calm_pure
    · exact calm_pure

theorem calm_finishTurn {turn} : NeverPanics (finishTurn H turn) := by
  refine calm_try calm_openTurn fun calls => ?_
  cases calls with
  | none => exact calm_pure
  | some => exact calm_try calm_executeTools fun _ => calm_settleDeferred

theorem calm_unlessExit {settle next : Task V T (Option (LoopExit V))} (h : NeverPanics settle)
    (hn : NeverPanics next) : NeverPanics (unlessExit settle next) := by
  refine calm_try h fun exit => ?_
  cases exit with
  | some => exact calm_pure
  | none => exact hn

theorem calm_runTurns {n : Nat} : NeverPanics (runTurns H n) := by
  induction n with
  | zero => exact calm_pure
  | succ _ ih =>
    refine calm_try (fun _ h => h) fun turn => ?_
    cases turn with
    | none => exact calm_pure
    | some => exact calm_unlessExit calm_finishTurn ih

end Harness.AgentLoop
