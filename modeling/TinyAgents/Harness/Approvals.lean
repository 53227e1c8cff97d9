import TinyAgents.Harness.ToolBatches

namespace Harness.AgentLoop

open Interaction List

variable {V T : Type}

section

inductive LoopExit (V : Type) where
  | finished
  | deferred (requests : DeferredToolRequests V)

variable (H : AgentHarness V T)

def intoToolResult : DeferredCallResult V → ToolResult V
  | .result answer => answer
  | .retry message => H.retry message
  | .failed message => H.failed message

variable (pending : List (ToolCall V)) (shown run : ToolCall V) (results : DeferredToolResults V)
  (callId : String)

def DeferredToolResults.resolves : Bool :=
  (results.approvals callId).isSome || (results.calls callId).isSome

def DeferredToolResults.removeApproval : DeferredToolResults V :=
  { results with approvals := Function.update results.approvals callId none }

def DeferredToolResults.removeCall : DeferredToolResults V :=
  { results with calls := Function.update results.calls callId none }

def lastBatch : List (Message V) → Option (List (ToolCall V) × List (Message V))
  | [] => none
  | message :: rest =>
    match lastBatch rest, message with
    | some found, _ => some found
    | none, .assistant calls => some (calls,rest)
    | none, _ => none

def Message.answers : Message V → Bool
  | .tool id _ => id == callId
  | _ => false

def unanswered : List (ToolCall V) → (String → Nat) → List (ToolCall V)
  | [], _ => []
  | call :: rest, left =>
    if 0 < left call.id then unanswered rest (Function.update left call.id (left call.id-1))
    else call :: unanswered rest left

def pendingToolCalls (messages : List (Message V)) : Answer V (List (ToolCall V)) :=
  match lastBatch messages with
  | none =>
    throw (.validation "cannot resume: the transcript has no assistant tool-call row")
  | some (calls,rest) =>
    match unanswered calls fun id => rest.countP (Message.answers id) with
    | [] => throw (.validation "cannot resume: the transcript has no unanswered tool calls")
    | pending => return pending

def RunContext.markCallApproved (c : RunContext V) : RunContext V :=
  { c with
    approvedCalls := c.approvedCalls++[run.id]
    granted := c.granted++[⟨c.turn,pending,shown,run⟩] }

def answerPending (call : ToolCall V) (result : ToolResult V) (batch : Batch V) :
    Task V T (Batch V) := do
  let followUp ← recoverToolCall H call result
  return (batch.1,batch.2++followUp.toList)

def runApproved (batch : Batch V) : Task V T (Batch V) := do
  telling fun c => c.emit (.toolApproved shown.id)
  telling (RunContext.markCallApproved pending shown run)
  executeToolSerially H run batch

def applyDecision (call : ToolCall V) (batch : Batch V) :
    ToolApprovalDecision V → Task V T (Batch V)
  | .deny message => do
    telling fun c => c.emit (.toolDenied call.id message)
    answerPending H call (.error message) batch
  | .approveWithArgs arguments =>
    runApproved H pending call { call with arguments := arguments } batch
  | .approve => runApproved H pending call call batch

def applyAll (pending : List (ToolCall V)) :
    List (ToolCall V) → DeferredToolResults V → Batch V → Task V T (Batch V)
  | [], _, batch => return batch
  | call :: rest, results, batch =>
    match results.calls call.id with
    | some outcome => do
      let batch ← answerPending H call (intoToolResult H outcome) batch
      applyAll pending rest (results.removeCall call.id) batch
    | none =>
      match results.approvals call.id with
      | none => throw .panicked
      | some decision => do
        let batch ← applyDecision H pending call batch decision
        applyAll pending rest (results.removeApproval call.id) batch

def applyDeferredResults : Task V T (DeferredToolRequests V) := do
  let missing := pending.filter fun call => !results.resolves call.id
  if missing.isEmpty then do
    telling fun c => { c with terminateVotes := [] }
    let c ← asking .read
    let whole := pending.length == ((lastBatch c.messages).map fun found => found.1.length).getD 0
    let (deferred,followUps) ← applyAll H pending pending results ({},[])
    appendFollowUps followUps
    telling (settleBatchTermination (deferred.isEmpty && whole))
    return deferred
  else throw (.validation ("cannot resume: deferred tool calls still unresolved: ["++
    ", ".intercalate (missing.map ToolCall.id)++"]"))

def settleDeferred (deferred : DeferredToolRequests V) : Task V T (Option (LoopExit V)) :=
  if deferred.isEmpty then return none
  else if H.hasHandler then do
    let results ← ask (request (.handle deferred))
    let again ← applyDeferredResults H (deferred.approvals++deferred.calls) results
    if again.isEmpty then return none else return some (.deferred again)
  else return some (.deferred deferred)

variable (calls : List (ToolCall V))

def structuredHits : List (ToolCall V) :=
  calls.filter fun call => H.structuredCallNames.contains call.name

def realToolCalls : List (ToolCall V) :=
  calls.filter fun call => !H.structuredCallNames.contains call.name

def answerCalls (note : String) (calls : List (ToolCall V)) : Task V T Unit :=
  telling fun c => { c with
    messages := c.messages++calls.map fun call => .tool call.id { content := [.text note] } }

def EndStrategy.debug : EndStrategy → String
  | .early => "Early"
  | .graceful => "Graceful"
  | .exhaustive => "Exhaustive"

def structuredNote (truncated : Bool) : String :=
  match H.endStrategy, truncated with
  | .early, _ | .graceful, false => "Structured output recorded."
  | .graceful, true => "Structured output noted but not final yet; a tool call in this turn was "++
      "cut off by the output token limit, so re-issue it and answer again."
  | .exhaustive, _ => "Structured output noted but not final yet; finish the remaining tool "++
      "calls first (EndStrategy::Exhaustive)."

-- Returns the calls that are left to run.
def finishMixedStructuredTurn (hits real : List (ToolCall V)) (truncated : Bool) :
    Task V T (Option (List (ToolCall V))) := do
  telling fun c => c.emit (.controlApplied "structured_with_tool_calls"
    (H.endStrategy.debug++" end_strategy handling "++toString real.length++
      " real tool call(s) alongside a structured-output call"))
  answerCalls (structuredNote H truncated) hits
  if H.endStrategy = .early then do
    answerCalls ("run stopped before this tool call was executed "++
      "(EndStrategy::Early: the structured answer ends the run first)") real
    return none
  else return some real

def failTruncatedToolCalls : Task V T Unit := do
  let failed : List (FoldSlot V) := calls.map fun call =>
    .recovered call (.error (truncatedToolCallMessage call.name))
  let _ ← foldAll H failed ({},[])
  telling fun c => { c with terminateVotes := [] }

-- No row answers the calls of a turn that has schema calls only.
def openTurn (turn : Turn V) : Task V T (Option (List (ToolCall V))) :=
  let hits := structuredHits H turn.calls
  let real := realToolCalls H turn.calls
  if turn.cutOff then do
    failTruncatedToolCalls H turn.calls
    return none
  else if real.isEmpty then return none
  else if hits.isEmpty then return some real
  else finishMixedStructuredTurn H hits real (!turn.truncated.isEmpty)

def unlessExit (settle next : Task V T (Option (LoopExit V))) : Task V T (Option (LoopExit V)) := do
  match ← settle with
  | some exit => return some exit
  | none => next

def finishTurn (turn : Turn V) : Task V T (Option (LoopExit V)) := do
  match ← openTurn H turn with
  | none => return none
  | some calls => do
    let deferred ← executeTools H calls
    settleDeferred H deferred

def runTurns : Nat → Task V T (Option (LoopExit V))
  | 0 => return none
  | n+1 => do
    match ← ask (request .modelTurn) with
    | none => return some .finished
    | some turn => unlessExit (finishTurn H turn) (runTurns n)

def runLoop (n : Nat) : Option (DeferredToolResults V) → Task V T (Option (LoopExit V))
  | none => runTurns H n
  | some results => do
    let c ← asking .read
    let pending ← Fallible.ofExcept (pendingToolCalls c.messages)
    let deferred ← applyDeferredResults H pending results
    unlessExit (settleDeferred H deferred) (runTurns H n)

end

def needs (ran : List (Ran V)) : List (Nat × ToolCall V) :=
  (ran.filter fun x => x.needed).map fun x => (x.turn,x.asked)

def decided (granted : List (Granted V)) : List (Nat × ToolCall V) :=
  granted.map fun g => (g.turn,g.run)

structure Approves (g : Granted V) (turn : Nat) (asked : ToolCall V) : Prop where
  turn : g.turn = turn
  run : g.run = asked
  mem : g.shown ∈ g.pending
  only : ∀ other ∈ g.pending, other.id = g.shown.id → other = g.shown
  same : g.run = { g.shown with arguments := g.run.arguments }

def ApprovedFor (asked : ToolCall V) (needed : Bool) (c : RunContext V) : Prop :=
  needed = true → ∃ past g, c.granted = past++[g] ∧ Approves g c.turn asked ∧
    (needs c.ran).Sublist (decided past)

def Accounted (c : RunContext V) : Prop := (needs c.ran).Sublist (decided c.granted)

def FreshTurn : (op : LoopOp V T) → RunContext V → LoopAns op → Bool
  | .modelTurn, c, x =>
    match x with
    | .ok (some turn) => decide (ids turn.calls).Nodup &&
        turn.calls.all fun call => !c.approvedCalls.contains call.id
    | _ => true
  | _, _, _ => true

def careful (op : LoopOp V T) (c : RunContext V) (x : LoopAns op) (c' : RunContext V) : Prop :=
  running False op c x c' ∧ FreshTurn op c x = true

variable {H : AgentHarness V T} {works : Prop} {c c' : RunContext V}

theorem needs_append (ran more : List (Ran V)) : needs (ran++more) = needs ran++needs more := by
  simp only [needs,filter_append,map_append]

theorem needs_eq_nil {ran : List (Ran V)} (h : ∀ x ∈ ran, x.needed = false) : needs ran = [] := by
  rw [needs,map_eq_nil_iff,filter_eq_nil_iff]
  intro x hx
  simp [h x hx]

theorem Accounted.same (h : Accounted c) (hr : c'.ran = c.ran) (hg : c'.granted = c.granted) :
    Accounted c' := by
  rw [Accounted,hr,hg]
  exact h

section

variable {pending : List (ToolCall V)} {shown run : ToolCall V}

theorem lets_of_approval (hnd : (ids pending).Nodup) (hmem : shown ∈ pending)
    (hsame : run = { shown with arguments := run.arguments }) (h : Accounted c) :
    Lets ApprovedFor (c.markCallApproved pending shown run) run := by
  intro _ _ _ hr hg ht _
  refine ⟨c.granted,⟨c.turn,pending,shown,run⟩,hg,⟨ht.symm,rfl,hmem,?_,hsame⟩,?_⟩
  · intro _ ho hid
    exact inj_on_of_nodup_map hnd ho hmem hid
  · rw [hr]
    exact h

theorem accounted_of_passed {fails : Prop} {new : List (Ran V)} (h : Accounted c)
    (hp : Passed H works run (c.markCallApproved pending shown run) fails c' new) :
    Accounted c' := by
  have hnew : (needs new).Sublist [(c.turn,run)] := by
    obtain _ | ⟨x,_ | ⟨y,more⟩⟩ := new
    · exact nil_sublist _
    · obtain ⟨hasked,hturn,-⟩ := hp.own x (by simp)
      have hturn : x.turn = c.turn := hturn
      cases hx : x.needed with
      | false =>
        rw [needs_eq_nil (by simpa using hx)]
        exact nil_sublist _
      | true => simp [needs,hx,hasked,hturn]
    · simpa using hp.once
  rw [Accounted,hp.ran,hp.frame.granted,needs_append]
  simp only [RunContext.markCallApproved,decided,map_append]
  exact List.Sublist.append h hnew

variable {batch : Batch V}

theorem safe_answerPending (h : Accounted c) {call : ToolCall V} {result} :
    Safe (guarded T works ApprovedFor)
      (fun x c' => Accounted c' ∧ ∀ b, x = .ok b → DefersOnly [call.id] batch.1 b.1)
      (answerPending H call result batch).run c := by
  refine alone_then (safe_recoverToolCall (at_self works c call.id)) ?_ ?_
  · rintro e _ ⟨-,hh⟩
    exact ⟨h.same hh.ran hh.frame.granted,nofun⟩
  rintro _ _ ⟨-,hh⟩
  refine alone_ret ⟨h.same hh.ran hh.frame.granted,?_⟩
  rintro _ ⟨⟩
  exact defersOnly_refl

theorem safe_runApproved (h : Accounted c) (hnd : (ids pending).Nodup) (hmem : shown ∈ pending)
    (hsame : run = { shown with arguments := run.arguments }) :
    Safe (guarded T works ApprovedFor) (fun x c' => Accounted c' ∧
      ∀ b, x = .ok b → DefersOnly [shown.id] batch.1 b.1)
      (runApproved H pending shown run batch).run c := by
  refine safe_telling (safe_telling ?_)
  have hemit : Accounted (c.emit (.toolApproved shown.id)) := h.same rfl rfl
  refine safe_mono ?_ (safe_executeToolSerially (lets_of_approval hnd hmem hsame hemit))
  rintro x _ ⟨hd,_,hp⟩
  rw [hsame] at hd
  exact ⟨accounted_of_passed hemit hp,hd⟩

theorem safe_applyDecision (h : Accounted c) (hnd : (ids pending).Nodup) {call : ToolCall V}
    (hmem : call ∈ pending) {decision} :
    Safe (guarded T works ApprovedFor)
      (fun x c' => Accounted c' ∧ ∀ b, x = .ok b → DefersOnly [call.id] batch.1 b.1)
      (applyDecision H pending call batch decision).run c := by
  cases decision with
  | deny message =>
    have hemit : Accounted (c.emit (.toolDenied call.id message)) := h.same rfl rfl
    exact safe_telling (safe_answerPending hemit)
  | approve | approveWithArgs => exact safe_runApproved h hnd hmem rfl

theorem safe_applyAll (hnd : (ids pending).Nodup) :
    ∀ {rest} {c} {results} {batch : Batch V}, Accounted c → (∀ call ∈ rest, call ∈ pending) →
    Safe (guarded T works ApprovedFor)
      (fun x c' => Accounted c' ∧ ∀ b, x = .ok b → DefersOnly (ids rest) batch.1 b.1)
      (applyAll H pending rest results batch).run c := by
  intro rest
  induction rest with
  | nil =>
    intro c _ _ h _
    refine alone_ret ⟨h,?_⟩
    rintro _ ⟨⟩
    exact defersOnly_refl
  | cons call _ ih =>
    intro c _ _ h hsub
    have hrest := fun other ho => hsub other (mem_cons_of_mem _ ho)
    unfold applyAll
    split
    · refine alone_then (safe_answerPending h) (fun _ _ h => ⟨h.1,nofun⟩) ?_
      rintro next _ ⟨h1,hd⟩
      refine safe_mono ?_ (ih h1 hrest)
      exact fun _ _ h => ⟨h.1,fun b hx => (hd next rfl).cons (h.2 b hx)⟩
    · split
      · exact alone_ret ⟨h,nofun⟩
      · refine alone_then (safe_applyDecision h hnd (hsub call mem_cons_self))
          (fun _ _ h => ⟨h.1,nofun⟩) ?_
        rintro next _ ⟨h1,hd⟩
        refine safe_mono ?_ (ih h1 hrest)
        exact fun _ _ h => ⟨h.1,fun b hx => (hd next rfl).cons (h.2 b hx)⟩

theorem safe_applyDeferredResults (h : Accounted c) (hnd : (ids pending).Nodup) {results} :
    Safe (guarded T works ApprovedFor)
      (fun x c' => Accounted c' ∧ ∀ d, x = .ok d → DefersOnly (ids pending) {} d)
      (applyDeferredResults H pending results).run c := by
  unfold applyDeferredResults
  dsimp only
  split
  · refine safe_telling (safe_read ?_)
    refine alone_then (safe_applyAll hnd (h.same rfl rfl) fun _ hc => hc)
      (fun _ _ h => ⟨h.1,nofun⟩) ?_
    rintro ⟨deferred,followUps⟩ c1 ⟨h1,hd⟩
    refine safe_telling (safe_telling (alone_ret ⟨?_,?_⟩))
    · have hcore := core_settleBatchTermination
        (deferred.isEmpty && pending.length == ((lastBatch c.messages).map fun found =>
          found.1.length).getD 0) { c1 with messages := c1.messages++followUps }
      exact h1.same (congrArg Core.ran hcore) (congrArg Core.granted hcore)
    · rintro _ ⟨⟩
      exact hd _ rfl
  · exact alone_ret ⟨h,nofun⟩

theorem DefersOnly.nodup {d : DeferredToolRequests V} (h : DefersOnly (ids pending) {} d)
    (hnd : (ids pending).Nodup) : (ids (d.approvals++d.calls)).Nodup := by
  rw [nodup_iff_count_le_one] at hnd ⊢
  intro j
  rw [ids,map_append,count_append]
  have hj := h j
  rw [show DeferredToolRequests.tally ({} : DeferredToolRequests V) j = 0 from rfl,
    Nat.zero_add] at hj
  exact Nat.le_trans hj (hnd j)

theorem safe_settleDeferred (h : Accounted c) {d} (hnd : (ids (d.approvals++d.calls)).Nodup) :
    Safe (guarded T works ApprovedFor) (fun _ => Accounted) (settleDeferred H d).run c := by
  unfold settleDeferred
  split
  · exact alone_ret h
  split
  · refine alone_then (P := fun _ => Accounted) (alone_ask trivial fun x c1 ho => ?_)
      (fun _ _ h => h) ?_
    · obtain rfl : c1 = c := ho.1
      exact alone_ret h
    intro _ _ h1
    refine alone_then (safe_applyDeferredResults h1 hnd) (fun _ _ h => h.1) ?_
    rintro _ _ ⟨h2,-⟩
    split
    all_goals exact alone_ret h2
  · exact alone_ret h

end

theorem safe_freshBatch {calls} (h : Accounted c) (hnd : (ids calls).Nodup)
    (hfresh : ∀ call ∈ calls, call.id ∉ c.approvedCalls) :
    Safe (guarded T works ApprovedFor)
      (fun x c' => Accounted c' ∧ ∀ d, x = .ok d → DefersOnly (ids calls) {} d)
      (executeTools H calls).run c := by
  have hfree call (hc : call ∈ calls) : Frees ApprovedFor c.approvedCalls call :=
    fun _ _ hn hneed => (hfresh call hc (hn hneed)).elim
  refine safe_mono ?_ (safe_executeTools hnd hfree)
  rintro x _ ⟨hd,new,hl,-⟩
  refine ⟨?_,hd⟩
  have hnew : needs new = [] := by
    refine needs_eq_nil fun x hx => ?_
    obtain ⟨hasked,-,hneed⟩ := hl.own x hx
    cases hx' : x.needed with
    | false => rfl
    | true => exact (hfresh x.asked hasked (hneed hx')).elim
  rw [Accounted,hl.ran,needs_append,hnew,append_nil,hl.frame.granted]
  exact h

theorem safe_careful {α : Type} {Q} {p : Loop V T α} (h :
    Safe (guarded T False ApprovedFor) Q p c) : Safe (alone careful (Guards ApprovedFor)) Q p c :=
  alone_mono (fun _ _ _ _ ho => ho.1) h

theorem safe_foldRecovered {result : ToolCall V → ToolResult V} (calls : List (ToolCall V))
    (batch : Batch V) (h : Accounted c) :
    Safe (guarded T works ApprovedFor) (fun _ => Accounted)
      (foldAll H (calls.map fun call => .recovered call (result call)) batch).run c := by
  induction calls generalizing c batch with
  | nil => exact safe_telling (alone_ret (h.same rfl rfl))
  | cons call _ ih =>
    refine alone_then (safe_recoverToolCall (at_self works c call.id)) ?_ ?_
    · exact fun _ _ ⟨_,hh⟩ => h.same hh.ran hh.frame.granted
    · exact fun _ _ ⟨_,hh⟩ => ih _ (h.same hh.ran hh.frame.granted)

theorem safe_failTruncatedToolCalls {calls} (h : Accounted c) :
    Safe (guarded T works ApprovedFor) (fun _ => Accounted)
      (failTruncatedToolCalls H calls).run c :=
  alone_then (safe_foldRecovered calls _ h) (fun _ _ h => h) fun _ _ h =>
    safe_telling (alone_ret (h.same rfl rfl))

theorem safe_openTurn {turn} (h : Accounted c) :
    Safe (guarded T works ApprovedFor)
      (fun x c' => Accounted c' ∧ ∀ calls, x = .ok (some calls) → calls.Sublist turn.calls ∧
      c'.approvedCalls = c.approvedCalls) (openTurn H turn).run c := by
  unfold openTurn
  dsimp only
  split_ifs
  · exact alone_then (safe_failTruncatedToolCalls h) (fun _ _ h => ⟨h,nofun⟩)
      fun _ _ h => alone_ret ⟨h,nofun⟩
  · exact alone_ret ⟨h,nofun⟩
  · refine alone_ret ⟨h,?_⟩
    rintro _ ⟨⟩
    exact ⟨filter_sublist,rfl⟩
  · refine safe_telling (safe_telling ?_)
    split
    · exact safe_telling (alone_ret ⟨h.same rfl rfl,nofun⟩)
    · refine alone_ret ⟨h.same rfl rfl,?_⟩
      rintro _ ⟨⟩
      exact ⟨filter_sublist,rfl⟩

theorem safe_finishTurn {turn} (h : Accounted c) (hnd : (ids turn.calls).Nodup)
    (hfresh : ∀ call ∈ turn.calls, call.id ∉ c.approvedCalls) :
    Safe (guarded T works ApprovedFor) (fun _ => Accounted) (finishTurn H turn).run c := by
  refine alone_then (safe_openTurn h) (fun _ _ h => h.1) ?_
  rintro (_ | calls) _ ⟨h1,hopen⟩
  · exact alone_ret h1
  obtain ⟨hsub,happroved⟩ := hopen calls rfl
  have hnd := hnd.sublist (hsub.map ToolCall.id)
  refine alone_then (safe_freshBatch h1 hnd fun call hc => ?_) (fun _ _ h => h.1) ?_
  · rw [happroved]
    exact hfresh call (hsub.subset hc)
  · exact fun deferred _ ⟨h2,hd⟩ => safe_settleDeferred h2 ((hd deferred rfl).nodup hnd)

theorem safe_unlessExit {settle next}
    (h : Safe (guarded T False ApprovedFor) (fun _ => Accounted) settle.run c)
    (hnext : ∀ {c}, Accounted c →
      Safe (alone careful (Guards ApprovedFor)) (fun _ => Accounted) next.run c) :
    Safe (alone careful (Guards ApprovedFor)) (fun _ => Accounted)
      (unlessExit settle next).run c := by
  refine alone_then (safe_careful h) (fun _ _ h => h) ?_
  intro exit _ h1
  cases exit with
  | some => exact alone_ret h1
  | none => exact hnext h1

theorem safe_runTurns :
    ∀ (n : Nat) {c : RunContext V}, Accounted c →
    Safe (alone careful (Guards ApprovedFor)) (fun _ => Accounted) (runTurns H n).run c := by
  intro n
  induction n with
  | zero => exact fun h => alone_ret h
  | succ _ ih =>
    intro c h
    refine alone_ask trivial fun x c1 ho => ?_
    obtain ⟨⟨ho,-,-⟩,hfresh⟩ := ho
    match x, ho, hfresh with
    | .error e, ho, _ | .ok none, ho, _ =>
      obtain rfl : c1 = c := ho
      exact alone_ret h
    | .ok (some turn), ho, hfresh =>
      obtain ⟨hnd,hnew⟩ : (ids turn.calls).Nodup ∧
          ∀ call ∈ turn.calls, call.id ∉ c.approvedCalls := by simpa [FreshTurn] using hfresh
      obtain rfl := ho
      exact safe_unlessExit (safe_finishTurn (h.same rfl rfl) hnd hnew) fun h => ih h

theorem unanswered_sublist (calls : List (ToolCall V)) (left : String → Nat) :
    (unanswered calls left).Sublist calls := by
  induction calls generalizing left with
  | nil => exact .slnil
  | cons call _ ih =>
    unfold unanswered
    split
    · exact (ih _).cons call
    · exact (ih _).cons_cons call

theorem safe_runLoop {n : Nat} {results : Option (DeferredToolResults V)} (h : Accounted c)
    (hbatch : ∀ found, lastBatch c.messages = some found → (ids found.1).Nodup) :
    Safe (alone careful (Guards ApprovedFor)) (fun _ => Accounted) (runLoop H n results).run c := by
  cases results with
  | none => exact safe_runTurns n h
  | some =>
    refine alone_lift trivial fun x _ ho => ?_
    obtain ⟨rfl,rfl⟩ := ho.1.1
    refine safe_ofExcept (fun pending hp => ?_) (fun e _ => alone_ret h)
    have hnd : (ids pending).Nodup := by
      unfold pendingToolCalls at hp
      split at hp
      · cases hp
      next calls rest hlast =>
        have hsub := unanswered_sublist calls fun id => rest.countP (Message.answers id)
        split at hp
        · cases hp
        · cases hp
          exact (hbatch _ hlast).sublist (hsub.map ToolCall.id)
    refine alone_then (safe_careful (safe_applyDeferredResults h hnd)) (fun _ _ h => h.1) ?_
    rintro deferred _ ⟨h2,hd⟩
    exact safe_unlessExit (safe_settleDeferred h2 ((hd deferred rfl).nodup hnd))
      fun h => safe_runTurns n h

def Script.approving (turns : List (List (ToolCall Unit))) : Script where
  turns := turns
  results := { approvals := fun _ => some .approve }

def executing (check : ToolCall Unit → RunContext Unit → Bool) :
    LoopOp Unit String → RunContext Unit → Bool
  | .execute _ _ asked needed, c => needed && check asked c
  | _, _ => false

theorem reaches_executing {outcome} {perform}
    (hp : ∀ op c x c', perform op c = some (x,c') → outcome op c x c') {α : Type}
    (p : Loop Unit String α) (check : ToolCall Unit → RunContext Unit → Bool)
    (h : (p.playUntil perform (executing check) {}).isSome) :
    ∃ tool prepared asked next c',
    Reaches outcome p {} (.ask (.execute tool prepared asked true) next) c' ∧ check asked c' := by
  obtain ⟨op,next,c',hr,hs⟩ := Program.reaches_of_playUntil hp h
  cases op with
  | execute tool prepared asked =>
    obtain ⟨rfl,hc⟩ := Bool.and_eq_true_iff.1 hs
    exact ⟨tool,prepared,asked,next,c',hr,hc⟩
  | _ => cases hs

def Script.carefully (s : Script) (op : LoopOp Unit String) (c : RunContext Unit) :
    Option (LoopAns op × RunContext Unit) :=
  (s.perform op c).filter fun x => FreshTurn op c x.1

theorem Script.carefully_runs (s : Script) (op : LoopOp Unit String) (c : RunContext Unit)
    (x : LoopAns op) (c' : RunContext Unit) (h : s.carefully op c = some (x,c')) :
    careful op c x c' := by
  obtain ⟨hp,hf⟩ := Option.filter_eq_some_iff.1 h
  exact ⟨s.perform_runs op c x c' hp,hf⟩

def pay : ToolCall Unit := { id := "1", name := "pay", arguments := () }

def wipe : ToolCall Unit := { id := "1", name := "wipe", arguments := () }

end Harness.AgentLoop
