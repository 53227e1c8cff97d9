import TinyAgents.Harness.ToolRows

namespace Harness.AgentLoop

open Interaction List

variable {V T : Type}

section

def begun (ran : List (Ran V)) : Nat := ran.countP fun x => x.outcome != .deferred

abbrev Counted (V : Type) := RunContext V × Bool

variable {α : Type} (H : AgentHarness V T) (formed : Prop) (R : α → Counted V → Prop)

def normalized (tool : T) (arguments : V) : V :=
  if H.invalidArgs = .normalizeThenReturnToolError then H.normalize tool arguments else arguments

def Formed : (op : LoopOp V T) → LoopAns op → Bool
  | .discover _, x =>
    match x with
    | .ok .absent => true
    | .ok _ => false
    | .error _ => true
  | .beforeTool _, x => x.2.isSome ||
      (x.1.invalid.isNone || (H.recoverObject x.1.arguments).isSome) &&
        (H.allowsName x.1.name && (H.modelDispatch x.1.name).isSome)
  | .inject tool call, x =>
    match Injected.preparing (H.injectsArguments tool) call.arguments x with
    | .ready arguments =>
      (H.validateCall tool { call with arguments := normalized H tool arguments }).isNone
    | _ => false
  | _, _ => true

def counting (op : LoopOp V T) (s : Counted V) (x : LoopAns op) (s' : Counted V) : Prop :=
  LoopOutcome op s.1 x s'.1 ∧ (formed → Formed H op x = true) ∧ match op, x with
    | .recordToolCall, x => s'.2 = (s.2 && Option.isNone x)
    | _, _ => s'.2 = s.2

structure Slots (k : Nat) (s : Counted V) : Prop where
  passed : s.2 = true
  le : begun s.1.ran+k ≤ s.1.toolCalls
  eq : formed → begun s.1.ran+k = s.1.toolCalls

def Lost (s : Counted V) : Prop := begun s.1.ran ≤ s.1.toolCalls

def SlotGuard : LoopOp V T → Counted V → Prop
  | .execute _ _ _ _, s => s.2 = true ∧ begun s.1.ran < s.1.toolCalls
  | .update f, s => (f s.1).ran = s.1.ran ∧ begun s.1.ran ≤ (f s.1).toolCalls ∧
      (f s.1).toolCalls ≤ s.1.toolCalls
  | .modelTurn, s => Slots formed 0 s
  | _, _ => True

abbrev Counting : Logic (LoopOp V T) LoopAns (Counted V) :=
  alone (counting H formed) (SlotGuard formed)

def OrLost (x : Answer V α) (s : Counted V) : Prop :=
  match x with
  | .ok a => R a s
  | .error _ => Lost s

abbrev Fills (p : Task V T α) : Counted V → Prop :=
  Safe (Counting H formed) (OrLost R) p.run

abbrev Saves (k : Nat) (p : Task V T α) : Counted V → Prop :=
  Fills H formed (fun _ => Slots formed k) p

variable {H : AgentHarness V T} {formed : Prop} {k : Nat} {s s' : Counted V} {α β : Type}

theorem Slots.lost (h : Slots formed k s) : Lost s := Nat.le_of_add_right_le h.le

theorem Slots.same (h : Slots formed k s) (hr : s'.1.ran = s.1.ran)
    (ht : s'.1.toolCalls = s.1.toolCalls) (ho : s'.2 = s.2) : Slots formed k s' := by
  refine ⟨ho.trans h.passed,?_,fun hf => ?_⟩
  · rw [hr,ht]
    exact h.le
  · rw [hr,ht]
    exact h.eq hf

theorem Slots.keep (h : Slots formed (k+1) s) (hf : ¬ formed) : Slots formed k s :=
  ⟨h.passed,Nat.le_of_succ_le h.le,fun h => absurd h hf⟩

theorem Slots.rollback (h : Slots formed (k+1) s) : Slots formed k (s.1.rollbackToolCall,s.2) := by
  have hle := h.le
  refine ⟨h.passed,?_,fun hf => ?_⟩
  · change begun s.1.ran+k ≤ s.1.toolCalls-1
    omega
  have heq := h.eq hf
  change begun s.1.ran+k = s.1.toolCalls-1
  omega

def Even : LoopOp V T → Prop
  | .recordToolCall | .execute _ _ _ _ | .modelTurn => False
  | .update f => ∀ c, (f c).ran = c.ran ∧ (f c).toolCalls = c.toolCalls
  | _ => True

variable {op : LoopOp V T}

theorem even_guard (hop : Even op) (h : Lost s) : SlotGuard formed op s := by
  cases op with
  | recordToolCall | execute | modelTurn => exact hop.elim
  | update =>
    obtain ⟨hr,ht⟩ := hop s.1
    exact ⟨hr,ht ▸ h,Nat.le_of_eq ht⟩
  | _ => trivial

def Apart : LoopOp V T → Prop
  | .update _ | .recordToolCall | .execute _ _ _ _ => False
  | _ => True

theorem apart_outcome {x : LoopAns op} {c c'} (h : LoopOutcome op c x c') (hop : Apart op) :
    c'.ran = c.ran ∧ c'.toolCalls = c.toolCalls := by
  cases op with
  | update | recordToolCall | execute => exact hop.elim
  | read =>
    obtain ⟨-,rfl⟩ := h
    exact ⟨rfl,rfl⟩
  | ledgerStarted | ledgerSettled => obtain rfl | ⟨rfl,-⟩ := h <;> exact ⟨rfl,rfl⟩
  | afterTool | screenInput | outputScreened =>
    cases h
    cases x <;> exact ⟨rfl,rfl⟩
  | modelTurn => match x, h with
      | .error e, h | .ok none, h | .ok (some turn), h => cases h; exact ⟨rfl,rfl⟩
  | _ =>
    cases h
    exact ⟨rfl,rfl⟩

theorem even_outcome {x : LoopAns op} (hop : Even op) (h : counting H formed op s x s') :
    s'.1.ran = s.1.ran ∧ s'.1.toolCalls = s.1.toolCalls ∧ s'.2 = s.2 := by
  obtain ⟨ho,-,hp⟩ := h
  cases op with
  | recordToolCall | execute | modelTurn => exact hop.elim
  | update f =>
    obtain ⟨hr,ht⟩ := hop s.1
    have ho : s'.1 = f s.1 := ho
    rw [ho]
    exact ⟨hr,ht,hp⟩
  | _ =>
    obtain ⟨hr,ht⟩ := apart_outcome ho trivial
    exact ⟨hr,ht,hp⟩

theorem keeps_slots {p : Loop V T α} (hp : Asks Even p) (h : Slots formed k s) :
    Safe (Counting H formed) (fun _ => Slots formed k) p s :=
  safe_of_asks (fun _ _ hw he => he ▸ hw)
    (fun _ s hop hs => ⟨even_guard hop hs.lost,fun _ _ ho => by
      obtain ⟨hr,ht,hb⟩ := even_outcome hop ho
      exact hs.same hr ht hb⟩) hp h

theorem keeps_lost {p : Loop V T α} (hp : Asks Even p) (h : Lost s) :
    Safe (Counting H formed) (fun _ => Lost) p s :=
  safe_of_asks (fun _ _ hw he => he ▸ hw)
    (fun _ s hop hs => ⟨even_guard hop hs,fun _ _ ho => by
      obtain ⟨hr,ht,-⟩ := even_outcome hop ho
      rw [Lost,hr,ht]
      exact hs⟩) hp h

theorem even_of_filed (op : LoopOp V T) (h : Filed op) : Even op := by
  cases op with
  | update => exact fun c => ⟨(h c).ran,(h c).toolCalls⟩
  | modelTurn | execute | recordToolCall => exact h
  | _ => trivial

theorem even_of_still (op : LoopOp V T) (h : Still op) : Even op := by
  cases op with
  | update | read | recordToolCall | execute | modelTurn => exact h.elim
  | _ => trivial

theorem even_telling {f : RunContext V → RunContext V}
    (hf : ∀ c, ((f c).ran,(f c).toolCalls) = (c.ran,c.toolCalls)) :
    Asks Even (telling (T := T) f).run :=
  ⟨fun c => Prod.mk.inj (hf c),fun _ => trivial⟩

theorem even_emit {event : RunContext V → AgentEvent V} :
    Asks Even (telling (T := T) fun c => c.emit (event c)).run :=
  even_telling fun _ => rfl

variable {R : β → Counted V → Prop}

theorem slots_even {p : Task V T α} (hp : Asks Even p.run) (h : Slots formed k s) :
    Saves H formed k p s := by
  refine safe_mono (fun x _ h => ?_) (keeps_slots hp h)
  cases x with
  | ok => exact h
  | error => exact h.lost

theorem safe_even {p : Task V T α} {next} (hp : Asks Even p.run) (h : Slots formed k s)
    (hn : ∀ a s', Slots formed k s' → Fills H formed R (next a) s') :
    Fills H formed R (p >>= next) s :=
  alone_then (keeps_slots hp h) (fun _ _ h => h.lost) hn

theorem fills_then {P} {p : Task V T α} {next} (hp : Fills H formed P p s)
    (hn : ∀ a s', P a s' → Fills H formed R (next a) s') : Fills H formed R (p >>= next) s :=
  alone_then hp (fun _ _ h => h) hn

theorem safe_asked {next} (hop : Even op) (h : Slots formed k s)
    (hn : ∀ x s', (formed → Formed H op x) → Slots formed k s' → Fills H formed R (next x) s') :
    Fills H formed R (asking op >>= next) s := by
  refine alone_lift (even_guard hop h.lost) fun x s' ho => ?_
  obtain ⟨hr,ht,hb⟩ := even_outcome hop ho
  exact hn x s' ho.2.1 (h.same hr ht hb)

theorem safe_rollback {next} (h : Slots formed (k+1) s)
    (hn : ∀ s', Slots formed k s' → Fills H formed R (next ()) s') :
    Fills H formed R (telling RunContext.rollbackToolCall >>= next) s := by
  have hs := h.rollback
  refine alone_lift ⟨rfl,hs.lost,Nat.sub_le _ _⟩ fun x s' ho => ?_
  obtain ⟨ho,-,hb⟩ := ho
  obtain rfl : s' = (s.1.rollbackToolCall,s.2) := Prod.ext ho hb
  exact hn _ hs

theorem lost_throw (h : Slots formed k s) {e} : Fills H formed R (throw e : Task V T β) s :=
  alone_ret h.lost

def ResolvedToolCall.slots : ResolvedToolCall V T → Nat
  | .tool _ _ => 1
  | _ => 0

def Resolves (formed : Prop) (k : Nat) (r : ResolvedToolCall V T × ToolCall V) : Counted V → Prop :=
  Slots formed (k+r.1.slots)

variable {approval : ApprovalDirective} {callId : String} {call : ToolCall V} {modelArguments : V}

theorem slots_answered {resolved : ResolvedToolCall V T} (hz : resolved.slots = 0)
    (h : Slots formed k s) :
    Fills H formed (Resolves formed k) (pure (resolved,call) : Task V T _) s := by
  refine alone_ret ?_
  change Slots formed (k+resolved.slots) s
  rw [hz]
  exact h

theorem even_withRefusalMetadata {result : ToolResult V} :
    Asks Even (withRefusalMetadata (T := T) callId result).run :=
  ⟨trivial,fun _ => trivial⟩

section

variable (h : Slots formed (k+1) s)

include h

theorem slots_refused {message : String} :
    Fills H formed (fun r s' => r.slots = 0 ∧ Slots formed k s')
      (refused (T := T) callId message) s := by
  refine safe_rollback h fun _ h1 => ?_
  exact safe_even even_withRefusalMetadata h1 fun _ _ h2 => alone_ret ⟨rfl,h2⟩

theorem slots_refuses {message : String} :
    Fills H formed (Resolves formed k)
      (do let answer ← refused callId message; return (answer,call) : Task V T _) s :=
  fills_then (slots_refused h) fun _ _ h => slots_answered h.1 h.2

theorem slots_gateToolCall {tool : T} :
    Fills H formed (Resolves formed k) (gateToolCall H tool approval modelArguments call) s := by
  refine safe_asked trivial h fun c _ _ h1 => ?_
  dsimp only
  split
  · exact safe_rollback h1 fun _ h => slots_answered rfl h
  split
  · exact safe_rollback h1 fun _ h => slots_answered rfl h
  refine safe_even (asks_mono even_of_still asks_authorizeToolCall) h1 fun x _ h2 => ?_
  cases x with
  | some => exact safe_rollback h2 fun _ h => slots_answered rfl h
  | none => exact alone_ret h2

theorem slots_admitTool {tool : T} :
    Fills H formed (Resolves formed k) (admitTool H tool approval modelArguments call) s := by
  refine safe_asked trivial h fun _ _ hf h1 => ?_
  split
  next hi => exact lost_throw h1
  next hi =>
    have hn : ¬ formed := by
      intro hformed
      have hready := hf hformed
      simp only [Formed,hi] at hready
      cases hready
    split
    · exact lost_throw h1
    · exact slots_answered rfl (h1.keep hn)
  next hi =>
    dsimp only
    split
    next hv =>
      have hn : ¬ formed := by
        intro hformed
        have hvalid := hf hformed
        simp only [Formed,hi,normalized,hv] at hvalid
        cases hvalid
      split
      · exact lost_throw h1
      · exact safe_even even_emit h1 fun _ _ h => slots_answered rfl (h.keep hn)
    next hv =>
      refine safe_asked trivial h1 fun bound _ _ h2 => ?_
      cases bound with
      | none => exact lost_throw h2
      | some =>
        refine safe_even (asks_mono even_of_still asks_admitDispatch) h2 fun gate _ h3 => ?_
        cases gate with
        | refuse => exact slots_refuses h3
        | admits => exact slots_gateToolCall h3

theorem slots_admitParsed
    (hf : formed → H.allowsName call.name ∧ (H.modelDispatch call.name).isSome) :
    Fills H formed (Resolves formed k) (admitParsed H approval modelArguments call) s := by
  unfold admitParsed
  split
  · dsimp only
    split
    · exact safe_even even_emit h fun _ _ h => slots_admitTool h
    · exact slots_admitTool h
  next hnone =>
    have hn : ¬ formed := by
      intro hformed
      obtain ⟨ha,hd⟩ := hf hformed
      rw [if_pos ha] at hnone
      rw [hnone] at hd
      cases hd
    refine safe_even (asks_mono even_of_still asks_rewriteTarget) h fun target _ h1 => ?_
    cases target with
    | some =>
      exact safe_even even_emit h1 fun _ _ h => slots_admitTool h
    | none =>
      dsimp only
      split
      · exact lost_throw h1
      · exact safe_even even_emit h1 fun _ _ h => slots_answered rfl (h.keep hn)

theorem slots_admitRepaired (hf : formed → Formed H (.beforeTool call) (call,none)) :
    Fills H formed (Resolves formed k) (admitRepaired H approval modelArguments call) s := by
  have hnamed (hformed : formed) : H.allowsName call.name ∧ (H.modelDispatch call.name).isSome := by
    have hcall := hf hformed
    simp only [Formed,Option.isSome_none,Bool.false_or,Bool.and_eq_true] at hcall
    exact hcall.2
  unfold admitRepaired
  split
  · exact slots_admitParsed h hnamed
  next hinvalid =>
    split
    · exact safe_even even_emit h fun _ _ h => slots_admitParsed h hnamed
    next hnone =>
      have hn : ¬ formed := by
        intro hformed
        have hparses := hf hformed
        simp [Formed,hinvalid,hnone] at hparses
      exact safe_even even_emit h fun _ _ h =>
        slots_answered rfl (h.keep hn)

end

theorem slots_signalled (h : Slots formed k s) {e} :
    Fills H formed (fun r s' => r.slots = 0 ∧ Slots formed k s') (signalled H call e) s := by
  cases e with
  | approvalRequired | callDeferred => exact alone_ret ⟨rfl,h⟩
  | toolFailed | modelRetry =>
    exact safe_even even_withRefusalMetadata h fun _ _ h => alone_ret ⟨rfl,h⟩
  | _ => exact lost_throw h

theorem slots_admitByRules (h : Slots formed (k+1) s) :
    Fills H formed (Resolves formed k) (admitByRules H call) s := by
  refine safe_even (asks_mono even_of_still asks_ruleAdmission) h fun gate _ h1 => ?_
  cases gate with
  | refuse => exact slots_refuses h1
  | admits =>
    refine safe_asked trivial h1 fun x _ hf h2 => ?_
    obtain ⟨_,signal⟩ := x
    cases signal with
    | some =>
      refine safe_rollback h2 fun _ h3 => ?_
      exact fills_then (slots_signalled h3) fun _ _ h => slots_answered h.1 h.2
    | none => exact slots_admitRepaired h2 hf

theorem even_unwrapped : Asks Even (unwrapped H call).run := by
  unfold unwrapped
  split
  · exact asks_try even_emit fun _ => trivial
  · trivial

theorem slots_answerDiscoveryBridge (h : Slots formed (k+1) s) :
    Fills H formed (fun found s' => match found with
      | some _ => Slots formed k s'
      | none => Slots formed (k+1) s') (answerDiscoveryBridge H call) s := by
  unfold answerDiscoveryBridge
  split
  · refine alone_ask trivial fun x _ ho => ?_
    have hop : Even (LoopOp.discover (T := T) call) := trivial
    obtain ⟨hr,ht,hb⟩ := even_outcome hop ho
    have h1 := h.same hr ht hb
    cases x with
    | error => exact alone_ret h1.lost
    | ok found =>
      cases found with
      | absent => exact alone_ret h1
      | refused => exact alone_ret (h1.keep fun hf => nomatch ho.2.1 hf)
      | answered =>
        refine safe_even (even_telling fun _ => rfl) (h1.keep fun hf => nomatch ho.2.1 hf)
          fun _ _ h2 => ?_
        exact safe_even even_emit h2 fun _ _ h => alone_ret h
  · exact alone_ret h

theorem slots_admitToolCall (h : Slots formed k s) :
    Fills H formed (Resolves formed k) (admitToolCall H call) s := by
  refine safe_asked trivial h fun _ _ _ h1 => ?_
  split
  · exact lost_throw h1
  refine safe_asked trivial h1 fun passed _ _ h2 => ?_
  split
  · exact safe_even even_emit h2 fun _ _ h => lost_throw h
  refine safe_asked trivial h2 fun c _ _ h3 => ?_
  refine safe_even (even_telling fun _ => rfl) h3 fun _ s4 h4 => ?_
  split
  · exact slots_answered rfl h4
  refine alone_lift trivial fun limit s5 ho => ?_
  obtain ⟨ho,-,hp⟩ := ho
  have ho : s5.1 = s4.1.recordToolCall := ho
  cases limit with
  | some =>
    have hlost : Lost s5 := by
      rw [Lost,ho]
      exact Nat.le_succ_of_le h4.lost
    exact fills_then (keeps_lost even_emit hlost) fun _ _ h => alone_ret h
  | none =>
    have h5 : Slots formed (k+1) s5 := by
      refine ⟨by rw [hp,h4.passed]; rfl,?_,fun hf => ?_⟩
      · rw [ho]
        exact Nat.succ_le_succ h4.le
      · rw [ho]
        exact congrArg (·+1) (h4.eq hf)
    refine safe_even even_unwrapped h5 fun call _ h6 => ?_
    refine fills_then (slots_answerDiscoveryBridge h6) fun found _ h7 => ?_
    cases found with
    | some => exact slots_answered rfl h7
    | none => exact slots_admitByRules h7

variable {batch : Batch V} {needed : Bool} {prepared : PreparedToolCall V} {tool : T}
  {asked : ToolCall V}

theorem filed_even {p : Loop V T α} (h : Asks Filed p) : Asks Even p :=
  asks_mono even_of_filed h

variable {result : ToolResult V}

theorem even_finishToolCall : Asks Even (finishToolCall H prepared result).run := by
  refine asks_try (filed_even (filed_orFail ⟨trivial,fun _ => trivial⟩)) fun _ => ?_
  refine asks_try (filed_even filed_screened) fun result => ?_
  refine asks_try (filed_even (filed_orFail ⟨trivial,fun _ => trivial⟩)) fun _ => ?_
  refine asks_try (filed_even (filed_telling (kept_applyToolControl prepared _))) fun _ => ?_
  refine asks_try (even_telling fun _ => rfl) fun _ => ?_
  refine asks_try (even_telling fun _ => rfl) fun _ => ?_
  refine asks_try even_emit fun _ => ?_
  exact asks_try (even_telling fun _ => rfl) fun _ => trivial

theorem even_recoverToolCall {call : ToolCall V} : Asks Even (recoverToolCall H call result).run :=
  asks_try (asks_lift (filed_even filed_startToolCall))
    fun _ => even_finishToolCall

theorem even_deferToolCall {request : DeferredRequest V} {deferred} :
    Asks Even (deferToolCall (T := T) request deferred) :=
  ⟨fun _ => ⟨rfl,rfl⟩,fun _ => trivial⟩

def RunOutcome.slots : RunOutcome → Nat
  | .deferred => 1
  | _ => 0

theorem slots_execute {x} (h : Slots formed (k+1) s)
    (ho : counting H formed (.execute tool prepared asked needed) s x s') :
    Slots formed (k+(runOutcome x).slots) s' := by
  obtain ⟨ho,-,hp⟩ := ho
  have ho : s'.1 = { s.1 with ran := s.1.ran++[⟨s.1.turn,asked,needed,runOutcome x⟩] } := ho
  have hbegun : begun s'.1.ran+(runOutcome x).slots = begun s.1.ran+1 := by
    rw [ho]
    simp only [begun,countP_append,countP_singleton]
    cases runOutcome x <;> rfl
  have hcalls : s'.1.toolCalls = s.1.toolCalls := by rw [ho]
  have hle := h.le
  refine ⟨hp.trans h.passed,by omega,fun hf => ?_⟩
  have heq := h.eq hf
  omega

theorem safe_execute {Q : α → Counted V → Prop} {next} (h : Slots formed (k+1) s) (hn : ∀ x s',
    Slots formed (k+(runOutcome x).slots) s' → Safe (Counting H formed) Q (next x) s') :
    Safe (Counting H formed) Q (.ask (.execute tool prepared asked needed) next) s := by
  refine alone_ask ⟨h.passed,?_⟩ fun x s' ho => hn x s' (slots_execute h ho)
  have hle := h.le
  omega

theorem slots_deferStarted (h : Slots formed (k+1) s) {request : DeferredRequest V}
    {deferred : DeferredToolRequests V} :
    Saves H formed k (ExceptT.lift (deferStartedToolCall H prepared request deferred) : Task V T _)
      s := by
  change Safe (Counting H formed) _ ((do
    telling fun c => c.releaseActiveToolCall prepared.call.id
    telling RunContext.rollbackToolCall
    ExceptT.lift (do
      recordToolEffectSettled H prepared .deferred
      deferToolCall request deferred) : Task V T _).run) s
  refine safe_even (even_telling fun _ => rfl) h fun _ _ h1 => ?_
  refine safe_rollback h1 fun _ h2 => ?_
  exact slots_even (asks_lift (asks_bind (filed_even filed_settled) fun _ => even_deferToolCall)) h2

theorem slots_fails (h : Slots formed k s) {p} (hp : Asks Even p) {e} {R} : Fills H formed R
      (do ExceptT.lift p; throw e : Task V T α) s :=
  safe_even (asks_lift hp) h fun _ _ h => lost_throw h

theorem even_finishStartedToolCall {answer} :
    Asks Even (finishStartedToolCall H prepared answer).run :=
  asks_try (filed_even (filed_telling (kept_requestWrapControl answer.2))) fun _ =>
    asks_try (asks_lift (filed_even filed_settled)) fun _ => even_finishToolCall

theorem slots_executeStarted (h : Slots formed (k+1) s) :
    Saves H formed k (executeStarted H tool prepared asked needed batch) s := by
  refine safe_execute h fun x _ h1 => ?_
  cases x with
  | error =>
    dsimp only [Program.bind,Function.comp_apply,ExceptT.bindCont]
    split
    next hr =>
      rw [(executionDeferral_some hr).2] at h1
      exact fills_then (slots_deferStarted h1) fun _ _ h => alone_ret h
    next hr =>
      exact slots_fails h1 (filed_even filed_failStartedToolCall)
  | ok => exact safe_even even_finishStartedToolCall h1 fun _ _ h => alone_ret h

theorem slots_executeToolSerially (h : Slots formed k s) :
    Saves H formed k (executeToolSerially H asked batch) s := by
  refine fills_then (slots_admitToolCall h) ?_
  rintro ⟨resolved,_⟩ _ h1
  cases resolved with
  | answered =>
    exact safe_even even_recoverToolCall h1 fun _ _ h => alone_ret h
  | deferred =>
    exact safe_even (asks_lift even_deferToolCall) h1 fun _ _ h => alone_ret h
  | tool =>
    refine safe_even (asks_lift (filed_even filed_startToolCall)) h1 fun _ _ h2 => ?_
    refine safe_even (filed_even (filed_orFail filed_recordStarted)) h2 fun _ _ h3 => ?_
    exact slots_executeStarted h3

theorem slots_executeToolsSerially (calls : List (ToolCall V)) (batch : Batch V)
    (h : Slots formed k s) : Saves H formed k (executeToolsSerially H calls batch) s := by
  induction calls generalizing s batch with
  | nil => exact safe_even (even_telling fun _ => rfl) h fun _ _ h => alone_ret h
  | cons _ _ ih =>
    exact fills_then (slots_executeToolSerially h) fun batch _ h => ih batch h

def AdmittedCall.slots : AdmittedCall V T → Nat
  | .execute _ _ _ _ => 1
  | .recovered _ _ => 0
  | .deferred _ => 0

def ToolSlot.slots : ToolSlot V T → Nat
  | .execute _ _ _ _ => 1
  | .recovered _ _ => 0
  | .deferred _ => 0

def FoldSlot.slots : FoldSlot V → Nat
  | .executed _ outcome => (runOutcome outcome).slots
  | .recovered _ _ => 0
  | .deferred _ => 0

variable {calls : List (ToolCall V)}

theorem slots_admitAll (h : Slots formed k s) :
    Fills H formed (fun admitted => Slots formed (k+(admitted.map AdmittedCall.slots).sum))
      (admitAll H calls) s := by
  induction calls generalizing k s with
  | nil => exact alone_ret h
  | cons _ _ ih =>
    refine fills_then (slots_admitToolCall h) ?_
    rintro ⟨resolved,_⟩ _ h1
    refine fills_then (ih h1) fun rest s2 h2 => alone_ret ?_
    have h2 : Slots formed (k+resolved.slots+(rest.map AdmittedCall.slots).sum) s2 := h2
    rw [Nat.add_assoc] at h2
    cases resolved <;> exact h2

theorem slots_announce (calls : List (AdmittedCall V T)) (started : List (PreparedToolCall V))
    (h : Slots formed k s) :
    Fills H formed (fun slots s' => Slots formed k s' ∧
      (slots.map ToolSlot.slots).sum = (calls.map AdmittedCall.slots).sum)
      (announce H calls started) s := by
  induction calls generalizing started s with
  | nil => exact alone_ret ⟨h,rfl⟩
  | cons call calls ih =>
    have hcons {started} {s1} slot
        (hslot : slot.slots = call.slots) (h1 : Slots formed k s1) :
        Fills H formed (fun slots s' => Slots formed k s' ∧
          (slots.map ToolSlot.slots).sum = ((call :: calls).map AdmittedCall.slots).sum)
          (do
            let slots ← announce H calls started
            return slot :: slots : Task V T _) s1 := by
      refine fills_then (ih started h1) ?_
      rintro _ _ ⟨h2,hs⟩
      refine alone_ret ⟨h2,?_⟩
      simp only [map_cons,sum_cons,hslot,hs]
    cases call with
    | recovered | deferred => exact hcons _ rfl h
    | execute =>
      refine safe_even (asks_lift (filed_even filed_startToolCall)) h fun _ s1 h1 => ?_
      refine safe_even (asks_lift (filed_even filed_recordStarted)) h1 fun x s2 h2 => ?_
      cases x with
      | error e => exact slots_fails h2 (filed_even (filed_failAll e _))
      | ok => exact hcons _ rfl h2

theorem slots_runAll {slots} (h : Slots formed (k+(slots.map ToolSlot.slots).sum) s) :
    Safe (Counting H formed) (fun folds => Slots formed (k+(folds.map FoldSlot.slots).sum))
      (runAll slots) s := by
  induction slots generalizing k s with
  | nil => exact alone_ret h
  | cons slot slots ih =>
    rw [map_cons,sum_cons] at h
    cases slot with
    | recovered | deferred =>
      rw [ToolSlot.slots,Nat.zero_add] at h
      refine safe_bind (fun folds s1 h1 => alone_ret ?_) (ih h)
      change Slots formed (k+(0+_)) s1
      rw [Nat.zero_add]
      exact h1
    | execute =>
      have hs : Slots formed (k+(slots.map ToolSlot.slots).sum+1) s := by
        rw [ToolSlot.slots,Nat.add_comm 1,← Nat.add_assoc] at h
        exact h
      refine safe_execute hs fun x s1 h1 => ?_
      rw [Nat.add_right_comm] at h1
      refine safe_bind (fun folds _ h2 => alone_ret ?_) (ih h1)
      rw [Nat.add_assoc] at h2
      exact h2

theorem even_abortSiblings {slots} : Asks Even (abortSiblings H slots) :=
  filed_even (filed_abortSiblings slots)

theorem slots_foldAll (slots : List (FoldSlot V)) (batch : Batch V)
    (h : Slots formed (k+(slots.map FoldSlot.slots).sum) s) :
    Saves H formed k (foldAll H slots batch) s := by
  induction slots generalizing s batch with
  | nil => exact safe_even (even_telling fun _ => rfl) h fun _ _ h => alone_ret h
  | cons slot slots ih =>
    rw [map_cons,sum_cons] at h
    cases slot with
    | recovered =>
      rw [FoldSlot.slots,Nat.zero_add] at h
      exact safe_even even_recoverToolCall h fun _ _ h => ih _ h
    | deferred =>
      rw [FoldSlot.slots,Nat.zero_add] at h
      exact safe_even (asks_lift even_deferToolCall) h fun _ _ h => ih _ h
    | executed _ outcome =>
      cases outcome with
      | error =>
        unfold foldAll
        dsimp only
        split
        next hr =>
          have hs : Slots formed (k+(slots.map FoldSlot.slots).sum+1) s := by
            rw [FoldSlot.slots,(executionDeferral_some hr).2,RunOutcome.slots,
              Nat.add_comm 1,← Nat.add_assoc] at h
            exact h
          exact fills_then (slots_deferStarted hs) fun _ _ h => ih _ h
        next hr =>
          refine safe_even (asks_lift (filed_even filed_failStartedToolCall)) h fun _ _ h1 => ?_
          exact slots_fails h1 even_abortSiblings
      | ok =>
        have hs : Slots formed (k+(slots.map FoldSlot.slots).sum) s := by
          change Slots formed (k+(0+_)) s at h
          rw [Nat.zero_add] at h
          exact h
        exact safe_even even_finishStartedToolCall hs fun _ _ h => ih _ h

theorem slots_executeToolsConcurrently (h : Slots formed k s) :
    Saves H formed k (executeToolsConcurrently H calls) s := by
  refine fills_then (slots_admitAll h) fun admitted _ h1 => ?_
  refine fills_then (slots_announce admitted [] h1) ?_
  rintro _ _ ⟨h2,hs⟩
  rw [← hs] at h2
  exact alone_lifted (slots_runAll h2) fun folds _ h => slots_foldAll folds _ h

theorem slots_executeTools (h : Slots formed k s) : Saves H formed k (executeTools H calls) s := by
  have hbatch {s} (h : Slots formed k s) : Saves H formed k (executeBatch H calls) s := by
    unfold executeBatch
    split
    · exact slots_executeToolsConcurrently h
    · exact slots_executeToolsSerially calls _ h
  refine safe_even (even_telling fun _ => rfl) h fun _ s1 h1 => ?_
  refine fills_then (hbatch h1) fun deferred _ h2 => ?_
  refine safe_even (filed_even (filed_telling (kept_settleBatchTermination _))) h2 fun _ _ h3 => ?_
  exact safe_even (even_telling fun _ => rfl) h3 fun _ _ h => alone_ret h

end

variable {H : AgentHarness V T}

theorem even_foldRecovered {result : ToolCall V → ToolResult V} (calls : List (ToolCall V))
    (batch : Batch V) :
    Asks Even (foldAll H (calls.map fun call => .recovered call (result call)) batch).run := by
  induction calls generalizing batch with
  | nil => exact asks_try (even_telling fun _ => rfl) fun _ => trivial
  | cons _ _ ih => exact asks_try even_recoverToolCall fun _ => ih _

theorem even_openTurn {turn} : Asks Even (openTurn H turn).run := by
  unfold openTurn
  dsimp only
  split_ifs
  · refine asks_try ?_ fun _ => trivial
    exact asks_try (even_foldRecovered turn.calls _) fun _ => even_telling fun _ => rfl
  · trivial
  · trivial
  · refine asks_try even_emit fun _ => asks_try (even_telling fun _ => rfl) fun _ => ?_
    split
    · exact asks_try (even_telling fun _ => rfl) fun _ => trivial
    · trivial

structure Walked (H : AgentHarness V T) (Q : ∀ α : Type, Task V T α → Prop) : Prop where
  even : ∀ {α} {p : Task V T α}, Asks Even p.run → Q α p
  seq : ∀ {α β} {p : Task V T α} {f : α → Task V T β}, Q α p → (∀ a, Q β (f a)) → Q β (p >>= f)
  serially : ∀ {asked batch}, Q _ (executeToolSerially H asked batch)
  tools : ∀ {calls}, Q _ (executeTools H calls)
  turn : Q _ (ask (request .modelTurn))

namespace Walked

variable {Q : ∀ α : Type, Task V T α → Prop} (w : Walked H Q)

include w

theorem tell {α : Type} {f} {next}
    (hf : ∀ c, ((f c).ran,(f c).toolCalls) = (c.ran,c.toolCalls)) (h : ∀ a, Q α (next a)) :
    Q α (telling f >>= next) :=
  w.seq (w.even (even_telling hf)) h

theorem answerPending {call result batch} : Q _ (answerPending H call result batch) :=
  w.even (asks_try even_recoverToolCall fun _ => trivial)

theorem runApproved {pending shown run batch} : Q _ (runApproved H pending shown run batch) :=
  w.tell (fun _ => rfl) fun _ => w.tell (fun _ => rfl) fun _ => w.serially

theorem applyDecision {pending call batch decision} :
    Q _ (applyDecision H pending call batch decision) := by
  cases decision with
  | deny => exact w.tell (fun _ => rfl) fun _ => w.answerPending
  | approveWithArgs | approve => exact w.runApproved

theorem applyAll (pending rest : List (ToolCall V)) (results : DeferredToolResults V)
    (batch : Batch V) : Q _ (applyAll H pending rest results batch) := by
  induction rest generalizing results batch with
  | nil => exact w.even trivial
  | cons call _ ih =>
    unfold AgentLoop.applyAll
    cases results.calls call.id with
    | some => exact w.seq w.answerPending fun _ => ih _ _
    | none =>
      cases results.approvals call.id with
      | none => exact w.even trivial
      | some => exact w.seq w.applyDecision fun _ => ih _ _

theorem applyDeferredResults {pending results} : Q _ (applyDeferredResults H pending results) := by
  unfold AgentLoop.applyDeferredResults
  dsimp only
  split
  · refine w.tell (fun _ => rfl) fun _ => ?_
    refine w.seq (w.even ⟨trivial,fun _ => trivial⟩) fun _ => ?_
    refine w.seq (w.applyAll pending pending results _) fun _ => w.even ?_
    refine asks_try (even_telling fun _ => rfl) fun _ => ?_
    exact asks_try (filed_even (filed_telling (kept_settleBatchTermination _))) fun _ => trivial
  · exact w.even trivial

theorem settleDeferred {deferred} : Q _ (settleDeferred H deferred) := by
  unfold AgentLoop.settleDeferred
  split
  · exact w.even trivial
  split
  · refine w.seq (w.even ⟨trivial,fun _ => trivial⟩) fun _ => ?_
    refine w.seq w.applyDeferredResults fun _ => w.even ?_
    split <;> trivial
  · exact w.even trivial

theorem unlessExit {settle next} (h : Q _ settle)
    (hn : Q _ next) : Q _ (unlessExit settle next) := by
  refine w.seq h fun exit => ?_
  cases exit with
  | some => exact w.even trivial
  | none => exact hn

theorem finishTurn {turn} : Q _ (finishTurn H turn) := by
  refine w.seq (w.even even_openTurn) fun calls => ?_
  cases calls with
  | none => exact w.even trivial
  | some => exact w.seq w.tools fun _ => w.settleDeferred

theorem runTurns {n : Nat} : Q _ (runTurns H n) := by
  induction n with
  | zero => exact w.even trivial
  | succ _ ih =>
    refine w.seq w.turn fun turn => ?_
    cases turn with
    | none => exact w.even trivial
    | some => exact w.unlessExit w.finishTurn ih

theorem runLoop {n : Nat} {results} : Q _ (runLoop H n results) := by
  cases results with
  | none => exact w.runTurns
  | some =>
    refine w.seq (w.even ⟨trivial,fun _ => trivial⟩) fun _ => w.seq (w.even trivial) fun _ => ?_
    exact w.seq w.applyDeferredResults fun _ => w.unlessExit w.settleDeferred w.runTurns

end Walked

theorem slots_runLoop {formed : Prop} {s : Counted V} (n : Nat)
    (results : Option (DeferredToolResults V)) (h : Slots formed 0 s) :
    Fills H formed (fun _ => Slots formed 0) (runLoop H n results) s := by
  have w : Walked H fun _ p => ∀ s, Slots formed 0 s → Saves H formed 0 p s := by
    constructor
    case even => exact fun hp _ h => slots_even hp h
    case seq => exact fun hp hf s h => fills_then (hp s h) hf
    case serially => exact fun _ h => slots_executeToolSerially h
    case tools => exact fun _ h => slots_executeTools h
    case turn =>
      intro s h
      refine alone_ask h fun x s1 ho => alone_ret ?_
      obtain ⟨hr,ht⟩ := apart_outcome ho.1 trivial
      have h1 : Slots formed 0 s1 := h.same hr ht ho.2.2
      cases x with
      | error => exact h1.lost
      | ok => exact h1
  exact w.runLoop s h

end Harness.AgentLoop
