import TinyAgents.Harness.ToolSlots

namespace Harness.AgentLoop

open Interaction

variable {V T : Type}

section

structure Gatekeeper (V T : Type) where
  rules : T → V → CallGate
  binds : T → V → T → Prop

variable {α : Type} (H : AgentHarness V T) (K : Gatekeeper V T)

def Passes (needed : Bool) (tool : T) (arguments : V) : Prop :=
  ∃ approval, K.rules tool arguments = .admits approval ∧ (approval = .required → needed = true)

structure Cleared (tool : T) (call : ToolCall V) (needed : Bool) : Prop where
  allowed : H.allowsName call.name = true
  registered : ∃ found, (H.modelDispatch call.name = some found ∨
    H.dispatch call.name = some found) ∧ (tool = found ∨ K.binds found call.arguments tool)
  passes : Passes K needed tool call.arguments
  targets : ∀ target arguments, H.admissionTarget tool = some (target,arguments) →
    Passes K needed target arguments

structure Strict : Prop where
  left : ∀ b, H.strictest .required b = .required
  right : ∀ a, H.strictest a .required = .required

def Ruled : (op : LoopOp V T) → LoopAns op → Prop
  | .rules tool arguments, x => ∀ gate, x = .ok gate → gate = K.rules tool arguments
  | .bindCall tool arguments, x => ∀ bound, x = some (some bound) → K.binds tool arguments bound
  | _, _ => True

def ClearGuard : LoopOp V T → Prop
  | .execute tool prepared _ needed => Cleared H K tool prepared.call needed
  | _ => True

abbrev Ruling : Logic (LoopOp V T) LoopAns Unit :=
  alone (fun op _ x _ => Ruled K op x) (fun op _ => ClearGuard H K op)

def IfOk (R : α → Prop) (x : Answer V α) (_ : Unit) : Prop := ∀ a, x = .ok a → R a

abbrev Clears (R : α → Prop) (p : Task V T α) : Prop :=
  Safe (Ruling H K) (IfOk R) p.run ()

variable {H : AgentHarness V T} {K : Gatekeeper V T} {α β : Type} {R : β → Prop}

theorem clear_ok {b : β} (h : R b) : Clears H K R (pure b : Task V T β) := by
  refine alone_ret ?_
  rintro _ ⟨⟩
  exact h

theorem clear_throw {e} : Clears H K R (throw e : Task V T β) :=
  alone_ret nofun

theorem clear_guard {op : LoopOp V T} (h : Even op) : ClearGuard H K op := by
  cases op with
  | execute => exact h.elim
  | _ => trivial

theorem clear_then {P : α → Prop} {p : Task V T α} {next} (hp : Clears H K P p)
    (h : ∀ a, P a → Clears H K R (next a)) : Clears H K R (p >>= next) :=
  alone_then hp (fun _ _ _ => nofun) fun a _ ha => h a (ha a rfl)

theorem clear_even {p : Loop V T α} (hp : Asks Even p) : Safe (Ruling H K) (fun _ _ => True) p () :=
  alone_keeps hp (fun _ _ hop => clear_guard hop)
    (fun _ _ _ _ _ _ _ => trivial) trivial

theorem clear_rest {p : Task V T α} {next} (hp : Asks Even p.run) (h : ∀ a, Clears H K R (next a)) :
    Clears H K R (p >>= next) :=
  alone_then (clear_even hp) (fun _ _ _ => nofun) fun a _ _ => h a

theorem clear_asking {op : LoopOp V T} {next} (hop : Even op)
    (h : ∀ x, Ruled K op x → Clears H K R (next x)) : Clears H K R (asking op >>= next) :=
  alone_lift (clear_guard hop) fun x _ ho => h x ho

theorem clear_rollback {next} (h : Clears H K R (next ())) :
    Clears H K R (telling RunContext.rollbackToolCall >>= next) :=
  alone_lift trivial fun _ _ _ => h

def CallGate.Grants (K : Gatekeeper V T) (H : AgentHarness V T) (tool : T) (arguments : V) :
    CallGate → Prop
  | .refuse _ => True
  | .admits approval => ∀ needed, (approval = .required → needed = true) →
      Passes K needed tool arguments ∧ ∀ target targetArguments,
        H.admissionTarget tool = some (target,targetArguments) →
          Passes K needed target targetArguments

variable {approval : ApprovalDirective} {tool : T} {call : ToolCall V} {modelArguments : V}

theorem clear_rules {arguments : V} :
    Clears H K (fun gate => gate = K.rules tool arguments)
      (ask (request (.rules tool arguments)) : Task V T CallGate) :=
  alone_ask trivial fun _ _ ho => alone_ret ho

def ResolvedToolCall.Clear (H : AgentHarness V T) (K : Gatekeeper V T)
    (r : ResolvedToolCall V T × ToolCall V) : Prop :=
  match r.1 with
  | .tool found needed => Cleared H K found r.2 needed
  | .answered _ => True
  | .deferred _ => True

theorem clear_slotless {p} (hp : Clears H K (fun r => r.slots = 0) p) :
    Clears H K (ResolvedToolCall.Clear H K)
      (do let answer ← p; return (answer,call) : Task V T _) := by
  refine clear_then hp fun answer h => clear_ok ?_
  cases answer with
  | tool => cases h
  | _ => trivial

theorem clear_refuses {callId message : String} : Clears H K (ResolvedToolCall.Clear H K)
      (do let answer ← refused callId message; return (answer,call) : Task V T _) :=
  clear_slotless (clear_rollback
    (clear_rest even_withRefusalMetadata fun _ => clear_ok rfl))

theorem needsApproval_required (h : approval = .required) (tool : T) :
    needsApproval H approval tool = true := by
  subst h
  rfl

theorem clear_gateToolCall
    (h : ∀ needed, (approval = .required → needed = true) → Cleared H K tool call needed) :
    Clears H K (ResolvedToolCall.Clear H K) (gateToolCall H tool approval modelArguments call) := by
  refine clear_asking trivial fun c _ => ?_
  dsimp only
  split
  · exact clear_rollback (clear_ok trivial)
  split
  · exact clear_rollback (clear_ok trivial)
  refine clear_rest (asks_mono even_of_still asks_authorizeToolCall) fun x => ?_
  cases x with
  | some => exact clear_rollback (clear_ok trivial)
  | none => exact clear_ok (h _ fun hr => needsApproval_required hr tool)

theorem clear_signalled {e} : Clears H K (ResolvedToolCall.Clear H K)
    (do let answer ← signalled H call e; return (answer,call) : Task V T _) := by
  refine clear_slotless ?_
  cases e with
  | approvalRequired | callDeferred => exact clear_ok rfl
  | toolFailed | modelRetry =>
    exact clear_rest even_withRefusalMetadata fun _ => clear_ok rfl
  | _ => exact clear_throw

theorem even_answerDiscoveryBridge : Asks Even (answerDiscoveryBridge H call).run := by
  unfold answerDiscoveryBridge
  split
  · refine asks_try ⟨trivial,fun _ => trivial⟩ fun found => ?_
    cases found with
    | answered =>
      exact asks_try (even_telling fun _ => rfl) fun _ =>
        asks_try even_emit fun _ => trivial
    | _ => trivial
  · trivial

variable (hs : Strict H)

include hs

theorem clear_admitDispatch {arguments : V} :
    Clears H K (CallGate.Grants K H tool arguments) (admitDispatch H tool arguments) := by
  refine clear_then clear_rules fun gate hgate => ?_
  cases gate with
  | refuse => exact clear_ok trivial
  | admits approval =>
    dsimp only
    split
    next hnone =>
      refine clear_ok fun needed hneeded => ⟨⟨approval,hgate.symm,hneeded⟩,?_⟩
      intro _ _ htarget
      rw [hnone] at htarget
      cases htarget
    next target targetArguments hsome =>
      refine clear_then clear_rules fun last hlast => ?_
      cases last with
      | refuse => exact clear_ok trivial
      | admits targetApproval =>
        refine clear_ok fun needed hneeded => ⟨⟨approval,hgate.symm,?_⟩,?_⟩
        · rintro rfl
          exact hneeded (hs.left _)
        intro _ _ htarget
        rw [hsome] at htarget
        cases htarget
        refine ⟨targetApproval,hlast.symm,?_⟩
        rintro rfl
        exact hneeded (hs.right _)

theorem clear_admitTool (hname : H.allowsName call.name = true)
    (hfound : H.modelDispatch call.name = some tool ∨ H.dispatch call.name = some tool) :
    Clears H K (ResolvedToolCall.Clear H K) (admitTool H tool approval modelArguments call) := by
  refine clear_asking trivial fun _ _ => ?_
  split
  · exact clear_throw
  · split
    · exact clear_throw
    · exact clear_ok trivial
  dsimp only
  split
  · split
    · exact clear_throw
    · exact clear_rest even_emit fun _ => clear_ok trivial
  refine clear_asking trivial fun bound hbound => ?_
  cases bound with
  | none => exact clear_throw
  | some bound =>
    refine clear_then (clear_admitDispatch hs) fun gate hgate => ?_
    cases gate with
    | refuse => exact clear_refuses
    | admits =>
      refine clear_gateToolCall fun needed hneeded => ?_
      obtain ⟨htool,htarget⟩ := hgate needed (by
        rintro rfl
        exact hneeded (hs.right _))
      refine ⟨hname,⟨tool,hfound,?_⟩,htool,htarget⟩
      cases bound with
      | none => exact .inl rfl
      | some bound => exact .inr (hbound bound rfl)

theorem clear_admitParsed :
    Clears H K (ResolvedToolCall.Clear H K) (admitParsed H approval modelArguments call) := by
  unfold admitParsed
  split
  next tool hfound =>
    obtain ⟨hname,hfound⟩ := Option.ite_none_right_eq_some.1 hfound
    dsimp only
    split
    · exact clear_rest even_emit fun _ => clear_admitTool hs hname (.inl hfound)
    · exact clear_admitTool hs hname (.inl hfound)
  · have htarget : Clears H K (fun target => ∀ found, target = some found →
        H.allowsName found.1 = true ∧ H.dispatch found.1 = some found.2.1)
        (rewriteTarget H call.arguments) := by
      unfold rewriteTarget
      split
      · split
        · exact clear_ok nofun
        next tool hfound =>
          refine clear_then clear_rules fun gate _ => ?_
          cases gate with
          | refuse => exact clear_ok nofun
          | admits =>
            refine clear_ok ?_
            rintro _ ⟨⟩
            exact Option.ite_none_right_eq_some.1 hfound
      · exact clear_ok nofun
    refine clear_then htarget fun target hfound => ?_
    cases target with
    | some target =>
      obtain ⟨hname,hdispatch⟩ := hfound target rfl
      exact clear_rest even_emit fun _ => clear_admitTool hs hname (.inr hdispatch)
    | none =>
      dsimp only
      split
      · exact clear_throw
      · exact clear_rest even_emit fun _ => clear_ok trivial

theorem clear_admitRepaired :
    Clears H K (ResolvedToolCall.Clear H K) (admitRepaired H approval modelArguments call) := by
  unfold admitRepaired
  split
  · exact clear_admitParsed hs
  split
  · exact clear_rest even_emit fun _ => clear_admitParsed hs
  · exact clear_rest even_emit fun _ => clear_ok trivial

theorem clear_admitByRules : Clears H K (ResolvedToolCall.Clear H K) (admitByRules H call) := by
  refine clear_rest (asks_mono even_of_still asks_ruleAdmission) fun gate => ?_
  cases gate with
  | refuse => exact clear_refuses
  | admits =>
    refine clear_asking trivial fun x _ => ?_
    obtain ⟨_,signal⟩ := x
    cases signal with
    | some => exact clear_rollback clear_signalled
    | none => exact clear_admitRepaired hs

theorem clear_admitToolCall : Clears H K (ResolvedToolCall.Clear H K) (admitToolCall H call) := by
  refine clear_asking trivial fun _ _ => ?_
  split
  · exact clear_throw
  refine clear_asking trivial fun _ _ => ?_
  split
  · exact clear_rest even_emit fun _ => clear_throw
  refine clear_asking trivial fun c _ => ?_
  refine clear_rest (even_telling fun _ => rfl) fun _ => ?_
  split
  · exact clear_ok trivial
  refine alone_lift trivial fun limit _ _ => ?_
  cases limit with
  | some => exact clear_rest even_emit fun _ => clear_throw
  | none =>
    refine clear_rest even_unwrapped fun call => ?_
    refine clear_rest even_answerDiscoveryBridge fun found => ?_
    cases found with
    | some => exact clear_ok trivial
    | none => exact clear_admitByRules hs

end

variable {H : AgentHarness V T} {K : Gatekeeper V T}

abbrev RunsCleared {α : Type} (H : AgentHarness V T) (K : Gatekeeper V T) (p : Task V T α) : Prop :=
  Clears H K (fun _ => True) p

theorem cleared_then {α β : Type} {p : Task V T α} {next : α → Task V T β} (hp : RunsCleared H K p)
    (h : ∀ a, RunsCleared H K (next a)) : RunsCleared H K (p >>= next) :=
  clear_then hp fun a _ => h a

theorem cleared_pure {α : Type} {a : α} : RunsCleared H K (pure a : Task V T α) :=
  clear_ok trivial

variable {batch : Batch V} {prepared : PreparedToolCall V} {call : ToolCall V}

theorem clear_deferStarted {request} {deferred} :
    Safe (Ruling H K) (fun _ _ => True) (deferStartedToolCall H prepared request deferred) () := by
  have hrest : Asks Even (do
      recordToolEffectSettled H prepared .deferred
      deferToolCall request deferred) :=
    asks_bind (filed_even filed_settled)
      fun _ => even_deferToolCall
  exact alone_ask trivial fun _ _ _ => alone_ask trivial fun _ _ _ => clear_even hrest

theorem cleared_executeStarted {tool : T} {asked : ToolCall V} {needed : Bool}
    (h : Cleared H K tool prepared.call needed) :
    RunsCleared H K (executeStarted H tool prepared asked needed batch) := by
  refine alone_lift h fun x _ _ => ?_
  cases x with
  | error =>
    dsimp only
    split
    · exact alone_lifted clear_deferStarted fun _ _ _ => cleared_pure
    · exact clear_rest (asks_lift (filed_even filed_failStartedToolCall)) fun _ => clear_throw
  | ok => exact clear_rest even_finishStartedToolCall fun _ => cleared_pure

theorem clear_startToolCall {preferMarkdown executed : Bool} :
    Safe (Ruling H K) (fun prepared _ => prepared.call = call)
      (startToolCall H call preferMarkdown executed) () :=
  alone_ask trivial fun _ _ _ => alone_ask trivial fun _ _ _ => alone_ret rfl

def AdmittedCall.Clear (H : AgentHarness V T) (K : Gatekeeper V T) : AdmittedCall V T → Prop
  | .execute tool call _ needed => Cleared H K tool call needed
  | _ => True

def ToolSlot.Clear (H : AgentHarness V T) (K : Gatekeeper V T) : ToolSlot V T → Prop
  | .execute tool prepared _ needed => Cleared H K tool prepared.call needed
  | _ => True

theorem clear_announce (calls : List (AdmittedCall V T)) (started : List (PreparedToolCall V))
    (h : ∀ x ∈ calls, x.Clear H K) :
    Clears H K (fun slots => ∀ x ∈ slots, x.Clear H K) (announce H calls started) := by
  induction calls generalizing started with
  | nil => exact clear_ok nofun
  | cons call calls ih =>
    obtain ⟨hcall,hcalls⟩ := List.forall_mem_cons.1 h
    have hcons started slot
        (hslot : slot.Clear H K) : Clears H K (fun slots => ∀ x ∈ slots, x.Clear H K) (do
          let slots ← announce H calls started
          return slot :: slots : Task V T _) :=
      clear_then (ih started hcalls) fun _ hrest =>
        clear_ok (List.forall_mem_cons.2 ⟨hslot,hrest⟩)
    cases call with
    | recovered | deferred => exact hcons _ _ trivial
    | execute =>
      refine alone_lifted clear_startToolCall ?_
      rintro _ _ rfl
      refine clear_rest (asks_lift (filed_even filed_recordStarted)) fun x => ?_
      cases x with
      | error e =>
        exact clear_rest (asks_lift (filed_even (filed_failAll e _))) fun _ => clear_throw
      | ok => exact hcons _ _ hcall

theorem clear_runAll {slots} (h : ∀ x ∈ slots, x.Clear H K) :
    Safe (Ruling H K) (fun _ _ => True) (runAll slots) () := by
  induction slots with
  | nil => exact alone_ret trivial
  | cons slot _ ih =>
    obtain ⟨hslot,hslots⟩ := List.forall_mem_cons.1 h
    cases slot with
    | execute =>
      refine alone_ask hslot fun _ _ _ => ?_
      exact safe_bind (fun _ _ _ => alone_ret trivial) (ih hslots)
    | _ => exact safe_bind (fun _ _ _ => alone_ret trivial) (ih hslots)

theorem cleared_foldAll (slots : List (FoldSlot V)) (batch : Batch V) :
    RunsCleared H K (foldAll H slots batch) := by
  induction slots generalizing batch with
  | nil => exact clear_rest (even_telling fun _ => rfl) fun _ => cleared_pure
  | cons slot _ ih =>
    cases slot with
    | recovered => exact clear_rest even_recoverToolCall fun _ => ih _
    | deferred =>
      exact clear_rest (asks_lift even_deferToolCall) fun _ => ih _
    | executed _ outcome =>
      cases outcome with
      | error =>
        unfold foldAll
        dsimp only
        split
        · exact alone_lifted clear_deferStarted fun _ _ _ => ih _
        · refine clear_rest (asks_lift (filed_even filed_failStartedToolCall)) fun _ => ?_
          exact clear_rest (asks_lift even_abortSiblings) fun _ => clear_throw
      | ok => exact clear_rest even_finishStartedToolCall fun _ => ih _

variable (hs : Strict H)

include hs

theorem cleared_executeToolSerially {asked : ToolCall V} :
    RunsCleared H K (executeToolSerially H asked batch) := by
  refine clear_then (clear_admitToolCall hs) ?_
  rintro ⟨resolved,_⟩ h
  cases resolved with
  | answered => exact clear_rest even_recoverToolCall fun _ => cleared_pure
  | deferred =>
    exact clear_rest (asks_lift even_deferToolCall) fun _ => cleared_pure
  | tool =>
    refine alone_lifted clear_startToolCall ?_
    rintro _ _ rfl
    refine clear_rest (filed_even (filed_orFail filed_recordStarted)) fun _ => ?_
    exact cleared_executeStarted h

theorem cleared_executeToolsSerially (calls : List (ToolCall V)) (batch : Batch V) :
    RunsCleared H K (executeToolsSerially H calls batch) := by
  induction calls generalizing batch with
  | nil => exact clear_rest (even_telling fun _ => rfl) fun _ => cleared_pure
  | cons _ _ ih => exact cleared_then (cleared_executeToolSerially hs) ih

theorem clear_admitAll {calls} :
    Clears H K (fun admitted => ∀ x ∈ admitted, x.Clear H K) (admitAll H calls) := by
  induction calls with
  | nil => exact clear_ok nofun
  | cons _ _ ih =>
    refine clear_then (clear_admitToolCall hs) ?_
    rintro ⟨resolved,_⟩ h
    refine clear_then ih fun _ hrest => clear_ok (List.forall_mem_cons.2 ⟨?_,hrest⟩)
    cases resolved with
    | tool => exact h
    | _ => trivial

theorem cleared_executeTools {calls} : RunsCleared H K (executeTools H calls) := by
  have hbatch : RunsCleared H K (executeBatch H calls) := by
    unfold executeBatch
    split
    · refine clear_then (clear_admitAll hs) fun admitted h => ?_
      refine clear_then (clear_announce admitted [] h) fun _ h => ?_
      exact alone_lifted (clear_runAll h) fun _ _ _ => cleared_foldAll _ _
    · exact cleared_executeToolsSerially hs calls _
  refine clear_rest (even_telling fun _ => rfl) fun _ => cleared_then hbatch fun deferred => ?_
  refine clear_rest (filed_even (filed_telling (kept_settleBatchTermination _))) fun _ => ?_
  exact clear_rest (even_telling fun _ => rfl) fun _ => cleared_pure

theorem cleared_runLoop {n : Nat} {results} : RunsCleared H K (runLoop H n results) := by
  have w : Walked H fun _ p => RunsCleared H K p := by
    constructor
    case even => exact fun hp => safe_mono (fun _ _ _ _ _ => trivial) (clear_even hp)
    case seq => exact cleared_then
    case serially => exact cleared_executeToolSerially hs
    case tools => exact cleared_executeTools hs
    case turn => exact alone_ask trivial fun _ _ _ => alone_ret fun _ _ => trivial
  exact w.runLoop

end Harness.AgentLoop
