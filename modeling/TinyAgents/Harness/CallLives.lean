import TinyAgents.Harness.ToolCalls

namespace Harness.AgentLoop

open Interaction List

variable {V T : Type} {H : AgentHarness V T}

section

inductive Mark where
  | started
  | ended
  deriving DecidableEq

def AgentEvent.mark (id : String) : AgentEvent V → Option Mark
  | .toolStarted callId _ _ => if callId = id then some .started else none
  | .toolCompleted callId _ _ _ _ _ _ | .toolFailed callId _ _ | .toolDeferred callId _ =>
    if callId = id then some .ended else none
  | _ => none

variable (c : RunContext V)

def RunContext.marks (id : String) : List Mark :=
  c.events.filterMap (AgentEvent.mark id)

@[simp] theorem marks_emit (event : AgentEvent V) (id : String) :
    (c.emit event).marks id = c.marks id++(event.mark id).toList := by
  simp only [RunContext.marks,RunContext.emit,filterMap_append,filterMap_cons,filterMap_nil]
  cases event.mark id <;> rfl

structure At (works : Prop) (c : RunContext V) (id : String) (marks : List Mark) (active : Nat)
    (effect : Option ToolEffectStatus) : Prop where
  marks : c.marks id = marks
  active : c.activeToolCalls.count id = active
  effect : works → c.effects id = effect

structure Frame (P : String → Prop) (c c' : RunContext V) : Prop where
  marks : ∀ j, ¬ P j → c'.marks j = c.marks j
  active : ∀ j, ¬ P j → c'.activeToolCalls.count j = c.activeToolCalls.count j
  effects : ∀ j, ¬ P j → c'.effects j = c.effects j
  events : c.events <+: c'.events
  approved : c'.approvedCalls = c.approvedCalls
  granted : c'.granted = c.granted
  turn : c'.turn = c.turn

structure Core (V : Type) where
  events : List (AgentEvent V)
  activeToolCalls : List String
  effects : String → Option ToolEffectStatus
  approvedCalls : List String
  granted : List (Granted V)
  turn : Nat
  ran : List (Ran V)
  stopped : List String

def RunContext.core : Core V :=
  ⟨c.events,c.activeToolCalls,c.effects,c.approvedCalls,c.granted,c.turn,c.ran,c.stopped⟩

namespace Frame

variable {P Q : String → Prop} {c c' c'' : RunContext V}

theorem refl (P : String → Prop) (c : RunContext V) : Frame P c c :=
  ⟨fun _ _ => rfl,fun _ _ => rfl,fun _ _ => rfl,prefix_refl _,rfl,rfl,rfl⟩

theorem trans (h : Frame P c c') (k : Frame P c' c'') : Frame P c c'' where
  marks := fun j hj => (k.marks j hj).trans (h.marks j hj)
  active := fun j hj => (k.active j hj).trans (h.active j hj)
  effects := fun j hj => (k.effects j hj).trans (h.effects j hj)
  events := h.events.trans k.events
  approved := k.approved.trans h.approved
  granted := k.granted.trans h.granted
  turn := k.turn.trans h.turn

theorem mono (h : Frame P c c') (hPQ : ∀ j, P j → Q j) : Frame Q c c' :=
  ⟨fun j hj => h.marks j fun hp => hj (hPQ j hp),fun j hj => h.active j fun hp => hj (hPQ j hp),
    fun j hj => h.effects j fun hp => hj (hPQ j hp),h.events,h.approved,h.granted,h.turn⟩

theorem at_ {works : Prop} {id : String} {ms : List Mark} {n : Nat} {e} (h : Frame P c c')
    (hid : ¬ P id) (ha : At works c id ms n e) : At works c' id ms n e :=
  ⟨(h.marks id hid).trans ha.marks,(h.active id hid).trans ha.active,
    fun hw => (h.effects id hid).trans (ha.effect hw)⟩

theorem core (h : Frame P c c') (hc : c''.core = c'.core) : Frame P c c'' := by
  obtain ⟨he,ha,hf,hp,hg,ht,-,-⟩ := Core.mk.inj hc
  refine ⟨?_,?_,?_,?_,hp.trans h.approved,hg.trans h.granted,ht.trans h.turn⟩
  · simpa only [RunContext.marks,he] using h.marks
  · simpa only [ha] using h.active
  · simpa only [hf] using h.effects
  · simpa only [he] using h.events

end Frame

variable {c c' : RunContext V}

theorem At.core {works : Prop} {id : String} {ms : List Mark} {n : Nat} {e}
    (h : At works c id ms n e) (hc : c'.core = c.core) : At works c' id ms n e := by
  obtain ⟨he,ha,hf,-⟩ := Core.mk.inj hc
  refine ⟨?_,?_,?_⟩
  · simpa only [RunContext.marks,he] using h.marks
  · simpa only [ha] using h.active
  · simpa only [hf] using h.effect

structure Quiet (c c' : RunContext V) : Prop where
  frame : Frame (fun _ => False) c c'
  ran : c'.ran = c.ran
  stopped : c'.stopped = c.stopped
  messages : c'.messages = c.messages

theorem quiet_refl (c : RunContext V) : Quiet c c :=
  ⟨Frame.refl _ c,rfl,rfl,rfl⟩

theorem Quiet.trans {c''} (h : Quiet c c') (k : Quiet c' c'') : Quiet c c'' :=
  ⟨h.frame.trans k.frame,k.ran.trans h.ran,k.stopped.trans h.stopped,
    k.messages.trans h.messages⟩

theorem Quiet.core {c''} (h : Quiet c c') (hc : c''.core = c'.core)
    (hm : c''.messages = c'.messages) : Quiet c c'' := by
  refine ⟨h.frame.core hc,?_,?_,hm.trans h.messages⟩
  · exact (congrArg Core.ran hc).trans h.ran
  · exact (congrArg Core.stopped hc).trans h.stopped

theorem Quiet.record (h : Quiet c c') : Quiet c c'.recordToolCall :=
  h.core rfl rfl

theorem Quiet.rollback (h : Quiet c c') : Quiet c c'.rollbackToolCall :=
  h.core rfl rfl

theorem Quiet.emit (h : Quiet c c') {event} (he : ∀ id, event.mark id = none) :
    Quiet c (c'.emit event) := by
  refine { h with frame := { h.frame with marks := fun j hj => ?_, events := ?_ } }
  · rw [marks_emit,he j,Option.toList_none,append_nil]
    exact h.frame.marks j hj
  · exact h.frame.events.trans (prefix_append _ _)

def KeepsId : (op : LoopOp V T) → LoopAns op → Prop
  | .beforeTool call, x => x.1.id = call.id
  | _, _ => True

def LedgerWorks (works : Prop) : (op : LoopOp V T) → LoopAns op → Prop
  | .ledgerStarted _ _ _, x | .ledgerSettled _ _, x => works → ∃ u, x = .ok u
  | _, _ => True

def running (works : Prop) (op : LoopOp V T) (c : RunContext V) (x : LoopAns op)
    (c' : RunContext V) : Prop :=
  LoopOutcome op c x c' ∧ KeepsId op x ∧ LedgerWorks works op x

def Guards (guard : ToolCall V → Bool → RunContext V → Prop) : LoopOp V T → RunContext V → Prop
  | .execute _ _ asked needed, c => guard asked needed c
  | _, _ => True

abbrev guarded (T : Type) (works : Prop) (guard : ToolCall V → Bool → RunContext V → Prop) :
    Logic (LoopOp V T) LoopAns (RunContext V) :=
  alone (running works) (Guards guard)

abbrev Lives {α : Type} (works : Prop) (guard : ToolCall V → Bool → RunContext V → Prop)
    (Q : Answer V α → RunContext V → Prop) (p : Task V T α) : RunContext V → Prop :=
  Safe (guarded T works guard) Q p.run

variable {works : Prop} {guard : ToolCall V → Bool → RunContext V → Prop} {α β : Type}

theorem safe_update {Q : α → RunContext V → Prop} {f : RunContext V → RunContext V}
    {next : Unit → Loop V T α} (h : Safe (guarded T works guard) Q (next ()) (f c)) :
    Safe (guarded T works guard) Q (update f >>= next) c := by
  refine alone_perform trivial fun x _ ho => ?_
  obtain ⟨rfl,-,-⟩ := ho
  exact h

variable {Q : Answer V α → RunContext V → Prop} {op : LoopOp V T}

theorem safe_telling {f : RunContext V → RunContext V} {next : Unit → Task V T α}
    (h : Lives works guard Q (next ()) (f c)) : Lives works guard Q (telling f >>= next) c :=
  safe_update h

def Still : LoopOp V T → Prop
  | .cancelled | .deadline | .discover _ | .rules _ _ | .beforeTool _
  | .refusalMetadata _ | .inject _ _ | .bindCall _ _ | .prepareAuthorization _ _
  | .authorize _ _ | .handle _ => True
  | _ => False

theorem still_outcome {x : LoopAns op} {c'} (hop : Still op) (h : running works op c x c') :
    c' = c := by
  cases op
  all_goals first | exact hop.elim | exact h.1

theorem still_guards (hop : Still op) : Guards guard op c := by
  cases op with
  | execute => exact hop.elim
  | _ => trivial

theorem safe_asking {next} (hop : Still op) (h : ∀ x, KeepsId op x →
    Lives works guard Q (next x) c) : Lives works guard Q (asking op >>= next) c := by
  refine alone_lift (still_guards hop) fun x _ ho => ?_
  obtain rfl := still_outcome hop ho
  exact h x ho.2.1

theorem safe_read {next : RunContext V → Task V T α} (h : Lives works guard Q (next c) c) :
    Lives works guard Q (asking .read >>= next) c := by
  refine alone_lift trivial fun x _ ho => ?_
  obtain ⟨⟨rfl,rfl⟩,-,-⟩ := ho
  exact h

theorem safe_ask {Q} {p} {next : α → Task V T β}
    (h : Safe (guarded T works guard) (fun x c' => match x with
      | .ok a => Lives works guard Q (next a) c'
      | .error e => Q (.error e) c') p c) : Lives works guard Q (ask p >>= next) c := by
  change Safe (guarded T works guard) Q (p >>= _) c
  refine safe_bind (fun x c' hx => ?_) h
  cases x with
  | ok => exact hx
  | error => exact alone_ret hx

variable {c0 : RunContext V} {asked call : ToolCall V}

def Admitted (c0 : RunContext V) (asked : ToolCall V)
    (r : Answer V (ResolvedToolCall V T × ToolCall V)) (c : RunContext V) : Prop :=
  Quiet c0 c ∧ ∀ resolved call, r = .ok (resolved,call) → call.id = asked.id ∧
    match resolved with
    | .tool _ needed => needed = true → asked.id ∈ c0.approvedCalls
    | .answered _ => True
    | .deferred request => request.call.id = asked.id

theorem admitted_error (hq : Quiet c0 c) (e : TinyAgentsError V) :
    Admitted (T := T) c0 asked (.error e) c :=
  ⟨hq,fun _ _ h => by cases h⟩

theorem admitted_answered (hq : Quiet c0 c) (hid : call.id = asked.id) {result} :
    Admitted (T := T) c0 asked (.ok (.answered result,call)) c := by
  refine ⟨hq,?_⟩
  rintro _ _ ⟨⟩
  exact ⟨hid,trivial⟩

theorem admitted_deferred (hq : Quiet c0 c) (hid : call.id = asked.id) {request}
    (hr : request.call.id = asked.id) :
    Admitted (T := T) c0 asked (.ok (.deferred request,call)) c := by
  refine ⟨hq,?_⟩
  rintro _ _ ⟨⟩
  exact ⟨hid,hr⟩

theorem safe_rests {α β : Type} {Q} {p : Task V T α} {next : α → Task V T β} (hp : Asks Still p.run)
    (he : ∀ e, Q (.error e) c) (h : ∀ a, Lives works guard Q (next a) c) :
    Lives works guard Q (p >>= next) c := by
  change Safe (guarded T works guard) Q (p.run >>= _) c
  refine safe_bind (fun x c' (hx : c' = c) => ?_) (alone_keeps hp (fun _ _ => still_guards)
    (fun _ _ _ _ hop hw ho => (still_outcome hop ho).trans hw) rfl)
  subst hx
  cases x with
  | ok a => exact h a
  | error e => exact alone_ret (he e)

variable {approval : ApprovalDirective} {tool : T} {arguments modelArguments : V}

theorem asks_admitDispatch : Asks Still (admitDispatch H tool arguments).run := by
  refine asks_try ⟨trivial,fun _ => trivial⟩ fun gate => ?_
  cases gate with
  | refuse => trivial
  | admits =>
    dsimp only
    split
    · trivial
    refine asks_try ⟨trivial,fun _ => trivial⟩ fun gate => ?_
    cases gate with
    | refuse | admits => trivial

theorem asks_ruleAdmission {name : String} : Asks Still (ruleAdmission H name arguments).run := by
  unfold ruleAdmission
  split
  · trivial
  · exact asks_admitDispatch

theorem asks_authorizeToolCall : Asks Still (authorizeToolCall H tool modelArguments call).run := by
  unfold authorizeToolCall
  split
  · refine asks_try ⟨trivial,fun _ => trivial⟩ fun prepared => ?_
    cases prepared with
    | some => trivial
    | none => exact ⟨trivial,fun _ => trivial⟩
  · trivial

theorem asks_rewriteTarget : Asks Still (rewriteTarget H arguments).run := by
  unfold rewriteTarget
  split
  · split
    · trivial
    refine asks_try ⟨trivial,fun _ => trivial⟩ fun gate => ?_
    cases gate with
    | refuse | admits => trivial
  · trivial

section

variable (hq : Quiet c0 c) (hid : call.id = asked.id)

include hq hid

theorem safe_gateToolCall :
    Lives works guard (Admitted c0 asked) (gateToolCall H tool approval modelArguments call) c := by
  refine safe_read ?_
  dsimp only
  split
  · exact safe_telling (alone_ret (admitted_deferred hq.rollback hid (by exact hid)))
  split
  · exact safe_telling (alone_ret (admitted_deferred hq.rollback hid (by exact hid)))
  next hneed =>
    refine safe_rests asks_authorizeToolCall (admitted_error hq) fun denied => ?_
    cases denied with
    | some => exact safe_telling (alone_ret (admitted_answered hq.rollback hid))
    | none =>
      refine alone_ret ⟨hq,?_⟩
      rintro _ _ ⟨⟩
      refine ⟨hid,fun hn => ?_⟩
      rw [← hq.frame.approved,← hid]
      rw [hn] at hneed
      simpa using hneed

theorem safe_admitTool :
    Lives works guard (Admitted c0 asked) (admitTool H tool approval modelArguments call) c := by
  refine safe_asking trivial fun _ _ => ?_
  split
  · exact alone_ret (admitted_error hq _)
  · split
    · exact alone_ret (admitted_error hq _)
    · exact alone_ret (admitted_answered hq hid)
  dsimp only
  split
  · split
    · exact alone_ret (admitted_error hq _)
    · exact safe_telling (alone_ret (admitted_answered (hq.emit fun _ => rfl) (by exact hid)))
  refine safe_asking trivial fun _ _ => ?_
  split
  · exact alone_ret (admitted_error hq _)
  refine safe_rests asks_admitDispatch (admitted_error hq) fun gate => ?_
  cases gate with
  | refuse =>
    refine safe_telling (safe_asking trivial fun _ _ => ?_)
    exact alone_ret (admitted_answered hq.rollback (by exact hid))
  | admits => exact safe_gateToolCall hq (by exact hid)

theorem safe_admitParsed :
    Lives works guard (Admitted c0 asked) (admitParsed H approval modelArguments call) c := by
  unfold admitParsed
  split
  · split
    · exact safe_telling (safe_admitTool (hq.emit fun _ => rfl) hid)
    · exact safe_admitTool hq hid
  refine safe_rests asks_rewriteTarget (admitted_error hq) fun _ => ?_
  split
  · exact safe_telling (safe_admitTool (hq.emit fun _ => rfl) (by exact hid))
  split
  · exact alone_ret (admitted_error hq _)
  · exact safe_telling (alone_ret (admitted_answered (hq.emit fun _ => rfl) hid))

theorem safe_admitRepaired :
    Lives works guard (Admitted c0 asked) (admitRepaired H approval modelArguments call) c := by
  unfold admitRepaired
  split
  · exact safe_admitParsed hq hid
  split
  · exact safe_telling (safe_admitParsed (hq.emit fun _ => rfl) (by exact hid))
  · exact safe_telling (alone_ret (admitted_answered (hq.emit fun _ => rfl) hid))

theorem safe_signalled {e} :
    Lives works guard (Admitted c0 asked)
      (do return (← signalled H call e,call) : Task V T _) c := by
  cases e with
  | approvalRequired | callDeferred => exact alone_ret (admitted_deferred hq hid (by exact hid))
  | toolFailed | modelRetry =>
    exact safe_asking trivial fun _ _ => alone_ret (admitted_answered hq hid)
  | _ => exact alone_ret (admitted_error hq _)

theorem safe_admitByRules : Lives works guard (Admitted c0 asked) (admitByRules H call) c := by
  refine safe_rests asks_ruleAdmission (admitted_error hq) fun gate => ?_
  cases gate with
  | refuse =>
    refine safe_telling (safe_asking trivial fun _ _ => ?_)
    exact alone_ret (admitted_answered hq.rollback hid)
  | admits =>
    refine safe_asking trivial fun x hx => ?_
    obtain ⟨hooked,e⟩ := x
    have hid : hooked.id = asked.id := Eq.trans hx hid
    cases e with
    | some => exact safe_telling (safe_signalled hq.rollback hid)
    | none => exact safe_admitRepaired hq hid

end

theorem safe_answerDiscoveryBridge (hq : Quiet c0 c) :
    Lives works guard (fun _ => Quiet c0) (answerDiscoveryBridge H call) c := by
  unfold answerDiscoveryBridge
  split
  · refine safe_ask (alone_ask trivial fun x c' ho => ?_)
    obtain rfl : c' = c := ho.1
    refine alone_ret ?_
    cases x with
    | error => exact hq
    | ok found =>
      cases found with
      | absent | refused => exact alone_ret hq
      | answered =>
        refine safe_telling (safe_telling (alone_ret (Quiet.emit ?_ fun _ => rfl)))
        exact hq.core rfl rfl
  · exact alone_ret hq

theorem safe_unwrapped (hq : Quiet c0 c) :
    Lives works guard (fun x c' => Quiet c0 c' ∧ ∀ found, x = .ok found → found.id = call.id)
      (unwrapped H call) c := by
  unfold unwrapped
  split
  · refine safe_telling (alone_ret ⟨hq.emit fun _ => rfl,?_⟩)
    rintro _ ⟨⟩
    rfl
  refine alone_ret ⟨hq,?_⟩
  rintro _ ⟨⟩
  rfl

theorem safe_admitToolCall : Lives works guard (Admitted c asked) (admitToolCall H asked) c := by
  have hq := quiet_refl c
  refine safe_asking trivial fun _ _ => ?_
  split
  · exact alone_ret (admitted_error hq _)
  refine safe_asking trivial fun _ _ => ?_
  split
  · exact safe_telling (alone_ret (admitted_error (hq.emit fun _ => rfl) _))
  refine safe_read (safe_telling ?_)
  have hq : Quiet c { c with batchAdmissions := c.batchAdmissions+1 } := hq.core rfl rfl
  split
  · exact alone_ret (admitted_answered hq rfl)
  refine alone_lift trivial fun _ c1 ho => ?_
  obtain ⟨rfl,-,-⟩ := ho
  have hq := hq.record
  split
  · exact safe_telling (alone_ret (admitted_error (hq.emit fun _ => rfl) _))
  refine alone_then (safe_unwrapped hq) (fun e _ h => admitted_error h.1 e) ?_
  rintro call _ ⟨hq,hid⟩
  have hid := hid call rfl
  refine alone_then (safe_answerDiscoveryBridge hq) (fun e _ h => admitted_error h e) ?_
  intro found _ hq
  cases found with
  | some => exact alone_ret (admitted_answered hq hid)
  | none => exact safe_admitByRules hq hid

variable {prepared : PreparedToolCall V}

@[simp] theorem count_activate (c : RunContext V) (id j : String) :
    (c.activate id).activeToolCalls.count j =
      c.activeToolCalls.count j+(if id = j then 1 else 0) := by
  simp [RunContext.activate,count_append,count_singleton]

@[simp] theorem count_release (c : RunContext V) (id j : String) :
    (c.releaseActiveToolCall id).activeToolCalls.count j =
      c.activeToolCalls.count j-(if id = j then 1 else 0) := by
  simp [RunContext.releaseActiveToolCall,count_erase]

@[simp] theorem marks_activate (c : RunContext V) (id j : String) :
    (c.activate id).marks j = c.marks j := rfl

@[simp] theorem marks_release (c : RunContext V) (id j : String) :
    (c.releaseActiveToolCall id).marks j = c.marks j := rfl

def Alone (id : String) : String → Prop := (· = id)

variable {id : String}

theorem frame_emit {event} (he : ∀ j, j ≠ id → event.mark j = none) :
    Frame (Alone id) c (c.emit event) :=
  { Frame.refl (Alone id) c with
    marks := fun j hj => by simp [he j hj]
    events := prefix_append _ _ }

theorem frame_activate {id : String} : Frame (Alone id) c (c.activate id) := by
  refine { Frame.refl (Alone id) c with active := fun j hj => ?_ }
  simp [show id ≠ j from fun h => hj h.symm]

theorem frame_release {id : String} : Frame (Alone id) c (c.releaseActiveToolCall id) := by
  refine { Frame.refl (Alone id) c with active := fun j hj => ?_ }
  simp [show id ≠ j from fun h => hj h.symm]

theorem frame_effect {id : String} {status} : Frame (Alone id) c (c.effect id status) :=
  { Frame.refl (Alone id) c with effects := fun _ hj => Function.update_of_ne hj _ _ }

structure Held (id : String) (c c' : RunContext V) : Prop where
  frame : Frame (Alone id) c c'
  ran : c'.ran = c.ran
  stopped : c'.stopped = c.stopped

theorem held_refl {id : String} : Held id c c :=
  ⟨Frame.refl _ c,rfl,rfl⟩

theorem Held.trans {c' c''} (h : Held id c c') (k : Held id c' c'') : Held id c c'' :=
  ⟨h.frame.trans k.frame,k.ran.trans h.ran,k.stopped.trans h.stopped⟩

theorem Held.core {c' c''} (h : Held id c c') (hc : c''.core = c'.core) : Held id c c'' :=
  ⟨h.frame.core hc,(congrArg Core.ran hc).trans h.ran,(congrArg Core.stopped hc).trans h.stopped⟩

structure Halted (id : String) (c c' : RunContext V) : Prop where
  frame : Frame (Alone id) c c'
  ran : c'.ran = c.ran
  stopped : c'.stopped = c.stopped++[id]

def rowAfter (H : AgentHarness V T) (status : ToolEffectStatus) (row : Option ToolEffectStatus) :
    Option ToolEffectStatus :=
  if H.ledger.isSome then some status else row

section

variable {id : String} {ms : List Mark} {n : Nat} {e : Option ToolEffectStatus}

theorem at_ended {event} (h : At works c id ms (n+1) e)
    (he : event.mark id = some .ended) :
    At works ((c.releaseActiveToolCall id).emit event) id (ms++[.ended]) n e where
  marks := by simpa [he] using h.marks
  active := by simp [RunContext.emit,h.active]
  effect := h.effect

variable {result : ToolResult V}

theorem held_ended {event} (he : ∀ j, j ≠ id → event.mark j = none) :
    Held id c ((c.releaseActiveToolCall id).emit event) :=
  ⟨(frame_release).trans (frame_emit he),rfl,rfl⟩

theorem safe_startToolCall {call : ToolCall V} (h : At works c call.id ms n e)
    {preferMarkdown executed : Bool} :
    Safe (guarded T works guard) (fun prepared c' => prepared.call = call ∧
      At works c' call.id (ms++[.started]) (n+1) e ∧ Held call.id c c')
      (startToolCall H call preferMarkdown executed) c := by
  refine safe_update (safe_update (alone_ret ⟨rfl,⟨?_,?_,h.effect⟩,?_,rfl,rfl⟩))
  · simpa [AgentEvent.mark] using h.marks
  · simpa [RunContext.emit] using h.active
  refine (frame_activate).trans (frame_emit (fun j hj => ?_))
  simp [AgentEvent.mark,Ne.symm hj]

variable {β : Type} {Q : Answer V β → RunContext V → Prop}

def Finished {α : Type} (works : Prop) (id : String) (ms : List Mark) (n : Nat)
    (e : Option ToolEffectStatus) (c : RunContext V) (x : Answer V α) (c' : RunContext V) : Prop :=
  At works c' id ms n e ∧ match x with
    | .ok _ => Held id c c'
    | .error _ => Halted id c c'

theorem Finished.after {α : Type} {c'} {x : Answer V α} {c''} (hh : Held id c c')
    (h : Finished works id ms n e c' x c'') : Finished works id ms n e c x c'' := by
  refine ⟨h.1,?_⟩
  obtain ⟨-,h⟩ := h
  cases x with
  | ok => exact hh.trans h
  | error => exact ⟨hh.frame.trans h.frame,h.ran.trans hh.ran,by rw [h.stopped,hh.stopped]⟩

theorem core_requestControl {control} : (c.requestControl control).core = c.core := by
  unfold RunContext.requestControl
  split_ifs <;> rfl

theorem core_applyToolControl : (applyToolControl H prepared result c).core = c.core := by
  unfold applyToolControl
  split
  · rfl
  dsimp only
  split
  · exact core_requestControl.trans (by split_ifs <;> rfl)
  · split_ifs <;> rfl

section

variable (h : At works c prepared.call.id ms (n+1) e)

include h

theorem safe_failToolCall {error : TinyAgentsError V} :
    Safe (guarded T works guard) (fun _ c' => At works c' prepared.call.id (ms++[.ended]) n e ∧
      Held prepared.call.id c c') (failToolCall H prepared error) c := by
  refine safe_update (alone_perform trivial fun x c' ho => ?_)
  obtain ⟨rfl,-,-⟩ := ho
  refine alone_ret ⟨at_ended h (by simp [AgentEvent.mark]),held_ended (fun j hj => ?_)⟩
  simp [AgentEvent.mark,Ne.symm hj]

theorem safe_orFail {α : Type} {p} {next : α → Task V T β}
    (hp : Safe (guarded T works guard) (fun x c' => c' = c.stopOn prepared.call.id x) p c)
    (hok : ∀ a, Lives works guard Q (next a) c)
    (herr : ∀ error c', At works c' prepared.call.id (ms++[.ended]) n e →
      Halted prepared.call.id c c' → Q (.error error) c') :
    Lives works guard Q (orFail H prepared p >>= next) c := by
  refine alone_then (P := fun x c' => match x with
    | .ok _ => c' = c
    | .error _ => At works c' prepared.call.id (ms++[.ended]) n e ∧ Halted prepared.call.id c c')
    (safe_bind (fun x c' hx => ?_) hp) (fun error c' hx => herr error c' hx.1 hx.2) ?_
  · subst hx
    cases x with
    | ok => exact alone_ret rfl
    | error error =>
      have hstopped : At works (c.stopOn prepared.call.id (.error error : Answer V α))
        prepared.call.id ms (n+1) e := { h with }
      refine safe_bind ?_ (safe_failToolCall hstopped)
      rintro _ _ ⟨ha,hf,hr,hs⟩
      exact alone_ret ⟨ha,{ hf with },hr,hs⟩
  · rintro a _ rfl
    exact hok a

theorem safe_finishToolCall :
    Lives works guard (Finished works prepared.call.id (ms++[.ended]) n e c)
      (finishToolCall H prepared result) c := by
  have hstop {α : Type} (error : TinyAgentsError V) (c' : RunContext V)
      (ha : At works c' prepared.call.id (ms++[.ended]) n e) (hh : Halted prepared.call.id c c') :
      Finished works prepared.call.id (ms++[.ended]) n e c (.error error : Answer V α) c' :=
    ⟨ha,hh⟩
  refine safe_orFail h (alone_ask trivial fun x c' ho => alone_ret ho.1) (fun result => ?_) hstop
  refine alone_then (P := fun x c' => match x with
    | .ok _ => c' = c
    | .error error => Finished works prepared.call.id (ms++[.ended]) n e c
        (.error error : Answer V Unit) c') ?_ (fun error c' hx => hx) ?_
  · unfold screened
    split
    · refine safe_orFail h (alone_ask trivial fun x c' ho => alone_ret ho.1) ?_ hstop
      intro outcome
      cases outcome with
      | pass | redacted | block => exact alone_ret rfl
    · exact alone_ret rfl
  rintro result c' rfl
  refine safe_orFail h (alone_ask trivial fun x c' ho => alone_ret ho.1) (fun _ => ?_) hstop
  refine safe_telling (safe_telling (safe_telling (safe_telling (safe_telling (alone_ret ?_)))))
  have hdone (c1 : RunContext V) (hc : c1.core = c'.core) : Finished works prepared.call.id
      (ms++[.ended]) n e c' (.ok (followUpMessage (classified H prepared result).followUp))
      ((c1.releaseActiveToolCall prepared.call.id).emit
        (completedEvent H prepared (classified H prepared result))) := by
    refine ⟨at_ended (h.core hc) (by simp [completedEvent,AgentEvent.mark]),?_⟩
    refine ((held_refl).core hc).trans (held_ended (fun j hj => ?_))
    simp [completedEvent,AgentEvent.mark,Ne.symm hj]
  obtain ⟨ha,hh⟩ := hdone { applyToolControl H prepared (classified H prepared result) c' with
    run := countToolCall H prepared (classified H prepared result)
      (applyToolControl H prepared (classified H prepared result) c').run }
    core_applyToolControl
  exact ⟨ha.core rfl,hh.core rfl⟩

end

theorem safe_settled (h : At works c prepared.call.id ms n e) (status : ToolEffectStatus) :
    Safe (guarded T works guard)
      (fun _ c' => At works c' prepared.call.id ms n (rowAfter H status e) ∧
      Held prepared.call.id c c') (recordToolEffectSettled H prepared status) c := by
  unfold recordToolEffectSettled rowAfter
  cases H.ledger with
  | none => exact alone_ret ⟨h,held_refl⟩
  | some =>
    refine alone_perform trivial fun x c' ho => alone_ret ?_
    obtain ⟨rfl | ⟨rfl,_,rfl⟩,-,hworks⟩ := ho
    · exact ⟨⟨h.marks,h.active,fun _ => Function.update_self _ _ _⟩,frame_effect,rfl,rfl⟩
    refine ⟨⟨h.marks,h.active,fun hw => ?_⟩,held_refl⟩
    obtain ⟨u,hu⟩ := hworks hw
    cases hu

theorem safe_recordStarted (h : At works c prepared.call.id ms n e) :
    Safe (guarded T works guard)
      (fun x c' => At works c' prepared.call.id ms n (rowAfter H .started e) ∧
        Held prepared.call.id c c' ∧ (works → x = .ok ()))
      (recordToolEffectStarted H prepared) c := by
  unfold recordToolEffectStarted rowAfter
  cases H.ledger with
  | none => exact alone_ret ⟨h,held_refl,fun _ => rfl⟩
  | some failure =>
    refine alone_perform trivial fun x c' ho => ?_
    obtain ⟨ho,-,hworks⟩ := ho
    have hheld : Held prepared.call.id c c' := by
      obtain rfl | ⟨rfl,-⟩ := ho
      · exact ⟨frame_effect,rfl,rfl⟩
      · exact held_refl
    have hat (hw : ∀ error, x = .error error → ¬ works) :
        At works c' prepared.call.id ms n (some .started) := by
      obtain rfl | ⟨rfl,error,rfl⟩ := ho
      · exact ⟨h.marks,h.active,fun _ => Function.update_self _ _ _⟩
      · exact ⟨h.marks,h.active,fun hworks => (hw error rfl hworks).elim⟩
    have hno error (hx : x = .error error) : ¬ works := by
      intro hw
      obtain ⟨u,hu⟩ := hworks hw
      rw [hx] at hu
      cases hu
    cases x with
    | ok => exact alone_ret ⟨hat hno,hheld,fun _ => rfl⟩
    | error error =>
      cases failure with
      | abort => exact alone_ret ⟨hat hno,hheld,fun hw => (hno error rfl hw).elim⟩
      | «continue» => exact alone_ret ⟨hat hno,hheld,fun _ => rfl⟩

theorem safe_recoverToolCall {call : ToolCall V} (h : At works c call.id ms n e) :
    Lives works guard (Finished works call.id (ms++[.started,.ended]) n e c)
      (recoverToolCall H call result) c := by
  refine alone_lifted (safe_startToolCall h) ?_
  rintro _ _ ⟨rfl,ha,hh⟩
  have hms : ms++[.started,.ended] = (ms++[.started])++[.ended] := by simp
  rw [hms]
  exact safe_mono (fun _ _ => Finished.after hh) (safe_finishToolCall ha)

variable {request : DeferredRequest V}

theorem safe_deferToolCall (h : At works c request.call.id ms n e)
    {deferred : DeferredToolRequests V} :
    Safe (guarded T works guard) (fun d c' => d = deferred.add request ∧
      At works c' request.call.id (ms++[.ended]) n e ∧ Held request.call.id c c')
      (deferToolCall (T := T) request deferred) c := by
  refine safe_update (alone_ret ⟨rfl,⟨?_,h.active,h.effect⟩,frame_emit (fun j hj => ?_),rfl,rfl⟩)
  · simp [AgentEvent.mark,h.marks]
  · simp [AgentEvent.mark,Ne.symm hj]

section

variable (h : At works c prepared.call.id ms (n+1) e)

include h

theorem safe_deferStartedToolCall (hr : request.call = prepared.call)
    {deferred : DeferredToolRequests V} :
    Safe (guarded T works guard) (fun d c' => d = deferred.add request ∧
      At works c' prepared.call.id (ms++[.ended]) n (rowAfter H .deferred e) ∧
      Held prepared.call.id c c') (deferStartedToolCall H prepared request deferred) c := by
  have hreleased : At works (c.releaseActiveToolCall prepared.call.id) prepared.call.id ms n e :=
    ⟨h.marks,by simp [h.active],h.effect⟩
  have hrolled : At works (c.releaseActiveToolCall prepared.call.id).rollbackToolCall
      prepared.call.id ms n e := hreleased.core rfl
  refine safe_update (safe_update (safe_bind ?_ (safe_settled hrolled .deferred)))
  rintro _ _ ⟨ha,hh⟩
  rw [← hr] at ha hh
  refine safe_mono ?_ (safe_deferToolCall ha)
  rintro _ _ ⟨hd,ha2,hh2⟩
  rw [hr] at ha2 hh2 hh
  refine ⟨hd,ha2,?_⟩
  have hrelease : Held prepared.call.id c (c.releaseActiveToolCall prepared.call.id) :=
    ⟨frame_release,rfl,rfl⟩
  have hroll : Held prepared.call.id c
      (c.releaseActiveToolCall prepared.call.id).rollbackToolCall := hrelease.core rfl
  exact (hroll.trans hh).trans hh2

theorem safe_finishStartedToolCall {answer} :
    Lives works guard (Finished works prepared.call.id (ms++[.ended]) n (rowAfter H .completed e) c)
      (finishStartedToolCall H prepared answer) c := by
  obtain ⟨result,control⟩ := answer
  have hcore : (requestWrapControl control c).core = c.core := by
    cases control with
    | none => rfl
    | some => exact core_requestControl
  refine safe_telling (alone_lifted (safe_settled (h.core hcore) .completed) ?_)
  rintro _ c1 ⟨ha,hh⟩
  have hheld : Held prepared.call.id c c1 := ((held_refl).core hcore).trans hh
  exact safe_mono (fun _ _ => Finished.after hheld) (safe_finishToolCall ha)

theorem safe_failStartedToolCall {error} :
    Safe (guarded T works guard)
      (fun _ c' => At works c' prepared.call.id (ms++[.ended]) n (rowAfter H .failed e) ∧
      Held prepared.call.id c c') (failStartedToolCall H prepared error) c := by
  refine safe_bind ?_ (safe_settled h .failed)
  rintro _ _ ⟨ha,hh⟩
  exact safe_mono (fun _ _ h => h.imp_right hh.trans) (safe_failToolCall ha)

end

end

end

structure Script where
  stops : String → Bool := fun _ => false
  fails : String → Bool := fun _ => false
  turns : List (List (ToolCall Unit)) := []
  results : DeferredToolResults Unit := {}
  followUps : String → List (ToolContent Unit) := fun _ => []

def AgentHarness.plain (approvalRequired : String → Bool) : AgentHarness Unit String where
  runId := "run"
  dispatch := some
  modelDispatch := some
  get := some
  unwrapWrappedCall := fun _ _ => none
  allowsName := fun _ => true
  isDeferred := fun _ => false
  unknownToolMessage := fun _ _ => ""
  strictest := fun approval _ => approval
  admissionTarget := fun _ => none
  isExternal := fun _ => false
  approvalRequired := approvalRequired
  display := fun _ => none
  injectsArguments := fun _ => false
  isConcurrencySafe := fun _ _ => true
  returnDirect := fun _ => false
  preferMarkdown := fun _ _ => false
  recoverObject := fun _ => none
  normalize := fun _ arguments => arguments
  validateCall := fun _ _ => none
  signature := fun _ => ""
  unknownTool := .returnToolError
  invalidArgs := .returnToolError
  captureToolIo := false
  hosted := false
  classify := none
  ledger := some .abort
  wrapsConcurrentSafe := true
  hasHandler := true
  failed := .error
  retry := .error
  outputForLlm := fun _ _ => ""
  errorText := fun _ => ""
  idempotencyKey := fun _ _ => ""
  argsDigest := fun _ => ""
  failureClass := fun _ => ""

def Script.answer {α : Type} (fails : String → Bool) (id : String) (a : α) : Answer Unit α :=
  if fails id then .error (.other "scripted") else .ok a

def Script.perform (s : Script) :
    (op : LoopOp Unit String) → RunContext Unit → Option (LoopAns op × RunContext Unit)
  | .read, c => some (c,c)
  | .update f, c => some ((),f c)
  | .cancelled, c => some (false,c)
  | .deadline, c => some (false,c)
  | .recordToolCall, c => some (none,c.recordToolCall)
  | .discover _, c => some (.ok .absent,c)
  | .rules _ _, c => some (.ok (.admits .default),c)
  | .beforeTool call, c => some ((call,none),c)
  | .refusalMetadata _, c => some (none,c)
  | .inject _ call, c => some (.ready call.arguments,c)
  | .bindCall _ _, c => some (some none,c)
  | .prepareAuthorization _ _, c => some (.ok none,c)
  | .authorize _ _, c => some (.ok none,c)
  | .ledgerStarted callId _ _, c => some (.ok (),c.effect callId .started)
  | .ledgerSettled callId status, c => some (.ok (),c.effect callId status)
  | .execute _ _ asked needed, c =>
    let x := answer s.fails asked.id ({ followUp := s.followUps asked.id },none)
    some (x,{ c with ran := c.ran++[⟨c.turn,asked,needed,runOutcome x⟩] })
  | .afterTool callId _ result, c =>
    let x := answer s.stops callId result
    some (x,c.stopOn callId x)
  | .screenInput _ _, c => some (.ok .pass,c)
  | .outputScreened _ _ _ _, c => some (.ok (),c)
  | .handle _, c => some (.ok s.results,c)
  | .modelTurn, c =>
    match s.turns[c.turn]? with
    | some calls => some (.ok (some { calls := calls }),{ c with
        turn := c.turn+1, messages := c.messages++[.assistant calls]
        truncatedCallPositions := [], truncatedRepeatPositions := [] })
    | none => some (.ok none,c)

theorem Script.perform_runs (s : Script) {works : Prop} (op : LoopOp Unit String)
    (c : RunContext Unit) (x : LoopAns op) (c' : RunContext Unit)
    (h : s.perform op c = some (x,c')) : running works op c x c' := by
  cases op with
  | ledgerStarted | ledgerSettled =>
    cases h
    exact ⟨.inl rfl,trivial,fun _ => ⟨(),rfl⟩⟩
  | read =>
    cases h
    exact ⟨⟨rfl,rfl⟩,trivial,trivial⟩
  | beforeTool =>
    cases h
    exact ⟨rfl,rfl,trivial⟩
  | modelTurn =>
    simp only [Script.perform] at h
    split at h <;> cases h <;> exact ⟨rfl,trivial,trivial⟩
  | _ =>
    cases h
    exact ⟨rfl,trivial,trivial⟩

theorem Script.play_any {α : Type} (s : Script) {works : Prop} (p : Loop Unit String α)
    (check : RunContext Unit → Bool) (h : (p.play s.perform {}).any (fun x => check x.2)) :
    ∃ a c, Executes (running works) p {} a c ∧ check c := by
  obtain ⟨⟨a,c⟩,hplay,hc⟩ := (Option.any_eq_true _ _).1 h
  exact ⟨a,c,Program.executes_of_play s.perform_runs hplay,hc⟩

end Harness.AgentLoop
