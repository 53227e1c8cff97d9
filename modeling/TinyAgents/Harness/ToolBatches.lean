import Mathlib.Data.List.Forall2
import Mathlib.Data.List.Nodup
import TinyAgents.Harness.CallLives

namespace Harness.AgentLoop

open Interaction List

variable {V T : Type} {H : AgentHarness V T} {works : Prop}
  {guard : ToolCall V → Bool → RunContext V → Prop}

def rowOf : RunOutcome → ToolEffectStatus
  | .returned => .completed
  | .deferred => .deferred
  | .failed => .failed

abbrev ids (calls : List (ToolCall V)) : List String := calls.map ToolCall.id

def Runs (new : List (Ran V)) (call : ToolCall V) : Prop := ∃ x ∈ new, x.asked.id = call.id

def GoesOn (new : List (Ran V)) (call : ToolCall V) : Prop :=
  ∀ x ∈ new, x.asked = call → x.outcome ≠ .failed

section

variable (H : AgentHarness V T) (works : Prop) (c0 c : RunContext V) (new : List (Ran V))
  (call : ToolCall V) (id : String)

structure Closes : Prop where
  marks : ∃ new, c.marks id = c0.marks id++new ∧ (.started ∈ new → new = [.started,.ended])
  active : c.activeToolCalls.count id = c0.activeToolCalls.count id

structure SameAt : Prop where
  marks : c.marks id = c0.marks id
  active : c.activeToolCalls.count id = c0.activeToolCalls.count id
  effect : c.effects id = c0.effects id

def StandsAt (new : List Mark) (active : Nat) (row : Option ToolEffectStatus) : Prop :=
  At works c id (c0.marks id++new) (c0.activeToolCalls.count id+active) row

def Opened : Prop := StandsAt works c0 c id [.started] 1 (rowAfter H .started (c0.effects id))

structure Ended : Prop where
  closes : Closes c0 c call.id
  row : works → ¬ Runs new call ∧ c.effects call.id = c0.effects call.id ∨ ∃ x ∈ new,
    x.asked = call ∧ c.effects call.id = rowAfter H (rowOf x.outcome) (c0.effects call.id)

def Idle : Prop := ¬ Runs new call ∧ SameAt c0 c call.id

def AbortedAt : Prop :=
  Idle c0 c new call ∨ Runs new call ∧ Closes c0 c call.id ∧
    (works → c.effects call.id = rowAfter H .failed (c0.effects call.id))

inductive Ending (pre rest : List (ToolCall V)) : Prop where
  | finished (hs : c.stopped = c0.stopped) (hrest : ∀ call ∈ rest, Idle c0 c new call)
  | aborted (x : Ran V) (hlast : pre.getLast? = some x.asked) (hx : x ∈ new)
      (hfailed : x.outcome = .failed) (hs : c.stopped = c0.stopped)
      (hrest : ∀ call ∈ rest, AbortedAt H works c0 c new call)
  | halted (last : ToolCall V) (hlast : pre.getLast? = some last)
      (hs : c.stopped = c0.stopped++[last.id])
      (hrest : ∀ call ∈ rest, Idle c0 c new call ∨ Runs new call ∧ Opened H works c0 c call.id)

def SlotAs : ToolSlot V T → Prop
  | .execute _ prepared asked needed => asked = call ∧ prepared.call.id = call.id ∧
      (needed = true → call.id ∈ c0.approvedCalls) ∧ Opened H works c0 c call.id
  | .recovered found _ => found.id = call.id ∧ SameAt c0 c call.id
  | .deferred request => request.call.id = call.id ∧ SameAt c0 c call.id

def FoldAs : FoldSlot V → Prop
  | .executed prepared outcome => prepared.call.id = call.id ∧ Opened H works c0 c call.id ∧
      ∃ x ∈ new, x.asked = call ∧ x.outcome = runOutcome outcome
  | .recovered found _ => found.id = call.id ∧ Idle c0 c new call
  | .deferred request => request.call.id = call.id ∧ Idle c0 c new call

end

section

variable {c0 c c' : RunContext V} {id : String}

theorem StandsAt.closes {new : List Mark} {row} (h : StandsAt works c0 c id new 0 row)
    (hn : .started ∈ new → new = [.started,.ended]) : Closes c0 c id :=
  ⟨⟨new,h.marks,hn⟩,h.active⟩

theorem SameAt.closes (h : SameAt c0 c id) : Closes c0 c id :=
  ⟨⟨[],by simpa using h.marks,by simp⟩,h.active⟩

theorem at_self (works : Prop) (c : RunContext V) (id : String) :
    At works c id (c.marks id) (c.activeToolCalls.count id) (c.effects id) :=
  ⟨rfl,rfl,fun _ => rfl⟩

theorem Frame.sameAt {P} (h : Frame P c c') (hid : ¬ P id) : SameAt c c' id :=
  ⟨h.marks id hid,h.active id hid,h.effects id hid⟩

theorem Frame.only {l} (h : Frame (Alone id) c c') : Frame (· ∈ id :: l) c c' :=
  h.mono fun j hj => by simp [show j = id from hj]

theorem Frame.cons {l} {c1} (h : Frame (Alone id) c c1) (k : Frame (· ∈ l) c1 c') :
    Frame (· ∈ id :: l) c c' :=
  h.only.trans (k.mono fun _ => mem_cons_of_mem _)

theorem SameAt.trans {c''} (h : SameAt c c' id) (k : SameAt c' c'' id) : SameAt c c'' id :=
  ⟨k.marks.trans h.marks,k.active.trans h.active,k.effect.trans h.effect⟩

theorem Closes.same (h : Closes c0 c id) (k : SameAt c c' id) : Closes c0 c' id :=
  ⟨by rw [k.marks]; exact h.marks,k.active.trans h.active⟩

structure Logged (calls : List (ToolCall V)) (c c' : RunContext V) (new : List (Ran V)) : Prop where
  ran : c'.ran = c.ran++new
  frame : Frame (· ∈ ids calls) c c'
  own : ∀ x ∈ new, x.asked ∈ calls ∧ x.turn = c.turn ∧
    (x.needed = true → x.asked.id ∈ c.approvedCalls)
  once : (new.map fun x => x.asked.id).Nodup

structure Outcome (H : AgentHarness V T) (works : Prop) (calls : List (ToolCall V))
    (c0 c : RunContext V) (new : List (Ran V)) : Prop where
  parts : ∃ pre rest, calls = pre++rest ∧ (∀ call ∈ pre, Ended H works c0 c new call) ∧
    (∀ call ∈ pre.dropLast, GoesOn new call) ∧ Ending H works c0 c new pre rest

variable {call : ToolCall V} {new : List (Ran V)}

theorem Ended.same (h : Ended H works c0 c new call) (k : SameAt c c' call.id) :
    Ended H works c0 c' new call :=
  ⟨h.closes.same k,by rw [k.effect]; exact h.row⟩

theorem Ended.base (h : Ended H works c c' new call) (k : SameAt c0 c call.id) :
    Ended H works c0 c' new call := by
  refine ⟨⟨?_,h.closes.active.trans k.active⟩,?_⟩
  · rw [← k.marks]
    exact h.closes.marks
  · rw [← k.effect]
    exact h.row

variable {more : List (Ran V)}

theorem runs_append : Runs (new++more) call ↔ Runs new call ∨ Runs more call := by
  simp only [Runs,mem_append,or_and_right,exists_or]

theorem Ended.mono (h : Ended H works c0 c new call) (hs : new ⊆ more)
    (hr : Runs more call → Runs new call) : Ended H works c0 c more call := by
  refine ⟨h.closes,fun hw => ?_⟩
  rcases h.row hw with ⟨hn,he⟩ | ⟨x,hx,hc,he⟩
  · exact .inl ⟨fun h => hn (hr h),he⟩
  · exact .inr ⟨x,hs hx,hc,he⟩

theorem Outcome.earlier {calls} (h : Outcome H works calls c0 c more)
    (hn : ∀ call ∈ calls, ¬ Runs new call) : Outcome H works calls c0 c (new++more) := by
  obtain ⟨pre,rest,rfl,hpre,hgoes,hending⟩ := h.parts
  have hidle {call : ToolCall V} (hc : call ∈ rest) (h : Idle c0 c more call) :
      Idle c0 c (new++more) call :=
    ⟨fun hr => (runs_append.1 hr).elim (hn call (mem_append_right _ hc)) h.1,h.2⟩
  refine ⟨pre,rest,rfl,fun call hc => (hpre call hc).mono (subset_append_right ..)
    fun hr => (runs_append.1 hr).resolve_left (hn call (mem_append_left _ hc)),?_,?_⟩
  · intro call hc x hx hasked
    rcases mem_append.1 hx with hx | hx
    · have hmem := mem_append_left rest (dropLast_subset pre hc)
      exact (hn call hmem ⟨x,hx,by rw [hasked]⟩).elim
    · exact hgoes call hc x hx hasked
  cases hending with
  | finished hs hrest => exact .finished hs fun call hc => hidle hc (hrest call hc)
  | aborted x hl hx hfailed hs hrest =>
    refine .aborted x hl (mem_append_right _ hx) hfailed hs fun call hc => ?_
    exact (hrest call hc).imp (hidle hc) fun h => ⟨runs_append.2 (.inr h.1),h.2⟩
  | halted last hl hs hrest =>
    refine .halted last hl hs fun call hc => ?_
    exact (hrest call hc).imp (hidle hc) fun h => ⟨runs_append.2 (.inr h.1),h.2⟩

theorem Ending.cons {pre rest} (h : Ending H works c0 c new pre rest) (first : ToolCall V) :
    Ending H works c0 c new (first :: pre) rest := by
  have hlast {call} (h : pre.getLast? = some call) : (first :: pre).getLast? = some call := by
    rw [List.getLast?_cons,h]
    rfl
  cases h with
  | finished hs hrest => exact .finished hs hrest
  | aborted x hl hx hfailed hs hrest => exact .aborted x (hlast hl) hx hfailed hs hrest
  | halted last hl hs hrest => exact .halted last (hlast hl) hs hrest

theorem Outcome.cons {calls} (h : Outcome H works calls c0 c new)
    (hended : Ended H works c0 c new call) (hgo : GoesOn new call) :
    Outcome H works (call :: calls) c0 c new := by
  obtain ⟨pre,rest,rfl,hpre,hgoes,hending⟩ := h.parts
  refine ⟨call :: pre,rest,rfl,forall_mem_cons.2 ⟨hended,hpre⟩,?_,hending.cons call⟩
  cases pre with
  | nil => simp
  | cons =>
    rw [dropLast_cons_cons]
    exact forall_mem_cons.2 ⟨hgo,hgoes⟩

end

def DeferredToolRequests.tally (deferred : DeferredToolRequests V) (id : String) : Nat :=
  (ids deferred.approvals).count id+(ids deferred.calls).count id

def DefersOnly (js : List String) (d d' : DeferredToolRequests V) : Prop :=
  ∀ j, d'.tally j ≤ d.tally j+js.count j

variable {d : DeferredToolRequests V}

theorem defersOnly_refl {js} : DefersOnly js d d :=
  fun _ => Nat.le_add_right _ _

theorem defersOnly_add {request} : DefersOnly [request.call.id] d (d.add request) := by
  intro j
  unfold DeferredToolRequests.add DeferredToolRequests.tally
  cases request.kind with
  | approval | external =>
    simp only [ids,map_append,count_append,map_cons,map_nil]
    omega

def Batched (H : AgentHarness V T) (works : Prop) (c0 : RunContext V) (calls : List (ToolCall V))
    (deferred : DeferredToolRequests V) (c : RunContext V) (x : Answer V (DeferredToolRequests V))
    (c' : RunContext V) : Prop :=
  (∀ d, x = .ok d → DefersOnly (ids calls) deferred d) ∧
    ∃ new, Logged calls c c' new ∧ Outcome H works calls c0 c' new

theorem DefersOnly.cons {id : String} {js} {d' d''} (h : DefersOnly [id] d d')
    (k : DefersOnly js d' d'') : DefersOnly (id :: js) d d'' := by
  intro j
  have hj := h j
  have kj := k j
  rw [count_cons] at hj ⊢
  rw [count_nil] at hj
  omega

section

variable {c : RunContext V}

structure Passed (H : AgentHarness V T) (works : Prop) (asked : ToolCall V) (c : RunContext V)
    (fails : Prop) (c' : RunContext V) (new : List (Ran V)) : Prop where
  ran : c'.ran = c.ran++new
  frame : Frame (Alone asked.id) c c'
  ended : Ended H works c c' new asked
  own : ∀ x ∈ new, x.asked = asked ∧ x.turn = c.turn ∧
    (x.needed = true → asked.id ∈ c.approvedCalls)
  once : new.length ≤ 1
  goes : ∀ x ∈ new, x.outcome = .failed → fails
  stopped : c'.stopped = c.stopped ∨ fails ∧ c'.stopped = c.stopped++[asked.id]

variable {new : List (Ran V)} {fails : Prop} {c' : RunContext V} {asked call : ToolCall V}

theorem passed_idle {new : List Mark} (hf : Frame (Alone asked.id) c c') (hr : c'.ran = c.ran)
    (ha : StandsAt works c c' asked.id new 0 (c.effects asked.id))
    (hn : .started ∈ new → new = [.started,.ended])
    (hs : c'.stopped = c.stopped ∨ fails ∧ c'.stopped = c.stopped++[asked.id]) :
    Passed H works asked c fails c' [] where
  ran := by simpa using hr
  frame := hf
  ended := ⟨ha.closes hn,fun hw => .inl ⟨by simp [Runs],ha.effect hw⟩⟩
  own := by simp
  once := by simp
  goes := by simp
  stopped := hs

theorem rowAfter_rowAfter (status status' : ToolEffectStatus) (row : Option ToolEffectStatus) :
    rowAfter H status (rowAfter H status' row) = rowAfter H status row := by
  unfold rowAfter
  split <;> rfl

def Fails {α : Type} (x : Answer V α) : Prop := ∃ e, x = .error e

theorem executionDeferral_some {e} {request} (h : executionDeferral call e = some request) :
    request.call = call ∧ ∀ {α : Type}, runOutcome (.error e : Answer V α) = .deferred := by
  cases e with
  | approvalRequired | callDeferred =>
    cases h
    exact ⟨rfl,rfl⟩
  | _ => cases h

theorem executionDeferral_none {e} (h : executionDeferral call e = none) {α : Type} :
    runOutcome (.error e : Answer V α) = .failed := by
  cases e with
  | approvalRequired | callDeferred => cases h
  | _ => rfl

section

variable {ms : List Mark} {n : Nat} {e : Option ToolEffectStatus} {prepared : PreparedToolCall V}

theorem safe_executeStarted (h : At works c prepared.call.id ms (n+1) e) {tool : T} {needed : Bool}
    (hg : guard asked needed c) {batch : Batch V} :
    Lives works guard (fun x c' => (∀ b, x = .ok b → DefersOnly [prepared.call.id] batch.1 b.1) ∧
      ∃ outcome, At works c' prepared.call.id (ms++[.ended]) n (rowAfter H (rowOf outcome) e) ∧
      Frame (Alone prepared.call.id) c c' ∧ c'.ran = c.ran++[⟨c.turn,asked,needed,outcome⟩] ∧
      (outcome = .failed → Fails x) ∧
      (c'.stopped = c.stopped ∨ Fails x ∧ c'.stopped = c.stopped++[prepared.call.id]))
      (executeStarted H tool prepared asked needed batch) c := by
  refine alone_lift hg fun x _ ho => ?_
  obtain ⟨rfl,-,-⟩ := ho
  have hframe : Frame (Alone prepared.call.id) c
      { c with ran := c.ran++[⟨c.turn,asked,needed,runOutcome x⟩] } :=
    ⟨fun _ _ => rfl,fun _ _ => rfl,fun _ _ => rfl,prefix_refl _,rfl,rfl,rfl⟩
  have hat : At works { c with ran := c.ran++[⟨c.turn,asked,needed,runOutcome x⟩] }
      prepared.call.id ms (n+1) e := ⟨h.marks,h.active,h.effect⟩
  cases x with
  | error error =>
    dsimp only
    split
    next hr =>
      obtain ⟨hcall,hout⟩ := executionDeferral_some hr
      refine alone_lifted (safe_deferStartedToolCall hat hcall) ?_
      rintro _ _ ⟨rfl,ha,hh⟩
      refine alone_ret ⟨?_,.deferred,ha,hframe.trans hh.frame,by rw [hh.ran,hout],nofun,
        .inl hh.stopped⟩
      rintro _ ⟨⟩
      rw [← hcall]
      exact defersOnly_add
    next hr =>
      refine alone_lifted (safe_failStartedToolCall hat) ?_
      rintro _ _ ⟨ha,hh⟩
      exact alone_ret ⟨nofun,.failed,ha,hframe.trans hh.frame,
        by rw [hh.ran,executionDeferral_none hr],fun _ => ⟨error,rfl⟩,.inl hh.stopped⟩
  | ok =>
    refine alone_then (safe_finishStartedToolCall hat) ?_ ?_
    · rintro error _ ⟨ha,hh⟩
      exact ⟨nofun,.returned,ha,hframe.trans hh.frame,hh.ran,nofun,.inr ⟨⟨error,rfl⟩,hh.stopped⟩⟩
    rintro _ _ ⟨ha,hh⟩
    refine alone_ret ⟨?_,.returned,ha,hframe.trans hh.frame,hh.ran,nofun,.inl hh.stopped⟩
    rintro _ ⟨⟩
    exact defersOnly_refl

theorem safe_orFail_recordStarted (h : At works c prepared.call.id ms (n+1) e) :
    Lives works guard (fun x c' => Held prepared.call.id c c' ∧ match x with
      | .ok _ => At works c' prepared.call.id ms (n+1) (rowAfter H .started e)
      | .error _ => At works c' prepared.call.id (ms++[.ended]) n e)
      (orFail H prepared (recordToolEffectStarted H prepared)) c := by
  refine safe_bind ?_ (safe_recordStarted h)
  rintro x _ ⟨ha,hh,hw⟩
  cases x with
  | ok => exact alone_ret ⟨hh,ha⟩
  | error =>
    refine safe_bind ?_ (safe_failToolCall ha)
    rintro _ _ ⟨ha2,hh2⟩
    refine alone_ret ⟨hh.trans hh2,ha2.marks,ha2.active,fun hworks => ?_⟩
    cases hw hworks

end

def Lets (guard : ToolCall V → Bool → RunContext V → Prop) (c : RunContext V) (call : ToolCall V) :
    Prop :=
  ∀ needed c', (needed = true → call.id ∈ c.approvedCalls) → c'.ran = c.ran →
    c'.granted = c.granted → c'.turn = c.turn → guard call needed c'

theorem safe_executeToolSerially (hlets : Lets guard c asked) {batch : Batch V} :
    Lives works guard (fun x c' => (∀ b, x = .ok b → DefersOnly [asked.id] batch.1 b.1) ∧
      ∃ new, Passed H works asked c (Fails x) c' new) (executeToolSerially H asked batch) c := by
  refine alone_then safe_admitToolCall ?_ ?_
  · rintro e _ ⟨hq,-⟩
    have hat := hq.frame.at_ (fun h => h) (at_self works c asked.id)
    rw [← append_nil (c.marks asked.id)] at hat
    exact ⟨nofun,[],passed_idle (hq.frame.mono fun _ => False.elim) hq.ran hat (by simp)
      (.inl hq.stopped)⟩
  rintro ⟨resolved,call⟩ c1 ⟨hq,hr⟩
  obtain ⟨hid,hres⟩ := hr resolved call rfl
  have hframe : Frame (Alone asked.id) c c1 := hq.frame.mono fun _ => False.elim
  have hat : At works c1 call.id (c.marks asked.id) (c.activeToolCalls.count asked.id)
      (c.effects asked.id) := by
    rw [hid]
    exact hq.frame.at_ (fun h => h) (at_self works c asked.id)
  cases resolved with
  | answered =>
    refine alone_then (safe_recoverToolCall hat) ?_ ?_
    · rintro e _ ⟨ha,hh⟩
      rw [hid] at ha hh
      exact ⟨nofun,[],passed_idle (hframe.trans hh.frame) (hh.ran.trans hq.ran) ha (fun _ => rfl)
        (.inr ⟨⟨e,rfl⟩,by rw [hh.stopped,hq.stopped]⟩)⟩
    · rintro _ _ ⟨ha,hh⟩
      rw [hid] at ha hh
      refine alone_ret ⟨?_,[],passed_idle (hframe.trans hh.frame) (hh.ran.trans hq.ran) ha
        (fun _ => rfl) (.inl (hh.stopped.trans hq.stopped))⟩
      rintro _ ⟨⟩
      exact defersOnly_refl
  | deferred =>
    rw [hid,← hres] at hat
    refine alone_lifted (safe_deferToolCall hat) ?_
    rintro _ _ ⟨rfl,ha,hh⟩
    rw [hres] at ha hh
    refine alone_ret ⟨?_,[],passed_idle (hframe.trans hh.frame) (hh.ran.trans hq.ran) ha (by simp)
      (.inl (hh.stopped.trans hq.stopped))⟩
    rintro _ ⟨⟩
    rw [← hres]
    exact defersOnly_add
  | tool _ needed =>
    refine alone_lifted (safe_startToolCall hat) ?_
    rintro _ c2 ⟨rfl,ha,hh⟩
    have hheld : Held asked.id c c2 :=
      ⟨hframe.trans (hid ▸ hh.frame),hh.ran.trans hq.ran,hh.stopped.trans hq.stopped⟩
    refine alone_then (safe_orFail_recordStarted ha) ?_ ?_
    · rintro _ _ ⟨hh3,ha3⟩
      rw [hid] at ha3 hh3
      have hheld := hheld.trans hh3
      rw [append_assoc] at ha3
      exact ⟨nofun,[],passed_idle hheld.frame hheld.ran ha3 (fun _ => rfl) (.inl hheld.stopped)⟩
    · rintro _ c3 ⟨hh3,ha3⟩
      have hheld := hheld.trans (hid ▸ hh3)
      have hg := hlets needed c3 hres hheld.ran hheld.frame.granted hheld.frame.turn
      refine safe_mono ?_ (safe_executeStarted ha3 hg)
      rintro x _ ⟨hdefers,_,ha4,hf4,hran,hgo,hstop⟩
      rw [hid] at ha4 hf4 hstop hdefers
      rw [rowAfter_rowAfter,append_assoc] at ha4
      rw [hheld.ran,hheld.frame.turn] at hran
      rw [hheld.stopped] at hstop
      refine ⟨hdefers,_,hran,hheld.frame.trans hf4,?_,?_,by simp,?_,hstop⟩
      · refine ⟨StandsAt.closes ha4 fun _ => rfl,fun hw => ?_⟩
        exact .inr ⟨_,mem_singleton_self _,rfl,ha4.effect hw⟩
      · exact forall_mem_singleton.2 ⟨rfl,rfl,hres⟩
      · exact forall_mem_singleton.2 hgo

theorem Passed.logged (h : Passed H works asked c fails c' new) (rest : List (ToolCall V)) :
    Logged (asked :: rest) c c' new where
  ran := h.ran
  frame := h.frame.only
  own := fun x hx => by
    obtain ⟨hc,ht,_⟩ := h.own x hx
    exact ⟨by simp [hc],ht,by rwa [hc]⟩
  once := by
    obtain _ | ⟨x,_ | ⟨y,more⟩⟩ := new
    · simp
    · simp
    · simpa using h.once

theorem Passed.logged_cons {c1} {more} {rest}
    (h : Passed H works asked c fails c1 new) (k : Logged rest c1 c' more)
    (hm : ¬ Runs more asked) : Logged (asked :: rest) c c' (new++more) where
  ran := by rw [k.ran,h.ran,append_assoc]
  frame := h.frame.cons k.frame
  own := fun x hx => by
    rcases mem_append.1 hx with hx | hx
    · exact (h.logged rest).own x hx
    obtain ⟨hc,ht,hn⟩ := k.own x hx
    refine ⟨mem_cons_of_mem _ hc,ht.trans h.frame.turn,fun hneed => ?_⟩
    rw [← h.frame.approved]
    exact hn hneed
  once := by
    rw [map_append]
    refine nodup_append.2 ⟨(h.logged rest).once,k.once,?_⟩
    intro _ hid _ hother he
    obtain ⟨x,hx,rfl⟩ := mem_map.1 hid
    obtain ⟨y,hy,rfl⟩ := mem_map.1 hother
    exact hm ⟨y,hy,by rw [← he,(h.own x hx).1]⟩

theorem not_runs_of_ne {first : ToolCall V} (h : ∀ x ∈ new, x.asked = first)
    (hne : call.id ≠ first.id) : ¬ Runs new call := by
  rintro ⟨x,hx,hid⟩
  rw [h x hx] at hid
  exact hne hid.symm

def Frees (guard : ToolCall V → Bool → RunContext V → Prop) (approved : List String)
    (call : ToolCall V) : Prop :=
  ∀ needed c, (needed = true → call.id ∈ approved) → guard call needed c

theorem safe_executeToolsSerially {c0} :
    ∀ {calls} {c}, (ids calls).Nodup → (∀ call ∈ calls, SameAt c0 c call.id) →
    c.stopped = c0.stopped → (∀ call ∈ calls, Frees guard c.approvedCalls call) → ∀ batch : Batch V,
    Lives works guard (Batched H works c0 calls batch.1 c)
      (executeToolsSerially H calls batch) c := by
  intro calls
  induction calls with
  | nil =>
    intro c _ _ hs _ _
    refine safe_telling (alone_ret ⟨?_,[],⟨by simp,?_,by simp,by simp⟩,[],[],rfl,by simp,by simp,
      .finished hs (by simp)⟩)
    · rintro _ ⟨⟩
      exact defersOnly_refl
    · exact (Frame.refl _ c).core rfl
  | cons call rest ih =>
    intro c hnd hsame hs hfree _
    obtain ⟨hfresh,hnd⟩ := nodup_cons.1 hnd
    have hne {other} (ho : other ∈ rest) : other.id ≠ call.id := by
      intro he
      exact hfresh (he ▸ mem_map_of_mem ho)
    have hlets : Lets guard c call := fun needed c' hn _ _ _ =>
      hfree call mem_cons_self needed c' hn
    refine alone_then (safe_executeToolSerially hlets) ?_ ?_
    · rintro e c1 ⟨-,new,hp⟩
      have hidle other (ho : other ∈ rest) : Idle c0 c1 new other :=
        ⟨not_runs_of_ne (fun x hx => (hp.own x hx).1) (hne ho),
          (hsame other (mem_cons_of_mem _ ho)).trans (hp.frame.sameAt (hne ho))⟩
      refine ⟨nofun,new,hp.logged rest,[call],rest,rfl,?_,by simp,?_⟩
      · intro other ho
        obtain rfl := mem_singleton.1 ho
        exact hp.ended.base (hsame other mem_cons_self)
      rcases hp.stopped with hstop | ⟨-,hstop⟩
      · exact .finished (hstop.trans hs) hidle
      · exact .halted call rfl (by rw [hstop,hs]) fun other ho => .inl (hidle other ho)
    · rintro next c1 ⟨hd,new,hp⟩
      have hstop : c1.stopped = c0.stopped := by
        rcases hp.stopped with hstop | ⟨⟨e,he⟩,-⟩
        · exact hstop.trans hs
        · cases he
      have hsame1 other (ho : other ∈ rest) : SameAt c0 c1 other.id :=
        (hsame other (mem_cons_of_mem _ ho)).trans (hp.frame.sameAt (hne ho))
      have hfree1 other (ho : other ∈ rest) : Frees guard c1.approvedCalls other := by
        rw [hp.frame.approved]
        exact hfree other (mem_cons_of_mem _ ho)
      refine safe_mono ?_ (ih hnd hsame1 hstop hfree1 next)
      rintro _ _ ⟨hds,more,hl,ho⟩
      have hmore : ¬ Runs more call := by
        rintro ⟨x,hx,hid⟩
        exact hne (hl.own x hx).1 hid
      refine ⟨fun d hx => (hd next rfl).cons (hds d hx),new++more,hp.logged_cons hl hmore,
        (ho.earlier ?_).cons ?_ ?_⟩
      · exact fun other ho => not_runs_of_ne (fun x hx => (hp.own x hx).1) (hne ho)
      · have hended := hp.ended.base (hsame call mem_cons_self)
        exact (hended.same (hl.frame.sameAt hfresh)).mono (subset_append_left ..)
          fun hr => (runs_append.1 hr).resolve_right hmore
      intro x hx hasked hfailed
      rcases mem_append.1 hx with hx | hx
      · obtain ⟨e,he⟩ := hp.goes x hx hfailed
        cases he
      · exact hmore ⟨x,hx,by rw [hasked]⟩

end

def AdmitsAs (approved : List String) (call : ToolCall V) : AdmittedCall V T → Prop
  | .execute _ admitted asked needed => asked = call ∧ admitted.id = call.id ∧
      (needed = true → call.id ∈ approved)
  | .recovered admitted _ => admitted.id = call.id
  | .deferred request => request.call.id = call.id

theorem safe_admitAll :
    ∀ (calls : List (ToolCall V)) (c : RunContext V),
    Lives works guard (fun x c' => Quiet c c' ∧
      ∀ admitted, x = .ok admitted → List.Forall₂ (AdmitsAs c.approvedCalls) calls admitted)
      (admitAll H calls) c := by
  intro calls
  induction calls with
  | nil =>
    intro c
    refine alone_ret ⟨quiet_refl c,?_⟩
    rintro _ ⟨⟩
    exact .nil
  | cons _ _ ih =>
    intro c
    refine alone_then safe_admitToolCall ?_ ?_
    · rintro e _ ⟨hq,-⟩
      exact ⟨hq,by rintro _ ⟨⟩⟩
    rintro ⟨resolved,found⟩ c1 ⟨hq,hr⟩
    obtain ⟨hid,hres⟩ := hr resolved found rfl
    refine alone_then (ih c1) ?_ ?_
    · rintro e _ ⟨hq2,-⟩
      exact ⟨hq.trans hq2,by rintro _ ⟨⟩⟩
    rintro admits _ ⟨hq2,hrest⟩
    refine alone_ret ⟨hq.trans hq2,?_⟩
    rintro _ ⟨⟩
    have hrest := hrest admits rfl
    rw [hq.frame.approved] at hrest
    refine .cons ?_ hrest
    cases resolved with
    | tool => exact ⟨rfl,hid,hres⟩
    | answered => exact hid
    | deferred => exact hres

variable {c0 c c' : RunContext V} {id : String}

theorem Opened.same (h : Opened H works c0 c id) (k : SameAt c c' id) : Opened H works c0 c' id :=
  ⟨k.marks.trans h.marks,k.active.trans h.active,fun hw => k.effect.trans (h.effect hw)⟩

theorem SameAt.at_ (h : SameAt c0 c id) (works : Prop) :
    At works c id (c0.marks id) (c0.activeToolCalls.count id) (c0.effects id) :=
  ⟨h.marks,h.active,fun _ => h.effect⟩

theorem safe_failAll {error} :
    ∀ {started} {c}, (started.map fun p => p.call.id).Nodup →
    (∀ p ∈ started, Opened H works c0 c p.call.id) →
    Safe (guarded T works guard) (fun _ c' => (∀ p ∈ started, Closes c0 c' p.call.id) ∧
      Frame (· ∈ started.map fun p => p.call.id) c c' ∧ c'.ran = c.ran ∧ c'.stopped = c.stopped)
      (failAll H error started) c := by
  intro started
  induction started with
  | nil => exact fun {c} _ _ => alone_ret ⟨by simp,Frame.refl _ c,rfl,rfl⟩
  | cons prepared rest ih =>
    intro c hnd hopen
    obtain ⟨hfresh,hnd⟩ := nodup_cons.1 hnd
    have hne {p} (hp : p ∈ rest) : p.call.id ≠ prepared.call.id := by
      intro he
      exact hfresh (mem_map.2 ⟨p,hp,he⟩)
    refine safe_bind ?_ (safe_failToolCall (hopen prepared mem_cons_self))
    rintro _ c1 ⟨ha,hh⟩
    refine safe_mono ?_ (ih hnd fun p hp =>
      (hopen p (mem_cons_of_mem _ hp)).same (hh.frame.sameAt (hne hp)))
    rintro _ _ ⟨hrest,hf,hr,hs⟩
    refine ⟨?_,hh.frame.cons hf,hr.trans hh.ran,hs.trans hh.stopped⟩
    intro p hp
    rcases mem_cons.1 hp with rfl | hp
    · rw [append_assoc] at ha
      have hclosed : Closes c0 c1 p.call.id := StandsAt.closes ha fun _ => rfl
      exact hclosed.same (hf.sameAt hfresh)
    · exact hrest p hp

variable {fold : FoldSlot V} {rest calls : List (ToolCall V)} {started : List String}
  {c1 : RunContext V} {call : ToolCall V} {slot : ToolSlot V T}

theorem SlotAs.same (h : SlotAs H works c0 c call slot) (k : SameAt c c' call.id) :
    SlotAs H works c0 c' call slot := by
  cases slot with
  | execute => exact ⟨h.1,h.2.1,h.2.2.1,h.2.2.2.same k⟩
  | recovered | deferred => exact ⟨h.1,h.2.trans k⟩

structure Announced (H : AgentHarness V T) (works : Prop) (c0 : RunContext V)
    (started : List String) (calls : List (ToolCall V)) (c : RunContext V)
    (x : Answer V (List (ToolSlot V T))) (c' : RunContext V) : Prop where
  frame : Frame (fun id => id ∈ started ∨ id ∈ ids calls) c c'
  ran : c'.ran = c.ran
  stopped : c'.stopped = c.stopped
  slots : match x with
    | .ok slots => Frame (· ∈ ids calls) c c' ∧ List.Forall₂ (SlotAs H works c0 c') calls slots
    | .error _ => ¬ works ∧ ∀ id, id ∈ started ∨ id ∈ ids calls → Closes c0 c' id

theorem Announced.cons {slots}
    (h : Announced H works c0 started rest c (.ok slots) c') (hfresh : call.id ∉ ids rest)
    (hslot : SlotAs H works c0 c call slot) :
    Announced H works c0 started (call :: rest) c (.ok (slot :: slots)) c' where
  frame := h.frame.mono fun _ hid => hid.imp_right (mem_cons_of_mem _)
  ran := h.ran
  stopped := h.stopped
  slots := ⟨h.slots.1.mono fun _ hid => mem_cons_of_mem _ hid,
    .cons (hslot.same (h.slots.1.sameAt hfresh)) h.slots.2⟩

theorem Announced.error_cons {e}
    (h : Announced H works c0 started rest c (.error e) c') (hfresh : call.id ∉ ids rest)
    (hst : call.id ∉ started) (hsame : SameAt c0 c call.id) :
    Announced H works c0 started (call :: rest) c (.error e) c' where
  frame := h.frame.mono fun _ hid => hid.imp_right (mem_cons_of_mem _)
  ran := h.ran
  stopped := h.stopped
  slots := by
    refine ⟨h.slots.1,fun id hid => ?_⟩
    by_cases hc : id = call.id
    · subst hc
      exact (hsame.trans (h.frame.sameAt (by simp [hfresh,hst]))).closes
    · exact h.slots.2 id (hid.imp_right fun hid => by simpa [hc] using hid)

theorem mem_started_iff :
    (id ∈ started++[call.id] ∨ id ∈ ids rest) ↔ id ∈ started ∨ id ∈ ids (call :: rest) := by
  rw [mem_append,mem_singleton,or_assoc]
  exact or_congr_right mem_cons.symm

theorem Announced.after_start {slots}
    (h : Announced H works c0 (started++[call.id]) rest c (.ok slots) c')
    (hheld : Held call.id c1 c) (hfresh : call.id ∉ ids rest)
    (hslot : SlotAs H works c0 c call slot) :
    Announced H works c0 started (call :: rest) c1 (.ok (slot :: slots)) c' where
  frame := (hheld.frame.only.mono fun _ => .inr).trans
    (h.frame.mono fun _ => mem_started_iff.1)
  ran := h.ran.trans hheld.ran
  stopped := h.stopped.trans hheld.stopped
  slots := ⟨hheld.frame.cons h.slots.1,
    .cons (hslot.same (h.slots.1.sameAt hfresh)) h.slots.2⟩

theorem Announced.error_after_start {e}
    (h : Announced H works c0 (started++[call.id]) rest c (.error e) c')
    (hheld : Held call.id c1 c) : Announced H works c0 started (call :: rest) c1 (.error e) c' where
  frame := (hheld.frame.only.mono fun _ => .inr).trans
    (h.frame.mono fun _ => mem_started_iff.1)
  ran := h.ran.trans hheld.ran
  stopped := h.stopped.trans hheld.stopped
  slots := ⟨h.slots.1,fun id hid => h.slots.2 id (mem_started_iff.2 hid)⟩

theorem safe_give_up {error} {started}
    (hw : ¬ works) (hnd : ((started.map fun p => p.call.id)++ids rest).Nodup)
    (hopen : ∀ p ∈ started, Opened H works c0 c p.call.id)
    (hsame : ∀ call ∈ rest, SameAt c0 c call.id) :
    Lives works guard (fun x c' => x = .error error ∧
      Announced H works c0 (started.map fun p => p.call.id) rest c x c')
      (do ExceptT.lift (failAll H error started); throw error : Task V T _) c := by
  obtain ⟨hnd,-,hdis⟩ := nodup_append.1 hnd
  refine alone_lifted (safe_failAll hnd hopen) ?_
  rintro _ c1 ⟨hclosed,hf,hr,hs⟩
  refine alone_ret ⟨rfl,hf.mono fun _ => .inl,hr,hs,hw,?_⟩
  rintro id (hid | hid)
  · obtain ⟨p,hp,rfl⟩ := mem_map.1 hid
    exact hclosed p hp
  · obtain ⟨call,hc,rfl⟩ := mem_map.1 hid
    exact ((hsame call hc).trans (hf.sameAt fun h => hdis _ h _ hid rfl)).closes

theorem safe_announce :
    ∀ {calls} {admitted} {started} {c}, List.Forall₂ (AdmitsAs c0.approvedCalls) calls admitted →
    ((started.map fun p => p.call.id)++ids calls).Nodup →
    (∀ p ∈ started, Opened H works c0 c p.call.id) → (∀ call ∈ calls, SameAt c0 c call.id) →
    Lives works guard (Announced H works c0 (started.map fun p => p.call.id) calls c)
      (announce H admitted started) c := by
  intro calls
  induction calls with
  | nil =>
    rintro _ _ c ⟨⟩ _ _ _
    exact alone_ret ⟨Frame.refl _ c,rfl,rfl,Frame.refl _ c,.nil⟩
  | cons call rest ih =>
    rintro (_ | ⟨found,_⟩) started c hadmits hnd hopen hsame
    · cases hadmits
    obtain ⟨hadm,hrest⟩ := forall₂_cons.1 hadmits
    obtain ⟨-,hnd1,hdis⟩ := nodup_append.1 hnd
    obtain ⟨hfresh,-⟩ := nodup_cons.1 hnd1
    have hst : call.id ∉ started.map fun p => p.call.id := fun h =>
      hdis _ h _ mem_cons_self rfl
    have hnd' : ((started.map fun p => p.call.id)++ids rest).Nodup :=
      hnd.sublist (List.Sublist.append_left (sublist_cons_self _ _) _)
    have hsame' := fun other ho => hsame other (mem_cons_of_mem _ ho)
    have hcall := hsame call mem_cons_self
    cases found with
    | recovered | deferred =>
      refine alone_then (ih hrest hnd' hopen hsame') ?_ ?_
      · exact fun e c' h => h.error_cons hfresh hst hcall
      · exact fun slots c' h => alone_ret (h.cons hfresh ⟨hadm,hcall⟩)
    | execute =>
      obtain ⟨hasked,hid,hneed⟩ := hadm
      have hat := hcall.at_ works
      rw [← hid] at hat
      refine alone_lifted (safe_startToolCall hat) ?_
      rintro prepared _ ⟨rfl,ha,hh⟩
      refine alone_lifted (safe_recordStarted ha) ?_
      rintro x c2 ⟨ha2,hh2,hw⟩
      have hheld := hh.trans hh2
      have hopened : Opened H works c0 c2 prepared.call.id := ha2
      rw [hid] at hheld hopened
      have hids : (started++[prepared]).map (fun p => p.call.id) =
          (started.map fun p => p.call.id)++[call.id] := by simp [hid]
      have hopen2 p (hp : p ∈ started++[prepared]) : Opened H works c0 c2 p.call.id := by
        rcases mem_append.1 hp with hp | hp
        · refine (hopen p hp).same (hheld.frame.sameAt fun h => hst ?_)
          exact mem_map.2 ⟨p,hp,h⟩
        · rw [mem_singleton.1 hp,hid]
          exact hopened
      have hsame2 other (ho : other ∈ rest) : SameAt c0 c2 other.id := by
        refine (hsame' other ho).trans (hheld.frame.sameAt fun h => hfresh ?_)
        exact mem_map.2 ⟨other,ho,h⟩
      have hnd2 : ((started++[prepared]).map (fun p => p.call.id)++ids rest).Nodup := by
        rw [hids,append_assoc]
        exact hnd
      cases x with
      | error =>
        have hno : ¬ works := fun h => by cases hw h
        refine safe_mono ?_ (safe_give_up hno hnd2 hopen2 hsame2)
        rintro _ _ ⟨rfl,h⟩
        rw [hids] at h
        exact h.error_after_start hheld
      | ok =>
        refine alone_then (ih hrest hnd2 hopen2 hsame2) ?_ ?_
        · intro e _ h
          rw [hids] at h
          exact h.error_after_start hheld
        intro _ _ h
        rw [hids] at h
        exact alone_ret (h.after_start hheld hfresh ⟨hasked,hid,hneed,hopened⟩)

variable {new : List (Ran V)}

theorem Idle.same (h : Idle c0 c new call) (k : SameAt c c' call.id) : Idle c0 c' new call :=
  ⟨h.1,h.2.trans k⟩

theorem FoldAs.same (h : FoldAs H works c0 c new call fold) (k : SameAt c c' call.id) :
    FoldAs H works c0 c' new call fold := by
  cases fold with
  | executed => exact ⟨h.1,h.2.1.same k,h.2.2⟩
  | recovered | deferred => exact ⟨h.1,h.2.same k⟩

theorem FoldAs.later {x : Ran V} (h : FoldAs H works c0 c new call fold)
    (hx : x.asked.id ≠ call.id) : FoldAs H works c0 c (x :: new) call fold := by
  have hidle (h : Idle c0 c new call) : Idle c0 c (x :: new) call := by
    refine ⟨?_,h.2⟩
    rintro ⟨y,hy,hid⟩
    rcases mem_cons.1 hy with rfl | hy
    · exact hx hid
    · exact h.1 ⟨y,hy,hid⟩
  cases fold with
  | executed =>
    obtain ⟨hid,hopen,y,hy,hout⟩ := h
    exact ⟨hid,hopen,y,mem_cons_of_mem _ hy,hout⟩
  | recovered | deferred => exact ⟨h.1,hidle h.2⟩

theorem safe_runAll :
    ∀ {calls} {slots} {c}, List.Forall₂ (SlotAs H works c0 c) calls slots → (ids calls).Nodup →
    (∀ call ∈ calls, Frees guard c0.approvedCalls call) →
    Safe (guarded T works guard) (fun folds c' => ∃ new, c' = { c with ran := c.ran++new } ∧
      List.Forall₂ (FoldAs H works c0 c' new) calls folds ∧
      (∀ x ∈ new, x.asked ∈ calls ∧ x.turn = c.turn ∧ (x.needed → x.asked.id ∈ c0.approvedCalls)) ∧
      (new.map fun x => x.asked.id).Nodup) (runAll slots) c := by
  intro calls
  induction calls with
  | nil =>
    rintro _ c ⟨⟩ _ _
    exact alone_ret ⟨[],by simp,.nil,by simp,by simp⟩
  | cons call rest ih =>
    rintro (_ | ⟨slot,slots⟩) c hslots hnd hfree
    · cases hslots
    obtain ⟨hslot,hrest⟩ := forall₂_cons.1 hslots
    obtain ⟨hfresh,hndrest⟩ := nodup_cons.1 hnd
    have hrestfree := fun other ho => hfree other (mem_cons_of_mem _ ho)
    have hidle {more} (hsame : SameAt c0 c call.id)
        (hown : ∀ x ∈ more, x.asked ∈ rest ∧ x.turn = c.turn ∧
          (x.needed → x.asked.id ∈ c0.approvedCalls)) :
        Idle c0 { c with ran := c.ran++more } more call := by
      refine ⟨?_,hsame.marks,hsame.active,hsame.effect⟩
      rintro ⟨x,hx,hid⟩
      exact hfresh (mem_map.2 ⟨x.asked,(hown x hx).1,hid⟩)
    cases slot with
    | recovered | deferred =>
      refine safe_bind ?_ (ih hrest hndrest hrestfree)
      rintro _ _ ⟨more,rfl,hfolds,hown,honce⟩
      refine alone_ret ⟨more,rfl,.cons ⟨hslot.1,hidle hslot.2 hown⟩ hfolds,?_,honce⟩
      exact fun x hx => ⟨mem_cons_of_mem _ (hown x hx).1,(hown x hx).2⟩
    | execute _ _ asked needed =>
      obtain ⟨rfl,hid,hneed,hopen⟩ := hslot
      have hg := hfree asked mem_cons_self needed c hneed
      refine alone_perform hg fun outcome c1 ho => ?_
      obtain ⟨rfl,-,-⟩ := ho
      refine safe_bind ?_ (ih (hrest.imp fun _ _ h => h.same ⟨rfl,rfl,rfl⟩) hndrest hrestfree)
      rintro folds _ ⟨more,rfl,hfolds,hown,honce⟩
      refine alone_ret ⟨⟨c.turn,asked,needed,runOutcome outcome⟩ :: more,by simp,.cons ?_ ?_,?_,?_⟩
      · refine ⟨hid,hopen.same ⟨rfl,rfl,rfl⟩,?_⟩
        exact ⟨⟨c.turn,asked,needed,runOutcome outcome⟩,mem_cons_self,rfl,rfl⟩
      · have hne other (ho : other ∈ rest) : asked.id ≠ other.id := fun h =>
          hfresh (mem_map.2 ⟨other,ho,h.symm⟩)
        refine ((forall₂_and_left rest folds).2 ⟨hne,hfolds⟩).imp fun other _ h => ?_
        exact (h.2.same ⟨rfl,rfl,rfl⟩).later h.1
      · intro x hx
        rcases mem_cons.1 hx with rfl | hx
        · exact ⟨mem_cons_self,rfl,hneed⟩
        · exact ⟨mem_cons_of_mem _ (hown x hx).1,(hown x hx).2⟩
      · refine nodup_cons.2 ⟨?_,honce⟩
        intro h
        obtain ⟨x,hx,he⟩ := mem_map.1 h
        exact hfresh (mem_map.2 ⟨x.asked,(hown x hx).1,he⟩)

theorem FoldAs.standing (h : FoldAs H works c0 c new call fold) :
    Idle c0 c new call ∨ Runs new call ∧ Opened H works c0 c call.id := by
  cases fold with
  | executed =>
    obtain ⟨-,hopen,x,hx,rfl,-⟩ := h
    exact .inr ⟨⟨x,hx,rfl⟩,hopen⟩
  | recovered | deferred => exact .inl h.2

theorem folds_same {folds} (h : List.Forall₂ (FoldAs H works c0 c new) rest folds)
    (hfresh : call.id ∉ ids rest) (hf : Frame (Alone call.id) c c') :
    List.Forall₂ (FoldAs H works c0 c' new) rest folds := by
  have hne other (ho : other ∈ rest) : other.id ≠ call.id := fun h =>
    hfresh (mem_map.2 ⟨other,ho,h⟩)
  exact ((forall₂_and_left rest folds).2 ⟨hne,h⟩).imp fun other _ h =>
    h.2.same (hf.sameAt h.1)

theorem AbortedAt.same (h : AbortedAt H works c0 c new call) (k : SameAt c c' call.id) :
    AbortedAt H works c0 c' new call :=
  h.imp (·.same k) fun h => ⟨h.1,h.2.1.same k,fun hw => k.effect.trans (h.2.2 hw)⟩

theorem safe_abortSiblings :
    ∀ {calls} {folds} {c}, List.Forall₂ (FoldAs H works c0 c new) calls folds → (ids calls).Nodup →
    Safe (guarded T works guard) (fun _ c' => (∀ call ∈ calls, AbortedAt H works c0 c' new call) ∧
      Frame (· ∈ ids calls) c c' ∧ c'.ran = c.ran ∧ c'.stopped = c.stopped)
      (abortSiblings H folds) c := by
  intro calls
  induction calls with
  | nil =>
    rintro _ c ⟨⟩ _
    exact alone_ret ⟨by simp,Frame.refl _ c,rfl,rfl⟩
  | cons call rest ih =>
    rintro (_ | ⟨fold,folds⟩) c hfolds hnd
    · cases hfolds
    obtain ⟨hfold,hrest⟩ := forall₂_cons.1 hfolds
    obtain ⟨hfresh,hndrest⟩ := nodup_cons.1 hnd
    have hidle (hi : Idle c0 c new call) : Safe (guarded T works guard) (fun _ c' =>
        (∀ other ∈ call :: rest, AbortedAt H works c0 c' new other) ∧
        Frame (· ∈ ids (call :: rest)) c c' ∧ c'.ran = c.ran ∧ c'.stopped = c.stopped)
        (abortSiblings H folds) c := by
      refine safe_mono ?_ (ih hrest hndrest)
      rintro _ _ ⟨hab,hf,hr,hs⟩
      refine ⟨forall_mem_cons.2 ⟨.inl (hi.same (hf.sameAt hfresh)),hab⟩,?_,hr,hs⟩
      exact hf.mono fun _ hid => mem_cons_of_mem _ hid
    cases fold with
    | recovered | deferred => exact hidle hfold.2
    | executed =>
      obtain ⟨hid,hopen,x,hx,hcall,-⟩ := hfold
      rw [← hid] at hopen
      refine safe_bind ?_ (safe_failStartedToolCall hopen)
      rintro _ c2 ⟨ha2,hheld⟩
      rw [hid] at ha2 hheld
      rw [rowAfter_rowAfter,append_assoc] at ha2
      refine safe_mono ?_ (ih (folds_same hrest hfresh hheld.frame) hndrest)
      rintro _ _ ⟨hab,hf,hr,hs⟩
      have hdone : AbortedAt H works c0 c2 new call :=
        .inr ⟨⟨x,hx,by rw [hcall]⟩,StandsAt.closes ha2 fun _ => rfl,ha2.effect⟩
      refine ⟨forall_mem_cons.2 ⟨hdone.same (hf.sameAt hfresh),hab⟩,?_,
        hr.trans hheld.ran,hs.trans hheld.stopped⟩
      exact hheld.frame.cons hf

structure Folded (H : AgentHarness V T) (works : Prop) (c0 : RunContext V) (new : List (Ran V))
    (calls : List (ToolCall V)) (c c' : RunContext V) : Prop where
  ran : c'.ran = c.ran
  frame : Frame (· ∈ ids calls) c c'
  outcome : Outcome H works calls c0 c' new

theorem Folded.cons (h : Folded H works c0 new rest c c') (hheld : Held call.id c1 c)
    (hended : Ended H works c0 c new call) (hgo : GoesOn new call) (hfresh : call.id ∉ ids rest) :
    Folded H works c0 new (call :: rest) c1 c' where
  ran := h.ran.trans hheld.ran
  frame := hheld.frame.cons h.frame
  outcome := h.outcome.cons (hended.same (h.frame.sameAt hfresh)) hgo

theorem folded_halted {folds}
    (hrest : List.Forall₂ (FoldAs H works c0 c new) rest folds) (hfresh : call.id ∉ ids rest)
    (hh : Halted call.id c c') (hs : c.stopped = c0.stopped)
    (hended : Ended H works c0 c' new call) : Folded H works c0 new (call :: rest) c c' where
  ran := hh.ran
  frame := hh.frame.only
  outcome := by
    refine ⟨[call],rest,rfl,by simpa using hended,by simp,?_⟩
    refine .halted call rfl (by rw [hh.stopped,hs]) ?_
    have hsame := folds_same hrest hfresh hh.frame
    exact ((forall₂_and_left _ _).1 (hsame.imp fun _ _ h => ⟨h.standing,h⟩)).1

theorem eq_of_asked (honce : (new.map fun x => x.asked.id).Nodup) {x y : Ran V} (hx : x ∈ new)
    (hy : y ∈ new) (h : x.asked.id = y.asked.id) : x = y :=
  inj_on_of_nodup_map honce hx hy h

theorem safe_foldAll (honce : (new.map fun x => x.asked.id).Nodup) :
    ∀ {calls} {folds} {c}, List.Forall₂ (FoldAs H works c0 c new) calls folds → (ids calls).Nodup →
    c.stopped = c0.stopped → ∀ batch : Batch V,
    Lives works guard (fun x c' => (∀ d, x = .ok d → DefersOnly (ids calls) batch.1 d) ∧
      Folded H works c0 new calls c c') (foldAll H folds batch) c := by
  intro calls
  induction calls with
  | nil =>
    rintro _ c ⟨⟩ _ hs _
    refine safe_telling (alone_ret ⟨?_,rfl,(Frame.refl _ c).core rfl,[],[],rfl,by simp,
      by simp,.finished hs (by simp)⟩)
    rintro _ ⟨⟩
    exact defersOnly_refl
  | cons call rest ih =>
    rintro (_ | ⟨fold,folds⟩) c hfolds hnd hs batch
    · cases hfolds
    obtain ⟨hfold,hrest⟩ := forall₂_cons.1 hfolds
    obtain ⟨hfresh,hndrest⟩ := nodup_cons.1 hnd
    have hnext {c1} (hheld : Held call.id c c1)
        (hended : Ended H works c0 c1 new call) (hgo : GoesOn new call) {next : Batch V}
        (hd : DefersOnly [call.id] batch.1 next.1) : Lives works guard
        (fun x c' => (∀ d, x = .ok d → DefersOnly (ids (call :: rest)) batch.1 d) ∧
          Folded H works c0 new (call :: rest) c c') (foldAll H folds next) c1 :=
      safe_mono (fun _ _ h => ⟨fun d hx => hd.cons (h.1 d hx),h.2.cons hheld hended hgo hfresh⟩)
        (ih (folds_same hrest hfresh hheld.frame) hndrest (hheld.stopped.trans hs) next)
    have hidle (hnot : ¬ Runs new call) : GoesOn new call := fun x hx hasked =>
      (hnot ⟨x,hx,by rw [hasked]⟩).elim
    cases fold with
    | recovered found =>
      obtain ⟨hid,hnot,hsame⟩ := hfold
      have hat := hsame.at_ works
      rw [← hid] at hat
      have hended {c1} (ha : At works c1 found.id
          (c0.marks found.id++[.started,.ended]) (c0.activeToolCalls.count found.id)
          (c0.effects found.id)) : Ended H works c0 c1 new call := by
        rw [hid] at ha
        exact ⟨StandsAt.closes ha fun _ => rfl,fun hw => .inl ⟨hnot,ha.effect hw⟩⟩
      refine alone_then (safe_recoverToolCall hat) ?_ ?_
      · rintro e _ ⟨ha,hh⟩
        exact ⟨nofun,folded_halted hrest hfresh (hid ▸ hh) hs (hended ha)⟩
      · rintro _ _ ⟨ha,hh⟩
        exact hnext (hid ▸ hh) (hended ha) (hidle hnot) defersOnly_refl
    | deferred =>
      obtain ⟨hid,hnot,hsame⟩ := hfold
      have hat := hsame.at_ works
      rw [← hid] at hat
      refine alone_lifted (safe_deferToolCall hat) ?_
      rintro _ _ ⟨rfl,ha,hh⟩
      rw [hid] at ha
      refine hnext (hid ▸ hh) ⟨StandsAt.closes ha (by simp),?_⟩ (hidle hnot) ?_
      · exact fun hw => .inl ⟨hnot,ha.effect hw⟩
      · rw [← hid]
        exact defersOnly_add
    | executed prepared outcome =>
      obtain ⟨hid,hopen,x,hx,hcall,hout⟩ := hfold
      rw [← hid] at hopen
      have hended {c1} (ha : At works c1 prepared.call.id
          (c0.marks prepared.call.id++[.started]++[.ended])
          (c0.activeToolCalls.count prepared.call.id) (rowAfter H (rowOf (runOutcome outcome))
            (rowAfter H .started (c0.effects prepared.call.id)))) :
          Ended H works c0 c1 new call := by
        rw [hid,rowAfter_rowAfter,append_assoc,← hout] at ha
        exact ⟨StandsAt.closes ha fun _ => rfl,fun hw => .inr ⟨x,hx,hcall,ha.effect hw⟩⟩
      have hgo (hne : runOutcome outcome ≠ .failed) : GoesOn new call := by
        intro y hy hasked
        rw [eq_of_asked honce hy hx (by rw [hasked,hcall]),hout]
        exact hne
      cases outcome with
      | ok =>
        refine alone_then (safe_finishStartedToolCall hopen) ?_ ?_
        · rintro e _ ⟨ha,hh⟩
          exact ⟨nofun,folded_halted hrest hfresh (hid ▸ hh) hs (hended ha)⟩
        · rintro _ _ ⟨ha,hh⟩
          exact hnext (hid ▸ hh) (hended ha) (hgo nofun) defersOnly_refl
      | error e =>
        simp only [foldAll]
        split
        next hr =>
          obtain ⟨hreq,hdef⟩ := executionDeferral_some hr
          refine alone_lifted (safe_deferStartedToolCall hopen hreq) ?_
          rintro _ _ ⟨rfl,ha,hh⟩
          rw [hdef] at hended hgo
          refine hnext (hid ▸ hh) (hended ha) (hgo nofun) ?_
          rw [← hid,← hreq]
          exact defersOnly_add
        next hr =>
          rw [executionDeferral_none hr] at hout hended
          refine alone_lifted (safe_failStartedToolCall hopen) ?_
          rintro _ _ ⟨ha,hh⟩
          rw [hid] at hh
          refine alone_lifted (safe_abortSiblings (folds_same hrest hfresh hh.frame) hndrest) ?_
          rintro _ _ ⟨hab,hf,hr,hs2⟩
          refine alone_ret ⟨nofun,hr.trans hh.ran,?_,[call],rest,rfl,?_,by simp,?_⟩
          · exact hh.frame.cons hf
          · simpa using (hended ha).same (hf.sameAt hfresh)
          · exact .aborted x (by rw [hcall]; rfl) hx hout (hs2.trans (hh.stopped.trans hs)) hab

theorem safe_executeToolsConcurrently (hnd : (ids calls).Nodup)
    (hsame : ∀ call ∈ calls, SameAt c0 c call.id) (hs : c.stopped = c0.stopped)
    (happroved : c.approvedCalls = c0.approvedCalls)
    (hfree : ∀ call ∈ calls, Frees guard c0.approvedCalls call) :
    Lives works guard (Batched H works c0 calls {} c) (executeToolsConcurrently H calls) c := by
  have hnone {c' : RunContext V} (hf : Frame (· ∈ ids calls) c c') (hr : c'.ran = c.ran) :
      Logged calls c c' [] := ⟨by simpa using hr,hf,by simp,by simp⟩
  refine alone_then (safe_admitAll calls c) ?_ ?_
  · rintro e _ ⟨hq,-⟩
    refine ⟨nofun,[],hnone (hq.frame.mono fun _ => False.elim) hq.ran,[],calls,rfl,?_⟩
    refine ⟨by simp,by simp,?_⟩
    refine .finished (hq.stopped.trans hs) fun call hc => ⟨by simp [Runs],?_⟩
    exact (hsame call hc).trans (hq.frame.sameAt fun h => h)
  rintro admitted c1 ⟨hq,hadmits⟩
  have hadmits := hadmits admitted rfl
  rw [happroved] at hadmits
  have hsame1 (call : ToolCall V) (hc : call ∈ calls) : SameAt c0 c1 call.id :=
    (hsame call hc).trans (hq.frame.sameAt fun h => h)
  have hframe : Frame (· ∈ ids calls) c c1 := hq.frame.mono fun _ => False.elim
  have hopen (p : PreparedToolCall V) (hp : p ∈ []) : Opened H works c0 c1 p.call.id := by
    cases hp
  refine alone_then (safe_announce hadmits hnd hopen hsame1) ?_ ?_
  · rintro e c2 ⟨hf,hr,hst,hno,hclosed⟩
    have hf : Frame (· ∈ ids calls) c1 c2 := hf.mono fun id h => by simpa using h
    refine ⟨nofun,[],hnone (hframe.trans hf) (hr.trans hq.ran),calls,[],by simp,?_,?_,?_⟩
    · intro _ hc
      exact ⟨hclosed _ (.inr (mem_map_of_mem hc)),fun hw => (hno hw).elim⟩
    · exact fun _ _ _ hx => by cases hx
    · exact .finished (hst.trans (hq.stopped.trans hs)) (by simp)
  rintro _ _ ⟨-,hr,hst,hf,hslots⟩
  refine alone_lifted (safe_runAll hslots hnd hfree) ?_
  rintro _ _ ⟨new,rfl,hfolds,hown,honce⟩
  refine safe_mono ?_ (safe_foldAll honce hfolds hnd (hst.trans (hq.stopped.trans hs)) ({},[]))
  rintro _ _ ⟨hd,hr4,hf4,hout⟩
  have hframe := hframe.trans hf
  refine ⟨hd,new,⟨?_,hframe.trans ?_,?_,honce⟩,hout⟩
  · rw [hr4,hr,hq.ran]
  · exact { hf4 with }
  intro x hx
  obtain ⟨hmem,hturn,_⟩ := hown x hx
  exact ⟨hmem,hturn.trans hframe.turn,by rwa [happroved]⟩

theorem core_settleBatchTermination (allAnswered : Bool) (c : RunContext V) :
    (settleBatchTermination allAnswered c).core = c.core := by
  unfold settleBatchTermination
  dsimp only
  split
  · split
    · exact core_requestControl
    · rfl
  · rfl

theorem Logged.core {c''} (h : Logged calls c c' new) (hc : c''.core = c'.core) :
    Logged calls c c'' new :=
  ⟨(congrArg Core.ran hc).trans h.ran,h.frame.core hc,h.own,h.once⟩

theorem Outcome.core (h : Outcome H works calls c0 c new) (hc : c'.core = c.core) :
    Outcome H works calls c0 c' new := by
  have hsame id : SameAt c c' id :=
    ((Frame.refl (fun _ => False) c).core hc).sameAt fun h => h
  have hs : c'.stopped = c.stopped := congrArg Core.stopped hc
  obtain ⟨pre,rest,rfl,hpre,hgoes,hending⟩ := h.parts
  refine ⟨pre,rest,rfl,fun call hc => (hpre call hc).same (hsame _),hgoes,?_⟩
  cases hending with
  | finished hstop hrest =>
    exact .finished (hs.trans hstop) fun call hc => (hrest call hc).same (hsame _)
  | aborted x hlast hx hfailed hstop hrest =>
    refine .aborted x hlast hx hfailed (hs.trans hstop) fun call hc => ?_
    exact AbortedAt.same (hrest call hc) (hsame _)
  | halted last hlast hstop hrest =>
    refine .halted last hlast (hs.trans hstop) fun call hc => ?_
    exact (hrest call hc).imp (·.same (hsame _)) fun h => ⟨h.1,Opened.same h.2 (hsame _)⟩

theorem safe_executeTools (hnd : (ids calls).Nodup) {c}
    (hfree : ∀ call ∈ calls, Frees guard c.approvedCalls call) :
    Lives works guard (Batched H works c calls {} c) (executeTools H calls) c := by
  refine safe_telling ?_
  generalize hc1 : ({ c with terminateVotes := [], batchAdmissions := 0 } : RunContext V) = c1
  have hcore : c1.core = c.core := by
    rw [← hc1]
    rfl
  have hsame (call : ToolCall V) (_ : call ∈ calls) : SameAt c c1 call.id :=
    ((Frame.refl (fun _ => False) c).core hcore).sameAt fun h => h
  have hstop : c1.stopped = c.stopped := congrArg Core.stopped hcore
  have hbase {c' : RunContext V} {new : List (Ran V)} (h : Logged calls c1 c' new) :
      Logged calls c c' new := by
    subst hc1
    exact { h with frame := { h.frame with } }
  have happroved : c1.approvedCalls = c.approvedCalls := congrArg Core.approvedCalls hcore
  have hbatch : Lives works guard (Batched H works c calls {} c1) (executeBatch H calls) c1 := by
    unfold executeBatch
    split
    · exact safe_executeToolsConcurrently hnd hsame hstop happroved hfree
    · exact safe_executeToolsSerially hnd hsame hstop (happroved ▸ hfree) ({},[])
  refine alone_then hbatch ?_ ?_
  · exact fun _ _ ⟨_,new,hl,ho⟩ => ⟨nofun,new,hbase hl,ho⟩
  rintro deferred c2 ⟨hd,new,hl,ho⟩
  have hcore := core_settleBatchTermination deferred.isEmpty c2
  refine safe_telling (safe_telling (alone_ret
    ⟨?_,new,((hbase hl).core hcore).core rfl,(ho.core hcore).core rfl⟩))
  rintro _ ⟨⟩
  exact hd deferred rfl

end Harness.AgentLoop
