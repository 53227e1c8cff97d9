import TinyAgents.Harness.ToolBatches

namespace Harness.AgentLoop

open Interaction List

variable {V T : Type} {H : AgentHarness V T} {works : Prop}

section

variable (c c' : RunContext V)

def marksSince (id : String) : List Mark :=
  (c'.events.drop c.events.length).filterMap (AgentEvent.mark id)

def ranSince : List (Ran V) := c'.ran.drop c.ran.length

def stoppedSince : List String := c'.stopped.drop c.stopped.length

variable {c c'}

theorem marks_append_marksSince (h : c.events <+: c'.events) (id : String) :
    c.marks id++marksSince c c' id = c'.marks id := by
  obtain ⟨_,he⟩ := h
  simp only [RunContext.marks,marksSince,← he,drop_left,filterMap_append]

theorem ranSince_eq {new} (h : c'.ran = c.ran++new) : ranSince c c' = new := by
  rw [ranSince,h,drop_left]

theorem stoppedSince_eq {new} (h : c'.stopped = c.stopped++new) : stoppedSince c c' = new := by
  rw [stoppedSince,h,drop_left]

end

def Paired (marks : List Mark) : Prop :=
  ∀ pre post, marks = pre++.started :: post → post.count .ended = 1

def StopsLast (calls : List (ToolCall V)) (stopped : List String) (ran : List (Ran V)) : Prop :=
  ∀ pre call post, calls = pre++call :: post → call.id ∈ stopped →
    ∀ x ∈ ran, x.asked.id ∉ ids post

def FailsLast (calls : List (ToolCall V)) (ran : List (Ran V)) : Prop :=
  ∀ pre call post, calls = pre++call :: post →
    (∃ x ∈ ran, x.asked.id = call.id ∧ x.outcome = .failed) →
    ∀ y ∈ ran, y.asked.id ∈ ids post → y.outcome ≠ .returned

def RowKept (c c' : RunContext V) (call : ToolCall V) : Prop :=
  ¬ Runs (ranSince c c') call ∧ c'.effects call.id = c.effects call.id

structure RowSettled (c c' : RunContext V) (call : ToolCall V) : Prop where
  settled : c'.effects call.id ≠ some .started
  completed : c'.effects call.id = some .completed →
    ∃ x ∈ ranSince c c', x.asked.id = call.id ∧ x.outcome = .returned
  failed : c'.effects call.id = some .failed →
    ∃ x ∈ ranSince c c', x.asked.id = call.id ∧ x.outcome ≠ .returned

theorem frees_all {calls : List (ToolCall V)} {approved : List String} :
    ∀ call ∈ calls, Frees (fun _ _ _ => True) approved call :=
  fun _ _ _ _ _ => trivial

variable {calls pre rest : List (ToolCall V)} {c c' : RunContext V} {new : List (Ran V)}

theorem mem_rest_of_not_mem_dropLast {α : Type} {pre0 rest pre post : List α} {a : α}
    (h : pre0++rest = pre++a :: post) (ha : a ∉ pre0.dropLast) : ∀ b ∈ post, b ∈ rest := by
  intro b hb
  rcases append_eq_append_iff.1 h with ⟨mid,rfl,hrest⟩ | ⟨mid,rfl,hmid⟩
  · rw [hrest]
    exact mem_append_right _ (mem_cons_of_mem _ hb)
  obtain _ | ⟨first,_ | ⟨second,mid⟩⟩ := mid
  · rw [nil_append] at hmid
    rw [← hmid]
    exact mem_cons_of_mem _ hb
  · obtain ⟨-,rfl⟩ := List.cons.inj hmid
    exact hb
  obtain ⟨rfl,-⟩ := List.cons.inj hmid
  refine (ha ?_).elim
  rw [dropLast_append_of_ne_nil (by simp),dropLast_cons_cons]
  exact mem_append_right _ mem_cons_self

theorem last_not_mem_dropLast {last : ToolCall V} (hnd : (ids (pre++rest)).Nodup)
    (hlast : pre.getLast? = some last) {call : ToolCall V} (hid : call.id = last.id) :
    call ∉ pre.dropLast := by
  obtain ⟨_,rfl⟩ := List.getLast?_eq_some_iff.1 hlast
  rw [dropLast_concat]
  intro hc
  rw [append_assoc,ids,map_append,nodup_append] at hnd
  exact hnd.2.2 _ (mem_map_of_mem hc) _ (by simp) hid

theorem Closes.paired {id : String} (h : Closes c c' id) (he : c.events <+: c'.events) :
    Paired (marksSince c c' id) := by
  obtain ⟨_,hm,hn⟩ := h.marks
  rw [← marks_append_marksSince he] at hm
  have hnew := append_cancel_left hm
  rw [hnew]
  rintro pre _ rfl
  have hpost := hn (by simp)
  obtain _ | ⟨first,pre⟩ := pre
  · obtain rfl := (List.cons.inj hpost).2
    rfl
  have hmem : Mark.started ∈ [Mark.ended] := by
    rw [← (List.cons.inj hpost).2]
    simp
  simp at hmem

theorem Ending.stopsLast (hnd : (ids (pre++rest)).Nodup) (h : Ending H works c c' new pre rest)
    (hrest : ∀ call ∈ rest, Runs new call → ¬ Opened H works c c' call.id) :
    StopsLast (pre++rest) (stoppedSince c c') new := by
  intro _ _ _ heq hstop x hx hmem
  cases h with
  | finished hs | aborted _ _ _ _ hs => simp [stoppedSince,hs] at hstop
  | halted _ hlast hs hstands =>
    rw [stoppedSince_eq hs,mem_singleton] at hstop
    obtain ⟨other,ho,hid⟩ := mem_map.1 hmem
    have hother := mem_rest_of_not_mem_dropLast heq (last_not_mem_dropLast hnd hlast hstop) other ho
    have hruns : Runs new other := ⟨x,hx,hid.symm⟩
    rcases hstands other hother with hidle | ⟨-,hopen⟩
    · exact hidle.1 hruns
    · exact hrest other hother hruns hopen

theorem StopsLast.not_halted {last : ToolCall V} (h : StopsLast (pre++rest) (stoppedSince c c') new)
    (hlast : pre.getLast? = some last) (hs : c'.stopped = c.stopped++[last.id]) :
    ∀ call ∈ rest, ¬ Runs new call := by
  rintro _ hc ⟨x,hx,hid⟩
  obtain ⟨init,rfl⟩ := List.getLast?_eq_some_iff.1 hlast
  refine h init last rest (by simp) ?_ x hx ?_
  · simp [stoppedSince_eq hs]
  · rw [hid]
    exact mem_map_of_mem hc

def ClosedIn (c c' : RunContext V) (call : ToolCall V) : Prop :=
  Paired (marksSince c c' call.id) ∧
    c'.activeToolCalls.count call.id = c.activeToolCalls.count call.id

theorem started_calls_are_closed (hnd : (ids calls).Nodup) {r : Answer V (DeferredToolRequests V)}
    (h : Executes (running False) (executeTools H calls).run c r c') :
    (∀ call ∈ calls, ClosedIn c c' call) ↔ StopsLast calls (stoppedSince c c') (ranSince c c') := by
  obtain ⟨-,_,hl,ho⟩ := h.safe (safe_executeTools hnd frees_all)
  rw [ranSince_eq hl.ran]
  obtain ⟨_,_,rfl,hpre,-,hending⟩ := ho.parts
  have hclosed {call} (h : Closes c c' call.id) : ClosedIn c c' call :=
    ⟨h.paired hl.frame.events,h.active⟩
  constructor
  · intro hall
    refine hending.stopsLast hnd fun call hc _ hopen => ?_
    have hactive := (hall call (mem_append_right _ hc)).2
    rw [hopen.active] at hactive
    omega
  · intro hstops call hc
    rcases mem_append.1 hc with hc | hc
    · exact hclosed (hpre call hc).closes
    cases hending with
    | finished _ hrest => exact hclosed (hrest call hc).2.closes
    | aborted _ _ _ _ _ hrest =>
      rcases hrest call hc with hidle | ⟨-,hcl,-⟩
      · exact hclosed hidle.2.closes
      · exact hclosed hcl
    | halted _ hlast hs hrest =>
      rcases hrest call hc with hidle | ⟨hruns,-⟩
      · exact hclosed hidle.2.closes
      · exact (hstops.not_halted hlast hs call hc hruns).elim

def pair : List (ToolCall Unit) := [{ id := "1", name := "read", arguments := () },
  { id := "2", name := "read", arguments := () }]

def runPair : Task Unit String (DeferredToolRequests Unit) :=
  executeTools (AgentHarness.plain fun _ => false) pair

theorem started_calls_are_closed_pair :
    ∃ r c', Executes (running False) runPair.run {} r c' ∧ ∀ call ∈ pair, ClosedIn {} c' call := by
  obtain ⟨r,c',h,hc⟩ := Script.play_any {} runPair.run (fun c' => decide (stoppedSince {} c' = []))
    (by decide +kernel)
  refine ⟨r,c',h,(started_calls_are_closed (by decide) h).2 ?_⟩
  intro _ _ _ _ hstop
  cases of_decide_eq_true hc ▸ hstop

-- The hook of the first call gives an error when both have run: the second stays open.
theorem sibling_left_open :
    ∃ r c', Executes (running False) runPair.run {} r c' ∧ marksSince {} c' "2" = [.started] ∧
    c'.activeToolCalls = ["2"] := by
  obtain ⟨r,c',h,hc⟩ := Script.play_any { stops := (· == "1") } runPair.run (fun c' =>
    decide (marksSince {} c' "2" = [.started] ∧ c'.activeToolCalls = ["2"])) (by decide +kernel)
  exact ⟨r,c',h,of_decide_eq_true hc⟩

theorem rowAfter_of_ledger (hl : H.ledger.isSome) (status : ToolEffectStatus)
    (row : Option ToolEffectStatus) : rowAfter H status row = some status := by
  rw [rowAfter,if_pos hl]

theorem rowSettled_of_ran {call : ToolCall V} {x : Ran V} (hx : x ∈ ranSince c c')
    (hid : x.asked.id = call.id) (hrow : c'.effects call.id = some (rowOf x.outcome)) :
    RowSettled c c' call := by
  refine ⟨?_,fun h => ⟨x,hx,hid,?_⟩,fun h => ⟨x,hx,hid,?_⟩⟩
  · rw [hrow]
    cases x.outcome <;> simp [rowOf]
  all_goals
    rw [hrow] at h
    revert h
    cases x.outcome <;> simp [rowOf]

theorem effects_are_settled (hledger : H.ledger.isSome = true) (hnd : (ids calls).Nodup)
    {r : Answer V (DeferredToolRequests V)}
    (h : Executes (running True) (executeTools H calls).run c r c') :
    (∀ call ∈ calls, RowKept c c' call ∨ RowSettled c c' call) ↔
    StopsLast calls (stoppedSince c c') (ranSince c c') ∧ FailsLast calls (ranSince c c') := by
  obtain ⟨-,new,hl,ho⟩ := h.safe (safe_executeTools hnd frees_all)
  have hran := ranSince_eq hl.ran
  obtain ⟨pre,rest,rfl,hpre,hgoes,hending⟩ := ho.parts
  constructor
  · intro hall
    have hopened call (hc : call ∈ rest) (hruns : Runs new call) :
        ¬ Opened H True c c' call.id := by
      intro hopen
      have hrow := hopen.effect trivial
      rw [rowAfter_of_ledger hledger] at hrow
      rcases hall call (mem_append_right _ hc) with hkept | hsettled
      · exact hkept.1 (hran ▸ hruns)
      · exact hsettled.settled hrow
    rw [hran]
    refine ⟨hending.stopsLast hnd hopened,?_⟩
    rintro _ call _ heq ⟨x,hx,hid,hfailed⟩ y hy hmem hret
    have hasked : x.asked = call := by
      have hcall : call ∈ pre++rest := by simp [heq]
      exact inj_on_of_nodup_map hnd (hl.own x hx).1 hcall hid
    have hnot : call ∉ pre.dropLast := fun hc => hgoes call hc x hx hasked hfailed
    obtain ⟨other,hother,hoid⟩ := mem_map.1 hmem
    have hother := mem_rest_of_not_mem_dropLast heq hnot other hother
    have hruns : Runs new other := ⟨y,hy,hoid.symm⟩
    cases hending with
    | finished _ hrest => exact (hrest other hother).1 hruns
    | halted _ _ _ hrest =>
      rcases hrest other hother with hidle | ⟨-,hopen⟩
      · exact hidle.1 hruns
      · exact hopened other hother hruns hopen
    | aborted _ _ _ _ _ hrest =>
      rcases hrest other hother with hidle | ⟨-,-,hrow⟩
      · exact hidle.1 hruns
      have hrow := hrow trivial
      rw [rowAfter_of_ledger hledger] at hrow
      rcases hall other (mem_append_right _ hother) with hkept | hsettled
      · exact hkept.1 (hran ▸ hruns)
      obtain ⟨z,hz,hzid,hne⟩ := hsettled.failed hrow
      rw [hran] at hz
      obtain rfl := eq_of_asked hl.once hz hy (hzid.trans hoid)
      exact hne hret
  · rw [hran]
    rintro ⟨hstops,hfails⟩ call hc
    have hidle {call} (h : Idle c c' new call) :
        RowKept c c' call ∨ RowSettled c c' call := .inl ⟨hran ▸ h.1,h.2.effect⟩
    rcases mem_append.1 hc with hin | hin
    · rcases (hpre call hin).row trivial with ⟨hn,hrow⟩ | ⟨x,hx,hasked,hrow⟩
      · exact .inl ⟨hran ▸ hn,hrow⟩
      · rw [rowAfter_of_ledger hledger] at hrow
        exact .inr (rowSettled_of_ran (hran ▸ hx) (by rw [hasked]) hrow)
    cases hending with
    | finished _ hrest => exact hidle (hrest call hin)
    | halted _ hlast hs hrest =>
      rcases hrest call hin with h | ⟨hruns,-⟩
      · exact hidle h
      · exact (hstops.not_halted hlast hs call hin hruns).elim
    | aborted x hlast hx hfailed _ hrest =>
      rcases hrest call hin with h | ⟨⟨y,hy,hid⟩,-,hrow⟩
      · exact hidle h
      have hrow := hrow trivial
      rw [rowAfter_of_ledger hledger] at hrow
      obtain ⟨init,rfl⟩ := List.getLast?_eq_some_iff.1 hlast
      have hne := hfails init x.asked rest (by simp) ⟨x,hx,rfl,hfailed⟩ y hy
        (by rw [hid]; exact mem_map_of_mem hin)
      refine .inr ⟨?_,?_,fun _ => ⟨y,hran ▸ hy,hid,hne⟩⟩
      all_goals
        rw [hrow]
        simp

theorem effects_are_settled_pair :
    ∃ r c', Executes (running True) runPair.run {} r c' ∧
    ∀ call ∈ pair, RowKept {} c' call ∨ RowSettled {} c' call := by
  obtain ⟨r,c',h,hc⟩ := Script.play_any {} runPair.run (fun c' => decide (stoppedSince {} c' = [] ∧
    ∀ x ∈ ranSince {} c', x.outcome = .returned)) (by decide +kernel)
  obtain ⟨hstopped,hran⟩ := of_decide_eq_true hc
  refine ⟨r,c',h,(effects_are_settled rfl (by decide) h).2 ⟨?_,?_⟩⟩
  · intro _ _ _ _ hstop
    cases hstopped ▸ hstop
  · rintro _ _ _ _ ⟨x,hx,-,hfailed⟩
    cases (hran x hx).symm.trans hfailed

-- The first call fails: the second has returned, and its row says that it failed.
theorem returned_sibling_settled_failed :
    ∃ r c', Executes (running True) runPair.run {} r c' ∧
    (ranSince {} c').map (fun x => (x.asked.id,x.outcome)) = [("1",.failed),("2",.returned)] ∧
    c'.effects "2" = some .failed := by
  obtain ⟨r,c',h,hc⟩ := Script.play_any { fails := (· == "1") } runPair.run (fun c' => decide
    ((ranSince {} c').map (fun x => (x.asked.id,x.outcome)) = [("1",.failed),("2",.returned)] ∧
    c'.effects "2" = some .failed)) (by decide +kernel)
  exact ⟨r,c',h,of_decide_eq_true hc⟩

end Harness.AgentLoop
