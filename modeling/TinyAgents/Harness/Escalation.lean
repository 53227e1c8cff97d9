import Mathlib.Data.List.Dedup
import Mathlib.Data.List.Perm.Subperm
import TinyAgents.Harness.RepeatMonitor

namespace Harness

open Interaction List Option

abbrev ToolCall := String × String

variable (c : ToolCall) (e : MonitorEntry)

def signatureOf : String := callSignature c.1 c.2

theorem signatureOf_inj {c d : ToolCall} (h : signatureOf c = signatureOf d) : c = d :=
  Prod.ext_iff.2 (callSignature_inj h)

def MonitorCall.target : MonitorCall → Option ToolCall
  | .preCall tool arguments | .recordCall tool arguments _ _ => some (tool,arguments)
  | _ => none

def MonitorCall.result : MonitorCall → Option (ToolCall × String)
  | .recordCall tool arguments outcome _ => some ((tool,arguments),outcome)
  | _ => none

def callsOf (t : List MonitorEntry) : List ToolCall :=
  t.filterMap fun e => e.1.target

def resultsOf (t : List MonitorEntry) : List (ToolCall × String) :=
  t.filterMap fun e => e.1.result

structure Tracked (H : Hashes) (t : List MonitorEntry) : Prop where
  calls : ∀ c ∈ callsOf t, ∀ d ∈ callsOf t,
    H.hashOf (signatureOf c) = H.hashOf (signatureOf d) → signatureOf c = signatureOf d
  results : ∀ r ∈ resultsOf t, ∀ q ∈ resultsOf t,
    H.hashPair (signatureOf r.1) r.2 = H.hashPair (signatureOf q.1) q.2 →
      (signatureOf r.1,r.2) = (signatureOf q.1,q.2)
  few : (callsOf t).dedup.length < maxTrackedCalls

def clears : Bool :=
  match e.1 with
  | .onContextEvicted => true
  | .reset => true
  | _ => false

def records : Bool :=
  match e.1 with
  | .recordCall tool arguments _ _ => (tool,arguments) = c
  | _ => false

def changesState : Bool :=
  match e.1 with
  | .recordCall _ _ _ readOnly => !readOnly
  | .noteUntrackedSuccess readOnly => !readOnly
  | _ => false

def Warns : Prop :=
  ∃ outcome readOnly message notes, e =
    (.recordCall c.1 c.2 outcome readOnly,.observation ⟨.warn message,notes⟩)

def lastResult (c : ToolCall) : List MonitorEntry → Option String
  | [] => none
  | e :: t =>
    match e.1 with
    | .recordCall tool arguments outcome _ =>
      if (tool,arguments) = c then some outcome else lastResult c t
    | _ => lastResult c t

def blocksSinceNew (c : ToolCall) : List MonitorEntry → Nat
  | [] => 0
  | e :: t =>
    match e with
    | (.preCall tool arguments,.gate gate) =>
      if (tool,arguments) = c ∧ gate ≠ .allow then blocksSinceNew c t+1
      else blocksSinceNew c t
    | (.recordCall tool arguments outcome _,_) =>
      if (tool,arguments) = c ∧ (lastResult c t).any (· ≠ outcome) then 0
      else blocksSinceNew c t
    | _ => blocksSinceNew c t

structure Staged (escalation : Option RepeatEscalation) (t : List MonitorEntry) : Prop where
  warned : Always (fun e past => ∀ c gate, e = (.preCall c.1 c.2,.gate gate) → gate ≠ .allow →
    ∃ w ∈ since clears past, Warns c w) t
  halted : Always (fun e past => ∀ c summary, e = (.preCall c.1 c.2,.gate (.halt summary)) →
    ∃ x ∈ escalation, x.haltBlock ≤ blocksSinceNew c (e :: past)) t
  changed : Always (fun e past => ∀ c gate, e = (.preCall c.1 c.2,.gate gate) →
    (∃ x ∈ since (records c) past, changesState x) → gate = .allow) t

section

variable {t : List MonitorEntry} {e : MonitorEntry}

theorem callsOf_cons (e : MonitorEntry) (t : List MonitorEntry) :
    callsOf (e :: t) = e.1.target.toList ++ callsOf t := by
  unfold callsOf
  rw [filterMap_cons]
  cases e.1.target <;> rfl

theorem resultsOf_cons (e : MonitorEntry) (t : List MonitorEntry) :
    resultsOf (e :: t) = e.1.result.toList ++ resultsOf t := by
  unfold resultsOf
  rw [filterMap_cons]
  cases e.1.result <;> rfl

theorem mem_callsOf_cons {c : ToolCall} (h : c ∈ callsOf t) : c ∈ callsOf (e :: t) := by
  rw [callsOf_cons]
  exact mem_append_right _ h

variable {r : ToolCall × String}

theorem mem_resultsOf_cons (h : r ∈ resultsOf t) : r ∈ resultsOf (e :: t) := by
  rw [resultsOf_cons]
  exact mem_append_right _ h

theorem target_of_result {call : MonitorCall} (h : call.result = some r) :
    call.target = some r.1 := by
  cases call with
  | recordCall =>
    cases h
    rfl
  | _ => cases h

theorem mem_callsOf_of_result (h : r ∈ resultsOf t) : r.1 ∈ callsOf t := by
  obtain ⟨e,he,hr⟩ := mem_filterMap.1 h
  exact mem_filterMap.2 ⟨e,he,target_of_result hr⟩

theorem Tracked.tail {H : Hashes} (h : Tracked H (e :: t)) : Tracked H t where
  calls := fun c hc d hd => h.calls c (mem_callsOf_cons hc) d (mem_callsOf_cons hd)
  results := fun r hr q hq => h.results r (mem_resultsOf_cons hr) q (mem_resultsOf_cons hq)
  few := by
    refine Nat.lt_of_le_of_lt ?_ h.few
    apply List.Subperm.length_le
    apply subperm_of_subset (nodup_dedup _)
    intro c hc
    exact mem_dedup.2 (mem_callsOf_cons (mem_dedup.1 hc))

end

namespace SuccessfulRepeatTracker

variable {T : SuccessfulRepeatTracker} {t : List MonitorEntry} {s s' : RepeatState}
  {e : MonitorEntry}

def callKey (T : SuccessfulRepeatTracker) (c : ToolCall) : UInt64 :=
  T.hashes.hashOf (signatureOf c)

def resultKey (T : SuccessfulRepeatTracker) (r : ToolCall × String) : UInt64 :=
  T.hashes.hashPair (signatureOf r.1) r.2

variable {c : ToolCall}

theorem resultKey_inj (h : Tracked T.hashes t) {r q} (hr : r ∈ resultsOf t) (hq : q ∈ resultsOf t)
    (hk : T.resultKey r = T.resultKey q) : r = q := by
  obtain ⟨hs,ho⟩ := Prod.ext_iff.1 (h.results r hr q hq hk)
  exact Prod.ext_iff.2 ⟨signatureOf_inj hs,ho⟩

structure Ledgered (T : SuccessfulRepeatTracker) (t : List MonitorEntry) (s : RepeatState) :
    Prop where
  recurring : ∀ k n, s.recurrences.lookup k = some n → ∃ r ∈ resultsOf t, T.resultKey r = k ∧
    (T.callThreshold ≤ n → ∃ w ∈ since clears t, Warns r.1 w)
  last : ∀ h k, s.lastOutcome.lookup h = some k → ∃ r ∈ resultsOf t, T.callKey r.1 = h ∧
    T.resultKey r = k ∧ lastResult r.1 t = some r.2
  blocks : ∀ h n, s.blocks.lookup h = some n → (s.lastOutcome.lookup h).isSome ∧
    ∃ c ∈ callsOf t, T.callKey c = h ∧ n ≤ blocksSinceNew c t
  predictable : ∀ h ∈ s.predictable, ∃ c ∈ callsOf t, T.callKey c = h ∧
    ∀ x ∈ since (records c) t, changesState x = false

theorem ledgered_init : Ledgered T [] {} where
  recurring := by simp
  last := by simp
  blocks := by simp
  predictable := by simp

theorem records_of_result (h : e.1.result = none) : records c e = false := by
  obtain ⟨call,_⟩ := e
  cases call with
  | recordCall => cases h
  | _ => rfl

theorem lastResult_cons (h : e.1.result = none) : lastResult c (e :: t) = lastResult c t := by
  obtain ⟨call,_⟩ := e
  cases call with
  | recordCall => cases h
  | _ => rfl

theorem Ledgered.next (h : Ledgered T t s) (hr : e.1.result = none)
    (hrec : s'.recurrences = .empty ∨ s'.recurrences = s.recurrences ∧ clears e = false)
    (hlast : s'.lastOutcome = .empty ∨ s'.lastOutcome = s.lastOutcome)
    (hpred : s'.predictable = [] ∨ s'.predictable = s.predictable ∧ changesState e = false)
    (hblocks : ∀ k n, s'.blocks.lookup k = some n → (s'.lastOutcome.lookup k).isSome ∧
      ∃ c ∈ callsOf (e :: t), T.callKey c = k ∧ n ≤ blocksSinceNew c (e :: t)) :
    Ledgered T (e :: t) s' where
  recurring := by
    intro k n hk
    rcases hrec with hrec | ⟨hrec,hc⟩
    · rw [hrec] at hk
      cases hk
    rw [hrec] at hk
    obtain ⟨r,hm,hkey,hw⟩ := h.recurring k n hk
    refine ⟨r,mem_resultsOf_cons hm,hkey,fun hn => ?_⟩
    obtain ⟨w,hw,hwarn⟩ := hw hn
    rw [since_cons_of_neg hc]
    exact ⟨w,mem_cons_of_mem _ hw,hwarn⟩
  last := by
    intro k v hk
    rcases hlast with hlast | hlast
    · rw [hlast] at hk
      cases hk
    rw [hlast] at hk
    obtain ⟨r,hm,hcall,hkey,hres⟩ := h.last k v hk
    refine ⟨r,mem_resultsOf_cons hm,hcall,hkey,?_⟩
    rw [lastResult_cons hr,hres]
  blocks := hblocks
  predictable := by
    intro k hk
    rcases hpred with hpred | ⟨hpred,hc⟩
    · rw [hpred] at hk
      cases hk
    rw [hpred] at hk
    obtain ⟨c,hm,hkey,hx⟩ := h.predictable k hk
    refine ⟨c,mem_callsOf_cons hm,hkey,?_⟩
    rw [since_cons_of_neg (records_of_result hr),forall_mem_cons]
    exact ⟨hc,hx⟩

theorem Ledgered.blocks_next (h : Ledgered T t s)
    (hb : ∀ c, blocksSinceNew c t ≤ blocksSinceNew c (e :: t)) {k : UInt64} {n : Nat}
    (hk : s.blocks.lookup k = some n) :
    (s.lastOutcome.lookup k).isSome ∧ ∃ c ∈ callsOf (e :: t), T.callKey c = k ∧
      n ≤ blocksSinceNew c (e :: t) := by
  obtain ⟨hl,c,hm,hkey,hn⟩ := h.blocks k n hk
  exact ⟨hl,c,mem_callsOf_cons hm,hkey,Nat.le_trans hn (hb c)⟩

theorem Ledgered.room (h : Ledgered T t s) (ht : Tracked T.hashes t) (call : UInt64) :
    predictionHasRoom s call := by
  have hsub : s.lastOutcome.entries.map Prod.fst ⊆ (callsOf t).dedup.map T.callKey := by
    intro k hk
    obtain ⟨⟨k',v⟩,hm,rfl⟩ := mem_map.1 hk
    have hlookup : s.lastOutcome.lookup k' = some v := by
      rw [Map.lookup,Table.get_eq_some.2 ⟨hm,rfl⟩]
      rfl
    obtain ⟨r,hr,hkey,-⟩ := h.last k' v hlookup
    exact mem_map.2 ⟨r.1,mem_dedup.2 (mem_callsOf_of_result hr),hkey⟩
  have hlen := (subperm_of_subset s.lastOutcome.nodup hsub).length_le
  rw [length_map,length_map] at hlen
  simp [predictionHasRoom,Nat.lt_of_le_of_lt hlen ht.few]

section

variable {c : ToolCall} {outcome : String} {readOnly : Bool} {answer : MonitorAnswer}
  {escalation : RepeatEscalation}

theorem countRecurrence_lookup {key k : UInt64} {n : Nat}
    (h : (countRecurrence s key).2.recurrences.lookup k = some n) :
    s.recurrences.lookup k = some n ∨ k = key ∧ n = (countRecurrence s key).1 ∧
    n = satAdd ((s.recurrences.lookup key).getD 0) 1 := by
  unfold countRecurrence at h ⊢
  split at h
  · exact .inl h
  next hc =>
    rw [if_neg hc]
    rw [Map.lookup_put] at h
    split at h
    next hk =>
      cases h
      exact .inr ⟨hk.symm,rfl,rfl⟩
    · exact .inl h

theorem cycleVerdict_warns (he : T.escalation = some escalation) (hT : T.callThreshold < u32Max) :
    T.cycleVerdict T.callThreshold = .warn (cycleWarning T.callThreshold) := by
  have hgap : 1 ≤ escalation.gap := Nat.le_max_right _ _
  have hbelow : ¬ satAdd (T.blockCount escalation) (escalation.haltBlock-1) ≤ T.callThreshold := by
    unfold blockCount satAdd
    omega
  simp [cycleVerdict,he,hbelow]

theorem recordCallIdentity_room (he : T.escalation = some escalation)
    (hroom : predictionHasRoom s (T.callKey c)) :
    (T.recordCallIdentity s (signatureOf c) outcome).2 = { s with
      recurrences := (countRecurrence s (T.resultKey (c,outcome))).2.recurrences
      lastOutcome := s.lastOutcome.put (T.callKey c) (T.resultKey (c,outcome))
      predictable := s.predictable.insert (T.callKey c)
      blocks := if (s.lastOutcome.lookup (T.callKey c)).any (· ≠ T.resultKey (c,outcome)) then
          s.blocks.remove (T.callKey c) else s.blocks } := by
  have hrest (key) : (countRecurrence s key).2 =
      { s with recurrences := (countRecurrence s key).2.recurrences } := by
    unfold countRecurrence
    split <;> rfl
  change T.predict (countRecurrence s (T.resultKey (c,outcome))).2 (T.callKey c)
    (T.resultKey (c,outcome)) = _
  rw [hrest,predict,if_pos ⟨by rw [he]; rfl,hroom⟩]

structure Observed (T : SuccessfulRepeatTracker) (t : List MonitorEntry) (s : RepeatState)
    (c : ToolCall) (outcome : String) (readOnly : Bool) (answer : MonitorAnswer)
    (s' : RepeatState) : Prop where
  tracked : Tracked T.hashes ((.recordCall c.1 c.2 outcome readOnly,answer) :: t)
  answer : ∀ message, T.cycleVerdict (countRecurrence s (T.resultKey (c,outcome))).1 =
    .warn message → ∃ notes, answer = .observation ⟨.warn message,notes⟩
  recurrences : s'.recurrences = (countRecurrence s (T.resultKey (c,outcome))).2.recurrences
  lastOutcome : s'.lastOutcome = s.lastOutcome.put (T.callKey c) (T.resultKey (c,outcome))
  blocks : s'.blocks = if (s.lastOutcome.lookup (T.callKey c)).any (· ≠ T.resultKey (c,outcome))
    then s.blocks.remove (T.callKey c) else s.blocks
  predictable : ∀ k ∈ s'.predictable, k = T.callKey c ∨ k ∈ s.predictable ∧ readOnly = true

theorem mem_resultsOf_recordCall :
    (c,outcome) ∈ resultsOf ((.recordCall c.1 c.2 outcome readOnly,answer) :: t) := by
  rw [resultsOf_cons]
  exact mem_append_left _ (by simp [MonitorCall.result])

theorem blocksSinceNew_recordCall {d : ToolCall} (hd : c ≠ d ∨ lastResult c t = some outcome) :
    blocksSinceNew d ((.recordCall c.1 c.2 outcome readOnly,answer) :: t) = blocksSinceNew d t := by
  simp only [blocksSinceNew]
  rw [if_neg]
  rintro ⟨rfl,hany⟩
  rcases hd with hd | hd
  · exact hd rfl
  · simp [hd] at hany

namespace Observed

variable (o : Observed T t s c outcome readOnly answer s')
include o

theorem eq_of_resultKey {r} (hr : r ∈ resultsOf t) (hk : T.resultKey r = T.resultKey (c,outcome)) :
    r = (c,outcome) :=
  resultKey_inj o.tracked (mem_resultsOf_cons hr) mem_resultsOf_recordCall hk

theorem ledgered (h : Ledgered T t s) (he : T.escalation = some escalation)
    (hT : T.callThreshold < u32Max) :
    Ledgered T ((.recordCall c.1 c.2 outcome readOnly,answer) :: t) s' where
  recurring := by
    intro k n hk
    have hold {r : ToolCall × String} (hw : ∃ w ∈ since clears t, Warns r.1 w) :
        ∃ w ∈ since clears ((.recordCall c.1 c.2 outcome readOnly,answer) :: t), Warns r.1 w := by
      obtain ⟨w,hm,hw⟩ := hw
      rw [since_cons_of_neg rfl]
      exact ⟨w,mem_cons_of_mem _ hm,hw⟩
    rw [o.recurrences] at hk
    rcases countRecurrence_lookup hk with hk | ⟨rfl,hn,hsat⟩
    · obtain ⟨r,hr,hkey,hw⟩ := h.recurring k n hk
      exact ⟨r,mem_resultsOf_cons hr,hkey,fun hn => hold (hw hn)⟩
    refine ⟨(c,outcome),mem_resultsOf_recordCall,rfl,fun _ => ?_⟩
    by_cases hbefore : T.callThreshold ≤ (s.recurrences.lookup (T.resultKey (c,outcome))).getD 0
    · -- the warning came with an earlier recurrence
      cases hl : s.recurrences.lookup (T.resultKey (c,outcome)) with
      | none =>
        rw [hl] at hbefore
        exact absurd (Nat.le_trans T.positive hbefore) (by decide)
      | some m =>
        rw [hl] at hbefore
        obtain ⟨r,hr,hkey,hw⟩ := h.recurring _ m hl
        rw [← o.eq_of_resultKey hr hkey]
        exact hold (hw hbefore)
    · have heq : n = T.callThreshold := by
        unfold satAdd at hsat
        omega
      rw [heq] at hn
      have hv := cycleVerdict_warns he hT
      rw [hn] at hv
      obtain ⟨notes,ha⟩ := o.answer _ hv
      rw [since_cons_of_neg rfl]
      exact ⟨_,mem_cons_self,outcome,readOnly,_,notes,by rw [ha]⟩
  last := by
    intro k v hk
    rw [o.lastOutcome,Map.lookup_put] at hk
    split at hk
    next heq =>
      cases hk
      exact ⟨(c,outcome),mem_resultsOf_recordCall,heq,rfl,by simp [lastResult]⟩
    next hne =>
      obtain ⟨r,hr,hcall,hkey,hlast⟩ := h.last k v hk
      have hc : c ≠ r.1 := by
        rintro rfl
        exact hne hcall
      refine ⟨r,mem_resultsOf_cons hr,hcall,hkey,?_⟩
      simpa [lastResult,hc] using hlast
  blocks := by
    intro k n hk
    have hkept : s.blocks.lookup k = some n ∧
        (k = T.callKey c → ∀ v ∈ s.lastOutcome.lookup k, v = T.resultKey (c,outcome)) := by
      rw [o.blocks] at hk
      split at hk
      · rw [Map.lookup_remove] at hk
        split at hk
        · cases hk
        next hne => exact ⟨hk,fun heq => (hne heq).elim⟩
      next hany =>
        refine ⟨hk,?_⟩
        rintro rfl v hv
        by_contra hne
        exact hany (by simp [mem_def.1 hv,hne])
    obtain ⟨hl,d,hd,hkey,_⟩ := h.blocks k n hkept.1
    refine ⟨?_,d,mem_callsOf_cons hd,hkey,?_⟩
    · rw [o.lastOutcome,Map.lookup_put]
      split
      · rfl
      · exact hl
    · rwa [blocksSinceNew_recordCall]
      by_cases hdc : c = d
      · subst hdc
        obtain ⟨v,hv⟩ := isSome_iff_exists.1 hl
        obtain ⟨r,hr,_,hres,hlast⟩ := h.last k v hv
        rw [hkept.2 hkey.symm v hv] at hres
        cases o.eq_of_resultKey hr hres
        exact .inr hlast
      · exact .inl hdc
  predictable := by
    intro k hk
    have hself : records c (.recordCall c.1 c.2 outcome readOnly,answer) := by
      simp [records]
    have hnow : ∀ x ∈ since (records c) ((.recordCall c.1 c.2 outcome readOnly,answer) :: t),
        changesState x = false := by
      rw [since_cons_of_pos hself]
      simp
    rcases o.predictable k hk with rfl | ⟨hold,rfl⟩
    · exact ⟨c,mem_callsOf_of_result mem_resultsOf_recordCall,rfl,hnow⟩
    obtain ⟨d,hd,hkey,hx⟩ := h.predictable k hold
    refine ⟨d,mem_callsOf_cons hd,hkey,?_⟩
    by_cases hdc : c = d
    · subst hdc
      exact hnow
    · rw [since_cons_of_neg (by simpa [records] using hdc),forall_mem_cons]
      exact ⟨rfl,hx⟩

end Observed

structure Stopped (T : SuccessfulRepeatTracker) (s : RepeatState) (call : UInt64)
    (gate : CallGate) : Prop where
  stops : gate ≠ .allow
  reason : ∃ escalation ∈ T.escalation, ∃ count ∈ predicted s call,
    T.blockCount escalation ≤ satAdd count 1 ∧
      ∀ summary, gate = .halt summary → escalation.haltBlock ≤ (countBlock s call).1

variable {gate : CallGate}

theorem preCall_cases (T : SuccessfulRepeatTracker) (s : RepeatState) (call : String) :
    T.preCall s call = (.allow,s) ∨ Stopped T s (T.hashes.hashOf call) (T.preCall s call).1 ∧
    (T.preCall s call).2 = (countBlock s (T.hashes.hashOf call)).2 := by
  unfold preCall
  split
  next escalation count he hp =>
    split
    · exact .inl rfl
    next hcount =>
      right
      have hle := Nat.le_of_not_lt hcount
      simp only
      split
      next hhalt =>
        exact ⟨⟨by simp,escalation,he,count,hp,hle,fun _ _ => hhalt⟩,rfl⟩
      · exact ⟨⟨by simp,escalation,he,count,hp,hle,by simp⟩,rfl⟩
  · exact .inl rfl

variable {call : UInt64}

theorem countBlock_lookup {k : UInt64} {n : Nat}
    (h : (countBlock s call).2.blocks.lookup k = some n) :
    s.blocks.lookup k = some n ∨ k = call ∧ n = (countBlock s call).1 := by
  unfold countBlock at h ⊢
  split at h
  · exact .inl h
  next hc =>
    rw [if_neg hc]
    rw [Map.lookup_put] at h
    split at h
    next hk =>
      cases h
      exact .inr ⟨hk.symm,rfl⟩
    · exact .inl h

theorem countBlock_le {m : Nat} (h : ∀ n, s.blocks.lookup call = some n → n ≤ m) :
    (countBlock s call).1 ≤ m+1 := by
  unfold countBlock
  split
  · exact Nat.le_add_left 1 m
  refine Nat.le_trans (Nat.min_le_left _ _) (Nat.succ_le_succ ?_)
  cases hl : s.blocks.lookup call with
  | none => exact Nat.zero_le m
  | some n => exact h n hl

theorem predicted_eq_some {count : Nat} (h : predicted s call = some count) :
    call ∈ s.predictable ∧ ∃ key ∈ s.lastOutcome.lookup call,
      (s.recurrences.lookup key).getD 0 = count := by
  unfold predicted at h
  split at h
  next hm =>
    obtain ⟨key,hk,hc⟩ := map_eq_some_iff.1 h
    exact ⟨hm,key,hk,hc⟩
  · cases h

theorem blocksSinceNew_le_preCall {d : ToolCall} :
    blocksSinceNew d t ≤ blocksSinceNew d ((.preCall c.1 c.2,.gate gate) :: t) := by
  simp only [blocksSinceNew]
  split <;> omega

theorem eq_of_preCall {d : ToolCall} (ht : Tracked T.hashes ((.preCall c.1 c.2,.gate gate) :: t))
    (hd : d ∈ callsOf t) (hk : T.callKey d = T.callKey c) : d = c :=
  signatureOf_inj (ht.calls _ (mem_callsOf_cons hd) _
    (by simp [callsOf_cons,MonitorCall.target]) hk)

namespace Stopped

variable {gate : CallGate} (hs : Stopped T s (T.callKey c) gate) (h : Ledgered T t s)
  (ht : Tracked T.hashes ((.preCall c.1 c.2,.gate gate) :: t))
include hs h ht

theorem warned (hT : T.callThreshold < u32Max) : ∃ w ∈ since clears t, Warns c w := by
  obtain ⟨escalation,-,count,hp,hle,-⟩ := hs.reason
  obtain ⟨-,key,hk,hc⟩ := predicted_eq_some hp
  have hcount : T.callThreshold ≤ count := by
    have hgap : 1 ≤ escalation.gap := Nat.le_max_right _ _
    unfold blockCount satAdd at hle
    omega
  obtain ⟨r,hr,hcall,hkey,-⟩ := h.last _ key hk
  cases hl : s.recurrences.lookup key with
  | none =>
    rw [hl] at hc
    have hpos := T.positive
    simp at hc
    omega
  | some n =>
    rw [hl] at hc
    cases hc
    obtain ⟨q,hq,hqkey,hw⟩ := h.recurring key n hl
    have hqr : q = r := resultKey_inj ht.tail hq hr (hqkey.trans hkey.symm)
    rw [← eq_of_preCall ht (mem_callsOf_of_result hr) hcall,← hqr]
    exact hw hcount

theorem unchanged : ∀ x ∈ since (records c) t, changesState x = false := by
  obtain ⟨-,-,_,hp,-,-⟩ := hs.reason
  obtain ⟨hm,-⟩ := predicted_eq_some hp
  obtain ⟨d,hd,hkey,hx⟩ := h.predictable _ hm
  rw [← eq_of_preCall ht hd hkey]
  exact hx

theorem count_le :
    (countBlock s (T.callKey c)).1 ≤ blocksSinceNew c ((.preCall c.1 c.2,.gate gate) :: t) := by
  simp only [blocksSinceNew,hs.stops,ne_eq,not_false_eq_true,and_self,if_true]
  apply countBlock_le
  intro n hn
  obtain ⟨-,d,hd,hkey,_⟩ := h.blocks _ n hn
  rwa [← eq_of_preCall ht hd hkey]

theorem ledgered :
    Ledgered T ((.preCall c.1 c.2,.gate gate) :: t) (countBlock s (T.callKey c)).2 := by
  have hrest : (countBlock s (T.callKey c)).2 =
      { s with blocks := (countBlock s (T.callKey c)).2.blocks } := by
    unfold countBlock
    split <;> rfl
  rw [hrest]
  refine h.next rfl (.inr ⟨rfl,rfl⟩) (.inr rfl) (.inr ⟨rfl,rfl⟩) fun k n hk => ?_
  rcases countBlock_lookup hk with hk | ⟨rfl,rfl⟩
  · exact h.blocks_next (fun d => blocksSinceNew_le_preCall) hk
  obtain ⟨-,-,_,hcount,-,-⟩ := hs.reason
  obtain ⟨-,key,hkey,-⟩ := predicted_eq_some hcount
  exact ⟨isSome_iff_exists.2 ⟨key,hkey⟩,c,by simp [callsOf_cons,MonitorCall.target],rfl,
    hs.count_le h ht⟩

end Stopped

end

end SuccessfulRepeatTracker

namespace RepeatMonitor

open SuccessfulRepeatTracker

variable {M : RepeatMonitor} {t : List MonitorEntry} {s : MonitorState}

theorem recordCall_tracker (M : RepeatMonitor) (s : MonitorState) (c : ToolCall) (outcome : String)
    (readOnly : Bool) :
    (M.recordCall s c.1 c.2 outcome readOnly).1.verdict =
      (M.tracker.recordCallIdentity s.tracker (signatureOf c) outcome).1 ∧
    (M.recordCall s c.1 c.2 outcome readOnly).2.tracker =
      if readOnly then (M.tracker.recordCallIdentity s.tracker (signatureOf c) outcome).2
      else M.tracker.invalidatePredictionsExcept
      (M.tracker.recordCallIdentity s.tracker (signatureOf c) outcome).2 (signatureOf c) := by
  refine ⟨rfl,?_⟩
  obtain ⟨_,pingPong,churn,guard⟩ := M
  cases pingPong <;> cases churn <;> cases guard <;> rfl

section

variable {escalation : Option RepeatEscalation} {e : MonitorEntry} {call : MonitorCall}

theorem staged_nil : Staged escalation [] :=
  ⟨always_nil,always_nil,always_nil⟩

theorem staged_cons (h : Staged escalation t)
    (he : ∀ c gate, e = (.preCall c.1 c.2,.gate gate) → gate ≠ .allow →
      (∃ w ∈ since clears t, Warns c w) ∧ (∀ summary, gate = .halt summary →
        ∃ x ∈ escalation, x.haltBlock ≤ blocksSinceNew c (e :: t)) ∧
      ∀ x ∈ since (records c) t, changesState x = false) : Staged escalation (e :: t) where
  warned := always_cons.2 ⟨fun c gate heq hg => (he c gate heq hg).1,h.warned⟩
  halted := always_cons.2 ⟨fun c summary heq => (he c _ heq (by simp)).2.1 summary rfl,h.halted⟩
  changed := by
    refine always_cons.2 ⟨fun c gate heq hx => ?_,h.changed⟩
    obtain ⟨x,hm,hx⟩ := hx
    by_contra hg
    rw [(he c gate heq hg).2.2 x hm] at hx
    cases hx

def asks : MonitorCall → Bool
  | .preCall _ _ => true
  | _ => false

variable {answer : MonitorAnswer}

theorem staged_cons_of_not_asks (h : Staged escalation t) (hc : asks call = false) :
    Staged escalation ((call,answer) :: t) := by
  apply staged_cons h
  rintro c _ heq
  cases heq
  cases hc

theorem ledgered_other {T} {s s' : RepeatState} (h : Ledgered T t s) (hc : call.target = none)
    (hrec : s'.recurrences = .empty ∨ s'.recurrences = s.recurrences ∧ clears (call,answer) = false)
    (hpred : s'.predictable = [] ∨ s'.predictable = s.predictable ∧
      changesState (call,answer) = false)
    (hlast : s'.lastOutcome = .empty ∧ s'.blocks = .empty ∨ s'.lastOutcome = s.lastOutcome ∧
      s'.blocks = s.blocks) :
    Ledgered T ((call,answer) :: t) s' := by
  have hr : call.result = none := by
    cases hq : call.result with
    | none => rfl
    | some =>
      rw [target_of_result hq] at hc
      cases hc
  rcases hlast with ⟨hl,hb⟩ | ⟨hl,hb⟩
  · apply h.next hr hrec (.inl hl) hpred
    intro k n hk
    rw [hb] at hk
    cases hk
  · apply h.next hr hrec (.inr hl) hpred
    intro k n hk
    rw [hb] at hk
    rw [hl]
    refine h.blocks_next (fun c => ?_) hk
    cases call with
    | preCall | recordCall => cases hc
    | _ => exact Nat.le_refl _

variable {x : RepeatEscalation}

theorem observed_recordCall (h : Ledgered M.tracker t s.tracker)
    (he : M.tracker.escalation = some x) {c : ToolCall} {outcome : String} {readOnly : Bool}
    (ht : Tracked M.tracker.hashes
      ((.recordCall c.1 c.2 outcome readOnly,
      .observation (M.recordCall s c.1 c.2 outcome readOnly).1) :: t)) :
    Observed M.tracker t s.tracker c outcome readOnly
      (.observation (M.recordCall s c.1 c.2 outcome readOnly).1)
      (M.recordCall s c.1 c.2 outcome readOnly).2.tracker := by
  obtain ⟨hv,hs⟩ := recordCall_tracker M s c outcome readOnly
  rw [recordCallIdentity_room he (h.room ht.tail _)] at hs
  constructor
  case tracked => exact ht
  case answer =>
    intro message hm
    have hverdict : (M.recordCall s c.1 c.2 outcome readOnly).1.verdict = .warn message :=
      hv.trans hm
    exact ⟨_,by rw [← hverdict]⟩
  case recurrences | lastOutcome | blocks =>
    rw [hs]
    split <;> rfl
  case predictable =>
    rw [hs]
    intro k hk
    split at hk
    next hro =>
      rcases mem_insert_iff.1 hk with rfl | hk
      · exact .inl rfl
      · exact .inr ⟨hk,hro⟩
    · exact .inl (of_decide_eq_true (mem_filter.1 hk).2)

theorem staged_preCall {c : ToolCall} {gate} {s' : RepeatState}
    (hp : M.tracker.preCall s.tracker (signatureOf c) = (gate,s'))
    (hT : M.tracker.callThreshold < u32Max) (h : Ledgered M.tracker t s.tracker)
    (hstaged : Staged M.tracker.escalation t)
    (ht : Tracked M.tracker.hashes ((.preCall c.1 c.2,.gate gate) :: t)) :
    Ledgered M.tracker ((.preCall c.1 c.2,.gate gate) :: t) s' ∧
      Staged M.tracker.escalation ((.preCall c.1 c.2,.gate gate) :: t) := by
  have hcases := preCall_cases M.tracker s.tracker (signatureOf c)
  rw [hp] at hcases
  obtain ⟨⟨⟩⟩ | ⟨hstop,rfl⟩ := hcases
  · constructor
    · apply h.next rfl (.inr ⟨rfl,rfl⟩) (.inr rfl) (.inr ⟨rfl,rfl⟩)
      exact fun k n hk => h.blocks_next (fun d => blocksSinceNew_le_preCall) hk
    apply staged_cons hstaged
    intro d gate heq hg
    exact (hg (MonitorAnswer.gate.inj (Prod.ext_iff.1 heq).2).symm).elim
  · refine ⟨hstop.ledgered h ht,staged_cons hstaged ?_⟩
    intro d gate heq _
    obtain ⟨hcall,hgate⟩ := Prod.ext_iff.1 heq
    obtain ⟨hc1,hc2⟩ := MonitorCall.preCall.inj hcall
    obtain rfl : c = d := Prod.ext_iff.2 ⟨hc1,hc2⟩
    refine ⟨hstop.warned h ht hT,fun summary hhalt => ?_,hstop.unchanged h ht⟩
    obtain ⟨x,hx,_,_,_,hhalts⟩ := hstop.reason
    refine ⟨x,hx,Nat.le_trans (hhalts summary ?_) (hstop.count_le h ht)⟩
    rw [← hhalt]
    exact MonitorAnswer.gate.inj hgate

theorem staged_step (he : M.tracker.escalation = some x) (hT : M.tracker.callThreshold < u32Max)
    (ih : Ledgered M.tracker t s.tracker ∧ Staged M.tracker.escalation t)
    (ht : Tracked M.tracker.hashes ((call,(M.recorder.step s call).1) :: t)) :
    Ledgered M.tracker ((call,(M.recorder.step s call).1) :: t) (M.recorder.step s call).2.tracker ∧
    Staged M.tracker.escalation ((call,(M.recorder.step s call).1) :: t) := by
  obtain ⟨h,hstaged⟩ := ih
  cases call with
  | recordOutput =>
    refine ⟨ledgered_other h rfl (.inr ⟨?_,rfl⟩) (.inr ⟨?_,rfl⟩) (.inr ⟨?_,?_⟩),
      staged_cons_of_not_asks hstaged rfl⟩
    all_goals
      simp only [recorder,recordOutput]
      split <;> rfl
  | recordCallBatch =>
    refine ⟨ledgered_other h rfl (.inr ⟨?_,rfl⟩) (.inr ⟨?_,rfl⟩) (.inr ⟨?_,?_⟩),
      staged_cons_of_not_asks hstaged rfl⟩
    all_goals
      simp only [recorder,recordCallBatch]
      split <;> rfl
  | noteUntrackedSuccess readOnly =>
    refine ⟨?_,staged_cons_of_not_asks hstaged rfl⟩
    cases readOnly with
    | true => exact ledgered_other h rfl (.inr ⟨rfl,rfl⟩) (.inr ⟨rfl,rfl⟩) (.inr ⟨rfl,rfl⟩)
    | false => exact ledgered_other h rfl (.inr ⟨rfl,rfl⟩) (.inl rfl) (.inr ⟨rfl,rfl⟩)
  | onContextEvicted =>
    exact ⟨ledgered_other h rfl (.inl rfl) (.inl rfl) (.inr ⟨rfl,rfl⟩),
      staged_cons_of_not_asks hstaged rfl⟩
  | reset =>
    exact ⟨ledgered_other h rfl (.inl rfl) (.inl rfl) (.inl ⟨rfl,rfl⟩),
      staged_cons_of_not_asks hstaged rfl⟩
  | recordCall tool arguments =>
    have hobserved := observed_recordCall (c := (tool,arguments)) h he ht
    exact ⟨hobserved.ledgered h he hT,staged_cons_of_not_asks hstaged rfl⟩
  | preCall tool arguments =>
    exact staged_preCall (c := (tool,arguments)) rfl hT h hstaged ht

theorem staged_step_of_none (he : M.tracker.escalation = none) (h : Staged escalation t) :
    Staged escalation ((call,(M.recorder.step s call).1) :: t) := by
  cases call with
  | preCall tool arguments =>
    apply staged_cons h
    intro c gate heq hg
    have hgate : (M.tracker.preCall s.tracker (callSignature tool arguments)).1 = gate :=
      MonitorAnswer.gate.inj (Prod.ext_iff.1 heq).2
    simp only [SuccessfulRepeatTracker.preCall,he] at hgate
    exact (hg hgate.symm).elim
  | _ => exact staged_cons_of_not_asks h rfl

theorem staged_play (hM : ∀ x ∈ M.tracker.escalation, M.tracker.callThreshold < u32Max) {calls}
    (ht : Tracked M.tracker.hashes (M.recorder.play calls).1) :
    Staged M.tracker.escalation (M.recorder.play calls).1 := by
  cases he : M.tracker.escalation with
  | none =>
    exact Recorder.play_inv (P := fun t _ => Staged none t) staged_nil
      (fun _ _ _ h => staged_step_of_none he h) calls
  | some x =>
    have hinv := Recorder.play_inv
      (P := fun t s => Tracked M.tracker.hashes t →
        Ledgered M.tracker t s.tracker ∧ Staged M.tracker.escalation t)
      (fun _ => ⟨ledgered_init,staged_nil⟩)
      (fun t s _ ih ht => staged_step he (hM x he) (ih ht.tail) ht) calls
    rw [← he]
    exact (hinv ht).2

end

variable {c : ToolCall} {outcome : String} {x : RepeatEscalation} {n : Nat}

structure Repeated (T : SuccessfulRepeatTracker) (c : ToolCall) (outcome : String) (n : Nat)
    (s : RepeatState) : Prop where
  count : (s.recurrences.lookup (T.resultKey (c,outcome))).getD 0 = n
  kept : (s.recurrences.lookup (T.resultKey (c,outcome))).isNone → s.recurrences.entries = []
  room : predictionHasRoom s (T.callKey c) = true
  held : 0 < n → T.callKey c ∈ s.predictable ∧
    s.lastOutcome.lookup (T.callKey c) = some (T.resultKey (c,outcome))

variable {T : SuccessfulRepeatTracker}

theorem Repeated.next {s} (h : Repeated T c outcome n s) (he : T.escalation = some x)
    (hn : n < u32Max) :
    Repeated T c outcome (n+1) (T.recordCallIdentity s (signatureOf c) outcome).2 ∧
    (T.recordCallIdentity s (signatureOf c) outcome).1 = T.cycleVerdict (n+1) := by
  have hsat : satAdd n 1 = n+1 := by
    unfold satAdd
    omega
  have hcount : countRecurrence s (T.resultKey (c,outcome)) = (n+1,
      { s with recurrences := s.recurrences.put (T.resultKey (c,outcome)) (n+1) }) := by
    unfold countRecurrence
    rw [if_neg,h.count,hsat]
    rintro ⟨hfull,hnone⟩
    rw [h.kept hnone] at hfull
    exact absurd hfull (by decide)
  constructor
  · rw [recordCallIdentity_room he h.room,hcount]
    constructor
    case count | kept | held => simp
    case room => simp [predictionHasRoom]
  · change T.cycleVerdict (countRecurrence s (T.resultKey (c,outcome))).1 = _
    rw [hcount]

theorem cycleVerdict_below (he : T.escalation = some x) (hT : T.callThreshold = u32Max)
    (hn : n < u32Max) : T.cycleVerdict n = .continue := by
  have hstop : ¬ satAdd (T.blockCount x) (x.haltBlock-1) ≤ n := by
    unfold blockCount satAdd
    omega
  have hne : n ≠ T.callThreshold := by omega
  simp [cycleVerdict,he,hstop,hne]

def repeating (c : ToolCall) (outcome : String) (n : Nat) : List MonitorCall :=
  List.replicate n (.recordCall c.1 c.2 outcome true)

theorem play_repeating (M : RepeatMonitor) (c : ToolCall) (outcome : String) (n : Nat) :
    M.recorder.play (repeating c outcome (n+1)) = let p := M.recorder.play (repeating c outcome n)
      let r := M.recordCall p.2 c.1 c.2 outcome true
      ((.recordCall c.1 c.2 outcome true,.observation r.1) :: p.1,r.2) := rfl

theorem repeating_unwarned (he : M.tracker.escalation = some x)
    (hT : M.tracker.callThreshold = u32Max) (c : ToolCall) (outcome : String) :
    ∀ {n : Nat}, n < u32Max →
    Repeated M.tracker c outcome n (M.recorder.play (repeating c outcome n)).2.tracker ∧
    ∀ w ∈ (M.recorder.play (repeating c outcome n)).1, ¬ Warns c w := by
  intro n
  induction n with
  | zero => exact fun _ => ⟨⟨rfl,fun _ => rfl,rfl,by simp⟩,by simp [repeating,Recorder.play]⟩
  | succ n ih =>
    intro hn
    rw [play_repeating]
    generalize M.recorder.play (repeating c outcome n) = p at ih
    obtain ⟨hr,hw⟩ := ih (by omega)
    obtain ⟨hnext,hverdict⟩ := hr.next he (by omega)
    rw [cycleVerdict_below he hT hn] at hverdict
    obtain ⟨hv,hs⟩ := recordCall_tracker M p.2 c outcome true
    constructor
    · simp only [hs]
      exact hnext
    rw [forall_mem_cons]
    refine ⟨?_,hw⟩
    rintro ⟨_,_,_,_,heq⟩
    have hobs := MonitorAnswer.observation.inj (Prod.ext_iff.1 heq).2
    rw [hobs,hverdict] at hv
    cases hv

theorem repeating_entries (M : RepeatMonitor) (c : ToolCall) (outcome : String) :
    ∀ (n : Nat), ∀ e ∈ (M.recorder.play (repeating c outcome n)).1,
    e.1 = .recordCall c.1 c.2 outcome true := by
  intro n
  induction n with
  | zero => simp [repeating,Recorder.play]
  | succ _ ih =>
    rw [play_repeating,forall_mem_cons]
    exact ⟨rfl,ih⟩

theorem tracked_of_one {H : Hashes} (hc : ∀ d ∈ callsOf t, d = c)
    (hr : ∀ r ∈ resultsOf t, r = (c,outcome)) : Tracked H t where
  calls := fun d hd d' hd' _ => by rw [hc d hd,hc d' hd']
  results := fun r hm r' hm' _ => by rw [hr r hm,hr r' hm']
  few := by
    have hsub : (callsOf t).dedup ⊆ [c] := fun d hd =>
      mem_singleton.2 (hc d (mem_dedup.1 hd))
    have hlen := (subperm_of_subset (nodup_dedup (callsOf t)) hsub).length_le
    exact Nat.lt_of_le_of_lt hlen (by simp [maxTrackedCalls])

theorem Repeated.stops {s} (h : Repeated T c outcome n s) (he : T.escalation = some x)
    (hT : T.callThreshold = u32Max) (hn : n+1 = u32Max) :
    (T.preCall s (signatureOf c)).1 ≠ .allow := by
  have hpos : 0 < n := by
    have : 1 < u32Max := by decide
    omega
  obtain ⟨hp,hl⟩ := h.held hpos
  have hpredicted : predicted s (T.hashes.hashOf (signatureOf c)) = some n := by
    have hp' : T.hashes.hashOf (signatureOf c) ∈ s.predictable := hp
    have hl' : s.lastOutcome.lookup (T.hashes.hashOf (signatureOf c)) =
      some (T.resultKey (c,outcome)) := hl
    rw [predicted,if_pos hp',hl',map_some,h.count]
  have hfull : ¬ satAdd n 1 < T.blockCount x := by
    unfold blockCount satAdd
    omega
  simp only [SuccessfulRepeatTracker.preCall,he,hpredicted]
  rw [if_neg hfull]
  split <;> simp

theorem not_staged_of_saturated (he : M.tracker.escalation = some x)
    (hT : M.tracker.callThreshold = u32Max) (c : ToolCall) (outcome : String) (hn : n+1 = u32Max) :
    Tracked M.tracker.hashes (M.recorder.play (.preCall c.1 c.2 :: repeating c outcome n)).1 ∧
    ¬ Staged M.tracker.escalation
      (M.recorder.play (.preCall c.1 c.2 :: repeating c outcome n)).1 := by
  obtain ⟨hr,hw⟩ := repeating_unwarned he hT c outcome (n := n) (by omega)
  have hentries := repeating_entries M c outcome n
  change Tracked _ ((_,.gate (M.tracker.preCall _ (signatureOf c)).1) :: _) ∧
    ¬ Staged _ ((_,.gate (M.tracker.preCall _ (signatureOf c)).1) :: _)
  generalize M.recorder.play (repeating c outcome n) = p at hr hw hentries
  constructor
  · apply tracked_of_one
    · intro d hd
      rcases mem_append.1 (callsOf_cons _ _ ▸ hd) with hd | hd
      · simpa [MonitorCall.target] using hd
      obtain ⟨e,hm,ht⟩ := mem_filterMap.1 hd
      rw [hentries e hm] at ht
      exact (Option.some.inj ht).symm
    · intro r hr
      obtain ⟨e,hm,ht⟩ := mem_filterMap.1 (resultsOf_cons _ _ ▸ hr)
      rw [hentries e hm] at ht
      exact (Option.some.inj ht).symm
  · intro hstaged
    obtain ⟨w,hm,hwarns⟩ := (always_cons.1 hstaged.warned).1 c _ rfl (hr.stops he hT hn)
    exact hw w (takeWhile_subset _ hm) hwarns

theorem monitor_stages_iff (H : Hashes) (config : RepeatProgressConfig) :
    (∀ calls, Tracked H ((new H config).recorder.play calls).1 →
      Staged config.escalation ((new H config).recorder.play calls).1) ↔
    (config.escalation.isSome → config.callThreshold < u32Max) := by
  have hthreshold : (new H config).tracker.callThreshold = max config.callThreshold 1 := rfl
  have hone : 1 < u32Max := by decide
  constructor
  · intro hall hsome
    by_contra hle
    obtain ⟨x,hx⟩ := isSome_iff_exists.1 hsome
    have hfits := config.fits
    obtain ⟨ht,hn⟩ := not_staged_of_saturated (M := new H config) (n := u32Max-1) hx
      (by omega) ("","") "" (by omega)
    exact hn (hall _ ht)
  · intro hlt _ ht
    apply staged_play (M := new H config) _ ht
    intro x hx
    rw [hthreshold]
    have hc := hlt (isSome_iff_exists.2 ⟨x,hx⟩)
    omega

def byLength : Hashes where
  hashOf := fun s => s.length.toUInt64
  hashPair := fun s o => (s.length+o.length).toUInt64

def widest : RepeatProgressConfig where
  callThreshold := u32Max

-- The call has returned its result once less than the threshold, so it was never warned of.
theorem widest_blocks_unwarned :
    Tracked byLength
      ((new byLength widest).recorder.play
      (.preCall "ls" "" :: repeating ("ls","") "a" (u32Max-1))).1 ∧
    ¬ Staged widest.escalation
      ((new byLength widest).recorder.play
      (.preCall "ls" "" :: repeating ("ls","") "a" (u32Max-1))).1 :=
  not_staged_of_saturated (M := new byLength widest) rfl rfl ("ls","") "a"
    (by decide)

end RepeatMonitor

end Harness
