import TinyAgents.Completions.Store

namespace Completions

open Interaction CompletionRecord Store

def CompletionRecord.unstamped (r : CompletionRecord) : CompletionRecord :=
  { r with updatedAt := 0 }

def SameRecords (s t : Records) : Prop :=
  ∀ taskId, (t.get taskId).map unstamped =
    (s.get taskId).map unstamped

def SettlesAlike (s t : Store) : Prop :=
  ∀ request gate now, s.GateCurrent request.parentKey request.gate now →
    t.GateCurrent request.parentKey gate now →
      (t.resolveClaim { request with gate := gate } now).map Prod.fst =
        (s.resolveClaim request now).map Prod.fst

namespace Store

def stamped (s : Store) (r : CompletionRecord) (now : Nat) : CompletionRecord :=
  if s.processLocal then r else { r with updatedAt := now }

def putCopy (s : Store) (r : CompletionRecord) (parentKey : String) (gate : ParentGateClaim)
    (now : Nat) : Except Fault (Unit × Store) :=
  s.putFenced (s.stamped r now) parentKey gate now

def Copies (r : CompletionRecord) (s s' : Store) : Prop :=
  s'.processLocal = s.processLocal ∧
    ∃ now, s'.records = s.records.insert (s.adoptEpoch (s.stamped r now))

def Copied : List CompletionRecord → Store → Store → Prop
  | [], s, s' => s'.processLocal = s.processLocal ∧ s'.records = s.records
  | r :: l, s, s' => ∃ t, s.Copies r t ∧ Copied l t s'

end Store

section

variable {s t s' : Store}

theorem Store.Copies.congr {r} {t' : Store} (h : s.Copies r s') (hr : t.records = s.records)
    (hp : t.processLocal = s.processLocal) (hr' : t'.records = s'.records)
    (hp' : t'.processLocal = s'.processLocal) : t.Copies r t' := by
  obtain ⟨hs,now,hw⟩ := h
  refine ⟨hp'.trans (hs.trans hp.symm),now,?_⟩
  rw [hr',hw,adoptEpoch,adoptEpoch,stamped,stamped,hr,hp]

theorem Store.Copied.congr {l} {t' : Store} (h : Copied l s s') (hr : t.records = s.records)
    (hp : t.processLocal = s.processLocal) (hr' : t'.records = s'.records)
    (hp' : t'.processLocal = s'.processLocal) : Copied l t t' := by
  induction l generalizing s t with
  | nil => exact ⟨hp'.trans (h.1.trans hp.symm),hr'.trans (h.2.trans hr.symm)⟩
  | cons _ _ ih =>
    obtain ⟨u,hu,h⟩ := h
    exact ⟨u,hu.congr hr hp rfl rfl,ih h rfl rfl⟩

theorem putCopy_copies {r} {parentKey : String} {gate} {now : Nat}
    (h : s.putCopy r parentKey gate now = .ok ((),s')) : s.Copies r s' := by
  unfold putCopy putFenced withCurrentGate at h
  split at h
  · cases h
    exact ⟨rfl,now,rfl⟩
  · cases h

end

def OpensFirst (t : Records) : List CompletionRecord → Prop
  | [] => False
  | r :: l =>
    (r.parentEpoch = 0 ∧ r.parentKey ≠ "" ∧ (t.get (parentMarkerId r.parentKey)).any
      fun marker => marker.state = .delivered ∧ marker.parentEpoch ≠ 0) ∨
    OpensFirst (t.insert r) l

section

variable {s : Store} {r : CompletionRecord} {now : Nat}

theorem adoptEpoch_cases :
    s.adoptEpoch r = r ∨ s.processLocal ∧ r.parentEpoch = 0 ∧ r.parentKey ≠ "" ∧
      ∃ marker, s.records.get (parentMarkerId r.parentKey) = some marker ∧
        marker.state = .delivered ∧
        s.adoptEpoch r = { r with parentEpoch := marker.parentEpoch } := by
  unfold adoptEpoch
  split
  next h =>
    split
    next marker hm =>
      split
      next hd => exact .inr ⟨h.1,h.2.1,h.2.2,marker,hm,hd,rfl⟩
      · exact .inl rfl
    · exact .inl rfl
  · exact .inl rfl

theorem adoptEpoch_stamped :
    ∃ t, s.adoptEpoch (s.stamped r now) = { s.adoptEpoch r with updatedAt := t } := by
  unfold stamped
  split
  · exact ⟨_,rfl⟩
  next h =>
    refine ⟨now,?_⟩
    simp [adoptEpoch,h]

theorem unstamped_written :
    (s.adoptEpoch (s.stamped r now)).unstamped = (s.adoptEpoch r).unstamped := by
  obtain ⟨t,ht⟩ := adoptEpoch_stamped
  rw [ht]
  rfl

theorem taskId_written : (s.adoptEpoch (s.stamped r now)).taskId = r.taskId := by
  obtain ⟨t,ht⟩ := adoptEpoch_stamped
  rw [ht]
  rcases adoptEpoch_cases with h | ⟨-,-,-,_,-,-,h⟩
  all_goals rw [h]

def SameRecord (r r' : CompletionRecord) : Prop :=
  r'.unstamped = r.unstamped

def Raised (r r' : CompletionRecord) : Prop :=
  r'.state = r.state ∧ (r.parentEpoch ≠ 0 → r'.parentEpoch = r.parentEpoch)

variable {r' : CompletionRecord} {l : List CompletionRecord} {t : Records} {s' : Store}

theorem SameRecord.state (h : SameRecord r r') : r'.state = r.state := by
  have hs : r'.unstamped.state = r.unstamped.state := congrArg CompletionRecord.state h
  exact hs

theorem SameRecord.parentEpoch (h : SameRecord r r') : r'.parentEpoch = r.parentEpoch := by
  have he : r'.unstamped.parentEpoch = r.unstamped.parentEpoch :=
    congrArg CompletionRecord.parentEpoch h
  exact he

theorem unstamped_of_rel {a b} (h : Option.Rel SameRecord a b) :
    b.map unstamped = a.map unstamped := by
  cases h with
  | none => rfl
  | some h => exact congrArg some h

theorem SameRecord.eq (h : SameRecord r r') : r' = { r with updatedAt := r'.updatedAt } := by
  have hr : { r'.unstamped with updatedAt := r'.updatedAt } =
      { r.unstamped with updatedAt := r'.updatedAt } := by rw [h]
  exact hr

theorem raised_written {now : Nat} : Raised r (s.adoptEpoch (s.stamped r now)) := by
  have hs : SameRecord (s.adoptEpoch r) (s.adoptEpoch (s.stamped r now)) := unstamped_written
  rcases adoptEpoch_cases with h | ⟨-,h0,-,_,-,-,h⟩
  · rw [h] at hs
    exact ⟨hs.state,fun _ => hs.parentEpoch⟩
  · rw [h] at hs
    exact ⟨hs.state,fun hr => absurd h0 hr⟩

theorem sameRecord_written {now : Nat} (hs : Table.Related SameRecord t s.records)
    (hl : s.processLocal → ¬ OpensFirst t [r]) : SameRecord r (s.adoptEpoch (s.stamped r now)) := by
  refine unstamped_written.trans ?_
  rcases adoptEpoch_cases with ha | ⟨hp,h0,hk,marker,hm,hd,ha⟩
  · rw [ha]
  obtain ⟨m,ht,hmm⟩ := hs.right hm
  have hzero : marker.parentEpoch = r.parentEpoch := by
    rw [h0,hmm.parentEpoch]
    by_contra hne
    refine hl hp (.inl ⟨h0,hk,?_⟩)
    simpa [ht] using ⟨hmm.state.symm.trans hd,hne⟩
  rw [ha,hzero]

theorem related_of_copied (hs : Table.Related SameRecord t s.records) (h : s.Copied l s')
    (hl : s.processLocal → ¬ OpensFirst t l) :
    Table.Related SameRecord (t.insertAll l) s'.records := by
  induction l generalizing s t with
  | nil =>
    rw [h.2]
    exact hs
  | cons r _ ih =>
    obtain ⟨u,⟨hu,now,hr⟩,h⟩ := h
    have hsame : SameRecord r (s.adoptEpoch (s.stamped r now)) :=
      sameRecord_written hs fun hp ho => hl hp (.inl (ho.resolve_right id))
    refine ih ?_ h fun hp ho => hl (hu ▸ hp) (.inr ho)
    rw [hr]
    exact hs.insert hsame taskId_written

theorem copied_get_of_notMem {taskId : String} (h : s.Copied l s')
    (hl : ∀ r ∈ l, r.taskId ≠ taskId) : s'.records.get taskId = s.records.get taskId := by
  induction l generalizing s with
  | nil => rw [h.2]
  | cons r _ ih =>
    obtain ⟨u,⟨-,_,hr⟩,h⟩ := h
    rw [ih h fun r hr => hl r (List.mem_cons_of_mem _ hr),hr]
    exact Table.get_insert_ne (taskId_written.trans_ne (hl r List.mem_cons_self))

theorem rewritten_of_opensFirst (hs : Table.Related Raised t s.records) (h : s.Copied l s')
    (hp : s.processLocal) (hn : (l.map taskId).Nodup) (hl : OpensFirst t l) :
    ∃ r ∈ l, r.parentEpoch = 0 ∧ ∃ r', s'.records.get r.taskId = some r' ∧ r'.parentEpoch ≠ 0 := by
  induction l generalizing s t with
  | nil => exact hl.elim
  | cons r _ ih =>
    obtain ⟨u,⟨hu,now,hr⟩,h⟩ := h
    obtain ⟨hr1,hn⟩ := List.nodup_cons.1 hn
    rcases hl with ⟨h0,hk,hm⟩ | hl
    · have hkeep : s'.records.get r.taskId = u.records.get r.taskId :=
        copied_get_of_notMem h fun r' hr' he => hr1 (he ▸ List.mem_map_of_mem hr')
      refine ⟨r,List.mem_cons_self,h0,s.adoptEpoch (s.stamped r now),?_,?_⟩
      · rw [hkeep,hr,Table.get_insert,if_pos taskId_written]
      obtain ⟨m,ht,hd⟩ := (Option.any_eq_true _ _).1 hm
      obtain ⟨hd,hne⟩ := of_decide_eq_true hd
      obtain ⟨_,hm',hstate,hepoch⟩ := hs.left ht
      simp [stamped,hp,adoptEpoch,h0,hk,hm',hstate.trans hd,hepoch hne,hne]
    · obtain ⟨r',hr',h⟩ := ih
        (by rw [hr]; exact hs.insert raised_written taskId_written) h (hu ▸ hp) hn hl
      exact ⟨r',List.mem_cons_of_mem _ hr',h⟩

def CopiesFaithfully (source : Records) (l : List CompletionRecord) (target : Store) : Prop :=
  (∀ r ∈ target.records.entries, (source.get r.taskId).isSome) ∧
    (target.processLocal → ¬ OpensFirst target.records l)

theorem sameRecords_iff {source : Records} (hl : l.Perm source.entries) (h : s.Copied l s') :
    SameRecords source s'.records ↔ CopiesFaithfully source l s := by
  have hn : (l.map taskId).Nodup := (hl.map _).nodup_iff.2 source.nodup
  constructor
  · refine fun hsame => ⟨fun r hr => ?_,fun hp ho => ?_⟩
    · by_contra hnone
      rw [Option.not_isSome_iff_eq_none] at hnone
      have hget : s'.records.get r.taskId = s.records.get r.taskId := by
        refine copied_get_of_notMem h fun r' hr' he => ?_
        rw [← he,Table.get_eq_some.2 ⟨hl.mem_iff.1 hr',rfl⟩] at hnone
        cases hnone
      have hsome : s.records.get r.taskId = some r := Table.get_eq_some.2 ⟨hr,rfl⟩
      simpa [hget,hsome,hnone] using hsame r.taskId
    · obtain ⟨r,hr,h0,r',hr',hne⟩ :=
        rewritten_of_opensFirst (Table.related_refl (fun r => ⟨rfl,fun _ => rfl⟩)) h hp hn ho
      have hsource : source.get r.taskId = some r :=
        Table.get_eq_some.2 ⟨hl.mem_iff.1 hr,rfl⟩
      have hrr : r'.unstamped = r.unstamped := by simpa [hsource,hr'] using hsame r.taskId
      exact hne ((SameRecord.parentEpoch hrr).trans h0)
  · rintro ⟨hsub,ho⟩ taskId
    have hrefl : Table.Related SameRecord s.records s.records :=
      Table.related_refl (fun _ => rfl)
    have hget : (s.records.insertAll l).get taskId = source.get taskId := by
      rw [Table.get_insertAll_of_perm hl]
      cases hsource : source.get taskId with
      | some => rfl
      | none =>
        cases hs : s.records.get taskId with
        | none => rfl
        | some r =>
          obtain ⟨hr,rfl⟩ := Table.get_eq_some.1 hs
          simpa [hsource] using hsub r hr
    rw [← hget]
    exact unstamped_of_rel (related_of_copied hrefl h ho taskId)

end

theorem settlesAlike_of_same {s t : Store} (h : SameRecords s.records t.records) :
    SettlesAlike s t := by
  intro request gate now hs ht
  have hr := h request.taskId
  simp only [resolveClaim,withCurrentGate,if_pos hs,if_pos ht,Except.map]
  cases hs' : s.records.get request.taskId with
  | none =>
    rw [hs',Option.map_none,Option.map_eq_none_iff] at hr
    simp only [hr]
  | some r =>
    obtain ⟨r',ht',hrr⟩ := Option.map_eq_some_iff.1 (hr.trans (congrArg _ hs'))
    have hr' : r' = { r with updatedAt := r'.updatedAt } := SameRecord.eq hrr
    simp only [ht']
    rw [hr']
    by_cases hset : r.Settles request now
    · have hset' : CompletionRecord.Settles { request with gate := gate } now
          { r with updatedAt := r'.updatedAt } := hset
      rw [if_pos hset,if_pos hset']
      rfl
    · have hset' : ¬ CompletionRecord.Settles { request with gate := gate } now
          { r with updatedAt := r'.updatedAt } := hset
      rw [if_neg hset,if_neg hset']

end Completions
