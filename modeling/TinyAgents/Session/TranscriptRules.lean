import TinyAgents.Session.Replays
import TinyAgents.StorageKit.Tenures

namespace Session.DriverTranscripts

open Interaction StorageKit StorageKit.Leases List World Ledger

variable {N : Type} {D : Dialect N} {S : Deployment N}

namespace World

variable {w : World N} {stem : String} {seq : Nat} {entry : Entry N}

theorem entries_put (w : World N) (stem : String) (seq : Nat) (entry : Entry N) :
    (w.put stem seq entry).entries stem = (w.entries stem).put seq entry := by
  funext k
  by_cases hk : k = seq
  · subst hk
    simp [entries,put]
  · rw [put_of_ne hk]
    simp [entries,put,Ne.symm hk]

theorem entries_put_of_ne {other : String} (h : other ≠ stem) :
    (w.put stem seq entry).entries other = w.entries other := by
  funext k
  simp [entries,put,Ne.symm h]

theorem grows_put (h : w.entries stem seq = none) (entry : Entry N) (other : String) :
    (w.entries other).Grows ((w.put stem seq entry).entries other) := by
  by_cases ho : other = stem
  · subst ho
    rw [entries_put]
    exact grows_put h entry
  · rw [entries_put_of_ne ho]
    exact grows_refl

theorem getElem?_modify {f} {k j : Nat} :
    (w.modify k f).handles[j]? = if k = j then (w.handles[j]?).map f else w.handles[j]? := by
  simp only [modify,List.getElem?_modify]
  split <;> simp

theorem mem_modify {f} {k : Nat} {h : Handle N} (hm : h ∈ (w.modify k f).handles) :
    h ∈ w.handles ∨ ∃ old, w.handles[k]? = some old ∧ h = f old := by
  obtain ⟨j,hj⟩ := mem_iff_getElem?.1 hm
  rw [getElem?_modify] at hj
  split at hj
  next he =>
    obtain ⟨old,hold,rfl⟩ := Option.map_eq_some_iff.1 hj
    exact .inr ⟨old,he ▸ hold,rfl⟩
  · exact .inl (mem_of_getElem? hj)

end World

def Claimed (w : World N) (stem : String) (v : Reservation) : Prop :=
  (∃ body ∈ (w.leases stem).doc, body.holder = v.holder ∧ body.epoch = v.epoch) ∧
    w.written stem ≠ 0

def Fenced : TranscriptOp N → World N → Prop
  | .insert _ (some handle) _ _ _ _, w => ∀ h, w.handles[handle]? = some h → h.gaveUp = false
  | .lease stem (.put request precondition _), w =>
    (request.acquires).isSome → (w.leases stem).Meets precondition → w.written stem = 0
  | _, _ => True

section

variable {r : Replay N}

theorem unlessSealed_ok {x} {e : Entry N} (h : unlessSealed r x = .ok (some e)) :
    r.sealed = false ∧ x = some e := by
  unfold unlessSealed at h
  split at h
  · cases h
  next hs =>
    cases h
    exact ⟨by simpa using hs,rfl⟩

variable [DecidableEq N]

theorem sealEntry_ok {baseline : Option (List (TranscriptMessage N))} {x : Option (Entry N)}
    (h : sealEntry D (baseline.map (normalizedRows D)) r = .ok x) :
    x = (if r.sealed then none else some { sealing := true }) ∧
      ∀ rows ∈ baseline, SameTranscriptMessages D r.current rows := by
  unfold sealEntry at h
  split at h
  · cases h
  next hb =>
    cases h
    refine ⟨rfl,fun rows hrows => ?_⟩
    by_contra hne
    refine hb ⟨normalizedRows D rows,Option.mem_map_of_mem _ hrows,fun hsame => hne ?_⟩
    exact sameTranscriptMessages_normalized_right.1 hsame

theorem build_cases {call : TranscriptCall N} {seed : TranscriptMeta} {e : Entry N}
    (h : call.build D r seed = .ok (some e)) :
    r.sealed = false ∧
    (e.written ∧ e.sealing = false ∨ e = { sealing := true } ∧
      ∃ session seed' baseline, call = .beginGeneration session seed' baseline ∧
      ∀ rows ∈ baseline, SameTranscriptMessages D r.current rows) := by
  cases call with
  | appendTurn =>
    simp only [TranscriptCall.build,turnEntry] at h
    split at h
    · cases h
    next hs =>
      split at h
      · cases h
      · cases h
        exact ⟨by simpa using hs,.inl ⟨rfl,rfl⟩⟩
  | append | replace =>
    obtain ⟨hs,he⟩ := unlessSealed_ok h
    cases he
    exact ⟨hs,.inl ⟨rfl,rfl⟩⟩
  | adoptIfEmpty =>
    simp only [TranscriptCall.build,adoptEntry] at h
    split at h
    · cases h
    obtain ⟨hs,he⟩ := unlessSealed_ok h
    cases he
    exact ⟨hs,.inl ⟨rfl,rfl⟩⟩
  | clear =>
    obtain ⟨hs,he⟩ := unlessSealed_ok h
    split at he
    · cases he
      exact ⟨hs,.inl ⟨rfl,rfl⟩⟩
    · cases he
  | appendInterruptedPartial =>
    simp only [TranscriptCall.build,partialEntry,Except.ok.injEq] at h
    split at h
    · cases h
    next hs =>
      cases h
      exact ⟨by simpa using hs,.inl ⟨rfl,rfl⟩⟩
  | beginGeneration session seed' baseline =>
    obtain ⟨he,hrows⟩ := sealEntry_ok h
    split at he
    · cases he
    next hs =>
      cases he
      exact ⟨by simpa using hs,.inr ⟨rfl,session,seed',baseline,rfl,hrows⟩⟩
  | openStem | messages | partials | readSession => cases h

end

section

def Closes (D : Dialect N) (S : Deployment N) (log : Ledger (Entry N))
    (rows : List (TranscriptMessage N)) : Prop :=
  ∃ es, log es.length = some { sealing := true } ∧ log.Seen (Read S) es ∧
    (replayed D es).current = rows

theorem Closes.grows {log log'} {rows} (h : Closes D S log rows) (hg : log.Grows log') :
    Closes D S log' rows := by
  obtain ⟨es,hl,hs,hr⟩ := h
  exact ⟨es,hg _ _ hl,hs.grows hg,hr⟩

variable (D S) in
structure Kept (fenced : Prop) (w : World N) : Prop where
  gapless : ∀ stem, (w.entries stem).Gapless
  seals : ∀ stem seq e, w.entries stem seq = some e → e.sealing = true →
    e = { sealing := true } ∧ w.entries stem (seq+1) = none
  tracks : ∀ h ∈ w.handles, Tracks D (Known S) (w.entries h.stem) h.replay
  reserved : ∀ h ∈ w.handles, ∀ v ∈ h.replay.reservation, h.reserved = some v
  claimed : fenced → ∀ h ∈ w.handles, h.gaveUp = false → h.replay.reservation = none →
    ∀ v ∈ h.reserved, Claimed w h.stem v

structure Rely (fenced : Prop) (i : Nat) (w w' : World N) : Prop where
  grows : ∀ stem, (w.entries stem).Grows (w'.entries stem)
  owned : ∀ (k : Nat) (h : Handle N), w.handles[k]? = some h → h.owner = some i →
    w'.handles[k]? = some h
  lease : ∀ stem, Leases.Rely (w.lease stem) (w'.lease stem)
  claimed : fenced → ∀ stem v, Claimed w stem v → Claimed w' stem v

theorem rely_refl (fenced : Prop) (i : Nat) (w : World N) : Rely fenced i w w :=
  ⟨fun _ => grows_refl,fun _ _ h _ => h,fun _ => Leases.rely_refl _,fun _ _ _ h => h⟩

theorem Rely.trans {fenced : Prop} {i : Nat} {u v w : World N} (h : Rely fenced i u v)
    (k : Rely fenced i v w) : Rely fenced i u w where
  grows := fun stem => (h.grows stem).trans (k.grows stem)
  owned := fun j H hj ho => k.owned j H (h.owned j H hj ho) ho
  lease := fun stem => (h.lease stem).trans (k.lease stem)
  claimed := fun hf stem x hx => k.claimed hf stem x (h.claimed hf stem x hx)

def At (i : Nat) (w : World N) (H : Handle N) : Option Nat → Prop
  | some k => w.handles[k]? = some H ∧ H.owner = some i
  | none => H.replay.reservation = none

def Sees (S : Deployment N) : Option Nat → Entry N → Entry N → Prop
  | some _ => Known S
  | none => Read S

variable (D S) in
structure Returned (fenced : Prop) (H : Handle N) (r : Replay N) (w : World N) : Prop where
  tracks : Tracks D (Known S) (w.entries H.stem) r
  reservation : r.reservation = H.replay.reservation ∨
    r.reservation = none ∧ (fenced → ∀ v ∈ H.replay.reservation, Claimed w H.stem v)

def Conditioned (condition : Option Lease) : Option Reservation → Prop
  | none => condition = none
  | some v => ∃ lease, condition = some lease ∧ lease.holder = v.holder ∧ lease.epoch = v.epoch

variable [DecidableEq N]

variable (D S) in
structure Decided (i : Nat) (call : TranscriptCall N) (k : Option Nat) (stem : String) (seq : Nat)
    (entry : Entry N) (condition : Option Lease) (w : World N) (H : Handle N) (r : Replay N) :
    Prop where
  handle : At i w H k
  onStem : H.stem = stem
  nextSeq : r.nextSeq = seq
  tracks : Tracks D (Sees S k) (w.entries stem) r
  build : call.build D r H.seed = .ok (some entry)
  reservation : r.reservation = H.replay.reservation
  conditioned : Conditioned condition r.reservation
  written : k.isSome → entry.written = true

variable (D S) in
def Guar (fenced : Prop) (i : Nat) : TranscriptOp N → World N → Prop
  | .takeReservation k, w => ∃ H, At i w H (some k)
  | .unlock k r, w => ∃ H, At i w H (some k) ∧ Returned D S fenced H r w
  | .insert call k stem seq entry condition, w =>
    ∃ H r, Decided D S i call k stem seq entry condition w H r
  | .lease stem op, w => Leases.Guar op (w.lease stem)
  | _, _ => True

variable (D S) in
def logic (ms : List (TranscriptMoment N)) (fenced : Prop) (i : Nat) :
    Logic (TranscriptOp N) TranscriptAns (World N) where
  outcome := fun op w x w' => (TranscriptOutcome S i op w x w' ∧ (fenced → Fenced op w)) ∧
    (∃ call, ⟨w,.did i call op x,w'⟩ ∈ ms) ∧ Kept D S fenced w
  rely := Rely fenced i
  guar := Guar D S fenced i
  rely_refl := rely_refl fenced i
  rely_trans := fun _ _ _ => Rely.trans

end

variable {fenced : Prop} {i : Nat} {w w' : World N} {e : Entry N} {H : Handle N} {k : Option Nat}
  {r : Replay N} {stem : String} {op : TranscriptOp N} {x : TranscriptAns op}

theorem Tracks.rely {saw} (h : Tracks D saw (w.entries stem) r) (hr : Rely fenced i w w') :
    Tracks D saw (w'.entries stem) r :=
  h.grows (hr.grows stem)

theorem At.rely (h : At i w H k) (hr : Rely fenced i w w') : At i w' H k := by
  cases k with
  | none => exact h
  | some k => exact ⟨hr.owned k H h.1 h.2,h.2⟩

theorem Returned.rely (h : Returned D S fenced H r w) (hr : Rely fenced i w w') :
    Returned D S fenced H r w' where
  tracks := h.tracks.rely hr
  reservation := by
    rcases h.reservation with he | ⟨he,hc⟩
    · exact .inl he
    · exact .inr ⟨he,fun hf v hv => hr.claimed hf _ v (hc hf v hv)⟩

theorem claimed_lease {other : String} {op : LeaseOp} {x} {cell : Cell Body}
    {v} (hg : Leases.Guar op (w.lease stem))
    (ho : LeaseOutcome op (w.lease stem) x ⟨cell,w.now⟩) (hf : Fenced (.lease stem op) w)
    (hc : Claimed w other v) :
    Claimed { w with leases := Function.update w.leases stem cell } other v := by
  obtain ⟨⟨body,hbody,hholder,hepoch⟩,hwritten⟩ := hc
  refine ⟨?_,hwritten⟩
  by_cases hs : other = stem
  case neg => exact ⟨body,by simpa [Function.update_of_ne hs] using hbody,hholder,hepoch⟩
  subst hs
  have hsame (hcell : cell = w.leases other) : ∃ b ∈ ((Function.update w.leases other cell)
      other).doc, b.holder = v.holder ∧ b.epoch = v.epoch :=
    ⟨body,by simpa [hcell] using hbody,hholder,hepoch⟩
  cases op with
  | clock => exact hsame (congrArg LeaseWorld.cell ho.2)
  | get => exact hsame (congrArg LeaseWorld.cell ho.1)
  | put request _ new =>
    obtain ⟨-,he⟩ | ⟨hmeets,he,-⟩ := ho
    · exact hsame (congrArg LeaseWorld.cell he)
    obtain ⟨c,t,rfl,hlater,-,hw⟩ := hg
    have hcell : cell = (w.leases other).write new := congrArg LeaseWorld.cell he
    have hmove := hw.move
    rw [← Cell.doc_of_meets hlater hmeets,
      show (w.lease other).cell.doc = some body from hbody] at hmove
    have hkeep : request.acquires = none := by
      cases ha : request.acquires with
      | none => rfl
      | some => exact (hwritten (hf (by simp [ha]) hmeets)).elim
    refine ⟨new,by simp [hcell],?_⟩
    cases hmove with
    | takeover ha | reenter ha => simp [hkeep] at ha
    | evict ha => simp [ha,LeaseRequest.acquires] at hkeep
    | extend _ _ hh he => exact ⟨hh.trans hholder,he.trans hepoch⟩

def Plain : TranscriptOp N → Prop
  | .openHandle _ _ _ | .lock _ | .takeReservation _ | .unlock _ _ => False
  | _ => True

theorem rely_put {seq : Nat} (h : w.entries stem seq = none) {entry : Entry N} :
    Rely fenced i w (w.put stem seq entry) where
  grows := grows_put h entry
  owned := fun _ _ hk _ => hk
  lease := fun _ => Leases.rely_refl _
  claimed := fun _ other v hc => by
    have hle : w.written other ≤ (w.put stem seq entry).written other := by
      simp only [written,World.put,countP_cons]
      omega
    exact ⟨hc.1,by have := hc.2; omega⟩

theorem rely_of_plain [DecidableEq N] {j : Nat} (hp : Plain op) (hg : Guar D S fenced j op w)
    (hf : fenced → Fenced op w) (ho : TranscriptOutcome S j op w x w') : Rely fenced i w w' := by
  cases op with
  | openHandle | lock | takeReservation | unlock => exact hp.elim
  | query | count =>
    rw [ho.1]
    exact rely_refl fenced i w
  | insert =>
    obtain ⟨he,-⟩ | ⟨hn,-,he,-⟩ := ho
    · rw [he]
      exact rely_refl fenced i w
    · rw [he]
      exact rely_put hn
  | lease stem =>
    obtain ⟨_,ho,rfl⟩ := ho
    refine ⟨fun _ => grows_refl,fun _ _ h _ => h,fun other => ?_,
      fun hfe other v hc => claimed_lease hg ho (hf hfe) hc⟩
    by_cases hs : other = stem
    · subst hs
      simpa [World.lease] using Leases.outcome_rely ho
    · simpa [World.lease,Function.update_of_ne hs] using Leases.rely_refl _
  | openEntries | index | newestRoot | uuid =>
    rw [show w' = w from ho]
    exact rely_refl fenced i w

theorem sees_known {f : Entry N} (h : Sees S k e f) : Known S e f := by
  cases k with
  | none => exact .inr h
  | some => exact h

theorem Known.sealing {f : Entry N} (h : Known S e f) : f.sealing = e.sealing := by
  rcases h with rfl | h
  · rfl
  · exact (S.reread_flags e f h).2

theorem Tracks.sealed {log} (h : Tracks D (Known S) log r) {n : Nat} (hn : n < r.nextSeq)
    (he : log n = some e) (hs : e.sealing) : r.sealed := by
  obtain ⟨es,heq,hseen,hlen⟩ := h.nextSeq
  rw [hlen] at hn
  obtain ⟨_,he',hk⟩ := hseen n es[n] (List.getElem?_eq_getElem hn)
  rw [he] at he'
  cases he'
  have hr : r.sealed = (replayed D es).sealed := by rw [← heq]
  rw [hr,sealed_replayed,any_eq_true]
  exact ⟨_,getElem_mem hn,hk.sealing.trans hs⟩

theorem Kept.of_handles (hk : Kept D S fenced w) (hd : w'.docs = w.docs) (hr : Rely fenced i w w')
    (hh : w'.handles = w.handles) : Kept D S fenced w' := by
  have he : w'.entries = w.entries := by
    funext stem seq
    simp only [entries,hd]
  refine ⟨?_,?_,?_,?_,?_⟩
  · rw [he]
    exact hk.gapless
  · rw [he]
    exact hk.seals
  · rw [he,hh]
    exact hk.tracks
  · rw [hh]
    exact hk.reserved
  · rw [hh]
    exact fun hf h hm hg hn v hv => hr.claimed hf _ v (hk.claimed hf h hm hg hn v hv)

theorem Kept.modify (hk : Kept D S fenced w) {k : Nat} {f}
    (hf : ∀ h, w.handles[k]? = some h → Tracks D (Known S) (w.entries (f h).stem) (f h).replay ∧
      (∀ v ∈ (f h).replay.reservation, (f h).reserved = some v) ∧
      (fenced → (f h).gaveUp = false → (f h).replay.reservation = none →
        ∀ v ∈ (f h).reserved, Claimed w (f h).stem v)) : Kept D S fenced (w.modify k f) where
  gapless := hk.gapless
  seals := hk.seals
  tracks := by
    intro h hm
    rcases mem_modify hm with hm | ⟨old,ho,rfl⟩
    · exact hk.tracks h hm
    · exact (hf old ho).1
  reserved := by
    intro h hm
    rcases mem_modify hm with hm | ⟨old,ho,rfl⟩
    · exact hk.reserved h hm
    · exact (hf old ho).2.1
  claimed := by
    intro hfe h hm
    rcases mem_modify hm with hm | ⟨old,ho,rfl⟩
    · exact hk.claimed hfe h hm
    · exact (hf old ho).2.2 hfe

variable [DecidableEq N]

theorem kept_insert (hk : Kept D S fenced w) {call : TranscriptCall N} {seq : Nat} {entry : Entry N}
    {condition : Option Lease} (hd : Decided D S i call k stem seq entry condition w H r)
    (hn : w.entries stem seq = none) : Kept D S fenced (w.put stem seq entry) := by
  have hrely : Rely fenced i w (w.put stem seq entry) := rely_put hn
  have htracks := hd.tracks.mono fun _ _ => sees_known
  have hreach := hd.nextSeq ▸ hd.tracks.reaches
  obtain ⟨hopen,hentry⟩ := build_cases hd.build
  refine ⟨fun other => ?_,fun other n e he hs => ?_,fun h hm => (hk.tracks h hm).rely hrely,
    hk.reserved,fun hf h hm hg hr v hv => hrely.claimed hf _ v (hk.claimed hf h hm hg hr v hv)⟩
  · by_cases ho : other = stem
    · subst ho
      rw [entries_put]
      exact (hk.gapless other).put hreach hn entry
    · rw [entries_put_of_ne ho]
      exact hk.gapless other
  · by_cases ho : other = stem
    case neg =>
      rw [entries_put_of_ne ho] at he ⊢
      exact hk.seals other n e he hs
    subst ho
    rw [entries_put] at he ⊢
    by_cases hseq : n = seq
    · subst hseq
      rw [put_self] at he
      cases he
      rw [put_of_ne (by omega),(hk.gapless other).eq_none hn (by omega)]
      rcases hentry with ⟨-,hns⟩ | ⟨hbare,-⟩
      · rw [hns] at hs
        cases hs
      · exact ⟨hbare,rfl⟩
    · rw [put_of_ne hseq] at he
      obtain ⟨hbare,hnext⟩ := hk.seals other n e he hs
      refine ⟨hbare,?_⟩
      have hne : n+1 ≠ seq := by
        rintro rfl
        have hsealed := htracks.sealed (by have := hd.nextSeq; omega) he hs
        rw [hopen] at hsealed
        cases hsealed
      rw [put_of_ne hne]
      exact hnext

theorem kept_outcome (hk : Kept D S fenced w) (hg : Guar D S fenced i op w)
    (hf : fenced → Fenced op w) (ho : TranscriptOutcome S i op w x w') : Kept D S fenced w' := by
  have hplain (hp : Plain op) : Rely fenced i w w' := rely_of_plain hp hg hf ho
  cases op with
  | openHandle _ _ reservation =>
    obtain ⟨-,rfl⟩ := ho
    refine ⟨hk.gapless,hk.seals,fun h hm => ?_,fun h hm v hv => ?_,fun hfe h hm hgu hn v hv => ?_⟩
    all_goals rcases mem_append.1 hm with hm | hm
    · exact hk.tracks h hm
    · rw [mem_singleton.1 hm]
      exact tracks_new
    · exact hk.reserved h hm v hv
    · rw [mem_singleton.1 hm] at hv ⊢
      exact hv
    · exact hk.claimed hfe h hm hgu hn v hv
    rw [mem_singleton.1 hm] at hn hv
    rw [show reservation = none from hn] at hv
    cases hv
  | lock =>
    obtain ⟨-,-,rfl⟩ := ho
    refine hk.modify fun h hh => ?_
    have hm := mem_of_getElem? hh
    exact ⟨hk.tracks h hm,hk.reserved h hm,fun hfe => hk.claimed hfe h hm⟩
  | takeReservation k =>
    rw [show w' = w.modify k .dropped from ho]
    refine hk.modify fun h hh => ?_
    refine ⟨(hk.tracks h (mem_of_getElem? hh)).unreserved none,?_,?_⟩
    · rintro v ⟨⟩
    · rintro - ⟨⟩
  | unlock k r =>
    obtain ⟨H,hat,hret⟩ := hg
    rw [show w' = w.modify k (.freed r) from ho]
    refine hk.modify fun h hh => ?_
    obtain rfl : H = h := Option.some.inj (hat.1.symm.trans hh)
    have hm := mem_of_getElem? hh
    refine ⟨hret.tracks,fun v hv => ?_,fun hfe hgu hn v hv => ?_⟩
    · have hv' : v ∈ r.reservation := hv
      rcases hret.reservation with he | ⟨he,-⟩
      · exact hk.reserved H hm v (he ▸ hv')
      · rw [he] at hv'
        cases hv'
    · cases hr : H.replay.reservation with
      | none => exact hk.claimed hfe H hm hgu hr v hv
      | some u =>
        rcases hret.reservation with he | ⟨-,hc⟩
        · rw [show r.reservation = none from hn,hr] at he
          cases he
        have hu := hk.reserved H hm u hr
        rw [show H.reserved = some v from hv] at hu
        cases hu
        exact hc hfe v hr
  | insert =>
    obtain ⟨H,r,hd⟩ := hg
    obtain ⟨he,-⟩ | ⟨hn,-,he,-⟩ := ho
    · rw [he]
      exact hk
    · rw [he]
      exact kept_insert hk hd hn
  | lease =>
    have hr := hplain trivial
    obtain ⟨_,ho,rfl⟩ := ho
    exact hk.of_handles rfl hr rfl
  | query | count =>
    rw [ho.1]
    exact hk
  | openEntries | index | newestRoot | uuid =>
    rw [show w' = w from ho]
    exact hk

theorem rely_of_other {j : Nat} (hij : i ≠ j) (hg : Guar D S fenced j op w)
    (hf : fenced → Fenced op w) (ho : TranscriptOutcome S j op w x w') : Rely fenced i w w' := by
  have hmodify {k} {f : Handle N → Handle N}
      (hfree : ∀ h, w.handles[k]? = some h → h.owner ≠ some i) : Rely fenced i w (w.modify k f) :=
    ⟨fun _ => grows_refl,fun _ h hh hown => by
      rw [World.getElem?_modify,if_neg,hh]
      rintro rfl
      exact hfree h hh hown,fun _ => Leases.rely_refl _,fun _ _ _ h => h⟩
  have hlocked {k} {H : Handle N} (hat : At j w H (some k)) h
      (hh : w.handles[k]? = some h) : h.owner ≠ some i := by
    rw [hat.1] at hh
    cases hh
    rw [hat.2]
    rintro ⟨⟩
    exact hij rfl
  have hplain (hp : Plain op) : Rely fenced i w w' := rely_of_plain hp hg hf ho
  cases op with
  | openHandle =>
    obtain ⟨-,rfl⟩ := ho
    refine ⟨fun _ => grows_refl,fun k h hh _ => ?_,fun _ => Leases.rely_refl _,
      fun _ _ _ h => h⟩
    have hlt : k < w.handles.length := (List.getElem?_eq_some_iff.1 hh).1
    rw [List.getElem?_append_left hlt,hh]
  | lock =>
    obtain ⟨hh,hfree,rfl⟩ := ho
    refine hmodify fun h hh' => ?_
    rw [hh] at hh'
    cases hh'
    rw [hfree]
    rintro ⟨⟩
  | takeReservation k =>
    obtain ⟨H,hat⟩ := hg
    rw [show w' = w.modify k .dropped from ho]
    exact hmodify (hlocked hat)
  | unlock k r =>
    obtain ⟨H,hat,-⟩ := hg
    rw [show w' = w.modify k (.freed r) from ho]
    exact hmodify (hlocked hat)
  | _ => exact hplain trivial

end Session.DriverTranscripts
