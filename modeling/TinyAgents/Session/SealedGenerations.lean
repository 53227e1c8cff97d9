import TinyAgents.Session.Commits

namespace Session.DriverTranscripts

open Interaction StorageKit StorageKit.Leases Option

variable {N : Type} {D : Dialect N} {S : Deployment N}

section

variable (D S) in
def SealedOn [DecidableEq N] (log : Ledger (Entry N)) (baseline : List (TranscriptMessage N)) :
    Prop :=
  ∃ seq r, log seq = some { sealing := true } ∧ logical D S log seq = some r ∧
    SameTranscriptMessages D r.current baseline

def TakenOver (w : World N) (stem : String) (v : Reservation) : Prop :=
  ∃ body ∈ (w.leases stem).doc, ¬ (body.holder = v.holder ∧ body.epoch = v.epoch)

instance (w : World N) (stem : String) (v : Reservation) : Decidable (TakenOver w stem v) :=
  inferInstanceAs (Decidable (∃ body ∈ (w.leases stem).doc, _))

variable {seq : Nat} {stem : String} {w : World N}

theorem not_takenOver {v} {body : Body} (hb : (w.leases stem).doc = some body)
    (hh : body.holder = v.holder) (he : body.epoch = v.epoch) : ¬ TakenOver w stem v := by
  rintro ⟨b,hmem,hne⟩
  obtain rfl : body = b := Option.some.inj (hb.symm.trans hmem)
  exact hne ⟨hh,he⟩

theorem Kept.final {fenced : Prop} (h : Kept D S fenced w) {n : Nat} {e : Entry N}
    (he : w.entries stem seq = some e) (hs : e.sealing) (hn : seq < n) : w.entries stem n = none :=
  (h.gapless stem).eq_none (h.seals stem seq e he hs).2 hn

variable [DecidableEq N]

theorem Decided.baseline {i : Nat} {session : SessionRef} {seed} {rows} {k : Option Nat}
    {entry : Entry N} {condition} {H : Handle N} {r : Replay N} (h : Decided D S i (.beginGeneration
    session seed (some rows)) k stem seq entry condition w H r) : entry = { sealing := true } ∧ ∃
    r0, logical D S (w.entries stem) seq = some r0 ∧ SameTranscriptMessages D r0.current rows := by
  obtain ⟨-,⟨_,hs⟩ | ⟨rfl,_,_,_,he,hrows⟩⟩ := build_cases h.build
  · obtain ⟨he,-⟩ := sealEntry_ok h.build
    split at he
    · cases he
    · cases he
      cases hs
  cases he
  have hk : k = none := by
    by_contra hne
    have := h.written (isSome_iff_ne_none.2 hne)
    cases this
  subst hk
  obtain ⟨es,he,hseen,hn⟩ := h.tracks.nextSeq
  refine ⟨rfl,replayed D es,?_,?_⟩
  · rw [← h.nextSeq,hn]
    exact logical_of_seen hseen
  · rw [← he]
    exact hrows rows rfl

theorem Decided.holds {fenced : Prop} {i k : Nat} {call} {entry : Entry N} {condition}
    {H : Handle N} {r : Replay N} {v}
    (h : Decided D S i call (some k) stem seq entry condition w H r) (hk : Kept D S fenced w)
    (hf : fenced) (hmeets : w.Meets condition stem) (hv : H.reserved = some v)
    (hgave : H.gaveUp = false) : ¬ TakenOver w stem v := by
  have hmem : H ∈ w.handles := List.mem_of_getElem? h.handle.1
  obtain rfl := h.onStem
  cases hr : H.replay.reservation with
  | none =>
    obtain ⟨⟨_,hbody,hholder,hepoch⟩,-⟩ := hk.claimed hf H hmem hgave hr v hv
    exact not_takenOver hbody hholder hepoch
  | some u =>
    obtain rfl : u = v := Option.some.inj ((hk.reserved H hmem u hr).symm.trans hv)
    have hc := h.conditioned
    rw [h.reservation,hr] at hc
    obtain ⟨_,rfl,hholder,hepoch⟩ := hc
    obtain ⟨_,hbody,hb⟩ := hmeets
    exact not_takenOver hbody (hb.1.trans hholder) (hb.2.1.trans hepoch)

def WritesThrough (m : TranscriptMoment N) (k : Nat) (stem : String) : Prop :=
  ∃ i c call seq entry condition x,
    m.event = .did i c (.insert call (some k) stem seq entry condition) x ∧
    m.after.docs ≠ m.before.docs

theorem sealed_generations_are_final {w : World N} {ms : List (TranscriptMoment N)}
    {c : Config _ _ _ _ _} (hw : Opening w) (h : (machine S D).Run (.idle w) ms c) :
    (∀ stem seq e, c.world.entries stem seq = some e → e.sealing = true → ∀ n, seq < n →
      c.world.entries stem n = none) ∧
    (∀ m ∈ ms, ∀ i c session seed rows k stem seq entry condition x,
      m.event =
      .did i c (.insert (.beginGeneration session seed (some rows)) k stem seq entry condition) x →
      entry = { sealing := true } ∧ ∃ r, logical D S (m.before.entries stem) seq = some r ∧
      SameTranscriptMessages D r.current rows) ∧
    (∀ m ∈ ms, ∀ i session seed rows reply,
      m.event = .finish i (.beginGeneration session seed (some rows)) (.ok reply) →
      SealedOn D S (m.before.entries (sessionStem session)) rows) ∧
    ((∀ m ∈ ms, ∀ op ∈ m.op, Fenced op m.before) → ∀ m ∈ ms, ∀ k stem H v, WritesThrough m k stem →
      m.before.handles[k]? = some H → H.reserved = some v → ¬ TakenOver m.before stem v) := by
  obtain ⟨hk,hms⟩ := run_kept hw h False.elim
  refine ⟨fun stem seq e he hs n hn => hk.final he hs hn,?_,?_,?_⟩
  · intro m hm i c _ _ _ k _ _ _ _ x he
    obtain ⟨hg,-⟩ := (hms m hm).2.2.1 i c _ x he
    obtain ⟨H,r,hd⟩ := hg
    exact hd.baseline
  · intro m hm i _ _ rows _ he
    obtain ⟨_,⟨es,hlog,hseen,rfl⟩,hbase⟩ := (hms m hm).2.2.2 i _ _ he
    exact ⟨es.length,replayed D es,hlog,logical_of_seen hseen,hbase rows rfl⟩
  · intro hf m hm k stem H v hwrites hH hv
    obtain ⟨-,hfenced⟩ := run_kept hw h fun _ : True => hf
    obtain ⟨i,c,call,seq,entry,condition,x,he,hdocs⟩ := hwrites
    obtain ⟨hkept,-,hdid,-⟩ := hfenced m hm
    obtain ⟨⟨H',r,hd⟩,ho⟩ := hdid i c _ x he
    obtain rfl : H' = H := Option.some.inj (hd.handle.1.symm.trans hH)
    have hop : Fenced (.insert call (some k) stem seq entry condition) m.before :=
      hf m hm _ (Moment.op_eq he)
    obtain ⟨hsame,-⟩ | ⟨-,hmeets,-⟩ := ho
    · exact (hdocs (congrArg World.docs hsame)).elim
    · exact hd.holds hkept trivial hmeets hv (hop H' hH)

end

def decidableFenced : (op : TranscriptOp N) → (w : World N) → Decidable (Fenced op w)
  | .insert _ (some k) _ _ _ _, w => decidable_of_iff ((w.handles[k]?).all fun h => !h.gaveUp) <| by
      simp [Fenced,all_eq_true_iff_get,eq_some_iff_get_eq]
  | .lease stem (.put request precondition _), w => inferInstanceAs (Decidable
      ((request.acquires).isSome → (w.leases stem).Meets precondition → w.written stem = 0))
  | .insert _ none _ _ _ _, _ | .lease _ .get, _ | .lease _ .clock, _ | .openHandle _ _ _, _
  | .lock _, _ | .takeReservation _, _ | .unlock _ _, _ | .query _ _, _ | .count _, _
  | .openEntries _, _ | .index _, _ | .newestRoot _ _, _ | .uuid, _ => isTrue trivial

instance (op : TranscriptOp N) (w : World N) : Decidable (Fenced op w) := decidableFenced op w

def storesBy (check : World String → String → Reservation → Bool) (m : TranscriptMoment String) :
    Bool :=
  match m.event with
  | .did _ _ (.insert _ (some k) stem _ _ _) _ => decide (m.after.docs ≠ m.before.docs) &&
      (m.before.handles[k]?).any fun H => H.reserved.any fun v => check m.before stem v
  | _ => false

theorem writesThrough_of_stores {check} {m} (h : storesBy check m) :
    ∃ k stem H v, WritesThrough m k stem ∧ m.before.handles[k]? = some H ∧ H.reserved = some v ∧
    check m.before stem v := by
  unfold storesBy at h
  split at h
  next i c call k stem seq entry condition x he =>
    obtain ⟨hdocs,h⟩ := Bool.and_eq_true_iff.1 h
    obtain ⟨H,hH,h⟩ := (any_eq_true _ _).1 h
    obtain ⟨v,hv,h⟩ := (any_eq_true _ _).1 h
    exact ⟨k,stem,H,v,⟨i,c,call,seq,entry,condition,x,he,of_decide_eq_true hdocs⟩,hH,hv,h⟩
  · cases h

def header : TranscriptMeta := { agentName := "agent" }

def hello : TranscriptMessage String := { role := "system", content := "hello" }

def turnFrom (k : Nat) (prev : List (TranscriptMessage String)) : TranscriptCall String :=
  .appendTurn k { prev := prev, next := [hello], transcriptMeta := header } none

def switching (baseline : Option (List (TranscriptMessage String))) : TranscriptCall String :=
  .beginGeneration (.root "thread") header baseline

def switched (k : Nat) : TranscriptResult String :=
  .ok (.generation (SessionRef.root "thread").nextGeneration k)

theorem sealed_generations_are_final_switch :
    ∃ ms c, (machine .plain .packed).Run (.idle {}) ms c ∧
    (∃ m ∈ ms, m.event = .finish 0 (switching (some [hello])) (switched 1) ∧
      SealedOn .packed .plain (m.before.entries (sessionStem (.root "thread"))) [hello]) ∧
    ∃ m ∈ ms, ∃ k stem H v, WritesThrough m k stem ∧ m.before.handles[k]? = some H ∧
    H.reserved = some v ∧ ¬ TakenOver m.before stem v := by
  obtain ⟨ms,c,h,⟨m,hm,hevent⟩,⟨n,hn,hs⟩,hfenced⟩ := Driver.drive_any (driver_fits .packed .plain)
    [.start 0 (.openStem (sessionStem (.root "thread")) header),.complete 0 5,
      .start 0 (turnFrom 0 []),.complete 0 20,
      .start 0 (switching (some [hello])),.complete 0 20,
      .start 0 (turnFrom 1 [hello]),.complete 0 20]
    (.idle {})
    (fun ms _ => (∃ m ∈ ms, m.event = .finish 0 (switching (some [hello])) (switched 1)) ∧
      (∃ m ∈ ms, storesBy (fun _ _ _ => true) m = true) ∧ ∀ m ∈ ms, ∀ op ∈ m.op, Fenced op m.before)
    (by decide +kernel)
  obtain ⟨k,stem,H,v,hwrites,hH,hv,-⟩ := writesThrough_of_stores hs
  obtain ⟨-,-,hsealed,htaken⟩ := sealed_generations_are_final ⟨rfl,rfl⟩ h
  exact ⟨ms,c,h,⟨m,hm,hevent,hsealed m hm 0 _ _ _ _ hevent⟩,
    n,hn,k,stem,H,v,hwrites,hH,hv,htaken hfenced n hn k stem H v hwrites hH hv⟩

theorem handle_writes_after_takeover :
    ∃ ms c, (machine .plain .packed).Run (.idle {}) ms c ∧
    ∃ m ∈ ms, ∃ k stem H v, WritesThrough m k stem ∧ m.before.handles[k]? = some H ∧
    H.reserved = some v ∧ TakenOver m.before stem v := by
  obtain ⟨ms,c,h,m,hm,hs⟩ := Driver.drive_any (driver_fits .packed .plain)
    [.start 0 (switching none),.complete 0 20,.tick (reservationTtlMs.toNat+1),
      .start 1 (switching none),.complete 1 20,.start 0 (.clear 0),.complete 0 20,
      .start 0 (turnFrom 0 []),.complete 0 20]
    (.idle {})
    (fun ms _ => ∃ m ∈ ms, storesBy (fun w stem v => TakenOver w stem v) m = true)
    (by decide +kernel)
  obtain ⟨k,stem,H,v,hwrites,hH,hv,htaken⟩ := writesThrough_of_stores hs
  exact ⟨ms,c,h,m,hm,k,stem,H,v,hwrites,hH,hv,of_decide_eq_true htaken⟩

end Session.DriverTranscripts
