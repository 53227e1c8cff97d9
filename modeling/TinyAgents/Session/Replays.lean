import Mathlib.Data.List.TakeWhile
import TinyAgents.Session.DriverTranscripts

namespace Session

open Interaction List

variable {N : Type} {D : Dialect N}

section

variable [DecidableEq N]

namespace TranscriptMessage

variable {m n : TranscriptMessage N}

def wire (D : Dialect N) (m : TranscriptMessage N) : TranscriptMessage N :=
  { m with legacy := m.liveLegacy D }

theorem sameStructure_wire (m : TranscriptMessage N) : (m.wire D).SameStructure m :=
  ⟨rfl,rfl,rfl,rfl,rfl⟩

theorem liveLegacy_wire (m : TranscriptMessage N) : (m.wire D).liveLegacy D = m.liveLegacy D := by
  ext raw
  refine mem_liveLegacy.trans ⟨fun h => h.1,fun h => ⟨h,?_⟩⟩
  exact (mem_liveLegacy.1 h).2.trans (sameStructure_wire m).symm

theorem wire_wire (m : TranscriptMessage N) : (m.wire D).wire D = m.wire D := by
  unfold wire
  rw [show liveLegacy D { m with legacy := m.liveLegacy D } = m.liveLegacy D from
    liveLegacy_wire m]

theorem wire_normalized (m : TranscriptMessage N) :
    ((m.wire D).normalized D).wire D = (m.normalized D).wire D := by
  cases ht : m.isTyped with
  | true => rw [normalized_of_typed ht,normalized_of_typed (m := m.wire D) ht,wire_wire]
  | false =>
    cases he : envelope D m.role m.content with
    | none => rw [normalized_of_none he,normalized_of_none (m := m.wire D) he,wire_wire]
    | some =>
      rw [normalized_of_some ht he,normalized_of_some (m := m.wire D) ht he]
      rfl

theorem sameRowAs_wire_left : (m.wire D).SameRowAs D n ↔ m.SameRowAs D n := by
  have hw := wire_normalized (D := D) m
  have hlive : ((m.wire D).normalized D).liveLegacy D = (m.normalized D).liveLegacy D := by
    rw [← liveLegacy_wire ((m.wire D).normalized D),hw,liveLegacy_wire]
  have hid : ((m.wire D).normalized D).id = (m.normalized D).id := by simp [wire]
  have hs := normalized_sameStructure (D := D) (sameStructure_wire (D := D) m)
  unfold SameRowAs
  rw [hlive,hid]
  constructor
  · exact fun h => ⟨h.1,hs.symm.trans h.2.1,h.2.2⟩
  · exact fun h => ⟨h.1,hs.trans h.2.1,h.2.2⟩

end TranscriptMessage

section

variable {left left' right : List (TranscriptMessage N)}

theorem sameTranscriptMessages_wire
    (h : left.map (TranscriptMessage.wire D) = left'.map (TranscriptMessage.wire D)) :
    SameTranscriptMessages D left right ↔ SameTranscriptMessages D left' right := by
  have hwire rows : SameTranscriptMessages D rows right ↔
      SameTranscriptMessages D (rows.map (TranscriptMessage.wire D)) right := by
    rw [sameTranscriptMessages_iff,sameTranscriptMessages_iff,forall₂_map_left_iff]
    simp only [TranscriptMessage.sameRowAs_wire_left]
  rw [hwire,h,← hwire]

theorem stampedRow_alike {m} {usage} {requestId} {stamp} :
    (messageFromLine D ((buildMessageLine D m usage requestId false).stamped stamp)).Alike
      (readBack D (storedForm D m)) := by
  rw [← rowFromLine_build D m usage requestId false]
  cases stamp with
  | none | some => exact ⟨rfl,.refl _,rfl⟩

theorem sameTranscriptMessages_stampedRows {rows} (h : ∀ m ∈ rows, m.OwnFields ∧ ¬ m.Ambiguous D)
    {usage} {requestId} : SameTranscriptMessages D (stampedRows D rows usage requestId) rows := by
  rw [sameTranscriptMessages_iff,forall₂_iff_zip]
  refine ⟨by simp [stampedRows,stampedLines],fun {a b} hab => ?_⟩
  obtain ⟨i,_,hp⟩ := mem_iff_getElem.1 hab
  simp only [getElem_zip,Prod.mk.injEq,stampedRows,stampedLines,getElem_map,
    getElem_zipIdx,Nat.zero_add] at hp
  obtain ⟨rfl,rfl⟩ := hp
  refine TranscriptMessage.SameRowAs.symm ?_
  refine (stampedRow_alike).sameRowAs.2 ?_
  exact (sameRow_readBack_iff).2 (h _ (getElem_mem _))

theorem commonRows_eq {stored next}
    (h : DriverTranscripts.commonRows D stored next = stored.length) :
    stored.length ≤ next.length ∧ SameTranscriptMessages D stored (next.take stored.length) := by
  unfold DriverTranscripts.commonRows at h
  have hle := (takeWhile_sublist (p := fun pair : TranscriptMessage N × TranscriptMessage N =>
    decide (pair.1.SameRowAs D pair.2)) (l := stored.zip next)).length_le
  rw [h,length_zip] at hle
  have hlen : stored.length ≤ next.length := by omega
  have hall := takeWhile_eq_self_iff.1
    ((takeWhile_sublist _).eq_of_length (by rw [h,length_zip]; omega))
  refine ⟨hlen,by simp [hlen],fun pair hp => ?_⟩
  have hzip : stored.zip next = stored.zip (next.take stored.length) := by
    rw [zip_eq_zip_take_min,Nat.min_eq_left hlen,take_length]
  rw [← hzip] at hp
  simpa using hall pair hp

end

end

namespace DriverTranscripts

def replayed (D : Dialect N) (es : List (Entry N)) : Replay N :=
  es.foldl (fun r e => r.apply D r.nextSeq e) {}

variable (es : List (Entry N))

@[simp] theorem replayed_snoc (e : Entry N) :
    replayed D (es++[e]) = (replayed D es).apply D (replayed D es).nextSeq e := by
  simp [replayed]

@[simp] theorem nextSeq_replayed : (replayed D es).nextSeq = es.length := by
  induction es using List.reverseRecOn with
  | nil => rfl
  | append_singleton _ _ ih => simp [Replay.apply,ih]

theorem sealed_replayed : (replayed D es).sealed = es.any Entry.sealing := by
  induction es using List.reverseRecOn with
  | nil => rfl
  | append_singleton _ _ ih => simp [Replay.apply,ih]

def logical (D : Dialect N) (S : Deployment N) (log : Ledger (Entry N)) : Nat → Option (Replay N)
  | 0 => some {}
  | n+1 => do
    let r ← logical D S log n
    let stored ← log n
    let entry ← (S.reread stored).toOption
    return r.apply D n entry

section

variable {S : Deployment N} {log log' : Ledger (Entry N)} {r : Replay N}

def Read (S : Deployment N) (stored entry : Entry N) : Prop := S.reread stored = .ok entry

def Known (S : Deployment N) (stored entry : Entry N) : Prop :=
  entry = stored ∨ Read S stored entry

variable (D) in
def Tracks (saw : Entry N → Entry N → Prop) (log : Ledger (Entry N)) (r : Replay N) : Prop :=
  ∃ es, { r with reservation := none } = replayed D es ∧ log.Seen saw es

variable {saw saw' : Entry N → Entry N → Prop}

theorem tracks_new {reservation} : Tracks D saw log { reservation := reservation } :=
  ⟨[],rfl,fun _ _ h => by simp at h⟩

section

variable (h : Tracks D saw log r)

include h

theorem Tracks.nextSeq :
    ∃ es, { r with reservation := none } = replayed D es ∧ log.Seen saw es ∧
    r.nextSeq = es.length := by
  obtain ⟨es,he,hs⟩ := h
  refine ⟨es,he,hs,?_⟩
  rw [← nextSeq_replayed,← he]

theorem Tracks.grows (hg : log.Grows log') : Tracks D saw log' r := by
  obtain ⟨es,he,hs⟩ := h
  exact ⟨es,he,hs.grows hg⟩

theorem Tracks.mono (hs : ∀ e f, saw e f → saw' e f) : Tracks D saw' log r := by
  obtain ⟨es,he,hsaw⟩ := h
  exact ⟨es,he,hsaw.mono hs⟩

theorem Tracks.reaches : log.Reaches r.nextSeq := by
  obtain ⟨_,-,hs,hn⟩ := h.nextSeq
  rw [hn]
  exact hs.reaches

theorem Tracks.unreserved (reservation : Option Reservation) :
    Tracks D saw log { r with reservation := reservation } := h

theorem Tracks.apply {stored entry : Entry N} (hl : log r.nextSeq = some stored)
    (hs : saw stored entry) : Tracks D saw log (r.apply D r.nextSeq entry) := by
  obtain ⟨es,he,hsaw,hn⟩ := h.nextSeq
  rw [hn] at hl
  refine ⟨es++[entry],?_,hsaw.snoc hl hs⟩
  rw [replayed_snoc,← he]
  rfl

end

theorem applyListed_tracks (hg : log.Gapless) (hsaw : ∀ e f, Read S e f → saw e f) {stem : String} :
    ∀ {docs} {r : Replay N}, Tracks D saw log r → log.Listing r.nextSeq docs →
      Tracks D saw log (applyListed D S stem r docs).2 ∧
      (applyListed D S stem r docs).2.reservation = r.reservation := by
  intro docs
  induction docs with
  | nil => exact fun h _ => ⟨h,rfl⟩
  | cons doc _ ih =>
    intro r h hl
    obtain ⟨_,_⟩ := doc
    obtain ⟨rfl,hstored,hrest⟩ := hg.listing hl
    unfold applyListed
    split
    · exact ⟨h,rfl⟩
    next hread => exact ih (h.apply hstored (hsaw _ _ hread)) hrest

theorem logical_of_seen :
    ∀ {es}, log.Seen (Read S) es → logical D S log es.length = some (replayed D es) := by
  intro es
  induction es using List.reverseRecOn with
  | nil => exact fun _ => rfl
  | append_singleton es e ih =>
    intro h
    have hes : log.Seen (Read S) es := by
      intro k f hf
      refine h k f ?_
      have hk : k < es.length := (List.getElem?_eq_some_iff.1 hf).1
      rw [List.getElem?_append_left hk,hf]
    obtain ⟨stored,hs,hread⟩ := h es.length e (by simp)
    rw [length_append,length_singleton,logical,ih hes,hs]
    simp [show S.reread stored = .ok e from hread,Except.toOption]

end

variable [DecidableEq N]

def Entry.wire (D : Dialect N) (e : Entry N) : Entry N :=
  { e with
    set := e.set.map (List.map (TranscriptMessage.wire D))
    extend := e.extend.map (List.map (TranscriptMessage.wire D)) }

def Replay.wire (D : Dialect N) (r : Replay N) : Replay N :=
  { r with messages := r.messages.map (TranscriptMessage.wire D), reservation := none }

theorem Entry.wire_wire (e : Entry N) : (e.wire D).wire D = e.wire D := by
  simp [Entry.wire,Function.comp_def,TranscriptMessage.wire_wire]

theorem wire_apply (r : Replay N) (seq : Nat) (e : Entry N) :
    ((r.wire D).apply D seq (e.wire D)).wire D = (r.apply D seq e).wire D := by
  obtain ⟨_,_,set,extend,_,_,_,clear,_⟩ := e
  cases clear <;> cases set <;> cases extend <;>
    simp [Replay.apply,Replay.wire,Entry.wire,normalizedRows,TranscriptMessage.wire_normalized,
      TranscriptMessage.wire_wire,Function.comp_def]

theorem wire_replayed (es : List (Entry N)) :
    (replayed D (es.map (Entry.wire D))).wire D = (replayed D es).wire D := by
  induction es using List.reverseRecOn with
  | nil => rfl
  | append_singleton _ e ih =>
    simp only [map_append,map_cons,map_nil,replayed_snoc,nextSeq_replayed,length_map]
    rw [← wire_apply,ih,Entry.wire_wire e,wire_apply]

theorem Tracks.logical {S} {log} {r : Replay N} (h : Tracks D (Known S) log r)
    (hk : ∀ n e, log n = some e → S.reread e = .ok (e.wire D)) :
    ∃ r0, logical D S log r.nextSeq = some r0 ∧ r.wire D = r0.wire D := by
  obtain ⟨es,he,hs,hn⟩ := h.nextSeq
  have hread : log.Seen (Read S) (es.map (Entry.wire D)) := by
    intro k f hf
    rw [List.getElem?_map] at hf
    obtain ⟨e,hek,rfl⟩ := Option.map_eq_some_iff.1 hf
    obtain ⟨stored,hstored,rfl | hread⟩ := hs k e hek
    · exact ⟨e,hstored,hk k e hstored⟩
    refine ⟨stored,hstored,?_⟩
    have hw := hk k stored hstored
    rw [show S.reread stored = .ok e from hread] at hw
    cases hw
    rw [Entry.wire_wire]
    exact hread
  refine ⟨_,by rw [hn,← length_map (Entry.wire D)]; exact logical_of_seen hread,?_⟩
  rw [wire_replayed,← he]
  rfl

end DriverTranscripts

end Session
