import TinyAgents.Session.TranscriptRules

namespace Session.DriverTranscripts

open Interaction StorageKit StorageKit.Leases List

variable {N : Type} {D : Dialect N} {S : Deployment N}

section

variable [DecidableEq N] {ms : List (TranscriptMoment N)} {fenced : Prop} {i : Nat} {α : Type}

def Stable (fenced : Prop) (i : Nat) (I : World N → Prop) : Prop :=
  ∀ w w', Rely fenced i w w' → I w → I w'

variable {entry : Entry N} {H : Handle N} {lease : Option Lease} {k : Option Nat} {r : Replay N}
  {stem : String} {call : TranscriptCall N} {w : World N} {I : World N → Prop}
  {Q : α → World N → Prop}

theorem safe_request (op : TranscriptOp N) (hp : Plain op) {next}
    (hg : ∀ v, Rely fenced i w v → Guar D S fenced i op v)
    (h : ∀ v x v', Rely fenced i w v → Rely fenced i v v' → Kept D S fenced v →
      TranscriptOutcome S i op v x v' → Safe (logic D S ms fenced i) Q (next x) v') :
    Safe (logic D S ms fenced i) Q (request op >>= next) w := by
  intro v hv
  refine ⟨hg v hv,fun x v' ho => ?_⟩
  exact h v x v' hv (rely_of_plain hp (hg v hv) ho.1.2 ho.1.1) ho.2.2 ho.1.1

omit [DecidableEq N] in
def leaseMoment (stem : String) (m : TranscriptMoment N) : Option LeaseMoment :=
  match m.event with
  | .did i _ (.lease s op) x =>
    if s = stem then
      some ⟨m.before.lease stem,.did i ⟨.release "" 0,0⟩ op x,m.after.lease stem⟩
    else none
  | _ => none

theorem safe_ask {E} {p} (h : Safe (logic D S ms fenced i) (Ends Q fun _ => E) p w)
    (hQ : ∀ a, Stable fenced i (Q a)) (hE : Stable fenced i E) :
    Ensures (logic D S ms fenced i) Q (fun _ => E) (ask p) w := by
  refine safe_bind (fun x v hv => ?_) h
  cases x with
  | ok a => exact fun u hu => hQ a v u hu hv
  | error => exact fun u hu => hE v u hu hv

theorem safe_onLease {task} {Q : α → Prop}
    (ht : ∀ w,
      Ensures (Leases.logic (ms.filterMap (leaseMoment stem)) i) (fun a _ => Q a)
      (fun _ _ => True) task w)
    (hI : Stable fenced i I) (hw : I w) :
    Ensures (logic D S ms fenced i) (fun a v => Q a ∧ I v) (fun _ => I) (onLease stem task) w := by
  have hleasing : Safe (logic D S ms fenced i) (fun r v =>
      Ends (fun a _ => Q a) (fun _ _ => True) r (v.lease stem) ∧ I v)
      (leasing stem task.run) w := by
    refine safe_embed (fun w => w.lease stem) ?_ ?_ ?_ ?_ (ht _) hw
    · exact fun _ _ hr => hr.lease stem
    · exact fun _ _ h => h
    · rintro op v x v' hg ⟨⟨ho,hf⟩,⟨_,hm⟩,-⟩
      have hg : Guar D S fenced i (.lease stem op) v := hg
      have hr : Rely fenced i v v' := rely_of_plain (by trivial) hg hf ho
      refine ⟨⟨?_,⟨.release "" 0,0⟩,mem_filterMap.2 ⟨_,hm,?_⟩⟩,hI v v' hr⟩
      · obtain ⟨_,ho,rfl⟩ := ho
        simpa [World.lease] using ho
      · simp [leaseMoment]
    · exact hI
  refine safe_ask (safe_mono ?_ hleasing) (fun a w w' hr h => ⟨h.1,hI w w' hr h.2⟩) hI
  rintro (e | a) v ⟨hq,hv⟩
  · exact hv
  · exact ⟨hq,hv⟩

omit [DecidableEq N] in
theorem closes_of_sealed (hk : Kept D S fenced w) (ht : Tracks D (Read S) (w.entries stem) r)
    (hs : r.sealed) : Closes D S (w.entries stem) r.current := by
  obtain ⟨es,heq,hseen⟩ := ht
  have hsealed : (replayed D es).sealed := by rw [← heq]; exact hs
  rw [sealed_replayed,any_eq_true] at hsealed
  obtain ⟨f,hf,hfs⟩ := hsealed
  obtain ⟨n,hn⟩ := mem_iff_getElem?.1 hf
  obtain ⟨e,he,hread⟩ := hseen n f hn
  have hes : e.sealing := ((S.reread_flags e f hread).2.symm.trans hfs)
  obtain ⟨rfl,hnext⟩ := hk.seals stem n e he hes
  have hlt : n < es.length := (List.getElem?_eq_some_iff.1 hn).1
  have hle := hseen.reaches.le_of_none hnext
  obtain ⟨es',g,rfl⟩ : ∃ es' g, es = es'++[g] := by
    rw [← dropLast_append_getLast (ne_nil_of_length_pos (by omega : 0 < es.length))]
    exact ⟨_,_,rfl⟩
  obtain rfl : n = es'.length := by simp at hlt hle; omega
  rw [List.getElem?_concat_length] at hn
  cases hn
  have hbare : f = { sealing := true } := by
    have hb := S.reread_seal
    rw [show S.reread { sealing := true } = .ok f from hread] at hb
    exact Except.ok.inj hb
  refine ⟨es',he,fun k g hg => hseen k g ?_,?_⟩
  · rw [List.getElem?_append_left (List.getElem?_eq_some_iff.1 hg).1,hg]
  have hcur : r.current = (replayed D (es'++[f])).current := by rw [← heq]; rfl
  rw [hcur,replayed_snoc,hbare]
  simp [Replay.apply,Replay.current]

variable (D S) in
structure Fresh (saw : Entry N → Entry N → Prop) (stem : String) (r : Replay N) (w : World N) :
    Prop where
  tracks : Tracks D saw (w.entries stem) r
  closes : (∀ e f, saw e f → Read S e f) → r.sealed = true → Closes D S (w.entries stem) r.current

omit [DecidableEq N] in
theorem stable_fresh (saw : Entry N → Entry N → Prop) (stem : String) (r : Replay N) :
    Stable fenced i (Fresh D S saw stem r) :=
  fun _ _ hr h => ⟨h.tracks.rely hr,fun hs hsealed => (h.closes hs hsealed).grows (hr.grows stem)⟩

theorem safe_refresh {saw} (hsaw : ∀ e f, Read S e f → saw e f) (hI : Stable fenced i I) (hw : I w)
    (ht : Tracks D saw (w.entries stem) r) :
    Safe (logic D S ms fenced i) (fun (x : Except StorageError Unit × Replay N) v => I v ∧
      Tracks D saw (v.entries stem) x.2 ∧ x.2.reservation = r.reservation ∧
      (x.1 = .ok () → Fresh D S saw stem x.2 v)) (refresh D S stem r) w := by
  refine safe_request (.query stem r.nextSeq) trivial (fun _ _ => trivial)
    fun v x v' hv hv' hk ho => ?_
  have hi := hI _ _ (hv.trans hv') hw
  have htv := ht.rely hv
  obtain ⟨rfl,⟨e,rfl⟩ | ⟨docs,rfl,hl⟩⟩ := ho
  · exact fun u hu => ⟨hI _ _ hu hi,htv.rely hu,rfl,by rintro ⟨⟩⟩
  obtain ⟨hta,hres⟩ := applyListed_tracks (hk.gapless stem) hsaw htv hl
  have hfresh : Fresh D S saw stem (applyListed D S stem r docs).2 v' :=
    ⟨hta,fun hs hsealed => closes_of_sealed hk (hta.mono hs) hsealed⟩
  exact fun u hu => ⟨hI _ _ hu hi,hta.rely hu,hres,fun _ => stable_fresh _ _ _ _ _ hu hfresh⟩

theorem safe_indexing (hI : Stable fenced i I) {n : Nat} :
    ∀ {w : World N}, I w → Safe (logic D S ms fenced i) (fun _ => I) (indexing stem n) w := by
  induction n with
  | zero => exact fun {w} hw v hv => hI w v hv hw
  | succ _ ih =>
    intro w hw
    refine safe_request (.index stem) trivial (fun _ _ => trivial) fun v x _ hv hv' _ _ => ?_
    have hi := hI _ _ (hv.trans hv') hw
    cases x with
    | ok => exact fun u hu => hI _ _ hu hi
    | error => exact ih hi

variable (D S) in
structure Ready (i : Nat) (k : Option Nat) (H : Handle N) (r : Replay N) (w : World N) : Prop where
  handle : At i w H k
  tracks : Tracks D (Sees S k) (w.entries H.stem) r
  reservation : r.reservation = H.replay.reservation

omit [DecidableEq N] in
theorem stable_ready (k : Option Nat) (H : Handle N) (r : Replay N) :
    Stable fenced i (Ready D S i k H r) :=
  fun _ _ hr h => ⟨h.handle.rely hr,h.tracks.rely hr,h.reservation⟩

structure Inserted (fenced : Prop) (H : Handle N) (r : Replay N) (entry : Entry N)
    (lease : Option Lease) (w : World N) : Prop where
  stored : w.entries H.stem r.nextSeq = some entry
  lease : lease = none → r.reservation = none
  claimed : fenced → ∀ v ∈ r.reservation, Claimed w H.stem v

omit [DecidableEq N] in
theorem stable_inserted : Stable fenced i (Inserted fenced H r entry lease) :=
  fun _ _ hr h => ⟨hr.grows _ _ _ h.stored,h.lease,fun hf v hv => hr.claimed hf _ v
    (h.claimed hf v hv)⟩

variable (D S) in
def Answered (fenced : Prop) (i : Nat) (k : Option Nat) (H : Handle N) (r : Replay N) (entry :
    Entry N) : Except TranscriptError (Option Lease × Except StorageError Unit) → World N → Prop :=
  Ends (fun x v => Ready D S i k H r v ∧ (x.2 = .ok () → Inserted fenced H r entry x.1 v))
    fun _ => Ready D S i k H r

section

variable (hw : Ready D S i k H r w) (hbuild : call.build D r H.seed = .ok (some entry))
  (hwritten : k.isSome → entry.written = true)

include hw hbuild hwritten

theorem safe_insert (hc : Conditioned lease r.reservation) {next}
    (h : ∀ x v, Ready D S i k H r v → (x = .ok () → Inserted fenced H r entry lease v) →
      Safe (logic D S ms fenced i) Q (next x) v) :
    Safe (logic D S ms fenced i) Q (request (.insert call k H.stem r.nextSeq entry lease) >>= next)
      w := by
  have hready v (hv : Rely fenced i w v) := stable_ready k H r w v hv hw
  refine safe_request (.insert call k H.stem r.nextSeq entry lease) trivial (fun v hv => ?_)
    fun v x v' hv hv' _ ho => h x v' (stable_ready k H r _ _ hv' (hready v hv)) fun hx => ?_
  · obtain ⟨hh,ht,hr⟩ := hready v hv
    exact ⟨H,r,hh,rfl,rfl,ht,hbuild,hr,hc,hwritten⟩
  obtain ⟨-,e,rfl⟩ | ⟨-,hmeets,rfl,-⟩ := ho
  · cases hx
  refine ⟨by rw [World.entries_put,Ledger.put_self],fun hl => ?_,fun _ u hu => ?_⟩
  · cases hr : r.reservation with
    | none => rfl
    | some =>
      rw [hr] at hc
      obtain ⟨l,hl',-⟩ := hc
      rw [hl] at hl'
      cases hl'
  · rw [hu] at hc
    obtain ⟨l,rfl,hholder,hepoch⟩ := hc
    have hsome : k.isSome := by
      cases k with
      | none =>
        have hn : H.replay.reservation = none := (hready v hv).handle
        rw [← (hready v hv).reservation,hu] at hn
        cases hn
      | some => rfl
    obtain ⟨b,hb,hbh,hbe,-⟩ := hmeets
    exact ⟨⟨b,hb,hbh.trans hholder,hbe.trans hepoch⟩,
      by simp [World.written,World.put,hwritten hsome]⟩

theorem safe_insertNext :
    Safe (logic D S ms fenced i) (Answered D S fenced i k H r entry)
      (insertNext S call k H.stem r entry).run w := by
  have hdone lease x v
      (hv : Ready D S i k H r v) (hx : x = .ok () → Inserted fenced H r entry lease v) :
      Safe (logic D S ms fenced i) (Answered D S fenced i k H r entry) (.ret (.ok (lease,x))) v :=
    fun u hu => ⟨stable_ready k H r v u hu hv,fun hok => stable_inserted v u hu
      (hx hok)⟩
  unfold insertNext claimReservation
  cases hr : r.reservation with
  | none => exact safe_insert hw hbuild hwritten (by rw [hr]; rfl) (hdone none)
  | some held =>
    refine safe_try (Q := fun lease v => Ready D S i k H r v ∧
      ∃ l, lease = some l ∧ l.holder = held.holder ∧ l.epoch = held.epoch) ?_ ?_
    · refine safe_try (Q := fun (l : Lease) v => Ready D S i k H r v ∧
        l.holder = held.holder ∧ l.epoch = held.epoch) ?_ ?_
      · refine safe_try (safe_onLease (Q := fun (l : Option Lease) => ∀ x ∈ l,
          x.holder = held.holder ∧ x.epoch = held.epoch) (fun v => safe_mono ?_
            (Leases.safe_renew _)) (stable_ready k H r) hw) fun l v hv => ?_
        · rintro (e | l) v hv
          · trivial
          · exact fun x hx => (hv x hx).2
        cases l with
        | none => exact fun u hu => stable_ready k H r v u hu hv.2
        | some l => exact fun u hu => ⟨stable_ready k H r v u hu hv.2,hv.1 l rfl⟩
      · exact fun l v hv u hu => ⟨stable_ready k H r v u hu hv.1,l,rfl,hv.2⟩
    · rintro _ v ⟨hv,l,rfl,hl⟩
      refine safe_ofExcept (fun _ _ => ?_) fun _ _ u hu => stable_ready k H r v u hu hv
      refine safe_try (Q := fun _ => Ready D S i k H r) ?_ fun _ v hv => ?_
      · refine safe_request (.openEntries l) trivial (fun _ _ => trivial) fun _ x _ h1 h2 _ _ => ?_
        have hv2 := stable_ready k H r _ _ (h1.trans h2) hv
        cases x with
        | ok | error => exact fun u hu => stable_ready k H r _ u hu hv2
      · exact safe_insert hv hbuild hwritten (by rw [hr]; exact ⟨l,rfl,hl⟩) (hdone (some l))

end

variable (D S) in
def ClosedFor (w : World N) (stem : String) : TranscriptCall N → Prop
  | .beginGeneration _ _ baseline => ∃ rows, Closes D S (w.entries stem) rows ∧
      ∀ base ∈ baseline, SameTranscriptMessages D rows base
  | _ => True

theorem stable_closedFor : Stable fenced i (fun w => ClosedFor D S w stem call) := by
  intro w _ hr h
  cases call with
  | beginGeneration =>
    obtain ⟨rows,hc,hb⟩ := h
    exact ⟨rows,hc.grows (hr.grows stem),hb⟩
  | _ => trivial

variable (D S) in
structure Committed (fenced : Prop) (i : Nat) (k : Option Nat) (H : Handle N)
    (call : TranscriptCall N) (x : Except TranscriptError Bool × Replay N) (w : World N) :
    Prop where
  handle : At i w H k
  returned : Returned D S fenced H x.2 w
  closed : k = none → ∀ b, x.1 = .ok b → ClosedFor D S w H.stem call

theorem stable_committed {x} : Stable fenced i (Committed D S fenced i k H call x) :=
  fun w w' hr h => ⟨h.handle.rely hr,h.returned.rely hr,fun hk b hb =>
    stable_closedFor w w' hr (h.closed hk b hb)⟩

omit [DecidableEq N] in
theorem Ready.returned (h : Ready D S i k H r w) : Returned D S fenced H r w :=
  ⟨h.tracks.mono fun _ _ => sees_known,.inl h.reservation⟩

theorem safe_failed (h : Ready D S i k H r w) (e : TranscriptError) :
    Safe (logic D S ms fenced i) (Committed D S fenced i k H call) (.ret (.error e,r)) w :=
  fun u hu => stable_committed w u hu
    ⟨h.handle,h.returned,fun _ b hb => by cases hb⟩

theorem closedFor_unchanged (hfresh : Fresh D S (Sees S k) H.stem r w)
    (hbuild : call.build D r H.seed = .ok none) (hk : k = none) : ClosedFor D S w H.stem call := by
  subst hk
  cases call with
  | beginGeneration =>
    obtain ⟨he,hrows⟩ := sealEntry_ok hbuild
    split at he
    next hs => exact ⟨r.current,hfresh.closes (fun _ _ h => h) hs,hrows⟩
    · cases he
  | _ => trivial

section

variable (h : Ready D S i k H r w) (hi : Inserted fenced H r entry lease w)
  (hbuild : call.build D r H.seed = .ok (some entry))

include h hi hbuild

theorem closedFor_inserted (hk : k = none) : ClosedFor D S w H.stem call := by
  subst hk
  cases call with
  | beginGeneration =>
    obtain ⟨he,hrows⟩ := sealEntry_ok hbuild
    split at he
    · cases he
    · cases he
      obtain ⟨es,heq,hseen,hlen⟩ := h.tracks.nextSeq
      refine ⟨r.current,⟨es,hlen ▸ hi.stored,hseen,?_⟩,hrows⟩
      rw [← heq]
      rfl
  | _ => trivial

theorem Ready.committed :
    Committed D S fenced i k H call (.ok true,(r.claimedBy lease).apply D r.nextSeq entry) w := by
  have htracks : Tracks D (Known S) (w.entries H.stem) (r.apply D r.nextSeq entry) :=
    (h.tracks.mono fun _ _ => sees_known).apply hi.stored (.inl rfl)
  refine ⟨h.handle,⟨?_,.inr ⟨?_,fun hf v hv => hi.claimed hf v (h.reservation ▸ hv)⟩⟩,
    fun hk _ _ => closedFor_inserted h hi hbuild hk⟩
  · unfold Replay.claimedBy
    split
    · exact htracks.unreserved none
    · exact htracks
  · unfold Replay.claimedBy
    split
    · rfl
    next hl => exact hi.lease (by simpa using hl)

end

theorem safe_commitFrom {h : Handle N} (hstem : h.stem = H.stem) (hseed : h.seed = H.seed)
    (hwritten : k.isSome → ∀ r e, call.build D r H.seed = .ok (some e) → e.written) {n : Nat} :
    ∀ {r : Replay N} {w : World N}, Ready D S i k H r w →
    Safe (logic D S ms fenced i) (Committed D S fenced i k H call)
      (commitFrom D S call k h n r) w := by
  have hread (e f : Entry N) (h : Read S e f) : Sees S k e f := by
    cases k with
    | none => exact h
    | some => exact .inr h
  induction n with
  | zero => exact fun hw => safe_failed hw _
  | succ _ ih =>
    intro r w hw
    unfold commitFrom
    rw [hstem,hseed]
    refine safe_bind ?_ (safe_refresh hread
      (fun _ _ hr (ha : At i _ H k) => ha.rely hr) hw.handle hw.tracks)
    rintro ⟨answer,r1⟩ v ⟨hat,ht,hres,hfresh⟩
    have hready : Ready D S i k H r1 v := ⟨hat,ht,hres.trans hw.reservation⟩
    cases answer with
    | error => exact safe_failed hready _
    | ok =>
      have hfresh := hfresh rfl
      dsimp only
      cases hbuild : call.build D r1 H.seed with
      | error => exact safe_failed hready _
      | ok built =>
        cases built with
        | none =>
          exact fun u hu => stable_committed v u hu
            ⟨hat,hready.returned,fun hk _ _ => closedFor_unchanged hfresh hbuild hk⟩
        | some =>
          refine safe_bind ?_ (safe_insertNext hready hbuild fun hk =>
            hwritten hk _ _ hbuild)
          rintro (e | ⟨_,answer⟩) v hv
          · exact safe_failed hv e
          obtain ⟨hv,hok⟩ := hv
          cases answer with
          | error e =>
            cases e with
            | conflict => exact ih hv
            | _ => exact safe_failed hv _
          | ok =>
            have hdone := hv.committed (hok rfl) hbuild
            dsimp only
            split
            · refine safe_bind ?_ (safe_indexing stable_committed hdone)
              exact fun _ v hv u hu => stable_committed v u hu hv
            · exact fun u hu => stable_committed _ u hu hdone

end

section

variable [DecidableEq N] {ms : List (TranscriptMoment N)} {fenced : Prop} {i : Nat} {α : Type}

def Anyhow : Except TranscriptError α → World N → Prop :=
  Ends (fun _ _ => True) fun _ _ => True

variable {w : World N}

theorem safe_anyhow {x : Except TranscriptError α} :
    Safe (logic D S ms fenced i) Anyhow (.ret x) w := by
  intro v _
  cases x <;> trivial

variable {k : Nat} {stem : String}

variable (D S) in
def Back (fenced : Prop) (i k : Nat) (res : Except TranscriptError α × Replay N) (w : World N) :
    Prop :=
  ∃ H, At i w H (some k) ∧ Returned D S fenced H res.2 w

theorem safe_back {H : Handle N} {r} {x : Except TranscriptError α}
    (h : Ready D S i (some k) H r w) :
    Safe (logic D S ms fenced i) (Back D S fenced i k) (.ret (x,r)) w :=
  fun _ hu => ⟨H,h.handle.rely hu,h.returned.rely hu⟩

theorem safe_locked {body : Handle N → TranscriptProgram N (Except TranscriptError α × Replay N)}
    (hbody : ∀ x w, Ready D S i (some k) (x.lockedBy i) x.replay w →
      Safe (logic D S ms fenced i) (Back D S fenced i k) (body x) w) :
    Safe (logic D S ms fenced i) Anyhow (locked k body).run w := by
  refine safe_perform_bind fun v _ => ⟨trivial,?_⟩
  rintro x _ ⟨⟨⟨hx,-,rfl⟩,-⟩,-,hk⟩
  have hat : At i (v.modify k (.lockedBy i)) (x.lockedBy i) (some k) := by
    refine ⟨?_,rfl⟩
    rw [World.getElem?_modify,if_pos rfl,hx]
    rfl
  refine safe_bind ?_ (hbody x _ ⟨hat,hk.tracks x (mem_of_getElem? hx),rfl⟩)
  rintro ⟨_,r⟩ u ⟨H,hH,hret⟩ _ hu'
  exact ⟨⟨H,hH.rely hu',hret.rely hu'⟩,fun _ _ _ => safe_anyhow⟩

theorem safe_commit {call : TranscriptCall N}
    (hcall : ∀ r seed e, call.build D r seed = .ok (some e) → e.written) :
    Safe (logic D S ms fenced i) Anyhow (commit D S call k).run w := by
  unfold commit
  generalize casAttempts = n
  refine safe_locked (fun x v hv => ?_)
  refine safe_mono ?_ (safe_commitFrom (h := x) (H := x.lockedBy i) rfl rfl
    (fun _ r e => hcall r _ e) hv)
  exact fun _ u hu => ⟨_,hu.handle,hu.returned⟩

theorem safe_reading {repair : Bool} {view : Handle N → Replay N → α} :
    Safe (logic D S ms fenced i) Anyhow (reading D S k repair view).run w := by
  refine safe_locked (fun x v hv => ?_)
  refine safe_bind ?_ (safe_refresh (fun _ _ h => .inr h)
    (fun _ _ hr (ha : At i _ (x.lockedBy i) (some k)) => ha.rely hr) hv.handle hv.tracks)
  rintro ⟨answer,r⟩ u ⟨hat,ht,hres,-⟩
  have hready : Ready D S i (some k) (x.lockedBy i) r u := ⟨hat,ht,hres⟩
  cases answer with
  | error => exact safe_back hready
  | ok =>
    dsimp only
    split
    · exact safe_bind (fun _ _ => safe_back)
        (safe_indexing (stable_ready (some k) (x.lockedBy i) r) hready)
    · exact safe_back hready

theorem safe_releaseReservation {held} {I} (hI : Stable fenced i I) (hw : I w) :
    Safe (logic D S ms fenced i) (fun _ => I) (releaseReservation S stem held).run w := by
  refine safe_mono ?_ (safe_onLease (Q := fun _ => True) (fun v => safe_mono ?_
    (Leases.safe_release _ _ _ v)) hI hw)
  · rintro (e | done) v hv
    · exact hv
    · exact hv.2
  · rintro (e | done) v - <;> trivial

theorem safe_giveBack : Safe (logic D S ms fenced i) Anyhow (giveBack D S k).run w := by
  refine safe_locked (fun x v hv => ?_)
  refine safe_bind ?_ (safe_refresh (fun _ _ h => .inr h)
    (fun _ _ hr (ha : At i _ (x.lockedBy i) (some k)) => ha.rely hr) hv.handle hv.tracks)
  rintro ⟨answer,r⟩ u ⟨hat,ht,hres,-⟩
  have hready : Ready D S i (some k) (x.lockedBy i) r u := ⟨hat,ht,hres⟩
  cases answer with
  | error => exact safe_back hready
  | ok =>
    dsimp only
    split
    · refine safe_perform_bind fun u1 hu1 => ⟨⟨_,hat.rely hu1⟩,?_⟩
      rintro _ u2 ⟨⟨ho,-⟩,-,-⟩
      rw [show u2 = u1.modify k .dropped from ho]
      have hdropped : Ready D S i (some k) (x.lockedBy i).dropped { r with reservation := none }
          (u1.modify k .dropped) := by
        refine ⟨⟨?_,rfl⟩,(ht.rely hu1).unreserved none,rfl⟩
        rw [World.getElem?_modify,if_pos rfl,(hat.rely hu1).1]
        rfl
      refine safe_bind ?_ (safe_releaseReservation (stable_ready _ _ _) hdropped)
      rintro (e | _) u3 hu3
      all_goals exact safe_back hu3
    · exact safe_back hready

theorem safe_commitAlone {call} {seed} :
    Ensures (logic D S ms fenced i) (fun _ v => ClosedFor D S v stem call) (fun _ _ => True)
      (commitAlone D S call stem seed) w := by
  have hready : Ready D S i none { stem := stem, seed := seed } {} w := ⟨rfl,tracks_new,rfl⟩
  unfold commitAlone
  generalize casAttempts = n
  refine safe_bind ?_ (safe_commitFrom rfl rfl (by simp) hready)
  rintro ⟨result,r⟩ v hv u hu
  cases result with
  | error => trivial
  | ok b => exact stable_closedFor v u hu (hv.closed rfl b rfl)

theorem safe_reserve : Safe (logic D S ms fenced i) Anyhow (reserve S stem).run w := by
  refine safe_try (Q := fun _ _ => True) (safe_request (.count stem) trivial (fun _ _ => trivial)
    fun v x _ _ _ _ _ => ?_) fun _ v _ => ?_
  · cases x <;> exact safe_anyhow
  split
  · exact safe_anyhow
  refine safe_request .uuid trivial (fun _ _ => trivial) fun _ uuid _ _ _ _ _ => ?_
  refine safe_try (Q := fun _ _ => True) (safe_mono ?_ (safe_onLease (Q := fun _ => True)
    (fun v => safe_mono ?_ (Leases.safe_acquire _ _ _ v)) (I := fun _ => True)
      (fun _ _ _ h => h) trivial)) fun lease v _ => ?_
  · rintro (e | lease) v - <;> trivial
  · rintro (e | lease) v - <;> trivial
  · cases lease <;> exact safe_anyhow

def TranscriptCall.predecessor : TranscriptCall N → String
  | .beginGeneration session _ _ => sessionStem session
  | _ => ""

variable (D S) in
def Post (call : TranscriptCall N) : TranscriptResult N → World N → Prop :=
  Ends (fun _ w => ClosedFor D S w call.predecessor call) fun _ _ => True

theorem safe_beginGeneration {session : SessionRef} {seed} {baseline} :
    Safe (logic D S ms fenced i) (Post D S (.beginGeneration session seed baseline))
      (beginGenerationChecked D S session seed baseline).run w := by
  unfold beginGenerationChecked
  dsimp only
  split
  · exact fun _ _ => trivial
  refine safe_try safe_reserve fun _ v _ => ?_
  refine safe_bind ?_ safe_commitAlone
  rintro (e | b) u hu
  · refine safe_bind ?_ (safe_releaseReservation (I := fun _ => True) (fun _ _ _ h => h) trivial)
    exact fun _ _ _ _ _ => trivial
  refine safe_perform_bind fun _ hu1 => ⟨trivial,?_⟩
  rintro _ _ ⟨⟨⟨-,rfl⟩,-⟩,-,-⟩ _ hu3
  obtain ⟨rows,hc,hb⟩ := hu
  have hgrows := (hu1.grows (sessionStem session)).trans (hu3.grows (sessionStem session))
  exact ⟨rows,hc.grows hgrows,hb⟩

theorem safe_task (call : TranscriptCall N) (w : World N) :
    Safe (logic D S ms fenced i) (Post D S call) (call.task D S).run w := by
  have hshared (hc : ∀ session seed baseline, call ≠ .beginGeneration session seed baseline)
      (r : Replay N) (seed : TranscriptMeta) (e : Entry N)
      (hb : call.build D r seed = .ok (some e)) : e.written := by
    obtain ⟨-,⟨hw,-⟩ | ⟨-,session,_,baseline,he,-⟩⟩ := build_cases hb
    · exact hw
    · exact (hc _ _ _ he).elim
  have hend (hc : ∀ session seed baseline, call ≠ .beginGeneration session seed baseline)
      (x : TranscriptResult N) (v : World N) : Safe (logic D S ms fenced i) (Post D S call)
        (.ret x) v := by
    intro u _
    cases x with
    | error => trivial
    | ok =>
      cases call with
      | beginGeneration => exact (hc _ _ _ rfl).elim
      | _ => trivial
  cases call with
  | beginGeneration => exact safe_beginGeneration
  | openStem => exact fun v _ => ⟨trivial,fun x v' _ => hend (by simp) _ v'⟩
  | appendTurn | append | replace =>
    exact safe_try (safe_commit (hshared (by simp))) fun b v _ => hend (by simp) _ v
  | adoptIfEmpty =>
    simp only [TranscriptCall.task]
    split
    · exact hend (by simp) _ w
    · exact safe_try (safe_commit (hshared (by simp))) fun b v _ => hend (by simp) _ v
  | clear =>
    refine safe_try safe_giveBack fun _ v _ => ?_
    split
    · exact hend (by simp) _ v
    · exact safe_try (safe_commit (hshared (by simp))) fun b v _ => hend (by simp) _ v
  | messages | partials | readSession => exact safe_reading
  | appendInterruptedPartial =>
    simp only [TranscriptCall.task,appendInterruptedPartial]
    split
    · exact hend (by simp) _ w
    refine safe_request (.newestRoot _ _) trivial (fun _ _ => trivial) fun v x v' _ _ _ _ => ?_
    cases x with
    | none => exact hend (by simp) _ v'
    | some =>
      refine safe_try safe_commitAlone fun b v _ => hend (by simp) _ v

end

section

variable [DecidableEq N] {ms : List (TranscriptMoment N)} {fenced : Prop} {w : World N}

omit [DecidableEq N] in
theorem rely_env {i : Nat} {w' : World N} (hd : w'.docs = w.docs) (hh : w'.handles = w.handles)
    (hl : w'.leases = w.leases) (hn : w.now ≤ w'.now) : Rely fenced i w w' := by
  obtain ⟨docs,handles,leases,_⟩ := w'
  obtain ⟨rfl,rfl,rfl⟩ : docs = w.docs ∧ handles = w.handles ∧ leases = w.leases := ⟨hd,hh,hl⟩
  exact ⟨fun _ => Ledger.grows_refl,fun _ _ h _ => h,fun _ => ⟨Cell.later_refl,hn⟩,fun _ _ _ h => h⟩

theorem contract (ms : List (TranscriptMoment N)) (fenced : Prop) :
    (((machine S D).under fun op w => fenced → Fenced op w).observed ms).Contract (fun _ => True)
      (Kept D S fenced) (logic D S ms fenced) (fun _ => Post D S) where
  outcome := fun _ _ _ _ _ hk ho => ⟨ho.1,ho.2,hk⟩
  opens := fun _ call w _ _ => ⟨trivial,safe_task call w⟩
  keeps := fun _ _ _ _ _ hk hg ho => kept_outcome hk hg ho.1.2 ho.1.1
  frame := fun _ _ _ _ _ _ _ _ hij _ hg ho => rely_of_other hij hg ho.1.2 ho.1.1
  env_keeps := fun _ _ hk ⟨hd,hh,hl,hn⟩ => hk.of_handles hd (rely_env (i := 0) hd hh hl hn) hh
  env_frame := fun _ _ _ _ ⟨hd,hh,hl,hn⟩ => rely_env hd hh hl hn

def Opening (w : World N) : Prop := w.docs = [] ∧ w.handles = []

omit [DecidableEq N] in
theorem Opening.kept (h : Opening w) : Kept D S fenced w := by
  have he stem seq : w.entries stem seq = none := by simp [World.entries,h.1]
  refine ⟨fun stem n hn => ?_,fun stem seq e hs => ?_,?_,?_,?_⟩
  · rw [he] at hn
    cases hn
  · rw [he] at hs
    cases hs
  all_goals simp [h.2]

theorem run_kept {c} (hw : Opening w) (h : (machine S D).Run (.idle w) ms c)
    (hf : fenced → ∀ m ∈ ms, ∀ op ∈ m.op, Fenced op m.before) :
    Kept D S fenced c.world ∧ ∀ m ∈ ms, Kept D S fenced m.before ∧ Kept D S fenced m.after ∧
      (∀ i call op x, m.event = .did i call op x → Guar D S fenced i op m.before ∧
      TranscriptOutcome S i op m.before x m.after) ∧
    ∀ i call r, m.event = .finish i call r → Post D S call r m.before := by
  have hunder : ((machine S D).under fun op w => fenced → Fenced op w).Run (.idle w) ms c :=
    h.under fun m hm op hop hfe => hf hfe m hm op hop
  have hrun := hunder.observed fun _ hm => hm
  obtain ⟨⟨hk,-⟩,hms⟩ := hrun.sound (contract ms fenced) (Machine.sound_idle hw.kept)
  refine ⟨hk,fun m hm => ?_⟩
  obtain ⟨hb,ha,he⟩ := hms m hm
  refine ⟨hb,ha,fun i call op x hev => ?_,fun i call r hev => ?_⟩
  · rw [hev] at he
    exact ⟨he.1,he.2.1.1⟩
  · rw [hev] at he
    exact he.1

end

def Deployment.plain : Deployment N where
  entryId := fun stem _ => stem
  reread := .ok
  conditionedEntries := true
  scope := true
  leaseAttempts := 32
  acked := true
  reread_flags := by
    rintro entry found ⟨⟩
    exact ⟨rfl,rfl⟩
  reread_seal := rfl

def listFrom (log : Ledger (Entry N)) : Nat → Nat → List (Nat × Entry N)
  | 0, _ => []
  | fuel+1, seq => (log seq).elim [] fun e => (seq,e) :: listFrom log fuel (seq+1)

theorem listFrom_listing (log : Ledger (Entry N)) (fuel seq : Nat) :
    log.Listing seq (listFrom log fuel seq) := by
  induction fuel generalizing seq with
  | zero => exact .nil seq
  | succ _ ih =>
    unfold listFrom
    cases he : log seq with
    | none => exact .nil seq
    | some => exact .cons (Nat.le_refl seq) he (by omega) (ih (seq+1))

instance (w : World N) (condition : Option Lease) (stem : String) :
    Decidable (w.Meets condition stem) :=
  match condition with
  | none => isTrue trivial
  | some _ => inferInstanceAs (Decidable (∃ b ∈ (w.leases stem).doc, _))

def perform (i : Nat) : (op : TranscriptOp N) → World N → Option (TranscriptAns op × World N)
  | .openHandle stem seed reservation, w => some (w.handles.length,{ w with
      handles := w.handles++[{
        stem := stem, seed := seed, replay := { reservation := reservation }
        reserved := reservation }] })
  | .lock k, w => (w.handles[k]?.filter fun h => h.owner = none).map fun h =>
    (h,w.modify k (.lockedBy i))
  | .takeReservation k, w => some ((),w.modify k .dropped)
  | .unlock k r, w => some ((),w.modify k (.freed r))
  | .query stem seq, w => some (.ok (listFrom (w.entries stem) 8 seq),w)
  | .count stem, w => some (.ok (w.written stem),w)
  | .openEntries _, w => some (.ok (),w)
  | .insert _ _ stem seq entry condition, w =>
    if w.entries stem seq = none ∧ w.Meets condition stem then
      some (.ok (),w.put stem seq entry)
    else some (.error .conflict,w)
  | .index _, w => some (.ok (),w)
  | .newestRoot _ _, w => some (none,w)
  | .uuid, w => some (toString w.handles.length,w)
  | .lease stem op, w => some ((Leases.perform op (w.lease stem)).1,{ w with
      leases := Function.update w.leases stem (Leases.perform op (w.lease stem)).2.cell })

def driver : Driver (TranscriptOp N) TranscriptAns (World N) where
  perform := perform
  tick := fun t w => { w with now := w.now+t }

theorem leases_now {op : LeaseOp} {w w' : LeaseWorld} {x} (h : LeaseOutcome op w x w') :
    w'.now = w.now := by
  cases op with
  | clock => rw [h.2]
  | get => rw [h.1]
  | put =>
    obtain ⟨-,rfl⟩ | ⟨-,rfl,-⟩ := h
    all_goals rfl

theorem driver_fits [DecidableEq N] (D : Dialect N) (S : Deployment N) :
    (driver (N := N)).Fits (machine S D) where
  perform := fun i op w x _ h => by
    cases op with
    | lock =>
      obtain ⟨_,hh,he⟩ := Option.map_eq_some_iff.1 h
      obtain ⟨hk,hfree⟩ := Option.filter_eq_some_iff.1 hh
      cases he
      exact ⟨hk,of_decide_eq_true hfree,rfl⟩
    | insert =>
      simp only [driver,perform] at h
      split at h
      next hc =>
        cases h
        exact .inr ⟨hc.1,hc.2,rfl,.inl rfl⟩
      · cases h
        exact .inl ⟨rfl,_,rfl⟩
    | query _ seq =>
      cases h
      exact ⟨rfl,.inr ⟨_,rfl,listFrom_listing _ 8 seq⟩⟩
    | count =>
      cases h
      exact ⟨rfl,.inr rfl⟩
    | lease stem op =>
      cases h
      have ho : LeaseOutcome op (w.lease stem) _ (Leases.perform op (w.lease stem)).2 :=
        Leases.driver_fits.perform i op (w.lease stem) _ _ rfl
      refine ⟨_,?_,rfl⟩
      rw [show w.now = (w.lease stem).now from rfl,← leases_now ho]
      exact ho
    | openHandle =>
      cases h
      exact ⟨rfl,rfl⟩
    | takeReservation | unlock | openEntries | index | newestRoot | uuid =>
      cases h
      rfl
  tick := fun t w => ⟨rfl,rfl,rfl,Nat.le_add_right _ t⟩

end Session.DriverTranscripts
