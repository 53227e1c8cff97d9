import TinyAgents.Session.Commits

namespace Session.DriverTranscripts

open Interaction StorageKit StorageKit.Leases List Option

variable {N : Type} {D : Dialect N} {S : Deployment N}

section

abbrev TranscriptExchange (N : Type) := Exchange (TranscriptOp N) TranscriptAns (World N)

def Reads : TranscriptOp N → Prop
  | .insert _ _ _ _ _ _ => False
  | _ => True

def Wrote (call : TranscriptCall N) (k : Option Nat) : TranscriptExchange N → Prop
  | ⟨_,.insert c j _ _ _ _,.ok _,_⟩ => c = call ∧ j = k
  | _ => False

abbrev writing [DecidableEq N] (S : Deployment N) (D : Dialect N) (i : Nat) :=
  recording ((machine S D).answers i)

def Silent (es : List (TranscriptExchange N)) : Prop :=
  ∀ e ∈ es, e.after.docs = e.before.docs

variable {i : Nat} {α : Type} {es : List (TranscriptExchange N)}

theorem docs_of_reads {op} {w w' : World N} {x} (hop : Reads op)
    (h : TranscriptOutcome S i op w x w') : w'.docs = w.docs := by
  cases op with
  | insert => exact hop.elim
  | openHandle => rw [h.2]
  | lock =>
    rw [h.2.2]
    rfl
  | query | count => rw [h.1]
  | takeReservation | unlock =>
    rw [show w' = _ from h]
    rfl
  | lease =>
    obtain ⟨_,-,rfl⟩ := h
    rfl
  | openEntries | index | newestRoot | uuid => rw [show w' = w from h]

theorem asks_onLease {stem : String} {task : LeaseTask α} :
    Asks Reads (onLease (N := N) stem task).run := by
  refine asks_bind (asks_embed (asks_all (fun _ => trivial))) fun x => ?_
  cases x <;> trivial

variable {r : Replay N} {stem : String}

theorem asks_refresh : Asks Reads (refresh D S stem r) := by
  refine ⟨trivial,fun x => ?_⟩
  cases x <;> trivial

theorem asks_indexing {n : Nat} : Asks Reads (indexing (N := N) stem n) := by
  induction n with
  | zero => trivial
  | succ _ ih =>
    refine ⟨trivial,fun x => ?_⟩
    cases x with
    | ok => trivial
    | error => exact ih

theorem asks_claimReservation : Asks Reads (claimReservation S stem r).run := by
  unfold claimReservation
  split
  · trivial
  · refine asks_try (asks_try asks_onLease fun lease => ?_) fun _ => trivial
    cases lease <;> trivial

theorem asks_releaseReservation (held : Reservation) :
    Asks Reads (releaseReservation S stem held).run :=
  asks_onLease

variable {body : Handle N → TranscriptProgram N (Except TranscriptError α × Replay N)}
  {k : Option Nat} {stem : String} {call : TranscriptCall N}

theorem asks_locked {k : Nat} (hbody : ∀ h, Asks Reads (body h)) : Asks Reads (locked k body).run :=
  asks_perform trivial fun h => asks_bind (hbody h) fun _ => asks_perform trivial fun _ => trivial

theorem asks_giveBack {k : Nat} : Asks Reads (giveBack D S k).run := by
  refine asks_locked fun h => asks_bind asks_refresh ?_
  rintro ⟨answer,r⟩
  cases answer with
  | error => trivial
  | ok =>
    dsimp only
    split
    · refine asks_perform trivial fun _ => asks_bind (asks_releaseReservation _) fun x => ?_
      cases x <;> trivial
    · trivial

theorem asks_reading {k : Nat} {repair : Bool} {view : Handle N → Replay N → α} :
    Asks Reads (reading D S k repair view).run := by
  refine asks_locked fun h => asks_bind asks_refresh ?_
  rintro ⟨answer,r⟩
  cases answer with
  | error => trivial
  | ok =>
    dsimp only
    split
    · exact asks_bind asks_indexing fun _ => trivial
    · trivial

theorem asks_reserve {stem : String} : Asks Reads (reserve S stem).run := by
  refine asks_try ⟨trivial,fun x => by cases x <;> trivial⟩ fun _ => ?_
  split
  · trivial
  · refine ⟨trivial,fun _ => asks_try asks_onLease fun lease => ?_⟩
    cases lease <;> trivial

variable [DecidableEq N]

variable (D) in
def Told (call : TranscriptCall N) (k : Option Nat) (es : List (TranscriptExchange N)) :
    Except TranscriptError Bool → Prop
  | .error _ => Silent es
  | .ok false => Silent es ∧ ∃ r seed, call.build D r seed = .ok none
  | .ok true => ∃ e ∈ es, Wrote call k e

omit [DecidableEq N] in
theorem silent_cons {e} (hop : Reads e.op)
    (he : TranscriptOutcome S i e.op e.before e.answer e.after) (h : Silent es) :
    Silent (e :: es) := by
  intro e' he'
  rcases mem_cons.1 he' with rfl | he'
  · exact docs_of_reads hop he
  · exact h e' he'

theorem told_cons {e} {x} (hop : Reads e.op)
    (he : TranscriptOutcome S i e.op e.before e.answer e.after) (h : Told D call k es x) :
    Told D call k (e :: es) x := by
  match x, h with
  | .error _, h => exact silent_cons hop he h
  | .ok false, h => exact ⟨silent_cons hop he h.1,h.2⟩
  | .ok true, ⟨e',hm,hw⟩ => exact ⟨e',mem_cons_of_mem e hm,hw⟩

theorem recorded_reads {J : List (TranscriptExchange N) → Prop}
    (hJ : ∀ e es, Reads e.op → TranscriptOutcome S i e.op e.before e.answer e.after →
      J es → J (e :: es))
    {p : TranscriptProgram N α} (hp : Asks Reads p) (h : J es) :
    Safe (writing S D i) (fun _ => J) p es := by
  refine safe_of_asks ?_ ?_ hp h
  · rintro _ _ h rfl
    exact h
  rintro op es hop h
  refine ⟨trivial,?_⟩
  rintro x _ ⟨w,w',ha,rfl⟩
  exact hJ ⟨w,op,x,w'⟩ es hop ha h

theorem recorded_silent {p : TranscriptProgram N α} (hp : Asks Reads p) (h : Silent es) :
    Safe (writing S D i) (fun _ => Silent) p es :=
  recorded_reads (fun _ _ => silent_cons) hp h

def Answers (call : TranscriptCall N) (k : Option Nat) (es : List (TranscriptExchange N)) :
    Except TranscriptError (Option Lease × Except StorageError Unit) → Prop
  | .ok (_,.ok _) => ∃ e ∈ es, Wrote call k e
  | _ => Silent es

def Reported (call : TranscriptCall N) (es : List (TranscriptExchange N)) :
    TranscriptResult N → Prop
  | .error _ => Silent es
  | .ok _ => ∀ k turn shown, call = .appendTurn k turn shown → ∃ e ∈ es, Wrote call (some k) e

section

variable (hacked : S.acked = true)

include hacked

theorem recorded_insert {seq : Nat} {entry : Entry N} {lease : Option Lease} (h : Silent es)
    {Q : α → List (TranscriptExchange N) → Prop}
    {next : Except StorageError Unit → TranscriptProgram N α}
    (hok : ∀ es', (∃ e ∈ es', Wrote call k e) → Safe (writing S D i) Q (next (.ok ())) es')
    (herror : ∀ e es', Silent es' → Safe (writing S D i) Q (next (.error e)) es') :
    Safe (writing S D i) Q (request (.insert call k stem seq entry lease) >>= next) es := by
  refine recording_ask fun w x _ ha => ?_
  cases x with
  | ok => exact hok _ ⟨_,mem_cons_self,rfl,rfl⟩
  | error e =>
    refine herror e _ fun e' he' => ?_
    rcases mem_cons.1 he' with rfl | he'
    · obtain ⟨hw,-⟩ | ⟨-,-,-,hx | ⟨hlost,-⟩⟩ := ha
      · exact congrArg World.docs hw
      · cases hx
      · rw [hacked] at hlost
        cases hlost
    · exact h e' he'

theorem recorded_insertNext {entry : Entry N} (h : Silent es) :
    Safe (writing S D i) (fun x es => Answers call k es x)
      (insertNext S call k stem r entry).run es := by
  refine safe_bind ?_ (recorded_silent asks_claimReservation h)
  rintro (e | _ | lease) _ h1
  · exact recording_ret h1
  · exact recorded_insert hacked h1 (fun _ hw => recording_ret hw) fun _ _ hs => recording_ret hs
  refine safe_ofExcept (fun _ _ => ?_) fun _ _ => recording_ret h1
  refine recording_lift fun w x w' ha => ?_
  have ha : TranscriptOutcome S i (.openEntries lease) w x w' := ha
  have h2 := silent_cons (e := ⟨w,.openEntries lease,x,w'⟩) trivial ha h1
  cases x with
  | error => exact recording_ret h2
  | ok =>
    exact recorded_insert hacked h2 (fun _ hw => recording_ret hw) fun _ _ hs => recording_ret hs

theorem recorded_commitFrom {h : Handle N} {n : Nat} :
    ∀ {r : Replay N} {es : List (TranscriptExchange N)}, Silent es →
    Safe (writing S D i) (fun x es => Told D call k es x.1) (commitFrom D S call k h n r) es := by
  induction n with
  | zero => exact fun hs => recording_ret hs
  | succ _ ih =>
    intro r es hs
    unfold commitFrom
    refine safe_bind ?_ (recorded_silent asks_refresh hs)
    rintro ⟨answer,r1⟩ _ h1
    cases answer with
    | error => exact recording_ret h1
    | ok =>
      dsimp only
      cases hbuild : call.build D r1 h.seed with
      | error => exact recording_ret h1
      | ok built =>
        cases built with
        | none => exact recording_ret ⟨h1,r1,h.seed,hbuild⟩
        | some =>
          refine safe_bind ?_ (recorded_insertNext hacked h1)
          rintro (e | ⟨_,answer⟩) _ h2
          · exact recording_ret h2
          cases answer with
          | error e =>
            cases e with
            | conflict => exact ih h2
            | _ => exact recording_ret h2
          | ok =>
            dsimp only
            split
            · refine safe_bind ?_ (recorded_reads (J := fun es => Told D call k es (.ok true))
                (fun _ _ => told_cons) asks_indexing h2)
              exact fun _ _ h3 => recording_ret h3
            · exact recording_ret h2

theorem recorded_commit {k : Nat} (h : Silent es) :
    Safe (writing S D i) (fun x es => Told D call (some k) es x) (commit D S call k).run es := by
  unfold commit
  generalize casAttempts = n
  refine recording_perform fun w x w' ha => ?_
  have ha : TranscriptOutcome S i (.lock k) w x w' := ha
  refine safe_bind ?_ (recorded_commitFrom hacked (silent_cons trivial ha h))
  rintro ⟨_,r⟩ _ h1
  refine recording_perform fun v y v' hb => ?_
  have hb : TranscriptOutcome S i (.unlock k r) v y v' := hb
  exact recording_ret (told_cons trivial hb h1)

theorem recorded_commitAlone {seed} (h : Silent es) :
    Safe (writing S D i) (fun x es => Told D call none es x)
      (commitAlone D S call stem seed).run es := by
  unfold commitAlone
  generalize casAttempts = n
  refine safe_bind ?_ (recorded_commitFrom hacked h)
  exact fun _ _ hx => recording_ret hx

theorem recorded_beginGeneration {session : SessionRef} {seed : TranscriptMeta}
    {baseline : Option (List (TranscriptMessage N))} :
    Safe (writing S D i) (fun x es => Reported (.beginGeneration session seed baseline) es x)
      (beginGenerationChecked D S session seed baseline).run [] := by
  have hnil : Silent ([] : List (TranscriptExchange N)) := by simp [Silent]
  unfold beginGenerationChecked
  dsimp only
  split
  · exact recording_ret hnil
  refine safe_bind ?_ (recorded_silent asks_reserve hnil)
  rintro (e | _) _ h1
  · exact recording_ret h1
  refine safe_bind ?_ (recorded_commitAlone hacked h1)
  rintro (e | b) _ h2
  · refine safe_bind ?_ (recorded_silent (asks_releaseReservation _) h2)
    exact fun _ _ h3 => recording_ret h3
  · exact recording_ask fun _ _ _ _ => recording_ret (by rintro k _ _ ⟨⟩)

theorem recorded_task {call : TranscriptCall N} :
    Safe (writing S D i) (fun x es => Reported call es x) (call.task D S).run [] := by
  have hnil : Silent ([] : List (TranscriptExchange N)) := by simp [Silent]
  have hcommit (hc : ∀ k turn shown, call ≠ .appendTurn k turn shown) {k}
      {reply : Bool → Reply N} {es : List (TranscriptExchange N)} (hs : Silent es) :
      Safe (writing S D i) (fun x es => Reported call es x)
        (commit D S call k >>= fun b => pure (reply b)).run es := by
    refine safe_bind ?_ (recorded_commit hacked hs)
    rintro (e | b) es1 h1
    · exact recording_ret h1
    · exact recording_ret fun k turn shown he => (hc k turn shown he).elim
  have hreads (hc : ∀ k turn shown, call ≠ .appendTurn k turn shown)
      {p : TranscriptTask N (Reply N)} (hp : Asks Reads p.run) :
      Safe (writing S D i) (fun x es => Reported call es x) p.run [] := by
    refine safe_mono ?_ (recorded_silent hp hnil)
    rintro (e | reply) es hs
    · exact hs
    · exact fun k turn shown he => (hc k turn shown he).elim
  cases call with
  | appendTurn =>
    refine safe_bind ?_ (recorded_commit hacked hnil)
    rintro (e | b) es1 h1
    · exact recording_ret h1
    cases b with
    | false =>
      obtain ⟨-,r,_,hb⟩ := h1
      simp only [TranscriptCall.build,turnEntry] at hb
      split_ifs at hb
      simp at hb
    | true =>
      refine recording_ret fun _ _ _ he => ?_
      cases he
      exact h1
  | append | replace => exact hcommit (by simp) hnil
  | adoptIfEmpty k =>
    simp only [TranscriptCall.task]
    split
    · exact recording_ret (by rintro k turn shown ⟨⟩)
    · exact hcommit (by simp) hnil
  | clear k =>
    refine safe_bind ?_ (recorded_silent asks_giveBack hnil)
    rintro (e | released) es1 h1
    · exact recording_ret h1
    cases released with
    | true => exact recording_ret (by rintro k turn shown ⟨⟩)
    | false => exact hcommit (by simp) h1
  | openStem => exact hreads (by simp) ⟨trivial,fun _ => trivial⟩
  | messages | partials | readSession => exact hreads (by simp) asks_reading
  | beginGeneration =>
    exact recorded_beginGeneration hacked
  | appendInterruptedPartial _ _ shown =>
    simp only [TranscriptCall.task,appendInterruptedPartial]
    split
    · exact recording_ret (by rintro k turn shown ⟨⟩)
    refine recording_lift fun w x w' ha => ?_
    have ha : TranscriptOutcome S i (.newestRoot _ _) w x w' := ha
    have h1 := silent_cons (e := ⟨w,.newestRoot _ _,x,w'⟩) trivial ha hnil
    cases x with
    | none => exact recording_ret (by rintro k turn shown ⟨⟩)
    | some =>
      refine safe_bind ?_ (recorded_commitAlone hacked h1)
      rintro (e | b) _ h2
      · exact recording_ret h2
      · exact recording_ret (by rintro k turn shown ⟨⟩)

end

end

section

variable [DecidableEq N] {e : Entry N} {w : World N}

theorem turnEntry_ok {r : Replay N} {turn} (h : turnEntry D r turn = .ok (some e)) :
    (r.written → SameTranscriptMessages D r.messages turn.prev) ∧ e.set = (turnRows D r turn).1 ∧
    e.extend = (turnRows D r turn).2 ∧ e.clear = false := by
  unfold turnEntry at h
  split_ifs at h with hs hstale
  cases h
  refine ⟨fun hw => ?_,rfl,rfl,rfl⟩
  have hsame : SameTranscriptMessages D r.current turn.prev := by
    by_contra hne
    exact hstale ⟨hw,hne⟩
  rwa [Replay.current,if_pos hw] at hsame

def Fits (D : Dialect N) (m : TranscriptMessage N) : Prop :=
  (m.normalized D).OwnFields ∧ ¬ (m.normalized D).Ambiguous D

def storedRows (turn : TranscriptTurn N) (entry : Entry N) : List (TranscriptMessage N) :=
  match entry.extend with
  | some rows => turn.next.drop (turn.next.length-rows.length)
  | none => turn.next

theorem sameTranscriptMessages_normalized_left {a b} :
    SameTranscriptMessages D (normalizedRows D a) b ↔ SameTranscriptMessages D a b := by
  rw [sameTranscriptMessages_iff,sameTranscriptMessages_iff,normalizedRows,forall₂_map_left_iff]
  simp only [TranscriptMessage.SameRowAs,TranscriptMessage.normalized_idem]

theorem stored_same {rows} (h : ∀ m ∈ rows, Fits D m) {usage} {requestId} :
    SameTranscriptMessages D
      (normalizedRows D (stampedRows D (normalizedRows D rows) usage requestId)) rows := by
  refine sameTranscriptMessages_normalized_left.2 (sameTranscriptMessages_normalized_right.1 ?_)
  refine sameTranscriptMessages_stampedRows (fun _ hrow => ?_)
  obtain ⟨m,hm,rfl⟩ := mem_map.1 hrow
  exact h m hm

theorem turn_messages {r : Replay N} {turn} {shown}
    (h : turnEntry D r (.new D turn shown) = .ok (some e)) (seq : Nat)
    (hfit : ∀ m ∈ storedRows turn e, Fits D m) :
    SameTranscriptMessages D (r.apply D seq e).messages turn.next := by
  obtain ⟨-,hset,hextend,hclear⟩ := turnEntry_ok h
  unfold turnRows at hset hextend
  have hmessages : (r.apply D seq e).messages = ((e.set.map (normalizedRows D)).getD r.messages)++
      ((e.extend.map (normalizedRows D)).getD []) := by
    simp [Replay.apply,hclear]
  rw [hmessages]
  dsimp only at hset hextend
  split at hset
  next hcond =>
    rw [if_pos hcond] at hextend
    obtain ⟨hw,hcommon⟩ := hcond
    have hcurrent : r.current = r.messages := by rw [Replay.current,if_pos hw]
    rw [hcurrent] at hcommon hextend
    obtain ⟨hle,hsame⟩ := commonRows_eq hcommon
    have hlen : (normalizedRows D turn.next).length = turn.next.length := by simp [normalizedRows]
    have hrows : storedRows turn e = turn.next.drop r.messages.length := by
      rw [storedRows,hextend]
      simp only [TurnRecord.new] at hcommon hle ⊢
      simp [stampedRows,stampedLines,hcommon,hlen] at hle ⊢
      omega
    rw [hset,hextend,hcommon,← take_append_drop r.messages.length turn.next]
    refine sameTranscriptMessages_iff.2 (rel_append (sameTranscriptMessages_iff.1 ?_)
      (sameTranscriptMessages_iff.1 ?_))
    · refine sameTranscriptMessages_normalized_right.1 ?_
      simpa [normalizedRows,TurnRecord.new,map_take] using hsame
    have hdrop : (TurnRecord.new D turn shown).next.drop r.messages.length =
        normalizedRows D (turn.next.drop r.messages.length) := by
      simp [TurnRecord.new,normalizedRows,map_drop]
    rw [hdrop]
    exact stored_same (fun m hm => hfit m (hrows ▸ hm))
  next hcond =>
    rw [if_neg hcond] at hextend
    rw [hset,hextend]
    simp only [map_some,getD_some,map_none,getD_none,append_nil]
    refine stored_same (fun m hm => hfit m ?_)
    rwa [storedRows,hextend]

variable (D S) in
def Writable : TranscriptOp N → Prop
  | .insert call _ _ _ entry _ => S.reread entry = .ok (entry.wire D) ∧
      ∀ k turn shown, call = .appendTurn k turn shown → ∀ m ∈ storedRows turn entry, Fits D m
  | _ => True

variable (D S) in
def AllRead (w : World N) : Prop := ∀ d ∈ w.docs, S.reread d.entry = .ok (d.entry.wire D)

theorem AllRead.entries (h : AllRead D S w) {stem : String} {n : Nat}
    (he : w.entries stem n = some e) : S.reread e = .ok (e.wire D) := by
  obtain ⟨d,hd,rfl⟩ := map_eq_some_iff.1 he
  exact h d (mem_of_find?_eq_some hd)

theorem allRead_outcome {i : Nat} {op} {w' : World N} {x} (h : AllRead D S w)
    (hop : Writable D S op) (ho : TranscriptOutcome S i op w x w') : AllRead D S w' := by
  unfold AllRead at h ⊢
  cases op with
  | insert =>
    obtain ⟨rfl,-⟩ | ⟨-,-,rfl,-⟩ := ho
    · exact h
    intro d hd
    rcases mem_cons.1 hd with rfl | hd
    · exact hop.1
    · exact h d hd
  | _ =>
    rw [docs_of_reads (by trivial) ho]
    exact h

theorem run_allRead {ms} {c} (hw : Opening w) (h : (machine S D).Run (.idle w) ms c)
    (hms : ∀ m ∈ ms, ∀ op ∈ m.op, Writable D S op) :
    AllRead D S c.world ∧ ∀ m ∈ ms, AllRead D S m.before ∧ AllRead D S m.after := by
  have hu : ((machine S D).under fun op _ => Writable D S op).Run (.idle w) ms c := h.under hms
  refine hu.inv (I := fun c => AllRead D S c.world) ?_ fun c m d hc hs => ?_
  · change ∀ d ∈ w.docs, _
    rw [hw.1]
    simp
  cases hs with
  | did _ ho =>
    have hd := allRead_outcome hc ho.2 ho.1
    exact ⟨hd,hc,hd⟩
  | @env w' he =>
    have hd : AllRead D S w' := by
      unfold AllRead
      rw [he.1]
      exact hc
    exact ⟨hd,hc,hd⟩
  | start | finish | crash => exact ⟨hc,hc,hc⟩

variable (D S) in
def TurnPoint (k : Nat) (turn : TranscriptTurn N) (w w' : World N) : Prop :=
  ∃ h seq r r', w.handles[k]? = some h ∧ w.entries h.stem seq = none ∧
    logical D S (w.entries h.stem) seq = some r ∧
    logical D S (w'.entries h.stem) (seq+1) = some r' ∧
    (r.written = true → SameTranscriptMessages D r.messages turn.prev) ∧
    SameTranscriptMessages D r'.messages turn.next

theorem turnPoint {i k : Nat} {turn} {shown} {stem : String} {seq : Nat} {entry : Entry N}
    {condition} {w' : World N} {fenced : Prop}
    (hg : Guar D S fenced i (.insert (.appendTurn k turn shown) (some k) stem seq entry condition)
      w)
    (ho : TranscriptOutcome S i
      (.insert (.appendTurn k turn shown) (some k) stem seq entry condition) w (.ok ()) w')
    (hop : Writable D S (.insert (.appendTurn k turn shown) (some k) stem seq entry condition))
    (hw : AllRead D S w) (hw' : AllRead D S w') : TurnPoint D S k turn w w' := by
  obtain ⟨H,r,hd⟩ := hg
  obtain ⟨-,e,he⟩ | ⟨hn,-,rfl,-⟩ := ho
  · cases he
  obtain rfl := hd.nextSeq
  obtain ⟨hprev,-⟩ := turnEntry_ok hd.build
  have hnext := turn_messages hd.build r.nextSeq (hop.2 k turn shown rfl)
  have htracks : Tracks D (Known S) (w.entries stem) r := hd.tracks
  have hafter : Tracks D (Known S) ((w.put stem r.nextSeq entry).entries stem)
      (r.apply D r.nextSeq entry) := by
    refine (htracks.grows (World.grows_put hn entry stem)).apply ?_ (.inl rfl)
    rw [World.entries_put,Ledger.put_self]
  obtain ⟨r0,hr0,hwire⟩ := htracks.logical fun n e he => hw.entries he
  obtain ⟨r1,hr1,hwire1⟩ := hafter.logical fun n e he => hw'.entries he
  have hrows : r.messages.map (TranscriptMessage.wire D) =
      r0.messages.map (TranscriptMessage.wire D) := congrArg Replay.messages hwire
  have hrows1 : (r.apply D r.nextSeq entry).messages.map (TranscriptMessage.wire D) =
      r1.messages.map (TranscriptMessage.wire D) := congrArg Replay.messages hwire1
  have hwritten : (r.wire D).written = (r0.wire D).written := congrArg Replay.written hwire
  obtain rfl := hd.onStem
  refine ⟨H,r.nextSeq,r0,r1,hd.handle.1,hn,hr0,hr1,fun hwr => ?_,?_⟩
  · have hp := sameTranscriptMessages_normalized_right.1 (hprev (hwritten.trans hwr))
    exact (sameTranscriptMessages_wire hrows).1 hp
  · exact (sameTranscriptMessages_wire hrows1).1 hnext

variable (D S) in
structure TurnsTaken (ms : List (TranscriptMoment N)) (w : World N) : Prop where
  replays : ∀ h ∈ w.handles, ∃ r,
    logical D S (w.entries h.stem) h.replay.nextSeq = some r ∧ h.replay.wire D = r.wire D
  turns : ∀ ms₁ m ms₂ i k turn shown reply, ms = ms₁++m :: ms₂ →
    m.event = .finish i (.appendTurn k turn shown) (.ok reply) →
    ∃ x ∈ own i ms₁, Wrote (.appendTurn k turn shown) (some k) x ∧
      TurnPoint D S k turn x.before x.after

theorem turns_are_serial (D : Dialect N) (S : Deployment N) (hacked : S.acked = true) {w : World N}
    {ms : List (TranscriptMoment N)} {c : Config _ _ _ _ _}
    (hw : Opening w)
    (h : (machine S D).Run (.idle w) ms c) :
    (∀ stem, (c.world.entries stem).Gapless) ∧
      ((∀ m ∈ ms, ∀ op ∈ m.op, Writable D S op) → TurnsTaken D S ms c.world) ∧
      ∀ ms₁ m ms₂ i call e, ms = ms₁++m :: ms₂ → m.event = .finish i call (.error e) →
        ∀ x ∈ own i ms₁, x.after.docs = x.before.docs := by
  obtain ⟨hk,hkept⟩ := run_kept hw h False.elim
  have hreport {ms₁ m ms₂ i call r} (he : ms = ms₁++m :: ms₂) (hm : m.event = .finish i call r) :
      Reported call (own i ms₁) r := by
    subst he
    exact h.finish_own (fun call => recorded_task hacked) hm
  refine ⟨hk.gapless,fun hms => ?_,fun ms₁ m ms₂ i call e he hm => hreport he hm⟩
  obtain ⟨hread,hreads⟩ := run_allRead hw h hms
  refine ⟨fun h hh => (hk.tracks h hh).logical fun n e he => hread.entries he,?_⟩
  intro _ m _ i k turn shown _ he hm
  obtain ⟨x,hx,hwrote⟩ := hreport he hm k turn shown rfl
  obtain ⟨call,hn⟩ := mem_own hx
  have hn' : (⟨x.before,.did i call x.op x.answer,x.after⟩ : TranscriptMoment N) ∈ ms := by
    rw [he]
    exact mem_append_left _ hn
  refine ⟨x,hx,hwrote,?_⟩
  obtain ⟨_,_,_,_⟩ := x
  unfold Wrote at hwrote
  split at hwrote
  next j stem _ _ _ u _ heq =>
    cases heq
    obtain ⟨rfl,rfl⟩ := hwrote
    obtain ⟨hg,ho⟩ := (hkept _ hn').2.2.1 i call _ _ rfl
    obtain ⟨hb,ha⟩ := hreads _ hn'
    exact turnPoint hg ho (hms _ hn' _ rfl) hb ha
  · exact hwrote.elim

end

def seed : TranscriptMeta := { agentName := "agent" }

def greeting : TranscriptMessage String := { role := "system", content := "hello" }

def answer : TranscriptMessage String := { role := "system", content := "hi" }

def turnTo (k : Nat) (prev next : List (TranscriptMessage String)) : TranscriptCall String :=
  .appendTurn k { prev := prev, next := next, transcriptMeta := seed } none

def writesPlain : TranscriptOp String → Bool
  | .insert call _ _ _ entry _ => decide (entry.wire .packed = entry) &&
      (match call with
        | .appendTurn _ turn _ => turn.next.all fun m => !m.isTyped
        | _ => true)
  | _ => true

theorem writable_of_plain {op} (h : writesPlain op) : Writable .packed .plain op := by
  cases op with
  | insert _ k =>
    obtain ⟨hwire,hcall⟩ := Bool.and_eq_true_iff.1 h
    refine ⟨congrArg Except.ok (of_decide_eq_true hwire).symm,?_⟩
    rintro k turn _ rfl m hm
    have hm : m ∈ turn.next := by
      unfold storedRows at hm
      split at hm
      · exact mem_of_mem_drop hm
      · exact hm
    have hflat := all_eq_true.1 hcall m hm
    exact ⟨ownFields_normalized (by simpa using hflat),fun h => by
      simpa [mediaParts,Dialect.packed] using h.2.2.1⟩
  | _ => trivial

theorem turns_are_serial_plain :
    ∃ ms₁ m c, (machine .plain .packed).Run (.idle { leases := fun _ => .empty }) (ms₁++[m]) c ∧
    m.event = .finish 0 (turnTo 0 [greeting] [greeting,answer]) (.ok .done) ∧
    ∃ x ∈ own 0 ms₁, Wrote (turnTo 0 [greeting] [greeting,answer]) (some 0) x ∧
    TurnPoint .packed .plain 0 ⟨[greeting],[greeting,answer],seed,none,none,none⟩ x.before
      x.after := by
  obtain ⟨ms,c,h,⟨m,hm,hevent⟩,hall⟩ := Driver.drive_any (driver_fits .packed .plain)
    [.start 0 (.openStem "stem" seed),.complete 0 5,.start 0 (turnTo 0 [] [greeting]),
      .complete 0 20,.start 0 (turnTo 0 [greeting] [greeting,answer]),.complete 0 20]
    (.idle { leases := fun _ => .empty })
    (fun ms _ => (∃ m ∈ ms.getLast?,
        m.event = .finish 0 (turnTo 0 [greeting] [greeting,answer]) (.ok .done)) ∧
      ∀ m ∈ ms, ∀ op ∈ m.op, writesPlain op = true)
    (by decide +kernel)
  obtain ⟨ms₁,rfl⟩ := List.getLast?_eq_some_iff.1 hm
  have hplain : ∀ n ∈ ms₁++[m], ∀ op ∈ n.op, Writable .packed .plain op := fun n hn op hop =>
    writable_of_plain (hall n hn op hop)
  have hserial := turns_are_serial .packed .plain rfl ⟨rfl,rfl⟩ h
  exact ⟨ms₁,m,c,h,hevent,(hserial.2.1 hplain).turns ms₁ m [] 0 0 _ none .done rfl hevent⟩

-- The second turn is taken, and the image part of its tool row is not stored.
theorem turn_drops_parts :
    ∃ ms m c, (machine .plain .packed).Run (.idle { leases := fun _ => .empty }) (ms++[m]) c ∧
    m.event = .finish 0 (turnTo 0 [greeting] [greeting,imageResult]) (.ok .done) ∧
    ((logical .packed .plain (c.world.entries "stem") 2).any fun r =>
      r.written && !decide (SameTranscriptMessages .packed r.messages [greeting,imageResult])) =
      true := by
  obtain ⟨ms,c,h,⟨m,hm,hevent⟩,hrows⟩ := Driver.drive_any (driver_fits .packed .plain)
    [.start 0 (.openStem "stem" seed),.complete 0 5,.start 0 (turnTo 0 [] [greeting]),
      .complete 0 20,.start 0 (turnTo 0 [greeting] [greeting,imageResult]),.complete 0 20]
    (.idle { leases := fun _ => .empty })
    (fun ms c => (∃ m ∈ ms.getLast?,
        m.event = .finish 0 (turnTo 0 [greeting] [greeting,imageResult]) (.ok .done)) ∧
      ((logical .packed .plain (c.world.entries "stem") 2).any fun r => r.written &&
        !decide (SameTranscriptMessages .packed r.messages [greeting,imageResult])) = true)
    (by decide +kernel)
  obtain ⟨ms,rfl⟩ := List.getLast?_eq_some_iff.1 hm
  exact ⟨ms,m,c,h,hevent,hrows⟩

end Session.DriverTranscripts
