import TinyAgents.Interaction.Serial
import TinyAgents.Orchestration.SubagentRequests

namespace Orchestration

open Interaction List Option CompletionOrigin Moment

namespace SubagentDriver

section

variable {H X : Type} (parent : SubagentTaskKey → String)

def Reliable : (op : DriverOp H X) → DriverAns op → Prop
  | .fence, x => x = false
  | .loadTerminal _, x | .loadPause _, x | .load _, x => ∃ found, x = .ok found
  | .savePause _, x | .recordTerminal _ _ _, x => ∃ disposition, x = .ok disposition
  | .prepare key _, x => ∀ prepared, x = .ok prepared →
      prepared.notifyMode.isSome ∧ parentKeyOf key prepared = parent key
  | .admitChild _, x => ∃ epoch, x = .ok (some epoch)
  | .deliver _, x => ∃ outcome, x = .ok outcome
  | _, _ => True

def Planned : (op : DriverOp H X) → DriverAns op → Prop
  | .cancelled planned, x => planned = false → x = false
  | _, _ => True

def Able (op : DriverOp H X) (x : DriverAns op) : Prop :=
  Reliable parent op x ∧ Planned op x

def Directed (key : SubagentTaskKey) : DriverOp H X → Prop
  | .recordTerminal k _ _ => k = key
  | .deliver record => record.taskId = key.taskId ∧ record.parentKey = parent key
  | _ => True

inductive Point where
  | inserted
  | delivered (record : Completions.CompletionRecord)

def point : (op : DriverOp H X) → DriverAns op → Option Point
  | .recordTerminal _ _ _, .ok .inserted => some .inserted
  | .deliver record, _ => some (.delivered record)
  | _, _ => none

def Point.insertion : Point → Option Unit
  | .inserted => some ()
  | .delivered _ => none

def insertions (l : List Point) : List Unit := l.filterMap Point.insertion

def noting (key : SubagentTaskKey) : Logic (DriverOp H X) DriverAns (List Point) :=
  tracked (Able parent) (Directed parent key) (gather point)

abbrev Notes {α : Type} (parent : SubagentTaskKey → String) (key : SubagentTaskKey)
    (Q : Except SubagentError α → List Point → Prop) (p : DriverTask H X α) : List Point → Prop :=
  Safe (noting parent key) Q p.run

def Silent : DriverOp H X → Prop
  | .recordTerminal _ _ _ | .deliver _ => False
  | _ => True

theorem silent_of_harmless (op : DriverOp H X) (h : Harmless op) : Silent op := by
  cases op <;> trivial

end

section

variable {H X α β : Type} {parent : SubagentTaskKey → String} {key : SubagentTaskKey}
  {l : List Point} {Q : Except SubagentError α → List Point → Prop}

theorem noting_silent {p : Program (DriverOp H X) DriverAns α} (hp : Asks Silent p) :
    Safe (noting parent key) (fun _ l' => l' = l) p l := by
  refine alone_keeps hp ?_ ?_ rfl
  · intro op _ hop
    cases op <;> first | exact hop.elim | trivial
  · rintro op _ x _ hop rfl ⟨-,rfl⟩
    cases op <;> first | exact hop.elim | exact append_nil _

theorem noting_after {p : DriverTask H X β} {next : β → DriverTask H X α} (hp : Asks Silent p.run)
    (he : ∀ e, Q (.error e) l) (h : ∀ b, Notes parent key Q (next b) l) :
    Notes parent key Q (p >>= next) l := by
  refine tracked_then (noting_silent hp) ?_ ?_
  · rintro e _ rfl
    exact he e
  · rintro b _ rfl
    exact h b

theorem noting_asked {op : DriverOp H X} (hop : Silent op) {next}
    (h : ∀ x, Able parent op x → Notes parent key Q (next x) l) :
    Notes parent key Q (ask op >>= next) l := by
  refine tracked_lift ?_ fun x hx => ?_
  · cases op <;> first | exact hop.elim | trivial
  have hn : gather point op x l = l := by
    cases op <;> first | exact hop.elim | exact append_nil _
  rw [hn]
  exact h x hx

theorem noting_ensureFence {next : Unit → DriverTask H X α} (h : Notes parent key Q (next ()) l) :
    Notes parent key Q (ensureFence >>= next) l := by
  have hfence : Notes parent key (fun r l' => r = .ok () ∧ l' = l)
      (ensureFence (H := H) (X := X)) l := by
    refine noting_asked (by trivial) fun lost hlost => ?_
    obtain rfl : lost = false := hlost.1
    exact alone_ret ⟨rfl,rfl⟩
  refine tracked_then hfence (by simp) ?_
  rintro _ _ ⟨-,rfl⟩
  exact h

theorem noting_fenced {future : DriverTask H X α} (h : Notes parent key Q future l) :
    Notes parent key Q (fenced future) l := by
  refine noting_ensureFence (safe_unwatched (fun v => ⟨trivial,?_⟩) h)
  rintro x _ ⟨hx,rfl⟩
  exact ⟨hx.1,append_nil v⟩

variable {driver : Nat} {outcome : SubagentOutcome H X} {expectedPause : Option (SubagentResume H)}

def inserting (disposition : SubagentPersistenceDisposition) : List Point :=
  if disposition = .terminalInserted then [.inserted] else []

def Final (outcome : SubagentOutcome H X) : Prop :=
  ∀ pause, outcome.status ≠ .awaitingInput pause

def Stored (result : SubagentRunResult H X) (l : List Point) : Prop :=
  l = inserting result.disposition ∧
    (result.disposition = .terminalInserted → Final result.outcome)

def stored : Except SubagentError (SubagentRunResult H X) → List Point → Prop :=
  Ends Stored fun _ l => l = []

theorem noting_replay : Notes parent key stored (replay driver key outcome) [] :=
  noting_asked (by trivial) fun _ _ => alone_ret ⟨rfl,nofun⟩

theorem noting_terminalOr {e} :
    Notes parent key stored (terminalOr (H := H) (X := X) driver key e) [] := by
  refine noting_after ⟨trivial,fun _ => trivial⟩ (fun _ => rfl) fun found => ?_
  cases found with
  | none => exact alone_ret rfl
  | some => exact noting_replay

theorem noting_loadPauseWinner :
    Notes parent key stored (loadPauseWinner (H := H) (X := X) driver key) [] := by
  refine noting_after ⟨trivial,fun _ => trivial⟩ (fun _ => rfl) fun found => ?_
  cases found with
  | some => exact noting_replay
  | none =>
    refine noting_after ⟨trivial,fun _ => trivial⟩ (fun _ => rfl) fun paused => ?_
    cases paused with
    | none => exact noting_terminalOr
    | some =>
      dsimp only
      split
      · exact alone_ret ⟨rfl,nofun⟩
      · exact alone_ret rfl

def closing : SubagentTerminalPersistenceDisposition → List Point
  | .inserted => [.inserted]
  | _ => []

theorem noting_recordTerminal :
    Notes parent key (fun r l => ∃ disposition, r = .ok disposition ∧ l = closing disposition)
      (recordTerminal key outcome expectedPause) [] := by
  refine tracked_asked rfl fun x hx => ?_
  obtain ⟨disposition,rfl⟩ := hx.1
  refine ⟨disposition,rfl,?_⟩
  cases disposition <;> rfl

theorem noting_persistCancelled :
    Notes parent key stored (persistCancelled driver key outcome expectedPause) [] := by
  refine tracked_then noting_recordTerminal (by simp) ?_
  rintro disposition _ ⟨_,⟨⟩,rfl⟩
  cases disposition with
  | inserted => exact noting_asked (by trivial) fun _ _ => alone_ret ⟨rfl,fun _ => nofun⟩
  | existing => exact noting_terminalOr
  | pauseExisting => exact noting_loadPauseWinner

theorem noting_persistPause :
    Notes parent key stored (persistPause driver key outcome expectedPause) [] := by
  refine noting_after (asks_commitOrCancel trivial ⟨trivial,fun _ => trivial⟩) (fun _ => rfl) ?_
  rintro (_ | disposition)
  · exact noting_persistCancelled
  cases disposition with
  | inserted | replaced => exact alone_ret ⟨rfl,nofun⟩
  | existing => exact noting_loadPauseWinner
  | terminalExisting => exact noting_terminalOr

theorem noting_committed :
    Notes parent key (fun r l => r = .ok none ∧ l = [] ∨
      ∃ disposition, r = .ok (some disposition) ∧ l = closing disposition)
      (commitOrCancel (recordTerminal key outcome expectedPause)) [] := by
  refine noting_asked (by trivial) fun cancelled _ => ?_
  cases cancelled with
  | true => exact alone_ret (.inl ⟨rfl,rfl⟩)
  | false =>
    refine tracked_then noting_recordTerminal (by simp) ?_
    rintro disposition _ ⟨_,⟨⟩,rfl⟩
    exact alone_ret (.inr ⟨disposition,rfl,rfl⟩)

theorem noting_persistTerminal (hfinal : Final outcome) :
    Notes parent key stored (persistTerminal driver key outcome expectedPause) [] := by
  refine tracked_then noting_committed (by simp) ?_
  rintro _ _ (⟨⟨⟩,rfl⟩ | ⟨disposition,h,rfl⟩)
  · exact noting_persistCancelled
  cases h
  cases disposition with
  | inserted => exact noting_asked (by trivial) fun _ _ => alone_ret ⟨rfl,fun _ => hfinal⟩
  | existing => exact noting_terminalOr
  | pauseExisting => exact noting_loadPauseWinner

theorem noting_persist : Notes parent key stored (persist driver key outcome expectedPause) [] := by
  unfold persist
  split
  · exact noting_persistCancelled
  · exact noting_persistPause
  all_goals
    next hs => exact noting_persistTerminal fun _ h => nomatch hs.symm.trans h

variable {routed : Bool} {origin : Option CompletionOrigin}

def Captured (parent : SubagentTaskKey → String) (key : SubagentTaskKey) (routed : Bool)
    (origin : Option CompletionOrigin) : Prop :=
  (routed = true → origin.isSome) ∧
    ∀ o, origin = some o → o.taskId = key.taskId ∧ o.parentKey = parent key

def Told (key : SubagentTaskKey) (routed : Bool) (result : SubagentRunResult H X) (l : List Point) :
    Prop :=
  insertions l = insertions (inserting result.disposition) ∧
    (routed = true → result.disposition = .terminalInserted →
      ∃ record, .delivered record ∈ l ∧ record.taskId = key.taskId)

def told (key : SubagentTaskKey) (routed : Bool) :
    Except SubagentError (SubagentRunResult H X) → List Point → Prop :=
  Ends (Told key routed) fun _ l => insertions l = []

variable {record : Completions.CompletionRecord}

theorem recorded_of_final (ho : origin.isSome) (hf : Final outcome) :
    ∃ record, origin.bind (·.recordForOutcome outcome) = some record := by
  obtain ⟨o,rfl⟩ := isSome_iff_exists.1 ho
  simp only [bind_some]
  unfold recordForOutcome
  split
  next pause hs => exact (hf pause hs).elim
  all_goals exact ⟨_,rfl⟩

variable {call : RunCall H}

theorem noting_deliver {l : List Point}
    (hd : Directed parent key (.deliver record : DriverOp H X)) : Notes parent key
    (fun r l' => r = .ok () ∧ l' = l++[.delivered record]) (deliver (H := H) (X := X) record) l :=
  tracked_lift hd fun _ _ => alone_ret ⟨rfl,rfl⟩

section

variable (hc : Captured parent key routed origin)

include hc

theorem directed_of_outcome (h : origin.bind (·.recordForOutcome outcome) = some record) :
    Directed parent key (.deliver record : DriverOp H X) := by
  obtain ⟨o,rfl,ho⟩ := bind_eq_some_iff.1 h
  have hd := hc.2 o rfl
  unfold recordForOutcome at ho
  split at ho
  · cases ho
  all_goals
    cases ho
    exact hd

theorem directed_of_error {e} (h : origin.bind (·.recordForError e) = some record) :
    Directed parent key (.deliver record : DriverOp H X) := by
  obtain ⟨o,rfl,ho⟩ := bind_eq_some_iff.1 h
  have hd := hc.2 o rfl
  unfold recordForError at ho
  split at ho <;> cases ho
  all_goals exact hd

theorem noting_recordCompletion {result : SubagentRunResult H X}
    (hf : result.disposition = .terminalInserted → Final result.outcome) :
    Notes parent key (fun r l => r = .ok () ∧ Told key routed result l)
      (recordCompletion origin result) (inserting result.disposition) := by
  unfold recordCompletion
  split
  next record hr =>
    split
    · have hd : Directed parent key (.deliver record : DriverOp H X) := directed_of_outcome hc hr
      refine safe_mono ?_ (noting_deliver hd)
      rintro _ _ ⟨rfl,rfl⟩
      exact ⟨rfl,by simp [insertions,Point.insertion],fun _ _ => ⟨record,by simp,hd.1⟩⟩
    next hn =>
      refine alone_ret ⟨rfl,rfl,fun _ hi => ?_⟩
      rw [hi] at hn
      exact (hn rfl).elim
  next hn =>
    refine alone_ret ⟨rfl,rfl,fun ht hi => ?_⟩
    obtain ⟨_,hr⟩ := recorded_of_final (hc.1 ht) (hf hi)
    rw [hr] at hn
    cases hn

theorem noting_told {p : DriverTask H X (SubagentRunResult H X)}
    (hp : Notes parent key stored p []) :
    Notes parent key (told key routed) (do
      let result ← fenced p
      fenced (recordCompletion origin result)
      return result) [] := by
  refine tracked_then (noting_fenced hp) ?_ ?_
  · rintro e _ rfl
    rfl
  rintro _ _ ⟨rfl,hf⟩
  refine tracked_then (noting_fenced (noting_recordCompletion hc hf)) (by simp) ?_
  rintro _ _ ⟨-,ht⟩
  exact alone_ret ht

theorem noting_recordFailure {e} :
    Notes parent key (fun _ l => insertions l = [])
      (recordFailure (X := X) origin expectedPause e) [] := by
  unfold recordFailure
  split
  next hr =>
    split
    · refine safe_mono ?_ (noting_fenced (noting_deliver (directed_of_error hc hr)))
      rintro _ _ ⟨-,rfl⟩
      rfl
    · exact alone_ret rfl
  · exact alone_ret rfl

variable [Inhabited X]

theorem noting_conclude {timedOut : Bool} {result : Except SubagentError (SubagentOutcome H X)} :
    Ensures (noting parent key) (fun _ l => l = []) (fun _ l => insertions l = [])
      (conclude key expectedPause origin timedOut result) [] := by
  unfold conclude
  split
  · split
    · exact alone_ret rfl
    refine noting_after (asks_mono silent_of_harmless asks_interrupted) (fun _ => rfl) fun cut => ?_
    cases cut with
    | true => exact alone_ret rfl
    | false =>
      exact noting_fenced (noting_asked (by trivial) fun _ _ => alone_ret rfl)
  · exact alone_ret rfl
  · refine noting_asked (by trivial) fun cancelled _ => ?_
    cases cancelled with
    | true => exact alone_ret rfl
    | false =>
      exact tracked_then (noting_recordFailure hc) (fun _ _ h => h) fun _ _ h => alone_ret h

theorem noting_launch {prepared : PreparedSubagent} :
    Notes parent key (told key routed)
      (launch (X := X) driver key expectedPause origin prepared) [] := by
  refine noting_after (asks_attempts silent_of_harmless (fun _ => trivial) _ 0) (fun _ => rfl) ?_
  intro executed
  cases executed with
  | fenceLost => exact alone_ret rfl
  | ended =>
    refine noting_ensureFence (tracked_then (noting_conclude hc) (fun _ _ h => h) ?_)
    rintro _ _ rfl
    exact noting_told hc noting_persist

end

variable [Inhabited X]

omit [Inhabited X] in
theorem noting_completionOrigin {prepared} (hn : prepared.notifyMode.isSome)
    (hp : parentKeyOf key prepared = parent key) :
    Ensures (noting parent key) (fun origin l => l = [] ∧ Captured parent key routed origin)
      (fun _ l => l = []) (completionOrigin (H := H) (X := X) routed key prepared) [] := by
  unfold completionOrigin
  split
  next notifyMode _ =>
    refine tracked_then (P := fun r l => (∃ epoch, r = .ok (some epoch)) ∧ l = [])
      (tracked_asked trivial fun x hx => ⟨hx.1,rfl⟩) (by simp) ?_
    rintro _ _ ⟨⟨_,⟨⟩⟩,rfl⟩
    refine alone_ret ⟨rfl,fun _ => rfl,fun o ho => ?_⟩
    cases ho
    exact ⟨rfl,hp⟩
  next hno =>
    refine alone_ret ⟨rfl,fun hr => ?_,nofun⟩
    obtain ⟨mode,hm⟩ := isSome_iff_exists.1 hn
    exact (hno mode hr hm).elim

theorem noting_plan :
    Notes parent call.key (told call.key call.routed) (plan (X := X) call expectedPause) [] := by
  refine noting_after ⟨trivial,fun _ => trivial⟩ (fun _ => rfl) fun _ => ?_
  refine noting_ensureFence ?_
  refine tracked_then (P := fun (r : Except SubagentError PreparedSubagent) l => l = [] ∧
      ∀ prepared, r = .ok prepared → prepared.notifyMode.isSome ∧
        parentKeyOf call.key prepared = parent call.key)
    (noting_fenced (tracked_asked trivial fun x hx => ⟨rfl,hx.1⟩)) ?_ ?_
  · rintro e _ ⟨rfl,-⟩
    rfl
  rintro prepared _ ⟨rfl,hprepared⟩
  obtain ⟨hn,hp⟩ := hprepared prepared rfl
  split
  · exact alone_ret rfl
  refine tracked_then (noting_completionOrigin hn hp) ?_ ?_
  · rintro e _ rfl
    rfl
  rintro _ _ ⟨rfl,hc⟩
  refine noting_ensureFence (noting_asked (by trivial) fun cancelled _ => ?_)
  cases cancelled with
  | true => exact noting_told hc noting_persistCancelled
  | false => exact noting_launch hc

theorem noting_runReserved :
    Notes parent call.key (told call.key call.routed) (runReserved (X := X) call) [] := by
  refine noting_ensureFence (noting_asked (by trivial) fun cancelled hn => ?_)
  obtain rfl := hn.2 rfl
  refine noting_after (asks_mono silent_of_harmless asks_expected) (fun _ => rfl) fun _ => ?_
  refine noting_asked (by trivial) fun cancelled hn => ?_
  obtain rfl := hn.2 rfl
  exact noting_plan

omit [Inhabited X] in
theorem noting_cached {next} (h : Notes parent call.key (told call.key call.routed) next []) :
    Notes parent call.key (told call.key call.routed) (do
        match ← fenced (ask (.cached call.driver call.key)) with
        | some outcome => return (⟨outcome,.terminalExisting⟩ : SubagentRunResult H X)
        | none => next) [] := by
  refine noting_after (asks_fenced trivial (asks_ask trivial)) (fun _ => rfl) fun found => ?_
  cases found with
  | some => exact alone_ret ⟨rfl,nofun⟩
  | none => exact h

theorem noting_lead {entry : Nat} :
    Notes parent call.key (told call.key call.routed) (lead (X := X) call entry) [] := by
  refine safe_bind (fun _ l hl => ?_) (noting_cached noting_runReserved)
  refine noting_asked (by trivial) fun _ _ => noting_asked (by trivial) fun _ _ => ?_
  exact alone_ret hl

theorem noting_follow {entry : Nat} :
    Notes parent key (told key routed) (follow (H := H) (X := X) key entry) [] := by
  refine noting_after (asks_fenced trivial (asks_ask trivial)) (fun _ => rfl) fun published => ?_
  obtain _ | _ | result := published
  · exact alone_ret ⟨rfl,nofun⟩
  · exact alone_ret rfl
  have hne : result.disposition.observed ≠ .terminalInserted := by
    cases result.disposition <;> decide
  refine alone_ret ⟨?_,fun _ hi => (hne hi).elim⟩
  simp [inserting,hne]

theorem noting_run : Notes parent call.key (told call.key call.routed) (run (X := X) call) [] := by
  refine noting_ensureFence (noting_cached ?_)
  refine noting_after (asks_fenced trivial ⟨trivial,fun _ => trivial⟩) (fun _ => rfl) ?_
  rintro (_ | _)
  · refine noting_after (asks_ask trivial) (fun _ => rfl) ?_
    rintro ⟨_,_ | _⟩
    · exact noting_follow
    · exact noting_lead
  · refine noting_after (asks_fenced trivial (asks_ask trivial)) (fun _ => rfl) fun _ => ?_
    exact alone_ret ⟨rfl,nofun⟩

end

section

variable {H X : Type} [DecidableEq H] {registry : Nat → Nat} {parent : SubagentTaskKey → String}
  {scope : String → SubagentTaskKey} {key : SubagentTaskKey} {i : Nat} {call : RunCall H}
  {w w' : DriverWorld H X} {op : DriverOp H X} {x : DriverAns op}

def inserts (_ : RunCall H) (op : DriverOp H X) (x : DriverAns op) : Option Unit :=
  (point op x).bind Point.insertion

def insertedBy : Except SubagentError (SubagentRunResult H X) → Option Unit
  | .ok result => if result.disposition = .terminalInserted then some () else none
  | .error _ => none

def accepts (_ : RunCall H) :
    (op : DriverOp H X) → DriverAns op → Option Completions.CompletionRecord
  | .deliver record, .ok (.recorded _ _) => some record
  | _, _ => none

def reports (key : SubagentTaskKey) (ms : List (DriverMoment H X)) :
    List (Nat × RunCall H × Unit) :=
  (answered insertedBy ms).filter fun e => e.2.1.key = key

def recordings (key : SubagentTaskKey) (ms : List (DriverMoment H X)) :
    List (Nat × RunCall H × Completions.CompletionRecord) :=
  (serial accepts ms).filter fun e => e.2.2.taskId = key.taskId

def insertionsOf (key : SubagentTaskKey) (ms : List (DriverMoment H X)) :
    List (Nat × RunCall H × Unit) :=
  (serial inserts ms).filter fun e => e.2.1.key = key

theorem terminal_of_recordTerminal (outcome : SubagentOutcome H X)
    (replaces : Option (SubagentResume H)) (record : LifecycleRecord H X) :
    ((record.recordTerminal outcome replaces).1 = .inserted ∧ record.terminal = none ∧
      (record.recordTerminal outcome replaces).2 = some ⟨none,some outcome⟩) ∨
    ((record.recordTerminal outcome replaces).1 ≠ .inserted ∧
      (record.recordTerminal outcome replaces).2 = none) := by
  unfold LifecycleRecord.recordTerminal
  split
  · exact .inr ⟨nofun,rfl⟩
  next hn =>
    split
    · exact .inr ⟨nofun,rfl⟩
    · exact .inl ⟨rfl,not_isSome_iff_eq_none.1 hn,rfl⟩

omit [DecidableEq H] in
theorem store_apply {k} {next} :
    (w.store k next).records key = if key = k then next.getD (w.records k) else w.records key := by
  simp only [DriverWorld.store,Function.update_apply]

variable {record : Completions.CompletionRecord}

section

variable (ho : DriverOutcome registry i op w x w')

include ho

theorem inserts_raises (hd : Directed parent call.key op) (h : inserts call op x = some ()) :
    (w.records call.key).terminal = none ∧ (w'.records call.key).terminal.isSome := by
  cases op with
  | recordTerminal k outcome replaces =>
    obtain rfl : k = call.key := hd
    have hx : x = .ok .inserted := by
      obtain _ | (_ | _ | _) := x <;> first | rfl | cases h
    subst hx
    obtain ⟨⟨e,he⟩,-⟩ | ⟨rfl,hx⟩ := ho
    · cases he
    obtain hx | ⟨e,he⟩ := hx
    · obtain ⟨-,hn,hs⟩ | ⟨hne,-⟩ :=
        terminal_of_recordTerminal outcome replaces (w.records call.key)
      · rw [store_apply,if_pos rfl,hs]
        exact ⟨hn,rfl⟩
      · exact (hne (Except.ok.inj hx).symm).elim
    · cases he
  | _ => cases h

theorem inserts_keeps (hx : Able parent op x) (hd : Directed parent call.key op)
    (h : call.key = key → inserts call op x = none) :
    (w'.records key).terminal.isSome = (w.records key).terminal.isSome := by
  have kept {op} {x} (ho : DriverOutcome registry i op w x w')
      (hop : Silent op) : (w'.records key).terminal.isSome = (w.records key).terminal.isSome := by
    cases effect_of_outcome ho with
    | same hr => rw [hr]
    | cache | claim | retire => rfl
    | close => exact hop.elim
    | save =>
      rw [store_apply]
      split
      next hk =>
        subst hk
        unfold LifecycleRecord.savePause
        split_ifs <;> rfl
      · rfl
  cases op with
  | recordTerminal k outcome replaces =>
    obtain rfl : k = call.key := hd
    obtain ⟨_,rfl⟩ := hx.1
    obtain ⟨⟨e,he⟩,-⟩ | ⟨rfl,hx⟩ := ho
    · cases he
    obtain hx | ⟨e,he⟩ := hx
    · rw [store_apply]
      split
      next hk =>
        rcases terminal_of_recordTerminal outcome replaces (w.records call.key) with ⟨hi,-⟩ | ⟨-,hs⟩
        · rw [Except.ok.inj hx,hi] at h
          exact nomatch h hk.symm
        · rw [hs,hk]
          rfl
      · rfl
    · cases he
  | deliver => rw [show w'.records = w.records by
      cases effect_of_outcome ho with
      | same hr => exact hr]
  | _ => exact kept ho trivial

theorem accepts_raises (h : accepts call op x = some record) :
    w.completions record.taskId = none ∧ (w'.completions record.taskId).isSome := by
  cases op with
  | deliver r =>
    obtain ⟨⟨e,rfl⟩,-⟩ | ⟨rfl,rfl⟩ := ho
    · cases h
    unfold DriverWorld.delivered at h ⊢
    split at h
    next existing he =>
      have hne : ∀ lane receipt,
          Completions.classifyExisting existing r ≠ .recorded lane receipt := by
        intro _ _
        unfold Completions.classifyExisting
        split_ifs <;> nofun
      unfold accepts at h
      split at h
      next he => exact (hne _ _ (Except.ok.inj he)).elim
      · cases h
    next hn =>
      cases h
      simp [hn]
  | _ => cases h

theorem completions_eq (hop : ∀ r, op ≠ .deliver r) : w'.completions = w.completions := by
  cases op with
  | deliver r => exact (hop r rfl).elim
  | savePause | recordTerminal => obtain ⟨-,rfl⟩ | ⟨rfl,-⟩ := ho <;> rfl
  | claim =>
    simp only [DriverOutcome] at ho
    split at ho <;> obtain ⟨-,rfl⟩ := ho <;> rfl
  | retire driver key entry =>
    have ho : w' = w.retired (registry driver) key entry := ho
    rw [ho,DriverWorld.retired]
    split <;> rfl
  | cached => rw [show w' = w from ho.2]
  | loadTerminal | load | loadPause | wait => rw [show w' = w from ho.1]
  | cache driver key outcome => rw [show w' = w.cached driver key outcome from ho]; rfl
  | complete => rw [show w' = { w with results := _ } from ho]
  | _ => rw [show w' = w from ho]

theorem accepts_keeps (hx : Able parent op x) {taskId : String}
    (h : ∀ record, accepts call op x = some record → record.taskId ≠ taskId) :
    (w'.completions taskId).isSome = (w.completions taskId).isSome := by
  by_cases hop : ∀ r, op ≠ .deliver r
  · rw [completions_eq ho hop]
  push Not at hop
  obtain ⟨r,rfl⟩ := hop
  obtain ⟨_,rfl⟩ := hx.1
  obtain ⟨⟨e,he⟩,-⟩ | ⟨hx,rfl⟩ := ho
  · cases he
  cases hx
  unfold DriverWorld.delivered at h ⊢
  split
  · rfl
  next hn =>
    rw [hn] at h
    have hne : taskId ≠ r.taskId := Ne.symm (h r rfl)
    simp [hne]

end

variable [Inhabited X] {ms : List (DriverMoment H X)} {c : DriverConfig H X}

structure Calm (parent : SubagentTaskKey → String) (ms : List (DriverMoment H X)) : Prop where
  whole : ∀ m ∈ ms, ∀ i call, m.event ≠ .crash i call
  routed : ∀ m ∈ ms, ∀ s ∈ m.started, s.2.routed = true
  reliable : ∀ m ∈ ms, ∀ i call op x, m.event = .did i call op x → Reliable parent op x

structure Apart (scope : String → SubagentTaskKey) (ms : List (DriverMoment H X)) : Prop where
  distinct : ∀ m ∈ ms, ∀ s ∈ m.started, s.2.key = scope s.2.key.taskId
  planned : ∀ m ∈ ms, ∀ i call op x, m.event = .did i call op x → Planned op x

omit [DecidableEq H] [Inhabited X] in
theorem able_of_did (hcalm : Calm parent ms) (hapart : Apart scope ms) {m} (hm : m ∈ ms)
    (he : m.event = .did i call op x) : Able parent op x :=
  ⟨hcalm.reliable m hm i call op x he,hapart.planned m hm i call op x he⟩

theorem able_of_calm (hcalm : Calm parent ms) (hapart : Apart scope ms) (i : Nat)
    (op : DriverOp H X) (w : DriverWorld H X) (x : DriverAns op) (w' : DriverWorld H X)
    (ho : ((drivers registry).observed ms).outcome i op w x w') : Able parent op x := by
  obtain ⟨-,call,hm⟩ := ho
  exact able_of_did hcalm hapart hm rfl

omit [DecidableEq H] [Inhabited X] in
theorem insertions_gather (op : DriverOp H X) (x : DriverAns op) (l : List Point) :
    insertions (gather point op x l) = gather (inserts call) op x (insertions l) := by
  rw [gather,insertions,filterMap_append,gather,inserts]
  cases point op x with
  | none => rfl
  | some p => cases p <;> rfl

omit [DecidableEq H] in
theorem matched_run (call : RunCall H) :
    Safe (tracing (Able parent) (gather (inserts call))) (Matched (fun _ u => u) insertedBy call)
      (run (X := X) call).run [] := by
  refine safe_mono ?_ (tracked_tracing insertions_gather noting_run)
  rintro (e | _) _ ⟨l,rfl,ht⟩
  · rw [Matched,map_id'']
    · exact ht
    · exact fun _ => rfl
  rw [Matched,map_id'',ht.1,inserting,insertedBy]
  · split <;> rfl
  · exact fun _ => rfl

omit [DecidableEq H] [Inhabited X] in
theorem delivered_of_gather {es : List (Exchange (DriverOp H X) DriverAns (DriverWorld H X))}
    (h : .delivered record ∈ es.foldr (fun e => gather point e.op e.answer) []) :
    ∃ e ∈ es, e.op = .deliver record := by
  induction es with
  | nil => cases h
  | cons e _ ih =>
    rw [foldr_cons,gather] at h
    rcases mem_append.1 h with h | h
    · obtain ⟨e',he',hop⟩ := ih h
      exact ⟨e',mem_cons_of_mem _ he',hop⟩
    refine ⟨e,mem_cons_self,?_⟩
    have h := mem_toList.1 h
    obtain ⟨_,op,x,_⟩ := e
    cases op with
    | deliver =>
      cases h
      rfl
    | recordTerminal => obtain _ | (_ | _ | _) := x <;> cases h
    | _ => cases h

section

variable (h : (drivers registry).Run (.idle w) ms c) (hcalm : Calm parent ms)
  (hapart : Apart scope ms)

include h hcalm hapart

theorem directed_of_run :
    ∀ m ∈ ms, ∀ i call op x, m.event = .did i call op x → Directed parent call.key op :=
  ((h.observed fun _ hm => hm).heeds_from (able_of_calm hcalm hapart)
    (fun _ call _ _ => tracked_heeds noting_run) (by simp [Config.idle])).2

theorem placed_run (i : Nat) : Placed inserts insertedBy (fun _ u => u) (Able parent) i ms c :=
  (h.observed fun _ hm => hm).placed (able_of_calm hcalm hapart) matched_run hcalm.whole i

theorem insertionsOf_length (hopen : (w.records key).terminal = none) :
    (insertionsOf key ms).length = (c.world.records key).terminal.isSome.toNat := by
  have hd := directed_of_run h hcalm hapart
  rw [insertionsOf,serial,filter_filterMap]
  refine h.once (fun w => (w.records key).terminal.isSome) (by simp [Config.idle,hopen]) ?_ ?_
  · intro m hm e he
    obtain ⟨he,hk⟩ := filter_eq_some_iff.1 he
    obtain ⟨i,call,⟨⟩⟩ := e
    obtain ⟨op,x,hev,hi⟩ := effect_eq_some he
    obtain rfl := of_decide_eq_true hk
    obtain ⟨hn,hs⟩ := inserts_raises (h.outcome m hm i call op x hev) (hd m hm i call op x hev) hi
    exact ⟨by simp [hn],hs⟩
  · intro m hm he
    obtain ⟨i,call,op,x,hev⟩ | ⟨hq,-⟩ := effect_cases inserts m
    · refine inserts_keeps (h.outcome m hm i call op x hev) (able_of_did hcalm hapart hm hev)
        (hd m hm i call op x hev) fun hk => ?_
      rw [effect,hev] at he
      cases hi : inserts call op x with
      | none => rfl
      | some => simp [hi,hk] at he
    · rw [h.still (fun _ _ he => he.symm) m hm hq]

theorem recordings_length (hnew : w.completions key.taskId = none) :
    (recordings key ms).length = (c.world.completions key.taskId).isSome.toNat := by
  rw [recordings,serial,filter_filterMap]
  refine h.once (fun w => (w.completions key.taskId).isSome) (by simp [Config.idle,hnew]) ?_ ?_
  · intro m hm e he
    obtain ⟨he,hk⟩ := filter_eq_some_iff.1 he
    obtain ⟨i,call,_⟩ := e
    obtain ⟨op,x,hev,hi⟩ := effect_eq_some he
    rw [← of_decide_eq_true hk]
    obtain ⟨hn,hs⟩ := accepts_raises (h.outcome m hm i call op x hev) hi
    exact ⟨by simp [hn],hs⟩
  · intro m hm he
    obtain ⟨i,call,op,x,hev⟩ | ⟨hq,-⟩ := effect_cases accepts m
    · have hother : ∀ record, accepts call op x = some record → record.taskId ≠ key.taskId := by
        intro _ hr hk
        rw [effect,hev] at he
        simp [hr,hk] at he
      exact accepts_keeps (h.outcome m hm i call op x hev) (able_of_did hcalm hapart hm hev) hother
    · rw [h.still (fun _ _ he => he.symm) m hm hq]

theorem reports_le (key : SubagentTaskKey) :
    (reports key ms).length ≤ (insertionsOf key ms).length := by
  have hsub : (answered insertedBy ms).Subperm (serial inserts ms) := by
    refine subperm_of_only fun i => ?_
    obtain ⟨_,_,hs,hd,-⟩ := placed_run h hcalm hapart i
    rw [← hd,hs]
    simp
  exact (hsub.filter _).length_le

theorem running_of_insertion (hreports : reports key ms = []) (hi : insertionsOf key ms ≠ []) :
    ∃ i call p, c.thread i = some (call,p) ∧ call.key = key := by
  obtain ⟨⟨i,call,⟨⟩⟩,he⟩ := exists_mem_of_ne_nil _ hi
  obtain ⟨he,hk⟩ := mem_filter.1 he
  have hk : call.key = key := of_decide_eq_true hk
  obtain ⟨done,underway,hs,hd,hu⟩ := placed_run h hcalm hapart i
  have hmem : (call,()) ∈ done++underway := by
    rw [← hs]
    exact mem_filterMap.2 ⟨_,he,by simp⟩
  rcases mem_append.1 hmem with hmem | hmem
  · have ha : (call,()) ∈ only i (answered insertedBy ms) := by
      rw [← hd]
      exact mem_map.2 ⟨_,hmem,rfl⟩
    obtain ⟨⟨j,call',⟨⟩⟩,ha,hj⟩ := mem_filterMap.1 ha
    have hr : (j,call',()) ∈ reports key ms := by
      refine mem_filter.2 ⟨ha,?_⟩
      split at hj
      · cases hj
        exact decide_eq_true hk
      · cases hj
    rw [hreports] at hr
    cases hr
  · cases ht : c.thread i with
    | none =>
      rw [ht] at hu
      rw [show underway = [] from hu] at hmem
      cases hmem
    | some t =>
      obtain ⟨_,p⟩ := t
      rw [ht] at hu
      obtain ⟨_,rfl,-⟩ := hu
      obtain ⟨u,-,hu⟩ := mem_map.1 hmem
      cases hu
      exact ⟨i,call,p,ht,hk⟩

theorem completions_grow {taskId : String} {m} (hm : m ∈ ms)
    (hs : (m.before.completions taskId).isSome) : (m.after.completions taskId).isSome := by
  obtain ⟨i,call,op,x,he⟩ | ⟨hq,-⟩ := effect_cases accepts m
  · have ho := h.outcome m hm i call op x he
    by_cases hr : ∀ record, accepts call op x = some record → record.taskId ≠ taskId
    · rw [accepts_keeps ho (able_of_did hcalm hapart hm he) hr]
      exact hs
    push Not at hr
    obtain ⟨_,hr,rfl⟩ := hr
    exact (accepts_raises ho hr).2
  · rw [h.still (fun _ _ he => he.symm) m hm hq]
    exact hs

theorem completed_of_report (hr : reports key ms ≠ []) :
    (c.world.completions key.taskId).isSome ∧ key = scope key.taskId := by
  obtain ⟨⟨i,call,⟨⟩⟩,hreport⟩ := exists_mem_of_ne_nil _ hr
  obtain ⟨hanswer,hk⟩ := mem_filter.1 hreport
  obtain rfl : call.key = key := of_decide_eq_true hk
  obtain ⟨m,hm,he⟩ := mem_filterMap.1 hanswer
  obtain ⟨result,hev,hi⟩ : ∃ result, m.event = .finish i call (.ok result) ∧
      result.disposition = .terminalInserted := by
    unfold Moment.reply at he
    split at he
    next j call' r hev =>
      obtain ⟨u,hu,heq⟩ := map_eq_some_iff.1 he
      cases heq
      cases r with
      | error => cases hu
      | ok result =>
        refine ⟨result,hev,?_⟩
        by_contra hne
        simp [insertedBy,hne] at hu
    · cases he
  have hcaller : call ∈ m.caller := by
    rw [caller,hev]
    rfl
  have hrouted := (h.called (B := fun call => call.routed) hcalm.routed).2 m hm call hcaller
  have hscope := (h.called (B := fun call => call.key = scope call.key.taskId) hapart.distinct).2
    m hm call hcaller
  refine ⟨?_,hscope⟩
  obtain ⟨_,later,rfl⟩ := append_of_mem hm
  have hown := (h.observed fun _ hm => hm).finish_own
    (Q := fun call r es => told call.key call.routed r
      (es.foldr (fun e => gather point e.op e.answer) [])) (fun call => ?_) hev
  · obtain ⟨record,hmem,htask⟩ := hown.2 hrouted hi
    obtain ⟨e,he,hop⟩ := delivered_of_gather hmem
    obtain ⟨call',hd⟩ := mem_own he
    obtain ⟨before,_,x,after⟩ := e
    cases hop
    obtain ⟨first,second,rfl⟩ := append_of_mem hd
    rw [append_assoc,cons_append] at h hcalm hapart
    obtain ⟨d,d',-,hstep,hrest⟩ := h.at
    have hmem : (⟨before,.did i call' (.deliver record) x,after⟩ : DriverMoment H X) ∈
        first++⟨before,.did i call' (.deliver record) x,after⟩ :: (second++m :: later) := by simp
    have hsome : (d'.world.completions call.key.taskId).isSome := by
      have ho : DriverOutcome registry i (.deliver record) before x after :=
        h.outcome _ hmem i call' _ x rfl
      rw [← hstep.after_eq,← htask]
      obtain ⟨_,rfl⟩ := hcalm.reliable _ hmem i call' _ x rfl
      obtain ⟨⟨e,he⟩,-⟩ | ⟨-,rfl⟩ := ho
      · cases he
      unfold DriverWorld.delivered
      split
      next he => simp [he]
      · simp
    exact (hrest.before (P := fun v => (v.completions call.key.taskId).isSome) hsome
      fun q hq hs => completions_grow h hcalm hapart (by simp [hq]) hs).1
  · exact tracing_recorded (fun e he => able_of_calm hcalm hapart i _ _ _ _ he)
      (tracing_of_tracked noting_run)

theorem parent_of_recording (hkey : key = scope key.taskId) {e} (he : e ∈ recordings key ms) :
    e.2.2.parentKey = parent key := by
  obtain ⟨i,call,record⟩ := e
  obtain ⟨he,hk⟩ := mem_filter.1 he
  have hk : record.taskId = key.taskId := of_decide_eq_true hk
  obtain ⟨m,hm,he⟩ := mem_filterMap.1 he
  obtain ⟨op,x,hev,ha⟩ := effect_eq_some he
  have hd := directed_of_run h hcalm hapart m hm i call op x hev
  have hcaller : call ∈ m.caller := by
    rw [caller,hev]
    rfl
  have hscope := (h.called (B := fun call => call.key = scope call.key.taskId) hapart.distinct).2
    m hm call hcaller
  unfold accepts at ha
  split at ha
  · cases ha
    rw [hd.2,hscope,← hd.1,hk,← hkey]
  · cases ha

end

theorem terminals_are_told_once (h : (drivers registry).Run (.idle w) ms c) (hcalm : Calm parent ms)
    (hapart : Apart scope ms) (hopen : (w.records key).terminal = none)
    (hnew : w.completions key.taskId = none) :
    (reports key ms).length ≤ 1 ∧ (recordings key ms).length ≤ 1 ∧
    ((c.world.records key).terminal.isSome →
      (reports key ms = [] ∧ ∃ i call p, c.thread i = some (call,p) ∧ call.key = key) ∨
      ((reports key ms).length = 1 ∧ ∃ e, recordings key ms = [e] ∧
      e.2.2.parentKey = parent key)) := by
  have hinsertions := insertionsOf_length h hcalm hapart hopen
  have hrecordings := recordings_length h hcalm hapart hnew
  have hle := reports_le h hcalm hapart key
  have hone := Bool.toNat_le (c.world.records key).terminal.isSome
  refine ⟨by omega,by rw [hrecordings]; exact Bool.toNat_le _,fun hclosed => ?_⟩
  by_cases hr : reports key ms = []
  · refine .inl ⟨hr,running_of_insertion h hcalm hapart hr fun hi => ?_⟩
    rw [hi,hclosed] at hinsertions
    cases hinsertions
  obtain ⟨hs,hkey⟩ := completed_of_report h hcalm hapart hr
  have hpos := length_pos_iff.2 hr
  rw [hs] at hrecordings
  obtain ⟨e,he⟩ := length_eq_one_iff.1 hrecordings
  refine .inr ⟨by omega,e,he,parent_of_recording h hcalm hapart hkey ?_⟩
  rw [he]
  exact mem_singleton_self e

end

def parentOf (key : SubagentTaskKey) : String := key.threadId.getD key.parentRunId

theorem answer_able {registry : Nat → Nat} {i : Nat} {op} {w} :
    Able parentOf op (answer registry succeeds i op w).1 := by
  refine ⟨?_,?_⟩
  · cases op with
    | prepare =>
      rintro _ ⟨⟩
      exact ⟨rfl,by simp [parentKeyOf,parentOf]⟩
    | loadTerminal | loadPause | load | savePause | recordTerminal | deliver => exact ⟨_,rfl⟩
    | admitChild => exact ⟨1,rfl⟩
    | fence => rfl
    | _ => trivial
  · cases op with
    | cancelled => exact fun _ => rfl
    | _ => trivial

theorem host_able (registry : Nat → Nat) :
    (host registry succeeds).Fits ((drivers registry).answering (Able parentOf)) where
  perform := by
    intro i op w x w' h
    refine ⟨(host_fits registry succeeds).perform i op w x w' h,?_⟩
    obtain rfl : (answer registry succeeds i op w).1 = x := congrArg Prod.fst (Option.some.inj h)
    exact answer_able

def leftTask : SubagentTaskKey := ⟨"root","left",none,"first"⟩

def rightTask : SubagentTaskKey := ⟨"root","right",none,"second"⟩

def scopeOf (taskId : String) : SubagentTaskKey :=
  if taskId = "first" then leftTask else rightTask

theorem terminals_are_told_once_raced :
    ∃ ms c, (drivers id).Run (.idle emptyWorld) ms c ∧ Calm parentOf ms ∧ Apart scopeOf ms ∧
    (emptyWorld.records leftTask).terminal = none ∧ emptyWorld.completions leftTask.taskId = none ∧
    (c.world.records leftTask).terminal.isSome ∧ c.thread 0 = none ∧
    (reports leftTask ms).length ≤ 1 ∧ (recordings leftTask ms).length ≤ 1 ∧
    ((c.world.records leftTask).terminal.isSome →
      (reports leftTask ms = [] ∧ ∃ i call p, c.thread i = some (call,p) ∧ call.key = leftTask) ∨
      ((reports leftTask ms).length = 1 ∧
      ∃ e, recordings leftTask ms = [e] ∧ e.2.2.parentKey = parentOf leftTask)) := by
  obtain ⟨ms,c,hr,huncut,hstart,hclosed,hidle⟩ := Driver.drive_any (host_able id)
    [.start 0 ⟨0,leftTask,none,true⟩,.start 1 ⟨1,leftTask,none,true⟩,
      .start 2 ⟨0,rightTask,none,true⟩,.act 0 20,.act 1 20,.complete 2 99,.complete 0 99,
      .complete 1 99] (.idle emptyWorld)
    (fun ms c => (∀ m ∈ ms, ∀ i call, m.event ≠ .crash i call) ∧ (∀ m ∈ ms, ∀ s ∈ m.started,
        s.2.routed = true ∧ s.2.key = scopeOf s.2.key.taskId) ∧
      (c.world.records leftTask).terminal.isSome = true ∧ c.thread 0 = none) (by decide +kernel)
  have hcalm : Calm parentOf ms := ⟨huncut,fun m hm s hs => (hstart m hm s hs).1,
    fun m hm i call op x he => (hr.outcome m hm i call op x he).2.1⟩
  have hapart : Apart scopeOf ms := ⟨fun m hm s hs => (hstart m hm s hs).2,
    fun m hm i call op x he => (hr.outcome m hm i call op x he).2.2⟩
  exact ⟨ms,c,hr.of_answering,hcalm,hapart,rfl,rfl,hclosed,hidle,
    terminals_are_told_once hr.of_answering hcalm hapart rfl rfl⟩

def otherTask : SubagentTaskKey := ⟨"root","right",none,"first"⟩

-- Two parents have children of one task id. The second parent is told nothing.
theorem parent_is_not_told :
    ∃ ms c, (drivers id).Run (.idle emptyWorld) ms c ∧ Calm parentOf ms ∧ leftTask ≠ otherTask ∧
    (∀ m ∈ ms, ∀ i call op x, m.event = .did i call op x → Planned op x) ∧
    (c.world.records otherTask).terminal.isSome ∧ (∀ i, c.thread i = none) ∧
    (reports otherTask ms).length = 1 ∧
    ∀ e ∈ serial accepts ms, e.2.2.parentKey ≠ parentOf otherTask := by
  obtain ⟨ms,c,hr,huncut,hstart,hclosed,hidle,hreport,hnone⟩ := Driver.drive_any (host_able id)
    [.start 0 ⟨0,leftTask,none,true⟩,.complete 0 99,.start 0 ⟨0,otherTask,none,true⟩,
      .complete 0 99] (.idle emptyWorld)
    (fun ms c => (∀ m ∈ ms, ∀ i call, m.event ≠ .crash i call) ∧
      (∀ m ∈ ms, ∀ s ∈ m.started, s.2.routed = true ∧ s.1 = 0) ∧
      (c.world.records otherTask).terminal.isSome = true ∧ c.thread 0 = none ∧
      (reports otherTask ms).length = 1 ∧
      ∀ e ∈ serial accepts ms, e.2.2.parentKey ≠ parentOf otherTask) (by decide +kernel)
  refine ⟨ms,c,hr.of_answering,⟨huncut,fun m hm s hs => (hstart m hm s hs).1,
    fun m hm i call op x he => (hr.outcome m hm i call op x he).2.1⟩,by decide,
    fun m hm i call op x he => (hr.outcome m hm i call op x he).2.2,hclosed,fun i => ?_,
    hreport,hnone⟩
  by_cases hi : i = 0
  · rwa [hi]
  · refine hr.thread_eq_none fun m hm s hs h => ?_
    exact hi (h.symm.trans (hstart m hm s hs).2)

end SubagentDriver

end Orchestration
