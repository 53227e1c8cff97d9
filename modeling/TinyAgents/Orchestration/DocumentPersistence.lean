import TinyAgents.Orchestration.Lifecycles
import TinyAgents.StorageKit.Records

namespace Orchestration

open Interaction StorageKit List Option Records

namespace DocumentPersistence

section

variable {H X : Type}

inductive PersistenceFailure where
  | message (text : String)
  | storage (error : StorageError)

inductive PersistenceCall (H X : Type) where
  | savePause (pause : PersistedSubagentPause H X)
  | recordTerminal (key : SubagentTaskKey) (outcome : SubagentOutcome H X)
      (replaces : Option (SubagentResume H))
  | importRecord (key : SubagentTaskKey) (pause : Option (PersistedSubagentPause H X))
      (terminal : Option (SubagentOutcome H X))
  | loadTerminal (key : SubagentTaskKey)
  | load (key : SubagentTaskKey)
  | loadPause (key : SubagentTaskKey)

inductive PersistenceReply (H X : Type) where
  | paused (disposition : SubagentPausePersistenceDisposition)
  | closed (disposition : SubagentTerminalPersistenceDisposition)
  | imported
  | terminal (outcome : Option (SubagentOutcome H X))
  | resume (resume : Option (SubagentResume H))
  | pause (outcome : Option (SubagentOutcome H X))

abbrev PersistenceResult (H X : Type) := Except PersistenceFailure (PersistenceReply H X)

abbrev PersistenceOp (H X : Type) :=
  Records.RecordOp (PersistenceCall H X) String (LifecycleRecord H X)

abbrev PersistenceTask (H X α : Type) :=
  Records.RecordTask (PersistenceCall H X) String (LifecycleRecord H X) α

def retryAttempts : Nat := 32

variable (codec : KeyCodec)

def read (key : SubagentTaskKey) : PersistenceTask H X (LifecycleRecord H X) := do
  let id ← Fallible.ofExcept (documentId codec (recordName (keyComponent codec key)))
  let found ← Records.get id
  return (found.map Versioned.doc).getD {}

def update {R : Type} (call : PersistenceCall H X) (name : String)
    (change : LifecycleRecord H X → R × Option (LifecycleRecord H X)) : PersistenceTask H X R := do
  let id ← Fallible.ofExcept (documentId codec name)
  let (_,result) ← Records.update call id retryAttempts fun found =>
    let (outcome,next) := change (found.getD {})
    .ok (next,outcome)
  match result with
  | some outcome => return outcome
  | none => throw (.backend "lifecycle CAS returned no result")

def reply {R : Type} (wrap : R → PersistenceReply H X) :
    Except StorageError R → PersistenceResult H X
  | .ok x => .ok (wrap x)
  | .error e => .error (.storage e)

variable [DecidableEq H]

abbrev PersistenceProgram (H X α : Type) := Program (PersistenceOp H X) Records.RecordAns α

def savePause (pause : PersistedSubagentPause H X) :
    PersistenceProgram H X (PersistenceResult H X) :=
  if (pauseResume pause).isNone then
    return .error (.message "cannot persist a non-paused outcome as a pause")
  else do
    return reply .paused (← (update codec (.savePause pause)
      (recordName (keyComponent codec pause.key)) (·.savePause pause)).run)

def recordTerminal (key : SubagentTaskKey) (outcome : SubagentOutcome H X)
    (replaces : Option (SubagentResume H)) : PersistenceProgram H X (PersistenceResult H X) := do
  return reply .closed (← (update codec (.recordTerminal key outcome replaces)
    (recordName (keyComponent codec key)) (·.recordTerminal outcome replaces)).run)

def importRecordAt (call : PersistenceCall H X) (component : String)
    (pause : Option (PersistedSubagentPause H X)) (terminal : Option (SubagentOutcome H X)) :
    PersistenceProgram H X (PersistenceResult H X) :=
  if pause.any fun pause => keyComponent codec pause.key ≠ component ||
      (pauseResume pause).isNone then
    return .error (.message "imported pause component or status mismatch")
  else do
    return reply (fun _ => .imported) (← (update codec call (recordName component)
      (·.importRecord pause terminal)).run)

def importRecord (key : SubagentTaskKey) (pause : Option (PersistedSubagentPause H X))
    (terminal : Option (SubagentOutcome H X)) : PersistenceProgram H X (PersistenceResult H X) :=
  if pause.any (·.key ≠ key) then return .error (.message "imported pause key mismatch")
  else importRecordAt codec (.importRecord key pause terminal) (keyComponent codec key) pause
    terminal

def serve : PersistenceCall H X → PersistenceProgram H X (PersistenceResult H X)
  | .savePause pause => savePause codec pause
  | .recordTerminal key outcome replaces => recordTerminal codec key outcome replaces
  | .importRecord key pause terminal => importRecord codec key pause terminal
  | .loadTerminal key => do
    return reply (fun record => .terminal record.loadTerminal) (← (read codec key).run)
  | .load key => do return reply (fun record => .resume record.load) (← (read codec key).run)
  | .loadPause key => do
    return reply (fun record => .pause record.loadPause) (← (read codec key).run)

def processes : Machine (PersistenceCall H X) (PersistenceOp H X) Records.RecordAns
    (Records.Shelf String (LifecycleRecord H X)) (PersistenceResult H X) where
  code := serve codec
  outcome := fun _ => Records.RecordOutcome
  env := Eq

end

section

variable {H X : Type} [DecidableEq H]

namespace PersistenceCall

def key : PersistenceCall H X → SubagentTaskKey
  | .savePause pause => pause.key
  | .recordTerminal key _ _ => key
  | .importRecord key _ _ => key
  | .loadTerminal key => key
  | .load key => key
  | .loadPause key => key

def change : PersistenceCall H X → LifecycleRecord H X → Option (LifecycleRecord H X)
  | .savePause pause, record => (record.savePause pause).2
  | .recordTerminal _ outcome replaces, record => (record.recordTerminal outcome replaces).2
  | .importRecord _ pause terminal, record => (record.importRecord pause terminal).2
  | _, _ => none

def predecessor : PersistenceCall H X → Option (SubagentTaskKey × SubagentResume H)
  | .savePause pause => pause.replaces.map fun resume => (pause.key,resume)
  | .recordTerminal key _ replaces => replaces.map fun resume => (key,resume)
  | _ => none

def saves : PersistenceCall H X → Option (SubagentResume H)
  | .savePause pause => pauseResume pause
  | .importRecord _ pause none => pause.bind pauseResume
  | _ => none

end PersistenceCall

variable (codec : KeyCodec) (call : PersistenceCall H X)

def home : Except StorageError String :=
  documentId codec (recordName (keyComponent codec call.key))

def Step (id : String) (found : Option (LifecycleRecord H X)) (record : LifecycleRecord H X) :
    Prop :=
  home codec call = .ok id ∧ call.change (found.getD {}) = some record

abbrev logic := sharing (Step (H := H) (X := X) codec)

def Tagged : PersistenceOp H X → Prop
  | .get _ => True
  | .put tag _ _ _ => tag = call

end

section

variable {H X R : Type} [DecidableEq H] {codec : KeyCodec} {call : PersistenceCall H X}

theorem safe_reply {p : PersistenceTask H X R}
    {wrap : R → PersistenceReply H X} {w : Records.Shelf String (LifecycleRecord H X)}
    (h : Safe (logic codec) (fun _ _ => True) p.run w) :
    Safe (logic codec) (fun _ _ => True) (do return reply wrap (← p.run)) w := by
  refine safe_bind ?_ h
  exact fun _ _ _ _ _ => trivial

theorem safe_update {name : String}
    {change : LifecycleRecord H X → R × Option (LifecycleRecord H X)}
    (hname : recordName (keyComponent codec call.key) = name)
    (hchange : ∀ record, (change record).2 = call.change record)
    (w : Records.Shelf String (LifecycleRecord H X)) :
    Safe (logic codec) (fun _ _ => True) (update codec call name change).run w := by
  refine safe_ofExcept (fun _ hid => ?_) fun _ _ _ _ => trivial
  refine safe_bind ?_ (Records.safe_update ?_ w)
  · rintro (e | ⟨_,_ | x⟩) v _
    all_goals exact fun _ _ => trivial
  intro _ _ x hx
  refine ⟨by rw [home,hname]; exact hid,?_⟩
  rw [← hchange]
  exact congrArg Prod.fst (Except.ok.inj hx)

theorem safe_read (key : SubagentTaskKey) (w : Records.Shelf String (LifecycleRecord H X)) :
    Safe (logic codec) (fun _ _ => True) (read codec key).run w := by
  refine safe_ofExcept (fun _ _ => ?_) fun _ _ _ _ => trivial
  intro v _
  refine ⟨trivial,?_⟩
  rintro (e | _) _ _ _ _
  all_goals trivial

theorem safe_serve (call : PersistenceCall H X) (w : Records.Shelf String (LifecycleRecord H X)) :
    Safe (logic codec) (fun _ _ => True) (serve codec call) w := by
  cases call with
  | savePause =>
    rw [serve,savePause]
    split
    · exact fun _ _ => trivial
    · exact safe_reply (safe_update rfl (fun _ => rfl) w)
  | recordTerminal => exact safe_reply (safe_update rfl (fun _ => rfl) w)
  | importRecord =>
    rw [serve,importRecord,importRecordAt]
    split
    · exact fun _ _ => trivial
    split
    · exact fun _ _ => trivial
    · exact safe_reply (safe_update rfl (fun _ => rfl) w)
  | loadTerminal key | load key | loadPause key => exact safe_reply (safe_read key w)

theorem asks_serve (call : PersistenceCall H X) : Asks (Tagged call) (serve codec call) := by
  have update {R : Type} {name}
      {change : LifecycleRecord H X → R × Option (LifecycleRecord H X)}
      {wrap : R → PersistenceReply H X} :
      Asks (Tagged call) (do return reply wrap (← (update codec call name change).run)) := by
    refine asks_bind ?_ fun _ => trivial
    refine asks_try trivial fun id => ?_
    refine asks_try (asks_update trivial fun _ _ => rfl) ?_
    rintro ⟨_,_ | x⟩
    all_goals trivial
  have read {key} {wrap : LifecycleRecord H X → PersistenceReply H X} :
      Asks (Tagged call) (do return reply wrap (← (read codec key).run)) := by
    refine asks_bind ?_ fun _ => trivial
    refine asks_try trivial fun id => ?_
    exact asks_try ⟨trivial,fun _ => trivial⟩ fun _ => trivial
  cases call with
  | savePause =>
    rw [serve,savePause]
    split
    · trivial
    · exact update
  | recordTerminal => exact update
  | importRecord =>
    rw [serve,importRecord,importRecordAt]
    split
    · trivial
    split
    · trivial
    · exact update
  | loadTerminal | load | loadPause => exact read

theorem contract :
    (processes (H := H) (X := X) codec).Contract (fun _ => True) (fun _ => True)
      (fun _ => logic codec) (fun _ _ _ _ => True) :=
  sharing_contract (fun _ _ _ _ _ ho => ho) (fun _ _ he => he.symm) safe_serve

end

section

variable {H X : Type} [DecidableEq H] {record next : LifecycleRecord H X}
  {call : PersistenceCall H X}

def Holding (record : LifecycleRecord H X) (resume : SubagentResume H) : Prop :=
  ∃ pause ∈ record.pause, pauseResume pause = some resume

inductive Becomes (record : LifecycleRecord H X) :
    PersistenceCall H X → LifecycleRecord H X → Prop
  | paused {pause : PersistedSubagentPause H X} (h : record.matchesPause pause.replaces = true) :
      Becomes record (.savePause pause) ⟨some pause,none⟩
  | closed {key : SubagentTaskKey} {outcome : SubagentOutcome H X}
      {replaces : Option (SubagentResume H)} (h : record.matchesPause replaces = true) :
      Becomes record (.recordTerminal key outcome replaces) ⟨none,some outcome⟩
  | importedTerminal {key : SubagentTaskKey} {pause : Option (PersistedSubagentPause H X)}
      {outcome : SubagentOutcome H X} :
      Becomes record (.importRecord key pause (some outcome)) ⟨none,some outcome⟩
  | importedPause {key : SubagentTaskKey} {pause : PersistedSubagentPause H X} :
      Becomes record (.importRecord key (some pause) none) ⟨some pause,none⟩

theorem becomes_of_change (h : call.change record = some next) :
    record.terminal = none ∧ Becomes record call next := by
  obtain ⟨held,terminal⟩ := record
  cases terminal with
  | some => cases call <;> exact nomatch h
  | none =>
    refine ⟨rfl,?_⟩
    cases call with
    | savePause | recordTerminal =>
      simp only [PersistenceCall.change,LifecycleRecord.savePause,LifecycleRecord.recordTerminal,
        isSome_none,Bool.false_eq_true,if_false] at h
      split at h
      · exact nomatch h
      next hm =>
        cases h
        constructor
        simpa using hm
    | importRecord _ pause terminal =>
      cases terminal with
      | some =>
        cases h
        exact .importedTerminal
      | none =>
        cases pause with
        | none => cases held <;> exact nomatch h
        | some =>
          cases held with
          | some => exact nomatch h
          | none =>
            cases h
            exact .importedPause
    | _ => exact nomatch h

theorem Becomes.unpaused (h : Becomes record call next) (hn : next.terminal.isSome) :
    next.pause = none := by
  cases h with
  | paused | importedPause => exact nomatch hn
  | closed | importedTerminal => rfl

variable {resume : SubagentResume H}

theorem Becomes.saves (h : Becomes record call next) (hr : Holding next resume) :
    call.saves = some resume := by
  obtain ⟨_,hp,hr⟩ := hr
  cases h with
  | paused | importedPause =>
    cases hp
    exact hr
  | closed | importedTerminal => exact nomatch hp

theorem holding_of_matches (h : record.matchesPause (some resume)) : Holding record resume := by
  unfold LifecycleRecord.matchesPause at h
  split at h
  next he => exact nomatch he
  next current _ hp he =>
    cases he
    obtain ⟨_,hf,hd⟩ := any_eq_true _ _ |>.1 h
    exact ⟨current,hp,by rw [hf,of_decide_eq_true hd]⟩
  · exact nomatch h

theorem Becomes.follows (h : Becomes record call next) {key}
    (hp : call.predecessor = some (key,resume)) : key = call.key ∧ Holding record resume := by
  cases h with
  | paused hm | closed hm =>
    obtain ⟨r,hr,he⟩ := map_eq_some_iff.1 hp
    cases he
    rw [hr] at hm
    exact ⟨rfl,holding_of_matches hm⟩
  | importedTerminal | importedPause => exact nomatch hp

end

section

variable {H X : Type} [DecidableEq H] {codec : KeyCodec}
  {w : Records.Shelf String (LifecycleRecord H X)}

abbrev PersistenceMoment (H X : Type) := Moment (PersistenceCall H X) (PersistenceOp H X)
  Records.RecordAns (Records.Shelf String (LifecycleRecord H X)) (PersistenceResult H X)

abbrev PersistenceConfig (H X : Type) := Config (PersistenceCall H X) (PersistenceOp H X)
  Records.RecordAns (Records.Shelf String (LifecycleRecord H X)) (PersistenceResult H X)

def commits (m : PersistenceMoment H X) : Option (PersistenceCall H X) :=
  match m.event with
  | .did _ call (.put _ id _ _) _ =>
    if (m.after id).next = (m.before id).next then none else some call
  | _ => none

def caller (m : PersistenceMoment H X) : Option (PersistenceCall H X) :=
  match m.event with
  | .did _ call _ _ => some call
  | _ => none

def loads (codec : KeyCodec) (w : Records.Shelf String (LifecycleRecord H X))
    (key : SubagentTaskKey) : Except StorageError
    (Option (SubagentOutcome H X) × Option (SubagentResume H) × Option (SubagentOutcome H X)) :=
  (documentId codec (recordName (keyComponent codec key))).map fun id =>
    let record := ((w id).doc).getD {}
    (record.loadTerminal,record.load,record.loadPause)

def Unrelated (call call' : PersistenceCall H X) : Prop :=
  call.predecessor = none ∨ call.predecessor ≠ call'.predecessor

instance (call call' : PersistenceCall H X) : Decidable (Unrelated call call') :=
  inferInstanceAs (Decidable (_ ∨ _))

structure Exclusive (codec : KeyCodec) (keys : SubagentTaskKey → Prop)
    (ms : List (PersistenceMoment H X)) (c : PersistenceConfig H X) : Prop where
  final : ∀ m ∈ ms, ∀ id record, (m.before id).doc = some record → record.terminal.isSome →
    (c.world id).doc = some record
  unpaused : ∀ m ∈ ms, ∀ id record, (m.after id).doc = some record → record.terminal.isSome →
    (m.before id).doc ≠ some record → record.pause = none
  single : (ms.filterMap commits).Pairwise Unrelated
  apart : ∀ m ∈ ms, ∀ call ∈ caller m, ∀ key, keys key → key ≠ call.key →
    loads codec m.after key = loads codec m.before key

def Holds (w : Records.Shelf String (LifecycleRecord H X)) (id : String)
    (resume : SubagentResume H) : Prop :=
  ∃ record, (w id).doc = some record ∧ Holding record resume

def Fresh (codec : KeyCodec) (ms : List (PersistenceMoment H X)) : Prop :=
  ∀ before m after, ms = before++m :: after → ∀ call ∈ commits m, ∀ id,
    home codec call = .ok id → ∀ resume ∈ call.saves, ∀ n ∈ before++[m],
      ¬ Holds n.before id resume

def Separate (keys : SubagentTaskKey → Prop) : Prop :=
  ∀ k l, keys k → keys l → k.Alike l → k = l

structure Commit (codec : KeyCodec) (m : PersistenceMoment H X) (call : PersistenceCall H X)
    (id : String) (record : LifecycleRecord H X) : Prop where
  caller : caller m = some call
  commits : commits m = some call
  home : home codec call = .ok id
  opened : (((m.before id).doc).getD {}).terminal = none
  becomes : Becomes (((m.before id).doc).getD {}) call record
  after : m.after = Function.update m.before id ((m.before id).write record)

variable {record : LifecycleRecord H X} {before after : List (PersistenceMoment H X)}
  {c : PersistenceConfig H X} {m : PersistenceMoment H X} {id : String}

theorem moment_cases {ms} (h : (processes codec).Run (.idle w) ms c) (hm : m ∈ ms) :
    m.after = m.before ∧ commits m = none ∨ ∃ call id record, Commit codec m call id record := by
  obtain ⟨-,-,hkept⟩ := (h.sound contract (Machine.sound_idle trivial)).2 m hm
  have htag := (h.asks asks_serve).2 m hm
  obtain ⟨before,event,after⟩ := m
  cases event with
  | did i call _ x =>
    obtain hsame | ⟨tag,id,precondition,record,rfl,⟨hhome,hchange⟩,hafter⟩ :=
      writes_of_outcome hkept.1 hkept.2
    · refine .inl ⟨hsame,?_⟩
      have hsame : after = before := hsame
      unfold commits
      split
      · simp [hsame]
      · rfl
    · obtain rfl : tag = call := htag i call _ x rfl
      obtain ⟨hopen,hbecomes⟩ := becomes_of_change hchange
      have hafter : after = Function.update before id ((before id).write record) := hafter
      refine .inr ⟨tag,id,record,rfl,?_,hhome,hopen,hbecomes,hafter⟩
      simp [commits,hafter,Cell.write]
  | start | finish => exact .inl ⟨hkept.2,rfl⟩
  | crash => exact .inl ⟨hkept,rfl⟩
  | env => exact .inl ⟨hkept.symm,rfl⟩

namespace Commit

section

variable {call : PersistenceCall H X} (h : Commit codec m call id record)

include h

theorem doc_after : (m.after id).doc = some record := by
  rw [h.after,Function.update_self]
  rfl

theorem doc_other {other : String} (ho : other ≠ id) : m.after other = m.before other := by
  rw [h.after,Function.update_of_ne ho]

theorem holds_before {key} {resume} (hp : call.predecessor = some (key,resume)) :
    key = call.key ∧ Holds m.before id resume := by
  obtain ⟨hk,hr⟩ := h.becomes.follows hp
  refine ⟨hk,?_⟩
  cases hd : (m.before id).doc with
  | none =>
    rw [hd] at hr
    obtain ⟨_,hp,-⟩ := hr
    exact nomatch hp
  | some found =>
    rw [hd] at hr
    exact ⟨found,hd,hr⟩

end

end Commit

theorem kept_terminal {ms} (h : (processes codec).Run (.idle w) ms c) (hm : m ∈ ms)
    (ht : record.terminal.isSome) (hr : (m.before id).doc = some record) :
    (m.after id).doc = some record := by
  obtain ⟨hsame,-⟩ | ⟨_,_,_,hc⟩ := moment_cases h hm
  · rw [hsame]
    exact hr
  · rw [hc.doc_other]
    · exact hr
    rintro rfl
    have ho := hc.opened
    rw [hr,getD_some] at ho
    rw [ho] at ht
    cases ht

theorem final (h : (processes codec).Run (.idle w) (before++m :: after) c)
    (ht : record.terminal.isSome) (hr : (m.before id).doc = some record) :
    (c.world id).doc = some record := by
  obtain ⟨_,d,-,hs,hrest⟩ := h.at
  have hd : (d.world id).doc = some record := by
    rw [← hs.after_eq]
    exact kept_terminal h (by simp) ht hr
  exact (hrest.before (P := fun w => (w id).doc = some record) hd fun n hn hb =>
    kept_terminal h (by simp [hn]) ht hb).1

theorem gone (h : (processes codec).Run (.idle w) (before++m :: after) c)
    (hfresh : Fresh codec (before++m :: after)) {resume}
    (hstored : ∃ n ∈ before++[m], Holds n.before id resume)
    (hm : Holds m.before id resume → ∃ call ∈ commits m, home codec call = .ok id) :
    ¬ Holds m.after id resume := by
  rintro ⟨record,hd,hr⟩
  obtain ⟨n,hn,hheld⟩ := hstored
  obtain ⟨hsame,hnone⟩ | ⟨call,place,_,hc⟩ := moment_cases h (by simp : m ∈ before++m :: after)
  · rw [hsame] at hd
    obtain ⟨call,hcall,-⟩ := hm ⟨record,hd,hr⟩
    rw [hnone] at hcall
    exact nomatch hcall
  · by_cases hid : id = place
    · subst hid
      rw [hc.doc_after] at hd
      cases hd
      exact hfresh before m after rfl call hc.commits id hc.home resume (hc.becomes.saves hr) n hn
        hheld
    · rw [hc.doc_other hid] at hd
      obtain ⟨_,hcall',hhome⟩ := hm ⟨record,hd,hr⟩
      rw [hc.commits] at hcall'
      cases hcall'
      exact hid (Except.ok.inj (hhome.symm.trans hc.home))

theorem single {between} {n}
    (h : (processes codec).Run (.idle w) (before++m :: (between++n :: after)) c)
    (hfresh : Fresh codec (before++m :: (between++n :: after))) {call call'} (hm : call ∈ commits m)
    (hn : call' ∈ commits n) {key} {resume} (hp : call.predecessor = some (key,resume)) :
    call'.predecessor ≠ some (key,resume) := by
  intro hp'
  obtain ⟨-,hnone⟩ | ⟨_,id,_,hc⟩ := moment_cases h (by simp : m ∈ _)
  · rw [hnone] at hm
    exact nomatch hm
  cases hc.commits.symm.trans hm
  obtain ⟨rfl,hheld⟩ := hc.holds_before hp
  have hgone : ¬ Holds m.after id resume := by
    refine gone h hfresh ⟨m,by simp,hheld⟩ fun _ => ⟨call,hc.commits,hc.home⟩
  obtain ⟨_,d,-,hs,hrest⟩ := h.at
  rw [hs.after_eq] at hgone
  obtain ⟨e,_,hbetween,hs',-⟩ := hrest.at
  have hlater : ¬ Holds e.world id resume := by
    refine (hbetween.before (P := fun w => ¬ Holds w id resume) hgone fun q hq hnot => ?_).1
    obtain ⟨s,t,rfl⟩ := append_of_mem hq
    have heq : before++m :: (s++q :: t++n :: after) = before++m :: s++q :: (t++n :: after) := by
      simp
    rw [heq] at h hfresh
    exact gone h hfresh ⟨m,by simp,hheld⟩ fun hq => (hnot hq).elim
  obtain ⟨-,hnone⟩ | ⟨_,id',_,hc'⟩ := moment_cases h (by simp : n ∈ _)
  · rw [hnone] at hn
    exact nomatch hn
  cases hc'.commits.symm.trans hn
  obtain ⟨hkey,hheld'⟩ := hc'.holds_before hp'
  have hid : id' = id := by
    have hh := hc'.home
    rw [home,← hkey] at hh
    exact Except.ok.inj (hh.symm.trans hc.home)
  rw [hid,hs'.before_eq] at hheld'
  exact hlater hheld'

theorem loads_other {call} (law : codec.Lawful) (h : Commit codec m call id record) {key}
    (hkey : ¬ key.Alike call.key) : loads codec m.after key = loads codec m.before key := by
  unfold loads
  cases hid : documentId codec (recordName (keyComponent codec key)) with
  | error => rfl
  | ok id' =>
    have hne : id' ≠ id := by
      rintro rfl
      have hparts := compositeKey_cons_inj law hid (show documentId _ _ = _ from h.home)
      have hname := (cons.inj (cons.inj (cons.inj hparts).2).2).1
      exact hkey (keyComponent_inj law ((String.append_right_inj _).1 hname))
    simp only [Except.map,h.doc_other hne]

theorem persisted_lifecycles_are_exclusive (law : codec.Lawful) {keys : SubagentTaskKey → Prop}
    {ms : List (PersistenceMoment H X)} {c : PersistenceConfig H X}
    (h : (processes codec).Run (.idle w) ms c)
    (hkeys : ∀ m ∈ ms, ∀ call ∈ caller m, keys call.key) (hfresh : Fresh codec ms)
    (hseparate : Separate keys) : Exclusive codec keys ms c where
  final := by
    intro m hm _ _ hr ht
    obtain ⟨_,_,rfl⟩ := append_of_mem hm
    exact final h ht hr
  unpaused := by
    intro m hm id _ hr ht hnew
    obtain ⟨hsame,-⟩ | ⟨call,place,_,hc⟩ := moment_cases h hm
    · rw [hsame] at hr
      exact (hnew hr).elim
    by_cases hid : id = place
    · subst hid
      rw [hc.doc_after] at hr
      cases hr
      exact hc.becomes.unpaused ht
    · rw [hc.doc_other hid] at hr
      exact (hnew hr).elim
  single := by
    refine pairwise_filterMap.2 (pairwise_of_split ?_)
    rintro _ m _ n _ rfl call hm _ hn
    cases hp : call.predecessor with
    | none => exact .inl hp
    | some => exact .inr fun he => single h hfresh hm hn hp (he.symm.trans hp)
  apart := by
    intro m hm call hcall _ hk hne
    obtain ⟨hsame,-⟩ | ⟨call',id,record,hc⟩ := moment_cases h hm
    · rw [hsame]
    · cases hc.caller.symm.trans hcall
      exact loads_other law hc fun ha => hne (hseparate _ _ hk (hkeys m hm call hcall) ha)

end

def sampleKey (thread : Option String) : SubagentTaskKey := ⟨"root","parent",thread,"task"⟩

def sampleOutcome (status : SubagentOutcomeKind Unit) : SubagentOutcome Unit Unit :=
  ⟨"task","",[],status,()⟩

def sampleResume (checkpoint : Option String) : SubagentResume Unit :=
  { checkpoint := checkpoint }

def samplePause (thread checkpoint : Option String) (replaces : Option (SubagentResume Unit)) :
    PersistedSubagentPause Unit Unit :=
  ⟨sampleKey thread,sampleOutcome (.awaitingInput ⟨"input",sampleResume checkpoint⟩),replaces⟩

theorem fits : driver.Fits (processes (H := Unit) (X := Unit) nibbles) :=
  driver_fits (fun _ _ _ _ _ h => h) (fun _ => rfl) fun _ _ _ => trivial

def holdsNow (w : Records.Shelf String (LifecycleRecord Unit Unit)) (id : String)
    (resume : SubagentResume Unit) : Bool :=
  (w id).doc.any fun record => record.pause.any fun pause => pauseResume pause = some resume

def freshAfter (seen : List (PersistenceMoment Unit Unit)) :
    List (PersistenceMoment Unit Unit) → Bool
  | [] => true
  | m :: ms => ((commits m).all fun call => match home nibbles call with
      | .ok id => call.saves.all fun resume => (seen++[m]).all fun n =>
        !holdsNow n.before id resume
      | .error _ => true) && freshAfter (seen++[m]) ms

theorem fresh_of_check {ms} (h : freshAfter [] ms) : Fresh nibbles ms := by
  have general : ∀ (ms seen : List (PersistenceMoment Unit Unit)), freshAfter seen ms →
      ∀ before m after, ms = before++m :: after → ∀ call ∈ commits m, ∀ id,
        home nibbles call = .ok id → ∀ resume ∈ call.saves, ∀ n ∈ seen++(before++[m]),
          ¬ Holds n.before id resume := by
    intro ms
    induction ms with
    | nil => intro seen _ before m after he; simp at he
    | cons q _ ih =>
      intro seen hcheck before m after he call hcall id hid resume hr n hn
      obtain ⟨hnow,hrest⟩ := Bool.and_eq_true_iff.1 hcheck
      cases before with
      | nil =>
        obtain ⟨rfl,rfl⟩ := List.cons.inj he
        simp only [mem_def.1 hcall,all_some,hid,mem_def.1 hr] at hnow
        intro hheld
        have hfree := all_eq_true.1 hnow n hn
        obtain ⟨_,hd,_,hp,hr⟩ := hheld
        simp [holdsNow,hd,mem_def.1 hp,hr] at hfree
      | cons _ before =>
        obtain ⟨rfl,rfl⟩ := List.cons.inj he
        refine ih (seen++[q]) hrest before m after rfl call hcall id hid resume hr n ?_
        simpa using hn
  exact general ms [] h

theorem persisted_lifecycles_are_exclusive_resumed :
    ∃ ms c, nibbles.Lawful ∧
    (processes (H := Unit) (X := Unit) nibbles).Run (.idle fun _ => .empty) ms c ∧
    (ms.filterMap commits).map PersistenceCall.predecessor =
      [none,some (sampleKey none,sampleResume none),
      some (sampleKey none,sampleResume (some "second"))] ∧
    Exclusive nibbles (· = sampleKey none) ms c := by
  obtain ⟨ms,c,hr,hkeys,hfresh,hcommits⟩ := Driver.drive_any fits
    [.start 0 (.savePause (samplePause none none none)),.complete 0 9,
      .start 0 (.savePause (samplePause none (some "second") (some (sampleResume none)))),
      .complete 0 9,
      .start 1 (.recordTerminal (sampleKey none) (sampleOutcome .completed)
        (some (sampleResume (some "second")))),.complete 1 9] (.idle fun _ => .empty)
    (fun ms _ => (∀ m ∈ ms, ∀ call ∈ caller m, call.key = sampleKey none) ∧
      freshAfter [] ms = true ∧ (ms.filterMap commits).map PersistenceCall.predecessor =
        [none,some (sampleKey none,sampleResume none),
          some (sampleKey none,sampleResume (some "second"))]) (by decide +kernel)
  refine ⟨ms,c,nibbles_lawful,hr,hcommits,
    persisted_lifecycles_are_exclusive nibbles_lawful hr hkeys (fresh_of_check hfresh) ?_⟩
  rintro k l rfl rfl _
  rfl

-- The same state is saved again, and a call that followed the first pause replaces the second;
-- and a key that names an empty thread shares the record of the key that names none.
theorem stale_and_threadless_calls_commit :
    (∃ ms c, (processes (H := Unit) (X := Unit) nibbles).Run (.idle fun _ => .empty) ms c ∧
      ∀ keys, ¬ Exclusive nibbles keys ms c) ∧
    ∃ ms c, (processes (H := Unit) (X := Unit) nibbles).Run (.idle fun _ => .empty) ms c ∧
      ¬ Exclusive nibbles (fun _ => True) ms c := by
  constructor
  · obtain ⟨ms,c,hr,h⟩ := Driver.drive_any fits
      [.start 0 (.savePause (samplePause none none none)),.complete 0 9,
        .start 0 (.savePause (samplePause none none (some (sampleResume none)))),.complete 0 9,
        .start 1 (.recordTerminal (sampleKey none) (sampleOutcome .completed)
          (some (sampleResume none))),.complete 1 9] (.idle fun _ => .empty)
      (fun ms _ => ¬ (ms.filterMap commits).Pairwise Unrelated) (by decide +kernel)
    exact ⟨ms,c,hr,fun _ he => h he.single⟩
  · obtain ⟨ms,c,hr,m,hm,h⟩ := Driver.drive_any fits
      [.start 0 (.savePause (samplePause none none none)),.complete 0 9] (.idle fun _ => .empty)
      (fun ms _ => ∃ m ∈ ms, (caller m).any (fun call => decide (sampleKey (some "") ≠ call.key ∧
        loads nibbles m.after (sampleKey (some "")) ≠ loads nibbles m.before (sampleKey (some ""))))
          = true) (by decide +kernel)
    obtain ⟨call,hcall,h⟩ := (any_eq_true _ _).1 h
    obtain ⟨hne,hdiff⟩ := of_decide_eq_true h
    exact ⟨ms,c,hr,fun he => hdiff (he.apart m hm call hcall (sampleKey (some "")) trivial hne)⟩

end DocumentPersistence

end Orchestration
