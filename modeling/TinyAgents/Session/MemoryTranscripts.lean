import TinyAgents.Interaction.Driver
import TinyAgents.Interaction.Exchanges
import TinyAgents.Session.Messages
import TinyAgents.Session.SessionRefs

namespace Session

open Interaction List Option

def SessionRef.sessionId (session : SessionRef) : String := sessionStem session

def SessionRef.parentSessionId (session : SessionRef) : Option String :=
  if 0 < session.generation then
    some (sessionStem { session with generation := session.generation-1 })
  else none

def maxGenerations : Nat := 4096

def isSubagentFrom (parent : Bool) : List Char → Bool
  | '_' :: '_' :: child => parent && !child.isEmpty
  | _ :: rest => isSubagentFrom true rest
  | [] => false

def isSubagent (stem : String) : Bool := isSubagentFrom false stem.toList

namespace MemoryTranscripts

variable {N : Type}

structure History (N : Type) where
  transcriptMeta : TranscriptMeta
  messages : List (TranscriptMessage N) := []
  tools : Option N := none
  written : Bool := false
  partials : List (TranscriptPartial × Option String × Nat) := []
  sealed : Bool := false
  blank : written = false → messages = [] := by simp

structure Locator (N : Type) where
  stems : List (String × Bool × History N)
  reservedGenerations : List String
  nodup : (stems.map Prod.fst).Nodup

inductive Reply where
  | done
  | flag (value : Bool)
  | handle (stem : String)
  | generation (session : SessionRef) (stem : String)
  deriving DecidableEq

inductive HistoryOp (N : Type) where
  | appendTurn (turn : TranscriptTurn N) (shown : Option TranscriptPartial)
  | append (message : TranscriptMessage N)
  | adoptIfEmpty (messages : List (TranscriptMessage N))
  | replace (messages : List (TranscriptMessage N))
  | clear
  | recordPartial (shown : TranscriptPartial) (requestId : Option String)
  deriving DecidableEq

-- Each request is one section under a mutex. All but `checkBaseline` hold the generation gate.
inductive LocatorOp (N : Type) where
  | checkBaseline (session : SessionRef) (baseline : List (TranscriptMessage N))
  | openStem (stem : String) (seed : TranscriptMeta)
  | beginGeneration (session : SessionRef) (seed : TranscriptMeta)
  | appendInterruptedPartial (threadId : String) (agentId : Option String)
      (shown : TranscriptPartial) (requestId : Option String)
  | history (stem : String) (op : HistoryOp N)
  deriving DecidableEq

section

variable [DecidableEq N] (D : Dialect N)

def sealedError : String := "transcript generation is sealed"
def staleError : String :=
  "transcript baseline is stale; reload the session before creating a generation"

namespace History

def recordPartial (shown : TranscriptPartial) (requestId : Option String) (h : History N) :
    Bool × History N :=
  if h.sealed ∨ shown.content = "" then (false,h)
  else (true,{ h with
    partials := h.partials++[(shown,requestId,h.messages.length)]
    written := true
    blank := by simp })

def appendTurnWithPartial (turn : TranscriptTurn N) (shown : Option TranscriptPartial)
    (h : History N) : History N :=
  let messages := normalizedRows D turn.next
  { h with
    messages := messages
    transcriptMeta := turn.transcriptMeta
    tools := turn.tools.or h.tools
    partials := h.partials++((shown.filter fun p => p.content ≠ "").map fun p =>
      (p,turn.requestId,messages.length)).toList
    written := true
    blank := by simp }

variable (h : History N)

def closed : History N := { h with sealed := true }

def setSeedIfUnwritten (seed : TranscriptMeta) (h : History N) : History N :=
  if h.written then h else { h with transcriptMeta := seed }

def readSession : Option (List (TranscriptMessage N)) :=
  if h.written then some h.messages else none

def holding (messages : List (TranscriptMessage N)) : History N :=
  { h with messages := messages, written := true, blank := by simp }

def cleared : History N :=
  { h with messages := [], partials := [], blank := fun _ => rfl }

def unlessSealed (result : Except String Reply × History N) : Except String Reply × History N :=
  if h.sealed then (.error sealedError,h) else result

def run : HistoryOp N → Except String Reply × History N
  | .appendTurn turn shown => h.unlessSealed (.ok .done,h.appendTurnWithPartial D turn shown)
  | .append message => h.unlessSealed
      (.ok .done,h.holding (h.messages++[message.normalized D]))
  | .adoptIfEmpty messages =>
    if messages = [] then (.ok (.flag false),h)
    else h.unlessSealed
      (if h.written then (.ok (.flag false),h)
      else (.ok (.flag true),h.holding (normalizedRows D messages)))
  | .replace messages => h.unlessSealed (.ok .done,h.holding (normalizedRows D messages))
  | .clear => h.unlessSealed (.ok .done,if h.written then h.cleared else h)
  | .recordPartial shown requestId =>
    (.ok (.flag (h.recordPartial shown requestId).1),(h.recordPartial shown requestId).2)

end History

namespace Locator

variable (w : Locator N)

def names : List String := w.stems.map Prod.fst

def find (w : Locator N) (stem : String) : Option (History N) :=
  (w.stems.find? fun entry => entry.1 = stem).map fun entry => entry.2.2

def modify (stem : String) (f : History N → History N) : Locator N where
  stems := w.stems.map fun entry =>
    if entry.1 = stem then (entry.1,entry.2.1,f entry.2.2) else entry
  reservedGenerations := w.reservedGenerations
  nodup := by
    have hnames : ∀ entry : String × Bool × History N,
        (if entry.1 = stem then (entry.1,entry.2.1,f entry.2.2) else entry).1 = entry.1 := by
      intro entry
      split <;> rfl
    simpa only [List.map_map,Function.comp_def,hnames] using w.nodup

def openStemLocked (stem : String) (seed : TranscriptMeta) : Locator N :=
  if h : stem ∈ w.names then w.modify stem (History.setSeedIfUnwritten seed)
  else
    { w with
      stems := w.stems++[(stem,isSubagent stem,{ transcriptMeta := seed })]
      nodup := by
        rw [map_append]
        refine nodup_append.2 ⟨w.nodup,by simp,?_⟩
        rintro a ha b hb rfl
        rw [mem_singleton.1 hb] at ha
        exact h ha }

def checkBaseline (session : SessionRef) (baseline : List (TranscriptMessage N)) :
    Except String Reply :=
  match (w.find (sessionStem session)).bind History.readSession with
  | some messages =>
    if SameTranscriptMessages D messages baseline then .ok .done else .error staleError
  | none => if baseline = [] then .ok .done else .error staleError

def beginGenerationLocked (session : SessionRef) (seed : TranscriptMeta) :
    Except String Reply × Locator N :=
  let successor := session.nextGeneration
  let stem := sessionStem successor
  if maxGenerations < successor.generation.toNat then
    (.error "session generation limit reached",w)
  else if stem ∈ w.names ∨ stem ∈ w.reservedGenerations then
    (.error "session generation already exists or is reserved",w)
  else
    let seed := { seed with
      sessionId := some successor.sessionId, parentSessionId := successor.parentSessionId }
    let reserved := { w with reservedGenerations := stem :: w.reservedGenerations }
    let switched := reserved.modify (sessionStem session) History.closed
    (.ok (.generation successor stem),switched.openStemLocked stem seed)

def writtenRoots : List (String × History N) :=
  (w.stems.reverse.filter fun entry => !entry.2.1 && entry.2.2.written).map fun entry =>
    (entry.1,entry.2.2)

def appendInterruptedPartial (threadId : String) (agentId : Option String)
    (shown : TranscriptPartial) (requestId : Option String) : Except String Reply × Locator N :=
  let threadId := trim threadId
  if shown.content = "" ∨ threadId = "" then (.ok (.flag false),w)
  else
    match w.writtenRoots.find? fun root => root.2.transcriptMeta.threadId = some threadId ∧
        ∀ agent ∈ agentId, root.2.transcriptMeta.agentId = some agent with
    | none => (.ok (.flag false),w)
    | some (stem,h) => (.ok (.flag (h.recordPartial shown requestId).1),
        w.modify stem fun h => (h.recordPartial shown requestId).2)

def perform : LocatorOp N → Option (Except String Reply × Locator N)
  | .checkBaseline session baseline => some (w.checkBaseline D session baseline,w)
  | .openStem stem seed => some (.ok (.handle stem),w.openStemLocked stem seed)
  | .beginGeneration session seed => some (w.beginGenerationLocked session seed)
  | .appendInterruptedPartial threadId agentId shown requestId =>
    some (w.appendInterruptedPartial threadId agentId shown requestId)
  | .history stem op => (w.find stem).map fun h =>
    ((h.run D op).1,w.modify stem fun h => (h.run D op).2)

end Locator

inductive LocatorCall (N : Type) where
  | single (op : LocatorOp N)
  | beginGenerationFromBaseline (session : SessionRef) (seed : TranscriptMeta)
      (baseline : List (TranscriptMessage N))
  deriving DecidableEq

abbrev LocatorAns : LocatorOp N → Type := fun _ => Except String Reply

def code : LocatorCall N → Program (LocatorOp N) LocatorAns (Except String Reply)
  | .single op => .perform op
  | .beginGenerationFromBaseline session seed baseline => do
    match ← Program.perform (.checkBaseline session baseline) with
    | .error e => return .error e
    | .ok _ => .perform (.beginGeneration session seed)

def machine : Machine (LocatorCall N) (LocatorOp N) LocatorAns (Locator N)
    (Except String Reply) where
  code := code
  outcome := fun _ op w x w' => w.perform D op = some (x,w')

end

abbrev LocatorMoment (N : Type) :=
  Moment (LocatorCall N) (LocatorOp N) LocatorAns (Locator N) (Except String Reply)

section

variable {w : Locator N} {stem : String}

namespace Locator

def rows (w : Locator N) (stem : String) : List (TranscriptMessage N) :=
  ((w.find stem).map History.messages).getD []

theorem find_modify (w : Locator N) (s stem : String) (f : History N → History N) :
    (w.modify s f).find stem = if s = stem then (w.find stem).map f else w.find stem := by
  have hname : (fun entry : String × Bool × History N => decide (entry.1 = stem)) ∘
      (fun entry => if entry.1 = s then (entry.1,entry.2.1,f entry.2.2) else entry) =
      fun entry => decide (entry.1 = stem) := by
    funext entry
    simp only [Function.comp_apply]
    split <;> rfl
  simp only [find,modify,List.find?_map,hname,Option.map_map]
  cases hf : w.stems.find? fun entry => entry.1 = stem with
  | none => simp
  | some entry =>
    have hentry : entry.1 = stem := by simpa using List.find?_some hf
    by_cases hs : s = stem
    · simp [hs,hentry]
    · simp [hs,hentry,Ne.symm hs]

theorem find_eq_none : w.find stem = none ↔ stem ∉ w.names := by
  simp only [find,names,Option.map_eq_none_iff,List.find?_eq_none,List.mem_map,not_exists,not_and,
    decide_eq_true_eq]

theorem find_openStem (w : Locator N) (s stem : String) (seed : TranscriptMeta) :
    (w.openStemLocked s seed).find stem =
      if s = stem then some (((w.find stem).map (History.setSeedIfUnwritten seed)).getD
        { transcriptMeta := seed })
      else w.find stem := by
  unfold openStemLocked
  split
  next hmem =>
    rw [find_modify]
    split
    next he =>
      cases hf : w.find stem with
      | none => exact (find_eq_none.1 hf (he ▸ hmem)).elim
      | some => rfl
    · rfl
  next hmem =>
    have hs := find_eq_none.2 hmem
    unfold find at hs ⊢
    rw [map_eq_none_iff] at hs
    rw [List.find?_append,map_or]
    by_cases he : s = stem
    · subst he
      rw [hs]
      simp
    · simp [he]

def Quiet (w w' : Locator N) (stem : String) : Prop :=
  w'.rows stem = w.rows stem ∧
    ((w.find stem).any History.sealed = true → (w'.find stem).any History.sealed = true)

theorem Quiet.trans {u v : Locator N} (h : Quiet u v stem) (h' : Quiet v w stem) : Quiet u w stem :=
  ⟨h'.1.trans h.1,h'.2 ∘ h.2⟩

theorem quiet_refl (w : Locator N) (stem : String) : Quiet w w stem :=
  ⟨rfl,id⟩

theorem quiet_modify {s : String} {f}
    (hf : s = stem → ∀ h, w.find stem = some h → (f h).messages = h.messages ∧
      (h.sealed → (f h).sealed)) :
    Quiet w (w.modify s f) stem := by
  unfold Quiet rows
  rw [find_modify]
  split
  next hs =>
    cases hw : w.find stem with
    | none => exact ⟨rfl,id⟩
    | some h => simpa using hf hs h hw
  · exact ⟨rfl,id⟩

theorem quiet_openStem {s : String} {seed} : Quiet w (w.openStemLocked s seed) stem := by
  have hseed (h : History N) : (h.setSeedIfUnwritten seed).messages = h.messages ∧
      (h.setSeedIfUnwritten seed).sealed = h.sealed := by
    unfold History.setSeedIfUnwritten
    split <;> exact ⟨rfl,rfl⟩
  unfold Quiet rows
  rw [find_openStem]
  split
  · cases w.find stem with
    | none => exact ⟨rfl,by simp⟩
    | some h => simp [hseed h]
  · exact ⟨rfl,id⟩

theorem quiet_beginGeneration {session : SessionRef} {seed} :
    Quiet w (w.beginGenerationLocked session seed).2 stem := by
  unfold beginGenerationLocked
  simp only
  split_ifs
  · exact quiet_refl w stem
  · exact quiet_refl w stem
  refine Quiet.trans (v := w.modify (sessionStem session) History.closed) ?_ ?_
  · exact quiet_modify fun _ _ _ => ⟨rfl,fun _ => rfl⟩
  · exact quiet_openStem

end Locator

variable {h : History N}

theorem History.unlessSealed_of_sealed (hs : h.sealed) (result : Except String Reply × History N) :
    h.unlessSealed result = (.error sealedError,h) := by
  rw [unlessSealed,if_pos hs]

variable {D : Dialect N}

theorem History.run_error {op} {e : String} (he : (h.run D op).1 = .error e) :
    (h.run D op).2 = h := by
  have refused {result : Except String Reply × History N} (hok : ∀ e, result.1 ≠ .error e)
      (he : (h.unlessSealed result).1 = .error e) : (h.unlessSealed result).2 = h := by
    unfold unlessSealed at he ⊢
    split at he
    next hs => rw [if_pos hs]
    · exact (hok e he).elim
  cases op with
  | adoptIfEmpty =>
    simp only [run] at he ⊢
    split at he
    · cases he
    next hne =>
      simp only [hne,if_false] at he ⊢
      refine refused (fun e => ?_) he
      split <;> simp
  | appendTurn | append | replace | clear => exact refused (by simp) he
  | recordPartial => cases he

theorem History.run_sealed (hs : h.sealed) (op : HistoryOp N) :
    (h.run D op).2.messages = h.messages ∧ (h.run D op).2.sealed := by
  cases op with
  | adoptIfEmpty =>
    simp only [run]
    split
    · exact ⟨rfl,hs⟩
    · rw [unlessSealed_of_sealed hs]
      exact ⟨rfl,hs⟩
  | recordPartial =>
    simp only [run,recordPartial,hs,true_or,if_true,and_self]
  | _ =>
    rw [run,unlessSealed_of_sealed hs]
    exact ⟨rfl,hs⟩

def writes (stem : String) (m : LocatorMoment N) : Bool :=
  match m.event with
  | .did _ _ (.history s _) (.ok _) => s = stem
  | _ => false

variable [DecidableEq N]

theorem quiet_perform {op} {x} {w' : Locator N} (h : w.perform D op = some (x,w'))
    (hop : ∀ hop reply, op = .history stem hop → x ≠ .ok reply) : w.Quiet w' stem := by
  cases op with
  | checkBaseline =>
    cases h
    exact Locator.quiet_refl w stem
  | openStem =>
    cases h
    exact Locator.quiet_openStem
  | beginGeneration session seed =>
    have hw : (w.beginGenerationLocked session seed).2 = w' :=
      congrArg Prod.snd (Option.some.inj h)
    rw [← hw]
    exact Locator.quiet_beginGeneration
  | appendInterruptedPartial threadId agentId shown requestId =>
    have hw : (w.appendInterruptedPartial threadId agentId shown requestId).2 = w' :=
      congrArg Prod.snd (Option.some.inj h)
    rw [← hw]
    unfold Locator.appendInterruptedPartial
    simp only
    split
    · exact Locator.quiet_refl w stem
    split
    · exact Locator.quiet_refl w stem
    refine Locator.quiet_modify fun _ h _ => ?_
    unfold History.recordPartial
    split <;> exact ⟨rfl,id⟩
  | history _ op =>
    obtain ⟨hist,hfind,he⟩ := map_eq_some_iff.1 h
    cases he
    refine Locator.quiet_modify ?_
    rintro rfl _ hfind'
    rw [hfind] at hfind'
    cases hfind'
    cases hx : (hist.run D op).1 with
    | ok reply => exact (hop op reply rfl hx).elim
    | error =>
      rw [History.run_error hx]
      exact ⟨rfl,id⟩

theorem quiet_step {m} {c d} (hs : (machine D).Step c m d) (h : writes stem m = false) :
    m.before.Quiet m.after stem := by
  cases hs with
  | @did i call op next x w ht ho =>
    refine quiet_perform ho ?_
    rintro _ _ rfl rfl
    simp [writes] at h
  | start | finish | crash => exact Locator.quiet_refl _ stem
  | env he =>
    rw [he]
    exact Locator.quiet_refl _ stem

theorem quiet_of_sealed {m} {c d} (hs : (machine D).Step c m d)
    (h : (m.before.find stem).any History.sealed) : m.before.Quiet m.after stem := by
  cases hw : writes stem m with
  | false => exact quiet_step hs hw
  | true =>
    cases hs with
    | @did i call op next x w ht ho =>
      cases op with
      | history _ op =>
        obtain ⟨_,_,he⟩ := map_eq_some_iff.1 ho
        cases he
        refine Locator.quiet_modify ?_
        rintro rfl hist' hfind'
        have hsealed : hist'.sealed := by simpa [hfind'] using h
        obtain ⟨hm,hs⟩ := History.run_sealed hsealed op
        exact ⟨hm,fun _ => hs⟩
      | _ => simp [writes] at hw
    | start | finish | crash | env => cases hw

end

section

variable [DecidableEq N] {D : Dialect N}

def lastWritten (stem : String) (ms : List (LocatorMoment N)) :
    Option (List (TranscriptMessage N)) :=
  (ms.reverse.find? (writes stem)).map fun m => m.after.rows stem

theorem rows_of_run (stem : String) {ms} {c d} (h : (machine D).Run c ms d) :
    d.world.rows stem = (lastWritten stem ms).getD (c.world.rows stem) := by
  induction h with
  | nil => rfl
  | @snoc d e ms m hr hs ih =>
    rw [← hs.after_eq]
    unfold lastWritten at ih ⊢
    rw [reverse_append,reverse_singleton,singleton_append,List.find?_cons]
    cases hw : writes stem m with
    | true => rfl
    | false => rw [(quiet_step hs hw).1,hs.before_eq,ih]

theorem checked_rows {w : Locator N} {session : SessionRef} {baseline} {reply : Reply}
    (h : w.checkBaseline D session baseline = .ok reply) :
    SameTranscriptMessages D (w.rows (sessionStem session)) baseline := by
  unfold Locator.checkBaseline at h
  unfold Locator.rows
  split at h
  next hm =>
    obtain ⟨_,hf,hr⟩ := bind_eq_some_iff.1 hm
    unfold History.readSession at hr
    split at hr
    · cases hr
      split at h
      next hsame => simpa [hf] using hsame
      · cases h
    · cases hr
  next hm =>
    split at h
    next hnil =>
      subst hnil
      cases hf : w.find (sessionStem session) with
      | none => exact ⟨rfl,by simp⟩
      | some hist =>
        have hwritten : hist.written = false := by
          rw [hf,bind_some,History.readSession] at hm
          split at hm
          · cases hm
          next hw => simpa using hw
        rw [map_some,hist.blank hwritten]
        exact ⟨rfl,by simp⟩
    · cases h

theorem sealed_of_run {stem : String} {ms} {c d} (h : (machine D).Run c ms d)
    (hsealed : (c.world.find stem).any History.sealed) :
    d.world.rows stem = c.world.rows stem ∧ (d.world.find stem).any History.sealed := by
  induction h with
  | nil => exact ⟨rfl,hsealed⟩
  | snoc _ hs ih =>
    obtain ⟨hrows,hany⟩ := ih
    rw [← hs.before_eq] at hrows hany
    obtain ⟨hq,hq'⟩ := quiet_of_sealed hs hany
    rw [← hs.after_eq]
    exact ⟨hq.trans hrows,hq' hany⟩

def Switched : LocatorCall N → Except String Reply →
    List (Exchange (LocatorOp N) LocatorAns (Locator N)) → Prop
  | .beginGenerationFromBaseline session seed baseline, .ok reply, es => ∃ u v w checked,
      es = [⟨v,.beginGeneration session seed,.ok reply,w⟩,
        ⟨u,.checkBaseline session baseline,.ok checked,u⟩]
  | _, _, _ => True

theorem switched_code (i : Nat) (call : LocatorCall N) :
    Safe (recording ((machine D).answers i)) (Switched call) (code call) [] := by
  cases call with
  | single => exact recording_true
  | beginGenerationFromBaseline =>
    refine recording_ask fun u x u' hu => ?_
    have hu' : u' = u := (congrArg Prod.snd (Option.some.inj hu)).symm
    subst hu'
    cases x with
    | error => exact recording_ret trivial
    | ok checked =>
      refine recording_ask fun v y w _ => recording_ret ?_
      cases y with
      | error => trivial
      | ok => exact ⟨u',v,w,checked,rfl⟩

theorem switch_keeps_baseline_iff {w : Locator N} {ms ns : List (LocatorMoment N)}
    {m : LocatorMoment N} {c : Config _ _ _ _ _} (h : (machine D).Run (.idle w) (ms++m :: ns) c)
    {i : Nat} {session : SessionRef} {seed : TranscriptMeta} {baseline : List (TranscriptMessage N)}
    {reply : Reply}
    (hm : m.event = .finish i (.beginGenerationFromBaseline session seed baseline) (.ok reply)) :
    ∃ (earlier : List (LocatorMoment N)) (check : LocatorMoment N)
      (between : List (LocatorMoment N)) (switch : LocatorMoment N) (later : List (LocatorMoment N))
      (call call' : LocatorCall N) (checked : Reply),
    ms = earlier++check :: between++switch :: later ∧
    check.event = .did i call (.checkBaseline session baseline) (.ok checked) ∧
    switch.event = .did i call' (.beginGeneration session seed) (.ok reply) ∧
    own i ms =
      [⟨switch.before,.beginGeneration session seed,.ok reply,switch.after⟩,
      ⟨check.before,.checkBaseline session baseline,.ok checked,check.after⟩] ∧
    (SameTranscriptMessages D (switch.after.rows (sessionStem session)) baseline ↔
      ∀ rows ∈ lastWritten (sessionStem session) between, SameTranscriptMessages D rows baseline) ∧
    ((switch.after.find (sessionStem session)).any History.sealed = true →
      c.world.rows (sessionStem session) = switch.after.rows (sessionStem session)) := by
  obtain ⟨u,v,_,checked,hown⟩ := h.finish_own (switched_code i) hm
  obtain ⟨_,call',later,rfl,hown1⟩ := own_eq_cons hown
  obtain ⟨earlier,call,between,rfl,-⟩ := own_eq_cons hown1
  rw [append_assoc,append_assoc,cons_append,cons_append] at h
  obtain ⟨a,b,-,hcheck,h⟩ := h.at
  obtain ⟨d,e,hbetween,hswitch,hlater⟩ := h.at
  refine ⟨earlier,_,between,_,later,call,call',checked,rfl,rfl,rfl,hown,?_,fun hsealed => ?_⟩
  · have hrows := rows_of_run (sessionStem session) hbetween
    rw [← hcheck.after_eq,← hswitch.before_eq] at hrows
    have hquiet := (quiet_step hswitch rfl : Locator.Quiet _ _ (sessionStem session)).1
    cases hcheck with
    | did _ ho =>
      have hbase := checked_rows (congrArg Prod.fst (Option.some.inj ho))
      simp only at hquiet hrows ⊢
      rw [hquiet,hrows]
      cases lastWritten (sessionStem session) between with
      | none => simpa using hbase
      | some => simp
  · rw [hswitch.after_eq] at hsealed ⊢
    exact (sealed_of_run hlater hsealed).1

end

def driver : Driver (LocatorOp String) LocatorAns (Locator String) where
  perform := fun _ op w => w.perform .packed op

theorem driver_fits : driver.Fits (machine .packed) where
  perform := fun _ _ _ _ _ h => h

def vacant : Locator String := ⟨[],[],by simp⟩

def thread : SessionRef := .root "thread"
def header : TranscriptMeta := { agentName := "agent" }
def question : TranscriptMessage String := { role := "system", content := "question" }
def answer : TranscriptMessage String := { role := "system", content := "answer" }

def turnTo (next : List (TranscriptMessage String)) : LocatorCall String :=
  .single (.history (sessionStem thread)
    (.appendTurn { prev := [], next := next, transcriptMeta := header } none))

def compaction : LocatorCall String := .beginGenerationFromBaseline thread header [question]

def compacted : Except String Reply :=
  .ok (.generation thread.nextGeneration (sessionStem thread.nextGeneration))

-- A turn lands between the check and the switch: the switch succeeds, and the turn is under
-- the seal but not in the baseline.
theorem turn_lost_at_switch :
    ∃ ms m c, (machine .packed).Run (.idle vacant) (ms++[m]) c ∧
    m.event = .finish 0 compaction compacted ∧
    (c.world.find (sessionStem thread)).any History.sealed = true ∧
    ¬ SameTranscriptMessages .packed (c.world.rows (sessionStem thread)) [question] := by
  obtain ⟨ms,c,h,⟨m,hm,he⟩,hsealed,hrows⟩ := Driver.drive_any driver_fits
    [.start 1 (.single (.openStem (sessionStem thread) header)),.complete 1 5,
      .start 1 (turnTo [question]),.complete 1 5,.start 0 compaction,.act 0 1,
      .start 1 (turnTo [question,answer]),.complete 1 5,.complete 0 5]
    (.idle vacant)
    (fun ms c => (∃ m ∈ ms.getLast?, m.event = .finish 0 compaction compacted) ∧
      (c.world.find (sessionStem thread)).any History.sealed = true ∧
      ¬ SameTranscriptMessages .packed (c.world.rows (sessionStem thread)) [question])
    (by decide +kernel)
  obtain ⟨a,rfl⟩ := List.getLast?_eq_some_iff.1 hm
  exact ⟨a,m,c,h,he,hsealed,hrows⟩

def held : Locator String where
  stems := [(sessionStem thread,false,
    { transcriptMeta := header, messages := [question], written := true })]
  reservedGenerations := []
  nodup := by simp

theorem switch_keeps_baseline_alone :
    ∃ ms m c, (machine .packed).Run (.idle held) (ms++m :: []) c ∧
    m.event = .finish 0 compaction compacted ∧
    ∃ switch ∈ ms,
    SameTranscriptMessages .packed (switch.after.rows (sessionStem thread)) [question] := by
  obtain ⟨ms,c,h,⟨m,hm,he⟩,hquiet⟩ := Driver.drive_any driver_fits
    [.start 0 compaction,.complete 0 5] (.idle held)
    (fun ms _ => (∃ m ∈ ms.getLast?, m.event = .finish 0 compaction compacted) ∧
      ∀ m ∈ ms, ¬ writes (sessionStem thread) m = true)
    (by decide +kernel)
  obtain ⟨a,rfl⟩ := List.getLast?_eq_some_iff.1 hm
  obtain ⟨_,_,_,switch,_,_,_,_,rfl,-,-,-,hiff,-⟩ :=
    switch_keeps_baseline_iff h he
  refine ⟨_,m,c,h,he,switch,by simp,hiff.2 fun rows hrows => ?_⟩
  obtain ⟨k,hk,-⟩ := map_eq_some_iff.1 hrows
  have hmem := mem_reverse.1 (mem_of_find?_eq_some hk)
  exact (hquiet k (by simp [hmem]) (List.find?_some hk)).elim

end MemoryTranscripts

end Session
