import TinyAgents.Orchestration.SubagentDriver

namespace Orchestration

open Interaction Function

namespace SubagentDriver

section

variable {A B C : Type} [DecidableEq A] [DecidableEq B]

def updateAt (f : A → B → C) (a : A) (b : B) (c : C) : A → B → C :=
  update f a (update (f a) b c)

theorem updateAt_apply (f : A → B → C) (a : A) (b : B) (c : C) (a' : A) (b' : B) :
    updateAt f a b c a' b' = if a' = a ∧ b' = b then c else f a' b' := by
  by_cases ha : a' = a
  · subst ha
    simp [updateAt,update_apply]
  · simp [updateAt,ha]

variable {H X : Type} [DecidableEq H]

-- `leads` keeps which caller made each registered entry. No program reads it.
structure DriverWorld (H X : Type) where
  records : SubagentTaskKey → LifecycleRecord H X
  caches : Nat → SubagentTaskKey → Option (SubagentOutcome H X)
  flights : Nat → SubagentTaskKey → Option Nat
  results : Nat → Option (Except SubagentError (SubagentRunResult H X))
  fresh : Nat
  leads : Nat → SubagentTaskKey → Option Nat
  completions : String → Option Completions.CompletionRecord

namespace DriverWorld

variable (w : DriverWorld H X) (registry : Nat) (key : SubagentTaskKey)

def store (next : Option (LifecycleRecord H X)) : DriverWorld H X :=
  { w with records := update w.records key (next.getD (w.records key)) }

def cached (driver : Nat) (key : SubagentTaskKey) (outcome : SubagentOutcome H X) :
    DriverWorld H X :=
  { w with caches := updateAt w.caches driver key (some outcome) }

def register (entry leader : Option Nat) : DriverWorld H X :=
  { w with
    flights := updateAt w.flights registry key entry
    leads := updateAt w.leads registry key leader }

def claimed (i : Nat) : DriverWorld H X :=
  { w.register registry key (some w.fresh) (some i) with fresh := w.fresh+1 }

def retired (entry : Nat) : DriverWorld H X :=
  if w.flights registry key = some entry then w.register registry key none none else w

def delivered (record : Completions.CompletionRecord) :
    Completions.RecordOutcome × DriverWorld H X :=
  match w.completions record.taskId with
  | some existing => (Completions.classifyExisting existing record,w)
  | none => (.recorded none none,
      { w with completions := update w.completions record.taskId (some record) })

end DriverWorld

def Persisted {α : Type} (w : DriverWorld H X) (key : SubagentTaskKey) (change :
    α × Option (LifecycleRecord H X)) (x : Except SubagentError α) (w' : DriverWorld H X) : Prop :=
  (∃ e, x = .error e) ∧ w' = w ∨
    w' = w.store key change.2 ∧ (x = .ok change.1 ∨ ∃ e, x = .error e)

def Loaded {α : Type} (w : DriverWorld H X) (a : α) (x : Except SubagentError α)
    (w' : DriverWorld H X) : Prop :=
  w' = w ∧ ((∃ e, x = .error e) ∨ x = .ok a)

def DriverOutcome (registry : Nat → Nat) (i : Nat) :
    (op : DriverOp H X) → DriverWorld H X → DriverAns op → DriverWorld H X → Prop
  | .cached driver key, w, x, w' => x = w.caches driver key ∧ w' = w
  | .cache driver key outcome, w, _, w' => w' = w.cached driver key outcome
  | .loadTerminal key, w, x, w' => Loaded w (w.records key).loadTerminal x w'
  | .load key, w, x, w' => Loaded w (w.records key).load x w'
  | .loadPause key, w, x, w' => Loaded w (w.records key).loadPause x w'
  | .savePause pause, w, x, w' =>
    Persisted w pause.key ((w.records pause.key).savePause pause) x w'
  | .recordTerminal key outcome replaces, w, x, w' =>
    Persisted w key ((w.records key).recordTerminal outcome replaces) x w'
  | .claim driver key, w, x, w' =>
    match w.flights (registry driver) key with
    | some entry => x = (entry,false) ∧ w' = w
    | none => x = (w.fresh,true) ∧ w' = w.claimed (registry driver) key i
  | .wait entry, w, x, w' => w' = w ∧ (x = none ∨ x = w.results entry)
  | .complete entry result, w, _, w' =>
    w' = { w with results := update w.results entry (some result) }
  | .retire driver key entry, w, _, w' => w' = w.retired (registry driver) key entry
  | .deliver record, w, x, w' => (∃ e, x = .error e) ∧ w' = w ∨
      x = .ok (w.delivered record).1 ∧ w' = (w.delivered record).2
  | _, w, _, w' => w' = w

def drivers [Inhabited X] (registry : Nat → Nat) :
    Machine (RunCall H) (DriverOp H X) DriverAns (DriverWorld H X)
      (Except SubagentError (SubagentRunResult H X)) where
  code := fun call => (run call).run
  outcome := DriverOutcome registry
  env := Eq

abbrev DriverMoment (H X : Type) := Moment (RunCall H) (DriverOp H X) DriverAns
  (DriverWorld H X) (Except SubagentError (SubagentRunResult H X))

abbrev DriverConfig (H X : Type) := Config (RunCall H) (DriverOp H X) DriverAns
  (DriverWorld H X) (Except SubagentError (SubagentRunResult H X))

variable {w w' : DriverWorld H X} {i : Nat}

inductive Effect (registry : Nat → Nat) (i : Nat) (w : DriverWorld H X) :
    DriverOp H X → DriverWorld H X → Prop
  | same {op : DriverOp H X} {w' : DriverWorld H X} (records : w'.records = w.records)
      (caches : w'.caches = w.caches) (flights : w'.flights = w.flights)
      (leads : w'.leads = w.leads) : Effect registry i w op w'
  | cache {driver : Nat} {key : SubagentTaskKey} {outcome : SubagentOutcome H X} :
      Effect registry i w (.cache driver key outcome) (w.cached driver key outcome)
  | save {pause : PersistedSubagentPause H X} : Effect registry i w (.savePause pause)
      (w.store pause.key ((w.records pause.key).savePause pause).2)
  | close {key : SubagentTaskKey} {outcome : SubagentOutcome H X}
      {replaces : Option (SubagentResume H)} :
      Effect registry i w (.recordTerminal key outcome replaces)
        (w.store key ((w.records key).recordTerminal outcome replaces).2)
  | claim {driver : Nat} {key : SubagentTaskKey} (free : w.flights (registry driver) key = none) :
      Effect registry i w (.claim driver key) (w.claimed (registry driver) key i)
  | retire {driver : Nat} {key : SubagentTaskKey} {entry : Nat} :
      Effect registry i w (.retire driver key entry) (w.register (registry driver) key none none)

theorem effect_of_outcome {registry : Nat → Nat} {op} {x} (h : DriverOutcome registry i op w x w') :
    Effect registry i w op w' := by
  have same {op} : Effect registry i w op w := .same rfl rfl rfl rfl
  cases op with
  | savePause =>
    obtain ⟨-,rfl⟩ | ⟨rfl,-⟩ := h
    · exact same
    · exact .save
  | recordTerminal =>
    obtain ⟨-,rfl⟩ | ⟨rfl,-⟩ := h
    · exact same
    · exact .close
  | claim =>
    simp only [DriverOutcome] at h
    split at h
    · obtain ⟨-,rfl⟩ := h
      exact same
    next hf =>
      obtain ⟨-,rfl⟩ := h
      exact .claim hf
  | retire driver key entry =>
    have h : w' = w.retired (registry driver) key entry := h
    rw [DriverWorld.retired] at h
    split at h
    · exact h ▸ .retire
    · exact h ▸ same
  | cache => exact (show w' = _ from h) ▸ .cache
  | complete => exact (show w' = _ from h) ▸ .same rfl rfl rfl rfl
  | deliver =>
    obtain ⟨-,rfl⟩ | ⟨-,rfl⟩ := h
    · exact same
    rw [DriverWorld.delivered]
    split
    · exact same
    · exact .same rfl rfl rfl rfl
  | cached => exact h.2 ▸ same
  | loadTerminal | load | loadPause | wait => exact h.1 ▸ same
  | _ => exact (show w' = w from h) ▸ same

end

variable (registry : Nat → Nat) (executor : SubagentTaskKey → Nat → Attempted Unit Unit)

def answer (i : Nat) :
    (op : DriverOp Unit Unit) → DriverWorld Unit Unit → DriverAns op × DriverWorld Unit Unit
  | .fence, w | .cancelled _, w | .tokenCancelled, w | .mayRetry _, w => (false,w)
  | .cached driver key, w => (w.caches driver key,w)
  | .cache driver key outcome, w => ((),w.cached driver key outcome)
  | .loadTerminal key, w => (.ok (w.records key).loadTerminal,w)
  | .load key, w => (.ok (w.records key).load,w)
  | .loadPause key, w => (.ok (w.records key).loadPause,w)
  | .savePause pause, w =>
    let change := (w.records pause.key).savePause pause
    (.ok change.1,w.store pause.key change.2)
  | .recordTerminal key outcome replaces, w =>
    let change := (w.records key).recordTerminal outcome replaces
    (.ok change.1,w.store key change.2)
  | .claim driver key, w =>
    match w.flights (registry driver) key with
    | some entry => ((entry,false),w)
    | none => ((w.fresh,true),w.claimed (registry driver) key i)
  | .wait entry, w => (w.results entry,w)
  | .complete entry result, w =>
    ((),{ w with results := update w.results entry (some result) })
  | .retire driver key entry, w => ((),w.retired (registry driver) key entry)
  | .reserve _ _, w | .nextAttempt _, w => (.ok (),w)
  | .prepare key _, w => (.ok ⟨key.taskId,"agent",1,some .followup,none⟩,w)
  | .admitChild _, w => (.ok (some 1),w)
  | .execute key n, w => (executor key n,w)
  | .backoff _, w => (.slept,w)
  | .policies outcome, w => (outcome,w)
  | .deliver record, w => (.ok (w.delivered record).1,(w.delivered record).2)

def host : Driver (DriverOp Unit Unit) DriverAns (DriverWorld Unit Unit) where
  perform := fun i op w => some (answer registry executor i op w)

theorem host_fits : (host registry executor).Fits (drivers registry) where
  perform := by
    intro i op w x w' h
    have h : answer registry executor i op w = (x,w') := Option.some.inj h
    change DriverOutcome registry i op w x w'
    cases op with
    | claim =>
      simp only [answer] at h
      simp only [DriverOutcome]
      split at h <;> cases h <;> exact ⟨rfl,rfl⟩
    | savePause | recordTerminal =>
      cases h
      exact .inr ⟨rfl,.inl rfl⟩
    | deliver =>
      cases h
      exact .inr ⟨rfl,rfl⟩
    | cached => cases h; exact ⟨rfl,rfl⟩
    | loadTerminal | load | loadPause | wait => cases h; exact ⟨rfl,.inr rfl⟩
    | _ => cases h; rfl

def emptyWorld : DriverWorld Unit Unit :=
  ⟨fun _ => {},fun _ _ => none,fun _ _ => none,fun _ => none,0,fun _ _ => none,fun _ => none⟩

def succeeds (key : SubagentTaskKey) (_ : Nat) : Attempted Unit Unit :=
  .done (.ok ⟨key.taskId,"done",[],.completed,()⟩)

end SubagentDriver

end Orchestration
