import Mathlib.Logic.Relation
import TinyAgents.Interaction.Driver
import TinyAgents.Interaction.Serial
import TinyAgents.StorageKit.Repo

namespace StorageKit

open Interaction List Function

namespace Records

variable {G K T R : Type}

-- A write names what it is made for. The store never looks at it.
inductive RecordOp (G K T : Type) where
  | get (key : K)
  | put (tag : G) (key : K) (precondition : Precondition) (doc : T)

abbrev RecordAns : RecordOp G K T → Type
  | .get _ => Except StorageError (Option (Versioned T))
  | .put _ _ _ _ => Except StorageError Nat

abbrev Shelf (K T : Type) := K → Cell T

-- A write may be lost, or done and its answer lost; it is done only under its condition.
def RecordOutcome [DecidableEq K] :
    (op : RecordOp G K T) → Shelf K T → RecordAns op → Shelf K T → Prop
  | .get key, w, x, w' => w' = w ∧ ((∃ e, x = .error e) ∨ x = .ok (w key).current)
  | .put _ key precondition doc, w, x, w' =>
    ((∃ e, x = .error e) ∧ w' = w) ∨ (w key).Meets precondition ∧
      w' = update w key ((w key).write doc) ∧
        (x = .ok (w key).next ∨ ∃ e, e ≠ .conflict ∧ x = .error e)

abbrev RecordTask (G K T α : Type) := Fallible (RecordOp G K T) RecordAns StorageError α

def port (tag : G) (key : K) : Port (RecordOp G K T) RecordAns T where
  get := .perform (RecordOp.get key)
  put precondition doc := .perform (RecordOp.put tag key precondition doc)

def get (key : K) : RecordTask G K T (Option (Versioned T)) :=
  ExceptT.mk (.perform (RecordOp.get key))

def update (tag : G) (key : K) (attempts : Nat) (f : Option T →
    Except StorageError (Option T × R)) : RecordTask G K T (Option (T × Nat) × Option R) :=
  Repo.update (port tag key) attempts
    (fun _ found => Fallible.ofExcept ((f found).map fun (next,x) => (next,some x))) none

def silent (f : Option T → Except StorageError (Option T)) (found : Option T) :
    Except StorageError (Option T × Unit) :=
  (f found).map fun next => (next,())

theorem silent_eq_ok {f} {found d : Option T} {x : Unit} (h : silent f found = .ok (d,x)) :
    f found = .ok d := by
  rw [silent] at h
  cases hf : f found with
  | error =>
    rw [hf] at h
    exact nomatch h
  | ok =>
    rw [hf] at h
    cases h
    rfl

section

variable {W : Type} {L : Logic (RecordOp G K T) RecordAns W} {tag : G} {key : K} {attempts : Nat}
  {f : Option T → Except StorageError (Option T × R)}

structure PureRounds (L : Logic (RecordOp G K T) RecordAns W) (tag : G) (key : K)
    (f : Option T → Except StorageError (Option T × R)) (I : W → Prop)
    (Seen : Option (Versioned T) → W → Prop)
    (Q : Except StorageError (Option (T × Nat) × Option R) → W → Prop) : Prop where
  get : ∀ w, I w → Safe L (Ends Seen fun e => Q (.error e)) (.perform (RecordOp.get key)) w
  seen : ∀ found, Stable L (Seen found)
  fail : ∀ found w e, Seen found w → f (found.map Versioned.doc) = .error e → Q (.error e) w
  leave : ∀ found w x, Seen found w → f (found.map Versioned.doc) = .ok (none,x) →
    Q (.ok (none,some x)) w
  put : ∀ found doc x w, Seen found w → f (found.map Versioned.doc) = .ok (some doc,x) →
    Safe L (Ends (fun version => Q (.ok (some (doc,version),some x)))
      fun e v => (e = .conflict → I v) ∧ Q (.error e) v)
      (.perform (RecordOp.put tag key (Cell.condition found) doc)) w
  ends : ∀ r, Stable L (Q r)

theorem safe_pureRounds {I : W → Prop} {Seen} {Q} (h : PureRounds L tag key f I Seen Q) {w : W}
    (hw : I w) : Safe L Q (update tag key attempts f).run w := by
  have hrounds : Repo.Rounds L (port tag key)
      (fun (_ : Option R) found => Fallible.ofExcept ((f found).map fun (next,x) => (next,some x)))
      (fun _ => I) (fun _ => Seen)
      (fun found d v => Seen found v ∧ ∃ x, d.2 = some x ∧
        f (found.map Versioned.doc) = .ok (d.1,x))
      (fun r => Q (.ok r)) (fun e => Q (.error e)) := {
    get := fun _ => h.get
    call := by
      intro s found v hv
      cases hf : f (found.map Versioned.doc) with
      | error e => exact fun v' hr => h.ends _ v v' hr (h.fail found v e hv hf)
      | ok d => exact fun v' hr => ⟨h.seen found v v' hr hv,d.2,rfl,rfl⟩
    leave := by
      rintro found _ v ⟨hv,x,rfl,hf⟩
      exact h.leave found v x hv hf
    put := by
      rintro found next _ v ⟨hv,x,rfl,hf⟩
      exact h.put found next x v hv hf
    ends := by
      rintro (e | r) v v' hv hr
      · exact h.ends _ v v' hr hv
      · exact h.ends _ v v' hr hv }
  refine safe_mono ?_ (Repo.safe_update hrounds hw)
  rintro (e | r) v hv
  all_goals exact hv

theorem asks_update {P} (hget : P (.get key))
    (hput : ∀ precondition doc, P (.put tag key precondition doc)) :
    Asks P (update tag key attempts f).run := by
  refine Repo.asks_update ?_ ?_ ?_
  · exact ⟨hget,fun _ => trivial⟩
  · exact fun _ _ => ⟨hput _ _,fun _ => trivial⟩
  · exact fun _ _ => trivial

end

section

variable [DecidableEq K] {tag : G} {key : K} {attempts : Nat}
  {f : Option T → Except StorageError (Option T × R)} {step : G → K → Option T → T → Prop}

def Turns (step : Option T → T → Prop) : Option T → Option T → Prop :=
  Relation.ReflTransGen fun d d' => ∃ doc, d' = some doc ∧ step d doc

def anyone (step : G → K → Option T → T → Prop) (key : K) (d : Option T) (doc : T) : Prop :=
  ∃ tag, step tag key d doc

structure Rely (step : G → K → Option T → T → Prop) (w w' : Shelf K T) : Prop where
  later : ∀ key, Cell.Later (w key) (w' key)
  turns : ∀ key, Turns (anyone step key) (w key).doc (w' key).doc

variable (step) in
def sharing : Logic (RecordOp G K T) RecordAns (Shelf K T) where
  outcome := RecordOutcome
  rely := Rely step
  guar op w := match op with
    | .get _ => True
    | .put tag key precondition doc => (w key).Meets precondition → step tag key (w key).doc doc
  rely_refl := fun _ => ⟨fun _ => Cell.later_refl,fun _ => .refl⟩
  rely_trans := fun _ _ _ h k =>
    ⟨fun key => (h.later key).trans (k.later key),fun key => (h.turns key).trans (k.turns key)⟩

theorem rely_write {w : Shelf K T} {doc : T} (h : step tag key (w key).doc doc) :
    Rely step w (Function.update w key ((w key).write doc)) := by
  have hk k : Function.update w key ((w key).write doc) k =
      if k = key then (w key).write doc else w k := Function.update_apply w key _ k
  refine ⟨fun k => ?_,fun k => ?_⟩
  · rw [hk]
    split
    next he => rw [he]; exact Cell.later_write
    · exact Cell.later_refl
  · rw [hk]
    split
    next he => rw [he]; exact .single ⟨doc,rfl,tag,h⟩
    · exact .refl

theorem rely_of_outcome {op} {w w' : Shelf K T} {x} (hg : (sharing step).guar op w)
    (h : RecordOutcome op w x w') : Rely step w w' := by
  cases op with
  | get =>
    obtain ⟨rfl,-⟩ := h
    exact (sharing step).rely_refl _
  | put =>
    obtain ⟨-,rfl⟩ | ⟨hm,rfl,-⟩ := h
    · exact (sharing step).rely_refl _
    · exact rely_write (hg hm)

def Updated (step : G → K → Option T → T → Prop) (key : K) (f : Option T →
    Except StorageError (Option T × R)) (r : Option (T × Nat) × Option R) (w : Shelf K T) : Prop :=
  ∃ found x, r.2 = some x ∧ f found = .ok (r.1.map Prod.fst,x) ∧
    Turns (anyone step key) ((r.1.map Prod.fst).or found) (w key).doc

theorem Updated.stable (r : Option (T × Nat) × Option R) :
    Stable (sharing step) (Updated step key f r) :=
  fun _ _ hr ⟨found,x,hx,hf,ht⟩ => ⟨found,x,hx,hf,ht.trans (hr.turns key)⟩

theorem safe_update (hf : ∀ found doc x, f found = .ok (some doc,x) → step tag key found doc)
    (w : Shelf K T) :
    Ensures (sharing step) (Updated step key f) (fun _ _ => True)
      (update tag key attempts f) w := by
  have hends : ∀ r : Except StorageError _, Stable (sharing step)
      (Ends (Updated step key f) (fun _ _ => True) r) := by
    rintro (e | r)
    · exact fun _ _ _ _ => trivial
    · exact Updated.stable r
  have rounds : PureRounds (sharing step) tag key f (fun _ => True)
      (fun found v => ∃ u, Rely step u v ∧ (u key).current = found)
      (Ends (Updated step key f) fun _ _ => True) := {
    get := by
      intro v _ _ _
      refine ⟨trivial,?_⟩
      rintro x v'' ⟨rfl,⟨e,rfl⟩ | rfl⟩
      · exact fun _ _ => trivial
      · exact fun u hu => ⟨v'',hu,rfl⟩
    seen := fun found v v' hr ⟨u,hu,he⟩ => ⟨u,(sharing step).rely_trans _ _ _ hu hr,he⟩
    fail := fun _ _ _ _ _ => trivial
    leave := by
      rintro _ v x ⟨u,hu,rfl⟩ hn
      exact ⟨(u key).doc,x,rfl,hn,hu.turns key⟩
    put := by
      rintro _ doc x v ⟨u,hu,rfl⟩ hn _ hr
      have hu := (sharing step).rely_trans _ _ _ hu hr
      have hstep := hf _ doc x hn
      refine ⟨fun hm => ?_,?_⟩
      · rw [Cell.doc_of_meets (hu.later key) hm]
        exact hstep
      rintro _ v'' (⟨⟨e,rfl⟩,rfl⟩ | ⟨hm,rfl,rfl | ⟨e,-,rfl⟩⟩)
      · exact fun _ _ => ⟨fun _ => trivial,trivial⟩
      · refine safe_ok (Updated.stable _) ⟨(u key).doc,x,rfl,hn,?_⟩
        simp [Turns,Relation.ReflTransGen.refl]
      · exact fun _ _ => ⟨fun _ => trivial,trivial⟩
    ends := hends }
  exact safe_pureRounds rounds trivial

theorem writes_of_outcome {op} {w w' : Shelf K T} {x} (hg : (sharing step).guar op w)
    (h : RecordOutcome op w x w') :
    w' = w ∨ ∃ tag key precondition doc, op = .put tag key precondition doc ∧
      step tag key (w key).doc doc ∧ w' = Function.update w key ((w key).write doc) := by
  cases op with
  | get => exact .inl h.1
  | put tag key precondition doc =>
    obtain ⟨-,rfl⟩ | ⟨hm,rfl,-⟩ := h
    · exact .inl rfl
    · exact .inr ⟨tag,key,precondition,doc,rfl,hg hm,rfl⟩

theorem sharing_contract {C A : Type} {M : Machine C (RecordOp G K T) RecordAns (Shelf K T) A}
    {post : C → A → Shelf K T → Prop}
    (houtcome : ∀ i op w x w', M.outcome i op w x w' → RecordOutcome op w x w')
    (henv : ∀ w w', M.env w w' → w' = w)
    (hcode : ∀ call w, Safe (sharing step) (post call) (M.code call) w) :
    M.Contract (fun _ => True) (fun _ => True) (fun _ => sharing step) (fun _ => post) where
  outcome := fun i op w x w' _ ho => houtcome i op w x w' ho
  opens := fun _ call w _ _ => ⟨trivial,hcode call w⟩
  keeps := fun _ _ _ _ _ _ _ _ => trivial
  frame := fun _ j op w x w' _ _ _ _ hg ho => rely_of_outcome hg (houtcome j op w x w' ho)
  env_keeps := fun _ _ _ _ => trivial
  env_frame := fun _ w w' _ he => henv w w' he ▸ (sharing step).rely_refl w

end

section

variable [DecidableEq K] {tag : G} {key : K} {attempts : Nat}
  {f : Option T → Except StorageError (Option T × R)}
  {able : (op : RecordOp G K T) → RecordAns op → Prop}

def committed (key : K) : (op : RecordOp G K T) → RecordAns op → Option T
  | .put _ k _ doc, .ok _ => if k = key then some doc else none
  | _, _ => none

theorem traced_update {A : Type} {g : T → A} :
    Safe (tracing able (gather fun op x => (committed key op x).map g))
      (fun r l => l = (r.toOption.bind fun stored => stored.1.map fun d => g d.1).toList)
      (update tag key attempts f).run [] := by
  have rounds : PureRounds (tracing able (gather fun op x => (committed key op x).map g)) tag key f
      (fun l => l = []) (fun _ l => l = [])
      (fun r l => l = (r.toOption.bind fun stored => stored.1.map fun d => g d.1).toList) := {
    get := by
      rintro _ rfl _ rfl
      refine ⟨trivial,?_⟩
      rintro (e | x) _ ⟨-,rfl⟩ _ rfl
      all_goals rfl
    seen := by
      rintro _ _ _ rfl h
      exact h
    fail := fun _ _ _ hl _ => hl
    leave := fun _ _ _ hl _ => hl
    put := by
      rintro _ _ _ _ rfl - _ rfl
      refine ⟨trivial,?_⟩
      rintro (e | _) _ ⟨-,rfl⟩ _ rfl
      · exact ⟨fun _ => rfl,rfl⟩
      · simp [Ends,gather,committed,Except.toOption]
    ends := by
      rintro _ _ _ rfl h
      exact h }
  exact safe_pureRounds rounds rfl

end

section

variable {tag : G} {key : K} {attempts : Nat} {f : Option T → Except StorageError (Option T × R)}

abbrev RecordExchange (G K T : Type) := Exchange (RecordOp G K T) RecordAns (Shelf K T)

def reading : RecordExchange G K T → Option (Option T)
  | ⟨_,.get _,.ok found,_⟩ => some (found.map Versioned.doc)
  | _ => none

def Idle (es : List (RecordExchange G K T)) : Prop := ∀ e ∈ es, e.after = e.before

def Refuses (f : Option T → Except StorageError (Option T × R)) {α : Type}
    (r : Except StorageError α) (es : List (RecordExchange G K T)) : Prop :=
  ∀ e ∈ es, ∀ found ∈ reading e, ∀ err, f found = .error err → r = .error err ∧ Idle es

def Undone (f : Option T → Except StorageError (Option T × R)) (es : List (RecordExchange G K T)) :
    Prop :=
  Idle es ∧ ∀ e ∈ es, ∀ found ∈ reading e, ∃ d, f found = .ok d

variable {es : List (RecordExchange G K T)}

theorem Undone.refuses {α : Type} {r : Except StorageError α}
    (h : ∀ e ∈ es, ∀ found ∈ reading e, ∃ d, f found = .ok d) : Refuses f r es := by
  intro e he found hfound _ herr
  obtain ⟨d,hd⟩ := h e he found hfound
  rw [hd] at herr
  exact nomatch herr

theorem Undone.cons {e} (h : Undone f es) (hidle : e.after = e.before)
    (hread : ∀ found ∈ reading e, ∃ d, f found = .ok d) : Undone f (e :: es) :=
  ⟨forall_mem_cons.2 ⟨hidle,h.1⟩,forall_mem_cons.2 ⟨hread,h.2⟩⟩

theorem recorded_update [DecidableEq K] :
    Safe (recording fun e => RecordOutcome e.op e.before e.answer e.after) (Refuses f)
      (update tag key attempts f).run [] := by
  have rounds : PureRounds (recording fun e => RecordOutcome e.op e.before e.answer e.after)
      tag key f (Undone f) (fun found es => ∃ e rest, es = e :: rest ∧ Undone f rest ∧
        e.after = e.before ∧ reading e = some (found.map Versioned.doc)) (Refuses f) := {
    get := by
      intro es hes
      refine recording_ask fun w x w' ho => ?_
      have ho : RecordOutcome (RecordOp.get key) w x w' := ho
      obtain ⟨rfl,⟨e,rfl⟩ | rfl⟩ := ho
      · exact recording_ret (Undone.refuses (forall_mem_cons.2 ⟨nofun,hes.2⟩))
      · exact recording_ret ⟨_,es,rfl,hes,rfl,rfl⟩
    seen := by
      rintro _ _ _ rfl h
      exact h
    fail := by
      rintro _ _ _ ⟨e,rest,rfl,hrest,he,hread⟩ herr
      have hidle : Idle (e :: rest) := forall_mem_cons.2 ⟨he,hrest.1⟩
      refine forall_mem_cons.2 ⟨?_,?_⟩
      · intro _ hfound' _ herr'
        rw [hread] at hfound'
        cases hfound'
        rw [herr] at herr'
        cases herr'
        exact ⟨rfl,hidle⟩
      · intro e' he' found' hfound' _ herr'
        obtain ⟨d,hd⟩ := hrest.2 e' he' found' hfound'
        rw [hd] at herr'
        exact nomatch herr'
    leave := by
      rintro _ _ x ⟨e,_,rfl,hrest,he,hread⟩ hn
      refine Undone.refuses (hrest.cons he ?_).2
      rw [hread]
      rintro _ ⟨⟩
      exact ⟨(none,x),hn⟩
    put := by
      rintro found doc x _ ⟨e,rest,rfl,hrest,he,hread⟩ hn
      have hes : Undone f (e :: rest) := by
        refine hrest.cons he ?_
        rw [hread]
        rintro _ ⟨⟩
        exact ⟨(some doc,x),hn⟩
      refine recording_ask fun w x w' ho => recording_ret ?_
      have ho : RecordOutcome (.put tag key (Cell.condition found) doc) w x w' := ho
      obtain err | version := x
      · refine ⟨?_,Undone.refuses (forall_mem_cons.2 ⟨nofun,hes.2⟩)⟩
        rintro rfl
        obtain ⟨-,rfl⟩ | ⟨-,-,hx | ⟨e',he',hx⟩⟩ := ho
        · exact hes.cons rfl nofun
        · exact nomatch hx
        · cases hx
          exact (he' rfl).elim
      · exact Undone.refuses (forall_mem_cons.2 ⟨nofun,hes.2⟩)
    ends := by
      rintro _ _ _ rfl h
      exact h }
  exact safe_pureRounds rounds ⟨nofun,nofun⟩

end

variable [DecidableEq K] {C : Type}

def perform : (op : RecordOp G K T) → Shelf K T → RecordAns op × Shelf K T
  | .get key, w => (.ok (w key).current,w)
  | .put _ key precondition doc, w =>
    if (w key).Meets precondition then
      (.ok (w key).next,Function.update w key ((w key).write doc))
    else (.error .conflict,w)

def refuse : (op : RecordOp G K T) → RecordAns op
  | .get _ | .put _ _ _ _ => .error .unavailable

def driver : Driver (RecordOp G K T) RecordAns (Shelf K T) where
  perform := fun _ op w => some (perform op w)
  refuse := fun op => some (refuse op)

theorem driver_fits {M : Machine C (RecordOp G K T) RecordAns (Shelf K T) R}
    (houtcome : ∀ i op w x w', RecordOutcome op w x w' → M.outcome i op w x w')
    (henv : ∀ w, M.env w w) (hbegins : ∀ i call w, M.begins i call w) : driver.Fits M where
  perform := fun i op w x w' h => by
    refine houtcome i op w x w' ?_
    cases op with
    | get =>
      cases h
      exact ⟨rfl,.inr rfl⟩
    | put =>
      simp only [driver,perform] at h
      split at h
      next hm =>
        cases h
        exact .inr ⟨hm,rfl,.inl rfl⟩
      · cases h
        exact .inl ⟨⟨_,rfl⟩,rfl⟩
  refuse := fun i op w x h => by
    refine houtcome i op w x w ?_
    cases op with
    | get =>
      cases h
      exact ⟨rfl,.inl ⟨_,rfl⟩⟩
    | put =>
      cases h
      exact .inl ⟨⟨_,rfl⟩,rfl⟩
  tick := fun _ => henv
  begins := hbegins

end Records

end StorageKit
