import TinyAgents.Interaction.Driver
import TinyAgents.Session.SettleReports

namespace Session

open Interaction StorageKit List Function Cell

namespace TurnStates

variable {B : Type}

def TurnCall.settles : TurnCall → Option TurnLifecycle
  | .settleTurn _ _ lifecycle _ => some lifecycle
  | .markAllInterrupted _ => some .interrupted
  | _ => none

section

variable (support : Support B)

structure Decides (call : TurnCall) (old : Option B) (body : B) : Prop where
  settles : ∀ lifecycle ∈ call.settles, live support old = true ∧ Records support lifecycle body
  puts : ∀ state, call = .putUnlessCompleted state → support.encode state = .ok body

def Guar : TurnOp B → TurnWorld B → Prop
  | .put (.put _) _ _ _, _ => True
  | .put call id precondition body, w => ∃ p, precondition = some p ∧
      ((w id).Meets p → Decides support call (w id).doc body)
  | _, _ => True

def logic : Logic (TurnOp B) (TurnAns B) (TurnWorld B) where
  outcome := TurnOutcome
  rely := fun w w' => ∀ id, Cell.Later (w id) (w' id)
  guar := Guar support
  rely_refl := fun _ _ => later_refl
  rely_trans := fun _ _ _ h k id => (h id).trans (k id)

abbrev Guarded {α : Type} (p : TurnTask B α) : Prop :=
  ∀ w, Ensures (logic support) (fun _ _ => True) (fun _ _ => True) p w

variable {support} {attempts : Nat} {α : Type} {p : TurnTask B α}

theorem guarded_bind {β : Type} {f : α → TurnTask B β} (h : Guarded support p)
    (hf : ∀ a, Guarded support (f a)) : Guarded support (p >>= f) :=
  fun w => safe_try (h w) fun a v _ => hf a v

theorem guarded_pure {a : α} : Guarded support (pure a) :=
  fun _ _ _ => trivial

theorem guarded_of_asks (h : Asks (fun op => ∀ w, Guar support op w) p.run) :
    Guarded support p := by
  intro w
  refine safe_mono ?_ (safe_of_asks (fun _ _ _ _ => trivial)
    (fun op w hop _ => ⟨hop w,fun _ _ _ => trivial⟩) h trivial)
  rintro (e | a) v - <;> trivial

theorem guarded_quiet (h : Asks Quiet p.run) : Guarded support p := by
  refine guarded_of_asks (asks_mono (fun op hop w => ?_) h)
  cases op with
  | put | get => exact hop.elim
  | _ => trivial

variable {call : TurnCall}

theorem guarded_update {N : Type} {id : String}
    {g : N → Option B → Except StorageError (Option B × N)} (hput : ∀ state, call ≠ .put state)
    (hg : ∀ s old body s', g s old = .ok (some body,s') → Decides support call old body) {s : N} :
    Guarded support
      (Repo.update (port call id) attempts (fun s old => Fallible.ofExcept (g s old)) s) := by
  suffices rounds : Repo.Rounds (logic support) (port call id)
      (fun s old => Fallible.ofExcept (g s old)) (fun _ _ => True)
      (fun _ found w => ∃ c : Cell B, c.current = found ∧ Cell.Later c (w id))
      (fun found next w => ∃ c : Cell B, c.current = found ∧ Cell.Later c (w id) ∧
        ∀ body ∈ next.1, Decides support call c.doc body) (fun _ _ => True) (fun _ _ => True) by
    exact fun w => Repo.safe_update rounds trivial
  constructor
  case get =>
    rintro s w - v _
    refine ⟨trivial,fun x u ho => ?_⟩
    obtain ⟨rfl,⟨e,rfl⟩ | rfl⟩ := ho
    · exact fun _ _ => trivial
    · exact fun _ hu => ⟨u id,rfl,hu id⟩
  case call =>
    rintro s _ w ⟨c,rfl,hlater⟩
    change Safe _ _ (.ret (g s c.doc)) w
    cases hx : g s c.doc with
    | error => exact fun _ _ => trivial
    | ok next =>
      obtain ⟨next,s'⟩ := next
      refine fun v hv => ⟨c,rfl,hlater.trans (hv id),?_⟩
      rintro body ⟨⟩
      exact hg s c.doc body s' hx
  case leave => exact fun _ _ _ _ => trivial
  case put =>
    rintro _ body s w ⟨c,rfl,hlater,hd⟩ v hv
    have hguar : Guar support (.put call id (some (condition c.current)) body) v := by
      have hcond : ∃ p, some (condition c.current) = some p ∧
          ((v id).Meets p → Decides support call (v id).doc body) := by
        refine ⟨_,rfl,fun hm => ?_⟩
        rw [doc_of_meets (hlater.trans (hv id)) hm]
        exact hd body rfl
      cases call with
      | put state => exact (hput state rfl).elim
      | _ => exact hcond
    refine ⟨hguar,fun x u _ => ?_⟩
    cases x with
    | ok => exact fun _ _ => trivial
    | error => exact fun _ _ => ⟨fun _ => trivial,trivial⟩
  case ends =>
    rintro (e | _) w v - -
    all_goals trivial

theorem guarded_ofExcept {β : Type} {x : Except StorageError α} {f : α → TurnTask B β}
    (hf : ∀ a, Guarded support (f a)) : Guarded support (Fallible.ofExcept x >>= f) :=
  fun w => safe_ofExcept (fun a _ => hf a w) fun _ _ _ _ => trivial

theorem guarded_settle {threadId requestId : String} {change : TurnState → Option TurnState}
    {lifecycle : TurnLifecycle} (hc : Settler change lifecycle)
    (hcall : call.settles = some lifecycle) :
    Guarded support (update support attempts call threadId requestId change) := by
  refine guarded_bind (guarded_quiet asks_declared) fun _ => guarded_ofExcept fun _ => ?_
  refine guarded_bind (guarded_update ?_ (fun s _ _ _ h => ?_)) fun _ => guarded_pure
  · rintro _ rfl
    cases hcall
  rcases changed_cases hc h with ⟨hn,-⟩ | ⟨_,hb,-,hl,hr⟩
  · cases hn
  cases hb
  constructor
  · rintro l hl'
    rw [hcall] at hl'
    cases hl'
    exact ⟨hl,hr⟩
  · rintro _ rfl
    cases hcall

theorem unlessCompleted_encode {state : TurnState} {old : Option B} {body : B} {declined : Bool}
    (h : unlessCompleted support state old = .ok (some body,declined)) :
    support.encode state = .ok body := by
  have hmap (h : (support.encode state).map (fun body => (some body,false)) =
      .ok (some body,declined)) : support.encode state = .ok body := by
    cases he : support.encode state with
    | error =>
      rw [he] at h
      cases h
    | ok =>
      rw [he] at h
      cases h
      rfl
  cases old with
  | none => exact hmap h
  | some =>
    simp only [unlessCompleted] at h
    split at h
    · cases h
    · split at h
      · cases h
      · exact hmap h

theorem guarded_task : Guarded support (task support attempts call) := by
  have prune threadId : Guarded support (pruneCompleted support threadId) :=
    guarded_quiet asks_pruneCompleted
  cases call with
  | put state =>
    refine guarded_bind (guarded_bind ?_ fun _ => ?_) fun _ => guarded_pure
    · refine guarded_bind (guarded_quiet asks_declared) fun _ => guarded_ofExcept fun id => ?_
      refine guarded_ofExcept fun body => guarded_of_asks ?_
      exact ⟨fun _ => trivial,fun x => by cases x <;> trivial⟩
    split
    · exact prune state.threadId
    · exact guarded_pure
  | putUnlessCompleted state =>
    refine guarded_bind ?_ fun _ => guarded_pure
    refine guarded_bind (guarded_quiet asks_declared) fun _ => guarded_ofExcept fun id => ?_
    refine guarded_bind (guarded_update (by simp) (fun s _ body _ h => ?_)) fun stored => ?_
    · refine ⟨by simp [TurnCall.settles],?_⟩
      rintro _ ⟨⟩
      exact unlessCompleted_encode h
    obtain ⟨_,_⟩ := stored
    change Guarded support (if _ then _ else _)
    split
    · exact guarded_pure
    change Guarded support (if _ then _ else _)
    split
    · exact guarded_bind (prune state.threadId) fun _ => guarded_pure
    · exact guarded_pure
  | settleTurn threadId =>
    refine guarded_bind ?_ fun _ => guarded_pure
    refine guarded_bind (guarded_settle settler_settled rfl) fun _ => ?_
    change Guarded support (if _ then _ else _)
    split
    · exact guarded_bind (prune threadId) fun _ => guarded_pure
    · exact guarded_pure
  | markAllInterrupted =>
    refine guarded_bind (guarded_bind (guarded_quiet asks_query) fun turns => ?_)
      fun _ => guarded_pure
    generalize 0 = count
    induction turns generalizing count with
    | nil => exact guarded_pure
    | cons _ _ ih =>
      rw [markListed]
      split
      · exact ih count
      · exact guarded_bind (guarded_settle settler_interrupted rfl) fun _ => ih _

end

section

variable {support : Support B} {attempts : Nat} {ms : List (TurnMoment B)} {m : TurnMoment B}
  {w : TurnWorld B} {d : Config TurnCall (TurnOp B) (TurnAns B) (TurnWorld B) TurnResult}
  {id : String}

theorem outcome_later {op : TurnOp B} {w'} {x} (h : TurnOutcome op w x w') (id : String) :
    Cell.Later (w id) (w' id) := by
  have keep id' {c} (hc : Cell.Later (w id') c) :
      Cell.Later (w id) (Function.update w id' c id) := by
    by_cases hid : id = id'
    · subst hid
      rwa [update_self]
    · rw [update_of_ne hid]
      exact later_refl
  cases op with
  | declare =>
    cases h
    exact later_refl
  | get | query =>
    obtain ⟨rfl,-⟩ := h
    exact later_refl
  | put _ id' =>
    obtain ⟨-,rfl⟩ | ⟨-,rfl,-⟩ := h
    · exact later_refl
    · exact keep id' later_write
  | delete id' =>
    obtain ⟨-,rfl⟩ | ⟨-,rfl,-⟩ := h
    · exact later_refl
    · exact keep id' ⟨Nat.le_refl _,by rintro x ⟨⟩⟩

theorem follows (i : Nat) :
    (machine support attempts).Follows i (logic support) (fun _ _ _ => True) where
  outcome := fun _ _ _ _ h => h
  opens := fun _ w _ => by
    refine safe_bind (fun r v _ => ?_) (guarded_task w)
    exact fun _ _ => trivial
  others := fun _ _ _ _ _ h => outcome_later h
  env := fun w _ h _ => by
    cases h
    exact later_refl

def Writes (m : TurnMoment B) (call : TurnCall) (id : String) (body : B) : Prop :=
  (∃ precondition, m.op = some (.put call id precondition body)) ∧
    m.after = Function.update m.before id ((m.before id).write body)

def Settles (m : TurnMoment B) (id : String) : Prop :=
  ∃ call body, call.settles.isSome = true ∧ Writes m call id body

def Puts (m : TurnMoment B) (id : String) : Prop :=
  ∃ state body, Writes m (.put state) id body

def Orderly (support : Support B) (m : TurnMoment B) : Prop :=
  ∀ call id body, Writes m call id body →
    (∀ lifecycle ∈ call.settles, lifecycle.terminal = true) ∧
      ∀ state, call = .putUnlessCompleted state →
        isTerminal state = true ∨ live support (m.before id).doc = true

theorem not_live_of_records {lifecycle} {body : B} (h : Records support lifecycle body)
    (ht : lifecycle.terminal) : live support (some body) = false := by
  obtain ⟨_,he,rfl⟩ := h
  simp only [live]
  split
  next hd => simp [isTerminal,support.lifecycle_decode _ _ _ he hd,ht]
  · rfl

section

variable (h : (machine support attempts).Run (.idle w) ms d)

include h

theorem run_decides (hm : m ∈ ms) {call : TurnCall} {body : B} (hw : Writes m call id body)
    (hput : ∀ state, call ≠ .put state) : Decides support call (m.before id).doc body := by
  obtain ⟨⟨precondition,hop⟩,hafter⟩ := hw
  obtain ⟨i,c,x,he⟩ := Moment.did_of_op hop
  have hf := h.follow (follows i) (by simp [Config.idle]) m hm
  simp only [Machine.Followed,he] at hf
  have hguar : ∃ p, precondition = some p ∧
      ((m.before id).Meets p → Decides support call (m.before id).doc body) := by
    cases call with
    | put state => exact (hput state rfl).elim
    | _ => exact hf trivial
  obtain ⟨p,rfl,hd⟩ := hguar
  obtain ⟨-,hsame⟩ | ⟨hmeets,-,-⟩ := h.outcome m hm i c _ x he
  · rw [hsame] at hafter
    have hnext := congrArg Cell.next (congrFun hafter id)
    simp [Cell.write] at hnext
  · exact hd (hmeets p rfl)

theorem run_cases (hm : m ∈ ms) :
    m.after = m.before ∨ (∃ call id body, Writes m call id body) ∨
    ∃ id, m.after = Function.update m.before id (m.before id).delete := by
  refine (h.inv trivial (P := fun m => m.after = m.before ∨
    (∃ call id body, Writes m call id body) ∨
      ∃ id, m.after = Function.update m.before id (m.before id).delete)
    fun c m d _ hs => ⟨trivial,?_⟩).2 m hm
  cases hs with
  | @did i call op next x w ht ho =>
    cases op with
    | declare => exact .inl ho
    | get | query => exact .inl ho.1
    | put call id precondition body =>
      obtain ⟨-,rfl⟩ | ⟨-,rfl,-⟩ := ho
      · exact .inl rfl
      · exact .inr (.inl ⟨call,id,body,⟨precondition,rfl⟩,rfl⟩)
    | delete id =>
      obtain ⟨-,rfl⟩ | ⟨-,rfl,-⟩ := ho
      · exact .inl rfl
      · exact .inr (.inr ⟨id,rfl⟩)
  | start | finish | crash => exact .inl rfl
  | env he => exact .inl he

theorem settles_ends (hm : m ∈ ms) (ho : Orderly support m) (hs : Settles m id) :
    live support (m.before id).doc ∧ live support (m.after id).doc = false := by
  obtain ⟨call,body,hc,hw⟩ := hs
  obtain ⟨lifecycle,hl⟩ := Option.isSome_iff_exists.1 hc
  have hd := run_decides h hm hw (by rintro state rfl; cases hl)
  obtain ⟨hlive,hr⟩ := hd.settles lifecycle hl
  refine ⟨hlive,?_⟩
  rw [hw.2,update_self,doc_write]
  exact not_live_of_records hr ((ho call id body hw).1 lifecycle hl)

theorem run_over (hm : m ∈ ms) (ho : Orderly support m) (hp : ¬ Puts m id)
    (hl : live support (m.before id).doc = false) : live support (m.after id).doc = false := by
  rcases run_cases h hm with hs | ⟨call,id',body,hw⟩ | ⟨id',hdel⟩
  · rwa [hs]
  · by_cases hid : id = id'
    · subst hid
      rw [hw.2,update_self,doc_write]
      obtain ⟨hterm,hfresh⟩ := ho call id body hw
      have hne : ∀ state, call ≠ .put state := by
        rintro state rfl
        exact hp ⟨state,body,hw⟩
      have hd := run_decides h hm hw hne
      cases call with
      | put state => exact (hne state rfl).elim
      | putUnlessCompleted state =>
        rcases hfresh state rfl with ht | hlive
        · exact not_live_of_records ⟨state,hd.puts state rfl,rfl⟩ ht
        · rw [hl] at hlive
          cases hlive
      | settleTurn _ _ lifecycle =>
        exact not_live_of_records (hd.settles lifecycle rfl).2 (hterm lifecycle rfl)
      | markAllInterrupted => exact not_live_of_records (hd.settles _ rfl).2 rfl
    · rw [hw.2,update_of_ne hid]
      exact hl
  · rw [hdel]
    by_cases hid : id = id'
    · subst hid
      rw [update_self]
      rfl
    · rw [update_of_ne hid]
      exact hl

theorem put_between (ho : ∀ m ∈ ms, Orderly support m) {a b c} {n} (hms : ms = a++m :: (b++n :: c))
    (hm : Settles m id) (hn : Settles n id) : ∃ k ∈ b, Puts k id := by
  by_contra hnone
  have hin {k} (hk : k ∈ m :: (b++n :: c)) : k ∈ ms := by
    rw [hms]
    exact mem_append_right a hk
  have hend := settles_ends h (hin mem_cons_self) (ho m (hin mem_cons_self)) hm
  have hinn : n ∈ ms := hin (by simp)
  have hrun := h
  rw [hms] at hrun
  obtain ⟨e,_,-,hs,hrest⟩ := hrun.at
  obtain ⟨f,_,hb,hsn,-⟩ := hrest.at
  have hover : live support (f.world id).doc = false := by
    refine (hb.before (P := fun w => live support (w id).doc = false) ?_ fun k hk hl => ?_).1
    · rw [← hs.after_eq]
      exact hend.2
    · have hk' : k ∈ ms := hin (by simp [hk])
      exact run_over h hk' (ho k hk') (fun hp => hnone ⟨k,hk,hp⟩) hl
  have hlive := (settles_ends h hinn (ho n hinn) hn).1
  rw [hsn.before_eq,hover] at hlive
  cases hlive

end

def WroteTurn (support : Support B) (es : List (TurnExchange B)) (threadId requestId : String)
    (lifecycle : TurnLifecycle) : Prop :=
  ∃ id body, support.id threadId requestId = .ok id ∧ (id,body) ∈ (ledger support es).wrote ∧
    Records support lifecycle body

structure Settlement (support : Support B) (ms : List (TurnMoment B)) : Prop where
  settle : ∀ a m b, ms = a++m :: b → ∀ i threadId requestId lifecycle now settled,
    m.event = .finish i (.settleTurn threadId requestId lifecycle now)
      (.ok (.settleTurn settled)) →
    ((settled = true ↔ WroteTurn support (own i a) threadId requestId lifecycle) ↔
      (ledger support (own i a)).stale = 0)
  mark : ∀ a m b, ms = a++m :: b → ∀ i now count,
    m.event = .finish i (.markAllInterrupted now) (.ok (.markAllInterrupted count)) →
    (count = (ledger support (own i a)).wrote.length ↔ (ledger support (own i a)).stale = 0) ∧
      (∀ x ∈ (ledger support (own i a)).wrote, Records support .interrupted x.2) ∧
      ∃ turns, Listed support (own i a) turns ∧
        ((ledger support (own i a)).wrote.map Prod.fst).Sublist (listedIds support turns)
  once : (∀ m ∈ ms, Orderly support m) → ∀ a m b n c, ms = a++m :: (b++n :: c) →
    ∀ id, Settles m id → Settles n id → ∃ k ∈ b, Puts k id

theorem settled_iff {es} {threadId requestId : String} {lifecycle} {settled : Bool}
    (h : Adds (Records support lifecycle) (named support threadId requestId).toList settled.toNat {}
      (ledger support es)) :
    (settled ↔ WroteTurn support es threadId requestId lifecycle) ↔
    (ledger support es).stale = 0 := by
  obtain ⟨-,new,hnew,hs,hp,hn⟩ := h
  rw [append_nil] at hnew
  have hwrote : WroteTurn support es threadId requestId lifecycle ↔ 0 < new.length := by
    constructor
    · rintro ⟨_,_,-,hmem,-⟩
      rw [hnew] at hmem
      exact length_pos_of_mem hmem
    intro hpos
    obtain ⟨x,hx⟩ := exists_mem_of_length_pos hpos
    refine ⟨x.1,x.2,?_,by rw [hnew]; exact hx,hp x hx⟩
    have hid := hs.subset (mem_map_of_mem hx)
    rw [Option.mem_toList,named] at hid
    cases hi : support.id threadId requestId with
    | error =>
      rw [hi] at hid
      cases hid
    | ok =>
      rw [hi] at hid
      cases hid
      rfl
  rw [hwrote]
  have hn : settled.toNat = new.length+(ledger support es).stale := hn
  cases settled with
  | false =>
    simp only [Bool.toNat_false] at hn
    simp only [Bool.false_eq_true,false_iff]
    omega
  | true =>
    simp only [Bool.toNat_true] at hn
    simp only [true_iff]
    omega

theorem reports_exact_iff (h : (machine support attempts).Run (.idle w) ms d) :
    Settlement support ms where
  settle := by
    rintro a m b rfl i _ _ _ _ _ he
    exact settled_iff (h.finish_own (recorded_code i) he)
  mark := by
    rintro a m b rfl i _ count he
    obtain ⟨turns,hl,-,new,hnew,hs,hp,hn⟩ := h.finish_own (recorded_code i) he
    rw [append_nil] at hnew
    rw [hnew]
    have hn : count = new.length+(ledger support (own i a)).stale := hn
    exact ⟨by omega,hp,turns,hl,hs⟩
  once := fun ho _ _ _ _ _ hms _ hm hn => put_between h ho hms hm hn

end

def plain : Support TurnState where
  id := fun threadId requestId => .ok (threadId++"/"++requestId)
  encode := .ok
  decode := .ok
  parseRfc3339 := fun _ => none
  display := fun _ => "storage error"
  lifecycle_decode := by
    rintro state _ turn ⟨⟩ ⟨⟩
    rfl

def turnId : String := "thread/request"

def perform :
    (op : TurnOp TurnState) → TurnWorld TurnState → TurnAns TurnState op × TurnWorld TurnState
  | .declare, w => (.ok (),w)
  | .get id, w => (.ok (w id).current,w)
  | .put _ id precondition body, w =>
    if precondition.all (fun p => decide ((w id).Meets p)) then
      (.ok (w id).next,Function.update w id ((w id).write body))
    else (.error .conflict,w)
  | .query _, w => (.ok ((w turnId).current.toList.map fun x => (turnId,x)),w)
  | .delete id version, w =>
    if (w id).Meets (.version version) then (.ok true,Function.update w id (w id).delete)
    else (.error .conflict,w)

def driver : Driver (TurnOp TurnState) (TurnAns TurnState) (TurnWorld TurnState) where
  perform := fun _ op w => some (perform op w)

theorem driver_fits : driver.Fits (machine plain 32) where
  perform := fun _ op w x _ h => by
    cases op with
    | declare =>
      cases h
      rfl
    | get =>
      cases h
      exact ⟨rfl,.inr rfl⟩
    | put =>
      simp only [driver,perform] at h
      split at h
      next hm =>
        cases h
        refine .inr ⟨?_,rfl,.inl rfl⟩
        rintro p ⟨⟩
        simpa using hm
      · cases h
        exact .inl ⟨⟨_,rfl⟩,rfl⟩
    | query =>
      cases h
      refine ⟨rfl,?_⟩
      rintro _ ⟨⟩ _ he
      obtain ⟨x,hx,rfl⟩ := mem_map.1 he
      rw [Option.mem_toList] at hx
      exact ⟨(w turnId).fresh x hx,fun y hy _ => Option.mem_unique hy hx⟩
    | delete =>
      simp only [driver,perform] at h
      split at h
      next hm =>
        cases h
        exact .inr ⟨hm,rfl,.inl rfl⟩
      · cases h
        exact .inl ⟨.inl ⟨_,rfl⟩,rfl⟩

def inFlight : TurnWorld TurnState :=
  Function.update (fun _ => .empty) turnId (Cell.empty.write
    ⟨"thread","request",.streaming,none,none,none,"2026-01-01T00:00:00Z","2026-01-01T00:00:00Z"⟩)

def settling : TurnCall := .settleTurn "thread" "request" .interrupted "2026-01-01T00:00:01Z"

def reportsTrue (i : Nat) (m : TurnMoment TurnState) : Bool :=
  match m.event with
  | .finish j call r => decide (j = i ∧ call = settling ∧ r = .ok (.settleTurn true))
  | _ => false

-- Thread 0 reads the turn, thread 1 settles it, thread 0 loses its swap and finds it settled:
-- both report that they settled it.
theorem settled_twice :
    ∃ a m d, (machine plain 32).Run (.idle inFlight) (a++[m]) d ∧
    m.event = .finish 0 settling (.ok (.settleTurn true)) ∧ (ledger plain (own 0 a)).wrote = [] ∧
    ∃ n ∈ a, n.event = .finish 1 settling (.ok (.settleTurn true)) := by
  obtain ⟨ms,d,h,⟨m,hm,h0⟩,hw,n,hn,h1⟩ := Driver.drive_any driver_fits
    [.start 0 settling,.act 0 2,.start 1 settling,.complete 1 10,.complete 0 10]
    (.idle inFlight)
    (fun ms _ => (∃ m ∈ ms.getLast?, m.event = .finish 0 settling (.ok (.settleTurn true))) ∧
      (ledger plain (own 0 ms.dropLast)).wrote = [] ∧
      ∃ n ∈ ms.dropLast, n.event = .finish 1 settling (.ok (.settleTurn true)))
    (by decide +kernel)
  obtain ⟨a,rfl⟩ := List.getLast?_eq_some_iff.1 hm
  rw [List.dropLast_concat] at hw hn
  exact ⟨a,m,d,h,h0,hw,n,hn,h1⟩

theorem reports_exact_alone :
    ∃ ms d, (machine plain 32).Run (.idle inFlight) ms d ∧ ms.any (reportsTrue 0) = true ∧
    Settlement plain ms := by
  obtain ⟨ms,d,h,hc⟩ := Driver.drive_any driver_fits [.start 0 settling,.complete 0 10]
    (.idle inFlight) (fun ms _ => ms.any (reportsTrue 0) = true) (by decide +kernel)
  exact ⟨ms,d,h,hc,reports_exact_iff h⟩

end TurnStates

end Session
