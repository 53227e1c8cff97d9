import TinyAgents.StorageKit.Leases

namespace StorageKit

open Interaction List Option

namespace Leases

section

def LeaseRequest.acquires : LeaseRequest → Option String
  | .acquire holder _ => some holder
  | .acquireWith request => some request.holder
  | _ => none

def LeaseRequest.tenure : LeaseRequest → Option (String × Nat)
  | .renew holder epoch _ | .release holder epoch => some (holder,epoch)
  | _ => none

def LeaseRequest.Writes (now : Int) (old : Option Body) (new : Body) : LeaseRequest → Prop
  | .acquire holder _ => ∃ expiresMs, acquireNext holder now expiresMs old = .ok (some new)
  | .acquireWith request => ∃ raced expiresMs note,
      acquireWithNext request raced now expiresMs old = .ok (some new,note)
  | .renew holder epoch _ => ∃ expiresMs, renewNext holder epoch now expiresMs old = some new
  | .release holder epoch => releaseNext holder epoch now old = some new

inductive Move (request : LeaseRequest) (now : Int) : Option Body → Body → Prop
  | first {new : Body} : request.acquires = some new.holder → new.released = false →
      Move request now none new
  | takeover {old new : Body} : request.acquires = some new.holder → new.released = false →
      ¬ old.Live now → new.epoch = old.epoch+1 → Move request now (some old) new
  | evict {old new : Body} {r : Acquire} : request = .acquireWith r → r.heldEpoch = none →
      r.holder = new.holder → new.released = false → new.holder = old.holder →
      new.epoch = old.epoch+1 → Move request now (some old) new
  | reenter {old new : Body} : request.acquires = some new.holder → new.released = false →
      new.holder = old.holder → new.epoch = old.epoch → ¬ old.released →
      (∀ r, request = .acquireWith r → r.heldEpoch = some old.epoch) →
      Move request now (some old) new
  | extend {old new : Body} : request.tenure = some (old.holder,old.epoch) → ¬ old.released →
      new.holder = old.holder → new.epoch = old.epoch →
      (∀ holder epoch, request = .release holder epoch → new.released) →
      Move request now (some old) new

theorem except_map_ok {ε α β : Type} {f : α → β} {x : Except ε α} {b : β} (h : x.map f = .ok b) :
    ∃ a, x = .ok a ∧ f a = b := by
  cases x with
  | ok a =>
    cases h
    exact ⟨a,rfl,rfl⟩
  | error => cases h

theorem nextEpoch_ok {b : Body} {e : Nat} (h : nextEpoch b = .ok e) : e = b.epoch+1 := by
  unfold nextEpoch at h
  split at h
  · cases h
    rfl
  · cases h

variable {new : Body} {now : Int} {old : Option Body}

theorem acquireNext_move {holder : String} {ttlMs expiresMs : Int}
    (h : acquireNext holder now expiresMs old = .ok (some new)) :
    Move (.acquire holder ttlMs) now old new := by
  obtain ⟨_,he,hn⟩ := except_map_ok h
  obtain ⟨e,rfl,rfl⟩ := map_eq_some_iff.1 hn
  cases old with
  | none => exact .first rfl rfl
  | some =>
    simp only [acquireEpoch] at he
    split at he
    next hlive =>
      split at he
      next hh =>
        cases he
        exact .reenter rfl rfl hh.symm rfl hlive.2 (by rintro r ⟨⟩)
      · cases he
    next hlive =>
      obtain ⟨_,hnext,hsome⟩ := except_map_ok he
      cases hsome
      exact .takeover rfl rfl hlive (nextEpoch_ok hnext)

theorem acquireWithNext_move {request : Acquire} {raced : Bool} {expiresMs : Int} {note}
    (h : acquireWithNext request raced now expiresMs old = .ok (some new,note)) :
    Move (.acquireWith request) now old new := by
  obtain ⟨decision,he,hn⟩ := except_map_ok h
  obtain _ | ⟨e,unclean⟩ := decision
  · cases hn
  cases hn
  cases old with
  | none => exact .first rfl rfl
  | some found =>
    simp only [acquireWithEpoch] at he
    split at he
    next hheld =>
      cases he
      exact .reenter rfl rfl hheld.2.1.symm rfl hheld.1.2 (by rintro r ⟨⟩; exact hheld.2.2)
    · split at he
      · cases he
      next hfree =>
        obtain ⟨_,hnext,hsome⟩ := except_map_ok he
        cases hsome
        by_cases hlive : found.Live now
        · -- only a caller that holds nothing may put its own live record out of the way
          have hown : found.holder = request.holder := by
            by_contra hne
            exact hfree ⟨hlive,.inl hne⟩
          have hnone : request.heldEpoch = none := by
            cases hq : request.heldEpoch with
            | none => rfl
            | some => exact (hfree ⟨hlive,.inr (.inr (by rw [hq]; rfl))⟩).elim
          exact .evict rfl hnone rfl rfl hown.symm (nextEpoch_ok hnext)
        · exact .takeover rfl rfl hlive (nextEpoch_ok hnext)

theorem LeaseRequest.Writes.move {request} (h : request.Writes now old new) :
    Move request now old new := by
  cases request with
  | acquire =>
    obtain ⟨_,h⟩ := h
    exact acquireNext_move h
  | acquireWith =>
    obtain ⟨_,_,_,h⟩ := h
    exact acquireWithNext_move h
  | renew =>
    obtain ⟨_,h⟩ := h
    obtain ⟨_,hl,rfl⟩ := map_eq_some_iff.1 h
    obtain ⟨rfl,hh⟩ := filter_eq_some_iff.1 hl
    obtain ⟨rfl,rfl,-,hr⟩ := of_decide_eq_true hh
    exact .extend rfl hr rfl rfl (by rintro _ _ ⟨⟩)
  | release =>
    obtain ⟨_,hl,rfl⟩ := map_eq_some_iff.1 h
    obtain ⟨rfl,hh⟩ := filter_eq_some_iff.1 hl
    obtain ⟨rfl,rfl,-,hr⟩ := of_decide_eq_true hh
    exact .extend rfl hr rfl rfl fun _ _ _ => rfl

end

abbrev LeaseResult := Except StorageError LeaseReply
abbrev LeaseConfig := Config LeaseCall LeaseOp LeaseAns LeaseWorld LeaseResult
abbrev LeaseMoment := Moment LeaseCall LeaseOp LeaseAns LeaseWorld LeaseResult

def machine : Machine LeaseCall LeaseOp LeaseAns LeaseWorld LeaseResult where
  code := fun call => call.task.run
  outcome := fun _ => LeaseOutcome
  env := fun w w' => w'.cell = w.cell ∧ w.now ≤ w'.now

section

structure Rely (w w' : LeaseWorld) : Prop where
  cell : Cell.Later w.cell w'.cell
  now : w.now ≤ w'.now

theorem rely_refl (w : LeaseWorld) : Rely w w :=
  ⟨Cell.later_refl,Nat.le_refl _⟩

variable {request : LeaseRequest} {w : LeaseWorld} {I : LeaseWorld → Prop}

theorem Rely.trans {u v : LeaseWorld} (h : Rely u v) (k : Rely v w) : Rely u w :=
  ⟨h.cell.trans k.cell,Nat.le_trans h.now k.now⟩

def Guar : LeaseOp → LeaseWorld → Prop
  | .put request precondition body, w => ∃ c : Cell Body, ∃ t : Int,
      precondition = Cell.condition c.current ∧ Cell.Later c w.cell ∧ t ≤ w.now ∧
        request.Writes t c.doc body
  | _, _ => True

variable (ms : List LeaseMoment) (i : Nat)

def logic : Logic LeaseOp LeaseAns LeaseWorld where
  outcome := fun op w x w' => LeaseOutcome op w x w' ∧ ∃ call, ⟨w,.did i call op x,w'⟩ ∈ ms
  rely := Rely
  guar := Guar
  rely_refl := rely_refl
  rely_trans := fun _ _ _ => Rely.trans

def Stored (request : LeaseRequest) (body : Body) : Prop :=
  ∃ m ∈ ms, ∃ call precondition version,
    m.event = .did i call (.put request precondition body) (.ok version)

def Done (request : LeaseRequest) (body : Body) : Prop :=
  Stored ms i request body ∧ ∃ t old, request.Writes t old body

def Steady (S : LeaseWorld → Prop) : Prop :=
  ∀ w w', Rely w w' → S w → S w'

variable {ms i} {S : LeaseWorld → Prop} {N : Type}

theorem safe_now (hS : Steady S) (hw : S w) :
    Ensures (logic ms i) (fun (t : Int) v => S v ∧ t ≤ v.now) (fun _ _ => True) now w := by
  intro v hv
  refine ⟨trivial,fun t u ho => ?_⟩
  obtain ⟨⟨rfl,rfl⟩,-⟩ := ho
  change Safe _ _ (ExceptT.run (if (u.now : Int) ≤ i64Max then _ else _)) u
  split
  · exact fun _ hu => ⟨hS _ _ hu (hS _ _ hv hw),Int.ofNat_le.2 hu.now⟩
  · exact fun _ _ => trivial

variable {ttlMs : Int} {attempts : Nat} {old : Option Body}

theorem safe_deadline (hS : Steady S) (hw : S w) :
    Ensures (logic ms i) (fun (d : Int × Int) v => S v ∧ d.1 ≤ v.now) (fun _ _ => True)
      (deadline ttlMs) w := by
  unfold deadline
  split
  · exact fun _ _ => trivial
  refine safe_try (safe_now hS hw) fun t v hv => ?_
  split
  · exact fun u hu => ⟨hS _ _ hu hv.1,Int.le_trans hv.2 (Int.ofNat_le.2 hu.now)⟩
  · exact fun _ _ => trivial

def Seen (I : LeaseWorld → Prop) (found : Option (Versioned Body)) (w : LeaseWorld) : Prop :=
  ∃ c : Cell Body, c.current = found ∧ Cell.Later c w.cell ∧ I w

def Decided (request : LeaseRequest) (old : Option Body) (next : Option Body) (w : LeaseWorld) :
    Prop :=
  ∀ body ∈ next, ∃ t : Int, t ≤ w.now ∧ request.Writes t old body

def Ready {N : Type} (I : LeaseWorld → Prop) (request : LeaseRequest)
    (found : Option (Versioned Body)) (next : Option Body × N) (w : LeaseWorld) : Prop :=
  ∃ c : Cell Body, c.current = found ∧ (Cell.Later c w.cell ∧ I w) ∧
    Decided request c.doc next.1 w

theorem steady_decided {request} {next} : Steady (Decided request old next) := by
  intro w _ hw h body hb
  obtain ⟨t,ht,hwrites⟩ := h body hb
  exact ⟨t,Int.le_trans ht (Int.ofNat_le.2 hw.now),hwrites⟩

theorem safe_get (hI : Steady I) (hw : I w) :
    Safe (logic ms i) (Ends (Seen I) (fun _ _ => True)) (port request).get w := by
  intro v hv
  refine ⟨trivial,fun x u ho => ?_⟩
  obtain ⟨⟨rfl,⟨e,rfl⟩ | rfl⟩,-⟩ := ho
  · exact fun _ _ => trivial
  · exact fun _ hu => ⟨u.cell,rfl,hu.cell,hI _ _ (hv.trans hu) hw⟩

theorem safe_put (hI : Steady I) {found} {body : Body} {note : N}
    (h : Ready I request found (some body,note) w) :
    Safe (logic ms i) (Ends (fun _ _ => Done ms i request body) (fun _ v => I v ∧ True))
      ((port request).put (Cell.condition found) body) w := by
  obtain ⟨c,rfl,hgrown,hdecided⟩ := h
  intro v hv
  have hlater := hgrown.1.trans hv.cell
  have hi := hI w v hv hgrown.2
  obtain ⟨t,ht,hwrites⟩ := steady_decided w v hv hdecided body rfl
  refine ⟨⟨c,t,rfl,hlater,ht,hwrites⟩,fun x u ho => ?_⟩
  obtain ⟨ho,call,hm⟩ := ho
  cases x with
  | ok version => exact fun _ _ => ⟨⟨_,hm,call,_,version,rfl⟩,t,_,hwrites⟩
  | error =>
    have hu : Rely v u := by
      rcases ho with ⟨-,rfl⟩ | ⟨-,rfl,-⟩
      · exact rely_refl _
      · exact ⟨Cell.later_write,Nat.le_refl _⟩
    exact fun _ hu' => ⟨hI _ _ (hu.trans hu') hi,trivial⟩

theorem safe_lease_update {f} (hI : Steady I)
    (hf : ∀ vars old w (S : LeaseWorld → Prop), Steady S → S w ∧ I w →
      Ensures (logic ms i) (fun (next : Option Body × N) v => (S v ∧ I v) ∧
      Decided request old next.1 v) (fun _ _ => True) (f vars old) w)
    {vars : N} (hw : I w) :
    Ensures (logic ms i) (fun (stored : Option (Body × Nat) × N) _ => ∀ x ∈ stored.1,
      Done ms i request x.1) (fun _ _ => True) (Repo.update (port request) attempts f vars) w := by
  have rounds : Repo.Rounds (logic ms i) (port request) f (fun _ => I) (fun _ => Seen I)
      (Ready I request) (fun stored _ => ∀ x ∈ stored.1, Done ms i request x.1)
      (fun _ _ => True) := by
    refine ⟨fun _ w hw => safe_get hI hw,?_,?_,?_,?_⟩
    · rintro vars _ w ⟨c,rfl,hgrown⟩
      have hlater : Steady (fun v => Cell.Later c v.cell) := fun w _ hw h => h.trans hw.cell
      refine safe_mono ?_ (hf vars c.doc w _ hlater hgrown)
      rintro (e | next) v hv
      · trivial
      · exact ⟨c,rfl,hv⟩
    · rintro _ _ w - x ⟨⟩
    · intro _ _ _ w h
      refine safe_mono ?_ (safe_put hI h)
      rintro (e | _) v hv
      · exact ⟨fun _ => hv.1,hv.2⟩
      · rintro x ⟨⟩
        exact hv
    · rintro (e | stored) w v h -
      · trivial
      · exact h
  exact Repo.safe_update rounds hw

theorem safe_decision {request} {g}
    (hg : ∀ d, ∃ r : Except StorageError (Option Body × N), g d = ExceptT.mk (.ret r) ∧
      ∀ next, r = .ok next → ∀ body ∈ next.1, request.Writes d.1 old body)
    (hS : Steady S) {w : LeaseWorld} (hw : S w ∧ True) :
    Ensures (logic ms i) (fun (next : Option Body × N) v => (S v ∧ True) ∧
      Decided request old next.1 v) (fun _ _ => True) (deadline ttlMs >>= g) w := by
  refine safe_try (safe_deadline hS hw.1) fun d v hv => ?_
  obtain ⟨r,hr,hw⟩ := hg d
  rw [hr]
  cases r with
  | error => exact fun _ _ => trivial
  | ok next =>
    refine fun u hu => ⟨⟨hS _ _ hu hv.1,trivial⟩,fun body hb => ?_⟩
    exact ⟨d.1,Int.le_trans hv.2 (Int.ofNat_le.2 hu.now),hw next rfl body hb⟩

theorem steady_true : Steady (fun _ => True) :=
  fun _ _ _ _ => trivial

variable (ms i) in
def Reports (request : LeaseRequest) (l : Lease) : Prop :=
  ∃ body, Lease.fromBody body = l ∧ Stored ms i request body

theorem reports_stored {request : LeaseRequest} {stored : Option (Body × Nat)}
    (h : ∀ x ∈ stored, Done ms i request x.1) {l : Lease}
    (hl : l ∈ stored.map fun x => Lease.fromBody x.1) : Reports ms i request l := by
  obtain ⟨x,hx,rfl⟩ := map_eq_some_iff.1 hl
  exact ⟨x.1,rfl,(h x hx).1⟩

theorem safe_acquire (attempts : Nat) (holder : String) (ttlMs : Int) (w : LeaseWorld) :
    Ensures (logic ms i)
      (fun (l : Option Lease) _ => ∀ x ∈ l, Reports ms i (.acquire holder ttlMs) x)
      (fun _ _ => True) (acquire attempts holder ttlMs) w := by
  refine safe_try (safe_lease_update steady_true (fun _ _ w S hS hw => ?_) trivial)
    fun _ v hv => fun _ _ _ hl => reports_stored hv hl
  refine safe_decision (fun d => ⟨_,rfl,fun _ hn _ hb => ?_⟩) hS hw
  obtain ⟨a,ha,rfl⟩ := except_map_ok hn
  cases hb
  exact ⟨d.2,ha⟩

theorem safe_acquireWith {request : Acquire} {w : LeaseWorld} :
    Ensures (logic ms i) (fun outcome _ => ∀ l unclean, outcome = .granted l unclean →
      Reports ms i (.acquireWith request) l) (fun _ _ => True)
      (acquireWith attempts request) w := by
  refine safe_try (safe_lease_update steady_true (fun _ _ w S hS hw => ?_) trivial) ?_
  · refine safe_decision (fun d => ⟨_,rfl,fun _ hn body hb => ?_⟩) hS hw
    obtain ⟨⟨_,note⟩,ha,rfl⟩ := except_map_ok hn
    cases hb
    exact ⟨_,d.2,note,ha⟩
  · rintro ⟨_ | ⟨body,_⟩,unclean,_ | _,_⟩ v hv
    · exact fun _ _ => trivial
    · rintro _ - l _ ⟨⟩
    all_goals
      rintro _ - l _ ⟨⟩
      exact ⟨body,rfl,(hv _ rfl).1⟩

theorem safe_renew (holder : String) {epoch : Nat} {w : LeaseWorld} :
    Ensures (logic ms i) (fun (l : Option Lease) _ => ∀ x ∈ l,
      Reports ms i (.renew holder epoch ttlMs) x ∧ x.holder = holder ∧ x.epoch = epoch)
      (fun _ _ => True) (renew attempts holder epoch ttlMs) w := by
  refine safe_try (safe_lease_update steady_true (fun _ old w S hS hw => ?_) trivial)
    fun _ v hv => fun _ _ l hl => ⟨reports_stored hv hl,?_⟩
  · refine safe_decision (fun d => ⟨_,rfl,fun _ hn _ hb => ?_⟩) hS hw
    cases hn
    exact ⟨d.2,hb⟩
  obtain ⟨⟨_,_⟩,hx,rfl⟩ := map_eq_some_iff.1 hl
  obtain ⟨-,t,_,_,hwrites⟩ := hv _ hx
  obtain ⟨_,hb,rfl⟩ := map_eq_some_iff.1 hwrites
  obtain ⟨-,hh⟩ := filter_eq_some_iff.1 hb
  exact ⟨(of_decide_eq_true hh).1,(of_decide_eq_true hh).2.1⟩

theorem safe_release (attempts : Nat) (holder : String) (epoch : Nat) (w : LeaseWorld) :
    Ensures (logic ms i) (fun done _ => done = true → ∃ body,
      Stored ms i (.release holder epoch) body) (fun _ _ => True)
      (release attempts holder epoch) w := by
  refine safe_try (safe_now steady_true trivial) fun t v hv => ?_
  have hI : Steady (fun v => t ≤ (v.now : Int)) := fun v _ hv h =>
    Int.le_trans h (Int.ofNat_le.2 hv.now)
  refine safe_try (safe_lease_update hI (fun _ _ w S hS hw => ?_) hv.2)
    fun _ v hv => fun _ _ hdone => ?_
  · intro v hv
    have ht := hI _ _ hv hw.2
    exact ⟨⟨hS _ _ hv hw.1,ht⟩,fun body hb => ⟨t,ht,hb⟩⟩
  · obtain ⟨x,hx⟩ := isSome_iff_exists.1 hdone
    exact ⟨x.1,(hv x hx).1⟩

def granted : LeaseResult → Option Lease
  | .ok (.lease l) => l
  | .ok (.acquisition (.granted l _)) => some l
  | _ => none

variable (ms i) in
structure Honest (call : LeaseCall) (r : LeaseResult) : Prop where
  lease : ∀ l ∈ granted r, Reports ms i call.request l
  release : r = .ok (.released true) → ∃ body, Stored ms i call.request body

theorem safe_task (call : LeaseCall) (w : LeaseWorld) :
    Ensures (logic ms i) (fun reply _ => Honest ms i call (.ok reply)) (fun _ _ => True)
      call.task w := by
  obtain ⟨request,attempts⟩ := call
  cases request with
  | acquire holder ttlMs =>
    refine safe_try (safe_acquire attempts holder ttlMs w) fun l v hl => fun _ _ => ?_
    exact ⟨hl,by rintro ⟨⟩⟩
  | acquireWith =>
    refine safe_try safe_acquireWith fun outcome v hl => fun _ _ => ?_
    refine ⟨fun l hg => ?_,by rintro ⟨⟩⟩
    cases outcome with
    | granted _ unclean =>
      cases hg
      exact hl _ unclean rfl
    | held => cases hg
  | renew holder =>
    refine safe_try (safe_renew holder) fun l v hl => fun _ _ => ?_
    exact ⟨fun x hx => (hl x hx).1,by rintro ⟨⟩⟩
  | release holder epoch =>
    refine safe_try (safe_release attempts holder epoch w) fun _ v hl => fun _ _ => ?_
    refine ⟨by rintro l ⟨⟩,fun hr => hl ?_⟩
    cases hr
    rfl

end

section

variable {ms l : List LeaseMoment} {c d : LeaseConfig} {m n : LeaseMoment}

theorem outcome_rely {op : LeaseOp} {w w' : LeaseWorld} {x} (h : LeaseOutcome op w x w') :
    Rely w w' := by
  cases op with
  | clock =>
    obtain ⟨-,rfl⟩ := h
    exact rely_refl _
  | get =>
    obtain ⟨rfl,-⟩ := h
    exact rely_refl _
  | put =>
    obtain ⟨-,rfl⟩ | ⟨-,rfl,-⟩ := h
    · exact rely_refl _
    · exact ⟨Cell.later_write,Nat.le_refl _⟩

theorem follows (ms : List LeaseMoment) (i : Nat) :
    (machine.observed ms).Follows i (logic ms i)
      (fun call => Ends (fun reply _ => Honest ms i call (.ok reply)) (fun _ _ => True)) where
  outcome := fun _ _ _ _ h => h
  opens := fun call w _ => safe_task call w
  others := fun _ _ _ _ _ h => outcome_rely h.1
  env := fun w _ h => ⟨by rw [h.1]; exact Cell.later_refl,h.2⟩

def Wrote (m : LeaseMoment) (request : LeaseRequest) (body : Body) : Prop :=
  (∃ precondition, m.op = some (.put request precondition body)) ∧
    m.after.cell = m.before.cell.write body

def Moved (m : LeaseMoment) (request : LeaseRequest) (body : Body) : Prop :=
  ∃ t : Int, t ≤ m.before.now ∧ Move request t m.before.cell.doc body

variable {old new : Body} {t : Int} {request : LeaseRequest} {epoch : Nat} {holder : String}

theorem step_cases (h : machine.Step c m d) :
    m.after.cell = m.before.cell ∨ ∃ request body, Wrote m request body := by
  cases h with
  | @did i call op next x w ht ho =>
    cases op with
    | clock =>
      obtain ⟨-,rfl⟩ := ho
      exact .inl rfl
    | get =>
      obtain ⟨rfl,-⟩ := ho
      exact .inl rfl
    | put request precondition body =>
      obtain ⟨-,rfl⟩ | ⟨-,rfl,-⟩ := ho
      · exact .inl rfl
      · exact .inr ⟨request,body,⟨precondition,rfl⟩,rfl⟩
  | start | finish | crash => exact .inl rfl
  | env he => exact .inl he.1

theorem Wrote.doc {body : Body} (h : Wrote m request body) : m.after.cell.doc = some body := by
  rw [h.2]
  rfl

structure Succeeds (old new : Body) : Prop where
  epoch : old.epoch ≤ new.epoch
  holder : old.epoch = new.epoch → old.holder = new.holder

theorem Succeeds.trans {a b c : Body} (h : Succeeds a b) (k : Succeeds b c) : Succeeds a c where
  epoch := Nat.le_trans h.epoch k.epoch
  holder := fun _ => by
    have hk := k.epoch
    have hh := h.epoch
    exact (h.holder (by omega)).trans (k.holder (by omega))

theorem Move.succeeds (h : Move request t (some old) new) : Succeeds old new := by
  cases h with
  | takeover | evict => exact ⟨by omega,by omega⟩
  | reenter _ _ hh | extend _ _ hh => exact ⟨by omega,fun _ => hh.symm⟩

structure Lineage (ns : List LeaseMoment) (w : LeaseWorld) : Prop where
  last : ∀ m ∈ ns, ∀ b ∈ m.after.cell.doc, ∃ b' ∈ w.cell.doc, Succeeds b b'
  agree : ∀ m ∈ ns, ∀ n ∈ ns, ∀ b ∈ m.after.cell.doc, ∀ b' ∈ n.after.cell.doc,
    b.epoch = b'.epoch → b.holder = b'.holder

def Past (holder : String) (epoch : Nat) (b : Body) : Prop :=
  epoch < b.epoch ∨ b.epoch = epoch ∧ (b.holder ≠ holder ∨ b.released)

def Gone (holder : String) (epoch : Nat) (cell : Cell Body) : Prop :=
  ∃ b ∈ cell.doc, Past holder epoch b

theorem Move.past (h : Move request t (some old) new) (hp : Past holder epoch old) :
    Past holder epoch new := by
  unfold Past at *
  cases h with
  | takeover | evict => omega
  | reenter _ _ hh he hr | extend _ hr hh he =>
    rw [he,hh]
    exact hp.imp_right fun ⟨heq,hgone⟩ => ⟨heq,.inl (hgone.resolve_right hr)⟩

theorem tenure_of_acquires (h : request.acquires = some holder) : request.tenure = none := by
  cases request with
  | acquire | acquireWith => rfl
  | renew | release => cases h

theorem Move.tenure {old} (h : Move request t old new) (ht : request.tenure = some (holder,epoch)) :
    ∃ b ∈ old, b.holder = holder ∧ b.epoch = epoch ∧ ¬ b.released := by
  have hnone {name} (ha : request.acquires = some name) : False := by
    rw [tenure_of_acquires ha] at ht
    cases ht
  cases h with
  | first ha | takeover ha | reenter ha => exact (hnone ha).elim
  | evict hr =>
    subst hr
    cases ht
  | @extend old _ he hr _ _ =>
    rw [he] at ht
    cases ht
    exact ⟨old,rfl,rfl,rfl,hr⟩

theorem Move.releases {old} (h : Move (.release holder epoch) t old new) :
    new.epoch = epoch ∧ new.released := by
  cases h with
  | first ha | takeover ha | reenter ha => cases ha
  | evict hr => cases hr
  | extend ht _ _ he hr =>
    cases ht
    exact ⟨he,hr _ _ rfl⟩

theorem not_gone {cell : Cell Body} {b : Body} (hb : b ∈ cell.doc) (hh : b.holder = holder)
    (he : b.epoch = epoch) (hr : ¬ b.released) : ¬ Gone holder epoch cell := by
  rintro ⟨_,hb',hg⟩
  cases mem_unique hb hb'
  rcases hg with _ | ⟨-,hne | hrel⟩
  · omega
  · exact hne hh
  · exact hr hrel

def epochOf (cell : Cell Body) : Nat :=
  cell.doc.elim 0 Body.epoch

def Grants (m : LeaseMoment) (body : Body) : Prop :=
  ∃ request, request.acquires = some body.holder ∧ Wrote m request body

def Reasserts (m : LeaseMoment) (i : Nat) (holder : String) (epoch : Nat) : Prop :=
  ∃ call r, m.event = .finish i call r ∧ call.request.tenure = some (holder,epoch) ∧
    ((granted r).isSome ∨ r = .ok (.released true))

structure Fenced (ms : List LeaseMoment) (holder : String) (epoch : Nat) : Prop where
  lasts : ∀ m ∈ ms, Gone holder epoch m.before.cell ∧ Gone holder epoch m.after.cell
  unwritten : ∀ m ∈ ms, ∀ request body, request.tenure = some (holder,epoch) →
    ¬ Wrote m request body
  conditions : ∀ m ∈ ms, ∀ l : Lease, l.holder = holder → l.epoch = epoch →
    ¬ l.WriteCondition m.before ∧ ¬ l.WriteCondition m.after

structure Ownership (ms : List LeaseMoment) : Prop where
  epochs : ∀ m ∈ ms, epochOf m.before.cell ≤ epochOf m.after.cell
  stored : ∀ m ∈ ms, ∀ i call r, m.event = .finish i call r → ∀ l ∈ granted r,
    ∃ n ∈ ms, ∃ body, Lease.fromBody body = l ∧ Wrote n call.request body
  holders : ∀ m ∈ ms, ∀ n ∈ ms, ∀ b b', Grants m b → Grants n b' → b.epoch = b'.epoch →
    b.holder = b'.holder
  exclusive : ∀ m ∈ ms, ∀ b, Grants m b → ∀ old ∈ m.before.cell.doc, old.Live m.before.now →
    old.holder = b.holder
  fenced : ∀ a m b, ms = a ++ m :: b → ∀ holder epoch, Gone holder epoch m.before.cell →
    Fenced (m :: b) holder epoch ∧
      ∀ i call, m.event = .start i call → ∀ n ∈ b, ¬ Reasserts n i holder epoch
  released : ∀ a m b, ms = a ++ m :: b → ∀ i call, m.event = .finish i call (.ok (.released true)) →
    ∀ holder epoch, call.request = .release holder epoch → Gone holder epoch m.before.cell
  stale : ∀ m ∈ ms, ∀ request body, Wrote m (.acquireWith request) body →
    ∀ old ∈ m.before.cell.doc, old.Live m.before.now → ∀ held ∈ request.heldEpoch,
      held = old.epoch ∧ Succeeds old body ∧ body.epoch = old.epoch

theorem live_mono {b : Body} {t now : Int} (h : b.Live now) (ht : t ≤ now) : b.Live t :=
  ⟨Int.lt_of_le_of_lt ht h.1,h.2⟩

section

variable (h : machine.Run c ms d)

include h

theorem run_cases : ∀ m ∈ ms, m.after.cell = m.before.cell ∨ ∃ request body, Wrote m request body :=
  (h.inv trivial fun _ _ _ _ hs => ⟨trivial,step_cases hs⟩).2

theorem wrote_of_stored {i : Nat} {request} {body : Body} {l} (hl : ∀ m ∈ l, m ∈ ms)
    (hs : Stored l i request body) : ∃ n ∈ l, Wrote n request body := by
  obtain ⟨n,hn,call,precondition,_,he⟩ := hs
  refine ⟨n,hn,⟨precondition,Moment.op_eq he⟩,?_⟩
  have ho := h.outcome n (hl n hn) i call _ _ he
  obtain ⟨⟨e,hx⟩,-⟩ | ⟨-,hafter,-⟩ := ho
  · cases hx
  · rw [hafter]

theorem honest_of_finish {i} {call} {reply} (hi : c.thread i = none) (hm : m ∈ ms)
    (he : m.event = .finish i call (.ok reply)) : Honest ms i call (.ok reply) := by
  have hfollow := (h.observed fun _ hm => hm).follow (follows ms i) (by simp [hi]) m hm
  simp only [Machine.Followed,he] at hfollow
  exact hfollow trivial

theorem not_reasserts {a b} (hms : ms = a ++ m :: b) {holder : String} {epoch : Nat}
    (hf : Fenced (m :: b) holder epoch) {i : Nat} {call : LeaseCall}
    (hstart : m.event = .start i call) {n} (hn : n ∈ b) : ¬ Reasserts n i holder epoch := by
  subst hms
  rintro ⟨call',r,he,ht,hr⟩
  obtain ⟨e,-,hb⟩ := h.split
  obtain ⟨_,hstep,-⟩ := hb.head
  have hidle : e.thread i = none := by
    cases hstep with
    | start hi =>
      cases hstart
      exact hi
    | did | finish | crash | env => cases hstart
  have hmem {n} (hn : n ∈ m :: b) : n ∈ a ++ m :: b := mem_append_right a hn
  have hstored : ∃ body, Stored (m :: b) i call'.request body := by
    obtain e | reply := r
    · simp [granted] at hr
    have honest := honest_of_finish hb hidle (mem_cons_of_mem m hn) he
    rcases hr with hg | hrel
    · obtain ⟨l,hl⟩ := isSome_iff_exists.1 hg
      obtain ⟨body,-,hs⟩ := honest.lease l hl
      exact ⟨body,hs⟩
    · exact honest.release hrel
  obtain ⟨body,hs⟩ := hstored
  obtain ⟨n',hn',hw⟩ := wrote_of_stored h (fun _ => hmem) hs
  exact hf.unwritten n' hn' _ body ht hw

variable (hc : ∀ i, c.thread i = none)

include hc

theorem run_moved (hm : m ∈ ms) {body : Body} (hw : Wrote m request body) :
    Moved m request body := by
  obtain ⟨⟨_,hop⟩,hafter⟩ := hw
  obtain ⟨i,call,x,he⟩ := Moment.did_of_op hop
  have hf := (h.observed fun _ hm => hm).follow (follows ms i) (by simp [hc i]) m hm
  simp only [Machine.Followed,he] at hf
  obtain ⟨_,t,rfl,hlater,ht,hwrites⟩ := hf trivial
  refine ⟨t,ht,?_⟩
  have ho := h.outcome m hm i call _ x he
  obtain ⟨-,hsame⟩ | ⟨hmeets,-,-⟩ := ho
  · rw [hsame] at hafter
    have hnext := congrArg Cell.next hafter
    simp [Cell.write] at hnext
  · rw [Cell.doc_of_meets hlater hmeets]
    exact hwrites.move

theorem run_succeeds (hm : m ∈ ms) (ho : old ∈ m.before.cell.doc) :
    ∃ new ∈ m.after.cell.doc, Succeeds old new := by
  rcases run_cases h m hm with hs | ⟨_,body,hw⟩
  · rw [hs]
    exact ⟨old,ho,Nat.le_refl _,fun _ => rfl⟩
  obtain ⟨t,-,hmove⟩ := run_moved h hc hm hw
  rw [mem_def.1 ho] at hmove
  exact ⟨body,hw.doc,hmove.succeeds⟩

theorem run_lineage : Lineage ms d.world := by
  refine h.history ⟨by simp,by simp⟩ ?_
  rintro ns m hm ⟨hlast,hall⟩
  have hnext : ∀ n ∈ ns, ∀ b ∈ n.after.cell.doc, ∃ b' ∈ m.after.cell.doc, Succeeds b b' := by
    intro n hn b hb
    obtain ⟨_,hb',hs⟩ := hlast n hn b hb
    obtain ⟨b'',hb'',hs'⟩ := run_succeeds h hc hm hb'
    exact ⟨b'',hb'',hs.trans hs'⟩
  have hagree : ∀ n ∈ ns, ∀ b ∈ n.after.cell.doc, ∀ b' ∈ m.after.cell.doc,
      b.epoch = b'.epoch → b.holder = b'.holder := by
    intro n hn b hb _ hb' he
    obtain ⟨_,hb'',hs⟩ := hnext n hn b hb
    cases mem_unique hb' hb''
    exact hs.holder he
  constructor
  · intro n hn b hb
    rcases mem_append.1 hn with hn | hn
    · exact hnext n hn b hb
    · cases mem_singleton.1 hn
      exact ⟨b,hb,Nat.le_refl _,fun _ => rfl⟩
  · intro n hn n' hn' b hb b' hb' he
    rcases mem_append.1 hn with hn | hn <;> rcases mem_append.1 hn' with hn' | hn'
    · exact hall n hn n' hn' b hb b' hb' he
    · cases mem_singleton.1 hn'
      exact hagree n hn b hb b' hb' he
    · cases mem_singleton.1 hn
      exact (hagree n' hn' b' hb' b hb he.symm).symm
    cases mem_singleton.1 hn
    cases mem_singleton.1 hn'
    rw [mem_unique hb hb']

theorem run_gone (hm : m ∈ ms) (hg : Gone holder epoch m.before.cell) :
    Gone holder epoch m.after.cell := by
  obtain ⟨old,ho,hg⟩ := hg
  rcases run_cases h m hm with hs | ⟨_,body,hw⟩
  · rw [hs]
    exact ⟨old,ho,hg⟩
  obtain ⟨t,-,hmove⟩ := run_moved h hc hm hw
  rw [mem_def.1 ho] at hmove
  exact ⟨body,hw.doc,hmove.past hg⟩

theorem epochs_grow (hm : m ∈ ms) : epochOf m.before.cell ≤ epochOf m.after.cell := by
  unfold epochOf
  cases ho : m.before.cell.doc with
  | none => exact Nat.zero_le _
  | some =>
    obtain ⟨_,hn,hs⟩ := run_succeeds h hc hm ho
    rw [mem_def.1 hn]
    exact hs.epoch

theorem gone_before {e : LeaseConfig} (hl : machine.Run e l d) (hmem : ∀ n ∈ l, n ∈ ms)
    (hg : Gone holder epoch e.world.cell) : ∀ n ∈ l, Gone holder epoch n.before.cell :=
  (hl.before (P := fun w => Gone holder epoch w.cell) hg
    fun n hn hg => run_gone h hc (hmem n hn) hg).2

theorem fenced_of_gone {a b} (hms : ms = a ++ m :: b) {holder : String} {epoch : Nat}
    (hg : Gone holder epoch m.before.cell) : Fenced (m :: b) holder epoch := by
  subst hms
  have hmem {n : LeaseMoment} (hn : n ∈ m :: b) : n ∈ a ++ m :: b := mem_append_right a hn
  obtain ⟨e,-,hb⟩ := h.split
  obtain ⟨_,hstep,-⟩ := hb.head
  rw [hstep.before_eq] at hg
  have hbefore := gone_before h hc hb (fun _ => hmem) hg
  have hafter n (hn : n ∈ m :: b) : Gone holder epoch n.after.cell :=
    run_gone h hc (hmem hn) (hbefore n hn)
  have hcond {w : LeaseWorld} {l : Lease} (hl : l.holder = holder) (he : l.epoch = epoch)
      (hg : Gone holder epoch w.cell) : ¬ l.WriteCondition w := by
    rintro ⟨x,hx,hh,hep,hr,-⟩
    exact not_gone hx (hh.trans hl) (hep.trans he) hr hg
  refine ⟨fun n hn => ⟨hbefore n hn,hafter n hn⟩,?_,?_⟩
  · intro n hn _ _ ht hw
    obtain ⟨t,-,hmove⟩ := run_moved h hc (hmem hn) hw
    obtain ⟨x,hx,hh,he,hr⟩ := hmove.tenure ht
    exact not_gone hx hh he hr (hbefore n hn)
  · intro n hn l hl he
    exact ⟨hcond hl he (hbefore n hn),hcond hl he (hafter n hn)⟩

theorem gone_of_released {a} (hms : ms = a ++ [m]) {i : Nat} {call : LeaseCall}
    (he : m.event = .finish i call (.ok (.released true))) {holder : String} {epoch : Nat}
    (hr : call.request = .release holder epoch) : Gone holder epoch m.before.cell := by
  obtain ⟨body,hs⟩ := (honest_of_finish h (hc i) (by simp [hms]) he).release rfl
  obtain ⟨n,hn,hw⟩ := wrote_of_stored h (fun _ hm => hm) hs
  obtain ⟨t,-,hmove⟩ := run_moved h hc hn hw
  rw [hr] at hmove
  have hgone : Gone holder epoch n.after.cell :=
    ⟨body,hw.doc,.inr ⟨hmove.releases.1,.inr hmove.releases.2⟩⟩
  have hbefore : n ∈ a := by
    rcases mem_append.1 (hms ▸ hn) with hn | hn
    · exact hn
    · obtain ⟨⟨_,hop⟩,-⟩ := hw
      rw [mem_singleton.1 hn,Moment.op,he] at hop
      cases hop
  obtain ⟨a₁,a₂,rfl⟩ := append_of_mem hbefore
  rw [append_assoc] at hms
  subst hms
  obtain ⟨_,-,hb⟩ := h.split
  obtain ⟨_,hstep,hb⟩ := hb.head
  rw [hstep.after_eq] at hgone
  exact gone_before h hc hb (fun _ hx => mem_append_right a₁ (mem_cons_of_mem n hx)) hgone m
    (by simp)

theorem exclusive_of_grant (hm : m ∈ ms) {b old : Body} (hg : Grants m b)
    (ho : old ∈ m.before.cell.doc) (hl : old.Live m.before.now) : old.holder = b.holder := by
  obtain ⟨_,_,hw⟩ := hg
  obtain ⟨t,ht,hmove⟩ := run_moved h hc hm hw
  rw [mem_def.1 ho] at hmove
  cases hmove with
  | takeover _ _ hdead => exact (hdead (live_mono hl ht)).elim
  | evict _ _ _ _ hh | reenter _ _ hh | extend _ _ hh => exact hh.symm

theorem stale_keeps (hm : m ∈ ms) {request : Acquire} {body old : Body}
    (hw : Wrote m (.acquireWith request) body) (ho : old ∈ m.before.cell.doc)
    (hl : old.Live m.before.now) {held : Nat} (hh : held ∈ request.heldEpoch) :
    held = old.epoch ∧ Succeeds old body ∧ body.epoch = old.epoch := by
  obtain ⟨t,ht,hmove⟩ := run_moved h hc hm hw
  rw [mem_def.1 ho] at hmove
  have hs := hmove.succeeds
  cases hmove with
  | takeover _ _ hdead => exact (hdead (live_mono hl ht)).elim
  | evict hr hnone =>
    cases hr
    rw [mem_def.1 hh] at hnone
    cases hnone
  | reenter _ _ _ he _ hheld =>
    have heq := hheld request rfl
    rw [mem_def.1 hh] at heq
    exact ⟨Option.some.inj heq,hs,he⟩
  | extend ht' => cases ht'

end

theorem leases_are_exclusive {w : LeaseWorld} (h : machine.Run (.idle w) ms d) : Ownership ms where
  epochs := fun _ hm => epochs_grow h (fun _ => rfl) hm
  stored := fun m hm i call r he l hl => by
    obtain e | reply := r
    · cases hl
    obtain ⟨body,hb,hs⟩ := (honest_of_finish h rfl hm he).lease l hl
    obtain ⟨n,hn,hw⟩ := wrote_of_stored h (fun _ hm => hm) hs
    exact ⟨n,hn,body,hb,hw⟩
  holders := fun m hm n hn b b' hb hb' he => by
    obtain ⟨_,-,hw⟩ := hb
    obtain ⟨_,-,hw'⟩ := hb'
    exact (run_lineage h (fun _ => rfl)).agree m hm n hn b hw.doc b' hw'.doc he
  exclusive := fun _ hm _ hg _ ho hl => exclusive_of_grant h (fun _ => rfl) hm hg ho hl
  fenced := fun _ _ _ hms _ _ hg => by
    have hf := fenced_of_gone h (fun _ => rfl) hms hg
    exact ⟨hf,fun i call hs n hn => not_reasserts h hms hf hs hn⟩
  released := fun a m b hms i call he holder epoch hr => by
    subst hms
    obtain ⟨_,ha,hb⟩ := h.split
    obtain ⟨_,hstep,-⟩ := hb.head
    exact gone_of_released (ha.trans (Machine.Run.single hstep)) (fun _ => rfl) rfl he hr
  stale := fun _ hm _ _ hw _ ho hl _ hh => stale_keeps h (fun _ => rfl) hm hw ho hl hh

end

def perform : (op : LeaseOp) → LeaseWorld → LeaseAns op × LeaseWorld
  | .clock, w => (w.now,w)
  | .get, w => (.ok w.cell.current,w)
  | .put _ precondition body, w =>
    if w.cell.Meets precondition then (.ok w.cell.next,{ w with cell := w.cell.write body })
    else (.error .conflict,w)

def refuse : (op : LeaseOp) → Option (LeaseAns op)
  | .clock => none
  | .get | .put _ _ _ => some (.error .unavailable)

def driver : Driver LeaseOp LeaseAns LeaseWorld where
  perform := fun _ op w => some (perform op w)
  refuse := refuse
  tick := fun t w => { w with now := w.now+t }

theorem driver_fits : driver.Fits machine where
  perform := fun _ op w x _ h => by
    cases op with
    | clock =>
      cases h
      exact ⟨rfl,rfl⟩
    | get =>
      cases h
      exact ⟨rfl,.inr rfl⟩
    | put =>
      simp only [driver,perform] at h
      split at h
      next hm =>
        cases h
        exact .inr ⟨hm,rfl,.inl rfl⟩
      · cases h
        exact .inl ⟨⟨_,rfl⟩,rfl⟩
  refuse := fun _ op w x h => by
    cases op with
    | clock => cases h
    | get =>
      cases h
      exact ⟨rfl,.inl ⟨_,rfl⟩⟩
    | put =>
      cases h
      exact .inl ⟨⟨_,rfl⟩,rfl⟩
  tick := fun t w => ⟨rfl,Nat.le_add_right _ t⟩

def noLease : LeaseWorld := ⟨.empty,0⟩

def grantedTo (lease : Lease) (m : LeaseMoment) : Bool :=
  match m.event with
  | .finish _ _ r => granted r = some lease
  | _ => false

theorem leases_are_exclusive_takeover :
    ∃ ms d, machine.Run (.idle noLease) ms d ∧
    (ms.any (grantedTo ⟨"a",1,10,none⟩) && ms.any (grantedTo ⟨"b",2,30,none⟩)) = true ∧
    Ownership ms := by
  obtain ⟨ms,d,h,hc⟩ := Driver.drive_any driver_fits
    [.start 0 ⟨.acquire "a" 10,32⟩,.complete 0 20,.tick 20,
      .start 1 ⟨.acquire "b" 10,32⟩,.complete 1 20] (.idle noLease)
    (fun ms _ => (ms.any (grantedTo ⟨"a",1,10,none⟩) && ms.any (grantedTo ⟨"b",2,30,none⟩)) = true)
    (by decide +kernel)
  exact ⟨ms,d,h,hc,leases_are_exclusive h⟩

end Leases

end StorageKit
