import TinyAgents.StorageKit.Keys
import TinyAgents.StorageKit.Records

namespace StorageKit

open Interaction List Option Records

namespace Counters

section

def maxValue : Nat := 2^63-1

structure Body where
  value : Nat

def checkedAdd (a b : Nat) : Option Nat :=
  if a+b < 2^64 then some (a+b) else none

def advance (body : Option Body) : Except StorageError (Option Body) :=
  match body.elim (some 1) fun b => (checkedAdd b.value 1).filter (· ≤ maxValue) with
  | some value => .ok (some ⟨value⟩)
  | none => .error (.invalidInput "counter overflow")

def raise (minimum : Nat) : Option Body → Except StorageError (Option Body)
  | some b => .ok (if minimum ≤ b.value then none else some ⟨minimum⟩)
  | none => .ok (some ⟨minimum⟩)

structure Name where
  owner : String
  name : String

abbrev CounterTask (α : Type) := Records.RecordTask Unit String Body α

variable (codec : KeyCodec) (counter : Name)

def id : Except StorageError String :=
  compositeKey codec [counter.owner,counter.name]

def next (attempts : Nat) : CounterTask Nat := do
  let id ← Fallible.ofExcept (id codec counter)
  match ← Records.update () id attempts (silent advance) with
  | (some (body,_),_) => return body.value
  | (none,_) => throw (.backend "counter update declined unexpectedly")

def peek : CounterTask Nat := do
  let id ← Fallible.ofExcept (id codec counter)
  let found ← Records.get id
  return found.elim 0 fun found => found.doc.value

def setAtLeast (attempts minimum : Nat) : CounterTask Nat :=
  if maxValue < minimum then throw (.invalidInput "counter value out of range")
  else do
    let id ← Fallible.ofExcept (id codec counter)
    match ← Records.update () id attempts (silent (raise minimum)) with
    | (some (body,_),_) => return body.value
    | (none,_) => peek codec counter

inductive CounterCall where
  | next (attempts : Nat)
  | peek
  | setAtLeast (attempts minimum : Nat)

inductive CounterReply where
  | next (result : Except StorageError Nat)
  | peek (result : Except StorageError Nat)
  | setAtLeast (result : Except StorageError Nat)

def serve : CounterCall → Program (Records.RecordOp Unit String Body) Records.RecordAns CounterReply
  | .next attempts => do return .next (← (next codec counter attempts).run)
  | .peek => do return .peek (← (peek codec counter).run)
  | .setAtLeast attempts minimum => do
    return .setAtLeast (← (setAtLeast codec counter attempts minimum).run)

def callers : Machine CounterCall (Records.RecordOp Unit String Body) Records.RecordAns
    (Records.Shelf String Body) CounterReply where
  code := serve codec counter
  outcome := fun _ => Records.RecordOutcome
  env := Eq

def Rises (_ : Unit) (_ : String) (found : Option Body) (body : Body) : Prop :=
  body.value ≤ maxValue ∧ ∀ b ∈ found, b.value < body.value

variable {key : String}

theorem advance_rises {found} {body : Body} (h : advance found = .ok (some body)) :
    Rises () key found body := by
  unfold advance at h
  split at h
  next value hv =>
    cases h
    cases found with
    | none =>
      cases hv
      exact ⟨by decide,nofun⟩
    | some b =>
      obtain ⟨hc,hle⟩ := filter_eq_some_iff.1 hv
      have hle : value ≤ maxValue := of_decide_eq_true hle
      have hvalue : b.value+1 = value := by
        unfold checkedAdd at hc
        split at hc
        · exact Option.some.inj hc
        · exact nomatch hc
      refine ⟨hle,?_⟩
      rintro _ ⟨⟩
      exact hvalue ▸ Nat.lt_succ_self _
  · exact nomatch h

theorem advance_full {b : Body} (h : maxValue ≤ b.value) :
    advance (some b) = .error (.invalidInput "counter overflow") := by
  have hn : (checkedAdd b.value 1).filter (· ≤ maxValue) = none := by
    refine filter_eq_none_iff.2 fun v hv => ?_
    unfold checkedAdd at hv
    split at hv
    · cases hv
      simp only [decide_eq_true_eq]
      omega
    · exact nomatch hv
  rw [advance,Option.elim,hn]

theorem raise_rises {minimum : Nat} {found} {body : Body} (hmin : ¬ maxValue < minimum)
    (h : raise minimum found = .ok (some body)) : Rises () key found body := by
  cases found with
  | none =>
    cases h
    exact ⟨Nat.not_lt.1 hmin,nofun⟩
  | some =>
    rw [raise] at h
    split at h
    · exact nomatch h
    next hlt =>
      cases h
      refine ⟨Nat.not_lt.1 hmin,?_⟩
      rintro _ ⟨⟩
      exact Nat.not_le.1 hlt

def Above (v : Nat) (found : Option Body) : Prop := ∃ b ∈ found, v ≤ b.value

theorem Above.turns {v : Nat} {d d'} (h : Above v d)
    (ht : Records.Turns (anyone Rises key) d d') : Above v d' := by
  induction ht with
  | refl => exact h
  | tail _ hs ih =>
    obtain ⟨b,hb,hv⟩ := ih
    obtain ⟨body,rfl,-,-,hr⟩ := hs
    exact ⟨body,rfl,Nat.le_of_lt (Nat.lt_of_le_of_lt hv (hr b hb))⟩

theorem above_raised {minimum : Nat} {r} {w}
    (h : Records.Updated Rises key (silent (raise minimum)) r w) :
    Above minimum (w key).doc := by
  obtain ⟨found,x,-,hf,ht⟩ := h
  have hf := silent_eq_ok hf
  refine Above.turns ?_ ht
  cases found with
  | none =>
    rw [← Except.ok.inj hf]
    exact ⟨⟨minimum⟩,rfl,Nat.le_refl _⟩
  | some b =>
    rw [raise] at hf
    split at hf
    next hle =>
      rw [← Except.ok.inj hf]
      exact ⟨b,rfl,hle⟩
    · rw [← Except.ok.inj hf]
      exact ⟨⟨minimum⟩,rfl,Nat.le_refl _⟩

end

section

variable {codec : KeyCodec} {counter : Name}

abbrev logic := sharing Rises

def Kept (codec : KeyCodec) (counter : Name) :
    CounterCall → CounterReply → Records.Shelf String Body → Prop
  | .setAtLeast _ minimum, .setAtLeast (.ok _), w =>
    ∃ key, id codec counter = .ok key ∧ Above minimum (w key).doc
  | _, _, _ => True

theorem safe_peek {I} (hI : Stable logic I) {w} (hw : I w) :
    Safe logic (fun _ => I) (peek codec counter).run w := by
  refine safe_ofExcept (fun _ _ => ?_) fun e _ v hr => hI w v hr hw
  intro v hr
  refine ⟨trivial,?_⟩
  rintro (e | _) _ ⟨rfl,-⟩ v' hr'
  all_goals exact hI _ v' hr' (hI w _ hr hw)

theorem safe_setAtLeast {attempts minimum : Nat} {w} :
    Ensures logic (fun _ v => ∃ key, id codec counter = .ok key ∧ Above minimum (v key).doc)
      (fun _ _ => True) (setAtLeast codec counter attempts minimum) w := by
  have hstable : Stable logic fun v => ∃ key, id codec counter = .ok key ∧
      Above minimum (v key).doc := by
    rintro v _ hr ⟨key,hk,ha⟩
    exact ⟨key,hk,ha.turns (hr.turns key)⟩
  unfold setAtLeast
  split
  · exact fun _ _ => trivial
  next hmin =>
    refine safe_ofExcept (fun key hk => ?_) fun _ _ _ _ => trivial
    refine safe_try (safe_update
      (fun _ _ _ hf => raise_rises hmin (silent_eq_ok hf)) w) fun r v hv => ?_
    have hset : ∃ key, id codec counter = .ok key ∧ Above minimum (v key).doc :=
      ⟨key,hk,above_raised hv⟩
    obtain ⟨_ | ⟨_,_⟩,x⟩ := r
    · refine safe_mono ?_ (safe_peek hstable hset)
      rintro (e | _) v' hv'
      · trivial
      · exact hv'
    · exact safe_ok hstable hset

theorem safe_serve (call : CounterCall) (w : Records.Shelf String Body) :
    Safe logic (Kept codec counter call) (serve codec counter call) w := by
  cases call with
  | next =>
    refine safe_bind (Q := fun _ _ => True) ?_ ?_
    · exact fun _ _ _ _ _ => trivial
    refine safe_ofExcept (fun key hk => ?_) fun _ _ _ _ => trivial
    refine safe_bind (fun r v _ => ?_)
      (safe_update (fun _ _ _ hf => advance_rises (silent_eq_ok hf)) w)
    obtain e | ⟨_ | ⟨body,version⟩,x⟩ := r
    all_goals exact fun _ _ => trivial
  | peek =>
    refine safe_bind ?_ (safe_peek (fun _ _ _ _ => trivial) trivial)
    exact fun _ _ _ _ _ => trivial
  | setAtLeast =>
    refine safe_bind ?_ safe_setAtLeast
    intro r v hv _ hr
    obtain e | value := r
    · trivial
    · obtain ⟨key,hk,ha⟩ := hv
      exact ⟨key,hk,ha.turns (hr.turns key)⟩

theorem contract :
    (callers codec counter).Contract (fun _ => True) (fun _ => True) (fun _ => logic)
      (fun _ => Kept codec counter) :=
  sharing_contract (fun _ _ _ _ _ ho => ho) (fun _ _ he => he.symm) safe_serve

end

variable {codec : KeyCodec} {counter : Name} {key : String} {w : Records.Shelf String Body}

abbrev CounterMoment := Moment CounterCall (Records.RecordOp Unit String Body) Records.RecordAns
  (Records.Shelf String Body) CounterReply

abbrev CounterConfig := Config CounterCall (Records.RecordOp Unit String Body) Records.RecordAns
  (Records.Shelf String Body) CounterReply

def advanced (key : String) (call : CounterCall) (op : Records.RecordOp Unit String Body)
    (x : Records.RecordAns op) : Option Nat :=
  match call with
  | .next _ => (committed key op x).map Body.value
  | _ => none

def returned : CounterReply → Option Nat
  | .next (.ok value) => some value
  | _ => none

def value (e : Nat × CounterCall × Nat) : Nat := e.2.2

structure Numbered (key : String) (ms : List CounterMoment) : Prop where
  rising : ((serial (advanced key) ms).map value).Pairwise (· < ·)
  committed : ∀ i, only i (answered returned ms) <+: only i (serial (advanced key) ms)
  different : ((answered returned ms).map value).Nodup
  minima : ∀ before m between n after, ms = before++m :: (between++n :: after) →
    ∀ i attempts minimum r, m.event = .finish i (.setAtLeast attempts minimum)
      (.setAtLeast (.ok r)) → ∀ e ∈ n.effect (advanced key), minimum < value e
  overflow : ∀ before m after, ms = before++m :: after →
    ∀ i attempts r, m.event = .finish i (.next attempts) r →
      ∀ e ∈ own i before, ∀ b, reading e = some (some b) → maxValue ≤ b.value →
        r = .next (.error (.invalidInput "counter overflow")) ∧ Records.Idle (own i before)

abbrev Sane (codec : KeyCodec) (counter : Name) (m : CounterMoment) : Prop :=
  (callers codec counter).Kept (fun _ => True) (fun _ => logic) (fun _ => Kept codec counter) m

variable {c : CounterConfig} {m : CounterMoment} {attempts : Nat}

theorem sane_run {ms} (h : (callers codec counter).Run (.idle w) ms c) :
    ∀ m ∈ ms, Sane codec counter m :=
  (h.sound contract (Machine.sound_idle trivial)).2

theorem Sane.rely (h : Sane codec counter m) : Records.Rely Rises m.before m.after :=
  h.within (logic).rely_refl (fun _ _ _ _ _ hg ho => rely_of_outcome hg ho)
    fun w _ he => he ▸ (logic).rely_refl w

theorem Sane.commit (h : Sane codec counter m) {e} (he : m.effect (advanced key) = some e) :
    (∀ b ∈ (m.before key).doc, b.value < value e) ∧ Above (value e) (m.after key).doc := by
  obtain ⟨_,event,after⟩ := m
  obtain ⟨-,-,h⟩ := h
  cases event with
  | did _ call =>
    obtain ⟨v,hv,rfl⟩ := map_eq_some_iff.1 he
    cases call with
    | peek | setAtLeast => exact nomatch hv
    | next =>
      obtain ⟨body,hbody,rfl⟩ := map_eq_some_iff.1 hv
      unfold committed at hbody
      split at hbody
      next k _ doc _ =>
        split at hbody
        next hkey =>
          cases hbody
          subst hkey
          obtain ⟨⟨e,hx⟩,-⟩ | ⟨hm,ha,-⟩ := h.2
          · exact nomatch hx
          have ha : after = _ := ha
          refine ⟨(h.1 hm).2,?_⟩
          simp only [ha,Function.update_self]
          exact ⟨body,rfl,Nat.le_refl _⟩
        · exact nomatch hbody
      · exact nomatch hbody
  | _ => exact nomatch he

theorem rising {ms} (h : (callers codec counter).Run (.idle w) ms c) :
    ((serial (advanced key) ms).map value).Pairwise (· < ·) ∧
    ∀ v ∈ (serial (advanced key) ms).map value, Above v (c.world key).doc := by
  refine h.history (P := fun ns w => ((serial (advanced key) ns).map value).Pairwise (· < ·) ∧
    ∀ v ∈ (serial (advanced key) ns).map value, Above v (w key).doc) ⟨.nil,nofun⟩ ?_
  rintro ns m hm ⟨hpair,habove⟩
  have hs := sane_run h m hm
  have hkeep : ∀ v ∈ (serial (advanced key) ns).map value, Above v (m.after key).doc :=
    fun v hv => (habove v hv).turns (hs.rely.turns key)
  rw [serial_snoc,map_append]
  cases he : m.effect (advanced key) with
  | none => simpa using ⟨hpair,by simpa using hkeep⟩
  | some =>
    obtain ⟨hlt,hup⟩ := hs.commit he
    refine ⟨pairwise_append.2 ⟨hpair,pairwise_singleton _ _,?_⟩,?_⟩
    · intro v hv _ hv'
      obtain ⟨b,hb,hle⟩ := habove v hv
      rw [mem_singleton.1 hv']
      exact Nat.lt_of_le_of_lt hle (hlt b hb)
    · intro v hv
      rcases mem_append.1 hv with hv | hv
      · exact hkeep v hv
      · rw [mem_singleton.1 hv]
        exact hup

theorem matched (hk : id codec counter = .ok key) (call : CounterCall) :
    Safe (tracing (fun _ _ => True) (gather (advanced key call)))
      (Matched (fun _ v => v) returned call) (serve codec counter call) [] := by
  cases call with
  | next =>
    refine safe_bind (Q := fun r l => l = r.toOption.toList) ?_ ?_
    · rintro (e | v) _ rfl _ rfl
      all_goals rfl
    refine safe_ofExcept (fun k hk' => ?_) ?_
    swap
    · rintro e - _ rfl
      rfl
    cases hk.symm.trans hk'
    refine safe_bind ?_ traced_update
    rintro (e | ⟨_ | ⟨_,_⟩,x⟩) _ rfl _ rfl
    all_goals rfl
  | peek | setAtLeast =>
    refine safe_bind ?_ tracing_none
    rintro r _ rfl _ rfl
    rfl

theorem minima (hk : id codec counter = .ok key) {before between after} {n}
    (h : (callers codec counter).Run (.idle w) (before++m :: (between++n :: after)) c)
    {i minimum r : Nat}
    (hm : m.event = .finish i (.setAtLeast attempts minimum) (.setAtLeast (.ok r))) {e}
    (he : n.effect (advanced key) = some e) : minimum < value e := by
  have hsane := sane_run h
  obtain ⟨_,d,-,hs,hrest⟩ := h.at
  have hset : Above minimum (d.world key).doc := by
    obtain ⟨-,-,hkept⟩ := hsane m (by simp)
    rw [hm] at hkept
    obtain ⟨⟨k,hk',ha⟩,heq⟩ := hkept
    cases hk.symm.trans hk'
    rw [← hs.after_eq,heq]
    exact ha
  obtain ⟨d',_,hbetween,hs',-⟩ := hrest.at
  have hup : Above minimum (d'.world key).doc :=
    (hbetween.before (P := fun w => Above minimum (w key).doc) hset fun m hm ha =>
      ha.turns ((hsane m (by simp [hm])).rely.turns key)).1
  rw [← hs'.before_eq] at hup
  obtain ⟨b,hb,hle⟩ := hup
  exact Nat.lt_of_le_of_lt hle ((hsane n (by simp)).commit he |>.1 b hb)

theorem refuses_next :
    Safe (recording fun e => Records.RecordOutcome e.op e.before e.answer e.after)
      (Records.Refuses (silent advance)) (next codec counter attempts).run [] := by
  refine safe_ofExcept (fun _ _ => ?_) fun e _ => recording_ret nofun
  refine safe_bind ?_ recorded_update
  rintro (e | ⟨_ | ⟨_,_⟩,x⟩) _ hes
  · refine recording_ret fun x hx found hfound err herr => ?_
    obtain ⟨he,hidle⟩ := hes x hx found hfound err herr
    cases he
    exact ⟨rfl,hidle⟩
  all_goals
    exact recording_ret fun x hx found hfound err herr =>
      nomatch (hes x hx found hfound err herr).1

theorem overflow {before after}
    (h : (callers codec counter).Run (.idle w) (before++m :: after) c) {i : Nat}
    {r} (hm : m.event = .finish i (.next attempts) r) {e} (he : e ∈ own i before) {b : Body}
    (hb : reading e = some (some b)) (hfull : maxValue ≤ b.value) :
    r = .next (.error (.invalidInput "counter overflow")) ∧ Records.Idle (own i before) := by
  have hown : ∃ r', r = .next r' ∧ Records.Refuses (silent advance) r' (own i before) := by
    refine h.finish_own (Q := fun call r es => ∀ attempts, call = .next attempts →
      ∃ r', r = .next r' ∧ Records.Refuses (silent advance) r' es) ?_ hm attempts rfl
    intro call
    cases call with
    | next =>
      refine safe_bind (fun r es hes => recording_ret ?_) refuses_next
      rintro _ ⟨⟩
      exact ⟨r,rfl,hes⟩
    | peek | setAtLeast => exact safe_mono (fun _ _ _ _ hc => nomatch hc) recording_true
  obtain ⟨_,rfl,hr⟩ := hown
  have hfail : silent advance (some b) = .error (.invalidInput "counter overflow") := by
    rw [silent,advance_full hfull]
    rfl
  obtain ⟨rfl,hidle⟩ := hr e he (some b) hb _ hfail
  exact ⟨rfl,hidle⟩

theorem next_values (hk : id codec counter = .ok key) {ms : List CounterMoment} {c : CounterConfig}
    (h : (callers codec counter).Run (.idle w) ms c)
    (hcrash : ∀ m ∈ ms, ∀ i call, m.event ≠ .crash i call) : Numbered key ms := by
  have hcommitted i :
      only i (answered returned ms) <+: only i (serial (advanced key) ms) := by
    obtain ⟨_,_,hs,ha,-⟩ := h.placed (fun _ _ _ _ _ _ => trivial) (matched hk) hcrash i
    rw [hs,← ha,List.map_congr_left fun _ _ => rfl,List.map_id']
    exact List.prefix_append _ _
  exact {
    rising := (rising h).1
    committed := hcommitted
    different := by
      have hdiff : ((serial (advanced key) ms).map value).Nodup :=
        (rising h).1.imp Nat.ne_of_lt
      obtain ⟨l,hperm,hsub⟩ := subperm_of_only fun i => (hcommitted i).sublist
      exact (hperm.map value).nodup_iff.1 (hdiff.sublist (hsub.map value))
    minima := by
      rintro _ m _ n _ rfl i _ _ r hm e he
      exact minima hk h hm he
    overflow := by
      rintro _ m _ rfl i _ r hm e he b hb hfull
      exact overflow h hm he hb hfull }

-- The second caller's minimum gets in between the read and the write of the first one's call.
theorem next_values_raised :
    ∃ ms c, id nibbles ⟨"orders","id"⟩ = .ok "orders/id" ∧
    (callers nibbles ⟨"orders","id"⟩).Run (.idle fun _ => .empty) ms c ∧
    (∀ m ∈ ms, ∀ i call, m.event ≠ .crash i call) ∧ (answered returned ms).map value = [6,7] ∧
    Numbered "orders/id" ms := by
  have hid : id nibbles ⟨"orders","id"⟩ = .ok "orders/id" := by rfl
  obtain ⟨ms,c,hr,hcut,ho⟩ := driver.drive_any
    (driver_fits (M := callers nibbles ⟨"orders","id"⟩) (fun _ _ _ _ _ h => h)
      (fun _ => rfl) fun _ _ _ => trivial)
    [.start 0 (.next 32),.act 0 1,.start 1 (.setAtLeast 32 5),.complete 1 9,.complete 0 9,
      .start 0 (.next 32),.complete 0 9] (.idle fun _ => .empty)
    (fun ms _ => (∀ m ∈ ms, ∀ i call, m.event ≠ .crash i call) ∧
      (answered returned ms).map value = [6,7]) (by decide +kernel)
  exact ⟨ms,c,hid,hr,hcut,ho,next_values hid hr hcut⟩

end Counters

end StorageKit
