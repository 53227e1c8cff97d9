import TinyAgents.Completions.Requests
import TinyAgents.Completions.FinalStates

namespace Completions

open Interaction List Option CompletionRecord

def carried (w : World) (taskId : String) : Option ClaimToken :=
  (w.get taskId).bind fun r => r.claim.map CompletionClaim.token

variable {n : Nat} {w : World}

theorem carried_of_get {taskId : String} {r} (h : w.get taskId = some r) :
    carried w taskId = r.claim.map CompletionClaim.token := by
  rw [carried,h]
  rfl

def CanSettle (w : World) (taskId : String) (token : ClaimToken) : Prop :=
  ∃ r q, w.get taskId = some r ∧ q.token = token ∧ r.Settles q w.now

theorem CanSettle.carries {taskId : String} {token : ClaimToken} (h : CanSettle w taskId token) :
    carried w taskId = some token := by
  obtain ⟨r,q,hr,rfl,hs⟩ := h
  obtain ⟨_,hc,ht⟩ := (any_eq_true _ _).1 hs.2.2.2
  simp only [Bool.decide_and,Bool.and_eq_true,decide_eq_true_eq] at ht
  rw [carried_of_get hr,hc,← ht.1]
  rfl

variable (taskId : String) (m : CompletionMoment)

def TokenLost (taskId : String) (token : ClaimToken) : Prop :=
  carried m.before taskId = some token ∧ carried m.after taskId ≠ some token

def NewToken (n m : CompletionMoment) : Prop :=
  ∀ op ∈ m.op, ∀ token ∈ op.claimToken, ∀ r ∈ n.before.store.records.entries,
    ∀ claim ∈ r.claim, claim.token.uuid ≠ token

instance (n m : CompletionMoment) : Decidable (NewToken n m) :=
  inferInstanceAs (Decidable (∀ op ∈ m.op, ∀ token ∈ op.claimToken,
    ∀ r ∈ n.before.store.records.entries, ∀ claim ∈ r.claim, claim.token.uuid ≠ token))

def FreshTokens (ms : List CompletionMoment) : Prop :=
  ms.Pairwise NewToken

instance (ms : List CompletionMoment) : Decidable (FreshTokens ms) :=
  inferInstanceAs (Decidable (ms.Pairwise NewToken))

def Spent (past : List CompletionMoment) (w : World) (q : ResolveClaimRequest) : Prop :=
  (∃ n ∈ past, TokenLost n q.taskId q.token) ∨
    ∃ r, w.get q.taskId = some r ∧ (r.parentEpoch ≠ q.parentEpoch ∨ r.state ≠ .pending)

def delivers : Bool :=
  match m.event with
  | .did _ _ (.resolveClaim q) (.ok (some _)) => q.taskId = taskId ∧ q.resolution = .delivered
  | _ => false

def claimedRecords : List CompletionRecord :=
  match m.event with
  | .did _ _ (.claimPending _) (.ok records) => records
  | .did _ _ (.claimTask _) (.ok (some r)) => [r]
  | _ => []

def claims : Bool :=
  (claimedRecords m).any fun r => r.taskId = taskId

def attemptsOf (w : World) (taskId : String) : Nat :=
  (w.get taskId).elim 0 attempts

def GivesUp (taskId : String) : Prop :=
  (m.before.get taskId).map CompletionRecord.state ≠ some .gaveUp ∧
    (m.after.get taskId).map CompletionRecord.state = some .gaveUp

section

variable {i : Nat} {w w' : World}

theorem resolve_cases {q} {x} (h : Outcome i (.resolveClaim q) w x w') :
    (w' = w ∧ ∀ r, x ≠ .ok (some r)) ∨ ∃ r, w.get q.taskId = some r ∧ r.Settles q w.now ∧
    w'.get q.taskId = some (r.settled q.resolution w.now) := by
  rcases h with ⟨e,rfl,rfl⟩ | ⟨a,s,hs,rfl,rfl⟩
  · exact .inl ⟨rfl,fun r hr => by cases hr⟩
  obtain ⟨-,ha,rfl⟩ := Store.withCurrentGate_ok hs
  cases hr : w.store.records.get q.taskId with
  | none =>
    simp only [hr] at ha ⊢
    exact .inl ⟨rfl,fun r h => by rw [ha] at h; cases h⟩
  | some r =>
    simp only [hr] at ha ⊢
    by_cases hq : r.Settles q w.now
    · simp only [hq,if_true] at ha ⊢
      have hid : r.taskId = q.taskId := Table.key_of_get hr
      have hid : (r.settled q.resolution w.now).taskId = q.taskId := hid
      exact .inr ⟨r,hr,hq,by rw [World.setStore_get,← hid,Table.get_insert_self]⟩
    · simp only [hq,if_false] at ha ⊢
      exact .inl ⟨rfl,fun r h => by rw [ha] at h; cases h⟩

theorem claims_of_changed {call : RouterCall} {op : Op} {x : Ans op} {token : Uuid}
    (h : Outcome i op w x w') (hop : op.claimToken = some token) {id : String} :
    w'.get id = w.get id ∨ claims id ⟨w,.did i call op x,w'⟩ := by
  cases op with
  | claimPending q =>
    rcases h with ⟨e,rfl,rfl⟩ | ⟨a,s,hs,rfl,rfl⟩
    · exact .inl rfl
    rw [Store.claimPending] at hs
    obtain ⟨-,rfl,rfl⟩ := Store.withCurrentGate_ok hs
    by_cases hm : ∃ r ∈ (w.store.candidates q w.now).map fun r =>
        r.claimed q.token q.visibleAfter w.now, r.taskId = id
    · obtain ⟨r,hr,hid⟩ := hm
      exact .inr (any_eq_true.2 ⟨r,hr,by simpa using hid⟩)
    · exact .inl (Table.get_insertAll_of_notMem fun r hr he => hm ⟨r,hr,he⟩)
  | claimTask q =>
    rcases h with ⟨e,rfl,rfl⟩ | ⟨a,s,hs,rfl,rfl⟩
    · exact .inl rfl
    obtain ⟨-,rfl,rfl⟩ := Store.withCurrentGate_ok hs
    cases hr : w.store.records.get q.taskId with
    | none => exact .inl (by simp [World.get])
    | some r =>
      by_cases hc : r.Claimable q.parentKey q.parentEpoch q.mode w.now
      · by_cases hid : r.taskId = id
        · exact .inr (by simp [claims,claimedRecords,hc,claimed,hid])
        refine .inl ?_
        simp only [World.setStore_get,hc,if_true]
        exact Table.get_insert_ne hid
      · exact .inl (by simp [World.get,hc])
  | _ => cases hop

end

def deliveryScope : Scope where
  clean := False
  solo := False
  lasting := True
  tombstones := False
  strict := True
  versioned := False
  versioned_clean := id
  versioned_strict := fun _ => trivial

def RouterCall.keepsTasks : RouterCall → Bool
  | .tombstone _ _ => false
  | .compact _ _ => false
  | _ => true

def deliveryCalls : Nat → RouterCall → World → Prop :=
  fun _ call _ => call.keepsTasks = true

variable {lifecycle : Nat} {parentKey : String}

theorem deliveryScope_meets {ms} : deliveryScope.Meets ms := by
  intro m _ op _
  cases op with
  | putFenced site =>
    cases site with
    | suppress | reserve | resume => exact fun h => h.elim
    | upgrade => exact fun _ _ hp => absurd (.inl trivial) hp
    | withdraw | enrol | restore | close => trivial
  | _ => trivial

abbrev DeliveryKept : CompletionMoment → Prop :=
  deliveryScope.RunKept (fun _ => False) deliveryCalls

theorem delivery_kept {c} {ms} (h : (machine deliveryCalls).Run (.idle w) ms c) :
    ∀ m ∈ ms, DeliveryKept m :=
  (Scope.run_sound (S := deliveryScope) (fun _ call _ _ _ => ⟨fun h => h.elim,by
    constructor <;> cases call <;> first | trivial | exact fun h => h.elim⟩) h deliveryScope_meets
    (Scope.runSound_idle ⟨fun h => h.elim,fun h => h.elim,fun h => h.elim⟩)).2

section

variable {m : CompletionMoment} {taskId : String}

section

variable (h : DeliveryKept m)

include h

theorem claim_answered {op : Op} (hop : m.op = some op) {token : Uuid}
    (ht : op.claimToken = some token) {id : String} :
    m.after.get id = m.before.get id ∨ claims id m := by
  obtain ⟨w,_,_⟩ := m
  rcases Scope.RunKept.cases h with ⟨hn,-⟩ | ⟨i,_,_,x,rfl,-,-,ho⟩
  · rw [hop] at hn
    cases hn
  · cases hop
    exact claims_of_changed ho ht

theorem delivers_step (hd : delivers taskId m) :
    (∃ r, m.before.get taskId = some r ∧ r.state = .pending) ∧
    ∃ r, m.after.get taskId = some r ∧ r.state ≠ .pending := by
  obtain ⟨w,event,_⟩ := m
  rcases Scope.RunKept.cases h with ⟨hn,-⟩ | ⟨i,_,_,x,rfl,-,-,ho⟩
  · cases event <;> first | cases hd | cases hn
  unfold delivers at hd
  split at hd
  next q r he =>
    cases he
    obtain ⟨rfl,hq⟩ := of_decide_eq_true hd
    rcases resolve_cases ho with ⟨-,hn⟩ | ⟨r0,hr0,hs,hr⟩
    · exact absurd rfl (hn r)
    · refine ⟨⟨r0,hr0,hs.2.2.1⟩,_,hr,?_⟩
      simp [settled,settledState,hq]
  · cases hd

section

variable (ht : ¬ IsMarkerId taskId)

include ht

theorem DeliveryKept.fate : deliveryScope.Fate m taskId :=
  Scope.RunKept.fate ⟨trivial,id⟩ h ht

theorem present_step (hp : (m.before.get taskId).isSome) : (m.after.get taskId).isSome := by
  cases h.fate ht with
  | same h => rw [h]; exact hp
  | rewritten _ _ _ _ hr => rw [hr]; rfl
  | swept _ _ hn => exact absurd trivial hn

theorem token_step (hp : (m.before.get taskId).isSome) {token : ClaimToken}
    (hn : carried m.before taskId ≠ some token) (ha : carried m.after taskId = some token) :
    ∃ op ∈ m.op, op.claimToken = some token.uuid := by
  have hkeep {r r0} (h0 : m.before.get taskId = some r0)
      (hr : m.after.get taskId = some r) (hc : r.claim = r0.claim) : False := by
    apply hn
    rw [← ha,carried_of_get h0,carried_of_get hr,hc]
  cases h.fate ht with
  | same h =>
    rw [carried,h] at ha
    exact absurd ha hn
  | swept _ _ hn => exact absurd trivial hn
  | rewritten _ op _ hop hr hid hw =>
    subst hid
    cases hw with
    | inserted h0 => rw [h0] at hp; cases hp
    | reserved h => exact h.elim
    | withdrawn _ h0 _ _ _ hc | upgraded _ h0 _ _ _ hc => exact (hkeep h0 hr hc).elim
    | claimed _ _ _ hu _ _ _ hrc =>
      refine ⟨op,hop,?_⟩
      rw [carried_of_get hr,hrc] at ha
      rw [hu,← Option.some.inj ha]
    | resolved _ _ _ _ _ _ _ hrs =>
      rw [carried_of_get hr,hrs] at ha
      cases ha

theorem attempts_step :
    attemptsOf m.after taskId ≤ attemptsOf m.before taskId+(claims taskId m).toNat := by
  have hkeep {r r0} (h0 : m.before.get taskId = some r0)
      (hr : m.after.get taskId = some r) (hc : r.attempts = r0.attempts) :
      attemptsOf m.after taskId ≤ attemptsOf m.before taskId+(claims taskId m).toNat := by
    simp [attemptsOf,h0,hr,hc]
  cases h.fate ht with
  | same h =>
    rw [attemptsOf,h]
    exact Nat.le_add_right _ _
  | swept _ _ hn => exact absurd trivial hn
  | rewritten _ _ _ hop hr hid hw =>
    subst hid
    cases hw with
    | inserted _ _ _ hz => simp [attemptsOf,hr,hz]
    | reserved h => exact h.elim
    | withdrawn _ h0 _ _ _ _ hc | upgraded _ h0 _ _ _ _ hc => exact hkeep h0 hr hc
    | resolved _ _ _ _ h0 _ _ hrs => exact hkeep h0 hr (by rw [hrs]; rfl)
    | claimed r0 _ _ hu h0 _ _ hrc =>
      rcases claim_answered h hop hu with hsame | hc
      · rw [attemptsOf,hsame]
        exact Nat.le_add_right _ _
      have hle : saturatingSucc u32Max r0.attempts ≤ r0.attempts+1 := Nat.min_le_left _ _
      simp only [attemptsOf,hr,h0,hc,elim_some,Bool.toNat_true]
      rw [hrc]
      exact hle

theorem givesUp_step (hg : GivesUp m taskId) :
    ∃ q n, m.op = some (.resolveClaim q) ∧ q.resolution = .failed n ∧
    n ≤ attemptsOf m.before taskId := by
  obtain ⟨hb,ha⟩ := hg
  have hstate {r} (hr : m.after.get taskId = some r) : r.state = .gaveUp := by
    rw [hr] at ha
    exact Option.some.inj ha
  have hnot {r r0} (h0 : m.before.get taskId = some r0)
      (hr : m.after.get taskId = some r) (hs : r.state = r0.state) : False := by
    apply hb
    rw [h0,← hstate hr,hs]
    rfl
  have hother {P : Prop} {r} {s}
      (hr : m.after.get taskId = some r) (hs : r.state = s) (hne : s ≠ .gaveUp) : P :=
    absurd (hs.symm.trans (hstate hr)) hne
  cases h.fate ht with
  | same h =>
    rw [h] at ha
    exact absurd ha hb
  | swept _ _ hn => exact absurd trivial hn
  | rewritten _ _ _ hop hr hid hw =>
    subst hid
    cases hw with
    | inserted _ _ hs | reserved _ _ hs | withdrawn _ _ _ _ hs => exact hother hr hs (by decide)
    | upgraded _ h0 _ _ hs => exact (hnot h0 hr hs).elim
    | claimed _ _ _ _ h0 _ _ hrc => exact (hnot h0 hr (by rw [hrc]; rfl)).elim
    | resolved r0 q hq _ h0 _ hset hrs =>
      have hs : r0.settledState q.resolution = .gaveUp := by
        have := hstate hr
        rw [hrs] at this
        exact this
      have hp : r0.state = .pending := hset.2.2.1
      cases hres : q.resolution with
      | delivered => rw [hres] at hs; cases hs
      | release =>
        rw [hres] at hs
        cases hp.symm.trans hs
      | failed n =>
        refine ⟨q,n,by rw [hop,hq],hres,?_⟩
        rw [hres,settledState] at hs
        split at hs
        next hle =>
          rw [attemptsOf,h0]
          exact hle
        · cases hp.symm.trans hs

end

end

variable {M : Machine RouterCall Op Ans World (Except Fault Reply)} {c d : CompletionConfig}
  {ms : List CompletionMoment}

section

variable (hr : M.Run c ms d) (hk : ∀ m ∈ ms, DeliveryKept m) (ht : ¬ IsMarkerId taskId)

include hr hk ht

theorem delivers_run : ms.countP (delivers taskId) ≤ 1 := by
  have h := hr.history (P := fun ns v => ns.countP (delivers taskId) = 0 ∨
    ns.countP (delivers taskId) = 1 ∧ ∃ r, v.get taskId = some r ∧ r.state ≠ .pending)
    (.inl rfl) ?_
  · omega
  intro _ m hm ih
  rw [countP_append,countP_singleton]
  by_cases hd : delivers taskId m
  · obtain ⟨⟨r,hb,hp⟩,ha⟩ := delivers_step (hk m hm) hd
    rcases ih with h0 | ⟨-,_,hb',hs⟩
    · exact .inr ⟨by simp [h0,hd],ha⟩
    rw [hb] at hb'
    cases hb'
    exact absurd hp hs
  · rcases ih with h0 | ⟨h1,r,hb,hs⟩
    · exact .inl (by simp [h0,hd])
    rcases ((hk m hm).fate ht).settled hb hs with ⟨r,hr,hst⟩ | ⟨-,hn⟩
    · exact .inr ⟨by simp [h1,hd],r,hr,by rw [hst]; exact hs⟩
    have hp := present_step (hk m hm) ht (by rw [hb]; rfl)
    rw [hn] at hp
    cases hp

theorem attempts_run :
    attemptsOf d.world taskId ≤ attemptsOf c.world taskId+ms.countP (claims taskId) := by
  refine hr.history (P := fun ns v =>
    attemptsOf v taskId ≤ attemptsOf c.world taskId+ns.countP (claims taskId)) le_rfl ?_
  intro _ m hm _
  have hs := attempts_step (hk m hm) ht
  rw [countP_append,countP_singleton]
  cases hc : claims taskId m with
  | true =>
    rw [hc] at hs
    simp only [Bool.toNat_true,if_true] at hs ⊢
    omega
  | false =>
    rw [hc] at hs
    simp only [Bool.toNat_false] at hs
    simp only [Bool.false_eq_true,if_false]
    omega

theorem lost_token_run {n} {token : ClaimToken} (hfresh : ∀ m ∈ ms, NewToken n m)
    (hlost : carried n.before taskId = some token) (hp : (c.world.get taskId).isSome)
    (hn : carried c.world taskId ≠ some token) : carried d.world taskId ≠ some token := by
  refine (hr.history (P := fun _ v => (v.get taskId).isSome ∧ carried v taskId ≠ some token)
    ⟨hp,hn⟩ ?_).2
  rintro - m hm ⟨hp,hn⟩
  refine ⟨present_step (hk m hm) ht hp,fun ha => ?_⟩
  obtain ⟨op,hop,htoken⟩ := token_step (hk m hm) ht hp hn ha
  obtain ⟨r,hr,hclaim⟩ := bind_eq_some_iff.1 hlost
  obtain ⟨claim,hc,rfl⟩ := map_eq_some_iff.1 hclaim
  exact hfresh m hm op hop _ htoken r (Table.get_eq_some.1 hr).1 claim hc rfl

end

end

def deliveries : (op : Op) → Ans op → Nat
  | .resolveClaim q, .ok (some _) => if q.resolution = .delivered then 1 else 0
  | _, _ => 0

def Reports (n : Nat) : Except Fault Nat → Prop
  | .ok count => count = n
  | .error _ => True

theorem tally_acquire :
    Tally deliveries (fun k _ => k = n) (ParentGateGuard.acquire lifecycle parentKey).run n := by
  refine tally_try (Q := fun k _ => k = n) (fun _ r => ?_) ?_
  · cases r <;> rfl
  rintro _ _ rfl l
  cases l with
  | error => exact fun _ => rfl
  | ok =>
    intro r
    match r with
    | .ok true => rfl
    | .ok false | .error _ => exact fun _ _ => rfl

theorem tally_withGate {α : Type} {body : ParentGateClaim → Task α}
    {Q : Nat → Except Fault α → Prop} (herr : ∀ e, Q n (.error e))
    (h : ∀ claim, Tally deliveries Q (body claim).run n) :
    Tally deliveries Q (withGate lifecycle parentKey body).run n := by
  refine tally_try (Q := fun k _ => k = n) (tally_mono ?_ tally_acquire) ?_
  · rintro k (e | a) rfl
    · exact herr e
    · rfl
  rintro _ claim rfl
  refine tally_bind (fun k r hr => ?_) (h claim)
  exact tally_bind (Q := fun m _ => m = k) (fun _ _ hk => hk ▸ hr) fun _ _ => rfl

variable {router : Router}

theorem tally_withRouter {α : Type} {body : Task α} {Q} (h : Tally deliveries Q body.run n) :
    Tally deliveries Q (withRouter router body).run n := by
  refine tally_bind (Q := fun k _ => k = n) (fun _ _ hk => ?_) (fun _ => rfl)
  subst hk
  refine tally_bind (fun k r hr => ?_) h
  exact fun _ => hr

theorem tally_resolveEach (router : Router) (receipts : List CompletionReceipt) (changed : Nat) :
    Tally deliveries Reports (resolveEach router .delivered receipts changed).run changed := by
  induction receipts generalizing changed with
  | nil => rfl
  | cons _ _ ih =>
    refine tally_try (Q := fun k resolved => k = changed+resolved.elim 0 (fun _ => 1))
      (tally_withGate (fun _ => trivial) fun _ x => ?_) fun k resolved hk => ?_
    · match x with
      | .ok none | .ok (some r) => exact fun _ => rfl
      | .error e => trivial
    · subst hk
      exact ih _

theorem tally_markDelivered {receipts} :
    Tally deliveries (fun n r => ∀ k, r = .ok (.count k) → k = n)
      (RouterCall.markDelivered router receipts).code 0 := by
  refine tally_try (Q := fun n k => k = n) (tally_withRouter (tally_mono ?_
    (tally_resolveEach router receipts 0))) fun n k hk j hj => ?_
  · rintro n (e | k) hr
    · exact fun k hk => by cases hk
    · exact hr
  · cases hj
    exact hk

theorem reported_count {begins} {d} {past rest} {m}
    (h : (machine begins).Run (.idle w) (past ++ m :: rest) d) {i : Nat} {receipts}
    (hm : m.event = .finish i (.markDelivered router receipts) (.ok (.count n))) :
    n = performed deliveries i past := by
  have hcount (call : RouterCall) : Tally deliveries (fun n r => ∀ router receipts,
      call = .markDelivered router receipts → ∀ k, r = .ok (.count k) → k = n) call.code 0 := by
    by_cases hc : ∃ router receipts, call = .markDelivered router receipts
    · obtain ⟨_,_,rfl⟩ := hc
      exact tally_mono (fun n r hr _ _ _ => hr) tally_markDelivered
    · exact tally_mono (fun n r _ _ _ hcall => absurd ⟨_,_,hcall⟩ hc) (tally_true call.code 0)
  rw [performed_eq_weight]
  exact h.finish_own (fun call => (hcount call).recorded) hm _ _ rfl n rfl

theorem spent_idle {past rest} {m} {d}
    (h : (machine deliveryCalls).Run (.idle w) (past ++ m :: rest) d)
    (hfresh : FreshTokens (past ++ m :: rest)) {q} (ht : ¬ IsMarkerId q.taskId)
    (hq : m.op = some (.resolveClaim q)) (hs : Spent past m.before q) : m.after = m.before := by
  have hk := delivery_kept h
  obtain ⟨e,_,hpast,hstep,-⟩ := h.at
  have hno r (hr : m.before.get q.taskId = some r) : ¬ r.Settles q m.before.now := by
    intro hset
    rcases hs with ⟨n,hn,hlost,hafter⟩ | ⟨_,hr',hbad⟩
    · obtain ⟨a,b,rfl⟩ := append_of_mem hn
      obtain ⟨f,_,-,hn',hb⟩ := hpast.at
      have hcan : CanSettle m.before q.taskId q.token := ⟨r,q,hr,rfl,hset⟩
      have hpres : (n.before.get q.taskId).isSome := by
        obtain ⟨_,h0,-⟩ := bind_eq_some_iff.1 hlost
        rw [h0]
        rfl
      have hkn := hk n (mem_append_left _ hn)
      rw [FreshTokens,append_assoc,pairwise_append] at hfresh
      have hnew := (pairwise_cons.1 hfresh.2.1).1
      have hlater := present_step hkn ht hpres
      rw [hn'.after_eq] at hlater hafter
      refine lost_token_run hb (fun k hkb => ?_) ht (fun k hkb => ?_) hlost hlater hafter ?_
      · exact hk k (by simp [hkb])
      · exact hnew k (by simp [hkb])
      · rw [← hstep.before_eq]
        exact hcan.carries
    · rw [hr] at hr'
      cases hr'
      rcases hbad with hbad | hbad
      · exact hbad hset.2.1
      · exact hbad hset.2.2.1
  obtain ⟨w,event,w'⟩ := m
  have hm := hk ⟨w,event,w'⟩ (mem_append_right _ (mem_cons_self ..))
  rcases Scope.RunKept.cases hm with ⟨hn,-⟩ | ⟨i,_,op,x,rfl,-,-,ho⟩
  · rw [hq] at hn
    cases hn
  · cases hq
    rcases resolve_cases ho with ⟨hw,-⟩ | ⟨r,hr,hset,-⟩
    · exact hw
    · exact absurd hset (hno r hr)

structure SettlesOnce (w : World) (ms : List CompletionMoment) (c : CompletionConfig)
    (taskId : String) : Prop where
  one_token : ∀ token token', CanSettle c.world taskId token → CanSettle c.world taskId token' →
    token = token'
  delivered_once : ms.countP (delivers taskId) ≤ 1
  reported : ∀ past m rest, ms = past ++ m :: rest → ∀ i router receipts n,
    m.event = .finish i (.markDelivered router receipts) (.ok (.count n)) →
      n = performed deliveries i past
  spent : ∀ past m rest, ms = past ++ m :: rest → ∀ q, m.op = some (.resolveClaim q) →
    q.taskId = taskId → Spent past m.before q → m.after = m.before
  gave_up : ∀ past m rest, ms = past ++ m :: rest → GivesUp m taskId →
    ∃ i router receipts q x, m.event = .did i (.markFailed router receipts) (.resolveClaim q) x ∧
      router.maxAttempts ≤ attemptsOf w taskId+past.countP (claims taskId)

theorem receipts_settle_once (w : World) {c : CompletionConfig} {ms : List CompletionMoment}
    (h : (machine deliveryCalls).Run (.idle w) ms c) (hfresh : FreshTokens ms) (taskId : String)
    (ht : ¬ IsMarkerId taskId) : SettlesOnce w ms c taskId := by
  have hk := delivery_kept h
  refine ⟨fun _ _ h₁ h2 => ?_,delivers_run h hk ht,?_,?_,?_⟩
  · exact Option.some.inj (h₁.carries.symm.trans h2.carries)
  · rintro _ m _ rfl i _ _ n he
    exact reported_count h he
  · rintro _ m _ rfl q hq rfl hs
    exact spent_idle h hfresh ht hq hs
  rintro _ m _ rfl hg
  obtain ⟨e,_,hpast,hstep,-⟩ := h.at
  have hm := hk m (mem_append_right _ (mem_cons_self ..))
  obtain ⟨q,n,hq,hres,hle⟩ := givesUp_step hm ht hg
  obtain ⟨i,call,x,he⟩ := Moment.did_of_op hq
  have hcall := (h.asks requests_code).2 m (by simp) i call _ x he
  simp only [RouterCall.Requests,hres] at hcall
  obtain ⟨router,receipts,rfl,rfl⟩ := hcall
  refine ⟨i,router,receipts,q,x,he,hle.trans ?_⟩
  rw [hstep.before_eq]
  exact attempts_run hpast (fun n hn => hk n (mem_append_left _ hn)) ht

theorem receipts_settle_once_delivered :
    ∃ ms c, (machine deliveryCalls).Run (.idle oneCompletion) ms c ∧ FreshTokens ms ∧
      ms.countP (delivers "t") = 1 ∧ SettlesOnce oneCompletion ms c "t" := by
  obtain ⟨ms,c,hrun,hfresh,hone⟩ := driver.drive_starting driver_fits
    (fun _ call _ => call.keepsTasks = true) (deliverFinished 1 ++
      [.start 1 (.markDelivered secondRouter [⟨"t","p",1,⟨(1,1),"t"⟩⟩]),.complete 1 100])
    (.idle oneCompletion) (fun ms _ => FreshTokens ms ∧ ms.countP (delivers "t") = 1)
    (by decide +kernel)
  exact ⟨ms,c,hrun,hfresh,hone,receipts_settle_once oneCompletion hrun hfresh "t" (by decide)⟩

end Completions
