import TinyAgents.Completions.Admission
import TinyAgents.Completions.Router

namespace Completions

open Interaction

inductive RouterCall where
  | record (router : Router) (record : CompletionRecord)
  | claim (router : Router) (parentKey : String) (max : Nat) (mode : CompletionClaimMode)
  | markDelivered (router : Router) (receipts : List CompletionReceipt)
  | markFailed (router : Router) (receipts : List CompletionReceipt)
  | release (router : Router) (receipts : List CompletionReceipt)
  | releaseAll (router : Router)
  | attachParent (router : Router) (parentKey : String)
  | detachParent (router : Router) (parentKey : String)
  | tombstone (router : Router) (taskId : String)
  | cancelParent (router : Router) (parentKey : String)
  | deleteParent (router : Router) (parentKey : String)
  | resumeParent (router : Router) (parentKey : String)
  | admitChildGeneration (router : Router) (parentKey : String)
  | parentGenerationAdmitted (router : Router) (parentKey : String) (parentEpoch : Nat)
  | acquirePermit (lifecycle : Nat) (parentKey : String) (parentEpoch : Nat)
  | compact (router : Router) (retain : Nat)

inductive Reply where
  | recorded (outcome : RecordOutcome)
  | records (records : List CompletionRecord)
  | count (n : Nat)
  | tombstoned (outcome : TombstoneOutcome)
  | generation (epoch : Option Nat)
  | admitted (admitted : Bool)
  | done

def reply {α : Type} (f : α → Reply) (task : Task α) : Program Op Ans (Except Fault Reply) :=
  (do let a ← task; return f a : Task Reply).run

def RouterCall.code : RouterCall → Program Op Ans (Except Fault Reply)
  | .record router r => reply .recorded (Completions.record router r)
  | .claim router parentKey max mode => reply .records (Completions.claim router parentKey max mode)
  | .markDelivered router receipts => reply .count (Completions.markDelivered router receipts)
  | .markFailed router receipts => reply .records (Completions.markFailed router receipts)
  | .release router receipts => reply (fun _ => .done) (Completions.release router receipts)
  | .releaseAll router => reply .count (Completions.releaseAll router)
  | .attachParent router parentKey =>
    reply (fun _ => .done) (Completions.attachParent router parentKey)
  | .detachParent router parentKey =>
    reply (fun _ => .done) (Completions.detachParent router parentKey)
  | .tombstone router taskId => reply .tombstoned (Completions.tombstone router taskId)
  | .cancelParent router parentKey => reply .count (Completions.cancelParent router parentKey)
  | .deleteParent router parentKey => reply .count (Completions.deleteParent router parentKey)
  | .resumeParent router parentKey =>
    reply (fun _ => .done) (Completions.resumeParent router parentKey)
  | .admitChildGeneration router parentKey =>
    reply .generation (Completions.admitChildGeneration router parentKey)
  | .parentGenerationAdmitted router parentKey parentEpoch =>
    reply .admitted (Completions.parentGenerationAdmitted router parentKey parentEpoch)
  | .acquirePermit lifecycle parentKey parentEpoch =>
    reply .admitted (Completions.acquirePermit lifecycle parentKey parentEpoch)
  | .compact router retain => reply .count (Completions.compact router retain)

namespace Scope

def Allows (S : Scope) : RouterCall → Prop
  | .record _ r => S.clean → ¬ IsMarkerId r.taskId
  | .tombstone _ taskId => S.tombstones ∧ (S.clean → ¬ IsMarkerId taskId)
  | .compact _ _ => ¬ S.lasting
  | _ => True

variable {S : Scope} {i : Nat} {w : World} {l : Nat} {p : String} {c : ParentGateClaim} {α β : Type}

variable (S i) in
abbrev Fine (task : Task α) (w : World) : Prop :=
  Maintains (S.logic i) S.Inv task w

variable (S i l p c) in
abbrev FineInGate (task : Task α) (w : World) : Prop :=
  Maintains (S.logic i) (S.InGate i l p c)
    task w

theorem fine_withGate {body : ParentGateClaim → Task α} (hi : S.Inv w)
    (hbody : ∀ c v, S.InGate i l p c v → S.FineInGate i l p c (body c) v) :
    S.Fine i (withGate l p body) w :=
  safe_ends (fun _ _ hv => hv.1) (fun _ _ hv => hv) (safe_withGate fact_true
    (fun _ => fact_true) hi trivial fun c v hv _ =>
      safe_ends (fun _ _ hu => ⟨hu,trivial⟩) (fun _ _ hu => hu) (hbody c v hv))

variable {r : CompletionRecord} {state : CompletionState} {receipts : List CompletionReceipt}
  {rest : List CompletionRecord} {n e : Nat} {A : Prop} {router : Router} {call : RouterCall}
  {closed : String → Prop} {task : Task α} {v : World} {K F : World → Prop}

theorem fine_withRouter {body : Task α} (hi : S.Inv w) (hbody : ∀ v, S.Inv v → S.Fine i body v) :
    S.Fine i (withRouter router body) w :=
  safe_ends (fun _ _ hv => hv.1) (fun _ _ hv => hv.1) (safe_withRouter fact_true
    (fun _ => fact_true) fact_true hi trivial fun v hv _ =>
      safe_ends (fun _ _ hu => ⟨hu,trivial⟩) (fun _ _ hu => ⟨hu,trivial⟩) (hbody v hv))

theorem safe_run (h : Maintains (S.logic i) K task w) : Safe (S.logic i) (fun _ => K) task.run w :=
  safe_mono (by rintro (e | a) v hv <;> exact hv) h

section

variable (hK : S.Stable i K) (hw : K w)

include hK hw

theorem safe_updateState {f} : Safe (S.logic i) (fun _ v => K v) (updateState router f) w :=
  safe_quiet trivial hK hw fun _ _ _ _ _ hv' _ => safe_ret hK hv'

theorem safe_readState : Safe (S.logic i) (fun _ v => K v) (readState router) w :=
  safe_quiet trivial hK hw
    fun _ _ _ _ _ hv' _ => safe_ret hK hv'

theorem safe_newUuid : Safe (S.logic i) (fun _ v => K v) newUuid w :=
  safe_quiet trivial hK hw fun _ _ _ _ _ hv' _ => safe_ret hK hv'

theorem safe_getRecord {taskId : String} :
    Safe (S.logic i) (fun r v => K v ∧ ∀ r0, r = some r0 → r0.taskId = taskId)
      (getRecord taskId) w := by
  refine safe_quiet trivial hK hw fun v x _ _ ho hv' _ => ?_
  refine safe_ret (stable_and hK (stable_const _)) ⟨hv',fun r0 hr0 => ?_⟩
  obtain ⟨-,rfl | ⟨-,rfl⟩⟩ := ho
  · exact Table.key_of_get hr0
  · cases hr0

end

theorem inGate_of_attempted {v' : World} {result} {x : Except Fault α} (hv : S.InGate i l p c v)
    (ho : Attempted v result x v') (hi : S.Inv v') : S.InGate i l p c v' := by
  rcases ho with ⟨e,-,rfl⟩ | ⟨a,s,-,-,rfl⟩
  · exact hv
  · exact hv.setStore hi

theorem fine_resolve {receipt} {resolution : ClaimResolution} (hw : S.InGate i l p c w) :
    S.FineInGate i l p c (resolve receipt resolution c) w :=
  safe_ask stable_inGate (fun _ h => h.inv) hw (fun _ h => h.mine) (stable_ends stable_inGate)
    fun _ _ _ hv ho hi' => ends_const (inGate_of_attempted hv ho hi')

theorem safe_releaseEach {D} (hF : S.Fact i D F)
    (hl : ∀ v v' : World, v'.lifecycles = v.lifecycles → F v → F v') (hi : S.Inv w) (hw : F w) :
    Safe (S.logic i) (fun _ v => S.Inv v ∧ F v) (releaseEach router receipts) w := by
  induction receipts generalizing w with
  | nil => exact safe_ret (stable_and stable_inv hF.stable) ⟨hi,hw⟩
  | cons receipt _ ih =>
    refine safe_bind (fun _ v hv => ?_) (safe_updateState (stable_and stable_inv hF.stable) ⟨hi,hw⟩)
    refine safe_bind (Q := fun _ u => S.Inv u ∧ F u) (fun _ u hu => ih hu.1 hu.2) ?_
    refine safe_run (safe_withGate_frame hF (fun _ => hF) hF
      (fun _ h => h) hv.1 hv.2 fun c u hu hfu => ?_)
    have hK := stable_and (stable_inGate (l := router.lifecycle)
      (p := receipt.parentKey) (c := c)) hF.stable
    refine safe_ask hK (fun _ h => h.1.inv) ⟨hu,hfu⟩ (fun _ h => h.1.mine) (stable_ends hK)
      fun t x _ ht ho hi' => ends_const ⟨inGate_of_attempted ht.1 ho hi',?_⟩
    rcases ho with ⟨e,-,rfl⟩ | ⟨a,s,-,-,rfl⟩
    · exact ht.2
    · exact hl t _ rfl ht.2

theorem safe_release {D} (hF : S.Fact i D F)
    (hl : ∀ v v' : World, v'.lifecycles = v.lifecycles → F v → F v') (hi : S.Inv w) (hw : F w) :
    Ensures (S.logic i) (fun _ v => S.Inv v ∧ F v) (fun _ v => S.Inv v ∧ F v)
      (release router receipts) w :=
  safe_withRouter hF (fun _ => hF) hF hi hw fun _ hv hfv =>
    safe_plain (safe_releaseEach hF hl hv hfv)

theorem fine_release (hi : S.Inv w) : S.Fine i (release router receipts) w :=
  safe_ends (fun _ _ hv => hv.1) (fun _ _ hv => hv.1)
    (safe_release fact_true (fun _ _ _ h => h) hi trivial)

theorem fact_held :
    S.Fact i (fun l' p' => l' = l ∧ p' = p) (fun v => (v.entry l p).held = some i) := by
  refine ⟨fun v v' hv hr => ?_,fun v l' p' hv hd => ?_,fun v v' _ he hv => ?_⟩
  · rw [hr.guarded l p hv]
    exact hv
  · obtain ⟨rfl,rfl⟩ := hd
    exact hv
  · rw [he l p ⟨rfl,rfl⟩]
    exact hv

theorem fine_resolve_acknowledge {receipt} {resolution}
    {f} (hw : S.InGate i l p c w) :
    S.FineInGate i l p c (do
      let resolved ← resolve receipt resolution c
      plain (updateState router f)
      return resolved) w := by
  refine safe_try (fine_resolve hw) fun _ v hv => ?_
  refine safe_try (safe_plain (safe_updateState stable_inGate hv)) fun _ u hu => ?_
  exact safe_ret stable_inGate hu

theorem fine_resolveEach {resolution} (hi : S.Inv w) :
    S.Fine i (resolveEach router resolution receipts n) w := by
  induction receipts generalizing w n with
  | nil => exact safe_ret stable_inv hi
  | cons _ _ ih =>
    refine safe_try (fine_withGate hi ?_) fun _ v hv => ih hv
    exact fun _ _ ht => fine_resolve_acknowledge ht

theorem fine_releaseAll (hi : S.Inv w) : S.Fine i (releaseAll router) w :=
  fine_withRouter hi fun _ hv => safe_try (safe_plain (safe_readState stable_inv hv))
    fun _ _ hu => fine_resolveEach hu

theorem safe_releaseParentEach {records} (hw : S.InGate i l p c w) :
    Safe (S.logic i) (fun _ => S.InGate i l p c) (releaseParentEach router c records) w := by
  induction records generalizing w with
  | nil => exact safe_ret stable_inGate hw
  | cons _ _ ih =>
    refine safe_bind (fun _ v hv => ?_) (safe_readState stable_inGate hw)
    refine safe_bind (fun _ u hu => ?_) (safe_updateState stable_inGate hv)
    split
    · exact safe_bind (fun _ t ht => ih ht) (safe_run (fine_resolve hu))
    · exact ih hu

theorem fine_detachParent (hi : S.Inv w) : S.Fine i (detachParent router p) w := by
  refine fine_withRouter hi fun v hv => ?_
  refine safe_try (safe_plain (safe_updateState stable_inv hv)) fun _ u hu => ?_
  refine safe_try (safe_plain (safe_run (fine_withGate hu ?_))) fun _ t ht => safe_ret stable_inv ht
  intro c t ht
  refine safe_plain (safe_bind (fun _ x hx => safe_releaseParentEach hx) ?_)
  exact safe_quiet trivial stable_inGate ht fun _ _ _ _ _ hx _ => safe_ret stable_inGate hx

theorem safe_failEach {gaveUp : List CompletionRecord} (hi : S.Inv w) :
    Safe (S.logic i) (fun _ => S.Inv) (failEach router receipts gaveUp) w := by
  induction receipts generalizing w gaveUp with
  | nil => exact safe_ret stable_inv hi
  | cons _ _ ih =>
    refine safe_bind (fun resolved v hv => ?_) (safe_run (fine_withGate hi
      fun _ _ ht => fine_resolve ht))
    refine safe_bind (fun _ u hu => ?_) (safe_updateState stable_inv hv)
    match resolved with
    | .ok (some r) => exact ih hu
    | .ok none | .error _ => exact ih hu

theorem fine_compact {retain : Nat} (hl : ¬ S.lasting) (hi : S.Inv w) :
    S.Fine i (compact router retain) w := by
  refine fine_withRouter hi fun v hv => ?_
  exact safe_ask stable_inv (fun _ h => h) hv (fun _ _ => hl) (stable_ends stable_inv)
    fun _ _ _ _ _ hi' => ends_const hi'

variable (S p) in
def Closed (v : World) : Prop :=
  S.solo → S.clean → v.Shut p

theorem status_of_rely {v' : World} (hsolo : S.solo) (hcl : S.clean) (hr : S.Rely i v v') :
    v'.status p = v.status p :=
  status_of_marker (hr.marker hcl p ⟨(i,0),0⟩ rfl (.inr hsolo))

theorem fact_closed : S.Fact i NoEntries (S.Closed p) :=
  fact_of_records
    (fun _ _ hv hr hsolo hcl => (hv hsolo hcl).of_status (status_of_rely hsolo hcl hr))
    fun _ _ h hv hsolo hcl => (hv hsolo hcl).of_status (status_of_marker (get_of_records h _))

theorem fact_imp (h : S.Fact i NoEntries F) : S.Fact i NoEntries (fun v => A → F v) :=
  fact_of_records (fun v v' hv hr ha => h.stable v v' (hv ha) hr)
    fun v v' he hv ha => h.frame v v' he (fun _ _ h => h.elim) (hv ha)

theorem safe_admitClosed (hw : S.InGate i l p c w) (hp : A → S.Closed p w) :
    S.Gated i l p c (fun o v => S.Admitted i l p c o v ∧ (A → S.solo → S.clean → o = none))
      (admitChildLocked l p c) w := by
  have hst := stable_and (S := S) (i := i) (stable_admitted (l := l) (p := p) (c := c) (o := none))
    (stable_const (A → S.solo → S.clean → (none : Option Nat) = none))
  refine safe_try (safe_parentLifecycleStatus (fact_imp fact_closed) hw hp) fun st v hv => ?_
  have weaken {x : Task (Option Nat)} (hopen : ∀ e, st ≠ some (.stopped e) ∧ st ≠ some (.deleted e))
      (h : S.Gated i l p c (S.Admitted i l p c) x v) :
      S.Gated i l p c (fun o v => S.Admitted i l p c o v ∧ (A → S.solo → S.clean → o = none)) x v :=
    safe_ends (fun _ _ hu => ⟨hu,fun ha hsolo hcl => by
      obtain ⟨e,he⟩ := hv.2 ha hsolo hcl
      rw [hv.1.sees hcl (.inr hsolo)] at he
      exact (he.elim (hopen e).1 (hopen e).2).elim⟩) (fun _ _ hu => hu) h
  match st with
  | some (.opened e) => exact weaken (by simp) (safe_try (safe_restoreOpen hv.1)
      fun _ u hu => safe_ret stable_admitted hu.admitted)
  | some (.stopped _) | some (.deleted _) =>
    refine safe_try (safe_restoreClosed hv.1) fun _ u hu => ?_
    exact safe_ret hst ⟨⟨hu.gate,fun _ he => by cases he⟩,fun _ _ _ => rfl⟩
  | none => exact weaken (by simp) (safe_openFirst hv.1)

theorem safe_admitChildLocked (hw : S.InGate i l p c w) :
    S.Gated i l p c (S.Admitted i l p c) (admitChildLocked l p c) w :=
  safe_ends (fun _ _ h => h.1) (fun _ _ h => h) (safe_admitClosed (A := False) hw nofun)

theorem fine_claimLocked {max : Nat} {mode} (hw : S.InGate i router.lifecycle p c w) :
    S.FineInGate i router.lifecycle p c (claimLocked router p max mode c) w := by
  refine safe_try (safe_admitChildLocked hw) fun o v hv => ?_
  match o with
  | none => exact safe_ret stable_inGate hv.gate
  | some e =>
    refine safe_try (safe_plain (safe_newUuid stable_admitted hv)) fun _ u hu => ?_
    refine safe_try (safe_clock stable_admitted hu) fun _ t ht => ?_
    refine safe_try (safe_ask stable_admitted (fun _ h => h.gate.inv) ht
      (fun _ h => ⟨h.gate.mine,h.opened e rfl⟩) (stable_ends stable_inGate)
      fun _ _ _ hx ho hi' => ends_const (inGate_of_attempted hx.gate ho hi')) fun _ x hx => ?_
    refine safe_try (safe_plain (safe_updateState stable_inGate hx)) fun _ y hy => ?_
    exact safe_ret stable_inGate hy

theorem fine_admitChildGeneration (hi : S.Inv w) : S.Fine i (admitChildGeneration router p) w :=
  fine_withRouter hi fun _ hv => fine_withGate hv fun _ _ hu =>
    safe_ends (fun _ _ hv => hv.gate) (fun _ _ hv => hv) (safe_admitChildLocked hu)

variable (S i l p c) in
def Admits (e : Nat) (admitted : Bool) (v : World) : Prop :=
  S.InGate i l p c v ∧ (admitted = true → S.Knows i l p c (some (.opened e)) v)

theorem stable_admits {admitted : Bool} : S.Stable i (S.Admits i l p c e admitted) :=
  fun v v' hv hr => ⟨stable_inGate v v' hv.1 hr,fun h => stable_knows v v' (hv.2 h) hr⟩

theorem safe_generationOpen (hw : S.InGate i l p c w) :
    S.Gated i l p c (S.Admits i l p c e) (generationOpen l p e) w := by
  refine safe_try (safe_parentLifecycleStatus fact_true hw trivial) fun _ v hv => ?_
  refine safe_ret stable_admits ⟨hv.1.gate,fun h => ?_⟩
  rw [← of_decide_eq_true h]
  exact hv.1

theorem fine_parentGenerationAdmitted (hi : S.Inv w) :
    S.Fine i (parentGenerationAdmitted router p e) w :=
  fine_withRouter hi fun _ hv => fine_withGate hv fun _ _ hu =>
    safe_ends (fun _ _ hv => hv.1) (fun _ _ hv => hv) (safe_generationOpen hu)

theorem fine_acquirePermit (hi : S.Inv w) : S.Fine i (acquirePermit l p e) w := by
  refine fine_withGate hi fun c v hv => safe_try (safe_generationOpen hv) fun b u hu => ?_
  cases b with
  | false => exact safe_ret stable_inGate hu.1
  | true =>
    refine safe_try (safe_plain (safe_ask stable_admits (fun _ h => h.1.inv) hu
      (fun t ht hcl hten => (ht.2 rfl).sees hcl hten) (fun _ => stable_inGate)
      fun t x _ ht ho _ => ?_)) fun _ t ht => safe_ret stable_inGate ht
    cases ho
    exact ht.1

theorem fine_tombstone {taskId : String} (ht : S.tombstones) (hm : S.clean → ¬ IsMarkerId taskId)
    (hi : S.Inv w) : S.Fine i (tombstone router taskId) w := by
  refine fine_withRouter hi fun v hv => ?_
  refine safe_try (safe_plain (safe_getRecord stable_inv hv)) fun existing u hu => ?_
  match existing with
  | some seen =>
    have hid := hu.2 seen rfl
    dsimp only
    split
    next hst =>
      refine fine_withGate hu.1 fun c x hx => ?_
      refine safe_try (safe_clock stable_inGate hx) fun now y hy => ?_
      refine safe_try
        (safe_putFenced stable_inGate stable_inGate (fun _ h => h.inv) (fun _ _ h => h) hy
          (fun z hz => ⟨hz.mine,ht,hst,rfl,⟨now,rfl⟩,fun hcl => hid ▸ hm hcl⟩)
          fun z s hz _ _ hi' => hz.setStore hi') fun _ z hz => ?_
      refine safe_try (safe_plain (safe_updateState stable_inGate hz)) fun _ _ hz' => ?_
      exact safe_ret stable_inGate hz'
    · exact safe_ret stable_inv hu.1
  | none =>
    refine fine_withGate hu.1 fun c x hx => ?_
    refine safe_try (safe_clock stable_inGate hx) fun now y hy => ?_
    refine safe_try
      (safe_putFenced stable_inGate stable_inGate (fun _ h => h.inv) (fun _ _ h => h) hy
        (fun z hz => ⟨hz.mine,ht,taskId,now,rfl,hm⟩)
        fun z s hz _ _ hi' => hz.setStore hi') fun _ z hz => ?_
    exact safe_ret stable_inGate hz

variable (S p) in
def Drained (v : World) : Prop :=
  S.strict → ∀ r, ¬ IsMarkerId r.taskId → ¬ v.Pending p r

variable (S i l p c) in
structure Withdrawing (rest : List CompletionRecord) (v : World) : Prop where
  gate : S.InGate i l p c v
  listed : S.Listed i p c rest v
  left : S.strict → S.Tenured v p c → ∀ r, ¬ IsMarkerId r.taskId → v.Pending p r → r ∈ rest
  shut : S.clean → S.Tenured v p c → v.Shut p

theorem stable_withdrawing : S.Stable i (S.Withdrawing i l p c rest) := by
  intro v v' hv hr
  have hmine := hv.gate.mine
  refine ⟨stable_inGate v v' hv.gate hr,stable_listed v v' hv.listed hr,fun hs ht r hm hp => ?_,
    fun hcl ht => ?_⟩
  · refine hv.left hs (hr.tenured hmine ht) r hm ⟨?_,hp.2⟩
    exact hr.noNew hs p c hmine ht _ r hm hp.2.1 hp.2.2 hp.1
  · exact (hv.shut hcl (hr.tenured hmine ht)).of_status
      (status_of_marker (hr.marker hcl p c hmine ht))

theorem withdrawing_put {record} {s : Store} (h : S.Withdrawing i l p c (record :: rest) v)
    (hst : record.state = .pending) (hcur : v.store.GateCurrent p c v.now)
    (hs : s = v.store.written r) (hid : r.taskId = record.taskId) (hr : r.state ≠ .pending)
    (hi : S.Inv (v.setStore s)) : S.Withdrawing i l p c rest (v.setStore s) := by
  have hten : S.Tenured v p c := .inl (holds_of_current hcur)
  have hother id (hne : id ≠ record.taskId) : (v.setStore s).get id = v.get id := by
    subst hs
    refine Table.get_insert_ne fun he => hne ?_
    rw [← he,Store.adoptEpoch_taskId,hid]
  have hmarker (hcl : S.clean) : (v.setStore s).marker p = v.marker p := by
    refine hother _ fun he => h.listed.pending_unmarked hcl record List.mem_cons_self hst ?_
    rw [← he]
    exact parentMarkerId_isMarkerId p
  refine ⟨h.gate.setStore hi,h.listed.tail (fun _ => hten) hother
    fun hcl _ hn => (hmarker hcl).symm.trans hn,fun hstr _ r' hm hp => ?_,
    fun hcl _ => (h.shut hcl hten).of_status (status_of_marker (hmarker hcl))⟩
  have hne : r'.taskId ≠ record.taskId := by
    intro he
    have hget := hp.1
    subst hs
    have hself : (v.store.records.insert (v.store.adoptEpoch r)).get r'.taskId =
        some (v.store.adoptEpoch r) := by
      rw [he,Table.get_insert,if_pos ((v.store.adoptEpoch_taskId r).trans hid)]
    have hstate := hp.2.2
    rw [← Option.some.inj (hself.symm.trans hget),Store.adoptEpoch_state] at hstate
    exact hr hstate
  have hmem := h.left hstr hten r' hm ⟨(hother _ hne).symm.trans hp.1,hp.2⟩
  rcases List.mem_cons.1 hmem with rfl | hmem
  · exact absurd rfl hne
  · exact hmem

theorem Withdrawing.skip {record} (h : S.Withdrawing i l p c (record :: rest) v)
    (hst : record.state ≠ .pending) : S.Withdrawing i l p c rest v := by
  refine ⟨h.gate,h.listed.tail id (fun _ _ => rfl) (fun _ _ hn => hn),
    fun hstr ht r hm hp => ?_,h.shut⟩
  rcases List.mem_cons.1 (h.left hstr ht r hm hp) with rfl | hmem
  · exact absurd hp.2.2 hst
  · exact hmem

theorem safe_withdrawEach (hw : S.Withdrawing i l p c rest w) :
    S.Gated i l p c (fun _ => S.Withdrawing i l p c []) (withdrawEach router p c rest n) w := by
  induction rest generalizing w n with
  | nil => exact safe_ret stable_withdrawing hw
  | cons record rest ih =>
    unfold withdrawEach
    split
    next hst =>
      refine safe_try (safe_clock stable_withdrawing hw) fun now v hv => ?_
      refine safe_try
        (safe_putFenced stable_withdrawing stable_withdrawing (fun _ h => h.gate.inv)
          (fun _ _ h => h.gate) hv ?_
          fun u s hu hcur hs hi => withdrawing_put hu hst hcur hs rfl nofun hi) fun _ u hu => ?_
      · intro u hu
        have hmem : record ∈ record :: rest := List.mem_cons_self
        refine ⟨hu.gate.mine,hst,hu.listed.parents record hmem,⟨now,rfl⟩,fun ht => ⟨?_,?_⟩⟩
        · exact fun hcl => hu.listed.pending_unmarked hcl record hmem hst
        · exact fun hstr hm => hu.listed.stored hstr ht record hmem hm (.inr hst)
      · refine safe_try (safe_plain (safe_updateState stable_withdrawing hu)) fun _ t ht => ?_
        exact ih ht
    next hst => exact ih (hw.skip hst)

theorem safe_closeRest {st} (hallow : SiteAllows .close state st)
    (hw : S.Knows i router.lifecycle p c st w) :
    S.Gated i router.lifecycle p c (fun _ v => S.InGate i router.lifecycle p c v ∧
        (S.Tenured v p c → S.Drained p v ∧ (S.clean → v.Shut p))) (do
        setParentMarker .close router.lifecycle p state c
        plain (updateState router (RouterState.detach p))
        withdrawEach router p c (← tryList (some p)) 0 : Task Nat) w := by
  refine safe_try (safe_setParentMarker hallow hw (fun h => by cases h)) fun _ v hv => ?_
  obtain ⟨e,hv⟩ := hv
  refine safe_seq (safe_plain (safe_updateState stable_knows hv)) (fun _ _ h => h) fun _ u hu => ?_
  have hlist := safe_tryList stable_knows (fun _ => stable_withdrawing) hu
    fun x records hx hperm => by
      obtain ⟨hl,hc⟩ := listed_of_perm hx.gate.mine hx.gate.inv hperm
      refine ⟨hx.gate,hl,fun _ _ r _ hr => hc r hr.1 hr.2.1,fun hcl ht => ⟨e,?_⟩⟩
      rw [hx.sees hcl ht]
      rcases hallow.1 with rfl | rfl
      · exact .inl rfl
      · exact .inr rfl
  refine safe_seq hlist (fun _ _ h => h.gate) fun records x hx => ?_
  refine safe_ends (fun _ y hy => ⟨hy.gate,fun ht => ⟨fun hstr r hm hp => ?_,
    fun hcl => hy.shut hcl ht⟩⟩) (fun _ _ hy => hy) (safe_withdrawEach hx.2)
  cases hy.left hstr ht r hm hp

section

variable (S p) in
def DeletedDrained (v : World) : Prop :=
  S.solo → S.clean → (∃ e, v.status p = some (.deleted e)) → S.Drained p v

variable (S p) in
def Withdrawn (v : World) : Prop :=
  S.solo → S.clean → S.Drained p v ∧ v.Shut p

variable {v v' : World}

theorem drained_of_records (h : v'.store.records = v.store.records) (hd : S.Drained p v) :
    S.Drained p v' := fun hs r hm hp =>
  hd hs r hm ⟨(get_of_records h _).symm.trans hp.1,hp.2⟩

theorem drained_of_rely (hsolo : S.solo) (hr : S.Rely i v v') (hd : S.Drained p v) :
    S.Drained p v' := fun hs r hm hp =>
  hd hs r hm ⟨hr.noNew hs p ⟨(i,0),0⟩ rfl (.inr hsolo) _ r hm hp.2.1 hp.2.2 hp.1,hp.2⟩

theorem withdrawn_of_rely (hr : S.Rely i v v') (hd : S.Withdrawn p v) :
    S.Withdrawn p v' := fun hsolo hcl =>
  ⟨drained_of_rely hsolo hr (hd hsolo hcl).1,
    (hd hsolo hcl).2.of_status (status_of_rely hsolo hcl hr)⟩

theorem fact_withdrawn : S.Fact i NoEntries (S.Withdrawn p) :=
  fact_of_records (fun _ _ hv hr => withdrawn_of_rely hr hv) fun _ _ h hv hsolo hcl =>
    ⟨drained_of_records h (hv hsolo hcl).1,
      (hv hsolo hcl).2.of_status (status_of_marker (get_of_records h _))⟩

theorem fact_deletedDrained : S.Fact i NoEntries (S.DeletedDrained p) := by
  refine fact_of_records (fun v v' hv hr hsolo hcl hd => ?_) fun v v' h hv hsolo hcl hd => ?_
  · rw [status_of_rely hsolo hcl hr] at hd
    exact drained_of_rely hsolo hr (hv hsolo hcl hd)
  · rw [status_of_marker (get_of_records h _)] at hd
    exact drained_of_records h (hv hsolo hcl hd)

end

theorem safe_closeLocked (hstate : state = .tombstoned ∨ state = .parentDeleted)
    (hw : S.InGate i router.lifecycle p c w) (hp : S.DeletedDrained p w) :
    S.Gated i router.lifecycle p c (fun _ v => S.InGate i router.lifecycle p c v ∧ S.Withdrawn p v)
      (closeLocked router p state c) w := by
  have hrest {st} {v}
      (hv : S.Knows i router.lifecycle p c st v) (hn : ∀ e, st ≠ some (.deleted e)) :=
    safe_ends (R := fun _ v => S.InGate i router.lifecycle p c v ∧ S.Withdrawn p v)
      (fun _ _ hu => ⟨hu.1,fun hsolo hcl => (hu.2 (.inr hsolo)).imp_right fun h => h hcl⟩)
      (fun _ _ hu => hu) (safe_closeRest ⟨hstate,hn⟩ hv)
  refine safe_try (safe_parentLifecycleStatus fact_deletedDrained hw hp) fun st v hv => ?_
  match st with
  | some (.deleted e) =>
    have hK := stable_and
      (stable_inGate (l := router.lifecycle) (p := p) (c := c))
      (fact_withdrawn (S := S) (i := i) (p := p)).stable
    refine safe_try (safe_plain (safe_updateState hK ⟨hv.1.gate,fun hsolo hcl => ?_⟩))
      fun _ u hu => safe_ret hK hu
    have hst := hv.1.sees hcl (.inr hsolo)
    exact ⟨hv.2 hsolo hcl ⟨e,hst⟩,e,.inr hst⟩
  | some (.opened _) | some (.stopped _) | none => exact hrest hv.1 (by simp)

theorem safe_closeParent (hstate : state = .tombstoned ∨ state = .parentDeleted) (hi : S.Inv w)
    (hp : S.DeletedDrained p w) :
    Ensures (S.logic i) (fun _ v => S.Inv v ∧ S.Withdrawn p v) (fun _ => S.Inv)
      (closeParent router p state) w :=
  safe_ends (fun _ _ hv => hv) (fun _ _ hv => hv.1)
    (safe_withRouter fact_deletedDrained (fun _ => fact_withdrawn) fact_true hi hp
      fun _ hv hp' => safe_ends (fun _ _ hv => hv) (fun _ _ hv => ⟨hv,trivial⟩)
        (safe_withGate fact_deletedDrained (fun _ => fact_withdrawn) hv hp' fun _ _ hu hpu =>
          safe_closeLocked hstate hu hpu))

theorem fine_resumeLocked (hw : S.InGate i router.lifecycle p c w) :
    S.FineInGate i router.lifecycle p c (resumeLocked router p c) w := by
  have hreopen {st} {v}
      (hv : S.Knows i router.lifecycle p c st v) (hd : ∀ e, st ≠ some (.deleted e))
      (ho : ∀ e, st ≠ some (.opened e)) :
      S.FineInGate i router.lifecycle p c
        (setParentMarker .resume router.lifecycle p .delivered c) v :=
    safe_ends (fun _ _ hu => hu.elim fun _ h => h.gate) (fun _ _ hu => hu)
      (safe_setParentMarker ⟨rfl,hd,ho⟩ hv (fun h => by cases h))
  refine safe_try (safe_parentLifecycleStatus fact_true hw trivial) fun st v hv => ?_
  match st with
  | some (.opened _) | some (.deleted _) => exact safe_ret stable_inGate hv.1.gate
  | some (.stopped _) | none => exact hreopen hv.1 (by simp) (by simp)

theorem fine_resumeParent (hi : S.Inv w) : S.Fine i (resumeParent router p) w :=
  fine_withRouter hi fun _ hv => fine_withGate hv fun _ _ hu => fine_resumeLocked hu

theorem admitted_insert {v' : World} {x} (hv : S.Admitted i l p c (some e) v)
    (hm : S.clean → ¬ IsMarkerId r.taskId)
    (ho : Attempted v (v.store.insertIfAbsent r c v.now) x v') (hi : S.Inv v') :
    S.Admitted i l p c (some e) v' := by
  refine ⟨inGate_of_attempted hv.gate ho hi,fun e' he' hcl ht => ?_⟩
  rcases ho with ⟨e,-,rfl⟩ | ⟨a,s,hs,-,rfl⟩
  · exact hv.opened e' he' hcl ht
  obtain ⟨-,-,rfl⟩ := Store.withCurrentGate_ok hs
  have hmarker : (v.setStore { v.store with records :=
      (if (v.store.records.get r.taskId).isSome then (false,v.store.records)
        else (true,v.store.records.insert r)).2 }).marker p = v.marker p := by
    split
    · rfl
    refine Table.get_insert_ne fun he => hm hcl ?_
    rw [he]
    exact parentMarkerId_isMarkerId p
  rw [status_of_marker hmarker]
  exact hv.opened e' he' hcl ht

theorem fine_claimPush {lane : QueueLane} (hk : r.parentKey = p) (he : r.parentEpoch = e)
    (hw : S.Admitted i router.lifecycle p c (some e) w) :
    S.FineInGate i router.lifecycle p c (claimPush router r c lane) w := by
  refine safe_try (safe_plain (safe_newUuid stable_admitted hw)) fun _ u hu => ?_
  refine safe_try (safe_clock stable_admitted hu) fun _ t ht => ?_
  subst hk he
  refine safe_try (safe_ask stable_admitted (fun _ h => h.gate.inv) ht
    (fun v h => ⟨h.gate.mine,h.opened _ rfl⟩) (stable_ends stable_inGate)
    fun _ _ _ hx ho hi' => ends_const (inGate_of_attempted hx.gate ho hi')) fun claimed x hx => ?_
  match claimed with
  | none => exact safe_ret stable_inGate hx
  | some r' =>
    refine safe_try (safe_plain (safe_updateState stable_inGate hx)) fun _ y hy => ?_
    exact safe_ret stable_inGate hy

theorem fine_storeRecord (hk : r.parentKey = p) (he : r.parentEpoch = e) (hst : r.state = .pending)
    (hat : r.attempts = 0) (hm : S.clean → ¬ IsMarkerId r.taskId)
    (hw : S.Admitted i router.lifecycle p c (some e) w) :
    S.FineInGate i router.lifecycle p c (storeRecord router r c) w := by
  subst hk he
  refine safe_seq (safe_ask stable_admitted (fun _ h => h.gate.inv) hw
    (fun v h => ⟨h.gate.mine,hst,hm,hat,h.opened _ rfl⟩) (stable_ends stable_admitted)
    fun _ _ _ hx ho hi' => ends_const (admitted_insert hx hm ho hi')) (fun _ _ h => h.gate)
    fun inserted x hx => ?_
  cases inserted with
  | false =>
    refine safe_try (safe_ends (fun _ _ hy => hy.1.gate) (fun _ _ hy => hy.gate)
      (safe_tryGet stable_admitted (fun _ => stable_const _) hx fun _ _ => trivial))
      fun existing y hy => ?_
    cases existing <;> exact safe_ret stable_inGate hy
  | true =>
    refine safe_try (safe_plain (safe_readState stable_admitted hx)) fun state y hy => ?_
    match r.notifyMode.lane with
    | none => exact safe_ret stable_inGate hy.gate
    | some lane =>
      dsimp only
      split
      · exact fine_claimPush rfl rfl hy
      · exact safe_ret stable_inGate hy.gate

theorem safe_recordLocked (hm : S.clean → ¬ IsMarkerId r.taskId)
    (hw : S.InGate i router.lifecycle r.parentKey c w) (hp : A → S.Closed r.parentKey w) :
    S.Gated i router.lifecycle r.parentKey c (fun step v =>
      S.InGate i router.lifecycle r.parentKey c v ∧
        (A → S.solo → S.clean → step = .done .suppressed)) (recordLocked router r c) w := by
  have hK := stable_and
    (stable_inGate (l := router.lifecycle) (p := r.parentKey) (c := c))
    (fact_imp (A := A) (fact_closed (S := S) (i := i) (p := r.parentKey))).stable
  refine safe_seq (safe_tryGet hK (fun _ => stable_const _) ⟨hw,hp⟩
    fun _ _ => trivial) (fun _ _ h => h.1) fun _ v hv => ?_
  refine safe_try (safe_admitClosed hv.1.1 hv.1.2) fun o u hu => ?_
  match o with
  | none =>
    exact safe_ret (stable_and stable_inGate (stable_const _)) ⟨hu.1.gate,fun _ _ _ => rfl⟩
  | some e =>
    have hno : A → S.solo → S.clean → False := fun ha hsolo hcl => by
      cases hu.2 ha hsolo hcl
    have weaken {x : Task RecordStep} {t : World}
        (h : S.FineInGate i router.lifecycle r.parentKey c x t) :
        S.Gated i router.lifecycle r.parentKey c (fun step v =>
          S.InGate i router.lifecycle r.parentKey c v ∧
            (A → S.solo → S.clean → step = .done .suppressed)) x t :=
      safe_ends (fun _ _ hu => ⟨hu,fun ha hsolo hcl => (hno ha hsolo hcl).elim⟩)
        (fun _ _ hu => hu) h
    refine weaken (safe_try (safe_plain (safe_getRecord stable_admitted hu.1))
      fun existing t ht => ?_)
    match existing with
    | some r' => exact safe_ret stable_inGate ht.1.gate
    | none =>
      dsimp only
      split
      · exact safe_ret stable_inGate ht.1.gate
      · refine safe_try (safe_clock stable_admitted ht.1) fun _ x hx => ?_
        exact fine_storeRecord rfl rfl rfl rfl hm hx

theorem fine_recordPush {push} (hw : S.InGate i l p c w) :
    S.FineInGate i l p c (recordPush router p c push) w := by
  match push with
  | none => exact safe_ret stable_inGate hw
  | some (lane,receipt) =>
    refine safe_try (safe_ask stable_inGate (fun _ h => h.inv) hw (fun _ h => h.mine)
      (stable_ends stable_inGate) fun _ _ _ hv ho hi' => ends_const (hv.gateOp ho trivial hi'))
      fun renewed v hv => ?_
    cases renewed with
    | true => exact safe_ret stable_inGate hv
    | false =>
      exact safe_try (safe_ends (fun _ _ hu => ⟨hu.1,hv.mine,hu.2⟩)
        (fun _ _ hu => ⟨hu.1,hv.mine,hu.2⟩) (safe_release fact_held
          (fun v _ he hv => by rw [entry_of_lifecycles he]; exact hv) hv.inv hv.held))
        fun _ u hu => safe_ret stable_inGate hu

theorem safe_record (hm : S.clean → ¬ IsMarkerId r.taskId) (hi : S.Inv w)
    (hp : A → S.Closed r.parentKey w) :
    Ensures (S.logic i) (fun out v => S.Inv v ∧ (A → S.solo → S.clean → out = .suppressed))
      (fun _ => S.Inv) (record router r) w := by
  have hP := fact_imp (A := A) (fact_closed (S := S) (i := i) (p := r.parentKey))
  have hunlock {v : World} {q : Except Fault RecordOutcome} (hv : S.Inv v)
      (hq : ∀ out, q = .ok out → A → S.solo → S.clean → out = .suppressed) :
      Safe (S.logic i) (Ends (fun out v => S.Inv v ∧ (A → S.solo → S.clean → out = .suppressed))
        (fun _ => S.Inv)) (ask (.unlockRouter router.id) >>= fun _ => Program.ret q) v := by
    refine safe_quiet trivial stable_inv hv fun _ _ u _ _ hu _ => ?_
    match q with
    | .ok out => exact safe_ret (stable_and stable_inv (stable_const _)) ⟨hu,hq out rfl⟩
    | .error e => exact safe_ret stable_inv hu
  refine safe_quiet trivial (stable_and stable_inv hP.stable) ⟨hi,hp⟩ fun _ _ v _ _ hv _ => ?_
  refine safe_bind (fun gate u hu => ?_) (safe_acquire hP hv.1 hv.2)
  match gate with
  | .error e => exact hunlock hu.1 (by simp)
  | .ok c =>
    refine safe_bind (fun step t ht => ?_) (safe_recordLocked hm hu.2.1 hu.2.2)
    match step with
    | .error e =>
      exact safe_bind (fun _ x hx => hunlock hx.1 (by simp)) (safe_drop fact_true id ht trivial)
    | .ok (.done out) =>
      refine safe_bind (fun _ x hx => hunlock hx.1 fun _ ho ha hsolo hcl => ?_)
        (safe_drop fact_true id ht.1 trivial)
      cases ho
      cases ht.2 ha hsolo hcl
      rfl
    | .ok (.push push) =>
      have hno : A → S.solo → S.clean → False := fun ha hsolo hcl => by
        cases ht.2 ha hsolo hcl
      refine safe_quiet trivial stable_inGate ht.1 fun _ _ x _ _ hx _ => ?_
      refine safe_bind (fun result y hy => ?_) (safe_run (fine_recordPush hx))
      refine safe_bind (fun _ z hz => ?_) (safe_drop fact_true id hy trivial)
      match result with
      | .ok out =>
        exact safe_ret (stable_and stable_inv (stable_const _))
          ⟨hz.1,fun ha hsolo hcl => (hno ha hsolo hcl).elim⟩
      | .error e => exact safe_ret stable_inv hz.1

variable (S) in
def Opens (closed : String → Prop) (call : RouterCall) (w : World) : Prop :=
  S.Allows call ∧ match call with
  | .record _ r => closed r.parentKey → S.Closed r.parentKey w
  | .cancelParent _ p | .deleteParent _ p => S.DeletedDrained p w
  | _ => True

variable (S) in
def Post (closed : String → Prop) (call : RouterCall) (result : Except Fault Reply) (w : World) :
    Prop :=
  S.Inv w ∧ match call, result with
  | .record _ r, .ok reply => closed r.parentKey → S.solo → S.clean →
      reply = .recorded .suppressed
  | .cancelParent _ p, .ok _ => S.Withdrawn p w
  | .deleteParent _ p, .ok _ => S.Withdrawn p w
  | _, _ => True

theorem safe_reply {Q} {Q'} {f} (h : Ensures (S.logic i) Q (fun _ => S.Inv) task w)
    (hok : ∀ a v, Q a v → Q' (.ok (f a)) v) (herr : ∀ e v, S.Inv v → Q' (.error e) v)
    (hst : ∀ r, S.Stable i (Q' r)) : Safe (S.logic i) Q' (reply f task) w := by
  refine safe_mono (Q := Ends (fun a v => Q' (.ok a) v) (fun e v => Q' (.error e) v)) ?_
    (safe_seq h herr fun a v hv => safe_ret (hst _) (hok a v hv))
  rintro (e | a) v hv
  all_goals exact hv

theorem stable_post {result} : S.Stable i (S.Post closed call result) := by
  intro v _ hv hr
  refine ⟨hr.inv hv.1,?_⟩
  have h := hv.2
  split
  · exact h
  · exact withdrawn_of_rely hr h
  · exact withdrawn_of_rely hr h
  · trivial

theorem fine_reply {f} (h : S.Fine i task w)
    (hpost : ∀ result v, S.Inv v → S.Post closed call result v := by exact fun _ _ hv =>
      ⟨hv,trivial⟩) :
    Safe (S.logic i) (S.Post closed call) (reply f task) w :=
  safe_reply h (fun a v hv => hpost (.ok (f a)) v hv) (fun e v hv => hpost (.error e) v hv)
    fun _ => stable_post

theorem safe_code (hi : S.Inv w) (ho : S.Opens closed call w) :
    Safe (S.logic i) (S.Post closed call) call.code w := by
  obtain ⟨hal,ho⟩ := ho
  cases call with
  | record =>
    exact safe_reply (safe_record hal hi ho)
      (fun _ v hv => ⟨hv.1,fun hc hsolo hcl => by rw [hv.2 hc hsolo hcl]⟩)
      (fun e v hv => ⟨hv,trivial⟩) fun _ => stable_post
  | cancelParent =>
    exact safe_reply (safe_closeParent (.inl rfl) hi ho) (fun n v hv => hv)
      (fun e v hv => ⟨hv,trivial⟩) fun _ => stable_post
  | deleteParent =>
    exact safe_reply (safe_closeParent (.inr rfl) hi ho) (fun n v hv => hv)
      (fun e v hv => ⟨hv,trivial⟩) fun _ => stable_post
  | claim =>
    exact fine_reply (fine_withRouter hi fun _ hv => fine_withGate hv fun _ _ => fine_claimLocked)
  | markDelivered => exact fine_reply (fine_withRouter hi fun _ => fine_resolveEach)
  | markFailed =>
    exact fine_reply (fine_withRouter hi fun _ hv => safe_plain (safe_failEach hv))
  | release => exact fine_reply (fine_release hi)
  | releaseAll => exact fine_reply (fine_releaseAll hi)
  | attachParent =>
    exact fine_reply (fine_withRouter hi fun _ hv => safe_plain (safe_updateState stable_inv hv))
  | detachParent => exact fine_reply (fine_detachParent hi)
  | tombstone => exact fine_reply (fine_tombstone hal.1 hal.2 hi)
  | resumeParent => exact fine_reply (fine_resumeParent hi)
  | admitChildGeneration => exact fine_reply (fine_admitChildGeneration hi)
  | parentGenerationAdmitted => exact fine_reply (fine_parentGenerationAdmitted hi)
  | acquirePermit => exact fine_reply (fine_acquirePermit hi)
  | compact => exact fine_reply (fine_compact hal hi)

end Scope

end Completions
