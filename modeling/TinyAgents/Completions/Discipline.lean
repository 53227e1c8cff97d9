import TinyAgents.Completions.Interference
import TinyAgents.Completions.Lifecycle

namespace Completions

open Interaction ParentGateGuard

namespace Scope

variable (S : Scope) (i : Nat)

def logic : Logic Op Ans World where
  outcome := fun op w x w' => Outcome i op w x w' ∧ S.Assumed op w
  rely := S.Rely i
  guar := S.Guar i
  rely_refl := rely_refl
  rely_trans := fun _ _ _ => rely_trans

def Stable (K : World → Prop) : Prop :=
  ∀ v v', K v → S.Rely i v v' → K v'

structure InGate (lifecycle : Nat) (parentKey : String) (claim : ParentGateClaim) (w : World) :
    Prop where
  inv : S.Inv w
  mine : claim.holder.1 = i
  held : (w.entry lifecycle parentKey).held = some i

variable {S i}

theorem stable_inv : S.Stable i S.Inv :=
  fun _ _ hv hr => hr.inv hv

variable {l router : Nat} {p : String}

theorem stable_inGate {c} : S.Stable i (S.InGate i l p c) :=
  fun _ _ hv hr => ⟨hr.inv hv.inv,hv.mine,by rw [hr.guarded l p hv.held]; exact hv.held⟩

theorem stable_and {K K'} (h : S.Stable i K) (h' : S.Stable i K') :
    S.Stable i (fun v => K v ∧ K' v) :=
  fun v v' hv hr => ⟨h v v' hv.1 hr,h' v v' hv.2 hr⟩

theorem stable_ends {α : Type} {K} (h : S.Stable i K) (x : Except Fault α) :
    S.Stable i (Ends (fun _ => K) (fun _ => K) x) := by
  cases x <;> exact h

theorem stable_const (P : Prop) : S.Stable i (fun _ => P) :=
  fun _ _ h _ => h

def Quiet (op : Op) : Prop :=
  (∀ S i w, Scope.Guar S i op w) ∧
    ∀ i w x w', Outcome i op w x w' → w'.store = w.store ∧ w'.lifecycles = w.lifecycles

variable {v : World} {F : World → Prop}

theorem rely_of_silent {v' : World} (hs : v'.store = v.store) (hl : v'.lifecycles = v.lifecycles) :
    S.Rely i v v' := by
  have hget : ∀ id, v'.get id = v.get id := get_of_records (by rw [hs])
  have hentry := entry_of_lifecycles hl
  refine rely_of_records (fun hi => ?_) (by rw [hs]) (fun _ _ _ => holds_of_gates (by rw [hs]))
    (fun l p _ => hentry l p) hget
  refine ⟨fun hcl id r hr => hi.markers hcl id r ((hget id).symm.trans hr),
    fun hcl l p s hs' => ?_,fun hv p r hr => ?_⟩
  · rw [hentry] at hs'
    exact (hi.cached hcl l p s hs').of_follows fun m hm => ⟨m,(hget _).trans hm,.refl m⟩
  · rw [status_of_marker (hget _)]
    exact hi.epochs hv p r ⟨(hget _).symm.trans hr.1,hr.2⟩

def Reads : Op → Prop
  | .lockRouter _ | .unlockRouter _ | .updateRouter _ _ | .newUuid | .clock | .isProcessLocal
  | .localStatus _ _ | .get _ | .tryGet _ | .list _ | .tryList _ => True
  | _ => False

theorem quiet_of_reads {op : Op} (h : Reads op) : Quiet op := by
  cases op with
  | localStatus | get | tryGet | list | tryList =>
    exact ⟨fun _ _ _ => trivial,by rintro i w x w' ⟨rfl,-⟩; exact ⟨rfl,rfl⟩⟩
  | unlockRouter => exact ⟨fun _ _ _ => trivial,by rintro i w x w' rfl; exact ⟨rfl,rfl⟩⟩
  | lockRouter | updateRouter | newUuid | clock | isProcessLocal =>
    exact ⟨fun _ _ _ => trivial,by rintro i w x w' ⟨-,rfl⟩; exact ⟨rfl,rfl⟩⟩
  | _ => exact h.elim

section

variable {α β : Type} {w : World} {K : World → Prop} {op : Op} {Q : α → World → Prop}

theorem safe_ret {a : α} (hQ : S.Stable i (Q a)) (h : Q a w) : Safe (S.logic i) Q (.ret a) w :=
  fun w' hr => hQ w w' h hr

theorem safe_op {f} (hK : S.Stable i K) (hi : ∀ v, K v → S.Inv v) (hw : K w)
    (hg : ∀ v, K v → S.Guar i op v)
    (hn : ∀ v x v', K v → Outcome i op v x v' → S.Inv v' → Safe (S.logic i) Q (f x) v') :
    Safe (S.logic i) Q (ask op >>= f) w := by
  intro w' hr
  have hw' := hK w w' hw hr
  refine ⟨hg w' hw',fun x v' ho => hn w' x v' hw' ho.1 ?_⟩
  exact keeps (hi w' hw') (hg w' hw') ho.2 ho.1

theorem safe_ask {Q} (hK : S.Stable i K) (hi : ∀ v, K v → S.Inv v) (hw : K w)
    (hg : ∀ v, K v → S.Guar i op v) (hQ : ∀ x, S.Stable i (Q x))
    (hn : ∀ v x v', K v → Outcome i op v x v' → S.Inv v' → Q x v') :
    Safe (S.logic i) Q (ask op) w :=
  safe_op hK hi hw hg fun v x v' hv ho hi' => safe_ret (hQ x) (hn v x v' hv ho hi')

theorem safe_quiet {f} (hop : Reads op) (hK : S.Stable i K) (hw : K w) (hn : ∀ v x v', K v →
    Outcome i op v x v' → K v' → S.Rely i v v' → Safe (S.logic i) Q (f x) v') :
    Safe (S.logic i) Q (ask op >>= f) w := by
  intro w' hr
  have hw' := hK w w' hw hr
  refine ⟨(quiet_of_reads hop).1 S i w',fun x v' ho => ?_⟩
  obtain ⟨hs,hl⟩ := (quiet_of_reads hop).2 i w' x v' ho.1
  have hr' : S.Rely i w' v' := rely_of_silent hs hl
  exact hn w' x v' hw' ho.1 (hK w' v' hw' hr') hr'

theorem safe_plain {E} {p} (h : Safe (S.logic i) Q p w) : Ensures (S.logic i) Q E (plain p) w := by
  induction p generalizing w with
  | ret => exact h
  | ask _ _ ih =>
    exact fun w' hr => ⟨(h w' hr).1,fun x v ho => ih x ((h w' hr).2 x v ho)⟩

end

variable (S i) in
structure Fact (D : Nat → String → Prop) (F : World → Prop) : Prop where
  stable : S.Stable i F
  held : ∀ v l p, F v → D l p → (v.entry l p).held = some i
  frame : ∀ v v', v'.store.records = v.store.records →
    (∀ l p, D l p → v'.entry l p = v.entry l p) → F v → F v'

def NoEntries : Nat → String → Prop :=
  fun _ _ => False

theorem fact_of_records (hs : S.Stable i F)
    (hr : ∀ v v', v'.store.records = v.store.records → F v → F v') : S.Fact i NoEntries F :=
  ⟨hs,fun _ _ _ _ h => h.elim,fun v v' h _ => hr v v' h⟩

theorem fact_true : S.Fact i NoEntries (fun _ => True) :=
  fact_of_records (fun _ _ _ _ => trivial) fun _ _ _ _ => trivial

theorem Fact.lifecycles {D} (h : S.Fact i D F) {v' : World}
    (hr : v'.store.records = v.store.records) (hl : v'.lifecycles = v.lifecycles) (hv : F v) :
    F v' :=
  h.frame v v' hr (fun l p _ => entry_of_lifecycles hl l p) hv

theorem Fact.setEntry {D} (h : S.Fact i D F) (hd : ¬ D l p) (e : ParentLifecycleEntry) (hv : F v) :
    F (v.setEntry l p e) := by
  refine h.frame v _ rfl (fun _ _ hd' => ?_) hv
  rw [World.entry_setEntry,if_neg]
  rintro ⟨rfl,rfl⟩
  exact hd hd'

def IsGateOp : Op → Prop
  | .acquireParentGate _ _ => True
  | .renewParentGate _ _ => True
  | .releaseParentGate _ _ => True
  | _ => False

variable {α : Type} {w : World} {l : Nat} {p : String} {c : ParentGateClaim}

theorem gate_records {op : Op} {v' : World} {x : Ans op} (ho : Outcome i op v x v')
    (hop : IsGateOp op) : v'.store.records = v.store.records ∧ v'.lifecycles = v.lifecycles := by
  cases ho.change with
  | silent hs hl => exact ⟨by rw [hs],hl⟩
  | gate _ _ hl hr => exact ⟨hr,hl⟩
  | entry _ _ _ _ hset => cases op <;> first | exact hset.elim | exact hop.elim
  | write _ _ hf => cases op <;> first | exact hop.elim | cases hf
  | sweep _ he =>
    subst he
    exact hop.elim

theorem InGate.gateOp {op : Op} {v' : World} {x : Ans op} (hv : S.InGate i l p c v)
    (ho : Outcome i op v x v') (hop : IsGateOp op) (hi : S.Inv v') : S.InGate i l p c v' :=
  ⟨hi,hv.mine,by
    rw [entry_of_lifecycles (gate_records ho hop).2]
    exact hv.held⟩

variable {D : Nat → String → Prop} {F P : World → Prop}

section

variable (hF : S.Fact i D F)

include hF

theorem safe_dropNative (hc : c.holder.1 = i) (hi : S.Inv w) (hw : F w) :
    Safe (S.logic i) (fun _ v => S.Inv v ∧ F v) (dropNative p c) w := by
  refine safe_op (stable_and stable_inv hF.stable)
    (fun _ hv => hv.1) ⟨hi,hw⟩ (fun _ _ => hc) fun v x _ hv ho hi' => ?_
  have hr := gate_records ho trivial
  exact safe_ret (stable_and stable_inv hF.stable) ⟨hi',hF.lifecycles hr.1 hr.2 hv.2⟩

theorem safe_drop (hd : ¬ D l p) (hw : S.InGate i l p c w) (hf : F w) :
    Safe (S.logic i) (fun _ v => S.Inv v ∧ F v) (ParentGateGuard.drop l p c) w := by
  have hK := stable_and (stable_inGate (l := l) (p := p) (c := c)) hF.stable
  refine safe_bind (Q := fun _ v => S.InGate i l p c v ∧ F v) (fun _ v hv => ?_) ?_
  · refine safe_ask hK (fun _ hu => hu.1.inv) hv (fun u hu => hu.1.held)
      (fun _ => stable_and stable_inv hF.stable) fun u _ _ hu ho hi' => ⟨hi',?_⟩
    cases ho
    exact hF.setEntry hd _ hu.2
  · refine safe_op hK (fun _ hv => hv.1.inv) ⟨hw,hf⟩ (fun v hv => hv.1.mine)
      fun v x _ hv ho hi' => ?_
    have hr := gate_records ho trivial
    exact safe_ret hK ⟨hv.1.gateOp ho trivial hi',hF.lifecycles hr.1 hr.2 hv.2⟩

theorem safe_acquireNative (hi : S.Inv w) (hw : F w) :
    Ensures (S.logic i) (fun c v => c.holder.1 = i ∧ S.Inv v ∧ F v) (fun _ v => S.Inv v ∧ F v)
      (acquireNative p) w := by
  have hK := stable_and stable_inv hF.stable
  have huuid : Safe (S.logic i) (fun u v => u.1 = i ∧ S.Inv v ∧ F v) newUuid w :=
    safe_quiet trivial hK ⟨hi,hw⟩ fun v u _ _ ho hv' _ =>
      safe_ret (stable_and (stable_const _) hK) ⟨by rw [ho.1],hv'⟩
  refine safe_try (safe_plain huuid) fun u v hv => ?_
  refine safe_ask hK (fun _ ht => ht.1) hv.2 (fun _ _ => hv.1) ?_ fun t x t' ht ho hi' => ?_
  · rintro (e | c)
    · exact hK
    · exact stable_and (stable_const _) hK
  have hr := gate_records ho trivial
  have hf' : F t' := hF.lifecycles hr.1 hr.2 ht.2
  rcases ho with ⟨e,rfl,rfl⟩ | ⟨_,s,hs,rfl,rfl⟩
  · exact ⟨hi',hf'⟩
  · refine ⟨?_,hi',hf'⟩
    rw [(Store.acquireParentGate_ok hs).1,hv.1]

theorem safe_renewLocked (hd : ¬ D l p) (hw : S.InGate i l p c w) (hf : F w) :
    Safe (S.logic i) (Ends (fun d v => S.InGate i l p d v ∧ F v) (fun _ v => S.Inv v ∧ F v))
      (renewLocked l p c) w := by
  have hK := stable_and (stable_inGate (l := l) (p := p) (c := c)) hF.stable
  refine safe_op hK (fun _ hv => hv.1.inv) ⟨hw,hf⟩ (fun v hv => hv.1.mine)
    fun v x v' hv ho hi' => ?_
  have hv' := hv.1.gateOp ho trivial hi'
  have hr := gate_records ho trivial
  have hf' := hF.lifecycles hr.1 hr.2 hv.2
  have hfail : ∀ e : Fault, Safe (S.logic i)
      (Ends (fun d v => S.InGate i l p d v ∧ F v) (fun _ v => S.Inv v ∧ F v))
      (ParentGateGuard.drop l p c >>= fun _ => Program.ret (.error e)) v' := fun e =>
    safe_bind (fun _ u hu => safe_ret (stable_and stable_inv hF.stable) hu)
      (safe_drop hF hd hv' hf')
  match x with
  | .ok true => exact safe_ret hK ⟨hv',hf'⟩
  | .ok false => exact hfail .gateExpired
  | .error e => exact hfail e

theorem safe_acquire (hi : S.Inv w) (hw : F w) :
    Ensures (S.logic i) (fun c v => ¬ D l p ∧ S.InGate i l p c v ∧ F v) (fun _ v => S.Inv v ∧ F v)
      (acquire l p) w := by
  refine safe_try (safe_acquireNative hF hi hw) fun c v hv => ?_
  have hK := stable_and (stable_const (c.holder.1 = i)) (stable_and stable_inv hF.stable)
  refine safe_op hK (fun _ hu => hu.2.1) hv (fun _ _ => trivial) fun u x _ hu ho hi' => ?_
  rcases ho with ⟨e,rfl,rfl⟩ | ⟨hh,rfl,rfl⟩
  · exact safe_bind (fun _ t ht => safe_ret (stable_and stable_inv hF.stable) ht)
      (safe_dropNative hF hu.1 hu.2.1 hu.2.2)
  have hd : ¬ D l p := by
    intro hd
    rw [hF.held u l p hu.2.2 hd] at hh
    cases hh
  have hin : S.InGate i l p c (u.setEntry l p { u.entry l p with held := some i }) := by
    refine ⟨hi',hu.1,?_⟩
    rw [World.entry_setEntry]
    simp
  exact safe_ends (fun _ _ ht => ⟨hd,ht⟩) (fun _ _ ht => ht)
    (safe_renewLocked hF hd hin (hF.setEntry hd _ hu.2.2))

end

theorem safe_withGate_frame {G : World → Prop} {F : α → World → Prop}
    {body : ParentGateClaim → Task α} (hP : S.Fact i D P) (hF : ∀ a, S.Fact i D (F a))
    (hG : S.Fact i D G) (hPG : ∀ v, P v → G v) (hi : S.Inv w) (hw : P w)
    (hbody : ∀ c v, S.InGate i l p c v → P v →
      Ensures (S.logic i) (fun a u => S.InGate i l p c u ∧ F a u)
      (fun _ u => S.InGate i l p c u ∧ G u) (body c) v) :
    Ensures (S.logic i) (fun a v => S.Inv v ∧ F a v) (fun _ v => S.Inv v ∧ G v)
      (withGate l p body) w := by
  refine safe_seq (safe_acquire hP hi hw) (fun _ v hv => ⟨hv.1,hPG v hv.2⟩) fun c v hv => ?_
  refine safe_bind (fun r u hu => ?_) (hbody c v hv.2.1 hv.2.2)
  match r with
  | .ok a =>
    refine safe_bind (fun _ t ht => ?_) (safe_drop (hF a) hv.1 hu.1 hu.2)
    exact safe_ret (stable_and stable_inv (hF a).stable) ht
  | .error e =>
    refine safe_bind (fun _ t ht => ?_) (safe_drop hG hv.1 hu.1 hu.2)
    exact safe_ret (stable_and stable_inv hG.stable) ht

theorem safe_withGate {F : α → World → Prop} {body : ParentGateClaim → Task α}
    (hP : S.Fact i NoEntries P) (hF : ∀ a, S.Fact i NoEntries (F a)) (hi : S.Inv w) (hw : P w)
    (hbody : ∀ c v, S.InGate i l p c v → P v →
      Ensures (S.logic i) (fun a u => S.InGate i l p c u ∧ F a u)
      (fun _ u => S.InGate i l p c u) (body c) v) :
    Ensures (S.logic i) (fun a v => S.Inv v ∧ F a v) (fun _ v => S.Inv v) (withGate l p body) w :=
  safe_ends (fun _ _ hv => hv) (fun _ _ hv => hv.1)
    (safe_withGate_frame hP hF fact_true (fun _ _ => trivial) hi hw fun c v hv hp =>
      safe_ends (fun _ _ hv => hv) (fun _ _ hv => ⟨hv,trivial⟩) (hbody c v hv hp))

theorem safe_withRouter {G : World → Prop} {F : α → World → Prop} {router : Router} {body : Task α}
    (hP : S.Fact i D P) (hF : ∀ a, S.Fact i D (F a)) (hG : S.Fact i D G) (hi : S.Inv w) (hw : P w)
    (hbody : ∀ v, S.Inv v → P v →
      Ensures (S.logic i) (fun a u => S.Inv u ∧ F a u) (fun _ u => S.Inv u ∧ G u) body v) :
    Ensures (S.logic i) (fun a v => S.Inv v ∧ F a v) (fun _ v => S.Inv v ∧ G v)
      (withRouter router body) w := by
  refine safe_quiet trivial (stable_and stable_inv hP.stable) ⟨hi,hw⟩ fun _ _ v' _ _ hv' _ => ?_
  refine safe_bind (fun r u hu => ?_) (hbody v' hv'.1 hv'.2)
  match r with
  | .ok a =>
    refine safe_quiet trivial (stable_and stable_inv (hF a).stable) hu fun _ _ t _ _ ht _ => ?_
    exact safe_ret (stable_and stable_inv (hF a).stable) ht
  | .error e =>
    refine safe_quiet trivial (stable_and stable_inv hG.stable) hu fun _ _ t _ _ ht _ => ?_
    exact safe_ret (stable_and stable_inv hG.stable) ht

end Scope

end Completions
