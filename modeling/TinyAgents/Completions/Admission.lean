import TinyAgents.Completions.Discipline

namespace Completions

open Interaction List Option ParentLifecycleStatus CompletionRecord

@[simp] theorem mergeLocal_none_left (cached : Option ParentLifecycleStatus) :
    mergeLocal none cached = cached := by
  cases cached with
  | none => rfl
  | some s => cases s <;> rfl

@[simp] theorem mergeLocal_none_right (a : ParentLifecycleStatus) :
    mergeLocal (some a) none = some a := by
  cases a <;> simp [mergeLocal]

theorem mergeLocal_some (a b : ParentLifecycleStatus) :
    mergeLocal (some a) (some b) =
      some (if a.markerState = .parentDeleted ∨
      b.markerState = .parentDeleted then .deleted (max a.epoch b.epoch) else if b.epoch ≤
      a.epoch then a else b) := by
  cases a <;> cases b <;>
    simp [mergeLocal,markerState,ParentLifecycleStatus.epoch,max_comm]

theorem mergeLocal_behind {w : World} {p : String} {marker cached}
    (hm : ∀ s, marker = some s → Behind w p s) (hc : ∀ s, cached = some s → Behind w p s) {s}
    (h : mergeLocal marker cached = some s) : Behind w p s := by
  cases marker with
  | none => exact hc s (by simpa using h)
  | some a =>
    cases cached with
    | none => exact hm s (by simpa using h)
    | some b =>
      obtain ⟨m,hma,hea,hda⟩ := hm a rfl
      obtain ⟨_,hmb,heb,hdb⟩ := hc b rfl
      rw [hma] at hmb
      cases hmb
      rw [mergeLocal_some] at h
      cases h
      split
      next hd => exact ⟨m,hma,max_le hea heb,fun _ => hd.elim hda hdb⟩
      · split
        · exact hm a rfl
        · exact hc b rfl

theorem mergeLocal_eq {m : CompletionRecord} {cached : Option ParentLifecycleStatus}
    (hc : ∀ s, cached = some s → s.epoch ≤ m.parentEpoch ∧
      (s.markerState = .parentDeleted → m.state = .parentDeleted)) :
    mergeLocal (some m.lifecycle) cached = some m.lifecycle := by
  cases cached with
  | none => simp
  | some s =>
    obtain ⟨he,hd⟩ := hc s rfl
    have he' : s.epoch ≤ m.lifecycle.epoch := by simpa using he
    rw [mergeLocal_some]
    split
    next h =>
      have hmd : m.state = .parentDeleted := h.elim m.lifecycle_markerState.1 hd
      rw [max_eq_left he',m.lifecycle_epoch]
      simp [lifecycle,hmd,fromMarker]
    · rfl

theorem mergeLocal_eq_none {marker cached} (h : mergeLocal marker cached = none) :
    cached = none := by
  cases marker with
  | none => simpa using h
  | some =>
    cases cached with
    | none => rfl
    | some =>
      rw [mergeLocal_some] at h
      cases h

namespace Scope

variable {S : Scope} {i : Nat} {w : World} {l : Nat} {p : String} {c : ParentGateClaim}

variable (S i l p c) in
structure Knows (st : Option ParentLifecycleStatus) (w : World) : Prop where
  gate : S.InGate i l p c w
  cached : (w.entry l p).status = st
  sees : S.clean → S.Tenured w p c → w.status p = st

theorem stable_knows {st} : S.Stable i (S.Knows i l p c st) := by
  intro v v' hv hr
  refine ⟨stable_inGate v v' hv.gate hr,?_,fun hcl ht => ?_⟩
  · rw [hr.guarded l p hv.gate.held]
    exact hv.cached
  · rw [status_of_marker (hr.marker hcl p c hv.gate.mine ht)]
    exact hv.sees hcl (hr.tenured hv.gate.mine ht)

variable (S i l p c) in
structure Stamped (s : ParentLifecycleStatus) (w : World) : Prop where
  gate : S.InGate i l p c w
  behind : S.clean → Behind w p s
  sees : S.clean → S.Tenured w p c → w.status p = some s

theorem stable_stamped {s} : S.Stable i (S.Stamped i l p c s) := by
  intro v v' hv hr
  refine ⟨stable_inGate v v' hv.gate hr,fun hcl => (hv.behind hcl).of_follows (hr.markers hcl p),
    fun hcl ht => ?_⟩
  rw [status_of_marker (hr.marker hcl p c hv.gate.mine ht)]
  exact hv.sees hcl (hr.tenured hv.gate.mine ht)

variable (S i l p c) in
abbrev Gated {α : Type} (Q : α → World → Prop) (task : Task α) (w : World) : Prop :=
  Ensures (S.logic i) Q (fun _ => S.InGate i l p c) task w

variable (S i p c) in
structure ReadMarker (m : Option CompletionRecord) (w : World) : Prop where
  mine : c.holder.1 = i
  same : S.clean → S.Tenured w p c → w.marker p = m
  behind : S.clean → ∀ m0, m = some m0 → Behind w p m0.lifecycle

theorem stable_readMarker {m} : S.Stable i (S.ReadMarker i p c m) := by
  intro v _ hv hr
  refine ⟨hv.mine,fun hcl ht => ?_,fun hcl m0 hm => ?_⟩
  · rw [hr.marker hcl p c hv.mine ht]
    exact hv.same hcl (hr.tenured hv.mine ht)
  · exact (hv.behind hcl m0 hm).of_follows (hr.markers hcl p)

theorem safe_tryGet {K : World → Prop} {R : Option CompletionRecord → World → Prop}
    {taskId : String} (hK : S.Stable i K) (hR : ∀ r, S.Stable i (R r)) (hw : K w)
    (hget : ∀ v, K v → R (v.get taskId) v) :
    Ensures (S.logic i) (fun r v => K v ∧ R r v) (fun _ => K) (tryGet taskId) w := by
  refine safe_quiet trivial hK hw fun v x _ hv ho _ _ => ?_
  obtain ⟨rfl,⟨e,rfl⟩ | rfl⟩ := ho
  · exact safe_ret hK hv
  · exact safe_ret (stable_and hK (hR _)) ⟨hv,hget _ hv⟩

theorem safe_readMarker {K : World → Prop} (hK : S.Stable i K) (hw : K w) (hc : c.holder.1 = i) :
    Ensures (S.logic i) (fun m v => K v ∧ S.ReadMarker i p c m v) (fun _ => K)
      (tryGet (parentMarkerId p)) w :=
  safe_tryGet hK (fun _ => stable_readMarker) hw fun _ _ =>
    ⟨hc,fun _ _ => rfl,fun _ m hm => ⟨m,hm,(m.lifecycle_epoch).le,m.lifecycle_markerState.1⟩⟩

theorem safe_localStatus {K} (hK : S.Stable i K) (hg : ∀ v, K v → S.InGate i l p c v) (hw : K w) :
    Ensures (S.logic i) (fun s v => K v ∧ (v.entry l p).status = s) (fun _ => K)
      (localStatus l p) w := by
  refine safe_quiet trivial hK hw fun v x _ hv ho _ _ => ?_
  obtain ⟨rfl,⟨e,rfl⟩ | rfl⟩ := ho
  · exact safe_ret hK hv
  · refine fun u hr => ⟨hK _ u hv hr,?_⟩
    rw [hr.guarded l p (hg _ hv).held]

theorem safe_isProcessLocal {K} (hK : S.Stable i K) (hw : K w) {E} :
    Ensures (S.logic i) (fun _ => K) E (plain isProcessLocal) w :=
  safe_plain <| safe_quiet trivial hK hw
    fun _ _ _ _ _ hv' _ => safe_ret hK hv'

theorem safe_clock {K} (hK : S.Stable i K) (hw : K w) {E} :
    Ensures (S.logic i) (fun _ => K) E (plain clock) w :=
  safe_plain <| safe_quiet trivial hK hw
    fun _ _ _ _ _ hv' _ => safe_ret hK hv'

theorem safe_setLocalStatus {s} {P} (hP : S.Fact i NoEntries P) (hw : S.Stamped i l p c s w)
    (hp : P w) :
    S.Gated i l p c (fun _ v => S.Knows i l p c (some s) v ∧ P v) (setLocalStatus l p s) w := by
  refine safe_ask (stable_and stable_stamped hP.stable) (fun _ hv => hv.1.gate.inv) ⟨hw,hp⟩
    (fun v hv => ⟨hv.1.gate.held,hv.1.behind⟩) ?_ fun v x v' hv ho hi' => ?_
  · rintro (e | u)
    · exact stable_inGate
    · exact stable_and stable_knows hP.stable
  rcases ho with ⟨e,rfl,rfl⟩ | ⟨_,rfl,rfl⟩
  · exact hv.1.gate
  have hentry : (v.setEntry l p { v.entry l p with status := some s }).entry l p =
      { v.entry l p with status := some s } := by
    rw [World.entry_setEntry]
    simp
  refine ⟨⟨⟨hi',hv.1.gate.mine,?_⟩,?_,hv.1.sees⟩,hP.frame v _ rfl (fun _ _ h => h.elim) hv.2⟩
  · rw [hentry]
    exact hv.1.gate.held
  · rw [hentry]

theorem safe_cacheStatus {st} {P} (hP : S.Fact i NoEntries P) (hw : S.InGate i l p c w) (hp : P w)
    (hb : S.clean → ∀ s, st = some s → Behind w p s)
    (hs : S.clean → S.Tenured w p c → w.status p = st)
    (hn : st = none → (w.entry l p).status = none) :
    S.Gated i l p c (fun r v => S.Knows i l p c r v ∧ P v) (cacheStatus l p st) w := by
  cases st with
  | none => exact safe_ret (stable_and stable_knows hP.stable) ⟨⟨hw,hn rfl,hs⟩,hp⟩
  | some s =>
    refine safe_try (safe_setLocalStatus hP ⟨hw,fun hcl => hb hcl s rfl,hs⟩ hp) ?_
    exact fun _ v hv => safe_ret (stable_and stable_knows hP.stable) hv

theorem safe_parentLifecycleStatus {P : World → Prop} (hP : S.Fact i NoEntries P)
    (hw : S.InGate i l p c w) (hp : P w) :
    S.Gated i l p c (fun st v => S.Knows i l p c st v ∧ P v) (parentLifecycleStatus l p) w := by
  have hK := stable_and (stable_inGate (l := l) (p := p) (c := c)) hP.stable
  refine safe_seq (safe_readMarker hK ⟨hw,hp⟩ hw.mine) (fun _ _ h => h.1) ?_
  intro m v hv
  have hK1 := stable_and hK (stable_readMarker (p := p) (c := c) (m := m))
  refine safe_try (safe_isProcessLocal hK1 hv) fun b u hu => ?_
  have behindCached {t} (ht : S.InGate i l p c t) {st}
      (hst : (t.entry l p).status = st) (hcl : S.clean) (s : ParentLifecycleStatus)
      (hs : st = some s) : Behind t p s :=
    ht.inv.cached hcl l p s (hst.trans hs)
  have behindMarker {t} (ht : S.ReadMarker i p c m t) (hcl : S.clean)
      (s : ParentLifecycleStatus) (hs : m.map lifecycle = some s) :
      Behind t p s := by
    obtain ⟨m0,hm0,rfl⟩ := map_eq_some_iff.1 hs
    exact ht.behind hcl m0 hm0
  have sees {t} (ht : S.ReadMarker i p c m t) (hcl : S.clean) (hten : S.Tenured t p c) :
      t.status p = m.map lifecycle := by
    rw [World.status,ht.same hcl hten]
  cases b with
  | true =>
    refine safe_seq (safe_localStatus hK1 (fun _ h => h.1.1) hu) (fun _ _ h => h.1.1) ?_
    rintro st t ⟨ht,hst⟩
    refine safe_cacheStatus hP ht.1.1 ht.1.2 (fun hcl s hs => ?_) (fun hcl hten => ?_)
      fun hn => hst.trans (mergeLocal_eq_none hn)
    · exact mergeLocal_behind (behindMarker ht.2 hcl) (behindCached ht.1.1 hst hcl) hs
    rw [sees ht.2 hcl hten]
    have hc := behindCached ht.1.1 hst hcl
    have hm := ht.2.same hcl hten
    cases m with
    | none =>
      rw [map_none,mergeLocal_none_left]
      cases st with
      | none => rfl
      | some s =>
        obtain ⟨_,hm0,-⟩ := hc s rfl
        rw [hm] at hm0
        cases hm0
    | some =>
      refine (mergeLocal_eq fun s hs => ?_).symm
      obtain ⟨_,hm1,he,hd⟩ := hc s hs
      rw [hm] at hm1
      cases hm1
      exact ⟨he,hd⟩
  | false =>
    cases m with
    | some =>
      exact safe_cacheStatus hP hu.1.1 hu.1.2 (behindMarker hu.2) (sees hu.2) fun hn => by cases hn
    | none =>
      refine safe_mono ?_ (safe_localStatus hK1 (fun _ h => h.1.1) hu)
      rintro (e | s) t ht
      · exact ht.1.1
      refine ⟨⟨ht.1.1.1,ht.2,fun hcl hten => ?_⟩,ht.1.1.2⟩
      have hm := ht.1.2.same hcl hten
      rw [sees ht.1.2 hcl hten]
      cases s with
      | none => rfl
      | some s0 =>
        obtain ⟨_,hm0,-⟩ := behindCached ht.1.1.1 ht.2 hcl s0 rfl
        rw [hm] at hm0
        cases hm0

theorem safe_putFenced {site : WriteSite} {r} {K K'} {E} (hK : S.Stable i K) (hK' : S.Stable i K')
    (hi : ∀ v, K v → S.Inv v) (hE : ∀ e v, K v → E e v) (hw : K w)
    (hg : ∀ v, K v → S.Guar i (.putFenced site r p c) v)
    (hok : ∀ v s, K v → v.store.GateCurrent p c v.now → s = v.store.written r →
      S.Inv (v.setStore s) → K' (v.setStore s)) :
    Ensures (S.logic i) (fun _ => K') E (putFenced site r p c) w := by
  have hsafe : Ensures (S.logic i) (fun _ => K') (fun _ => K) (putFenced site r p c) w := by
    refine safe_ask hK hi hw hg ?_ fun v x _ hv ho hi' => ?_
    · rintro (e | u)
      · exact hK
      · exact hK'
    rcases ho with ⟨e,rfl,rfl⟩ | ⟨a,s,hs,rfl,rfl⟩
    · exact hv
    · obtain ⟨hc,-,rfl⟩ := Store.withCurrentGate_ok hs
      exact hok v _ hv hc rfl hi'
  refine safe_mono ?_ hsafe
  rintro (e | u) v hv
  · exact hE e v hv
  · exact hv

@[simp] theorem parentMarker_lifecycle (state : CompletionState) (epoch now : Nat) :
    (parentMarker p state epoch now).lifecycle = .fromMarker state epoch := rfl

theorem InGate.setStore {v : World} {s : Store} (h : S.InGate i l p c v)
    (hi : S.Inv (v.setStore s)) : S.InGate i l p c (v.setStore s) :=
  ⟨hi,h.mine,h.held⟩

theorem marker_after_put {v : World} {s : Store} {site : WriteSite} {r}
    (hsite : SiteMarker site (v.marker p) r) (hid : r.taskId = parentMarkerId p)
    (hk : r.parentKey = p) (hs : s = v.store.written r) : (v.setStore s).marker p = some r := by
  subst hs
  have had : v.store.adoptEpoch r = r := hsite.adopt hk
  rw [World.marker,World.setStore_get,Store.written,had,← hid]
  exact Table.get_insert_self _ r

theorem safe_writeParentMarker {st} (hw : S.Knows i l p c (some st) w) :
    S.Gated i l p c (fun _ => S.Knows i l p c (some st)) (writeParentMarker p st c) w := by
  refine safe_try (safe_clock stable_knows hw) fun now v hv => ?_
  have hsite {u} (hu : S.Knows i l p c (some st) u) (hcl : S.clean)
      (ht : S.Tenured u p c) : SiteMarker .restore (u.marker p)
        (parentMarker p st.markerState st.epoch now) := by
    obtain ⟨m0,hm0,hl⟩ := map_eq_some_iff.1 (hu.sees hcl ht)
    refine ⟨m0,hm0,?_⟩
    rw [hl,parentMarker_lifecycle,fromMarker_markerState]
  refine safe_putFenced stable_knows stable_knows (fun _ h => h.gate.inv) (fun _ _ h => h.gate) hv
    ?_ ?_
  · intro u hu
    refine ⟨hu.gate.mine,rfl,rfl,?_,fun hcl ht => hsite hu hcl ht,?_⟩
    · cases st <;> simp [parentMarker,markerState]
    · intro _ hadmit
      cases hadmit
  · intro u s hu _ hs hi'
    refine ⟨hu.gate.setStore hi',hu.cached,fun hcl ht => ?_⟩
    have ht' : S.Tenured u p c := by
      subst hs
      exact ht
    rw [World.status,marker_after_put (hsite hu hcl ht') rfl rfl hs,map_some,
      parentMarker_lifecycle,fromMarker_markerState]

def SiteAllows (site : WriteSite) (state : CompletionState) (st : Option ParentLifecycleStatus) :
    Prop :=
  match site with
  | .enrol => state = .delivered ∧ st = none
  | .close => (state = .tombstoned ∨ state = .parentDeleted) ∧ ∀ e, st ≠ some (.deleted e)
  | .resume => state = .delivered ∧ (∀ e, st ≠ some (.deleted e)) ∧ ∀ e, st ≠ some (.opened e)
  | _ => False

theorem lifecycle_of_deleted {m : CompletionRecord} (h : m.state = .parentDeleted) :
    m.lifecycle = .deleted m.parentEpoch := by
  simp [lifecycle,h,fromMarker]

theorem nextEpoch_eq {processLocal : Bool} {current} :
    nextEpoch processLocal current (current.map lifecycle) =
      current.elim 1 (fun m => saturatingSucc u64Max m.parentEpoch) := by
  cases processLocal <;> cases current <;> simp [nextEpoch]

theorem siteMarker_of_allows {site : WriteSite} {state : CompletionState}
    {current : Option CompletionRecord} {now : Nat}
    (h : SiteAllows site state (current.map lifecycle)) :
    SiteMarker site current (parentMarker p state
      (current.elim 1 (fun m => saturatingSucc u64Max m.parentEpoch)) now) := by
  cases site with
  | enrol =>
    obtain ⟨rfl,hn⟩ := h
    rw [map_eq_none_iff] at hn
    subst hn
    exact ⟨rfl,rfl,rfl⟩
  | close =>
    obtain ⟨hs,hd⟩ := h
    refine ⟨hs,rfl,fun m0 hm hst => hd m0.parentEpoch ?_⟩
    rw [hm,map_some,lifecycle_of_deleted hst]
  | resume =>
    obtain ⟨rfl,hd,ho⟩ := h
    refine ⟨rfl,rfl,fun m0 hm => ⟨fun hst => hd m0.parentEpoch ?_,fun hst => ho m0.parentEpoch ?_⟩⟩
    · rw [hm,map_some,lifecycle_of_deleted hst]
    · simp [hm,lifecycle,hst,fromMarker]
  | suppress | reserve | withdraw | upgrade | restore => exact h.elim

theorem SiteAllows.state {site : WriteSite} {state} {st} (h : SiteAllows site state st) :
    state = .delivered ∨ state = .tombstoned ∨ state = .parentDeleted := by
  cases site with
  | enrol | resume => exact .inl h.1
  | close => exact .inr h.1
  | suppress | reserve | withdraw | upgrade | restore => exact h.elim

theorem not_marker_of_pending {v : World} {q : String} {r} (hcl : S.clean) (hi : S.Inv v)
    (hr : v.Pending q r) : ¬ IsMarkerId r.taskId := by
  intro hm
  obtain ⟨-,hst,-⟩ := hi.markers hcl _ _ hr.1 hm
  rw [hr.2.2] at hst
  simp at hst

theorem pending_back {v v' : World} {r} (hv : S.versioned) (hc : c.holder.1 = i) (hi' : S.Inv v')
    (hr : S.Rely i v v') (ht : S.Tenured v' p c) (hp : v'.Pending p r) : v.Pending p r := by
  have hm := not_marker_of_pending (S.versioned_clean hv) hi' hp
  exact ⟨hr.noNew (S.versioned_strict hv) p c hc ht _ r hm hp.2.1 hp.2.2 hp.1,hp.2⟩

variable (S i p c) in
def AllAt (epoch : Nat) (v : World) : Prop :=
  S.versioned → S.Tenured v p c → ∀ r, v.Pending p r → r.parentEpoch = epoch

theorem stable_knows_allAt {s} {A : Prop} {n : Nat} :
    S.Stable i (fun v => S.Knows i l p c s v ∧ (A → S.AllAt p c n v)) := by
  intro v v' hv hr
  have hk := stable_knows v v' hv.1 hr
  refine ⟨hk,fun ha hver ht r hp => ?_⟩
  have hm := hv.1.gate.mine
  exact hv.2 ha hver (hr.tenured hm ht) r (pending_back hver hm hk.gate.inv hr ht hp)

theorem safe_setParentMarker {site : WriteSite} {state} {st} (hallow : SiteAllows site state st)
    (hw : S.Knows i l p c st w) (hall : site = .enrol → S.AllAt p c 1 w) :
    S.Gated i l p c (fun _ v => ∃ e, S.Knows i l p c (some (.fromMarker state e)) v)
      (setParentMarker site l p state c) w := by
  have hK := stable_knows_allAt (S := S) (i := i) (l := l) (p := p) (c := c) (s := st)
    (A := site = .enrol) (n := 1)
  refine safe_try (safe_clock hK ⟨hw,hall⟩) fun now v hv => ?_
  refine safe_seq (safe_readMarker hK hv hv.1.gate.mine)
    (fun _ _ h => h.1.gate) fun current u hu => ?_
  have hK1 := stable_and hK (stable_readMarker (p := p) (c := c) (m := current))
  refine safe_seq (safe_localStatus hK1 (fun _ h => h.1.1.gate) hu) (fun _ _ h => h.1.1.gate) ?_
  rintro cached t ⟨ht,hcached⟩
  have hst : cached = st := hcached.symm.trans ht.1.1.cached
  subst hst
  refine safe_try (safe_isProcessLocal hK1 ht) fun b _ ht' => ?_
  let epoch := nextEpoch b current cached
  let r := parentMarker p state epoch now
  have hsite {x} (hx : S.Knows i l p c cached x) (hm : S.ReadMarker i p c current x)
      (hcl : S.clean) (hten : S.Tenured x p c) : SiteMarker site (x.marker p) r := by
    have hsame := hm.same hcl hten
    have hsee := hx.sees hcl hten
    rw [World.status,hsame] at hsee
    rw [hsame]
    subst hsee
    have he := @siteMarker_of_allows p _ _ _ now hallow
    rw [← nextEpoch_eq] at he
    exact he
  have hK' := stable_stamped (S := S) (i := i) (l := l) (p := p) (c := c) (s := r.lifecycle)
  refine safe_try (safe_putFenced hK1 hK' (fun _ h => h.1.1.gate.inv)
    (fun _ _ h => h.1.1.gate) ht' ?_ ?_) ?_
  · intro x hx
    refine ⟨hx.1.1.gate.mine,?_⟩
    have hwrites : r.taskId = parentMarkerId p ∧ r.parentKey = p ∧
        (r.state = .delivered ∨ r.state = .tombstoned ∨ r.state = .parentDeleted) ∧
          (S.clean → S.Tenured x p c → SiteMarker site (x.marker p) r) ∧
            (S.versioned → site = .enrol → S.Tenured x p c →
              ∀ r0, x.Pending p r0 → r0.parentEpoch = r.parentEpoch) := by
      refine ⟨rfl,rfl,hallow.state,fun hcl hten => hsite hx.1.1 hx.2 hcl hten,?_⟩
      intro hver hadm hten r0 hr0
      have hs := hsite hx.1.1 hx.2 (S.versioned_clean hver) hten
      subst hadm
      rw [hs.2.2]
      exact hx.1.2 rfl hver hten r0 hr0
    cases site with
    | enrol | close | resume => exact hwrites
    | suppress | reserve | withdraw | upgrade | restore => exact hallow.elim
  · intro x s hx hcur hs hi'
    have hten : S.Tenured x p c := .inl (holds_of_current hcur)
    have hmark (hcl : S.clean) : (x.setStore s).marker p = some r :=
      marker_after_put (hsite hx.1.1 hx.2 hcl hten) rfl rfl hs
    refine ⟨hx.1.1.gate.setStore hi',fun hcl => ?_,fun hcl _ => ?_⟩
    · exact ⟨r,hmark hcl,(r.lifecycle_epoch).le,r.lifecycle_markerState.1⟩
    · rw [World.status,hmark hcl,map_some]
  · intro _ x hx
    refine safe_mono ?_ (safe_setLocalStatus fact_true hx trivial)
    rintro (e | y) x' hx'
    · exact hx'
    · exact ⟨epoch,hx'.1⟩

variable (S i p c) in
structure Listed (rest : List CompletionRecord) (v : World) : Prop where
  mine : c.holder.1 = i
  parents : ∀ r ∈ rest, r.parentKey = p
  nodup : (rest.map taskId).Nodup
  stored : S.strict → S.Tenured v p c → ∀ r ∈ rest, ¬ IsMarkerId r.taskId → S.Protected r →
    v.get r.taskId = some r
  unmarked : S.clean → S.Tenured v p c → v.marker p = none → ∀ r ∈ rest, ¬ IsMarkerId r.taskId
  pending_unmarked : S.clean → ∀ r ∈ rest, r.state = .pending → ¬ IsMarkerId r.taskId

theorem stable_listed {rest} : S.Stable i (S.Listed i p c rest) := by
  intro v _ hv hr
  refine ⟨hv.mine,hv.parents,hv.nodup,?_,?_,hv.pending_unmarked⟩
  · intro hs ht r hrest hm hpr
    have h0 := hv.stored hs (hr.tenured hv.mine ht) r hrest hm hpr
    exact hr.kept hs p c hv.mine ht _ r hm (hv.parents r hrest) hpr h0
  intro hcl ht hn
  rw [hr.marker hcl p c hv.mine ht] at hn
  exact hv.unmarked hcl (hr.tenured hv.mine ht) hn

theorem Listed.tail {r} {rest} {v v' : World} (h : S.Listed i p c (r :: rest) v)
    (ht : S.Tenured v' p c → S.Tenured v p c) (hget : ∀ id, id ≠ r.taskId → v'.get id = v.get id)
    (hm : S.clean → S.Tenured v' p c → v'.marker p = none → v.marker p = none) :
    S.Listed i p c rest v' := by
  obtain ⟨hr,hn⟩ := nodup_cons.1 h.nodup
  refine ⟨h.mine,fun x hx => h.parents x (mem_cons_of_mem r hx),hn,?_,?_,
    fun hcl x hx => h.pending_unmarked hcl x (mem_cons_of_mem r hx)⟩
  · intro hs hten x hx hmk hpr
    rw [hget]
    · exact h.stored hs (ht hten) x (mem_cons_of_mem r hx) hmk hpr
    · exact fun he => hr (he ▸ mem_map_of_mem hx)
  · intro hcl hten hnone x hx
    exact h.unmarked hcl (ht hten) (hm hcl hten hnone) x (mem_cons_of_mem r hx)

theorem listed_of_perm {records} {v : World} (hc : c.holder.1 = i) (hi : S.Inv v)
    (h : records.Perm (v.store.listed (some p))) :
    S.Listed i p c records v ∧ ∀ r, v.get r.taskId = some r → r.parentKey = p → r ∈ records := by
  have hmem r : r ∈ records ↔ r ∈ v.store.records.entries ∧ r.parentKey = p := by
    rw [h.mem_iff]
    simp [Store.listed]
  have hget {r} (hr : r ∈ records) : v.get r.taskId = some r :=
    Table.get_eq_some.2 ⟨((hmem r).1 hr).1,rfl⟩
  refine ⟨⟨hc,fun r hr => ((hmem r).1 hr).2,?_,fun _ _ r hr _ _ => hget hr,?_,?_⟩,?_⟩
  · exact (h.map taskId).nodup_iff.2
      (v.store.records.nodup.sublist (filter_sublist.map _))
  · intro hcl _ hn r hr hm
    obtain ⟨hid,-⟩ := hi.markers hcl _ _ (hget hr) hm
    rw [((hmem r).1 hr).2] at hid
    rw [World.marker,← hid,hget hr] at hn
    cases hn
  · intro hcl r hr hst hm
    exact not_marker_of_pending hcl hi ⟨hget hr,rfl,hst⟩ hm
  · intro r hr hp
    exact (hmem r).2 ⟨(Table.get_eq_some.1 hr).1,hp⟩

theorem safe_tryList {K : World → Prop} {R : List CompletionRecord → World → Prop}
    (hK : S.Stable i K) (hR : ∀ r, S.Stable i (R r)) (hw : K w)
    (hlist : ∀ v records, K v → records.Perm (v.store.listed (some p)) → R records v) :
    Ensures (S.logic i) (fun r v => K v ∧ R r v) (fun _ => K) (tryList (some p)) w := by
  refine safe_quiet trivial hK hw fun v x _ hv ho _ _ => ?_
  obtain ⟨rfl,⟨e,rfl⟩ | ⟨records,hperm,rfl⟩⟩ := ho
  · exact safe_ret hK hv
  · exact safe_ret (stable_and hK (hR _)) ⟨hv,hlist _ _ hv hperm⟩

variable (S p c) in
def Upgrading (rest : List CompletionRecord) (v : World) : Prop :=
  S.versioned → S.Tenured v p c → ∀ r, v.Pending p r →
    r.parentEpoch = 1 ∨ r.parentEpoch = 0 ∧ r ∈ rest

variable (S i l p c) in
structure UpgradeState (rest : List CompletionRecord) (v : World) : Prop where
  knows : S.Knows i l p c none v
  listed : S.Listed i p c rest v
  upgrading : S.Upgrading p c rest v

theorem stable_upgradeState {rest} : S.Stable i (S.UpgradeState i l p c rest) := by
  intro v v' hv hr
  have hk := stable_knows v v' hv.knows hr
  refine ⟨hk,stable_listed v v' hv.listed hr,fun hver ht r hp => ?_⟩
  have hm := hv.knows.gate.mine
  exact hv.upgrading hver (hr.tenured hm ht) r (pending_back hver hm hk.gate.inv hr ht hp)

theorem Knows.marker_none {v : World} (h : S.Knows i l p c none v) (hcl : S.clean)
    (ht : S.Tenured v p c) : v.marker p = none :=
  map_eq_none_iff.1 (h.sees hcl ht)

theorem upgradeState_put {legacy} {rest} {v : World} {s : Store}
    (h : S.UpgradeState i l p c (legacy :: rest) v) (hcur : v.store.GateCurrent p c v.now)
    (hs : s = v.store.written { legacy with parentEpoch := 1 }) (hi : S.Inv (v.setStore s)) :
    S.UpgradeState i l p c rest (v.setStore s) := by
  have hten : S.Tenured v p c := .inl (holds_of_current hcur)
  rw [Store.written,Store.adoptEpoch_of_pos Nat.one_ne_zero] at hs
  have hother id (hid : id ≠ legacy.taskId) : (v.setStore s).get id = v.get id := by
    subst hs
    exact Table.get_insert_ne (Ne.symm hid)
  have hmarker (hcl : S.clean) : (v.setStore s).marker p = v.marker p := by
    refine hother _ fun he => ?_
    refine h.listed.unmarked hcl hten (h.knows.marker_none hcl hten) legacy mem_cons_self ?_
    rw [← he]
    exact parentMarkerId_isMarkerId p
  refine ⟨⟨h.knows.gate.setStore hi,h.knows.cached,fun hcl _ => ?_⟩,?_,?_⟩
  · rw [status_of_marker (hmarker hcl)]
    exact h.knows.sees hcl hten
  · exact h.listed.tail (fun _ => hten) hother fun hcl _ hn => (hmarker hcl).symm.trans hn
  intro hver _ r hp
  by_cases hid : r.taskId = legacy.taskId
  · have hget := hp.1
    rw [hid] at hget
    subst hs
    have hself : (v.store.records.insert { legacy with parentEpoch := 1 }).get legacy.taskId =
        some { legacy with parentEpoch := 1 } := Table.get_insert_self _ _
    rw [World.setStore_get,hself] at hget
    cases hget
    exact .inl rfl
  · have hold : v.Pending p r := ⟨(hother _ hid).symm.trans hp.1,hp.2⟩
    rcases h.upgrading hver hten r hold with h1 | ⟨h0,hm⟩
    · exact .inl h1
    rcases mem_cons.1 hm with rfl | hm
    · exact absurd rfl hid
    · exact .inr ⟨h0,hm⟩

theorem UpgradeState.skip {legacy} {rest} {v : World}
    (h : S.UpgradeState i l p c (legacy :: rest) v) (he : legacy.parentEpoch ≠ 0) :
    S.UpgradeState i l p c rest v := by
  refine ⟨h.knows,h.listed.tail id (fun _ _ => rfl) (fun _ _ hn => hn),fun hver ht r hp => ?_⟩
  rcases h.upgrading hver ht r hp with h1 | ⟨h0,hm⟩
  · exact .inl h1
  rcases mem_cons.1 hm with rfl | hm
  · exact absurd h0 he
  · exact .inr ⟨h0,hm⟩

theorem safe_upgradeLegacy {rest} (hw : S.UpgradeState i l p c rest w) :
    S.Gated i l p c (fun _ => S.UpgradeState i l p c []) (upgradeLegacy p c rest) w := by
  induction rest generalizing w with
  | nil => exact safe_ret stable_upgradeState hw
  | cons legacy rest ih =>
    unfold upgradeLegacy
    split
    next he =>
      refine safe_try (safe_putFenced
        stable_upgradeState stable_upgradeState (fun _ h => h.knows.gate.inv)
        (fun _ _ h => h.knows.gate) hw ?_ fun _ _ hv hcur hs hi => upgradeState_put hv hcur hs hi)
        fun _ _ hv => ih hv
      intro v hv
      have hmem : legacy ∈ legacy :: rest := mem_cons_self
      refine ⟨hv.knows.gate.mine,hv.listed.parents legacy hmem,rfl,fun ht => ⟨?_,?_,?_⟩⟩
      · exact fun hcl => hv.knows.marker_none hcl ht
      · exact fun hcl => hv.listed.unmarked hcl ht (hv.knows.marker_none hcl ht) legacy hmem
      · exact fun hstr hm hpr => hv.listed.stored hstr ht legacy hmem hm hpr
    next he => exact ih (hw.skip he)

variable (S i l p c) in
structure Admitted (o : Option Nat) (v : World) : Prop where
  gate : S.InGate i l p c v
  opened : ∀ e, o = some e → S.clean → S.Tenured v p c → v.status p = some (.opened e)

theorem stable_admitted {o : Option Nat} : S.Stable i (S.Admitted i l p c o) := by
  intro v v' hv hr
  refine ⟨stable_inGate v v' hv.gate hr,fun e he hcl ht => ?_⟩
  rw [status_of_marker (hr.marker hcl p c hv.gate.mine ht)]
  exact hv.opened e he hcl (hr.tenured hv.gate.mine ht)

theorem Knows.admitted {e : Nat} {v : World} (h : S.Knows i l p c (some (.opened e)) v) :
    S.Admitted i l p c (some e) v :=
  ⟨h.gate,fun _ he hcl ht => by
    cases he
    exact h.sees hcl ht⟩

theorem safe_restoreOpen {e : Nat} (hw : S.Knows i l p c (some (.opened e)) w) :
    S.Gated i l p c (fun _ => S.Knows i l p c (some (.opened e))) (restoreOpen p e c) w := by
  refine safe_try (safe_isProcessLocal stable_knows hw) fun b v hv => ?_
  cases b with
  | false => exact safe_writeParentMarker hv
  | true =>
    refine safe_seq (safe_readMarker stable_knows hv hv.gate.mine)
      (fun _ _ h => h.gate) fun m u hu => ?_
    split
    · exact safe_writeParentMarker hu.1
    · exact safe_ret stable_knows hu.1

theorem safe_restoreClosed {st} (hw : S.Knows i l p c st w) :
    S.Gated i l p c (fun _ => S.Knows i l p c st) (restoreClosed l p c) w := by
  refine safe_try (safe_isProcessLocal stable_knows hw) fun b v hv => ?_
  cases b with
  | true => exact safe_ret stable_knows hv
  | false =>
    refine safe_seq (safe_readMarker stable_knows hv hv.gate.mine)
      (fun _ _ h => h.gate) fun m u hu => ?_
    split
    · refine safe_seq (safe_localStatus stable_knows (fun _ h => h.gate) hu.1)
        (fun _ _ h => h.gate) fun cached t ht => ?_
      have hst : cached = st := ht.2.symm.trans ht.1.cached
      subst hst
      cases cached with
      | some => exact safe_writeParentMarker ht.1
      | none => exact safe_ret stable_inGate ht.1.gate
    · exact safe_ret stable_knows hu.1

theorem safe_openFirst (hw : S.Knows i l p c none w) :
    S.Gated i l p c (S.Admitted i l p c) (openFirst l p c) w := by
  have hlist := safe_tryList
    stable_knows (fun _ => stable_upgradeState) hw fun v records hv hperm => by
      obtain ⟨hl,hc⟩ := listed_of_perm hv.gate.mine hv.gate.inv hperm
      refine ⟨hv,hl,fun hver ht r hr => ?_⟩
      have he := hv.gate.inv.epochs hver p r hr
      rw [hv.sees (S.versioned_clean hver) ht] at he
      rcases he with h0 | h1
      · exact .inr ⟨h0,hc r hr.1 hr.2.1⟩
      · exact .inl h1
  refine safe_seq hlist (fun _ _ h => h.gate) fun records v hv => ?_
  refine safe_try (safe_upgradeLegacy hv.2) fun _ u hu => ?_
  have hall : S.AllAt p c 1 u := by
    intro hver ht r hr
    rcases hu.upgrading hver ht r hr with h1 | ⟨-,hm⟩
    · exact h1
    · cases hm
  refine safe_try (safe_setParentMarker ⟨rfl,rfl⟩ hu.knows fun _ => hall) fun _ t ht => ?_
  obtain ⟨e,ht⟩ := ht
  refine safe_seq (safe_readMarker stable_knows ht ht.gate.mine)
    (fun _ _ h => h.gate) fun m x hx => ?_
  cases m with
  | none => exact safe_ret stable_inGate hx.1.gate
  | some m0 =>
    refine safe_ret stable_admitted ⟨hx.1.gate,fun _ he' hcl hten => ?_⟩
    cases he'
    have hsee := hx.1.sees hcl hten
    have hl : m0.lifecycle = .opened e := by
      rw [World.status,hx.2.same hcl hten,map_some] at hsee
      exact Option.some.inj hsee
    have hep : m0.parentEpoch = e := by
      rw [← m0.lifecycle_epoch,hl]
      rfl
    rw [hsee,hep]
    rfl

end Scope

end Completions
