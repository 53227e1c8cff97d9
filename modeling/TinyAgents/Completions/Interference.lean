import TinyAgents.Completions.Guarantee

namespace Completions

open Interaction Option CompletionRecord

variable (m : CompletionRecord)

@[simp] theorem CompletionRecord.lifecycle_epoch : m.lifecycle.epoch = m.parentEpoch := by
  simp [lifecycle]

theorem CompletionRecord.lifecycle_markerState :
    m.lifecycle.markerState = .parentDeleted ↔ m.state = .parentDeleted := by
  unfold lifecycle
  cases m.state <;> simp [ParentLifecycleStatus.fromMarker,ParentLifecycleStatus.markerState]

theorem le_saturatingSucc {limit n : Nat} (h : n ≤ limit) : n ≤ saturatingSucc limit n := by
  unfold saturatingSucc
  omega

theorem u64Max_pos : 0 < u64Max := by
  decide

namespace Store

variable (s : Store) (r : CompletionRecord)

theorem adoptEpoch_eq :
    s.adoptEpoch r = { r with parentEpoch := (s.adoptEpoch r).parentEpoch } := by
  unfold adoptEpoch
  repeat' split
  all_goals rfl

@[simp] theorem adoptEpoch_taskId : (s.adoptEpoch r).taskId = r.taskId := by
  rw [adoptEpoch_eq]

@[simp] theorem adoptEpoch_parentKey : (s.adoptEpoch r).parentKey = r.parentKey := by
  rw [adoptEpoch_eq]

@[simp] theorem adoptEpoch_state : (s.adoptEpoch r).state = r.state := by
  rw [adoptEpoch_eq]

@[simp] theorem adoptEpoch_claim : (s.adoptEpoch r).claim = r.claim := by
  rw [adoptEpoch_eq]

@[simp] theorem adoptEpoch_attempts : (s.adoptEpoch r).attempts = r.attempts := by
  rw [adoptEpoch_eq]

theorem adoptEpoch_of_pos {s : Store} {r} (h : r.parentEpoch ≠ 0) : s.adoptEpoch r = r := by
  simp [adoptEpoch,h]

end Store

theorem Follows.refl : Follows m m :=
  ⟨le_rfl,id⟩

theorem Follows.trans {a b c} (h : Follows a b) (k : Follows b c) : Follows a c :=
  ⟨h.1.trans k.1,k.2 ∘ h.2⟩

theorem Behind.of_follows {w w' : World} {p : String} {s} (h : Behind w p s)
    (hf : ∀ m, w.marker p = some m → ∃ m', w'.marker p = some m' ∧ Follows m m') :
    Behind w' p s := by
  obtain ⟨m,hm,he,hd⟩ := h
  obtain ⟨m',hm',hf⟩ := hf m hm
  exact ⟨m',hm',he.trans hf.1,hf.2 ∘ hd⟩

section

variable {site : WriteSite} {m : Option CompletionRecord} {r : CompletionRecord}

section

variable (h : SiteMarker site m r) (hb : ∀ m0, m = some m0 → m0.parentEpoch ≤ u64Max)

include h hb

theorem SiteMarker.follows {m0} (hm : m = some m0) : Follows m0 r := by
  subst hm
  cases site with
  | restore =>
    obtain ⟨_,hm1,hl⟩ := h
    cases hm1
    refine ⟨?_,fun hd => ?_⟩
    · rw [← r.lifecycle_epoch,hl,m0.lifecycle_epoch]
    · rw [← r.lifecycle_markerState,hl,m0.lifecycle_markerState]
      exact hd
  | enrol => exact absurd h.1 (by simp)
  | close =>
    obtain ⟨-,he,hd⟩ := h
    exact ⟨he ▸ le_saturatingSucc (hb m0 rfl),fun hm => absurd hm (hd m0 rfl)⟩
  | resume =>
    obtain ⟨-,he,hd⟩ := h
    exact ⟨he ▸ le_saturatingSucc (hb m0 rfl),fun hm => absurd hm (hd m0 rfl).1⟩
  | suppress | reserve | withdraw | upgrade => exact h.elim

theorem SiteMarker.epoch_le : r.parentEpoch ≤ u64Max := by
  have hsat : ∀ o : Option CompletionRecord,
      o.elim 1 (fun m0 => saturatingSucc u64Max m0.parentEpoch) ≤ u64Max := by
    intro o
    cases o with
    | none => exact u64Max_pos
    | some => exact Nat.min_le_right _ _
  cases site with
  | restore =>
    obtain ⟨m0,hm0,hl⟩ := h
    rw [← r.lifecycle_epoch,hl,m0.lifecycle_epoch]
    exact hb m0 hm0
  | enrol => exact h.2.2 ▸ u64Max_pos
  | close | resume => exact h.2.1 ▸ hsat m
  | suppress | reserve | withdraw | upgrade => exact h.elim

end

theorem SiteMarker.adopt {s : Store} {p : String}
    (h : SiteMarker site (s.records.get (parentMarkerId p)) r) (hp : r.parentKey = p) :
    s.adoptEpoch r = r := by
  have hsat : ∀ o : Option CompletionRecord,
      o.elim 1 (fun m0 => saturatingSucc u64Max m0.parentEpoch) ≠ 0 := by
    intro o
    cases o with
    | none => exact Nat.one_ne_zero
    | some => exact (Nat.lt_min.2 ⟨Nat.succ_pos _,u64Max_pos⟩).ne'
  cases site with
  | restore =>
    obtain ⟨m0,hm0,hl⟩ := h
    have hepoch : m0.parentEpoch = r.parentEpoch := by
      rw [← m0.lifecycle_epoch,← hl,r.lifecycle_epoch]
    subst hp
    simp only [Store.adoptEpoch,hm0,hepoch]
    split_ifs <;> rfl
  | enrol => exact Store.adoptEpoch_of_pos (by rw [h.2.2]; exact Nat.one_ne_zero)
  | close | resume => exact Store.adoptEpoch_of_pos (by rw [h.2.1]; exact hsat _)
  | suppress | reserve | withdraw | upgrade => exact h.elim

end

namespace Scope

variable {S : Scope} {i j : Nat} {w w' : World} {op : Op}

theorem guar_fence {p : String} {c} (h : S.Guar i op w) (hf : op.fence = some (p,c)) :
    c.holder.1 = i := by
  cases op <;> cases hf
  case putFenced => exact h.1
  case insertIfAbsent => exact h.1
  case claimPending => exact h.1
  case claimTask => exact h.1
  case resolveClaim => exact h

theorem holds_of_current {p : String} {c} (h : w.store.GateCurrent p c w.now) : w.Holds p c :=
  h.exists

variable (S) in
inductive Rewrite (w : World) (parentKey : String) (op : Op) (r : CompletionRecord) : Prop
  | inserted : w.get r.taskId = none → r.parentKey = parentKey → r.state = .pending →
      r.attempts = 0 → Rewrite w parentKey op r
  | reserved : S.tombstones → w.get r.taskId = none → r.state = .tombstoned →
      Rewrite w parentKey op r
  | withdrawn (r0 : CompletionRecord) : w.get r.taskId = some r0 → r0.parentKey = parentKey →
      r0.state = .pending → r.state = .tombstoned → r.claim = r0.claim →
      r.attempts = r0.attempts → Rewrite w parentKey op r
  | upgraded (r0 : CompletionRecord) : w.get r.taskId = some r0 → r0.parentKey = parentKey →
      r.parentKey = parentKey → r.state = r0.state → r.claim = r0.claim →
      r.attempts = r0.attempts → Rewrite w parentKey op r
  | claimed (r0 : CompletionRecord) (token : Uuid) (visibleAfter : Nat) :
      op.claimToken = some token → w.get r.taskId = some r0 → r0.parentKey = parentKey →
      r0.state = .pending → r = r0.claimed token visibleAfter w.now → Rewrite w parentKey op r
  | resolved (r0 : CompletionRecord) (q : ResolveClaimRequest) : op = .resolveClaim q →
      q.taskId = r.taskId → w.get r.taskId = some r0 → r0.parentKey = parentKey →
      r0.Settles q w.now → r = r0.settled q.resolution w.now → Rewrite w parentKey op r

variable {p : String}

theorem wrote_rewrite {c} {r} (hs : S.Contended) (hg : S.Guar i op w) (ha : S.Assumed op w)
    (hf : op.fence = some (p,c)) (hc : w.store.GateCurrent p c w.now) (hw : Wrote w r op)
    (hm : ¬ IsMarkerId r.taskId) : S.Rewrite w p op r := by
  have ht : S.Tenured w p c := .inl (holds_of_current hc)
  cases op with
  | putFenced site =>
    cases hf
    cases hw
    obtain ⟨-,hg⟩ := hg
    rw [Store.adoptEpoch_taskId] at hm
    cases site with
    | suppress seen =>
      obtain ⟨hts,hp,hk,⟨_,rfl⟩,-⟩ := hg
      have h1 : w.get seen.taskId = some seen := ha hts hs hc
      exact .withdrawn seen (by simpa using h1) hk hp (by simp) (by simp) (by simp)
    | reserve =>
      obtain ⟨hts,_,_,rfl,-⟩ := hg
      exact .reserved hts (by simpa using ha hts hs hc) (by simp [tombstoneStub])
    | withdraw seen =>
      obtain ⟨hp,hk,⟨_,rfl⟩,hseen⟩ := hg
      have h1 := (hseen ht).2 hs.1 hm
      exact .withdrawn seen (by simpa using h1) hk hp (by simp) (by simp) (by simp)
    | upgrade seen =>
      obtain ⟨hk,rfl,hseen⟩ := hg
      have h1 : w.get seen.taskId = some seen := by
        by_cases hp : S.Protected seen
        · exact (hseen ht).2.2 hs.1 hm hp
        · exact ha hs hc hp
      exact .upgraded seen (by simpa using h1) hk (by simpa using hk) (by simp) (by simp) (by simp)
    | enrol | restore | close | resume =>
      exact absurd (isMarkerId_iff.2 ⟨p,hg.1⟩) hm
  | insertIfAbsent =>
    cases hf
    obtain ⟨rfl,hn⟩ := hw
    exact .inserted hn rfl hg.2.1 hg.2.2.2.1
  | claimPending q =>
    cases hf
    obtain ⟨r0,h0,hcl,rfl⟩ := hw
    exact .claimed r0 q.token q.visibleAfter rfl h0 hcl.1 hcl.2.2.1 rfl
  | claimTask q =>
    cases hf
    obtain ⟨r0,-,h0,hcl,rfl⟩ := hw
    exact .claimed r0 q.token q.visibleAfter rfl h0 hcl.1 hcl.2.2.1 rfl
  | resolveClaim q =>
    cases hf
    obtain ⟨r0,hid,h0,hcl,rfl⟩ := hw
    exact .resolved r0 q rfl hid.symm h0 hcl.1 hcl rfl
  | _ => exact hw.elim

theorem Rewrite.own {r} (h : S.Rewrite w p op r) :
    (∀ r0, w.get r.taskId = some r0 → r0.parentKey = p) ∧
    (r.state = .pending → r.parentKey = p) := by
  have hsame {r0} (h0 : w.get r.taskId = some r0) (hk : r0.parentKey = p)
      (r1 : CompletionRecord) (h1 : w.get r.taskId = some r1) : r1.parentKey = p := by
    rw [h0] at h1
    cases h1
    exact hk
  cases h with
  | inserted hn hk => exact ⟨fun r0 h0 => absurd (hn.symm.trans h0) (by simp),fun _ => hk⟩
  | reserved _ hn hst =>
    refine ⟨fun r0 h0 => absurd (hn.symm.trans h0) (by simp),fun hp => ?_⟩
    rw [hst] at hp
    cases hp
  | withdrawn _ h0 hk _ hst =>
    refine ⟨hsame h0 hk,fun hp => ?_⟩
    rw [hst] at hp
    cases hp
  | upgraded _ h0 hk hk' => exact ⟨hsame h0 hk,fun _ => hk'⟩
  | claimed _ _ _ _ h0 hk _ hr | resolved _ _ _ _ h0 hk _ hr =>
    exact ⟨hsame h0 hk,fun _ => by rw [hr]; exact hk⟩

theorem wrote_marker {c} {r} (hcl : S.clean) (hi : S.Inv w) (hg : S.Guar i op w)
    (hf : op.fence = some (p,c)) (hc : w.store.GateCurrent p c w.now) (hw : Wrote w r op)
    (hm : IsMarkerId r.taskId) :
    r.taskId = parentMarkerId p ∧ r.parentKey = p ∧
    (r.state = .delivered ∨ r.state = .tombstoned ∨ r.state = .parentDeleted) ∧
    ∃ site, op = .putFenced site r p c ∧ SiteMarker site (w.marker p) r := by
  have ht : S.Tenured w p c := .inl (holds_of_current hc)
  have settled : ∀ r0, w.get r0.taskId = some r0 → IsMarkerId r0.taskId →
      r0.state = .pending → False := by
    intro _ h0 hm0 hp
    obtain ⟨-,hst,-⟩ := hi.markers hcl _ _ h0 hm0
    rw [hp] at hst
    simp at hst
  cases op with
  | putFenced site record =>
    cases hf
    cases hw
    obtain ⟨-,hg⟩ := hg
    rw [Store.adoptEpoch_taskId] at hm
    have marked : record.taskId = parentMarkerId p ∧ record.parentKey = p ∧
        (record.state = .delivered ∨ record.state = .tombstoned ∨
          record.state = .parentDeleted) ∧
          (S.clean → S.Tenured w p c → SiteMarker site (w.marker p) record) ∧
            (S.versioned → site = .enrol → S.Tenured w p c →
              ∀ r0, w.Pending p r0 → r0.parentEpoch = record.parentEpoch) := by
      cases site with
      | suppress =>
        obtain ⟨-,-,-,⟨_,rfl⟩,hn⟩ := hg
        exact absurd hm (hn hcl)
      | reserve =>
        obtain ⟨-,_,_,rfl,hn⟩ := hg
        exact absurd hm (hn hcl)
      | withdraw =>
        obtain ⟨-,-,⟨_,rfl⟩,hn⟩ := hg
        exact absurd hm ((hn ht).1 hcl)
      | upgrade =>
        obtain ⟨-,rfl,hn⟩ := hg
        exact absurd hm ((hn ht).2.1 hcl)
      | enrol | restore | close | resume => exact hg
    obtain ⟨hid,hk,hst,hsite,-⟩ := marked
    have hsite := hsite hcl ht
    have had : w.store.adoptEpoch record = record := hsite.adopt hk
    rw [had]
    exact ⟨hid,hk,hst,site,rfl,hsite⟩
  | insertIfAbsent =>
    obtain ⟨rfl,-⟩ := hw
    exact absurd hm (hg.2.2.1 hcl)
  | claimPending =>
    obtain ⟨r0,h0,hcm,rfl⟩ := hw
    exact (settled r0 h0 hm hcm.2.2.1).elim
  | claimTask | resolveClaim =>
    obtain ⟨r0,-,h0,hcm,rfl⟩ := hw
    exact (settled r0 h0 hm hcm.2.2.1).elim
  | _ => exact hw.elim

theorem rely_refl (w : World) : S.Rely i w w where
  inv := id
  processLocal := rfl
  mine := fun _ _ _ h => h
  guarded := fun _ _ _ => rfl
  markers := fun _ _ m hm => ⟨m,hm,.refl m⟩
  kept := fun _ _ _ _ _ _ _ _ _ _ h => h
  noNew := fun _ _ _ _ _ _ _ _ _ _ h => h
  marker := fun _ _ _ _ _ => rfl

theorem Rely.tenured {c} (h : S.Rely i w w') (hc : c.holder.1 = i) (ht : S.Tenured w' p c) :
    S.Tenured w p c :=
  ht.imp_left (h.mine p c hc)

theorem rely_trans {u v w : World} (h : S.Rely i u v) (k : S.Rely i v w) : S.Rely i u w where
  inv := k.inv ∘ h.inv
  processLocal := k.processLocal.trans h.processLocal
  mine := fun p c hc hw => h.mine p c hc (k.mine p c hc hw)
  guarded := fun l p hl => by
    have he := h.guarded l p hl
    rw [k.guarded l p (by rw [he]; exact hl),he]
  markers := fun hcl p m hm => by
    obtain ⟨m1,hm1,hf1⟩ := h.markers hcl p m hm
    obtain ⟨m2,hm2,hf2⟩ := k.markers hcl p m1 hm1
    exact ⟨m2,hm2,hf1.trans hf2⟩
  kept := fun hs p c hc ht id r hm hp hr h0 =>
    k.kept hs p c hc ht id r hm hp hr (h.kept hs p c hc (k.tenured hc ht) id r hm hp hr h0)
  noNew := fun hs p c hc ht id r hm hp hr h0 =>
    h.noNew hs p c hc (k.tenured hc ht) id r hm hp hr (k.noNew hs p c hc ht id r hm hp hr h0)
  marker := fun hcl p c hc ht =>
    (k.marker hcl p c hc ht).trans (h.marker hcl p c hc (k.tenured hc ht))

theorem get_of_records (h : w'.store.records = w.store.records) (id : String) :
    w'.get id = w.get id := by
  unfold World.get
  rw [h]

theorem status_of_marker (h : w'.marker p = w.marker p) : w'.status p = w.status p := by
  unfold World.status
  rw [h]

section

variable (hcl : S.clean) (hi : S.Inv w) (hg : S.Guar i op w) (hc : Change i op w w')

include hcl hi hg hc

theorem marker_change (p : String) :
    w'.marker p = w.marker p ∨ ∃ site r c, op = .putFenced site r p c ∧
      w.store.GateCurrent p c w.now ∧ w'.marker p = some r ∧ SiteMarker site (w.marker p) r := by
  cases hc with
  | silent hs => exact .inl (get_of_records (by rw [hs]) _)
  | gate _ _ _ hr => exact .inl (get_of_records hr _)
  | entry _ _ _ hw => exact .inl (by rw [hw]; rfl)
  | write _ c hf hcur _ _ _ hget =>
    rcases hget (parentMarkerId p) with h | ⟨r,hr,hid,hw⟩
    · exact .inl h
    have hmk : IsMarkerId r.taskId := hid ▸ parentMarkerId_isMarkerId p
    obtain ⟨hq,-,-,site,hop,hsite⟩ := wrote_marker hcl hi hg hf hcur hw hmk
    obtain rfl := parentMarkerId_inj (hid.symm.trans hq)
    exact .inr ⟨site,r,c,hop,hcur,hr,hsite⟩
  | sweep _ _ _ _ _ hget =>
    refine .inl ((hget _).trans ?_)
    change (w.marker p).filter _ = w.marker p
    cases hm : w.marker p with
    | none => rfl
    | some m =>
      have hk : m.taskId = parentMarkerId p := Table.key_of_get hm
      simp [hk,parentMarkerId_isMarkerId]

theorem marker_follows {p : String} {m} (hm : w.marker p = some m) :
    ∃ m', w'.marker p = some m' ∧ Follows m m' := by
  rcases marker_change hcl hi hg hc p with h | ⟨_,r,c,-,-,hr,hsite⟩
  · exact ⟨m,h.trans hm,.refl m⟩
  · refine ⟨r,hr,hsite.follows (fun _ h0 => ?_) hm⟩
    exact (hi.markers hcl _ _ h0 (parentMarkerId_isMarkerId p)).2.2

theorem keeps_markers {id : String} {r} (hr : w'.get id = some r) (hm : IsMarkerId id) :
    IsMarker r := by
  have same (h : w'.get id = w.get id) : IsMarker r :=
    hi.markers hcl id r (h.symm.trans hr) hm
  cases hc with
  | silent hs => exact same (get_of_records (by rw [hs]) _)
  | gate _ _ _ hrec => exact same (get_of_records hrec _)
  | entry _ _ _ hw => exact same (by rw [hw]; rfl)
  | write q _ hf hcur _ _ _ hget =>
    rcases hget id with h | ⟨_,hr1,hid,hw⟩
    · exact same h
    rw [hr] at hr1
    cases hr1
    have hmk : IsMarkerId r.taskId := hid ▸ hm
    obtain ⟨hq,hk,hst,_,-,hsite⟩ := wrote_marker hcl hi hg hf hcur hw hmk
    refine ⟨by rw [hq,hk],hst,hsite.epoch_le fun _ h0 => ?_⟩
    exact (hi.markers hcl _ _ h0 (parentMarkerId_isMarkerId q)).2.2
  | sweep _ _ _ _ _ hget =>
    rw [hget id] at hr
    exact hi.markers hcl id r (filter_eq_some_iff.1 hr).1 hm

theorem keeps_cached {l : Nat} {p : String} {s} (hs : (w'.entry l p).status = some s) :
    Behind w' p s := by
  have hfollow := fun m hm => marker_follows (p := p) (m := m) hcl hi hg hc hm
  have same (h : (w'.entry l p).status = (w.entry l p).status) : Behind w' p s :=
    (hi.cached hcl l p s (h.symm.trans hs)).of_follows hfollow
  have lifecycles (h : w'.lifecycles = w.lifecycles) : Behind w' p s :=
    same (by rw [World.entry,World.entry,h])
  cases hc with
  | silent _ hl | gate _ _ hl | write _ _ _ _ hl | sweep _ _ hl => exact lifecycles hl
  | entry _ _ _ hw hop =>
    subst hw
    rw [World.entry_setEntry] at hs same
    split at hs
    next hlp =>
      obtain ⟨rfl,rfl⟩ := hlp
      simp only [and_self,if_true] at same
      cases op with
      | acquireLocal =>
        obtain ⟨rfl,rfl,-,rfl⟩ := hop
        exact same rfl
      | releaseLocal =>
        obtain ⟨rfl,rfl,rfl⟩ := hop
        exact same rfl
      | setLocalStatus =>
        obtain ⟨rfl,rfl,rfl⟩ := hop
        cases hs
        exact (hg.2 hcl).of_follows hfollow
      | _ => exact hop.elim
    next hlp => exact same (by rw [if_neg hlp])

end

theorem epochFits_marker_write {c} {site : WriteSite} {m r} (hv : S.versioned) (hi : S.Inv w)
    (hg : S.Guar i (.putFenced site m p c) w) (ha : S.Assumed (.putFenced site m p c) w)
    (hcur : w.store.GateCurrent p c w.now) (hsite : SiteMarker site (w.marker p) m)
    (hr : w.Pending p r) : EpochFits (some m.lifecycle) r.parentEpoch := by
  cases site with
  | restore =>
    obtain ⟨_,hm0,hl⟩ := hsite
    have h := hi.epochs hv p r hr
    rwa [World.status,hm0,map_some,← hl] at h
  | enrol =>
    obtain ⟨-,hst,-⟩ := hsite
    rw [lifecycle,hst]
    exact hg.2.2.2.2.2 hv rfl (.inl (holds_of_current hcur)) r hr
  | close =>
    rcases hsite.1 with hst | hst
    all_goals
      rw [lifecycle,hst]
      trivial
  | resume =>
    obtain ⟨hnone,hne⟩ := ha hv hcur r hr
    have hfit := hi.epochs hv p r hr
    rw [World.status,hnone] at hfit
    rw [lifecycle,hsite.1]
    have he : m.parentEpoch = 1 := by simpa [hnone] using hsite.2.1
    exact (hfit.resolve_left hne).trans he.symm
  | suppress | reserve | withdraw | upgrade => exact hsite.elim

theorem epochFits_record_write {c} {r} (hv : S.versioned) (hi : S.Inv w) (hg : S.Guar i op w)
    (hf : op.fence = some (p,c)) (hc : w.store.GateCurrent p c w.now) (hw : Wrote w r op)
    (hp : r.state = .pending) (hm : ¬ IsMarkerId r.taskId) :
    EpochFits (w.status r.parentKey) r.parentEpoch := by
  have ht : S.Tenured w p c := .inl (holds_of_current hc)
  have hcl := S.versioned_clean hv
  cases op with
  | putFenced site =>
    cases hf
    cases hw
    obtain ⟨-,hg⟩ := hg
    rw [Store.adoptEpoch_state] at hp
    rw [Store.adoptEpoch_taskId] at hm
    cases site with
    | suppress =>
      obtain ⟨-,-,-,⟨_,rfl⟩,-⟩ := hg
      cases hp
    | reserve =>
      obtain ⟨-,_,_,rfl,-⟩ := hg
      cases hp
    | withdraw =>
      obtain ⟨-,-,⟨_,rfl⟩,-⟩ := hg
      cases hp
    | upgrade seen =>
      obtain ⟨hk,rfl,hseen⟩ := hg
      rw [Store.adoptEpoch_of_pos Nat.one_ne_zero]
      change EpochFits (w.status seen.parentKey) 1
      rw [World.status,hk,(hseen ht).1 hcl]
      exact .inr rfl
    | enrol | restore | close | resume =>
      exact absurd (isMarkerId_iff.2 ⟨p,hg.1⟩) hm
  | insertIfAbsent =>
    cases hf
    obtain ⟨rfl,-⟩ := hw
    rw [hg.2.2.2.2 hcl ht]
    rfl
  | claimPending =>
    obtain ⟨r0,h0,hcm,rfl⟩ := hw
    exact hi.epochs hv _ r0 ⟨h0,rfl,hcm.2.2.1⟩
  | claimTask | resolveClaim =>
    obtain ⟨r0,-,h0,hcm,rfl⟩ := hw
    exact hi.epochs hv _ r0 ⟨h0,rfl,hcm.2.2.1⟩
  | _ => exact hw.elim

theorem keeps_epochs (hv : S.versioned) (hi : S.Inv w) (hg : S.Guar i op w) (ha : S.Assumed op w)
    (hc : Change i op w w') {p : String} {r} (hr : w'.Pending p r) :
    EpochFits (w'.status p) r.parentEpoch := by
  have hcl := S.versioned_clean hv
  have same (hm : w'.marker p = w.marker p) (h : w'.get r.taskId = w.get r.taskId) :
      EpochFits (w'.status p) r.parentEpoch := by
    rw [status_of_marker hm]
    exact hi.epochs hv p r ⟨h.symm.trans hr.1,hr.2⟩
  cases hc with
  | silent hs => exact same (get_of_records (by rw [hs]) _) (get_of_records (by rw [hs]) _)
  | gate _ _ _ hrec => exact same (get_of_records hrec _) (get_of_records hrec _)
  | entry _ _ _ hw => exact same (by rw [hw]; rfl) (by rw [hw]; rfl)
  | write q _ hf hcur _ _ _ hget =>
    rcases hget (parentMarkerId p) with hm | ⟨m,hm,hid,hwm⟩
    · rcases hget r.taskId with h | ⟨r1,hr1,-,hw⟩
      · exact same hm h
      rw [hr.1] at hr1
      cases hr1
      have hnm : ¬ IsMarkerId r.taskId := by
        intro hmk
        obtain ⟨-,-,hst,-⟩ := wrote_marker hcl hi hg hf hcur hw hmk
        rw [hr.2.2] at hst
        simp at hst
      rw [status_of_marker hm,← hr.2.1]
      exact epochFits_record_write hv hi hg hf hcur hw hr.2.2 hnm
    · have hmk : IsMarkerId m.taskId := hid ▸ parentMarkerId_isMarkerId p
      obtain ⟨hq,-,hst,_,rfl,hsite⟩ := wrote_marker hcl hi hg hf hcur hwm hmk
      have hpq : p = q := parentMarkerId_inj (hid.symm.trans hq)
      subst hpq
      have hold : w.Pending p r := by
        rcases hget r.taskId with h | ⟨r1,hr1,_,hw⟩
        · exact ⟨h.symm.trans hr.1,hr.2⟩
        rw [hr.1] at hr1
        cases hr1
        cases hw
        have hp : (w.store.adoptEpoch m).state = .pending := hr.2.2
        rw [Store.adoptEpoch_state] at hp
        rw [hp] at hst
        simp at hst
      have hstatus : w'.status p = some m.lifecycle := by
        rw [World.status,World.marker,hm]
        rfl
      rw [hstatus]
      exact epochFits_marker_write hv hi hg ha hcur hsite hold
  | sweep retain _ _ _ _ hget =>
    have hback id {r0} (h : w'.get id = some r0) : w.get id = some r0 := by
      rw [hget id] at h
      exact (filter_eq_some_iff.1 h).1
    have hm : w'.marker p = w.marker p := by
      cases h : w.marker p with
      | some =>
        obtain ⟨_,hm',-⟩ := marker_follows hcl hi hg (.sweep retain ‹_› ‹_› ‹_› ‹_› hget) h
        rw [hm',← h,World.marker,hback _ hm']
      | none =>
        rw [World.marker,hget]
        change (w.marker p).filter _ = none
        rw [h]
        rfl
    rw [status_of_marker hm]
    exact hi.epochs hv p r ⟨hback _ hr.1,hr.2⟩

theorem keeps {x : Ans op} (hi : S.Inv w) (hg : S.Guar i op w) (ha : S.Assumed op w)
    (ho : Outcome i op w x w') : S.Inv w' where
  markers := fun hcl _ _ hr hm => keeps_markers hcl hi hg ho.change hr hm
  cached := fun hcl _ _ _ hs => keeps_cached hcl hi hg ho.change hs
  epochs := fun hv _ _ hr => keeps_epochs hv hi hg ha ho.change hr

theorem holds_of_gates {c} (h : w'.store.parentGates = w.store.parentGates) (hh : w'.Holds p c) :
    w.Holds p c := by
  obtain ⟨x,hx⟩ := hh
  exact ⟨x,by rw [← h]; exact hx⟩

theorem rely_of_records (hinv : S.Inv w → S.Inv w')
    (hpl : w'.store.processLocal = w.store.processLocal)
    (hmine : ∀ p c, c.holder.1 = i → w'.Holds p c → w.Holds p c)
    (hguard : ∀ l p, (w.entry l p).held = some i → w'.entry l p = w.entry l p)
    (hget : ∀ id, w'.get id = w.get id) : S.Rely i w w' where
  inv := hinv
  processLocal := hpl
  mine := hmine
  guarded := hguard
  markers := fun _ _ m hm => ⟨m,(hget _).trans hm,.refl m⟩
  kept := fun _ _ _ _ _ id _ _ _ _ h => (hget id).trans h
  noNew := fun _ _ _ _ _ id _ _ _ _ h => (hget id).symm.trans h
  marker := fun _ _ _ _ _ => hget _

theorem entry_of_lifecycles (h : w'.lifecycles = w.lifecycles) (l : Nat) (p : String) :
    w'.entry l p = w.entry l p := by
  unfold World.entry
  rw [h]

theorem frame_gate {q : String} {g} (hij : i ≠ j) (hg : S.Guar j op w)
    (hgates : w'.store.parentGates = Function.update w.store.parentGates q g)
    (hop : SetsGate w q g op) {p : String} {c} (hc : c.holder.1 = i) (hh : w'.Holds p c) :
    w.Holds p c := by
  obtain ⟨x,hx⟩ := hh
  rw [hgates] at hx
  by_cases hpq : p = q
  · subst hpq
    rw [Function.update_self] at hx
    subst hx
    cases op with
    | acquireParentGate _ holder =>
      obtain ⟨y,hy,hh⟩ := hop
      cases hy
      have hj : holder.1 = j := hg
      exact absurd (hc.symm.trans (hh ▸ hj)) hij
    | renewParentGate =>
      obtain ⟨-,y,z,hy,-⟩ := hop
      cases hy
      exact absurd (hc.symm.trans hg) hij
    | releaseParentGate =>
      obtain ⟨-,y,hy,-⟩ := hop
      cases hy
    | _ => exact hop.elim
  · rw [Function.update_of_ne hpq] at hx
    exact ⟨x,hx⟩

theorem frame_entry {l' : Nat} {q : String} {e} (hij : i ≠ j) (hg : S.Guar j op w)
    (hop : SetsEntry j w l' q e op) {l : Nat} {p : String} (hl : (w.entry l p).held = some i) :
    (w.setEntry l' q e).entry l p = w.entry l p := by
  rw [World.entry_setEntry,if_neg]
  rintro ⟨rfl,rfl⟩
  cases op with
  | acquireLocal =>
    obtain ⟨rfl,rfl,hh,-⟩ := hop
    rw [hh] at hl
    cases hl
  | releaseLocal l1 p1 =>
    obtain ⟨rfl,rfl,-⟩ := hop
    have hj : (w.entry l1 p1).held = some j := hg
    rw [hj] at hl
    exact hij (Option.some.inj hl).symm
  | setLocalStatus =>
    obtain ⟨rfl,rfl,-⟩ := hop
    rw [hg.1] at hl
    exact hij (Option.some.inj hl).symm
  | _ => exact hop.elim

theorem frame {x : Ans op} (hij : i ≠ j) (hns : ¬ S.solo) (hi : S.Inv w) (hg : S.Guar j op w)
    (ha : S.Assumed op w) (ho : Outcome j op w x w') : S.Rely i w w' := by
  have hinv : S.Inv w → S.Inv w' := fun _ => keeps hi hg ha ho
  have hfollow := fun hcl p m hm => marker_follows (p := p) (m := m) hcl hi hg ho.change hm
  cases ho.change with
  | silent hs hl =>
    exact rely_of_records hinv (by rw [hs]) (fun _ _ _ => holds_of_gates (by rw [hs]))
      (fun l p _ => entry_of_lifecycles hl l p) (get_of_records (by rw [hs]))
  | gate _ _ hl hr hpl hgates hop =>
    exact rely_of_records hinv hpl (fun _ _ hc hh => frame_gate hij hg hgates hop hc hh)
      (fun l p _ => entry_of_lifecycles hl l p) (get_of_records hr)
  | entry _ _ _ hw hop =>
    subst hw
    exact rely_of_records hinv rfl (fun _ _ _ hh => hh)
      (fun _ _ hl => frame_entry hij hg hop hl) (fun _ => rfl)
  | write q _ hf hcur hl hgates hpl hget =>
    have hd := guar_fence hg hf
    have hmine p c : w'.Holds p c → w.Holds p c :=
      holds_of_gates hgates
    have hne {p} {c} (hc : c.holder.1 = i) (ht : S.Tenured w' p c) : p ≠ q := by
      rintro rfl
      obtain ⟨x,hx⟩ := (ht.imp_left (hmine p c)).resolve_right hns
      obtain ⟨y,hy⟩ := holds_of_current hcur
      rw [hx] at hy
      cases hy
      exact hij (hc.symm.trans hd)
    refine ⟨hinv,hpl,fun p c _ => hmine p c,fun l p _ => entry_of_lifecycles hl l p,
      hfollow,?_,?_,?_⟩
    · intro hs p c hc ht id r hm hp _ h0
      rcases hget id with h | ⟨r1,hr1,rfl,hw⟩
      · exact h.trans h0
      · have hown := (wrote_rewrite ⟨hs,hns⟩ hg ha hf hcur hw hm).own.1 r h0
        exact absurd (hp.symm.trans hown) (hne hc ht)
    · intro hs p c hc ht id r hm hp hpend h0
      rcases hget id with h | ⟨r1,hr1,rfl,hw⟩
      · exact h.symm.trans h0
      rw [h0] at hr1
      cases hr1
      have hown := (wrote_rewrite ⟨hs,hns⟩ hg ha hf hcur hw hm).own.2 hpend
      exact absurd (hp.symm.trans hown) (hne hc ht)
    · intro hcl p c hc ht
      rcases hget (parentMarkerId p) with h | ⟨r1,hr1,hid,hw⟩
      · exact h
      have hmk : IsMarkerId r1.taskId := hid ▸ parentMarkerId_isMarkerId p
      obtain ⟨hq,-⟩ := wrote_marker hcl hi hg hf hcur hw hmk
      exact absurd (parentMarkerId_inj (hid.symm.trans hq)) (hne hc ht)
  | sweep _ hop hl hgates hpl hget =>
    have hnl : ¬ S.lasting := by
      subst hop
      exact hg
    refine ⟨hinv,hpl,fun p c _ => holds_of_gates hgates,
      fun l p _ => entry_of_lifecycles hl l p,hfollow,?_,?_,?_⟩
    · intro _ p c _ _ id r _ _ hr h0
      rw [hget id,h0,filter_eq_some_iff]
      have hp := hr.resolve_left hnl
      exact ⟨rfl,by simp [CompletionRecord.Expired,hp]⟩
    · intro _ p c _ _ id r _ _ _ h0
      rw [hget id] at h0
      exact (filter_eq_some_iff.1 h0).1
    · intro _ p c _ _
      cases hm : w.marker p with
      | none =>
        rw [World.marker,hget]
        change (w.marker p).filter _ = none
        rw [hm]
        rfl
      | some m =>
        have hk : m.taskId = parentMarkerId p := Table.key_of_get hm
        rw [World.marker,hget]
        change (w.marker p).filter _ = some m
        rw [hm]
        simp [hk,parentMarkerId_isMarkerId]

def Clock (w w' : World) : Prop :=
  ∃ t, w' = { w with now := t }

theorem clock_inv (hi : S.Inv w) (h : Clock w w') : S.Inv w' := by
  obtain ⟨t,rfl⟩ := h
  exact ⟨hi.markers,hi.cached,hi.epochs⟩

theorem clock_rely (h : Clock w w') : S.Rely i w w' := by
  refine rely_of_records (fun hi => clock_inv hi h) ?_ ?_ ?_ ?_
  all_goals
    obtain ⟨t,rfl⟩ := h
    intros
    first | rfl | assumption

end Scope

end Completions
