import TinyAgents.Completions.Delivery

namespace Completions

open Interaction

def World.lifecycleStatus (w : World) (lifecycle : Nat) (parentKey : String) :
    Option ParentLifecycleStatus :=
  if w.store.processLocal then mergeLocal (w.status parentKey) (w.entry lifecycle parentKey).status
  else (w.status parentKey).or (w.entry lifecycle parentKey).status

structure Tidy (w : World) : Prop where
  markers : ∀ id r, w.get id = some r → IsMarkerId id → IsMarker r
  uncached : ∀ lifecycle parentKey, (w.entry lifecycle parentKey).status = none

variable {w : World}

theorem tidy_of_entries (hm : ∀ r ∈ w.store.records.entries, IsMarkerId r.taskId → IsMarker r)
    (hu : ∀ l p, (w.entry l p).status = none) : Tidy w := by
  refine ⟨fun _ r hr hid => ?_,hu⟩
  obtain ⟨hmem,rfl⟩ := Table.get_eq_some.1 hr
  exact hm r hmem hid

structure Consistent (w : World) : Prop extends Tidy w where
  epochs : ∀ parentKey r, w.Pending parentKey r → EpochFits (w.status parentKey) r.parentEpoch

def Op.resumes : Op → Option (String × ParentGateClaim)
  | .putFenced .resume _ parentKey gate => some (parentKey,gate)
  | _ => none

def Resumable (w : World) (parentKey : String) : Prop :=
  ∀ r ∈ w.store.records.entries, r.parentKey = parentKey ∧ r.state = .pending →
    w.marker parentKey = none ∧ r.parentEpoch ≠ 0

instance (w : World) (parentKey : String) : Decidable (Resumable w parentKey) :=
  inferInstanceAs (Decidable (∀ r ∈ w.store.records.entries, _ → _))

def ResumesUpgraded (m : CompletionMoment) : Prop :=
  ∀ op ∈ m.op, ∀ g ∈ op.resumes, m.before.store.GateCurrent g.1 g.2 m.before.now →
    Resumable m.before g.1

instance (m : CompletionMoment) : Decidable (ResumesUpgraded m) :=
  inferInstanceAs (Decidable (∀ op ∈ m.op, ∀ g ∈ op.resumes, _ → _))

def RouterCall.namesTask : RouterCall → Bool
  | .record _ r => ¬ IsMarkerId r.taskId
  | .tombstone _ taskId => ¬ IsMarkerId taskId
  | _ => true

def versionedCalls : Nat → RouterCall → World → Prop :=
  fun _ call _ => call.keepsTasks = true ∧ call.namesTask = true

def versionedScope : Scope where
  clean := True
  solo := False
  lasting := True
  tombstones := False
  strict := True
  versioned := True
  versioned_clean := id
  versioned_strict := id

theorem Tidy.inv {S : Scope} (h : Tidy w)
    (he : S.versioned → ∀ p r, w.Pending p r → EpochFits (w.status p) r.parentEpoch) : S.Inv w := by
  refine ⟨fun _ => h.markers,fun _ l p s hs => ?_,he⟩
  rw [h.uncached l p] at hs
  cases hs

theorem Consistent.inv (h : Consistent w) : versionedScope.Inv w :=
  h.toTidy.inv fun _ => h.epochs

theorem versionedScope_opens {i : Nat} {call : RouterCall} (h : versionedCalls i call w) :
    versionedScope.Active i ∧ versionedScope.Opens (fun _ => False) call w := by
  refine ⟨fun h => h.elim,?_,?_⟩
  · cases call with
    | record => exact fun _ => of_decide_eq_true h.2
    | tombstone | compact => cases h.1
    | _ => trivial
  · cases call <;> first | trivial | exact fun h => h.elim

theorem versionedScope_meets {ms} (h : ∀ m ∈ ms, ResumesUpgraded m) : versionedScope.Meets ms := by
  intro m hm op hop
  cases op with
  | putFenced site _ p c =>
    cases site with
    | suppress | reserve => exact fun h => h.elim
    | upgrade => exact fun _ _ hp => absurd (.inl trivial) hp
    | resume =>
      intro _ hc r0 hp
      exact h m hm _ hop (p,c) rfl hc r0 (Table.get_eq_some.1 hp.1).1 hp.2
    | withdraw | enrol | restore | close => trivial
  | _ => trivial

theorem Scope.Inv.lifecycleStatus_eq {S : Scope} (h : S.Inv w) (hc : S.clean) (lifecycle : Nat)
    (parentKey : String) : w.lifecycleStatus lifecycle parentKey = w.status parentKey := by
  have hb := h.cached hc lifecycle parentKey
  unfold World.lifecycleStatus
  cases hm : w.marker parentKey with
  | none =>
    have hn : (w.entry lifecycle parentKey).status = none := by
      cases hs : (w.entry lifecycle parentKey).status with
      | none => rfl
      | some s =>
        obtain ⟨m,hm',-⟩ := hb s hs
        rw [hm] at hm'
        cases hm'
    rw [World.status,hm,hn]
    simp
  | some =>
    rw [World.status,hm,Option.map_some,Option.some_or]
    split
    · refine mergeLocal_eq fun s hs => ?_
      obtain ⟨_,hm',he,hd⟩ := hb s hs
      rw [hm] at hm'
      cases hm'
      exact ⟨he,hd⟩
    · rfl

theorem open_parent_claims_all (w : World) (hw : Consistent w) {c : CompletionConfig}
    {ms : List CompletionMoment} (h : (machine versionedCalls).Run (.idle w) ms c)
    (hr : ∀ m ∈ ms, ResumesUpgraded m) {lifecycle epoch : Nat} {parentKey : String}
    (ho : c.world.lifecycleStatus lifecycle parentKey = some (.opened epoch)) {r : CompletionRecord}
    (hp : c.world.Pending parentKey r) :
    r.parentEpoch = epoch ∧ ∀ mode now, mode.accepts r.notifyMode →
      r.claim.all (fun claim => claim.visibleAfter ≤ now) →
      r.Claimable parentKey epoch mode now := by
  have hi := (Scope.run_sound (fun i _ v _ => versionedScope_opens) h
    (versionedScope_meets hr) (Scope.runSound_idle hw.inv)).1.1
  rw [hi.lifecycleStatus_eq trivial] at ho
  have hfit := hi.epochs trivial parentKey r hp
  rw [ho] at hfit
  exact ⟨hfit,fun mode now hm hc => ⟨hp.2.1,hfit,hp.2.2,hm,hc⟩⟩

def legacyChild : CompletionRecord :=
  { taskId := "t", parentKey := "p" }

def legacyStore : World where
  store := ⟨⟨[legacyChild],by decide⟩,fun _ => none,fun _ => 0,true⟩

theorem legacyStore_consistent : Consistent legacyStore := by
  refine ⟨tidy_of_entries (by decide) fun _ _ => rfl,fun p r hp => ?_⟩
  obtain rfl : r = legacyChild := List.mem_singleton.1 (Table.get_eq_some.1 hp.1).1
  obtain rfl : "p" = p := hp.2.1
  have hn : legacyStore.status "p" = none := by decide
  rw [hn]
  exact .inl rfl

def stopAndResume : List (Choice RouterCall) :=
  [.start 0 (.claim firstRouter "p" 10 .followup),.complete 0 100,
    .start 0 (.cancelParent firstRouter "p"),.complete 0 100,
    .start 0 (.resumeParent firstRouter "p"),.complete 0 100,
    .start 0 (.record firstRouter { taskId := "u", parentKey := "p", parentEpoch := 3 }),
    .complete 0 100]

theorem open_parent_claims_all_resumed :
    ∃ ms c r, (machine versionedCalls).Run (.idle legacyStore) ms c ∧
      (∀ m ∈ ms, ResumesUpgraded m) ∧ c.world.lifecycleStatus 0 "p" = some (.opened 3) ∧
        c.world.Pending "p" r ∧ r.parentEpoch = 3 := by
  obtain ⟨_,d,hrun,hres,ho,r,hr,hk⟩ := driver.drive_starting driver_fits
    (fun _ call _ => call.keepsTasks = true ∧ call.namesTask = true) stopAndResume
    (.idle legacyStore) (fun ms d => (∀ m ∈ ms, ResumesUpgraded m) ∧
      d.world.lifecycleStatus 0 "p" = some (.opened 3) ∧
        ∃ r ∈ d.world.get "u", r.parentKey = "p" ∧ r.state = .pending) (by decide +kernel)
  have hid : r.taskId = "u" := Table.key_of_get hr
  have hp : d.world.Pending "p" r := ⟨by rw [hid]; exact hr,hk⟩
  exact ⟨_,d,r,hrun,hres,ho,hp,
    (open_parent_claims_all legacyStore legacyStore_consistent hrun hres ho hp).1⟩

-- Nothing moves the record of an older version into the generation that resume opens.
theorem resume_strands_legacy :
    ¬ ∀ (w : World) (c : CompletionConfig) (ms : List CompletionMoment) (lifecycle epoch : Nat)
      (parentKey : String) (r : CompletionRecord), Consistent w →
    (machine versionedCalls).Run (.idle w) ms c → (∀ i, c.thread i = none) →
    c.world.lifecycleStatus lifecycle parentKey = some (.opened epoch) →
    c.world.Pending parentKey r → r.parentEpoch = epoch := by
  intro h
  obtain ⟨_,d,hrun,hzero,hidle,ho,hr⟩ := driver.drive_starting driver_fits
    (fun _ call _ => call.keepsTasks = true ∧ call.namesTask = true)
    [.start 0 (.resumeParent firstRouter "p"),.complete 0 100] (.idle legacyStore)
    (fun ms d => (∀ m ∈ ms, ∀ s ∈ m.started, s.1 = 0) ∧ d.thread 0 = none ∧
      d.world.lifecycleStatus 0 "p" = some (.opened 1) ∧ d.world.get "t" = some legacyChild)
    (by decide +kernel)
  have hall i : d.thread i = none := by
    by_cases hi : i = 0
    · rwa [hi]
    · exact hrun.thread_eq_none fun m hm s hs => by rw [hzero m hm s hs]; exact Ne.symm hi
  have he := h _ _ _ 0 1 "p" legacyChild legacyStore_consistent hrun hall ho ⟨hr,rfl,rfl⟩
  cases he

end Completions
