import TinyAgents.Completions.Epochs

namespace Completions

open Interaction

def namedCalls : Nat → RouterCall → World → Prop :=
  fun _ call _ => call.namesTask = true

def generationScope : Scope where
  clean := True
  solo := False
  lasting := False
  tombstones := True
  strict := False
  versioned := False
  versioned_clean := fun _ => trivial
  versioned_strict := id

variable {ms : List CompletionMoment} {w : World}

theorem generationScope_opens {i : Nat} {call : RouterCall} (h : namedCalls i call w) :
    generationScope.Active i ∧ generationScope.Opens (fun _ => False) call w := by
  refine ⟨fun h => h.elim,?_,?_⟩
  · cases call with
    | record => exact fun _ => of_decide_eq_true h
    | tombstone => exact ⟨trivial,fun _ => of_decide_eq_true h⟩
    | compact => exact id
    | _ => trivial
  · cases call <;> first | trivial | exact fun h => h.elim

theorem generationScope_meets : generationScope.Meets ms := by
  intro m _ op _
  cases op with
  | putFenced site =>
    cases site with
    | suppress | reserve => exact fun _ h => h.1.elim
    | upgrade => exact fun h => h.1.elim
    | resume => exact fun h => h.elim
    | withdraw | enrol | restore | close => trivial
  | _ => trivial

abbrev GenerationKept : CompletionMoment → Prop :=
  generationScope.RunKept (fun _ => False) namedCalls

theorem generation_run (hw : Tidy w) {c} (h : (machine namedCalls).Run (.idle w) ms c) :
    generationScope.Inv c.world ∧ ∀ m ∈ ms, GenerationKept m := by
  have hrun := Scope.run_sound (fun i _ v _ => generationScope_opens) h
    generationScope_meets (Scope.runSound_idle (hw.inv fun h => h.elim))
  exact ⟨hrun.1.1,hrun.2⟩

def Advances (m m' : CompletionRecord) : Prop :=
  m.parentEpoch ≤ m'.parentEpoch ∧
    (m'.lifecycle = m.lifecycle ∨ m.parentEpoch < m'.parentEpoch ∨ m.parentEpoch = u64Max)

variable (m : CompletionMoment)

structure Fenced : Prop where
  advances : ∀ p m0, m.before.marker p = some m0 →
    ∃ m1, m.after.marker p = some m1 ∧ Advances m0 m1
  recorded : ∀ i router supplied r gate,
    m.event = .did i (.record router supplied) (.insertIfAbsent r gate) (.ok true) →
      m.before.status supplied.parentKey = some (.opened r.parentEpoch) ∧
        r.parentKey = supplied.parentKey ∧
          (supplied.parentEpoch ≠ 0 → r.parentEpoch = supplied.parentEpoch)
  claimed : ∀ r ∈ claimedRecords m,
    m.before.status r.parentKey = some (.opened r.parentEpoch)
  settled : ∀ i call q r, m.event = .did i call (.resolveClaim q) (.ok (some r)) →
    ∃ r0, m.before.get q.taskId = some r0 ∧ r0.Settles q m.before.now
  handedOff : ∀ i lifecycle p e q e' gate x,
    m.event = .did i (.acquirePermit lifecycle p e) (.handOff q e' gate) x →
      m.before.Holds p gate → m.before.status p = some (.opened e)

theorem SiteMarker.advances {site : WriteSite} {m r} (h : SiteMarker site (some m) r)
    (hm : m.parentEpoch ≤ u64Max) : Advances m r := by
  have hnext (he : r.parentEpoch = saturatingSucc u64Max m.parentEpoch) : Advances m r := by
    rw [Advances,he]
    unfold saturatingSucc
    omega
  cases site with
  | restore =>
    obtain ⟨_,hm0,hl⟩ := h
    cases hm0
    refine ⟨?_,.inl hl⟩
    rw [← r.lifecycle_epoch,hl,m.lifecycle_epoch]
  | enrol => cases h.1
  | close | resume => exact hnext h.2.1
  | suppress | reserve | withdraw | upgrade => exact h.elim

section

variable {m : CompletionMoment} {m0 r : CompletionRecord} {p : String}

theorem GenerationKept.advances (h : GenerationKept m) (h0 : m.before.marker p = some m0) :
    ∃ m1, m.after.marker p = some m1 ∧ Advances m0 m1 := by
  have same (hs : m.after.marker p = m.before.marker p) :
      ∃ m1, m.after.marker p = some m1 ∧ Advances m0 m1 :=
    ⟨m0,hs.trans h0,le_rfl,.inl rfl⟩
  rcases Scope.RunKept.cases h with ⟨-,hs⟩ | ⟨i,_,_,x,-,hg,-,ho⟩
  · exact same (Scope.get_of_records (by rw [hs]) _)
  rcases Scope.marker_change trivial h.1 hg ho.change p with hs | ⟨_,r,c,-,-,hr,hsite⟩
  · exact same hs
  rw [h0] at hsite
  have hmk := h.1.markers trivial _ _ h0 (parentMarkerId_isMarkerId p)
  exact ⟨r,hr,hsite.advances hmk.2.2⟩

theorem GenerationKept.follows (h : GenerationKept m) (h0 : m.before.marker p = some m0) :
    ∃ m1, m.after.marker p = some m1 ∧ Follows m0 m1 := by
  rcases Scope.RunKept.cases h with ⟨-,hs⟩ | ⟨i,_,_,x,-,hg,-,ho⟩
  · exact ⟨m0,(Scope.get_of_records (by rw [hs]) _).trans h0,.refl m0⟩
  · exact Scope.marker_follows trivial h.1 hg ho.change h0

theorem follows_run {M : Machine RouterCall Op Ans World (Except Fault Reply)}
    {c d : CompletionConfig} (hr : M.Run c ms d) (hk : ∀ m ∈ ms, GenerationKept m)
    (h0 : c.world.marker p = some m0) : ∃ m1, d.world.marker p = some m1 ∧ Follows m0 m1 := by
  refine hr.history (P := fun _ v => ∃ m1, v.marker p = some m1 ∧ Follows m0 m1) ⟨m0,h0,.refl m0⟩ ?_
  rintro _ m hm ⟨_,h1,hf⟩
  obtain ⟨m2,h2,hf'⟩ := (hk m hm).follows h1
  exact ⟨m2,h2,hf.trans hf'⟩

theorem attempted_current {α : Type} {w' : World} {c} {f} {a : α}
    (h : Attempted w (w.store.withCurrentGate p c w.now f) (.ok a) w') :
    w.store.GateCurrent p c w.now ∧ a = (f w.store.records).1 := by
  rcases h with ⟨e,he,-⟩ | ⟨b,s,hs,hb,-⟩
  · cases he
  · cases hb
    exact ⟨(Store.withCurrentGate_ok hs).1,(Store.withCurrentGate_ok hs).2.1⟩

theorem GenerationKept.inserted (h : GenerationKept m) {i : Nat} {call : RouterCall} {gate}
    (he : m.event = .did i call (.insertIfAbsent r gate) (.ok true)) :
    m.before.status r.parentKey = some (.opened r.parentEpoch) := by
  obtain ⟨w,_,_⟩ := m
  cases he
  obtain ⟨-,-,hg,ho⟩ := h
  have hc := (attempted_current ho.1).1
  exact hg.2.2.2.2 trivial (.inl (Scope.holds_of_current hc))

theorem GenerationKept.claimed (h : GenerationKept m) (hr : r ∈ claimedRecords m) :
    m.before.status r.parentKey = some (.opened r.parentEpoch) := by
  obtain ⟨w,_,w'⟩ := m
  unfold claimedRecords at hr
  split at hr
  next i call q _ he =>
    cases he
    obtain ⟨-,-,hg,ho⟩ := h
    have ho := ho.1
    change Attempted w (w.store.claimPending q w.now) _ w' at ho
    rw [Store.claimPending] at ho
    obtain ⟨hc,ha⟩ := attempted_current ho
    rw [ha] at hr
    obtain ⟨_,hr0,rfl⟩ := List.mem_map.1 hr
    obtain ⟨hk,hp,-⟩ := (Store.mem_candidates hr0).2
    have hs := hg.2 trivial (.inl (Scope.holds_of_current hc))
    rw [← hk,← hp] at hs
    exact hs
  next i call q _ he =>
    cases he
    obtain rfl := List.mem_singleton.1 hr
    obtain ⟨-,-,hg,ho⟩ := h
    obtain ⟨hc,ha⟩ := attempted_current ho.1
    have hs := hg.2 trivial (.inl (Scope.holds_of_current hc))
    split at ha
    next r0 hr0 =>
      split at ha
      next hcl =>
        rw [← hcl.1,← hcl.2.1] at hs
        rw [Option.some.inj ha]
        exact hs
      · cases ha
    · cases ha
  · cases hr

theorem GenerationKept.settled (h : GenerationKept m) {i : Nat} {call : RouterCall} {q}
    (he : m.event = .did i call (.resolveClaim q) (.ok (some r))) :
    ∃ r0, m.before.get q.taskId = some r0 ∧ r0.Settles q m.before.now := by
  obtain ⟨w,_,_⟩ := m
  cases he
  rcases resolve_cases (i := i) h.2.2.2.1 with ⟨-,hn⟩ | ⟨r0,h0,hs,-⟩
  · exact absurd rfl (hn r)
  · exact ⟨r0,h0,hs⟩

end

theorem fenced_of_kept {c} (h : (machine namedCalls).Run (.idle w) ms c)
    (hk : ∀ m ∈ ms, GenerationKept m) {m} (hm : m ∈ ms) : Fenced m := by
  have hasks := (h.asks requests_code).2 m hm
  refine ⟨fun p _ h0 => (hk m hm).advances h0,fun i _ _ r gate he => ?_,
    fun r hr => (hk m hm).claimed hr,fun i _ q r he => (hk m hm).settled he,
    fun i _ p e q _ gate x he hh => ?_⟩
  · obtain ⟨_,_,hcall,-,hkey,hepoch⟩ := hasks _ _ _ _ he
    cases hcall
    rw [← hkey]
    exact ⟨(hk m hm).inserted he,rfl,hepoch⟩
  · obtain ⟨_,hcall⟩ := hasks _ _ _ _ he
    cases hcall
    have hkept := hk m hm
    obtain ⟨v,_,_⟩ := m
    cases he
    exact hkept.2.2.1 trivial (.inl hh)

structure GenerationsFenced (ms : List CompletionMoment) (c : CompletionConfig) : Prop where
  moments : ∀ m ∈ ms, Fenced m
  epochs : ∀ past m later p m0, ms = past ++ m :: later → m.before.marker p = some m0 →
    ∃ m1, c.world.marker p = some m1 ∧ m0.parentEpoch ≤ m1.parentEpoch
  deleted : ∀ past m later p e, ms = past ++ m :: later → m.before.status p = some (.deleted e) →
    ∀ lifecycle e', c.world.lifecycleStatus lifecycle p ≠ some (.opened e')

theorem generations_fenced (w : World) (hw : Tidy w) {c : CompletionConfig}
    {ms : List CompletionMoment} (h : (machine namedCalls).Run (.idle w) ms c) :
    GenerationsFenced ms c := by
  obtain ⟨hi,hk⟩ := generation_run hw h
  have hfollow past m
      (later : List CompletionMoment) (p : String) (m0 : CompletionRecord)
      (hms : ms = past ++ m :: later) (h0 : m.before.marker p = some m0) :
      ∃ m1, c.world.marker p = some m1 ∧ Follows m0 m1 := by
    subst hms
    obtain ⟨f,_,-,hstep,hlater⟩ := h.at
    obtain ⟨_,h1,hf⟩ := (hk m (by simp)).follows h0
    rw [hstep.after_eq] at h1
    obtain ⟨m2,h2,hf'⟩ := follows_run hlater (fun n hn => hk n (by simp [hn])) h1
    exact ⟨m2,h2,hf.trans hf'⟩
  refine ⟨fun m hm => fenced_of_kept h hk hm,fun past m later p m0 hms h0 => ?_,
    fun past m later p e hms hd _ _ ho => ?_⟩
  · obtain ⟨m1,h1,hf⟩ := hfollow past m later p m0 hms h0
    exact ⟨m1,h1,hf.1⟩
  obtain ⟨m0,h0,hl⟩ := Option.map_eq_some_iff.1 hd
  obtain ⟨m1,h1,hf⟩ := hfollow past m later p m0 hms h0
  have hst := m1.lifecycle_markerState.2 (hf.2 (m0.lifecycle_markerState.1 (by rw [hl]; rfl)))
  rw [hi.lifecycleStatus_eq trivial,World.status,h1] at ho
  rw [Option.some.inj ho] at hst
  cases hst

theorem generations_fenced_deleted :
    ∃ ms c, (machine namedCalls).Run (.idle legacyStore) ms c ∧
      (∃ m ∈ ms, m.before.status "p" = some (.deleted 4)) ∧ GenerationsFenced ms c := by
  obtain ⟨ms,c,hrun,hdel⟩ := driver.drive_starting driver_fits
    (fun _ call _ => call.namesTask = true) (stopAndResume ++
      [.start 0 (.deleteParent firstRouter "p"),.complete 0 100,
        .start 0 (.resumeParent firstRouter "p"),.complete 0 100]) (.idle legacyStore)
    (fun ms _ => ∃ m ∈ ms, m.before.status "p" = some (.deleted 4)) (by decide +kernel)
  exact ⟨ms,c,hrun,hdel,generations_fenced legacyStore legacyStore_consistent.toTidy hrun⟩

def settledRecord : Option CompletionRecord :=
  match m.event with
  | .did _ _ (.resolveClaim _) (.ok (some r)) => some r
  | _ => none

def handedOff : Option (String × Nat) :=
  match m.event with
  | .did _ _ (.handOff parentKey parentEpoch _) _ => some (parentKey,parentEpoch)
  | _ => none

def lastGeneration : World where
  store := ⟨⟨[parentMarker "p" .delivered u64Max 0],by decide⟩,fun _ => none,fun _ => 0,true⟩

def claimedLegacy : World where
  store := ⟨⟨[{ legacyChild with attempts := 1, claim := some ⟨⟨(9,9),"t"⟩,1000⟩ }],by decide⟩,
    fun _ => none,fun _ => 0,true⟩

def durableParent : World where
  store := ⟨⟨[parentMarker "p" .delivered 1 0],by decide⟩,fun _ => none,fun _ => 0,false⟩

def otherProcess : Router := { id := 1, lifecycle := 1, attempts_pos := attempts_default }

-- The last clause needs the permit's gate to run out between the check and the handoff.
theorem generation_clauses_fail :
    (¬ ∀ (w : World) (c : CompletionConfig) (ms : List CompletionMoment), Tidy w →
      (machine namedCalls).Run (.idle w) ms c → ∀ m ∈ ms, ∀ p, ∀ m0 ∈ m.before.marker p,
      ∀ m1 ∈ m.after.marker p, m1.lifecycle ≠ m0.lifecycle → m0.parentEpoch < m1.parentEpoch) ∧
    (¬ ∀ (w : World) (c : CompletionConfig) (ms : List CompletionMoment), Tidy w →
      (machine namedCalls).Run (.idle w) ms c → ∀ m ∈ ms, ∀ r ∈ settledRecord m,
      m.before.status r.parentKey = some (.opened r.parentEpoch)) ∧
    (¬ ∀ (w : World) (c : CompletionConfig) (ms : List CompletionMoment), Tidy w →
      (machine namedCalls).Run (.idle w) ms c → ∀ m ∈ ms, ∀ h ∈ handedOff m,
      m.before.status h.1 = some (.opened h.2)) := by
  refine ⟨fun h => ?_,fun h => ?_,fun h => ?_⟩
  · obtain ⟨_,d,hrun,m,hm,m0,h0,m1,hm1,hne,hlt⟩ := driver.drive_starting driver_fits
      (fun _ call _ => call.namesTask = true)
      [.start 0 (.cancelParent firstRouter "p"),.complete 0 100] (.idle lastGeneration)
      (fun ms _ => ∃ m ∈ ms, ∃ m0 ∈ m.before.marker "p", ∃ m1 ∈ m.after.marker "p",
        m1.lifecycle ≠ m0.lifecycle ∧ ¬ m0.parentEpoch < m1.parentEpoch) (by decide +kernel)
    have htidy : Tidy lastGeneration := tidy_of_entries (by decide) fun _ _ => rfl
    exact hlt (h lastGeneration d _ htidy hrun m hm "p" m0 h0 m1 hm1 hne)
  · obtain ⟨_,d,hrun,m,hm,r,hr,hne⟩ := driver.drive_starting driver_fits
      (fun _ call _ => call.namesTask = true)
      [.start 0 (.markDelivered firstRouter [⟨"t","p",0,⟨(9,9),"t"⟩⟩]),.complete 0 100]
      (.idle claimedLegacy) (fun ms _ => ∃ m ∈ ms, ∃ r ∈ settledRecord m,
        m.before.status r.parentKey ≠ some (.opened r.parentEpoch)) (by decide +kernel)
    have htidy : Tidy claimedLegacy := tidy_of_entries (by decide) fun _ _ => rfl
    exact hne (h claimedLegacy d _ htidy hrun m hm r hr)
  · obtain ⟨_,d,hrun,m,hm,o,ho,hne⟩ := driver.drive_starting driver_fits
      (fun _ call _ => call.namesTask = true)
      [.start 0 (.acquirePermit 0 "p" 1),.act 0 7,.tick 70000,
        .start 1 (.cancelParent otherProcess "p"),.complete 1 100,.complete 0 100]
      (.idle durableParent) (fun ms _ => ∃ m ∈ ms, ∃ h ∈ handedOff m,
        m.before.status h.1 ≠ some (.opened h.2)) (by decide +kernel)
    have htidy : Tidy durableParent := tidy_of_entries (by decide) fun _ _ => rfl
    exact hne (h durableParent d _ htidy hrun m hm o ho)

end Completions
