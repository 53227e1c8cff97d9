import TinyAgents.Completions.Epochs

namespace Completions

open Interaction List

def World.Settled (w : World) (parentKey : String) : Prop :=
  ∀ r ∈ w.store.records.entries, r.parentKey = parentKey → r.state ≠ .pending

instance (w : World) (parentKey : String) : Decidable (w.Settled parentKey) :=
  inferInstanceAs (Decidable (∀ r ∈ w.store.records.entries, _ → _))

variable {parentKey : String} {w : World}

theorem World.settled_iff : w.Settled parentKey ↔ ∀ r, ¬ w.Pending parentKey r := by
  constructor
  · exact fun h r hp => h r (Table.get_eq_some.1 hp.1).1 hp.2.1 hp.2.2
  · exact fun h r hr hk hs => h r ⟨Table.get_eq_some.2 ⟨hr,rfl⟩,hk,hs⟩

def RouterCall.closes : RouterCall → Option String
  | .cancelParent _ parentKey => some parentKey
  | .deleteParent _ parentKey => some parentKey
  | _ => none

def World.isDeleted (w : World) (parentKey : String) : Bool :=
  (w.status parentKey).any fun s => s.markerState = .parentDeleted

def soloCalls : Nat → RouterCall → World → Prop :=
  fun i call _ => i = 0 ∧ call.namesTask = true

def closingCalls : Nat → RouterCall → World → Prop :=
  fun i call w => soloCalls i call w ∧
    ∀ parentKey ∈ call.closes, w.isDeleted parentKey = true → w.Settled parentKey

def closes (parentKey : String) (m : CompletionMoment) : Bool :=
  match m.event with
  | .finish _ call (.ok _) => call.closes = some parentKey
  | _ => false

theorem closes_event {m} (h : closes parentKey m) :
    ∃ i call reply, m.event = .finish i call (.ok reply) ∧ call.closes = some parentKey := by
  unfold closes at h
  split at h
  next i call reply he => exact ⟨i,call,reply,he,of_decide_eq_true h⟩
  · cases h

def Reopens (m : CompletionMoment) (parentKey : String) : Prop :=
  (∃ op ∈ m.op, ∃ gate, op.resumes = some (parentKey,gate)) ∧
    ∃ e, m.after.status parentKey = some (.opened e)

def closingScope : Scope where
  clean := True
  solo := True
  lasting := False
  tombstones := True
  strict := True
  versioned := False
  versioned_clean := fun _ => trivial
  versioned_strict := fun _ => trivial

theorem closingScope_meets {ms} : closingScope.Meets ms := by
  intro m _ op _
  cases op with
  | putFenced site =>
    cases site with
    | suppress | reserve => exact fun _ h => absurd trivial h.2
    | upgrade => exact fun h => absurd trivial h.2
    | resume => exact fun h => h.elim
    | withdraw | enrol | restore | close => trivial
  | _ => trivial

def closedCalls (closed : String → Prop) : Nat → RouterCall → World → Prop :=
  fun i call w => closingCalls i call w ∧
    ∀ router r, call = .record router r → closed r.parentKey → w.Shut r.parentKey

theorem closedCalls_opens {closed} {i : Nat} {call : RouterCall} (h : closedCalls closed i call w) :
    closingScope.Active i ∧ closingScope.Opens closed call w := by
  obtain ⟨⟨⟨hi,hn⟩,hc⟩,hs⟩ := h
  have hdrained {p} (hp : call.closes = some p) : closingScope.DeletedDrained p w := by
    rintro - - ⟨e,he⟩ - r -
    refine World.settled_iff.1 (hc p hp ?_) r
    rw [World.isDeleted,he]
    rfl
  refine ⟨fun _ => hi,?_,?_⟩
  · cases call with
    | record => exact fun _ => of_decide_eq_true hn
    | tombstone => exact ⟨trivial,fun _ => of_decide_eq_true hn⟩
    | compact => exact id
    | _ => trivial
  · cases call with
    | record router r => exact fun hcl _ _ => hs router r rfl hcl
    | cancelParent | deleteParent => exact hdrained rfl
    | _ => trivial

theorem closing_run (hw : Tidy w) {c} {ms} (h : (machine closingCalls).Run (.idle w) ms c) :
    closingScope.Inv c.world ∧ ∀ m ∈ ms, closingScope.RunKept (fun _ => False) closingCalls m := by
  have hopens i call v (_ : closingScope.Inv v) (hv : closingCalls i call v) :
      closingScope.Active i ∧ closingScope.Opens (fun _ => False) call v :=
    closedCalls_opens ⟨hv,fun _ _ _ h => h.elim⟩
  have hrun := Scope.run_sound hopens h closingScope_meets
    (Scope.runSound_idle (hw.inv fun h => h.elim))
  exact ⟨hrun.1.1,hrun.2⟩

section

variable {S : Scope} {closed : String → Prop} {begins : Nat → RouterCall → World → Prop}
  {m : CompletionMoment} {p : String}

theorem Scope.RunKept.shut (h : S.RunKept closed begins m) (hcl : S.clean) (hs : m.before.Shut p)
    (hn : ¬ Reopens m p) : m.after.Shut p := by
  rcases h.cases with ⟨-,he⟩ | ⟨i,_,_,x,he,hg,-,ho⟩
  · exact hs.of_status (status_of_marker (get_of_records (by rw [he]) _))
  rcases marker_change hcl h.1 hg ho.change p with hm | ⟨site,r,c,rfl,-,hr,hsite⟩
  · exact hs.of_status (status_of_marker hm)
  have hst : m.after.status p = some r.lifecycle := by
    rw [World.status,hr]
    rfl
  cases site with
  | restore =>
    obtain ⟨_,hm0,hl⟩ := hsite
    refine hs.of_status (hst.trans ?_)
    rw [World.status,hm0,hl]
    rfl
  | enrol =>
    obtain ⟨e,he⟩ := hs
    simp [World.status,hsite.1] at he
  | close =>
    refine ⟨r.parentEpoch,?_⟩
    rw [hst,CompletionRecord.lifecycle]
    rcases hsite.1 with hr | hr
    · exact .inl (by rw [hr]; rfl)
    · exact .inr (by rw [hr]; rfl)
  | resume =>
    refine absurd ⟨⟨_,Moment.op_eq he,c,rfl⟩,r.parentEpoch,?_⟩ hn
    rw [hst,CompletionRecord.lifecycle,hsite.1]
    rfl
  | suppress | reserve | withdraw | upgrade => exact hsite.elim

theorem Scope.RunKept.closes (h : closingScope.RunKept closed begins m) (hc : closes p m) :
    m.before.Settled p ∧ m.before.Shut p := by
  obtain ⟨i,call,_,he,hcall⟩ := closes_event hc
  obtain ⟨w,_,_⟩ := m
  cases he
  obtain ⟨hi,-,hpost,-⟩ := h
  have hw : closingScope.Withdrawn p w := by
    cases call <;> cases hcall
    case cancelParent => exact hpost.2
    case deleteParent => exact hpost.2
  obtain ⟨hd,hs⟩ := hw trivial trivial
  refine ⟨World.settled_iff.2 fun r hp => ?_,hs⟩
  by_cases hm : IsMarkerId r.taskId
  · have hmk := (hi.markers trivial _ r hp.1 hm).2.1
    rw [hp.2.2] at hmk
    rcases hmk with h | h | h <;> cases h
  · exact hd trivial r hm hp

end

theorem idle_after_close {c d} {past} {m} {begins} (h : (machine begins).Run (.idle w) past c)
    (hs : (machine begins).Step c m d) (hzero : ∀ k ∈ past, ∀ s ∈ k.started, s.1 = 0)
    (hm : closes parentKey m) (i : Nat) : d.thread i = none := by
  have hnone {j} (hj : j ≠ 0) : c.thread j = none :=
    h.thread_eq_none fun k hk s hsk => by rw [hzero k hk s hsk]; exact hj.symm
  obtain ⟨j,_,_,he,-⟩ := closes_event hm
  cases hs with
  | @finish j' call' r ht =>
    cases he
    obtain rfl : j = 0 := by
      by_contra hj
      rw [hnone hj] at ht
      cases ht
    by_cases hi : i = 0
    · simp [Config.set,hi]
    · simpa [Config.set,hi] using hnone hi
  | start | did | crash | env => cases he

structure StaysClosed (m : CompletionMoment) (later : List CompletionMoment)
    (parentKey : String) : Prop where
  settled : m.before.Settled parentKey
  suppressed : ∀ between n rest i router r reply, later = between ++ n :: rest →
    (∀ k ∈ between, ¬ Reopens k parentKey) →
      n.event = .finish i (.record router r) (.ok reply) → r.parentKey = parentKey →
        reply = .recorded .suppressed

theorem closed_parent_stays_closed (w : World) (hw : Tidy w) {c : CompletionConfig}
    {past later : List CompletionMoment} {m : CompletionMoment} {parentKey : String}
    (h : (machine closingCalls).Run (.idle w) (past ++ m :: later) c)
    (hm : closes parentKey m = true) : StaysClosed m later parentKey := by
  obtain ⟨-,hk⟩ := closing_run hw h
  have hmem : m ∈ past ++ m :: later := mem_append_right _ mem_cons_self
  obtain ⟨hset,hshut⟩ := (hk m hmem).closes hm
  refine ⟨hset,?_⟩
  rintro between n _ i _ r _ rfl hopen he rfl
  obtain ⟨e,d,hpast,hstep,hlater⟩ := h.at
  obtain ⟨f,f',hbetween,hn,-⟩ := hlater.at
  have hkb : ∀ k ∈ between, closingScope.RunKept (fun _ => False) closingCalls k :=
    fun k hb => hk k (by simp [hb])
  have hd : d.world.Shut r.parentKey := by
    rw [← hstep.after_eq]
    have hno : ¬ Reopens m r.parentKey := by
      rintro ⟨⟨op,hop,-⟩,-⟩
      obtain ⟨j,_,_,he',-⟩ := closes_event hm
      rw [Moment.op,he'] at hop
      cases hop
    exact (hk m hmem).shut trivial hshut hno
  have hbefore := hbetween.before (P := fun v => v.Shut r.parentKey) hd fun k hb hs =>
    (hkb k hb).shut trivial hs (hopen k hb)
  have hrun : (machine (closedCalls (· = r.parentKey))).Run d (between ++ [n]) f' := by
    refine (Machine.Run.snoc hbetween hn).starting fun k hkn s hs => ?_
    have hkept : closingScope.RunKept (fun _ => False) closingCalls k :=
      hk k (by rcases mem_append.1 hkn with h | h <;> simp_all)
    refine ⟨hkept.begun hs,fun _ _ _ hp => ?_⟩
    rw [hp]
    rcases mem_append.1 hkn with hb | hb
    · exact hbefore.2 k hb
    · rw [mem_singleton.1 hb,hn.before_eq]
      exact hbefore.1
  have hidle := idle_after_close hpast hstep
    (fun k hk' s hs => ((hk k (mem_append_left _ hk')).begun hs).1.1) hm
  have hsound : closingScope.RunSound (· = r.parentKey) d := by
    refine ⟨?_,fun j call p ht => ?_⟩
    · rw [← hstep.after_eq]
      exact (hk m hmem).2.1
    · rw [hidle j] at ht
      cases ht
  have hkept := (Scope.run_sound (fun i call v _ => closedCalls_opens) hrun
    closingScope_meets hsound).2 n (mem_append_right _ mem_cons_self)
  obtain ⟨v,_,_⟩ := n
  cases he
  exact hkept.2.2.1.2 rfl trivial trivial

theorem oneCompletion_tidy : Tidy oneCompletion :=
  tidy_of_entries (by decide) fun _ _ => rfl

def lateChild : CompletionRecord :=
  { taskId := "u", parentKey := "p", parentEpoch := 1 }

theorem closed_parent_stays_closed_cancelled :
    ∃ past m later c, (machine closingCalls).Run (.idle oneCompletion)
      (past ++ m :: later) c ∧ closes "p" m = true ∧ StaysClosed m later "p" := by
  obtain ⟨ms,c,hrun,m,hm,hclose⟩ := driver.drive_starting driver_fits (fun i call w => (i = 0 ∧
      call.namesTask = true) ∧ ∀ p ∈ call.closes, w.isDeleted p = true → w.Settled p)
    [.start 0 (.cancelParent firstRouter "p"),.complete 0 100,
      .start 0 (.record firstRouter lateChild),.complete 0 100] (.idle oneCompletion)
    (fun ms _ => ∃ m ∈ ms, closes "p" m = true) (by decide +kernel)
  obtain ⟨past,later,rfl⟩ := append_of_mem hm
  exact ⟨past,m,later,c,hrun,hclose,
    closed_parent_stays_closed oneCompletion oneCompletion_tidy hrun hclose⟩

-- The first delete is refused at the row it would withdraw; the second finds the parent deleted.
theorem retried_delete_leaves_pending :
    ¬ ∀ (w : World) (c : CompletionConfig) (past later : List CompletionMoment)
      (m : CompletionMoment) (parentKey : String), Tidy w →
    (machine soloCalls).Run (.idle w) (past ++ m :: later) c → closes parentKey m = true →
    m.before.Settled parentKey := by
  intro h
  obtain ⟨ms,c,hrun,m,hm,hclose,hleft⟩ := driver.drive_starting driver_fits
    (fun i call _ => i = 0 ∧ call.namesTask = true)
    [.start 0 (.deleteParent firstRouter "p"),.act 0 18,.fail 0,.complete 0 100,
      .start 0 (.deleteParent firstRouter "p"),.complete 0 100] (.idle oneCompletion)
    (fun ms _ => ∃ m ∈ ms, closes "p" m = true ∧ ¬ m.before.Settled "p") (by decide +kernel)
  obtain ⟨past,later,rfl⟩ := append_of_mem hm
  exact hleft (h oneCompletion c past later m "p" oneCompletion_tidy hrun hclose)

end Completions
