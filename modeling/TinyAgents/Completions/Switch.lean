import TinyAgents.Completions.Replacement

namespace Completions

open Interaction Option

namespace Migration

def MigrationOp.spares (handle : Nat) : MigrationOp → Bool
  | .on _ op => op.quiet
  | .putCopy target _ _ _ => target ≠ handle
  | _ => true

abbrev Spares (handle : Nat) (op : MigrationOp) : Prop := op.spares handle

section

variable {handle : Nat}

theorem spared {i : Nat} {op} {w w'} {x} (h : MigrationOutcome i op w x w')
    (hs : op.spares handle) : (w'.stores handle).records = (w.stores handle).records := by
  cases op with
  | on => exact (quiet_stores h hs handle).1
  | bindParentLifecycle | currentStore => exact (quiet_stores h rfl handle).1
  | putCopy j =>
    obtain ⟨v,-,rfl⟩ := h
    have hj : j ≠ handle := by simpa [MigrationOp.spares] using hs
    rw [stores_back,if_neg hj.symm]
  | setCurrentStore | beginMigration | dropMigration =>
    cases h
    rfl

theorem spares_of_quiet {op : MigrationOp} (h : op.quiet) : op.spares handle := by
  cases op with
  | on => exact h
  | putCopy => cases h
  | _ => rfl

theorem asks_spares {α : Type} {p : Program MigrationOp MigrationAns α} (h : Asks Quiet p) :
    Asks (Spares handle) p :=
  asks_mono (fun _ => spares_of_quiet) h

theorem asks_withEach {α γ : Type} {acquire : String → Migrating γ}
    {drop : γ → Program MigrationOp MigrationAns Unit} (ha : ∀ p, Asks Quiet (acquire p).run)
    (hd : ∀ g, Asks Quiet (drop g)) {parents : List String} {body : List γ → Migrating α}
    (hb : ∀ guards, Asks (Spares handle) (body guards).run) :
    Asks (Spares handle) (withEach acquire drop parents body).run := by
  refine asks_try (asks_spares (asks_acquireEach ha hd [])) fun guards => ?_
  refine asks_bind (hb guards) fun _ => ?_
  exact asks_bind (asks_spares (asks_dropEach hd)) fun _ => trivial

variable {replacement source : Nat}

section

variable (hr : replacement ≠ handle)

include hr

theorem asks_copyRecords {l : List CompletionRecord} :
    Asks (Spares handle) (copyRecords replacement l).run := by
  induction l with
  | nil => trivial
  | cons _ _ ih =>
    refine asks_try ?_ fun _ => ih
    refine asks_try (asks_spares (asks_tryOn asks_acquireNative)) fun _ => ?_
    refine asks_bind ⟨by simpa [Spares,MigrationOp.spares] using hr,fun _ => trivial⟩ fun _ => ?_
    exact asks_bind (asks_spares (asks_dropSourceGate _ _)) fun _ => trivial

theorem asks_copySnapshot {parents : List String} {gates : List (String × ParentGateClaim)} :
    Asks (Spares handle) (copySnapshot source replacement parents gates).run := by
  refine asks_try (asks_spares asks_renewSourceGates) fun _ => ?_
  refine asks_try (asks_spares (asks_tryOn ⟨rfl,fun _ => trivial⟩)) fun _ => ?_
  split
  · exact asks_try (asks_copyRecords hr) fun _ =>
      ⟨rfl,fun _ => ⟨rfl,fun _ => trivial⟩⟩
  · trivial

theorem asks_copyStore {router : Router} :
    Asks (Spares handle) (copyStore router source replacement).run := by
  refine asks_try (asks_spares asks_bindReplacement) fun _ => ?_
  refine asks_try (asks_spares (asks_tryOn ⟨rfl,fun _ => trivial⟩)) fun _ => ?_
  refine asks_withEach (asks_acquireSourceGate _) (asks_dropSourceGate _) fun _ => ?_
  exact asks_withEach (asks_acquireLocalGate _ _) (asks_dropLocalGate _ _) fun _ =>
    asks_copySnapshot hr

theorem asks_migrate {router : Router} :
    Asks (Spares handle) (migrate router source replacement).run := by
  refine asks_bind ⟨rfl,fun _ => trivial⟩ fun _ => asks_bind (asks_copyStore hr) fun result => ?_
  cases result with
  | ok => trivial
  | error => exact ⟨rfl,fun _ => trivial⟩

end

theorem asks_code {call : ReplaceCall} (hr : call.replacement ≠ handle) :
    Asks (Spares handle) call.code := by
  refine asks_bind ⟨rfl,fun _ => trivial⟩ fun _ => asks_bind ?_ fun _ => ⟨rfl,fun _ => trivial⟩
  refine asks_try ⟨rfl,fun _ => trivial⟩ fun _ => ?_
  split
  · trivial
  split
  · trivial
  · exact asks_migrate hr

variable {call : ReplaceCall} {ms : List MigrationMoment} {w : MigrationWorld}

structure WorksOn (call : ReplaceCall) (w v : MigrationWorld) (handle : Nat) : Prop where
  current : v.current = handle
  admits : admissionStoreSnapshot v.slot = some handle
  leases : (v.shared.routers call.router.id).state = (w.shared.routers call.router.id).state

theorem worksOn_of_home {v} {handle : Nat}
    (h : call.home v = (handle,⟨handle,false⟩,(w.shared.routers call.router.id).state)) :
    WorksOn call w v handle := by
  obtain ⟨hcurrent,hrest⟩ := Prod.mk.inj h
  obtain ⟨hslot,hstate⟩ := Prod.mk.inj hrest
  exact ⟨hcurrent,by rw [hslot]; rfl,hstate⟩

def ReplaceSpec (call : ReplaceCall) (ms : List MigrationMoment) (w : MigrationWorld) :
    ReplaceResult → MigrationWorld → Prop
  | .ok (.replaced handle), v => handle = call.replacement ∧ WorksOn call w v handle ∧
      ∃ source records, Listed call ms source records ∧
        (SameRecords source.records (v.stores handle).records ∧
            SettlesAlike source (v.stores handle) ↔
          CopiesFaithfully source.records records (w.stores handle))
  | .ok (.current handle), v => handle = w.current ∧ WorksOn call w v handle ∧
      (w.current ≠ call.expected ∨ w.current = call.replacement)
  | .error _, v => WorksOn call w v w.current

theorem Finished.spec (hw : w.slot = ⟨w.current,false⟩) {r} {v} (h : Finished call ms w r v) :
    ReplaceSpec call ms w r v := by
  have hhome : call.home w = (w.current,⟨w.current,false⟩,
      (w.shared.routers call.router.id).state) := by rw [ReplaceCall.home,hw]
  rcases r with e | (handle | handle)
  · exact worksOn_of_home (h.trans hhome)
  · obtain ⟨rfl,hv,hne⟩ := h
    exact ⟨rfl,worksOn_of_home (hv.trans hhome),hne⟩
  obtain ⟨rfl,hs,source,records,hl,hc⟩ := h
  obtain ⟨m,hm,hev,hsource,hperm⟩ := hl
  refine ⟨rfl,worksOn_of_home hs,source,records,⟨m,hm,hev,hsource,hperm⟩,?_⟩
  rw [← sameRecords_iff hperm hc]
  exact ⟨And.left,fun hsame => ⟨hsame,settlesAlike_of_same hsame⟩⟩

structure Replaces (call : ReplaceCall) (ms : List MigrationMoment) (w v : MigrationWorld)
    (r : ReplaceResult) : Prop where
  spec : ReplaceSpec call ms w r v
  spared : ∀ m ∈ ms, m.op.isSome → ∀ handle, handle ≠ call.replacement →
    (m.after.stores handle).records = (m.before.stores handle).records

theorem run_spares {d : MigrationConfig} (h : (machine call).Run (calling call w) ms d)
    {handle : Nat} (hr : handle ≠ call.replacement) {m : MigrationMoment} (hm : m ∈ ms)
    (hop : m.op.isSome) : (m.after.stores handle).records = (m.before.stores handle).records := by
  obtain ⟨op,hop⟩ := isSome_iff_exists.1 hop
  obtain ⟨i,c,x,he⟩ := Moment.did_of_op hop
  have hstart i c p (ht : (calling call w).thread i = some (c,p)) : Asks (Spares handle) p := by
    obtain ⟨-,-,rfl⟩ := calling_thread ht
    exact asks_code hr.symm
  have hspares := (h.asks_from (fun _ _ _ hb => False.elim hb) hstart).2 m hm i c op x he
  exact spared (h.outcome m hm i c op x he) hspares

theorem replacement_is_exact_copy (hw : w.slot = ⟨w.current,false⟩) {d : MigrationConfig}
    (h : (machine call).Run (calling call w) ms d) {m : MigrationMoment} {r : ReplaceResult}
    (hm : m ∈ ms) (he : m.event = .finish 0 call r) : Replaces call ms w m.before r where
  spec := (finished_of_run (by rw [hw]) h hm he).spec hw
  spared := fun _ hn hop _ hr => run_spares h hr hn hop

end

def perform (i : Nat) :
    (op : MigrationOp) → MigrationWorld → Option (MigrationAns op × MigrationWorld)
  | .on handle op, w => (Completions.perform i op (w.focus handle)).map fun (x,v) =>
    (x,w.back handle v)
  | .bindParentLifecycle handle lifecycle, w =>
    if (w.lifecycleOf handle).all (· = lifecycle) then
      some (.ok (),
        { w with lifecycleOf := Function.update w.lifecycleOf handle (some lifecycle) })
    else some (.error .boundElsewhere,w)
  | .putCopy handle r parentKey gate, w =>
    (tryStore (w.focus handle) (w.putCopy handle r parentKey gate)).map fun (x,v) =>
      (x,w.back handle v)
  | .currentStore, w => some (w.current,w)
  | .setCurrentStore handle, w => some ((),{ w with current := handle })
  | .beginMigration, w => some ((),{ w with slot := { w.slot with migrating := true } })
  | .dropMigration replacement, w => some ((),w.publish replacement)

def refuse : (op : MigrationOp) → Option (MigrationAns op)
  | .on _ op => Completions.refuse op
  | .bindParentLifecycle _ _ => some (.error (.store .store))
  | .putCopy _ _ _ _ => some (.error .store)
  | _ => none

def driver : Driver MigrationOp MigrationAns MigrationWorld where
  perform := perform
  refuse := refuse
  tick := fun t w => { w with shared := { w.shared with now := t } }

theorem back_focus {w : MigrationWorld} (handle : Nat) : w.back handle (w.focus handle) = w := by
  simp [MigrationWorld.back,MigrationWorld.focus,World.setStore]

variable (call : ReplaceCall)

theorem driver_fits : driver.Fits (callMachine call) where
  perform := fun i op w x _ h => by
    cases op with
    | on =>
      obtain ⟨⟨x,v⟩,hx,he⟩ := map_eq_some_iff.1 h
      cases he
      exact ⟨v,perform_outcome hx,rfl⟩
    | bindParentLifecycle =>
      simp only [driver,perform] at h
      split at h
      next hb =>
        cases h
        exact .inr ⟨by simpa [all_eq_true] using hb,rfl,rfl⟩
      · cases h
        exact .inl ⟨⟨_,rfl⟩,rfl⟩
    | putCopy =>
      obtain ⟨⟨x,v⟩,hx,he⟩ := map_eq_some_iff.1 h
      cases he
      exact ⟨v,tryStore_attempted hx,rfl⟩
    | currentStore =>
      cases h
      exact ⟨rfl,rfl⟩
    | setCurrentStore | beginMigration | dropMigration =>
      cases h
      rfl
  refuse := fun i op w x h => by
    cases op with
    | on handle => exact ⟨_,refuse_outcome h,(back_focus handle).symm⟩
    | bindParentLifecycle =>
      cases h
      exact .inl ⟨⟨_,rfl⟩,rfl⟩
    | putCopy handle =>
      cases h
      exact ⟨_,.inl ⟨_,rfl,rfl⟩,(back_focus handle).symm⟩
    | _ => cases h
  tick := fun _ _ => ⟨rfl,rfl,rfl⟩

def Ended (r : ReplaceResult) (check : MigrationWorld → Bool) (m : MigrationMoment) : Bool :=
  match m.event with
  | .finish 0 c r' => c = call && r' = r && check m.before
  | _ => false

theorem drive_calling (w : MigrationWorld)
    (choices : List (Choice ReplaceCall)) (r : ReplaceResult) (check : MigrationWorld → Bool)
    (every : MigrationMoment → Bool)
    (h : (driver.drive (callMachine call) choices (calling call w)).any
      (fun x => x.1.all (fun m => m.started.isNone && every m) && x.1.any (Ended call r check))) :
    ∃ ms d m, (machine call).Run (calling call w) ms d ∧ m ∈ ms ∧ m.event = .finish 0 call r ∧
    check m.before ∧ ∀ m ∈ ms, every m := by
  obtain ⟨⟨ms,d⟩,hd,h⟩ := (any_eq_true _ _).1 h
  obtain ⟨hs,hc⟩ := Bool.and_eq_true_iff.1 h
  obtain ⟨m,hm,he⟩ := List.any_eq_true.1 hc
  have hall n (hn : n ∈ ms) := Bool.and_eq_true_iff.1 (List.all_eq_true.1 hs n hn)
  have hrun : (machine call).Run (calling call w) ms d :=
    (Driver.drive_run (driver_fits call) hd).starting fun m hm s hs' => by
      have hn := (hall m hm).1
      rw [mem_def.1 hs'] at hn
      cases hn
  unfold Ended at he
  split at he
  next c _ hev =>
    simp only [Bool.and_eq_true,decide_eq_true_eq] at he
    obtain ⟨⟨rfl,rfl⟩,hcheck⟩ := he
    exact ⟨ms,d,m,hrun,hm,hev,hcheck,fun n hn => (hall n hn).2⟩
  · cases he

def claimedChild (epoch : Nat) : CompletionRecord :=
  { taskId := "t", parentKey := "p", parentEpoch := epoch, attempts := 1,
    claim := some ⟨⟨(7,0),"t"⟩,1000⟩ }

def storeOf (records : Records) (processLocal : Bool) : Store where
  records := records
  parentGates := fun _ => none
  parentGateEpochs := fun _ => 0
  processLocal := processLocal

def durableSource (epoch : Nat) : Store :=
  storeOf ((Table.empty.insert (claimedChild epoch)).insert (parentMarker "p" .delivered 1 0)) false

def beforeSwitch (epoch : Nat) : MigrationWorld where
  shared := { store := durableSource epoch }
  stores := fun handle => if handle = 0 then durableSource epoch else storeOf .empty true
  current := 0
  slot := ⟨0,false⟩

def toMemory : ReplaceCall where
  router := { id := 0, lifecycle := 0, attempts_pos := attempts_default }
  expected := 0
  replacement := 1

theorem replacement_is_exact_copy_memory :
    ∃ ms d m, (machine toMemory).Run (calling toMemory (beforeSwitch 1)) ms d ∧ m ∈ ms ∧
    m.event = .finish 0 toMemory (.ok (.replaced 1)) ∧
    Replaces toMemory ms (beforeSwitch 1) m.before (.ok (.replaced 1)) := by
  obtain ⟨ms,d,m,h,hm,he,-⟩ := drive_calling toMemory (beforeSwitch 1) [.complete 0 100]
    (.ok (.replaced 1)) (fun _ => true) (fun _ => true) (by decide +kernel)
  exact ⟨ms,d,m,h,hm,he,replacement_is_exact_copy rfl h hm he⟩

-- The claimed child arrives in generation 1, so its receipt no longer settles it.
theorem copy_changes_generation :
    ¬ ∀ (call : ReplaceCall) (w : MigrationWorld) (ms : List MigrationMoment) (d : MigrationConfig)
      (m : MigrationMoment), w.slot = ⟨w.current,false⟩ →
    (w.stores call.replacement).records.entries = [] → (machine call).Run (calling call w) ms d →
    m ∈ ms → m.event = .finish 0 call (.ok (.replaced call.replacement)) → ∃ source records,
    Listed call ms source records ∧
    SameRecords source.records (m.before.stores call.replacement).records := by
  intro hall
  obtain ⟨ms,d,m,h,hm,he,hcheck,hsource⟩ := drive_calling toMemory (beforeSwitch 0)
    [.complete 0 100] (.ok (.replaced 1))
    (fun v => (v.stores 1).records.get "t" = some (claimedChild 1))
    (fun n => (n.before.stores 0).records.get "t" = some (claimedChild 0)) (by decide +kernel)
  obtain ⟨_,records,⟨n,hn,-,hs,-⟩,hsame⟩ :=
    hall toMemory (beforeSwitch 0) ms d m rfl rfl h hm he
  subst hs
  have ht : ((m.before.stores 1).records.get "t").map CompletionRecord.unstamped =
      ((n.before.stores 0).records.get "t").map CompletionRecord.unstamped := hsame "t"
  rw [of_decide_eq_true (hsource n hn),of_decide_eq_true hcheck] at ht
  exact absurd ht (by decide)

end Migration

end Completions
