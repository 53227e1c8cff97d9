import Mathlib.Data.List.Dedup
import TinyAgents.Interaction.Driver
import TinyAgents.StorageKit.Migrate

namespace StorageKit

namespace Schemas

open Interaction List Function

section

variable {V D : Type}

-- `completed` keeps which steps were ever recorded as done. No program reads it.
structure MigrateWorld where
  progress : String → String → Option Progress
  pending : PreparedRegistry.Pending
  completed : String → String → Bool

namespace MigrateWorld

variable (w : MigrateWorld)

def record (scope key : String) (progress : Option Progress) : MigrateWorld :=
  { w with
    progress := update w.progress scope (update (w.progress scope) key progress)
    completed := update w.completed scope (update (w.completed scope) key
      (w.completed scope key || progress.any fun p => p.done)) }

def setPending (scope : String) (items : List String) : MigrateWorld :=
  { w with pending := update w.pending scope (some items) }

def markReady (scope item : String) : MigrateWorld :=
  { w with
    pending := update w.pending scope
      ((w.pending scope).map fun items => items.filter fun other => other ≠ item) }

end MigrateWorld

def Shrunk (scope : String) (w w' : MigrateWorld) : Prop :=
  w'.pending = w.pending ∧ w'.completed = w.completed ∧
    (∀ other, other ≠ scope → w'.progress other = w.progress other) ∧
    ∀ key, w'.progress scope key = w.progress scope key ∨ w'.progress scope key = none

def Recorded (scope key : String) (progress : Option Progress) (w : MigrateWorld)
    (x : Except Failure Unit) (w' : MigrateWorld) : Prop :=
  (w' = w ∧ ∃ e, x = .error e) ∨ w' = w.record scope key progress

def MigrateOutcome : (op : RegistryOp V) → MigrateWorld → RegistryAns op → MigrateWorld → Prop
  | .store scope (.loadProgress key), w, x, w' =>
    w' = w ∧ ((∃ e, x = .error e) ∨ x = .ok (w.progress scope key))
  | .store scope (.saveProgress key progress), w, x, w' => Recorded scope key (some progress) w x w'
  | .store scope (.deleteProgress key), w, x, w' => Recorded scope key none w x w'
  | .store scope (.deleteWhere collection), w, _, w'
  | .store scope (.delete collection _ _), w, _, w' =>
    w' = w ∨ collection = migrationsCollection ∧ Shrunk scope w w'
  | .setPending scope items, w, _, w' => w' = w.setPending scope items
  | .markReady scope item, w, _, w' => w' = w.markReady scope item
  | .store _ _, w, _, w' => w' = w

def migrators [DecidableEq V] (codec : KeyCodec) (rules : Rules D)
    (registry : PreparedRegistry V D) :
    Machine MigrateCall (RegistryOp V) RegistryAns MigrateWorld
      (Except Failure MigrationReport) where
  code := fun call => (migrate codec rules registry call).run
  outcome := fun _ => MigrateOutcome
  env := Eq

abbrev MigrateMoment (V : Type) := Moment MigrateCall (RegistryOp V) RegistryAns MigrateWorld
  (Except Failure MigrationReport)

abbrev MigrateConfig (V : Type) := Config MigrateCall (RegistryOp V) RegistryAns MigrateWorld
  (Except Failure MigrationReport)

variable (codec : KeyCodec)

def Done (w : MigrateWorld) (scope : String) (entry : Owner × PreparedStep V) : Prop :=
  ∃ key, keyOf codec entry.1 entry.2 = .ok key ∧ w.completed scope key = true

def Recalled (w : MigrateWorld) : Prop :=
  ∀ scope key progress, w.progress scope key = some progress → progress.done = true →
    w.completed scope key = true

def Grown (w w' : MigrateWorld) : Prop :=
  ∀ scope key, w.completed scope key = true → w'.completed scope key = true

theorem Grown.trans (u v w : MigrateWorld) (h : Grown u v) (k : Grown v w) : Grown u w :=
  fun scope key hc => k scope key (h scope key hc)

def storeLogic (scope : String) : Logic (StoreOp V) StoreAns MigrateWorld where
  outcome := fun op w x w' => Recalled w ∧ MigrateOutcome (.store scope op) w x w'
  rely := Grown
  guar := fun _ _ => True
  rely_refl := fun _ _ _ h => h
  rely_trans := Grown.trans

def registryLogic (registry : PreparedRegistry V D) :
    Logic (RegistryOp V) RegistryAns MigrateWorld where
  outcome := fun op w x w' => Recalled w ∧ MigrateOutcome op w x w'
  rely := Grown
  guar := fun
    | .store _ _, _ => True
    | .setPending scope items, w => ∀ entry ∈ registry.steps, entry.2.item ∉ items →
        Done codec w scope entry
    | .markReady scope item, w => ∀ entry ∈ registry.steps, entry.2.item = item →
        Done codec w scope entry
  rely_refl := fun _ _ _ h => h
  rely_trans := Grown.trans

variable {codec} {registry : PreparedRegistry V D} {scope : String} {w : MigrateWorld}
  {passed rest : List (Planned V)} {w' : MigrateWorld} {entry : Planned V}

theorem Done.grown {entry : Owner × PreparedStep V} (h : Done codec w scope entry)
    (hg : Grown w w') : Done codec w' scope entry := by
  obtain ⟨key,hk,hc⟩ := h
  exact ⟨key,hk,hg scope key hc⟩

variable {key : String}

theorem grown_record {progress} : Grown w (w.record scope key progress) := by
  intro other found hc
  unfold MigrateWorld.record
  by_cases hs : other = scope
  · subst hs
    by_cases hk : found = key
    · subst hk
      simp [hc]
    · simpa [update_of_ne hk] using hc
  · simpa [update_of_ne hs] using hc

theorem completed_record {progress : Progress} (h : progress.done) :
    (w.record scope key (some progress)).completed scope key := by
  simp [MigrateWorld.record,h]

theorem safe_any {α : Type} {task : StoreTask V α} :
    Ensures (storeLogic scope) (fun _ _ => True) (fun _ _ => True) task w := by
  refine safe_mono ?_ (safe_of_asks
    (fun _ _ _ _ => trivial) (fun _ _ _ _ => ⟨trivial,fun _ _ _ => trivial⟩)
    (asks_all (fun _ => trivial)) trivial)
  rintro (e | a) w - <;> trivial

theorem safe_saveDone {progress : Progress} (h : progress.done) {count : Nat} :
    Ensures (storeLogic scope) (fun _ w => w.completed scope key) (fun _ _ => True)
      (do saveProgress key progress; return count : StoreTask V Nat) w := by
  refine fun v _ => ⟨trivial,fun x _ hx => ?_⟩
  cases x with
  | error => exact fun _ _ => trivial
  | ok =>
    refine safe_ok (fun _ _ hg h => hg scope key h) ?_
    rcases hx.2 with ⟨-,e,he⟩ | hx
    · cases he
    · exact hx ▸ completed_record h

inductive Change (op : RegistryOp V) (w : MigrateWorld) : MigrateWorld → Prop
  | same : Change op w w
  | saved {scope key : String} {progress : Progress}
      (ho : op = .store scope (.saveProgress key progress)) :
      Change op w (w.record scope key (some progress))
  | dropped {scope key : String} : Change op w (w.record scope key none)
  | shrunk {scope : String} {w' : MigrateWorld} (hs : Shrunk scope w w') : Change op w w'
  | pending {scope : String} {items : List String} (ho : op = .setPending scope items) :
      Change op w (w.setPending scope items)
  | ready {scope item : String} (ho : op = .markReady scope item) :
      Change op w (w.markReady scope item)

theorem change_of_outcome {op : RegistryOp V} {x : RegistryAns op} (h : MigrateOutcome op w x w') :
    Change op w w' := by
  cases op with
  | setPending => exact (show w' = _ from h) ▸ .pending rfl
  | markReady => exact (show w' = _ from h) ▸ .ready rfl
  | store _ op =>
    cases op with
    | loadProgress => exact h.1 ▸ .same
    | saveProgress =>
      rcases h with ⟨rfl,-⟩ | rfl
      · exact .same
      · exact .saved rfl
    | deleteProgress =>
      rcases h with ⟨rfl,-⟩ | rfl
      · exact .same
      · exact .dropped
    | deleteWhere | delete =>
      rcases h with rfl | ⟨-,h⟩
      · exact .same
      · exact .shrunk h
    | _ => exact (show w' = w from h) ▸ .same

theorem grown_outcome {op : RegistryOp V} {x : RegistryAns op} (h : MigrateOutcome op w x w') :
    Grown w w' := by
  have same {v} (hv : v.completed = w.completed) : Grown w v := by
    intro _ _ hc
    rw [hv]
    exact hc
  cases change_of_outcome h with
  | same | pending | ready => exact same rfl
  | saved | dropped => exact grown_record
  | shrunk hs => exact same hs.2.1

structure Drawn (codec : KeyCodec) (scope : String) (steps : List (Owner × PreparedStep V))
    (planned : List (Planned V)) (w : MigrateWorld) : Prop where
  steps : (planned.map fun entry => (entry.owner,entry.step)) = steps
  keys : ∀ entry ∈ planned, keyOf codec entry.owner entry.step = .ok entry.key
  done : ∀ entry ∈ planned, entry.done = true → w.completed scope entry.key = true

theorem Drawn.grown {steps : List (Owner × PreparedStep V)} {planned : List (Planned V)}
    (h : Drawn codec scope steps planned w) (hg : Grown w w') :
    Drawn codec scope steps planned w' :=
  ⟨h.steps,h.keys,fun entry hm hd => hg _ _ (h.done entry hm hd)⟩

theorem safe_plan :
    ∀ (steps : List (Owner × PreparedStep V)) {w : MigrateWorld},
    Ensures (storeLogic scope) (Drawn codec scope steps) (fun _ _ => True)
      (plan codec steps) w := by
  intro steps
  induction steps with
  | nil => exact fun {w} => safe_ok (fun _ _ hg h => h.grown hg) ⟨rfl,nofun,nofun⟩
  | cons _ _ ih =>
    intro w
    refine safe_ofExcept (fun key hkey => ?_) fun _ _ _ _ => trivial
    refine safe_try (Q := fun progress w => progress.any (fun p => p.done) →
      w.completed scope key) ?_ fun progress w hp => ?_
    · refine fun v _ => ⟨trivial,fun x _ hx => ?_⟩
      obtain ⟨hrec,rfl,⟨e,rfl⟩ | rfl⟩ := hx
      · exact fun _ _ => trivial
      refine safe_ok (fun _ _ hg h hd => hg scope key (h hd)) fun hd => ?_
      obtain ⟨p,hp,hd⟩ := (Option.any_eq_true _ _).1 hd
      exact hrec scope key p hp hd
    · refine safe_try (safe_frame (I := fun w => progress.any (fun p => p.done) →
        w.completed scope key) ?_ ?_ ih hp) fun _ w hw => ?_
      · exact fun _ _ hg h hd => hg scope key (h hd)
      · exact fun _ _ _ _ ho h hd => grown_outcome ho.2 scope key (h hd)
      obtain ⟨hrest,hp⟩ := hw
      refine safe_ok (fun _ _ hg h => h.grown hg) ⟨by simp [hrest.steps],?_,?_⟩
      · exact forall_mem_cons.2 ⟨hkey,hrest.keys⟩
      · exact forall_mem_cons.2 ⟨hp,hrest.done⟩

theorem safe_within {α : Type} {Q} {task : StoreTask V α}
    (h : Safe (storeLogic scope) Q task.run w) :
    Safe (registryLogic codec registry) Q (within scope task).run w := by
  refine safe_mono (fun _ _ h => h.1) (safe_embed id ?_ ?_ ?_ (fun _ _ _ _ => trivial) h trivial)
  · exact fun _ _ h => h
  · exact fun _ _ h => h
  · exact fun _ _ _ _ _ h => ⟨h,fun _ => trivial⟩

def Settled (scope : String) (passed rest : List (Planned V)) (w : MigrateWorld) : Prop :=
  ∀ entry ∈ passed++rest, entry ∈ passed ∨ entry.done = true → w.completed scope entry.key = true

theorem Settled.grown (h : Settled scope passed rest w) (hg : Grown w w') :
    Settled scope passed rest w' :=
  fun entry hm hor => hg _ _ (h entry hm hor)

section

variable (h : Settled scope passed (entry :: rest) w) (hc : w.completed scope entry.key = true)

include h hc

theorem Settled.pass : Settled scope (passed++[entry]) rest w := by
  intro other hmem hor
  by_cases he : other = entry
  · exact he ▸ hc
  · refine h other (by simpa using hmem) (hor.imp_left fun hp => ?_)
    simpa [he] using hp

theorem Settled.item
    (hkeys : ∀ other ∈ passed++entry :: rest, keyOf codec other.owner other.step = .ok other.key)
    (hleft : ¬ (remaining rest).contains entry.step.item) :
    ∀ other ∈ passed++entry :: rest, other.step.item = entry.step.item →
    Done codec w scope (other.owner,other.step) := by
  intro other hm hitem
  refine ⟨other.key,hkeys other hm,?_⟩
  rcases mem_append.1 hm with hp | hp
  · exact h other hm (.inl hp)
  rcases mem_cons.1 hp with rfl | hp
  · exact hc
  refine h other hm (.inr ?_)
  by_contra hnd
  refine hleft (contains_iff_mem.2 ?_)
  exact mem_map.2 ⟨other,mem_filter.2 ⟨hp,by simp [hnd]⟩,hitem⟩

end

variable [DecidableEq V] {rules : Rules D} {call : MigrateCall}

theorem safe_runBody :
    Ensures (storeLogic scope) (fun _ w => w.completed scope entry.key) (fun _ _ => True)
      (runBody codec rules registry call entry) w := by
  unfold runBody
  split
  · refine safe_try safe_any fun _ w _ => safe_try safe_any fun progress w _ => ?_
    unfold StepRun.finish
    split
    · exact safe_try safe_any fun _ w _ => safe_saveDone rfl
    · exact safe_saveDone rfl
  all_goals
    refine safe_try safe_any fun sources w _ => safe_try safe_any fun progress w _ => ?_
    exact safe_saveDone rfl

theorem safe_runPlan :
    ∀ (rest passed : List (Planned V)) (report : MigrationReport) {w : MigrateWorld},
    ((passed++rest).map fun entry => (entry.owner,entry.step)) = registry.steps →
    (∀ entry ∈ passed++rest, keyOf codec entry.owner entry.step = .ok entry.key) →
    Settled call.scope passed rest w →
    Ensures (registryLogic codec registry) (fun _ _ => True) (fun _ _ => True)
      (runPlan codec rules registry call rest report) w := by
  intro rest
  induction rest with
  | nil => exact fun _ _ _ _ _ _ => safe_ok (fun _ _ _ h => h) trivial
  | cons entry rest ih =>
    intro passed report w hsteps hkeys hw
    have hcons : passed++entry :: rest = (passed++[entry])++rest := by simp
    have next {report} {w}
        (h : Settled call.scope passed (entry :: rest) w)
        (hc : w.completed call.scope entry.key) :=
      ih (passed++[entry]) report (hcons ▸ hsteps) (hcons ▸ hkeys) (h.pass hc)
    rw [runPlan]
    split
    next hd => exact next hw (hw entry (by simp) (.inr hd))
    · refine safe_try (safe_frame ?_ ?_ (safe_within safe_runBody) hw) fun _ w hw => ?_
      · exact fun _ _ hg h => h.grown hg
      · exact fun _ _ _ _ ho h => h.grown (grown_outcome ho.2)
      dsimp only
      split
      · exact next hw.2 hw.1
      next hleft =>
        refine safe_lift (P := fun w => w.completed call.scope entry.key ∧
          Settled call.scope passed (entry :: rest) w) ?_ hw ?_ ?_
        · exact fun _ _ hg h => ⟨hg _ _ h.1,h.2.grown hg⟩
        · intro v h _ hother hitem
          rw [← hsteps] at hother
          obtain ⟨planned,hm,rfl⟩ := mem_map.1 hother
          exact h.2.item h.1 hkeys hleft planned hm hitem
        · intro v x _ h ho
          have hg := grown_outcome ho.2
          exact next (h.2.grown hg) (hg _ _ h.1)

theorem safe_migrate :
    Ensures (registryLogic codec registry) (fun _ _ => True) (fun _ _ => True)
      (migrate codec rules registry call) w := by
  unfold migrate
  split
  · exact fun _ _ => trivial
  refine safe_try (safe_within safe_any) fun _ w _ => ?_
  refine safe_try (safe_within (safe_plan registry.steps)) fun planned w hw => ?_
  refine safe_lift (fun _ _ hg h => h.grown hg) hw ?_ ?_
  · intro v h _ hother hitem
    rw [← h.steps] at hother
    obtain ⟨entry,hm,rfl⟩ := mem_map.1 hother
    refine ⟨entry.key,h.keys entry hm,h.done entry hm ?_⟩
    by_contra hnd
    refine hitem (mem_dedup.2 ?_)
    exact mem_map.2 ⟨entry,mem_filter.2 ⟨hm,by simp [hnd]⟩,rfl⟩
  · intro v x _ h ho
    have h := h.grown (grown_outcome ho.2)
    refine safe_runPlan planned [] {} h.steps h.keys ?_
    rintro entry hm (hp | hd)
    · cases hp
    · exact h.done entry hm hd

end

section

variable {V D : Type} {codec : KeyCodec} {registry : PreparedRegistry V D} {w : MigrateWorld}

def Opened (codec : KeyCodec) (registry : PreparedRegistry V D) (w : MigrateWorld) : Prop :=
  ∀ scope items, w.pending scope = some items → ∀ entry ∈ registry.steps,
    entry.2.item ∉ items → Done codec w scope entry

variable {w' : MigrateWorld} {entry : Owner × PreparedStep V} {op : RegistryOp V}
  {scope key : String} {x : RegistryAns op}

theorem recalled_record {progress} (h : Recalled w) : Recalled (w.record scope key progress) := by
  intro other found p hp hd
  by_cases hs : other = scope
  · subst hs
    by_cases hk : found = key
    · subst hk
      have hp : progress = some p := by simpa [MigrateWorld.record] using hp
      subst hp
      exact completed_record hd
    · refine grown_record other found (h other found p ?_ hd)
      simpa [MigrateWorld.record,update_of_ne hk] using hp
  · refine grown_record other found (h other found p ?_ hd)
    simpa [MigrateWorld.record,update_of_ne hs] using hp

theorem recalled_outcome (h : Recalled w) (ho : MigrateOutcome op w x w') : Recalled w' := by
  cases change_of_outcome ho with
  | same | pending | ready => exact h
  | saved | dropped => exact recalled_record h
  | @shrunk scope _ hs =>
    obtain ⟨-,hc,hother,hkey⟩ := hs
    intro other key p hp hd
    rw [hc]
    by_cases hs : other = scope
    · subst hs
      rcases hkey key with he | he
      · exact h other key p (he ▸ hp) hd
      · simp [he] at hp
    · exact h other key p (hother other hs ▸ hp) hd

theorem Opened.same (h : Opened codec registry w) (hp : w'.pending = w.pending) (hg : Grown w w') :
    Opened codec registry w' := by
  intro scope items hs entry hentry hitem
  exact (h scope items (hp ▸ hs) entry hentry hitem).grown hg

theorem opened_outcome (h : Opened codec registry w) (hg : (registryLogic codec registry).guar op w)
    (ho : MigrateOutcome op w x w') : Opened codec registry w' := by
  have hgrown := grown_outcome ho
  cases change_of_outcome ho with
  | same => exact h
  | saved | dropped => exact h.same rfl hgrown
  | shrunk hs => exact h.same hs.1 hgrown
  | @pending scope items hop =>
    subst hop
    intro other found hs entry hentry hitem
    by_cases ho : other = scope
    · subst ho
      obtain rfl : items = found := by simpa [MigrateWorld.setPending] using hs
      exact (hg entry hentry hitem).grown hgrown
    · refine (h other found ?_ entry hentry hitem).grown hgrown
      simpa [MigrateWorld.setPending,update_of_ne ho] using hs
  | @ready scope item hop =>
    subst hop
    intro other found hs entry hentry hitem
    by_cases ho : other = scope
    · subst ho
      obtain ⟨items,hi,rfl⟩ : ∃ items, w.pending other = some items ∧
          (items.filter fun name => name ≠ item) = found := by
        simpa [MigrateWorld.markReady] using hs
      by_cases he : entry.2.item = item
      · exact (hg entry hentry he).grown hgrown
      · refine (h other items hi entry hentry fun hm => hitem ?_).grown hgrown
        exact mem_filter.2 ⟨hm,decide_eq_true he⟩
    · refine (h other found ?_ entry hentry hitem).grown hgrown
      simpa [MigrateWorld.markReady,update_of_ne ho] using hs

theorem completed_of_record {other found : String} {progress}
    (hc : (w.record other found progress).completed scope key) :
    w.completed scope key ∨ scope = other ∧ key = found ∧ ∃ p, progress = some p ∧ p.done := by
  by_cases hs : scope = other
  · subst hs
    by_cases hk : key = found
    · subst hk
      simpa [MigrateWorld.record,Option.any_eq_true] using hc
    · exact .inl (by simpa [MigrateWorld.record,update_of_ne hk] using hc)
  · exact .inl (by simpa [MigrateWorld.record,update_of_ne hs] using hc)

theorem completed_outcome (ho : MigrateOutcome op w x w') (h : w'.completed scope key) :
    w.completed scope key ∨ ∃ progress, op = .store scope (.saveProgress key progress) ∧
    progress.done ∧ w'.progress scope key = some progress := by
  cases change_of_outcome ho with
  | same | pending | ready => exact .inl h
  | saved hop =>
    rcases completed_of_record h with h | ⟨rfl,rfl,p,⟨⟩,hd⟩
    · exact .inl h
    · exact .inr ⟨_,hop,hd,by simp [MigrateWorld.record]⟩
  | dropped =>
    rcases completed_of_record h with h | ⟨-,-,p,⟨⟩,-⟩
    exact .inl h
  | shrunk hs => exact .inl (hs.2.1 ▸ h)

theorem stepKey_identifies (law : codec.Lawful) {other} (he : entry ∈ registry.steps)
    (ho : other ∈ registry.steps) (hk : keyOf codec entry.1 entry.2 = .ok key)
    (hk' : keyOf codec other.1 other.2 = .ok key) : entry = other := by
  obtain ⟨schema,hs,he⟩ := mem_flatMap.1 he
  obtain ⟨step,ht,rfl⟩ := mem_map.1 he
  obtain ⟨schema',hs',ho⟩ := mem_flatMap.1 ho
  obtain ⟨step',ht',rfl⟩ := mem_map.1 ho
  have key_eq {owner : Owner} {step : PreparedStep V} (hk : keyOf codec owner step = .ok key) :
      compositeKey codec [owner.name,step.item,step.id] = .ok key := by
    unfold keyOf stepKey at hk
    cases h : compositeKey codec [owner.name,step.item,step.id] with
    | ok =>
      rw [h] at hk
      cases hk
      rfl
    | error =>
      rw [h] at hk
      cases hk
  have hparts := compositeKey_cons_inj law (key_eq hk) (key_eq hk')
  simp only [List.cons.injEq,and_true] at hparts
  obtain ⟨howner,hitem,hid⟩ := hparts
  obtain rfl : schema = schema' :=
    inj_on_of_nodup_map registry.sound.owners hs hs' howner
  obtain rfl : step = step' :=
    inj_on_of_nodup_map (registry.sound.each schema hs).ids ht ht' (by simp [hitem,hid])
  rfl

theorem stepped_of_steps (h : entry ∈ registry.steps) : registry.stepped.contains entry.2.item := by
  obtain ⟨schema,hs,he⟩ := mem_flatMap.1 h
  obtain ⟨step,ht,rfl⟩ := mem_map.1 he
  exact contains_iff_mem.2 (mem_flatMap.2 ⟨schema,hs,mem_map.2 ⟨step,ht,rfl⟩⟩)

theorem done_of_ready {item : String} (h : Opened codec registry w)
    (hready : registry.checkReadyIn w.pending scope item = .ok ()) (hentry : entry ∈ registry.steps)
    (hitem : entry.2.item = item) : Done codec w scope entry := by
  subst hitem
  obtain ⟨_,-,hready⟩ := ok_of_bind hready
  rw [stepped_of_steps hentry] at hready
  simp only [Bool.not_true,Bool.false_eq_true,if_false] at hready
  split at hready
  next hany =>
    obtain ⟨items,hp,hn⟩ := (Option.any_eq_true _ _).1 hany
    exact h scope items hp entry hentry (by simpa using hn)
  · cases hready

theorem schemas_of_compose {rules : Rules D} {schemas} (h : compose rules schemas = .ok registry) :
    registry.schemas = schemas := by
  unfold compose at h
  split at h
  · cases h
  · dsimp only at h
    split at h
    · cases h
    · cases h
      rfl

variable [DecidableEq V] {rules : Rules D}

theorem migrators_contract :
    (migrators codec rules registry).Contract (fun _ => True)
      (fun w => Recalled w ∧ Opened codec registry w) (fun _ => registryLogic codec registry)
      fun _ _ _ _ => True where
  outcome := fun _ _ _ _ _ h ho => ⟨h.1,ho⟩
  opens := fun _ _ _ _ _ => ⟨trivial,safe_mono (fun _ _ _ => trivial) safe_migrate⟩
  keeps := fun _ _ _ _ _ h hg ho => ⟨recalled_outcome h.1 ho,opened_outcome h.2 hg ho⟩
  frame := fun _ _ _ _ _ _ _ _ _ _ _ ho => grown_outcome ho
  env_keeps := fun _ _ h he => (show _ = _ from he) ▸ h
  env_frame := fun _ _ _ _ he => (show _ = _ from he) ▸ fun _ _ h => h

def restarted (progress : String → String → Option Progress) : MigrateWorld where
  progress := progress
  pending := fun _ => none
  completed := fun scope key => (progress scope key).any fun p => p.done

def Finishes (scope key : String) (m : MigrateMoment V) : Prop :=
  ∃ progress, m.op = some (.store scope (.saveProgress key progress)) ∧ progress.done = true ∧
    m.after.progress scope key = some progress

theorem finished_of_completed {c d} {ms} (h : (migrators codec rules registry).Run c ms d)
    (hc : d.world.completed scope key) :
    c.world.completed scope key ∨ ∃ m ∈ ms, Finishes scope key m := by
  refine h.history (P := fun ns w => w.completed scope key →
    c.world.completed scope key ∨ ∃ m ∈ ns, Finishes scope key m) .inl ?_ hc
  intro ns m hm ih hafter
  have before (hb : m.before.completed scope key) :
      c.world.completed scope key ∨ ∃ k ∈ ns++[m], Finishes scope key k := by
    rcases ih hb with h0 | ⟨k,hk,hf⟩
    · exact .inl h0
    · exact .inr ⟨k,mem_append_left _ hk,hf⟩
  cases hop : m.op with
  | some op =>
    obtain ⟨i,call,x,he⟩ := Moment.did_of_op hop
    rcases completed_outcome (h.outcome m hm i call op x he) hafter with hb | ⟨p,rfl,hp⟩
    · exact before hb
    · exact .inr ⟨m,by simp,p,hop,hp⟩
  | none =>
    refine before (h.still (fun _ _ he => he.symm) m hm (fun i call op x he => ?_) ▸ hafter)
    rw [Moment.op_eq he] at hop
    cases hop

theorem ready_items_are_migrated (law : codec.Lawful) {schemas : List (PreparedSchema V D)}
    (hreg : compose rules schemas = .ok registry) :
    registry.schemas = schemas ∧ Sound schemas ∧
    (∀ entry ∈ registry.steps, ∀ other ∈ registry.steps, ∀ key,
      keyOf codec entry.1 entry.2 = .ok key → keyOf codec other.1 other.2 = .ok key →
      entry = other) ∧
    ∀ (progress : String → String → Option Progress) (ms : List (MigrateMoment V))
      (c : MigrateConfig V),
    (migrators codec rules registry).Run (.idle (restarted progress)) ms c → ∀ scope item,
    registry.checkReadyIn c.world.pending scope item = .ok () → ∀ entry ∈ registry.steps,
    entry.2.item = item → ∃ key, keyOf codec entry.1 entry.2 = .ok key ∧
    ((∃ p, progress scope key = some p ∧ p.done = true) ∨ ∃ m ∈ ms, Finishes scope key m) := by
  have hschemas := schemas_of_compose hreg
  refine ⟨hschemas,hschemas ▸ registry.sound,?_,?_⟩
  · exact fun entry he other ho key hk hk' => stepKey_identifies law he ho hk hk'
  intro progress _ c hrun scope _ hready _ hentry hitem
  have hstart : Recalled (restarted progress) ∧ Opened codec registry (restarted progress) := by
    refine ⟨fun scope key p hp hd => ?_,nofun⟩
    simp [restarted,show progress scope key = some p from hp,hd]
  have hinv := (hrun.sound migrators_contract (Machine.sound_idle hstart)).1.1
  obtain ⟨key,hkey,hc⟩ := done_of_ready hinv.2 hready hentry hitem
  refine ⟨key,hkey,(finished_of_completed hrun hc).imp_left fun h => ?_⟩
  exact (Option.any_eq_true _ _).1 h

end

def anyName : Rules Unit where
  validateCollection := fun _ => .ok ()
  validateSpec := fun _ => .ok ()
  validateStream := fun _ => .ok ()
  maxCollectionLen := 64
  sealedBlobPath := "tsd/"

def notesStep (id : String) (version : Nat) : PreparedStep Nat where
  id := id
  item := "app.notes"
  fromVersion := version
  toVersion := version+1
  source := none
  run := .documents (.closure fun records => .ok (records.map fun r =>
    { collection := "app.notes", id := r.id, body := r.body+1 }))

def notes : List (PreparedSchema Nat Unit) :=
  [{ owner := ⟨"app",by decide,by decide⟩
     items := [.collection "app.notes" 3 ⟨"app.notes",()⟩]
     steps := [notesStep "a" 1,notesStep "b" 2] }]

theorem notes_accepted : ∃ sound, compose anyName notes = .ok ⟨notes,sound⟩ := by
  have hok : (compose anyName notes).toBool := by decide +kernel
  cases h : compose anyName notes with
  | error =>
    rw [h] at hok
    cases hok
  | ok registry =>
    obtain ⟨schemas,sound⟩ := registry
    obtain rfl : schemas = notes := schemas_of_compose h
    exact ⟨sound,rfl⟩

def notesRegistry : PreparedRegistry Nat Unit := ⟨notes,notes_accepted.choose⟩

def blankStore : Driver (RegistryOp Nat) RegistryAns MigrateWorld where
  perform := fun _ op w =>
    match op with
    | .store scope (.loadProgress key) => some (.ok (w.progress scope key),w)
    | .store scope (.saveProgress key progress) =>
      some (.ok (),w.record scope key (some progress))
    | .store _ (.ensureCollection _) => some (.ok (),w)
    | .store _ (.query _ _ _ _) => some (.ok ⟨[⟨"n",7,1,⟨1,0,none⟩⟩],none⟩,w)
    | .store _ (.putWith _ _ _ _ _ _ _) => some (.ok (),w)
    | .store _ (.iterate ids) => some (ids,w)
    | .setPending scope items => some ((),w.setPending scope items)
    | .markReady scope item => some ((),w.markReady scope item)
    | _ => none
  refuse := fun
    | .store _ (.saveProgress _ _) => some (.error ⟨.unavailable,"down"⟩)
    | _ => none

theorem blankStore_fits : blankStore.Fits (migrators nibbles anyName notesRegistry) where
  perform := by
    intro i _ w x _ h
    unfold blankStore at h
    dsimp only at h
    split at h <;> cases h
    · exact ⟨rfl,.inr rfl⟩
    · exact .inr rfl
    all_goals rfl
  refuse := by
    intro i _ w x h
    unfold blankStore at h
    dsimp only at h
    split at h <;> cases h
    exact .inl ⟨rfl,_,rfl⟩

def moves (m : MigrateMoment Nat) : Bool :=
  match m.op with
  | some (.store _ (.putWith collection _ id body _ _ _)) =>
    collection == "app.notes" && id == "n" && body == 8
  | _ => false

theorem ready_items_are_migrated_resumed :
    compose anyName notes = .ok notesRegistry ∧
    ∃ ms c, (migrators nibbles anyName notesRegistry).Run (.idle (restarted fun _ _ => none)) ms c ∧
    notesRegistry.checkReadyIn c.world.pending "user" "app.notes" = .ok () ∧ ms.any moves ∧
    ∀ entry ∈ notesRegistry.steps, ∃ key, keyOf nibbles entry.1 entry.2 = .ok key ∧
    ∃ m ∈ ms, Finishes "user" key m := by
  have hreg : compose anyName notes = .ok notesRegistry := notes_accepted.choose_spec
  obtain ⟨ms,c,hrun,hready,hmoved⟩ := Driver.drive_any blankStore_fits
    [.start 0 ⟨"user",100,true,2⟩,.act 0 8,.fail 0,.complete 0 1,.start 0 ⟨"user",100,true,2⟩,
      .complete 0 20] (.idle (restarted fun _ _ => none))
    (fun ms c => notesRegistry.checkReadyIn c.world.pending "user" "app.notes" = .ok () ∧
      ms.any moves)
    (by decide +kernel)
  refine ⟨hreg,ms,c,hrun,hready,hmoved,fun entry hentry => ?_⟩
  have hitem : entry.2.item = "app.notes" := by
    have hsteps : notesRegistry.steps =
        [(⟨"app",by decide,by decide⟩,notesStep "a" 1),
          (⟨"app",by decide,by decide⟩,notesStep "b" 2)] := rfl
    rw [hsteps] at hentry
    rcases mem_cons.1 hentry with rfl | hentry
    · rfl
    · rw [mem_singleton.1 hentry]
      rfl
  obtain ⟨-,-,-,hdone⟩ := ready_items_are_migrated nibbles_lawful hreg
  obtain ⟨key,hkey,⟨p,hp,-⟩ | hfin⟩ := hdone _ ms c hrun _ _ hready entry hentry hitem
  · cases hp
  · exact ⟨key,hkey,hfin⟩

end Schemas

end StorageKit
