import TinyAgents.Orchestration.SubagentRequests

namespace Orchestration

open Interaction Option

namespace SubagentDriver

section

variable {H X : Type} {w w' : DriverWorld H X} {i j : Nat} {key : SubagentTaskKey}

def shared : Nat → Nat := fun _ => 0

def Tidy (w : DriverWorld H X) : Prop :=
  ∀ key, w.flights 0 key = none → w.leads 0 key = none

def Leads (i : Nat) (key : SubagentTaskKey) (w : DriverWorld H X) : Prop :=
  w.leads 0 key = some i

def Opened (i : Nat) (key : SubagentTaskKey) (w : DriverWorld H X) : Prop :=
  Leads i key w ∧ (w.records key).terminal = none

structure Rely (i : Nat) (w w' : DriverWorld H X) : Prop where
  leads : ∀ key, Leads i key w → Leads i key w'
  terminal : ∀ key, Leads i key w → (w'.records key).terminal = (w.records key).terminal
  caches : ∀ driver key, (w.caches driver key).isSome → (w'.caches driver key).isSome

def Guar (i : Nat) (op : DriverOp H X) (w : DriverWorld H X) : Prop :=
  match op with
  | .savePause pause => Leads i pause.key w
  | .recordTerminal key _ _ => Leads i key w
  | .retire _ key _ => Leads i key w
  | .execute key _ => (w.records key).terminal = none
  | _ => True

def Informed (op : DriverOp H X) (w : DriverWorld H X) : Prop :=
  match op with
  | .claim driver key => w.flights 0 key = none → (w.records key).terminal.isSome →
      (w.caches driver key).isSome
  | _ => True

def logic [DecidableEq H] (i : Nat) : Logic (DriverOp H X) DriverAns (DriverWorld H X) where
  outcome := fun op w x w' => DriverOutcome shared i op w x w' ∧ Informed op w
  rely := Rely i
  guar := Guar i
  rely_refl := fun _ => ⟨fun _ h => h,fun _ _ => rfl,fun _ _ h => h⟩
  rely_trans := fun _ _ _ h k => ⟨fun key hl => k.leads key (h.leads key hl),
    fun key hl => (k.terminal key (h.leads key hl)).trans (h.terminal key hl),
    fun driver key hs => k.caches driver key (h.caches driver key hs)⟩

theorem stable_leads [DecidableEq H] : Stable (logic (X := X) i) (Leads (H := H) i key) :=
  fun _ _ hr hl => hr.leads key hl

theorem stable_opened [DecidableEq H] : Stable (logic (X := X) i) (Opened (H := H) i key) :=
  fun _ _ hr h => ⟨hr.leads key h.1,(hr.terminal key h.1).trans h.2⟩

variable {entry leader : Option Nat}

theorem leads_register {k} :
    (w.register 0 key entry leader).leads 0 k = if k = key then leader else w.leads 0 k := by
  simp [DriverWorld.register,updateAt_apply]

theorem flights_register {k} :
    (w.register 0 key entry leader).flights 0 k = if k = key then entry else w.flights 0 k := by
  simp [DriverWorld.register,updateAt_apply]

theorem tidy_register (h : Tidy w) (he : entry = none → leader = none) :
    Tidy (w.register 0 key entry leader) := by
  intro k hk
  rw [flights_register] at hk
  rw [leads_register]
  split
  next hc =>
    rw [if_pos hc] at hk
    exact he hk
  next hc =>
    rw [if_neg hc] at hk
    exact h k hk

theorem rely_register (h : ¬ Leads i key w) : Rely i w (w.register 0 key entry leader) := by
  refine ⟨fun k hk => ?_,fun _ _ => rfl,fun _ _ hs => hs⟩
  rw [Leads,leads_register,if_neg]
  · exact hk
  · rintro rfl
    exact h hk

theorem rely_store {next} (h : ¬ Leads i key w) : Rely i w (w.store key next) := by
  refine ⟨fun _ hk => hk,fun k hk => ?_,fun _ _ hs => hs⟩
  have hne : k ≠ key := by
    rintro rfl
    exact h hk
  simp [DriverWorld.store,hne]

variable [DecidableEq H]

theorem tidy_of_effect {op} (h : Tidy w) (he : Effect shared i w op w') : Tidy w' := by
  cases he with
  | same _ _ hf hl =>
    intro k hk
    rw [hf] at hk
    rw [hl]
    exact h k hk
  | cache | save | close => exact h
  | claim => exact tidy_register h nofun
  | retire => exact tidy_register h fun _ => rfl

theorem rely_of_effect {op} (ht : Tidy w) (hij : i ≠ j) (hg : Guar j op w)
    (he : Effect shared j w op w') : Rely i w w' := by
  have other {key} (hl : Leads j key w) : ¬ Leads i key w :=
    fun hk => hij (Option.some.inj (hk.symm.trans hl))
  cases he with
  | same hr hc _ hl =>
    refine ⟨fun k hk => ?_,fun k _ => by rw [hr],fun driver k hs => by rw [hc]; exact hs⟩
    rw [Leads,hl]
    exact hk
  | @cache driver key outcome =>
    refine ⟨fun _ hk => hk,fun _ _ => rfl,fun d k hs => ?_⟩
    simp only [DriverWorld.cached,updateAt_apply]
    split
    · rfl
    · exact hs
  | save | close => exact rely_store (other hg)
  | @claim driver key hfree =>
    have hr : Rely i w (w.register 0 key (some w.fresh) (some j)) :=
      rely_register fun hk => nomatch (ht _ hfree).symm.trans hk
    exact ⟨hr.leads,hr.terminal,hr.caches⟩
  | retire => exact rely_register (other hg)

end

section

variable {H X α : Type} [DecidableEq H] {i : Nat} {key : SubagentTaskKey} {w : DriverWorld H X}
  {op : DriverOp H X} {p : DriverTask H X α} {w' : DriverWorld H X}
  {expectedPause : Option (SubagentResume H)} {call : RunCall H}

theorem leads_of_effect (hop : ∀ d k, op ≠ .claim d k) (hop' : ∀ d k e, op ≠ .retire d k e)
    (he : Effect shared i w op w') (hw : Leads i key w) : Leads i key w' := by
  cases he with
  | same _ _ _ hl =>
    rw [Leads,hl]
    exact hw
  | cache | save | close => exact hw
  | claim => exact (hop _ _ rfl).elim
  | retire => exact (hop' _ _ _ rfl).elim

theorem opened_of_quiet (hop : Quiet key op) (he : Effect shared i w op w') (hw : Opened i key w) :
    Opened i key w' := by
  refine ⟨leads_of_effect ?_ ?_ he hw.1,?_⟩
  · rintro d k rfl
    exact hop
  · rintro d k e rfl
    exact hop
  cases he with
  | same hr => rw [hr]; exact hw.2
  | cache => exact hw.2
  | save | close | claim | retire => exact hop.elim

theorem safe_quiet (hp : Asks (Quiet key) p.run) (hw : Opened i key w) :
    Ensures (logic i) (fun _ => Opened i key) (fun _ => Leads i key) p w := by
  have h : Safe (logic i) (fun _ => Opened i key) p.run w := by
    refine safe_of_asks (fun w v hw hr => stable_opened w v hr hw) ?_ hp hw
    intro op v hop hv
    refine ⟨?_,fun x _ ho => opened_of_quiet hop (effect_of_outcome ho.1) hv⟩
    cases op <;> first | exact hop.elim | trivial | skip
    obtain rfl := hop
    exact hv.2
  refine safe_mono ?_ h
  rintro (e | a) v hv
  · exact hv.1
  · exact hv

theorem safe_closing (hp : Asks (Closing key) p.run) (hw : Leads i key w) :
    Safe (logic i) (fun _ => Leads i key) p.run w := by
  refine safe_of_asks (fun w v hw hr => stable_leads w v hr hw) ?_ hp hw
  intro op v hop hv
  refine ⟨?_,fun x _ ho => leads_of_effect ?_ ?_ (effect_of_outcome ho.1) hv⟩
  · cases op <;> first | exact hop.elim | trivial | skip
    all_goals
      obtain rfl := hop
      exact hv
  · rintro d k rfl
    exact hop
  · rintro d k e rfl
    exact hop

theorem safe_harmless (hp : Asks Harmless p.run) : Safe (logic i) (fun _ _ => True) p.run w := by
  refine safe_of_asks (fun _ _ _ _ => trivial) ?_ hp trivial
  intro op v hop _
  refine ⟨?_,fun _ _ _ => trivial⟩
  cases op <;> first | exact hop.elim | trivial

theorem safe_settled (hp : Asks (Closing key) p.run) (hw : Leads i key w) :
    Maintains (logic i) (Leads i key) p w := by
  refine safe_mono ?_ (safe_closing hp hw)
  rintro (e | a) v hv
  all_goals exact hv

variable [Inhabited X]

theorem safe_launch {driver : Nat} {prepared} {origin} (hw : Opened i key w) :
    Maintains (logic i) (Leads i key)
      (launch (X := X) driver key expectedPause origin prepared) w := by
  refine safe_try (safe_quiet (asks_attempts quiet_of_harmless (fun _ => rfl) _ 0) hw) ?_
  intro executed v hv
  cases executed with
  | fenceLost => exact safe_error stable_leads hv.1
  | ended result =>
    refine safe_try (safe_quiet (asks_ensureFence trivial) hv) fun _ v hv => ?_
    refine safe_try (safe_quiet (asks_conclude result) hv) ?_
    exact fun _ v hv => safe_settled asks_settle hv.1

theorem safe_cancelNow {driver : Nat} {origin} (hw : Leads i key w) :
    Maintains (logic i) (Leads i key) (cancelNow (X := X) driver key expectedPause origin) w :=
  safe_settled asks_cancelNow hw

theorem safe_plan (hw : Opened i call.key w) :
    Maintains (logic i) (Leads i call.key) (plan (X := X) call expectedPause) w := by
  refine safe_try (safe_quiet ⟨trivial,fun _ => trivial⟩ hw) fun _ v hv => ?_
  refine safe_try (safe_quiet (asks_ensureFence trivial) hv) fun _ v hv => ?_
  refine safe_try (safe_quiet (asks_fenced trivial ⟨trivial,fun _ => trivial⟩) hv) ?_
  intro _ v hv
  split
  · exact safe_error stable_leads hv.1
  refine safe_try (safe_quiet (asks_mono quiet_of_harmless asks_completionOrigin) hv) ?_
  intro _ v hv
  refine safe_try (safe_quiet (asks_ensureFence trivial) hv) fun _ v hv => ?_
  refine safe_try (safe_quiet (asks_ask trivial) hv) fun cancelled v hv => ?_
  cases cancelled with
  | true => exact safe_cancelNow hv.1
  | false => exact safe_launch hv

theorem safe_runReserved (hw : Opened i call.key w) :
    Maintains (logic i) (Leads i call.key) (runReserved (X := X) call) w := by
  refine safe_try (safe_quiet (asks_ensureFence trivial) hw) fun _ v hv => ?_
  refine safe_try (safe_quiet (asks_ask trivial) hv) fun cancelled v hv => ?_
  cases cancelled with
  | true => exact safe_cancelNow hv.1
  | false =>
    refine safe_try (safe_quiet (asks_mono quiet_of_harmless asks_expected) hv) fun _ v hv => ?_
    refine safe_try (safe_quiet (asks_ask trivial) hv) fun cancelled v hv => ?_
    cases cancelled with
    | true => exact safe_cancelNow hv.1
    | false => exact safe_plan hv

def Aware (i : Nat) (call : RunCall H) (w : DriverWorld H X) : Prop :=
  Leads i call.key w ∧
    ((w.records call.key).terminal.isSome → (w.caches call.driver call.key).isSome)

omit [Inhabited X] in
theorem stable_aware : Stable (logic (X := X) i) (Aware i call) := by
  rintro v _ hr ⟨hl,hc⟩
  refine ⟨hr.leads _ hl,fun ht => ?_⟩
  rw [hr.terminal _ hl] at ht
  exact hr.caches _ _ (hc ht)

omit [Inhabited X] in
theorem safe_fence (v : DriverWorld H X) (_ : Aware i call v) :
    (logic (X := X) i).guar .fence v ∧ ∀ x v', (logic i).outcome .fence v x v' → v' = v :=
  ⟨trivial,fun _ _ ho => ho.1⟩

def Rechecked (i : Nat) (key : SubagentTaskKey) (cached : Option (SubagentOutcome H X))
    (w : DriverWorld H X) : Prop :=
  Leads i key w ∧ (cached = none → Opened i key w)

omit [Inhabited X] in
theorem safe_recheck (hw : Aware i call w) :
    Ensures (logic i) (Rechecked i call.key) (fun _ => Leads i call.key)
      (fenced (ask (.cached call.driver call.key))) w := by
  have hensure : Ensures (logic i) (fun _ => Aware i call) (fun _ => Leads i call.key)
      (ensureFence) w := by
    intro v hr
    refine ⟨trivial,fun lost v' ho => ?_⟩
    obtain rfl : v' = v := ho.1
    have hv := stable_aware w _ hr hw
    cases lost with
    | true => exact safe_error stable_leads hv.1
    | false => exact safe_ok stable_aware hv
  refine safe_try hensure fun _ v hv => ?_
  have hstop (u : DriverWorld H X) (hu : Aware i call u) : Ends (Rechecked i call.key)
      (fun _ => Leads i call.key) (.error SubagentError.cancelled) u := hu.1
  refine safe_watched stable_aware safe_fence hstop ?_ hv ?_
  · refine asks_ask fun u x u' hu _ ho => ?_
    obtain rfl : u' = u := ho.1.2
    exact hu
  intro u hr
  refine ⟨trivial,fun cached u' ho => ?_⟩
  obtain ⟨rfl,rfl⟩ : cached = u.caches call.driver call.key ∧ u' = u := ho.1
  obtain ⟨hl,hc⟩ := stable_aware v _ hr hv
  refine safe_ok (stable_leads.and ?_) ⟨hl,fun hn => ⟨hl,?_⟩⟩
  · exact fun a b hab h hn => stable_opened a b hab (h hn)
  · rw [hn] at hc
    exact not_isSome_iff_eq_none.1 fun ht => nomatch hc ht

theorem safe_reserved (hw : Aware i call w) :
    Maintains (logic i) (Leads i call.key) (reserved (X := X) call) w := by
  refine safe_try (safe_recheck hw) fun cached v hv => ?_
  cases cached with
  | some => exact safe_ok stable_leads hv.1
  | none => exact safe_runReserved (hv.2 rfl)

theorem safe_lead {entry : Nat} (hw : Aware i call w) :
    Safe (logic i) (fun _ _ => True) (lead (X := X) call entry).run w := by
  refine safe_bind ?_ (safe_reserved hw)
  intro result v hv
  have hv : Leads i call.key v := by
    cases result with
    | ok | error => exact hv
  intro u hr
  refine ⟨trivial,fun _ u' ho => ?_⟩
  have hu' : Leads i call.key u' := by
    refine leads_of_effect ?_ ?_ (effect_of_outcome ho.1) (stable_leads v u hr hv)
    · exact fun _ _ h => nomatch h
    · exact fun _ _ _ h => nomatch h
  intro t ht
  exact ⟨stable_leads u' t ht hu',fun _ _ _ _ _ => trivial⟩

theorem safe_enter : Safe (logic i) (fun _ _ => True) (enter (X := X) call).run w := by
  intro v _
  refine ⟨trivial,fun _ _ ho => ?_⟩
  obtain ⟨ho,hinformed⟩ := ho
  simp only [DriverOutcome] at ho
  split at ho
  next hf =>
    obtain ⟨rfl,rfl⟩ := ho
    exact safe_harmless asks_follow
  next hf =>
    obtain ⟨rfl,rfl⟩ := ho
    refine safe_lead ⟨?_,hinformed hf⟩
    change (v.register 0 call.key (some v.fresh) (some i)).leads 0 call.key = some i
    rw [leads_register,if_pos rfl]

theorem safe_run : Safe (logic i) (fun _ _ => True) (run (X := X) call).run w := by
  have quiet {α : Type} {p}
      {f : α → DriverTask H X (SubagentRunResult H X)} {v : DriverWorld H X}
      (hp : Asks Harmless p.run)
      (hf : ∀ a v, Safe (logic i) (fun _ _ => True) (f a).run v) :
      Safe (logic i) (fun _ _ => True) (p >>= f).run v := by
    refine safe_bind (fun r v _ => ?_) (safe_harmless hp)
    cases r with
    | ok a => exact hf a v
    | error => exact fun _ _ => trivial
  refine quiet (asks_ensureFence trivial) fun _ v => ?_
  refine quiet (asks_fenced trivial (asks_ask trivial)) fun cached v => ?_
  cases cached with
  | some => exact fun _ _ => trivial
  | none =>
    refine quiet (asks_fenced trivial ⟨trivial,fun _ => trivial⟩) fun found v => ?_
    cases found with
    | none => exact safe_enter
    | some =>
      refine quiet (asks_fenced trivial (asks_ask trivial)) fun _ v => ?_
      exact fun _ _ => trivial

theorem contract :
    ((drivers (H := H) (X := X) shared).under Informed).Contract (fun _ => True) Tidy logic
      (fun _ _ _ _ => True) where
  outcome := fun _ _ _ _ _ _ ho => ho
  opens := fun _ _ _ _ _ => ⟨trivial,safe_run⟩
  keeps := fun _ _ _ _ _ hw _ ho => tidy_of_effect hw (effect_of_outcome ho.1)
  frame := fun _ _ _ _ _ _ _ _ hij hw hg ho =>
    rely_of_effect hw hij hg (effect_of_outcome ho.1)
  env_keeps := fun _ _ hw he => he ▸ hw
  env_frame := fun i w _ _ he => he ▸ (logic i).rely_refl w

omit [Inhabited X] in
theorem terminal_of_effect (he : Effect shared i w op w') (h : (w.records key).terminal.isSome) :
    w'.records key = w.records key := by
  have store {k} {next}
      (hn : k = key → next = none) : (w.store k next).records key = w.records key := by
    by_cases hk : key = k
    · subst hk
      simp [DriverWorld.store,hn rfl]
    · simp [DriverWorld.store,hk]
  cases he with
  | same hr => rw [hr]
  | save =>
    refine store ?_
    rintro rfl
    rw [LifecycleRecord.savePause,if_pos h]
  | close =>
    refine store ?_
    rintro rfl
    rw [LifecycleRecord.recordTerminal,if_pos h]
  | cache | claim | retire => rfl

theorem kept_closed {ms} {c} (h : ((drivers shared).under Informed).Run (.idle w) ms c)
    (hw : Tidy w) {m} (hm : m ∈ ms) (hclosed : (m.before.records key).terminal.isSome) :
    (m.after.records key).terminal.isSome := by
  have hk := (h.sound contract (Machine.sound_idle hw)).2 m hm
  have hsame := hk.within (r := fun v v' => (v.records key).terminal.isSome →
      v'.records key = v.records key) (fun _ _ => rfl)
    (fun _ _ _ _ _ _ ho => terminal_of_effect (effect_of_outcome ho.1)) (fun _ _ he _ => he ▸ rfl)
  rw [hsame hclosed]
  exact hclosed

theorem closed_tasks_stay_closed {ms : List (DriverMoment H X)} {c : DriverConfig H X}
    (h : (drivers shared).Run (.idle w) ms c) (hw : Tidy w)
    (hinformed : ∀ m ∈ ms, ∀ op ∈ m.op, Informed op m.before) :
    ∀ before m after, ms = before++m :: after →
      ∀ i call key n x, m.event = .did i call (.execute key n) x →
        ∀ earlier ∈ before++[m], (earlier.before.records key).terminal = none := by
  rintro before m _ rfl i _ key n x he _ hearlier
  have hu := h.under hinformed
  have hopen : (m.before.records key).terminal = none := by
    obtain ⟨-,-,hk⟩ := (hu.sound contract (Machine.sound_idle hw)).2 m (by simp)
    rw [he] at hk
    exact hk.1
  rcases List.mem_append.1 hearlier with hmem | hmem
  · by_contra hne
    obtain ⟨_,_,rfl⟩ := List.append_of_mem hmem
    obtain ⟨d,_,hr,hs,-⟩ := hu.at
    obtain ⟨_,e,-,hs',hr'⟩ := hr.at
    have hclosed : (e.world.records key).terminal.isSome := by
      rw [← hs'.after_eq]
      exact kept_closed hu hw (by simp) (isSome_iff_ne_none.2 hne)
    have hlater := (hr'.before (P := fun v => (v.records key).terminal.isSome) hclosed
      fun q hq hc => kept_closed hu hw (by simp [hq]) hc).1
    rw [← hs.before_eq,hopen] at hlater
    exact nomatch hlater
  · rw [List.mem_singleton.1 hmem]
    exact hopen

end

def taskKey : SubagentTaskKey := ⟨"root","parent",none,"task"⟩

def informed (m : DriverMoment Unit Unit) : Bool :=
  match m.event with
  | .did _ _ (.claim driver key) _ => (m.before.flights 0 key).isSome ||
      (m.before.records key).terminal.isNone || (m.before.caches driver key).isSome
  | _ => true

theorem informed_of_check {m} (h : informed m) : ∀ op ∈ m.op, Informed op m.before := by
  intro op hop
  obtain ⟨i,_,x,he⟩ := Moment.did_of_op hop
  cases op with
  | claim =>
    intro hfree hclosed
    rw [informed,he] at h
    simp only [hfree,isSome_none,Bool.false_or,Bool.or_eq_true] at h
    refine h.resolve_left fun hn => ?_
    rw [isNone_iff_eq_none.1 hn] at hclosed
    exact nomatch hclosed
  | _ => trivial

def executes (m : DriverMoment Unit Unit) : Bool :=
  match m.event with
  | .did _ _ (.execute _ _) _ => true
  | _ => false

theorem closed_tasks_stay_closed_followed :
    ∃ ms c, Tidy emptyWorld ∧ (drivers (H := Unit) (X := Unit) shared).Run (.idle emptyWorld) ms c ∧
    (∀ m ∈ ms, ∀ op ∈ m.op, Informed op m.before) ∧ (ms.filter executes).length = 1 ∧
    ∀ before m after, ms = before++m :: after → ∀ i call key n x,
    m.event = .did i call (.execute key n) x → ∀ earlier ∈ before++[m],
    (earlier.before.records key).terminal = none := by
  obtain ⟨ms,c,hr,hinformed,hone⟩ := Driver.drive_any (host_fits shared succeeds)
    [.start 0 ⟨0,taskKey,none,true⟩,.act 0 20,.start 1 ⟨1,taskKey,none,true⟩,.act 1 11,
      .complete 0 99,.complete 1 99,.start 1 ⟨1,taskKey,none,true⟩,.complete 1 99]
    (.idle emptyWorld) (fun ms _ => (∀ m ∈ ms, informed m = true) ∧
      (ms.filter executes).length = 1) (by decide +kernel)
  have hinformed m (hm : m ∈ ms) := informed_of_check (hinformed m hm)
  have htidy : Tidy emptyWorld := fun _ _ => rfl
  exact ⟨ms,c,htidy,hr,hinformed,hone,closed_tasks_stay_closed hr htidy hinformed⟩

-- The first driver closes the task between the second one's look at it and its claim.
theorem closed_task_is_reopened :
    ∃ ms c, (drivers (H := Unit) (X := Unit) shared).Run (.idle emptyWorld) ms c ∧
    ∃ m ∈ ms, ∃ i call n x, m.event = .did i call (.execute taskKey n) x ∧
    (m.before.records taskKey).terminal ≠ none := by
  obtain ⟨ms,c,hr,m,hm,h⟩ := Driver.drive_any (host_fits shared succeeds)
    [.start 0 ⟨0,taskKey,none,true⟩,.start 1 ⟨1,taskKey,none,true⟩,.act 1 9,.complete 0 99,
      .complete 1 99] (.idle emptyWorld)
    (fun ms _ => ∃ m ∈ ms, (match m.event with
      | .did _ _ (.execute key _) _ =>
        decide (key = taskKey) && (m.before.records taskKey).terminal.isSome
      | _ => false) = true) (by decide +kernel)
  refine ⟨ms,c,hr,m,hm,?_⟩
  split at h
  next i call key n x he =>
    obtain ⟨hkey,hclosed⟩ := Bool.and_eq_true_iff.1 h
    obtain rfl := of_decide_eq_true hkey
    exact ⟨i,call,n,x,he,isSome_iff_ne_none.1 hclosed⟩
  · exact nomatch h

end SubagentDriver

end Orchestration
