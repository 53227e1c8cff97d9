import TinyAgents.Completions.Effect
import TinyAgents.Completions.Migration

namespace Completions

open Interaction

def Op.quiet : Op → Bool
  | .lockRouter _ => true
  | .unlockRouter _ => true
  | .newUuid => true
  | .acquireParentGate _ _ => true
  | .renewParentGate _ _ => true
  | .releaseParentGate _ _ => true
  | .acquireLocal _ _ => true
  | .releaseLocal _ _ => true
  | .isProcessLocal => true
  | .tryList _ => true
  | _ => false

section

variable {i : Nat} {w w' : World}

theorem Attempted.routers {α : Type} {result} {x : Except Fault α} (h : Attempted w result x w') :
    w'.routers = w.routers := by
  rcases h with ⟨e,-,rfl⟩ | ⟨a,s,-,-,rfl⟩
  all_goals rfl

theorem state_setRouter {router : Nat} {cell : RouterCell}
    (h : cell.state = (w.routers router).state) {j : Nat} :
    ((w.setRouter router cell).routers j).state = (w.routers j).state := by
  by_cases hj : j = router
  · subst hj
    simpa [World.setRouter] using h
  · simp [World.setRouter,Function.update_of_ne hj]

variable {op : Op}

theorem Outcome.quiet_state {x : Ans op} (h : Outcome i op w x w') (hq : op.quiet) (router : Nat) :
    (w'.routers router).state = (w.routers router).state := by
  cases op with
  | lockRouter =>
    obtain ⟨-,rfl⟩ := h
    exact state_setRouter (by rfl)
  | unlockRouter =>
    cases h
    exact state_setRouter (by rfl)
  | newUuid | isProcessLocal =>
    obtain ⟨-,rfl⟩ := h
    rfl
  | acquireParentGate =>
    rcases h with ⟨e,-,rfl⟩ | ⟨_,s,-,-,rfl⟩
    all_goals rfl
  | renewParentGate | releaseParentGate => rw [Attempted.routers h]
  | acquireLocal =>
    rcases h with ⟨e,-,rfl⟩ | ⟨-,-,rfl⟩
    all_goals rfl
  | releaseLocal =>
    cases h
    rfl
  | tryList =>
    obtain ⟨rfl,-⟩ := h
    rfl
  | _ => cases hq

theorem Op.quiet_fence (h : op.quiet) : op.fence = none := by
  cases op <;> simp [Op.quiet] at h <;> rfl

end

namespace Migration

structure ReplaceCall where
  router : Router
  expected : Nat
  replacement : Nat
  deriving DecidableEq

variable (call : ReplaceCall)

def ReplaceCall.code :
    Program MigrationOp MigrationAns (Except MigrationFault CompletionStoreReplaceOutcome) :=
  (replaceStoreIfCurrent call.router call.expected call.replacement).run

def ReplaceCall.home (w : MigrationWorld) : Nat × AdmissionStoreSlot × RouterState :=
  (w.current,w.slot,(w.shared.routers call.router.id).state)

structure ReplaceCall.Calm (w w' : MigrationWorld) : Prop where
  home : call.home w' = call.home w
  records : (w'.stores call.replacement).records = (w.stores call.replacement).records
  processLocal :
    (w'.stores call.replacement).processLocal = (w.stores call.replacement).processLocal

abbrev ReplaceResult := Except MigrationFault CompletionStoreReplaceOutcome
abbrev MigrationConfig :=
  Config ReplaceCall MigrationOp MigrationAns MigrationWorld ReplaceResult
abbrev MigrationMoment :=
  Moment ReplaceCall MigrationOp MigrationAns MigrationWorld ReplaceResult

def callMachine : Machine ReplaceCall MigrationOp MigrationAns MigrationWorld ReplaceResult where
  code := ReplaceCall.code
  outcome := MigrationOutcome
  env := call.Calm

def machine : Machine ReplaceCall MigrationOp MigrationAns MigrationWorld ReplaceResult :=
  (callMachine call).starting fun _ _ _ => False

def calling (w : MigrationWorld) : MigrationConfig :=
  (Config.idle w).set 0 (some (call,call.code)) w

def MigrationOp.quiet : MigrationOp → Bool
  | .on _ op => op.quiet
  | .bindParentLifecycle _ _ => true
  | .currentStore => true
  | _ => false

abbrev Quiet (op : MigrationOp) : Prop := op.quiet

section

variable {call : ReplaceCall} {i : Nat} {w w' : MigrationWorld}

theorem calm_refl (w : MigrationWorld) : call.Calm w w :=
  ⟨rfl,rfl,rfl⟩

theorem ReplaceCall.Calm.trans {u v} (h : call.Calm u v) (k : call.Calm v w) : call.Calm u w :=
  ⟨k.home.trans h.home,k.records.trans h.records,k.processLocal.trans h.processLocal⟩

theorem stores_back (w : MigrationWorld) (handle : Nat) (v : World) (j : Nat) :
    (w.back handle v).stores j = if j = handle then v.store else w.stores j := by
  simp [MigrationWorld.back,Function.update_apply]

theorem quiet_stores {op} {x} (h : MigrationOutcome i op w x w') (hq : op.quiet) (handle : Nat) :
    (w'.stores handle).records = (w.stores handle).records ∧
    (w'.stores handle).processLocal = (w.stores handle).processLocal := by
  cases op with
  | on =>
    obtain ⟨v,ho,rfl⟩ := h
    rw [stores_back]
    split
    next hj =>
      subst hj
      cases ho.change with
      | silent hs | entry _ _ _ hs => rw [hs]; exact ⟨rfl,rfl⟩
      | gate _ _ _ hr hp => exact ⟨hr,hp⟩
      | write _ _ hf =>
        rw [Op.quiet_fence hq] at hf
        cases hf
      | sweep _ hop =>
        subst hop
        cases hq
    · exact ⟨rfl,rfl⟩
  | bindParentLifecycle =>
    rcases h with ⟨-,rfl⟩ | ⟨-,-,rfl⟩
    all_goals exact ⟨rfl,rfl⟩
  | currentStore =>
    obtain ⟨-,rfl⟩ := h
    exact ⟨rfl,rfl⟩
  | _ => cases hq

theorem quiet_calm {op} {x} (h : MigrationOutcome i op w x w') (hq : op.quiet) :
    call.Calm w w' := by
  obtain ⟨hr,hp⟩ := quiet_stores h hq call.replacement
  refine ⟨?_,hr,hp⟩
  cases op with
  | on =>
    obtain ⟨v,ho,rfl⟩ := h
    simp only [ReplaceCall.home,MigrationWorld.back,Prod.mk.injEq,true_and]
    exact ho.quiet_state hq call.router.id
  | bindParentLifecycle =>
    rcases h with ⟨-,rfl⟩ | ⟨-,-,rfl⟩
    all_goals rfl
  | currentStore =>
    obtain ⟨-,rfl⟩ := h
    rfl
  | _ => cases hq

end

theorem asks_onStore {α : Type} {handle : Nat} {p : Program Op Ans α}
    (h : Asks (fun op => op.quiet) p) : Asks Quiet (onStore handle p) :=
  asks_embed h

theorem asks_tryOn {α : Type} {handle : Nat} {task : Task α}
    (h : Asks (fun op => op.quiet) task.run) : Asks Quiet (tryOn handle task).run :=
  asks_bind (asks_onStore h) fun _ => trivial

theorem asks_acquireNative {parentKey : String} :
    Asks (fun op => op.quiet) (ParentGateGuard.acquireNative parentKey).run :=
  ⟨rfl,fun _ => ⟨rfl,fun _ => trivial⟩⟩

theorem asks_dropSourceGate (source : Nat) (gate : String × ParentGateClaim) :
    Asks Quiet (dropSourceGate source gate) :=
  asks_onStore ⟨rfl,fun _ => trivial⟩

theorem asks_acquireSourceGate (source : Nat) (parentKey : String) :
    Asks Quiet (acquireSourceGate source parentKey).run :=
  asks_try (asks_tryOn asks_acquireNative) fun _ => trivial

theorem asks_acquireLocalGate (source lifecycle : Nat) (parentKey : String) :
    Asks Quiet (acquireLocalGate source lifecycle parentKey).run :=
  asks_try (asks_tryOn ⟨rfl,fun _ => trivial⟩) fun _ => trivial

theorem asks_dropLocalGate (source lifecycle : Nat) (parentKey : String) :
    Asks Quiet (dropLocalGate source lifecycle parentKey) :=
  ⟨rfl,fun _ => trivial⟩

theorem asks_renewSourceGates {source : Nat} {gates} :
    Asks Quiet (renewSourceGates source gates).run := by
  induction gates with
  | nil => trivial
  | cons _ _ ih =>
    refine asks_try (asks_tryOn ⟨rfl,fun _ => trivial⟩) fun _ => ?_
    split
    · exact ih
    · trivial

theorem asks_bindReplacement {replacement lifecycle : Nat} :
    Asks Quiet (bindReplacement replacement lifecycle).run := by
  refine ⟨rfl,fun processLocal => ?_⟩
  cases processLocal with
  | true => exact ⟨rfl,fun _ => trivial⟩
  | false => trivial

section

variable {γ : Type} {acquire : String → Migrating γ}
  {drop : γ → Program MigrationOp MigrationAns Unit}

theorem asks_dropEach (hd : ∀ g, Asks Quiet (drop g)) {guards : List γ} :
    Asks Quiet (dropEach drop guards) := by
  induction guards with
  | nil => trivial
  | cons guard _ ih => exact asks_bind (hd guard) fun _ => ih

theorem asks_acquireEach (ha : ∀ p, Asks Quiet (acquire p).run) (hd : ∀ g, Asks Quiet (drop g))
    {parents} (held : List γ) : Asks Quiet (acquireEach acquire drop parents held).run := by
  induction parents generalizing held with
  | nil => trivial
  | cons parentKey _ ih =>
    refine asks_bind (ha parentKey) fun result => ?_
    cases result with
    | ok => exact ih _
    | error => exact asks_bind (asks_dropEach hd) fun _ => trivial

end

section

variable (call : ReplaceCall) (ms : List MigrationMoment) (i : Nat)

def logic : Logic MigrationOp MigrationAns MigrationWorld where
  outcome := fun op w x w' =>
    MigrationOutcome i op w x w' ∧ ∃ c, ⟨w,.did i c op x,w'⟩ ∈ ms
  rely := call.Calm
  guar := fun _ _ => True
  rely_refl := calm_refl
  rely_trans := fun _ _ _ => ReplaceCall.Calm.trans

def Steady (Q : MigrationWorld → Prop) : Prop :=
  ∀ v v', call.Calm v v' → Q v → Q v'

variable {call ms i}

theorem steady_calm {w} : Steady call (call.Calm w) :=
  fun _ _ hv hw => hw.trans hv

theorem steady_home (home : Nat × AdmissionStoreSlot × RouterState) :
    Steady call (fun v => call.home v = home) :=
  fun _ _ hv h => hv.home.trans h

variable {w v : MigrationWorld} {Q : MigrationWorld → Prop} {α : Type}

theorem safe_quiet {p : Program MigrationOp MigrationAns α} (hp : Asks Quiet p) (hQ : Steady call Q)
    (hw : Q w) : Safe (logic call ms i) (fun _ => Q) p w := by
  refine safe_of_asks (fun v v' hv hc => hQ v v' hc hv) (fun op v hq hv => ?_) hp hw
  exact ⟨trivial,fun x v' ho => hQ v v' (quiet_calm ho.1 hq) hv⟩

theorem safe_quiet_task {p : Migrating α} (hp : Asks Quiet p.run) (hQ : Steady call Q) (hw : Q w) :
    Maintains (logic call ms i) Q p w := by
  refine safe_mono (fun r v hv => ?_) (safe_quiet hp hQ hw)
  cases r with
  | ok | error => exact hv

theorem safe_withEach {γ : Type} {acquire : String → Migrating γ}
    {drop : γ → Program MigrationOp MigrationAns Unit} (ha : ∀ p, Asks Quiet (acquire p).run)
    (hd : ∀ g, Asks Quiet (drop g)) {parents : List String} {body : List γ → Migrating α}
    {I E : MigrationWorld → Prop} {Q : α → MigrationWorld → Prop} (hI : Steady call I)
    (hE : Steady call E) (hQ : ∀ a, Steady call (Q a)) (hIE : ∀ v, I v → E v) (hbody : ∀ guards v,
    I v → Ensures (logic call ms i) Q (fun _ => E) (body guards) v) (hw : I w) :
    Ensures (logic call ms i) Q (fun _ => E) (withEach acquire drop parents body) w := by
  refine safe_seq (safe_quiet_task (asks_acquireEach ha hd []) hI hw)
    (fun _ => hIE) fun guards v hv => ?_
  refine safe_bind (fun result u hu => ?_) (hbody guards v hv)
  have hdrop (R : MigrationWorld → Prop) (hR : Steady call R) (hu : R u) :
      Safe (logic call ms i) (fun _ => R) (dropEach drop guards) u :=
    safe_quiet (asks_dropEach hd) hR hu
  cases result with
  | ok a =>
    refine safe_bind (fun _ v hv => ?_) (hdrop _ (hQ a) hu)
    exact fun v' hv' => hQ a _ _ hv' hv
  | error =>
    refine safe_bind (fun _ v hv => ?_) (hdrop _ hE hu)
    exact fun v' hv' => hE _ _ hv' hv

structure CopyStep (call : ReplaceCall) (P : Store → Store → Prop) (w v : MigrationWorld) :
    Prop where
  home : call.home v = call.home w
  copied : P (w.stores call.replacement) (v.stores call.replacement)

variable {r : CompletionRecord}

theorem steady_copies {w} : Steady call (CopyStep call (Store.Copies r) w) :=
  fun _ _ hv h => ⟨hv.home.trans h.home,h.copied.congr rfl rfl hv.records hv.processLocal⟩

theorem steady_copied {l} {w} : Steady call (CopyStep call (Store.Copied l) w) :=
  fun _ _ hv h => ⟨hv.home.trans h.home,h.copied.congr rfl rfl hv.records hv.processLocal⟩

theorem putCopy_step {w'} {parentKey : String} {gate} {x}
    (h : MigrationOutcome i (.putCopy call.replacement r parentKey gate) w x w') :
    call.home w' = call.home w ∧ (x = .ok () → CopyStep call (Store.Copies r) w w') := by
  obtain ⟨v,⟨e,rfl,rfl⟩ | ⟨⟨⟩,s,hs,rfl,rfl⟩,rfl⟩ := h
  · exact ⟨rfl,by simp⟩
  refine ⟨rfl,fun _ => ⟨rfl,?_⟩⟩
  rw [stores_back,if_pos rfl]
  exact putCopy_copies hs

theorem safe_copyRecord {w : MigrationWorld} :
    Ensures (logic call ms i) (fun _ => CopyStep call (Store.Copies r) w)
      (fun _ v => call.home v = call.home w) (copyRecord call.replacement r) w := by
  refine safe_seq (safe_quiet_task (asks_tryOn asks_acquireNative) steady_calm
    (calm_refl w)) (fun _ v hv => hv.home) fun _ v hv => ?_
  refine safe_perform_bind fun v hc => ⟨trivial,fun x u ho => ?_⟩
  replace hv := ReplaceCall.Calm.trans hv hc
  obtain ⟨hhome,hcopy⟩ := putCopy_step ho.1
  cases x with
  | error =>
    refine safe_bind (fun _ u hu => ?_) (safe_quiet (asks_dropSourceGate _ _)
      (steady_home (call.home w)) (hhome.trans hv.home))
    exact fun u' hu' => steady_home _ _ _ hu' hu
  | ok =>
    obtain ⟨-,hcopied⟩ := hcopy rfl
    refine safe_bind (fun _ u hu => ?_) (safe_quiet (asks_dropSourceGate _ _)
      steady_copies ⟨hhome.trans hv.home,
        hcopied.congr hv.records.symm hv.processLocal.symm rfl rfl⟩)
    exact fun u' hu' => steady_copies _ _ hu' hu

theorem safe_copyRecords (l : List CompletionRecord) (w : MigrationWorld) :
    Ensures (logic call ms i) (fun _ => CopyStep call (Store.Copied l) w)
      (fun _ v => call.home v = call.home w) (copyRecords call.replacement l) w := by
  induction l generalizing w with
  | nil => exact fun v hv => ⟨hv.home,hv.processLocal,hv.records⟩
  | cons _ _ ih =>
    refine safe_try safe_copyRecord fun _ v hv => safe_mono ?_ (ih v)
    rintro (e | _) u hu
    · exact hu.trans hv.home
    · exact ⟨hu.home.trans hv.home,v.stores call.replacement,hv.copied,hu.copied⟩

variable (call ms) in
def Listed (source : Store) (records : List CompletionRecord) : Prop :=
  ∃ m ∈ ms, (∃ i c, m.event = .did i c (.on call.expected (.tryList none)) (.ok records)) ∧
    m.before.stores call.expected = source ∧ records.Perm source.records.entries

theorem safe_tryList (hQ : Steady call Q) (hw : Q w) :
    Ensures (logic call ms i) (fun records v => Q v ∧ ∃ source, Listed call ms source records)
      (fun _ => Q) (tryOn call.expected (tryList none)) w := by
  refine fun v hv => ⟨trivial,fun x u ho => ?_⟩
  have hu : Q u := hQ _ _ (quiet_calm ho.1 rfl) (hQ _ _ hv hw)
  obtain ⟨⟨_,⟨-,hx⟩,-⟩,c,hm⟩ := ho
  obtain ⟨e,rfl⟩ | ⟨records,hperm,rfl⟩ := hx
  · exact fun u' hu' => hQ _ _ hu' hu
  · refine fun u' hu' => ⟨hQ _ _ hu' hu,_,_,hm,⟨i,c,rfl⟩,rfl,?_⟩
    simpa [Store.listed,MigrationWorld.focus] using hperm

variable (call ms) in
structure Switched (w v : MigrationWorld) : Prop where
  home : call.home v =
    (call.replacement,⟨call.replacement,false⟩,(w.shared.routers call.router.id).state)
  copied : ∃ source records, Listed call ms source records ∧
    (w.stores call.replacement).Copied records (v.stores call.replacement)

theorem steady_switched {w} : Steady call (Switched call ms w) := by
  rintro v _ hv ⟨hhome,source,records,hl,hc⟩
  exact ⟨hv.home.trans hhome,source,records,hl,hc.congr rfl rfl hv.records hv.processLocal⟩

theorem safe_publish {records}
    (hl : ∃ source, Listed call ms source records) (h : CopyStep call (Store.Copied records) w v) :
    Ensures (logic call ms i) (fun outcome v => outcome = .replaced call.replacement ∧
      Switched call ms w v) (fun _ v => call.home v = call.home w) (do
          plain (ask (.setCurrentStore call.replacement))
          plain (ask (.dropMigration (some call.replacement)))
          return .replaced call.replacement : Migrating CompletionStoreReplaceOutcome) v := by
  obtain ⟨source,hl⟩ := hl
  intro v1 h1
  refine ⟨trivial,fun _ _ h2 => ?_⟩
  intro v3 h3
  refine ⟨trivial,fun _ _ h4 => ?_⟩
  replace h := steady_copied _ _ h1 h
  have hstate : (v1.shared.routers call.router.id).state =
      (w.shared.routers call.router.id).state := congrArg (·.2.2) h.home
  obtain ⟨rfl,-⟩ := h2
  obtain ⟨rfl,-⟩ := h4
  refine fun u hu => ⟨rfl,steady_switched _ _ hu ⟨?_,source,records,hl,?_⟩⟩
  · obtain ⟨hcurrent,hrest⟩ := Prod.mk.inj h3.home
    rw [ReplaceCall.home,show (v3.publish (some call.replacement)).current = v3.current from rfl,
      hcurrent]
    exact congrArg₂ (fun a b => (call.replacement,a,b)) rfl ((Prod.mk.inj hrest).2.trans hstate)
  · exact h.copied.congr rfl rfl h3.records h3.processLocal

theorem safe_copySnapshot {parents : List String} {gates} (h : call.Calm w v) :
    Ensures (logic call ms i) (fun outcome v => outcome = .replaced call.replacement ∧
      Switched call ms w v) (fun _ v => call.home v = call.home w)
      (copySnapshot call.expected call.replacement parents gates) v := by
  refine safe_seq (safe_quiet_task asks_renewSourceGates steady_calm h)
    (fun _ _ hv => hv.home) fun _ v hv => ?_
  refine safe_seq (safe_tryList steady_calm hv) (fun _ _ hv => hv.home) ?_
  rintro records v ⟨hv,hl⟩
  split
  · refine safe_seq (safe_copyRecords records v) (fun _ _ hu => hu.trans hv.home) fun _ u hu => ?_
    exact safe_publish hl ⟨hu.home.trans hv.home,
      hu.copied.congr hv.records.symm hv.processLocal.symm rfl rfl⟩
  · exact fun u hu => hu.home.trans hv.home

theorem safe_copyStore {w : MigrationWorld} :
    Ensures (logic call ms i) (fun outcome v => outcome = .replaced call.replacement ∧
      Switched call ms w v) (fun _ v => call.home v = call.home w)
      (copyStore call.router call.expected call.replacement) w := by
  have hE : Steady call (fun v => call.home v = call.home w) := steady_home _
  have hQ outcome : Steady call (fun v => outcome = CompletionStoreReplaceOutcome.replaced
      call.replacement ∧ Switched call ms w v) :=
    fun v v' hv h => ⟨h.1,steady_switched v v' hv h.2⟩
  refine safe_seq (safe_quiet_task asks_bindReplacement steady_calm (calm_refl w))
    (fun _ _ hv => hv.home) fun _ v hv => ?_
  refine safe_seq (safe_tryList steady_calm hv) (fun _ _ hv => hv.home) ?_
  rintro _ v ⟨hv,-⟩
  refine safe_withEach (asks_acquireSourceGate _) (asks_dropSourceGate _) steady_calm hE hQ
    (fun _ hv => hv.home) (fun _ v hv => ?_) hv
  exact safe_withEach (asks_acquireLocalGate _ _) (asks_dropLocalGate _ _) steady_calm hE hQ
    (fun _ hv => hv.home) (fun _ v hv => safe_copySnapshot hv) hv

theorem Switched.of_calm {u} (h : Switched call ms w v) (hw : call.Calm u w) :
    Switched call ms u v := by
  obtain ⟨hhome,source,records,hl,hc⟩ := h
  have hstate : (w.shared.routers call.router.id).state =
      (u.shared.routers call.router.id).state := congrArg (·.2.2) hw.home
  exact ⟨hhome.trans (by rw [hstate]),source,records,hl,
    hc.congr hw.records.symm hw.processLocal.symm rfl rfl⟩

variable (call ms) in
def Finished (w : MigrationWorld) : ReplaceResult → MigrationWorld → Prop
  | .ok (.replaced handle), v => handle = call.replacement ∧ Switched call ms w v
  | .ok (.current handle), v => handle = w.current ∧ call.home v = call.home w ∧
      (w.current ≠ call.expected ∨ w.current = call.replacement)
  | .error _, v => call.home v = call.home w

theorem steady_finished {w} {r} : Steady call (Finished call ms w r) := by
  intro v v' hv h
  rcases r with e | (handle | handle)
  · exact hv.home.trans h
  · exact ⟨h.1,hv.home.trans h.2.1,h.2.2⟩
  · exact ⟨h.1,steady_switched v v' hv h.2⟩

theorem Finished.of_calm {u} {r} (h : Finished call ms w r v) (hw : call.Calm u w) :
    Finished call ms u r v := by
  have hcurrent : w.current = u.current := congrArg (·.1) hw.home
  rcases r with e | (handle | handle)
  · exact h.trans hw.home
  · exact ⟨h.1.trans hcurrent,h.2.1.trans hw.home,by rw [← hcurrent]; exact h.2.2⟩
  · exact ⟨h.1,h.2.of_calm hw⟩

section

variable (hw : w.slot.migrating = false)

include hw

theorem home_dropMigration
    (hv : call.home v = call.home { w with slot := { w.slot with migrating := true } }) :
    call.home (v.publish none) = call.home w := by
  obtain ⟨hcurrent,hrest⟩ := Prod.mk.inj hv
  obtain ⟨hslot,hstate⟩ := Prod.mk.inj hrest
  simp only [ReplaceCall.home,MigrationWorld.publish,hcurrent,hslot,hstate,Option.getD_none,
    Prod.mk.injEq,true_and,and_true]
  rw [← hw]

theorem safe_migrate :
    Safe (logic call ms i) (Finished call ms w)
      (migrate call.router call.expected call.replacement).run w := by
  refine safe_perform_bind fun v hv => ⟨trivial,fun _ u ho => ?_⟩
  obtain ⟨rfl,-⟩ := ho
  have hslot : v.slot = w.slot := congrArg (·.2.1) hv.home
  refine safe_bind (fun result u hu => ?_) safe_copyStore
  cases result with
  | ok =>
    obtain ⟨rfl,hu⟩ := hu
    have hswitch : Switched call ms v u := ⟨hu.home,hu.copied⟩
    exact fun u' hu' => ⟨rfl,steady_switched _ _ hu' (hswitch.of_calm hv)⟩
  | error =>
    refine safe_perform_bind fun _ h1 => ⟨trivial,fun _ _ h2 => ?_⟩
    obtain ⟨rfl,-⟩ := h2
    have hhome := home_dropMigration (by rw [hslot,hw]) (h1.home.trans hu)
    exact fun u' hu' => hu'.home.trans (hhome.trans hv.home)

theorem safe_replaceLocked :
    Safe (logic call ms i) (Finished call ms w)
      (replaceLocked call.router call.expected call.replacement).run w := by
  refine fun v hv => ⟨trivial,fun current u ho => ?_⟩
  obtain ⟨⟨rfl,rfl⟩,-⟩ := ho
  have hslot : u.slot.migrating = false := by
    rw [show u.slot = w.slot from congrArg (·.2.1) hv.home,hw]
  have hstay (h : u.current ≠ call.expected ∨ u.current = call.replacement) :
      Safe (logic call ms i) (Finished call ms w) (.ret (.ok (.current u.current))) u :=
    have hu : Finished call ms u (.ok (.current u.current)) u := ⟨rfl,rfl,h⟩
    fun _ hv' => (steady_finished _ _ hv' hu).of_calm hv
  change Safe _ _ (ExceptT.run (if u.current ≠ call.expected then _ else _)) u
  split
  next hne => exact hstay (.inl hne)
  · split
    next heq => exact hstay (.inr heq)
    · exact safe_mono (fun _ _ h => Finished.of_calm h hv) (safe_migrate hslot)

theorem safe_code : Safe (logic call ms i) (Finished call ms w) call.code w := by
  refine safe_perform_bind fun _ h1 => ⟨trivial,fun _ w2 h2 => ?_⟩
  have hcalm : call.Calm w w2 := h1.trans (quiet_calm h2.1 rfl)
  have hslot : w2.slot.migrating = false := by
    rw [show w2.slot = w.slot from congrArg (·.2.1) hcalm.home,hw]
  refine safe_bind (fun r u hu => ?_) (safe_replaceLocked hslot)
  refine safe_perform_bind fun _ h1 => ⟨trivial,fun _ _ h2 => fun _ h3 => ?_⟩
  have hu' := (ReplaceCall.Calm.trans h1 (quiet_calm h2.1 rfl)).trans h3
  exact (steady_finished _ _ hu' hu).of_calm hcalm

end

end

variable {call : ReplaceCall} {ms : List MigrationMoment}

theorem contract (w : MigrationWorld) :
    ((machine call).observed ms).Contract (fun i => i = 0) (fun _ => True) (logic call ms)
      (fun _ c r v => c = call → Finished call ms w r v) where
  outcome := fun _ _ _ _ _ _ h => h
  opens := fun _ _ _ _ h => h.elim
  keeps := fun _ _ _ _ _ _ _ _ => trivial
  frame := fun _ _ _ _ _ _ hi hj hij _ _ _ => (hij (hi.trans hj.symm)).elim
  env_keeps := fun _ _ _ _ => trivial
  env_frame := fun _ _ _ _ h => h

theorem calling_thread {w} {i : Nat} {c} {p} (h : (calling call w).thread i = some (c,p)) :
    i = 0 ∧ c = call ∧ p = call.code := by
  by_cases hi : i = 0
  · subst hi
    have h' : some (call,call.code) = some (c,p) := by simpa [calling,Config.set] using h
    cases h'
    exact ⟨rfl,rfl,rfl⟩
  · simp [calling,Config.set,Config.idle,Function.update_of_ne hi] at h

theorem finished_of_run {w} (hw : w.slot.migrating = false) {d}
    (h : (machine call).Run (calling call w) ms d) {m} {r} (hm : m ∈ ms)
    (he : m.event = .finish 0 call r) : Finished call ms w r m.before := by
  have hsound : Machine.Sound (fun i => i = 0) (fun _ => True) (logic call ms)
      (fun _ c r v => c = call → Finished call ms w r v) (calling call w) := by
    refine ⟨trivial,fun i c p ht => ?_⟩
    obtain ⟨rfl,rfl,rfl⟩ := calling_thread ht
    exact ⟨rfl,safe_mono (fun _ _ hf _ => hf) (safe_code hw)⟩
  have hkept := ((h.observed fun _ hm => hm).sound (contract w) hsound).2 m hm
  obtain ⟨v,_,_⟩ := m
  cases he
  exact hkept.2.2.1 rfl

end Migration

end Completions
