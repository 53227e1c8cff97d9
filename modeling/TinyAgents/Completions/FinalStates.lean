import TinyAgents.Completions.Runs

namespace Completions

open Interaction

def CompletionState.Final (s : CompletionState) : Prop :=
  s = .delivered ∨ s = .gaveUp ∨ s = .tombstoned

def SweptAway (m : CompletionMoment) (taskId : String) : Prop :=
  (∃ retain, Op.compact retain ∈ m.op) ∧ m.after.get taskId = none

def WriteSite.expects (r : CompletionRecord) : WriteSite → Option (String × Option CompletionRecord)
  | .suppress seen => some (seen.taskId,some seen)
  | .reserve => some (r.taskId,none)
  | .upgrade seen => if seen.state = .pending then none else some (seen.taskId,some seen)
  | _ => none

def Op.expects : Op → Option (String × ParentGateClaim × String × Option CompletionRecord)
  | .putFenced site r parentKey gate => (site.expects r).map fun e => (parentKey,gate,e)
  | _ => none

def WritesWhatItRead (m : CompletionMoment) : Prop :=
  ∀ op ∈ m.op, ∀ e ∈ op.expects,
    m.before.store.GateCurrent e.1 e.2.1 m.before.now → m.before.get e.2.2.1 = e.2.2.2

instance (m : CompletionMoment) : Decidable (WritesWhatItRead m) :=
  inferInstanceAs (Decidable (∀ op ∈ m.op, ∀ e ∈ op.expects, _ → _))

def writersScope : Scope where
  clean := False
  solo := False
  lasting := False
  tombstones := True
  strict := True
  versioned := False
  versioned_clean := id
  versioned_strict := fun _ => trivial

theorem writersScope_opens (i : Nat) (call : RouterCall) (w : World) :
    writersScope.Active i ∧ writersScope.Opens (fun _ => False) call w := by
  refine ⟨fun h => h.elim,?_,?_⟩
  · cases call <;> first | trivial | exact fun h => h.elim | exact ⟨trivial,fun h => h.elim⟩
  · cases call <;> first | trivial | exact fun h => h.elim

theorem writersScope_meets {ms} (h : ∀ m ∈ ms, WritesWhatItRead m) : writersScope.Meets ms := by
  intro m hm op hop
  have hw := h m hm op hop
  cases op with
  | putFenced site _ p c =>
    cases site with
    | suppress | reserve => exact fun _ _ hc => hw _ rfl hc
    | upgrade seen =>
      intro _ hc hp
      have hst : seen.state ≠ .pending := fun hs => hp (.inr hs)
      exact hw (p,c,seen.taskId,some seen) (by simp [Op.expects,WriteSite.expects,hst]) hc
    | resume => exact fun h => h.elim
    | withdraw | enrol | restore | close => trivial
  | _ => trivial

namespace Scope

variable {S : Scope} {i : Nat} {w w' : World} {op : Op}

theorem Rewrite.settled {p : String} {r r0} (h : S.Rewrite w p op r) (h0 : w.get r.taskId = some r0)
    (hst : r0.state ≠ .pending) : r.state = r0.state := by
  have hnone {P : Prop} (hn : w.get r.taskId = none) : P :=
    absurd (hn.symm.trans h0) (by simp)
  have hopen {P : Prop} {r1} (h1 : w.get r.taskId = some r1) (hp : r1.state = .pending) : P := by
    rw [h0] at h1
    cases h1
    exact absurd hp hst
  cases h with
  | inserted hn | reserved _ hn => exact hnone hn
  | withdrawn _ h1 _ hp | claimed _ _ _ _ h1 _ hp => exact hopen h1 hp
  | upgraded _ h1 _ _ hs =>
    rw [h0] at h1
    cases h1
    exact hs
  | resolved _ _ _ _ h1 _ hq => exact hopen h1 hq.2.2.1

theorem Fate.settled {m} {taskId : String} {r0} (h : S.Fate m taskId)
    (h0 : m.before.get taskId = some r0) (hst : r0.state ≠ .pending) :
    (∃ r, m.after.get taskId = some r ∧ r.state = r0.state) ∨ SweptAway m taskId := by
  cases h with
  | same h => exact .inl ⟨r0,h.trans h0,rfl⟩
  | rewritten _ _ r _ hr hid hw =>
    subst hid
    exact .inl ⟨r,hr,hw.settled h0 hst⟩
  | swept retain hop _ hn => exact .inr ⟨⟨retain,hop⟩,hn⟩

end Scope

theorem settled_run {M : Machine RouterCall Op Ans World (Except Fault Reply)} {S : Scope}
    {c d : CompletionConfig} {ms : List CompletionMoment} {taskId : String} {r0 : CompletionRecord}
    (hr : M.Run c ms d) (hf : ∀ m ∈ ms, S.Fate m taskId) (h0 : c.world.get taskId = some r0)
    (hst : r0.state ≠ .pending) :
    (∃ r, d.world.get taskId = some r ∧ r.state = r0.state) ∨ ∃ m ∈ ms, SweptAway m taskId := by
  refine hr.history (P := fun ns v => (∃ r, v.get taskId = some r ∧ r.state = r0.state) ∨
    ∃ m ∈ ns, SweptAway m taskId) (.inl ⟨r0,h0,rfl⟩) fun ns m hm h => ?_
  rcases h with ⟨r,h,hs⟩ | ⟨n,hn,hsw⟩
  · rcases (hf m hm).settled h (by rw [hs]; exact hst) with ⟨r',h',hs'⟩ | hsw
    · exact .inl ⟨r',h',hs'.trans hs⟩
    · exact .inr ⟨m,List.mem_append_right _ (List.mem_singleton.2 rfl),hsw⟩
  · exact .inr ⟨n,List.mem_append_left _ hn,hsw⟩

theorem final_state_lasts (w : World) {c d : CompletionConfig} {ms₁ ms₂ : List CompletionMoment}
    (h₁ : (machine anyCalls).Run (.idle w) ms₁ c) (h₂ : (machine anyCalls).Run c ms₂ d)
    (hw : ∀ m ∈ ms₁ ++ ms₂, WritesWhatItRead m) {taskId : String} {r : CompletionRecord}
    (hm : ¬ IsMarkerId taskId) (hr : c.world.get taskId = some r) (hf : r.state.Final) :
    (∃ r', d.world.get taskId = some r' ∧ r'.state = r.state) ∨ ∃ m ∈ ms₂, SweptAway m taskId := by
  have hb := fun i call v (_ : writersScope.Inv v) (_ : anyCalls i call v) =>
    writersScope_opens i call v
  have hm1 := writersScope_meets fun m hm => hw m (List.mem_append_left _ hm)
  have hm2 := writersScope_meets fun m hm => hw m (List.mem_append_right _ hm)
  have hc := (Scope.run_sound hb h₁ hm1
    (Scope.runSound_idle ⟨fun h => h.elim,fun h => h.elim,fun h => h.elim⟩)).1
  have hk := (Scope.run_sound hb h₂ hm2 hc).2
  exact settled_run h₂ (fun m hm2 => (hk m hm2).fate ⟨trivial,id⟩ hm) hr (by
    rintro he
    simp [he,CompletionState.Final] at hf)

def finishedChild : CompletionRecord :=
  { taskId := "t", parentKey := "p", parentEpoch := 1 }

def oneCompletion : World where
  store := ⟨⟨[finishedChild,parentMarker "p" .delivered 1 0],by decide⟩,
    fun _ => none,fun _ => 0,true⟩

def deliverFinished (i : Nat) : List (Choice RouterCall) :=
  [.start i (.claim secondRouter "p" 10 .followup),.complete i 100,
    .start i (.markDelivered secondRouter [⟨"t","p",1,⟨(i,1),"t"⟩⟩]),.complete i 100]

def tombstoneAll (taskIds : List String) : List (Choice RouterCall) :=
  taskIds.flatMap fun id => [.start 0 (.tombstone firstRouter id),.complete 0 100]

theorem final_state_lasts_delivered :
    ∃ ms₁ c ms₂ d, (machine anyCalls).Run (.idle oneCompletion) ms₁ c ∧
      (machine anyCalls).Run c ms₂ d ∧ (∀ m ∈ ms₁ ++ ms₂, WritesWhatItRead m) ∧
        ∃ r, c.world.get "t" = some r ∧ r.state = .delivered ∧
          ((∃ r', d.world.get "t" = some r' ∧ r'.state = r.state) ∨
            ∃ m ∈ ms₂, SweptAway m "t") := by
  obtain ⟨ms₁,c,ms₂,d,h₁,h₂,hw,r,hr,hs⟩ := stages_run (deliverFinished 1)
    (tombstoneAll ["t","u"]) oneCompletion (fun ms₁ c ms₂ _ => (∀ m ∈ ms₁ ++ ms₂,
      WritesWhatItRead m) ∧ ∃ r ∈ c.world.get "t", r.state = .delivered) (by decide +kernel)
  exact ⟨ms₁,c,ms₂,d,h₁,h₂,hw,r,hr,hs,
    final_state_lasts oneCompletion h₁ h₂ hw (by decide) hr (.inl hs)⟩

-- The tombstone reads the Pending record, the delivery settles it, the tombstone writes it back.
theorem tombstone_overwrites_delivered :
    ¬ ∀ (w : World) (c d : CompletionConfig) (ms₁ ms₂ : List CompletionMoment) (taskId : String)
      (r : CompletionRecord), (machine anyCalls).Run (.idle w) ms₁ c →
    (machine anyCalls).Run c ms₂ d → ¬ IsMarkerId taskId → c.world.get taskId = some r →
    r.state.Final → (∃ r', d.world.get taskId = some r' ∧ r'.state = r.state) ∨
    ∃ m ∈ ms₂, SweptAway m taskId := by
  intro h
  obtain ⟨_,c,ms₂,d,h₁,h₂,hkept,⟨r,hr,hs⟩,_,hr',hs'⟩ := stages_run
    ([.start 0 (.tombstone firstRouter "t"),.act 0 2] ++ deliverFinished 1) [.complete 0 100]
    oneCompletion (fun _ c ms₂ d => (∀ m ∈ ms₂, m.after.get "t" ≠ none) ∧
      (∃ r ∈ c.world.get "t", r.state = .delivered) ∧
        ∃ r ∈ d.world.get "t", r.state = .tombstoned) (by decide +kernel)
  rcases h _ _ _ _ _ "t" r h₁ h₂ (by decide) hr (.inl hs) with ⟨_,hr1,hs1⟩ | ⟨m,hm,-,hn⟩
  · rw [← Option.mem_unique hr' hr1,hs,hs'] at hs1
    cases hs1
  · exact hkept m hm hn

end Completions
