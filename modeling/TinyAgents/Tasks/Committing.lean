import TinyAgents.Tasks.DriverTasks

namespace Tasks

open Interaction StorageKit DriverTaskStore List Function

variable {V : Type} {w w' : TaskWorld V} {i j : Nat} {taskId : String} {doc : TaskDoc V}

section

def Commits (call : TaskCall V) (found : Option (TaskDoc V)) (doc : TaskDoc V) : Prop :=
  match call with
  | .insert spec => found = none ∧ doc.state = .pending spec ∧ doc.rev = 1
  | .modify _ t => ∃ d, found = some d ∧ t.next d.state = .ok doc.state ∧ doc.rev = d.rev+1

structure Tidy (w : TaskWorld V) : Prop where
  current : ∀ id, (w.records id).doc = (w.log id).getLast?
  numbered : ∀ id k (d : TaskDoc V), (w.log id)[k]? = some d → d.rev = k+1
  named : ∀ id, ∀ d ∈ w.log id, d.spec.taskId = id
  owed : ∀ i id d, w.owed i = some (id,d) → w.history id d.rev = none ∧ d ∈ w.log id
  single : ∀ i j id d, w.owed i = some (id,d) → w.owed j = some (id,d) → i = j
  history : ∀ id k d, w.history id k = some d → d ∈ w.log id ∧ k = d.rev
  written : ∀ id, ∀ d ∈ w.log id, w.history id d.rev = some d ∨ ∃ i, w.owed i = some (id,d)

theorem Tidy.rev_inj (h : Tidy w) {d e : TaskDoc V} (hd : d ∈ w.log taskId) (he : e ∈ w.log taskId)
    (hr : d.rev = e.rev) : d = e := by
  obtain ⟨k,hk⟩ := mem_iff_getElem?.1 hd
  obtain ⟨l,hl⟩ := mem_iff_getElem?.1 he
  have hkl : k = l := by
    have h1 := h.numbered taskId k d hk
    have h2 := h.numbered taskId l e hl
    omega
  subst hkl
  rw [hk] at hl
  exact Option.some.inj hl

theorem Tidy.rev_le (h : Tidy w) {d : TaskDoc V} (hd : d ∈ w.log taskId) :
    d.rev ≤ (w.log taskId).length := by
  obtain ⟨k,hk⟩ := mem_iff_getElem?.1 hd
  obtain ⟨_,-⟩ := List.getElem?_eq_some_iff.1 hk
  rw [h.numbered taskId k d hk]
  omega

variable {call : TaskCall V}

theorem Tidy.rev_of_commits (h : Tidy w) (hc : Commits call (w.records call.taskId).doc doc) :
    doc.rev = (w.log call.taskId).length+1 := by
  rw [h.current] at hc
  cases call with
  | insert spec =>
    obtain ⟨hn,-,hr⟩ := hc
    have hnil : w.log spec.taskId = [] := List.getLast?_eq_none_iff.1 hn
    rw [hr,TaskCall.taskId,hnil]
    rfl
  | modify id =>
    obtain ⟨d,hd,-,hr⟩ := hc
    have hpos : 0 < (w.log id).length := by
      cases hl : w.log id with
      | nil => simp [TaskCall.taskId,hl] at hd
      | cons => simp
    rw [List.getLast?_eq_getElem?] at hd
    rw [hr,h.numbered id _ d hd,TaskCall.taskId]
    omega

theorem Tidy.name_of_commits (h : Tidy w) (hc : Commits call (w.records call.taskId).doc doc) :
    doc.spec.taskId = call.taskId := by
  rw [h.current] at hc
  cases call with
  | insert spec =>
    obtain ⟨-,hs,-⟩ := hc
    exact congrArg (fun s => s.spec.taskId) hs
  | modify id =>
    obtain ⟨d,hd,hn,-⟩ := hc
    exact (next_taskId hn).trans (h.named id d (mem_of_getLast? hd))

theorem Tidy.commit (h : Tidy w) (ho : w.owed i = none)
    (hc : Commits call (w.records call.taskId).doc doc) : Tidy (w.commit i call.taskId doc) := by
  have hrev := h.rev_of_commits hc
  have hlog id : (w.commit i call.taskId doc).log id =
      if id = call.taskId then w.log id++[doc] else w.log id := by
    simp only [TaskWorld.commit,update_apply]
    split
    next he => rw [he]
    · rfl
  have howed k : (w.commit i call.taskId doc).owed k =
      if k = i then some (call.taskId,doc) else w.owed k := by
    simp only [TaskWorld.commit,update_apply]
  have hmem {id} {d} (hd : d ∈ (w.commit i call.taskId doc).log id) :
      d ∈ w.log id ∨ id = call.taskId ∧ d = doc := by
    rw [hlog] at hd
    split at hd
    next he =>
      rcases mem_append.1 hd with hd | hd
      · exact .inl hd
      · exact .inr ⟨he,mem_singleton.1 hd⟩
    · exact .inl hd
  have hgrow {id} {d} (hd : d ∈ w.log id) : d ∈ (w.commit i call.taskId doc).log id := by
    rw [hlog]
    split
    · exact mem_append_left _ hd
    · exact hd
  have hnew : doc ∈ (w.commit i call.taskId doc).log call.taskId := by
    rw [hlog,if_pos rfl]
    exact mem_append_right _ (mem_singleton.2 rfl)
  have hfree : w.history call.taskId doc.rev = none := by
    refine Option.eq_none_iff_forall_ne_some.2 fun d hd => ?_
    obtain ⟨hd,_⟩ := h.history _ _ _ hd
    have := h.rev_le hd
    omega
  have hold {k} {id} {d} (hk : w.owed k = some (id,d)) : k ≠ i := by
    rintro rfl
    rw [ho] at hk
    cases hk
  refine ⟨?_,?_,?_,?_,?_,?_,?_⟩
  · intro id
    rw [hlog]
    by_cases hid : id = call.taskId
    · subst hid
      simp [TaskWorld.commit]
    · simp only [TaskWorld.commit,update_of_ne hid,if_neg hid]
      exact h.current id
  · intro id k d hd
    rw [hlog] at hd
    split at hd
    next he =>
      rw [List.getElem?_append] at hd
      split at hd
      · exact h.numbered id k d hd
      next hk =>
        obtain ⟨hlt,heq⟩ := List.getElem?_eq_some_iff.1 hd
        simp only [length_singleton,Nat.lt_one_iff] at hlt
        simp only [hlt,getElem_cons_zero] at heq
        rw [← heq,hrev,← he]
        omega
    · exact h.numbered id k d hd
  · intro id d hd
    obtain hd | ⟨rfl,rfl⟩ := hmem hd
    · exact h.named id d hd
    · exact h.name_of_commits hc
  · intro k id d hk
    rw [howed] at hk
    split at hk
    · cases hk
      exact ⟨hfree,hnew⟩
    · exact ⟨(h.owed k id d hk).1,hgrow (h.owed k id d hk).2⟩
  · have hdiff {k} (hk : w.owed k = some (call.taskId,doc)) : False := by
      have := h.rev_le (h.owed k _ _ hk).2
      omega
    intro k l id d hk hl
    rw [howed] at hk hl
    split at hk
    next hki =>
      cases hk
      split at hl
      next hli => rw [hki,hli]
      · exact (hdiff hl).elim
    · split at hl
      · cases hl
        exact (hdiff hk).elim
      · exact h.single k l id d hk hl
  · exact fun id k d hd => ⟨hgrow (h.history id k d hd).1,(h.history id k d hd).2⟩
  · intro id d hd
    obtain hd | ⟨rfl,rfl⟩ := hmem hd
    · obtain hw | ⟨k,hk⟩ := h.written id d hd
      · exact .inl hw
      · exact .inr ⟨k,by rw [howed,if_neg (hold hk)]; exact hk⟩
    · exact .inr ⟨i,by rw [howed,if_pos rfl]⟩

theorem Tidy.note (h : Tidy w) (ho : w.owed i = some (taskId,doc)) :
    Tidy (w.note i taskId doc.rev doc) := by
  have howed k : (w.note i taskId doc.rev doc).owed k = if k = i then none else w.owed k := by
    simp only [TaskWorld.note,TaskWorld.clear,update_apply]
  have hhist id k : (w.note i taskId doc.rev doc).history id k =
      if id = taskId ∧ k = doc.rev then some doc else w.history id k := by
    simp only [TaskWorld.note]
    by_cases hid : id = taskId
    · subst hid
      simp [update_apply]
    · simp [hid]
  have hmem := (h.owed i taskId doc ho).2
  refine ⟨h.current,h.numbered,h.named,?_,?_,?_,?_⟩
  · intro k id d hk
    rw [howed] at hk
    split at hk
    · cases hk
    next hki =>
      obtain ⟨hn,hd⟩ := h.owed k id d hk
      refine ⟨?_,hd⟩
      rw [hhist,if_neg]
      · exact hn
      rintro ⟨rfl,hr⟩
      cases h.rev_inj hd hmem hr
      exact hki (h.single k i _ _ hk ho)
  · intro k l id d hk hl
    rw [howed] at hk hl
    split at hk
    · cases hk
    · split at hl
      · cases hl
      · exact h.single k l id d hk hl
  · intro id k d hd
    rw [hhist] at hd
    split at hd
    next he =>
      cases hd
      obtain ⟨rfl,rfl⟩ := he
      exact ⟨hmem,rfl⟩
    · exact h.history id k d hd
  · intro id d hd
    by_cases he : id = taskId ∧ d.rev = doc.rev
    · obtain ⟨rfl,hr⟩ := he
      cases h.rev_inj hd hmem hr
      exact .inl (by rw [hhist,if_pos ⟨rfl,rfl⟩])
    obtain hw | ⟨k,hk⟩ := h.written id d hd
    · exact .inl (by rw [hhist,if_neg he]; exact hw)
    refine .inr ⟨k,?_⟩
    rw [howed,if_neg]
    · exact hk
    rintro rfl
    rw [ho] at hk
    cases hk
    exact he ⟨rfl,rfl⟩

end

structure Rely (i : Nat) (w w' : TaskWorld V) : Prop where
  records : ∀ id, Cell.Later (w.records id) (w'.records id)
  owed : w'.owed i = w.owed i

theorem Rely.refl (i : Nat) (w : TaskWorld V) : Rely i w w :=
  ⟨fun _ => Cell.later_refl,rfl⟩

variable {s : Decided V} {attempts : Nat} {found : Option (Versioned (TaskDoc V))}
  {t : Transition V}

theorem Rely.trans {u v} (h : Rely i u v) (k : Rely i v w) : Rely i u w :=
  ⟨fun id => (h.records id).trans (k.records id),k.owed.trans h.owed⟩

def Allowed (i : Nat) : TaskOp V → TaskWorld V → Prop
  | .put call precondition doc, w => w.owed i = none ∧
      ((w.records call.taskId).Meets precondition →
        Commits call (w.records call.taskId).doc doc)
  | .snapshot taskId rev doc, w => w.owed i = some (taskId,doc) ∧ rev = doc.rev
  | _, _ => True

def logic (i : Nat) : Logic (TaskOp V) TaskAns (TaskWorld V) where
  outcome := fun op w x w' => TaskOutcome i op w x w' ∧ Tidy w
  rely := Rely i
  guar := Allowed i
  rely_refl := Rely.refl i
  rely_trans := fun _ _ _ => Rely.trans

theorem later_commit (w : TaskWorld V) (i : Nat) (taskId : String) (doc : TaskDoc V) (id : String) :
    Cell.Later (w.records id) ((w.commit i taskId doc).records id) := by
  by_cases hid : id = taskId
  · subst hid
    simp only [TaskWorld.commit,update_self]
    exact Cell.later_write
  · simp only [TaskWorld.commit,update_of_ne hid]
    exact Cell.later_refl

theorem rely_outcome (h : j ≠ i) {op : TaskOp V} {x : TaskAns op} (ho : TaskOutcome j op w x w') :
    Rely i w w' := by
  cases op with
  | declare | get =>
    obtain ⟨-,rfl⟩ := ho
    exact Rely.refl i _
  | clock =>
    cases ho
    exact Rely.refl i _
  | put _ _ doc =>
    rw [TaskOutcome] at ho
    split at ho
    · obtain ⟨-,rfl⟩ := ho
      exact ⟨later_commit w j _ doc,update_of_ne (Ne.symm h) _ _⟩
    · obtain ⟨-,rfl⟩ := ho
      exact Rely.refl i _
  | snapshot =>
    rw [TaskOutcome] at ho
    split at ho
    all_goals
      obtain ⟨-,rfl⟩ := ho
      exact ⟨fun _ => Cell.later_refl,update_of_ne (Ne.symm h) _ _⟩

theorem Tidy.step (h : Tidy w) {op : TaskOp V} {x : TaskAns op} (hg : Allowed i op w)
    (ho : TaskOutcome i op w x w') : Tidy w' := by
  cases op with
  | declare | get =>
    obtain ⟨-,rfl⟩ := ho
    exact h
  | clock =>
    cases ho
    exact h
  | put =>
    rw [TaskOutcome] at ho
    split at ho
    next hm =>
      obtain ⟨-,rfl⟩ := ho
      exact h.commit hg.1 (hg.2 hm)
    · obtain ⟨-,rfl⟩ := ho
      exact h
  | snapshot id _ doc =>
    obtain ⟨how,rfl⟩ := hg
    rw [TaskOutcome,(h.owed i id doc how).1] at ho
    obtain ⟨-,rfl⟩ := ho
    exact h.note how

def Clear (i : Nat) (w : TaskWorld V) : Prop := w.owed i = none

def Owes (i : Nat) (taskId : String) (doc : TaskDoc V) (w : TaskWorld V) : Prop :=
  w.owed i = some (taskId,doc)

theorem stable_clear : Stable (logic (V := V) i) (Clear i) :=
  fun _ _ hr h => hr.owed.trans h

theorem stable_owes : Stable (logic i) (Owes i taskId doc) :=
  fun _ _ hr h => hr.owed.trans h

def Seen (i : Nat) (taskId : String) (found : Option (Versioned (TaskDoc V))) (w : TaskWorld V) :
    Prop :=
  Clear i w ∧ ∃ c : Cell (TaskDoc V), c.current = found ∧ Cell.Later c (w.records taskId) ∧
    ∀ d ∈ c.doc, d.spec.taskId = taskId

theorem stable_seen : Stable (logic i) (Seen i taskId found) := by
  rintro w w' hr ⟨hc,c,hf,hl,hn⟩
  exact ⟨stable_clear w w' hr hc,c,hf,hl.trans (hr.records taskId),hn⟩

def Ready (i : Nat) (taskId : String) (t : Transition V) (found : Option (Versioned (TaskDoc V)))
    (x : Option (TaskDoc V) × Decided V) (w : TaskWorld V) : Prop :=
  Seen i taskId found w ∧ match x with
  | (none,s) => ∃ e, s = some (.error e)
  | (some doc,s) => Commits (.modify taskId t) (found.map Versioned.doc) doc ∧
      ∃ answer record, s = some (.ok (answer,record)) ∧ doc = .fromRecord record doc.rev ∧
        record.spec.taskId = taskId

def Updated (i : Nat) (taskId : String) (x : Option (TaskDoc V × Nat) × Decided V)
    (w : TaskWorld V) : Prop :=
  match x with
  | (none,s) => Clear i w ∧ ∃ e, s = some (.error e)
  | (some (doc,_),s) => Owes i taskId doc w ∧
      ∃ answer record, s = some (.ok (answer,record)) ∧ doc = .fromRecord record doc.rev ∧
        record.spec.taskId = taskId

def Lost (i : Nat) (e : StorageError) (w : TaskWorld V) : Prop := Clear i w ∧ e = .conflict

theorem stable_ready {x} : Stable (logic i) (Ready i taskId t found x) :=
  fun w w' hr h => ⟨stable_seen w w' hr h.1,h.2⟩

theorem stable_updated {x : Option (TaskDoc V × Nat) × Decided V} :
    Stable (logic i) (Updated i taskId x) := by
  intro w w' hr h
  obtain ⟨_ | ⟨_,_⟩,s⟩ := x
  · exact ⟨stable_clear w w' hr h.1,h.2⟩
  · exact ⟨stable_owes w w' hr h.1,h.2⟩

theorem stable_lost {e} : Stable (logic (V := V) i) (Lost i e) :=
  fun w w' hr h => ⟨stable_clear w w' hr h.1,h.2⟩

theorem named_current (h : Tidy w) : ∀ d ∈ (w.records taskId).doc, d.spec.taskId = taskId := by
  intro d hd
  rw [Option.mem_def,h.current] at hd
  exact h.named taskId d (mem_of_getLast? hd)

theorem safe_change (hw : Seen i taskId found w) :
    Ensures (logic i) (Ready i taskId t found) (Lost i)
      (change taskId t s (found.map Versioned.doc)) w := by
  cases found with
  | none => exact safe_ok stable_ready ⟨hw,_,rfl⟩
  | some v =>
    refine safe_lift stable_seen hw (fun _ _ => trivial) ?_
    rintro u now _ hu ⟨rfl,-⟩
    split
    next answer record ha =>
      refine safe_ok stable_ready ⟨hu,⟨v.doc,rfl,?_,rfl⟩,answer,record,rfl,rfl,?_⟩
      · exact next_of_apply ha
      obtain ⟨-,c,hc,-,hn⟩ := hu
      have hv : v.doc ∈ c.doc := by
        rw [Cell.doc,hc]
        rfl
      exact (next_taskId (next_of_apply ha)).trans (hn _ hv)
    next e ha => exact safe_ok stable_ready ⟨hu,e,rfl⟩

theorem safe_put (hw : Ready i taskId t found (some doc,s) w) :
    Safe (logic i)
      (Ends (fun version => Updated i taskId (some (doc,version),s))
      (fun e v => (e = .conflict → Clear i v) ∧ Lost i e v))
      ((port (.modify taskId t)).put (Cell.condition found) doc) w := by
  intro v hr
  obtain ⟨⟨hc,c,hf,hl,-⟩,hcom,hs⟩ := stable_ready w v hr hw
  subst hf
  refine ⟨⟨hc,fun hm => ?_⟩,?_⟩
  · have hd : (v.records taskId).doc = c.doc := Cell.doc_of_meets hl hm
    exact (show Commits (.modify taskId t) (v.records taskId).doc doc by rw [hd]; exact hcom)
  rintro x _ ⟨ho,-⟩
  rw [TaskOutcome] at ho
  split at ho
  next hm =>
    obtain ⟨rfl,rfl⟩ := ho
    exact safe_ok stable_updated ⟨update_self _ _ _,hs⟩
  next hm =>
    obtain ⟨rfl,rfl⟩ := ho
    refine safe_error (fun u u' hr h => ?_) ⟨fun _ => hc,hc,rfl⟩
    exact ⟨fun he => stable_clear u u' hr (h.1 he),stable_lost u u' hr h.2⟩

theorem safe_update (hw : Clear i w) :
    Ensures (logic i) (Updated i taskId) (Lost i)
      (Repo.update (port (.modify taskId t)) attempts (change taskId t) s) w := by
  have rounds : Repo.Rounds (logic i) (port (.modify taskId t)) (change taskId t)
      (fun _ => Clear i) (fun _ => Seen i taskId) (Ready i taskId t) (Updated i taskId)
      (Lost i) := by
    refine ⟨?_,fun s found w hw => safe_change hw,?_,fun _ _ _ _ hw => safe_put hw,?_⟩
    · intro s w hw v hr
      refine ⟨trivial,?_⟩
      rintro x v' ⟨⟨rfl,rfl⟩,htidy⟩
      refine safe_ok stable_seen ⟨stable_clear w _ hr hw,v'.records taskId,rfl,?_,?_⟩
      · exact Cell.later_refl
      · exact named_current htidy
    · exact fun found s w hw => ⟨hw.1.1,hw.2⟩
    · rintro (e | x) w v hw hr
      · exact stable_lost w v hr hw
      · exact stable_updated w v hr hw
  exact Repo.safe_update rounds hw

def Finished (i : Nat) (r : TaskReply V) (w : TaskWorld V) : Prop :=
  Clear i w ∧ match r with
  | .error (.storage e) => e = .conflict
  | .error (.internal _) => False
  | _ => True

theorem stable_finished {r : TaskReply V} : Stable (logic i) (Finished i r) :=
  fun w w' hr h => ⟨stable_clear w w' hr h.1,h.2⟩

theorem safe_declare (hw : Clear i w) :
    Ensures (logic i) (fun _ => Clear i) (fun _ _ => False) (declare (V := V)) w := by
  refine safe_lift stable_clear hw (fun _ _ => trivial) ?_
  rintro u x _ hu ⟨⟨rfl,rfl⟩,-⟩
  exact safe_done stable_clear hu

theorem safe_snapshot {record} {rev : Nat}
    (hw : Owes i record.spec.taskId (.fromRecord record rev) w) :
    Ensures (logic i) (fun _ => Clear i) (fun _ _ => False) (snapshot record rev) w := by
  refine safe_lift stable_owes hw (fun _ h => ⟨h,rfl⟩) ?_
  rintro u x _ hu ⟨ho,htidy⟩
  rw [TaskOutcome,show u.history _ rev = none from (htidy.owed i _ _ hu).1] at ho
  obtain ⟨rfl,rfl⟩ := ho
  exact safe_done stable_clear (update_self _ _ _)

theorem safe_mapError {α : Type} {Q} {p : Stored V α} (hQ : ∀ a, Stable (logic i) (Q a))
    (h : Ensures (logic i) Q (Lost i) p w) :
    Ensures (logic i) Q (fun e v => ∃ e', e = .storage e' ∧ Lost i e' v) (mapError p) w := by
  refine safe_bind (fun r v hv => ?_) h
  cases r with
  | ok a => exact safe_ok (hQ a) hv
  | error e =>
    refine safe_error ?_ ⟨e,rfl,hv⟩
    exact fun u u' hr ⟨e',he,hl⟩ => ⟨e',he,stable_lost u u' hr hl⟩

theorem safe_answer {record} {rev : Nat} {answer}
    (hw : Owes i record.spec.taskId (.fromRecord record rev) w) :
    Ensures (logic i) (fun a => Finished i (.ok a)) (fun e => Finished i (.error e))
      (do snapshot record rev; return answer : Task V (TaskAnswer V)) w :=
  safe_seq (safe_snapshot hw) (fun _ _ h => h.elim) fun _ _ h => safe_ok stable_finished ⟨h,trivial⟩

theorem safe_modify (hw : Clear i w) :
    Ensures (logic i) (fun a => Finished i (.ok a)) (fun e => Finished i (.error e))
      (modify attempts taskId t) w := by
  refine safe_seq (safe_declare hw) (fun _ _ h => h.elim) fun _ v hv => ?_
  refine safe_seq (safe_mapError (fun _ => stable_updated) (safe_update hv)) ?_ ?_
  · rintro e u ⟨_,rfl,hc,rfl⟩
    exact ⟨hc,rfl⟩
  rintro ⟨_ | ⟨_,_⟩,_⟩ u hu
  · obtain ⟨hc,e,rfl⟩ := hu
    exact safe_error stable_finished ⟨hc,trivial⟩
  obtain ⟨ho,_,_,rfl,hdoc,rfl⟩ := hu
  refine safe_answer (show Owes i _ _ u from ?_)
  rw [← hdoc]
  exact ho

theorem safe_insert {spec} (hw : Clear i w) :
    Ensures (logic i) (fun a => Finished i (.ok a)) (fun e => Finished i (.error e))
      (insert (V := V) spec) w := by
  refine safe_seq (safe_declare hw) (fun _ _ h => h.elim) fun _ v hv => ?_
  refine safe_lift stable_clear hv (fun _ _ => trivial) ?_
  rintro u _ _ hu ⟨rfl,-⟩
  refine safe_lift stable_clear hu (fun v hv => ⟨hv,fun hm => ?_⟩) ?_
  · have hn : (v.records spec.taskId).current = none := hm
    exact ⟨show (v.records spec.taskId).doc = none by rw [Cell.doc,hn]; rfl,rfl,rfl⟩
  rintro v x _ hv ⟨ho,-⟩
  rw [TaskOutcome] at ho
  split at ho
  · obtain ⟨rfl,rfl⟩ := ho
    exact safe_answer (show Owes i spec.taskId _ _ from update_self _ _ _)
  · obtain ⟨rfl,rfl⟩ := ho
    exact safe_error stable_finished ⟨hv,trivial⟩

theorem safe_perform {call : TaskCall V} (hw : Clear i w) :
    Safe (logic i) (Finished i) (perform attempts call).run w := by
  have h : Ensures (logic i) (fun a => Finished i (.ok a)) (fun e => Finished i (.error e))
      (perform attempts call) w := by
    cases call with
    | insert => exact safe_insert hw
    | modify => exact safe_modify hw
  refine safe_mono ?_ h
  rintro (e | a) v hv
  all_goals exact hv

abbrev resting (V : Type) (attempts : Nat) :
    Machine (TaskCall V) (TaskOp V) TaskAns (TaskWorld V) (TaskReply V) :=
  (machine V attempts).starting fun i call w => (machine V attempts).begins i call w ∧ Clear i w

theorem contract (attempts : Nat) :
    (resting V attempts).Contract (fun _ => True) Tidy logic (fun i _ => Finished i) where
  outcome := fun _ _ _ _ _ h ho => ⟨ho,h⟩
  opens := fun _ _ _ _ hb => ⟨trivial,safe_perform hb.2⟩
  keeps := fun _ _ _ _ _ h hg ho => h.step hg ho
  frame := fun _ _ _ _ _ _ _ _ hne _ _ ho => rely_outcome (Ne.symm hne) ho
  env_keeps := fun _ _ h he => he ▸ h
  env_frame := fun i w _ _ he => he ▸ Rely.refl i w

end Tasks
