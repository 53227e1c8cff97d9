import TinyAgents.Interaction.Serial
import TinyAgents.Tasks.Committing

namespace Tasks

open Interaction StorageKit DriverTaskStore List Option Function

variable {V : Type} {w w' : TaskWorld V} {i : Nat} {taskId : String} {doc : TaskDoc V}

section

abbrev Effect (V : Type) := Except LifecycleError (TaskState V)

def refusal (taskId : String) (t : Transition V) : Option (TaskDoc V) → Option LifecycleError
  | none => some (orchestrationNotFound taskId)
  | some doc => match t.next doc.state with
      | .error e => some e
      | .ok _ => none

variable (call : TaskCall V)

def point : (op : TaskOp V) → TaskAns op → Option (Effect V)
  | .get _, x => match call, x with
      | .modify taskId t, .ok found =>
        (refusal taskId t (found.map Versioned.doc)).map Except.error
      | _, _ => none
  | .put _ _ doc, x => match x, call with
      | .ok _, _ => some (.ok doc.state)
      | .error .conflict, .insert spec => some (.error (duplicateTask spec.taskId))
      | _, _ => none
  | _, _ => none

def note (x : Effect V) : Except LifecycleError (TaskView V) :=
  x.map call.view

def result : TaskReply V → Option (Except LifecycleError (TaskView V))
  | .ok answer => some (.ok answer.view)
  | .error (.lifecycle e) => some (.error e)
  | .error _ => none

def able : (op : TaskOp V) → TaskAns op → Prop
  | .declare, x => x = none
  | .clock, _ => True
  | .get _, x => ∃ found, x = .ok found
  | .put _ _ _, x | .snapshot _ _ _, x => x = .error .conflict ∨ ∃ version, x = .ok version

theorem able_of_outcome {op : TaskOp V} {x : TaskAns op} (h : TaskOutcome i op w x w') :
    able op x := by
  cases op with
  | declare => exact h.1
  | clock => trivial
  | get => exact ⟨_,h.1⟩
  | put | snapshot =>
    rw [TaskOutcome] at h
    split at h
    · exact .inr ⟨_,h.1⟩
    · exact .inl h.1

abbrev traced : Logic (TaskOp V) TaskAns (List (Effect V)) :=
  tracing able (gather (point call))

variable {call : TaskCall V} {l : List (Effect V)}

theorem traced_declare : Safe (traced call) (fun r l' => r = .ok () ∧ l' = l) declare.run l := by
  refine tracing_lift ?_
  rintro x rfl
  exact alone_ret ⟨rfl,append_nil l⟩

theorem traced_answer {record} {rev : Nat} {answer}
    (h : Matched note result call (.ok answer) l) : Safe (traced call) (Matched note result call)
      (do snapshot record rev; return answer : Task V (TaskAnswer V)).run l := by
  refine tracing_lift ?_
  rintro x (rfl | ⟨_,rfl⟩)
  all_goals
    refine alone_ret ?_
    change Matched note result call _ (l++[])
    rwa [append_nil]

theorem traced_insert {spec} :
    Safe (traced (.insert spec)) (Matched note result (.insert spec))
      (insert (V := V) spec).run [] := by
  refine alone_then traced_declare (fun _ _ hv => by cases hv.1) ?_
  rintro _ _ ⟨-,rfl⟩
  refine tracing_lift fun _ _ => tracing_lift ?_
  rintro x (rfl | ⟨_,rfl⟩)
  · exact alone_ret rfl
  · exact traced_answer rfl

def Settles (call : TaskCall V) : Option (TaskState V) × Decided V → List (Effect V) → Prop
  | (none,s), l => ∃ e, s = some (.error e) ∧ l = [.error e]
  | (some state,s), l => ∃ answer record, s = some (.ok (answer,record)) ∧
      record.state = state ∧ answer.view = call.view state ∧ l = [.ok state]

variable {attempts : Nat}

theorem traced_update {t} {s : Decided V} :
    Ensures (traced (.modify taskId t))
      (fun x l => Settles (.modify taskId t) (x.1.map fun y => y.1.state,x.2) l) (fun _ l => l = [])
      (Repo.update (port (.modify taskId t)) attempts (change taskId t) s) [] := by
  have rounds : Repo.Rounds (traced (.modify taskId t)) (port (.modify taskId t))
      (change taskId t) (fun _ l => l = [])
      (fun _ found l =>
        l = ((refusal taskId t (found.map Versioned.doc)).map Except.error).toList)
      (fun found x l => x.1.elim (∃ e, x.2 = some (.error e) ∧ l = [.error e]) fun doc =>
        l = [] ∧ Settles (.modify taskId t) (some doc.state,x.2) [.ok doc.state])
      (fun x l => Settles (.modify taskId t) (x.1.map fun y => y.1.state,x.2) l)
      (fun _ l => l = []) := by
    refine ⟨?_,?_,?_,?_,?_⟩
    · rintro s _ rfl
      refine alone_ask trivial ?_
      rintro x _ ⟨⟨_,rfl⟩,rfl⟩
      exact alone_ret (nil_append _)
    · rintro s found l rfl
      cases found with
      | none => exact alone_ret ⟨_,rfl,rfl⟩
      | some v =>
        refine tracing_lift fun now _ => ?_
        split
        next answer record ha =>
          refine alone_ret ⟨?_,answer,record,rfl,rfl,apply_view ha,rfl⟩
          have hn : t.next v.doc.state = .ok record.state := next_of_apply ha
          simp only [refusal,map_some,hn,gather,point]
          rfl
        next e ha =>
          refine alone_ret ⟨e,rfl,?_⟩
          have hn : t.next v.doc.state = .error e := next_of_apply_error ha
          simp only [refusal,map_some,hn,gather,point]
          rfl
    · exact fun _ _ _ h => h
    · rintro _ _ s _ ⟨rfl,hs⟩
      refine alone_ask trivial ?_
      rintro x _ ⟨rfl | ⟨_,rfl⟩,rfl⟩
      · exact alone_ret ⟨fun _ => rfl,rfl⟩
      · exact alone_ret hs
    · rintro r l _ h rfl
      exact h
  exact Repo.safe_update rounds rfl

theorem traced_modify {t : Transition V} :
    Safe (traced (.modify taskId t)) (Matched note result (.modify taskId t))
      (modify attempts taskId t).run [] := by
  refine alone_then traced_declare (fun _ _ hv => by cases hv.1) ?_
  rintro _ _ ⟨-,rfl⟩
  have hmap : Safe (traced (.modify taskId t)) (fun r l => match r with
      | .ok x => Settles (.modify taskId t) (x.1.map fun y => y.1.state,x.2) l
      | .error e => l = [] ∧ ∃ e', e = .storage e')
      (mapError (Repo.update (port (.modify taskId t)) attempts (change taskId t) none)).run
      [] := by
    refine safe_bind (fun r l hr => ?_) traced_update
    cases r with
    | ok => exact alone_ret hr
    | error e => exact alone_ret ⟨hr,e,rfl⟩
  refine alone_then hmap ?_ ?_
  · rintro e l ⟨rfl,_,rfl⟩
    rfl
  rintro ⟨_ | ⟨_,_⟩,_⟩ l hl
  · obtain ⟨e,rfl,rfl⟩ := hl
    exact alone_ret rfl
  obtain ⟨_,_,rfl,_,hview,rfl⟩ := hl
  refine traced_answer ?_
  simp only [Matched,note,result,map_cons,map_nil,Except.map,hview]
  rfl

theorem traced_perform {call : TaskCall V} :
    Safe (traced call) (Matched note result call) (perform attempts call).run [] := by
  cases call with
  | insert => exact traced_insert
  | modify => exact traced_modify

end

def TaskCall.Requests (call : TaskCall V) : TaskOp V → Prop
  | .get taskId => taskId = call.taskId
  | .put call' precondition _ => call' = call ∧ ∀ spec, call = .insert spec → precondition = .absent
  | _ => True

variable {call : TaskCall V}

theorem asks_declare : Asks call.Requests declare.run := by
  refine asks_perform trivial fun x => ?_
  cases x <;> trivial

theorem asks_snapshot {record} {rev : Nat} : Asks call.Requests (snapshot record rev).run := by
  refine asks_perform trivial fun x => ?_
  rcases x with e | _
  · cases e <;> trivial
  · trivial

theorem asks_own (attempts : Nat) (call : TaskCall V) :
    Asks call.Requests (perform attempts call).run := by
  cases call with
  | insert =>
    refine asks_try asks_declare fun _ => asks_perform trivial fun _ => ?_
    refine asks_perform ⟨rfl,fun _ _ => rfl⟩ fun x => ?_
    rcases x with e | version
    · cases e <;> trivial
    · exact asks_try asks_snapshot fun _ => trivial
  | modify taskId t =>
    have hupdate : Asks (TaskCall.modify taskId t).Requests
        (Repo.update (port (.modify taskId t)) attempts (change taskId t) none).run := by
      refine Repo.asks_update ?_ (fun _ doc => ?_) fun _ found => ?_
      · exact ⟨rfl,fun _ => trivial⟩
      · exact ⟨⟨rfl,fun _ h => by cases h⟩,fun _ => trivial⟩
      cases found with
      | none => trivial
      | some doc =>
        refine asks_perform trivial fun now => ?_
        dsimp only [ExceptT.bindCont]
        split <;> trivial
    refine asks_try asks_declare fun _ => asks_try ?_ fun x => ?_
    · exact asks_bind hupdate fun _ => trivial
    obtain ⟨stored,decided⟩ := x
    rcases decided with _ | e | ⟨_,_⟩
    · trivial
    · trivial
    rcases stored with _ | ⟨doc,version⟩
    · trivial
    · exact asks_try asks_snapshot fun _ => trivial

section

def view (w : TaskWorld V) : TaskStates V :=
  fun taskId => (w.records taskId).doc.map TaskDoc.state

theorem view_of_doc {found} (h : (w.records taskId).doc = found) :
    view w taskId = found.map TaskDoc.state := by
  rw [view,h]

theorem view_commit (w : TaskWorld V) (i : Nat) (taskId : String) (doc : TaskDoc V) :
    view (w.commit i taskId doc) = update (view w) taskId (some doc.state) := by
  funext id
  by_cases hid : id = taskId
  · subst hid
    simp [view,TaskWorld.commit]
  · simp [view,TaskWorld.commit,hid]

theorem serve_of_commits {call : TaskCall V} (h : Commits call (w.records call.taskId).doc doc) :
    call.serve (view w) = (.ok doc.state,view (w.commit i call.taskId doc)) := by
  rw [view_commit]
  cases call with
  | insert spec =>
    obtain ⟨hn,hs,-⟩ := h
    have hv : view w spec.taskId = none := view_of_doc hn
    simp only [TaskCall.serve,hv,hs,TaskCall.taskId]
    rfl
  | modify taskId =>
    obtain ⟨d,hd,hn,-⟩ := h
    have hv : view w taskId = some d.state := view_of_doc hd
    simp only [TaskCall.serve,hv,hn,TaskCall.taskId]

variable {call : TaskCall V} {op : TaskOp V} {x : TaskAns op}

theorem serve_of_point {a : Effect V} (hreq : call.Requests op) (hg : Allowed i op w)
    (ho : TaskOutcome i op w x w') (hp : point call op x = some a) :
    call.serve (view w) = (a,view w') := by
  cases op with
  | declare | clock | snapshot => cases hp
  | get taskId =>
    obtain ⟨rfl,rfl⟩ := ho
    cases hreq
    cases call with
    | insert => cases hp
    | modify taskId t =>
      simp only [point] at hp
      obtain ⟨e,he,rfl⟩ := map_eq_some_iff.1 hp
      change refusal taskId t (w'.records taskId).doc = some e at he
      cases hd : (w'.records taskId).doc with
      | none =>
        rw [hd] at he
        cases he
        simp only [TaskCall.serve,view_of_doc hd,map_none]
      | some d =>
        rw [hd,refusal] at he
        split at he
        next hn =>
          cases he
          simp only [TaskCall.serve,view_of_doc hd,map_some,hn]
        · cases he
  | put call' _ doc =>
    obtain ⟨rfl,habs⟩ := hreq
    rw [TaskOutcome] at ho
    split at ho
    next hm =>
      obtain ⟨rfl,rfl⟩ := ho
      cases hp
      exact serve_of_commits (hg.2 hm)
    next hm =>
      obtain ⟨rfl,rfl⟩ := ho
      cases call' with
      | modify => cases hp
      | insert spec =>
        cases hp
        obtain rfl := habs spec rfl
        have hv : (view w' spec.taskId).isSome := by
          rw [view,isSome_map,Cell.doc,isSome_map]
          exact isSome_iff_ne_none.2 hm
        simp only [TaskCall.serve,hv,if_true]

theorem view_of_no_point (ho : TaskOutcome i op w x w') (hp : point call op x = none) :
    view w' = view w := by
  cases op with
  | declare | get =>
    obtain ⟨-,rfl⟩ := ho
    rfl
  | clock =>
    cases ho
    rfl
  | put =>
    rw [TaskOutcome] at ho
    split at ho
    · obtain ⟨rfl,-⟩ := ho
      cases hp
    · obtain ⟨-,rfl⟩ := ho
      rfl
  | snapshot =>
    rw [TaskOutcome] at ho
    split at ho <;> (obtain ⟨-,rfl⟩ := ho; rfl)

def committed (taskId : String) (order : List (Nat × TaskCall V × Effect V)) : List (TaskState V) :=
  order.filterMap fun e => if e.2.1.taskId = taskId then e.2.2.toOption else none

theorem log_of_point (hreq : call.Requests op) (ho : TaskOutcome i op w x w') {id : String} :
    (w'.log id).map TaskDoc.state = (w.log id).map TaskDoc.state++
      committed id ((point call op x).map fun a => (i,call,a)).toList := by
  have same : (w.log id).map TaskDoc.state = (w.log id).map TaskDoc.state++[] :=
    (append_nil _).symm
  cases op with
  | declare =>
    obtain ⟨-,rfl⟩ := ho
    exact same
  | get taskId =>
    obtain ⟨rfl,rfl⟩ := ho
    have hnone : committed id ((point call (.get taskId)
        (.ok (w'.records taskId).current)).map fun a => (i,call,a)).toList = [] := by
      cases call with
      | insert => rfl
      | modify taskId' t =>
        simp only [point]
        cases refusal taskId' t _ <;> simp [committed,Except.toOption]
    rw [hnone]
    exact same
  | clock =>
    cases ho
    exact same
  | put call' =>
    obtain ⟨rfl,-⟩ := hreq
    rw [TaskOutcome] at ho
    split at ho
    · obtain ⟨rfl,rfl⟩ := ho
      by_cases hid : call'.taskId = id
      · subst hid
        simp [TaskWorld.commit,point,committed,Except.toOption]
      · simp [TaskWorld.commit,point,committed,hid,update_of_ne (Ne.symm hid)]
    · obtain ⟨rfl,rfl⟩ := ho
      cases call' <;> simp [point,committed,Except.toOption]
  | snapshot =>
    rw [TaskOutcome] at ho
    split at ho <;> (obtain ⟨-,rfl⟩ := ho; exact same)

def lost : (op : TaskOp V) → TaskAns op → Nat → Nat
  | .put _ _ _, .error .conflict, n => n+1
  | _, _, n => n

def losses (es : List (Exchange (TaskOp V) TaskAns (TaskWorld V))) : Nat :=
  es.foldr (fun e => lost e.op e.answer) 0

abbrev losing : Logic (TaskOp V) TaskAns Nat := tracing able lost

variable {t : Transition V} {n : Nat}

theorem losing_declare : Safe losing (fun r k => r = .ok () ∧ k = n) (declare (V := V)).run n := by
  refine tracing_lift ?_
  rintro x rfl
  exact alone_ret ⟨rfl,rfl⟩

theorem losing_snapshot {record : OrchestrationTaskRecord V} {rev : Nat} :
    Safe losing (fun r _ => r = .ok ()) (snapshot record rev).run n := by
  refine tracing_lift ?_
  rintro x (rfl | ⟨_,rfl⟩)
  all_goals exact alone_ret rfl

variable {s : Decided V}

theorem losing_change {found} :
    Safe losing (fun r k => ∃ x, r = .ok x ∧ k = n) (change taskId t s found).run n := by
  cases found with
  | none => exact alone_ret ⟨_,rfl,rfl⟩
  | some doc =>
    refine tracing_lift fun now _ => ?_
    split
    all_goals exact alone_ret ⟨_,rfl,rfl⟩

theorem losing_round {left : Nat} {again}
    (h : ∀ s, Safe losing (fun r k => ∀ e, r = .error e → k = n+1+left) (again s).run (n+1)) :
    Safe losing (fun r k => ∀ e, r = .error e → k = n+1+left)
      (Repo.round (port (.modify taskId t)) (change taskId t) s again).run n := by
  have hget : Safe losing (fun r k => ∃ found, r = .ok found ∧ k = n)
      (ExceptT.mk (port (.modify taskId t)).get : Stored V _).run n := by
    refine alone_ask trivial ?_
    rintro x _ ⟨⟨found,rfl⟩,rfl⟩
    exact alone_ret ⟨found,rfl,rfl⟩
  refine alone_then hget (by rintro e v ⟨found,hf,-⟩; cases hf) ?_
  rintro _ _ ⟨_,-,rfl⟩
  refine alone_then losing_change (by rintro e v ⟨x,hx,-⟩; cases hx) ?_
  rintro ⟨_ | _,s⟩ _ ⟨_,-,rfl⟩
  · exact alone_ret (by simp)
  refine alone_ask trivial ?_
  rintro x _ ⟨rfl | ⟨_,rfl⟩,rfl⟩
  · exact h s
  · exact alone_ret (by simp)

theorem losing_update {attempts : Nat} :
    Safe losing (fun r k => ∀ e, r = .error e → k = max attempts 1)
      (Repo.update (port (.modify taskId t)) attempts (change taskId t) s).run 0 := by
  have from_left left : ∀ (n : Nat) (s : Decided V),
      Safe losing (fun r k => ∀ e, r = .error e → k = n+1+left)
        (Repo.updateFrom (port (.modify taskId t)) (change taskId t) left s).run n := by
    induction left with
    | zero =>
      intro n s
      exact losing_round fun s => alone_ret fun _ _ => rfl
    | succ _ ih =>
      intro n s
      refine losing_round fun s => safe_mono (fun r k hk e he => ?_) (ih (n+1) s)
      rw [hk e he]
      omega
  refine safe_mono (fun r k hk e he => ?_) (from_left (max attempts 1-1) 0 s)
  rw [hk e he]
  omega

theorem losing_perform (attempts : Nat) (call : TaskCall V) :
    Safe losing (fun r k => ∀ e, r = .error (.storage e) → k = max attempts 1)
      (perform attempts call).run 0 := by
  cases call with
  | insert =>
    refine alone_then losing_declare (fun _ _ h => by cases h.1) ?_
    rintro _ _ ⟨-,rfl⟩
    refine tracing_lift fun _ _ => tracing_lift ?_
    rintro x (rfl | ⟨version,rfl⟩)
    · exact alone_ret (by simp)
    · refine alone_then losing_snapshot (fun _ _ h => by cases h) fun _ _ _ => ?_
      exact alone_ret (by simp)
  | modify taskId t =>
    refine alone_then losing_declare (fun _ _ h => by cases h.1) ?_
    rintro _ _ ⟨-,rfl⟩
    have hmap : Safe losing (fun r k => ∀ e, r = .error e → k = max attempts 1)
        (mapError (Repo.update (port (.modify taskId t)) attempts (change taskId t) none)).run
        0 := by
      refine safe_bind (fun r k hr => ?_) losing_update
      cases r with
      | ok => exact alone_ret fun e he => by cases he
      | error e => exact alone_ret fun _ _ => hr e rfl
    refine alone_then hmap (fun e k hk _ he => hk e rfl) fun x k _ => ?_
    obtain ⟨stored,decided⟩ := x
    rcases decided with _ | e | ⟨_,_⟩
    · exact alone_ret (by simp)
    · exact alone_ret (by simp)
    rcases stored with _ | ⟨_,version⟩
    · exact alone_ret (by simp)
    · refine alone_then losing_snapshot (fun _ _ h => by cases h) fun _ _ _ => ?_
      exact alone_ret (by simp)

end

section

structure Consistent (w : TaskWorld V) : Prop where
  current : ∀ id, (w.records id).doc = (w.log id).getLast?
  numbered : ∀ id k (d : TaskDoc V), (w.log id)[k]? = some d → d.rev = k+1
  named : ∀ id, ∀ d ∈ w.log id, d.spec.taskId = id
  history : ∀ id k, w.history id k = if k = 0 then none else (w.log id)[k-1]?
  owed : ∀ i, w.owed i = none

theorem Consistent.tidy (h : Consistent w) : Tidy w where
  current := h.current
  numbered := h.numbered
  named := h.named
  owed := fun i id d hi => by
    rw [h.owed i] at hi
    cases hi
  single := fun i j id d hi => by
    rw [h.owed i] at hi
    cases hi
  history := fun id k d hd => by
    rw [h.history] at hd
    split at hd
    · cases hd
    next hk =>
      refine ⟨mem_of_getElem? hd,?_⟩
      rw [h.numbered id _ d hd]
      omega
  written := fun id d hd => by
    obtain ⟨k,hk⟩ := mem_iff_getElem?.1 hd
    have hr := h.numbered id k d hk
    refine .inl ?_
    rw [h.history,hr,if_neg (Nat.succ_ne_zero k)]
    exact hk

theorem Tidy.consistent (h : Tidy w) (ho : ∀ i, w.owed i = none) : Consistent w := by
  refine ⟨h.current,h.numbered,h.named,fun id k => ?_,ho⟩
  by_cases hk : k = 0
  · rw [if_pos hk]
    refine eq_none_iff_forall_ne_some.2 fun d hd => ?_
    obtain ⟨hmem,rfl⟩ := h.history id k d hd
    obtain ⟨l,hl⟩ := mem_iff_getElem?.1 hmem
    have := h.numbered id l d hl
    omega
  · rw [if_neg hk]
    cases hl : (w.log id)[k-1]? with
    | none =>
      refine eq_none_iff_forall_ne_some.2 fun d hd => ?_
      obtain ⟨hmem,rfl⟩ := h.history id k d hd
      have := h.rev_le hmem
      rw [List.getElem?_eq_none_iff] at hl
      omega
    | some d =>
      have hr := h.numbered id _ d hl
      obtain hw | ⟨i,hi⟩ := h.written id d (mem_of_getElem? hl)
      · rw [← hw,hr]
        congr 1
        omega
      · rw [ho i] at hi
        cases hi

abbrev Instant (V : Type) := Moment (TaskCall V) (TaskOp V) TaskAns (TaskWorld V) (TaskReply V)
abbrev Handles (V : Type) := Config (TaskCall V) (TaskOp V) TaskAns (TaskWorld V) (TaskReply V)

variable (attempts : Nat) (ms : List (Instant V))

def Uncut : Prop := ∀ m ∈ ms, ∀ i call, m.event ≠ .crash i call

abbrev order : List (Nat × TaskCall V × Effect V) := serial point ms

def Replayed (states states' : TaskStates V) (l : List (Nat × TaskCall V × Effect V)) : Prop :=
  ∀ (store : InMemoryTaskStore V) (nows : List Nat), InMemoryTaskStore.states store = states →
    nows.length = l.length →
    (InMemoryTaskStore.replay (nows.zip (l.map fun e => e.2.1)) store).1.map
        (Except.map TaskAnswer.view) = l.map (fun e => note e.2.1 e.2.2) ∧
      InMemoryTaskStore.states
        (InMemoryTaskStore.replay (nows.zip (l.map fun e => e.2.1)) store).2 = states'

def InOrder (c : Handles V) (i : Nat) : Prop :=
  ∃ done underway, only i (order ms) = done++underway ∧
    done.map (fun e => (e.1,note e.1 e.2)) = only i (answered result ms) ∧
    (c.thread i = none → underway = [])

def SettledOnce (l : List (Nat × TaskCall V × Effect V)) : Prop :=
  ∀ l1 e l2 s, l = l1++e :: l2 → e.2.2 = .ok s → s.status.isTerminal = true →
    ∀ e' ∈ l2, e'.2.1.taskId = e.2.1.taskId → ∃ error, e'.2.2 = .error error

def LostAll : Prop :=
  ∀ ms1 m ms2 i call e, ms = ms1++m :: ms2 → m.event = .finish i call (.error e) →
    (∀ e', e ≠ .lifecycle e') →
    e = .storage .conflict ∧ losses (own i ms1) = max attempts 1

structure Serial (w : TaskWorld V) (ms : List (Instant V)) (c : Handles V) : Prop where
  replayed : Replayed (view w) (view c.world) (order ms)
  calls : ∀ i, InOrder ms c i
  settled : SettledOnce (order ms)
  lost : LostAll attempts ms
  history : (∀ i, c.thread i = none) → Consistent c.world ∧ ∀ id,
    (c.world.log id).map TaskDoc.state =
      (w.log id).map TaskDoc.state++committed id (order ms)

abbrev serves : TaskStates V → TaskCall V → Effect V × TaskStates V :=
  fun states call => call.serve states

variable {call : TaskCall V} {s : TaskState V} {states states' : TaskStates V}

theorem replayed_of_replies {l} (h : Replies serves states (l.map Prod.snd) states') :
    Replayed states states' l := by
  intro store nows hs hl
  induction l generalizing store nows states with
  | nil =>
    cases h
    rw [length_eq_zero_iff.1 hl]
    exact ⟨rfl,hs⟩
  | cons e _ ih =>
    obtain ⟨i,call,a⟩ := e
    cases nows with
    | nil => cases hl
    | cons now nows =>
      obtain ⟨ha,hrest⟩ := h
      obtain ⟨hview,hstates⟩ := perform_serve
      rw [hs] at hview hstates
      obtain ⟨h1,h2⟩ := ih hrest (store.perform now call).2 nows hstates (Nat.succ.inj hl)
      refine ⟨?_,h2⟩
      simp only [map_cons,zip_cons_cons,InMemoryTaskStore.replay,List.cons.injEq]
      refine ⟨?_,h1⟩
      rw [hview,note]
      exact congrArg (Except.map call.view) ha

theorem serve_frame (h : call.taskId ≠ taskId) : (call.serve states).2 taskId = states taskId := by
  cases call with
  | insert =>
    simp only [TaskCall.serve]
    split
    · rfl
    · exact update_of_ne (Ne.symm h) _ _
  | modify =>
    simp only [TaskCall.serve]
    split
    · rfl
    split
    · exact update_of_ne (Ne.symm h) _ _
    · rfl

theorem serve_of_terminal (hs : states call.taskId = some s) (ht : s.status.isTerminal) :
    ∃ error, call.serve states = (.error error,states) := by
  cases call with
  | insert spec =>
    refine ⟨duplicateTask spec.taskId,?_⟩
    rw [TaskCall.serve,if_pos]
    rw [show states spec.taskId = some s from hs]
    rfl
  | modify id t =>
    obtain ⟨e,he⟩ := next_of_terminal t ht
    refine ⟨e,?_⟩
    simp only [TaskCall.serve,show states id = some s from hs,he]

theorem serve_ok (h : (call.serve states).1 = .ok s) :
    (call.serve states).2 call.taskId = some s := by
  cases call with
  | insert =>
    simp only [TaskCall.serve] at h ⊢
    split at h
    · cases h
    next hn =>
      cases h
      rw [if_neg hn]
      exact update_self _ _ _
  | modify =>
    simp only [TaskCall.serve] at h ⊢
    split at h
    · cases h
    next r _ =>
      split at h
      · cases h
        exact update_self _ _ _
      · cases h

theorem error_of_terminal {l} (h : Replies serves states l states') (hs : states taskId = some s)
    (ht : s.status.isTerminal) : ∀ e ∈ l, e.1.taskId = taskId → ∃ error, e.2 = .error error := by
  induction l generalizing states with
  | nil => simp
  | cons e _ ih =>
    obtain ⟨call,a⟩ := e
    obtain ⟨ha,hrest⟩ := h
    by_cases hid : call.taskId = taskId
    · subst hid
      obtain ⟨error,he⟩ := serve_of_terminal hs ht
      simp only [serves,he] at ha hrest
      intro e hmem hid
      rcases mem_cons.1 hmem with rfl | hmem
      · exact ⟨error,ha.symm⟩
      · exact ih hrest hs e hmem hid
    · intro e hmem he
      rcases mem_cons.1 hmem with rfl | hmem
      · exact absurd he hid
      · exact ih hrest ((serve_frame hid).trans hs) e hmem he

theorem settledOnce_of_replies {l} (h : Replies serves states (l.map Prod.snd) states') :
    SettledOnce l := by
  rintro _ ⟨i,_,a⟩ _ s rfl ha ht e' hmem hid
  rw [map_append] at h
  obtain ⟨_,-,hrest⟩ := h.split
  obtain ⟨hserve,hrest⟩ := hrest
  have hs := serve_ok (hserve.trans ha)
  exact error_of_terminal hrest hs ht e'.2 (mem_map_of_mem hmem) hid

theorem request_facts {attempts : Nat} {ms} {c : Handles V}
    (hr : (resting V attempts).Run (.idle w) ms c) (hw : Tidy w) :
    ∀ m ∈ ms, ∀ i call op x, m.event = .did i call op x → call.Requests op ∧ Allowed i op m.before ∧
    TaskOutcome i op m.before x m.after := by
  intro m hm i call op x he
  have hkept := (hr.sound (contract attempts) (Machine.sound_idle hw)).2 m hm
  obtain ⟨-,-,hkept⟩ := hkept
  rw [he] at hkept
  exact ⟨(hr.asks (asks_own attempts)).2 m hm i call op x he,hkept.1,hkept.2⟩

variable {attempts : Nat} {ms : List (Instant V)} {c : Handles V}

section

variable (hr : (resting V attempts).Run (.idle w) ms c)

include hr

theorem replies_of_run (hw : Tidy w) :
    Replies serves (view w) ((order ms).map Prod.snd) (view c.world) := by
  refine hr.replies view ?_ ?_
  · intro m hm i call a hp
    obtain ⟨op,x,he,hp⟩ := Moment.effect_eq_some hp
    obtain ⟨hreq,hg,ho⟩ := request_facts hr hw m hm i call op x he
    exact serve_of_point hreq hg ho hp
  · intro m hm hp
    obtain ⟨i,call,op,x,he⟩ | ⟨hq,-⟩ := Moment.effect_cases point m
    · obtain ⟨-,-,ho⟩ := request_facts hr hw m hm i call op x he
      have hn : point call op x = none := by simpa [Moment.effect,he] using hp
      exact view_of_no_point ho hn
    · rw [hr.still (fun _ _ he => he) m hm hq]

theorem log_of_run (hw : Tidy w) (id : String) :
    (c.world.log id).map TaskDoc.state = (w.log id).map TaskDoc.state++committed id (order ms) := by
  refine hr.history (P := fun ns v => (v.log id).map TaskDoc.state =
    (w.log id).map TaskDoc.state++committed id (order ns)) (append_nil _).symm ?_
  intro ns m hm ih
  have happ : committed id (order (ns++[m])) =
      committed id (order ns)++committed id (m.effect point).toList := by
    rw [order,serial_snoc,committed,filterMap_append]
    rfl
  rw [happ,← append_assoc,← ih]
  obtain ⟨i,call,op,x,he⟩ | ⟨hq,hn⟩ := Moment.effect_cases point m
  · obtain ⟨hreq,-,ho⟩ := request_facts hr hw m hm i call op x he
    have heff : m.effect point = (point call op x).map fun a => (i,call,a) := by
      rw [Moment.effect,he]
    rw [heff]
    exact log_of_point hreq ho
  · rw [hr.still (fun _ _ he => he) m hm hq,hn]
    exact (append_nil _).symm

theorem inOrder_of_run (hcut : Uncut ms) (i : Nat) : InOrder ms c i := by
  obtain ⟨done,underway,hs,hd,hu⟩ := hr.placed
    (fun i _ w x _ ho => able_of_outcome ho) (fun _ => traced_perform) hcut i
  refine ⟨done,underway,hs,hd,fun ht => ?_⟩
  rw [ht] at hu
  exact hu

theorem lostAll_of_run (hw : Tidy w) : LostAll attempts ms := by
  rintro _ m _ i call e rfl he hlife
  have hkept := (hr.sound (contract attempts) (Machine.sound_idle hw)).2 m (by simp)
  obtain ⟨-,-,hkept⟩ := hkept
  rw [he] at hkept
  obtain ⟨⟨-,hfin⟩,-⟩ := hkept
  cases e with
  | lifecycle e' => exact absurd rfl (hlife e')
  | internal => exact hfin.elim
  | storage e =>
    refine ⟨by rw [show e = .conflict from hfin],?_⟩
    have hrec call : Safe (recording ((resting V attempts).answers i))
        (fun r es => ∀ e, r = .error (.storage e) → losses es = max attempts 1)
        (perform attempts call).run [] := by
      have h := losing_perform attempts call
      exact tracing_recorded (fun x hx => able_of_outcome hx) h
    exact hr.finish_own hrec he e rfl

end

end

def serveOp (i : Nat) : (op : TaskOp V) → TaskWorld V → Option (TaskAns op × TaskWorld V)
  | .declare, w => some (none,w)
  | .clock, w => some (0,w)
  | .get taskId, w => some (.ok (w.records taskId).current,w)
  | .put call precondition doc, w =>
    if (w.records call.taskId).Meets precondition then
      some (.ok (w.records call.taskId).next,w.commit i call.taskId doc)
    else some (.error .conflict,w)
  | .snapshot taskId rev doc, w => match w.history taskId rev with
      | none => some (.ok 0,w.note i taskId rev doc)
      | some _ => some (.error .conflict,w.clear i)

theorem serveOp_outcome {op : TaskOp V} {x : TaskAns op} (h : serveOp i op w = some (x,w')) :
    TaskOutcome i op w x w' := by
  cases op with
  | declare | get =>
    cases h
    exact ⟨rfl,rfl⟩
  | clock =>
    cases h
    rfl
  | put =>
    simp only [serveOp] at h
    rw [TaskOutcome]
    split at h
    next hm =>
      cases h
      rw [if_pos hm]
      exact ⟨rfl,rfl⟩
    next hm =>
      cases h
      rw [if_neg hm]
      exact ⟨rfl,rfl⟩
  | snapshot id rev =>
    rw [TaskOutcome]
    cases hd : w.history id rev with
    | none | some =>
      simp only [serveOp,hd] at h
      cases h
      exact ⟨rfl,rfl⟩

def driver : Driver (TaskOp V) TaskAns (TaskWorld V) where
  perform := serveOp

theorem driver_fits (attempts : Nat) : driver.Fits (machine V attempts) where
  perform := fun _ _ _ _ _ h => serveOp_outcome h

def firstDoc : TaskDoc Unit :=
  .fromRecord (.pending 0 ⟨"t",.tool "x",none⟩) 1

def oneTask : TaskWorld Unit where
  records := update (fun _ => Cell.empty) "t" (Cell.empty.write firstDoc)
  history := update (fun _ _ => none) "t" (update (fun _ => none) 1 (some firstDoc))
  log := update (fun _ => []) "t" [firstDoc]
  owed := fun _ => none

theorem consistent_oneTask : Consistent oneTask := by
  refine ⟨fun id => ?_,fun id k d hd => ?_,fun id d hd => ?_,fun id k => ?_,fun _ => rfl⟩
  · by_cases hid : id = "t"
    · subst hid
      simp [oneTask]
    · simp [oneTask,hid,Cell.doc,Cell.empty]
  · by_cases hid : id = "t"
    · subst hid
      simp only [oneTask,update_self] at hd
      obtain ⟨hlt,rfl⟩ := List.getElem?_eq_some_iff.1 hd
      simp only [length_singleton,Nat.lt_one_iff] at hlt
      subst hlt
      rfl
    · simp [oneTask,hid] at hd
  · by_cases hid : id = "t"
    · subst hid
      simp only [oneTask,update_self,mem_singleton] at hd
      rw [hd]
      rfl
    · simp [oneTask,hid] at hd
  · by_cases hid : id = "t"
    · subst hid
      obtain _ | _ | k := k
      · rfl
      · rfl
      · simp [oneTask]
    · simp [oneTask,hid]

def cancelBetween : List (Choice (TaskCall Unit)) :=
  [.start 0 (.modify "t" (.complete ⟨some "done",none⟩)),.act 0 3,
    .start 1 (.modify "t" .requestCancel),.complete 1 9,.complete 0 9]

def overtaken : List (Choice (TaskCall Unit)) :=
  [.start 0 (.modify "t" (.setTimeoutMs 0)),.act 0 3]++
    (List.replicate 31 [.start 1 (.modify "t" (.setTimeoutMs 1)),.complete 1 9,.act 0 3]).flatten++
    [.start 1 (.modify "t" (.setTimeoutMs 1)),.complete 1 9,.complete 0 9]

def SetsTimeout (call : TaskCall V) (taskId : String) : Prop :=
  ∃ n, call = .modify taskId (.setTimeoutMs n)

def setsTimeout (call : TaskCall V) (taskId : String) : Bool :=
  match call with
  | .modify id (.setTimeoutMs _) => decide (id = taskId)
  | _ => false

theorem setsTimeout_iff (h : setsTimeout call taskId) : SetsTimeout call taskId := by
  unfold setsTimeout at h
  split at h
  next n =>
    cases of_decide_eq_true h
    exact ⟨n,rfl⟩
  · cases h

theorem replay_setsTimeout {l} (hl : ∀ e ∈ l, SetsTimeout e.2 taskId) {store} {s : TaskState V}
    (hs : store.states taskId = some s) (hlive : s.status.isTerminal = false) :
    ∀ answer ∈ (InMemoryTaskStore.replay l store).1, ∃ a, answer = .ok a := by
  induction l generalizing store s with
  | nil => simp [InMemoryTaskStore.replay]
  | cons e _ ih =>
    obtain ⟨now,_⟩ := e
    obtain ⟨n,rfl⟩ := hl _ mem_cons_self
    obtain ⟨r,hr,rfl⟩ := map_eq_some_iff.1 hs
    have hterm : ¬ r.status.isTerminal := Bool.eq_false_iff.1 hlive
    let r' := { r with spec := { r.spec with timeoutMs := some n }, updatedAt := now }
    have hperform : store.perform now (.modify taskId (.setTimeoutMs n)) =
        (.ok (.record r'),store.put taskId r') := by
      simp only [InMemoryTaskStore.perform,InMemoryTaskStore.withTask,hr,Transition.apply,
        OrchestrationTaskRecord.setTimeoutMs,if_neg hterm]
      rfl
    intro answer ha
    simp only [InMemoryTaskStore.replay,hperform] at ha
    rcases mem_cons.1 ha with rfl | ha
    · exact ⟨_,rfl⟩
    have hput := congrFun (states_put store taskId r') taskId
    rw [update_self] at hput
    exact ih (fun e he => hl e (mem_cons_of_mem _ he)) hput hlive answer ha

-- From a request on, no result is recorded.
def Cancelling (result : Option (OrchestrationTaskResult V)) (s : TaskState V) : Prop :=
  (s.status = .cancelRequested ∨ s.status = .cancelled ∨ s.status = .abandoned) ∧ s.result = result

variable {result : Option (OrchestrationTaskResult V)}

theorem Cancelling.next {s s'} {t : Transition V} (h : Cancelling result s)
    (hn : t.next s = .ok s') : Cancelling result s' := by
  obtain ⟨_,_,_,_⟩ := s
  obtain ⟨rfl | rfl | rfl,hr⟩ := h <;> cases t <;> cases hn
  all_goals first
    | exact ⟨.inr (.inl rfl),hr⟩
    | exact ⟨.inl rfl,hr⟩
    | exact ⟨.inr (.inr rfl),hr⟩

theorem serve_cancelling {states} {call : TaskCall V}
    (h : ∃ s, states taskId = some s ∧ Cancelling result s) :
    ∃ s, (call.serve states).2 taskId = some s ∧ Cancelling result s := by
  by_cases hid : call.taskId = taskId
  · obtain ⟨s,hs,hc⟩ := h
    subst hid
    cases call <;> simp only [TaskCall.serve,TaskCall.taskId] at hs ⊢ <;> simp only [hs]
    · exact ⟨s,hs,hc⟩
    · split
      next hn => exact ⟨_,update_self ..,hc.next hn⟩
      · exact ⟨s,hs,hc⟩
  · rwa [serve_frame hid]

theorem requested_cancellation_wins (calls : List (Nat × TaskCall V)) (store : InMemoryTaskStore V)
    (h : ∃ s, store.states taskId = some s ∧ Cancelling result s) :
    ∃ s, (InMemoryTaskStore.replay calls store).2.states taskId = some s ∧ Cancelling result s := by
  induction calls generalizing store with
  | nil => exact h
  | cons e calls ih =>
    refine ih (store.perform e.1 e.2).2 ?_
    rw [perform_serve.2]
    exact serve_cancelling h

theorem cancellation_wins_over_completion :
    ∃ s,
    (InMemoryTaskStore.replay [(1,.modify "t" (.complete ⟨none,some ()⟩))]
      (Map.put .empty "t" ⟨⟨"t",.tool "",none⟩,.cancelRequested,none,none,0,0,none,none⟩)).2.states
      "t" = some s ∧ Cancelling none s :=
  requested_cancellation_wins _ _ ⟨_,rfl,.inl rfl,rfl⟩

end Tasks
