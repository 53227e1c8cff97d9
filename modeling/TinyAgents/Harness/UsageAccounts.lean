import TinyAgents.Harness.ModelTurns

namespace Harness.ModelTurns

open Interaction

variable {U E : Type} {H : ModelHarness U E}

section

def Owes (usages : List U) (c : TurnContext U) : Prop :=
  c.completed.Perm (c.recorded++c.discarded++usages)

def Keeps : (op : TurnOp U E) → TurnContext U → TurnAns op → Prop
  | .attempt _, _, x => match x with
      | .spoiled response _ => response.billed = none
      | _ => True
  | .elapsed held, _, x => x = true → held = none
  | .afterModelDispatch _ _ held, c, x => match x with
      | .ok _ => True
      | .error _ => held = none ∧ c.discarded = []
  | _, _, _ => True

def keeping (op : TurnOp U E) (c : TurnContext U) (x : TurnAns op) (c' : TurnContext U) : Prop :=
  TurnOutcome op c x c' ∧ Keeps op c x

def Held (op : TurnOp U E) (c : TurnContext U) : Prop :=
  ∀ held, op.waiting = some held → Owes held.toList c

abbrev Billing (U E : Type) : Logic (TurnOp U E) TurnAns (TurnContext U) :=
  alone keeping Held

abbrev Bills {α : Type} (Q : Except E α → TurnContext U → Prop) (p : Call U E α) :
    TurnContext U → Prop :=
  Safe (Billing U E) Q p.run

abbrev Settled (x : Except E (ModelResponse U)) (c : TurnContext U) : Prop :=
  Owes (held x).toList c

variable {α β : Type} {c : TurnContext U} {Q : Except E β → TurnContext U → Prop}

def Plain : TurnOp U E → Prop
  | .read | .update _ | .attempt _ | .cachePut _ | .compact _ | .elapsed _
  | .afterModelDispatch _ _ _ => False
  | _ => True

variable {op : TurnOp U E}

theorem plain_outcome {x : TurnAns op} {c'} (hop : Plain op) (h : keeping op c x c') : c' = c := by
  cases op with
  | read | update | attempt | cachePut | compact | elapsed | afterModelDispatch => exact hop.elim
  | _ => exact h.1

theorem plain_held (hop : Plain op) (h : Owes [] c) : Held op c := by
  intro _ hw
  cases op with
  | read | update | attempt | cachePut | compact | elapsed | afterModelDispatch => exact hop.elim
  | rebind | lookup | replay | backoff | selectFallback | acquire =>
    cases hw
    exact h
  | _ => cases hw

theorem safe_asking {next} (hop : Plain op) (hc : Owes [] c) (h : ∀ x, Bills Q (next x) c) :
    Bills Q (asking op >>= next) c := by
  refine alone_lift (plain_held hop hc) fun x _ ho => ?_
  obtain rfl := plain_outcome hop ho
  exact h x

theorem safe_request {p} {next} (f : TurnAns op → Except E α) (hp : p = .ask op fun x => .ret (f x))
    (hop : Plain op) (hc : Owes [] c) (he : ∀ e, Q (.error e) c) (h : ∀ a, Bills Q (next a) c) :
    Bills Q (ask p >>= next) c := by
  subst hp
  refine alone_ask (plain_held hop hc) fun x c' ho => ?_
  obtain rfl := plain_outcome hop ho
  change Safe (Billing U E) Q (ExceptT.bindCont next (f x)) c'
  cases f x with
  | ok a => exact h a
  | error e => exact alone_ret (he e)

theorem safe_telling {f} {next} (h : Bills Q (next ()) (f c)) : Bills Q (telling f >>= next) c := by
  refine alone_lift nofun fun x _ ho => ?_
  obtain ⟨rfl,-⟩ := ho
  exact h

theorem safe_read {next} (h : Bills Q (next c) c) : Bills Q (asking .read >>= next) c := by
  refine alone_lift nofun fun x _ ho => ?_
  obtain ⟨⟨rfl,rfl⟩,-⟩ := ho
  exact h

theorem safe_returned (x : Except E (ModelResponse U)) (h : Settled x c) :
    Bills Settled (Fallible.ofExcept x : Call U E (ModelResponse U)) c :=
  alone_ret h

theorem owes_billed (h : Owes [] c) (usage : Option U) :
    Owes usage.toList { c with completed := c.completed++usage.toList } := by
  have := h.append_right usage.toList
  simpa [Owes] using this

variable {model : String}

theorem settled_attempt {x : Attempt U E} (h : Owes [] c) (hk : Keeps (.attempt model) c x) :
    Settled x.result { c with completed := c.completed++x.billed.toList } := by
  cases x with
  | completed response => exact owes_billed h response.billed
  | spoiled response =>
    have hk : response.billed = none := hk
    have := owes_billed h (none : Option U)
    simpa [Settled,held,Attempt.result,Attempt.billed,hk] using this
  | failed => exact owes_billed h none

def Tried (x : Except E (Except E (ModelResponse U))) (c : TurnContext U) : Prop :=
  match x with
  | .ok result => Settled result c
  | .error _ => Owes [] c

theorem safe_attemptModel {again} (hagain : ∀ p ∈ again, ∀ c, Owes [] c → Bills Tried p c)
    {model : String} {attempt : Nat} (h : Owes [] c) :
    Bills Tried (attemptModel H model attempt again) c := by
  refine safe_asking trivial h fun cancelled => ?_
  split
  · exact alone_ret h
  refine alone_lift (fun _ hw => by cases hw; exact h) fun tried _ ho => ?_
  obtain ⟨rfl,hk⟩ := ho
  have hs := settled_attempt h hk
  split
  next response hr =>
    rw [hr] at hs
    exact alone_ret hs
  next e hr =>
    rw [hr] at hs
    have hs : Owes [] _ := hs
    split
    · exact alone_ret hs
    refine safe_asking trivial hs fun tripped => ?_
    cases tripped with
    | some => exact alone_ret hs
    | none =>
      cases again with
      | none => exact alone_ret hs
      | some again =>
        dsimp only
        split
        · refine safe_asking trivial hs fun cancelled => ?_
          split
          · exact alone_ret hs
          · exact hagain again rfl _ hs
        · exact alone_ret hs

theorem safe_invokeAttempts (model : String) (left attempt : Nat) (h : Owes [] c) :
    Bills Tried (invokeAttempts H model left attempt) c := by
  induction left generalizing attempt c with
  | zero => exact safe_attemptModel (fun _ hp => by cases hp) h
  | succ _ ih =>
    refine safe_attemptModel (fun p hp c hc => ?_) h
    cases hp
    exact ih (attempt+1) hc

theorem settled_resolvedBy {response} (h : Owes response.billed.toList c) {model : String} :
    Settled (E := E) (.ok (resolvedBy model response)) c := h

theorem safe_invokeModel {fallBack}
    (hnext : ∀ model c, Owes [] c → Bills Settled (fallBack model) c) (h : Owes [] c) :
    Bills Settled (invokeModel H model fallBack) c := by
  refine alone_then (safe_invokeAttempts model _ 0 h) (fun e c' he => he) fun result c' hr => ?_
  cases result with
  | ok => exact alone_ret (settled_resolvedBy hr)
  | error =>
    have hr : Owes [] c' := hr
    dsimp only
    split
    · exact alone_ret hr
    refine safe_request _ rfl trivial hr (fun _ => hr) fun selected => ?_
    cases selected with
    | none => exact alone_ret hr
    | some next =>
      dsimp only
      split
      · exact alone_ret hr
      · exact hnext next c' hr

theorem safe_invokeModels (fallbacks : Nat) (model : String) (h : Owes [] c) :
    Bills Settled (invokeModels H fallbacks model) c := by
  induction fallbacks generalizing model c with
  | zero =>
    refine alone_then (safe_invokeAttempts model _ 0 h) (fun e c' he => he) fun result c' hr => ?_
    cases result with
    | ok => exact alone_ret (settled_resolvedBy hr)
    | error => exact alone_ret hr
  | succ _ ih => exact safe_invokeModel (fun model c hc => ih model hc) h

theorem safe_invokeModelResolving (h : Owes [] c) :
    Bills Settled (invokeModelResolving H model) c := by
  refine safe_asking trivial h fun _ => ?_
  split
  · refine safe_request _ rfl trivial h (fun _ => h) fun selected => ?_
    cases selected with
    | none => exact safe_invokeModels _ model h
    | some next => exact safe_invokeModels _ next h
  · exact safe_invokeModels _ model h

theorem safe_invokeAndCache (h : Owes [] c) : Bills Settled (invokeAndCache H model) c := by
  refine alone_then (safe_invokeModelResolving h) (fun e c' he => he) fun _ c' hr => ?_
  split
  · refine alone_lift (fun _ hw => by cases hw; exact hr) fun x _ ho => ?_
    obtain ⟨rfl,-⟩ := ho
    exact alone_ret hr
  · exact alone_ret hr

theorem safe_replayCached {cached} (h : Owes [] c) : Bills Settled (replayCached H cached) c := by
  unfold replayCached
  dsimp only
  split
  · exact safe_request _ rfl trivial h (fun _ => h) fun _ => alone_ret h
  · exact alone_ret h

theorem safe_invokeModelWithRetry (h : Owes [] c) :
    Bills Settled (invokeModelWithRetry H model) c := by
  unfold invokeModelWithRetry
  split
  · refine safe_asking trivial h fun found => ?_
    cases found with
    | none => exact safe_invokeAndCache h
    | some =>
      dsimp only
      split
      · exact safe_invokeAndCache h
      · exact safe_replayCached h
  · exact safe_invokeAndCache h

theorem safe_modelCallBase {requested} (h : Owes [] c) :
    Bills Settled (modelCallBase H requested) c := by
  refine safe_telling (safe_request _ rfl trivial h (fun _ => h) fun _ => ?_)
  exact safe_invokeModelWithRetry h

def Accounts (p : Call U E (ModelResponse U)) : Prop :=
  ∀ c, Owes [] c → Bills Settled p c

theorem safe_interruptible {α : Type} {Q} {p : Turn U E α}
    (h : Safe (Billing U E) Q p c) : Safe (Billing U E) (fun x c' => match x with
      | some a => Q a c'
      | none => Owes [] c') (interruptible p) c := by
  induction p generalizing c with
  | ret => exact h
  | ask op next ih =>
    obtain ⟨hg,hn⟩ := h c rfl
    unfold interruptible
    cases hw : op.waiting with
    | none => exact alone_ask hg fun x c' ho => ih x (hn x c' ho)
    | some held =>
      refine alone_ask nofun fun (late : Bool) c' ho => ?_
      obtain ⟨rfl,hlate⟩ := ho
      split
      next hl =>
        have := hg held hw
        rw [hlate hl] at this
        exact alone_ret this
      · exact alone_ask hg fun x c'' ho => ih x (hn x c'' ho)

theorem accounts_lift {p : Call U E (ModelResponse U)} (hp : Accounts p)
    {next : Except E (ModelResponse U) → Call U E (ModelResponse U)} (h : Owes [] c)
    (hn : ∀ result c', Settled result c' → Bills Settled (next result) c') :
    Bills Settled (ExceptT.lift p.run >>= next) c :=
  alone_lifted (hp c h) hn

variable {next : Call U E (ModelResponse U)}

theorem accounts_retryOnce (hp : Accounts next) {again : Option (Call U E (ModelResponse U))}
    (hagain : ∀ p ∈ again, Accounts p) {shouldRetry : Nat → E → Bool} {attempt : Nat} :
    Accounts (retryOnce H next shouldRetry attempt again) := by
  intro c h
  refine accounts_lift hp h fun result c' hr => ?_
  cases result with
  | ok => exact alone_ret hr
  | error =>
    have hr : Owes [] c' := hr
    dsimp only
    split
    · exact alone_ret hr
    cases again with
    | none => exact alone_ret hr
    | some again =>
      dsimp only
      split
      · refine safe_asking trivial hr fun _ => ?_
        split
        · exact alone_ret hr
        · exact hagain again rfl c' hr
      · exact alone_ret hr

theorem accounts_retrying (hp : Accounts next) (shouldRetry : Nat → E → Bool) (left attempt : Nat) :
    Accounts (retrying H next shouldRetry left attempt) := by
  induction left generalizing attempt with
  | zero => exact accounts_retryOnce hp (fun _ hp => by cases hp)
  | succ _ ih =>
    refine accounts_retryOnce hp (fun p hp => ?_)
    cases hp
    exact ih (attempt+1)

theorem accounts_fallingBack {next : Option String → Call U E (ModelResponse U)}
    (hp : ∀ requested, Accounts (next requested)) (models : List String) (e : E) :
    Accounts (fallingBack H next models e) := by
  induction models generalizing e with
  | nil => exact fun c h => alone_ret h
  | cons _ _ ih =>
    intro c h
    unfold fallingBack
    split
    · refine accounts_lift (hp _) h fun result c' hr => ?_
      cases result with
      | ok => exact alone_ret hr
      | error e => exact ih e c' hr
    · exact alone_ret h

theorem safe_accountDiscarded {result}
    (hr : reportsOverflow H result) (h : Settled result c) (hp : Accounts next) :
    Bills Settled (do accountDiscarded result; next : Call U E (ModelResponse U)) c := by
  unfold accountDiscarded
  split
  next usage _ _ =>
    simp only [reportsOverflow,Bool.and_eq_true,Bool.not_eq_true'] at hr
    obtain ⟨⟨rfl,-⟩,-⟩ := hr
    refine safe_telling (hp _ ?_)
    have h : c.completed.Perm (c.recorded++c.discarded++[usage]) := h
    simpa [Owes] using h
  next hno =>
    refine hp c ?_
    cases result with
    | error => exact h
    | ok response =>
      cases hu : response.usage with
      | none =>
        have hb : response.billed = none := by simp [ModelResponse.billed,hu]
        simpa [Settled,held,hb] using h
      | some =>
        cases response
        cases hu
        exact (hno _ _ _ rfl).elim

theorem accounts_compressing (hp : Accounts next) (left : Nat) :
    Accounts (compressing H next left) := by
  induction left with
  | zero => exact hp
  | succ _ ih =>
    intro c h
    refine accounts_lift hp h fun result _ hr => ?_
    split
    next ho =>
      refine alone_lift nofun fun (cut : Bool) c1 ho1 => ?_
      obtain ⟨rfl,-⟩ := ho1
      split
      · exact safe_accountDiscarded ho hr ih
      refine alone_lift (fun _ hw => by cases hw; exact hr) fun (shrunk : Bool) c2 ho2 => ?_
      obtain ⟨rfl,-⟩ := ho2
      split
      · exact safe_accountDiscarded ho hr ih
      refine alone_lift nofun fun (cut : Bool) c3 ho3 => ?_
      obtain ⟨rfl,-⟩ := ho3
      split
      · exact safe_accountDiscarded ho hr ih
      · exact safe_returned result hr
    · exact safe_returned result hr

theorem accounts_runWrapped (layers : List (Layer E)) (requested : Option String) :
    Accounts (runWrapped H layers requested) := by
  induction layers generalizing requested with
  | nil => exact fun c h => safe_modelCallBase h
  | cons layer _ ih =>
    intro c h
    cases layer with
    | retry _ shouldRetry => exact accounts_retrying (ih requested) shouldRetry _ 0 c h
    | fallback models =>
      refine accounts_lift (ih requested) h fun result c' hr => ?_
      cases result with
      | ok => exact alone_ret hr
      | error e => exact accounts_fallingBack ih models e c' hr
    | timeout =>
      refine alone_lifted (safe_interruptible (ih requested c h)) fun result c' hr => ?_
      cases result with
      | some result => exact safe_returned result hr
      | none => exact alone_ret hr
    | rateLimit =>
      exact safe_request _ rfl trivial h (fun _ => h) fun _ => ih requested c h
    | compression maxAttempts => exact accounts_compressing (ih requested) maxAttempts c h
    | observer => exact ih requested c h

def Due (usages : List U) (c : TurnContext U) : Prop :=
  c.completed.Perm (c.recorded++usages) ∧ c.discarded = []

theorem due_nil (h : Owes [] c) (hd : c.discarded = []) : Due [] c := by
  refine ⟨?_,hd⟩
  simpa [Owes,hd] using h

theorem Due.owes (h : Due [] c) : Owes [] c := by
  simpa [Owes,h.2] using h.1

theorem Due.record {usage : U} {usages : List U} (h : Due (usage::usages) c) :
    Due usages { c with recorded := c.recorded++[usage] } := by
  refine ⟨?_,h.2⟩
  simpa using h.1

theorem safe_accountUsages {rest usages : List U} (first : Option E) (h : Due (usages++rest) c) :
    Bills (fun x c' => (∃ first, x = .ok first) ∧ Due rest c')
      (accountUsages H usages first) c := by
  induction usages generalizing first c with
  | nil => exact alone_ret ⟨⟨first,rfl⟩,h⟩
  | cons _ usages ih =>
    refine safe_telling ?_
    have hr : Due (usages++rest) _ := h.record
    split
    · refine alone_lift nofun fun _ c' ho => ?_
      obtain ⟨rfl,-⟩ := ho
      split
      · exact ih first hr
      · exact ih _ hr
    · exact ih first hr

theorem safe_accountDiscardedUsage {rest : List U} (h : Owes rest c) :
    Bills (fun x c' => (∃ first, x = .ok first) ∧ Due rest c') (accountDiscardedUsage H) c := by
  refine safe_read (safe_telling (safe_accountUsages none ⟨?_,rfl⟩))
  simpa [Owes] using h

theorem safe_raise {Q : TurnContext U → Prop} (first : Option E) (h : Q c) :
    Bills (fun _ c' => Q c') (raise first) c := by
  cases first with
  | none | some => exact alone_ret h

theorem safe_accountModelResponse {response : ModelResponse U} (h : Owes response.billed.toList c) :
    Bills (fun _ c' => Due [] c') (accountModelResponse H response) c := by
  refine safe_telling (alone_then (safe_accountDiscardedUsage h)
    (fun e c' he => ?_) fun first c' hd => ?_)
  · obtain ⟨⟨_,he⟩,-⟩ := he
    cases he
  have hd := hd.2
  split
  next hb =>
    rw [hb] at hd
    exact safe_raise first hd
  next hb =>
    rw [hb] at hd
    refine safe_telling ?_
    have hr : Due [] _ := hd.record
    split
    · refine alone_lift nofun fun _ _ ho => ?_
      obtain ⟨rfl,-⟩ := ho
      split
      · exact safe_raise first hr
      · exact alone_ret hr
    · exact safe_raise first hr

theorem safe_runAfterModelDispatch (held : Option U) (hooks : Nat) :
    Bills (fun x c' => c' = c ∧ match x with
      | .ok _ => True
      | .error _ => held = none ∧ c.discarded = [])
      (runAfterModelDispatch held hooks : Call U E Unit) c := by
  induction hooks with
  | zero => exact alone_ret ⟨rfl,trivial⟩
  | succ _ ih =>
    refine safe_read (alone_ask nofun fun (x : Except E Unit) c' ho => ?_)
    obtain ⟨rfl,hk⟩ := ho
    cases x with
    | ok => exact ih
    | error => exact alone_ret ⟨rfl,hk⟩

theorem safe_modelTurn (h : Due [] c) : Bills (fun _ c' => Due [] c') (modelTurn H) c := by
  refine safe_telling (alone_lifted (accounts_runWrapped H.layers none _ h.owes)
    fun result c' hr => ?_)
  cases result with
  | error e =>
    have hr : Owes [] c' := hr
    refine alone_then (safe_runAfterModelDispatch none H.hooks) (fun e c1 he => ?_)
      fun _ c1 hc => ?_
    · obtain ⟨rfl,-,hd⟩ := he
      exact due_nil hr hd
    obtain ⟨rfl,-⟩ := hc
    refine alone_then (safe_accountDiscardedUsage hr) (fun e c2 he => he.2) fun first c2 hd => ?_
    refine alone_then (safe_raise first hd.2) (fun _ _ hd => hd) fun _ c3 hd => ?_
    exact alone_ret hd
  | ok response =>
    have hr : Owes response.billed.toList c' := hr
    refine alone_then (safe_runAfterModelDispatch response.billed H.hooks) (fun e c1 he => ?_)
      fun _ c1 hc => ?_
    · obtain ⟨rfl,hb,hd⟩ := he
      rw [hb] at hr
      exact due_nil hr hd
    obtain ⟨rfl,-⟩ := hc
    refine alone_then (safe_accountModelResponse hr) (fun _ _ hd => hd) fun _ c2 hd => ?_
    refine alone_ask nofun fun x c3 ho => ?_
    obtain ⟨rfl,-⟩ := ho
    exact alone_ret hd

theorem safe_runModelTurns {n : Nat} (h : Due [] c) :
    Bills (fun _ c' => Due [] c') (runModelTurns H n) c := by
  induction n generalizing c with
  | zero => exact alone_ret h
  | succ _ ih =>
    refine alone_then (safe_modelTurn h) (fun _ _ hd => hd) fun _ c' hd => ?_
    refine safe_asking trivial hd.owes fun _ => ?_
    split
    · exact ih hd
    · exact alone_ret hd

end

structure Provider where
  attempts : String → List Nat → Except String (ModelResponse Nat)
  dispatched : Except String Unit := .ok ()

variable (s : Provider)

def Provider.attempt (model : String) (c : TurnContext Nat) : Attempt Nat String :=
  match s.attempts model c.completed with
  | .ok response => .completed response
  | .error e => .failed e

def Provider.perform :
    (op : TurnOp Nat String) → TurnContext Nat → Option (TurnAns op × TurnContext Nat)
  | .read, c => some (c,c)
  | .update f, c => some ((),f c)
  | .elapsed _, c => some (false,c)
  | .rebind requested, c => some (.ok (requested.getD "main"),c)
  | .lookup, c => some (none,c)
  | .replay _, c => some (.ok (),c)
  | .cachePut _, c => some ((),c)
  | .cancelled, c => some (false,c)
  | .skipped _, c => some (false,c)
  | .attempt model, c => some (s.attempt model c,
      { c with completed := c.completed++(s.attempt model c).billed.toList })
  | .idleBreaker _ _, c => some (none,c)
  | .backoff _, c => some (false,c)
  | .selectFallback _, c => some (.ok (some "spare"),c)
  | .acquire, c => some (.ok (),c)
  | .truncate, c => some (true,c)
  | .compact _, c => some (false,c)
  | .afterModelDispatch _ _ _, c => some (s.dispatched,c)
  | .recordHostUsage _, c => some (.ok (),c)
  | .afterModel _, c => some (.ok (),c)
  | .goOn, c => some (false,c)

theorem Provider.perform_outcome (op : TurnOp Nat String) (c : TurnContext Nat) (x : TurnAns op)
    (c' : TurnContext Nat) (h : s.perform op c = some (x,c')) : TurnOutcome op c x c' := by
  cases op with
  | read =>
    cases h
    exact ⟨rfl,rfl⟩
  | _ =>
    cases h
    rfl

theorem Provider.perform_keeps (hs : s.dispatched = .ok ()) (op : TurnOp Nat String)
    (c : TurnContext Nat) (x : TurnAns op) (c' : TurnContext Nat)
    (h : s.perform op c = some (x,c')) : keeping op c x c' := by
  refine ⟨s.perform_outcome op c x c' h,?_⟩
  cases op with
  | attempt model =>
    cases h
    unfold Provider.attempt
    cases s.attempts model c.completed <;> exact trivial
  | elapsed =>
    cases h
    nofun
  | afterModelDispatch =>
    cases h
    rw [hs]
    trivial
  | _ => trivial

def compressed : ModelHarness Nat String where
  layers := [.compression 1]
  hooks := 1
  budget := false
  hosted := false
  streaming := false
  cacheable := false
  maxAttempts := 1
  retryable := fun _ => true
  isTimeout := fun _ => false
  isTerminalLimit := fun _ => false
  isStreamIdleTimeout := fun _ => false
  isRetryable := fun _ => true
  surfaces := fun _ => false
  fallbacks := 1
  skipsEmpty := fun _ => false
  overflows := fun
    | .ok response => response.usage == some 100
    | .error _ => false
  cancelled := "cancelled"
  timedOut := "timeout"

def overloaded : String → List Nat → Except String (ModelResponse Nat)
  | "main", [] => .ok { usage := some 100 }
  | "main", _ => .error "down"
  | _, _ => .ok { usage := some 7 }

theorem usages_recorded_once (n : Nat) {x : Except E Unit} {c : TurnContext U}
    (h : Executes keeping (runModelTurns H n).run {} x c) : c.completed.Perm c.recorded := by
  have hd := h.safe (safe_runModelTurns ⟨.refl _,rfl⟩)
  simpa using hd.1

theorem usages_recorded_once_overloaded :
    ∃ x c, Executes keeping (runModelTurns compressed 1).run {} x c ∧ c.completed = [100,7] ∧
    c.completed.Perm c.recorded := by
  have hs : ∃ x c, (runModelTurns compressed 1).run.play
      (Provider.perform { attempts := overloaded }) {} = some (x,c) ∧ c.completed = [100,7] :=
    ⟨_,_,rfl,rfl⟩
  obtain ⟨x,c,hp,hc⟩ := hs
  have hx := Program.executes_of_play (Provider.perform_keeps _ rfl) hp
  exact ⟨x,c,hx,hc,usages_recorded_once 1 hx⟩

-- The hook takes the usage of the answer, and that of the answer discarded before it, with it.
theorem dispatch_hook_loses_usage :
    ∃ c, Executes TurnOutcome (runModelTurns compressed 1).run {} (.error "refused") c ∧
    c.completed = [100,7] ∧ c.recorded = [] := by
  have hs : ∃ c, (runModelTurns compressed 1).run.play
      (Provider.perform { attempts := overloaded, dispatched := .error "refused" }) {} =
        some (.error "refused",c) ∧ c.completed = [100,7] ∧ c.recorded = [] :=
    ⟨_,rfl,rfl,rfl⟩
  obtain ⟨c,hp,hc⟩ := hs
  exact ⟨c,Program.executes_of_play (Provider.perform_outcome _) hp,hc⟩

end Harness.ModelTurns
