import TinyAgents.Session.TurnStates

namespace Session

open Interaction StorageKit List

namespace TurnStates

variable {B : Type}

abbrev TurnExchange (B : Type) := Exchange (TurnOp B) (TurnAns B) (TurnWorld B)
abbrev TurnMoment (B : Type) := Moment TurnCall (TurnOp B) (TurnAns B) (TurnWorld B) TurnResult

variable (support : Support B)

def live : Option B → Bool
  | none => false
  | some body =>
    match support.decode body with
    | .ok turn => !isTerminal turn
    | .error _ => false

structure Ledger (B : Type) where
  wrote : List (String × B) := []
  lost : Bool := false
  stale : Nat := 0

def Ledger.add (l : Ledger B) : TurnExchange B → Ledger B
  | ⟨w,.put _ id _ body,x,w'⟩ =>
    if (w' id).next = (w id).next then { l with lost := x matches .error .conflict }
    else { l with wrote := (id,body) :: l.wrote, lost := false }
  | ⟨_,.get _,.ok found,_⟩ =>
    let stale := l.lost && !live support (found.map Versioned.doc)
    { l with lost := false, stale := l.stale+stale.toNat }
  | _ => l

def ledger (es : List (TurnExchange B)) : Ledger B :=
  es.foldr (fun e l => l.add support e) {}

variable {support : Support B} {attempts : Nat}

@[simp] theorem ledger_cons (e : TurnExchange B) (es : List (TurnExchange B)) :
    ledger support (e :: es) = (ledger support es).add support e := rfl

variable {es : List (TurnExchange B)} {i : Nat} {id : String} {call : TurnCall}
  {lifecycle : TurnLifecycle} {change : TurnState → Option TurnState} {l : Ledger B}

def Quiet : TurnOp B → Prop
  | .put _ _ _ _ | .get _ => False
  | _ => True

theorem add_quiet {e} (h : Quiet e.op) : l.add support e = l := by
  obtain ⟨w,op,x,_⟩ := e
  cases op with
  | put | get => exact h.elim
  | _ => rfl

structure Adds (P : B → Prop) (ids : List String) (n : Nat) (l l' : Ledger B) : Prop where
  lost : l'.lost = false
  wrote : ∃ new, l'.wrote = new++l.wrote ∧ (new.map Prod.fst).Sublist ids ∧
    (∀ x ∈ new, P x.2) ∧ n+l.stale = new.length+l'.stale

variable {P : B → Prop} {ids ids' : List String} {n k : Nat} {l l' l'' : Ledger B}

theorem Adds.trans (h : Adds P ids n l l') (h' : Adds P ids' k l' l'') :
    Adds P (ids'++ids) (n+k) l l'' := by
  obtain ⟨-,new,hw,hs,hp,_⟩ := h
  obtain ⟨hl,new',hw',hs',hp',_⟩ := h'
  refine ⟨hl,new'++new,?_,?_,?_,?_⟩
  · rw [hw',hw,append_assoc]
  · rw [map_append]
    exact hs'.append hs
  · intro x hx
    rcases mem_append.1 hx with hx | hx
    · exact hp' x hx
    · exact hp x hx
  · rw [length_append]
    omega

theorem Adds.weaken (h : Adds P ids n l l') (hi : ids.Sublist ids') : Adds P ids' n l l' := by
  obtain ⟨hl,new,hw,hs,hp,hn⟩ := h
  exact ⟨hl,new,hw,hs.trans hi,hp,hn⟩

def named (support : Support B) (threadId requestId : String) : Option String :=
  (support.id threadId requestId).toOption

def Records (support : Support B) (lifecycle : TurnLifecycle) (body : B) : Prop :=
  ∃ turn, support.encode turn = .ok body ∧ turn.lifecycle = lifecycle

structure Settler (change : TurnState → Option TurnState) (lifecycle : TurnLifecycle) : Prop where
  none : ∀ turn, change turn = none → isTerminal turn = true
  some : ∀ turn next, change turn = some next →
    isTerminal turn = false ∧ next.lifecycle = lifecycle

theorem settler_interrupted {now : String} : Settler (interrupted now) .interrupted := by
  constructor
  · intro _ h
    simpa [interrupted] using h
  intro _ _ h
  obtain ⟨ht,rfl⟩ := by simpa [interrupted] using h
  exact ⟨ht,rfl⟩

variable {now threadId : String}

theorem settler_settled {lifecycle} : Settler (settled lifecycle now) lifecycle := by
  constructor
  · intro _ h
    simpa [settled] using h
  intro _ _ h
  obtain ⟨ht,rfl⟩ := by simpa [settled] using h
  exact ⟨ht,rfl⟩

theorem changed_cases (hc : Settler change lifecycle) {applied applied'} {old next : Option B}
    (h : changed support change applied old = .ok (next,applied')) :
    next = none ∧ applied' = applied ∧ live support old = false ∨ ∃ body, next = some body ∧
    applied'.isSome ∧ live support old ∧ Records support lifecycle body := by
  cases old with
  | none =>
    cases h
    exact .inl ⟨rfl,rfl,rfl⟩
  | some =>
    simp only [changed] at h
    split at h
    · cases h
    next turn hd =>
      split at h
      next hn =>
        cases h
        exact .inl ⟨rfl,rfl,by simp [live,hd,hc.none turn hn]⟩
      next new hn =>
        obtain ⟨ht,hl⟩ := hc.some turn new hn
        cases he : support.encode new with
        | error =>
          rw [he] at h
          cases h
        | ok body =>
          rw [he] at h
          cases h
          exact .inr ⟨body,rfl,rfl,by simp [live,hd,ht],new,he,hl⟩

section

variable (support) (l : Ledger B)

def Started (applied : Option TurnState) (es : List (TurnExchange B)) : Prop :=
  ledger support es = { l with lost := applied.isSome }

def Found (applied : Option TurnState) (found : Option (Versioned B)) (es : List (TurnExchange B)) :
    Prop :=
  let stale := applied.isSome && !live support (found.map Versioned.doc)
  ledger support es = { l with stale := l.stale+stale.toNat }

def Chosen (lifecycle : TurnLifecycle) (next : Option B × Option TurnState)
    (es : List (TurnExchange B)) : Prop :=
  match next.1 with
  | none => ledger support es = { l with stale := l.stale+next.2.isSome.toNat }
  | some body => ledger support es = l ∧ next.2.isSome = true ∧ Records support lifecycle body

end

theorem recorded_rounds (hl : l.lost = false) (hc : Settler change lifecycle) :
    Repo.Rounds (recording ((machine support attempts).answers i)) (port call id)
      (fun applied current => Fallible.ofExcept (changed support change applied current))
      (Started support l) (Found support l) (fun _ => Chosen support l lifecycle)
      (fun stored es => Adds (Records support lifecycle) [id] stored.2.isSome.toNat l
      (ledger support es)) (fun _ _ => True) := by
  constructor
  case get =>
    intro applied es h
    refine recording_ask fun w x w' _ => recording_ret ?_
    cases x with
    | error => trivial
    | ok =>
      have h' : ledger support es = { l with lost := applied.isSome } := h
      change ledger support (_ :: es) = _
      rw [ledger_cons,h']
      simp [Ledger.add,hl]
  case call =>
    intro applied found es h
    cases hx : changed support change applied (found.map Versioned.doc) with
    | error => exact recording_ret trivial
    | ok next =>
      obtain ⟨next,_⟩ := next
      refine recording_ret ?_
      have h' : ledger support es = _ := h
      rcases changed_cases hc hx with ⟨rfl,rfl,hlive⟩ | ⟨body,rfl,hs,hlive,hr⟩
      · simpa [Chosen,Ends,hlive] using h'
      · exact ⟨by simpa [hlive] using h',hs,hr⟩
  case leave =>
    intro _ _ es h
    have h' : ledger support es = _ := h
    refine ⟨by rw [h',hl],[],by rw [h']; rfl,by simp,by simp,?_⟩
    rw [h']
    simp [Nat.add_comm]
  case put =>
    intro _ body applied es h
    obtain ⟨h,hs,hr⟩ : ledger support es = l ∧ applied.isSome ∧ _ := h
    refine recording_ask fun w x w' ho => recording_ret ?_
    have ho : TurnOutcome _ w x w' := ho
    cases x with
    | ok =>
      change Adds _ _ _ l (ledger support (_ :: es))
      rw [ledger_cons,h]
      obtain ⟨⟨e,he⟩,-⟩ | ⟨-,rfl,-⟩ := ho
      · cases he
      simp only [Ledger.add,Cell.write,Function.update_self,Nat.succ_ne_self,if_false]
      exact ⟨rfl,[(id,body)],rfl,List.Sublist.refl _,by simpa using hr,by simp [hs]⟩
    | error =>
      refine ⟨?_,trivial⟩
      rintro rfl
      change ledger support (_ :: es) = _
      rw [ledger_cons,h,hs]
      obtain ⟨-,rfl⟩ | ⟨-,-,he | ⟨e,hne,he⟩⟩ := ho
      · simp [Ledger.add]
      · cases he
      · cases he
        exact (hne rfl).elim
  case ends =>
    rintro r _ _ h rfl
    exact h

variable (support attempts) in
abbrev recorded (i : Nat) := recording ((machine support attempts).answers i)

theorem recorded_silent {α : Type} {p : TurnTask B α} (hp : Asks Quiet p.run)
    (h : ledger support es = l) :
    Ensures (recorded support attempts i) (fun _ es => ledger support es = l)
      (fun _ _ => True) p es := by
  refine safe_mono (Q := fun _ es => ledger support es = l) ?_ (safe_of_asks ?_ ?_ hp h)
  · rintro (e | a) es h
    · trivial
    · exact h
  · rintro _ _ h rfl
    exact h
  intro _ _ hop h
  refine ⟨trivial,?_⟩
  rintro x _ ⟨w,_,-,rfl⟩
  rw [ledger_cons,add_quiet hop,h]

theorem asks_declared : Asks Quiet (declared (B := B)).run :=
  ⟨trivial,fun _ => trivial⟩

theorem asks_query {thread} : Asks Quiet (query support thread).run := by
  refine asks_try asks_declared fun _ => asks_try ⟨trivial,fun _ => trivial⟩ fun _ => ?_
  trivial

theorem asks_deleteStale {stale} : Asks Quiet (deleteStale (B := B) stale).run := by
  induction stale with
  | nil => trivial
  | cons _ _ ih =>
    refine ⟨trivial,fun x => ?_⟩
    rcases x with (_ | _) | _
    all_goals first | exact ih | trivial

theorem asks_pruneCompleted : Asks Quiet (pruneCompleted support threadId).run :=
  asks_try asks_query fun _ => asks_deleteStale

theorem recorded_update {requestId : String} (hc : Settler change lifecycle) (hl : l.lost = false)
    (h : ledger support es = l) :
    Ensures (recorded support attempts i)
      (fun applied es => Adds (Records support lifecycle) (named support threadId requestId).toList
      applied.isSome.toNat l (ledger support es)) (fun _ _ => True)
      (update support attempts call threadId requestId change) es := by
  refine safe_try (recorded_silent asks_declared h) fun _ es h => ?_
  refine safe_ofExcept (fun _ hid => ?_) fun e _ => recording_ret trivial
  have start : Started support l none es := by
    rw [Started,h,Option.isSome_none,← hl]
  refine safe_try (Repo.safe_update (recorded_rounds hl hc) start) fun _ es h => ?_
  rw [named,hid]
  exact recording_ret h

theorem recorded_settleTurn {requestId : String} {lifecycle : TurnLifecycle} :
    Ensures (recorded support attempts i)
      (fun settled es => Adds (Records support lifecycle) (named support threadId requestId).toList
      settled.toNat {} (ledger support es)) (fun _ _ => True)
      (settleTurn support attempts threadId requestId lifecycle now) [] := by
  refine safe_try (recorded_update settler_settled rfl rfl) fun _ es h => ?_
  change Safe _ _ (ExceptT.run (if _ then _ else _)) es
  split
  · refine safe_try (recorded_silent asks_pruneCompleted rfl) fun _ _ h' => ?_
    rw [← h'] at h
    exact recording_ret h
  · exact recording_ret h

def listedIds (support : Support B) (turns : List (String × Versioned TurnState)) : List String :=
  (turns.filterMap fun stored => named support stored.2.doc.threadId stored.2.doc.requestId).reverse

theorem recorded_markListed (now : String) (turns : List (String × Versioned TurnState))
    (count : Nat) (hl : l.lost = false) (h : ledger support es = l) :
    Ensures (recorded support attempts i)
      (fun n es => ∃ k, n = count+k ∧
      Adds (Records support .interrupted) (listedIds support turns) k l (ledger support es))
      (fun _ _ => True) (markListed support attempts now turns count) es := by
  induction turns generalizing count l es with
  | nil => exact recording_ret ⟨0,rfl,by rw [h]; exact ⟨hl,[],rfl,.refl _,by simp,by simp⟩⟩
  | cons entry rest ih =>
    obtain ⟨id,stored⟩ := entry
    have hids : listedIds support ((id,stored) :: rest) = listedIds support rest ++
        (named support stored.doc.threadId stored.doc.requestId).toList := by
      simp only [listedIds,filterMap_cons]
      cases named support stored.doc.threadId stored.doc.requestId <;> simp
    rw [markListed,hids]
    split
    · refine safe_mono ?_ (ih count hl h)
      rintro (e | n) es h
      · trivial
      · obtain ⟨k,hn,ha⟩ := h
        exact ⟨k,hn,ha.weaken (sublist_append_left _ _)⟩
    · refine safe_try (recorded_update settler_interrupted hl h) fun applied es h => ?_
      refine safe_mono ?_ (ih _ h.lost rfl)
      rintro (e | n) es h'
      · trivial
      obtain ⟨k,hn,ha⟩ := h'
      refine ⟨applied.isSome.toNat+k,?_,h.trans ha⟩
      rw [hn]
      cases applied <;> simp [Nat.add_assoc]

def Listed (support : Support B) (es : List (TurnExchange B))
    (turns : List (String × Versioned TurnState)) : Prop :=
  ∃ w w' listed, (⟨w,.query none,.ok listed,w'⟩ : TurnExchange B) ∈ es ∧
    listed.mapM (decode support) = .ok turns

theorem recorded_query (h : ledger support es = l) :
    Ensures (recorded support attempts i)
      (fun turns es => Listed support es turns ∧ ledger support es = l) (fun _ _ => True)
      (query support none) es := by
  refine safe_try (recorded_silent asks_declared h) fun _ es h => ?_
  refine recording_ask fun w x w' _ => ?_
  cases x with
  | error => exact recording_ret trivial
  | ok listed =>
    change Safe _ _ (.ret (listed.mapM (decode support))) _
    refine recording_ret ?_
    cases hx : listed.mapM (decode support) with
    | error => trivial
    | ok => exact ⟨⟨w,w',listed,mem_cons_self,hx⟩,h⟩

theorem recorded_markAllInterrupted :
    Ensures (recorded support attempts i)
      (fun count es => ∃ turns, Listed support es turns ∧
      Adds (Records support .interrupted) (listedIds support turns) count {} (ledger support es))
      (fun _ _ => True) (markAllInterrupted support attempts now) [] := by
  refine safe_try (recorded_query rfl) fun turns es h => ?_
  obtain ⟨⟨w,w',listed,hmem,hturns⟩,h⟩ := h
  refine safe_mono ?_ (recording_suffix (recorded_markListed now turns 0 rfl h))
  rintro (e | n) _ ⟨hr,hs⟩
  · trivial
  obtain ⟨k,rfl,ha⟩ := hr
  rw [Nat.zero_add]
  exact ⟨turns,⟨w,w',listed,hs.subset hmem,hturns⟩,ha⟩

def Reported (support : Support B) : TurnCall → TurnResult → List (TurnExchange B) → Prop
  | .settleTurn threadId requestId lifecycle _, .ok (.settleTurn settled), es =>
    Adds (Records support lifecycle) (named support threadId requestId).toList settled.toNat {}
      (ledger support es)
  | .markAllInterrupted _, .ok (.markAllInterrupted count), es =>
    ∃ turns, Listed support es turns ∧
      Adds (Records support .interrupted) (listedIds support turns) count {} (ledger support es)
  | _, _, _ => True

theorem recorded_code (i : Nat) (call : TurnCall) :
    Safe (recorded support attempts i) (Reported support call) (code support attempts call) [] := by
  unfold code
  cases call with
  | put | putUnlessCompleted =>
    exact safe_mono (fun _ _ _ => trivial) recording_true
  | settleTurn threadId requestId lifecycle now =>
    refine safe_bind (fun r es h => ?_) (safe_try recorded_settleTurn fun settled es h =>
        recording_ret (Q := Ends (fun reply es => Reported support
          (.settleTurn threadId requestId lifecycle now) (.ok reply) es) fun _ _ => True) h)
    cases r with
    | error => exact recording_ret trivial
    | ok => exact recording_ret h
  | markAllInterrupted now =>
    refine safe_bind (fun r es h => ?_) (safe_try recorded_markAllInterrupted fun settled es h =>
        recording_ret (Q := Ends (fun reply es => Reported support
          (.markAllInterrupted now) (.ok reply) es) fun _ _ => True) h)
    cases r with
    | error => exact recording_ret trivial
    | ok => exact recording_ret h

end TurnStates

end Session
