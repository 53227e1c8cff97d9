import TinyAgents.Interaction.Traces
import TinyAgents.Completions.Calls

namespace Completions

open Interaction

def Op.common : Op → Bool
  | .insertIfAbsent _ _ => false
  | .resolveClaim _ => false
  | .handOff _ _ _ => false
  | _ => true

def RouterCall.Requests (call : RouterCall) : Op → Prop
  | .insertIfAbsent r _ => ∃ router supplied, call = .record router supplied ∧
      r.taskId = supplied.taskId ∧ r.parentKey = supplied.parentKey ∧
        (supplied.parentEpoch ≠ 0 → r.parentEpoch = supplied.parentEpoch)
  | .resolveClaim q => match q.resolution with
    | .delivered => ∃ router receipts, call = .markDelivered router receipts
    | .failed n => ∃ router receipts, call = .markFailed router receipts ∧ n = router.maxAttempts
    | .release => True
  | .handOff parentKey parentEpoch _ => ∃ lifecycle,
      call = .acquirePermit lifecycle parentKey parentEpoch
  | _ => True

class Permits (P : Op → Prop) : Prop where
  common : ∀ op, op.common = true → P op

instance {call : RouterCall} : Permits call.Requests where
  common := fun op _ => by cases op <;> trivial

section

variable {α : Type} {P : Op → Prop} {l : Nat} {p : String} {c : ParentGateClaim}

theorem asks_ask {op : Op} (h : P op) : Asks P (ask op) :=
  ⟨h,fun _ => trivial⟩

theorem asks_plain {q : Program Op Ans α} (h : Asks P q) : Asks P (plain q).run :=
  asks_bind h fun _ => trivial

variable [Permits P]

theorem asked {op : Op} (h : op.common) : Asks P (ask op) :=
  asks_ask (Permits.common op h)

theorem asks_updateState {router : Router} {f} : Asks P (updateState router f) :=
  asks_bind (asked rfl) fun _ => trivial

theorem asks_drop : Asks P (ParentGateGuard.drop l p c) :=
  asks_bind (asks_bind (asked rfl) fun _ => trivial) fun _ => asked rfl

theorem asks_acquire : Asks P (ParentGateGuard.acquire l p).run := by
  refine asks_try (asks_try (asks_plain (asked rfl)) fun _ => asked rfl)
    fun _ => asks_bind (asked rfl) fun x => ?_
  cases x with
  | error => exact asks_bind (asks_bind (asked rfl) fun _ => trivial) fun _ => trivial
  | ok =>
    refine asks_bind (asked rfl) fun y => ?_
    match y with
    | .ok true => trivial
    | .ok false | .error _ => exact asks_bind asks_drop fun _ => trivial

theorem asks_withGate {body : ParentGateClaim → Task α} (h : ∀ c, Asks P (body c).run) :
    Asks P (withGate l p body).run :=
  asks_try asks_acquire fun c => asks_bind (h c) fun _ =>
    asks_bind asks_drop fun _ => trivial

variable {router : Router}

theorem asks_withRouter {body : Task α} (h : Asks P body.run) :
    Asks P (withRouter router body).run :=
  asks_bind (asked rfl) fun _ => asks_bind h fun _ =>
    asks_bind (asked rfl) fun _ => trivial

theorem asks_cacheStatus (status : Option ParentLifecycleStatus) :
    Asks P (cacheStatus l p status).run := by
  cases status with
  | none => trivial
  | some => exact asks_try (asked rfl) fun _ => trivial

theorem asks_parentLifecycleStatus : Asks P (parentLifecycleStatus l p).run := by
  refine asks_try (asked rfl) fun marker => ?_
  refine asks_try (asks_plain (asked rfl)) fun b => ?_
  cases b with
  | true => exact asks_try (asked rfl) fun _ => asks_cacheStatus _
  | false =>
    cases marker with
    | none => exact asked rfl
    | some m => exact asks_cacheStatus (some m.lifecycle)

theorem asks_writeParentMarker (status : ParentLifecycleStatus) :
    Asks P (writeParentMarker p status c).run :=
  asks_try (asks_plain (asked rfl)) fun _ => asked rfl

theorem asks_setParentMarker (site : WriteSite) (state : CompletionState) :
    Asks P (setParentMarker site l p state c).run :=
  asks_try (asks_plain (asked rfl)) fun _ =>
    asks_try (asked rfl) fun _ => asks_try (asked rfl) fun _ =>
      asks_try (asks_plain (asked rfl)) fun _ =>
        asks_try (asked rfl) fun _ => asked rfl

variable (records : List CompletionRecord)

theorem asks_upgradeLegacy : Asks P (upgradeLegacy p c records).run := by
  induction records with
  | nil => trivial
  | cons _ _ ih =>
    unfold upgradeLegacy
    split
    · exact asks_try (asked rfl) fun _ => ih
    · exact ih

theorem asks_restoreOpen (epoch : Nat) : Asks P (restoreOpen p epoch c).run := by
  refine asks_try (asks_plain (asked rfl)) fun b => ?_
  cases b with
  | false => exact asks_writeParentMarker _
  | true =>
    refine asks_try (asked rfl) fun marker => ?_
    cases marker with
    | none => exact asks_writeParentMarker _
    | some => trivial

theorem asks_restoreClosed : Asks P (restoreClosed l p c).run := by
  refine asks_try (asks_plain (asked rfl)) fun b => ?_
  cases b with
  | true => trivial
  | false =>
    refine asks_try (asked rfl) fun marker => ?_
    cases marker with
    | some => trivial
    | none =>
      refine asks_try (asked rfl) fun cached => ?_
      cases cached with
      | none => trivial
      | some => exact asks_writeParentMarker _

theorem asks_openFirst : Asks P (openFirst l p c).run := by
  refine asks_try (asked rfl) fun records => ?_
  refine asks_try (asks_upgradeLegacy records) fun _ => ?_
  refine asks_try (asks_setParentMarker _ _) fun _ => asks_try (asked rfl) ?_
  intro marker
  cases marker <;> trivial

theorem asks_admitChildLocked : Asks P (admitChildLocked l p c).run := by
  refine asks_try asks_parentLifecycleStatus fun status => ?_
  match status with
  | some (.opened e) => exact asks_try (asks_restoreOpen e) fun _ => trivial
  | some (.stopped e) | some (.deleted e) => exact asks_try asks_restoreClosed fun _ => trivial
  | none => exact asks_openFirst

theorem asks_withdrawEach (n : Nat) : Asks P (withdrawEach router p c records n).run := by
  induction records generalizing n with
  | nil => trivial
  | cons _ _ ih =>
    unfold withdrawEach
    split
    · exact asks_try (asks_plain (asked rfl)) fun _ =>
        asks_try (asked rfl) fun _ =>
          asks_try (asks_plain asks_updateState) fun _ => ih _
    · exact ih n

theorem asks_closeParent {state : CompletionState} : Asks P (closeParent router p state).run := by
  refine asks_withRouter (asks_withGate fun c => ?_)
  refine asks_try asks_parentLifecycleStatus fun status => ?_
  have hrest : Asks P (do
      setParentMarker .close router.lifecycle p state c
      plain (updateState router (RouterState.detach p))
      withdrawEach router p c (← tryList (some p)) 0 : Task Nat).run :=
    asks_try (asks_setParentMarker _ _) fun _ =>
      asks_try (asks_plain asks_updateState) fun _ =>
        asks_try (asked rfl) fun records => asks_withdrawEach records 0
  match status with
  | some (.deleted e) => exact asks_try (asks_plain asks_updateState) fun _ => trivial
  | some (.opened e) => exact hrest
  | some (.stopped e) => exact hrest
  | none => exact hrest

theorem asks_resumeParent : Asks P (resumeParent router p).run := by
  refine asks_withRouter (asks_withGate fun c => ?_)
  refine asks_try asks_parentLifecycleStatus fun status => ?_
  match status with
  | some (.opened e) => trivial
  | some (.deleted e) => trivial
  | some (.stopped e) | none => exact asks_setParentMarker _ _

theorem asks_claim {max : Nat} {mode : CompletionClaimMode} :
    Asks P (claim router p max mode).run := by
  refine asks_withRouter (asks_withGate fun c => ?_)
  refine asks_try asks_admitChildLocked fun status => ?_
  cases status with
  | none => trivial
  | some =>
    exact asks_try (asks_plain (asked rfl)) fun _ =>
      asks_try (asks_plain (asked rfl)) fun _ =>
        asks_try (asked rfl) fun _ =>
          asks_try (asks_plain asks_updateState) fun _ => trivial

theorem asks_claimPush {r : CompletionRecord} {lane : QueueLane} :
    Asks P (claimPush router r c lane).run := by
  refine asks_try (asks_plain (asked rfl)) fun _ => ?_
  refine asks_try (asks_plain (asked rfl)) fun _ => ?_
  refine asks_try (asked rfl) fun claimed => ?_
  cases claimed with
  | none => trivial
  | some => exact asks_try (asks_plain asks_updateState) fun _ => trivial

theorem asks_storeRecord {r : CompletionRecord} (hr : P (.insertIfAbsent r c)) :
    Asks P (storeRecord router r c).run := by
  refine asks_try (asks_ask hr) fun inserted => ?_
  cases inserted with
  | false =>
    refine asks_try (asked rfl) fun existing => ?_
    cases existing <;> trivial
  | true =>
    refine asks_try (asks_plain (asked rfl)) fun _ => ?_
    cases r.notifyMode.lane with
    | none => trivial
    | some =>
      dsimp only
      split
      · exact asks_claimPush
      · trivial

theorem asks_tombstone {taskId : String} : Asks P (tombstone router taskId).run := by
  refine asks_withRouter (asks_try (asks_plain (asked rfl)) fun existing => ?_)
  cases existing with
  | none =>
    exact asks_withGate fun c => asks_try (asks_plain (asked rfl)) fun _ =>
      asks_try (asked rfl) fun _ => trivial
  | some =>
    dsimp only
    split
    · exact asks_withGate fun c => asks_try (asks_plain (asked rfl)) fun _ =>
        asks_try (asked rfl) fun _ =>
          asks_try (asks_plain asks_updateState) fun _ => trivial
    · trivial

end

variable {call : RouterCall} {l : Nat} {p : String}

theorem requests_reply {α : Type} {f} {task : Task α}
    (h : Asks call.Requests task.run) : Asks call.Requests (reply f task) :=
  asks_try h fun _ => trivial

variable {c : ParentGateClaim} {router : Router}

theorem asks_resolve {P : Op → Prop} {receipt} {resolution}
    (h : ∀ q : ResolveClaimRequest, q.resolution = resolution → P (.resolveClaim q)) :
    Asks P (resolve receipt resolution c).run :=
  asks_ask (h _ rfl)

theorem requests_releaseEach {router : Router} {receipts : List CompletionReceipt} :
    Asks call.Requests (releaseEach router receipts) := by
  induction receipts with
  | nil => trivial
  | cons _ _ ih =>
    refine asks_bind asks_updateState fun _ => ?_
    refine asks_bind (asks_withGate fun c => ?_) fun _ => ih
    exact asks_resolve fun q hq => by simp [RouterCall.Requests,hq]

theorem requests_release {router : Router} {receipts : List CompletionReceipt} :
    Asks call.Requests (release router receipts).run :=
  asks_withRouter
    (asks_plain requests_releaseEach)

theorem asks_resolveEach {P} [Permits P] (router : Router) {resolution} (receipts) (n : Nat)
    (h : ∀ q : ResolveClaimRequest, q.resolution = resolution → P (.resolveClaim q)) :
    Asks P (resolveEach router resolution receipts n).run := by
  induction receipts generalizing n with
  | nil => trivial
  | cons _ _ ih =>
    refine asks_try (asks_withGate fun c => ?_) fun _ => ih _
    refine asks_try (asks_resolve h) fun _ => ?_
    exact asks_try (asks_plain asks_updateState) fun _ => trivial

theorem requests_releaseParentEach {router : Router} {c} {records} :
    Asks call.Requests (releaseParentEach router c records) := by
  induction records with
  | nil => trivial
  | cons r _ ih =>
    refine asks_bind (asked rfl) fun state => ?_
    refine asks_bind asks_updateState fun _ => ?_
    cases state.activeReceipts.get r.taskId with
    | none => exact ih
    | some =>
      exact asks_bind (asks_bind (asks_resolve fun q hq => by simp [RouterCall.Requests,hq])
        fun _ => trivial) fun _ => ih

variable {all : List CompletionReceipt} (receipts : List CompletionReceipt)

theorem requests_failEach (gaveUp : List CompletionRecord) :
    Asks (RouterCall.markFailed router all).Requests (failEach router receipts gaveUp) := by
  induction receipts generalizing gaveUp with
  | nil => trivial
  | cons _ _ ih =>
    refine asks_bind (asks_withGate fun c =>
      asks_resolve fun q hq => by simp [RouterCall.Requests,hq]) fun resolved => ?_
    refine asks_bind asks_updateState fun _ => ?_
    match resolved with
    | .ok (some r) => exact ih _
    | .ok none | .error _ => exact ih _

theorem requests_recordLocked {supplied : CompletionRecord} :
    Asks (RouterCall.record router supplied).Requests (recordLocked router supplied c).run := by
  refine asks_try (asked rfl) fun _ => ?_
  refine asks_try asks_admitChildLocked fun status => ?_
  cases status with
  | none => trivial
  | some =>
    refine asks_try (asks_plain (asked rfl)) fun existing => ?_
    cases existing with
    | some => trivial
    | none =>
      dsimp only
      split
      · trivial
      next hstale =>
        refine asks_try (asks_plain (asked rfl)) fun _ => ?_
        refine asks_storeRecord ⟨router,supplied,rfl,rfl,rfl,fun hne => ?_⟩
        by_contra he
        exact hstale (.inl ⟨hne,Ne.symm he⟩)

theorem requests_recordPush {push} : Asks call.Requests (recordPush router p c push).run := by
  match push with
  | none => trivial
  | some (lane,receipt) =>
    refine asks_try (asked rfl) fun renewed => ?_
    cases renewed with
    | true => trivial
    | false => exact asks_try requests_release fun _ => trivial

theorem requests_record {supplied} :
    Asks (RouterCall.record router supplied).Requests (record router supplied).run := by
  have hend {q : Except Fault RecordOutcome} {c : ParentGateClaim} :
      Asks (RouterCall.record router supplied).Requests (do
        ParentGateGuard.drop router.lifecycle supplied.parentKey c
        ask (.unlockRouter router.id)
        return q) :=
    asks_bind asks_drop fun _ => asks_bind (asked rfl) fun _ => trivial
  refine asks_bind (asked rfl) fun _ => asks_bind asks_acquire fun gate => ?_
  cases gate with
  | error => exact asks_bind (asked rfl) fun _ => trivial
  | ok =>
    refine asks_bind requests_recordLocked fun step => ?_
    match step with
    | .error e => exact hend
    | .ok (.done outcome) => exact hend
    | .ok (.push push) =>
      refine asks_bind (asked rfl) fun _ => ?_
      exact asks_bind requests_recordPush fun _ =>
        asks_bind asks_drop fun _ => trivial

theorem requests_code (call : RouterCall) : Asks call.Requests call.code := by
  cases call with
  | record => exact requests_reply requests_record
  | claim => exact requests_reply asks_claim
  | markDelivered _ receipts =>
    exact requests_reply (asks_withRouter (asks_resolveEach _ receipts 0
      fun _ hq => by simp [RouterCall.Requests,hq]))
  | markFailed _ receipts =>
    exact requests_reply (asks_withRouter (asks_plain (requests_failEach receipts [])))
  | release => exact requests_reply requests_release
  | releaseAll router =>
    exact requests_reply (asks_withRouter (asks_try (asks_plain (asked rfl))
      fun _ => asks_resolveEach router _ 0 fun _ hq => by simp [RouterCall.Requests,hq]))
  | attachParent =>
    exact requests_reply (asks_withRouter (asks_plain asks_updateState))
  | detachParent =>
    refine requests_reply (asks_withRouter ?_)
    refine asks_try (asks_plain asks_updateState) fun _ => ?_
    refine asks_try (asks_plain (asks_withGate fun c => asks_plain ?_)) fun _ => trivial
    exact asks_bind (asked rfl) fun _ => requests_releaseParentEach
  | tombstone => exact requests_reply asks_tombstone
  | cancelParent | deleteParent => exact requests_reply asks_closeParent
  | resumeParent => exact requests_reply asks_resumeParent
  | admitChildGeneration =>
    exact requests_reply (asks_withRouter (asks_withGate fun _ => asks_admitChildLocked))
  | parentGenerationAdmitted =>
    exact requests_reply (asks_withRouter (asks_withGate fun _ =>
      asks_try asks_parentLifecycleStatus fun _ => trivial))
  | acquirePermit l =>
    refine requests_reply (asks_withGate fun c => ?_)
    refine asks_try (asks_try asks_parentLifecycleStatus fun _ => trivial) fun admitted => ?_
    cases admitted with
    | false => trivial
    | true => exact asks_try (asks_plain (asks_ask ⟨l,rfl⟩)) fun _ => trivial
  | compact => exact requests_reply (asks_withRouter (asked rfl))

end Completions
