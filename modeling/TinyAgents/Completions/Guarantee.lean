import TinyAgents.Completions.Effect

namespace Completions

open Interaction

structure Scope where
  clean : Prop
  solo : Prop
  lasting : Prop
  tombstones : Prop
  strict : Prop
  versioned : Prop
  versioned_clean : versioned → clean
  versioned_strict : versioned → strict

namespace World

variable (w : World) (parentKey : String)

def Holds (claim : ParentGateClaim) : Prop :=
  ∃ x, w.store.parentGates parentKey = some ⟨claim,x⟩

def marker : Option CompletionRecord :=
  w.get (parentMarkerId parentKey)

def status : Option ParentLifecycleStatus :=
  (w.marker parentKey).map CompletionRecord.lifecycle

def Pending (r : CompletionRecord) : Prop :=
  w.get r.taskId = some r ∧ r.parentKey = parentKey ∧ r.state = .pending

def Shut : Prop :=
  ∃ e, w.status parentKey = some (.stopped e) ∨ w.status parentKey = some (.deleted e)

theorem Shut.of_status {v v' : World} {p : String} (h : v.Shut p) (hs : v'.status p = v.status p) :
    v'.Shut p := by
  obtain ⟨e,he⟩ := h
  rw [← hs] at he
  exact ⟨e,he⟩

end World

def IsMarker (r : CompletionRecord) : Prop :=
  r.taskId = parentMarkerId r.parentKey ∧
    (r.state = .delivered ∨ r.state = .tombstoned ∨ r.state = .parentDeleted) ∧
      r.parentEpoch ≤ u64Max

instance (r : CompletionRecord) : Decidable (IsMarker r) :=
  inferInstanceAs (Decidable (_ ∧ _))

def Behind (w : World) (parentKey : String) (s : ParentLifecycleStatus) : Prop :=
  ∃ m, w.marker parentKey = some m ∧ s.epoch ≤ m.parentEpoch ∧
    (s.markerState = .parentDeleted → m.state = .parentDeleted)

def Follows (m m' : CompletionRecord) : Prop :=
  m.parentEpoch ≤ m'.parentEpoch ∧ (m.state = .parentDeleted → m'.state = .parentDeleted)

def EpochFits (status : Option ParentLifecycleStatus) (epoch : Nat) : Prop :=
  match status with
  | none => epoch = 0 ∨ epoch = 1
  | some (.opened e) => epoch = e
  | some _ => True

def SiteMarker (site : WriteSite) (m : Option CompletionRecord) (r : CompletionRecord) : Prop :=
  match site with
  | .restore => ∃ m0, m = some m0 ∧ r.lifecycle = m0.lifecycle
  | .enrol => m = none ∧ r.state = .delivered ∧ r.parentEpoch = 1
  | .close => (r.state = .tombstoned ∨ r.state = .parentDeleted) ∧
      r.parentEpoch = m.elim 1 (fun m0 => saturatingSucc u64Max m0.parentEpoch) ∧
        ∀ m0, m = some m0 → m0.state ≠ .parentDeleted
  | .resume => r.state = .delivered ∧
      r.parentEpoch = m.elim 1 (fun m0 => saturatingSucc u64Max m0.parentEpoch) ∧
        ∀ m0, m = some m0 → m0.state ≠ .parentDeleted ∧ m0.state ≠ .delivered
  | _ => False

namespace Scope

variable (S : Scope)

def Tenured (w : World) (parentKey : String) (claim : ParentGateClaim) : Prop :=
  w.Holds parentKey claim ∨ S.solo

def Protected (r : CompletionRecord) : Prop :=
  S.lasting ∨ r.state = .pending

structure Inv (w : World) : Prop where
  markers : S.clean → ∀ id r, w.get id = some r → IsMarkerId id → IsMarker r
  cached : S.clean → ∀ l p s, (w.entry l p).status = some s → Behind w p s
  epochs : S.versioned → ∀ p r, w.Pending p r → EpochFits (w.status p) r.parentEpoch

structure Rely (i : Nat) (w w' : World) : Prop where
  inv : S.Inv w → S.Inv w'
  processLocal : w'.store.processLocal = w.store.processLocal
  mine : ∀ p c, c.holder.1 = i → w'.Holds p c → w.Holds p c
  guarded : ∀ l p, (w.entry l p).held = some i → w'.entry l p = w.entry l p
  markers : S.clean → ∀ p m, w.marker p = some m → ∃ m', w'.marker p = some m' ∧ Follows m m'
  kept : S.strict → ∀ p c, c.holder.1 = i → S.Tenured w' p c →
    ∀ id r, ¬ IsMarkerId id → r.parentKey = p → S.Protected r → w.get id = some r →
      w'.get id = some r
  noNew : S.strict → ∀ p c, c.holder.1 = i → S.Tenured w' p c →
    ∀ id r, ¬ IsMarkerId id → r.parentKey = p → r.state = .pending → w'.get id = some r →
      w.get id = some r
  marker : S.clean → ∀ p c, c.holder.1 = i → S.Tenured w' p c → w'.marker p = w.marker p

def Writes (w : World) (r : CompletionRecord) (parentKey : String) (claim : ParentGateClaim) :
    WriteSite → Prop
  | .suppress seen => S.tombstones ∧ seen.state = .pending ∧ seen.parentKey = parentKey ∧
      (∃ now, r = { seen with state := .tombstoned, updatedAt := now }) ∧
        (S.clean → ¬ IsMarkerId seen.taskId)
  | .reserve => S.tombstones ∧ ∃ taskId now, r = .tombstoneStub taskId now ∧
      (S.clean → ¬ IsMarkerId taskId)
  | .withdraw seen => seen.state = .pending ∧ seen.parentKey = parentKey ∧
      (∃ now, r = { seen with state := .tombstoned, updatedAt := now }) ∧
        (S.Tenured w parentKey claim → (S.clean → ¬ IsMarkerId seen.taskId) ∧
          (S.strict → ¬ IsMarkerId seen.taskId → w.get seen.taskId = some seen))
  | .upgrade seen => seen.parentKey = parentKey ∧ r = { seen with parentEpoch := 1 } ∧
      (S.Tenured w parentKey claim → (S.clean → w.marker parentKey = none) ∧
        (S.clean → ¬ IsMarkerId seen.taskId) ∧
          (S.strict → ¬ IsMarkerId seen.taskId → S.Protected seen →
            w.get seen.taskId = some seen))
  | site => r.taskId = parentMarkerId parentKey ∧ r.parentKey = parentKey ∧
      (r.state = .delivered ∨ r.state = .tombstoned ∨ r.state = .parentDeleted) ∧
        (S.clean → S.Tenured w parentKey claim → SiteMarker site (w.marker parentKey) r) ∧
          (S.versioned → site = .enrol → S.Tenured w parentKey claim →
            ∀ r0, w.Pending parentKey r0 → r0.parentEpoch = r.parentEpoch)

def Guar (i : Nat) : Op → World → Prop
  | .acquireParentGate _ holder, _ => holder.1 = i
  | .renewParentGate _ claim, _ | .releaseParentGate _ claim, _ => claim.holder.1 = i
  | .releaseLocal l p, w => (w.entry l p).held = some i
  | .setLocalStatus l p s, w => (w.entry l p).held = some i ∧ (S.clean → Behind w p s)
  | .putFenced site r p claim, w => claim.holder.1 = i ∧ S.Writes w r p claim site
  | .insertIfAbsent r claim, w => claim.holder.1 = i ∧ r.state = .pending ∧
      (S.clean → ¬ IsMarkerId r.taskId) ∧ r.attempts = 0 ∧
        (S.clean → S.Tenured w r.parentKey claim →
          w.status r.parentKey = some (.opened r.parentEpoch))
  | .claimPending q, w | .claimTask q, w => q.gate.holder.1 = i ∧
      (S.clean → S.Tenured w q.parentKey q.gate →
        w.status q.parentKey = some (.opened q.parentEpoch))
  | .resolveClaim q, _ => q.gate.holder.1 = i
  | .compact _, _ => ¬ S.lasting
  | .handOff p e claim, w => S.clean → S.Tenured w p claim → w.status p = some (.opened e)
  | _, _ => True

def Contended : Prop :=
  S.strict ∧ ¬ S.solo

def Assumed : Op → World → Prop
  | .putFenced (.suppress seen) _ p c, w =>
    S.tombstones → S.Contended → w.store.GateCurrent p c w.now → w.get seen.taskId = some seen
  | .putFenced .reserve r p c, w =>
    S.tombstones → S.Contended → w.store.GateCurrent p c w.now → w.get r.taskId = none
  | .putFenced (.upgrade seen) _ p c, w =>
    S.Contended → w.store.GateCurrent p c w.now → ¬ S.Protected seen →
      w.get seen.taskId = some seen
  | .putFenced .resume _ p c, w =>
    S.versioned → w.store.GateCurrent p c w.now →
      ∀ r0, w.Pending p r0 → w.marker p = none ∧ r0.parentEpoch ≠ 0
  | _, _ => True

end Scope

end Completions
