import TinyAgents.Completions.World

namespace Completions

open Interaction List

def Op.fence : Op → Option (String × ParentGateClaim)
  | .putFenced _ _ parentKey gate => some (parentKey,gate)
  | .insertIfAbsent record gate => some (record.parentKey,gate)
  | .claimPending request | .claimTask request | .resolveClaim request =>
    some (request.parentKey,request.gate)
  | _ => none

def Op.claimToken : Op → Option Uuid
  | .claimPending request | .claimTask request => some request.token
  | _ => none

def Wrote (w : World) (r : CompletionRecord) : Op → Prop
  | .putFenced _ record _ _ => r = w.store.adoptEpoch record
  | .insertIfAbsent record _ => r = record ∧ w.get record.taskId = none
  | .claimPending q => ∃ r0, w.get r0.taskId = some r0 ∧
      r0.Claimable q.parentKey q.parentEpoch q.mode w.now ∧
        r = r0.claimed q.token q.visibleAfter w.now
  | .claimTask q => ∃ r0, r0.taskId = q.taskId ∧ w.get r0.taskId = some r0 ∧
      r0.Claimable q.parentKey q.parentEpoch q.mode w.now ∧
        r = r0.claimed q.token q.visibleAfter w.now
  | .resolveClaim q => ∃ r0, r0.taskId = q.taskId ∧ w.get r0.taskId = some r0 ∧
      r0.Settles q w.now ∧ r = r0.settled q.resolution w.now
  | _ => False

def SetsGate (w : World) (parentKey : String) (g : Option MemoryParentGate) : Op → Prop
  | .acquireParentGate _ holder => ∃ x, g = some x ∧ x.claim.holder = holder
  | .renewParentGate key claim => key = parentKey ∧
      ∃ x y, g = some ⟨claim,x⟩ ∧ w.store.parentGates parentKey = some ⟨claim,y⟩
  | .releaseParentGate key claim => key = parentKey ∧
      ∃ y, g = none ∧ w.store.parentGates parentKey = some ⟨claim,y⟩
  | _ => False

def SetsEntry (i : Nat) (w : World) (lifecycle : Nat) (parentKey : String)
    (e : ParentLifecycleEntry) : Op → Prop
  | .acquireLocal l p => l = lifecycle ∧ p = parentKey ∧ (w.entry l p).held = none ∧
      e = { w.entry l p with held := some i }
  | .releaseLocal l p => l = lifecycle ∧ p = parentKey ∧ e = { w.entry l p with held := none }
  | .setLocalStatus l p s => l = lifecycle ∧ p = parentKey ∧
      e = { w.entry l p with status := some s }
  | _ => False

inductive Change (i : Nat) (op : Op) (w w' : World) : Prop
  | silent : w'.store = w.store → w'.lifecycles = w.lifecycles → Change i op w w'
  | gate (parentKey : String) (g : Option MemoryParentGate) :
      w'.lifecycles = w.lifecycles → w'.store.records = w.store.records →
      w'.store.processLocal = w.store.processLocal →
      w'.store.parentGates = Function.update w.store.parentGates parentKey g →
      SetsGate w parentKey g op → Change i op w w'
  | entry (lifecycle : Nat) (parentKey : String) (e : ParentLifecycleEntry) :
      w' = w.setEntry lifecycle parentKey e →
      SetsEntry i w lifecycle parentKey e op → Change i op w w'
  | write (parentKey : String) (claim : ParentGateClaim) :
      op.fence = some (parentKey,claim) → w.store.GateCurrent parentKey claim w.now →
      w'.lifecycles = w.lifecycles → w'.store.parentGates = w.store.parentGates →
      w'.store.processLocal = w.store.processLocal →
      (∀ id, w'.get id = w.get id ∨ ∃ r, w'.get id = some r ∧ r.taskId = id ∧ Wrote w r op) →
      Change i op w w'
  | sweep (retain : Nat) : op = .compact retain → w'.lifecycles = w.lifecycles →
      w'.store.parentGates = w.store.parentGates →
      w'.store.processLocal = w.store.processLocal →
      (∀ id, w'.get id = (w.get id).filter
        (fun r => IsMarkerId r.taskId ∨ ¬ r.Expired w.now retain)) → Change i op w w'

namespace World

@[simp] theorem setStore_store (w : World) (s : Store) : (w.setStore s).store = s := rfl

@[simp] theorem setStore_get (w : World) (s : Store) (id : String) :
    (w.setStore s).get id = s.records.get id := rfl

theorem entry_setEntry (w : World) (l m : Nat) (p q : String) (e : ParentLifecycleEntry) :
    (w.setEntry l p e).entry m q = if m = l ∧ q = p then e else w.entry m q := by
  unfold entry setEntry
  by_cases hl : m = l
  · subst hl
    by_cases hp : q = p
    all_goals simp [hp]
  · simp [hl]

end World

namespace Store

def written (s : Store) (r : CompletionRecord) : Store :=
  { s with records := s.records.insert (s.adoptEpoch r) }

variable {now : Nat} {s s' : Store} {parentKey : String}

theorem GateCurrent.exists {gate} (h : s.GateCurrent parentKey gate now) :
    ∃ x, s.parentGates parentKey = some ⟨gate,x⟩ := by
  unfold GateCurrent at h
  obtain ⟨⟨_,x⟩,hg,hx⟩ := (Option.any_eq_true _ _).1 h
  simp only [Bool.decide_and,Bool.and_eq_true,decide_eq_true_eq] at hx
  exact ⟨x,by rw [hg,hx.1]⟩

theorem withCurrentGate_ok {α : Type} {gate} {f} {a : α}
    (h : s.withCurrentGate parentKey gate now f = .ok (a,s')) :
    s.GateCurrent parentKey gate now ∧ a = (f s.records).1 ∧
    s' = { s with records := (f s.records).2 } := by
  unfold withCurrentGate at h
  split at h
  next hc =>
    cases h
    exact ⟨hc,rfl,rfl⟩
  · cases h

theorem mem_candidates {request} {r} (h : r ∈ s.candidates request now) :
    s.records.get r.taskId = some r ∧
    r.Claimable request.parentKey request.parentEpoch request.mode now := by
  have hm := mem_of_mem_take h
  rw [mem_insertionSort,mem_filter] at hm
  exact ⟨Table.get_eq_some.2 ⟨hm.1,rfl⟩,by simpa using hm.2⟩

theorem candidates_nodup (s : Store) (request : PendingClaimRequest) (now : Nat) :
    ((s.candidates request now).map CompletionRecord.taskId).Nodup := by
  have hf := s.records.nodup.sublist ((filter_sublist (p := fun r => decide
    (r.Claimable request.parentKey request.parentEpoch request.mode now))).map
      CompletionRecord.taskId)
  have hp := ((perm_insertionSort CompletionRecord.Older _).map
    CompletionRecord.taskId).nodup_iff.2 hf
  exact hp.sublist ((take_sublist _ _).map _)

theorem grantParentGate_ok {holder : Uuid} {claim}
    (h : s.grantParentGate parentKey holder now = .ok (some claim,s')) :
    claim.holder = holder ∧ s'.records = s.records ∧ s'.processLocal = s.processLocal ∧
    ∃ x, s'.parentGates = Function.update s.parentGates parentKey (some ⟨claim,x⟩) := by
  unfold grantParentGate at h
  dsimp only at h
  split at h
  · cases h
  · cases h
    exact ⟨rfl,rfl,rfl,_,rfl⟩

theorem acquireParentGate_ok {holder : Uuid} {claim}
    (h : s.acquireParentGate parentKey holder now = .ok (some claim,s')) :
    claim.holder = holder ∧ s'.records = s.records ∧ s'.processLocal = s.processLocal ∧
    ∃ x, s'.parentGates = Function.update s.parentGates parentKey (some ⟨claim,x⟩) := by
  unfold acquireParentGate at h
  split at h
  next existing hg =>
    split at h
    · split at h
      next hh =>
        cases h
        exact ⟨hh,rfl,rfl,existing.expiresAt,(Function.update_eq_self_iff.2 hg.symm).symm⟩
      · cases h
    · exact grantParentGate_ok h
  · exact grantParentGate_ok h

end Store

variable {i : Nat} {w w' : World} {op : Op}

theorem change_of_write {α : Type} {parentKey : String} {claim : ParentGateClaim} {f}
    {x : Except Fault α} (h : Attempted w (w.store.withCurrentGate parentKey claim w.now f) x w')
    (hop : op.fence = some (parentKey,claim))
    (hf : ∀ id, (f w.store.records).2.get id = w.get id ∨
      ∃ r, (f w.store.records).2.get id = some r ∧ r.taskId = id ∧ Wrote w r op) :
    Change i op w w' := by
  rcases h with ⟨e,-,rfl⟩ | ⟨a,s,hs,-,rfl⟩
  · exact .silent rfl rfl
  · obtain ⟨hc,-,rfl⟩ := Store.withCurrentGate_ok hs
    exact .write parentKey claim hop hc rfl rfl rfl hf

theorem insert_change {r} (h : Wrote w r op) (id : String) :
    (w.store.records.insert r).get id = w.get id ∨
    ∃ r', (w.store.records.insert r).get id = some r' ∧ r'.taskId = id ∧ Wrote w r' op := by
  by_cases hid : r.taskId = id
  · exact .inr ⟨r,by rw [← hid,Table.get_insert_self],hid,h⟩
  · exact .inl (Table.get_insert_ne hid)

theorem claimPending_change (request : PendingClaimRequest) (id : String) :
    let claimed := (w.store.candidates request w.now).map fun r =>
      r.claimed request.token request.visibleAfter w.now
    (w.store.records.insertAll claimed).get id = w.get id ∨
      ∃ r, (w.store.records.insertAll claimed).get id = some r ∧ r.taskId = id ∧
        Wrote w r (.claimPending request) := by
  intro claimed
  by_cases hm : ∃ r ∈ claimed, r.taskId = id
  · obtain ⟨r,hr,rfl⟩ := hm
    have hn : (claimed.map CompletionRecord.taskId).Nodup := by
      rw [map_map]
      exact w.store.candidates_nodup request w.now
    refine .inr ⟨r,Table.get_insertAll_of_mem hn hr,rfl,?_⟩
    obtain ⟨r0,hr0,rfl⟩ := mem_map.1 hr
    obtain ⟨hg,hc⟩ := Store.mem_candidates hr0
    exact ⟨r0,hg,hc,rfl⟩
  · refine .inl (Table.get_insertAll_of_notMem fun r hr he => hm ⟨r,hr,he⟩)

theorem gate_change {parentKey : String} {g} {x} {b : Bool}
    (h : Attempted w (.ok (b,w.store.setGate parentKey g)) x w') (hop : SetsGate w parentKey g op) :
    Change i op w w' := by
  rcases h with ⟨e,-,rfl⟩ | ⟨a,s,hs,-,rfl⟩
  · exact .silent rfl rfl
  · cases hs
    exact .gate parentKey g rfl rfl rfl rfl hop

theorem unchanged_change {α : Type} {a : α} {x} (h : Attempted w (.ok (a,w.store)) x w') :
    Change i op w w' := by
  rcases h with ⟨e,-,rfl⟩ | ⟨a,s,hs,-,rfl⟩
  · exact .silent rfl rfl
  · cases hs
    exact .silent rfl rfl

theorem Outcome.change {x : Ans op} (h : Outcome i op w x w') : Change i op w w' := by
  cases op with
  | lockRouter | updateRouter | newUuid | clock | isProcessLocal =>
    obtain ⟨-,rfl⟩ := h
    exact .silent rfl rfl
  | unlockRouter | handOff =>
    cases h
    exact .silent rfl rfl
  | acquireParentGate parentKey =>
    rcases h with ⟨e,-,rfl⟩ | ⟨claim,s,hs,-,rfl⟩
    · exact .silent rfl rfl
    · obtain ⟨hh,hr,hp,x,hg⟩ := Store.acquireParentGate_ok hs
      exact .gate parentKey _ rfl hr hp hg ⟨_,rfl,hh⟩
  | renewParentGate parentKey claim =>
    change Attempted w (.ok (w.store.renewParentGate parentKey claim w.now)) x w' at h
    unfold Store.renewParentGate at h
    split at h
    next gate hg =>
      split at h
      next hc => exact gate_change h ⟨rfl,_,gate.expiresAt,rfl,by rw [hg,← hc.1]⟩
      · exact unchanged_change h
    · exact unchanged_change h
  | releaseParentGate parentKey claim =>
    change Attempted w (.ok (w.store.releaseParentGate parentKey claim w.now)) x w' at h
    unfold Store.releaseParentGate at h
    split at h
    next gate hg =>
      split at h
      next hc => exact gate_change h ⟨rfl,gate.expiresAt,rfl,by rw [hg,← hc.1]⟩
      · exact unchanged_change h
    · exact unchanged_change h
  | acquireLocal lifecycle parentKey =>
    rcases h with ⟨e,-,rfl⟩ | ⟨hh,-,rfl⟩
    · exact .silent rfl rfl
    · exact .entry lifecycle parentKey _ rfl ⟨rfl,rfl,hh,rfl⟩
  | releaseLocal lifecycle parentKey =>
    cases h
    exact .entry lifecycle parentKey _ rfl ⟨rfl,rfl,rfl⟩
  | localStatus | get | tryGet | list | tryList =>
    obtain ⟨rfl,-⟩ := h
    exact .silent rfl rfl
  | setLocalStatus lifecycle parentKey =>
    rcases h with ⟨e,-,rfl⟩ | ⟨-,-,rfl⟩
    · exact .silent rfl rfl
    · exact .entry lifecycle parentKey _ rfl ⟨rfl,rfl,rfl⟩
  | putFenced site record parentKey gate =>
    have hw : Wrote w _ (.putFenced site record parentKey gate) := rfl
    exact change_of_write h rfl (insert_change hw)
  | insertIfAbsent record gate =>
    refine change_of_write h rfl fun id => ?_
    split
    · exact .inl rfl
    next hn =>
      have hw : Wrote w record (.insertIfAbsent record gate) :=
        ⟨rfl,by simpa [World.get] using hn⟩
      exact insert_change hw id
  | claimPending request =>
    change Attempted w (w.store.claimPending request w.now) x w' at h
    rw [Store.claimPending] at h
    exact change_of_write h rfl (claimPending_change request)
  | claimTask request =>
    refine change_of_write h rfl fun id => ?_
    split
    next r hr =>
      have hk := Table.key_of_get hr
      split
      next hc =>
        have hw : Wrote w _ (.claimTask request) := ⟨r,hk,by rw [hk]; exact hr,hc,rfl⟩
        exact insert_change hw id
      · exact .inl rfl
    · exact .inl rfl
  | resolveClaim request =>
    refine change_of_write h rfl fun id => ?_
    split
    next r hr =>
      have hk := Table.key_of_get hr
      split
      next hc =>
        have hw : Wrote w _ (.resolveClaim request) := ⟨r,hk,by rw [hk]; exact hr,hc,rfl⟩
        exact insert_change hw id
      · exact .inl rfl
    · exact .inl rfl
  | compact retain =>
    rcases h with ⟨e,-,rfl⟩ | ⟨a,s,hs,-,rfl⟩
    · exact .silent rfl rfl
    · cases hs
      exact .sweep retain rfl rfl rfl rfl fun id => Table.get_retain _ _ id

end Completions
