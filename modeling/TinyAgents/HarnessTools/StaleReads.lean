import TinyAgents.HarnessTools.FileStates

namespace HarnessTools.FileStates

open Interaction List Option Function

theorem latestWriter_eq_none {l} : latestWriter l = none ↔ l = [] := by
  cases l with
  | nil | cons => simp [latestWriter]

theorem not_later_of_checkStaleRead {w : World} {agent writer : String} {stamp : ReadStamp}
    {time : Nat} (h : w.checkStaleRead agent = none) (hs : w.reads.lookup agent = some stamp)
    (hw : w.writes.lookup writer = some time) (hne : writer ≠ agent) : time ≤ stamp.timestamp := by
  rw [World.checkStaleRead,hs,bind_some,latestWriter_eq_none,writersAfterRead,
    filter_eq_nil_iff] at h
  have hmem := h _ (Map.lookup_eq_some.1 hw)
  simp only [hne,ne_eq,not_false_eq_true,true_and,decide_eq_true_eq,Nat.not_lt] at hmem
  exact hmem

section

variable (w : World)

def Pending (k : Nat) (e : Written) : Prop :=
  k+1 = w.history.length ∧ ∃ i s, w.sections.lookup i = some s ∧ s.agent = e.agent ∧
    s.stored = true

def Later (e : Written) (t : Nat) : Prop :=
  ∃ time, w.writes.lookup e.agent = some time ∧ t < time

def Since (n : Nat) (P : Nat → Written → Prop) : Prop :=
  ∀ k e, n ≤ k → w.history[k]? = some e → P k e

def HasRead (agent : String) : Prop :=
  ∃ n, w.known agent = some n ∧ Since w n fun _ e => e.agent = agent

structure Tracked : Prop where
  stamps : ∀ a s, w.reads.lookup a = some s → s.timestamp ≤ w.clock
  clocks : ∀ (k : Nat) (e : Written), w.history[k]? = some e → e.clock ≤ w.clock
  locks : ∀ i s, w.sections.lookup i = some s → s.locked = true → w.lock = some i
  single : ∀ i j s t, w.sections.lookup i = some s → w.sections.lookup j = some t → i = j
  recorded : ∀ (k : Nat) (e : Written), w.history[k]? = some e → Pending w k e ∨ Later w e e.clock
  known : ∀ a n, w.known a = some n → w.content.isSome = true ∧
    ∃ s, w.reads.lookup a = some s ∧
      Since w n fun k e => e.agent ≠ a → Pending w k e ∨ Later w e s.timestamp
  hadRead : ∀ i s, w.sections.lookup i = some s →
    ((w.known s.agent).isSome = true → s.hadRead = true) ∧
    (s.hadRead = true → HasRead w s.agent)

variable {w : World} {i : Nat} {agent : String}

theorem Tracked.tick (h : Tracked w) {now : Nat} (hn : w.clock < now) :
    Tracked { w with clock := now } :=
  { h with
    stamps := fun a s hs => Nat.le_trans (h.stamps a s hs) (Nat.le_of_lt hn)
    clocks := fun k e he => Nat.le_trans (h.clocks k e he) (Nat.le_of_lt hn) }

def Idle (i : Nat) (w : World) : Prop := ∀ s, w.sections.lookup i = some s → s.stored = false

variable {s : Section}

theorem lookup_of_leave {j : Nat} (h : (w.leave i).sections.lookup j = some s) :
    w.sections.lookup j = some s := by
  rw [World.leave,Map.lookup_remove] at h
  split at h
  · cases h
  · exact h

theorem Pending.leave {k : Nat} {e : Written} (h : Pending w k e) (hi : Idle i w) :
    Pending (w.leave i) k e := by
  obtain ⟨hk,j,s,hj,ha,hs⟩ := h
  refine ⟨hk,j,s,?_,ha,hs⟩
  rw [World.leave,Map.lookup_remove,if_neg]
  · exact hj
  rintro rfl
  rw [hi s hj] at hs
  cases hs

theorem Tracked.leave (h : Tracked w) (hi : Idle i w) : Tracked (w.leave i) where
  stamps := h.stamps
  clocks := h.clocks
  locks := fun j s hj => h.locks j s (lookup_of_leave hj)
  single := fun j k s t hj hk => h.single j k s t (lookup_of_leave hj) (lookup_of_leave hk)
  recorded := fun k e he => (h.recorded k e he).imp_left fun hp => hp.leave hi
  known := fun a n hn => by
    obtain ⟨hc,s,hs,hk⟩ := h.known a n hn
    exact ⟨hc,s,hs,fun k e hle he hne => (hk k e hle he hne).imp_left fun hp => hp.leave hi⟩
  hadRead := fun j s hj => h.hadRead j s (lookup_of_leave hj)

theorem Tracked.release (h : Tracked w) (hi : Idle i w) : Tracked (w.release i) := by
  have hl := h.leave hi
  refine { hl with locks := fun j s hj hs => ?_ }
  have hlock := hl.locks j s hj hs
  have hne : j ≠ i := by
    rintro rfl
    rw [World.release,World.leave,Map.lookup_remove,if_pos rfl] at hj
    cases hj
  have hlock : w.lock = some j := hlock
  simp only [World.release,hlock,Option.some.injEq,if_neg hne]

theorem Tracked.enter (h : Tracked w) (hnone : ∀ j, w.sections.lookup j = none) {locked : Bool}
    (hlock : locked → w.lock = some i)
    (hread : ∀ n, w.known agent = some n → Since w n fun _ e => e.agent = agent) :
    Tracked (w.enter i agent locked) := by
  have hnot k e : ¬ Pending w k e := by
    rintro ⟨-,j,s,hj,-⟩
    rw [hnone j] at hj
    cases hj
  have hown {j} {s} (hj : (w.enter i agent locked).sections.lookup j = some s) :
      j = i ∧ s = ⟨agent,locked,(w.known agent).isSome,false⟩ := by
    rw [World.enter,Map.lookup_put] at hj
    split at hj
    next he =>
      cases hj
      exact ⟨he.symm,rfl⟩
    · rw [hnone j] at hj
      cases hj
  refine ⟨h.stamps,h.clocks,?_,?_,?_,?_,?_⟩
  · intro j s hj hs
    obtain ⟨rfl,rfl⟩ := hown hj
    exact hlock hs
  · intro j k s t hj hk
    rw [(hown hj).1,(hown hk).1]
  · exact fun k e he => .inr ((h.recorded k e he).resolve_left (hnot k e))
  · intro a n hn
    obtain ⟨hc,s,hs,hk⟩ := h.known a n hn
    exact ⟨hc,s,hs,fun k e hle he hne => .inr ((hk k e hle he hne).resolve_left (hnot k e))⟩
  intro j s hj
  obtain ⟨rfl,rfl⟩ := hown hj
  refine ⟨fun hk => hk,fun hk => ?_⟩
  obtain ⟨n,hn⟩ := isSome_iff_exists.1 hk
  exact ⟨n,hn,hread n hn⟩

theorem known_learn {a : String} {n : Nat} (h : (w.learn i agent).known a = some n) :
    a = agent ∧ n = max (w.loads i) ((w.known agent).getD 0) ∨ a ≠ agent ∧ w.known a = some n := by
  by_cases ha : a = agent
  · subst ha
    simp only [World.learn,update_self,Option.some.injEq] at h
    exact .inl ⟨rfl,h.symm⟩
  · simp only [World.learn,update_of_ne ha] at h
    exact .inr ⟨ha,h⟩

theorem Tracked.recordRead (h : Tracked w) {stamp : ReadStamp} (hc : w.content.isSome)
    (hle : stamp.timestamp ≤ w.clock)
    (hl : Since w (w.loads i) fun _ e => stamp.timestamp ≤ e.clock)
    (hopen : ∀ j s, w.sections.lookup j = some s → s.agent = agent → s.hadRead) :
    Tracked ((w.learn i agent).recordRead agent stamp) := by
  have hreads a : ((w.learn i agent).recordRead agent stamp).reads.lookup a =
      if agent = a then some stamp else w.reads.lookup a := by
    simp only [World.recordRead,World.learn,Map.lookup_put]
  refine ⟨?_,h.clocks,h.locks,h.single,h.recorded,?_,?_⟩
  · intro a s hs
    rw [hreads] at hs
    split at hs
    · cases hs
      exact hle
    · exact h.stamps a s hs
  · intro a n hn
    refine ⟨hc,?_⟩
    obtain ⟨rfl,rfl⟩ | ⟨ha,hn⟩ := known_learn hn
    · refine ⟨stamp,by rw [hreads,if_pos rfl],fun k e hk he _ => ?_⟩
      have hclock := hl k e (by omega) he
      refine (h.recorded k e he).imp_right ?_
      rintro ⟨time,ht,hlt⟩
      exact ⟨time,ht,Nat.lt_of_le_of_lt hclock hlt⟩
    · obtain ⟨-,s,hs,hk⟩ := h.known a n hn
      exact ⟨s,by rw [hreads,if_neg (Ne.symm ha)]; exact hs,hk⟩
  · intro j s hj
    obtain ⟨hsome,hclean⟩ := h.hadRead j s hj
    by_cases ha : s.agent = agent
    · have hr := hopen j s hj ha
      refine ⟨fun _ => hr,fun _ => ?_⟩
      obtain ⟨n,hn,hall⟩ := hclean hr
      rw [ha] at hn
      refine ⟨max (w.loads i) n,?_,fun k e hk he => hall k e (by omega) he⟩
      simp only [World.recordRead,World.learn,ha,update_self,hn,getD_some]
    · have hk : ((w.learn i agent).recordRead agent stamp).known s.agent = w.known s.agent := by
        simp only [World.recordRead,World.learn,update_of_ne ha]
      rw [hk]
      refine ⟨hsome,fun hr => ?_⟩
      obtain ⟨n,hn,hall⟩ := hclean hr
      exact ⟨n,hk.trans hn,hall⟩

section

variable (h : Tracked w) (hi : w.sections.lookup i = some s)

include h hi

theorem single_of_lookup {k : Nat} {e : Written} (hp : Pending w k e) :
    s.agent = e.agent ∧ s.stored := by
  obtain ⟨-,j,t,hj,ha,ht⟩ := hp
  cases h.single i j s t hi hj
  rw [hi] at hj
  cases hj
  exact ⟨ha,ht⟩

theorem Tracked.store (ha : s.agent = agent) (hs : s.stored = false) (content : String) :
    Tracked (w.store i agent content) := by
  have hnot k e : ¬ Pending w k e := by
    intro hp
    have hst := (single_of_lookup h hi hp).2
    rw [hs] at hst
    cases hst
  have hput : (w.store i agent content).sections = w.sections.put i { s with stored := true } := by
    simp only [World.store,hi]
  have hown {j} {t} (hj : (w.store i agent content).sections.lookup j = some t) :
      j = i ∧ t = { s with stored := true } := by
    rw [hput,Map.lookup_put] at hj
    split at hj
    next he =>
      cases hj
      exact ⟨he.symm,rfl⟩
    next he => exact absurd (h.single i j s t hi hj) he
  have hentry {k} {e} (he : (w.store i agent content).history[k]? = some e) :
      w.history[k]? = some e ∨ k = w.history.length ∧ e = ⟨agent,w.clock⟩ := by
    simp only [World.store,List.getElem?_append] at he
    split at he
    · exact .inl he
    next hk =>
      obtain ⟨hlt,heq⟩ := List.getElem?_eq_some_iff.1 he
      simp only [length_singleton,Nat.lt_one_iff] at hlt
      refine .inr ⟨by omega,?_⟩
      simp only [hlt,getElem_cons_zero] at heq
      exact heq.symm
  have hpend : Pending (w.store i agent content) w.history.length ⟨agent,w.clock⟩ := by
    refine ⟨by simp [World.store],i,{ s with stored := true },?_,ha,rfl⟩
    rw [hput,Map.lookup_put,if_pos rfl]
  refine ⟨h.stamps,?_,?_,?_,?_,?_,?_⟩
  · intro k e he
    obtain he | ⟨-,rfl⟩ := hentry he
    · exact h.clocks k e he
    · exact Nat.le_refl _
  · intro j t hj ht
    obtain ⟨rfl,rfl⟩ := hown hj
    exact h.locks j s hi ht
  · intro j k t u hj hk
    rw [(hown hj).1,(hown hk).1]
  · intro k e he
    obtain he | ⟨rfl,rfl⟩ := hentry he
    · exact .inr ((h.recorded k e he).resolve_left (hnot k e))
    · exact .inl hpend
  · intro a n hn
    obtain ⟨-,t,ht,hk⟩ := h.known a n hn
    refine ⟨rfl,t,ht,fun k e hle he hne => ?_⟩
    obtain he | ⟨rfl,rfl⟩ := hentry he
    · exact .inr ((hk k e hle he hne).resolve_left (hnot k e))
    · exact .inl hpend
  · intro j t hj
    obtain ⟨rfl,rfl⟩ := hown hj
    refine ⟨(h.hadRead j s hi).1,fun hr => ?_⟩
    obtain ⟨n,hn,hall⟩ := (h.hadRead j s hi).2 hr
    refine ⟨n,hn,fun k e hle he => ?_⟩
    obtain he | ⟨-,rfl⟩ := hentry he
    · exact hall k e hle he
    · exact ha.symm

theorem Tracked.recordWrite (ha : s.agent = agent) {now : Nat} (hnow : w.clock < now) :
    Tracked ((w.leave i).recordWrite agent now) := by
  have hnone {j} {t}
      (hj : ((w.leave i).recordWrite agent now).sections.lookup j = some t) : False := by
    have hj' : (w.leave i).sections.lookup j = some t := hj
    have hij := h.single i j s t hi (lookup_of_leave hj')
    subst hij
    rw [World.leave,Map.lookup_remove,if_pos rfl] at hj'
    cases hj'
  have hreads a : ((w.leave i).recordWrite agent now).reads.lookup a =
      if agent = a then some ⟨now,false⟩ else w.reads.lookup a := by
    simp only [World.recordWrite,World.leave,Map.lookup_put]
  have hwrites a : ((w.leave i).recordWrite agent now).writes.lookup a =
      if agent = a then some now else w.writes.lookup a := by
    simp only [World.recordWrite,World.leave,Map.lookup_put]
  have hlater {k} {e} {t} (ht : t ≤ w.clock)
      (he : Pending w k e ∨ Later w e t) : Later ((w.leave i).recordWrite agent now) e t := by
    by_cases hea : agent = e.agent
    · exact ⟨now,by rw [hwrites,if_pos hea],Nat.lt_of_le_of_lt ht hnow⟩
    obtain hp | ⟨time,hw,hlt⟩ := he
    · exact absurd (ha.symm.trans (single_of_lookup h hi hp).1) hea
    · exact ⟨time,by rw [hwrites,if_neg hea]; exact hw,hlt⟩
  refine ⟨?_,?_,?_,?_,?_,?_,?_⟩
  · intro a t ht
    rw [hreads] at ht
    split at ht
    · cases ht
      exact Nat.le_refl _
    · exact Nat.le_trans (h.stamps a t ht) (Nat.le_of_lt hnow)
  · exact fun k e he => Nat.le_trans (h.clocks k e he) (Nat.le_of_lt hnow)
  · exact fun j t hj => (hnone hj).elim
  · exact fun j k t u hj => (hnone hj).elim
  · exact fun k e he => .inr (hlater (h.clocks k e he) (h.recorded k e he))
  · intro a n hn
    obtain ⟨hc,t,ht,hk⟩ := h.known a n hn
    refine ⟨hc,?_⟩
    by_cases haa : agent = a
    · refine ⟨⟨now,false⟩,by rw [hreads,if_pos haa],fun k e hle he hne => ?_⟩
      obtain ⟨hsome,hclean⟩ := h.hadRead i s hi
      have hn' : w.known s.agent = some n := by rw [ha,haa]; exact hn
      obtain ⟨m,hm,hall⟩ := hclean (hsome (by rw [hn']; rfl))
      have hmn : m = n := Option.some.inj (hm.symm.trans hn')
      exact absurd ((hall k e (hmn ▸ hle) he).trans (ha.trans haa)) hne
    · refine ⟨t,by rw [hreads,if_neg haa]; exact ht,fun k e hle he hne => ?_⟩
      exact .inr (hlater (h.stamps a t ht) (hk k e hle he hne))
  · exact fun j t hj => (hnone hj).elim

end

end

section

structure Others (i : Nat) (w w' : World) : Prop where
  sections : w'.sections.lookup i = w.sections.lookup i
  loads : w'.loads i = w.loads i
  lock : w.lock = some i → w'.lock = some i
  clock : w.clock ≤ w'.clock
  content : w.content.isSome = true → w'.content.isSome = true
  history : ∀ (k : Nat) (e : Written), w'.history[k]? = some e →
    w.history[k]? = some e ∨ w.clock ≤ e.clock

theorem Others.refl (i : Nat) (w : World) : Others i w w :=
  ⟨rfl,rfl,id,Nat.le_refl _,id,fun _ _ he => .inl he⟩

variable {w : World}

theorem Others.trans {i : Nat} {u v : World} (h : Others i u v) (k : Others i v w) :
    Others i u w := by
  refine ⟨k.sections.trans h.sections,k.loads.trans h.loads,fun hl => k.lock (h.lock hl),
    Nat.le_trans h.clock k.clock,fun hc => k.content (h.content hc),fun n e he => ?_⟩
  obtain he | hle := k.history n e he
  · exact h.history n e he
  · exact .inr (Nat.le_trans h.clock hle)

variable (i : Nat)

def Outside (w : World) : Prop := w.sections.lookup i = none

def Inside (agent : String) (w : World) : Prop :=
  ∃ s, w.sections.lookup i = some s ∧ s.agent = agent ∧ s.stored = false

def Within (agent : String) (w : World) : Prop :=
  ∃ s, w.sections.lookup i = some s ∧ s.agent = agent

def Locked (locked : Bool) (w : World) : Prop := locked = true → w.lock = some i

def Fresh (i t : Nat) (w : World) : Prop :=
  t ≤ w.clock ∧ Since w (w.loads i) fun _ e => t ≤ e.clock

def Allowed : FileOp → World → Prop
  | .unlock, w => Idle i w
  | .resolve _ locked, w | .checkStale _ locked, w => Outside i w ∧ Locked i locked w
  | .checkPartial _, w => Idle i w
  | .store agent _, w => Inside i agent w
  | .recordRead _ stamp, w => w.content.isSome = true ∧ Fresh i stamp.timestamp w
  | .recordWrite agent, w => Within i agent w
  | _, _ => True

def logic : Logic FileOp FileAns World where
  outcome := FileOutcome i
  rely := Others i
  guar := Allowed i
  rely_refl := Others.refl i
  rely_trans := fun _ _ _ => Others.trans

variable {i : Nat} {agent : String} {locked : Bool}

theorem stable_outside : Stable (logic i) (Outside i) := by
  intro w _ hr h
  rw [Outside,hr.sections]
  exact h

theorem stable_inside : Stable (logic i) (Inside i agent) := by
  rintro w _ hr ⟨s,hs,h⟩
  exact ⟨s,hr.sections.trans hs,h⟩

theorem stable_within : Stable (logic i) (Within i agent) := by
  rintro w _ hr ⟨s,hs,h⟩
  exact ⟨s,hr.sections.trans hs,h⟩

theorem stable_idle : Stable (logic i) (Idle i) :=
  fun _ _ hr h s hs => h s (hr.sections.symm.trans hs)

theorem stable_locked : Stable (logic i) (Locked i locked) :=
  fun _ _ hr h hl => hr.lock (h hl)

theorem stable_content : Stable (logic i) (fun w => w.content.isSome) :=
  fun _ _ hr h => hr.content h

theorem stable_fresh {t : Nat} : Stable (logic i) (Fresh i t) := by
  intro w _ hr h
  refine ⟨Nat.le_trans h.1 hr.clock,fun k e hk he => ?_⟩
  rw [hr.loads] at hk
  obtain he | hle := hr.history k e he
  · exact h.2 k e hk he
  · exact Nat.le_trans h.1 hle

theorem stable_clock {t : Nat} : Stable (logic i) (fun w => t ≤ w.clock) :=
  fun _ _ hr h => Nat.le_trans h hr.clock

theorem Outside.idle (h : Outside i w) : Idle i w := by
  intro s hs
  rw [Outside.eq_def] at h
  rw [h] at hs
  cases hs

theorem Inside.idle (h : Inside i agent w) : Idle i w := by
  obtain ⟨s,hs,-,hst⟩ := h
  intro t ht
  rw [hs] at ht
  cases ht
  exact hst

theorem outside_leave {w : World} : Outside i (w.leave i) := by
  rw [Outside,World.leave,Map.lookup_remove,if_pos rfl]

theorem inside_enter {w : World} : Inside i agent (w.enter i agent locked) := by
  refine ⟨⟨agent,locked,(w.known agent).isSome,false⟩,?_,rfl,rfl⟩
  rw [World.enter,Map.lookup_put,if_pos rfl]

variable {j : Nat}

theorem others_leave (h : j ≠ i) : Others i w (w.leave j) :=
  { Others.refl i w with sections := by rw [World.leave,Map.lookup_remove,if_neg (Ne.symm h)] }

theorem others_release (h : j ≠ i) : Others i w (w.release j) := by
  refine { others_leave h with lock := fun hi => ?_ }
  simp only [World.release,hi,Option.some.injEq,if_neg (Ne.symm h)]

theorem others_enter (h : j ≠ i) {locked : Bool} : Others i w (w.enter j agent locked) :=
  { Others.refl i w with sections := by rw [World.enter,Map.lookup_put,if_neg h] }

theorem others_store (h : j ≠ i) {content : String} : Others i w (w.store j agent content) := by
  refine ⟨?_,rfl,id,Nat.le_refl _,fun _ => rfl,fun k e he => ?_⟩
  · rw [World.store]
    dsimp only
    split
    · rw [Map.lookup_put,if_neg h]
    · rfl
  · simp only [World.store,List.getElem?_append] at he
    split at he
    · exact .inl he
    · have hm := mem_of_getElem? he
      rw [mem_singleton.1 hm]
      exact .inr (Nat.le_refl _)

theorem others_outcome (h : j ≠ i) {op : FileOp} {x : FileAns op} {w' : World}
    (ho : FileOutcome j op w x w') : Others i w w' := by
  cases op with
  | validate =>
    cases ho
    exact Others.refl i w
  | now =>
    obtain ⟨hlt,rfl⟩ := ho
    exact { Others.refl i w with clock := Nat.le_of_lt hlt }
  | load =>
    obtain ⟨-,rfl⟩ := ho
    exact { Others.refl i w with loads := update_of_ne (Ne.symm h) _ _ }
  | present =>
    obtain ⟨-,rfl⟩ := ho
    exact Others.refl i _
  | resolve | checkStale =>
    obtain ⟨-,rfl⟩ := ho
    split
    · exact Others.refl i w
    · exact others_enter h
  | lock =>
    obtain ⟨hl,rfl⟩ := ho
    refine { Others.refl i w with lock := fun hi => ?_ }
    rw [hl] at hi
    cases hi
  | unlock =>
    cases ho
    exact others_release h
  | checkPartial =>
    obtain ⟨-,rfl⟩ := ho
    split
    · exact others_leave h
    · exact Others.refl i w
  | store =>
    cases x with
    | none =>
      cases ho
      exact others_store h
    | some =>
      cases ho
      exact others_leave h
  | recordRead =>
    cases ho
    exact { Others.refl i w with }
  | recordWrite =>
    obtain ⟨_,hn,rfl⟩ := ho
    exact { others_leave h with clock := Nat.le_of_lt hn }

def alone (locked : Bool) (w : World) : Bool :=
  w.sections.entries.all fun e => e.2.locked && locked

def ordered : FileOp → World → Bool
  | .checkStale _ locked, w => alone locked w
  | .resolve _ locked, w => w.content.isSome || alone locked w
  | .recordRead agent _, w =>
    w.sections.entries.all fun e => decide (e.2.agent ≠ agent) || e.2.hadRead
  | _, _ => true

variable {w' : World}

theorem lookup_eq_none_of_alone (h : Tracked w) (ha : alone locked w) (ho : Outside i w)
    (hl : Locked i locked w) (j : Nat) : w.sections.lookup j = none := by
  refine eq_none_iff_forall_ne_some.2 fun s hs => ?_
  have hb := all_eq_true.1 ha _ (Map.lookup_eq_some.1 hs)
  obtain ⟨hsl,hlock⟩ := Bool.and_eq_true_iff.1 hb
  have hj := h.locks j s hs hsl
  rw [hl hlock] at hj
  cases hj
  rw [Outside.eq_def] at ho
  rw [ho] at hs
  cases hs

theorem Tracked.step (h : Tracked w) {op : FileOp} {x : FileAns op} (hg : Allowed i op w)
    (hc : ordered op w) (ho : FileOutcome i op w x w') : Tracked w' := by
  cases op with
  | validate =>
    cases ho
    exact h
  | now =>
    obtain ⟨hlt,rfl⟩ := ho
    exact h.tick hlt
  | load =>
    obtain ⟨-,rfl⟩ := ho
    exact { h with }
  | present =>
    obtain ⟨-,rfl⟩ := ho
    exact h
  | resolve agent locked =>
    obtain ⟨-,rfl⟩ := ho
    split
    · exact h
    next hn =>
      have ha : alone locked w := by simpa [ordered,hn] using hc
      refine h.enter (lookup_eq_none_of_alone h ha hg.1 hg.2) hg.2 fun n hk => ?_
      exact absurd (h.known agent n hk).1 hn
  | lock =>
    obtain ⟨hl,rfl⟩ := ho
    refine { h with locks := fun j s hj hs => ?_ }
    rw [h.locks j s hj hs] at hl
    cases hl
  | unlock =>
    cases ho
    exact h.release hg
  | checkStale agent =>
    obtain ⟨-,rfl⟩ := ho
    split
    · exact h
    next hn =>
      have hnone := lookup_eq_none_of_alone h hc hg.1 hg.2
      refine h.enter hnone hg.2 fun n hk k e hle he => ?_
      by_contra hne
      obtain ⟨-,s,hs,hlater⟩ := h.known agent n hk
      obtain ⟨-,j,t,hj,-⟩ | ⟨_,hw,hlt⟩ := hlater k e hle he hne
      · rw [hnone j] at hj
        cases hj
      · have hstale := not_isSome_iff_eq_none.1 hn
        exact absurd (not_later_of_checkStaleRead hstale hs hw hne) (Nat.not_le.2 hlt)
  | checkPartial =>
    obtain ⟨-,rfl⟩ := ho
    split
    · exact h.leave hg
    · exact h
  | store _ content =>
    obtain ⟨s,hs,ha,hst⟩ := hg
    cases x with
    | none =>
      cases ho
      exact h.store hs ha hst content
    | some =>
      cases ho
      exact h.leave (Inside.idle ⟨s,hs,ha,hst⟩)
  | recordRead =>
    cases ho
    refine h.recordRead hg.1 hg.2.1 hg.2.2 fun j s hj ha => ?_
    have hb := all_eq_true.1 hc _ (Map.lookup_eq_some.1 hj)
    simpa [ha] using hb
  | recordWrite =>
    obtain ⟨_,hn,rfl⟩ := ho
    obtain ⟨s,hs,ha⟩ := hg
    exact h.recordWrite hs ha hn

variable {X : Text} {path : String}

theorem safe_validated {P} (hP : Stable (logic i) P) (hw : P w) :
    Maintains (logic i) P validated w := by
  refine safe_lift hP hw (fun _ _ => trivial) fun v x _ hv ho => ?_
  cases ho
  cases x with
  | none | some => exact safe_done hP hv

theorem safe_checkState (hw : Outside i w) (hl : Locked i locked w) :
    Ensures (logic i) (fun _ => Inside i agent) (fun _ => Outside i)
      (checkState path agent locked) w := by
  refine safe_lift (stable_outside.and stable_locked) ⟨hw,hl⟩ (fun _ h => h) ?_
  rintro v x _ ⟨hv,-⟩ ⟨rfl,rfl⟩
  cases hx : v.checkStaleRead agent with
  | some => exact safe_done stable_outside hv
  | none =>
    refine safe_lift stable_inside inside_enter (fun _ h => h.idle) ?_
    rintro u y _ hu ⟨rfl,rfl⟩
    cases hy : u.checkPartialRead agent with
    | true => exact safe_done stable_outside outside_leave
    | false => exact safe_done stable_inside hu

theorem safe_written {failure} {content : String} (hw : Inside i agent w) :
    Maintains (logic i) (Outside i) (written failure agent content) w := by
  refine safe_lift stable_inside hw (fun _ h => h) fun v x _ hv ho => ?_
  cases x with
  | some =>
    cases ho
    exact safe_done stable_outside outside_leave
  | none =>
    cases ho
    have hin : Within i agent (v.store i agent content) := by
      obtain ⟨s,hs,ha,-⟩ := hv
      refine ⟨{ s with stored := true },?_,ha⟩
      simp only [World.store,hs,Map.lookup_put,if_true]
    intro u hr
    refine ⟨stable_within _ _ hr hin,?_⟩
    rintro - _ ⟨_,-,rfl⟩
    exact safe_done stable_outside outside_leave

theorem safe_dropping {α : Type} {p : Task α} (h : Maintains (logic i) (Idle i) p w) :
    Maintains (logic i) (Outside i) (dropping p) w := by
  refine safe_bind (Q := fun _ => Idle i) (fun r v hv => ?_) (safe_mono ?_ h)
  · intro u hr
    refine ⟨stable_idle _ _ hr hv,?_⟩
    rintro - _ rfl
    have hu : Outside i (u.release i) := outside_leave
    cases r with
    | ok | error => exact safe_done stable_outside hu
  · rintro (e | a) v hv
    all_goals exact hv

theorem safe_holding {α : Type} {p : Task α} (hw : Outside i w)
    (h : ∀ v, Outside i v → Locked i true v → Maintains (logic i) (Idle i) p v) :
    Maintains (logic i) (Outside i) (holding p) w := by
  refine safe_lift stable_outside hw (fun _ _ => trivial) ?_
  rintro v - _ hv ⟨-,rfl⟩
  exact safe_dropping (h _ hv fun _ => rfl)

theorem safe_fileRead (hw : Outside i w) : Maintains (logic i) (Outside i) (fileRead agent) w := by
  refine safe_try (safe_validated stable_outside hw) fun _ v hv => ?_
  refine safe_lift stable_outside hv (fun _ _ => trivial) ?_
  rintro u started u' hu ⟨-,rfl⟩
  have hstart := (stable_outside (i := i)).and (stable_clock (t := started))
  refine safe_seq (safe_validated hstart ⟨hu,Nat.le_refl _⟩) (fun _ _ h => h.1) ?_
  rintro - u hu
  refine safe_lift hstart hu (fun _ _ => trivial) ?_
  rintro v x _ ⟨hv,ht⟩ ⟨hx,rfl⟩
  cases x with
  | none => exact safe_done stable_outside hv
  | some =>
    have hc : v.content.isSome := by
      obtain hx | hx := hx
      · rw [← hx]
        rfl
      · cases hx
    have hfresh : Fresh i started { v with
        loads := update v.loads i v.history.length } := by
      refine ⟨ht,fun k e hk he => ?_⟩
      simp only [update_self] at hk
      rw [List.getElem?_eq_none hk] at he
      cases he
    refine safe_lift (stable_outside.and (stable_content.and stable_fresh)) ⟨hv,hc,hfresh⟩
      (fun _ h => h.2) ?_
    rintro u - _ ⟨hu,-⟩ rfl
    exact safe_try (safe_validated stable_outside hu) fun _ _ h => safe_done stable_outside h

variable {e : Edit}

theorem safe_editLocked (hw : Outside i w) (hl : Locked i true w) :
    Maintains (logic i) (Idle i) (editLocked X path agent e) w := by
  refine safe_seq (safe_checkState hw hl) (fun _ _ h => h.idle) fun _ v hv => ?_
  refine safe_lift stable_inside hv (fun _ _ => trivial) ?_
  rintro u x _ hu ⟨-,rfl⟩
  have hin : Inside i agent { u with
      loads := update u.loads i u.history.length } := hu
  cases x with
  | none => exact safe_done stable_idle hin.idle
  | some =>
    dsimp only
    split
    · exact safe_done stable_idle hin.idle
    split
    · exact safe_done stable_idle hin.idle
    · exact safe_seq (safe_written hin) (fun _ _ h => h.idle) fun _ _ h =>
        safe_done stable_idle h.idle

theorem safe_editFile (hw : Outside i w) :
    Maintains (logic i) (Outside i) (editFile X path agent e) w := by
  unfold editFile
  split
  · exact safe_done stable_outside hw
  split
  · exact safe_done stable_outside hw
  · exact safe_try (safe_validated stable_outside hw) fun _ v hv =>
      safe_holding hv fun _ => safe_editLocked

theorem safe_fileWrite {content : String} (hw : Outside i w) :
    Maintains (logic i) (Outside i) (fileWrite path agent content) w := by
  refine safe_try (safe_validated stable_outside hw) fun _ v hv => ?_
  refine safe_try (safe_checkState hv (fun h => Bool.noConfusion h)) fun _ u hu => ?_
  exact safe_try (safe_written hu) fun _ _ h => safe_done stable_outside h

theorem safe_parseEdits :
    ∀ {edits : List Edit} {index : Nat} {w : World}, Outside i w →
    Maintains (logic i) (Outside i) (parseEdits path edits index) w := by
  intro edits
  induction edits with
  | nil => exact fun hw => safe_done stable_outside hw
  | cons _ _ ih =>
    intro _ w hw
    refine safe_lift stable_outside hw (fun _ _ => trivial) ?_
    rintro v _ _ hv ⟨-,rfl⟩
    change Safe _ _ (ExceptT.run (if _ then _ else _)) _
    split
    · exact safe_done stable_outside hv
    · exact ih hv

theorem safe_edit {P} (hP : Stable (logic i) P) {index : Nat} {buffer : FileBuffer} (hw : P w) :
    Maintains (logic i) P (buffer.edit X path e index) w := by
  unfold FileBuffer.edit
  dsimp only
  split
  · exact safe_done hP hw
  · split
    all_goals exact safe_done hP hw

theorem safe_patchAll :
    ∀ {edits : List Edit} {index : Nat} {buffer} {w : World}, Inside i agent w →
    Maintains (logic i) (Inside i agent) (patchAll X path edits index buffer) w := by
  intro edits
  induction edits with
  | nil =>
    intro _ buffer w hw
    cases buffer with
    | none | some => exact safe_done stable_inside hw
  | cons _ _ ih =>
    intro _ buffer w hw
    unfold patchAll
    cases buffer with
    | none =>
      dsimp only
      split
      · exact ih hw
      refine safe_lift stable_inside hw (fun _ _ => trivial) ?_
      rintro v x _ hv ⟨-,rfl⟩
      cases x with
      | none => exact safe_done stable_inside hv
      | some => exact safe_try (safe_edit stable_inside hv) fun _ _ h => ih h
    | some =>
      dsimp only
      split
      · exact safe_done stable_inside hw
      · exact safe_try (safe_edit stable_inside hw) fun _ _ h => ih h

theorem safe_patchResolved {edits : List Edit} (hw : Outside i w) (hl : Locked i locked w) :
    Maintains (logic i) (Idle i) (patchResolved X path agent edits locked) w := by
  have hrest v (hv : Inside i agent v) : Maintains (logic i) (Idle i) (do
        let buffer ← patchAll X path edits 0 none
        written (patchFailure path) agent buffer.contents
        return ("Applied "++toString edits.length++" edit(s) across 1 file(s)\n"++
          buffer.summary path) : Task String) v := by
    refine safe_seq (safe_patchAll hv) (fun _ _ h => h.idle) fun buffer u hu => ?_
    exact safe_seq (safe_written hu) (fun _ _ h => h.idle) fun _ _ h =>
      safe_done stable_idle h.idle
  refine safe_lift (stable_outside.and stable_locked) ⟨hw,hl⟩ (fun _ h => h) ?_
  rintro v x _ ⟨hv,hlv⟩ ⟨rfl,rfl⟩
  cases hc : v.content.isSome with
  | true => exact safe_seq (safe_checkState hv hlv) (fun _ _ h => h.idle) fun _ u hu => hrest u hu
  | false => exact hrest _ inside_enter

theorem safe_applyPatch {edits : List Edit} (hw : Outside i w) :
    Maintains (logic i) (Outside i) (applyPatch X path agent edits) w := by
  unfold applyPatch
  split
  · exact safe_done stable_outside hw
  split
  · exact safe_done stable_outside hw
  refine safe_try (safe_validated stable_outside hw) fun _ v hv => ?_
  refine safe_try (safe_parseEdits hv) fun _ u hu => ?_
  refine safe_lift stable_outside hu (fun _ _ => trivial) ?_
  rintro t found _ ht ⟨-,rfl⟩
  cases found with
  | true => exact safe_holding ht fun _ => safe_patchResolved
  | false => exact safe_dropping (safe_patchResolved ht fun h => Bool.noConfusion h)

theorem safe_task {call : Call} (hw : Outside i w) :
    Maintains (logic i) (Outside i) (call.task X path) w := by
  cases call with
  | read => exact safe_fileRead hw
  | edit => exact safe_editFile hw
  | patch => exact safe_applyPatch hw
  | write => exact safe_fileWrite hw

theorem contract :
    ((machine X path).under fun op w => ordered op w).Contract (fun _ => True) Tracked logic
      (fun i _ => Ends (fun _ => Outside i) fun _ => Outside i) where
  outcome := fun _ _ _ _ _ _ ho => ho.1
  opens := fun _ _ _ _ hb => ⟨trivial,safe_task hb⟩
  keeps := fun _ _ _ _ _ h hg ho => h.step hg ho.2 ho.1
  frame := fun _ _ _ _ _ _ _ _ hne _ _ ho => others_outcome (Ne.symm hne) ho.1
  env_keeps := fun _ _ h he => he ▸ h
  env_frame := fun i w _ _ he => he ▸ Others.refl i w

end

section

variable (X : Text) (path : String)

def World.fresh (content : Option String) (clock : Nat) : World :=
  { content := content, clock := clock }

abbrev Instant := Moment Call FileOp FileAns World (Except String String)

def ReadFirst (m : Instant) : Prop :=
  ∀ i call agent content n, m.event = .did i call (.store agent content) none →
    m.before.known agent = some n → ∀ e ∈ m.before.history.drop n, e.agent = agent

def Ordered (ms : List Instant) : Prop := ∀ m ∈ ms, ∀ op ∈ m.op, ordered op m.before = true

theorem Tracked.readFirst {w : World} (h : Tracked w) {i n : Nat} {agent : String}
    (hi : Inside i agent w) (hn : w.known agent = some n) :
    ∀ e ∈ w.history.drop n, e.agent = agent := by
  obtain ⟨s,hs,ha,-⟩ := hi
  obtain ⟨hsome,hclean⟩ := h.hadRead i s hs
  rw [ha] at hsome hclean
  obtain ⟨m,hm,hall⟩ := hclean (hsome (by rw [hn]; rfl))
  cases hm.symm.trans hn
  intro e he
  obtain ⟨k,hk⟩ := mem_iff_getElem?.1 he
  rw [List.getElem?_drop] at hk
  exact hall _ e (Nat.le_add_right _ _) hk

theorem replaced_writes_were_read (content : Option String) (clock : Nat) {ms : List Instant}
    {c : Config Call FileOp FileAns World (Except String String)}
    (h : (machine X path).Run (.idle (World.fresh content clock)) ms c) (ho : Ordered ms) :
    ∀ m ∈ ms, ReadFirst m := by
  intro m hm i _ _ _ n he hn
  have hu : ((machine X path).under fun op w => ordered op w = true).Run
      (.idle (World.fresh content clock)) ms c := h.under ho
  have hs := hu.sound contract (Machine.sound_idle (by
    refine ⟨?_,?_,?_,?_,?_,?_,?_⟩ <;> intros <;> simp_all [World.fresh]))
  obtain ⟨htr,-,hev⟩ := hs.2 m hm
  rw [he] at hev
  exact htr.readFirst hev.1 hn

end

def perform (i : Nat) : (op : FileOp) → World → Option (FileAns op × World)
  | .validate, w => some (none,w)
  | .now, w => some (w.clock+1,{ w with clock := w.clock+1 })
  | .load, w => some (w.content,{ w with loads := update w.loads i w.history.length })
  | .present, w => some (w.content.isSome,w)
  | .resolve agent locked, w =>
    some (w.content.isSome,if w.content.isSome then w else w.enter i agent locked)
  | .lock, w => if w.lock = none then some ((),{ w with lock := some i }) else none
  | .unlock, w => some ((),w.release i)
  | .checkStale agent locked, w => some (w.checkStaleRead agent,
      if (w.checkStaleRead agent).isSome then w else w.enter i agent locked)
  | .checkPartial agent, w =>
    some (w.checkPartialRead agent,if w.checkPartialRead agent then w.leave i else w)
  | .store agent content, w => some (none,w.store i agent content)
  | .recordRead agent stamp, w => some ((),(w.learn i agent).recordRead agent stamp)
  | .recordWrite agent, w => some ((),(w.leave i).recordWrite agent (w.clock+1))

theorem perform_outcome {i : Nat} {op : FileOp} {w w' : World} {x : FileAns op}
    (h : perform i op w = some (x,w')) : FileOutcome i op w x w' := by
  cases op with
  | validate | present | resolve | unlock | checkStale | checkPartial | store | recordRead =>
    cases h
    first | rfl | exact ⟨rfl,rfl⟩
  | now =>
    cases h
    exact ⟨Nat.lt_succ_self _,rfl⟩
  | load =>
    cases h
    exact ⟨.inl rfl,rfl⟩
  | lock =>
    simp only [perform] at h
    split at h
    next hl =>
      cases h
      exact ⟨hl,rfl⟩
    · cases h
  | recordWrite =>
    cases h
    exact ⟨_,Nat.lt_succ_self _,rfl⟩

def driver : Driver FileOp FileAns World where
  perform := perform

abbrev anytime (X : Text) (path : String) :
    Machine Call FileOp FileAns World (Except String String) :=
  (machine X path).starting fun _ _ _ => True

theorem driver_fits (X : Text) (path : String) : driver.Fits (anytime X path) where
  perform := fun _ _ _ _ _ h => perform_outcome h

def overwrites (m : Instant) : Bool :=
  match m.event with
  | .did _ _ (.store agent _) none => (m.before.known agent).any fun n =>
    (m.before.history.drop n).any fun e => decide (e.agent ≠ agent)
  | _ => false

theorem not_readFirst_of_overwrites {m : Instant} (h : overwrites m) : ¬ ReadFirst m := by
  intro hr
  unfold overwrites at h
  split at h
  next i call agent content he =>
    obtain ⟨n,hn,h⟩ := (any_eq_true _ _).1 h
    obtain ⟨e,hm,hne⟩ := any_eq_true.1 h
    exact of_decide_eq_true hne (hr i call agent content n he hn e hm)
  · cases h

def succeeds (i : Nat) (m : Instant) : Bool :=
  match m.event with
  | .finish j _ (.ok _) => decide (j = i)
  | _ => false

theorem finish_of_succeeds {i : Nat} {m : Instant} (h : succeeds i m) :
    ∃ call s, m.event = .finish i call (.ok s) := by
  unfold succeeds at h
  split at h
  next j call s he =>
    cases of_decide_eq_true h
    exact ⟨call,s,he⟩
  · cases h

def lettersOnly : Text := ⟨fun _ _ => 1,fun _ _ s => s,fun _ _ s => s⟩

def bobBetween : List (Choice Call) :=
  [.start 0 (.read "ann"),.complete 0 9,.start 1 (.write "ann" "c"),.act 1 3,
    .start 2 (.write "bob" "b"),.complete 2 9,.complete 1 9]

theorem unread_write_replaced :
    ∃ ms c, (machine lettersOnly "f").Run (.idle (World.fresh (some "a") 0)) ms c ∧
    (∃ m ∈ ms, ¬ ReadFirst m) ∧ ∃ m ∈ ms, ∃ call s, m.event = .finish 1 call (.ok s) := by
  obtain ⟨ms,c,hr,⟨m,hm,ho⟩,k,hk,hs⟩ := driver.drive_starting (driver_fits lettersOnly "f")
    (fun i _ w => w.sections.lookup i = none) bobBetween (.idle (World.fresh (some "a") 0))
    (fun ms _ => (∃ m ∈ ms, overwrites m = true) ∧ ∃ m ∈ ms, succeeds 1 m = true)
    (by decide +kernel)
  exact ⟨ms,c,hr,⟨m,hm,not_readFirst_of_overwrites ho⟩,k,hk,finish_of_succeeds hs⟩

def bobFirst : List (Choice Call) :=
  [.start 0 (.write "bob" "b"),.complete 0 9,.start 1 (.read "ann"),.complete 1 9,
    .start 2 (.edit "ann" ⟨"b","c",false⟩),.complete 2 19]

def stores (i : Nat) (m : Instant) : Bool :=
  match m.event with
  | .did j _ (.store _ _) none => decide (j = i)
  | _ => false

theorem replaced_writes_were_read_edit :
    ∃ ms c, (machine lettersOnly "f").Run (.idle (World.fresh (some "a") 0)) ms c ∧ Ordered ms ∧
    (∃ m ∈ ms, stores 2 m = true ∧ m.before.known "ann" = some 1) ∧ ∀ m ∈ ms, ReadFirst m := by
  obtain ⟨ms,c,hr,hord,hs⟩ := driver.drive_starting (driver_fits lettersOnly "f")
    (fun i _ w => w.sections.lookup i = none) bobFirst (.idle (World.fresh (some "a") 0))
    (fun ms _ => (∀ m ∈ ms, ∀ op ∈ m.op, ordered op m.before = true) ∧
      ∃ m ∈ ms, stores 2 m = true ∧ m.before.known "ann" = some 1) (by decide +kernel)
  exact ⟨ms,c,hr,hord,hs,replaced_writes_were_read lettersOnly "f" (some "a") 0 hr hord⟩

end HarnessTools.FileStates
