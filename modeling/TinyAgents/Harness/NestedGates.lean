import TinyAgents.Harness.CallLives
import TinyAgents.Harness.NestedStandings

namespace Harness.NestedCalls

open Interaction List
open Harness.AgentLoop (ToolResult AgentHarness)

variable {V T : Type}

section

structure Ordered (w : NestedWorld) : Prop where
  parents : ∀ i place j rest, w.places.lookup i = some place → place.caller.path = j :: rest →
    ∃ parent, w.places.lookup j = some parent ∧ parent.caller = ⟨place.caller.issuer,rest⟩ ∧
      parent.running = some place.held
  tops : ∀ i place, w.places.lookup i = some place → place.caller.path = [] → place.held = .none
  serial : Compatible w.serial
  gate : Compatible w.gate
  running : ∀ i place hold, w.places.lookup i = some place → place.running = some hold →
    ∃ b, w.serial.lookup i = some (place.caller,b) ∧
      (place.held = .none → w.gate.lookup i = some ((),b)) ∧ hold = place.held.below b
  chained : ∀ i place hold j rest, w.places.lookup i = some place → place.running = some hold →
    w.serial.lookup i = some (place.caller,true) → place.caller.path = j :: rest →
      ∃ c, w.serial.lookup j = some (c,true)

def ExclusiveBelow : NestedOp V T → NestedWorld → Prop
  | .start caller serialize held, w => serialize = true → held = .exclusive →
      ∀ j rest, caller.path = j :: rest → ∃ c, w.serial.lookup j = some (c,true)
  | _, _ => True

variable {H : AgentHarness V T} {w w' : NestedWorld} {i : Nat}

theorem ordered_start : Ordered {} where
  parents := by
    intro i _ j _ h
    cases h
  tops := by
    intro i _ h
    cases h
  serial := compatible_empty
  gate := compatible_empty
  running := by
    intro i _ _ h
    cases h
  chained := by
    intro i _ _ j _ h
    cases h

theorem Ordered.same (h : Ordered w) (hp : w'.places = w.places) (hs : w'.serial = w.serial)
    (hg : w'.gate = w.gate) : Ordered w' := by
  obtain ⟨parents,tops,serial,gate,running,chained⟩ := h
  exact ⟨by rw [hp]; exact parents,by rw [hp]; exact tops,hs ▸ serial,hg ▸ gate,
    by rw [hp,hs,hg]; exact running,by rw [hp,hs]; exact chained⟩

variable {place : Place}

section

variable (h : Ordered w)

include h

theorem Ordered.enter (hi : w.places.lookup i = none) {caller : Caller} {held : GateHold}
    (hs : w.Serves caller held) : Ordered (w.enter i caller held) := by
  have look {k} {place} (hk : (w.enter i caller held).places.lookup k = some place) :
      (k = i ∧ place = { caller := caller, held := held }) ∨ w.places.lookup k = some place := by
    rw [NestedWorld.enter,Map.lookup_put] at hk
    split at hk
    next hik =>
      cases hk
      exact .inl ⟨hik.symm,rfl⟩
    · exact .inr hk
  have keep {k} {place} (hk : w.places.lookup k = some place) :
      (w.enter i caller held).places.lookup k = some place := by
    rw [NestedWorld.enter,Map.lookup_put,if_neg]
    · exact hk
    rintro rfl
    rw [hi] at hk
    cases hk
  refine ⟨?_,?_,h.serial,h.gate,?_,?_⟩
  · intro k place j rest hk hpath
    obtain ⟨rfl,rfl⟩ | hk := look hk
    · rw [NestedWorld.Serves] at hs
      rw [show caller.path = j :: rest from hpath] at hs
      obtain ⟨parent,hj,hc,hr⟩ := hs
      exact ⟨parent,keep hj,hc,hr⟩
    · obtain ⟨parent,hj,hc,hr⟩ := h.parents k place j rest hk hpath
      exact ⟨parent,keep hj,hc,hr⟩
  · intro k place hk hpath
    obtain ⟨rfl,rfl⟩ | hk := look hk
    · rw [NestedWorld.Serves] at hs
      rw [show caller.path = [] from hpath] at hs
      exact hs
    · exact h.tops k place hk hpath
  · intro k place hold hk hr
    obtain ⟨rfl,rfl⟩ | hk := look hk
    · cases hr
    · exact h.running k place hold hk hr
  · intro k place hold j rest hk hr
    obtain ⟨rfl,rfl⟩ | hk := look hk
    · cases hr
    · exact h.chained k place hold j rest hk hr

section

variable (hp : w.places.lookup i = some place)

include hp

theorem Ordered.childless (hr : place.running = none) {k : Nat} {child : Place} {rest : List Nat}
    (hk : w.places.lookup k = some child) : child.caller.path ≠ i :: rest := by
  intro hpath
  obtain ⟨_,hi,-,hrun⟩ := h.parents k child i rest hk hpath
  rw [hp] at hi
  cases hi
  rw [hr] at hrun
  cases hrun

theorem Ordered.held_ne_none {j : Nat} {rest : List Nat} (hpath : place.caller.path = j :: rest) :
    place.held ≠ .none := by
  obtain ⟨parent,hj,-,hrun⟩ := h.parents i place j rest hp hpath
  obtain ⟨b,-,-,hb⟩ := h.running j parent place.held hj hrun
  rw [hb]
  cases parent.held <;> cases b <;> nofun

theorem Ordered.leave (hr : place.running = none) : Ordered (w.leave i) := by
  have look {k} {other} (hk : (w.leave i).places.lookup k = some other) :
      w.places.lookup k = some other := by
    rw [NestedWorld.leave,Map.lookup_remove] at hk
    split at hk
    · cases hk
    · exact hk
  refine ⟨?_,fun k other hk => h.tops k other (look hk),h.serial,h.gate,
    fun k other hold hk => h.running k other hold (look hk),
    fun k other hold j rest hk => h.chained k other hold j rest (look hk)⟩
  intro k other j rest hk hpath
  obtain ⟨parent,hj,hc,hrun⟩ := h.parents k other j rest (look hk) hpath
  refine ⟨parent,?_,hc,hrun⟩
  rw [NestedWorld.leave,Map.lookup_remove,if_neg]
  · exact hj
  · rintro rfl
    exact h.childless hp hr (look hk) hpath

theorem Ordered.holds (hr : place.running = none) (hsame : w'.places = w.places)
    (hserial : Compatible w'.serial) (hgate : Compatible w'.gate)
    (hs : ∀ k, k ≠ i → w'.serial.lookup k = w.serial.lookup k)
    (hg : ∀ k, k ≠ i → w'.gate.lookup k = w.gate.lookup k) : Ordered w' := by
  have other {k} {p} {hold : GateHold} (hk : w.places.lookup k = some p)
      (hrun : p.running = some hold) : k ≠ i := by
    rintro rfl
    rw [hp] at hk
    cases hk
    rw [hr] at hrun
    cases hrun
  refine ⟨by rw [hsame]; exact h.parents,by rw [hsame]; exact h.tops,hserial,hgate,?_,?_⟩
  · intro k p hold hk hrun
    rw [hsame] at hk
    rw [hs k (other hk hrun),hg k (other hk hrun)]
    exact h.running k p hold hk hrun
  · intro k p hold j rest hk hrun hex hpath
    rw [hsame] at hk
    rw [hs k (other hk hrun)] at hex
    have hj : j ≠ i := by
      rintro rfl
      exact h.childless hp hr hk hpath
    rw [hs j hj]
    exact h.chained k p hold j rest hk hrun hex hpath

theorem Ordered.run {running}
    (hchild : ∀ k child rest, w.places.lookup k = some child → child.caller.path ≠ i :: rest)
    (hrun : ∀ hold, running = some hold →
      (∃ b, w.serial.lookup i = some (place.caller,b) ∧
      (place.held = .none → w.gate.lookup i = some ((),b)) ∧ hold = place.held.below b) ∧
      (w.serial.lookup i = some (place.caller,true) → ∀ j rest, place.caller.path = j :: rest → ∃ c,
      w.serial.lookup j = some (c,true))) :
    Ordered (w.run i place running) := by
  have look {k} {p} (hk : (w.run i place running).places.lookup k = some p) :
      (k = i ∧ p = { place with running := running }) ∨ w.places.lookup k = some p := by
    rw [NestedWorld.run,Map.lookup_put] at hk
    split at hk
    next hik =>
      cases hk
      exact .inl ⟨hik.symm,rfl⟩
    · exact .inr hk
  have up {k} {p} {j} {rest} (hk : w.places.lookup k = some p)
      (hpath : p.caller.path = j :: rest) : ∃ parent,
        (w.run i place running).places.lookup j = some parent ∧
        parent.caller = ⟨p.caller.issuer,rest⟩ ∧ parent.running = some p.held := by
    obtain ⟨parent,hj,hc,hr⟩ := h.parents k p j rest hk hpath
    refine ⟨parent,?_,hc,hr⟩
    rw [NestedWorld.run,Map.lookup_put,if_neg]
    · exact hj
    · rintro rfl
      exact hchild k p rest hk hpath
  refine ⟨?_,?_,h.serial,h.gate,?_,?_⟩
  · intro k p j _ hk hpath
    obtain ⟨rfl,rfl⟩ | hk := look hk
    · exact up (p := place) hp hpath
    · exact up hk hpath
  · intro k p hk hpath
    obtain ⟨rfl,rfl⟩ | hk := look hk
    · exact h.tops k place hp hpath
    · exact h.tops k p hk hpath
  · intro k p hold hk hr
    obtain ⟨rfl,rfl⟩ | hk := look hk
    · exact (hrun hold hr).1
    · exact h.running k p hold hk hr
  · intro k p hold j rest hk hr hex hpath
    obtain ⟨rfl,rfl⟩ | hk := look hk
    · exact (hrun hold hr).2 hex j rest hpath
    · exact h.chained k p hold j rest hk hr hex hpath

end

theorem Ordered.step {cap issued : Nat} {op} {x} (hg : Guard H op (w.standing i))
    (hc : ExclusiveBelow op w) (ho : NestedOutcome cap issued i op w x w') : Ordered w' := by
  cases op with
  | enter =>
    obtain ⟨hs,hserves,-,rfl⟩ := ho
    exact h.enter (congrArg Standing.place hs) hserves
  | leave =>
    obtain ⟨_,_,hs⟩ := hg
    cases ho
    exact h.leave (congrArg Standing.place hs) rfl
  | reserveRefusal | tryReserveNestedToolCall =>
    obtain ⟨-,rfl⟩ := ho
    cases (x : Bool) <;> exact h.same rfl rfl rfl
  | acquireSerial =>
    obtain ⟨_,_,hs⟩ := hg
    have hp : w.places.lookup i = _ := congrArg Standing.place hs
    cases x with
    | none =>
      cases ho
      exact h
    | some =>
      obtain ⟨_,-,hfree,rfl⟩ := ho
      refine h.holds hp rfl rfl (h.serial.acquire hfree) h.gate (fun k hk => ?_) fun _ _ => rfl
      simp [Map.lookup_put,hk.symm]
  | acquireGate =>
    obtain ⟨_,hs⟩ := hg
    have hp : w.places.lookup i = _ := congrArg Standing.place hs
    cases x with
    | none =>
      cases ho
      exact h
    | some =>
      obtain ⟨hfree,rfl⟩ := ho
      refine h.holds hp rfl rfl h.serial (h.gate.acquire hfree) (fun _ _ => rfl) fun k hk => ?_
      simp [Map.lookup_put,hk.symm]
  | releaseGates =>
    obtain ⟨_,hp,hr⟩ := hg
    cases ho
    refine h.holds hp hr rfl (h.serial.release i) (h.gate.release i) ?_ ?_
    all_goals
      intro k hk
      simp [NestedWorld.releaseGates,Map.lookup_remove,hk]
  | start _ serialize =>
    obtain ⟨before,hshared,rfl,hs⟩ := hg
    obtain ⟨place,hp,rfl⟩ := ho
    have hplace : w.places.lookup i = _ := congrArg Standing.place hs
    have hserial : w.serial.lookup i = _ := congrArg Standing.serial hs
    have hgate : w.gate.lookup i = _ := congrArg Standing.gate hs
    rw [hp] at hplace
    cases hplace
    refine Ordered.same (w := w.run i _ (some (before.below serialize))) ?_ rfl rfl rfl
    refine h.run hp (fun k child rest hk => h.childless hp rfl hk) ?_
    rintro _ ⟨⟩
    refine ⟨⟨serialize,hserial,fun hnone => ?_,rfl⟩,fun hex j rest hpath => ?_⟩
    · rw [hgate]
      exact if_pos hnone
    rw [hserial] at hex
    cases hex
    refine hc rfl ?_ j rest hpath
    have hne : before ≠ .none := h.held_ne_none hp hpath
    cases before with
    | none => exact absurd rfl hne
    | shared => exact absurd ⟨rfl,rfl⟩ hshared
    | exclusive => rfl
  | execute =>
    obtain ⟨hchild,_,hp,rfl⟩ := ho
    refine h.run hp (fun k child rest hk hpath => hchild k child hk ?_) ?_
    · rw [hpath]
      rfl
    · rintro _ ⟨⟩
  | _ =>
    cases ho
    exact h.same rfl rfl rfl

theorem Ordered.above {path : List Nat} {hold : GateHold} (hpath : place.caller.path = path)
    (hp : w.places.lookup i = some place) (hr : place.running = some hold) {x : Nat} {q : List Nat}
    (hx : x :: q <:+ i :: path) :
    ∃ p hold, w.places.lookup x = some p ∧ p.caller = ⟨place.caller.issuer,q⟩ ∧
    p.running = some hold ∧
    (w.serial.lookup i = some (place.caller,true) → w.serial.lookup x = some (p.caller,true)) := by
  have self : ∃ p hold, w.places.lookup i = some p ∧ p.caller = ⟨place.caller.issuer,path⟩ ∧
      p.running = some hold ∧ (w.serial.lookup i = some (place.caller,true) →
        w.serial.lookup i = some (p.caller,true)) :=
    ⟨place,hold,hp,by rw [← hpath],hr,fun hs => hs⟩
  induction path generalizing i place hold with
  | nil =>
    obtain hx | hx := suffix_cons_iff.1 hx
    · cases hx
      exact self
    · simp at hx
  | cons j rest ih =>
    obtain hx | hx := suffix_cons_iff.1 hx
    · cases hx
      exact self
    obtain ⟨parent,hj,hc,hrun⟩ := h.parents i place j rest hp hpath
    obtain ⟨p,hold',hpx,hpc,hpr,hps⟩ := ih (by rw [hc]) hj hrun hx
      ⟨parent,_,hj,by rw [hc],hrun,fun hs => hs⟩
    refine ⟨p,hold',hpx,by rw [hpc,hc],hpr,fun hs => hps ?_⟩
    obtain ⟨c,hserial⟩ := h.chained i place hold j rest hp hr hs hpath
    obtain ⟨b,hb,-⟩ := h.running j parent _ hj hrun
    rw [hb] at hserial
    cases hserial
    exact hb

theorem Ordered.excludes {j : Nat} {other : Place} {hold hold' : GateHold}
    (hi : w.places.lookup i = some place) (hri : place.running = some hold)
    (hj : w.places.lookup j = some other) (hrj : other.running = some hold')
    (hex : w.serial.lookup i = some (place.caller,true)) :
    i :: place.caller.path <:+ j :: other.caller.path ∨
    j :: other.caller.path <:+ i :: place.caller.path := by
  refine suffix_or_suffix fun q x y hx hy => ?_
  obtain ⟨p,_,hpx,hpc,hpr,hps⟩ := h.above rfl hi hri hx
  obtain ⟨p',_,hpy,hpc',hpr',-⟩ := h.above rfl hj hrj hy
  have hsx := hps hex
  obtain ⟨b,hb,hgx,-⟩ := h.running x p _ hpx hpr
  obtain ⟨b',hb',hgy,-⟩ := h.running y p' _ hpy hpr'
  rw [hsx] at hb
  cases hb
  by_contra hne
  cases q with
  | nil =>
    have hx := hgx (h.tops x p hpx (by rw [hpc]))
    have hy := hgy (h.tops y p' hpy (by rw [hpc']))
    exact absurd (h.gate x y () true b' hne hx hy).1 (by decide)
  | cons z q =>
    obtain ⟨_,hz,hzc,-⟩ := h.parents x p z q hpx (by rw [hpc])
    obtain ⟨_,hz',hzc',-⟩ := h.parents y p' z q hpy (by rw [hpc'])
    rw [hz] at hz'
    cases hz'
    have hissuer : p.caller = p'.caller := by
      rw [hzc] at hzc'
      rw [hpc,hpc'] at hzc' ⊢
      simpa using hzc'
    rw [← hissuer] at hb'
    exact absurd (h.serial x y p.caller true b' hne hsx hb').1 (by decide)

end

end

variable {H : AgentHarness V T} {limits : NestedLimits} {cap : Nat}

def nestedMachine (H : AgentHarness V T) (limits : NestedLimits) (cap : Nat) :
    Machine (NestedRequest V) (NestedOp V T) NestedAns NestedWorld
      (Except (Ending V) (ToolResult V)) where
  code := serve H limits
  outcome := fun i op w x w' => ∃ issued, NestedOutcome cap issued i op w x w'

theorem gates_contract :
    ((nestedMachine H limits cap).under ExclusiveBelow).Contract (fun _ => True) Ordered
      (standingLogic H cap) (fun i _ _ w => w.standing i = {}) where
  outcome := fun _ _ _ _ _ _ ho => ho.1
  opens := fun i n w _ _ => ⟨trivial,serve_safe H limits cap i n w⟩
  keeps := by
    rintro i _ w x _ h hg ⟨⟨_,ho⟩,hc⟩
    exact h.step hg hc ho
  frame := by
    rintro i j _ w x _ - - hij - - ⟨⟨_,ho⟩,-⟩
    exact standing_other hij ho
  env_keeps := by
    rintro w _ h rfl
    exact h
  env_frame := by
    rintro i w _ - rfl
    rfl

instance (op : NestedOp V T) (w : NestedWorld) : Decidable (ExclusiveBelow op w) :=
  match op with
  | .start caller serialize held =>
    decidable_of_iff (serialize = true → held = .exclusive → ∀ j ∈ caller.path.head?,
      (w.serial.lookup j).any Prod.snd = true) (by
        refine imp_congr_right fun _ => imp_congr_right fun _ => ?_
        constructor
        · intro h j rest hpath
          obtain ⟨⟨c,b⟩,hb,hx⟩ := (Option.any_eq_true _ _).1 (h j (by simp [hpath]))
          cases hx
          exact ⟨c,hb⟩
        · intro h j hj
          obtain ⟨rest,hpath⟩ := List.head?_eq_some_iff.1 hj
          obtain ⟨c,hb⟩ := h j rest hpath
          simp [hb])
  | .enter _ _ | .leave | .reserveRefusal _ | .refundRefusal _ | .commitRefusal _
  | .commitLateRefusal _ | .cancelled | .checkWallClock | .emit _ | .tryReserveNestedToolCall
  | .releaseNestedToolCall | .rules _ _ | .inject _ _ | .bindCall _ _ | .checkNestedTool _
  | .prepareAuthorization _ _ | .authorize _ _ | .unresolved _ | .ledgerStarted _ _ _
  | .ledgerSettled _ _ | .acquireSerial _ | .acquireGate _ | .releaseGates | .execute _ _ _
  | .observeNestedResult _ _ => isTrue trivial

def served (w : NestedWorld) (caller : Caller) (held : GateHold) : Bool :=
  match caller.path with
  | [] => decide (held = .none)
  | j :: rest => (w.places.lookup j).any fun parent =>
    decide (parent.caller = ⟨caller.issuer,rest⟩ ∧ parent.running = some held)

theorem serves_of_served {w} {caller : Caller} {held : GateHold} (h : served w caller held) :
    w.Serves caller held := by
  obtain ⟨_,path⟩ := caller
  cases path with
  | nil =>
    change held = .none
    exact of_decide_eq_true h
  | cons =>
    obtain ⟨parent,hp,hd⟩ := (Option.any_eq_true _ _).1 h
    exact ⟨parent,hp,of_decide_eq_true hd⟩

def perform (cap calls i : Nat) :
    (op : NestedOp Unit String) → NestedWorld → Option (NestedAns op × NestedWorld)
  | .enter caller held, w =>
    if w.standing i = {} ∧ served w caller held = true then
      some (w.issued caller,w.enter i caller held)
    else none
  | .leave, w => some ((),w.leave i)
  | .reserveRefusal caller, w =>
    let x := (w.refusals caller).admits
    some (x,cond x (w.refuse caller Refusals.reserve) w)
  | .refundRefusal caller, w => some ((),w.refuse caller Refusals.refund)
  | .commitRefusal caller, w => some ((),w.refuse caller Refusals.commit)
  | .commitLateRefusal caller, w => some ((),w.refuse caller Refusals.commitLate)
  | .tryReserveNestedToolCall, w =>
    let x := decide (calls+w.nested < cap)
    some (x,cond x (w.reserve i) w)
  | .releaseNestedToolCall, w => some ((),w.release i)
  | .acquireSerial exclusive, w =>
    (w.places.lookup i).bind fun place =>
      if Free w.serial i place.caller exclusive then
        some (some (),{ w with serial := w.serial.put i (place.caller,exclusive) })
      else none
  | .acquireGate exclusive, w =>
    if Free w.gate i () exclusive then
      some (some (),{ w with gate := w.gate.put i ((),exclusive) })
    else none
  | .releaseGates, w => some ((),w.releaseGates i)
  | .start _ _ held, w => (w.places.lookup i).map fun place => ((),w.start i place held)
  | .execute _ _ _, _ => none
  | .cancelled, w => some (false,w)
  | .checkWallClock, w => some (false,w)
  | .emit _, w => some ((),w)
  | .rules _ _, w => some (some (.ok (.admits .default)),w)
  | .inject _ call, w => some (.ready call.arguments,w)
  | .bindCall _ _, w => some (some none,w)
  | .checkNestedTool _, w => some (some (.ok ()),w)
  | .prepareAuthorization _ _, w | .authorize _ _, w => some (some (.ok none),w)
  | .unresolved _, w => some (some (.ok false),w)
  | .ledgerStarted _ _ _, w => some (some (.ok ()),w)
  | .ledgerSettled _ _, w => some (some (),w)
  | .observeNestedResult _ _, w => some (some (),w)

theorem perform_outcome {calls i : Nat} {op} {w w'} {x : NestedAns op}
    (h : perform cap calls i op w = some (x,w')) : NestedOutcome cap calls i op w x w' := by
  cases op with
  | enter =>
    simp only [perform] at h
    split at h
    next hs =>
      cases h
      exact ⟨hs.1,serves_of_served hs.2,rfl,rfl⟩
    · cases h
  | reserveRefusal | tryReserveNestedToolCall =>
    cases h
    exact ⟨rfl,rfl⟩
  | acquireSerial =>
    obtain ⟨place,hp,h⟩ := Option.bind_eq_some_iff.1 h
    split at h
    next hfree =>
      cases h
      exact ⟨place,hp,hfree,rfl⟩
    · cases h
  | acquireGate =>
    simp only [perform] at h
    split at h
    next hfree =>
      cases h
      exact ⟨hfree,rfl⟩
    · cases h
  | start =>
    obtain ⟨place,hp,h⟩ := Option.map_eq_some_iff.1 h
    cases h
    exact ⟨place,hp,rfl⟩
  | execute => cases h
  | _ =>
    cases h
    rfl

def driver (cap : Nat) : Driver (NestedOp Unit String) NestedAns NestedWorld where
  perform := perform cap 0

def editing : AgentHarness Unit String :=
  { AgentHarness.plain (fun _ => false) with
    ledger := none
    isConcurrencySafe := fun tool _ => tool != "edit" }

def deep : NestedLimits := { maxNestedDepth := 5, maxToolCalls := 50 }

theorem driver_fits : (driver cap).Fits (nestedMachine editing deep cap) where
  perform := fun _ _ _ _ _ h => ⟨0,perform_outcome h⟩

def Config.executing (c : Config (NestedRequest Unit) (NestedOp Unit String) NestedAns NestedWorld
    (Except (Ending Unit) (ToolResult Unit))) (i : Nat) (tool : String) (path : List Nat) : Bool :=
  match c.thread i with
  | some (_,.ask (.execute caller tool' _) _) =>
    decide (tool' = tool ∧ caller = ⟨0,path⟩)
  | _ => false

theorem executing_eq {c} {i : Nat} {tool : String} {path : List Nat}
    (h : Config.executing c i tool path) :
    ∃ n call next, c.thread i = some (n,.ask (.execute ⟨0,path⟩ tool call) next) := by
  unfold Config.executing at h
  split at h
  next n _ _ call next ht =>
    obtain ⟨rfl,rfl⟩ := of_decide_eq_true h
    exact ⟨n,call,next,ht⟩
  · cases h

def nest (name : String) (path : List Nat) (held : GateHold) : NestedRequest Unit where
  caller := ⟨0,path⟩
  parent := "1"
  level := path.length+1
  held := held
  name := name
  arguments := ()

theorem unsafe_calls_run_alone {c : Config _ _ _ _ _} {ms : List (Moment _ _ _ _ _)}
    (h : (nestedMachine H limits cap).Run (.idle {}) ms c)
    (hc : ∀ m ∈ ms, ∀ op ∈ m.op, ExclusiveBelow op m.before) {i j : Nat} (hij : i ≠ j)
    {n m : NestedRequest V} {caller caller' : Caller} {tool tool' : T}
    {call call' : Harness.AgentLoop.ToolCall V}
    {next next' : Await V (ToolResult V) → Steps V T (Except (Ending V) (ToolResult V))}
    (hi : c.thread i = some (n,.ask (.execute caller tool call) next))
    (hj : c.thread j = some (m,.ask (.execute caller' tool' call') next'))
    (hserialized : serializes H tool call.arguments = true ∨
      serializes H tool' call'.arguments = true) :
    i ∈ caller'.path ∨ j ∈ caller.path := by
  have hsound := ((h.under hc).sound gates_contract (Machine.sound_idle ordered_start)).1
  obtain ⟨_,hs⟩ := ((hsound.2 i n _ hi).2 c.world rfl).1
  obtain ⟨_,hs'⟩ := ((hsound.2 j m _ hj).2 c.world rfl).1
  have hp : c.world.places.lookup i = _ := congrArg Standing.place hs
  have hp' : c.world.places.lookup j = _ := congrArg Standing.place hs'
  have hserial : c.world.serial.lookup i = _ := congrArg Standing.serial hs
  have hserial' : c.world.serial.lookup j = _ := congrArg Standing.serial hs'
  have hcompare :
      i :: caller.path <:+ j :: caller'.path ∨ j :: caller'.path <:+ i :: caller.path := by
    obtain hex | hex := hserialized
    · exact hsound.1.excludes hp rfl hp' rfl (hex ▸ hserial)
    · exact (hsound.1.excludes hp' rfl hp rfl (hex ▸ hserial')).symm
  obtain hle | hle := hcompare
  · have hmem := hle.subset mem_cons_self
    exact .inl ((mem_cons.1 hmem).resolve_left hij)
  · have hmem := hle.subset mem_cons_self
    exact .inr ((mem_cons.1 hmem).resolve_left hij.symm)

-- An edit that makes an edit: the one below runs while the one above waits for it.
theorem unsafe_calls_run_alone_edits :
    ∃ ms c n m call call' next next', (nestedMachine editing deep 50).Run (.idle {}) ms c ∧
    (∀ m ∈ ms, ∀ op ∈ m.op, ExclusiveBelow op m.before) ∧
    c.thread 1 = some (n,.ask (.execute ⟨0,[]⟩ "edit" call) next) ∧
    c.thread 2 = some (m,.ask (.execute ⟨0,[1]⟩ "edit" call') next') ∧
    (1 ∈ (⟨0,[1]⟩ : Caller).path ∨ 2 ∈ (⟨0,[]⟩ : Caller).path) := by
  obtain ⟨ms,c,hr,hc,h1,h2⟩ := (driver 50).drive_any driver_fits
    [.start 1 (nest "edit" [] .none),.act 1 15,.start 2 (nest "edit" [1] .exclusive),.act 2 14]
    (.idle {}) (fun ms c => (∀ m ∈ ms, ∀ op ∈ m.op, ExclusiveBelow op m.before) ∧
      Config.executing c 1 "edit" [] = true ∧ Config.executing c 2 "edit" [1] = true)
    (by decide +kernel)
  obtain ⟨n,call,next,h1⟩ := executing_eq h1
  obtain ⟨m,call',next',h2⟩ := executing_eq h2
  exact ⟨ms,c,n,m,call,call',next,next',hr,hc,h1,h2,
    unsafe_calls_run_alone hr hc (by decide) h1 h2 (.inl rfl)⟩

-- An edit reads two files at once, and one of the two reads edits.
theorem unsafe_call_runs_beside_cousin :
    ∃ ms c n m call call' next next', (nestedMachine editing deep 50).Run (.idle {}) ms c ∧
    c.thread 4 = some (n,.ask (.execute ⟨0,[2,1]⟩ "edit" call) next) ∧
    c.thread 3 = some (m,.ask (.execute ⟨0,[1]⟩ "read" call') next') ∧
    serializes editing "edit" call.arguments = true ∧ 4 ∉ (⟨0,[1]⟩ : Caller).path ∧
    3 ∉ (⟨0,[2,1]⟩ : Caller).path := by
  obtain ⟨ms,c,hr,h4,h3⟩ := (driver 50).drive_any driver_fits
    [.start 1 (nest "edit" [] .none),.act 1 15,.start 2 (nest "read" [1] .exclusive),.act 2 14,
      .start 3 (nest "read" [1] .exclusive),.act 3 14,
      .start 4 (nest "edit" [2,1] .exclusive),.act 4 14]
    (.idle {}) (fun _ c => Config.executing c 4 "edit" [2,1] = true ∧
      Config.executing c 3 "read" [1] = true) (by decide +kernel)
  obtain ⟨n,call,next,h4⟩ := executing_eq h4
  obtain ⟨m,call',next',h3⟩ := executing_eq h3
  exact ⟨ms,c,n,m,call,call',next,next',hr,h4,h3,rfl,by decide,by decide⟩

end Harness.NestedCalls
