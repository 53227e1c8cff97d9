import TinyAgents.Interaction.Driver
import TinyAgents.Interaction.Gates
import TinyAgents.Harness.NestedCalls

namespace Harness.NestedCalls

open Interaction
open Harness.AgentLoop (ToolCall ToolResult ApprovalDirective AgentHarness ToolEffectStatus)

variable {V T : Type}

structure Place where
  caller : Caller
  held : GateHold
  running : Option GateHold := none
  deriving DecidableEq

structure Refusals where
  committed : Nat := 0
  inFlight : Nat := 0

-- The code does not keep `armed` and `begun`: the calls that hold a slot they have not spent, and
-- those whose execution has begun.
structure NestedWorld where
  places : Map Nat Place := Table.empty
  serial : Holds Caller := Table.empty
  gate : Holds Unit := Table.empty
  issued : Caller → Nat := fun _ => 0
  refusals : Caller → Refusals := fun _ => {}
  nested : Nat := 0
  armed : List Nat := []
  begun : List Nat := []

namespace Refusals

variable (r : Refusals)

def admits : Bool := r.committed+r.inFlight < maxNestedRefusals

def reserve : Refusals := { r with inFlight := r.inFlight+1 }

def refund : Refusals := { r with inFlight := r.inFlight-1 }

def commit : Refusals := ⟨min (r.committed+1) maxNestedRefusals,r.inFlight-1⟩

def commitLate : Refusals := { r with committed := min (r.committed+1) maxNestedRefusals }

end Refusals

namespace NestedWorld

variable (w : NestedWorld) (i : Nat) (caller : Caller)

def refuse (f : Refusals → Refusals) : NestedWorld :=
  { w with refusals := Function.update w.refusals caller (f (w.refusals caller)) }

def enter (held : GateHold) : NestedWorld :=
  { w with
    places := w.places.put i { caller := caller, held := held }
    issued := Function.update w.issued caller (w.issued caller+1) }

def leave : NestedWorld := { w with places := w.places.remove i }

def reserve : NestedWorld := { w with nested := w.nested+1, armed := i :: w.armed }

def disarm : NestedWorld := { w with armed := w.armed.filter (· != i) }

def release : NestedWorld := { w.disarm i with nested := w.nested-1 }

def run (place : Place) (running : Option GateHold) : NestedWorld :=
  { w with places := w.places.put i { place with running := running } }

def start (place : Place) (held : GateHold) : NestedWorld :=
  { (w.disarm i).run i place (some held) with begun := w.begun++[i] }

def releaseGates : NestedWorld :=
  { w with serial := w.serial.remove i, gate := w.gate.remove i }

def Serves (held : GateHold) : Prop :=
  match caller.path with
  | [] => held = .none
  | j :: rest => ∃ parent, w.places.lookup j = some parent ∧
      parent.caller = ⟨caller.issuer,rest⟩ ∧ parent.running = some held

def Childless : Prop := ∀ j place, w.places.lookup j = some place → place.caller.path.head? ≠ some i

end NestedWorld

structure Standing where
  place : Option Place := none
  serial : Option (Caller × Bool) := none
  gate : Option (Unit × Bool) := none
  armed : Bool := false
  deriving DecidableEq

def NestedWorld.standing (w : NestedWorld) (i : Nat) : Standing :=
  ⟨w.places.lookup i,w.serial.lookup i,w.gate.lookup i,w.armed.contains i⟩

def NestedOutcome (cap issued i : Nat) :
    (op : NestedOp V T) → NestedWorld → NestedAns op → NestedWorld → Prop
  | .enter caller held, w, x, w' => w.standing i = {} ∧ w.Serves caller held ∧
      x = w.issued caller ∧ w' = w.enter i caller held
  | .leave, w, _, w' => w' = w.leave i
  | .reserveRefusal caller, w, x, w' => x = (w.refusals caller).admits ∧
      w' = cond x (w.refuse caller Refusals.reserve) w
  | .refundRefusal caller, w, _, w' => w' = w.refuse caller Refusals.refund
  | .commitRefusal caller, w, _, w' => w' = w.refuse caller Refusals.commit
  | .commitLateRefusal caller, w, _, w' => w' = w.refuse caller Refusals.commitLate
  | .tryReserveNestedToolCall, w, x, w' => x = decide (issued+w.nested < cap) ∧
      w' = cond x (w.reserve i) w
  | .releaseNestedToolCall, w, _, w' => w' = w.release i
  | .acquireSerial exclusive, w, x, w' =>
    match x with
    | none => w' = w
    | some _ => ∃ place, w.places.lookup i = some place ∧ Free w.serial i place.caller exclusive ∧
        w' = { w with serial := w.serial.put i (place.caller,exclusive) }
  | .acquireGate exclusive, w, x, w' =>
    match x with
    | none => w' = w
    | some _ => Free w.gate i () exclusive ∧
        w' = { w with gate := w.gate.put i ((),exclusive) }
  | .releaseGates, w, _, w' => w' = w.releaseGates i
  | .start _ _ held, w, _, w' => ∃ place, w.places.lookup i = some place ∧ w' = w.start i place held
  | .execute _ _ _, w, _, w' => w.Childless i ∧
      ∃ place, w.places.lookup i = some place ∧ w' = w.run i place none
  | _, w, _, w' => w' = w

section

def after : (op : NestedOp V T) → NestedAns op → Standing → Standing
  | .enter caller held, _, s => { s with place := some { caller := caller, held := held } }
  | .leave, _, s => { s with place := none }
  | .tryReserveNestedToolCall, x, s => { s with armed := s.armed || x }
  | .releaseNestedToolCall, _, s => { s with armed := false }
  | .acquireSerial exclusive, x, s =>
    match x, s.place with
    | some _, some place => { s with serial := some (place.caller,exclusive) }
    | _, _ => s
  | .acquireGate exclusive, x, s =>
    match x with
    | some _ => { s with gate := some ((),exclusive) }
    | none => s
  | .releaseGates, _, s => { s with serial := none, gate := none }
  | .start _ _ held, _, s => { s with
      place := s.place.map fun place => { place with running := some held }, armed := false }
  | .execute _ _ _, _, s => { s with
      place := s.place.map fun place => { place with running := none } }
  | _, _, s => s

def Opens : NestedOp V T → Standing → Prop
  | .enter _ _, s => s = {}
  | _, _ => True

variable (caller : Caller) (held : GateHold)

def idle : Standing :=
  { place := some { caller := caller, held := held } }

def admitted : Standing :=
  { idle caller held with armed := true }

def gated (serialize : Bool) : Standing :=
  { idle caller held with
    serial := some (caller,serialize)
    gate := if held = .none then some ((),serialize) else none }

def running (caller : Caller) (held : GateHold) (serialize : Bool) : Standing :=
  { gated caller held serialize with
    place := some { caller := caller, held := held, running := some (held.below serialize) } }

def Guard (H : AgentHarness V T) : NestedOp V T → Standing → Prop
  | .leave, s => ∃ caller held, s = idle caller held
  | .tryReserveNestedToolCall, s => s.armed = false
  | .releaseNestedToolCall, s => s.armed = true
  | .acquireSerial _, s => ∃ caller held, s = admitted caller held
  | .acquireGate exclusive, s => ∃ caller,
      s = { admitted caller .none with serial := some (caller,exclusive) }
  | .releaseGates, s => ∃ place, s.place = some place ∧ place.running = none
  | .start caller serialize held, s => ∃ before, ¬ (serialize = true ∧ before = .shared) ∧
      held = before.below serialize ∧ s = { gated caller before serialize with armed := true }
  | .execute caller tool call, s =>
    ∃ held, s = running caller held (serializes H tool call.arguments)
  | _, _ => True

abbrev Locally (H : AgentHarness V T) : Logic (NestedOp V T) NestedAns Standing :=
  alone (fun op s x s' => Opens op s ∧ s' = after op x s) (Guard H)

def Neutral : NestedOp V T → Prop
  | .enter _ _ | .leave | .tryReserveNestedToolCall | .releaseNestedToolCall | .acquireSerial _
  | .acquireGate _ | .releaseGates | .start _ _ _ | .execute _ _ _ => False
  | _ => True

variable {α β : Type} {s : Standing} {H : AgentHarness V T} {limits : NestedLimits}
  {Q : Except (Ending V) β → Standing → Prop} {op : NestedOp V T}

theorem neutral_after (h : Neutral op) {x} : after op x s = s := by
  cases op with
  | enter | leave | tryReserveNestedToolCall | releaseNestedToolCall | acquireSerial | acquireGate
  | releaseGates | start | execute => exact h.elim
  | _ => rfl

theorem neutral_guard (h : Neutral op) : Guard H op s := by
  cases op with
  | enter | leave | tryReserveNestedToolCall | releaseNestedToolCall | acquireSerial | acquireGate
  | releaseGates | start | execute => exact h.elim
  | _ => trivial

theorem rests {p : Steps V T α} (h : Asks Neutral p) : Safe (Locally H) (fun _ s' => s' = s) p s :=
  alone_keeps h (fun _ _ hop => neutral_guard hop)
    (fun _ _ _ _ hop hs ho => ho.2.trans ((neutral_after hop).trans hs)) rfl

theorem safe_rests {p : Nested V T α} {next} (hp : Asks Neutral p.run) (he : ∀ e, Q (.error e) s)
    (h : ∀ a, Safe (Locally H) Q (next a).run s) : Safe (Locally H) Q (p >>= next).run s := by
  refine alone_then (rests hp) ?_ ?_
  · rintro e _ rfl
    exact he e
  · rintro a _ rfl
    exact h a

theorem safe_does {next} (hg : Guard H op s)
    (h : ∀ x, Opens op s → Safe (Locally H) Q (next x).run (after op x s)) :
    Safe (Locally H) Q (asking op >>= next).run s := by
  refine alone_lift hg fun x _ ho => ?_
  obtain ⟨hopen,rfl⟩ := ho
  exact h x hopen

theorem neutral_await {p : Steps V T (Await V α)} (hp : Asks Neutral p) :
    Asks Neutral (await p).run := by
  refine asks_bind hp fun r => ?_
  obtain _ | _ | _ := r <;> trivial

theorem neutral_waiting {p : Steps V T (Option Unit)} (hp : Asks Neutral p) :
    Asks Neutral (waiting p).run := by
  refine asks_bind hp fun r => ?_
  cases r <;> trivial

theorem neutral_request {op : NestedOp V T} (hop : Neutral op) : Asks Neutral (request op) :=
  ⟨hop,fun _ => trivial⟩

variable {tool : T} {call : ToolCall V}

theorem neutral_admitsByRules {arguments : V} :
    Asks Neutral (admitsByRules (V := V) tool arguments).run := by
  refine asks_try (neutral_await (neutral_request trivial)) fun gate => ?_
  cases gate <;> trivial

theorem neutral_admitsTarget {approval} : Asks Neutral (admitsTarget H tool approval).run := by
  unfold admitsTarget
  split
  · trivial
  · exact asks_try neutral_admitsByRules fun _ => trivial

theorem neutral_checkNested : Asks Neutral (checkNested H call).run := by
  refine ⟨trivial,fun x => ?_⟩
  obtain _ | e | _ := x
  · trivial
  · cases e <;> trivial
  · trivial

theorem neutral_authorizeNested {modelArguments : V} :
    Asks Neutral (authorizeNested H tool modelArguments call).run := by
  unfold authorizeNested
  split
  · refine asks_try (neutral_await (neutral_request trivial)) fun error => ?_
    cases error with
    | some => trivial
    | none =>
      refine asks_try (neutral_await (neutral_request trivial)) fun reason => ?_
      cases reason <;> trivial
  · trivial

theorem neutral_gateNested {approval} {modelArguments : V} :
    Asks Neutral (gateNested H tool approval modelArguments call).run := by
  refine asks_try neutral_admitsByRules fun _ => ?_
  refine asks_try neutral_admitsTarget fun approval => ?_
  split
  · trivial
  refine asks_try neutral_checkNested fun _ => ?_
  exact asks_try neutral_authorizeNested fun _ => trivial

theorem neutral_admitNestedTool : Asks Neutral (admitNestedTool H call).run := by
  unfold admitNestedTool
  split
  · trivial
  refine asks_try neutral_admitsByRules fun _ => ?_
  refine asks_try ⟨trivial,fun _ => trivial⟩ fun _ => ?_
  split
  · trivial
  · trivial
  dsimp only
  split
  · trivial
  refine asks_try ⟨trivial,fun _ => trivial⟩ fun _ => ?_
  split
  · trivial
  · exact neutral_gateNested

theorem neutral_failNested {e} : Asks Neutral (failNested (α := α) H call e).run :=
  ⟨trivial,fun _ => trivial⟩

theorem neutral_closing {p : Nested V T α} (hp : Asks Neutral p.run) :
    Asks Neutral (closing call p).run := by
  refine asks_try (asks_bind hp fun _ => trivial) fun result => ?_
  obtain (_ | _) | _ := result
  · trivial
  · exact ⟨trivial,fun _ => trivial⟩
  · trivial

theorem neutral_recordNestedStarted : Asks Neutral (recordNestedStarted H call).run := by
  unfold recordNestedStarted
  split
  · trivial
  next failure _ =>
    refine ⟨trivial,fun x => ?_⟩
    obtain _ | e | _ := x
    · trivial
    · cases failure with
      | abort => exact neutral_failNested
      | «continue» => trivial
    · trivial

theorem neutral_recordNestedSettled {status : ToolEffectStatus} :
    Asks Neutral (recordNestedSettled H call status).run := by
  unfold recordNestedSettled
  split
  · trivial
  · exact neutral_waiting (neutral_request trivial)

theorem neutral_checkReplay : Asks Neutral (checkReplay H tool call).run := by
  unfold checkReplay
  split
  · refine asks_try (neutral_await (neutral_request trivial)) fun _ => ?_
    split <;> trivial
  · trivial

theorem neutral_settleNested {caller : Caller} {answer : Await V (ToolResult V)} :
    Asks Neutral (settleNested H caller tool call answer).run := by
  obtain _ | e | result := answer
  · trivial
  · refine asks_try neutral_recordNestedSettled fun _ => ?_
    split
    · exact ⟨trivial,fun _ => neutral_failNested⟩
    · exact neutral_failNested
  · refine asks_try neutral_recordNestedSettled fun _ => ?_
    refine asks_try (neutral_waiting (neutral_request trivial)) fun _ => ?_
    exact ⟨trivial,fun _ => trivial⟩

variable {caller : Caller} {held : GateHold}

def OrElse (R : Standing → Prop) (s : Standing) (x : Except (Ending V) α) (s' : Standing) : Prop :=
  match x with
  | .ok _ => R s'
  | .error _ => s' = s

abbrev Stands (H : AgentHarness V T) (R : Standing → Prop) (s : Standing) (p : Nested V T α) :
    Standing → Prop :=
  Safe (Locally H) (OrElse R s) p.run

theorem safe_reserved {R : Standing → Prop} {p : Nested V T α} (hs : s.armed)
    (hp : Stands H R s p s) : Stands H R ({ s with armed := false }) (reserved p) s := by
  refine alone_lifted hp fun x _ hx => ?_
  cases x with
  | ok => exact alone_ret hx
  | error =>
    cases hx
    exact safe_does hs fun _ _ => alone_ret rfl

variable {n : NestedRequest V}

theorem safe_admitNested {level : Nat} :
    Stands H (· = admitted caller held) (idle caller held) (admitNested H limits level call)
      (idle caller held) := by
  unfold admitNested
  split
  · exact alone_ret rfl
  split
  · exact alone_ret rfl
  refine safe_does trivial fun _ _ => ?_
  split
  · exact alone_ret rfl
  refine safe_does trivial fun _ _ => ?_
  split
  · exact safe_does trivial fun _ _ => alone_ret rfl
  refine safe_does rfl fun (slot : Bool) _ => ?_
  cases slot with
  | false => exact safe_does trivial fun _ _ => alone_ret rfl
  | true =>
    refine safe_reserved (s := admitted caller held) rfl ?_
    refine safe_mono ?_ (rests neutral_admitNestedTool)
    rintro (e | a) _ rfl <;> rfl

theorem safe_acquireGates {serialize : Bool} :
    Stands H (· = { gated caller held serialize with armed := true }) (admitted caller held)
      (acquireGates held serialize) (admitted caller held) := by
  refine alone_ask ⟨caller,held,rfl⟩ fun x _ ho => ?_
  obtain ⟨-,rfl⟩ := ho
  cases x with
  | none => exact alone_ret rfl
  | some =>
    change Safe _ _ (ExceptT.run (if held = .none then _ else _)) _
    split
    next hheld =>
      subst hheld
      refine safe_does ⟨caller,rfl⟩ fun x _ => ?_
      cases x with
      | some => exact alone_ret rfl
      | none =>
        exact safe_does ⟨_,rfl,rfl⟩ fun _ _ => alone_ret rfl
    next hheld =>
      refine alone_ret ?_
      change _ = _
      simp [gated,hheld,after,admitted,idle]

theorem safe_closing {R : Standing → Prop} {p : Nested V T α} (call : ToolCall V)
    (hp : Stands H R s p s) : Stands H R s (closing call p) s := by
  refine alone_lifted hp fun x _ hx => ?_
  obtain (_ | _) | _ := x
  · exact alone_ret hx
  · exact safe_does trivial fun _ _ => alone_ret hx
  · exact alone_ret hx

theorem safe_startNested {serialize : Bool} (hs : ¬ (serialize ∧ n.held = .shared)) :
    Stands H (· = running n.caller n.held serialize) (admitted n.caller n.held)
      (startNested H n serialize call) (admitted n.caller n.held) := by
  refine safe_rests neutral_recordNestedStarted (fun _ => rfl) fun _ => ?_
  refine alone_then safe_acquireGates (fun _ _ h => h) ?_
  rintro _ s' h
  have h : s' = { gated n.caller n.held serialize with armed := true } := h
  subst h
  exact safe_does ⟨n.held,hs,rfl,rfl⟩ fun _ _ => alone_ret rfl

theorem safe_announceNested {tool : T} :
    Stands H (· = running n.caller n.held (serializes H tool call.arguments))
      (admitted n.caller n.held) (announceNested H n tool call) (admitted n.caller n.held) := by
  unfold announceNested
  dsimp only
  split
  · exact safe_does trivial fun _ _ => alone_ret rfl
  next hs =>
    refine safe_rests neutral_checkReplay (fun _ => rfl) fun _ => ?_
    refine safe_does trivial fun _ _ => safe_closing call ?_
    exact safe_startNested (by simpa using hs)

theorem safe_runNestedTool {id : String} :
    Safe (Locally H) (fun _ s' => s' = idle n.caller n.held) (runNestedTool H limits n id).run
      (idle n.caller n.held) := by
  refine alone_lifted safe_admitNested fun x s' hx => ?_
  obtain (e | _) | ⟨tool,call⟩ := x
  · cases hx
    exact safe_does trivial fun _ _ => alone_ret rfl
  · cases hx
    exact safe_does trivial fun _ _ => alone_ret rfl
  cases hx
  refine safe_does trivial fun _ _ => ?_
  refine alone_then (safe_reserved rfl safe_announceNested) (fun _ _ h => h) ?_
  rintro _ s' hs
  obtain rfl : s' = running n.caller n.held (serializes H tool call.arguments) := hs
  refine alone_lifted (safe_does ⟨n.held,rfl⟩ fun _ _ =>
    rests (neutral_closing neutral_settleNested)) ?_
  rintro outcome _ rfl
  refine safe_does ⟨_,rfl,rfl⟩ fun _ _ => ?_
  cases outcome <;> exact alone_ret rfl

theorem safe_serve (n : NestedRequest V) (s : Standing) :
    Safe (Locally H) (fun _ s' => s' = {}) (serve H limits n) s := by
  refine alone_ask trivial fun _ s' ho => ?_
  obtain ⟨rfl,rfl⟩ := ho
  refine alone_ask trivial fun (slot : Bool) s' ho => ?_
  obtain ⟨-,rfl⟩ := ho
  have hleave (outcome : Except (Ending V) (ToolResult V)) : Safe (Locally H)
      (fun _ s' => s' = {}) (do
        request .leave
        return outcome : Steps V T _) (idle n.caller n.held) := by
    refine alone_ask ⟨_,_,rfl⟩ fun _ s' ho => ?_
    obtain ⟨-,rfl⟩ := ho
    exact alone_ret rfl
  cases slot with
  | false => exact hleave _
  | true =>
    change Safe _ _ ((runNestedTool H limits n _).run >>= _) _
    refine safe_bind ?_ safe_runNestedTool
    rintro outcome _ rfl
    exact hleave outcome

end

variable {cap issued i : Nat} {op : NestedOp V T} {w w' : NestedWorld}

theorem standing_eq {place} {serial} {gate} {armed : Bool} (hp : w.places.lookup i = place)
    (hs : w.serial.lookup i = serial) (hg : w.gate.lookup i = gate)
    (ha : w.armed.contains i = armed) : w.standing i = ⟨place,serial,gate,armed⟩ := by
  subst hp hs hg ha
  rfl

theorem contains_disarm : (w.disarm i).armed.contains i = false := by
  simp [NestedWorld.disarm]

theorem contains_disarm_ne {j : Nat} (hj : j ≠ i) :
    (w.disarm i).armed.contains j = w.armed.contains j := by
  by_cases hm : j ∈ w.armed <;> simp [NestedWorld.disarm,hm,hj]

theorem standing_after {x} (h : NestedOutcome cap issued i op w x w') :
    Opens op (w.standing i) ∧ w'.standing i = after op x (w.standing i) := by
  cases op with
  | enter =>
    obtain ⟨hs,-,-,rfl⟩ := h
    exact ⟨hs,standing_eq (Map.lookup_put_self _ _ _) rfl rfl rfl⟩
  | leave =>
    cases h
    exact ⟨trivial,standing_eq (by simp [NestedWorld.leave,Map.lookup_remove]) rfl rfl rfl⟩
  | reserveRefusal =>
    obtain ⟨-,rfl⟩ := h
    cases (x : Bool) <;> exact ⟨trivial,rfl⟩
  | tryReserveNestedToolCall =>
    obtain ⟨-,rfl⟩ := h
    refine ⟨trivial,?_⟩
    cases (x : Bool) with
    | false => exact standing_eq rfl rfl rfl (Bool.or_false _).symm
    | true => exact standing_eq rfl rfl rfl (by simp [NestedWorld.reserve])
  | releaseNestedToolCall =>
    cases h
    exact ⟨trivial,standing_eq rfl rfl rfl contains_disarm⟩
  | acquireSerial =>
    refine ⟨trivial,?_⟩
    cases x with
    | none =>
      cases h
      rfl
    | some =>
      obtain ⟨place,hp,-,rfl⟩ := h
      have hplace : (w.standing i).place = some place := hp
      simp only [after,hplace]
      exact standing_eq hp (Map.lookup_put_self _ _ _) rfl rfl
  | acquireGate =>
    refine ⟨trivial,?_⟩
    cases x with
    | none =>
      cases h
      rfl
    | some =>
      obtain ⟨-,rfl⟩ := h
      exact standing_eq rfl rfl (Map.lookup_put_self _ _ _) rfl
  | releaseGates =>
    cases h
    refine ⟨trivial,standing_eq rfl ?_ ?_ rfl⟩
    all_goals simp [NestedWorld.releaseGates,Map.lookup_remove]
  | start =>
    obtain ⟨place,hp,rfl⟩ := h
    refine ⟨trivial,standing_eq ?_ rfl rfl contains_disarm⟩
    have hplace : (w.standing i).place = some place := hp
    rw [hplace]
    exact Map.lookup_put_self _ _ _
  | execute =>
    obtain ⟨-,place,hp,rfl⟩ := h
    refine ⟨trivial,standing_eq ?_ rfl rfl rfl⟩
    have hplace : (w.standing i).place = some place := hp
    rw [hplace]
    exact Map.lookup_put_self _ _ _
  | _ =>
    cases h
    exact ⟨trivial,rfl⟩

theorem standing_other {j : Nat} (hj : j ≠ i) {x} (h : NestedOutcome cap issued i op w x w') :
    w'.standing j = w.standing j := by
  have hput {α : Type} (m : Map Nat α) (a : α) : (m.put i a).lookup j = m.lookup j := by
    simp [Map.lookup_put,hj.symm]
  have hremove {α : Type} (m : Map Nat α) : (m.remove i).lookup j = m.lookup j := by
    simp [Map.lookup_remove,hj]
  cases op with
  | enter =>
    obtain ⟨-,-,-,rfl⟩ := h
    exact standing_eq (hput _ _) rfl rfl rfl
  | leave =>
    cases h
    exact standing_eq (hremove _) rfl rfl rfl
  | reserveRefusal =>
    obtain ⟨-,rfl⟩ := h
    cases (x : Bool) <;> rfl
  | tryReserveNestedToolCall =>
    obtain ⟨-,rfl⟩ := h
    cases (x : Bool) with
    | false => rfl
    | true => exact standing_eq rfl rfl rfl (by simp [NestedWorld.reserve,hj])
  | releaseNestedToolCall =>
    cases h
    exact standing_eq rfl rfl rfl (contains_disarm_ne hj)
  | acquireSerial =>
    cases x with
    | none =>
      cases h
      rfl
    | some =>
      obtain ⟨_,-,-,rfl⟩ := h
      exact standing_eq rfl (hput _ _) rfl rfl
  | acquireGate =>
    cases x with
    | none =>
      cases h
      rfl
    | some =>
      obtain ⟨-,rfl⟩ := h
      exact standing_eq rfl rfl (hput _ _) rfl
  | releaseGates =>
    cases h
    exact standing_eq rfl (hremove _) (hremove _) rfl
  | start =>
    obtain ⟨_,-,rfl⟩ := h
    exact standing_eq (hput _ _) rfl rfl (contains_disarm_ne hj)
  | execute =>
    obtain ⟨-,_,-,rfl⟩ := h
    exact standing_eq (hput _ _) rfl rfl rfl
  | _ =>
    cases h
    rfl

def standingLogic (H : AgentHarness V T) (cap i : Nat) :
    Logic (NestedOp V T) NestedAns NestedWorld where
  outcome := fun op w x w' => ∃ issued, NestedOutcome cap issued i op w x w'
  rely := fun w w' => w'.standing i = w.standing i
  guar := fun op w => Guard H op (w.standing i)
  rely_refl := fun _ => rfl
  rely_trans := fun _ _ _ h k => k.trans h

theorem serve_safe (H : AgentHarness V T) (limits : NestedLimits) (cap i : Nat)
    (n : NestedRequest V) (w : NestedWorld) :
    Safe (standingLogic H cap i) (fun _ w' => w'.standing i = {}) (serve H limits n) w := by
  refine safe_view (fun w : NestedWorld => w.standing i)
    (fun _ _ h => Eq.symm h) (fun _ _ h => h) ?_ (safe_serve n (w.standing i))
  rintro _ w x _ ⟨_,ho⟩
  exact standing_after ho

end Harness.NestedCalls
