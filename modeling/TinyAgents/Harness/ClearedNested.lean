import TinyAgents.Harness.ClearedBodies
import TinyAgents.Harness.NestedStandings

namespace Harness.NestedCalls

open Interaction
open Harness.AgentLoop (ToolCall ToolResult ApprovalDirective AgentHarness Gatekeeper Passes Cleared
  Strict needsApproval needsApproval_required Injected)

variable {V T : Type}

section

def NestedRuled (K : Gatekeeper V T) : (op : NestedOp V T) → NestedAns op → Prop
  | .rules tool arguments, x => ∀ gate, x = some (.ok gate) → gate = K.rules tool arguments
  | .bindCall tool arguments, x => ∀ bound, x = some (some bound) → K.binds tool arguments bound
  | _, _ => True

def NestedGuard (H : AgentHarness V T) (K : Gatekeeper V T) : NestedOp V T → Prop
  | .execute _ tool call => Cleared H K tool call false
  | _ => True

abbrev NestedRuling (H : AgentHarness V T) (K : Gatekeeper V T) :
    Logic (NestedOp V T) NestedAns Unit :=
  alone (fun op _ x _ => NestedRuled K op x) (fun op _ => NestedGuard H K op)

def Bodiless : NestedOp V T → Prop
  | .execute _ _ _ => False
  | _ => True

def Unless {α : Type} (R : α → Prop) (x : Except (Ending V) α) (_ : Unit) : Prop :=
  ∀ a, x = .ok a → R a

abbrev Heeds {α : Type} (H : AgentHarness V T) (K : Gatekeeper V T) (R : α → Prop)
    (p : Nested V T α) : Prop :=
  Safe (NestedRuling H K) (Unless R) p.run ()

variable {H : AgentHarness V T} {K : Gatekeeper V T} {limits : NestedLimits} {α β : Type}
  {R : β → Prop}

theorem bodiless_of_neutral (op : NestedOp V T) (h : Neutral op) : Bodiless op := by
  cases op with
  | execute => exact h.elim
  | _ => trivial

theorem bodiless_guard {op} (h : Bodiless op) : NestedGuard H K op := by
  cases op with
  | execute => exact h.elim
  | _ => trivial

theorem ruled_ok {b : β} (h : R b) : Heeds H K R (pure b : Nested V T β) := by
  refine alone_ret ?_
  rintro _ ⟨⟩
  exact h

theorem ruled_throw {e : Ending V} : Heeds H K R (throw e : Nested V T β) :=
  alone_ret nofun

theorem ruled_then {P : α → Prop} {p} {next} (hp : Heeds H K P p)
    (h : ∀ a, P a → Heeds H K R (next a)) : Heeds H K R (p >>= next) :=
  alone_then hp (fun _ _ _ => nofun) fun a _ ha => h a (ha a rfl)

theorem ruled_bodiless {p : Steps V T α} (hp : Asks Bodiless p) :
    Safe (NestedRuling H K) (fun _ _ => True) p () :=
  alone_keeps hp (fun _ _ hop => bodiless_guard hop)
    (fun _ _ _ _ _ _ _ => trivial) trivial

theorem ruled_neutral {p : Steps V T α} (hp : Asks Neutral p) :
    Safe (NestedRuling H K) (fun _ _ => True) p () :=
  ruled_bodiless (asks_mono bodiless_of_neutral hp)

theorem ruled_asking {op} {next} (hop : Bodiless op)
    (h : ∀ x, NestedRuled K op x → Heeds H K R (next x)) : Heeds H K R (asking op >>= next) :=
  alone_lift (bodiless_guard hop) fun x _ ho => h x ho

theorem ruled_reserved {p} (hp : Heeds H K R p) : Heeds H K R (reserved p) := by
  refine alone_lifted hp fun x _ hx => ?_
  cases x with
  | ok b => exact ruled_ok (hx b rfl)
  | error => exact ruled_asking trivial fun _ _ => ruled_throw

variable {n : NestedRequest V} {tool : T} {call : ToolCall V}

theorem ruled_admitsByRules {arguments : V} :
    Heeds H K (fun approval => K.rules tool arguments = .admits approval)
      (admitsByRules tool arguments) := by
  have hawait : Heeds H K (fun gate => gate = K.rules tool arguments)
      (await (request (.rules tool arguments)) : Nested V T AgentLoop.CallGate) := by
    refine alone_ask trivial fun x _ ho => ?_
    obtain _ | e | gate := x
    · exact alone_ret nofun
    · exact alone_ret nofun
    · exact ruled_ok (ho gate rfl)
  refine ruled_then hawait fun gate hgate => ?_
  cases gate with
  | refuse => exact ruled_throw
  | admits => exact ruled_ok hgate.symm

theorem bodiless_acquireGates (held : GateHold) {serialize : Bool} :
    Asks Bodiless (acquireGates held serialize : Nested V T Unit).run := by
  refine ⟨trivial,fun x => ?_⟩
  cases x with
  | none => trivial
  | some =>
    change Asks _ (ExceptT.run (if held = .none then _ else _))
    split
    · refine ⟨trivial,fun x => ?_⟩
      cases x with
      | some => trivial
      | none => exact ⟨trivial,fun _ => trivial⟩
    · trivial

theorem bodiless_closing {p : Nested V T α} {call : ToolCall V} (hp : Asks Bodiless p.run) :
    Asks Bodiless (closing call p).run := by
  refine asks_try (asks_bind hp fun _ => trivial) fun result => ?_
  obtain (_ | _) | _ := result
  · trivial
  · exact ⟨trivial,fun _ => trivial⟩
  · trivial

theorem bodiless_announceNested : Asks Bodiless (announceNested H n tool call).run := by
  unfold announceNested
  dsimp only
  split
  · exact ⟨trivial,fun _ => trivial⟩
  refine asks_try (asks_mono bodiless_of_neutral neutral_checkReplay) fun _ => ?_
  refine ⟨trivial,fun _ => bodiless_closing ?_⟩
  refine asks_try (asks_mono bodiless_of_neutral neutral_recordNestedStarted) fun _ => ?_
  exact asks_try (bodiless_acquireGates _) fun _ => ⟨trivial,fun _ => trivial⟩

section

variable (hs : Strict H)

include hs

theorem ruled_admitsTarget {approval} :
    Heeds H K (fun last => (approval = .required → last = .required) ∧
      ∀ target arguments, H.admissionTarget tool = some (target,arguments) →
      Passes K (decide (last = .required)) target arguments) (admitsTarget H tool approval) := by
  unfold admitsTarget
  split
  next hnone => exact ruled_ok ⟨id,by simp [hnone]⟩
  next target arguments hsome =>
    refine ruled_then ruled_admitsByRules fun last hlast => ruled_ok ⟨?_,?_⟩
    · rintro rfl
      exact hs.left _
    intro _ _ htarget
    rw [hsome] at htarget
    cases htarget
    refine ⟨last,hlast,?_⟩
    rintro rfl
    simp [hs.right]

theorem ruled_gateNested {approval} {modelArguments : V} (hname : H.allowsName call.name)
    (hfound : ∃ found,
      (H.modelDispatch call.name = some found ∨ H.dispatch call.name = some found) ∧
      (tool = found ∨ K.binds found call.arguments tool)) :
    Heeds H K (fun r => Cleared H K r.1 r.2 false)
      (gateNested H tool approval modelArguments call) := by
  refine ruled_then ruled_admitsByRules fun last hlast => ?_
  refine ruled_then (ruled_admitsTarget hs) fun final hfinal => ?_
  split
  · exact ruled_throw
  next hneeds =>
    have hrequired : final ≠ .required := fun hr =>
      hneeds (Bool.or_eq_true_iff.2 (.inr (needsApproval_required hr tool)))
    refine alone_then (ruled_neutral neutral_checkNested) (fun _ _ _ => nofun) fun _ _ _ => ?_
    refine alone_then (ruled_neutral neutral_authorizeNested)
      (fun _ _ _ => nofun) fun _ _ _ => ruled_ok ⟨hname,hfound,⟨last,hlast,?_⟩,?_⟩
    · rintro rfl
      exact (hrequired (hfinal.1 (hs.right _))).elim
    · intro target arguments htarget
      simpa [hrequired] using hfinal.2 target arguments htarget

theorem ruled_admitNestedTool :
    Heeds H K (fun r => Cleared H K r.1 r.2 false) (admitNestedTool H call) := by
  unfold admitNestedTool
  split
  · exact ruled_throw
  next tool hfound =>
    obtain ⟨hname,hfound⟩ := Option.ite_none_right_eq_some.1 hfound
    refine ruled_then ruled_admitsByRules fun _ _ => ?_
    refine ruled_asking trivial fun _ _ => ?_
    split
    · exact ruled_throw
    · exact ruled_throw
    dsimp only
    split
    · exact ruled_throw
    refine ruled_asking trivial fun bound hbound => ?_
    cases bound with
    | none => exact ruled_throw
    | some bound =>
      refine ruled_gateNested hs hname ⟨tool,.inl hfound,?_⟩
      cases bound with
      | none => exact .inl rfl
      | some bound => exact .inr (hbound bound rfl)

theorem ruled_admitNested {level : Nat} :
    Heeds H K (fun r => Cleared H K r.1 r.2 false) (admitNested H limits level call) := by
  unfold admitNested
  split
  · exact ruled_throw
  split
  · exact ruled_throw
  refine ruled_asking trivial fun _ _ => ?_
  split
  · exact ruled_throw
  refine ruled_asking trivial fun _ _ => ?_
  split
  · exact ruled_asking trivial fun _ _ => ruled_throw
  refine ruled_asking trivial fun (slot : Bool) _ => ?_
  split
  · exact ruled_reserved (ruled_admitNestedTool hs)
  · exact ruled_asking trivial fun _ _ => ruled_throw

theorem ruled_runNestedTool {id : String} :
    Safe (NestedRuling H K) (fun _ _ => True) (runNestedTool H limits n id).run () := by
  refine alone_lifted (ruled_admitNested hs) fun x _ hx => ?_
  obtain (e | _) | ⟨tool,call⟩ := x
  · exact alone_lift trivial fun _ _ _ => alone_ret trivial
  · exact alone_lift trivial fun _ _ _ => alone_ret trivial
  refine alone_lift trivial fun _ _ _ => ?_
  have hannounced : Heeds H K (fun _ => True)
      (reserved (announceNested H n tool call)) :=
    ruled_reserved (safe_mono (fun _ _ _ _ _ => trivial)
      (ruled_bodiless bodiless_announceNested))
  refine alone_then hannounced (fun _ _ _ => trivial) fun _ _ _ => ?_
  refine alone_lifted (alone_lift (hx _ rfl) fun _ _ _ =>
    ruled_neutral (neutral_closing neutral_settleNested)) fun outcome _ _ => ?_
  refine alone_lift trivial fun _ _ _ => ?_
  cases outcome <;> exact alone_ret trivial

theorem ruled_serve : Safe (NestedRuling H K) (fun _ _ => True) (serve H limits n) () := by
  refine alone_ask trivial fun _ _ _ => alone_ask trivial fun (slot : Bool) _ _ => ?_
  have hleave (outcome : Except (Ending V) (ToolResult V)) : Safe (NestedRuling H K)
      (fun _ _ => True) (do request .leave; return outcome : Steps V T _) () :=
    alone_ask trivial fun _ _ _ => alone_ret trivial
  cases slot with
  | true => exact safe_bind (fun outcome _ _ => hleave outcome) (ruled_runNestedTool hs)
  | false => exact hleave _

end

end

end Harness.NestedCalls

namespace Harness.AgentLoop

open Interaction

variable {V T : Type}

section

variable {P : Type}

structure ToolDecision where
  callable : Bool
  approval : ApprovalDirective
  refusal : String

structure ToolGate (V T P : Type) where
  allowed : Option (List String)
  denied : List String
  rules : Option (T → V → Option ToolDecision)
  permissionCeiling : Option P

structure ToolFacts (V T P : Type) where
  globMatches : String → String → Bool
  name : T → String
  permissionLevel : T → V → P
  levelText : P → String

variable (gate : ToolGate V T P) (facts : ToolFacts V T P)

def ToolGate.isDenied (name : String) : Bool :=
  gate.denied.any fun pattern => facts.globMatches pattern name

def ToolGate.allowsName (name : String) : Bool :=
  !gate.isDenied facts name && match gate.allowed with
    | none => true
    | some allowed => allowed.contains name

def ToolGate.ruleCall (tool : T) (arguments : V) : CallGate :=
  match gate.rules with
  | none => .admits .default
  | some evaluate =>
    match evaluate tool arguments with
    | none => .refuse "tool target could not be resolved"
    | some decision =>
      if decision.callable then .admits decision.approval else .refuse decision.refusal

def ToolGate.admitCall [LT P] [DecidableLT P] (gate : ToolGate V T P) (facts : ToolFacts V T P)
    (tool : T) (arguments : V) : CallGate :=
  match gate.permissionCeiling with
  | none => gate.ruleCall tool arguments
  | some ceiling =>
    if ceiling < facts.permissionLevel tool arguments then
      .refuse ("tool '"++facts.name tool++"' requires permission above the session limit ("++
        facts.levelText ceiling++")")
    else gate.ruleCall tool arguments

def ToolGate.keeper [LT P] [DecidableLT P] (gate : ToolGate V T P) (facts : ToolFacts V T P)
    (binds : T → V → T → Prop) : Gatekeeper V T :=
  ⟨gate.admitCall facts,binds⟩

end

def carefulUnder (K : Gatekeeper V T) (op : LoopOp V T) (c : RunContext V) (x : LoopAns op)
    (c' : RunContext V) : Prop :=
  careful op c x c' ∧ Ruled K op x

theorem bodies_run_cleared {P : Type} [LT P] [DecidableLT P] {H : AgentHarness V T}
    (gate : ToolGate V T P) (facts : ToolFacts V T P) (binds : T → V → T → Prop) {c : RunContext V}
    (hallows : H.allowsName = gate.allowsName facts) (hs : Strict H) (hran : c.ran = [])
    (hbatch : ∀ found, lastBatch c.messages = some found → (ids found.1).Nodup) :
    (∀ n results tool prepared asked needed next c',
      Reaches (carefulUnder (gate.keeper facts binds)) (runLoop H n results).run c
      (.ask (.execute tool prepared asked needed) next) c' →
      gate.allowsName facts prepared.call.name = true ∧
      Cleared H (gate.keeper facts binds) tool prepared.call needed ∧ ApprovedFor asked needed c') ∧
    (∀ limits n caller tool call next,
      Reaches (fun op _ x _ => NestedCalls.NestedRuled (gate.keeper facts binds) op x)
      (NestedCalls.serve H limits n) () (.ask (.execute caller tool call) next) () →
      gate.allowsName facts call.name = true ∧
      Cleared H (gate.keeper facts binds) tool call false) := by
  refine ⟨fun n results tool prepared asked needed next c' h => ?_,
    fun limits n caller tool call next h => ?_⟩
  · have hcleared : Cleared H (gate.keeper facts binds) tool prepared.call needed :=
      (h.map (f := fun _ => ()) (fun _ _ _ _ ho => ho.2)).guards (cleared_runLoop hs)
    have hstart : Accounted c := by
      rw [Accounted,hran]
      exact List.nil_sublist _
    have happroved : ApprovedFor asked needed c' :=
      (h.map (f := id) (fun _ _ _ _ ho => ho.1)).guards (safe_runLoop hstart hbatch)
    exact ⟨hallows ▸ hcleared.allowed,hcleared,happroved⟩
  · have hcleared : Cleared H (gate.keeper facts binds) tool call false :=
      h.guards (NestedCalls.ruled_serve hs)
    exact ⟨hallows ▸ hcleared.allowed,hcleared⟩

def payGate : ToolGate Unit String Nat where
  allowed := none
  denied := ["rm"]
  rules := some fun tool _ => some ⟨true,if tool = "read" then .default else .required,""⟩
  permissionCeiling := some 1

def payFacts : ToolFacts Unit String Nat where
  globMatches := fun pattern name => pattern == name
  name := id
  permissionLevel := fun _ _ => 1
  levelText := fun _ => "write"

def payKeeper : Gatekeeper Unit String := payGate.keeper payFacts fun _ _ _ => False

def payHarness : AgentHarness Unit String :=
  { AgentHarness.plain fun _ => false with
    allowsName := payGate.allowsName payFacts
    strictest := fun a b => if a = .required then a else b }

theorem payHarness_strict : Strict payHarness where
  left := fun _ => rfl
  right := by
    intro a
    change (if a = .required then a else .required) = .required
    split
    · assumption
    · rfl

variable (s : Script) (op : LoopOp Unit String) (c : RunContext Unit)

def Script.ruled :
    (op : LoopOp Unit String) → RunContext Unit → Option (LoopAns op × RunContext Unit)
  | .rules tool arguments, c => some (.ok (payKeeper.rules tool arguments),c)
  | op, c => s.perform op c

theorem Script.ruled_runs (x : LoopAns op) (c' : RunContext Unit) (h : s.ruled op c = some (x,c')) :
    running False op c x c' ∧ Ruled payKeeper op x := by
  cases op with
  | rules =>
    cases h
    refine ⟨⟨rfl,trivial,trivial⟩,?_⟩
    rintro _ ⟨⟩
    rfl
  | bindCall =>
    refine ⟨s.perform_runs _ c x c' h,?_⟩
    cases h
    rintro _ ⟨⟩
  | _ => exact ⟨s.perform_runs _ c x c' h,trivial⟩

def Script.ruledCarefully : Option (LoopAns op × RunContext Unit) :=
  (s.ruled op c).filter fun x => FreshTurn op c x.1

theorem Script.ruledCarefully_runs (x : LoopAns op) (c' : RunContext Unit)
    (h : s.ruledCarefully op c = some (x,c')) : carefulUnder payKeeper op c x c' := by
  obtain ⟨hp,hf⟩ := Option.filter_eq_some_iff.1 h
  obtain ⟨hr,hk⟩ := s.ruled_runs op c x c' hp
  exact ⟨⟨hr,hf⟩,hk⟩

def answerNested :
    (op : NestedCalls.NestedOp Unit String) → Unit → Option (NestedCalls.NestedAns op × Unit)
  | .enter _ _, _ => some ((0 : Nat),())
  | .reserveRefusal _, _ => some (true,())
  | .refundRefusal _, _ => some ((),())
  | .cancelled, _ => some (false,())
  | .checkWallClock, _ => some (false,())
  | .emit _, _ => some ((),())
  | .tryReserveNestedToolCall, _ => some (true,())
  | .rules tool arguments, _ => some (some (.ok (payKeeper.rules tool arguments)),())
  | .inject _ call, _ => some (.ready call.arguments,())
  | .bindCall _ _, _ => some (some none,())
  | .checkNestedTool _, _ => some (some (.ok ()),())
  | .unresolved _, _ => some (some (.ok false),())
  | .ledgerStarted _ _ _, _ => some (some (.ok ()),())
  | .acquireSerial _, _ => some (some (),())
  | .acquireGate _, _ => some (some (),())
  | .start _ _ _, _ => some ((),())
  | _, _ => none

theorem answerNested_ruled (op : NestedCalls.NestedOp Unit String) (w : Unit)
    (x : NestedCalls.NestedAns op) (w' : Unit) (h : answerNested op w = some (x,w')) :
    NestedCalls.NestedRuled payKeeper op x := by
  cases op with
  | rules =>
    cases h
    rintro _ ⟨⟩
    rfl
  | bindCall =>
    cases h
    rintro _ ⟨⟩
  | _ => trivial

def readRequest : NestedCalls.NestedRequest Unit where
  caller := ⟨0,[]⟩
  parent := "1"
  level := 1
  held := .none
  name := "read"
  arguments := ()

def executingNested : NestedCalls.NestedOp Unit String → Unit → Bool
  | .execute _ _ _, _ => true
  | _, _ => false

theorem serve_reads :
    ∃ caller tool call next,
    Reaches (fun op _ x _ => NestedCalls.NestedRuled payKeeper op x)
      (NestedCalls.serve payHarness ⟨1,1⟩ readRequest) ()
      (.ask (.execute caller tool call) next) () := by
  have hplay : ((NestedCalls.serve payHarness ⟨1,1⟩ readRequest).playUntil answerNested
      executingNested ()).isSome := by decide +kernel
  obtain ⟨op,next,_,hr,hs⟩ := Program.reaches_of_playUntil answerNested_ruled hplay
  cases op with
  | execute caller tool call => exact ⟨caller,tool,call,next,hr⟩
  | _ => cases hs

theorem bodies_run_cleared_pay :
    (∃ tool prepared next c',
      Reaches (carefulUnder payKeeper) (runLoop payHarness 1 none).run {}
      (.ask (.execute tool prepared pay true) next) c' ∧
      Cleared payHarness payKeeper tool prepared.call true ∧ ApprovedFor pay true c') ∧
    (∃ caller tool call next,
      Reaches (fun op _ x _ => NestedCalls.NestedRuled payKeeper op x)
      (NestedCalls.serve payHarness ⟨1,1⟩ readRequest) () (.ask (.execute caller tool call) next)
      () ∧ Cleared payHarness payKeeper tool call false) := by
  have hall := bodies_run_cleared payGate payFacts (fun _ _ _ => False)
    (c := {}) rfl payHarness_strict rfl (by rintro _ ⟨⟩)
  obtain ⟨tool,prepared,asked,next,c',h,hc⟩ := reaches_executing
    (Script.approving [[pay]]).ruledCarefully_runs (runLoop payHarness 1 none).run
    (fun asked _ => decide (asked = pay)) (by decide +kernel)
  obtain rfl := of_decide_eq_true hc
  obtain ⟨caller,tool',call,next',h'⟩ := serve_reads
  exact ⟨⟨tool,prepared,next,c',h,(hall.1 _ _ _ _ _ _ _ _ h).2⟩,
    caller,tool',call,next',h',(hall.2 _ _ _ _ _ _ h').2⟩

def wiping : LoopOp Unit String → RunContext Unit → Bool
  | .execute tool _ asked needed, c =>
    decide (tool = "wipe" ∧ asked = wipe ∧ needed = true ∧ ∀ g ∈ c.granted, g.run ≠ wipe)
  | _, _ => false

-- The rules demand approval of `wipe`, and the second turn calls it by the id approved in the
-- first.
theorem unapproved_body_runs :
    payKeeper.rules "wipe" () = .admits .required ∧
    ∃ prepared next c',
    Reaches (fun op c x c' => running False op c x c' ∧ Ruled payKeeper op x)
      (runLoop payHarness 2 none).run {} (.ask (.execute "wipe" prepared wipe true) next) c' ∧
    ∀ g ∈ c'.granted, g.run ≠ wipe := by
  have hplay : ((runLoop payHarness 2 none).run.playUntil
      (Script.approving [[pay],[wipe]]).ruled wiping {}).isSome = true := by decide +kernel
  obtain ⟨op,next,c',hr,hs⟩ := Program.reaches_of_playUntil
    (Script.approving [[pay],[wipe]]).ruled_runs hplay
  cases op with
  | execute _ prepared =>
    obtain ⟨rfl,rfl,rfl,hg⟩ := of_decide_eq_true hs
    exact ⟨rfl,prepared,next,c',hr,hg⟩
  | _ => cases hs

end Harness.AgentLoop
