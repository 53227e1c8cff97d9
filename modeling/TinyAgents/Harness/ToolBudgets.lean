import TinyAgents.Harness.ToolSlots
import TinyAgents.Harness.NestedGates

namespace Harness.ToolBudgets

open Interaction List
open Harness.AgentLoop (LoopOp LoopAns LoopOutcome RunContext DeferredToolResults AgentHarness
  runLoop begun Formed Slots Lost SlotGuard counting Counting OrLost slots_runLoop
  apart_outcome)
open Harness.NestedCalls (NestedOp NestedAns NestedRequest NestedWorld NestedLimits NestedOutcome
  Guard serve standingLogic serve_safe standing_other)

variable {V T : Type}

inductive LimitBehavior where
  | error
  | stopWithPartial
  deriving DecidableEq

inductive RunOp (V T : Type) where
  | issued (op : LoopOp V T)
  | nested (op : NestedOp V T)

def RunAns : RunOp V T → Type
  | .issued op => LoopAns op
  | .nested op => NestedAns op

inductive Activity (V : Type) where
  | loop (turns : Nat) (results : Option (DeferredToolResults V))
  | nested (request : NestedRequest V)

-- `passed`: no call of the model has gone over the limit. The code does not keep it.
structure BudgetWorld (V : Type) where
  context : RunContext V
  passed : Bool := true
  nested : NestedWorld := {}

namespace BudgetWorld

variable (w : BudgetWorld V)

def total : Nat := w.context.toolCalls+w.nested.nested

def begun : Nat := AgentLoop.begun w.context.ran+w.nested.begun.length

end BudgetWorld

variable (behavior : LimitBehavior)

def recordToolCall (cap total : Nat) : Bool :=
  decide (total < cap) || decide (behavior = .stopWithPartial)

def Recorded (cap : Nat) : (op : LoopOp V T) → BudgetWorld V → LoopAns op → BudgetWorld V → Prop
  | .recordToolCall, w, x, w' => Option.isNone x = recordToolCall behavior cap w.total ∧
      w'.passed = (w.passed && decide (w.total < cap))
  | _, w, _, w' => w'.passed = w.passed

def RunOutcome (cap i : Nat) : (op : RunOp V T) → BudgetWorld V → RunAns op → BudgetWorld V → Prop
  | .issued op, w, x, w' => LoopOutcome op w.context x w'.context ∧ w'.nested = w.nested ∧
      Recorded behavior cap op w x w'
  | .nested op, w, x, w' =>
    NestedOutcome cap w.context.toolCalls i op w.nested x w'.nested ∧
    w'.context = w.context ∧ w'.passed = w.passed

-- A run: its loop, and the nested calls its tools make. The result says whether it was an error.
def budgetMachine (H : AgentHarness V T) (limits : NestedLimits) (behavior : LimitBehavior)
    (cap : Nat) : Machine (Activity V) (RunOp V T) RunAns (BudgetWorld V) Bool where
  code
    | .loop turns results => do
      let x ← (runLoop H turns results).run.embed RunOp.issued fun _ x => x
      return x.isOk
    | .nested request => do
      let x ← (serve H limits request).embed RunOp.nested fun _ x => x
      return x.isOk
  outcome := RunOutcome behavior cap

def Starts : Nat → Activity V → BudgetWorld V → Prop
  | i, .loop _ _, w => i = 0 ∧ w.passed = true ∧ w.context.ran.isEmpty = true ∧
      w.context.toolCalls = 0
  | i, .nested _, _ => i ≠ 0

section

structure Budget (cap : Nat) (w : BudgetWorld V) : Prop where
  issued : begun w.context.ran ≤ w.context.toolCalls
  both : begun w.context.ran+w.nested.nested ≤ cap
  passed : w.passed = true → w.total ≤ cap
  slots : w.nested.nested = w.nested.armed.length+w.nested.begun.length
  nodup : w.nested.armed.Nodup

variable {H : AgentHarness V T} {limits : NestedLimits} {cap i : Nat} {formed : Prop}
  {w w' : BudgetWorld V}

theorem Budget.begun_le (h : Budget cap w) : w.begun ≤ cap := by
  have hboth := h.both
  have hslots := h.slots
  unfold BudgetWorld.begun
  omega

theorem length_disarm {n : NestedWorld} (hd : n.armed.Nodup) (hi : i ∈ n.armed) :
    (n.disarm i).armed.length+1 = n.armed.length := by
  have hpos := length_pos_of_mem hi
  change (n.armed.filter (· != i)).length+1 = _
  rw [← hd.erase_eq_filter,length_erase_of_mem hi]
  omega

theorem begun_append_le (ran : List (AgentLoop.Ran V)) (r : AgentLoop.Ran V) :
    begun (ran++[r]) ≤ begun ran+1 := by
  rw [begun,countP_append]
  exact Nat.add_le_add_left countP_le_length _

theorem Budget.issues (h : Budget cap w) {op : LoopOp V T} {x : LoopAns op}
    (hg : SlotGuard formed op (w.context,w.passed))
    (ho : RunOutcome .error cap i (.issued op) w x w') : Budget cap w' := by
  obtain ⟨ho,hn,hp⟩ := ho
  have hkept (hr : w'.context.ran = w.context.ran)
      (ht : w'.context.toolCalls = w.context.toolCalls) (hp : w'.passed = w.passed) :
      Budget cap w' := by
    obtain ⟨context,passed,_⟩ := w'
    cases hn
    cases hp
    refine ⟨?_,?_,fun hpass => ?_,h.slots,h.nodup⟩
    · rw [hr,ht]
      exact h.issued
    · rw [hr]
      exact h.both
    change context.toolCalls+_ ≤ cap
    rw [ht]
    exact h.passed hpass
  cases op with
  | recordToolCall =>
    obtain ⟨-,hp⟩ := hp
    have hc : w'.context = w.context.recordToolCall := ho
    obtain ⟨context,_,nested⟩ := w'
    cases hn
    cases hc
    refine ⟨Nat.le_succ_of_le h.issued,h.both,fun hpass => ?_,h.slots,h.nodup⟩
    rw [hp,Bool.and_eq_true,decide_eq_true_eq] at hpass
    have htotal := hpass.2
    change w.context.toolCalls+w.nested.nested < cap at htotal
    change w.context.toolCalls+1+w.nested.nested ≤ cap
    omega
  | execute _ _ asked needed =>
    obtain ⟨hpassed,hlt⟩ := hg
    obtain ⟨context,passed,nested⟩ := w'
    cases hn
    cases hp
    cases ho
    have hle := begun_append_le w.context.ran ⟨w.context.turn,asked,needed,AgentLoop.runOutcome x⟩
    have htotal := h.passed hpassed
    change w.context.toolCalls+w.nested.nested ≤ cap at htotal
    change begun w.context.ran < w.context.toolCalls at hlt
    refine ⟨?_,?_,h.passed,h.slots,h.nodup⟩
    · change begun (w.context.ran++[_]) ≤ w.context.toolCalls
      omega
    · change begun (w.context.ran++[_])+w.nested.nested ≤ cap
      omega
  | update f =>
    obtain ⟨hr,hle,hge⟩ := hg
    obtain ⟨context,passed,_⟩ := w'
    cases hn
    cases hp
    cases ho
    refine ⟨?_,?_,fun hpass => ?_,h.slots,h.nodup⟩
    · change begun (f w.context).ran ≤ _
      rw [hr]
      exact hle
    · change begun (f w.context).ran+_ ≤ _
      rw [hr]
      exact h.both
    · exact (Nat.add_le_add_right hge _).trans (h.passed hpass)
  | _ =>
    obtain ⟨hr,ht⟩ := apart_outcome ho trivial
    exact hkept hr ht hp

theorem Budget.nests (h : Budget cap w) {op : NestedOp V T} {x : NestedAns op}
    (hg : Guard H op (w.nested.standing i)) (ho : RunOutcome .error cap i (.nested op) w x w') :
    Budget cap w' := by
  obtain ⟨ho,hc,hp⟩ := ho
  obtain ⟨context,passed,nested⟩ := w'
  cases hc
  cases hp
  have hissued := h.issued
  have hboth := h.both
  have hslots := h.slots
  have hmem (ha : (w.nested.standing i).armed = true) : i ∈ w.nested.armed := by
    simpa [NestedWorld.standing] using ha
  have hsame (hn : nested.nested = w.nested.nested) (ha : nested.armed = w.nested.armed)
      (hb : nested.begun = w.nested.begun) : Budget cap ⟨w.context,w.passed,nested⟩ := by
    refine ⟨hissued,?_,fun hpass => ?_,?_,?_⟩
    · rw [hn]
      exact hboth
    · change w.context.toolCalls+nested.nested ≤ cap
      rw [hn]
      exact h.passed hpass
    · rw [hn,ha,hb]
      exact hslots
    · rw [ha]
      exact h.nodup
  cases op with
  | enter =>
    obtain ⟨-,-,-,rfl⟩ := ho
    exact hsame rfl rfl rfl
  | reserveRefusal =>
    obtain ⟨-,rfl⟩ := ho
    cases (x : Bool) <;> exact hsame rfl rfl rfl
  | tryReserveNestedToolCall =>
    obtain ⟨hx,rfl⟩ := ho
    revert hx
    cases (x : Bool) with
    | false => exact fun _ => hsame rfl rfl rfl
    | true =>
      intro hx
      have hlt : w.context.toolCalls+w.nested.nested < cap := of_decide_eq_true hx.symm
      have hnot : i ∉ w.nested.armed := by
        have hg : (w.nested.standing i).armed = false := hg
        simpa [NestedWorld.standing] using hg
      refine ⟨hissued,?_,fun _ => ?_,?_,nodup_cons.2 ⟨hnot,h.nodup⟩⟩
      · change begun w.context.ran+(w.nested.nested+1) ≤ cap
        omega
      · change w.context.toolCalls+(w.nested.nested+1) ≤ cap
        omega
      · change w.nested.nested+1 = (w.nested.armed.length+1)+w.nested.begun.length
        omega
  | releaseNestedToolCall =>
    cases ho
    have hlen := length_disarm h.nodup (hmem hg)
    refine ⟨hissued,?_,fun hpass => ?_,?_,h.nodup.filter _⟩
    · change begun w.context.ran+(w.nested.nested-1) ≤ cap
      omega
    · have htotal := h.passed hpass
      change w.context.toolCalls+w.nested.nested ≤ cap at htotal
      change w.context.toolCalls+(w.nested.nested-1) ≤ cap
      omega
    · change w.nested.nested-1 = (w.nested.disarm i).armed.length+w.nested.begun.length
      omega
  | acquireSerial =>
    cases x with
    | none =>
      cases ho
      exact hsame rfl rfl rfl
    | some =>
      obtain ⟨_,-,-,rfl⟩ := ho
      exact hsame rfl rfl rfl
  | acquireGate =>
    cases x with
    | none =>
      cases ho
      exact hsame rfl rfl rfl
    | some =>
      obtain ⟨-,rfl⟩ := ho
      exact hsame rfl rfl rfl
  | start =>
    obtain ⟨_,-,rfl⟩ := ho
    obtain ⟨_,-,-,hs⟩ := hg
    have hlen := length_disarm h.nodup (hmem (by rw [hs]))
    refine ⟨hissued,hboth,h.passed,?_,h.nodup.filter _⟩
    change w.nested.nested = (w.nested.disarm i).armed.length+(w.nested.begun++[i]).length
    rw [length_append,length_singleton]
    omega
  | execute =>
    obtain ⟨-,_,-,rfl⟩ := ho
    exact hsame rfl rfl rfl
  | _ =>
    cases ho
    exact hsame rfl rfl rfl

def BudgetWorld.counted (w : BudgetWorld V) : AgentLoop.Counted V := (w.context,w.passed)

def loopOutcome (H : AgentHarness V T) (formed : Prop) :
    (op : RunOp V T) → BudgetWorld V → RunAns op → BudgetWorld V → Prop
  | .issued op, w, x, w' => counting H formed op w.counted x w'.counted
  | .nested _, _, _, _ => True

def loopGuard (formed : Prop) : RunOp V T → BudgetWorld V → Prop
  | .issued op, w => SlotGuard formed op w.counted
  | .nested _, _ => False

def loopLogic (H : AgentHarness V T) (formed : Prop) :
    Logic (RunOp V T) RunAns (BudgetWorld V) where
  outcome := loopOutcome H formed
  rely := fun w w' => w'.counted = w.counted
  guar := loopGuard formed
  rely_refl := fun _ => rfl
  rely_trans := fun _ _ _ h k => k.trans h

def nestedOutcome (cap i : Nat) :
    (op : RunOp V T) → BudgetWorld V → RunAns op → BudgetWorld V → Prop
  | .issued _, _, _, _ => True
  | .nested op, w, x, w' => ∃ issued, NestedOutcome cap issued i op w.nested x w'.nested

def nestedGuard (H : AgentHarness V T) (i : Nat) : RunOp V T → BudgetWorld V → Prop
  | .issued _, _ => False
  | .nested op, w => Guard H op (w.nested.standing i)

def nestedLogic (H : AgentHarness V T) (cap i : Nat) :
    Logic (RunOp V T) RunAns (BudgetWorld V) where
  outcome := nestedOutcome cap i
  rely := fun w w' => w'.nested.standing i = w.nested.standing i
  guar := nestedGuard H i
  rely_refl := fun _ => rfl
  rely_trans := fun _ _ _ h k => k.trans h

def budgetLogic (H : AgentHarness V T) (cap : Nat) (formed : Prop) :
    Nat → Logic (RunOp V T) RunAns (BudgetWorld V)
  | 0 => loopLogic H formed
  | i+1 => nestedLogic H cap (i+1)

def BudgetPost (formed : Prop) : Nat → Activity V → Bool → BudgetWorld V → Prop
  | 0, _, fine, w => fine = true → Slots formed 0 w.counted
  | i+1, _, _, w => w.nested.standing (i+1) = {}

theorem loop_safe {turns : Nat} {results}
    (h : Slots formed 0 w.counted) :
    Safe (loopLogic H formed) (fun fine w => fine = true → Slots formed 0 w.counted)
      (do
        let x ← (runLoop H turns results).run.embed RunOp.issued fun _ x => x
        return x.isOk : Program (RunOp V T) RunAns Bool) w := by
  have hloop : Safe (loopLogic H formed)
      (fun x w => OrLost (fun _ => Slots formed 0) x w.counted ∧ True)
      ((runLoop H turns results).run.embed RunOp.issued fun _ x => x) w :=
    safe_embed BudgetWorld.counted
      (fun _ _ h => Eq.symm h) (fun _ _ h => h) (fun _ _ _ _ _ ho => ⟨ho,id⟩)
      (fun _ _ _ _ => trivial) (slots_runLoop turns results h) trivial
  refine safe_bind (fun x w1 hx => ?_) hloop
  intro w2 hw hfine
  change w2.counted = w1.counted at hw
  rw [hw]
  cases x with
  | ok => exact hx.1
  | error => cases hfine

theorem nested_safe {i : Nat} {n} :
    Safe (nestedLogic H cap i) (fun _ w => w.nested.standing i = {})
      (do
        let x ← (serve H limits n).embed RunOp.nested fun _ x => x
        return x.isOk : Program (RunOp V T) RunAns Bool) w := by
  have hserve : Safe (nestedLogic H cap i) (fun _ w => w.nested.standing i = {} ∧ True)
      ((serve H limits n).embed RunOp.nested fun _ x => x) w :=
    safe_embed BudgetWorld.nested
      (fun _ _ h => h) (fun _ _ h => h) (fun _ _ _ _ _ ho => ⟨ho,id⟩) (fun _ _ _ _ => trivial)
      (serve_safe H limits cap i n w.nested) trivial
  refine safe_bind (fun x _ hx => ?_) hserve
  intro _ hw
  exact Eq.trans hw hx.1

abbrev Moments (V T : Type) := List (Moment (Activity V) (RunOp V T) RunAns (BudgetWorld V) Bool)

theorem budget_contract {ms : Moments V T}
    (hformed : formed → ∀ m ∈ ms, ∀ i call op x, m.event = .did i call (.issued op) x →
      Formed H op x = true) :
    (((budgetMachine H limits .error cap).starting Starts).observed ms).Contract (fun _ => True)
      (Budget cap) (budgetLogic H cap formed) (BudgetPost formed) where
  outcome := by
    rintro i op w x _ - ⟨ho,call,hm⟩
    cases i with
    | zero => cases op with
        | issued op =>
          refine ⟨ho.1,fun hf => hformed hf _ hm 0 call op x rfl,?_⟩
          obtain ⟨-,-,h⟩ := ho
          cases op with
          | recordToolCall =>
            obtain ⟨hx,hp⟩ := h
            simpa [BudgetWorld.counted,hx,recordToolCall] using hp
          | _ => exact h
        | nested => trivial
    | succ => cases op with
        | issued => trivial
        | nested => exact ⟨_,ho.1⟩
  opens := by
    rintro i call w - hb
    refine ⟨trivial,?_⟩
    cases call with
    | loop =>
      obtain ⟨rfl,hp,hr,ht⟩ := hb
      have hzero : begun w.context.ran+0 = w.context.toolCalls := by
        rw [isEmpty_iff.1 hr,ht]
        rfl
      exact loop_safe ⟨hp,Nat.le_of_eq hzero,fun _ => hzero⟩
    | nested =>
      obtain ⟨i,rfl⟩ := Nat.exists_eq_succ_of_ne_zero hb
      exact nested_safe
  keeps := by
    rintro i op w x _ h hg ⟨ho,-⟩
    cases i with
    | zero => cases op with
        | issued => exact h.issues (i := 0) hg ho
        | nested => exact hg.elim
    | succ => cases op with
        | issued => exact hg.elim
        | nested => exact h.nests hg ho
  frame := by
    rintro i j op w x w' - - hij - hg ⟨ho,-⟩
    cases op with
    | issued =>
      cases j with
      | zero =>
        obtain ⟨i,rfl⟩ := Nat.exists_eq_succ_of_ne_zero hij
        change w'.nested.standing _ = w.nested.standing _
        rw [ho.2.1]
      | succ => exact hg.elim
    | nested =>
      cases j with
      | zero => exact hg.elim
      | succ =>
        cases i with
        | zero =>
          change (w'.context,w'.passed) = (w.context,w.passed)
          rw [ho.2.1,ho.2.2]
        | succ => exact standing_other hij ho.1
  env_keeps := by
    rintro w _ h rfl
    exact h
  env_frame := by
    rintro i w _ - rfl
    cases i <;> rfl

theorem budget_start {context} (hran : context.ran = [])
    (hcalls : context.toolCalls = 0) : Budget cap ({ context := context } : BudgetWorld V) where
  issued := by
    rw [hran]
    exact Nat.zero_le _
  both := by
    rw [hran]
    exact Nat.zero_le _
  passed := fun _ => by
    change context.toolCalls+0 ≤ cap
    rw [hcalls]
    exact Nat.zero_le _
  slots := rfl
  nodup := nodup_nil

end

section

variable (s : AgentLoop.Script) (behavior : LimitBehavior)

def performIssued (cap : Nat) :
    (op : LoopOp Unit String) → BudgetWorld Unit → Option (LoopAns op × BudgetWorld Unit)
  | .recordToolCall, w =>
    some (if recordToolCall behavior cap w.total then none else some "max tool calls exceeded",
      { w with
        context := w.context.recordToolCall
        passed := w.passed && decide (w.total < cap) })
  | op, w => (s.perform op w.context).map fun r => (r.1,{ w with context := r.2 })

def perform (cap i : Nat) :
    (op : RunOp Unit String) → BudgetWorld Unit → Option (RunAns op × BudgetWorld Unit)
  | .issued op, w => performIssued s behavior cap op w
  | .nested op, w => (NestedCalls.perform cap w.context.toolCalls i op w.nested).map fun r =>
    (r.1,{ w with nested := r.2 })

def driver (cap : Nat) : Driver (RunOp Unit String) RunAns (BudgetWorld Unit) where
  perform := perform s behavior cap

theorem performIssued_outcome {s} {behavior} {cap i : Nat} {op} {w w'} {x : LoopAns op}
    (h : performIssued s behavior cap op w = some (x,w')) :
    RunOutcome behavior cap i (.issued op) w x w' := by
  cases op with
  | recordToolCall =>
    cases h
    refine ⟨rfl,rfl,?_,rfl⟩
    cases recordToolCall behavior cap w.total <;> rfl
  | _ =>
    unfold performIssued at h
    obtain ⟨⟨y,c⟩,hy,he⟩ := Option.map_eq_some_iff.1 h
    cases he
    have hr : AgentLoop.running False _ _ _ _ := s.perform_runs _ _ _ _ hy
    exact ⟨hr.1,rfl,rfl⟩

variable {H : AgentHarness Unit String} {limits : NestedLimits} {behavior : LimitBehavior}
  {cap : Nat}

theorem driver_fits (s : AgentLoop.Script) :
    (driver s behavior cap).Fits (budgetMachine H limits behavior cap) where
  perform := by
    intro i op w x _ h
    cases op with
    | issued => exact performIssued_outcome (i := i) h
    | nested =>
      obtain ⟨_,hr,he⟩ := Option.map_eq_some_iff.1 h
      cases he
      exact ⟨NestedCalls.perform_outcome hr,rfl,rfl⟩

end

variable {H : AgentHarness V T} {limits : NestedLimits} {cap : Nat}

theorem executions_within_cap {context : RunContext V} (hran : context.ran = [])
    (hcalls : context.toolCalls = 0) {ms : Moments V T}
    {c : Config _ _ _ _ _}
    (h : (budgetMachine H limits .error cap).Run (.idle { context := context }) ms c)
    (hs : ∀ m ∈ ms, ∀ s ∈ m.started, Starts s.1 s.2 m.before) :
    (c.world.begun ≤ cap ∧ ∀ call tool prepared asked needed next,
      c.thread 0 = some (call,.ask (.issued (.execute tool prepared asked needed)) next) →
      c.world.begun < cap) ∧
    (c.world.nested.nested = c.world.nested.armed.length+c.world.nested.begun.length ∧
      ∀ m ∈ ms, ∀ i call fine, m.event = .finish (i+1) call fine → i+1 ∉ m.before.nested.armed) ∧
    ((∀ m ∈ ms, ∀ i call op x, m.event = .did i call (.issued op) x → Formed H op x = true) →
      (∀ call next, c.thread 0 = some (call,.ask (.issued .modelTurn) next) →
      begun c.world.context.ran = c.world.context.toolCalls) ∧
      ∀ m ∈ ms, ∀ call, m.event = .finish 0 call true →
      begun m.before.context.ran = m.before.context.toolCalls) := by
  have hrun := (h.starting hs).observed fun m hm => hm
  obtain ⟨⟨hinv,hthreads⟩,hkept⟩ := hrun.sound (budget_contract id)
    (Machine.sound_idle (budget_start hran hcalls))
  refine ⟨⟨hinv.begun_le,?_⟩,⟨hinv.slots,?_⟩,fun hformed => ⟨?_,?_⟩⟩
  · intro _ _ _ _ _ _ ht
    obtain ⟨hpassed,hlt⟩ := ((hthreads 0 _ _ ht).2 c.world rfl).1
    have htotal := hinv.passed hpassed
    have hslots := hinv.slots
    change begun c.world.context.ran < c.world.context.toolCalls at hlt
    change c.world.context.toolCalls+c.world.nested.nested ≤ cap at htotal
    change begun c.world.context.ran+c.world.nested.begun.length < cap
    omega
  · intro m hm i _ _ he
    obtain ⟨-,-,hpost⟩ := hkept m hm
    rw [he] at hpost
    have hstand : m.before.nested.standing (i+1) = {} := hpost.1
    have harmed : m.before.nested.armed.contains (i+1) = false :=
      congrArg NestedCalls.Standing.armed hstand
    simpa using harmed
  · intro _ _ ht
    have hslots : Slots _ 0 c.world.counted := ((hthreads 0 _ _ ht).2 c.world rfl).1
    exact hslots.eq hformed
  · intro m hm _ he
    obtain ⟨-,-,hpost⟩ := hkept m hm
    rw [he] at hpost
    have hslots : Slots _ 0 m.before.counted := hpost.1 rfl
    exact hslots.eq hformed

instance : ∀ i (call : Activity Unit) (w : BudgetWorld Unit), Decidable (Starts i call w)
  | i, .loop _ _, w => inferInstanceAs (Decidable (i = 0 ∧ w.passed = true ∧
      w.context.ran.isEmpty = true ∧ w.context.toolCalls = 0))
  | i, .nested _, _ => inferInstanceAs (Decidable (i ≠ 0))

def formedAt (H : AgentHarness Unit String)
    (m : Moment (Activity Unit) (RunOp Unit String) RunAns (BudgetWorld Unit) Bool) : Bool :=
  match m.event with
  | .did _ _ (.issued op) x => Formed H op x
  | _ => true

def ends (i : Nat) (well : Bool)
    (m : Moment (Activity Unit) (RunOp Unit String) RunAns (BudgetWorld Unit) Bool) : Bool :=
  match m.event with
  | .finish j _ fine => j == i && fine == well
  | _ => false

def reads (name : String) : List (List (AgentLoop.ToolCall Unit)) :=
  [[{ id := "1", name := "read", arguments := () },{ id := "2", name := name, arguments := () }]]

def reading : AgentHarness Unit String :=
  { AgentHarness.plain (· == "edit") with
    modelDispatch := fun name => if name == "gone" then none else some name }

def shallow : NestedLimits := { maxNestedDepth := 5, maxToolCalls := 50 }

theorem run_of_drive (s : AgentLoop.Script) (behavior : LimitBehavior) (cap : Nat) (actions)
    (P : Moments Unit String → BudgetWorld Unit → Prop) [∀ ms w, Decidable (P ms w)]
    (h : ((driver s behavior cap).drive (budgetMachine reading shallow behavior cap) actions
        (.idle { context := {} })).any
      (fun x => (∀ m ∈ x.1, ∀ s ∈ m.started, Starts s.1 s.2 m.before) ∧ P x.1 x.2.world) = true) :
    ∃ ms c, (budgetMachine reading shallow behavior cap).Run (.idle { context := {} }) ms c ∧
    (∀ m ∈ ms, ∀ s ∈ m.started, Starts s.1 s.2 m.before) ∧ P ms c.world :=
  (driver s behavior cap).drive_any (driver_fits s) _ _
    (fun ms c => (∀ m ∈ ms, ∀ s ∈ m.started, Starts s.1 s.2 m.before) ∧ P ms c.world) h

-- The tool of the first call makes a call of its own while the second waits for an approval, and
-- a call made at the end is refused.
theorem executions_within_cap_reads :
    ∃ ms c, (budgetMachine reading shallow .error 3).Run (.idle { context := {} }) ms c ∧
    (∀ m ∈ ms, ∀ s ∈ m.started, Starts s.1 s.2 m.before) ∧
    (∀ m ∈ ms, ∀ i call op x, m.event = .did i call (.issued op) x → Formed reading op x = true) ∧
    c.world.begun = 3 ∧ c.world.begun ≤ 3 ∧ c.world.nested.begun = [1] ∧ ms.any (ends 2 false) ∧
    ∀ m ∈ ms, ∀ call, m.event = .finish 0 call true →
    begun m.before.context.ran = m.before.context.toolCalls := by
  obtain ⟨ms,c,hr,hs,hf,hb,hn⟩ := run_of_drive
    { turns := reads "edit", results := { approvals := fun _ => some .approve } } .error 3
    [.start 0 (.loop 2 none),.act 0 28,.start 1 (.nested (NestedCalls.nest "read" [] .none)),
      .act 1 17,.complete 0 200,.start 2 (.nested (NestedCalls.nest "read" [] .none)),
      .complete 2 50]
    (fun ms w => (∀ m ∈ ms, formedAt reading m = true) ∧ w.begun = 3 ∧ w.nested.begun = [1] ∧
      ms.any (ends 2 false)) (by decide +kernel)
  have hf : ∀ m ∈ ms, ∀ i call op x, m.event = .did i call (.issued op) x →
      Formed reading op x = true := by
    intro m hm i _ _ x he
    have hm := hf m hm
    simpa only [formedAt,he] using hm
  obtain ⟨hcap,-,hslots⟩ := executions_within_cap rfl rfl hr hs
  exact ⟨ms,c,hr,hs,hf,hb,hcap.1,hn.1,hn.2,(hslots hf).2⟩

-- Under the other behaviour the limit of one lets both calls run. And a call to a tool that does
-- not exist keeps the one slot there is.
theorem limit_misses_executions :
    (∃ ms c, (budgetMachine reading shallow .stopWithPartial 1).Run (.idle { context := {} }) ms c ∧
      (∀ m ∈ ms, ∀ s ∈ m.started, Starts s.1 s.2 m.before) ∧ c.world.begun = 2) ∧
    ∃ ms c, (budgetMachine reading shallow .error 1).Run (.idle { context := {} }) ms c ∧
    (∀ m ∈ ms, ∀ s ∈ m.started, Starts s.1 s.2 m.before) ∧ ms.any (ends 0 true) = true ∧
    c.world.begun = 0 ∧ c.world.context.toolCalls = 1 := by
  constructor
  · obtain ⟨ms,c,hr,hs,h⟩ := run_of_drive { turns := reads "read" } .stopWithPartial 1
      [.start 0 (.loop 2 none),.complete 0 200] (fun _ w => w.begun = 2) (by decide +kernel)
    exact ⟨ms,c,hr,hs,h⟩
  obtain ⟨ms,c,hr,hs,h⟩ := run_of_drive
    { turns := [[{ id := "1", name := "gone", arguments := () }]] } .error 1
    [.start 0 (.loop 2 none),.complete 0 200]
    (fun ms w => ms.any (ends 0 true) = true ∧ w.begun = 0 ∧ w.context.toolCalls = 1)
    (by decide +kernel)
  exact ⟨ms,c,hr,hs,h⟩

end Harness.ToolBudgets
