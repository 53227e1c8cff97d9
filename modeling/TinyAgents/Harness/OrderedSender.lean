import Mathlib.Data.List.Basic

namespace Harness.OrderedSender

variable {T : Type}

inductive SendFailure (T : Type) where
  | closed (item : T)
  | backpressure (item : T)

def defaultMaxOverflow : Nat := 4096

structure Bounds where
  capacity : Nat
  maxOverflow : Nat := defaultMaxOverflow
  roomy : 0 < capacity

structure Channel (T : Type) where
  buffer : List T := []
  alive : Bool := true
  queue : List T := []
  draining : Bool := false
  held : Option T := none
  accepted : List T := []
  received : List T := []

variable (B : Bounds)

def send (runtime : Bool) (item : T) (c : Channel T) : Except (SendFailure T) (Channel T) :=
  if c.draining then
    if B.maxOverflow ≤ c.queue.length then .error (.backpressure item)
    else .ok { c with queue := c.queue++[item] }
  else if !c.alive then .error (.closed item)
  else if c.buffer.length < B.capacity then .ok { c with buffer := c.buffer++[item] }
  else if !runtime then .error (.backpressure item)
  else if B.maxOverflow = 0 then .error (.backpressure item)
  else .ok { c with queue := c.queue++[item], draining := true }

inductive Event (T : Type) where
  | send (runtime : Bool) (item : T)
  | pop
  | forward
  | receive
  | close

variable (c : Channel T)

def step : Event T → Channel T
  | .send runtime item =>
    match send B runtime item c with
    | .ok d => { d with accepted := c.accepted++[item] }
    | .error _ => c
  | .pop =>
    if c.draining && c.held.isNone then
      match c.queue with
      | item :: queue => { c with queue := queue, held := some item }
      | [] => { c with draining := false }
    else c
  | .forward =>
    match c.held with
    | some item =>
      if !c.alive then { c with queue := [], draining := false, held := none }
      else if c.buffer.length < B.capacity then { c with buffer := c.buffer++[item], held := none }
      else c
    | none => c
  | .receive =>
    match c.alive, c.buffer with
    | true, item :: buffer => { c with buffer := buffer, received := c.received++[item] }
    | _, _ => c
  | .close => { c with alive := false }

def run (events : List (Event T)) : Channel T :=
  events.foldl (step B) {}

def Channel.pending : List T :=
  c.buffer++(c.held.toList++c.queue)

structure Sound : Prop where
  bounded : c.queue.length ≤ B.maxOverflow
  idle : c.draining = false → c.held = none ∧ c.queue = []
  ordered : c.alive = true → c.received++c.pending = c.accepted

variable {B} {c d : Channel T}

theorem Sound.send (h : Sound B c) {runtime : Bool} {item : T}
    (hs : send B runtime item c = .ok d) :
    Sound B { d with accepted := c.accepted++[item] } := by
  have hordered := h.ordered
  simp only [Channel.pending] at hordered
  unfold OrderedSender.send at hs
  split at hs
  next hd =>
    split at hs <;> cases hs
    refine ⟨by simp; omega,fun hn => absurd (hd.symm.trans hn) nofun,fun ha => ?_⟩
    simp [Channel.pending,← hordered ha]
  next hd =>
    obtain ⟨hheld,hqueue⟩ := h.idle (by simpa using hd)
    simp only [hheld,hqueue] at hordered
    split at hs
    · cases hs
    split at hs
    · cases hs
      refine ⟨h.bounded,h.idle,fun ha => ?_⟩
      simp [Channel.pending,hheld,hqueue,← hordered ha]
    split at hs
    · cases hs
    split at hs <;> cases hs
    refine ⟨by simp [hqueue]; omega,nofun,fun ha => ?_⟩
    simp [Channel.pending,hheld,hqueue,← hordered ha]

theorem Sound.step (h : Sound B c) (e : Event T) : Sound B (step B c e) := by
  have hordered := h.ordered
  simp only [Channel.pending] at hordered
  cases e with
  | send runtime item =>
    simp only [OrderedSender.step]
    split
    next hs => exact h.send hs
    · exact h
  | pop =>
    simp only [OrderedSender.step]
    split
    next hd =>
      obtain ⟨hd,hheld⟩ := Bool.and_eq_true_iff.1 hd
      rw [Option.isNone_iff_eq_none] at hheld
      have hbound := h.bounded
      split
      next hq =>
        rw [hq] at hordered hbound
        refine ⟨Nat.le_of_succ_le hbound,fun hn => absurd (hd.symm.trans hn) nofun,fun ha => ?_⟩
        simpa [Channel.pending,hheld] using hordered ha
      next hq => exact ⟨hbound,fun _ => ⟨hheld,hq⟩,h.ordered⟩
    · exact h
  | forward =>
    simp only [OrderedSender.step]
    split
    next hheld =>
      rw [hheld] at hordered
      split
      next ha =>
        refine ⟨Nat.zero_le _,fun _ => ⟨rfl,rfl⟩,fun hl : c.alive = true => ?_⟩
        simp [hl] at ha
      · split
        · refine ⟨h.bounded,fun hn => ⟨rfl,(h.idle hn).2⟩,fun ha => ?_⟩
          simpa [Channel.pending] using hordered ha
        · exact h
    · exact h
  | receive =>
    simp only [OrderedSender.step]
    split
    next ha hb =>
      rw [hb] at hordered
      refine ⟨h.bounded,h.idle,fun _ => ?_⟩
      simpa [Channel.pending] using hordered ha
    · exact h
  | close => exact ⟨h.bounded,h.idle,nofun⟩

theorem sound_run (events : List (Event T)) : Sound B (run B events) := by
  have hfold : ∀ c : Channel T, Sound B c → Sound B (events.foldl (step B) c) := by
    induction events with
    | nil => exact fun _ h => h
    | cons e _ ih => exact fun c h => ih _ (h.step e)
  exact hfold {} ⟨Nat.zero_le _,fun _ => ⟨rfl,rfl⟩,fun _ => rfl⟩

-- A channel at rest is one on which neither the drain task nor the consumer can move.
def AtRest (B : Bounds) (c : Channel T) : Prop :=
  ∀ e ∈ [Event.pop,.forward,.receive], step B c e = c

theorem received_of_atRest (h : Sound B c) (ha : c.alive) (hr : AtRest B c) :
    c.received = c.accepted := by
  have hbuffer : c.buffer = [] := by
    have := hr .receive (by simp)
    cases hb : c.buffer with
    | nil => rfl
    | cons => simpa [step,ha,hb] using congrArg Channel.buffer this
  have hheld : c.held = none := by
    have := hr .forward (by simp)
    cases hb : c.held with
    | none => rfl
    | some => simpa [step,ha,hb,hbuffer,B.roomy] using congrArg Channel.held this
  have hidle : c.draining = false := by
    have := hr .pop (by simp)
    cases hd : c.draining with
    | false => rfl
    | true =>
      cases hq : c.queue with
      | nil => simpa [step,hd,hq,hheld] using congrArg Channel.draining this
      | cons => simpa [step,hd,hq,hheld] using congrArg Channel.queue this
  simpa [Channel.pending,hbuffer,hheld,(h.idle hidle).2] using h.ordered ha

theorem received_in_order (B : Bounds) (events : List (Event T)) :
    (run B events).queue.length ≤ B.maxOverflow ∧
    ((run B events).alive = true → (run B events).received++(run B events).pending =
      (run B events).accepted ∧
      (AtRest B (run B events) → (run B events).received = (run B events).accepted)) := by
  have h : Sound B (run B events) := sound_run events
  exact ⟨h.bounded,fun ha => ⟨h.ordered ha,received_of_atRest h ha⟩⟩

example : (run { capacity := 1, roomy := Nat.one_pos }
    [.send true 1,.send true 2,.receive,.pop,.forward,.receive]).received = [1,2] := by
  decide

end Harness.OrderedSender
