import TinyAgents.Harness.ToolCalls

namespace Harness.StateUpdates

open List AgentLoop

variable {V : Type}

inductive Moment (V : Type) where
  | request (control : MiddlewareControl V)
  | checkpoint
  | takeStateUpdates

-- `queued` is the context's queue of typed updates, `handed` what the host has taken from it.
structure Run (V : Type) where
  context : RunContext V := {}
  queued : List V := []
  handed : List V := []

def updateOf : MiddlewareControl V → Option V
  | .updateState update => some update
  | _ => none

namespace Run

variable (r : Run V)

def applyPendingControl : Run V where
  context := { r.context with control := none }
  queued := r.queued++(r.context.control.bind updateOf).toList
  handed := r.handed

def step : Moment V → Run V
  | .request control => { r with context := r.context.requestControl control }
  | .checkpoint => r.applyPendingControl
  | .takeStateUpdates => { r with queued := [], handed := r.handed++r.queued }

def play (ms : List (Moment V)) : Run V := ms.foldl step r

-- What has been asked for and will still reach the host.
def secured : List V := r.handed++r.queued++(r.context.control.bind updateOf).toList

def Keeps : Moment V → Prop
  | .request control => control.precedence = 0 ∨ r.context.control.bind updateOf = none ∧
      (updateOf control = none ∨ r.context.control.all fun pending => pending.precedence = 0)
  | _ => True

def Lossless : Run V → List (Moment V) → Prop
  | _,[] => True
  | r,m :: ms => r.Keeps m ∧ Lossless (r.step m) ms

end Run

def asked : Moment V → Option V
  | .request control => updateOf control
  | _ => none

def requested (ms : List (Moment V)) : List V := ms.flatMap fun m => (asked m).toList

variable {r : Run V} {m : Moment V} {ms : List (Moment V)}

theorem updateOf_eq_none {control : MiddlewareControl V} (h : control.precedence = 0) :
    updateOf control = none := by
  cases control with
  | «continue» => rfl
  | _ => cases h

theorem step_secured (h : r.Keeps m) : (r.step m).secured = r.secured++(asked m).toList := by
  cases m with
  | request control =>
    simp only [Run.step,Run.secured,asked,RunContext.requestControl]
    obtain h | ⟨hp,hu⟩ := h
    · simp [h,updateOf_eq_none h]
    · obtain hu | hidle := hu
      · split_ifs <;> simp [hp,hu]
      · split_ifs with hc hall
        · simp [updateOf_eq_none hc]
        · simp [hp]
        · cases hx : r.context.control with
          | none => simp [hx] at hall
          | some pending =>
            simp only [hx,Option.all_some,decide_eq_true_eq] at hidle hall
            omega
  | checkpoint => simp [Run.step,Run.applyPendingControl,Run.secured,asked]
  | takeStateUpdates => simp [Run.step,Run.secured,asked]

theorem step_loses (h : ¬r.Keeps m) :
    (r.step m).secured.length < r.secured.length+(asked m).toList.length := by
  cases m with
  | request control =>
    simp only [Run.Keeps] at h
    cases hp : r.context.control with
    | none => simp [hp] at h
    | some pending =>
      cases pending <;> cases control <;>
        simp_all [Run.step,Run.secured,asked,updateOf,RunContext.requestControl,
          MiddlewareControl.precedence]
  | checkpoint | takeStateUpdates => exact absurd trivial h

theorem requested_cons : requested (m :: ms) = (asked m).toList++requested ms := rfl

theorem play_cons : r.play (m :: ms) = (r.step m).play ms := rfl

theorem play_secured (h : r.Lossless ms) : (r.play ms).secured = r.secured++requested ms := by
  induction ms generalizing r with
  | nil => simp [Run.play,requested]
  | cons m ms ih =>
    rw [play_cons,ih h.2,step_secured h.1,requested_cons,append_assoc]

theorem play_loses (h : ¬r.Lossless ms) :
    (r.play ms).secured.length < r.secured.length+(requested ms).length := by
  induction ms generalizing r with
  | nil => exact absurd trivial h
  | cons m ms ih =>
    rw [play_cons,requested_cons,length_append]
    by_cases hm : r.Keeps m
    · have hrest := ih fun hms => h ⟨hm,hms⟩
      rw [step_secured hm,length_append] at hrest
      omega
    · have hstep := step_loses hm
      have hrest : ((r.step m).play ms).secured.length ≤
          (r.step m).secured.length+(requested ms).length := by
        by_cases hms : (r.step m).Lossless ms
        · simp [play_secured hms]
        · exact Nat.le_of_lt (ih hms)
      omega

theorem closing_handed :
    (r.play (ms++[.checkpoint,.takeStateUpdates])).handed = (r.play ms).secured := by
  simp [Run.play,Run.step,Run.applyPendingControl,Run.secured]

theorem handed_eq_requested_iff (ms : List (Moment V)) :
    (Run.play {} (ms++[.checkpoint,.takeStateUpdates])).handed = requested ms ↔
    Run.Lossless {} ms := by
  rw [closing_handed]
  constructor
  · intro heq
    by_contra h
    have hlt := play_loses h
    rw [heq] at hlt
    simp [Run.secured] at hlt
  · intro h
    simpa [Run.secured] using play_secured h

theorem update_lost_to_jump :
    (Run.play (V := Nat) {} [.request (.updateState 1),.request (.jumpTo .model),.checkpoint,
      .takeStateUpdates]).handed = [] ∧
    requested [.request (.updateState 1),.request (.jumpTo .model)] = [1] :=
  ⟨rfl,rfl⟩

theorem step_sublist : (r.step m).secured <+ r.secured++(asked m).toList := by
  cases m with
  | request =>
    simp only [Run.step,Run.secured,asked,RunContext.requestControl]
    split_ifs
    · exact sublist_append_left ..
    · simp
    · exact sublist_append_left ..
  | _ => simp [Run.step,Run.applyPendingControl,Run.secured,asked]

theorem play_sublist : (r.play ms).secured <+ r.secured++requested ms := by
  induction ms generalizing r with
  | nil => simp [Run.play,requested]
  | cons m ms ih =>
    rw [play_cons,requested_cons,← append_assoc]
    exact ih.trans (step_sublist.append_right _)

theorem handed_sublist_requested (ms : List (Moment V)) : (Run.play {} ms).handed <+ requested ms :=
  ((sublist_append_left ..).trans (sublist_append_left ..)).trans play_sublist

end Harness.StateUpdates
