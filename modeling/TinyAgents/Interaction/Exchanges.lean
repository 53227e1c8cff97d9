import TinyAgents.Interaction.Interleaving

namespace Interaction

open List Function

structure Exchange (Op : Type) (Ans : Op → Type) (W : Type) where
  before : W
  op : Op
  answer : Ans op
  after : W

variable {C Op : Type} {Ans : Op → Type} {W R α : Type}

-- A program judged by its own exchanges, newest first. What the others do leaves them alone.
def recording (A : Exchange Op Ans W → Prop) : Logic Op Ans (List (Exchange Op Ans W)) where
  outcome := fun op es x es' => ∃ w w', A ⟨w,op,x,w'⟩ ∧ es' = ⟨w,op,x,w'⟩ :: es
  rely := Eq
  guar := fun _ _ => True
  rely_refl := fun _ => rfl
  rely_trans := fun _ _ _ => Eq.trans

section

variable {A : Exchange Op Ans W → Prop} {Q : α → List (Exchange Op Ans W) → Prop}
  {es : List (Exchange Op Ans W)}

theorem recording_ret {a : α} (h : Q a es) : Safe (recording A) Q (.ret a) es := by
  rintro _ rfl
  exact h

variable {op : Op}

theorem recording_ask {next}
    (h : ∀ w x w', A ⟨w,op,x,w'⟩ → Safe (recording A) Q (next x) (⟨w,op,x,w'⟩ :: es)) :
    Safe (recording A) Q (.ask op next) es := by
  rintro _ rfl
  refine ⟨trivial,fun x _ hx => ?_⟩
  obtain ⟨w,w',ha,rfl⟩ := hx
  exact h w x w' ha

theorem recording_perform {next}
    (h : ∀ w x w', A ⟨w,op,x,w'⟩ → Safe (recording A) Q (next x) (⟨w,op,x,w'⟩ :: es)) :
    Safe (recording A) Q (Program.perform op >>= next) es :=
  recording_ask h

theorem recording_lift {ε : Type} {next : Ans op → Fallible Op Ans ε α}
    {Q : Except ε α → List (Exchange Op Ans W) → Prop}
    (h : ∀ w x w', A ⟨w,op,x,w'⟩ → Safe (recording A) Q (next x).run (⟨w,op,x,w'⟩ :: es)) :
    Safe (recording A) Q (ExceptT.lift (Program.perform op) >>= next).run es :=
  recording_ask h

theorem recording_true {p : Program Op Ans α} : Safe (recording A) (fun _ _ => True) p es := by
  induction p generalizing es with
  | ret => exact recording_ret trivial
  | ask _ _ ih => exact recording_ask fun _ x _ _ => ih x

theorem recording_suffix {p} (h : Safe (recording A) Q p es) :
    Safe (recording A) (fun a es' => Q a es' ∧ es <:+ es') p es := by
  induction p generalizing es with
  | ret => exact recording_ret ⟨h es rfl,suffix_refl es⟩
  | ask _ _ ih =>
    refine recording_ask fun w x w' ha => safe_mono ?_ (ih x ((h es rfl).2 x _ ⟨w,w',ha,rfl⟩))
    rintro a _ ⟨hq,hs⟩
    exact ⟨hq,(suffix_cons _ es).trans hs⟩

end

def Moment.own (i : Nat) (es : List (Exchange Op Ans W)) (m : Moment C Op Ans W R) :
    List (Exchange Op Ans W) :=
  match m.event with
  | .start j _ => if j = i then [] else es
  | .did j _ op x => if j = i then ⟨m.before,op,x,m.after⟩ :: es else es
  | _ => es

def own (i : Nat) (ms : List (Moment C Op Ans W R)) : List (Exchange Op Ans W) :=
  ms.foldl (Moment.own i) []

theorem own_eq_cons {i : Nat} {ms : List (Moment C Op Ans W R)} {e : Exchange Op Ans W}
    {es : List (Exchange Op Ans W)} (h : own i ms = e :: es) :
    ∃ ms1 call ms2, ms = ms1 ++ ⟨e.before,.did i call e.op e.answer,e.after⟩ :: ms2 ∧
    own i ms1 = es := by
  induction ms using List.reverseRecOn with
  | nil => cases h
  | append_singleton ms m ih =>
    have later (h : own i ms = e :: es) : ∃ ms1 call ms2,
        ms ++ [m] = ms1 ++ ⟨e.before,.did i call e.op e.answer,e.after⟩ :: ms2 ∧
          own i ms1 = es := by
      obtain ⟨ms1,call,ms2,rfl,ho⟩ := ih h
      exact ⟨ms1,call,ms2++[m],by simp,ho⟩
    rw [own,foldl_append,foldl_cons,foldl_nil,← own] at h
    obtain ⟨_,event,_⟩ := m
    cases event with
    | start j =>
      by_cases hj : j = i
      · simp [Moment.own,hj] at h
      · exact later (by simpa [Moment.own,hj] using h)
    | did j call =>
      by_cases hj : j = i
      · simp only [Moment.own,hj,if_true,List.cons.injEq] at h
        obtain ⟨rfl,ho⟩ := h
        exact ⟨ms,call,[],by simp [hj],ho⟩
      · exact later (by simpa [Moment.own,hj] using h)
    | finish | crash | env => exact later h

theorem mem_own {i : Nat} {ms : List (Moment C Op Ans W R)} {e : Exchange Op Ans W}
    (h : e ∈ own i ms) : ∃ call, ⟨e.before,.did i call e.op e.answer,e.after⟩ ∈ ms := by
  generalize hes : own i ms = es at h
  induction es generalizing ms with
  | nil => cases h
  | cons _ _ ih =>
    obtain ⟨_,call,_,rfl,ho⟩ := own_eq_cons hes
    rcases mem_cons.1 h with rfl | h
    · exact ⟨call,by simp⟩
    · obtain ⟨call,hm⟩ := ih ho h
      exact ⟨call,mem_append_left _ hm⟩

namespace Machine

variable {M : Machine C Op Ans W R} {Q : C → R → List (Exchange Op Ans W) → Prop}

def answers (M : Machine C Op Ans W R) (i : Nat) (e : Exchange Op Ans W) : Prop :=
  M.outcome i e.op e.before e.answer e.after

variable {i : Nat}

section

variable (hQ : ∀ call, Safe (recording (M.answers i)) (Q call) (M.code call) [])

include hQ

theorem Step.own {c d} {m} (hs : M.Step c m d) {es}
    (h : ∀ call p, c.thread i = some (call,p) → Safe (recording (M.answers i)) (Q call) p es)
    (call : C) (p : Program Op Ans R) (ht : d.thread i = some (call,p)) :
    Safe (recording (M.answers i)) (Q call) p (m.own i es) := by
  cases hs with
  | @start j call' hn hb =>
    by_cases hij : i = j
    · subst hij
      simp only [Config.set,update_self,Option.some.injEq,Prod.mk.injEq] at ht
      obtain ⟨rfl,rfl⟩ := ht
      simpa [Moment.own] using hQ call'
    · simp only [Config.set,update_of_ne hij] at ht
      simpa [Moment.own,Ne.symm hij] using h call p ht
  | @did j call' op next x w hj ho =>
    by_cases hij : i = j
    · subst hij
      simp only [Config.set,update_self,Option.some.injEq,Prod.mk.injEq] at ht
      obtain ⟨rfl,rfl⟩ := ht
      simpa [Moment.own] using (h call' _ hj es rfl).2 x _ ⟨c.world,w,ho,rfl⟩
    · simp only [Config.set,update_of_ne hij] at ht
      simpa [Moment.own,Ne.symm hij] using h call p ht
  | @finish j call' _ hj | @crash j call' _ hj =>
    by_cases hij : i = j
    · subst hij
      simp [Config.set] at ht
    · simp only [Config.set,update_of_ne hij] at ht
      exact h call p ht
  | env => exact h call p ht

theorem Run.own {w : W} {c} {ms} (h : M.Run (Config.idle w) ms c) (call : C) (p : Program Op Ans R)
    (ht : c.thread i = some (call,p)) : Safe (recording (M.answers i)) (Q call) p (own i ms) := by
  generalize hc : Config.idle w = c0 at h
  induction h generalizing call p with
  | nil =>
    subst hc
    simp [Config.idle] at ht
  | snoc _ hs ih =>
    rw [Interaction.own,foldl_append]
    exact hs.own hQ ih call p ht

theorem Run.finish_own {w : W} {d} {ms ns} {m} (h : M.Run (Config.idle w) (ms ++ m :: ns) d)
    {call : C} {r : R} (hm : m.event = .finish i call r) : Q call r (Interaction.own i ms) := by
  obtain ⟨c,_,hr,hs,-⟩ := h.at
  cases hs with
  | finish ht =>
    cases hm
    exact hr.own hQ call _ ht _ rfl
  | start | did | crash | env => cases hm

end

end Machine

end Interaction
