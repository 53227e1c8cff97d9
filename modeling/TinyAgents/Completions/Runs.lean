import TinyAgents.Completions.Calls

namespace Completions

open Interaction

abbrev CompletionConfig := Config RouterCall Op Ans World (Except Fault Reply)
abbrev CompletionMoment := Moment RouterCall Op Ans World (Except Fault Reply)

def machine (begins : Nat → RouterCall → World → Prop) :
    Machine RouterCall Op Ans World (Except Fault Reply) where
  code := RouterCall.code
  outcome := fun i op w x w' => Outcome i op w x w'
  env := Scope.Clock
  begins := begins

def anyCalls : Nat → RouterCall → World → Prop :=
  fun _ _ _ => True

theorem driver_fits : driver.Fits (machine anyCalls) where
  perform := fun _ _ _ _ _ h => perform_outcome h
  refuse := fun _ _ _ _ h => refuse_outcome h
  tick := fun t _ => ⟨t,rfl⟩

def firstRouter : Router := { id := 0, lifecycle := 0 }
def secondRouter : Router := { id := 1, lifecycle := 0 }

variable (first second : List (Choice RouterCall))

def stages (w : World) (check : List CompletionMoment → CompletionConfig → List CompletionMoment →
    CompletionConfig → Bool) : Bool :=
  (driver.drive (machine anyCalls) first (.idle w)).any fun x =>
    (driver.drive (machine anyCalls) second x.2).any fun y => check x.1 x.2 y.1 y.2

theorem stages_run (w : World)
    (P : List CompletionMoment → CompletionConfig → List CompletionMoment → CompletionConfig → Prop)
    [∀ ms1 c ms2 d, Decidable (P ms1 c ms2 d)]
    (h : stages first second w (fun ms1 c ms2 d => P ms1 c ms2 d)) :
    ∃ ms1 c ms2 d, (machine anyCalls).Run (.idle w) ms1 c ∧ (machine anyCalls).Run c ms2 d ∧
    P ms1 c ms2 d := by
  obtain ⟨⟨ms1,c⟩,h1,h⟩ := (Option.any_eq_true _ _).1 h
  obtain ⟨ms2,d,h2,h⟩ := driver.drive_any driver_fits second c (P ms1 c) h
  exact ⟨ms1,c,ms2,d,Driver.drive_run driver_fits h1,h2,h⟩

namespace Scope

variable {S : Scope} {closed : String → Prop} {begins : Nat → RouterCall → World → Prop}

variable (S) in
def Active (i : Nat) : Prop :=
  S.solo → i = 0

variable (S closed) in
def RunSound (c : CompletionConfig) : Prop :=
  Machine.Sound S.Active S.Inv S.logic (fun _ call => S.Post closed call) c

variable (S closed begins) in
def RunKept (m : CompletionMoment) : Prop :=
  ((machine begins).under S.Assumed).Kept S.Inv S.logic (fun _ call => S.Post closed call) m

variable (S) in
def Meets (ms : List CompletionMoment) : Prop :=
  ∀ m ∈ ms, ∀ op ∈ m.op, S.Assumed op m.before

section

variable (hb : ∀ i call w, S.Inv w → begins i call w → S.Active i ∧ S.Opens closed call w)

include hb

theorem contract :
    ((machine begins).under S.Assumed).Contract S.Active S.Inv S.logic
      (fun _ call => S.Post closed call) where
  outcome := fun _ _ _ _ _ _ h => h
  opens := fun i call w hi h => ⟨(hb i call w hi h).1,safe_code hi (hb i call w hi h).2⟩
  keeps := fun _ _ _ _ _ hi hg ho => keeps hi hg ho.2 ho.1
  frame := fun _ _ _ _ _ _ hwi hwj hij hi hg ho =>
    frame hij (fun hsolo => hij ((hwi hsolo).trans (hwj hsolo).symm)) hi hg ho.2 ho.1
  env_keeps := fun _ _ hi h => clock_inv hi h
  env_frame := fun _ _ _ _ h => clock_rely h

theorem run_sound {c d} {ms} (hr : (machine begins).Run c ms d) (hm : S.Meets ms)
    (hc : S.RunSound closed c) : S.RunSound closed d ∧ ∀ m ∈ ms, S.RunKept closed begins m :=
  (hr.under hm).sound (contract hb) hc

end

variable {m : CompletionMoment}

theorem RunKept.cases (h : S.RunKept closed begins m) :
    (m.op = none ∧ m.after.store = m.before.store) ∨ ∃ i call op x, m.event = .did i call op x ∧
    S.Guar i op m.before ∧ S.Assumed op m.before ∧ Outcome i op m.before x m.after := by
  obtain ⟨w,event,w'⟩ := m
  obtain ⟨-,-,h⟩ := h
  cases event with
  | start | finish => exact .inl ⟨rfl,by rw [show w' = w from h.2]⟩
  | did i call op x => exact .inr ⟨i,call,op,x,rfl,h.1,h.2.2,h.2.1⟩
  | crash => exact .inl ⟨rfl,by rw [show w' = w from h]⟩
  | env =>
    obtain ⟨t,ht⟩ := h
    exact .inl ⟨rfl,by rw [show w' = { w with now := t } from ht]⟩

theorem RunKept.begun (h : S.RunKept closed begins m) {s} (hs : s ∈ m.started) :
    begins s.1 s.2 m.before := by
  obtain ⟨w,event,_⟩ := m
  cases event <;> cases hs
  exact h.2.2.1

variable (S) in
inductive Fate (m : CompletionMoment) (taskId : String) : Prop
  | same : m.after.get taskId = m.before.get taskId → Fate m taskId
  | rewritten (parentKey : String) (op : Op) (r : CompletionRecord) : m.op = some op →
      m.after.get taskId = some r → r.taskId = taskId → S.Rewrite m.before parentKey op r →
      Fate m taskId
  | swept (retain : Nat) : m.op = some (.compact retain) → ¬ S.lasting →
      m.after.get taskId = none → Fate m taskId

theorem RunKept.fate (hs : S.Contended) (h : S.RunKept closed begins m) {taskId : String}
    (hm : ¬ IsMarkerId taskId) : S.Fate m taskId := by
  rcases h.cases with ⟨-,h⟩ | ⟨i,_,op,x,he,hg,ha,ho⟩
  · exact .same (get_of_records (by rw [h]) _)
  have hop := Moment.op_eq he
  cases ho.change with
  | silent h => exact .same (get_of_records (by rw [h]) _)
  | gate _ _ _ h => exact .same (get_of_records h _)
  | entry _ _ _ h => exact .same (by rw [h]; rfl)
  | write q _ hf hcur _ _ _ hget =>
    rcases hget taskId with h | ⟨r,hr,rfl,hw⟩
    · exact .same h
    · exact .rewritten q op r hop hr rfl (wrote_rewrite hs hg ha hf hcur hw hm)
  | sweep retain hret _ _ _ hget =>
    subst hret
    have h := hget taskId
    cases h0 : m.before.get taskId with
    | none =>
      rw [h0] at h
      exact .same (h.trans h0.symm)
    | some =>
      rw [h0,Option.filter_some] at h
      split at h
      · exact .same (h.trans h0.symm)
      · exact .swept retain hop hg h

theorem runSound_idle {w : World} (h : S.Inv w) : S.RunSound closed (.idle w) :=
  Machine.sound_idle h

end Scope

end Completions
