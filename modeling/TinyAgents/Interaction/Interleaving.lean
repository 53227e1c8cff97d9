import Mathlib.Data.List.Induction
import TinyAgents.Interaction.Program

namespace Interaction

open List Function

variable (C Op : Type) (Ans : Op → Type)

structure Machine (W R : Type) where
  code : C → Program Op Ans R
  outcome : Nat → (op : Op) → W → Ans op → W → Prop
  env : W → W → Prop := fun w w' => w' = w
  begins : Nat → C → W → Prop := fun _ _ _ => True

structure Config (W R : Type) where
  world : W
  thread : Nat → Option (C × Program Op Ans R)

inductive Event (R : Type) where
  | start (i : Nat) (c : C)
  | did (i : Nat) (c : C) (op : Op) (x : Ans op)
  | finish (i : Nat) (c : C) (r : R)
  | crash (i : Nat) (c : C)
  | env

structure Moment (W R : Type) where
  before : W
  event : Event C Op Ans R
  after : W

variable {C Op : Type} {Ans : Op → Type} {W R : Type} (m : Moment C Op Ans W R)

def Moment.op : Option Op :=
  match m.event with
  | .did _ _ op _ => some op
  | _ => none

theorem Moment.op_eq {m : Moment C Op Ans W R} {i : Nat} {c : C} {op : Op} {x : Ans op}
    (h : m.event = .did i c op x) : m.op = some op := by
  rw [Moment.op,h]

theorem Moment.did_of_op {m : Moment C Op Ans W R} {op : Op} (h : m.op = some op) :
    ∃ i c x, m.event = .did i c op x := by
  unfold Moment.op at h
  split at h
  next i c _ x he =>
    cases h
    exact ⟨i,c,x,he⟩
  · cases h

def Moment.started : Option (Nat × C) :=
  match m.event with
  | .start i call => some (i,call)
  | _ => none

def Moment.caller : Option C :=
  match m.event with
  | .start _ call | .did _ call _ _ | .finish _ call _ | .crash _ call => some call
  | .env => none

def Config.set (c : Config C Op Ans W R) (i : Nat) (t : Option (C × Program Op Ans R)) (w : W) :
    Config C Op Ans W R :=
  ⟨w,update c.thread i t⟩

def Config.idle (w : W) : Config C Op Ans W R :=
  ⟨w,fun _ => none⟩

namespace Machine

variable (M : Machine C Op Ans W R)

inductive Step : Config C Op Ans W R → Moment C Op Ans W R → Config C Op Ans W R → Prop
  | start {c : Config C Op Ans W R} {i : Nat} {call : C} :
      c.thread i = none → M.begins i call c.world →
      Step c ⟨c.world,.start i call,c.world⟩ (c.set i (some (call,M.code call)) c.world)
  | did {c : Config C Op Ans W R} {i : Nat} {call : C} {op : Op}
      {next : Ans op → Program Op Ans R} {x : Ans op} {w : W} :
      c.thread i = some (call,.ask op next) → M.outcome i op c.world x w →
      Step c ⟨c.world,.did i call op x,w⟩ (c.set i (some (call,next x)) w)
  | finish {c : Config C Op Ans W R} {i : Nat} {call : C} {r : R} :
      c.thread i = some (call,.ret r) →
      Step c ⟨c.world,.finish i call r,c.world⟩ (c.set i none c.world)
  | crash {c : Config C Op Ans W R} {i : Nat} {call : C} {p : Program Op Ans R} :
      c.thread i = some (call,p) →
      Step c ⟨c.world,.crash i call,c.world⟩ (c.set i none c.world)
  | env {c : Config C Op Ans W R} {w : W} :
      M.env c.world w → Step c ⟨c.world,.env,w⟩ { c with world := w }

inductive Run : Config C Op Ans W R → List (Moment C Op Ans W R) → Config C Op Ans W R → Prop
  | nil (c : Config C Op Ans W R) : Run c [] c
  | snoc {c d e : Config C Op Ans W R} {ms : List (Moment C Op Ans W R)}
      {m : Moment C Op Ans W R} : Run c ms d → M.Step d m e → Run c (ms ++ [m]) e

variable {M} {c d : Config C Op Ans W R} {ms ns : List (Moment C Op Ans W R)}
  {m : Moment C Op Ans W R}

theorem Step.before_eq (h : M.Step c m d) : m.before = c.world := by
  cases h <;> rfl

theorem Step.after_eq (h : M.Step c m d) : m.after = d.world := by
  cases h <;> rfl

theorem Run.single (h : M.Step c m d) : M.Run c [m] d :=
  Run.snoc (Run.nil c) h

section

variable (h : M.Run c ms d)

include h

theorem Run.trans {e} (k : M.Run d ns e) : M.Run c (ms ++ ns) e := by
  induction k with
  | nil => simpa using h
  | snoc _ hs ih => simpa only [append_assoc] using Run.snoc ih hs

theorem Run.inv {I : Config C Op Ans W R → Prop} {P : Moment C Op Ans W R → Prop} (h0 : I c)
    (hstep : ∀ c m d, I c → M.Step c m d → I d ∧ P m) : I d ∧ ∀ m ∈ ms, P m := by
  induction h with
  | nil => exact ⟨h0,by simp⟩
  | snoc _ hs ih =>
    obtain ⟨hi,hp⟩ := ih
    obtain ⟨hi',hp'⟩ := hstep _ _ _ hi hs
    refine ⟨hi',fun m hm => ?_⟩
    rcases mem_append.1 hm with hm | hm
    · exact hp m hm
    · rw [mem_singleton.1 hm]
      exact hp'

theorem Run.outcome :
    ∀ m ∈ ms, ∀ i call op x, m.event = .did i call op x → M.outcome i op m.before x m.after := by
  refine (h.inv trivial fun c m d _ hs => ⟨trivial,?_⟩).2
  intro i _ _ x he
  cases hs with
  | did _ ho =>
    cases he
    exact ho
  | start | finish | crash | env => cases he

theorem Run.still (henv : ∀ w w', M.env w w' → w' = w) :
    ∀ m ∈ ms, (∀ i call op x, m.event ≠ .did i call op x) → m.after = m.before := by
  refine (h.inv trivial fun c m d _ hs => ⟨trivial,fun h => ?_⟩).2
  cases hs with
  | did => exact absurd rfl (h _ _ _ _)
  | env he => exact henv _ _ he
  | start | finish | crash => rfl

theorem Run.history {P : List (Moment C Op Ans W R) → W → Prop} (h0 : P [] c.world)
    (hs : ∀ ns m, m ∈ ms → P ns m.before → P (ns ++ [m]) m.after) : P ms d.world := by
  induction h with
  | nil => exact h0
  | snoc _ hstep ih =>
    have hp := ih fun ns m hm => hs ns m (mem_append_left _ hm)
    rw [← hstep.before_eq] at hp
    rw [← hstep.after_eq]
    exact hs _ _ (mem_append_right _ (mem_singleton.2 rfl)) hp

theorem Run.before {P : W → Prop} (h0 : P c.world) (hs : ∀ m ∈ ms, P m.before → P m.after) :
    P d.world ∧ ∀ m ∈ ms, P m.before := by
  refine h.history (P := fun ns w => P w ∧ ∀ m ∈ ns, P m.before) ⟨h0,by simp⟩ ?_
  rintro _ m hm ⟨hp,hns⟩
  refine ⟨hs m hm hp,fun k hk => ?_⟩
  rcases mem_append.1 hk with hk | hk
  · exact hns k hk
  · rw [mem_singleton.1 hk]
    exact hp

end

theorem Run.thread_eq_none {w : W} (h : M.Run (Config.idle w) ms c) {i : Nat}
    (hi : ∀ m ∈ ms, ∀ s ∈ m.started, s.1 ≠ i) : c.thread i = none := by
  generalize hc : Config.idle w = c0 at h
  induction h with
  | nil =>
    subst hc
    rfl
  | @snoc d e ms m hr hs ih =>
    have hd := ih fun m hm => hi m (mem_append_left _ hm)
    have hm := hi m (mem_append_right _ (mem_singleton.2 rfl))
    have hne {j} {t : C × Program Op Ans R} (ht : d.thread j = some t) : i ≠ j := by
      rintro rfl
      rw [hd] at ht
      cases ht
    cases hs with
    | start => simpa [Config.set,update_of_ne (hm _ rfl).symm] using hd
    | did ht | finish ht | crash ht => simpa [Config.set,update_of_ne (hne ht)] using hd
    | env => exact hd

theorem Run.called {B : C → Prop} {w : W} (h : M.Run (Config.idle w) ms c)
    (hb : ∀ m ∈ ms, ∀ s ∈ m.started, B s.2) :
    (∀ i call p, c.thread i = some (call,p) → B call) ∧ ∀ m ∈ ms, ∀ call ∈ m.caller, B call := by
  generalize hc : Config.idle w = c₀ at h
  induction h with
  | nil =>
    subst hc
    exact ⟨by simp [Config.idle],by simp⟩
  | @snoc d e ms m hr hs ih =>
    obtain ⟨ih,hms⟩ := ih fun m hm => hb m (mem_append_left _ hm)
    have hm := hb m (mem_append_right _ (mem_singleton.2 rfl))
    have keep {j} {t} {v}
        (ht : ∀ call p, t = some (call,p) → B call) (i : Nat) (call : C) (p : Program Op Ans R)
        (hp : (d.set j t v).thread i = some (call,p)) : B call := by
      by_cases hij : i = j
      · subst hij
        exact ht call p (by simpa [Config.set] using hp)
      · exact ih i call p (by simpa [Config.set,update_of_ne hij] using hp)
    have hstep : (∀ i call p, e.thread i = some (call,p) → B call) ∧ ∀ call ∈ m.caller, B call := by
      cases hs with
      | @start i call ht _ =>
        have hcall : B call := hm (i,call) rfl
        exact ⟨keep fun _ _ h => by cases h; exact hcall,fun _ h => by cases h; exact hcall⟩
      | did ht =>
        have hcall := ih _ _ _ ht
        exact ⟨keep fun _ _ h => by cases h; exact hcall,fun _ h => by cases h; exact hcall⟩
      | finish ht | crash ht => exact ⟨keep (by simp),fun _ h => by cases h; exact ih _ _ _ ht⟩
      | env => exact ⟨ih,nofun⟩
    refine ⟨hstep.1,fun k hk => ?_⟩
    rcases mem_append.1 hk with hk | hk
    · exact hms k hk
    · rw [mem_singleton.1 hk]
      exact hstep.2

theorem Run.last (h : M.Run c (ms ++ [m]) d) : ∃ e, M.Run c ms e ∧ M.Step e m d := by
  generalize hl : ms ++ [m] = l at h
  cases h with
  | nil => simp at hl
  | snoc hr hs =>
    obtain ⟨hl,hm⟩ := append_inj' hl rfl
    subst hl
    cases hm
    exact ⟨_,hr,hs⟩

theorem Run.split (h : M.Run c (ms ++ ns) d) : ∃ e, M.Run c ms e ∧ M.Run e ns d := by
  induction ns using List.reverseRecOn generalizing d with
  | nil => exact ⟨d,by simpa using h,Run.nil d⟩
  | append_singleton _ _ ih =>
    rw [← append_assoc] at h
    obtain ⟨e,hr,hs⟩ := h.last
    obtain ⟨e',he,hn⟩ := ih hr
    exact ⟨e',he,Run.snoc hn hs⟩

theorem Run.at (h : M.Run c (ms ++ m :: ns) d) :
    ∃ e e', M.Run c ms e ∧ M.Step e m e' ∧ M.Run e' ns d := by
  rw [append_cons] at h
  obtain ⟨e',h,hn⟩ := h.split
  obtain ⟨e,he,hs⟩ := h.last
  exact ⟨e,e',he,hs,hn⟩

theorem Run.eq_of_nil (h : M.Run c [] d) : d = c := by
  generalize hl : ([] : List (Moment C Op Ans W R)) = l at h
  cases h with
  | nil => rfl
  | snoc => simp at hl

theorem Run.head (h : M.Run c (m :: ms) d) : ∃ e, M.Step c m e ∧ M.Run e ms d := by
  rw [← nil_append (m :: ms)] at h
  obtain ⟨e,e',hr,hs,hn⟩ := h.at
  cases hr.eq_of_nil
  exact ⟨e',hs,hn⟩

theorem Run.within {O} {B} (h : M.Run c ms d)
    (ho : ∀ m ∈ ms, ∀ i call op x, m.event = .did i call op x → M.outcome i op m.before x m.after →
      O i op m.before x m.after)
    (hb : ∀ m ∈ ms, ∀ s ∈ m.started, M.begins s.1 s.2 m.before → B s.1 s.2 m.before) :
    { M with outcome := O, begins := B }.Run c ms d := by
  induction h with
  | nil => exact Run.nil _
  | @snoc d e ms m _ hs ih =>
    have hm : m ∈ ms ++ [m] := mem_append_right _ (mem_singleton.2 rfl)
    refine Run.snoc (ih (fun m hm => ho m (mem_append_left _ hm))
      fun m hm => hb m (mem_append_left _ hm)) ?_
    cases hs with
    | start ht h => exact Step.start ht (hb _ hm _ rfl h)
    | did ht h => exact Step.did ht (ho _ hm _ _ _ _ rfl h)
    | finish ht => exact Step.finish ht
    | crash ht => exact Step.crash ht
    | env he => exact Step.env he

def under (M : Machine C Op Ans W R) (cond : Op → W → Prop) : Machine C Op Ans W R :=
  { M with outcome := fun i op w x w' => M.outcome i op w x w' ∧ cond op w }

theorem Run.under {cond : Op → W → Prop} (h : M.Run c ms d)
    (hc : ∀ m ∈ ms, ∀ op ∈ m.op, cond op m.before) : (M.under cond).Run c ms d :=
  h.within (fun m hm _ _ op _ he ho => ⟨ho,hc m hm op (Moment.op_eq he)⟩) fun _ _ _ _ h => h

def starting (M : Machine C Op Ans W R) (begins : Nat → C → W → Prop) : Machine C Op Ans W R :=
  { M with begins := begins }

theorem Run.starting {begins} (h : M.Run c ms d)
    (hb : ∀ m ∈ ms, ∀ s ∈ m.started, begins s.1 s.2 m.before) : (M.starting begins).Run c ms d :=
  h.within (fun _ _ _ _ _ _ _ ho => ho) fun m hm s hs _ => hb m hm s hs

def answering (M : Machine C Op Ans W R) (S : (op : Op) → Ans op → Prop) : Machine C Op Ans W R :=
  { M with outcome := fun i op w x w' => M.outcome i op w x w' ∧ S op x }

theorem Run.of_answering {S} (h : (M.answering S).Run c ms d) : M.Run c ms d :=
  h.within (B := M.begins) (fun _ _ _ _ _ _ _ ho => ho.1) fun _ _ _ _ h => h

def observed (M : Machine C Op Ans W R) (ms : List (Moment C Op Ans W R)) : Machine C Op Ans W R :=
  { M with outcome := fun i op w x w' =>
      M.outcome i op w x w' ∧ ∃ call, ⟨w,.did i call op x,w'⟩ ∈ ms }

theorem Run.observed {l} (h : M.Run c ms d) (hl : ∀ m ∈ ms, m ∈ l) : (M.observed l).Run c ms d := by
  refine h.within ?_ fun _ _ _ _ h => h
  rintro ⟨_,_,_⟩ hm i call _ x rfl ho
  exact ⟨ho,call,hl _ hm⟩

variable (M) in
structure Contract (who : Nat → Prop) (inv : W → Prop) (logic : Nat → Logic Op Ans W)
    (post : Nat → C → R → W → Prop) : Prop where
  outcome : ∀ i op w x w', inv w → M.outcome i op w x w' → (logic i).outcome op w x w'
  opens : ∀ i call w, inv w → M.begins i call w →
    who i ∧ Safe (logic i) (post i call) (M.code call) w
  keeps : ∀ i op w x w', inv w → (logic i).guar op w → M.outcome i op w x w' → inv w'
  frame : ∀ i j op w x w', who i → who j → i ≠ j → inv w → (logic j).guar op w →
    M.outcome j op w x w' → (logic i).rely w w'
  env_keeps : ∀ w w', inv w → M.env w w' → inv w'
  env_frame : ∀ i w w', inv w → M.env w w' → (logic i).rely w w'

def Kept (M : Machine C Op Ans W R) (inv : W → Prop) (logic : Nat → Logic Op Ans W)
    (post : Nat → C → R → W → Prop) (m : Moment C Op Ans W R) : Prop :=
  inv m.before ∧ inv m.after ∧ match m.event with
  | .start i call => M.begins i call m.before ∧ m.after = m.before
  | .did i _ op x => (logic i).guar op m.before ∧ M.outcome i op m.before x m.after
  | .finish i call r => post i call r m.before ∧ m.after = m.before
  | .crash _ _ => m.after = m.before
  | .env => M.env m.before m.after

def Sound (who : Nat → Prop) (inv : W → Prop) (logic : Nat → Logic Op Ans W)
    (post : Nat → C → R → W → Prop) (c : Config C Op Ans W R) : Prop :=
  inv c.world ∧ ∀ i call p, c.thread i = some (call,p) →
    who i ∧ Safe (logic i) (post i call) p c.world

section

variable {who : Nat → Prop} {inv : W → Prop} {logic : Nat → Logic Op Ans W}
  {post : Nat → C → R → W → Prop}

theorem Kept.within {r : W → W → Prop} (h : M.Kept inv logic post m) (hrefl : ∀ w, r w w)
    (hdid : ∀ i op w x w', (logic i).guar op w → M.outcome i op w x w' → r w w')
    (henv : ∀ w w', M.env w w' → r w w') : r m.before m.after := by
  obtain ⟨_,event,_⟩ := m
  obtain ⟨-,-,h⟩ := h
  cases event with
  | start | finish => exact h.2 ▸ hrefl _
  | did i _ op x => exact hdid i op _ x _ h.1 h.2
  | crash => exact h ▸ hrefl _
  | env => exact henv _ _ h

variable {c : Config C Op Ans W R} {ms : List (Moment C Op Ans W R)} {w : W}

theorem sound_idle (h : inv w) : Sound (C := C) (R := R) who inv logic post (Config.idle w) :=
  ⟨h,fun _ _ _ ht => by simp [Config.idle] at ht⟩

theorem Sound.set {i : Nat} {t} (h : Sound who inv logic post c) (hw : inv w)
    (hr : ∀ j, who j → j ≠ i → (logic j).rely c.world w)
    (ht : ∀ call p, t = some (call,p) → who i ∧ Safe (logic i) (post i call) p w) :
    Sound who inv logic post (c.set i t w) := by
  refine ⟨hw,fun j call p hj => ?_⟩
  by_cases hji : j = i
  · subst hji
    exact ht call p (by simpa [Config.set] using hj)
  have hj' : c.thread j = some (call,p) := by
    simpa [Config.set,update_of_ne hji] using hj
  obtain ⟨hwho,hs⟩ := h.2 j call p hj'
  exact ⟨hwho,safe_rely hs (hr j hwho hji)⟩

theorem Step.sound (K : M.Contract who inv logic post) (h : Sound who inv logic post c)
    (hs : M.Step c m d) : Sound who inv logic post d ∧ M.Kept inv logic post m := by
  have refl i := (logic i).rely_refl c.world
  cases hs with
  | @start i call ht hb =>
    refine ⟨h.set h.1 (fun j _ _ => refl j) ?_,h.1,h.1,hb,rfl⟩
    rintro _ p ⟨⟩
    exact K.opens i call c.world h.1 hb
  | @did i call op next x w ht ho =>
    obtain ⟨hwho,hsafe⟩ := h.2 i call _ ht
    obtain ⟨hg,hn⟩ := hsafe c.world (refl i)
    have hw := K.keeps i op _ x _ h.1 hg ho
    refine ⟨h.set hw (fun j hj hji => K.frame j i op _ x _ hj hwho hji h.1 hg ho) ?_,h.1,hw,hg,ho⟩
    rintro _ p ⟨⟩
    exact ⟨hwho,hn x w (K.outcome i op _ x _ h.1 ho)⟩
  | @finish i call r ht =>
    have hpost := (h.2 i call _ ht).2 c.world (refl i)
    refine ⟨h.set h.1 (fun j _ _ => refl j) ?_,h.1,h.1,hpost,rfl⟩
    rintro _ p ⟨⟩
  | @crash i call p ht =>
    refine ⟨h.set h.1 (fun j _ _ => refl j) ?_,h.1,h.1,rfl⟩
    rintro _ p ⟨⟩
  | @env w he =>
    have hw := K.env_keeps _ _ h.1 he
    refine ⟨⟨hw,fun i call p ht => ?_⟩,h.1,hw,he⟩
    obtain ⟨hwho,hsafe⟩ := h.2 i call p ht
    exact ⟨hwho,safe_rely hsafe (K.env_frame i _ _ h.1 he)⟩

theorem Run.sound (K : M.Contract who inv logic post) (hr : M.Run c ms d)
    (h : Sound who inv logic post c) :
    Sound who inv logic post d ∧ ∀ m ∈ ms, M.Kept inv logic post m :=
  hr.inv h fun _ _ _ hi hs => hs.sound K hi

theorem Run.rest (K : M.Contract (fun _ => True) inv logic post) {P : Nat → W → Prop}
    (hpost : ∀ i call r w, post i call r w → P i w) (hP : ∀ i, Stable (logic i) (P i))
    (hr : M.Run (.idle w) ms c) (hw : inv w) (h0 : ∀ i, P i w)
    (hcrash : ∀ m ∈ ms, ∀ i call, m.event ≠ .crash i call) :
    ∀ i, c.thread i = none → P i c.world := by
  generalize hc : Config.idle w = c₀ at hr
  induction hr with
  | nil =>
    subst hc
    exact fun i _ => h0 i
  | @snoc d e ms m hr hs ih =>
    subst hc
    have ih := ih fun m hm => hcrash m (mem_append_left _ hm)
    have hsound := (hr.sound K (sound_idle hw)).1
    have hkept := (hs.sound K hsound).2
    intro i hi
    cases hs with
    | @start j call ht hb =>
      by_cases hij : i = j
      · subst hij
        simp [Config.set] at hi
      · exact ih i (by simpa [Config.set,update_of_ne hij] using hi)
    | @did j call op next x v ht ho =>
      by_cases hij : i = j
      · subst hij
        simp [Config.set] at hi
      · have hd := ih i (by simpa [Config.set,update_of_ne hij] using hi)
        refine hP i _ _ (K.frame i j op _ x v trivial trivial hij hsound.1 hkept.2.2.1 ho) hd
    | @finish j call r ht =>
      by_cases hij : i = j
      · subst hij
        exact hpost i call r _ hkept.2.2.1
      · exact ih i (by simpa [Config.set,update_of_ne hij] using hi)
    | @crash j call p ht =>
      exact absurd rfl (hcrash _ (mem_append_right _ (mem_singleton.2 rfl)) j call)
    | @env v he => exact hP i _ _ (K.env_frame i _ _ hsound.1 he) (ih i hi)

theorem Run.resting {P : Nat → W → Prop}
    (K : (M.starting fun i call w => M.begins i call w ∧ P i w).Contract (fun _ => True)
      inv logic post)
    (hpost : ∀ i call r w, post i call r w → P i w) (hP : ∀ i, Stable (logic i) (P i))
    (hr : M.Run (.idle w) ms c) (hw : inv w) (h0 : ∀ i, P i w)
    (hcrash : ∀ m ∈ ms, ∀ i call, m.event ≠ .crash i call) :
    (M.starting fun i call w => M.begins i call w ∧ P i w).Run (.idle w) ms c := by
  generalize hc : Config.idle w = c₀ at hr
  induction hr with
  | nil => exact Run.nil _
  | @snoc d e ms m hr hs ih =>
    subst hc
    have hcrash' : ∀ m ∈ ms, ∀ i call, m.event ≠ .crash i call :=
      fun m hm => hcrash m (mem_append_left _ hm)
    have ih := ih hcrash'
    refine ih.snoc ?_
    cases hs with
    | start ht hb => exact Step.start ht ⟨hb,ih.rest K hpost hP hw h0 hcrash' _ ht⟩
    | did ht ho => exact Step.did ht ho
    | finish ht => exact Step.finish ht
    | crash ht => exact Step.crash ht
    | env he => exact Step.env he

end

variable {L : Logic Op Ans W} {post : C → R → W → Prop} {i : Nat}

structure Follows (M : Machine C Op Ans W R) (i : Nat) (L : Logic Op Ans W)
    (post : C → R → W → Prop) : Prop where
  outcome : ∀ op w x w', M.outcome i op w x w' → L.outcome op w x w'
  opens : ∀ call w, M.begins i call w → Safe L (post call) (M.code call) w
  others : ∀ j op w x w', M.outcome j op w x w' → L.rely w w'
  env : ∀ w w', M.env w w' → L.rely w w'

def Followed (L : Logic Op Ans W) (post : C → R → W → Prop) (i : Nat) (m : Moment C Op Ans W R) :
    Prop :=
  match m.event with
  | .did j _ op _ => j = i → L.guar op m.before
  | .finish j call r => j = i → post call r m.before
  | _ => True

theorem Step.follow (F : M.Follows i L post) (hs : M.Step c m d)
    (h : ∀ call p, c.thread i = some (call,p) → Safe L (post call) p c.world) :
    (∀ call p, d.thread i = some (call,p) → Safe L (post call) p d.world) ∧
    Followed L post i m := by
  have keep {j} {t} {w} (hr : L.rely c.world w)
      (ht : j = i → ∀ call p, t = some (call,p) → Safe L (post call) p w) (call : C)
      (p : Program Op Ans R) (hp : (c.set j t w).thread i = some (call,p)) :
      Safe L (post call) p w := by
    by_cases hij : i = j
    · subst hij
      exact ht rfl call p (by simpa [Config.set] using hp)
    · refine safe_rely (h call p ?_) hr
      simpa [Config.set,update_of_ne hij] using hp
  cases hs with
  | @start j call ht hb =>
    refine ⟨keep (L.rely_refl _) fun hj call' p hp => ?_,trivial⟩
    cases hp
    exact F.opens call _ (hj ▸ hb)
  | @did j call op next x w ht ho =>
    refine ⟨keep (F.others j op _ x w ho) fun hj call' p hp => ?_,fun hj => ?_⟩
    · cases hp
      subst hj
      exact (h call _ ht _ (L.rely_refl _)).2 x w (F.outcome op _ x w ho)
    · subst hj
      exact (h call _ ht _ (L.rely_refl _)).1
  | @finish j call r ht =>
    refine ⟨keep (L.rely_refl _) fun _ _ _ hp => ?_,fun hj => ?_⟩
    · cases hp
    · subst hj
      exact h call _ ht _ (L.rely_refl _)
  | @crash j call p ht =>
    refine ⟨keep (L.rely_refl _) fun _ _ _ hp => ?_,trivial⟩
    cases hp
  | @env w he => exact ⟨fun call p ht => safe_rely (h call p ht) (F.env _ _ he),trivial⟩

theorem Run.follow (F : M.Follows i L post) (hr : M.Run c ms d)
    (h : ∀ call p, c.thread i = some (call,p) → Safe L (post call) p c.world) :
    ∀ m ∈ ms, Followed L post i m :=
  (hr.inv
    h fun _ _ _ hi hs => hs.follow F hi).2

end Machine

end Interaction
