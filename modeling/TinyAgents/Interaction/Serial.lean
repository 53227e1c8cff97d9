import Mathlib.Data.List.Perm.Subperm
import TinyAgents.Interaction.Executions

namespace Interaction

open List

variable {C Op : Type} {Ans : Op → Type} {W R S A B α β ε : Type}

section

-- A program judged by what it makes of its own answers, among those it may get.
def tracing (able : (op : Op) → Ans op → Prop) (f : (op : Op) → Ans op → S → S) : Logic Op Ans S :=
  alone (fun op s x s' => able op x ∧ s' = f op x s) fun _ _ => True

def gather (point : (op : Op) → Ans op → Option A) (op : Op) (x : Ans op) (l : List A) : List A :=
  l++(point op x).toList

variable {able : (op : Op) → Ans op → Prop} {f : (op : Op) → Ans op → S → S} {s : S} {op : Op}
  {p : Program Op Ans α} {Q : α → S → Prop}

theorem tracing_lift {Q : Except ε α → S → Prop} {next : Ans op → Fallible Op Ans ε α}
    (h : ∀ x, able op x → Safe (tracing able f) Q (next x).run (f op x s)) :
    Safe (tracing able f) Q (ExceptT.lift (Program.perform op) >>= next).run s :=
  alone_lift trivial fun x _ ⟨ha,he⟩ => he ▸ h x ha

theorem tracing_recorded {A : Exchange Op Ans W → Prop} {s0 : S}
    (hA : ∀ e, A e → able e.op e.answer) (h : Safe (tracing able f) Q p s0) :
    Safe (recording A) (fun a es => Q a (es.foldr (fun e => f e.op e.answer) s0)) p [] := by
  have general : ∀ {p : Program Op Ans α} {es : List (Exchange Op Ans W)},
      Safe (tracing able f) Q p (es.foldr (fun e => f e.op e.answer) s0) →
      Safe (recording A) (fun a es => Q a (es.foldr (fun e => f e.op e.answer) s0)) p es := by
    intro p
    induction p with
    | ret => exact fun h => recording_ret (h _ rfl)
    | ask _ _ ih =>
      exact fun h => recording_ask fun w x _ ha => ih x ((h _ rfl).2 x _ ⟨hA _ ha,rfl⟩)
  exact general h

def tracked (able : (op : Op) → Ans op → Prop) (guar : Op → Prop) (f : (op : Op) → Ans op → S → S) :
    Logic Op Ans S :=
  alone (fun op s x s' => able op x ∧ s' = f op x s) fun op _ => guar op

variable {guar : Op → Prop}

theorem tracked_lift {Q : Except ε α → S → Prop} {next : Ans op → Fallible Op Ans ε α}
    (hg : guar op) (h : ∀ x, able op x → Safe (tracked able guar f) Q (next x).run (f op x s)) :
    Safe (tracked able guar f) Q (ExceptT.lift (Program.perform op) >>= next).run s :=
  alone_lift hg fun x _ ⟨ha,he⟩ => he ▸ h x ha

theorem tracked_asked {Q} (hg : guar op) (h : ∀ x, able op x → Q x (f op x s)) :
    Safe (tracked able guar f) Q (Program.perform op) s :=
  alone_ask hg fun x _ ⟨ha,he⟩ => alone_ret (he ▸ h x ha)

theorem tracked_then {P : Except ε α → S → Prop} {Q : Except ε β → S → Prop}
    {p : Fallible Op Ans ε α} {next : α → Fallible Op Ans ε β}
    (hp : Safe (tracked able guar f) P p.run s) (he : ∀ e s, P (.error e) s → Q (.error e) s)
    (h : ∀ a s, P (.ok a) s → Safe (tracked able guar f) Q (next a).run s) :
    Safe (tracked able guar f) Q (p >>= next).run s :=
  alone_then hp he h

theorem tracked_heeds (h : Safe (tracked able guar f) Q p s) : Heeds able guar p := by
  induction p generalizing s with
  | ret => trivial
  | ask _ _ ih => exact ⟨(h s rfl).1,fun x hx => ih x ((h s rfl).2 x _ ⟨hx,rfl⟩)⟩

theorem tracing_of_tracked (h : Safe (tracked able guar f) Q p s) :
    Safe (tracing able f) Q p s := by
  induction p generalizing s with
  | ret => exact h
  | ask _ _ ih => exact fun s' hs => ⟨trivial,fun x t hx => ih x ((h s' hs).2 x t hx)⟩

theorem tracked_tracing {T : Type} {g : S → T} {f'} (hf : ∀ op x s, g (f op x s) = f' op x (g s))
    (h : Safe (tracked able guar f) Q p s) :
    Safe (tracing able f') (fun a t => ∃ s, t = g s ∧ Q a s) p (g s) := by
  induction p generalizing s with
  | ret =>
    rintro _ rfl
    exact ⟨s,rfl,h s rfl⟩
  | ask _ _ ih =>
    rintro _ rfl
    refine ⟨trivial,?_⟩
    rintro x _ ⟨hx,rfl⟩
    rw [← hf]
    exact ih x ((h s rfl).2 x _ ⟨hx,rfl⟩)

end

section

variable (point : C → (op : Op) → Ans op → Option A) (result : R → Option B)

def Moment.effect (m : Moment C Op Ans W R) : Option (Nat × C × A) :=
  match m.event with
  | .did i call op x => (point call op x).map fun a => (i,call,a)
  | _ => none

variable {point} in
theorem Moment.effect_eq_some {m : Moment C Op Ans W R} {i : Nat} {call : C} {a : A}
    (h : m.effect point = some (i,call,a)) :
    ∃ op x, m.event = .did i call op x ∧ point call op x = some a := by
  unfold Moment.effect at h
  split at h
  next j _ op x he =>
    obtain ⟨_,ha,heq⟩ := Option.map_eq_some_iff.1 h
    cases heq
    exact ⟨op,x,he,ha⟩
  · cases h

variable (ms : List (Moment C Op Ans W R)) (m : Moment C Op Ans W R)

theorem Moment.effect_cases :
    (∃ i call op x, m.event = .did i call op x) ∨ (∀ i call op x, m.event ≠ .did i call op x) ∧
    m.effect point = none := by
  obtain ⟨_,event,_⟩ := m
  cases event with
  | did i call op x => exact .inl ⟨i,call,op,x,rfl⟩
  | start | finish | crash | env => exact .inr ⟨by simp,rfl⟩

def Moment.reply : Option (Nat × C × B) :=
  match m.event with
  | .finish i call r => (result r).map fun b => (i,call,b)
  | _ => none

def serial : List (Nat × C × A) :=
  ms.filterMap (Moment.effect point)

def answered : List (Nat × C × B) :=
  ms.filterMap (Moment.reply result)

def only {E : Type} (i : Nat) (l : List (Nat × E)) : List E :=
  l.filterMap fun e => if e.1 = i then some e.2 else none

theorem only_append {E : Type} (i : Nat) (l l' : List (Nat × E)) :
    only i (l++l') = only i l++only i l' :=
  filterMap_append

theorem serial_snoc : serial point (ms++[m]) = serial point ms++(m.effect point).toList := by
  rw [serial,filterMap_append]
  cases hm : m.effect point <;> simp [serial,hm]

theorem answered_snoc :
    answered result (ms++[m]) = answered result ms++(m.reply result).toList := by
  rw [answered,filterMap_append]
  cases hm : m.reply result <;> simp [answered,hm]

end

section

variable {M : Machine C Op Ans W R} {point : C → (op : Op) → Ans op → Option A}
  {result : R → Option B} {note : C → A → B} {able : (op : Op) → Ans op → Prop}

def Underway (able : (op : Op) → Ans op → Prop) (point : C → (op : Op) → Ans op → Option A)
    (Q : C → R → List A → Prop) (t : Option (C × Program Op Ans R)) (l : List (C × A)) : Prop :=
  match t with
  | none => l = []
  | some (call,p) => ∃ as, l = as.map (fun a => (call,a)) ∧
      Safe (tracing able (gather (point call))) (Q call) p as

def Matched (note : C → A → B) (result : R → Option B) (call : C) (r : R) (l : List A) : Prop :=
  l.map (note call) = (result r).toList

variable (able point result note) in
def Placed (i : Nat) (ms : List (Moment C Op Ans W R)) (c : Config C Op Ans W R) : Prop :=
  ∃ done underway, only i (serial point ms) = done++underway ∧
    done.map (fun e => (e.1,note e.1 e.2)) = only i (answered result ms) ∧
    Underway able point (Matched note result) (c.thread i) underway

variable {c : Config C Op Ans W R} {ms : List (Moment C Op Ans W R)} {i : Nat}

theorem Placed.skip {m} {d} (h : Placed point result note able i ms c)
    (hp : only i (m.effect point).toList = []) (ha : only i (m.reply result).toList = [])
    (ht : d.thread i = c.thread i) : Placed point result note able i (ms++[m]) d := by
  obtain ⟨done,underway,hs,hd,hu⟩ := h
  refine ⟨done,underway,?_,?_,by rw [ht]; exact hu⟩
  · rw [serial_snoc,only_append,hp,append_nil,hs]
  · rw [answered_snoc,only_append,ha,append_nil,hd]

theorem only_map_of_ne {E F : Type} {j : Nat} (h : j ≠ i) {x : Option F} {g : F → E} :
    only i (x.map fun a => (j,g a)).toList = [] := by
  cases x <;> simp [only,h]

section

variable (hable : ∀ i op w x w', M.outcome i op w x w' → able op x) (hp : ∀ call,
  Safe (tracing able (gather (point call))) (Matched note result call) (M.code call) [])

include hable hp

theorem Placed.step {m} {d} (h : Placed point result note able i ms c) (hs : M.Step c m d)
    (hcrash : ∀ j call, m.event ≠ .crash j call) : Placed point result note able i (ms++[m]) d := by
  have frame {j} {t} {w} (hj : j ≠ i) : (c.set j t w).thread i = c.thread i := by
    simp [Config.set,Function.update_of_ne (Ne.symm hj)]
  cases hs with
  | @start j call ht hb =>
    by_cases hj : j = i
    · subst hj
      obtain ⟨done,underway,hs,hd,hu⟩ := h
      rw [ht] at hu
      refine ⟨done,[],?_,?_,?_⟩
      · rw [serial_snoc,only_append,hs,show underway = [] from hu]
        exact append_nil _
      · rw [answered_snoc,only_append,hd]
        exact (append_nil _).symm
      · simp only [Config.set,Function.update_self]
        exact ⟨[],rfl,hp call⟩
    · exact h.skip rfl rfl (frame hj)
  | @did j call op next x w ht ho =>
    by_cases hj : j = i
    · subst hj
      obtain ⟨done,_,hs,hd,hu⟩ := h
      rw [ht] at hu
      obtain ⟨as,rfl,hpass⟩ := hu
      refine ⟨done,(as++(point call op x).toList).map (fun a => (call,a)),?_,?_,?_⟩
      · rw [serial_snoc,only_append,hs,append_assoc,map_append]
        congr 2
        cases hx : point call op x <;> simp [Moment.effect,hx,only]
      · rw [answered_snoc,only_append,hd]
        exact (append_nil _).symm
      · simp only [Config.set,Function.update_self]
        exact ⟨_,rfl,(hpass as rfl).2 x _ ⟨hable j op _ x w ho,rfl⟩⟩
    · exact h.skip (only_map_of_ne hj) rfl (frame hj)
  | @finish j call r ht =>
    by_cases hj : j = i
    · subst hj
      obtain ⟨done,_,hs,hd,hu⟩ := h
      rw [ht] at hu
      obtain ⟨as,rfl,hpass⟩ := hu
      have hm : as.map (note call) = (result r).toList := hpass as rfl
      refine ⟨done++as.map (fun a => (call,a)),[],?_,?_,?_⟩
      · rw [serial_snoc,only_append,hs,append_nil]
        exact append_nil _
      · rw [answered_snoc,only_append,← hd,map_append,map_map]
        congr 1
        have hc : as.map (fun a => (call,note call a)) =
            (as.map (note call)).map fun b => (call,b) := by
          rw [map_map]
          rfl
        refine hc.trans ?_
        rw [hm]
        cases hr : result r <;> simp [Moment.reply,hr,only]
      · simp only [Config.set,Function.update_self]
        rfl
    · exact h.skip rfl (only_map_of_ne hj) (frame hj)
  | @crash j call p ht => exact absurd rfl (hcrash j call)
  | env => exact h.skip rfl rfl rfl

theorem Machine.Run.placed {w : W} (h : M.Run (.idle w) ms c)
    (hcrash : ∀ m ∈ ms, ∀ j call, m.event ≠ .crash j call) (i : Nat) :
    Placed point result note able i ms c := by
  generalize hc : Config.idle w = c0 at h
  induction h with
  | nil =>
    subst hc
    exact ⟨[],[],rfl,rfl,rfl⟩
  | snoc _ hs ih =>
    refine (ih fun m hm => hcrash m (mem_append_left _ hm)).step hable hp hs ?_
    exact hcrash _ (mem_append_right _ (mem_singleton.2 rfl))

end

end

section

variable {E : Type}

theorem count_only [DecidableEq E] (i : Nat) (e : E) (l : List (Nat × E)) :
    (only i l).count e = l.count (i,e) := by
  induction l with
  | nil => rfl
  | cons x _ ih =>
    obtain ⟨j,x⟩ := x
    rw [only] at ih ⊢
    by_cases hj : j = i
    · subst hj
      by_cases hx : x = e
      all_goals simp [hx,ih]
    · simp [hj,ih]

theorem subperm_of_only {l l' : List (Nat × E)} (h : ∀ i, (only i l).Sublist (only i l')) :
    l.Subperm l' := by
  classical
  refine subperm_ext_iff.2 fun x _ => ?_
  obtain ⟨i,e⟩ := x
  rw [← count_only,← count_only]
  exact (h i).count_le e

theorem tracing_none {able : (op : Op) → Ans op → Prop} {p : Program Op Ans α} :
    Safe (tracing able (gather fun _ _ => (none : Option A))) (fun _ l => l = []) p [] := by
  induction p with
  | ret =>
    rintro _ rfl
    rfl
  | ask _ _ ih =>
    rintro _ rfl
    refine ⟨trivial,?_⟩
    rintro x _ ⟨-,rfl⟩
    exact ih x

theorem pairwise_of_split {P} :
    ∀ {l : List E}, (∀ before x between y after, l = before++x :: (between++y :: after) → P x y) →
    l.Pairwise P := by
  intro l
  induction l with
  | nil => exact fun _ => .nil
  | cons x _ ih =>
    intro h
    refine .cons (fun y hy => ?_) (ih fun before z between y after hl => ?_)
    · obtain ⟨between,after,rfl⟩ := append_of_mem hy
      exact h [] x between y after rfl
    · exact h (x :: before) z between y after (by rw [hl,cons_append])

theorem Machine.Run.once {M : Machine C Op Ans W R} {f : Moment C Op Ans W R → Option E}
    {c d : Config C Op Ans W R} {ms : List (Moment C Op Ans W R)} (h : M.Run c ms d)
    (flag : W → Bool) (h0 : flag c.world = false)
    (hraise : ∀ m ∈ ms, ∀ e, f m = some e → flag m.before = false ∧ flag m.after)
    (hkeep : ∀ m ∈ ms, f m = none → flag m.after = flag m.before) :
    (ms.filterMap f).length = (flag d.world).toNat := by
  refine h.history (P := fun ns w => (ns.filterMap f).length = (flag w).toNat) (by simp [h0]) ?_
  intro _ m hm hp
  rw [filterMap_append,length_append,hp]
  cases hf : f m with
  | none => simp [hf,hkeep m hm hf]
  | some e =>
    obtain ⟨hb,ha⟩ := hraise m hm e hf
    simp [hf,hb,ha]

end

def Replies (serve : S → C → A × S) : S → List (C × A) → S → Prop
  | s, [], s' => s' = s
  | s, (call,a) :: rest, s' => (serve s call).1 = a ∧ Replies serve (serve s call).2 rest s'

variable {serve : S → C → A × S} {s s' : S}

theorem Replies.snoc {l} {call : C} {a : A} (h : Replies serve s l s')
    (ha : (serve s' call).1 = a) : Replies serve s (l++[(call,a)]) (serve s' call).2 := by
  induction l generalizing s with
  | nil =>
    cases h
    exact ⟨ha,rfl⟩
  | cons _ _ ih => exact ⟨h.1,ih h.2⟩

theorem Replies.split {l l'} (h : Replies serve s (l++l') s') :
    ∃ t, Replies serve s l t ∧ Replies serve t l' s' := by
  induction l generalizing s with
  | nil => exact ⟨s,rfl,h⟩
  | cons _ _ ih =>
    obtain ⟨t,ht,h'⟩ := ih h.2
    exact ⟨t,⟨h.1,ht⟩,h'⟩

theorem Machine.Run.replies {M : Machine C Op Ans W R} {point : C → (op : Op) → Ans op → Option A}
    (view : W → S) {c d : Config C Op Ans W R} {ms : List (Moment C Op Ans W R)} (h : M.Run c ms d)
    (hpoint : ∀ m ∈ ms, ∀ i call a, m.effect point = some (i,call,a) →
      (serve (view m.before) call) = (a,view m.after))
    (hquiet : ∀ m ∈ ms, m.effect point = none → view m.after = view m.before) :
    Replies serve (view c.world) ((serial point ms).map Prod.snd) (view d.world) := by
  refine h.history (P := fun ns w =>
    Replies serve (view c.world) ((serial point ns).map Prod.snd) (view w)) rfl ?_
  intro _ m hm hr
  rw [serial_snoc,map_append]
  cases hp : m.effect point with
  | none =>
    rw [hquiet m hm hp]
    simpa using hr
  | some e =>
    obtain ⟨i,call,a⟩ := e
    have hserve := hpoint m hm i call a hp
    have ha : (serve (view m.before) call).1 = a := by rw [hserve]
    have hsnoc := hr.snoc ha
    rw [hserve] at hsnoc
    exact hsnoc

end Interaction
