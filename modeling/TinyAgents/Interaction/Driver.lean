import TinyAgents.Interaction.Interleaving

namespace Interaction

open Option

inductive Choice (C : Type) where
  | start (i : Nat) (call : C)
  | act (i n : Nat)
  | fail (i : Nat)
  | complete (i fuel : Nat)
  | crash (i : Nat)
  | tick (t : Nat)

structure Driver (Op : Type) (Ans : Op → Type) (W : Type) where
  perform : Nat → (op : Op) → W → Option (Ans op × W)
  refuse : (op : Op) → Option (Ans op) := fun _ => none
  tick : Nat → W → W := fun _ w => w

namespace Driver

variable {C Op : Type} {Ans : Op → Type} {W R : Type}

abbrev Progress (C Op : Type) (Ans : Op → Type) (W R : Type) :=
  Option (List (Moment C Op Ans W R) × Config C Op Ans W R)

variable (D : Driver Op Ans W) (M : Machine C Op Ans W R)

def act (i : Nat) (c : Config C Op Ans W R) : Progress C Op Ans W R :=
  match c.thread i with
  | some (call,.ask op next) =>
    (D.perform i op c.world).map fun (x,w) =>
      ([⟨c.world,.did i call op x,w⟩],c.set i (some (call,next x)) w)
  | _ => none

def acts (D : Driver Op Ans W) (i : Nat) : Nat → Config C Op Ans W R → Progress C Op Ans W R
  | 0, c => some ([],c)
  | n+1, c => (D.act i c).bind fun (ms,d) => (D.acts i n d).map fun (ns,e) => (ms++ns,e)

def complete (D : Driver Op Ans W) (i : Nat) : Nat → Config C Op Ans W R → Progress C Op Ans W R
  | 0, _ => none
  | n+1, c =>
    match c.thread i with
    | some (call,.ret r) => some ([⟨c.world,.finish i call r,c.world⟩],c.set i none c.world)
    | _ => (D.act i c).bind fun (ms,d) => (D.complete i n d).map fun (ns,e) => (ms++ns,e)

def choose (c : Config C Op Ans W R) : Choice C → Progress C Op Ans W R
  | .start i call =>
    match c.thread i with
    | none => some ([⟨c.world,.start i call,c.world⟩],
        c.set i (some (call,M.code call)) c.world)
    | some _ => none
  | .act i n => D.acts i n c
  | .fail i =>
    match c.thread i with
    | some (call,.ask op next) => (D.refuse op).map fun x =>
      ([⟨c.world,.did i call op x,c.world⟩],c.set i (some (call,next x)) c.world)
    | _ => none
  | .complete i fuel => D.complete i fuel c
  | .crash i =>
    match c.thread i with
    | some (call,_) => some ([⟨c.world,.crash i call,c.world⟩],c.set i none c.world)
    | none => none
  | .tick t => some ([⟨c.world,.env,D.tick t c.world⟩],{ c with world := D.tick t c.world })

def drive (D : Driver Op Ans W) (M : Machine C Op Ans W R) :
    List (Choice C) → Config C Op Ans W R → Progress C Op Ans W R
  | [], c => some ([],c)
  | choice :: choices, c =>
    (D.choose M c choice).bind fun (ms,d) =>
      (D.drive M choices d).map fun (ns,e) => (ms++ns,e)

structure Fits : Prop where
  perform : ∀ i op w x w', D.perform i op w = some (x,w') → M.outcome i op w x w'
  refuse : ∀ i op w x, D.refuse op = some x → M.outcome i op w x w := by
    intro _ _ _ _ h
    cases h
  tick : ∀ t w, M.env w (D.tick t w) := by exact fun _ _ => rfl
  begins : ∀ i call w, M.begins i call w := by exact fun _ _ _ => trivial

variable {D : Driver Op Ans W} {M : Machine C Op Ans W R} {i : Nat}

section

variable (F : D.Fits M)

include F

theorem act_run {c d} {ms} (h : D.act i c = some (ms,d)) : M.Run c ms d := by
  unfold act at h
  split at h
  next op next ht =>
    obtain ⟨⟨x,w⟩,hx,he⟩ := map_eq_some_iff.1 h
    cases he
    exact Machine.Run.single (.did ht (F.perform i op _ x w hx))
  · cases h

theorem acts_run {n : Nat} {c d} {ms} (h : D.acts i n c = some (ms,d)) : M.Run c ms d := by
  induction n generalizing c ms with
  | zero =>
    cases h
    exact .nil _
  | succ _ ih =>
    obtain ⟨⟨_,_⟩,h1,h⟩ := bind_eq_some_iff.1 h
    obtain ⟨⟨_,_⟩,h2,he⟩ := map_eq_some_iff.1 h
    cases he
    exact (act_run F h1).trans (ih h2)

theorem complete_run {n : Nat} {c d} {ms} (h : D.complete i n c = some (ms,d)) : M.Run c ms d := by
  induction n generalizing c ms with
  | zero => cases h
  | succ _ ih =>
    unfold complete at h
    split at h
    next r ht =>
      cases h
      exact Machine.Run.single (.finish ht)
    · obtain ⟨⟨_,_⟩,h1,h⟩ := bind_eq_some_iff.1 h
      obtain ⟨⟨_,_⟩,h2,he⟩ := map_eq_some_iff.1 h
      cases he
      exact (act_run F h1).trans (ih h2)

theorem choose_run {choice : Choice C} {c d} {ms} (h : D.choose M c choice = some (ms,d)) :
    M.Run c ms d := by
  cases choice with
  | start i call =>
    simp only [choose] at h
    split at h
    next ht =>
      cases h
      exact Machine.Run.single (.start ht (F.begins i call _))
    · cases h
  | act => exact acts_run F h
  | fail i =>
    simp only [choose] at h
    split at h
    next call op next ht =>
      obtain ⟨x,hx,he⟩ := map_eq_some_iff.1 h
      cases he
      exact Machine.Run.single (.did ht (F.refuse i op _ x hx))
    · cases h
  | complete => exact complete_run F h
  | crash =>
    simp only [choose] at h
    split at h
    next call p ht =>
      cases h
      exact Machine.Run.single (.crash ht)
    · cases h
  | tick t =>
    cases h
    exact Machine.Run.single (.env (F.tick t _))

theorem drive_run {choices} {c d} {ms} (h : D.drive M choices c = some (ms,d)) : M.Run c ms d := by
  induction choices generalizing c ms with
  | nil =>
    cases h
    exact .nil _
  | cons _ _ ih =>
    obtain ⟨⟨_,_⟩,h1,h⟩ := bind_eq_some_iff.1 h
    obtain ⟨⟨_,_⟩,h2,he⟩ := map_eq_some_iff.1 h
    cases he
    exact (choose_run F h1).trans (ih h2)

theorem drive_any (choices : List (Choice C)) (c : Config C Op Ans W R)
    (P : List (Moment C Op Ans W R) → Config C Op Ans W R → Prop) [∀ ms d, Decidable (P ms d)]
    (h : (D.drive M choices c).any (fun x => P x.1 x.2)) : ∃ ms d, M.Run c ms d ∧ P ms d := by
  obtain ⟨⟨ms,d⟩,hd,h⟩ := (any_eq_true _ _).1 h
  exact ⟨ms,d,drive_run F hd,of_decide_eq_true h⟩

theorem drive_starting (begins : Nat → C → W → Prop) [∀ i call w, Decidable (begins i call w)]
    (choices : List (Choice C)) (c : Config C Op Ans W R)
    (P : List (Moment C Op Ans W R) → Config C Op Ans W R → Prop) [∀ ms d, Decidable (P ms d)]
    (h : (D.drive M choices c).any
      (fun x => (∀ m ∈ x.1, ∀ s ∈ m.started, begins s.1 s.2 m.before) ∧ P x.1 x.2)) :
    ∃ ms d, (M.starting begins).Run c ms d ∧ P ms d := by
  obtain ⟨ms,d,hr,hs,h⟩ := drive_any F choices c
    (fun ms d => (∀ m ∈ ms, ∀ s ∈ m.started, begins s.1 s.2 m.before) ∧ P ms d) h
  exact ⟨ms,d,hr.starting hs,h⟩

end

end Driver

variable {C Op : Type} {Ans : Op → Type} {W R : Type}

instance [DecidableEq C] [DecidableEq R] {i : Nat} {call : C} {r : R} :
    ∀ e : Event C Op Ans R, Decidable (e = .finish i call r)
  | .finish j c s => decidable_of_iff (j = i ∧ c = call ∧ s = r) (by simp)
  | .start .. | .did .. | .crash .. | .env => isFalse nofun

instance : ∀ e : Event C Op Ans R, Decidable (∀ i call, e ≠ .crash i call)
  | .crash i call => isFalse fun h => h i call rfl
  | .start .. | .did .. | .finish .. | .env => isTrue fun _ _ => nofun

end Interaction
