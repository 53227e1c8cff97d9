import Mathlib.Data.List.Basic

namespace Interaction

-- An object that is called by one caller at a time and answers each call.
structure Recorder (S I O : Type) where
  init : S
  step : S → I → O × S

namespace Recorder

variable {S I O : Type}

def play (C : Recorder S I O) : List I → List (I × O) × S
  | [] => ([],C.init)
  | i :: calls =>
    let (trail,s) := C.play calls
    let (o,s') := C.step s i
    ((i,o) :: trail,s')

theorem play_inv {C : Recorder S I O} {P : List (I × O) → S → Prop} (h : P [] C.init)
    (hs : ∀ t s i, P t s → P ((i,(C.step s i).1) :: t) (C.step s i).2) (calls : List I) :
    P (C.play calls).1 (C.play calls).2 := by
  induction calls with
  | nil => exact h
  | cons i _ ih => exact hs _ _ i ih

end Recorder

variable {E : Type}

def since (p : E → Bool) (t : List E) : List E :=
  t.takeWhile fun e => !p e

section

variable {p : E → Bool} {e : E} {t : List E}

theorem since_cons_of_pos (h : p e) : since p (e :: t) = [] := by
  simp [since,h]

theorem since_cons_of_neg (h : p e = false) : since p (e :: t) = e :: since p t := by
  simp [since,h]

end

def Always (Q : E → List E → Prop) (t : List E) : Prop :=
  ∀ e past, e :: past <:+ t → Q e past

theorem always_nil {Q : E → List E → Prop} : Always Q [] := by
  intro e _ h
  simp at h

theorem always_cons {Q} {e : E} {t : List E} : Always Q (e :: t) ↔ Q e t ∧ Always Q t := by
  constructor
  · intro h
    exact ⟨h e t (List.suffix_refl _),fun e' past hp => h e' past (hp.trans (List.suffix_cons e t))⟩
  rintro ⟨he,ht⟩ e' past hp
  rcases List.suffix_cons_iff.1 hp with heq | hp
  · cases heq
    exact he
  · exact ht e' past hp

end Interaction
