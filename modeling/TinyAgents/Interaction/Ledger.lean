import Mathlib.Logic.Function.Basic
import Mathlib.Data.List.Induction

namespace Interaction

abbrev Ledger (E : Type) := Nat → Option E

namespace Ledger

variable {E F : Type} {log log' log'' : Ledger E} {n : Nat} {e : E}

def Reaches (log : Ledger E) (n : Nat) : Prop :=
  ∀ k < n, (log k).isSome

def Gapless (log : Ledger E) : Prop :=
  ∀ n, (log n).isSome → log.Reaches n

def Grows (log log' : Ledger E) : Prop :=
  ∀ n e, log n = some e → log' n = some e

def put (log : Ledger E) (n : Nat) (e : E) : Ledger E :=
  Function.update log n (some e)

inductive Listing (log : Ledger E) : Nat → List (Nat × E) → Prop
  | nil (n : Nat) : Listing log n []
  | cons {n k : Nat} {e : E} {rest : List (Nat × E)} : n ≤ k → log k = some e →
      (∀ j, n ≤ j → j < k → log j = none) → Listing log (k+1) rest → Listing log n ((k,e) :: rest)

def Seen (saw : E → F → Prop) (log : Ledger E) (es : List F) : Prop :=
  ∀ k f, es[k]? = some f → ∃ e, log k = some e ∧ saw e f

theorem grows_refl : Grows log log :=
  fun _ _ h => h

theorem Grows.trans (h : Grows log log') (k : Grows log' log'') : Grows log log'' :=
  fun n e he => k n e (h n e he)

theorem grows_put (h : log n = none) (e : E) : Grows log (log.put n e) := by
  intro k f hk
  have hne : k ≠ n := by
    rintro rfl
    rw [h] at hk
    cases hk
  simpa [put,Function.update_of_ne hne] using hk

@[simp] theorem put_self (log : Ledger E) (n : Nat) (e : E) : log.put n e n = some e := by
  simp [put]

variable {k : Nat}

theorem put_of_ne (h : k ≠ n) (e : E) : log.put n e k = log k := by
  simp [put,h]

theorem Reaches.grows (h : log.Reaches n) (hg : Grows log log') : log'.Reaches n := by
  intro k hk
  obtain ⟨e,he⟩ := Option.isSome_iff_exists.1 (h k hk)
  rw [hg k e he]
  rfl

theorem Reaches.mono (h : log.Reaches n) (hk : k ≤ n) : log.Reaches k :=
  fun j hj => h j (Nat.lt_of_lt_of_le hj hk)

theorem Reaches.le_of_none (h : log.Reaches n) (hk : log k = none) : n ≤ k := by
  by_contra hlt
  have hs := h k (Nat.lt_of_not_le hlt)
  rw [hk] at hs
  cases hs

theorem Gapless.eq_none (h : log.Gapless) (hn : log n = none) (hk : n ≤ k) : log k = none := by
  rcases Nat.eq_or_lt_of_le hk with rfl | hlt
  · exact hn
  by_contra hs
  have hr := h k (Option.isSome_iff_ne_none.2 hs) n hlt
  rw [hn] at hr
  cases hr

theorem Gapless.put (h : log.Gapless) (hr : log.Reaches n) (hn : log n = none) (e : E) :
    (log.put n e).Gapless := by
  intro k hk
  have hle : k ≤ n := by
    by_contra hlt
    have hne : k ≠ n := by omega
    rw [put_of_ne hne,h.eq_none hn (by omega)] at hk
    cases hk
  exact (hr.mono hle).grows (grows_put hn e)

theorem Gapless.listing (h : log.Gapless) {rest} (hl : Listing log n ((k,e) :: rest)) :
    k = n ∧ log n = some e ∧ Listing log (n+1) rest := by
  cases hl with
  | cons hle hk hgap hrest =>
    rcases Nat.eq_or_lt_of_le hle with rfl | hlt
    · exact ⟨rfl,hk,hrest⟩
    have hs := h k (by rw [hk]; rfl) n hlt
    rw [hgap n (Nat.le_refl n) hlt] at hs
    cases hs

variable {saw saw' : E → F → Prop} {es : List F} {f : F}

theorem Seen.grows (h : Seen saw log es) (hg : Grows log log') : Seen saw log' es := by
  intro k f hf
  obtain ⟨e,he,hs⟩ := h k f hf
  exact ⟨e,hg k e he,hs⟩

theorem Seen.mono (h : Seen saw log es) (hs : ∀ e f, saw e f → saw' e f) : Seen saw' log es := by
  intro k f hf
  obtain ⟨e,he,hsaw⟩ := h k f hf
  exact ⟨e,he,hs e f hsaw⟩

theorem Seen.snoc (h : Seen saw log es) (he : log es.length = some e) (hs : saw e f) :
    Seen saw log (es ++ [f]) := by
  intro k g hg
  rcases Nat.lt_trichotomy k es.length with hk | rfl | hk
  · rw [List.getElem?_append_left hk] at hg
    exact h k g hg
  · rw [List.getElem?_concat_length] at hg
    cases hg
    exact ⟨e,he,hs⟩
  · rw [List.getElem?_eq_none (by simp; omega)] at hg
    cases hg

theorem Seen.reaches (h : Seen saw log es) : log.Reaches es.length := by
  intro k hk
  obtain ⟨e,he,-⟩ := h k es[k] (List.getElem?_eq_getElem hk)
  rw [he]
  rfl

end Ledger

end Interaction
