import Mathlib.Data.List.Infix
import TinyAgents.Interaction.Table

namespace Interaction

open List

section

variable {K : Type}

abbrev Holds (K : Type) := Map Nat (K × Bool)

def Compatible (h : Holds K) : Prop :=
  ∀ i j k b c, i ≠ j → h.lookup i = some (k,b) → h.lookup j = some (k,c) → b = false ∧ c = false

def Free (h : Holds K) (i : Nat) (k : K) (b : Bool) : Prop :=
  ∀ j c, j ≠ i → h.lookup j = some (k,c) → b = false ∧ c = false

variable {h : Holds K} {i : Nat}

theorem free_iff {k : K} {b : Bool} :
    Free h i k b ↔ ∀ e ∈ h.entries, e.1 = i ∨ e.2.1 ≠ k ∨ b = false ∧ e.2.2 = false := by
  constructor
  · rintro hf ⟨j,k',c⟩ he
    by_cases hj : j = i
    · exact .inl hj
    by_cases hk : k' = k
    · subst hk
      exact .inr (.inr (hf j c hj (Map.lookup_eq_some.2 he)))
    · exact .inr (.inl hk)
  · intro hf j c hj hl
    obtain hi | hk | hb := hf _ (Map.lookup_eq_some.1 hl)
    · exact absurd hi hj
    · exact absurd rfl hk
    · exact hb

instance [DecidableEq K] {k : K} {b : Bool} : Decidable (Free h i k b) :=
  decidable_of_iff _ free_iff.symm

theorem compatible_empty : Compatible (Table.empty : Holds K) := by
  intro i j k b c _ hi
  cases hi

theorem Compatible.acquire {k : K} {b : Bool} (hc : Compatible h) (hf : Free h i k b) :
    Compatible (h.put i (k,b)) := by
  intro j j' k' c c' hne hj hj'
  rw [Map.lookup_put] at hj hj'
  split at hj
  next hi =>
    subst hi
    cases hj
    rw [if_neg hne] at hj'
    exact hf j' c' hne.symm hj'
  next hi =>
    split at hj'
    next hi' =>
      subst hi'
      cases hj'
      exact (hf j c hne hj).symm
    · exact hc j j' k' c c' hne hj hj'

theorem Compatible.release (hc : Compatible h) (i : Nat) : Compatible (h.remove i) := by
  intro j j' k c c' hne hj hj'
  rw [Map.lookup_remove] at hj hj'
  split at hj
  · cases hj
  split at hj'
  · cases hj'
  · exact hc j j' k c c' hne hj hj'

end

variable {α : Type}

theorem prefix_or_prefix {as bs : List α} (h : ∀ p x y, p++[x] <+: as → p++[y] <+: bs → x = y) :
    as <+: bs ∨ bs <+: as := by
  induction as generalizing bs with
  | nil => exact .inl nil_prefix
  | cons a _ ih =>
    cases bs with
    | nil => exact .inr nil_prefix
    | cons b =>
      obtain rfl : a = b := h [] a b (by simp) (by simp)
      have hrest := ih fun p x y hx hy => h (a :: p) x y (by simpa using hx) (by simpa using hy)
      simpa [cons_prefix_cons] using hrest

theorem suffix_or_suffix {as bs : List α} (h : ∀ q x y, x :: q <:+ as → y :: q <:+ bs → x = y) :
    as <:+ bs ∨ bs <:+ as := by
  rw [← reverse_prefix,← reverse_prefix]
  refine prefix_or_prefix fun p x y hx hy => h p.reverse x y ?_ ?_
  · rw [← reverse_prefix]
    simpa using hx
  · rw [← reverse_prefix]
    simpa using hy

end Interaction
