import Mathlib.Data.Fintype.EquivFin
import TinyAgents.Harness.LoopPatterns

namespace Harness.PostCompactionGuard

open List

structure Call where
  signature : String
  outcome : String
  repeating : Bool

inductive Moment where
  | record (call : Call)
  | arm
  | reset

-- Beside the guard's state: the calls recorded, newest first, those the guard was armed with,
-- and the calls flagged since.
structure Watch where
  state : GuardState := {}
  recorded : List Call := []
  before : List Call := []
  flagged : List Call := []

variable (G : PostCompactionGuard) (H : Hashes)

def pair (x : Call) : UInt64 := H.hashPair x.signature x.outcome

def step (w : Watch) : Moment → Watch
  | .record x =>
    let r := G.record H w.state x.signature x.outcome x.repeating
    { w with
      state := r.2, recorded := x :: w.recorded
      flagged := if r.1 then x :: w.flagged else w.flagged }
  | .arm =>
    if G.window = 0 ∨ w.state.tail = [] then { w with state := G.arm w.state }
    else { w with state := G.arm w.state, before := w.recorded.take G.window, flagged := [] }
  | .reset => { w with state := {} }

def play (ms : List Moment) : Watch := ms.foldl (step G H) {}

structure Sound (w : Watch) : Prop where
  armed : ∀ t n, w.state.armed = some (t,n) → 0 < n ∧ w.state.tail = [] ∧ w.flagged = [] ∧
    t ⊆ w.before.map (pair H)
  tail : ∀ e ∈ w.state.tail, e.2 ≤ w.state.calls ∧ w.state.calls-e.2 < G.window ∧
    (w.recorded.map (pair H))[w.state.calls-e.2]? = some e.1
  sorted : w.state.tail.Pairwise (fun e f => e.2 ≤ f.2)
  once : w.flagged.length ≤ 1
  known : ∀ x ∈ w.flagged, pair H x ∈ w.before.map (pair H)

variable {G H} {w : Watch}

theorem not_of_mem_dropWhile {α : Type} {p : α → Bool} {l : List α} {e : α}
    (h : l.Pairwise fun a b => p b → p a) (he : e ∈ l.dropWhile p) : ¬ p e := by
  induction l with
  | nil => cases he
  | cons a l ih =>
    obtain ⟨hhead,htail⟩ := pairwise_cons.1 h
    rw [dropWhile_cons] at he
    split at he
    · exact ih htail he
    next ha =>
      obtain rfl | he := mem_cons.1 he
      · exact ha
      · exact fun hp => ha (hhead e he hp)

theorem Sound.aged (h : Sound G H w) (x : Call) {l}
    (hl : l <+ w.state.tail++[(pair H x,w.state.calls+1)]) :
    l.Pairwise (fun e f => e.2 ≤ f.2) ∧
    ∀ e ∈ l, e.2 ≤ w.state.calls+1 ∧ ((x :: w.recorded).map (pair H))[w.state.calls+1-e.2]? =
      some e.1 := by
  constructor
  · refine Pairwise.sublist hl (pairwise_append.2 ⟨h.sorted,pairwise_singleton ..,?_⟩)
    intro e he f hf
    obtain rfl := mem_singleton.1 hf
    exact Nat.le_succ_of_le (h.tail e he).1
  · intro e he
    obtain he | he := mem_append.1 (hl.subset he)
    · obtain ⟨hle,-,hx⟩ := h.tail e he
      rw [Nat.succ_sub hle]
      exact ⟨Nat.le_succ_of_le hle,hx⟩
    · obtain rfl := mem_singleton.1 he
      simp

theorem Sound.record (h : Sound G H w) (x : Call) : Sound G H (step G H w (.record x)) := by
  simp only [step,PostCompactionGuard.record]
  by_cases hw : G.window = 0
  · have hnil : w.state.tail = [] :=
      eq_nil_iff_forall_not_mem.2 fun e he => by have := (h.tail e he).2.1; omega
    simpa [hw] using ⟨h.armed,by simp [hnil],h.sorted,h.once,h.known⟩
  cases harmed : w.state.armed with
  | none =>
    simp only [hw,if_false]
    obtain ⟨hsorted,htail⟩ := h.aged x (l := if x.repeating then _ else _) (by
      split
      · exact Sublist.refl _
      · exact sublist_append_left ..)
    refine ⟨by simp,fun e he => ?_,hsorted.sublist (dropWhile_sublist _),h.once,h.known⟩
    have hnot := not_of_mem_dropWhile (hsorted.imp fun hle => by simp; omega) he
    obtain ⟨hle,hx⟩ := htail e ((dropWhile_sublist _).subset he)
    exact ⟨hle,by simpa using hnot,hx⟩
  | some a =>
    obtain ⟨t,n⟩ := a
    obtain ⟨hn,hnil,hflagged,ht⟩ := h.armed t n harmed
    simp only [hw,if_false]
    by_cases hp : H.hashPair x.signature x.outcome ∈ t
    · exact ⟨by simp [hp],by simp [hnil],by simp [hnil],by simp [hp,hflagged],
        by simpa [hp,hflagged,pair] using ht hp⟩
    · refine ⟨fun u k hk => ?_,by simp [hnil],by simp [hnil],by simp [hp,hflagged],
        by simp [hp,hflagged]⟩
      simp only [hp,decide_false,Bool.false_eq_true,false_or] at hk ⊢
      split at hk
      · cases hk
      · cases hk
        exact ⟨by omega,hnil,hflagged,ht⟩

theorem Sound.step (h : Sound G H w) (m : Moment) : Sound G H (step G H w m) := by
  cases m with
  | record x => exact h.record x
  | reset =>
    simp only [PostCompactionGuard.step]
    exact ⟨by simp,by simp,.nil,h.once,h.known⟩
  | arm =>
    simp only [PostCompactionGuard.step,PostCompactionGuard.arm]
    split
    · exact h
    · refine ⟨?_,by simp,.nil,by simp,by simp⟩
      rintro _ _ ⟨⟩
      refine ⟨by omega,rfl,rfl,fun k hk => ?_⟩
      obtain ⟨e,he,rfl⟩ := mem_map.1 hk
      obtain ⟨-,hlt,hx⟩ := h.tail e he
      rw [map_take]
      exact mem_of_getElem? ((getElem?_take_of_lt hlt).trans hx)

theorem sound_play (ms : List Moment) : Sound G H (play G H ms) := by
  induction ms using List.reverseRecOn with
  | nil => constructor <;> simp [play]
  | append_singleton ms m ih =>
    rw [play,foldl_concat]
    exact ih.step m

theorem flags_once_per_arming (ms : List Moment) :
    (∀ t n, (play G H ms).state.armed = some (t,n) → 0 < n) ∧ (play G H ms).flagged.length ≤ 1 ∧
    ∀ x ∈ (play G H ms).flagged, ∃ y ∈ (play G H ms).before, pair H y = pair H x := by
  have h := sound_play (G := G) (H := H) ms
  exact ⟨fun t n ha => (h.armed t n ha).1,h.once,fun x hx => by simpa using h.known x hx⟩

theorem colliding_call_flagged :
    ¬ ∃ H : Hashes, ∀ ms, ∀ x ∈ (play ⟨3⟩ H ms).flagged, ∃ y ∈ (play ⟨3⟩ H ms).before,
    y.signature = x.signature := by
  rintro ⟨H,h⟩
  obtain ⟨a,b,heq,hne⟩ := Function.not_injective_iff.1
    (not_injective_infinite_finite fun s => (H.hashPair s "").toFin)
  have heq := UInt64.toFin_inj.1 heq
  have hab := h [.record ⟨a,"",true⟩,.arm,.record ⟨b,"",true⟩] ⟨b,"",true⟩
  simp [play,PostCompactionGuard.step,PostCompactionGuard.record,PostCompactionGuard.arm,heq,
    hne] at hab

end Harness.PostCompactionGuard
