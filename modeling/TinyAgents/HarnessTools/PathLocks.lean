import Mathlib.Data.DFinsupp.WellFounded

namespace HarnessTools.PathLocks

open List Function

variable {K : Type}

inductive Call (K : Type) where
  | applyPatch (paths : List String) (canonicalize : String → Option K)
  | editFile (resolved : K)

def Call.locks : Call K → List K
  | .applyPatch paths canonicalize => paths.eraseDups.filterMap canonicalize
  | .editFile resolved => [resolved]

-- How many of its locks each call has taken.
abbrev Taken (calls : List (Call K)) := Fin calls.length → Nat

variable {calls : List (Call K)}

def held (s : Taken calls) (i : Fin calls.length) : List K := (calls.get i).locks.take (s i)

def wanted (s : Taken calls) (i : Fin calls.length) : Option K := (calls.get i).locks[s i]?

-- A call that ends, or is dropped, gives all its locks back.
inductive Step (s : Taken calls) : Taken calls → Prop where
  | acquire (i k) (hk : wanted s i = some k) (free : ∀ j, k ∉ held s j) :
      Step s (Function.update s i (s i+1))
  | release (i) : Step s (Function.update s i 0)

def Reachable (s : Taken calls) : Prop := Relation.ReflTransGen Step (fun _ => 0) s

def Waits (s : Taken calls) (i j : Fin calls.length) : Prop := ∃ k ∈ wanted s i, k ∈ held s j

def Deadlocked (s : Taken calls) : Prop := ∃ i, Relation.TransGen (Waits s) i i

structure Allotted (s : Taken calls) : Prop where
  within : ∀ i, s i ≤ (calls.get i).locks.length
  once : ∀ i, (held s i).Nodup
  apart : ∀ i j, i ≠ j → ∀ k ∈ held s i, k ∉ held s j

variable {s s' : Taken calls} {i : Fin calls.length}

theorem held_update (n : Nat) (j : Fin calls.length) :
    held (Function.update s i n) j = if j = i then (calls.get i).locks.take n else held s j := by
  unfold held
  split
  next h => rw [h,update_self]
  next h => rw [update_of_ne h]

theorem Allotted.update {n : Nat} (h : Allotted s) (hn : n ≤ (calls.get i).locks.length)
    (hd : ((calls.get i).locks.take n).Nodup)
    (ha : ∀ j, j ≠ i → ∀ k ∈ (calls.get i).locks.take n, k ∉ held s j) :
    Allotted (Function.update s i n) := by
  refine ⟨fun j => ?_,fun j => ?_,fun j k hjk => ?_⟩
  · by_cases hj : j = i
    · rwa [hj,update_self]
    · rw [update_of_ne hj]
      exact h.within j
  · rw [held_update]
    split
    · exact hd
    · exact h.once j
  · rw [held_update,held_update]
    split <;> split
    next hj hk => exact absurd (hj.trans hk.symm) hjk
    next hj hk => exact ha k hk
    next hj hk => exact fun l hl hl' => ha j hj l hl' hl
    · exact h.apart j k hjk

theorem take_succ {k : K} (h : wanted s i = some k) :
    (calls.get i).locks.take (s i+1) = held s i++[k] := by
  rw [List.take_add_one,show (calls.get i).locks[s i]? = some k from h]
  rfl

theorem Allotted.step (h : Allotted s) (hs : Step s s') : Allotted s' := by
  cases hs with
  | acquire i k hk free =>
    refine h.update (List.getElem?_eq_some_iff.1 hk).1 ?_ fun j hj => ?_
    · rw [take_succ hk]
      exact nodup_append_comm.1 (nodup_cons.2 ⟨free i,h.once i⟩)
    · rw [take_succ hk]
      exact forall_mem_append.2 ⟨h.apart i j (Ne.symm hj),forall_mem_singleton.2 (free j)⟩
  | release i => exact h.update (Nat.zero_le _) (by simp) (by simp)

theorem allotted_of_reachable (h : Reachable s) : Allotted s := by
  induction h with
  | refl => exact ⟨fun _ => Nat.zero_le _,by simp [held],by simp [held]⟩
  | tail _ hs ih => exact ih.step hs

theorem Allotted.back {m : Nat} (h : Allotted s) (hm : s i = m+1) :
    Allotted (Function.update s i m) ∧ Step (Function.update s i m) s := by
  have hlt : m < (calls.get i).locks.length := Nat.lt_of_lt_of_le (by omega) (h.within i)
  have hk : wanted (Function.update s i m) i = some (calls.get i).locks[m] := by
    rw [wanted,update_self]
    exact getElem?_eq_getElem hlt
  have hheld : held s i = (calls.get i).locks.take m++[(calls.get i).locks[m]] := by
    rw [held,hm,take_append_getElem]
  have honce := h.once i
  rw [hheld] at honce
  have hapart j (hj : j ≠ i) := hheld ▸ h.apart i j (Ne.symm hj)
  constructor
  · exact h.update (Nat.le_of_lt hlt) (nodup_append.1 honce).1
      fun j hj => (forall_mem_append.1 (hapart j hj)).1
  · have hstep := Step.acquire i _ hk fun j => ?_
    · rwa [update_self,update_idem,← hm,update_eq_self] at hstep
    · rw [held_update]
      split
      · exact (nodup_cons.1 (nodup_append_comm.1 honce)).1
      next hj => exact (forall_mem_append.1 (hapart j hj)).2 _ (mem_singleton_self _)

theorem reachable_of_allotted (h : Allotted s) : Reachable s := by
  induction s using WellFoundedLT.induction with
  | ind s ih =>
    by_cases hs : ∀ i, s i = 0
    · obtain rfl : s = fun _ => 0 := funext hs
      exact .refl
    · obtain ⟨i,hi⟩ := not_forall.1 hs
      obtain ⟨m,hm⟩ := Nat.exists_eq_succ_of_ne_zero hi
      obtain ⟨hprev,hstep⟩ := h.back hm
      exact .tail (ih _ (update_lt_self_iff.2 (by omega)) hprev) hstep

theorem no_deadlock_iff (calls : List (Call K)) :
    (∀ s : Taken calls, Reachable s → ¬ Deadlocked s) ↔
    ∀ s : Taken calls, Allotted s → ¬ Deadlocked s :=
  ⟨fun h s hs => h s (reachable_of_allotted hs),fun h s hs => h s (allotted_of_reachable hs)⟩

def patch (paths : List String) : Call String :=
  .applyPatch paths fun path => if path = "./a" then some "a" else some path

-- Two patches over two files in opposite orders, and one patch that names a file twice.
theorem patches_deadlock :
    (∃ s : Taken [patch ["a","b"],patch ["b","a"]], Reachable s ∧ Deadlocked s) ∧
      ∃ s : Taken [patch ["a","./a"]], Reachable s ∧ Deadlocked s := by
  refine ⟨⟨fun _ => 1,reachable_of_allotted ?_,0,.tail (.single (b := 1) ?_) ?_⟩,
    fun _ => 1,reachable_of_allotted ?_,0,.single ?_⟩
  · constructor <;> decide
  · exact ⟨"b",rfl,by decide⟩
  · exact ⟨"a",rfl,by decide⟩
  · constructor <;> decide
  · exact ⟨"a",rfl,by decide⟩

def wantedRank (rank : K → Nat) (s : Taken calls) (i : Fin calls.length) : WithTop Nat :=
  (wanted s i).map rank

theorem Waits.rank_lt {rank : K → Nat} (h : ∀ c ∈ calls, (c.locks.map rank).Pairwise (· < ·)) {j}
    (hw : Waits s i j) : wantedRank rank s i < wantedRank rank s j := by
  obtain ⟨k,hk,hkj⟩ := hw
  unfold wantedRank
  rw [show wanted s i = some k from hk]
  cases hl : wanted s j with
  | none => exact WithTop.coe_lt_top _
  | some l =>
    have hp := (pairwise_map.1 (h _ (get_mem _ j))).sublist (take_sublist (s j+1) _)
    rw [take_succ hl] at hp
    exact WithTop.coe_lt_coe.2 ((pairwise_append.1 hp).2.2 k hkj l (mem_singleton_self _))

theorem no_deadlock_of_order (rank : K → Nat) (h : ∀ c ∈ calls, (c.locks.map rank).Pairwise (· < ·))
    (s : Taken calls) : ¬ Deadlocked s := by
  rintro ⟨i,hw⟩
  have hlt := hw.lift (wantedRank rank s) fun _ _ => Waits.rank_lt h
  rw [Relation.transGen_eq_self] at hlt
  exact lt_irrefl _ hlt

theorem no_deadlock_of_order_patches :
    ¬ Deadlocked (fun _ => 1 : Taken [patch ["a","bb"],patch ["bb","ccc"]]) :=
  no_deadlock_of_order String.length (by decide) _

end HarnessTools.PathLocks
