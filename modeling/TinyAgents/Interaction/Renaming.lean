import Mathlib.Data.List.Nodup
import Mathlib.Data.List.Perm.Subperm

namespace Interaction

open List Option

variable {α : Type}

section

variable [DecidableEq α]

def seek (used : List α) (candidate : Nat → α) : Nat → Nat → Option Nat
  | 0, _ => none
  | fuel+1, n => if candidate n ∈ used then seek used candidate fuel (n+1) else some n

variable {used : List α} {candidate : Nat → α} {fuel n : Nat}

theorem seek_spec {m : Nat} (h : seek used candidate fuel n = some m) :
    candidate m ∉ used ∧ m < n+fuel := by
  induction fuel generalizing n with
  | zero => cases h
  | succ _ ih =>
    rw [seek] at h
    split at h
    · obtain ⟨hm,_⟩ := ih h
      exact ⟨hm,by omega⟩
    · cases h
      exact ⟨by assumption,by omega⟩

theorem seek_eq_none (h : seek used candidate fuel n = none) :
    ∀ m ∈ List.range' n fuel, candidate m ∈ used := by
  induction fuel generalizing n with
  | zero => exact nofun
  | succ _ ih =>
    rw [seek] at h
    split at h
    · exact forall_mem_cons.2 ⟨by assumption,ih h⟩
    · cases h

theorem seek_isSome (hinj : ∀ i j, 0 < i → 0 < j → candidate i = candidate j → i = j)
    (hfuel : used.length+1 < fuel) : (seek used candidate fuel 0).isSome := by
  obtain ⟨fuel,rfl⟩ : ∃ k, fuel = k+1 := ⟨fuel-1,by omega⟩
  rw [isSome_iff_ne_none]
  intro hnone
  have hmem := (forall_mem_cons.1 (seek_eq_none hnone)).2
  have hnodup : ((List.range' 1 fuel).map candidate).Nodup := by
    refine List.Nodup.map_on (fun i hi j hj => ?_) nodup_range'
    exact hinj i j (mem_range'_1.1 hi).1 (mem_range'_1.1 hj).1
  have hsub : (List.range' 1 fuel).map candidate ⊆ used := forall_mem_map.2 hmem
  have hlen := (hnodup.subperm hsub).length_le
  rw [length_map,length_range'] at hlen
  omega

end

structure Renaming (α : Type) where
  used : List α := []
  names : List (α × α) := []

def Renaming.rename [DecidableEq α] (r : Renaming α) (key : α) : α := (r.names.lookup key).getD key

def assign (fresh : α → List α → Option α) : List (Bool × α) → Renaming α → Option (Renaming α)
  | [], r => some r
  | (false,key) :: keys, r => assign fresh keys { r with used := key :: r.used }
  | (true,key) :: keys, r => do
    let name ← fresh key r.used
    assign fresh keys ⟨name :: r.used,(key,name) :: r.names⟩

variable {fresh : α → List α → Option α} {keys : List (Bool × α)} {r r' : Renaming α}

theorem assign_append (more : List (Bool × α)) :
    assign fresh (keys++more) r = (assign fresh keys r).bind (assign fresh more) := by
  induction keys generalizing r with
  | nil => rfl
  | cons key _ ih =>
    obtain ⟨_ | _,key⟩ := key
    · exact ih
    · simp only [cons_append,assign,bind_eq_bind,bind_assoc,ih]

theorem assign_isSome (hfresh : ∀ key used, (fresh key used).isSome) :
    (assign fresh keys r).isSome := by
  induction keys generalizing r with
  | nil => rfl
  | cons key _ ih =>
    obtain ⟨_ | _,key⟩ := key
    · exact ih
    obtain ⟨_,hname⟩ := isSome_iff_exists.1 (hfresh key r.used)
    rw [assign,hname]
    exact ih

variable [DecidableEq α] {key : α}

-- A fresh name avoids what is in use; it clashes with a key that is kept later.
def clashes (fresh : α → List α → Option α) : List (Bool × α) → List α → Bool
  | [], _ => false
  | (false,key) :: keys, used => clashes fresh keys (key :: used)
  | (true,key) :: keys, used =>
    match fresh key used with
    | none => false
    | some name => keys.contains (false,name) || clashes fresh keys (name :: used)

theorem assign_rename (h : assign fresh keys r = some r') (hk : (true,key) ∉ keys) :
    r'.rename key = r.rename key := by
  induction keys generalizing r with
  | nil =>
    cases h
    rfl
  | cons first _ ih =>
    obtain ⟨_ | _,first⟩ := first
    · have hrest := ih h fun hm => hk (mem_cons_of_mem _ hm)
      exact hrest
    obtain ⟨_,-,h⟩ := bind_eq_some_iff.1 h
    have hne : (key == first) = false := beq_false_of_ne fun he => hk (he ▸ mem_cons_self)
    rw [ih h fun hm => hk (mem_cons_of_mem _ hm),Renaming.rename,lookup_cons,hne]
    rfl

omit [DecidableEq α] in
theorem marked_once (hnd : (keys.map Prod.snd).Nodup) (hf : (false,key) ∈ keys) :
    (true,key) ∉ keys := fun ht => by
  cases inj_on_of_nodup_map hnd ht hf rfl

section

variable (hfresh : ∀ key used name, fresh key used = some name → name ∉ used)

include hfresh

theorem rename_notMem_used (hnd : (keys.map Prod.snd).Nodup) (h : assign fresh keys r = some r')
    (hk : (true,key) ∈ keys) : r'.rename key ∉ r.used := by
  induction keys generalizing r with
  | nil => cases hk
  | cons first keys ih =>
    obtain ⟨_ | _,first⟩ := first
    · have hk : (true,key) ∈ keys := by simpa using hk
      exact fun hm => ih (nodup_cons.1 hnd).2 h hk (mem_cons_of_mem _ hm)
    obtain ⟨hfirst,hnd⟩ := nodup_cons.1 hnd
    obtain ⟨name,hname,h⟩ := bind_eq_some_iff.1 h
    rcases mem_cons.1 hk with hk | hk
    · cases hk
      rw [assign_rename h fun hm => hfirst (List.mem_map_of_mem hm)]
      simpa [Renaming.rename] using hfresh _ _ _ hname
    · exact fun hm => ih hnd h hk (mem_cons_of_mem _ hm)

theorem mem_renamed_iff (hnd : (keys.map Prod.snd).Nodup) (h : assign fresh keys r = some r')
    (hr : ∀ key ∈ keys.map Prod.snd, r.rename key = key) {x : α} (hx : x ∈ r.used) :
    x ∈ (keys.map Prod.snd).map r'.rename ↔ (false,x) ∈ keys := by
  have hkept {key : α} (hf : (false,key) ∈ keys) : r'.rename key = key :=
    (assign_rename h (marked_once hnd hf)).trans (hr key (List.mem_map_of_mem hf))
  constructor
  · intro hm
    obtain ⟨_,hkey,rfl⟩ := List.mem_map.1 hm
    obtain ⟨⟨_ | _,key⟩,hk,rfl⟩ := List.mem_map.1 hkey
    · rwa [hkept hk]
    · exact absurd hx (rename_notMem_used hfresh hnd h hk)
  · intro hf
    exact List.mem_map.2 ⟨x,mem_map_of_mem hf,hkept hf⟩

theorem renamed_nodup_iff (hnd : (keys.map Prod.snd).Nodup) (h : assign fresh keys r = some r')
    (hr : ∀ key ∈ keys.map Prod.snd, r.rename key = key) :
    ((keys.map Prod.snd).map r'.rename).Nodup ↔ clashes fresh keys r.used = false := by
  induction keys generalizing r with
  | nil => simp [clashes]
  | cons first keys ih =>
    obtain ⟨_ | _,first⟩ := first <;> obtain ⟨hfirst,hnd⟩ := nodup_cons.1 hnd <;>
      obtain ⟨hself,hr⟩ := forall_mem_cons.1 hr
    · have h : assign fresh keys { r with used := first :: r.used } = some r' := h
      have hkept : r'.rename first = first :=
        (assign_rename h fun hm => hfirst (List.mem_map.2 ⟨_,hm,rfl⟩)).trans hself
      rw [map_cons,map_cons,nodup_cons,ih hnd h hr,clashes]
      refine and_iff_right ?_
      rw [hkept,mem_renamed_iff hfresh hnd h hr mem_cons_self]
      exact fun hm => hfirst (List.mem_map_of_mem hm)
    · obtain ⟨name,hname,h⟩ := bind_eq_some_iff.1 h
      have hminted : r'.rename first = name := by
        rw [assign_rename h fun hm => hfirst (List.mem_map_of_mem hm)]
        simp [Renaming.rename]
      have hr' : ∀ key ∈ keys.map Prod.snd,
          Renaming.rename ⟨name :: r.used,(first,name) :: r.names⟩ key = key := by
        intro key hk
        have hne : (key == first) = false := beq_false_of_ne fun he => hfirst (he ▸ hk)
        rw [Renaming.rename,lookup_cons,hne]
        exact hr key hk
      rw [map_cons,map_cons,nodup_cons,ih hnd h hr',hminted,
        mem_renamed_iff hfresh hnd h hr' mem_cons_self,clashes,hname]
      simp

end

end Interaction
