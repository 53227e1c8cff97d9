import Mathlib.Algebra.GroupWithZero.Nat
import Mathlib.Data.List.Nodup
import Mathlib.Data.Option.Basic

namespace Interaction

open List

structure Table {V K : Type} (key : V → K) where
  entries : List V
  nodup : (entries.map key).Nodup

namespace Table

variable {V K : Type} [DecidableEq K] {key : V → K}

def empty : Table key := ⟨[],by simp⟩

variable (t : Table key)

def get (k : K) : Option V :=
  t.entries.find? (fun v => key v = k)

def insert (v : V) : Table key where
  entries := v :: t.entries.filter (fun u => key u ≠ key v)
  nodup := by
    refine nodup_cons.2 ⟨?_,t.nodup.sublist (filter_sublist.map key)⟩
    simp

def retain (keep : V → Bool) : Table key where
  entries := t.entries.filter keep
  nodup := t.nodup.sublist (filter_sublist.map key)

def insertAll (l : List V) : Table key :=
  l.foldl insert t

variable {k : K} {l : List V} {t u : Table key} {v : V} {R : V → V → Prop}

theorem get_eq_some : t.get k = some v ↔ v ∈ t.entries ∧ key v = k := by
  constructor
  · intro h
    exact ⟨mem_of_find?_eq_some h,by simpa using List.find?_some h⟩
  rintro ⟨hv,rfl⟩
  cases hu : t.get (key v) with
  | none => simpa using List.find?_eq_none.1 hu v hv
  | some u =>
    have hm := mem_of_find?_eq_some hu
    have hk : key u = key v := by simpa using List.find?_some hu
    rw [inj_on_of_nodup_map t.nodup hm hv hk]

theorem key_of_get (h : t.get k = some v) : key v = k :=
  (get_eq_some.1 h).2

theorem get_insert (t : Table key) (v : V) (k : K) :
    (t.insert v).get k = if key v = k then some v else t.get k := by
  simp only [get,insert,List.find?_cons]
  by_cases hk : key v = k
  · simp [hk]
  rw [if_neg hk,decide_eq_false hk]
  simp only [List.find?_filter]
  congr 1
  funext u
  by_cases hu : key u = k
  · simp [hu,Ne.symm hk]
  · simp [hu]

@[simp] theorem get_insert_self (t : Table key) (v : V) : (t.insert v).get (key v) = some v := by
  simp [get_insert]

theorem get_insert_ne (h : key v ≠ k) : (t.insert v).get k = t.get k := by
  simp [get_insert,h]

theorem get_retain (t : Table key) (keep : V → Bool) (k : K) :
    (t.retain keep).get k = (t.get k).filter keep := by
  apply Option.ext
  intro v
  rw [get_eq_some,Option.filter_eq_some_iff,get_eq_some]
  simp only [retain,mem_filter]
  tauto

theorem get_insertAll_of_notMem :
    ∀ {t : Table key}, (∀ v ∈ l, key v ≠ k) → (t.insertAll l).get k = t.get k := by
  induction l with
  | nil => exact fun _ => rfl
  | cons v _ ih =>
    intro t h
    have hrest := ih (t := t.insert v) (fun u hu => h u (mem_cons_of_mem v hu))
    exact hrest.trans (get_insert_ne (h v mem_cons_self))

theorem get_insertAll_of_mem :
    ∀ {t : Table key}, (l.map key).Nodup → v ∈ l → (t.insertAll l).get (key v) = some v := by
  induction l with
  | nil => simp
  | cons _ _ ih =>
    intro t hn hv
    obtain ⟨hu,hn⟩ := nodup_cons.1 hn
    rcases mem_cons.1 hv with rfl | hv
    · have h := get_insertAll_of_notMem (t := t.insert v) (k := key v)
        (fun x hx he => hu (he ▸ mem_map_of_mem hx))
      exact h.trans (get_insert_self t v)
    · exact ih hn hv

theorem get_insertAll_of_perm {s : Table key} (hl : l.Perm s.entries) (k : K) :
    (t.insertAll l).get k = (s.get k).or (t.get k) := by
  have hn : (l.map key).Nodup := (hl.map key).nodup_iff.2 s.nodup
  cases hk : s.get k with
  | none =>
    refine get_insertAll_of_notMem fun v hv he => ?_
    simpa [he] using List.find?_eq_none.1 hk v (hl.mem_iff.1 hv)
  | some =>
    obtain ⟨hv,rfl⟩ := get_eq_some.1 hk
    exact get_insertAll_of_mem hn (hl.mem_iff.2 hv)

def Related (R : V → V → Prop) (t u : Table key) : Prop :=
  ∀ k, Option.Rel R (t.get k) (u.get k)

theorem related_refl (hR : ∀ v, R v v) : Related R t t := by
  intro k
  cases t.get k with
  | none => exact .none
  | some v => exact .some (hR v)

theorem Related.left (h : Related R t u) (hv : t.get k = some v) :
    ∃ v', u.get k = some v' ∧ R v v' := by
  have hk := h k
  rw [hv] at hk
  cases hu : u.get k with
  | none =>
    rw [hu] at hk
    cases hk
  | some v' =>
    rw [hu] at hk
    cases hk with
    | some hr => exact ⟨v',rfl,hr⟩

theorem Related.right (h : Related R t u) {v' : V} (hv : u.get k = some v') :
    ∃ v, t.get k = some v ∧ R v v' := by
  cases ht : t.get k with
  | none =>
    have hk := h k
    rw [ht,hv] at hk
    cases hk
  | some v =>
    obtain ⟨_,hu,hr⟩ := h.left ht
    rw [hv] at hu
    cases hu
    exact ⟨v,rfl,hr⟩

theorem Related.insert {v' : V} (h : Related R t u) (hv : R v v') (hk : key v' = key v) :
    Related R (t.insert v) (u.insert v') := by
  intro k
  rw [get_insert,get_insert,hk]
  split
  · exact .some hv
  · exact h k

end Table

abbrev Map (K V : Type) := Table (Prod.fst : K × V → K)

namespace Map

variable {K V : Type} [DecidableEq K] (m : Map K V) (k : K)

def lookup : Option V :=
  (m.get k).map Prod.snd

def put (v : V) : Map K V :=
  m.insert (k,v)

def remove : Map K V :=
  m.retain fun e => e.1 ≠ k

theorem lookup_eq_some {m : Map K V} {k : K} {v : V} : m.lookup k = some v ↔ (k,v) ∈ m.entries := by
  constructor
  · intro h
    obtain ⟨⟨_,_⟩,hg,rfl⟩ := Option.map_eq_some_iff.1 h
    obtain ⟨hm,rfl⟩ := Table.get_eq_some.1 hg
    exact hm
  · intro h
    exact Option.map_eq_some_iff.2 ⟨(k,v),Table.get_eq_some.2 ⟨h,rfl⟩,rfl⟩

@[simp] theorem lookup_empty : lookup (Table.empty : Map K V) k = none := rfl

theorem lookup_put (v : V) (k' : K) :
    (m.put k v).lookup k' = if k = k' then some v else m.lookup k' := by
  rw [lookup,put,Table.get_insert]
  split <;> rfl

@[simp] theorem lookup_put_self (v : V) : (m.put k v).lookup k = some v := by
  simp [lookup_put]

theorem lookup_remove (k k' : K) :
    (m.remove k).lookup k' = if k' = k then none else m.lookup k' := by
  rw [lookup,remove,Table.get_retain]
  cases hg : m.get k' with
  | none => simp [lookup,hg]
  | some e =>
    obtain ⟨a,v⟩ := e
    obtain rfl : a = k' := Table.key_of_get hg
    by_cases hk : a = k <;> simp [lookup,hg,hk]

end Map

end Interaction
