import Mathlib.Data.Option.Basic

namespace Interaction

structure Versioned (T : Type) where
  doc : T
  version : Nat

inductive Precondition where
  | absent
  | version (v : Nat)

-- One document under optimistic locking: a version is given out once.
structure Cell (T : Type) where
  current : Option (Versioned T)
  next : Nat
  fresh : ∀ x ∈ current, x.version < next

namespace Cell

variable {T : Type} {c d e : Cell T}

def empty : Cell T := ⟨none,0,by simp⟩

def doc (c : Cell T) : Option T :=
  c.current.map Versioned.doc

def Meets (c : Cell T) : Precondition → Prop
  | .absent => c.current = none
  | .version v => ∃ x ∈ c.current, x.version = v

instance (c : Cell T) (p : Precondition) : Decidable (c.Meets p) :=
  match p with
  | .absent => decidable_of_iff (c.current.isNone = true) Option.isNone_iff_eq_none
  | .version _ => inferInstanceAs (Decidable (∃ x ∈ c.current, _))

def write (c : Cell T) (doc : T) : Cell T where
  current := some ⟨doc,c.next⟩
  next := c.next+1
  fresh := by simp

def delete (c : Cell T) : Cell T where
  current := none
  next := c.next
  fresh := by simp

@[simp] theorem doc_write (c : Cell T) (doc : T) : (c.write doc).doc = some doc := rfl

def condition : Option (Versioned T) → Precondition
  | none => .absent
  | some x => .version x.version

structure Later (c d : Cell T) : Prop where
  next : c.next ≤ d.next
  same : ∀ x ∈ d.current, x.version < c.next → x ∈ c.current

theorem later_refl : Later c c :=
  ⟨Nat.le_refl _,fun _ hx _ => hx⟩

theorem Later.trans (h : Later c d) (k : Later d e) : Later c e where
  next := Nat.le_trans h.next k.next
  same := fun x hx hv => h.same x (k.same x hx (Nat.lt_of_lt_of_le hv h.next)) hv

theorem later_write {doc : T} : Later c (c.write doc) where
  next := Nat.le_succ _
  same := by
    rintro x ⟨⟩ hv
    exact (Nat.lt_irrefl _ hv).elim

theorem doc_of_meets (h : Later c d) (hm : d.Meets (condition c.current)) : d.doc = c.doc := by
  unfold condition at hm
  split at hm
  next hc =>
    have hd : d.current = none := hm
    rw [doc,doc,hc,hd]
  next x hc =>
    obtain ⟨y,hy,hv⟩ := hm
    have hx : x ∈ c.current := hc
    have hyc := h.same y hy (by rw [hv]; exact c.fresh x hx)
    rw [doc,doc,Option.mem_def.1 hy,Option.mem_def.1 hyc]

end Cell

end Interaction
