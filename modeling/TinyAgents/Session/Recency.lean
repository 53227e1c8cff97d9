import TinyAgents.Session.Settling

namespace Session.TurnStates

open Std Ordering

variable {B : Type} (support : Support B)

def newestFirst (a b : TurnState) : Ordering :=
  (compareRfc3339 support b.startedAt a.startedAt).then
    (compareRfc3339 support b.updatedAt a.updatedAt)

-- A text that is no timestamp stands, as a text, between two that are.
def Between (x y z : String) : Prop :=
  (support.parseRfc3339 x).isSome ∧ support.parseRfc3339 y = none ∧
    (support.parseRfc3339 z).isSome ∧ compare x y = .lt ∧ compare y z = .lt

def order (f g : TurnState → String) (a b : TurnState) : Ordering :=
  (compareRfc3339 support (f a) (f b)).then (compareRfc3339 support (g a) (g b))

def Agrees (f g : TurnState → String) (S : Set TurnState) : Prop :=
  ∀ a ∈ S, ∀ b ∈ S, ∀ c ∈ S,
    (Between support (f a) (f b) (f c) → order support f g a c = .lt) ∧
    (compareRfc3339 support (f a) (f b) = .eq → compareRfc3339 support (f b) (f c) = .eq →
      compareRfc3339 support (f a) (f c) = .eq → Between support (g a) (g b) (g c) →
        compareRfc3339 support (g a) (g c) = .lt)

variable {x y z : String}

theorem compare_lt_or (h : support.parseRfc3339 x ≠ support.parseRfc3339 y) :
    compare x y = .lt ∨ compare y x = .lt := by
  cases hc : compare x y with
  | lt => exact .inl rfl
  | eq => exact absurd (congrArg _ (LawfulEqOrd.eq_of_compare hc)) h
  | gt => exact .inr (OrientedCmp.lt_of_gt hc)

theorem compare_lt_of_isLE (h : support.parseRfc3339 x ≠ support.parseRfc3339 y)
    (hle : (compare x y).isLE) : compare x y = .lt :=
  (compare_lt_or support h).resolve_right fun hlt => by simp [OrientedCmp.gt_of_lt hlt] at hle

variable {support}

theorem isLE_cases {α : Type} {cmp} [TransCmp cmp] {x y z : α}
    (hxy : (cmp x y).isLE) (hyz : (cmp y z).isLE) :
    cmp x z = .lt ∨ cmp x z = .eq ∧ cmp x y = .eq ∧ cmp y z = .eq := by
  obtain hxy | hxy := isLE_iff_eq_lt_or_eq_eq.mp hxy
  · exact .inl (TransCmp.lt_of_lt_of_isLE hxy hyz)
  · obtain hyz | hyz := isLE_iff_eq_lt_or_eq_eq.mp hyz
    · exact .inl (TransCmp.lt_of_eq_of_lt hxy hyz)
    · exact .inr ⟨TransCmp.eq_trans hxy hyz,hxy,hyz⟩

theorem compareRfc3339_swap : compareRfc3339 support x y = (compareRfc3339 support y x).swap := by
  unfold compareRfc3339
  cases support.parseRfc3339 x <;> cases support.parseRfc3339 y <;> exact OrientedOrd.eq_swap

-- Where two of three texts are timestamps, the third may stand between them in the wrong order.
theorem compareRfc3339_cases (hxy : (compareRfc3339 support x y).isLE)
    (hyz : (compareRfc3339 support y z).isLE) :
    (Between support x y z ∨ Between support y z x ∨ Between support z x y) ∨
    compareRfc3339 support x z = .lt ∨ compareRfc3339 support x z = .eq ∧
    compareRfc3339 support x y = .eq ∧ compareRfc3339 support y z = .eq := by
  have hlt {x y} := compare_lt_of_isLE support (x := x) (y := y)
  have hor := compare_lt_or support (x := x) (y := z)
  cases hx : support.parseRfc3339 x <;> cases hy : support.parseRfc3339 y <;>
    cases hz : support.parseRfc3339 z <;> simp only [compareRfc3339,Between,hx,hy,hz] at hxy hyz ⊢
  case none.some.some =>
    have hxy := hlt (by simp [hx,hy]) hxy
    obtain h | h := hor (by simp [hx,hz])
    · exact .inr (.inl h)
    · exact .inl (.inr (.inr ⟨rfl,trivial,rfl,h,hxy⟩))
  case some.none.some =>
    exact .inl (.inl ⟨rfl,trivial,rfl,hlt (by simp [hx,hy]) hxy,hlt (by simp [hy,hz]) hyz⟩)
  case some.some.none =>
    have hyz := hlt (by simp [hy,hz]) hyz
    obtain h | h := hor (by simp [hx,hz])
    · exact .inr (.inl h)
    · exact .inl (.inr (.inl ⟨rfl,trivial,rfl,hyz,h⟩))
  all_goals exact .inr (isLE_cases hxy hyz)

theorem compareRfc3339_between (h : Between support x y z) :
    compareRfc3339 support x y = .lt ∧ compareRfc3339 support y z = .lt := by
  obtain ⟨hx,hy,hz,hxy,hyz⟩ := h
  simp [compareRfc3339,hy,hxy,hyz]

variable {f g : TurnState → String} {S : Set TurnState} {a b c : TurnState}

theorem order_swap : order support f g a b = (order support f g b a).swap := by
  rw [order,order,swap_then,← compareRfc3339_swap,← compareRfc3339_swap]

theorem order_not_lt (h : (order support f g a b).isLE) : order support f g b a ≠ .lt := by
  intro hlt
  simp [order_swap (a := a),hlt] at h

theorem order_isLE_trans (h : Agrees support f g S) (ha : a ∈ S) (hb : b ∈ S) (hc : c ∈ S)
    (hab : (order support f g a b).isLE) (hbc : (order support f g b c).isLE) :
    (order support f g a c).isLE := by
  have hleab := isLE_then_iff_and.mp hab
  have hlebc := isLE_then_iff_and.mp hbc
  obtain (hf | hf | hf) | hf | ⟨hac,hfab,hfbc⟩ := compareRfc3339_cases hleab.1 hlebc.1
  · simp [(h a ha b hb c hc).1 hf]
  · exact absurd ((h b hb c hc a ha).1 hf) (order_not_lt hab)
  · exact absurd ((h c hc a ha b hb).1 hf) (order_not_lt hbc)
  · simp [order,hf]
  · have hgab := hleab.2.resolve_left (by simp [hfab])
    have hgbc := hlebc.2.resolve_left (by simp [hfbc])
    have hfba := compareRfc3339_swap.trans (congrArg Ordering.swap hfab)
    have hfca := compareRfc3339_swap.trans (congrArg Ordering.swap hac)
    have hfcb := compareRfc3339_swap.trans (congrArg Ordering.swap hfbc)
    rw [order,hac,eq_then]
    obtain (hg | hg | hg) | hg | hg := compareRfc3339_cases hgab hgbc
    · simp [(h a ha b hb c hc).2 hfab hfbc hac hg]
    · have hlt := (h b hb c hc a ha).2 hfbc hfca hfba hg
      simp [compareRfc3339_swap (x := g a),hlt] at hgab
    · have hlt := (h c hc a ha b hb).2 hfca hfab hfcb hg
      simp [compareRfc3339_swap (x := g b),hlt] at hgbc
    · simp [hg]
    · simp [hg.1]

theorem transCmp_order_iff :
    TransCmp (fun a b : {a // a ∈ S} => order support f g a b) ↔ Agrees support f g S := by
  constructor
  · intro h a ha b hb c hc
    have htrans : order support f g a b = .lt → order support f g b c = .lt →
        order support f g a c = .lt := h.lt_trans (a := ⟨a,ha⟩) (b := ⟨b,hb⟩) (c := ⟨c,hc⟩)
    constructor
    · intro hf
      have hlt := compareRfc3339_between hf
      exact htrans (by simp [order,hlt.1]) (by simp [order,hlt.2])
    · intro hab hbc hac hg
      have hlt := compareRfc3339_between hg
      simpa [order,hac] using htrans (by simp [order,hab,hlt.1]) (by simp [order,hbc,hlt.2])
  · intro h
    exact { eq_swap := order_swap
            isLE_trans := order_isLE_trans h (Subtype.property _) (Subtype.property _)
              (Subtype.property _) }

theorem newest_first_total_preorder_iff (S : Set TurnState) :
    (TransCmp (fun a b : {a // a ∈ S} => newestFirst support a b) ↔
      Agrees support TurnState.startedAt TurnState.updatedAt S) ∧
    (TransCmp (fun a b : {a // a ∈ S} => completedNewestFirst support a b) ↔
      Agrees support TurnState.updatedAt TurnState.startedAt S) := by
  rw [← transCmp_order_iff,← transCmp_order_iff]
  exact ⟨⟨fun h => h.opposite,fun h => h.opposite⟩,fun h => h.opposite,fun h => h.opposite⟩

def ten : String := "2024-01-01T10:00:00+10:00"

def one : String := "2024-01-01T01:00:00Z"

def zoned : Support TurnState :=
  { plain with
    parseRfc3339 := fun text =>
      if text = ten then some 1704067200 else if text = one then some 1704070800 else none }

def startedAt (text : String) : TurnState :=
  ⟨"thread","request",.completed,none,none,none,text,text⟩

theorem newest_first_cycle :
    newestFirst zoned (startedAt "2024-01-01T05") (startedAt one) = .lt ∧
      newestFirst zoned (startedAt one) (startedAt ten) = .lt ∧
      newestFirst zoned (startedAt "2024-01-01T05") (startedAt ten) = .gt := by
  decide +kernel

end Session.TurnStates
