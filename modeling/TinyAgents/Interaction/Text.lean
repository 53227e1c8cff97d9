import Mathlib.Algebra.GroupWithZero.Nat
import Mathlib.Data.List.Chain
import Mathlib.Data.List.DropRight

namespace Interaction

open List

section

variable {α : Type} {c : α} {r s : List α}

theorem append_cons_inj {x y : List α} (hx : c ∉ x) (hy : c ∉ y) (h : x++c :: r = y++c :: s) :
    x = y ∧ r = s := by
  rcases append_eq_append_iff.1 h with ⟨z,rfl,hz⟩ | ⟨z,rfl,hz⟩ <;> cases z <;> simp_all

def joined (c : α) (x : List α) (xs : List (List α)) : List α :=
  x++xs.flatMap (c :: ·)

variable {x y : List α}

theorem joined_inj {xs ys} (hx : ∀ s ∈ x :: xs, c ∉ s) (hy : ∀ s ∈ y :: ys, c ∉ s)
    (h : joined c x xs = joined c y ys) : x = y ∧ xs = ys := by
  induction xs generalizing x y ys with
  | nil =>
    cases ys with
    | nil => simpa [joined] using h
    | cons y' ys =>
      have hm : c ∈ x := by
        have he : x = y++(c :: y'++ys.flatMap (c :: ·)) := by simpa [joined] using h
        simp [he]
      exact (hx x mem_cons_self hm).elim
  | cons x' xs ih =>
    cases ys with
    | nil =>
      have hm : c ∈ y := by
        have he : x++(c :: x'++xs.flatMap (c :: ·)) = y := by simpa [joined] using h
        simp [← he]
      exact (hy y mem_cons_self hm).elim
    | cons y' ys =>
      have he : x++c :: joined c x' xs = y++c :: joined c y' ys := by
        simpa [joined] using h
      obtain ⟨rfl,hr⟩ := append_cons_inj (hx x mem_cons_self) (hy y mem_cons_self) he
      obtain ⟨rfl,rfl⟩ := ih (fun s hs => hx s (mem_cons_of_mem _ hs))
        (fun s hs => hy s (mem_cons_of_mem _ hs)) hr
      exact ⟨rfl,rfl⟩

def Apart (c : α) (x : List α) : Prop :=
  x.IsChain fun a b => a = c → b ≠ c

theorem apart_iff : Apart c x ↔ ¬ [c,c] <:+: x := by
  rw [Apart,isChain_iff_forall_rel_of_append_cons_cons]
  constructor
  · rintro h ⟨a,b,he⟩
    exact h (by simpa using he.symm) rfl rfl
  · rintro h a b l1 l2 he rfl rfl
    exact h ⟨l1,l2,by simpa using he.symm⟩

theorem Apart.append (hx : Apart c x) (hy : Apart c y)
    (hxy : x.getLast? = some c → y.head? ≠ some c) : Apart c (x++y) := by
  refine isChain_append.2 ⟨hx,hy,?_⟩
  rintro a ha b hb rfl rfl
  exact hxy ha hb

theorem apart_of_notMem (h : c ∉ x) : Apart c x := by
  rw [apart_iff]
  intro hi
  exact h (hi.subset (by simp))

theorem apart_joined {d : α} {xs} (hd : d ≠ c) (h : ∀ s ∈ x :: xs, Apart c s ∧
    s.getLast? ≠ some c) : Apart c (joined d x xs) ∧ (joined d x xs).getLast? ≠ some c := by
  induction xs generalizing x with
  | nil => simpa [joined] using h x mem_cons_self
  | cons y ys ih =>
    obtain ⟨hx,hlast⟩ := h x mem_cons_self
    obtain ⟨hy,hylast⟩ := ih fun s hs => h s (mem_cons_of_mem _ hs)
    have he : joined d x (y :: ys) = x++([d]++joined d y ys) := by simp [joined]
    rw [he]
    constructor
    · apply hx.append _ fun h => (hlast h).elim
      exact (apart_of_notMem (by simpa using hd.symm)).append hy fun h => by simp [hd] at h
    rw [singleton_append,List.getLast?_append_cons]
    cases hj : joined d y ys with
    | nil => simpa using hd
    | cons =>
      rw [hj] at hylast
      rwa [List.getLast?_cons_cons]

theorem append_double_inj (hx : x.getLast? ≠ some c) (hy : y.getLast? ≠ some c) (hr : Apart c r)
    (hs : Apart c s) (h : x++c :: c :: r = y++c :: c :: s) : x = y ∧ r = s := by
  have key {x y r s : List α} (hy : y.getLast? ≠ some c) (hr : Apart c r) {d : List α}
      (hd : y = x++d) (h : c :: c :: r = d++c :: c :: s) : d = [] := by
    cases d with
    | nil => rfl
    | cons _ d =>
      obtain ⟨rfl,htail⟩ := List.cons.inj h
      cases d with
      | nil =>
        subst hd
        simp at hy
      | cons _ d =>
        obtain ⟨_,htail⟩ := List.cons.inj htail
        exact (apart_iff.1 hr ⟨d,s,by simpa using htail.symm⟩).elim
  rcases append_eq_append_iff.1 h with ⟨d,hd,he⟩ | ⟨d,hd,he⟩
  · cases key hy hr hd he
    rw [append_nil] at hd
    subst hd
    simpa using he
  · cases key hx hs hd he
    rw [append_nil] at hd
    subst hd
    simpa using he.symm

end

def hexDigits : (width : Nat) → Nat → List Char
  | 0, _ => []
  | width+1, n => hexDigits width (n/16)++[Nat.digitChar (n%16)]

@[simp] theorem length_hexDigits (width n : Nat) : (hexDigits width n).length = width := by
  induction width generalizing n with
  | zero => rfl
  | succ _ ih => simp [hexDigits,ih]

theorem digitChar_facts :
    ∀ n < 16, ∀ m < 16, (Nat.digitChar n = Nat.digitChar m → n = m) ∧
    (Nat.digitChar n).isAlphanum := by
  decide

variable {c : Char} {width n : Nat}

theorem hexDigits_inj {m : Nat} (hm : m < 16^width) (hn : n < 16^width)
    (h : hexDigits width m = hexDigits width n) : m = n := by
  induction width generalizing m n with
  | zero =>
    rw [Nat.pow_zero] at hm hn
    omega
  | succ _ ih =>
    obtain ⟨hhigh,hlow⟩ := append_inj' h rfl
    rw [Nat.pow_succ] at hm hn
    have hdiv := ih (by omega) (by omega) hhigh
    have hmod := (digitChar_facts (m%16) (by omega) (n%16) (by omega)).1 (List.cons.inj hlow).1
    omega

theorem mem_hexDigits (h : c ∈ hexDigits width n) : ∃ m < 16, c = Nat.digitChar m := by
  induction width generalizing n with
  | zero => cases h
  | succ _ ih =>
    rcases mem_append.1 h with h | h
    · exact ih h
    · exact ⟨n%16,by omega,mem_singleton.1 h⟩

theorem isAlphanum_of_mem_hexDigits (h : c ∈ hexDigits width n) : c.isAlphanum := by
  obtain ⟨m,hm,rfl⟩ := mem_hexDigits h
  exact (digitChar_facts m hm 0 (by decide)).2

theorem length_toString_le {k : Nat} (hk : 0 < k) (h : n < 10^k) :
    (toString n).toList.length ≤ k := by
  rw [Nat.toString_eq_ofList_toDigits,String.toList_ofList]
  exact (Nat.length_toDigits_le_iff (by decide) hk).2 h

theorem utf8ByteSize_ascii {l : List Char} (h : ∀ c ∈ l, c.val ≤ 127) :
    (String.ofList l).utf8ByteSize = l.length := by
  induction l with
  | nil => rfl
  | cons c l ih =>
    have hc := Char.utf8Size_eq_one_iff.2 (h c mem_cons_self)
    have hsplit : String.ofList (c :: l) = String.singleton c++String.ofList l := by
      apply String.toList_inj.1
      simp
    rw [hsplit,String.utf8ByteSize_append,ih fun c hc => h c (mem_cons_of_mem _ hc)]
    simp [hc,Nat.add_comm]

theorem notMem_toString (hc : c.isDigit = false) {n : Nat} : c ∉ (toString n).toList := by
  rw [Nat.toString_eq_ofList_toDigits,String.toList_ofList]
  intro hm
  rw [Nat.isDigit_of_mem_toDigits (by decide) (by decide) hm] at hc
  cases hc

theorem toString_nat_inj {m : Nat} (h : (toString m).toList = (toString n).toList) : m = n := by
  rw [Nat.toString_eq_ofList_toDigits,Nat.toString_eq_ofList_toDigits,String.toList_ofList,
    String.toList_ofList] at h
  have hd := congrArg (fun digits => Nat.ofDigitChars 10 digits 0) h
  simpa using hd

theorem append_number_inj {x y : List Char} {m : Nat} (hc : c.isDigit = false)
    (h : x++c :: (toString m).toList = y++c :: (toString n).toList) : x = y ∧ m = n := by
  have hrev := congrArg reverse h
  simp only [reverse_append,reverse_cons,append_assoc,singleton_append] at hrev
  have hdigits (k : Nat) : c ∉ (toString k).toList.reverse := by
    rw [mem_reverse]
    exact notMem_toString hc
  obtain ⟨hn,hx⟩ := append_cons_inj (hdigits m) (hdigits n) hrev
  exact ⟨reverse_injective hx,toString_nat_inj (reverse_injective hn)⟩

def hexBytes (bytes : List UInt8) : List Char :=
  bytes.flatMap fun byte => hexDigits 2 byte.toNat

theorem notMem_hexBytes (hc : ∀ n < 16, c ≠ Nat.digitChar n) {bytes : List UInt8} :
    c ∉ hexBytes bytes := by
  intro h
  obtain ⟨_,-,h⟩ := mem_flatMap.1 h
  obtain ⟨n,hn,he⟩ := mem_hexDigits h
  exact hc n hn he

section

variable {α β : Type} {code : α → List β}

theorem flatMap_injective (hne : ∀ a, code a ≠ [])
    (hcode : ∀ a b r s, code a++r = code b++s → a = b) :
    ∀ {x y : List α}, x.flatMap code = y.flatMap code → x = y := by
  intro x
  induction x with
  | nil =>
    intro y h
    cases y with
    | nil => rfl
    | cons b => exact (hne b (append_eq_nil_iff.1 h.symm).1).elim
  | cons a _ ih =>
    intro y h
    cases y with
    | nil => exact (hne a (append_eq_nil_iff.1 h).1).elim
    | cons b =>
      rw [flatMap_cons,flatMap_cons] at h
      obtain rfl := hcode a b _ _ h
      rw [ih (append_cancel_left h)]

theorem hexBytes_injective {x y : List UInt8} (h : hexBytes x = hexBytes y) : x = y := by
  refine flatMap_injective (fun _ => append_ne_nil_of_right_ne_nil _ (cons_ne_nil _ _)) ?_ h
  intro a b r s he
  have hlen : (hexDigits 2 a.toNat).length = (hexDigits 2 b.toNat).length := by simp
  exact UInt8.toNat_inj.1 (hexDigits_inj a.toNat_lt b.toNat_lt (append_inj_left he hlen))

theorem toNat_toLower (c : Char) :
    c.toLower.toNat = if 65 ≤ c.toNat ∧ c.toNat ≤ 90 then c.toNat+32 else c.toNat := by
  delta Char.toLower
  split
  next h =>
    obtain ⟨hlow,hhigh⟩ := h
    rw [ge_iff_le,UInt32.le_iff_toNat_le] at hlow
    rw [UInt32.le_iff_toNat_le] at hhigh
    rw [if_pos ⟨hlow,hhigh⟩]
    have hsmall : c.val.toNat ≤ 90 := hhigh
    change (c.val+32).toNat = c.val.toNat+32
    rw [UInt32.toNat_add]
    exact Nat.mod_eq_of_lt (by change c.val.toNat+32 < 2^32; omega)
  next h =>
    rw [if_neg]
    rintro ⟨hlow,hhigh⟩
    exact h ⟨UInt32.le_iff_toNat_le.2 hlow,UInt32.le_iff_toNat_le.2 hhigh⟩

theorem toLower_injective {d : Char} (hc : c.isLower = false) (hd : d.isLower = false)
    (h : c.toLower = d.toLower) : c = d := by
  have hout {c : Char} (hc : c.isLower = false) : ¬ (97 ≤ c.toNat ∧ c.toNat ≤ 122) := by
    rintro ⟨hlow,hhigh⟩
    delta Char.isLower at hc
    rw [Bool.and_eq_false_iff,decide_eq_false_iff_not,decide_eq_false_iff_not] at hc
    exact hc.elim (· (UInt32.le_iff_toNat_le.2 hlow)) (· (UInt32.le_iff_toNat_le.2 hhigh))
  have hv := congrArg Char.toNat h
  rw [toNat_toLower,toNat_toLower] at hv
  have hc := hout hc
  have hd := hout hd
  refine Char.ext (UInt32.toNat_inj.1 ?_)
  change c.toNat = d.toNat
  split at hv <;> split at hv <;> omega

theorem map_toLower_injective :
    ∀ {x y : List Char}, (∀ c ∈ x, c.isLower = false) → (∀ c ∈ y, c.isLower = false) →
    x.map Char.toLower = y.map Char.toLower → x = y := by
  intro x
  induction x with
  | nil => intro y _ _ h; exact (map_eq_nil_iff.1 h.symm).symm
  | cons c _ ih =>
    intro y hx hy h
    cases y with
    | nil => exact nomatch h
    | cons d =>
      obtain ⟨hcd,hxy⟩ := List.cons.inj h
      rw [toLower_injective (hx c mem_cons_self) (hy d mem_cons_self) hcd,
        ih (fun e he => hx e (mem_cons_of_mem _ he))
          (fun e he => hy e (mem_cons_of_mem _ he)) hxy]

end

def pack (texts : List (List Char)) : List Char :=
  texts.flatMap fun text => text.flatMap (fun c => ['a',c])++['z']

def unpackFrom : (read : List Char) → List Char → Option (List (List Char))
  | [], [] => some []
  | read, 'z' :: rest => (unpackFrom [] rest).map (read.reverse :: ·)
  | read, 'a' :: c :: rest => unpackFrom (c :: read) rest
  | _, _ => none

def unpack (packed : List Char) : Option (List (List Char)) := unpackFrom [] packed

theorem unpackFrom_text (text rest : List Char) :
    ∀ read : List Char, unpackFrom read (text.flatMap (fun c => ['a',c]) ++ 'z' :: rest) =
      (unpackFrom [] rest).map ((read.reverse++text) :: ·) := by
  induction text with
  | nil =>
    intro read
    cases read <;> simp [unpackFrom]
  | cons c text ih =>
    intro read
    have hstep : unpackFrom read ('a' :: c :: (text.flatMap (fun c => ['a',c]) ++ 'z' :: rest)) =
        unpackFrom (c :: read) (text.flatMap (fun c => ['a',c]) ++ 'z' :: rest) := by
      cases read <;> rfl
    simpa using hstep.trans (ih (c :: read))

theorem unpack_pack (texts : List (List Char)) : unpack (pack texts) = some texts := by
  induction texts with
  | nil => rfl
  | cons text texts ih =>
    have h := unpackFrom_text text (pack texts) []
    rw [← unpack,← unpack,ih] at h
    simpa [pack] using h

theorem eq_of_append_eq {x y r s : String} (h : x ++ r = y ++ s)
    (hsize : x.utf8ByteSize = y.utf8ByteSize) : x = y ∧ r = s := by
  have hl := congrArg String.toList h
  rw [String.toList_append,String.toList_append] at hl
  have key {x y : String} {d : List Char} (hd : y.toList = x.toList ++ d)
      (hsize : x.utf8ByteSize = y.utf8ByteSize) : x = y := by
    have hy : y = x ++ String.ofList d := by
      apply String.toList_inj.1
      rw [String.toList_append,String.toList_ofList,hd]
    rw [hy,String.utf8ByteSize_append] at hsize
    have hz : (String.ofList d).utf8ByteSize = 0 := by omega
    rw [hy,String.utf8ByteSize_eq_zero_iff.1 hz,String.append_empty]
  have hxy : x = y := by
    rcases append_eq_append_iff.1 hl with ⟨d,hd,-⟩ | ⟨d,hd,-⟩
    · exact key hd hsize
    · exact (key hd hsize.symm).symm
  subst hxy
  exact ⟨rfl,String.toList_inj.1 (append_cancel_left hl)⟩

def isWhitespace (c : Char) : Bool :=
  let n := c.toNat
  (9 ≤ n && n ≤ 13) || n == 0x20 || n == 0x85 || n == 0xa0 || n == 0x1680 ||
    (0x2000 ≤ n && n ≤ 0x200a) || n == 0x2028 || n == 0x2029 || n == 0x202f || n == 0x205f ||
    n == 0x3000

def trim (text : String) : String :=
  .ofList ((text.toList.dropWhile isWhitespace).rdropWhile isWhitespace)

theorem trim_trim (text : String) : trim (trim text) = trim text := by
  have hfirst l : dropWhile isWhitespace ((dropWhile isWhitespace l).rdropWhile isWhitespace) =
      (dropWhile isWhitespace l).rdropWhile isWhitespace := by
    have hp := rdropWhile_prefix isWhitespace (dropWhile isWhitespace l)
    refine dropWhile_eq_self_iff.2 fun hl => ?_
    rw [hp.getElem hl]
    exact dropWhile_get_zero_not _ _ (hl.trans_le hp.length_le)
  unfold trim
  rw [String.toList_ofList,hfirst,rdropWhile_idempotent]

end Interaction
