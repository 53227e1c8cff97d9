import TinyAgents.Interaction.Text
import TinyAgents.StorageKit.Repo

namespace StorageKit

open Interaction List

structure KeyCodec where
  sha256 : List UInt8 → List UInt8
  base32 : List UInt8 → String
  newKey : String → Except StorageError String

variable (codec : KeyCodec)

structure KeyCodec.Lawful : Prop where
  sha256 : Function.Injective codec.sha256
  base32 : Function.Injective codec.base32
  upper : ∀ digest, ∀ c ∈ (codec.base32 digest).toList, c.isLower = false
  newKey : ∀ {text key}, codec.newKey text = .ok key → key = text

def bytes (text : String) : List UInt8 := text.toUTF8.data.toList

def escapeChar (leads : Bool) (c : Char) : List Char :=
  if c = '%' then ['%','2','5']
  else if c = '/' then ['%','2','F']
  else if c = '\x00' then ['%','0','0']
  else if c = '~' && leads then ['%','7','E']
  else [c]

def escapePart (count : Nat) (part : String) : List Char :=
  part.toList.zipIdx.flatMap fun (c,offset) => escapeChar (count == 1 && offset == 0) c

def pushParts : List String → Nat → List Char → Nat × List Char
  | [], count, out => (count,out)
  | part :: parts, count, out =>
    let out := if 0 < count then out++['/'] else out
    pushParts parts (count+1) (out++escapePart (count+1) part)

def hashedKey (out : String) : String :=
  "~"++String.ofList ((codec.base32 (codec.sha256 (bytes out))).toList.map Char.toLower)

def compositeKey (parts : List String) : Except StorageError String :=
  match pushParts parts 0 [] with
  | (0,_) => .error (.invalidInput "a key needs at least one part")
  | (_,out) =>
    let out := String.ofList out
    codec.newKey (if 512 < out.utf8ByteSize then hashedKey codec out else out)

def stepKey (owner item step : String) : Except StorageError String :=
  compositeKey codec [owner,item,step]

def leading : List Char → Option Char
  | '%' :: '2' :: '5' :: _ => some '%'
  | '%' :: '2' :: 'F' :: _ => some '/'
  | '%' :: '0' :: '0' :: _ => some '\x00'
  | '%' :: '7' :: 'E' :: _ => some '~'
  | c :: _ => some c
  | [] => none

variable {c : Char}

theorem leading_escapeChar (leads : Bool) (c : Char) (r : List Char) :
    leading (escapeChar leads c++r) = some c := by
  unfold escapeChar
  split
  next h => rw [h]; rfl
  next h =>
    split
    next h => rw [h]; rfl
    split
    next h => rw [h]; rfl
    split
    next h => rw [((Bool.and_eq_true _ _).mp h).1 |> of_decide_eq_true]; rfl
    · simp [leading,h]

theorem escapeChar_code {leads leads' : Bool} {d : Char} {r s : List Char}
    (h : escapeChar leads c++r = escapeChar leads' d++s) : c = d := by
  have hl := congrArg leading h
  rw [leading_escapeChar,leading_escapeChar] at hl
  exact Option.some.inj hl

theorem escapeChar_ne_nil (leads : Bool) (c : Char) : escapeChar leads c ≠ [] := by
  intro h
  have hl := leading_escapeChar leads c []
  rw [h] at hl
  exact nomatch hl

theorem slash_notMem_escapeChar {leads : Bool} : '/' ∉ escapeChar leads c := by
  unfold escapeChar
  split
  · decide
  split
  · decide
  next hc =>
    split
    · decide
    split
    · decide
    · exact fun hm => hc (mem_singleton.1 hm).symm

theorem head_escapeChar : (escapeChar true c).head? ≠ some '~' := by
  unfold escapeChar
  split
  · decide
  split
  · decide
  split
  · decide
  split
  · decide
  next hc =>
    intro hh
    obtain rfl := Option.some.inj hh
    exact hc rfl

theorem escapePart_cons (count : Nat) (c : Char) (cs : List Char) :
    escapePart count (String.ofList (c :: cs)) =
      escapeChar (count == 1) c++cs.flatMap (escapeChar false) := by
  have htail : ∀ (n : Nat) (cs : List Char),
      ((cs.zipIdx (n+1)).flatMap fun (c,offset) => escapeChar (count == 1 && offset == 0) c) =
        cs.flatMap (escapeChar false) := by
    intro n cs
    induction cs generalizing n with
    | nil => rfl
    | cons _ _ ih => simp [zipIdx_cons,ih (n+1)]
  simp [escapePart,zipIdx_cons,htail 0]

theorem escapePart_injective {count : Nat} {p q : String}
    (h : escapePart count p = escapePart count q) : p = q := by
  obtain ⟨p,rfl⟩ : ∃ l, p = String.ofList l := ⟨p.toList,String.ofList_toList.symm⟩
  obtain ⟨q,rfl⟩ : ∃ l, q = String.ofList l := ⟨q.toList,String.ofList_toList.symm⟩
  cases p with
  | nil =>
    cases q with
    | nil => rfl
    | cons =>
      rw [escapePart_cons] at h
      exact (escapeChar_ne_nil _ _ (append_eq_nil_iff.1 h.symm).1).elim
  | cons =>
    cases q with
    | nil =>
      rw [escapePart_cons] at h
      exact (escapeChar_ne_nil _ _ (append_eq_nil_iff.1 h).1).elim
    | cons =>
      rw [escapePart_cons,escapePart_cons] at h
      obtain rfl := escapeChar_code h
      have htail := flatMap_injective (escapeChar_ne_nil false)
        (fun _ _ _ _ he => escapeChar_code he) (append_cancel_left h)
      rw [htail]

theorem slash_notMem_escapePart {count : Nat} {part : String} : '/' ∉ escapePart count part := by
  intro hm
  obtain ⟨⟨c,_⟩,-,hc⟩ := mem_flatMap.1 hm
  exact slash_notMem_escapeChar hc

theorem head_escapePart (part : String) : (escapePart 1 part).head? ≠ some '~' := by
  obtain ⟨l,rfl⟩ : ∃ l, part = String.ofList l := ⟨part.toList,String.ofList_toList.symm⟩
  cases l with
  | nil => exact nofun
  | cons c =>
    rw [escapePart_cons,List.head?_append_of_ne_nil _ (escapeChar_ne_nil _ c)]
    exact head_escapeChar

theorem escapePart_later {count : Nat} (h : 1 < count) (part : String) :
    escapePart count part = escapePart 2 part := by
  have hc : (count == 1) = false := beq_false_of_ne (by omega)
  simp [escapePart,hc]

theorem pushParts_later :
    ∀ (parts : List String) (count : Nat) (out : List Char), 0 < count →
    pushParts parts count out = (count+parts.length,joined '/' out (parts.map (escapePart 2))) := by
  intro parts
  induction parts with
  | nil => simp [pushParts,joined]
  | cons _ _ ih =>
    intro _ _ hcount
    rw [pushParts,ih _ _ (Nat.succ_pos _),if_pos hcount,escapePart_later (by omega)]
    simp [joined]
    omega

def plainKey (part : String) (parts : List String) : String :=
  String.ofList (joined '/' (escapePart 1 part) (parts.map (escapePart 2)))

theorem plainKey_injective {p q : String} {ps qs} (h : plainKey p ps = plainKey q qs) :
    p :: ps = q :: qs := by
  have hparts : ∀ (p : String) (ps : List String),
      ∀ s ∈ escapePart 1 p :: ps.map (escapePart 2), '/' ∉ s := by
    intro p _ s hs
    obtain rfl | hs := mem_cons.1 hs
    · exact slash_notMem_escapePart
    · obtain ⟨_,-,rfl⟩ := mem_map.1 hs
      exact slash_notMem_escapePart
  obtain ⟨hp,hps⟩ := joined_inj (hparts p ps) (hparts q qs) (String.ofList_injective h)
  rw [escapePart_injective hp,map_injective_iff.2 (fun _ _ he => escapePart_injective he) hps]

theorem head_plainKey {part : String} {parts} : (plainKey part parts).toList.head? ≠ some '~' := by
  rw [plainKey,String.toList_ofList,joined]
  cases hp : escapePart 1 part with
  | nil => cases parts <;> simp
  | cons =>
    have hh := head_escapePart part
    rw [hp] at hh
    exact hh

variable {codec : KeyCodec}

theorem bytes_injective {s t : String} (h : bytes s = bytes t) : s = t :=
  String.toByteArray_inj.1 (ByteArray.ext (Array.toList_inj.1 h))

theorem hashedKey_injective (law : codec.Lawful) {s t : String}
    (h : hashedKey codec s = hashedKey codec t) : s = t := by
  have hmap := String.ofList_injective (String.append_right_inj _ |>.1 h)
  have hbase := map_toLower_injective (law.upper _) (law.upper _) hmap
  exact bytes_injective (law.sha256 (law.base32 (String.toList_injective hbase)))

theorem head_hashedKey {text : String} : (hashedKey codec text).toList.head? = some '~' := by
  rw [hashedKey,String.toList_append]
  rfl

theorem compositeKey_cons (law : codec.Lawful) {part key : String} {parts}
    (h : compositeKey codec (part :: parts) = .ok key) :
    key = if 512 < (plainKey part parts).utf8ByteSize then hashedKey codec (plainKey part parts)
      else plainKey part parts := by
  rw [compositeKey,pushParts,pushParts_later _ _ _ (Nat.succ_pos _),Nat.add_comm (Nat.succ 0)] at h
  exact law.newKey h

theorem compositeKey_cons_inj (law : codec.Lawful) {p q key : String} {ps qs}
    (hp : compositeKey codec (p :: ps) = .ok key) (hq : compositeKey codec (q :: qs) = .ok key) :
    p :: ps = q :: qs := by
  have he := (compositeKey_cons law hp).symm.trans (compositeKey_cons law hq)
  split at he <;> split at he
  · exact plainKey_injective (hashedKey_injective law he)
  · exact (head_plainKey (he ▸ head_hashedKey)).elim
  · exact (head_plainKey (he ▸ head_hashedKey)).elim
  · exact plainKey_injective he

theorem composite_key_injective (law : codec.Lawful) {p q : List String} {key : String}
    (hp : p ≠ []) (hq : q ≠ []) (hpk : compositeKey codec p = .ok key)
    (hqk : compositeKey codec q = .ok key) : p = q := by
  obtain ⟨p,_,rfl⟩ := exists_cons_of_ne_nil hp
  obtain ⟨q,_,rfl⟩ := exists_cons_of_ne_nil hq
  exact compositeKey_cons_inj law hpk hqk

def nibbles : KeyCodec where
  sha256 := id
  base32 bytes := String.ofList (bytes.flatMap fun byte =>
    [Char.ofNat (65+byte.toNat/16),Char.ofNat (65+byte.toNat%16)])
  newKey text := .ok text

theorem nibble_facts :
    ∀ m < 16, (Char.ofNat (65+m)).isLower = false ∧
    ∀ n < 16, Char.ofNat (65+m) = Char.ofNat (65+n) → m = n := by
  decide

theorem nibbles_lawful : nibbles.Lawful where
  sha256 := Function.injective_id
  base32 := by
    intro x y h
    refine flatMap_injective (fun _ => cons_ne_nil _ _) ?_ (String.ofList_injective h)
    intro a b r s he
    obtain ⟨hhigh,he⟩ := List.cons.inj he
    obtain ⟨hlow,-⟩ := List.cons.inj he
    have ha := a.toNat_lt
    have hb := b.toNat_lt
    have hhigh := (nibble_facts _ (by omega)).2 _ (by omega) hhigh
    have hlow := (nibble_facts _ (by omega)).2 _ (by omega) hlow
    exact UInt8.toNat_inj.1 (by omega)
  upper := by
    intro _ c hc
    rw [nibbles,String.toList_ofList] at hc
    obtain ⟨byte,-,hc⟩ := mem_flatMap.1 hc
    have hbyte := byte.toNat_lt
    obtain rfl | hc := mem_cons.1 hc
    · exact (nibble_facts _ (by omega)).1
    · rw [mem_singleton.1 hc]
      exact (nibble_facts _ (by omega)).1
  newKey := by
    intro _ _ h
    exact (Except.ok.inj h).symm

theorem composite_key_injective_slash :
    compositeKey nibbles ["~a/b",""] = .ok "%7Ea%2Fb/" ∧
    ∀ q ≠ [], compositeKey nibbles q = .ok "%7Ea%2Fb/" → ["~a/b",""] = q := by
  have hkey : compositeKey nibbles ["~a/b",""] = .ok "%7Ea%2Fb/" := by rfl
  exact ⟨hkey,fun q hq hqk =>
    composite_key_injective nibbles_lawful (cons_ne_nil _ _) hq hkey hqk⟩

end StorageKit
