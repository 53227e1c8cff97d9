import TinyAgents.Interaction.Text

namespace Session

open Interaction List Option

structure SessionRef where
  sessionKey : String
  agentId : Option String
  generation : UInt32
  parentStem : Option String
  deriving DecidableEq

def sanitizeStem (stem : String) : String :=
  let cleaned := stem.toList.map fun c =>
    if c.isAlphanum || c == '_' || c == '-' || c == '.' then c else '_'
  if cleaned.isEmpty then "session" else String.ofList cleaned

def maxComponentPrefix : Nat := 80
def maxParentChainPrefix : Nat := 110

def fnv1a64 (bytes : List UInt8) (offsetBasis : UInt64) : UInt64 :=
  bytes.foldl (fun hash byte => (hash ^^^ byte.toUInt64)*0x00000100000001b3) offsetBasis

def fnv1a128 (bytes : List UInt8) : Nat :=
  (fnv1a64 bytes 0xcbf29ce484222325).toNat*2^64+(fnv1a64 bytes 0x9E3779B97F4A7C15).toNat

variable (value : String)

def asBytes : List UInt8 := value.toByteArray.data.toList

def digest : List Char := hexDigits 32 (fnv1a128 (asBytes value))

def undotted (ch : Char) : Char := if ch = '.' then '-' else ch

def keepLoop : List Char → (out : List Char) → (kept : Nat) → List Char
  | [], out, _ => out
  | ch :: rest, out, kept =>
    if maxComponentPrefix ≤ kept then out
    else if undotted ch = '_' ∧ out.getLast? = some '_' then keepLoop rest out kept
    else keepLoop rest (out++[undotted ch]) (kept+1)

def readable : List Char := keepLoop (sanitizeStem value).toList [] 0

def sanitizeComponent : String :=
  String.ofList (readable value ++ '-' :: digest value)

variable (session : SessionRef)

def sessionStem : String :=
  let stem := sanitizeComponent session.sessionKey
  let stem :=
    match session.agentId with
    | some agentId => stem++"."++sanitizeComponent agentId
    | none => stem
  let stem :=
    if 0 < session.generation then stem++".g"++toString session.generation.toNat else stem
  match session.parentStem with
  | some parent => parent++"__"++stem
  | none => stem

def chainTag : List Char := ['c','h','a','i','n']

def boundedParentStem (parent : SessionRef) : String :=
  let stem := sessionStem parent
  if stem.utf8ByteSize ≤ maxParentChainPrefix then stem
  else String.ofList (chainTag ++ '-' :: digest stem)

namespace SessionRef

def root (sessionKey : String) : SessionRef := ⟨sessionKey,none,0,none⟩

def scopedTo (sessionKey agentId : String) : SessionRef := ⟨sessionKey,some agentId,0,none⟩

def childOf (parent : SessionRef) (childKey : String) : SessionRef :=
  ⟨childKey,none,0,some (boundedParentStem parent)⟩

variable (session : SessionRef)

def firstGeneration : SessionRef := { session with generation := 0 }

def nextGeneration : SessionRef :=
  { session with
    generation := if session.generation.toNat+1 < 2^32 then session.generation+1
      else session.generation }

def isSubagent : Bool := session.parentStem.isSome

end SessionRef

inductive Origin where
  | root (sessionKey : String)
  | scopedTo (sessionKey agentId : String)
  | childOf (parent : Origin) (childKey : String)
  | firstGeneration (of : Origin)
  | nextGeneration (of : Origin)

namespace Origin

def ref : Origin → SessionRef
  | root sessionKey => .root sessionKey
  | scopedTo sessionKey agentId => .scopedTo sessionKey agentId
  | childOf parent childKey => .childOf parent.ref childKey
  | firstGeneration of => of.ref.firstGeneration
  | nextGeneration of => of.ref.nextGeneration

def ancestors : Origin → List SessionRef
  | root _ | scopedTo _ _ => []
  | childOf parent _ => parent.ref :: parent.ancestors
  | firstGeneration of | nextGeneration of => of.ancestors

end Origin

def digested (ancestors : List SessionRef) : List String :=
  (session :: ancestors).flatMap (fun s => s.sessionKey :: s.agentId.toList)++
    (ancestors.map sessionStem).filter fun stem => maxParentChainPrefix < stem.utf8ByteSize

section

def Plain (c : Char) : Prop := c.isAlphanum = true ∨ c = '_' ∨ c = '-'

variable {c : Char} {value : String}

theorem sanitizeStem_chars (h : c ∈ (sanitizeStem value).toList) : Plain c ∨ c = '.' := by
  have hsession : "session".toList.all Char.isAlphanum := by decide
  simp only [sanitizeStem] at h
  split at h
  · exact .inl (.inl (all_eq_true.1 hsession c h))
  rw [String.toList_ofList] at h
  obtain ⟨d,-,rfl⟩ := mem_map.1 h
  split
  next hd =>
    simp only [Bool.or_eq_true,beq_iff_eq] at hd
    rcases hd with ((hd | hd) | hd) | hd
    · exact .inl (.inl hd)
    · exact .inl (.inr (.inl hd))
    · exact .inl (.inr (.inr hd))
    · exact .inr hd
  · exact .inl (.inr (.inl rfl))

theorem plain_undotted (h : Plain c ∨ c = '.') : Plain (undotted c) := by
  unfold undotted
  split
  · exact .inr (.inr rfl)
  rcases h with h | h
  · exact h
  · contradiction

structure Readable (out : List Char) : Prop where
  plain : ∀ c ∈ out, Plain c
  apart : Apart '_' out
  length : out.length ≤ maxComponentPrefix

theorem keepLoop_spec {rest out : List Char} {kept : Nat} (h : Readable out)
    (hk : kept = out.length) (hr : ∀ c ∈ rest, Plain c ∨ c = '.') :
    Readable (keepLoop rest out kept) ∧ (∀ c ∈ out, c ∈ keepLoop rest out kept) ∧
    ((keepLoop rest out kept).length < maxComponentPrefix → ∀ c ∈ rest,
      undotted c ∈ keepLoop rest out kept) := by
  induction rest generalizing out kept with
  | nil => exact ⟨h,fun _ hc => hc,by simp⟩
  | cons ch rest ih =>
    have hr' : ∀ c ∈ rest, Plain c ∨ c = '.' := fun c hc => hr c (mem_cons_of_mem _ hc)
    have hch := plain_undotted (hr ch mem_cons_self)
    rw [keepLoop]
    split
    next hfull =>
      refine ⟨h,fun _ hc => hc,fun hlt => ?_⟩
      omega
    next hfull =>
      split
      next hskip =>
        obtain ⟨hread,hout,hall⟩ := ih h hk hr'
        refine ⟨hread,hout,fun hlt c hc => ?_⟩
        rcases mem_cons.1 hc with rfl | hc
        · rw [hskip.1]
          exact hout _ (mem_of_getLast? hskip.2)
        · exact hall hlt c hc
      next hkeep =>
        have hnew : Readable (out++[undotted ch]) := by
          refine ⟨?_,?_,?_⟩
          · intro c hc
            rcases mem_append.1 hc with hc | hc
            · exact h.plain c hc
            · rwa [mem_singleton.1 hc]
          · apply h.apart.append (isChain_singleton _)
            intro hlast hhead
            exact hkeep ⟨by simpa using hhead,hlast⟩
          · rw [length_append,length_singleton]
            omega
        have hlen : kept+1 = (out++[undotted ch]).length := by rw [hk,length_append]; rfl
        obtain ⟨hread,hout,hall⟩ := ih hnew hlen hr'
        refine ⟨hread,fun c hc => hout c (mem_append_left _ hc),fun hlt c hc => ?_⟩
        rcases mem_cons.1 hc with rfl | hc
        · exact hout _ (mem_append_right _ (mem_singleton.2 rfl))
        · exact hall hlt c hc

theorem readable_spec (value : String) :
    Readable (readable value) ∧
    ((readable value).length < maxComponentPrefix → ∀ c ∈ (sanitizeStem value).toList,
      undotted c ∈ readable value) := by
  have hnil : Readable [] := ⟨by simp,isChain_nil,by decide⟩
  have hlen : 0 = ([] : List Char).length := rfl
  obtain ⟨hread,-,hall⟩ := keepLoop_spec hnil hlen fun c hc => sanitizeStem_chars hc
  exact ⟨hread,hall⟩

theorem ascii_of_plain (h : Plain c) : c.val ≤ 127 := by
  rcases h with h | rfl | rfl
  · delta Char.isAlphanum Char.isAlpha Char.isUpper Char.isLower Char.isDigit at h
    simp only [Bool.or_eq_true,Bool.and_eq_true,decide_eq_true_eq] at h
    rcases h with (h | h) | h
    all_goals exact Nat.le_trans h.2 (by decide)
  all_goals decide

theorem alphanum_of_digest (h : c ∈ digest value) : c.isAlphanum :=
  isAlphanum_of_mem_hexDigits h

theorem notMem_digest (hc : c.isAlphanum = false) : c ∉ digest value := by
  intro h
  rw [alphanum_of_digest h] at hc
  cases hc

theorem getLast_digest {l : List Char} (hc : c.isAlphanum = false) :
    (l++digest value).getLast? ≠ some c := by
  rw [List.getLast?_append]
  intro h
  cases hd : (digest value).getLast? with
  | none =>
    have hlen := length_hexDigits 32 (fnv1a128 (asBytes value))
    rw [List.getLast?_eq_none_iff] at hd
    rw [← digest,hd] at hlen
    cases hlen
  | some =>
    rw [hd,some_or] at h
    cases h
    exact notMem_digest hc (mem_of_getLast? hd)

theorem fnv1a128_lt {bytes : List UInt8} : fnv1a128 bytes < 16^32 := by
  have hhigh := (fnv1a64 bytes 0xcbf29ce484222325).toNat_lt
  have hlow := (fnv1a64 bytes 0x9E3779B97F4A7C15).toNat_lt
  unfold fnv1a128
  omega

structure Segment (s : List Char) : Prop where
  plain : ∀ c ∈ s, Plain c
  apart : Apart '_' s
  last : s.getLast? ≠ some '_'

theorem Segment.notMem_dot {s : List Char} (h : Segment s) : '.' ∉ s :=
  fun hm => absurd (h.plain _ hm) (by unfold Plain; decide)

theorem toList_sanitizeComponent (value : String) :
    (sanitizeComponent value).toList = readable value ++ '-' :: digest value :=
  String.toList_ofList

theorem segment_component : Segment (sanitizeComponent value).toList := by
  obtain ⟨hread,-⟩ := readable_spec value
  rw [toList_sanitizeComponent]
  refine ⟨?_,?_,?_⟩
  · intro c hc
    rcases mem_append.1 hc with hc | hc
    · exact hread.plain c hc
    rcases mem_cons.1 hc with rfl | hc
    · exact .inr (.inr rfl)
    · exact .inl (alphanum_of_digest hc)
  · apply hread.apart.append
    · apply apart_of_notMem
      simp only [mem_cons,not_or]
      exact ⟨by decide,notMem_digest (by decide)⟩
    · intro _
      simp
  · rw [append_cons]
    exact getLast_digest (by decide)

theorem length_component (value : String) : (sanitizeComponent value).toList.length ≤ 113 := by
  have hlen := (readable_spec value).1.length
  rw [toList_sanitizeComponent,length_append,length_cons,digest,length_hexDigits]
  unfold maxComponentPrefix at hlen
  omega

theorem digest_of_component {x y : String}
    (h : (sanitizeComponent x).toList = (sanitizeComponent y).toList) : digest x = digest y := by
  rw [toList_sanitizeComponent,toList_sanitizeComponent] at h
  have hlen : ('-' :: digest x).length = ('-' :: digest y).length := by
    simp only [length_cons,digest,length_hexDigits]
  exact (List.cons.inj (append_inj' h hlen).2).2

end

def generationSegments (generation : UInt32) : List (List Char) :=
  if 0 < generation then ['g' :: (toString generation.toNat).toList] else []

def segments : List (List Char) :=
  (session.agentId.map fun agentId => (sanitizeComponent agentId).toList).toList++
    generationSegments session.generation

def ownStem : List Char :=
  joined '.' (sanitizeComponent session.sessionKey).toList (segments session)

theorem toList_sessionStem :
    (sessionStem session).toList =
      (session.parentStem.elim [] fun parent => parent.toList++['_','_'])++ownStem session := by
  obtain ⟨_,agentId,generation,parentStem⟩ := session
  unfold sessionStem ownStem segments generationSegments joined
  cases agentId <;> cases parentStem <;> by_cases hg : 0 < generation <;> simp [hg]

theorem segment_generation {generation : UInt32} {s : List Char}
    (h : s ∈ generationSegments generation) : Segment s ∧ '-' ∉ s ∧ s.length ≤ 11 := by
  unfold generationSegments at h
  split at h
  · cases mem_singleton.1 h
    have hmem {c} (hc : c.isDigit = false) :
        c ∉ (toString generation.toNat).toList := notMem_toString hc
    have hunder : '_' ∉ 'g' :: (toString generation.toNat).toList := by
      simp only [mem_cons,not_or]
      exact ⟨by decide,hmem (by decide)⟩
    refine ⟨⟨?_,apart_of_notMem hunder,fun hl => hunder (mem_of_getLast? hl)⟩,?_,?_⟩
    · intro c hc
      left
      rcases mem_cons.1 hc with rfl | hc
      · decide
      by_cases hd : c.isDigit
      · simp [Char.isAlphanum,hd]
      · exact (hmem (by simpa using hd) hc).elim
    · simp only [mem_cons,not_or]
      exact ⟨by decide,hmem (by decide)⟩
    · have hlt := generation.toNat_lt
      have hlen := length_toString_le (n := generation.toNat) (k := 10) (by omega) (by omega)
      rw [length_cons]
      omega
  · cases h

variable {session : SessionRef} {value : String}

theorem segment_segments :
    ∀ s ∈ (sanitizeComponent session.sessionKey).toList :: segments session, Segment s := by
  intro s hs
  rcases mem_cons.1 hs with he | hs
  · rw [he]
    exact segment_component
  rcases mem_append.1 hs with hs | hs
  · rw [mem_toList] at hs
    obtain ⟨_,-,he⟩ := map_eq_some_iff.1 hs
    rw [← he]
    exact segment_component
  · exact (segment_generation hs).1

theorem ownStem_apart : Apart '_' (ownStem session) ∧ (ownStem session).getLast? ≠ some '_' :=
  apart_joined (by decide) fun s hs => ⟨(segment_segments s hs).apart,(segment_segments s hs).last⟩

theorem dash_mem_component : '-' ∈ (sanitizeComponent value).toList := by
  rw [toList_sanitizeComponent]
  simp

theorem dash_mem_ownStem (session : SessionRef) : '-' ∈ ownStem session :=
  mem_append_left _ dash_mem_component

theorem generationSegments_inj {g h : UInt32} (he : generationSegments g = generationSegments h) :
    g = h := by
  unfold generationSegments at he
  split at he <;> split at he
  · have hd := (List.cons.inj (List.cons.inj he).1).2
    exact UInt32.toNat_inj.1 (toString_nat_inj hd)
  · cases he
  · cases he
  next hg hh =>
    rw [UInt32.lt_iff_toNat_lt] at hg hh
    apply UInt32.toNat_inj.1
    have hz : (0 : UInt32).toNat = 0 := rfl
    omega

theorem component_ne_generation {generation : UInt32} {rest} :
    (sanitizeComponent value).toList :: rest ≠ generationSegments generation := by
  intro h
  have hmem : (sanitizeComponent value).toList ∈ generationSegments generation := by
    rw [← h]
    exact mem_cons_self
  exact (segment_generation hmem).2.1 dash_mem_component

theorem segments_inj {s t : SessionRef} (h : segments s = segments t) :
    s.generation = t.generation ∧ s.agentId.map digest = t.agentId.map digest := by
  unfold segments at h
  cases hs : s.agentId <;> cases ht : t.agentId <;> rw [hs,ht] at h
  case none.none => exact ⟨generationSegments_inj h,rfl⟩
  case none.some => exact (component_ne_generation h.symm).elim
  case some.none => exact (component_ne_generation h).elim
  case some.some a b =>
    obtain ⟨hc,hg⟩ := List.cons.inj h
    exact ⟨generationSegments_inj hg,congrArg some (digest_of_component hc)⟩

theorem sessionStem_last : (sessionStem session).toList.getLast? ≠ some '_' := by
  rw [toList_sessionStem,List.getLast?_append]
  cases h : (ownStem session).getLast? with
  | none =>
    rw [List.getLast?_eq_none_iff] at h
    have hd := dash_mem_ownStem session
    rw [h] at hd
    cases hd
  | some =>
    rw [some_or,← h]
    exact (ownStem_apart).2

theorem boundedParentStem_last {parent : SessionRef} :
    (boundedParentStem parent).toList.getLast? ≠ some '_' := by
  simp only [boundedParentStem]
  split
  · exact sessionStem_last
  · rw [String.toList_ofList,append_cons]
    exact getLast_digest (by decide)

theorem contains_separator_iff (session : SessionRef) :
    ['_','_'] <:+: (sessionStem session).toList ↔ session.isSubagent := by
  rw [toList_sessionStem,SessionRef.isSubagent]
  cases session.parentStem with
  | none => simpa using apart_iff.1 (ownStem_apart).1
  | some parent => simpa using infix_append parent.toList ['_','_'] (ownStem session)

theorem sanitizeStem_mem {c : Char} (hp : Plain c) (h : c ∈ value.toList) :
    c ∈ (sanitizeStem value).toList := by
  have hc : (c.isAlphanum || c == '_' || c == '-' || c == '.') := by
    rcases hp with hp | rfl | rfl
    · simp [hp]
    all_goals rfl
  have hmem : c ∈ value.toList.map fun c =>
      if c.isAlphanum || c == '_' || c == '-' || c == '.' then c else '_' :=
    mem_map.2 ⟨c,h,if_pos hc⟩
  simp only [sanitizeStem]
  rw [if_neg]
  · rwa [String.toList_ofList]
  intro hn
  rw [isEmpty_iff.1 hn] at hmem
  cases hmem

theorem collapsed_ne_stem {p q : SessionRef}
    (hkey : digest p.sessionKey = digest (sessionStem q) → p.sessionKey = sessionStem q) :
    sessionStem p ≠ String.ofList (chainTag ++ '-' :: digest (sessionStem q)) := by
  intro h
  have hl := congrArg String.toList h
  rw [String.toList_ofList,toList_sessionStem] at hl
  have hnot {c} (hc : c.isAlphanum = false) (hne : c ≠ '-') :
      c ∉ chainTag ++ '-' :: digest (sessionStem q) := by
    intro hm
    rcases mem_append.1 hm with hm | hm
    · have hall : chainTag.all Char.isAlphanum := by decide
      rw [all_eq_true.1 hall c hm] at hc
      cases hc
    rcases mem_cons.1 hm with ha | hm
    · exact hne ha
    · exact notMem_digest hc hm
  have hparent : p.parentStem = none := by
    cases hp : p.parentStem with
    | none => rfl
    | some =>
      rw [hp] at hl
      refine (hnot (c := '_') (by decide) (by decide) ?_).elim
      rw [← hl]
      simp
  rw [hparent,elim_none,nil_append] at hl
  have hsegments : segments p = [] := by
    cases hs : segments p with
    | nil => rfl
    | cons =>
      refine (hnot (c := '.') (by decide) (by decide) ?_).elim
      rw [← hl,ownStem,joined,hs]
      simp
  rw [ownStem,hsegments,joined,flatMap_nil,append_nil,toList_sanitizeComponent] at hl
  have hlen : ('-' :: digest p.sessionKey).length = ('-' :: digest (sessionStem q)).length := by
    simp only [length_cons,digest,length_hexDigits]
  obtain ⟨hread,hdigest⟩ := append_inj' hl hlen
  have hstem := hkey (List.cons.inj hdigest).2
  have hdash : '-' ∈ p.sessionKey.toList := by
    rw [hstem,toList_sessionStem]
    exact mem_append_right _ (dash_mem_ownStem q)
  have hmem := (readable_spec p.sessionKey).2 (by rw [hread]; decide) '-'
    (sanitizeStem_mem (.inr (.inr rfl)) hdash)
  rw [hread] at hmem
  revert hmem
  decide

section

inductive Chain : SessionRef → List SessionRef → Prop
  | root {session : SessionRef} : session.parentStem = none → Chain session []
  | child {session parent : SessionRef} {up : List SessionRef} : Chain parent up →
      session.parentStem = some (boundedParentStem parent) → session.agentId = none →
      Chain session (parent :: up)

theorem chain_origin (o : Origin) : Chain o.ref o.ancestors := by
  have keep {session session' : SessionRef} {up : List SessionRef} (h : Chain session up)
      (hp : session'.parentStem = session.parentStem) (ha : session'.agentId = session.agentId) :
      Chain session' up := by
    cases h with
    | root hn => exact .root (hp.trans hn)
    | child hc hs hn => exact .child hc (hp.trans hs) (ha.trans hn)
  induction o with
  | root | scopedTo => exact .root rfl
  | childOf _ _ ih => exact .child ih rfl rfl
  | firstGeneration _ ih | nextGeneration _ ih => exact keep ih rfl rfl

def Distinguishes (l : List String) : Prop :=
  ∀ x ∈ l, ∀ y ∈ l, fnv1a128 (asBytes x) = fnv1a128 (asBytes y) → x = y

variable {l : List String} {s t p q : SessionRef} {up up' : List SessionRef}

theorem Distinguishes.eq {x y : String} (h : Distinguishes l) (hx : x ∈ l) (hy : y ∈ l)
    (he : digest x = digest y) : x = y :=
  h x hx y hy (hexDigits_inj fnv1a128_lt fnv1a128_lt he)

theorem sessionKey_mem_digested : s.sessionKey ∈ digested s up := by
  simp [digested]

theorem agentId_mem_digested {a : String} (h : s.agentId = some a) : a ∈ digested s up := by
  simp [digested,h]

theorem digested_parent {x : String} (h : x ∈ digested p up) : x ∈ digested s (p :: up) := by
  simp only [digested,mem_append,flatMap_cons,map_cons,mem_filter,mem_cons] at h ⊢
  tauto

theorem ref_eq_of_ownStem (h : Distinguishes l) (hs : ∀ x ∈ digested s up, x ∈ l)
    (ht : ∀ x ∈ digested t up', x ∈ l) (ho : ownStem s = ownStem t)
    (hp : s.parentStem = t.parentStem) : s = t := by
  obtain ⟨hkey,hsegments⟩ := joined_inj (fun s hs => (segment_segments s hs).notMem_dot)
    (fun s hs => (segment_segments s hs).notMem_dot) ho
  obtain ⟨_,hagent⟩ := segments_inj hsegments
  have hk := h.eq (hs _ sessionKey_mem_digested) (ht _ sessionKey_mem_digested)
    (digest_of_component hkey)
  have ha : s.agentId = t.agentId := by
    cases hsa : s.agentId <;> cases hta : t.agentId <;> rw [hsa,hta] at hagent
    case none.some => cases hagent
    case some.none => cases hagent
    case some.some a b =>
      have hab := h.eq (hs _ (agentId_mem_digested hsa)) (ht _ (agentId_mem_digested hta))
        (Option.some.inj hagent)
      rw [hab]
  cases s
  cases t
  simp_all

theorem stem_eq_of_bounded (h : Distinguishes l) (hs : ∀ x ∈ digested s (p :: up), x ∈ l)
    (ht : ∀ x ∈ digested t (q :: up'), x ∈ l) (hb : boundedParentStem p = boundedParentStem q) :
    sessionStem p = sessionStem q := by
  have hlong {s p} {up} (hs : ∀ x ∈ digested s (p :: up), x ∈ l)
      (hp : ¬ (sessionStem p).utf8ByteSize ≤ maxParentChainPrefix) : sessionStem p ∈ l :=
    hs _ (by simp [digested,Nat.lt_of_not_le hp])
  have hkey {s p} {up} (hs : ∀ x ∈ digested s (p :: up), x ∈ l) :
      p.sessionKey ∈ l := hs _ (digested_parent sessionKey_mem_digested)
  simp only [boundedParentStem] at hb
  split at hb <;> split at hb
  · exact hb
  next hp hq =>
    exact (collapsed_ne_stem (fun he => h.eq (hkey hs) (hlong ht hq) he) hb).elim
  next hp hq =>
    exact (collapsed_ne_stem (fun he => h.eq (hkey ht) (hlong hs hp) he) hb.symm).elim
  next hp hq =>
    have hl := congrArg String.toList hb
    rw [String.toList_ofList,String.toList_ofList] at hl
    exact h.eq (hlong hs hp) (hlong ht hq) (List.cons.inj (append_cancel_left hl)).2

theorem stem_inj (hs : Chain s up) (ht : Chain t up') (h : Distinguishes l)
    (hsl : ∀ x ∈ digested s up, x ∈ l) (htl : ∀ x ∈ digested t up', x ∈ l)
    (he : sessionStem s = sessionStem t) : s = t ∧ up = up' := by
  have hroot {s t} {parent} (hs : s.parentStem = none)
      (ht : t.parentStem = some parent) (he : sessionStem s = sessionStem t) : False := by
    have hsub := (contains_separator_iff t).2 (by simp [SessionRef.isSubagent,ht])
    rw [← he,contains_separator_iff,SessionRef.isSubagent,hs] at hsub
    cases hsub
  induction hs generalizing t up' with
  | root hn =>
    cases ht with
    | root hn' =>
      have hl := congrArg String.toList he
      rw [toList_sessionStem,toList_sessionStem,hn,hn'] at hl
      simp only [elim_none,nil_append] at hl
      exact ⟨ref_eq_of_ownStem h hsl htl hl (hn.trans hn'.symm),rfl⟩
    | child _ hp => exact (hroot hn hp he).elim
  | @child s p up hc hp _ ih =>
    cases ht with
    | root hn => exact (hroot hn hp he.symm).elim
    | @child _ q up' hc' hq _ =>
      have hl := congrArg String.toList he
      rw [toList_sessionStem,toList_sessionStem,hp,hq] at hl
      simp only [elim_some,append_assoc,cons_append,nil_append] at hl
      obtain ⟨hparent,hown⟩ := append_double_inj boundedParentStem_last
        boundedParentStem_last (ownStem_apart).1 (ownStem_apart).1 hl
      have hbound := String.toList_inj.1 hparent
      obtain ⟨rfl,rfl⟩ := ih hc' (fun x hx => hsl x (digested_parent hx))
        (fun x hx => htl x (digested_parent hx)) (stem_eq_of_bounded h hsl htl hbound)
      exact ⟨ref_eq_of_ownStem h hsl htl hown (hp.trans hq.symm),rfl⟩

theorem ownStem_ascii : ∀ c ∈ ownStem session, c.val ≤ 127 := by
  intro c hc
  rcases mem_append.1 hc with hc | hc
  · exact ascii_of_plain ((segment_component).plain c hc)
  obtain ⟨s,hs,hc⟩ := mem_flatMap.1 hc
  rcases mem_cons.1 hc with rfl | hc
  · decide
  · exact ascii_of_plain ((segment_segments s (mem_cons_of_mem _ hs)).plain c hc)

theorem length_generation (generation : UInt32) :
    ((generationSegments generation).flatMap ('.' :: ·)).length ≤ 12 := by
  unfold generationSegments
  split
  next hg =>
    have hmem : 'g' :: (toString generation.toNat).toList ∈ generationSegments generation := by
      simp [generationSegments,hg]
    have hlen := (segment_generation hmem).2.2
    rw [flatMap_singleton,length_cons]
    omega
  · exact Nat.zero_le _

theorem length_ownStem (session : SessionRef) :
    (ownStem session).length ≤ if session.agentId.isSome then 239 else 125 := by
  have hkey := length_component session.sessionKey
  have hgen := length_generation session.generation
  rw [ownStem,joined,segments,flatMap_append]
  simp only [length_append]
  cases session.agentId with
  | none =>
    simp only [map_none,toList_none,flatMap_nil,length_nil,isSome_none,Bool.false_eq_true,if_false]
    omega
  | some agentId =>
    have hagent := length_component agentId
    simp only [map_some,toList_some,flatMap_cons,flatMap_nil,
      append_nil,length_cons,isSome_some,if_true]
    omega

theorem boundedParentStem_size (parent : SessionRef) :
    (boundedParentStem parent).utf8ByteSize ≤ maxParentChainPrefix := by
  simp only [boundedParentStem]
  split
  next h => exact h
  · rw [utf8ByteSize_ascii]
    · rw [length_append,length_cons,digest,length_hexDigits]
      decide
    intro c hc
    rcases mem_append.1 hc with hc | hc
    · have hall : chainTag.all Char.isAlphanum := by decide
      exact ascii_of_plain (.inl (all_eq_true.1 hall c hc))
    rcases mem_cons.1 hc with rfl | hc
    · decide
    · exact ascii_of_plain (.inl (alphanum_of_digest hc))

theorem sessionStem_size (h : Chain s up) : (sessionStem s).utf8ByteSize ≤ 239 := by
  have hown : (String.ofList (ownStem s)).utf8ByteSize = (ownStem s).length :=
    utf8ByteSize_ascii ownStem_ascii
  have hlen := length_ownStem s
  have hstem : sessionStem s =
      (s.parentStem.elim "" fun parent => parent++"__")++String.ofList (ownStem s) := by
    apply String.toList_inj.1
    rw [toList_sessionStem]
    cases s.parentStem <;> simp
  rw [hstem,String.utf8ByteSize_append,hown]
  cases h with
  | root hn =>
    rw [hn,elim_none]
    have hzero : "".utf8ByteSize = 0 := rfl
    split at hlen <;> omega
  | @child _ parent up _ hp ha =>
    have hsep : "__".utf8ByteSize = 2 := rfl
    have hparent := boundedParentStem_size parent
    rw [ha] at hlen
    rw [hp,elim_some,String.utf8ByteSize_append,hsep]
    unfold maxParentChainPrefix at hparent
    simp only [isSome_none,Bool.false_eq_true,if_false] at hlen
    omega

end

theorem stems_identify (a b : Origin)
    (h : Distinguishes (digested a.ref a.ancestors++digested b.ref b.ancestors)) :
    (sessionStem a.ref = sessionStem b.ref → a.ref.sessionKey = b.ref.sessionKey ∧
      a.ref.agentId = b.ref.agentId ∧ a.ref.generation = b.ref.generation ∧
      a.ancestors = b.ancestors) ∧ (sessionStem a.ref).utf8ByteSize < 255 ∧
    (['_','_'] <:+: (sessionStem a.ref).toList ↔ a.ref.isSubagent = true) := by
  refine ⟨fun he => ?_,?_,contains_separator_iff a.ref⟩
  · obtain ⟨href,hup⟩ := stem_inj (chain_origin a) (chain_origin b) h
      (fun x hx => mem_append_left _ hx) (fun x hx => mem_append_right _ hx) he
    rw [href]
    exact ⟨rfl,rfl,rfl,hup⟩
  · have hsize := sessionStem_size (chain_origin a)
    omega

def worker : Origin := .childOf (.nextGeneration (.scopedTo "thread" "")) "worker"

theorem stems_identify_worker :
    sessionStem worker.ref = sessionStem (Origin.firstGeneration worker).ref ∧ worker.ancestors =
    (Origin.firstGeneration worker).ancestors ∧ (sessionStem worker.ref).utf8ByteSize < 255 := by
  have hd : Distinguishes (digested worker.ref worker.ancestors++
      digested (Origin.firstGeneration worker).ref (Origin.firstGeneration worker).ancestors) := by
    unfold Distinguishes
    decide +kernel
  have he : sessionStem worker.ref = sessionStem (Origin.firstGeneration worker).ref := rfl
  obtain ⟨hinj,hsize,-⟩ := stems_identify worker (.firstGeneration worker) hd
  exact ⟨he,(hinj he).2.2.2,hsize⟩

end Session
