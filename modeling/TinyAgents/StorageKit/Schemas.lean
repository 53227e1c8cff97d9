import Mathlib.Data.List.Nodup
import TinyAgents.StorageKit.Keys

namespace StorageKit

open List

namespace Schemas

open Interaction (ok_of_bind)

inductive ErrorKind where
  | invalidInput
  | notFound
  | alreadyExists
  | conflict
  | unavailable
  | unsupported
  | outOfFuel
  | other
  deriving DecidableEq

structure Failure where
  kind : ErrorKind
  message : String
  deriving DecidableEq

def invalidInput (message : String) : Failure := ⟨.invalidInput,message⟩

def wordChar (c : Char) : Bool := c.isLower || c.isDigit || c == '_'

def reservedOwner : String := "tsd"

def ownerName (name : String) : Bool :=
  decide (2 ≤ name.utf8ByteSize ∧ name.utf8ByteSize ≤ 24) && name.toList.head?.any Char.isLower &&
    name.toList.all wordChar

structure Owner where
  name : String
  valid : ownerName name = true
  unreserved : name ≠ reservedOwner

def Owner.new (name : String) : Except Failure Owner :=
  if valid : ownerName name = true then
    if reserved : name = reservedOwner then
      .error (invalidInput ("owner `"++reservedOwner++
        "` is reserved for the storage crate's own collections"))
    else .ok ⟨name,valid,reserved⟩
  else .error (invalidInput ("owner `"++name++"` must match [a-z][a-z0-9_]\x7b1,23\x7d"))

structure CollectionSpec (D : Type) where
  name : String
  details : D

inductive Item (D : Type) where
  | collection (name : String) (version : Nat) (spec : CollectionSpec D)
  | stream (name : String)
  | blobs (path : String)
  | secrets (path : String)

def Item.name {D : Type} : Item D → String
  | .collection name _ _ | .stream name => name
  | .blobs path | .secrets path => path

structure Meta where
  schema : Nat
  createdMs : Int := 0
  expiresMs : Option Int := none

variable (V : Type)

structure SourceRecord where
  id : String
  body : V
  info : Meta

inductive Expiry where
  | carry
  | never
  | at (ms : Int)

structure TargetRecord where
  collection : String
  id : String
  body : V
  createdMs : Option Int := none
  expires : Expiry := .carry

abbrev StepFn := List (SourceRecord V) → Except Failure (List (TargetRecord V))

abbrev StreamStepFn := String → List V → Except Failure (Option (String × List V))

abbrev BlobStepFn := String → Option String → List UInt8 →
  Except Failure (Option (String × Option String × List UInt8))

inductive Transform (F : Type) where
  | closure (run : F)
  | external (operation : String) (version : Nat)

inductive PreparedBody (V : Type) where
  | documents (run : Transform (StepFn V))
  | streams (run : Transform (StreamStepFn V))
  | blobs (run : Transform BlobStepFn)

structure PreparedStep where
  id : String
  item : String
  fromVersion : Nat
  toVersion : Nat
  source : Option String
  run : PreparedBody V

def PreparedStep.sourceCollection {V : Type} (step : PreparedStep V) : String :=
  step.source.getD step.item

structure PreparedSchema (V D : Type) where
  owner : Owner
  items : List (Item D)
  steps : List (PreparedStep V)

structure Rules (D : Type) where
  validateCollection : String → Except Failure Unit
  validateSpec : CollectionSpec D → Except Failure Unit
  validateStream : String → Except Failure Unit
  maxCollectionLen : Nat
  sealedBlobPath : String

def maxBlobKeyLen : Nat := 1024

section

variable {V D : Type} (rules : Rules D)

def refuse (c : Prop) [Decidable c] (e : Failure) : Except Failure Unit :=
  if c then .error e else .ok ()

def withContext (e : Failure) (name : String) : Failure :=
  invalidInput ("`"++name++"`: "++e.message)

variable (schema : PreparedSchema V D) (owner : Owner)

def after (separator : Char) (name : String) : Option (List Char) :=
  let head := owner.name.toList++[separator]
  if head.isPrefixOf name.toList then some (name.toList.drop head.length) else none

def outsidePrefix (name what : String) (separator : Char) (owners : List String) : Failure :=
  let head := String.ofList (name.toList.takeWhile (· != separator))
  let note := if head != owner.name && owners.contains head then
    "; it belongs to owner `"++head++"`" else ""
  invalidInput (what++" `"++name++"` declared by owner `"++owner.name++"` must start with `"++
    owner.name++String.singleton separator++"`"++note)

def entityName : List Char → Bool
  | [] => false
  | c :: cs => c.isLower && cs.all wordChar

def checkDotted (name what : String) (owners : List String) : Except Failure Unit :=
  match after owner '.' name with
  | none => .error (outsidePrefix owner name what '.' owners)
  | some entity =>
    if entityName entity then .ok ()
    else .error (invalidInput (what++" `"++name++"` of owner `"++owner.name++
      "`: the entity after `"++owner.name++
      ".` must be lowercase snake case ([a-z][a-z0-9_]*)"))

def segments (rest : List Char) : List (List Char) :=
  let parts := rest.splitOn '/'
  if parts.getLast? = some [] then parts.dropLast else parts

def plainPath (path : String) (rest : List Char) : Bool :=
  !(segments rest).isEmpty && decide (path.utf8ByteSize ≤ maxBlobKeyLen) &&
    path.toList.all (fun c => c != '\x00' && c != '\\') &&
    (segments rest).all fun part => !part.isEmpty && part != ['.'] && part != ['.','.']

def checkPrefix (path what : String) (owners : List String) : Except Failure Unit :=
  match after owner '/' path with
  | none => .error (outsidePrefix owner path what '/' owners)
  | some rest =>
    if plainPath path rest then .ok ()
    else .error (invalidInput (what++" `"++path++"` of owner `"++owner.name++"` must be `"++
      owner.name++"/` followed by plain path segments"))

def checkItem (owners : List String) : Item D → Except Failure Unit
  | .collection name version spec => do
    checkDotted owner name "collection" owners
    (rules.validateCollection name).mapError (withContext · name)
    refuse (spec.name ≠ name) (invalidInput ("collection `"++name++"` of owner `"++owner.name++
      "` carries a spec for `"++spec.name++"`"))
    (rules.validateSpec spec).mapError (withContext · name)
    refuse (version = 0) (invalidInput ("collection `"++name++"` of owner `"++owner.name++
      "` is declared at version 0; versions start at 1"))
  | .stream name => do
    checkDotted owner name "stream" owners
    refuse (rules.maxCollectionLen < name.utf8ByteSize) (invalidInput ("stream `"++name++
      "` of owner `"++owner.name++"` is longer than "++toString rules.maxCollectionLen++
      " bytes"))
  | .blobs path => checkPrefix owner path "blob prefix" owners
  | .secrets path => checkPrefix owner path "secret prefix" owners

def bodyFits : PreparedBody V → Item D → Bool
  | .documents _, .collection _ _ _ | .streams _, .stream _ | .blobs _, .blobs _ => true
  | _, _ => false

def PreparedBody.wanted : PreparedBody V → String
  | .documents _ => "collection"
  | .streams _ => "stream"
  | .blobs _ => "blob prefix"

def checkStepKind (step : PreparedStep V) (item : Item D) : Except Failure Unit :=
  if bodyFits step.run item then .ok ()
  else .error (invalidInput ("step `"++step.id++"` targets `"++step.item++"`, which is not a "++
    step.run.wanted++" declared by its owner; collection steps rewrite collections, "++
    "stream steps move streams and blob steps move blob prefixes"))

def startsWith (text head : String) : Bool := head.toList.isPrefixOf text.toList

def checkSource (step : PreparedStep V) (item : Item D) : Except Failure Unit :=
  let fail (why : String) : Failure :=
    invalidInput ("step `"++step.id++"` of `"++step.item++"` has source `"++
      step.source.getD ""++"`: "++why)
  match step.run, step.source with
  | .documents _, some source =>
    (rules.validateCollection source).mapError fun e => fail e.message
  | .documents _, none => .ok ()
  | _, none => .error (invalidInput ("step `"++step.id++"` of `"++step.item++
      "` needs a legacy source prefix: set it with `source_prefix`"))
  | body, some source => do
    let blobs := match body with | .blobs _ => true | _ => false
    let valid := if blobs then
        source != "" && decide (source.utf8ByteSize ≤ maxBlobKeyLen) &&
          source.toList.all (· != '\x00')
      else (rules.validateStream source).isOk
    refuse (valid = false) (fail "not a valid prefix")
    refuse (startsWith source item.name || startsWith item.name source)
      (fail ("it overlaps the item `"++item.name++"`, so the step would read its own output"))
    refuse (blobs && (startsWith source rules.sealedBlobPath ||
        startsWith rules.sealedBlobPath source))
      (fail ("it overlaps `"++rules.sealedBlobPath++"`, which holds sealed streams"))

variable (steps : List (PreparedStep V)) (name : String)

def chainOf : List (PreparedStep V) :=
  steps.filter fun step => step.item = name

def checkStep (earlier : List (PreparedStep V)) (step : PreparedStep V) : Except Failure Unit :=
  match schema.items.find? fun item => item.name = step.item with
  | none => .error (invalidInput ("step `"++step.id++"` targets `"++step.item++
      "`, which is not declared by owner `"++schema.owner.name++"`"))
  | some item => do
    checkStepKind step item
    refuse (step.toVersion ≤ step.fromVersion) (invalidInput ("step `"++step.id++"` of `"++
      step.item++"` must go up, but runs from version "++toString step.fromVersion++" to "++
      toString step.toVersion))
    checkSource rules step item
    refuse ((chainOf earlier step.item).any fun other => other.id = step.id)
      (invalidInput ("step id `"++step.id++"` is used twice for `"++step.item++"`"))

def checkEachStep (schema : PreparedSchema V D) :
    (earlier : List (PreparedStep V)) → List (PreparedStep V) → Except Failure Unit
  | _, [] => .ok ()
  | earlier, step :: rest => do
    checkStep rules schema earlier step
    checkEachStep schema (earlier++[step]) rest

def checkGaps : List (PreparedStep V) → Except Failure Unit
  | earlier :: later :: rest =>
    if later.fromVersion ≠ earlier.toVersion then
      .error (invalidInput ("step gap for `"++name++"`: `"++later.id++"` starts at "++
        toString later.fromVersion++" after `"++earlier.id++"` ended at "++
        toString earlier.toVersion))
    else checkGaps (later :: rest)
  | _ => .ok ()

def checkUnversionedChain : List (PreparedStep V) → Except Failure Unit
  | [] => .ok ()
  | first :: rest =>
    if first.fromVersion ≠ 1 then
      .error (invalidInput ("steps for `"++name++"` must start at version 1, but `"++
        first.id++"` starts at "++toString first.fromVersion))
    else checkGaps name (first :: rest)

def checkChain (version : Nat) : List (PreparedStep V) → Except Failure Unit
  | [] =>
    if version = 1 then .ok ()
    else .error (invalidInput ("`"++name++"` is declared at version "++toString version++
      " but has no steps from version 1"))
  | first :: rest => do
    checkUnversionedChain name (first :: rest)
    let last := (first :: rest).getLast (cons_ne_nil _ _)
    refuse (last.toVersion ≠ version) (invalidInput ("the step chain for `"++name++
      "` ends at "++toString last.toVersion++" but version "++toString version++
      " is declared"))

def checkItemChain : Item D → Except Failure Unit
  | .collection name version _ => checkChain name version (chainOf steps name)
  | .stream name => checkUnversionedChain name (chainOf steps name)
  | .blobs path => checkUnversionedChain path (chainOf steps path)
  | .secrets _ => .ok ()

def checkItemChains : List (Item D) → Except Failure Unit
  | [] => .ok ()
  | item :: rest => do
    checkItemChain steps item
    checkItemChains rest

def checkSteps : Except Failure Unit := do
  checkEachStep rules schema [] schema.steps
  checkItemChains schema.steps schema.items

def checkOwners : (seen : List String) → List (PreparedSchema V D) → Except Failure Unit
  | _, [] => .ok ()
  | seen, schema :: rest =>
    if seen.contains schema.owner.name then
      .error (invalidInput ("owner `"++schema.owner.name++"` is declared twice"))
    else checkOwners (seen++[schema.owner.name]) rest

abbrev Claims := List (String × Owner)

def claimItems (owner : Owner) (owners : List String) :
    Claims → List (Item D) → Except Failure Claims
  | claims, [] => .ok claims
  | claims, item :: rest => do
    checkItem rules owner owners item
    match claims.find? fun claim => claim.1 = item.name with
    | some first => throw (invalidInput ("`"++item.name++"` is claimed twice: by owner `"++
        first.2.name++"` and by owner `"++owner.name++"`"))
    | none => claimItems owner owners (claims++[(item.name,owner)]) rest

def claimSchemas (owners : List String) : Claims → List (PreparedSchema V D) → Except Failure Claims
  | claims, [] => .ok claims
  | claims, schema :: rest => do
    let claims ← claimItems rules schema.owner owners claims schema.items
    checkSteps rules schema
    claimSchemas owners claims rest

end

section

variable {V D : Type} {rules : Rules D}

def Chain : Nat → List (PreparedStep V) → Nat → Prop
  | version, [], last => version = last
  | version, step :: rest, last => step.fromVersion = version ∧ version < step.toVersion ∧
      Chain step.toVersion rest last

def Item.separator : Item D → Char
  | .collection _ _ _ | .stream _ => '.'
  | .blobs _ | .secrets _ => '/'

def Item.Within (item : Item D) (owner : Owner) : Prop :=
  ∃ rest, item.name.toList = owner.name.toList++item.separator :: rest

structure SoundSchema (schema : PreparedSchema V D) : Prop where
  names : ∀ item ∈ schema.items, item.Within schema.owner
  targets : ∀ step ∈ schema.steps, ∃ item ∈ schema.items, item.name = step.item ∧
    bodyFits step.run item = true
  ids : (schema.steps.map fun step => (step.item,step.id)).Nodup
  collections : ∀ name version spec, .collection name version spec ∈ schema.items →
    Chain 1 (chainOf schema.steps name) version
  others : ∀ name, .stream name ∈ schema.items ∨ .blobs name ∈ schema.items →
    ∃ last, Chain 1 (chainOf schema.steps name) last

structure Sound (schemas : List (PreparedSchema V D)) : Prop where
  owners : (schemas.map fun schema => schema.owner.name).Nodup
  names : (schemas.flatMap fun schema => schema.items.map Item.name).Nodup
  each : ∀ schema ∈ schemas, SoundSchema schema

theorem not_of_refuse {c : Prop} [Decidable c] {e : Failure} (h : refuse c e = .ok ()) : ¬ c := by
  intro hc
  rw [refuse,if_pos hc] at h
  cases h

variable {owners : List String} {owner : Owner} {schema : PreparedSchema V D} {name : String}

theorem after_eq_some {separator : Char} {rest : List Char}
    (h : after owner separator name = some rest) :
    name.toList = owner.name.toList++separator :: rest := by
  unfold after at h
  dsimp only at h
  split at h
  next hp =>
    obtain ⟨_,ht⟩ := isPrefixOf_iff_prefix.1 hp
    cases h
    rw [← ht,drop_left]
    simp
  · cases h

theorem within_of_checkItem {item : Item D} (h : checkItem rules owner owners item = .ok ()) :
    item.Within owner := by
  cases item with
  | collection | stream =>
    obtain ⟨_,h,-⟩ := ok_of_bind h
    unfold checkDotted at h
    split at h
    · cases h
    next entity he => exact ⟨entity,after_eq_some he⟩
  | blobs | secrets =>
    simp only [checkItem,checkPrefix] at h
    split at h
    · cases h
    next rest he => exact ⟨rest,after_eq_some he⟩

theorem sound_of_checkStep {earlier} {step} (h : checkStep rules schema earlier step = .ok ()) :
    (∃ item ∈ schema.items, item.name = step.item ∧ bodyFits step.run item) ∧ step.fromVersion <
    step.toVersion ∧ (step.item,step.id) ∉ earlier.map fun step => (step.item,step.id) := by
  unfold checkStep at h
  split at h
  · cases h
  next item hitem =>
    obtain ⟨_,hkind,h⟩ := ok_of_bind h
    obtain ⟨_,hup,h⟩ := ok_of_bind h
    obtain ⟨_,-,hid⟩ := ok_of_bind h
    have hname : item.name = step.item := by simpa using List.find?_some hitem
    refine ⟨⟨item,mem_of_find?_eq_some hitem,hname,?_⟩,Nat.lt_of_not_le (not_of_refuse hup),?_⟩
    · unfold checkStepKind at hkind
      split at hkind
      next hb => exact hb
      · cases hkind
    · intro hmem
      obtain ⟨other,ho,heq⟩ := mem_map.1 hmem
      obtain ⟨hi,hd⟩ := Prod.mk.inj heq
      refine not_of_refuse hid (any_eq_true.2 ⟨other,mem_filter.2 ⟨ho,?_⟩,?_⟩)
      · exact decide_eq_true hi
      · exact decide_eq_true hd

theorem sound_of_checkEachStep {steps} :
    ∀ {earlier}, checkEachStep rules schema earlier steps = .ok () →
    (earlier.map fun step => (step.item,step.id)).Nodup →
    (∀ step ∈ steps, (∃ item ∈ schema.items, item.name = step.item ∧ bodyFits step.run item) ∧
      step.fromVersion < step.toVersion) ∧
    ((earlier++steps).map fun step => (step.item,step.id)).Nodup := by
  induction steps with
  | nil =>
    intro _ _ hn
    exact ⟨nofun,by simpa using hn⟩
  | cons step _ ih =>
    intro earlier h hn
    obtain ⟨_,hstep,h⟩ := ok_of_bind h
    obtain ⟨htarget,hup,hnew⟩ := sound_of_checkStep hstep
    have hn' : ((earlier++[step]).map fun step => (step.item,step.id)).Nodup := by
      rw [map_append,nodup_append]
      refine ⟨hn,by simp,?_⟩
      rintro x hx y hy rfl
      rw [map_singleton,mem_singleton] at hy
      exact hnew (hy ▸ hx)
    obtain ⟨hsteps,hall⟩ := ih h hn'
    refine ⟨fun s hs => ?_,by simpa using hall⟩
    rcases mem_cons.1 hs with rfl | hs
    · exact ⟨htarget,hup⟩
    · exact hsteps s hs

theorem chain_of_checkGaps :
    ∀ {first : PreparedStep V} {rest}, checkGaps name (first :: rest) = .ok () →
    (∀ step ∈ first :: rest, step.fromVersion < step.toVersion) →
    Chain first.fromVersion (first :: rest)
      ((first :: rest).getLast (cons_ne_nil _ _)).toVersion := by
  intro first rest
  induction rest generalizing first with
  | nil => exact fun _ hup => ⟨rfl,hup first mem_cons_self,rfl⟩
  | cons _ _ ih =>
    intro h hup
    rw [checkGaps] at h
    split at h
    · cases h
    next hgap =>
      have hc := ih h fun step hs => hup step (mem_cons_of_mem _ hs)
      refine ⟨rfl,hup first mem_cons_self,?_⟩
      rw [← not_not.1 hgap,getLast_cons (cons_ne_nil _ _)]
      exact hc

theorem chain_of_checkUnversionedChain {first : PreparedStep V} {rest}
    (h : checkUnversionedChain name (first :: rest) = .ok ())
    (hup : ∀ step ∈ first :: rest, step.fromVersion < step.toVersion) :
    Chain 1 (first :: rest) ((first :: rest).getLast (cons_ne_nil _ _)).toVersion := by
  rw [checkUnversionedChain] at h
  split at h
  · cases h
  next hone =>
    have hc := chain_of_checkGaps h hup
    rwa [not_not.1 hone] at hc

theorem chain_of_checkChain {version : Nat} {chain : List (PreparedStep V)}
    (h : checkChain name version chain = .ok ())
    (hup : ∀ step ∈ chain, step.fromVersion < step.toVersion) : Chain 1 chain version := by
  cases chain with
  | nil =>
    rw [checkChain] at h
    split at h
    next hv => exact hv.symm
    · cases h
  | cons =>
    obtain ⟨_,hc,hlast⟩ := ok_of_bind h
    rw [← not_not.1 (not_of_refuse hlast)]
    exact chain_of_checkUnversionedChain hc hup

theorem exists_chain {chain : List (PreparedStep V)} (h : checkUnversionedChain name chain = .ok ())
    (hup : ∀ step ∈ chain, step.fromVersion < step.toVersion) : ∃ last, Chain 1 chain last := by
  cases chain with
  | nil => exact ⟨1,rfl⟩
  | cons => exact ⟨_,chain_of_checkUnversionedChain h hup⟩

theorem of_checkItemChains {steps : List (PreparedStep V)} {items : List (Item D)}
    (h : checkItemChains steps items = .ok ()) :
    ∀ item ∈ items, checkItemChain steps item = .ok () := by
  induction items with
  | nil => exact nofun
  | cons _ _ ih =>
    obtain ⟨_,hitem,h⟩ := ok_of_bind h
    intro other hmem
    rcases mem_cons.1 hmem with rfl | hmem
    · exact hitem
    · exact ih h other hmem

theorem of_claimItems {items} :
    ∀ {claims claims' : Claims}, claimItems rules owner owners claims items = .ok claims' →
    (claims.map Prod.fst).Nodup → (∀ item ∈ items, item.Within owner) ∧ claims'.map Prod.fst =
    claims.map Prod.fst++items.map Item.name ∧ (claims'.map Prod.fst).Nodup := by
  induction items with
  | nil =>
    intro _ _ h hn
    cases h
    exact ⟨nofun,by simp,hn⟩
  | cons item _ ih =>
    intro claims _ h hn
    obtain ⟨_,hitem,h⟩ := ok_of_bind h
    split at h
    · cases h
    next hfree =>
      have hn' : ((claims++[(item.name,owner)]).map Prod.fst).Nodup := by
        rw [map_append,nodup_append]
        refine ⟨hn,by simp,?_⟩
        rintro x hx y hy rfl
        rw [map_singleton,mem_singleton] at hy
        obtain ⟨claim,hc,rfl⟩ := mem_map.1 hx
        exact of_decide_eq_false (List.find?_eq_none.1 hfree claim hc |> eq_false_of_ne_true) hy
      obtain ⟨hrest,hnames,hall⟩ := ih h hn'
      refine ⟨fun other hmem => ?_,by simpa using hnames,hall⟩
      rcases mem_cons.1 hmem with rfl | hmem
      · exact within_of_checkItem hitem
      · exact hrest other hmem

theorem sound_of_checkSteps (hnames : ∀ item ∈ schema.items, item.Within schema.owner)
    (h : checkSteps rules schema = .ok ()) : SoundSchema schema := by
  obtain ⟨_,hsteps,hchains⟩ := ok_of_bind h
  obtain ⟨heach,hids⟩ := sound_of_checkEachStep hsteps (by simp)
  have hup name : ∀ step ∈ chainOf schema.steps name,
      step.fromVersion < step.toVersion :=
    fun step hs => (heach step (mem_filter.1 hs).1).2
  have hchain := of_checkItemChains hchains
  refine ⟨hnames,fun step hs => (heach step hs).1,by simpa using hids,?_,?_⟩
  · intro name _ _ hmem
    exact chain_of_checkChain (hchain _ hmem) (hup name)
  · rintro name (hmem | hmem)
    all_goals exact exists_chain (hchain _ hmem) (hup name)

variable {schemas : List (PreparedSchema V D)}

theorem sound_of_claimSchemas :
    ∀ {claims claims' : Claims}, claimSchemas rules owners claims schemas = .ok claims' →
    (claims.map Prod.fst).Nodup → (∀ schema ∈ schemas, SoundSchema schema) ∧
    (claims.map Prod.fst++schemas.flatMap fun schema => schema.items.map Item.name).Nodup := by
  induction schemas with
  | nil =>
    intro _ _ _ hn
    exact ⟨nofun,by simpa using hn⟩
  | cons _ _ ih =>
    intro _ _ h hn
    obtain ⟨_,hitems,h⟩ := ok_of_bind h
    obtain ⟨_,hsteps,h⟩ := ok_of_bind h
    obtain ⟨hwithin,hnames,hn'⟩ := of_claimItems hitems hn
    obtain ⟨hrest,hall⟩ := ih h hn'
    refine ⟨fun other hmem => ?_,?_⟩
    · rcases mem_cons.1 hmem with rfl | hmem
      · exact sound_of_checkSteps hwithin hsteps
      · exact hrest other hmem
    · rw [hnames] at hall
      simpa using hall

theorem nodup_of_checkOwners :
    ∀ {seen : List String}, checkOwners seen schemas = .ok () → seen.Nodup →
    (seen++schemas.map fun schema => schema.owner.name).Nodup := by
  induction schemas with
  | nil =>
    intro _ _ hn
    simpa using hn
  | cons schema _ ih =>
    intro seen h hn
    rw [checkOwners] at h
    split at h
    · cases h
    next hnew =>
      have hn' : (seen++[schema.owner.name]).Nodup := by
        refine nodup_append.2 ⟨hn,by simp,?_⟩
        rintro x hx y hy rfl
        rw [mem_singleton] at hy
        exact hnew (contains_iff_mem.2 (hy ▸ hx))
      simpa using ih h hn'

end

variable {V D : Type}

structure PreparedRegistry (V D : Type) where
  schemas : List (PreparedSchema V D)
  sound : Sound schemas

def compose (rules : Rules D) (schemas : List (PreparedSchema V D)) :
    Except Failure (PreparedRegistry V D) :=
  match ho : checkOwners [] schemas with
  | .error e => .error e
  | .ok () =>
    let owners := schemas.map fun schema => schema.owner.name
    match hc : claimSchemas rules owners [] schemas with
    | .error e => .error e
    | .ok _ => .ok ⟨schemas,by simpa using nodup_of_checkOwners ho (by simp),
        by simpa using (sound_of_claimSchemas hc (by simp)).2,
        (sound_of_claimSchemas hc (by simp)).1⟩

namespace PreparedRegistry

variable (registry : PreparedRegistry V D)

def collectionVersion (name : String) : Option Nat :=
  (registry.schemas.flatMap fun schema => schema.items).findSome? fun item =>
    match item with
    | .collection other version _ => if other = name then some version else none
    | _ => none

def declared : List String :=
  registry.schemas.flatMap fun schema => schema.items.map Item.name

def stepped : List String :=
  registry.schemas.flatMap fun schema => schema.steps.map fun step => step.item

def steps : List (Owner × PreparedStep V) :=
  registry.schemas.flatMap fun schema => schema.steps.map fun step => (schema.owner,step)

def migrating (item : String) : Failure := ⟨.unavailable,"migrating "++item⟩

abbrev Pending := String → Option (List String)

def checkDeclared (item : String) : Except Failure Unit :=
  if registry.declared.contains item then .ok ()
  else .error ⟨.notFound,"unknown storage item `"++item++"`"⟩

def checkReadyIn (pending : Pending) (scope item : String) : Except Failure Unit := do
  registry.checkDeclared item
  if !registry.stepped.contains item then .ok ()
  else if (pending scope).any fun items => !items.contains item then .ok ()
  else .error (migrating item)

end PreparedRegistry

end Schemas

end StorageKit
