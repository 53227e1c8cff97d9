import Mathlib.Data.List.Nodup
import TinyAgents.Harness.NestedCalls
import TinyAgents.Interaction.Text

namespace Harness.NestedIds

open Interaction List Function NestedCalls

-- A caller is an execution of a model-issued call and the numbers of the calls below it,
-- innermost first.
def callId (root : String) : List Nat → String
  | [] => root
  | index :: path => nestedCallId (callId root path) index

structure Served where
  roots : List String := []
  issued : Caller → Nat := fun _ => 0
  nested : List Caller := []

variable (models : List String) (s : Served)

def Served.root (execution : Nat) : String := s.roots.getD execution ""

def Served.id (call : Caller) : String := callId (s.root call.issuer) call.path

def Served.Made (call : Caller) : Prop :=
  call.path = [] ∧ call.issuer < s.roots.length ∨ call ∈ s.nested

instance (s : Served) (call : Caller) : Decidable (s.Made call) :=
  inferInstanceAs (Decidable (_ ∨ _))

inductive Event where
  | execute (id : String)
  | serve (parent : Caller)

def step : Event → Served
  | .execute id => if id ∈ models then { s with roots := s.roots++[id] } else s
  | .serve parent =>
    if s.Made parent then
      { s with
        issued := update s.issued parent (s.issued parent+1)
        nested := s.nested++[⟨parent.issuer,s.issued parent :: parent.path⟩] }
    else s

def run (events : List Event) : Served :=
  events.foldl (step models) {}

structure Numbered : Prop where
  roots : ∀ root ∈ s.roots, root ∈ models
  nodup : s.nested.Nodup
  made : ∀ call ∈ s.nested, ∃ index path, call.path = index :: path ∧
    index < s.issued ⟨call.issuer,path⟩ ∧ s.Made ⟨call.issuer,path⟩
  first : ∀ execution, 0 < s.issued ⟨execution,[]⟩ → ⟨execution,[0]⟩ ∈ s.nested

variable {models} {s : Served}

theorem Numbered.step (h : Numbered models s) (event : Event) :
    Numbered models (step models s event) := by
  cases event with
  | execute id =>
    simp only [NestedIds.step]
    split
    next hid =>
      refine ⟨fun root hr => ?_,h.nodup,fun call hc => ?_,h.first⟩
      · rcases mem_append.1 hr with hr | hr
        · exact h.roots root hr
        · rwa [mem_singleton.1 hr]
      obtain ⟨index,path,hpath,hlt,hm⟩ := h.made call hc
      refine ⟨index,path,hpath,hlt,hm.imp_left fun hr => ⟨hr.1,?_⟩⟩
      rw [length_append]
      exact Nat.lt_add_right _ hr.2
    · exact h
  | serve parent =>
    obtain ⟨execution,path⟩ := parent
    simp only [NestedIds.step]
    split
    next hp =>
      refine ⟨h.roots,nodup_append.2 ⟨h.nodup,nodup_singleton _,?_⟩,fun call hc => ?_,
        fun other ho => ?_⟩
      · rintro call hc _ hm rfl
        cases mem_singleton.1 hm
        obtain ⟨_,_,hpath,hlt,-⟩ := h.made _ hc
        cases hpath
        exact Nat.lt_irrefl _ hlt
      · rcases mem_append.1 hc with hc | hc
        · obtain ⟨index,tail,hpath,hlt,hm⟩ := h.made call hc
          refine ⟨index,tail,hpath,?_,hm.imp_right (mem_append_left _)⟩
          by_cases he : Caller.mk call.issuer tail = ⟨execution,path⟩
          · simpa [he] using Nat.lt_succ_of_lt (he ▸ hlt)
          · simpa [update_of_ne he] using hlt
        · rw [mem_singleton.1 hc]
          exact ⟨_,_,rfl,by simp,hp.imp_right (mem_append_left _)⟩
      · by_cases hz : 0 < s.issued ⟨other,[]⟩
        · exact mem_append_left _ (h.first other hz)
        by_cases he : Caller.mk other [] = ⟨execution,path⟩
        · cases he
          simp [Nat.eq_zero_of_not_pos hz]
        · exact absurd (by simpa [update_of_ne he] using ho) hz
    · exact h

theorem numbered_run (events : List Event) : Numbered models (run models events) := by
  have hfold : ∀ s, Numbered models s → Numbered models (events.foldl (step models) s) := by
    induction events with
    | nil => exact fun _ h => h
    | cons event _ ih => exact fun _ h => ih _ (h.step event)
  exact hfold {} ⟨nofun,nodup_nil,nofun,nofun⟩

theorem Numbered.parent (h : Numbered models s) {execution index : Nat} {path : List Nat}
    (hm : s.Made ⟨execution,index :: path⟩) : s.Made ⟨execution,path⟩ := by
  rcases hm with ⟨hm,-⟩ | hm
  · cases hm
  obtain ⟨_,_,hpath,-,hm⟩ := h.made _ hm
  cases hpath
  exact hm

theorem Numbered.outermost (h : Numbered models s) {execution : Nat} {path : List Nat}
    (hc : ⟨execution,path⟩ ∈ s.nested) :
    execution < s.roots.length ∧ ⟨execution,[0]⟩ ∈ s.nested := by
  induction path with
  | nil =>
    obtain ⟨_,_,hpath,-⟩ := h.made _ hc
    cases hpath
  | cons _ path ih =>
    obtain ⟨_,_,hpath,hlt,hm⟩ := h.made _ hc
    cases hpath
    rcases hm with ⟨hnil,hroot⟩ | hm
    · cases hnil
      exact ⟨hroot,h.first execution (Nat.zero_lt_of_lt hlt)⟩
    · exact ih hm

theorem root_mem {execution : Nat} (h : execution < s.roots.length) :
    s.root execution ∈ s.roots := by
  simp [Served.root,getElem?_eq_getElem h]

theorem callId_cons_inj {a b : String} {i j : Nat} {p q : List Nat}
    (h : callId a (i :: p) = callId b (j :: q)) : i = j ∧ callId a p = callId b q := by
  have hlist := congrArg String.toList h
  simp only [callId,nestedCallId,String.toList_append,append_assoc] at hlist
  obtain ⟨hid,hn⟩ := append_number_inj (c := '/') (by decide) hlist
  exact ⟨Nat.succ.inj hn,String.toList_inj.1 hid⟩

def Apart (models roots : List String) : Prop :=
  ∀ root ∈ roots, ∀ index path, callId root (index :: path) ∉ models

theorem apart_of_no_slash {roots : List String} (h : ∀ id ∈ models, '/' ∉ id.toList) :
    Apart models roots := by
  intro root _ index path hid
  exact h _ hid (by simp [callId,nestedCallId])

section

variable (h : Numbered models s) (happart : Apart models s.roots)

include h happart

theorem Numbered.clear {call : Caller} (hc : call ∈ s.nested) : s.id call ∉ models := by
  obtain ⟨index,path,hpath,-⟩ := h.made call hc
  rw [Served.id,hpath]
  exact happart _ (root_mem (h.outermost hc).1) index path

theorem Numbered.nil_of_root {e f : Nat} {q : List Nat} (he : s.Made ⟨e,[]⟩) (hq : s.Made ⟨f,q⟩)
    (hid : s.root e = callId (s.root f) q) : q = [] := by
  rcases hq with ⟨hq,-⟩ | hq
  · exact hq
  rcases he with ⟨-,he⟩ | he
  · have hroot := h.roots _ (root_mem he)
    rw [hid] at hroot
    exact absurd hroot (h.clear happart hq)
  · obtain ⟨_,_,hpath,-⟩ := h.made _ he
    cases hpath

-- The two paths are read from the inside until one of them ends.
theorem Numbered.eq_of_id {e f : Nat} {p q : List Nat} (hp : s.Made ⟨e,p⟩) (hq : s.Made ⟨f,q⟩)
    (hid : callId (s.root e) p = callId (s.root f) q) : s.root e = s.root f ∧ p = q := by
  induction p generalizing q with
  | nil =>
    cases h.nil_of_root happart hp hq hid
    exact ⟨hid,rfl⟩
  | cons i p ih =>
    cases q with
    | nil => cases h.nil_of_root happart hq hp hid.symm
    | cons j q =>
      obtain ⟨rfl,htail⟩ := callId_cons_inj hid
      obtain ⟨hroot,rfl⟩ := ih (h.parent hp) (h.parent hq) htail
      exact ⟨hroot,rfl⟩

end

variable (models s) in
def Unique : Prop :=
  (s.nested.map s.id).Nodup ∧ ∀ call ∈ s.nested, s.id call ∉ models

theorem nested_ids_unique_iff (models : List String) (events : List Event)
    (happart : Apart models (run models events).roots) :
    let s := run models events
    Unique models s ↔
      ∀ x ∈ s.nested, ∀ y ∈ s.nested, s.root x.issuer = s.root y.issuer → x.issuer = y.issuer := by
  have h : Numbered models (run models events) := numbered_run events
  generalize run models events = s at h happart
  constructor
  · rintro ⟨hnodup,-⟩ x hx y hy hroot
    have hfirst := inj_on_of_nodup_map hnodup (h.outermost hx).2 (h.outermost hy).2
      (by simp only [Served.id,hroot])
    exact (Caller.mk.inj hfirst).1
  · intro honce
    refine ⟨h.nodup.map_on fun x hx y hy hid => ?_,fun _ => h.clear happart⟩
    obtain ⟨hroot,hpath⟩ := h.eq_of_id happart (.inr hx) (.inr hy) hid
    have hissuer := honce x hx y hy hroot
    cases x
    cases y
    cases hissuer
    cases hpath
    rfl

def lookups : List Event :=
  [.execute "a",.serve ⟨0,[]⟩,.serve ⟨0,[0]⟩,.execute "b",.serve ⟨1,[]⟩]

theorem nested_ids_unique_iff_lookups :
    Apart ["a","b"] (run ["a","b"] lookups).roots ∧ Unique ["a","b"] (run ["a","b"] lookups) := by
  have happart : Apart ["a","b"] (run ["a","b"] lookups).roots :=
    apart_of_no_slash (by decide)
  exact ⟨happart,(nested_ids_unique_iff _ _ happart).2 (by decide +kernel)⟩

def nestedIds (models : List String) (events : List Event) : List String :=
  (run models events).nested.map (run models events).id

-- The id of the first nested call is one of the model's; and a call that deferred itself after
-- it had made a nested call runs again when it is approved.
theorem nested_ids_repeat :
    nestedIds ["a","a/1"] [.execute "a",.execute "a/1",.serve ⟨0,[]⟩,.serve ⟨0,[0]⟩,
        .serve ⟨1,[]⟩] = ["a/1","a/1/1","a/1/1"] ∧
      nestedIds ["a"] [.execute "a",.serve ⟨0,[]⟩,.execute "a",.serve ⟨1,[]⟩] = ["a/1","a/1"] := by
  decide +kernel

end Harness.NestedIds
