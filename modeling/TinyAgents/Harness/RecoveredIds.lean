import Mathlib.Data.List.Nodup
import TinyAgents.Interaction.Text

namespace Harness.RecoveredIds

open Interaction List

structure Fingerprint where
  digest : List UInt8 → List UInt8
  injective : digest.Injective

def Fingerprint.text (F : Fingerprint) (id : String) : String :=
  String.ofList (hexBytes (F.digest id.toByteArray.data.toList))

def recoveredToolCallIdMaxLen : Nat := 40

-- What a response brings: the calls the stream scrubber completed and those found in its text.
structure Response where
  scrubbed : Nat := 0
  parsed : Nat := 0

variable (F : Fingerprint) (runId : String)

def recoveredToolCallId (modelCallId : String) (slot : Nat) : String :=
  let verbatim := modelCallId++"-tool-"++toString slot
  if verbatim.length ≤ recoveredToolCallIdMaxLen then verbatim
  else "mc"++F.text modelCallId++"-tool-"++toString slot

def mint (position : Nat × Nat) : String :=
  recoveredToolCallId F (runId++"-model-"++toString (position.1+1)) (position.2+1)

-- The responses of one invocation, which counts its model calls from the start.
abbrev Invocation := List Response

def Invocation.positions (invocation : Invocation) : List (Nat × Nat) :=
  invocation.zipIdx.flatMap fun (response,call) =>
    (range response.scrubbed++range response.parsed).map (call,·)

variable (invocations : List Invocation)

def positions : List (Nat × Nat) :=
  invocations.flatMap Invocation.positions

def Response.Recovers (response : Response) : Prop := 0 < response.scrubbed ∨ 0 < response.parsed

-- At each number of a model call at most one invocation recovers calls, and in one way.
def SingleSource : Prop :=
  (∀ invocation ∈ invocations, ∀ response ∈ invocation,
    ¬ (0 < response.scrubbed ∧ 0 < response.parsed)) ∧
  invocations.Pairwise fun a b => ∀ (call : Nat), ∀ x ∈ a[call]?, ∀ y ∈ b[call]?,
    ¬ (x.Recovers ∧ y.Recovers)

def recoveredIds : List String :=
  (positions invocations).map (mint F runId)

theorem tool_inj {x y : String} {m n : Nat}
    (h : x++"-tool-"++toString m = y++"-tool-"++toString n) : x = y ∧ m = n := by
  have hlist := congrArg String.toList h
  simp only [String.toList_append,show "-tool-".toList = "-tool".toList++['-'] from rfl,
    append_assoc,singleton_append] at hlist
  rw [← append_assoc,← append_assoc] at hlist
  obtain ⟨hid,hn⟩ := append_number_inj (by decide) hlist
  exact ⟨String.toList_inj.1 (append_cancel_right hid),hn⟩

variable {F runId}

theorem mint_injective : (mint F runId).Injective := by
  rintro ⟨m,j⟩ ⟨n,k⟩ h
  have hmodel {m n : Nat}
      (h : runId++"-model-"++toString (m+1) = runId++"-model-"++toString (n+1)) :
      m = n := by
    have hlist := congrArg String.toList h
    simp only [String.toList_append,append_assoc] at hlist
    have hn := toString_nat_inj (append_cancel_left (append_cancel_left hlist))
    omega
  -- A fingerprint has no dash, an id that is kept has one.
  have hmixed {n : Nat} {id : String} : runId++"-model-"++toString (n+1) ≠ "mc"++F.text id := by
    intro h
    have hdash : '-' ∈ ("mc"++F.text id).toList := by
      rw [← h]
      simp
    simp only [String.toList_append,mem_append,Fingerprint.text,String.toList_ofList] at hdash
    exact hdash.elim (by decide) (notMem_hexBytes (c := '-') (by decide))
  simp only [mint,recoveredToolCallId] at h
  split at h <;> split at h <;> obtain ⟨hid,hslot⟩ := tool_inj h
  · rw [hmodel hid,Nat.succ.inj hslot]
  · exact absurd hid hmixed
  · exact absurd hid.symm hmixed
  · have hlist := congrArg String.toList hid
    simp only [String.toList_append,Fingerprint.text,String.toList_ofList] at hlist
    have hbytes := F.injective (hexBytes_injective (append_cancel_left hlist))
    have htext := String.toByteArray_inj.1 (ByteArray.ext (Array.toList_inj.1 hbytes))
    rw [hmodel htext,Nat.succ.inj hslot]

theorem mem_positions {invocation : Invocation} {call slot : Nat} :
    (call,slot) ∈ invocation.positions ↔
      ∃ response ∈ invocation[call]?, slot < response.scrubbed ∨ slot < response.parsed := by
  simp only [Invocation.positions,mem_flatMap,mem_zipIdx_iff_getElem?,mem_map,mem_append,mem_range,
    Prod.mk.injEq,Prod.exists,Option.mem_def]
  constructor
  · rintro ⟨response,_,hr,_,hs,rfl,rfl⟩
    exact ⟨response,hr,hs⟩
  · exact fun ⟨response,hr,hs⟩ => ⟨response,call,hr,slot,hs,rfl,rfl⟩

theorem nodup_slots {n m : Nat} : (range n++range m).Nodup ↔ ¬ (0 < n ∧ 0 < m) := by
  rw [nodup_append']
  refine ⟨fun h hpos => h.2.2 (mem_range.2 hpos.1) (mem_range.2 hpos.2),fun h => ?_⟩
  refine ⟨nodup_range,nodup_range,fun k hn hm => h ?_⟩
  exact ⟨Nat.zero_lt_of_lt (mem_range.1 hn),Nat.zero_lt_of_lt (mem_range.1 hm)⟩

theorem nodup_invocation {invocation : Invocation} :
    invocation.positions.Nodup ↔
      ∀ response ∈ invocation, ¬ (0 < response.scrubbed ∧ 0 < response.parsed) := by
  have hcalls : invocation.zipIdx.Pairwise fun x y => x.2 ≠ y.2 :=
    by
    rw [← pairwise_map,zipIdx_map_snd]
    exact nodup_range'
  rw [Invocation.positions,nodup_flatMap,and_iff_left (hcalls.imp fun hne => ?_)]
  · simp only [Prod.forall]
    constructor
    · intro h response hr
      obtain ⟨call,hc⟩ := getElem?_of_mem hr
      exact nodup_slots.1 (.of_map _ (h _ call (mem_zipIdx_iff_getElem?.2 hc)))
    · intro h response call hm
      have hr := mem_of_getElem? (mem_zipIdx_iff_getElem?.1 hm)
      exact (nodup_slots.2 (h response hr)).map fun _ _ he => (Prod.mk.inj he).2
  · intro position hx hy
    obtain ⟨_,-,rfl⟩ := mem_map.1 hx
    obtain ⟨_,-,he⟩ := mem_map.1 hy
    exact hne (congrArg Prod.fst he).symm

theorem nodup_positions_iff {invocations : List Invocation} :
    (positions invocations).Nodup ↔ SingleSource invocations := by
  rw [positions,nodup_flatMap]
  refine and_congr (forall₂_congr fun _ _ => nodup_invocation) ⟨.imp ?_,.imp ?_⟩
  · intro a b h call x hx y hy ⟨hrx,hry⟩
    exact h (mem_positions.2 ⟨x,hx,hrx⟩) (mem_positions.2 ⟨y,hy,hry⟩)
  · rintro a b h ⟨call,slot⟩ ha hb
    obtain ⟨x,hx,hs⟩ := mem_positions.1 ha
    obtain ⟨y,hy,ht⟩ := mem_positions.1 hb
    exact h call x hx y hy ⟨hs.imp Nat.zero_lt_of_lt Nat.zero_lt_of_lt,
      ht.imp Nat.zero_lt_of_lt Nat.zero_lt_of_lt⟩
theorem recovered_ids_unique_iff (F : Fingerprint) (runId : String)
    (invocations : List Invocation) :
    (recoveredIds F runId invocations).Nodup ↔ SingleSource invocations :=
  (nodup_map_iff mint_injective).trans nodup_positions_iff

-- The resumed run counts its model calls from one again; and the parser of a streamed response
-- counts from the first slot again.
theorem recovered_ids_repeat : let F : Fingerprint := ⟨id,fun _ _ h => h⟩
    recoveredIds F "run" [[{ parsed := 1 }],[{ parsed := 1 }]] =
        ["run-model-1-tool-1","run-model-1-tool-1"] ∧
      recoveredIds F "run" [[{ scrubbed := 1, parsed := 1 }]] =
        ["run-model-1-tool-1","run-model-1-tool-1"] := by
  decide +kernel

end Harness.RecoveredIds
