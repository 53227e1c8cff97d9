import Mathlib.Algebra.GroupWithZero.Nat
import Mathlib.Data.List.Induction

namespace Harness.Summarization

open List

structure ToolCall where
  id : String
  deriving DecidableEq

-- `P` is what a message carries besides its role and its tool ids.
inductive Message (P : Type) where
  | system (content : P)
  | user (content : P)
  | assistant (content : P) (toolCalls : List ToolCall)
  | tool (toolCallId : String) (content : P)
  | custom (content : P)
  deriving DecidableEq

namespace Message

variable {P : Type}

def isSystem : Message P → Bool
  | .system _ => true
  | _ => false

def isTool : Message P → Bool
  | .tool _ _ => true
  | _ => false

def callIds : Message P → List String
  | .assistant _ toolCalls => toolCalls.map ToolCall.id
  | _ => []

def resultId : Message P → Option String
  | .tool toolCallId _ => some toolCallId
  | _ => none

def declaredCallIds (m : Message P) : List String :=
  m.callIds.filter (· ≠ "")

end Message

section

variable {P : Type}

def isToolCallingAssistant : Message P → Bool
  | .assistant _ toolCalls => !toolCalls.isEmpty
  | _ => false

def orphanIds (run : List (Message P)) : List String :=
  (run.filterMap Message.resultId).filter (· ≠ "")

def owner (messages : List (Message P)) (ids : List String) : (index : Nat) → Option Nat
  | 0 => none
  | index+1 =>
    if (messages[index]?.toList.flatMap Message.declaredCallIds).any (ids.contains ·) then
      some index
    else owner messages ids index

variable (messages : List (Message P))

def findSafeCutoffPoint (cutoff : Nat) : Nat :=
  if messages[cutoff]?.any Message.isTool then
    let run := (messages.drop cutoff).takeWhile Message.isTool
    (owner messages (orphanIds run) cutoff).getD (cutoff+run.length)
  else cutoff

def toolPairingFrom (declared answered : List String) : List (Message P) → Bool
  | [] => declared.all answered.contains
  | .assistant _ toolCalls :: rest =>
    toolPairingFrom (declared++toolCalls.map ToolCall.id) answered rest
  | .tool toolCallId _ :: rest =>
    declared.contains toolCallId && toolPairingFrom declared (toolCallId :: answered) rest
  | _ :: rest => toolPairingFrom declared answered rest

def toolPairingIsIntact : Bool :=
  toolPairingFrom [] [] messages

end

variable {P : Type} {ms post : List (Message P)} {m a : Message P} {results left : List (Message P)}

structure Answers (a : Message P) (results : List (Message P)) : Prop where
  tools : ∀ r ∈ results, r.isTool = true
  ids : ∀ id, id ∈ a.callIds ↔ id ∈ results.filterMap Message.resultId

inductive WellFormed : List (Message P) → Prop
  | nil : WellFormed []
  | plain {m : Message P} {rest : List (Message P)} : isToolCallingAssistant m = false →
      m.isTool = false → WellFormed rest → WellFormed (m :: rest)
  | turn {a : Message P} {results rest : List (Message P)} : isToolCallingAssistant a = true →
      Answers a results → WellFormed rest → WellFormed (a :: (results++rest))

theorem callIds_of_tool (h : m.isTool) : m.callIds = [] := by
  cases m with
  | tool => rfl
  | _ => cases h

theorem isTool_of_turn (h : isToolCallingAssistant a) : a.isTool = false := by
  cases a with
  | assistant => rfl
  | _ => cases h

theorem head_isTool (h : WellFormed ms) : ∀ m ∈ ms.head?, m.isTool = false := by
  cases h with
  | nil => simp
  | plain _ ht => simpa using ht
  | turn ha => simpa using isTool_of_turn ha

theorem takeWhile_tools (h : WellFormed post) (hl : ∀ r ∈ left, r.isTool) :
    (left++post).takeWhile Message.isTool = left := by
  induction left with
  | nil =>
    cases post with
    | nil => rfl
    | cons m => simp [head_isTool h m rfl]
  | cons r _ ih =>
    have hr := hl r mem_cons_self
    simp only [cons_append,takeWhile_cons,hr,if_true]
    rw [ih fun r hr => hl r (mem_cons_of_mem _ hr)]

structure Splits (ms : List (Message P)) (n : Nat) (before : List (Message P)) (a : Message P)
    (done left post : List (Message P)) : Prop where
  eq : ms = before++a :: (done++left++post)
  cut : n = before.length+1+done.length
  turn : isToolCallingAssistant a = true
  answers : Answers a (done++left)
  some : left ≠ []
  rest : WellFormed post

variable {done : List (Message P)} {n : Nat}

theorem Splits.shift {before} (h : Splits ms n before a done left post) (pre : List (Message P)) :
    Splits (pre++ms) (pre.length+n) (pre++before) a done left post := by
  refine ⟨?_,?_,h.turn,h.answers,h.some,h.rest⟩
  · rw [h.eq,append_assoc pre]
  · rw [h.cut,length_append]
    omega

theorem cut_cases (h : WellFormed ms) (n : Nat) :
    WellFormed (ms.drop n) ∨ ∃ before a done left post, Splits ms n before a done left post := by
  induction h generalizing n with
  | nil => exact .inl (by simpa using WellFormed.nil)
  | @plain m rest hm ht hr ih =>
    cases n with
    | zero => exact .inl (.plain hm ht hr)
    | succ n =>
      rcases ih n with hw | ⟨before,a,done,left,post,hs⟩
      · exact .inl hw
      have hs' := hs.shift [m]
      rw [length_singleton,Nat.add_comm] at hs'
      exact .inr ⟨_,a,done,left,post,hs'⟩
  | @turn a results rest ha hans hr ih =>
    cases n with
    | zero => exact .inl (.turn ha hans hr)
    | succ n =>
      by_cases hn : n < results.length
      · refine .inr ⟨[],a,results.take n,results.drop n,rest,?_,?_,ha,?_,?_,hr⟩
        · rw [take_append_drop]
          rfl
        · simp only [length_nil,length_take]
          omega
        · rwa [take_append_drop]
        · simpa using hn
      · obtain ⟨k,rfl⟩ := Nat.exists_eq_add_of_le (Nat.le_of_not_lt hn)
        rcases ih k with hw | ⟨before,b,done,left,post,hs⟩
        · left
          have hd : (a :: (results++rest)).drop (results.length+k+1) = rest.drop k := by
            rw [drop_succ_cons,drop_append,drop_of_length_le (by omega),
              Nat.add_sub_cancel_left,nil_append]
          rwa [hd]
        · have hs' := hs.shift (a :: results)
          rw [length_cons,Nat.add_right_comm] at hs'
          exact .inr ⟨_,b,done,left,post,hs'⟩

theorem owner_nil (n : Nat) : owner ms [] n = none := by
  induction n with
  | zero => rfl
  | succ _ ih => simp [owner,ih]

theorem owner_results {ids} {before} (hd : ∀ r ∈ done, r.isTool)
    (ha : a.declaredCallIds.any (ids.contains ·)) :
    owner (before++a :: (done++post)) ids (before.length+1+done.length) = some before.length := by
  induction done using List.reverseRecOn generalizing post with
  | nil =>
    have hat : (before++a :: ([]++post))[before.length]? = some a := by simp
    rw [length_nil,Nat.add_zero,owner,hat]
    simp only [Option.toList_some,flatMap_singleton,ha,if_true]
  | append_singleton done r ih =>
    have hr : r.declaredCallIds = [] := by
      rw [Message.declaredCallIds,callIds_of_tool (hd r (by simp)),filter_nil]
    have hat : (before++a :: (done++[r]++post))[before.length+1+done.length]? = some r := by
      have hlen : before.length+1+done.length = (before++a :: done).length := by
        simp only [length_append,length_cons]
        omega
      have hsplit : before++a :: (done++[r]++post) = (before++a :: done)++r :: post := by simp
      rw [hlen,hsplit,List.getElem?_append_right (Nat.le_refl _)]
      simp
    rw [length_append,length_singleton,← Nat.add_assoc,owner,hat]
    simp only [Option.toList_some,flatMap_singleton,hr,any_nil,Bool.false_eq_true,if_false]
    have hsame : done++[r]++post = done++(r :: post) := by simp
    rw [hsame]
    exact ih fun s hs => hd s (mem_append_left _ hs)

theorem declares_orphan (h : Answers a (done++left)) (hne : orphanIds left ≠ []) :
    a.declaredCallIds.any ((orphanIds left).contains ·) := by
  obtain ⟨id,hid⟩ := exists_mem_of_ne_nil _ hne
  refine any_eq_true.2 ⟨id,?_,by simpa using hid⟩
  obtain ⟨hres,hid⟩ := mem_filter.1 hid
  refine mem_filter.2 ⟨(h.ids id).2 ?_,hid⟩
  rw [filterMap_append]
  exact mem_append_right _ hres

theorem Splits.drop {before} (hs : Splits ms n before a done left post) :
    ms.drop n = left++post := by
  have hsplit : ms = (before++a :: done)++(left++post) := by
    rw [hs.eq]
    simp
  rw [hsplit]
  apply drop_left'
  rw [hs.cut,length_append,length_cons]
  omega

theorem Splits.head {before} (hs : Splits ms n before a done left post) :
    ms[n]?.any Message.isTool := by
  rw [← List.head?_drop,hs.drop]
  cases left with
  | nil => exact (hs.some rfl).elim
  | cons r => simpa using hs.answers.tools r (by simp)

theorem isTool_of_boundary (h : WellFormed (ms.drop n)) : ms[n]?.any Message.isTool = false := by
  have hhead := head_isTool h
  rw [List.head?_drop] at hhead
  cases hm : ms[n]? with
  | none => rfl
  | some m => exact hhead m hm

theorem wellFormed_cutoff (h : WellFormed ms) :
    WellFormed (ms.drop (findSafeCutoffPoint ms n)) := by
  rcases cut_cases h n with hw | ⟨before,a,_,left,_,hs⟩
  · simpa [findSafeCutoffPoint,isTool_of_boundary hw] using hw
  have hleft : ∀ r ∈ left, r.isTool := fun r hr =>
    hs.answers.tools r (mem_append_right _ hr)
  simp only [findSafeCutoffPoint,hs.head,if_true]
  rw [hs.drop,takeWhile_tools hs.rest hleft]
  by_cases horphan : orphanIds left = []
  · -- none of the results left has an id: the cut moves past them, to the end of the turn
    rw [horphan,owner_nil,Option.getD_none,← drop_drop,hs.drop,drop_left]
    exact hs.rest
  have howner : owner ms (orphanIds left) n = some before.length := by
    rw [hs.eq,hs.cut,append_assoc]
    exact owner_results (fun r hr => hs.answers.tools r (mem_append_left _ hr))
      (declares_orphan hs.answers horphan)
  rw [howner,Option.getD_some,hs.eq,drop_left]
  exact .turn hs.turn hs.answers hs.rest

theorem toolPairingFrom_results {declared answered} (ht : ∀ r ∈ results, r.isTool)
    (hd : ∀ id ∈ results.filterMap Message.resultId, id ∈ declared) :
    toolPairingFrom declared answered (results++post) =
      toolPairingFrom declared ((results.filterMap Message.resultId).reverse++answered) post := by
  induction results generalizing answered with
  | nil => rfl
  | cons r _ ih =>
    have hr := ht r mem_cons_self
    cases r with
    | tool id =>
      have hid : declared.contains id := by simpa using hd id (by simp [Message.resultId])
      simp only [cons_append,toolPairingFrom,hid,Bool.true_and]
      rw [ih (fun r hr => ht r (mem_cons_of_mem _ hr)) fun id hid => hd id ?_]
      · simp [Message.resultId]
      · simp only [filterMap_cons,Message.resultId]
        exact mem_cons_of_mem _ hid
    | _ => cases hr

theorem toolPairingFrom_of_wellFormed (h : WellFormed ms) {declared answered}
    (hda : ∀ id ∈ declared, id ∈ answered) : toolPairingFrom declared answered ms := by
  induction h generalizing declared answered with
  | nil => simpa [toolPairingFrom] using hda
  | @plain m rest hm ht _ ih =>
    cases m with
    | assistant =>
      simp only [isToolCallingAssistant,Bool.not_eq_false',List.isEmpty_iff] at hm
      simpa [toolPairingFrom,hm] using ih hda
    | tool => cases ht
    | _ => exact ih hda
  | @turn a results rest ha hans _ ih =>
    cases a with
    | assistant _ toolCalls =>
      have hids id : id ∈ toolCalls.map ToolCall.id ↔
        id ∈ results.filterMap Message.resultId := hans.ids id
      rw [toolPairingFrom,toolPairingFrom_results hans.tools fun id hid =>
        mem_append_right _ ((hids id).2 hid)]
      apply ih
      intro id hid
      rcases mem_append.1 hid with hid | hid
      · exact mem_append_right _ (hda id hid)
      · exact mem_append_left _ (mem_reverse.2 ((hids id).1 hid))
    | _ => cases ha

theorem toolPairingIsIntact_of_wellFormed (h : WellFormed ms) : toolPairingIsIntact ms :=
  toolPairingFrom_of_wellFormed h (by simp)

end Harness.Summarization
