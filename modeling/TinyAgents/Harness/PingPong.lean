import Mathlib.Order.Bounds.Basic
import TinyAgents.Interaction.Trail
import TinyAgents.Harness.LoopPatterns

namespace Harness

open Interaction List

def Alternates : List CallStep → Prop
  | a :: b :: rest => a.call ≠ b.call ∧ (∀ c ∈ rest.head?, c = a) ∧ Alternates (b :: rest)
  | _ => True

def alternation : List CallStep → Nat
  | [] => 0
  | [_] => 1
  | a :: b :: rest =>
    if a.call = b.call then 1
    else if rest.head? = some a then alternation (b :: rest)+1
    else 2

theorem alternation_le (t : List CallStep) : alternation t ≤ t.length := by
  fun_induction alternation t <;> simp_all

theorem one_le_alternation (a : CallStep) (t : List CallStep) : 1 ≤ alternation (a :: t) := by
  cases t with
  | nil => exact Nat.le_refl 1
  | cons =>
    rw [alternation]
    split
    · exact Nat.le_refl 1
    · split <;> omega

theorem alternates_take_iff {t} {k : Nat} (hk : k ≤ t.length) :
    Alternates (t.take k) ↔ k ≤ alternation t := by
  fun_induction alternation t generalizing k with
  | case1 =>
    obtain rfl : k = 0 := by simpa using hk
    simp [Alternates]
  | case2 a =>
    have h : k = 0 ∨ k = 1 := by
      rw [length_singleton] at hk
      omega
    rcases h with rfl | rfl <;> simp [Alternates]
  | case3 a b rest heq =>
    obtain _ | _ | k := k <;> simp [Alternates,heq]
  | case4 a b rest hne hhead ih =>
    obtain _ | _ | k := k
    · simp [Alternates]
    · simp [Alternates]
    have hlen : k+1 ≤ (b :: rest).length := by simpa using hk
    have hnext : ∀ c ∈ (rest.take k).head?, c = a := by
      intro c hc
      cases k with
      | zero => simp at hc
      | succ =>
        rw [List.head?_take,if_neg (by omega),hhead] at hc
        exact (Option.some.inj hc).symm
    have hrest := ih hlen
    rw [take_succ_cons] at hrest
    simp only [take_succ_cons,Alternates,hrest]
    constructor
    · exact fun h => Nat.succ_le_succ h.2.2
    · exact fun h => ⟨hne,hnext,Nat.le_of_succ_le_succ h⟩
  | case5 a b rest hne hhead =>
    obtain _ | _ | k := k
    · simp [Alternates]
    · simp [Alternates]
    obtain _ | k := k
    · simp [Alternates,hne]
    obtain _ | ⟨c,rest⟩ := rest
    · simp at hk
    have hc : c ≠ a := fun h => hhead (by rw [h,List.head?_cons])
    simp [Alternates,hc]

theorem alternation_isGreatest (t : List CallStep) :
    IsGreatest {k | k ≤ t.length ∧ Alternates (t.take k)} (alternation t) :=
  ⟨⟨alternation_le t,(alternates_take_iff (alternation_le t)).2 (Nat.le_refl _)⟩,
    fun _ hk => (alternates_take_iff hk.1).1 hk.2⟩

def Hashes.step (H : Hashes) (call : String × String) : CallStep :=
  ⟨H.hashOf call.1,H.hashOf call.2⟩

namespace PingPongDetector

variable (D : PingPongDetector) (H : Hashes)

def recorder : Recorder PingPongState (String × String) (Option String) where
  init := {}
  step := fun s call => D.record H s call.1 call.2

def Reaches (t : List CallStep) : Prop := D.alternations ≤ min (alternation t) u32Max

def pairOf : List CallStep → UInt64
  | [] => 0
  | a :: past => a.call ^^^ (past.head?.map CallStep.call).getD 0

instance (t : List CallStep) : Decidable (D.Reaches t) :=
  inferInstanceAs (Decidable (_ ≤ _))

def reached : List CallStep → List UInt64
  | [] => []
  | a :: past =>
    if D.Reaches (a :: past) then pairOf (a :: past) :: reached past else reached past

abbrev Trail := List ((String × String) × Option String)

def steps (t : Trail) : List CallStep := t.map fun e => H.step e.1

def noted (t : Trail) : Nat := t.countP fun e => e.2.isSome

def NotesFirst (e : (String × String) × Option String) (past : Trail) : Prop :=
  e.2.isSome ↔ D.Reaches (steps H (e :: past)) ∧
    pairOf (steps H (e :: past)) ∉ D.reached (steps H past) ∧ noted past < maxWarned

structure Holds (t : Trail) (s : PingPongState) : Prop where
  last : s.last = (steps H t).head?
  prev : s.prev = (steps H t).tail.head?
  tail : s.tail = min (alternation (steps H t)) u32Max
  count : s.warned.length = noted t
  sound : ∀ pair ∈ s.warned, pair ∈ D.reached (steps H t)
  complete : s.warned.length < maxWarned → ∀ pair ∈ D.reached (steps H t), pair ∈ s.warned
  notes : Always (D.NotesFirst H) t

variable {D H} {t : Trail} {s : PingPongState}

theorem Holds.tailWith (h : D.Holds H t s) (step : CallStep) :
    s.tailWith step = min (alternation (step :: steps H t)) u32Max := by
  have hmax : 2 ≤ u32Max := by decide
  rw [PingPongState.tailWith,h.last,h.prev,h.tail]
  obtain _ | ⟨b,rest⟩ := steps H t
  · exact (Nat.min_eq_left (Nat.le_of_succ_le hmax)).symm
  have hb := one_le_alternation b rest
  by_cases hcall : b.call = step.call
  · simp [alternation,hcall]
    omega
  by_cases hprev : rest.head? = some step
  · simp [alternation,hcall,Ne.symm hcall,hprev,satAdd]
    omega
  · simp [alternation,hcall,Ne.symm hcall,hprev]
    omega

theorem record_cases (s : PingPongState) (call : String × String) :
    let pair := (H.step call).call ^^^ (s.last.map CallStep.call).getD 0
    let next := s.advance (H.step call) (toolName call.1)
    (D.record H s call.1 call.2 = (none,next) ∧
      (s.tailWith (H.step call) < D.alternations ∨ pair ∈ s.warned ∨
        maxWarned ≤ s.warned.length)) ∨
    (∃ note, D.record H s call.1 call.2 = (some note,{ next with warned := pair :: s.warned })) ∧
      D.alternations ≤ s.tailWith (H.step call) ∧ pair ∉ s.warned ∧
      s.warned.length < maxWarned := by
  simp only [record]
  split
  next h => exact .inl ⟨rfl,h⟩
  next h =>
    simp only [not_or,Nat.not_lt,Nat.not_le] at h
    exact .inr ⟨⟨_,rfl⟩,h⟩

theorem holds_init : D.Holds H [] {} :=
  ⟨rfl,rfl,rfl,rfl,by simp,by simp [steps,reached],always_nil⟩

theorem Holds.record (h : D.Holds H t s) (call : String × String) :
    D.Holds H ((call,(D.record H s call.1 call.2).1) :: t) (D.record H s call.1 call.2).2 := by
  have htail := h.tailWith (H.step call)
  have hlong : D.Reaches (H.step call :: steps H t) ↔
      D.alternations ≤ s.tailWith (H.step call) := by rw [htail,Reaches]
  have hpair : pairOf (H.step call :: steps H t) =
      (H.step call).call ^^^ (s.last.map CallStep.call).getD 0 := by rw [h.last,pairOf]
  have hreached : D.reached (H.step call :: steps H t) = if D.Reaches (H.step call :: steps H t)
      then pairOf (H.step call :: steps H t) :: D.reached (steps H t) else D.reached (steps H t) :=
    rfl
  have hcases := record_cases (D := D) (H := H) s call
  rw [← hpair,← hlong,← Nat.not_le,← hlong] at hcases
  obtain ⟨hr,hno⟩ | ⟨⟨note,hr⟩,hnow,hnew,hroom⟩ := hcases
  · rw [hr]
    have hcount : s.warned.length = noted ((call,none) :: t) := by simpa [noted] using h.count
    refine ⟨rfl,h.last,htail,hcount,fun p hp => ?_,fun hroom p hp => ?_,
      always_cons.2 ⟨⟨nofun,?_⟩,h.notes⟩⟩
    · change p ∈ D.reached (H.step call :: steps H t)
      rw [hreached]
      split
      · exact mem_cons_of_mem _ (h.sound p hp)
      · exact h.sound p hp
    · change p ∈ D.reached (H.step call :: steps H t) at hp
      rw [hreached] at hp
      split at hp
      next hnow =>
        rcases mem_cons.1 hp with rfl | hp
        · exact (hno.resolve_left (not_not.2 hnow)).resolve_right (Nat.not_le.2 hroom)
        · exact h.complete hroom p hp
      · exact h.complete hroom p hp
    · rintro ⟨hnow,hnew,hroom⟩
      rw [← h.count] at hroom
      exact (hnew (h.sound _ ((hno.resolve_left (not_not.2 hnow)).resolve_right
        (Nat.not_le.2 hroom)))).elim
  · rw [hr]
    rw [if_pos hnow] at hreached
    have hsteps : steps H ((call,some note) :: t) = H.step call :: steps H t := rfl
    refine ⟨rfl,h.last,htail,by simpa [noted] using h.count,?_,?_,
      always_cons.2 ⟨⟨fun _ => ⟨hnow,?_,?_⟩,fun _ => rfl⟩,h.notes⟩⟩
    · rw [hsteps,hreached]
      exact forall_mem_cons.2 ⟨mem_cons_self,fun p hp =>
        mem_cons_of_mem _ (h.sound p hp)⟩
    · rw [hsteps,hreached]
      exact fun _ => forall_mem_cons.2 ⟨mem_cons_self,fun p hp =>
        mem_cons_of_mem _ (h.complete hroom p hp)⟩
    · exact fun hp => hnew (h.complete hroom _ hp)
    · rw [← h.count]
      exact hroom

end PingPongDetector

open PingPongDetector in
theorem ping_pong_notes (D : PingPongDetector) (H : Hashes) (calls : List (String × String)) :
    (∃ k, IsGreatest {k | k ≤ calls.length ∧ Alternates ((calls.map H.step).take k)} k ∧
      ((D.recorder H).play calls).2.tail = min k u32Max) ∧
    Always (D.NotesFirst H) ((D.recorder H).play calls).1 := by
  have hsteps : steps H ((D.recorder H).play calls).1 = calls.map H.step := by
    induction calls with
    | nil => rfl
    | cons _ _ ih => exact congrArg _ ih
  have h := Recorder.play_inv (C := D.recorder H) holds_init (fun t s call h => h.record call) calls
  have hmax := alternation_isGreatest (calls.map H.step)
  rw [length_map] at hmax
  exact ⟨⟨_,hmax,by rw [h.tail,hsteps]⟩,h.notes⟩

def sparseHashes : Hashes where
  hashOf := fun text =>
    if text = "a" then 1 else if text = "b" then 2 else if text = "c" then 4
    else if text = "d" then 7 else 0
  hashPair := fun _ _ => 0

def twoPairs : List (String × String) :=
  [("d",""),("c",""),("d",""),("c",""),("b",""),("a",""),("b",""),("a","")]

-- The two pairs have no call in common, but one key.
theorem ping_pong_pair_missed :
    Alternates ((twoPairs.map sparseHashes.step).take 4) ∧
    (∀ e ∈ twoPairs.take 4, ∀ e' ∈ twoPairs.drop 4,
      sparseHashes.hashOf e.1 ≠ sparseHashes.hashOf e'.1) ∧
    (((PingPongDetector.new 4).recorder sparseHashes).play twoPairs).1.map (fun e => e.2.isSome) =
      [false,false,false,false,true,false,false,false] := by
  refine ⟨?_,by decide,by decide +kernel⟩
  simp [Alternates,twoPairs,sparseHashes,Hashes.step]

end Harness
