import TinyAgents.Interaction.Traces
import TinyAgents.Interaction.Cell

namespace StorageKit

open Interaction

inductive StorageError where
  | conflict
  | invalidInput (message : String)
  | backend (message : String)
  | unavailable
  | serialization (message : String)
  deriving DecidableEq

structure Port (Op : Type) (Ans : Op → Type) (T : Type) where
  get : Program Op Ans (Except StorageError (Option (Versioned T)))
  put : Precondition → T → Program Op Ans (Except StorageError Nat)

namespace Repo

variable {Op : Type} {Ans : Op → Type} {T S W : Type}

abbrev Change (Op : Type) (Ans : Op → Type) (T S : Type) :=
  S → Option T → Fallible Op Ans StorageError (Option T × S)

variable (port : Port Op Ans T)

def round (f : Change Op Ans T S) (s : S) (again : S → Fallible Op Ans
    StorageError (Option (T × Nat) × S)) : Fallible Op Ans StorageError (Option (T × Nat) × S) := do
  let found ← ExceptT.mk port.get
  match ← f s (found.map Versioned.doc) with
  | (none,s) => return (none,s)
  | (some next,s) => ExceptT.mk do
    match ← port.put (Cell.condition found) next with
    | .ok version => return .ok (some (next,version),s)
    | .error .conflict => (again s).run
    | .error e => return .error e

def updateFrom (f : Change Op Ans T S) :
    (left : Nat) → S → Fallible Op Ans StorageError (Option (T × Nat) × S)
  | 0, s => round port f s fun _ => throw .conflict
  | left+1, s => round port f s (updateFrom f left)

def update (attempts : Nat) (f : Change Op Ans T S) (s : S) :
    Fallible Op Ans StorageError (Option (T × Nat) × S) :=
  updateFrom port f (max attempts 1-1) s

structure Rounds (L : Logic Op Ans W) (port : Port Op Ans T) (f : Change Op Ans T S)
    (I : S → W → Prop) (Seen : S → Option (Versioned T) → W → Prop)
    (Ready : Option (Versioned T) → Option T × S → W → Prop)
    (Q : Option (T × Nat) × S → W → Prop) (E : StorageError → W → Prop) : Prop where
  get : ∀ s w, I s w → Safe L (Ends (Seen s) E) port.get w
  call : ∀ s found w, Seen s found w →
    Ensures L (Ready found) E (f s (found.map Versioned.doc)) w
  leave : ∀ found s w, Ready found (none,s) w → Q (none,s) w
  put : ∀ found next s w, Ready found (some next,s) w →
    Safe L (Ends (fun version => Q (some (next,version),s))
      (fun e v => (e = .conflict → I s v) ∧ E e v)) (port.put (Cell.condition found) next) w
  ends : ∀ r w v, Ends Q E r w → L.rely w v → Ends Q E r v

variable {L : Logic Op Ans W} {port : Port Op Ans T} {f : Change Op Ans T S} {I : S → W → Prop}
  {Seen : S → Option (Versioned T) → W → Prop}
  {Ready : Option (Versioned T) → Option T × S → W → Prop} {Q : Option (T × Nat) × S → W → Prop}
  {E : StorageError → W → Prop} {s : S} {w : W}

section

variable (h : Rounds L port f I Seen Ready Q E)

include h

theorem safe_round {again} (hagain : ∀ s w, I s w → E .conflict w → Ensures L Q E (again s) w)
    (hw : I s w) : Ensures L Q E (round port f s again) w := by
  refine safe_try (h.get s w hw) fun found w hw => ?_
  refine safe_try (h.call s found w hw) fun decision w hw => ?_
  obtain ⟨_ | next,s⟩ := decision
  · exact fun v hv => h.ends (.ok (none,s)) w v (h.leave found s w hw) hv
  refine safe_bind (fun result v hv => ?_) (h.put found next s w hw)
  obtain e | version := result
  · cases e with
    | conflict => exact hagain s v (hv.1 rfl) hv.2
    | _ => exact fun u hu => h.ends (.error _) v u hv.2 hu
  · exact fun u hu => h.ends (.ok _) v u hv hu

theorem safe_updateFrom {left : Nat} (hw : I s w) : Ensures L Q E (updateFrom port f left s) w := by
  induction left generalizing s w with
  | zero =>
    refine safe_round h (fun s w _ he => ?_) hw
    exact fun v hv => h.ends (.error .conflict) w v he hv
  | succ _ ih => exact safe_round h (fun s w hw _ => ih hw) hw

theorem safe_update {attempts : Nat} (hw : I s w) : Ensures L Q E (update port attempts f s) w :=
  safe_updateFrom h hw

end

theorem asks_update {P : Op → Prop} (hget : Asks P port.get)
    (hput : ∀ precondition doc, Asks P (port.put precondition doc))
    (hf : ∀ s found, Asks P (f s found).run) {attempts : Nat} :
    Asks P (update port attempts f s).run := by
  have round (again : S → Fallible Op Ans StorageError (Option (T × Nat) × S))
      (hagain : ∀ s, Asks P (again s).run) (s : S) : Asks P (round port f s again).run := by
    refine asks_try hget fun found => asks_try (hf s _) fun decision => ?_
    obtain ⟨_ | next,s⟩ := decision
    · trivial
    refine asks_bind (hput _ next) fun result => ?_
    obtain e | version := result
    · cases e with
      | conflict => exact hagain s
      | _ => trivial
    · trivial
  rw [update]
  generalize max attempts 1-1 = left
  induction left generalizing s with
  | zero => exact round (fun _ => throw .conflict) (fun _ => trivial) s
  | succ _ ih => exact round _ (fun _ => ih) s

end Repo

end StorageKit
