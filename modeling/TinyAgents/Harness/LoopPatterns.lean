import TinyAgents.Interaction.Text
import TinyAgents.Harness.Repeats

namespace Harness

open Interaction

def maxWarned : Nat := 1024
def maxChurnGroups : Nat := 1024
def maxChurnVariantsPerGroup : Nat := 256

def callSignature (tool argumentsFingerprint : String) : String :=
  toString tool.utf8ByteSize ++ ":" ++ tool ++ "\x01" ++ argumentsFingerprint

theorem callSignature_inj {tool arguments tool' arguments' : String}
    (h : callSignature tool arguments = callSignature tool' arguments') :
    tool = tool' ∧ arguments = arguments' := by
  have hl := congrArg String.toList h
  simp only [callSignature,String.toList_append,List.append_assoc] at hl
  obtain ⟨hsize,hrest⟩ := append_cons_inj (notMem_toString (by decide))
    (notMem_toString (by decide)) hl
  have hrest' : tool ++ ("\x01" ++ arguments) = tool' ++ ("\x01" ++ arguments') := by
    apply String.toList_inj.1
    simp only [String.toList_append]
    exact hrest
  obtain ⟨rfl,hargs⟩ := eq_of_append_eq hrest' (toString_nat_inj hsize)
  exact ⟨rfl,(eq_of_append_eq hargs rfl).2⟩

def parseUsize (digits : List Char) : Option Nat :=
  let digits := if digits.head? = some '+' then digits.tail else digits
  if digits ≠ [] ∧ digits.all Char.isDigit then
    let n := digits.foldl (fun n c => 10*n+(c.toNat - '0'.toNat)) 0
    if n < 2^64 then some n else none
  else none

def takeBytes : List Char → Nat → Option (List Char)
  | _, 0 => some []
  | [], _+1 => none
  | c :: cs, n+1 => if c.utf8Size ≤ n+1 then (takeBytes cs (n+1-c.utf8Size)).map (c :: ·) else none

def toolName (callSignature : String) : String :=
  let chars := callSignature.toList
  let fallback := String.ofList (chars.takeWhile (· ≠ '\x01'))
  if ':' ∈ chars then
    match parseUsize (chars.takeWhile (· ≠ ':')) with
    | some n => ((takeBytes (chars.dropWhile (· ≠ ':')).tail n).map String.ofList).getD fallback
    | none => fallback
  else fallback

structure CallStep where
  call : UInt64
  outcome : UInt64
  deriving DecidableEq

structure PingPongState where
  prev : Option CallStep := none
  last : Option CallStep := none
  names : String × String := ("","")
  tail : Nat := 0
  warned : List UInt64 := []

structure PingPongDetector where
  alternations : Nat

def PingPongDetector.new (alternations : Nat) : PingPongDetector :=
  ⟨max alternations 4⟩

def PingPongState.tailWith (s : PingPongState) (step : CallStep) : Nat :=
  match s.last with
  | some last =>
    if last.call = step.call then 1
    else if s.prev = some step then satAdd s.tail 1
    else 2
  | none => 1

def PingPongState.advance (s : PingPongState) (step : CallStep) (tool : String) :
    PingPongState where
  prev := s.last
  last := some step
  names := (s.names.2,tool)
  tail := s.tailWith step
  warned := s.warned

def pingPongNote (first second : String) (tail : Nat) : String :=
  s!"calls to `{first}` and `{second}` have been alternating {tail} times, each " ++
    "returning the same result every time; going back and forth between them is not making " ++
    "progress. Use the results you already have or change approach."

def PingPongDetector.record (D : PingPongDetector) (H : Hashes) (s : PingPongState)
    (callSignature outcomeIdentity : String) : Option String × PingPongState :=
  let step : CallStep := ⟨H.hashOf callSignature,H.hashOf outcomeIdentity⟩
  let s := s.advance step (toolName callSignature)
  let pair := step.call ^^^ (s.prev.map CallStep.call).getD 0
  if s.tail < D.alternations ∨ pair ∈ s.warned ∨ maxWarned ≤ s.warned.length then (none,s)
  else (some (pingPongNote s.names.1 s.names.2 s.tail),{ s with warned := pair :: s.warned })

abbrev ChurnKey := String × UInt64

structure ChurnState where
  groups : Map ChurnKey (Map UInt64 Nat) := .empty
  warned : List ChurnKey := []

structure ArgumentChurnDetector where
  variants : Nat
  callsPerVariant : Nat

def ArgumentChurnDetector.new (variants callsPerVariant : Nat) : ArgumentChurnDetector :=
  ⟨max variants 2,max callsPerVariant 2⟩

def churnNote (tool : String) (qualifying callsPerVariant : Nat) : String :=
  s!"`{tool}` has been called with {qualifying} different sets of arguments, each at least " ++
     s!"{callsPerVariant} times, and every one returned the same result; changing the arguments " ++
     "is not changing what you learn. Try a different tool or approach."

def ArgumentChurnDetector.record (D : ArgumentChurnDetector) (H : Hashes) (s : ChurnState)
    (tool argumentsFingerprint outcomeIdentity : String) : Option String × ChurnState :=
  let key : ChurnKey := (tool,H.hashOf outcomeIdentity)
  let argument := H.hashOf argumentsFingerprint
  let group := s.groups.lookup key
  if key ∈ s.warned ∨ group.isNone ∧ maxChurnGroups ≤ s.groups.entries.length then (none,s)
  else
    let variants := group.getD .empty
    let calls := variants.lookup argument
    if calls.isNone ∧ maxChurnVariantsPerGroup ≤ variants.entries.length then
      (none,{ s with groups := s.groups.put key variants })
    else
      let variants := variants.put argument (satAdd (calls.getD 0) 1)
      let qualifying := variants.entries.countP fun e => D.callsPerVariant ≤ e.2
      if qualifying < D.variants then (none,{ s with groups := s.groups.put key variants })
      else if maxWarned ≤ s.warned.length then (none,{ s with groups := s.groups.remove key })
      else (some (churnNote tool qualifying D.callsPerVariant),
        ⟨s.groups.remove key,key :: s.warned⟩)

def repeatingAt : Nat := 2

structure GuardState where
  tail : List (UInt64 × Nat) := []
  calls : Nat := 0
  armed : Option (List UInt64 × Nat) := none

structure PostCompactionGuard where
  window : Nat

def PostCompactionGuard.record (G : PostCompactionGuard) (H : Hashes) (s : GuardState)
    (callSignature outcomeIdentity : String) (repeating : Bool) : Bool × GuardState :=
  if G.window = 0 then (false,s)
  else
    let pair := H.hashPair callSignature outcomeIdentity
    match s.armed with
    | some (tail,remaining) =>
      let repeated : Bool := pair ∈ tail
      let armed := if repeated ∨ remaining-1 = 0 then none else some (tail,remaining-1)
      (repeated,{ s with armed := armed })
    | none =>
      let now := s.calls+1
      let tail := if repeating then s.tail ++ [(pair,now)] else s.tail
      (false,{ s with calls := now, tail := tail.dropWhile fun e => G.window ≤ now-e.2 })

def PostCompactionGuard.arm (G : PostCompactionGuard) (s : GuardState) : GuardState :=
  if G.window = 0 ∨ s.tail = [] then s
  else { s with tail := [], armed := some (s.tail.map Prod.fst,G.window) }

end Harness
