import TinyAgents.Orchestration.SubagentRuns

namespace Orchestration

open Interaction

namespace SubagentDriver

variable {H X α : Type} {key : SubagentTaskKey} {P : DriverOp H X → Prop}

def Harmless : DriverOp H X → Prop
  | .savePause _ | .recordTerminal _ _ _ | .claim _ _ | .retire _ _ _ | .execute _ _
  | .deliver _ => False
  | _ => True

theorem asks_ask {op} (h : P op) : Asks P (ask op).run :=
  ⟨h,fun _ => trivial⟩

theorem asks_ensureFence (h : P .fence) : Asks P (ensureFence (H := H) (X := X)).run := by
  refine asks_try (asks_ask h) fun lost => ?_
  cases lost <;> trivial

theorem asks_fenced (h : P .fence) {future : DriverTask H X α} (hf : Asks P future.run) :
    Asks P (fenced future).run :=
  asks_try (asks_ensureFence h) fun _ => asks_watched h hf

theorem asks_completionOrigin {routed : Bool} {prepared} :
    Asks Harmless (completionOrigin (H := H) (X := X) routed key prepared).run := by
  unfold completionOrigin
  split
  · refine asks_try ⟨trivial,fun _ => trivial⟩ fun epoch => ?_
    cases epoch <;> trivial
  · trivial

theorem asks_expected {call : RunCall H} : Asks Harmless (expected (X := X) call).run := by
  unfold expected
  split
  · trivial
  · exact asks_fenced trivial ⟨trivial,fun _ => trivial⟩

theorem asks_interrupted {timedOut : Bool} :
    Asks Harmless (interrupted (H := H) (X := X) timedOut).run := by
  refine asks_try (asks_ask trivial) fun cancelled => ?_
  cases cancelled with
  | true => trivial
  | false =>
    cases timedOut with
    | true => trivial
    | false => exact asks_ask trivial

theorem asks_retryAllowed {n : Nat} : Asks Harmless (retryAllowed (H := H) (X := X) n).run := by
  refine asks_try (asks_ask trivial) fun cancelled => ?_
  cases cancelled with
  | true => trivial
  | false =>
    refine asks_try (asks_ask trivial) fun cancelled => ?_
    cases cancelled with
    | true => trivial
    | false => exact asks_ask trivial

theorem asks_follow [Inhabited X] {entry : Nat} :
    Asks Harmless (follow (H := H) (X := X) key entry).run := by
  refine asks_try (asks_fenced trivial (asks_ask trivial)) fun published => ?_
  obtain _ | _ | _ := published <;> trivial

section

variable [Inhabited X] (hP : ∀ op, Harmless op → P op) (hexecute : ∀ n, P (.execute key n))
include hP hexecute

theorem asks_attempts (left n : Nat) : Asks P (attempts (H := H) (X := X) key left n).run := by
  have harmless {op} (hop : Harmless op) : Asks P (ask op).run :=
    asks_ask (hP op hop)
  have hnext {left n} (h : ∀ less, left = less+1 → Asks P (attempts (X := X) key less (n+1)).run) :
      Asks P (attempts (H := H) (X := X) key left n).run := by
    rw [attempts]
    refine asks_try (harmless trivial) fun lost => ?_
    cases lost with
    | true => trivial
    | false =>
      refine asks_try (asks_ask (hexecute n)) fun attempted => ?_
      split
      · trivial
      · trivial
      · cases left with
        | zero => trivial
        | succ less =>
          refine asks_try (asks_mono hP asks_retryAllowed) fun allowed => ?_
          cases allowed with
          | false => trivial
          | true =>
            refine asks_try (harmless trivial) fun pause => ?_
            cases pause with
            | fenceLost | cancelled => trivial
            | slept =>
              refine asks_try (harmless trivial) fun next => ?_
              cases next with
              | ok => exact h less rfl
              | error => trivial
      · trivial
  induction left generalizing n with
  | zero => exact hnext nofun
  | succ _ ih =>
    refine hnext ?_
    rintro _ ⟨⟩
    exact ih (n+1)

end

variable {driver : Nat} {outcome : SubagentOutcome H X} {expectedPause : Option (SubagentResume H)}
  {origin : Option CompletionOrigin}

theorem asks_commitOrCancel {operation : DriverTask H X α} (hc : P (.cancelled true))
    (h : Asks P operation.run) : Asks P (commitOrCancel operation).run := by
  refine asks_try (asks_ask hc) fun cancelled => ?_
  cases cancelled with
  | true => trivial
  | false => exact asks_try h fun _ => trivial

def Quiet (key : SubagentTaskKey) : DriverOp H X → Prop
  | .savePause _ | .recordTerminal _ _ _ | .claim _ _ | .retire _ _ _ => False
  | .execute k _ => k = key
  | _ => True

def Closing (key : SubagentTaskKey) : DriverOp H X → Prop
  | .savePause pause => pause.key = key
  | .recordTerminal k _ _ => k = key
  | .claim _ _ | .retire _ _ _ | .execute _ _ => False
  | _ => True

theorem quiet_of_harmless (op : DriverOp H X) (h : Harmless op) : Quiet key op := by
  cases op <;> first | exact h | exact h.elim

theorem asks_replay : Asks (Closing key) (replay driver key outcome).run :=
  asks_try (asks_ask trivial) fun _ => trivial

theorem asks_terminalOr {e} :
    Asks (Closing key) (terminalOr (H := H) (X := X) driver key e).run := by
  refine asks_try ⟨trivial,fun _ => trivial⟩ fun found => ?_
  cases found with
  | none => trivial
  | some => exact asks_replay

theorem asks_loadPauseWinner :
    Asks (Closing key) (loadPauseWinner (H := H) (X := X) driver key).run := by
  refine asks_try ⟨trivial,fun _ => trivial⟩ fun found => ?_
  cases found with
  | some => exact asks_replay
  | none =>
    refine asks_try ⟨trivial,fun _ => trivial⟩ fun paused => ?_
    cases paused with
    | none => exact asks_terminalOr
    | some =>
      dsimp only
      split <;> trivial

theorem asks_persistCancelled :
    Asks (Closing key) (persistCancelled driver key outcome expectedPause).run := by
  refine asks_try ⟨rfl,fun _ => trivial⟩ fun disposition => ?_
  cases disposition with
  | inserted => exact asks_try (asks_ask trivial) fun _ => trivial
  | existing => exact asks_terminalOr
  | pauseExisting => exact asks_loadPauseWinner

theorem asks_persistTerminal :
    Asks (Closing key) (persistTerminal driver key outcome expectedPause).run := by
  refine asks_try (asks_commitOrCancel trivial ⟨rfl,fun _ => trivial⟩) ?_
  rintro (_ | disposition)
  · exact asks_persistCancelled
  cases disposition with
  | inserted => exact asks_try (asks_ask trivial) fun _ => trivial
  | existing => exact asks_terminalOr
  | pauseExisting => exact asks_loadPauseWinner

theorem asks_persistPause :
    Asks (Closing key) (persistPause driver key outcome expectedPause).run := by
  refine asks_try (asks_commitOrCancel trivial ⟨rfl,fun _ => trivial⟩) ?_
  rintro (_ | disposition)
  · exact asks_persistCancelled
  cases disposition with
  | inserted | replaced => trivial
  | existing => exact asks_loadPauseWinner
  | terminalExisting => exact asks_terminalOr

theorem asks_persist : Asks (Closing key) (persist driver key outcome expectedPause).run := by
  unfold persist
  split
  · exact asks_persistCancelled
  · exact asks_persistPause
  all_goals exact asks_persistTerminal

theorem asks_recordCompletion {result} :
    Asks (Closing key) (recordCompletion (H := H) (X := X) origin result).run := by
  unfold recordCompletion
  split
  · split
    · exact asks_try (asks_ask trivial) fun _ => trivial
    · trivial
  · trivial

theorem asks_recordFailure {e : SubagentError} :
    Asks (Quiet key) (recordFailure (X := X) origin expectedPause e).run := by
  unfold recordFailure
  split
  · split
    · exact asks_fenced trivial (asks_try (asks_ask trivial) fun _ => trivial)
    · trivial
  · trivial

theorem asks_settle : Asks (Closing key) (settle driver key expectedPause origin outcome).run := by
  refine asks_try (asks_fenced trivial asks_persist) fun _ => ?_
  exact asks_try (asks_fenced trivial asks_recordCompletion) fun _ => trivial

variable [Inhabited X]

theorem asks_conclude {timedOut : Bool} (result : Except SubagentError (SubagentOutcome H X)) :
    Asks (Quiet key) (conclude key expectedPause origin timedOut result).run := by
  unfold conclude
  split
  · split
    · trivial
    refine asks_try (asks_mono quiet_of_harmless asks_interrupted) fun cut => ?_
    cases cut with
    | true => trivial
    | false => exact asks_fenced trivial (asks_ask trivial)
  · trivial
  · refine asks_try (asks_ask trivial) fun cancelled => ?_
    cases cancelled with
    | true => trivial
    | false => exact asks_try asks_recordFailure fun _ => trivial

theorem asks_cancelNow :
    Asks (Closing key) (cancelNow (X := X) driver key expectedPause origin).run := by
  refine asks_try (asks_fenced trivial asks_persistCancelled) fun _ => ?_
  exact asks_try (asks_fenced trivial asks_recordCompletion) fun _ => trivial

end SubagentDriver

end Orchestration
