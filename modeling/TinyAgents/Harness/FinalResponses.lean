import Mathlib.Data.List.Basic
import TinyAgents.Harness.ToolCalls

namespace Harness.FinalResponses

open List AgentLoop

variable {V T : Type}

-- A message of the loop and its text.
abbrev Row (V : Type) := String × Message V

def Row.isAssistant : Row V → Bool
  | (_,.assistant _) => true
  | _ => false

variable (rows : List (Row V))

def lastAssistantText : String :=
  ((rows.reverse.find? Row.isAssistant).map Prod.fst).getD ""

def closeUnansweredToolCalls (reason : String) : List (Row V) :=
  match rows.getLast? with
  | some (_,.assistant calls) =>
    rows++calls.map fun call => (reason,.tool call.id { content := [.text reason] })
  | _ => rows

-- The response of the current turn, and whether a tool of this turn set the final response.
structure Progress (V : Type) where
  rows : List (Row V) := []
  response : String := ""
  run : AgentRun V := {}
  ofTool : Bool := false

namespace Progress

variable (p : Progress V)

def closed (reason : String) : Progress V :=
  { p with rows := closeUnansweredToolCalls p.rows reason }

def final (text : String) : Progress V :=
  { p with run := { p.run with finalResponse := some text } }

def applyPendingControl : MiddlewareControl V → Progress V
  | .continue | .updateState _ | .interrupt _ _ | .jumpTo .tools => p
  | .jumpTo .model => p.closed "run jumped back to the model before this tool call was executed"
  | .jumpTo .end =>
    let p := p.closed "run stopped before this tool call was executed"
    p.final (p.run.finalResponse.getD (lastAssistantText p.rows))
  | .stopWithFinal text => (p.closed "run stopped before this tool call was executed").final text

end Progress

inductive Step (V : Type) where
  | iterate | discard | finish | jumpBack
  | append (texts : List String)
  | rewrite (rows : List (Row V))
  | respond (text : String) (calls : List (ToolCall V))
  | toolFinal (output : String)

def Progress.step (p : Progress V) : Step V → Progress V
  | .iterate => { p with ofTool := false }
  | .append texts => { p with rows := p.rows++texts.map (·,.other) }
  | .rewrite rows => { p with rows }
  | .respond text calls => { p with rows := p.rows++[(text,.assistant calls)], response := text }
  | .discard => { p with rows := p.rows.dropLast }
  | .toolFinal output => { p.final output with ofTool := true }
  | .finish => { p.final p.response with ofTool := false }
  | .jumpBack => p.applyPendingControl (.jumpTo .model)

def play (steps : List (Step V)) : Progress V := steps.foldl Progress.step {}

def Progress.JumpsRight (p : Progress V) : Prop :=
  let ended := p.applyPendingControl (.jumpTo .end)
  p.ofTool = true ∨ ended.run.finalResponse = some (lastAssistantText ended.rows)

-- Who set the final response last: nobody, a tool of the current turn, or an earlier turn.
inductive Setter where
  | nobody | tool | earlier
  deriving DecidableEq

def Setter.step : Setter → Step V → Setter
  | _, .toolFinal _ => .tool
  | _, .finish => .earlier
  | .tool, .iterate => .earlier
  | setter, _ => setter

def setter (steps : List (Step V)) : Setter := steps.foldl Setter.step .nobody

variable {p : Progress V} {rows : List (Row V)}

theorem lastAssistantText_close {reason : String} :
    lastAssistantText (closeUnansweredToolCalls rows reason) = lastAssistantText rows := by
  unfold closeUnansweredToolCalls
  split
  next calls _ =>
    have hrows : (calls.map fun call => ((reason,.tool call.id { content := [.text reason] }) :
        Row V)).reverse.find? Row.isAssistant = none := by
      simp [Row.isAssistant]
    rw [lastAssistantText,reverse_append,find?_append,hrows]
    rfl
  · rfl

theorem jumpsRight_of_none (h : p.run.finalResponse = none) : p.JumpsRight := by
  right
  simp [Progress.applyPendingControl,Progress.closed,Progress.final,h]

structure Tells (s : Setter) (p : Progress V) : Prop where
  nobody : s = .nobody → p.run.finalResponse = none
  tool : s = .tool → p.ofTool = true

theorem Tells.step {s : Setter} (h : Tells s p) (x : Step V) : Tells (s.step x) (p.step x) := by
  cases x with
  | toolFinal => exact ⟨nofun,fun _ => rfl⟩
  | finish => exact ⟨nofun,nofun⟩
  | iterate =>
    cases s with
    | nobody => exact ⟨h.nobody,nofun⟩
    | tool | earlier => exact ⟨nofun,nofun⟩
  | _ => cases s <;> exact ⟨h.nobody,h.tool⟩

theorem tells_play (steps : List (Step V)) : Tells (setter steps) (play steps) := by
  have hfold : ∀ s (p : Progress V), Tells s p →
      Tells (steps.foldl Setter.step s) (steps.foldl Progress.step p) := by
    induction steps with
    | nil => exact fun _ _ h => h
    | cons x _ ih => exact fun _ _ h => ih _ _ (h.step x)
  exact hfold _ _ ⟨fun _ => rfl,nofun⟩

theorem current_runs_jump_right (steps : List (Step V)) (h : setter steps ≠ .earlier) :
    (play steps).JumpsRight := by
  have htells := tells_play steps
  cases hs : setter steps with
  | nobody => exact jumpsRight_of_none (htells.nobody hs)
  | tool => exact .inl (htells.tool hs)
  | earlier => exact absurd hs h

def looked : List (Step Unit) :=
  [.append ["ask"],.iterate,.respond "look" [⟨"a","find",(),none⟩],.toolFinal "found"]

theorem current_runs_jump_right_looked : setter looked = .tool ∧ (play looked).JumpsRight :=
  ⟨rfl,current_runs_jump_right looked (by decide)⟩

theorem finished_answer_goes_stale :
    let steps : List (Step Unit) := [.append ["ask"],.iterate,.respond "first" [],.finish,
      .append ["follow-up"],.iterate,.respond "second" [⟨"a","find",(),none⟩]]
    ((play steps).applyPendingControl (.jumpTo .end)).run.finalResponse = some "first" ∧
      lastAssistantText (play steps).rows = "second" ∧ (play steps).ofTool = false := by
  decide +kernel

theorem run_requestControl (c : RunContext V) (control : MiddlewareControl V) :
    (c.requestControl control).run = c.run := by
  unfold RunContext.requestControl
  split_ifs <;> rfl

-- What `f` does to the run is no step or the step of a tool that sets the final response.
def SetsFinal (f : RunContext V → RunContext V) : Prop :=
  ∀ c, (f c).run = c.run ∨
    ∃ output, (f c).run = (Progress.step { run := c.run } (.toolFinal output)).run

theorem setsFinal_applyToolControl (H : AgentHarness V T) (prepared : PreparedToolCall V)
    (result : ToolResult V) : SetsFinal (applyToolControl H prepared result) := by
  intro c
  unfold applyToolControl
  split
  · exact .inl rfl
  dsimp only
  split_ifs
  · exact .inr ⟨_,run_requestControl _ _⟩
  · exact .inl rfl
  · split
    · exact .inl (run_requestControl _ _)
    · exact .inl rfl

theorem setsFinal_settleBatchTermination (allAnswered : Bool) :
    SetsFinal (settleBatchTermination (V := V) allAnswered) := by
  intro c
  unfold settleBatchTermination
  dsimp only
  split
  · split
    · exact .inr ⟨_,run_requestControl _ _⟩
    · exact .inl rfl
  · exact .inl rfl

end Harness.FinalResponses
