import TinyAgents.Interaction.Trail

namespace Harness

open Interaction List

structure ToolAttempt where
  tool : String
  argFingerprint : String
  error : Option String
  hardReject : Bool := false
  recoverableMiss : Bool := false

inductive NoProgress where
  | continue
  | nudge (message : String)
  | halt (summary : String)

structure ClassifiedStopCause where
  cls : String
  operation : String
  summary : String

structure NoProgressAssessment where
  verdict : NoProgress
  failureCause : Option ClassifiedStopCause

structure LadderState where
  lastSig : Option String := none
  sameCount : Nat := 0
  consecutive : Nat := 0
  nudgedSig : Option String := none
  nudgedStreak : Bool := false

def identicalNudgeThreshold : Nat := 2
def noProgressHaltThreshold : Nat := 6
def noProgressNudgeThreshold : Nat := 4
def hardRejectHaltThreshold : Nat := 2

structure NoProgressTracker where
  identicalHaltThreshold : Nat
  fingerprint : String → String
  nudges : identicalNudgeThreshold < identicalHaltThreshold

def NoProgressTracker.new (identicalHaltThreshold : Nat) (fingerprint : String → String) :
    NoProgressTracker where
  identicalHaltThreshold := max identicalHaltThreshold (identicalNudgeThreshold+1)
  fingerprint := fingerprint
  nudges := Nat.lt_of_lt_of_le (Nat.lt_succ_self _) (Nat.le_max_right _ _)

def truncateWithSuffix (text : String) (maxChars : Nat) (suffix : String) : String :=
  if text.length ≤ maxChars then text else String.ofList (text.toList.take maxChars) ++ suffix

def truncateForHalt (text : String) : String :=
  truncateWithSuffix text 600 "…"

def noProgressHalt (summary cls operation : String) : NoProgressAssessment :=
  ⟨.halt summary,some ⟨cls,operation,summary⟩⟩

def nudgeHead (step : Nat) : String :=
  s!"[no progress since step {step}] "

def identicalNudge (step : Nat) (tool : String) (count : Nat) (err : String) : String :=
  let last := truncateForHalt err
  nudgeHead step ++ ("The `" ++
    (s!"{tool}` call has now failed {count} times with the " ++
     "same arguments and the same error — you are retrying an identical action that cannot " ++
     "succeed as-is. Do NOT repeat it. Change strategy on your next step: use a different tool " ++
     "or different arguments (for a missing path, enumerate the directory first; for a failing " ++
     "query, correct or broaden it), or report back that it can't be done here. " ++
     s!"Last error:\n{last}"))

def variedNudge (step : Nat) (tool : String) (count : Nat) (err : String) : String :=
  let last := truncateForHalt err
  nudgeHead step ++ (toString count ++
    (" tool calls in a row have failed without making " ++
     "progress. Stop cycling through variations of the same approach — step back and try a " ++
     "different strategy (enumerate/inspect before acting, pick a different tool, or narrow the " ++
     s!"goal). Last error (from `{tool}`):\n{last}"))

def policyHalt (tool err : String) : String :=
  let last := truncateForHalt err
  s!"Stopping: the `{tool}` call is blocked by the security policy and was re-issued with " ++
     s!"identical arguments — it can never succeed this way. Reason:\n{last}\n\nDo not repeat " ++
     "this call; use an allowed alternative or report that it can't be done here."

def repeatedHalt (tool : String) (count : Nat) (err : String) : String :=
  let last := truncateForHalt err
  s!"Stopping: the `{tool}` call was retried {count} times with identical arguments " ++
     s!"and kept failing — repeating it will not help. Last error:\n{last}\n\nThis looks " ++
     "unrecoverable in the current environment. Report this back instead of retrying."

def variedHalt (tool : String) (count : Nat) (err : String) : String :=
  let last := truncateForHalt err
  s!"Stopping: {count} tool calls in a row failed with no progress. Last error (from " ++
     s!"`{tool}`):\n{last}\n\nDifferent commands are all failing — the goal looks unreachable " ++
     "in this environment. Report this back instead of retrying."

namespace NoProgressTracker

variable (T : NoProgressTracker) (state : LadderState) (step : Nat) (attempt : ToolAttempt)

def signature (err : String) : String :=
  attempt.tool ++ "\x1f" ++ attempt.argFingerprint ++ "\x1f" ++ T.fingerprint err

def fail (sig : String) : LadderState where
  lastSig := some sig
  sameCount := if state.lastSig = some sig then state.sameCount+1 else 1
  consecutive := if attempt.recoverableMiss then state.consecutive else state.consecutive+1
  nudgedSig := if state.lastSig = some sig then state.nudgedSig else none
  nudgedStreak := state.nudgedStreak

def judge (err sig : String) : NoProgressAssessment × LadderState :=
  if attempt.hardReject ∧ hardRejectHaltThreshold ≤ state.sameCount then
    (noProgressHalt (policyHalt attempt.tool err) "policy" attempt.tool,{})
  else if T.identicalHaltThreshold ≤ state.sameCount then
    (noProgressHalt (repeatedHalt attempt.tool state.sameCount err) "repeated_failure"
      attempt.tool,{})
  else if noProgressHaltThreshold ≤ state.consecutive then
    (noProgressHalt (variedHalt attempt.tool state.consecutive err) "varied_failures"
      attempt.tool,{})
  else if state.sameCount = identicalNudgeThreshold ∧ state.nudgedSig ≠ some sig then
    (⟨.nudge (identicalNudge step attempt.tool state.sameCount err),none⟩,
      { state with nudgedSig := some sig })
  else if ¬ attempt.recoverableMiss ∧ state.consecutive = noProgressNudgeThreshold ∧
      ¬ state.nudgedStreak then
    (⟨.nudge (variedNudge step attempt.tool state.consecutive err),none⟩,
      { state with nudgedStreak := true })
  else (⟨.continue,none⟩,state)

def recordWithCause : NoProgressAssessment × LadderState :=
  match attempt.error with
  | none => (⟨.continue,none⟩,{})
  | some err =>
    let sig := T.signature attempt err
    T.judge (fail state attempt sig) step attempt err sig

inductive LadderCall where
  | record (step : Nat) (attempt : ToolAttempt)
  | reset

abbrev LadderAnswer := Option NoProgressAssessment

abbrev LadderEntry := LadderCall × LadderAnswer

variable (t : List LadderEntry) (e : LadderEntry)

def recorder : Recorder LadderState LadderCall LadderAnswer where
  init := {}
  step := fun state call =>
    match call with
    | .record step attempt =>
      let (assessment,state') := T.recordWithCause state step attempt
      (some assessment,state')
    | .reset => (none,{})

def IsHalt : NoProgress → Bool
  | .halt _ => true
  | _ => false

def IsNudge : NoProgress → Bool
  | .nudge _ => true
  | _ => false

def nudged : Bool :=
  e.2.any fun assessment => IsNudge assessment.verdict

def halted : Bool :=
  e.2.any fun assessment => IsHalt assessment.verdict

def breaks : Bool :=
  match e.1 with
  | .record _ attempt => attempt.error.isNone || halted e
  | .reset => true

def countsConsecutive : Bool :=
  match e.1 with
  | .record _ attempt => !attempt.recoverableMiss
  | .reset => false

def sigOf : Option String :=
  match e.1 with
  | .record _ attempt => attempt.error.map (T.signature attempt)
  | .reset => none

def streak : List LadderEntry :=
  (since breaks t).takeWhile fun e => T.sigOf e = (since breaks t).head?.bind T.sigOf

def HaltsAs (cls : String) (e : LadderEntry) : Prop :=
  ∃ assessment ∈ e.2, ∃ cause ∈ assessment.failureCause, cause.cls = cls

def NudgedIdentical : Prop :=
  ∃ step attempt err count assessment, e = (.record step attempt,some assessment) ∧
    attempt.error = some err ∧
    assessment.verdict = .nudge (identicalNudge step attempt.tool count err)

structure Escalates (t : List LadderEntry) (state : LadderState) : Prop where
  same : state.sameCount = (T.streak t).length
  consecutive : state.consecutive = (since breaks t).countP countsConsecutive
  nudgedFirst : Always (fun e past => HaltsAs "repeated_failure" e ∨ HaltsAs "varied_failures" e →
    ∃ n ∈ since breaks past, nudged n) t
  resets : ∀ e past, t = e :: past → halted e → state = {}
  once : (T.streak t).Pairwise fun e e' => ¬ (NudgedIdentical e ∧ NudgedIdentical e')

inductive Judged (T : NoProgressTracker) (state : LadderState) (step : Nat)
    (attempt : ToolAttempt) (err sig : String) : NoProgressAssessment × LadderState → Prop
  | policy (summary : String) :
      Judged T state step attempt err sig (noProgressHalt summary "policy" attempt.tool,{})
  | repeated (summary : String) : T.identicalHaltThreshold ≤ state.sameCount →
      Judged T state step attempt err sig
        (noProgressHalt summary "repeated_failure" attempt.tool,{})
  | varied (summary : String) : noProgressHaltThreshold ≤ state.consecutive →
      Judged T state step attempt err sig
        (noProgressHalt summary "varied_failures" attempt.tool,{})
  | identical : state.sameCount = identicalNudgeThreshold →
      state.consecutive < noProgressHaltThreshold →
      Judged T state step attempt err sig
        (⟨.nudge (identicalNudge step attempt.tool state.sameCount err),none⟩,
          { state with nudgedSig := some sig })
  | stepBack : state.sameCount < T.identicalHaltThreshold →
      (state.sameCount = identicalNudgeThreshold → state.nudgedSig = some sig) →
      state.consecutive = noProgressNudgeThreshold →
      Judged T state step attempt err sig
        (⟨.nudge (variedNudge step attempt.tool state.consecutive err),none⟩,
          { state with nudgedStreak := true })
  | quiet : state.sameCount < T.identicalHaltThreshold →
      state.consecutive < noProgressHaltThreshold →
      (state.sameCount = identicalNudgeThreshold → state.nudgedSig = some sig) →
      (state.consecutive = noProgressNudgeThreshold →
        attempt.recoverableMiss ∨ state.nudgedStreak) →
      Judged T state step attempt err sig (⟨.continue,none⟩,state)

theorem judge_judged (err sig : String) :
    Judged T state step attempt err sig (T.judge state step attempt err sig) := by
  unfold judge
  split
  · exact .policy _
  · split
    next h => exact .repeated _ h
    next hsame =>
      split
      next h => exact .varied _ h
      next hcons =>
        split
        next h => exact .identical h.1 (Nat.lt_of_not_le hcons)
        next hid =>
          have hsig (hc : state.sameCount = identicalNudgeThreshold) :
              state.nudgedSig = some sig := by
            by_contra hne
            exact hid ⟨hc,hne⟩
          split
          next h => exact .stepBack (Nat.lt_of_not_le hsame) hsig h.2.1
          next h =>
            refine .quiet (Nat.lt_of_not_le hsame) (Nat.lt_of_not_le hcons) hsig fun hc => ?_
            by_contra hno
            exact h ⟨fun hm => hno (.inl hm),hc,fun hs => hno (.inr hs)⟩

theorem append_ne_append {p a b x y : String} {c d : Char} (hc : c ≠ d)
    (ha : a.toList.head? = some c) (hb : b.toList.head? = some d) :
    p ++ (a ++ x) ≠ p ++ (b ++ y) := by
  intro h
  have hl := congrArg String.toList h
  simp only [String.toList_append,append_cancel_left_eq] at hl
  have hh := congrArg List.head? hl
  rw [List.head?_append,List.head?_append,ha,hb] at hh
  exact hc (Option.some.inj hh)

variable {T : NoProgressTracker} {t : List LadderEntry} {state : LadderState}

structure Counted (T : NoProgressTracker) (t : List LadderEntry) (state : LadderState) : Prop where
  same : state.sameCount = (T.streak t).length
  last : state.lastSig = (since breaks t).head?.bind T.sigOf
  consecutive : state.consecutive = (since breaks t).countP countsConsecutive
  below : state.sameCount < T.identicalHaltThreshold
  few : state.consecutive < noProgressHaltThreshold
  fresh : state.sameCount < identicalNudgeThreshold → state.nudgedSig = none
  sameNudged : identicalNudgeThreshold ≤ state.sameCount → ∃ n ∈ since breaks t, nudged n
  variedNudged : noProgressNudgeThreshold ≤ state.consecutive → ∃ n ∈ since breaks t, nudged n
  stepped : state.nudgedStreak → noProgressNudgeThreshold ≤ state.consecutive
  early : state.sameCount < identicalNudgeThreshold → ∀ e ∈ T.streak t, ¬ NudgedIdentical e
  once : (T.streak t).Pairwise fun e e' => ¬ (NudgedIdentical e ∧ NudgedIdentical e')

theorem counted_of_since (h : since breaks t = []) : Counted T t {} where
  same := by simp [streak,h]
  last := by simp [h]
  consecutive := by simp [h]
  below := Nat.lt_trans (by decide) T.nudges
  few := by decide
  fresh := fun _ => rfl
  sameNudged := fun hn => absurd hn (by decide)
  variedNudged := fun hn => absurd hn (by decide)
  stepped := by rintro ⟨⟩
  early := by simp [streak,h]
  once := by simp [streak,h]

theorem streak_cons {e} {sig : String} (hb : breaks e = false)
    (he : T.sigOf e = some sig) (hl : state.lastSig = (since breaks t).head?.bind T.sigOf) :
    T.streak (e :: t) = e :: if state.lastSig = some sig then T.streak t else [] := by
  rw [streak,since_cons_of_neg hb,List.head?_cons,Option.bind_some,
    takeWhile_cons_of_pos (by simp),he]
  congr 1
  split
  next h => rw [streak,← hl,h]
  next h =>
    cases hs : since breaks t with
    | nil => rfl
    | cons =>
      rw [hs,List.head?_cons,Option.bind_some] at hl
      rw [takeWhile_cons_of_neg]
      simpa [← hl] using h

structure Failed (T : NoProgressTracker) (t : List LadderEntry) (attempt : ToolAttempt)
    (sig : String) (state : LadderState) (e : LadderEntry) : Prop where
  same : state.sameCount = (T.streak (e :: t)).length
  last : state.lastSig = some sig
  consecutive : state.consecutive = (since breaks (e :: t)).countP countsConsecutive
  fresh : state.sameCount ≤ identicalNudgeThreshold → state.nudgedSig = none
  past : ∃ old, T.streak (e :: t) = e :: old ∧
    (state.sameCount ≤ identicalNudgeThreshold → ∀ e' ∈ old, ¬ NudgedIdentical e') ∧
    old.Pairwise fun e e' => ¬ (NudgedIdentical e ∧ NudgedIdentical e')
  sameNudged : identicalNudgeThreshold < state.sameCount → ∃ n ∈ since breaks t, nudged n
  variedNudged : noProgressNudgeThreshold < state.consecutive ∨
    noProgressNudgeThreshold = state.consecutive ∧ (attempt.recoverableMiss ∨ state.nudgedStreak) →
      ∃ n ∈ since breaks t, nudged n
  stepped : state.nudgedStreak → noProgressNudgeThreshold ≤ state.consecutive

variable {call : LadderCall} {step : Nat} {err cls : String} {attempt : ToolAttempt}

theorem Failed.counted {sig : String} {e} {next} (h : Failed T t attempt sig state e)
    (hb : breaks e = false) (he : T.sigOf e = some sig)
    (hnext : next.sameCount = state.sameCount ∧ next.lastSig = state.lastSig ∧
      next.consecutive = state.consecutive) (hbelow : state.sameCount < T.identicalHaltThreshold)
    (hfew : state.consecutive < noProgressHaltThreshold)
    (hfresh : state.sameCount < identicalNudgeThreshold → next.nudgedSig = none)
    (hsame : state.sameCount = identicalNudgeThreshold → nudged e)
    (hvaried : state.consecutive = noProgressNudgeThreshold → nudged e ∨ attempt.recoverableMiss ∨
      state.nudgedStreak)
    (hstepped : next.nudgedStreak → noProgressNudgeThreshold ≤ state.consecutive)
    (hid : NudgedIdentical e → state.sameCount = identicalNudgeThreshold) :
    Counted T (e :: t) next := by
  obtain ⟨h1,h2,h3⟩ := hnext
  obtain ⟨_,hstreak,hearly,honce⟩ := h.past
  have hsince := since_cons_of_neg (t := t) hb
  have hself (hn : nudged e) : ∃ n ∈ since breaks (e :: t), nudged n := by
    rw [hsince]
    exact ⟨e,mem_cons_self,hn⟩
  have hpast (hn : ∃ n ∈ since breaks t, nudged n) : ∃ n ∈ since breaks (e :: t), nudged n := by
    obtain ⟨n,hm,hn⟩ := hn
    rw [hsince]
    exact ⟨n,mem_cons_of_mem e hm,hn⟩
  constructor
  case same => rw [h1,h.same]
  case last => rw [h2,h.last,hsince,List.head?_cons,Option.bind_some,he]
  case consecutive => rw [h3,h.consecutive]
  case below => rwa [h1]
  case few => rwa [h3]
  case fresh => rwa [h1]
  case sameNudged =>
    rw [h1]
    intro hc
    rcases Nat.eq_or_lt_of_le hc with heq | hlt
    · exact hself (hsame heq.symm)
    · exact hpast (h.sameNudged hlt)
  case variedNudged =>
    rw [h3]
    intro hc
    rcases Nat.eq_or_lt_of_le hc with heq | hlt
    · rcases hvaried heq.symm with hn | hm
      · exact hself hn
      · exact hpast (h.variedNudged (.inr ⟨heq,hm⟩))
    · exact hpast (h.variedNudged (.inl hlt))
  case stepped => rwa [h3]
  case early =>
    rw [h1,hstreak]
    intro hc
    rw [forall_mem_cons]
    exact ⟨fun hn => Nat.ne_of_lt hc (hid hn),hearly (Nat.le_of_lt hc)⟩
  case once =>
    rw [hstreak,pairwise_cons]
    refine ⟨fun e' he' hn => ?_,honce⟩
    exact hearly (Nat.le_of_eq (hid hn.1)) e' he' hn.2

theorem breaks_failure (step : Nat) (v : NoProgress) (herr : attempt.error = some err)
    (hv : IsHalt v = false) : breaks (.record step attempt,some ⟨v,none⟩) = false := by
  simp [breaks,halted,herr,hv]

theorem recorder_record (T : NoProgressTracker) (state : LadderState) (step : Nat)
    (attempt : ToolAttempt) : T.recorder.step state (.record step attempt) =
    (some (T.recordWithCause state step attempt).1,(T.recordWithCause state step attempt).2) := rfl

theorem recordWithCause_success (h : attempt.error = none) :
    T.recordWithCause state step attempt = (⟨.continue,none⟩,{}) := by
  simp [recordWithCause,h]

theorem recordWithCause_failure (T : NoProgressTracker) (state : LadderState) (step : Nat)
    (h : attempt.error = some err) :
    Judged T (fail state attempt (T.signature attempt err)) step attempt err
      (T.signature attempt err) (T.recordWithCause state step attempt) := by
  simp only [recordWithCause,h]
  exact judge_judged ..

theorem not_haltsAs {v : NoProgress} : ¬ HaltsAs cls (call,some ⟨v,none⟩) := by
  rintro ⟨_,ha,_,hc,-⟩
  cases ha
  cases hc

section

variable (h : Counted T t state)

include h

theorem Counted.failed {answer} (herr : attempt.error = some err)
    (hb : breaks (.record step attempt,answer) = false) :
    Failed T t attempt (T.signature attempt err) (fail state attempt (T.signature attempt err))
      (.record step attempt,answer) := by
  have hsig : T.sigOf (.record step attempt,answer) = some (T.signature attempt err) := by
    simp [sigOf,herr]
  have hstreak := streak_cons hb hsig h.last
  have hgrows : state.consecutive ≤ (fail state attempt (T.signature attempt err)).consecutive := by
    simp only [fail]
    split <;> omega
  have hvaried (hv : noProgressNudgeThreshold <
      (fail state attempt (T.signature attempt err)).consecutive ∨
      noProgressNudgeThreshold = (fail state attempt (T.signature attempt err)).consecutive ∧
        (attempt.recoverableMiss ∨ state.nudgedStreak)) :
      noProgressNudgeThreshold ≤ state.consecutive := by
    rcases hv with hv | ⟨hv,hm | hs⟩
    · simp only [fail] at hv
      split at hv <;> omega
    · simp only [fail,if_pos hm] at hv
      omega
    · exact h.stepped hs
  constructor
  case same =>
    rw [hstreak,fail,length_cons,h.same]
    split <;> rfl
  case last => rfl
  case consecutive =>
    rw [since_cons_of_neg hb,countP_cons,← h.consecutive]
    cases hm : attempt.recoverableMiss <;> simp [fail,countsConsecutive,hm]
  case fresh =>
    simp only [fail]
    split
    · exact fun hc => h.fresh hc
    · exact fun _ => rfl
  case past =>
    refine ⟨_,hstreak,?_⟩
    simp only [fail]
    split
    · exact ⟨fun hc => h.early hc,h.once⟩
    · exact ⟨fun _ => by simp,.nil⟩
  case sameNudged =>
    simp only [fail]
    split
    · exact fun hc => h.sameNudged (Nat.le_of_lt_succ hc)
    · exact fun hc => absurd hc (by decide)
  case variedNudged => exact fun hv => h.variedNudged (hvaried hv)
  case stepped => exact fun hs => Nat.le_trans (h.stepped hs) hgrows

theorem counted_judge (herr : attempt.error = some err) {r}
    (hj : Judged T (fail state attempt (T.signature attempt err)) step attempt err
      (T.signature attempt err) r) :
    Counted T ((.record step attempt,some r.1) :: t) r.2 := by
  have hsig answer : T.sigOf (.record step attempt,answer) = some (T.signature attempt err) := by
    simp [sigOf,herr]
  cases hj with
  | policy | repeated | varied =>
    exact counted_of_since (since_cons_of_pos (by simp [breaks,halted,noProgressHalt,IsHalt]))
  | identical hc hfew =>
    have hb := breaks_failure step (.nudge (identicalNudge step attempt.tool
      (fail state attempt (T.signature attempt err)).sameCount err)) herr rfl
    have hf := h.failed herr hb
    apply hf.counted hb (hsig _)
    case hnext => exact ⟨rfl,rfl,rfl⟩
    case hbelow =>
      rw [hc]
      exact T.nudges
    case hfew => exact hfew
    case hfresh => exact fun hlt => absurd hc (Nat.ne_of_lt hlt)
    case hsame => exact fun _ => rfl
    case hvaried => exact fun _ => .inl rfl
    case hstepped => exact hf.stepped
    case hid => exact fun _ => hc
  | stepBack hbelow _ hc =>
    have hb := breaks_failure step (.nudge (variedNudge step attempt.tool
      (fail state attempt (T.signature attempt err)).consecutive err)) herr rfl
    have hf := h.failed herr hb
    apply hf.counted hb (hsig _)
    case hnext => exact ⟨rfl,rfl,rfl⟩
    case hbelow => exact hbelow
    case hfew =>
      rw [hc]
      decide
    case hfresh => exact fun hlt => hf.fresh (Nat.le_of_lt hlt)
    case hsame => exact fun _ => rfl
    case hvaried => exact fun _ => .inl rfl
    case hstepped => exact fun _ => Nat.le_of_eq hc.symm
    case hid =>
      rw [hc]
      rintro ⟨_,_,_,_,_,he,-,hv⟩
      cases he
      exact (append_ne_append (c := '4') (d := 'T') (by decide) (by decide) (by decide)
        (NoProgress.nudge.inj hv)).elim
  | quiet hbelow hfew hs hc =>
    have hb := breaks_failure step .continue herr rfl
    have hf := h.failed herr hb
    apply hf.counted hb (hsig _)
    case hnext => exact ⟨rfl,rfl,rfl⟩
    case hbelow => exact hbelow
    case hfew => exact hfew
    case hfresh => exact fun hlt => hf.fresh (Nat.le_of_lt hlt)
    case hsame =>
      intro heq
      have hnone := hf.fresh (Nat.le_of_eq heq)
      rw [hs heq] at hnone
      cases hnone
    case hvaried => exact fun heq => .inr (hc heq)
    case hstepped => exact hf.stepped
    case hid =>
      rintro ⟨_,_,_,_,_,he,-,hv⟩
      cases he
      cases hv

theorem counted_step {call : LadderCall} :
    Counted T ((call,(T.recorder.step state call).1) :: t) (T.recorder.step state call).2 := by
  cases call with
  | reset => exact counted_of_since (since_cons_of_pos rfl)
  | record step attempt =>
    rw [recorder_record]
    cases herr : attempt.error with
    | none =>
      rw [recordWithCause_success herr]
      exact counted_of_since (since_cons_of_pos (by simp [breaks,herr]))
    | some => exact counted_judge h herr (recordWithCause_failure T state step herr)

theorem nudged_of_halt (hcls : cls ≠ "policy")
    (hh : HaltsAs cls (call,(T.recorder.step state call).1)) : ∃ n ∈ since breaks t, nudged n := by
  cases call with
  | reset =>
    obtain ⟨_,ha,-⟩ := hh
    cases ha
  | record step attempt =>
    rw [recorder_record] at hh
    cases herr : attempt.error with
    | none =>
      rw [recordWithCause_success herr] at hh
      exact absurd hh not_haltsAs
    | some =>
      have hj := recordWithCause_failure T state step herr
      have hf := h.failed herr (breaks_failure step .continue herr rfl)
      generalize T.recordWithCause state step attempt = r at hh hj
      cases hj with
      | policy =>
        obtain ⟨_,ha,_,hc,h⟩ := hh
        cases ha
        cases hc
        exact absurd h.symm hcls
      | repeated _ hs => exact hf.sameNudged (Nat.lt_of_lt_of_le T.nudges hs)
      | varied _ hs => exact hf.variedNudged (.inl (Nat.lt_of_lt_of_le (by decide) hs))
      | identical | stepBack | quiet => exact absurd hh not_haltsAs

end

theorem state_of_halt (hh : halted (call,(T.recorder.step state call).1)) :
    (T.recorder.step state call).2 = {} := by
  cases call with
  | reset => rfl
  | record step attempt =>
    rw [recorder_record] at hh ⊢
    cases herr : attempt.error with
    | none => rw [recordWithCause_success herr]
    | some =>
      have hj := recordWithCause_failure T state step herr
      generalize T.recordWithCause state step attempt = r at hh hj
      cases hj with
      | policy | repeated | varied => rfl
      | identical | stepBack | quiet => cases hh

theorem ladder_escalates (T : NoProgressTracker) (calls : List LadderCall) :
    T.Escalates (T.recorder.play calls).1 (T.recorder.play calls).2 := by
  have hinv := Recorder.play_inv (C := T.recorder)
    (P := fun t state => Counted T t state ∧
      Always (fun e past => HaltsAs "repeated_failure" e ∨ HaltsAs "varied_failures" e →
        ∃ n ∈ since breaks past, nudged n) t ∧
      ∀ e past, t = e :: past → halted e → state = {}) ?_ ?_ calls
  · obtain ⟨hc,hn,hr⟩ := hinv
    exact ⟨hc.same,hc.consecutive,hn,hr,hc.once⟩
  · exact ⟨counted_of_since rfl,always_nil,by simp⟩
  rintro t _ _ ⟨hc,hn,-⟩
  refine ⟨counted_step hc,always_cons.2 ⟨?_,hn⟩,?_⟩
  · rintro (hh | hh)
    all_goals exact nudged_of_halt hc (by decide) hh
  rintro e _ heq hh
  cases heq
  exact state_of_halt hh

end NoProgressTracker

end Harness
