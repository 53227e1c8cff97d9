import Mathlib.Data.List.Induction
import Mathlib.Data.List.Perm.Subperm
import TinyAgents.Interaction.Program
import TinyAgents.Interaction.Text

namespace HarnessTools.Todos

open List Interaction

inductive TodoStatus where
  | pending
  | inProgress
  | completed
  | cancelled
deriving DecidableEq

def TodoStatus.asStr : TodoStatus → String
  | pending => "pending"
  | inProgress => "in_progress"
  | completed => "completed"
  | cancelled => "cancelled"

def TodoStatus.isOpen (status : TodoStatus) : Bool :=
  status = pending ∨ status = inProgress

structure TodoItem where
  content : String
  status : TodoStatus
  reason : Option String := none

structure Blanks where
  trim : String → String
  trim_trim : ∀ s, trim (trim s) = trim s

def Blanks.str : Blanks := ⟨Interaction.trim,Interaction.trim_trim⟩

abbrev Sequel := List TodoItem × List String

def keepFirst : Bool → List TodoItem → List TodoItem
  | _,[] => []
  | seen,item :: rest =>
    (if seen ∧ item.status = .inProgress then {item with status := .pending} else item) ::
      keepFirst (seen || item.status = .inProgress) rest

def demoted : Bool → Nat → List TodoItem → List String
  | _,_,[] => []
  | seen,n,item :: rest =>
    (if seen ∧ item.status = .inProgress then [s!"{n}"] else []) ++
      demoted (seen || item.status = .inProgress) (n+1) rest

variable (T : Blanks) (items : List TodoItem)

def ensureEarlierClosed (index : Nat) : Option String :=
  match (items.take index).zipIdx.filterMap fun (item,n) =>
      if item.status.isOpen then some s!"{n+1}" else none with
  | [] => none
  | [one] => some s!"Finish or cancel step {one} first."
  | many => some ("Finish or cancel steps " ++ ", ".intercalate many ++ " first, in order: " ++
      "todo \x7b\"complete\": [N, ...]\x7d for the ones that are done, or " ++
      "todo \x7b\"cancel\": N, \"reason\": \"...\"\x7d.")

def startNext : List TodoItem × Option String :=
  if items.any (·.status = .inProgress) then (items,none)
  else match items.findFinIdx? (·.status.isOpen) with
    | some index => (items.set index {items[index] with status := .inProgress},
        some s!"Step {index.val+1} \"{items[index].content}\" is now in progress.")
    | none => (items,if items.isEmpty then none else some "Every step is closed.")

def started (notes : List String) : Sequel :=
  ((startNext items).1,notes ++ (startNext items).2.toList)

def worked (item : TodoItem) : Bool :=
  item.status = .completed ∨ item.status = .inProgress

def ordered (previous : List TodoItem) (item : TodoItem) : Bool :=
  match item.status with
  | .inProgress => true
  | .completed => !previous.any fun old => old.content = item.content ∧ worked old
  | .pending | .cancelled => false

def applyWrite (previous items : List TodoItem) : Except String Sequel :=
  let back := demoted false 1 items
  let notes := if back.isEmpty then [] else
    ["Only one step may be in progress: kept the first and set step(s) " ++
      ", ".intercalate back ++ " back to pending."]
  let items := keepFirst false items
  match items.zipIdx.findSome? fun (item,index) =>
      if ordered previous item then ensureEarlierClosed items index else none with
  | some refusal => .error refusal
  | none => .ok (started items notes)

def indexOf (step : Nat) : Except String (Fin items.length) :=
  if h : step = 0 ∨ items.length < step then
    .error s!"There is no step {step}: the plan has {items.length} step(s), numbered from 1."
  else .ok ⟨step-1,by omega⟩

def complete (step : Nat) : Except String Sequel :=
  match indexOf items step with
  | .error e => .error e
  | .ok index =>
    let done := items.set index {items[index] with status := .completed}
    match items[index].status with
    | .completed => .ok (started items [s!"Step {step} was already completed."])
    | .cancelled =>
      .error s!"Step {step} was cancelled; re-send the plan with `todos` to reopen it."
    | .inProgress => .ok (started done [])
    | .pending =>
      match ensureEarlierClosed items index with
      | some refusal => .error refusal
      | none => .ok (started done [])

def cancel (T : Blanks) (reason : String) (items : List TodoItem) (step : Nat) :
    Except String Sequel :=
  match indexOf items step with
  | .error e => .error e
  | .ok index =>
    let reason := T.trim reason
    if reason = "" then .error "`cancel` needs a `reason`."
    else if items[index].status.isOpen then
      .ok (started (items.set index ⟨items[index].content,.cancelled,some reason⟩) [])
    else .error s!"Step {step} is already {items[index].status.asStr}."

def eachStep (f : List TodoItem → Nat → Except String Sequel) :
    List TodoItem → List Nat → Except String Sequel
  | items,[] => .ok (items,[])
  | items,step :: steps => do
    let first ← f items step
    let rest ← eachStep f first.1 steps
    .ok (rest.1,first.2 ++ rest.2)

def isStart (note : String) : Bool := note.endsWith "is now in progress."

def completeSteps (steps : List Nat) : Except String Sequel :=
  let steps := (steps.mergeSort (· ≤ ·)).eraseReps
  match steps.getLast? with
  | none => .error "`complete` needs at least one step number."
  | some last => eachStep (fun items step => (complete items step).map fun done =>
      (done.1,if step = last then done.2 else done.2.filter (!isStart ·))) items steps

def lastStart (notes : List String) : List String :=
  let last := notes.length-1-notes.reverse.findIdx isStart
  (notes.zipIdx.filter fun (note,index) => !isStart note || index = last).map (·.1)

def closeSteps (complete cancels : List Nat) (reason : String) (items : List TodoItem) :
    Except String Sequel := do
  let first ← eachStep (cancel T reason) items (cancels.mergeSort (· ≤ ·)).eraseReps
  if complete.isEmpty then .ok (first.1,lastStart first.2)
  else do
    let rest ← completeSteps first.1 complete
    .ok (rest.1,lastStart (first.2.filter (!isStart ·) ++ rest.2))

def normalise : List TodoItem :=
  (items.map fun item => {item with content := T.trim item.content}).filter (·.content ≠ "")

inductive Operation where
  | replace (items : List TodoItem)
  | complete (step : Nat)
  | completeSteps (steps : List Nat)
  | closeSteps (complete cancel : List Nat) (reason : String)
  | cancel (step : Nat) (reason : String)
  | clear

def Operation.change : Operation → List TodoItem → Except String Sequel
  | .replace items,current => applyWrite current (normalise T items)
  | .complete step,items => Todos.complete items step
  | .completeSteps steps,items => Todos.completeSteps items steps
  | .closeSteps done dropped reason,items => Todos.closeSteps T done dropped reason items
  | .cancel step reason,items => Todos.cancel T reason items step
  | .clear,_ => .ok ([],[])

def mutate (op : Operation) (stored : Option (List TodoItem)) :
    Except String Sequel × Option (List TodoItem) :=
  match op.change T (stored.getD []) with
  | .error refusal => (.error refusal,stored)
  | .ok (items,notes) => (.ok (normalise T items,notes),some (normalise T items))

def run (ops : List Operation) : Option (List TodoItem) :=
  ops.foldl (fun stored op => (mutate T op stored).2) none

abbrev Heeds (above item : TodoItem) : Prop :=
  item.status = .inProgress → above.status.isOpen = false

abbrev Tidy (item : TodoItem) : Prop :=
  T.trim item.content = item.content ∧ item.content ≠ ""

structure Sequenced : Prop where
  heeds : items.Pairwise Heeds
  working : ∀ item ∈ items, item.status.isOpen → ∃ x ∈ items, x.status = .inProgress
  tidy : ∀ item ∈ items,Tidy T item

variable {T : Blanks} {items previous : List TodoItem} {item new : TodoItem} {result : Sequel}
  {i step : Nat} {notes : List String}

theorem normalise_of_tidy (h : ∀ item ∈ items,Tidy T item) : normalise T items = items := by
  have hm : items.map (fun item => {item with content := T.trim item.content}) = items := by
    conv_rhs => rw [← map_id items]
    exact map_congr_left fun item hi => by simp [(h item hi).1]
  rw [normalise,hm,filter_eq_self]
  exact fun item hi => by simpa using (h item hi).2

theorem tidy_set (h : ∀ item ∈ items,Tidy T item) (index : Fin items.length)
    (hn : new.content = items[index].content) : ∀ item ∈ items.set index new,Tidy T item := by
  intro item hi
  obtain hi | rfl := mem_or_eq_of_mem_set hi
  · exact h item hi
  · rw [Tidy,hn]
    exact h _ (getElem_mem index.2)

theorem heeds_set (h : items.Pairwise Heeds) (hn : new.status.isOpen = false) :
    (items.set i new).Pairwise Heeds := by
  have hne : new.status ≠ .inProgress := by rintro he; simp [he,TodoStatus.isOpen] at hn
  induction items generalizing i with
  | nil => exact h
  | cons item rest ih =>
    obtain ⟨hi,hr⟩ := pairwise_cons.1 h
    cases i with
    | zero => exact .cons (fun _ _ _ => hn) hr
    | succ i =>
      refine .cons (fun x hx => ?_) (ih hr)
      obtain hx | rfl := mem_or_eq_of_mem_set hx
      · exact hi x hx
      · exact fun he => absurd he hne

theorem closed_above (h : ensureEarlierClosed items i = none) {k : Nat} (hk : k < i)
    (hi : items[k]? = some item) : item.status.isOpen = false := by
  unfold ensureEarlierClosed at h
  split at h
  · rename_i hnil
    have hm : (item,k) ∈ (items.take i).zipIdx := by
      rw [mem_zipIdx_iff_getElem?,getElem?_take_of_lt hk,hi]
    simpa using filterMap_eq_nil_iff.1 hnil _ hm
  all_goals cases h

theorem startNext_sequenced (h : items.Pairwise Heeds) (ht : ∀ item ∈ items,Tidy T item) :
    Sequenced T (startNext items).1 := by
  unfold startNext
  split
  case isTrue hp =>
    obtain ⟨x,hx,hs⟩ := any_eq_true.1 hp
    exact ⟨h,fun _ _ _ => ⟨x,hx,of_decide_eq_true hs⟩,ht⟩
  case isFalse hp =>
    have hp : ∀ x ∈ items,x.status ≠ .inProgress := by simpa using hp
    split
    case h_1 index hf =>
      obtain ⟨-,hb⟩ := findFinIdx?_eq_some_iff.1 hf
      refine ⟨pairwise_iff_getElem.2 fun i j hi hj hij hs => ?_,fun _ _ _ => ?_,?_⟩
      · rw [length_set] at hi hj
        rw [getElem_set] at hs
        split at hs
        case isTrue hj =>
          rw [getElem_set_ne (by omega)]
          simpa using hb ⟨i,hi⟩ (by rw [Fin.lt_def,hj]; exact hij)
        case isFalse => exact absurd hs (hp _ (getElem_mem hj))
      · exact ⟨_,mem_set index.2 _,rfl⟩
      · exact tidy_set ht index rfl
    case h_2 hf =>
      exact ⟨h,fun x hx ho => absurd ho (findFinIdx?_eq_none_iff.1 hf x hx),ht⟩

theorem Sequenced.close (h : Sequenced T items) (index : Fin items.length)
    (hn : new.content = items[index].content) (hs : new.status.isOpen = false) :
    Sequenced T (startNext (items.set index new)).1 :=
  startNext_sequenced (heeds_set h.heeds hs) (tidy_set h.tidy index hn)

theorem complete_sequenced (h : Sequenced T items) (hc : complete items step = .ok result) :
    Sequenced T result.1 := by
  unfold complete at hc
  split at hc
  · cases hc
  dsimp only at hc
  split at hc
  · cases hc
    exact startNext_sequenced h.heeds h.tidy
  · cases hc
  · cases hc
    exact h.close _ rfl rfl
  split at hc
  · cases hc
  · cases hc
    exact h.close _ rfl rfl

theorem cancel_sequenced {reason} (h : Sequenced T items)
    (hc : cancel T reason items step = .ok result) : Sequenced T result.1 := by
  unfold cancel at hc
  split at hc
  · cases hc
  dsimp only at hc
  split at hc
  · cases hc
  split at hc
  · cases hc
    exact h.close _ rfl rfl
  · cases hc

theorem eachStep_sequenced {f}
    (hf : ∀ {items step result},Sequenced T items → f items step = .ok result →
      Sequenced T result.1) {steps : List Nat} (h : Sequenced T items)
    (hc : eachStep f items steps = .ok result) : Sequenced T result.1 := by
  induction steps generalizing items result with
  | nil =>
    cases hc
    exact h
  | cons step steps ih =>
    obtain ⟨first,hs,hc⟩ := ok_of_bind hc
    obtain ⟨rest,hr,hc⟩ := ok_of_bind hc
    cases hc
    exact (ih (hf h hs) hr :)

theorem completeSteps_sequenced {steps} (h : Sequenced T items)
    (hc : completeSteps items steps = .ok result) : Sequenced T result.1 := by
  unfold completeSteps at hc
  dsimp only at hc
  split at hc
  · cases hc
  refine eachStep_sequenced (fun {items step result} h hs => ?_) h hc
  cases hd : complete items step with
  | error => simp [hd,Except.map] at hs
  | ok done =>
    rw [hd] at hs
    cases hs
    exact (complete_sequenced h hd :)

theorem closeSteps_sequenced {done dropped reason} (h : Sequenced T items)
    (hc : closeSteps T done dropped reason items = .ok result) : Sequenced T result.1 := by
  obtain ⟨first,hs,hc⟩ := ok_of_bind hc
  have hs := eachStep_sequenced cancel_sequenced h hs
  split at hc
  · cases hc
    exact hs
  obtain ⟨rest,hr,hc⟩ := ok_of_bind hc
  cases hc
  exact (completeSteps_sequenced hs hr :)

theorem keepFirst_content {seen} (h : ∀ item ∈ items,Tidy T item) :
    ∀ item ∈ (keepFirst seen items),Tidy T item := by
  induction items generalizing seen with
  | nil => exact h
  | cons item rest ih =>
    obtain ⟨hi,hr⟩ := forall_mem_cons.1 h
    refine forall_mem_cons.2 ⟨?_,ih hr⟩
    split
    all_goals exact hi

theorem closed_of_applyWrite (h : applyWrite previous items = .ok result) {i}
    (hi : (keepFirst false items)[i]? = some item) (ho : ordered previous item) :
    ensureEarlierClosed (keepFirst false items) i = none := by
  unfold applyWrite at h
  dsimp only at h
  split at h
  · cases h
  · rename_i hnone
    simpa [ho] using findSome?_eq_none_iff.1 hnone (item,i) (mem_zipIdx_iff_getElem?.2 hi)

theorem applyWrite_sequenced (ht : ∀ item ∈ items,Tidy T item)
    (h : applyWrite previous items = .ok result) : Sequenced T result.1 := by
  have hh : (keepFirst false items).Pairwise Heeds :=
    pairwise_iff_getElem.2 fun i j hi hj hij hs =>
      closed_above (closed_of_applyWrite h (getElem?_eq_getElem hj) (by simp [ordered,hs])) hij
        (getElem?_eq_getElem hi)
  unfold applyWrite at h
  dsimp only at h
  split at h
  · cases h
  · cases h
    exact startNext_sequenced hh (keepFirst_content ht)

theorem Operation.change_sequenced (op : Operation) (h : Sequenced T items)
    (hc : op.change T items = .ok result) : Sequenced T result.1 := by
  cases op with
  | replace =>
    exact applyWrite_sequenced (by simp +contextual [normalise,Tidy,T.trim_trim]) hc
  | complete => exact complete_sequenced h hc
  | completeSteps => exact completeSteps_sequenced h hc
  | closeSteps => exact closeSteps_sequenced h hc
  | cancel => exact cancel_sequenced h hc
  | clear =>
    cases hc
    exact ⟨.nil,by simp,by simp⟩

theorem run_sequenced (ops : List Operation) : Sequenced T ((run T ops).getD []) := by
  induction ops using reverseRecOn with
  | nil => exact ⟨.nil,by simp [run],by simp [run]⟩
  | append_singleton ops op ih =>
    rw [run,foldl_append]
    simp only [foldl_cons,foldl_nil,mutate]
    split
    · exact ih
    next hc =>
      have hs := op.change_sequenced ih hc
      simpa [normalise_of_tidy hs.tidy] using hs

theorem inProgress_eq_first (h : items.Pairwise Heeds)
    (hw : ∀ item ∈ items, item.status.isOpen → ∃ x ∈ items,x.status = .inProgress) :
    items.filter (·.status = .inProgress) = (items.find? (·.status.isOpen)).toList := by
  induction items with
  | nil => rfl
  | cons item rest ih =>
    obtain ⟨hi,hr⟩ := pairwise_cons.1 h
    have hopen (ho : item.status.isOpen) : ∀ x ∈ rest,x.status ≠ .inProgress :=
      fun x hx hs => by simp [hi x hx hs] at ho
    cases ho : item.status.isOpen with
    | true =>
      have hs : item.status = .inProgress := by
        obtain ⟨x,hx,hs⟩ := hw item mem_cons_self ho
        obtain rfl | hx := mem_cons.1 hx
        · exact hs
        · exact absurd hs (hopen ho x hx)
      rw [filter_cons_of_pos (by simp [hs]),find?_cons_of_pos (by simp [ho])]
      simpa using hopen ho
    | false =>
      have hs : item.status ≠ .inProgress := by rintro hs; simp [hs,TodoStatus.isOpen] at ho
      rw [filter_cons_of_neg (by simpa using hs),find?_cons_of_neg (by simp [ho])]
      refine ih hr fun x hx hxo => ?_
      obtain ⟨y,hy,hys⟩ := hw x (mem_cons_of_mem _ hx) hxo
      obtain rfl | hy := mem_cons.1 hy
      · exact absurd hys hs
      · exact ⟨y,hy,hys⟩

theorem only_first_open_in_progress (T : Blanks) (ops : List Operation) :
    ((run T ops).getD []).filter (·.status = .inProgress) =
    (((run T ops).getD []).find? (·.status.isOpen)).toList ∧ ∀ op refusal,
    (mutate T op (run T ops)).1 = .error refusal → (mutate T op (run T ops)).2 = run T ops := by
  refine ⟨inProgress_eq_first (run_sequenced ops).heeds (run_sequenced ops).working,?_⟩
  intro op refusal h
  unfold mutate at h ⊢
  split
  · rfl
  · rename_i hc
    simp [hc] at h

def outOfOrder : List TodoItem → List String
  | [] => []
  | item :: rest =>
    if item.status.isOpen then (rest.filter (·.status = .completed)).map (·.content)
    else outOfOrder rest

def workedOn (previous : List TodoItem) : List String :=
  (previous.filter worked).map (·.content)

theorem completed_keepFirst {seen} :
    ((keepFirst seen items).filter (·.status = .completed)).map (·.content) =
      (items.filter (·.status = .completed)).map (·.content) := by
  induction items generalizing seen with
  | nil => rfl
  | cons item rest ih =>
    cases hs : item.status
    all_goals cases seen <;> simp [keepFirst,hs,ih]

theorem outOfOrder_keepFirst {seen} : outOfOrder (keepFirst seen items) = outOfOrder items := by
  induction items generalizing seen with
  | nil => rfl
  | cons item rest ih =>
    cases hs : item.status
    all_goals cases seen <;>
      simp [outOfOrder,keepFirst,TodoStatus.isOpen,hs,ih,completed_keepFirst]

theorem mem_outOfOrder {text} (h : text ∈ outOfOrder items) :
    ∃ (k i : Nat) (first item : TodoItem),k < i ∧ items[k]? = some first ∧ first.status.isOpen ∧
    items[i]? = some item ∧ item.status = .completed ∧ item.content = text := by
  induction items with
  | nil => simp [outOfOrder] at h
  | cons item rest ih =>
    rw [outOfOrder] at h
    split at h
    case isTrue ho =>
      obtain ⟨x,hx,rfl⟩ := mem_map.1 h
      obtain ⟨hx,hs⟩ := mem_filter.1 hx
      obtain ⟨i,hi⟩ := mem_iff_getElem?.1 hx
      exact ⟨0,i+1,item,x,by omega,rfl,ho,hi,of_decide_eq_true hs,rfl⟩
    case isFalse =>
      obtain ⟨k,i,first,x,hk,hx⟩ := ih h
      exact ⟨k+1,i+1,first,x,by omega,hx⟩

theorem outOfOrder_subset (h : applyWrite previous items = .ok result) :
    outOfOrder items ⊆ workedOn previous := by
  rw [← @outOfOrder_keepFirst items false]
  intro text ht
  obtain ⟨k,i,first,item,hk,hf,ho,hi,hs,rfl⟩ := mem_outOfOrder ht
  by_contra hn
  have hw : ordered previous item := by
    simp only [ordered,hs,Bool.not_eq_true',any_eq_false,decide_eq_true_eq]
    rintro old hold ⟨hc,hw⟩
    exact hn (mem_map.2 ⟨old,mem_filter.2 ⟨hold,hw⟩,hc⟩)
  simp [closed_above (closed_of_applyWrite h hi hw) hk hf] at ho

theorem write_matches_iff (h : applyWrite previous items = .ok result) :
    outOfOrder items <+~ workedOn previous ↔ ∀ text,1 < (outOfOrder items).count text →
    (outOfOrder items).count text ≤ (workedOn previous).count text := by
  rw [subperm_ext_iff]
  refine ⟨fun hm text ht => hm text (count_pos_iff.1 (by omega)),fun hm text ht => ?_⟩
  have := count_pos_iff.2 (outOfOrder_subset h ht)
  have := hm text
  omega

theorem write_matches_one :
    outOfOrder [⟨"b",.pending,none⟩,⟨"a",.completed,none⟩] <+~ workedOn [⟨"a",.completed,none⟩] :=
  (write_matches_iff (rfl : applyWrite _ _ = .ok _)).2 fun _ h =>
    absurd h (Nat.not_lt.2 (count_le_length (l := ["a"])))

theorem repeated_text_matches_once :
    (∃ result,applyWrite [⟨"a",.completed,none⟩]
      [⟨"b",.pending,none⟩,⟨"a",.completed,none⟩,⟨"a",.completed,none⟩] = .ok result) ∧
      ¬ outOfOrder [⟨"b",.pending,none⟩,⟨"a",.completed,none⟩,⟨"a",.completed,none⟩] <+~
        workedOn [⟨"a",.completed,none⟩] :=
  ⟨⟨_,rfl⟩,by decide⟩

end HarnessTools.Todos
