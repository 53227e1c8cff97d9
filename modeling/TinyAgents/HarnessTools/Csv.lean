import Mathlib.Data.List.Basic

namespace HarnessTools.Csv

open List

inductive Value where
  | null
  | string (s : String)
  | bool (b : Bool)
  | number (text : String)
  | nested (text : String)

def special (c : Char) : Bool := c = ',' || c = '"' || c = '\n' || c = '\r'

def csvEscape (value : String) : List Char :=
  if value.toList.any special then
    '"' :: value.toList.flatMap (fun c => if c = '"' then ['"','"'] else [c])++['"']
  else value.toList

def valueToCell : Value → String
  | .null => ""
  | .string s => s
  | .bool b => toString b
  | .number text => text
  | .nested text => text

def cellText (item : String → Option Value) (column : String) : String :=
  ((item column).map valueToCell).getD ""

def line (cells : List String) : List Char := intercalate [','] (cells.map csvEscape)++['\n']

def renderCsv (items : List (String → Option Value)) (columns : List String) : List Char :=
  line columns++items.flatMap fun item => line (columns.map (cellText item))

inductive Mode where
  | start | plain | quoted | closed | cr
  deriving DecidableEq

-- A reader of RFC 4180 that ends a record at a line feed or at a carriage return and a line feed.
def readCsv (mode : Mode) (cell : List Char) (row : List String) :
    List Char → Option (List (List String))
  | [] =>
    if mode = .start ∧ row = [] then some []
    else if mode = .quoted ∨ mode = .cr then none
    else some [row++[String.ofList cell]]
  | c :: cs =>
    if mode = .quoted then
      if c = '"' then readCsv .closed cell row cs else readCsv .quoted (cell++[c]) row cs
    else if c = '\n' then (readCsv .start [] [] cs).map ((row++[String.ofList cell]) :: ·)
    else if mode = .cr then none
    else if c = '\r' then readCsv .cr cell row cs
    else if c = ',' then readCsv .start [] (row++[String.ofList cell]) cs
    else if c = '"' then
      if mode = .start then readCsv .quoted [] row cs
      else if mode = .closed then readCsv .quoted (cell++['"']) row cs
      else none
    else if mode = .closed then none
    else readCsv .plain (cell++[c]) row cs

variable {text cell cs : List Char} {row : List String} {mode : Mode} {c : Char}

theorem read_quoted :
    readCsv .quoted cell row (text.flatMap (fun c => if c = '"' then ['"','"'] else [c])++ '"' ::
      cs) = readCsv .closed (cell++text) row cs := by
  induction text generalizing cell with
  | nil => simp [readCsv]
  | cons c text ih =>
    have ih := @ih (cell++[c])
    rw [append_assoc,singleton_append] at ih
    rw [flatMap_cons,append_assoc]
    split
    all_goals next hc => simpa [readCsv,hc] using ih

def Open (mode : Mode) : Prop := mode = .start ∨ mode = .plain

theorem read_plain (hm : Open mode) (h : ∀ c ∈ text, special c = false) :
    ∃ mode', Open mode' ∧ readCsv mode cell row (text++cs) = readCsv mode' (cell++text) row cs := by
  induction text generalizing cell mode with
  | nil => exact ⟨mode,hm,by simp⟩
  | cons c text ih =>
    obtain ⟨hc,ht⟩ := forall_mem_cons.1 h
    obtain ⟨mode',hm',hr⟩ := @ih (cell++[c]) .plain (.inr rfl) ht
    refine ⟨mode',hm',?_⟩
    rw [append_assoc,singleton_append] at hr
    rw [← hr,cons_append,readCsv]
    simp only [special,Bool.or_eq_false_iff,decide_eq_false_iff_not] at hc
    rcases hm with rfl | rfl <;> simp [hc]

theorem read_cell {value : String} (hc : c = ',' ∨ c = '\n') :
    readCsv .start [] row (csvEscape value++c :: cs) =
      readCsv .plain value.toList row (c :: cs) := by
  have hend {mode} (hm : mode ≠ .quoted ∧ mode ≠ .cr) :
      readCsv mode value.toList row (c :: cs) = readCsv .plain value.toList row (c :: cs) := by
    rcases hc with rfl | rfl <;> simp [readCsv,hm]
  unfold csvEscape
  split
  · rw [append_assoc,singleton_append,cons_append,readCsv]
    simp only [reduceCtorEq,if_false,Char.reduceEq,if_true]
    rw [read_quoted]
    exact hend (by simp)
  next h =>
    obtain ⟨_,hm,hr⟩ := @read_plain value.toList [] (c :: cs) row _ (.inl rfl) (by simpa using h)
    rw [hr]
    exact hend (by rcases hm with rfl | rfl <;> simp)

theorem read_line {cells : List String} (h : cells ≠ []) :
    readCsv .start [] row (line cells++cs) = (readCsv .start [] [] cs).map ((row++cells) :: ·) := by
  induction cells generalizing row with
  | nil => exact absurd rfl h
  | cons value cells ih =>
    cases cells with
    | nil =>
      simp only [line,map_cons,map_nil,intercalate_singleton,append_assoc,singleton_append]
      rw [read_cell (.inr rfl)]
      simp [readCsv]
    | cons next rest =>
      have hline : line (value :: next :: rest) = csvEscape value++ ',' :: line (next :: rest) := by
        simp [line,intercalate]
      have ih := @ih (row++[value]) (by simp)
      rw [hline,append_assoc,cons_append,read_cell (.inl rfl)]
      simpa [readCsv] using ih

theorem csv_round_trip (items : List (String → Option Value)) (columns : List String)
    (h : columns ≠ []) :
    readCsv .start [] [] (renderCsv items columns) =
      some (columns :: items.map fun item => columns.map (cellText item)) := by
  rw [renderCsv,read_line h,nil_append]
  suffices hrows : readCsv .start [] [] (items.flatMap fun item =>
      line (columns.map (cellText item))) = some (items.map fun item =>
        columns.map (cellText item)) by rw [hrows]; rfl
  induction items with
  | nil => simp [readCsv]
  | cons item items ih =>
    rw [flatMap_cons,read_line (by simpa using h),ih]
    rfl

theorem csv_round_trip_quotes :
    readCsv .start [] [] (renderCsv [fun _ => some (.string "a\"\r\n,")] ["k,"]) =
      some [["k,"],["a\"\r\n,"]] :=
  csv_round_trip _ _ (by simp)

end HarnessTools.Csv
