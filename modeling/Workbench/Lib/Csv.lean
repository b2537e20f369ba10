import Mathlib.Data.List.Basic

/-!
# Comma-separated values

A text is read as records by the grammar of RFC 4180: records end with CRLF, the last one may do without it, and a
field is plain or stands between quotes, inside which two quotes are one. Characters outside ASCII are text. What
writes each field so that it is read as some text writes records that are read as those of the texts.
-/

set_option autoImplicit false

namespace Workbench.Lib.Csv

inductive Mode where
  | fieldStart
  | plain
  | quoted
  /-- Behind a quote in a quoted field: the end of the field, or the first of two quotes. -/
  | quote
  /-- Behind the first half of the end of a record. -/
  | cr
  deriving DecidableEq, Repr

/-- What is read so far of a field, of its record and of the file. -/
structure State where
  mode : Mode
  field : List Char
  fields : List (List Char)
  records : List (List (List Char))
  deriving DecidableEq, Repr

namespace State

def add (s : State) (mode : Mode) (c : Char) : State := { s with mode := mode, field := s.field ++ [c] }

def endField (s : State) : State := ⟨.fieldStart, [], s.fields ++ [s.field], s.records⟩

def endRecord (s : State) : State := ⟨.fieldStart, [], [], s.records ++ [s.fields ++ [s.field]]⟩

end State

/-- A character that a plain field has not. -/
def isSpecial (c : Char) : Bool := c = ',' || c = '"' || c = '\r' || c = '\n'

def stepPlain (s : State) (c : Char) : Option State :=
  if c = ',' then some s.endField
  else if c = '\r' then some { s with mode := .cr }
  else if isSpecial c then none
  else some (s.add .plain c)

def step (s : State) (c : Char) : Option State :=
  match s.mode with
  | .fieldStart => if c = '"' then some { s with mode := .quoted } else stepPlain s c
  | .plain => stepPlain s c
  | .quoted => if c = '"' then some { s with mode := .quote } else some (s.add .quoted c)
  | .quote =>
    if c = '"' then some (s.add .quoted c)
    else if c = ',' then some s.endField
    else if c = '\r' then some { s with mode := .cr }
    else none
  | .cr => if c = '\n' then some s.endRecord else none

/-- The end of the file: no record begins behind the end of the last one. -/
def finish (s : State) : Option (List (List (List Char))) :=
  match s.mode with
  | .quoted => none
  | .cr => none
  | .fieldStart => some (if s.fields = [] then s.records else s.records ++ [s.fields ++ [s.field]])
  | _ => some (s.records ++ [s.fields ++ [s.field]])

def run (s : State) (text : List Char) : Option State := text.foldlM step s

/-- The records of a text. -/
def parse (text : List Char) : Option (List (List (List Char))) := (run ⟨.fieldStart, [], [], []⟩ text).bind finish

theorem run_cons (s : State) (c : Char) (text : List Char) : run s (c :: text) = (step s c).bind fun next => run next text :=
  List.foldlM_cons

theorem run_append (s : State) (front rest : List Char) :
    run s (front ++ rest) = (run s front).bind fun next => run next rest := List.foldlM_append ..

/-! ## Fields -/

variable {fields : List (List Char)} {records : List (List (List Char))}

theorem stepPlain_text {c : Char} (h : isSpecial c = false) (s : State) : stepPlain s c = some (s.add .plain c) := by
  simp only [isSpecial, Bool.or_eq_false_iff, decide_eq_false_iff_not] at h
  rw [stepPlain, if_neg h.1.1.1, if_neg h.1.2, if_neg]
  simp [isSpecial, h]

theorem run_plain {text : List Char} (h : ∀ c ∈ text, isSpecial c = false) (read : List Char) :
    run ⟨.plain, read, fields, records⟩ text = some ⟨.plain, read ++ text, fields, records⟩ := by
  induction text generalizing read with
  | nil =>
    rw [List.append_nil]
    rfl
  | cons c rest ih =>
    have hrest := ih (fun d hd => h d (List.mem_cons_of_mem c hd)) (read ++ [c])
    rw [run_cons, step, stepPlain_text (h c List.mem_cons_self), Option.bind_some, State.add, hrest, List.append_assoc]
    rfl

/-- A quote is doubled, other characters stay. -/
def escapeChar (c : Char) : List Char := if c = '"' then ['"', '"'] else [c]

theorem run_escapeChar (c : Char) (read : List Char) :
    run ⟨.quoted, read, fields, records⟩ (escapeChar c) = some ⟨.quoted, read ++ [c], fields, records⟩ := by
  rw [escapeChar]
  by_cases hc : c = '"'
  · rw [if_pos hc, hc]
    rfl
  · rw [if_neg hc, run_cons, step]
    dsimp only
    rw [if_neg hc]
    rfl

theorem run_escaped (text read : List Char) :
    run ⟨.quoted, read, fields, records⟩ (text.flatMap escapeChar) = some ⟨.quoted, read ++ text, fields, records⟩ := by
  induction text generalizing read with
  | nil =>
    rw [List.append_nil]
    rfl
  | cons c rest ih =>
    rw [List.flatMap_cons, run_append, run_escapeChar, Option.bind_some, ih, List.append_assoc]
    rfl

/-- The text of a field is read as some field, up to where a comma or the end of the record may stand. -/
def Reads (text field : List Char) : Prop :=
  ∀ fields records, ∃ mode, mode ≠ .quoted ∧ mode ≠ .cr ∧
    run ⟨.fieldStart, [], fields, records⟩ text = some ⟨mode, field, fields, records⟩

theorem reads_plain {text : List Char} (h : ∀ c ∈ text, isSpecial c = false) : Reads text text := by
  intro fields records
  cases text with
  | nil => exact ⟨.fieldStart, by decide, by decide, rfl⟩
  | cons c rest =>
    have hc := h c List.mem_cons_self
    have hquote : c ≠ '"' := by
      rintro rfl
      cases hc
    refine ⟨.plain, by decide, by decide, ?_⟩
    rw [run_cons, step]
    dsimp only
    rw [if_neg hquote, stepPlain_text hc, Option.bind_some, State.add,
      run_plain fun d hd => h d (List.mem_cons_of_mem c hd)]
    rfl

theorem reads_quoted (field : List Char) : Reads ('"' :: field.flatMap escapeChar ++ ['"']) field := by
  intro fields records
  refine ⟨.quote, by decide, by decide, ?_⟩
  have hopen : run ⟨.fieldStart, [], fields, records⟩ ['"'] = some ⟨.quoted, [], fields, records⟩ := rfl
  rw [← List.singleton_append, run_append, run_append, hopen, Option.bind_some, run_escaped, Option.bind_some,
    List.nil_append]
  rfl

/-! ## Records -/

theorem step_comma {mode : Mode} (hquoted : mode ≠ .quoted) (hcr : mode ≠ .cr) (field : List Char) :
    step ⟨mode, field, fields, records⟩ ',' = some ⟨.fieldStart, [], fields ++ [field], records⟩ := by
  cases mode with
  | quoted => exact absurd rfl hquoted
  | cr => exact absurd rfl hcr
  | _ => rfl

theorem run_crlf {mode : Mode} (hquoted : mode ≠ .quoted) (hcr : mode ≠ .cr) (field : List Char) :
    run ⟨mode, field, fields, records⟩ ['\r', '\n'] =
      some ⟨.fieldStart, [], [], records ++ [fields ++ [field]]⟩ := by
  cases mode with
  | quoted => exact absurd rfl hquoted
  | cr => exact absurd rfl hcr
  | _ => rfl

section

variable {write decoded : List Char → List Char} (hwrite : ∀ field, Reads (write field) (decoded field))

include hwrite

/-- A record whose fields are written one by one. -/
theorem run_record {record : List (List Char)} (hne : record ≠ []) (fields : List (List Char))
    (records : List (List (List Char))) :
    run ⟨.fieldStart, [], fields, records⟩ ([','].intercalate (record.map write) ++ ['\r', '\n']) =
      some ⟨.fieldStart, [], [], records ++ [fields ++ record.map decoded]⟩ := by
  induction record generalizing fields with
  | nil => exact absurd rfl hne
  | cons field rest ih =>
    obtain ⟨mode, hquoted, hcr, hfield⟩ := hwrite field fields records
    cases rest with
    | nil =>
      have hsingle : [','].intercalate ([field].map write) = write field := by simp [List.intercalate]
      rw [hsingle, run_append, hfield, Option.bind_some, run_crlf hquoted hcr]
      rfl
    | cons next rest =>
      have hcons : [','].intercalate ((field :: next :: rest).map write) =
          write field ++ ',' :: [','].intercalate ((next :: rest).map write) := by simp [List.intercalate]
      rw [hcons, List.append_assoc, run_append, hfield, Option.bind_some, List.cons_append, run_cons,
        step_comma hquoted hcr, Option.bind_some, ih (by simp), List.append_assoc]
      rfl

/-- **A file whose fields are each written so that they are read as some texts is read as the records of these
texts.** -/
theorem parse_records {file : List (List (List Char))} (hne : ∀ record ∈ file, record ≠ []) :
    parse (file.flatMap fun record => [','].intercalate (record.map write) ++ ['\r', '\n']) =
      some (file.map fun record => record.map decoded) := by
  have hrun : ∀ done : List (List (List Char)), run ⟨.fieldStart, [], [], done⟩
      (file.flatMap fun record => [','].intercalate (record.map write) ++ ['\r', '\n']) =
        some ⟨.fieldStart, [], [], done ++ file.map fun record => record.map decoded⟩ := by
    induction file with
    | nil =>
      intro done
      rw [List.map_nil, List.append_nil]
      rfl
    | cons record rest ih =>
      intro done
      have hrest := ih fun r hr => hne r (List.mem_cons_of_mem record hr)
      rw [List.flatMap_cons, run_append, run_record hwrite (hne record List.mem_cons_self), Option.bind_some, hrest,
        List.append_assoc]
      rfl
  rw [parse, hrun]
  rfl

end

end Workbench.Lib.Csv
