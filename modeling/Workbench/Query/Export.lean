import Workbench.Lib.Csv
import Workbench.Query.Results

/-!
# Exporting a result

`ExportCSV` of `api/internal/query/service.go`, with the writer of `encoding/csv` whose `UseCRLF` is set. The writer
ends records with CRLF, and it also rewrites the line breaks inside quoted fields: a CR is left out, an LF becomes
CRLF. So a cell is read as it was just if its line breaks are CRLF already (`exportCSV_roundtrip_iff`).

A value that is not nil, behind `normalizeCell`, is of any type; `fmt.Sprint` is the parameter `sprint`.
-/

set_option autoImplicit false

namespace Workbench.Query

open Workbench.Lib

/-! ## The writer of `encoding/csv` -/

def fieldNeedsQuotes (field : Text) : Bool :=
  field ≠ [] && (field = "\\.".toList || field.any Csv.isSpecial || field.head?.any isGoSpace)

/-- A character of a quoted field, under `UseCRLF`. -/
def writeQuotedChar (c : Char) : Text :=
  if c = '"' then ['"', '"'] else if c = '\r' then [] else if c = '\n' then ['\r', '\n'] else [c]

def writeField (field : Text) : Text :=
  if fieldNeedsQuotes field then '"' :: field.flatMap writeQuotedChar ++ ['"'] else field

/-- `Writer.Write`. -/
def writeRecord (record : List Text) : Text := [','].intercalate (record.map writeField) ++ ['\r', '\n']

/-! ## `ExportCSV` -/

variable {V : Type} (sprint : V → Text)

/-- The text of a cell; nil has the empty one. -/
def cellText (value : Option V) : Text := value.elim [] sprint

def byteOrderMark : Char := '\ufeff'

def Service.exportCSV (s : Service (List (Option V))) (scope id : Text) : Except (PageError Unit) Text :=
  match s.jobs.lookup id with
  | none => .error (.result .queryNotFound)
  | some item =>
    if item.scope ≠ scope then .error (.result .queryNotFound)
    else if !item.done then .error (.result .queryPending)
    else if let some e := item.err then .error (.query e)
    else
      let headings := item.columns.map Column.name
      .ok (byteOrderMark :: (writeRecord headings ++
        item.rows.flatMap fun row => writeRecord (row.map (cellText sprint))))

/-- A query that is through and has columns; each row has a cell for each of them. -/
structure Finished (V : Type) where
  columns : List Column
  rows : List (List (Option V))
  truncated : Bool
  someColumn : columns ≠ []
  wide : ∀ row ∈ rows, row.length = columns.length

namespace Finished

variable (result : Finished V)

def job (scope : Text) : Job (List (Option V)) := ⟨scope, true, result.columns, result.rows, result.truncated, none⟩

/-- The names of the columns and the texts of the cells. -/
def table : List (List Text) := result.columns.map Column.name :: result.rows.map fun row => row.map (cellText sprint)

theorem table_ne_nil {record : List Text} (h : record ∈ result.table sprint) : record ≠ [] := by
  have hcolumns := result.someColumn
  rcases List.mem_cons.1 h with rfl | hrow
  · exact fun hnil => hcolumns (List.map_eq_nil_iff.1 hnil)
  · obtain ⟨row, hmem, rfl⟩ := List.mem_map.1 hrow
    intro hnil
    have hlength := result.wide row hmem
    rw [List.map_eq_nil_iff.1 hnil] at hlength
    exact hcolumns (List.length_eq_zero_iff.1 hlength.symm)

end Finished

/-- A service that keeps a finished query. -/
def Service.keep (s : Service (List (Option V))) (scope id : Text) (result : Finished V) : Service (List (Option V)) :=
  { s with jobs := s.jobs.insert id (result.job scope) }

/-! ## Line breaks -/

/-- What the writer makes of a character, before quotes are doubled. -/
def rewriteChar (c : Char) : Text := if c = '\r' then [] else if c = '\n' then ['\r', '\n'] else [c]

/-- The text that a field is read as. -/
def rewritten (field : Text) : Text := field.flatMap rewriteChar

/-- Each CR stands in front of an LF, each LF behind a CR. -/
def breaksPaired : Text → Bool
  | [] => true
  | '\r' :: '\n' :: rest => breaksPaired rest
  | c :: rest => c ≠ '\r' && c ≠ '\n' && breaksPaired rest

theorem breaksPaired_cons {c : Char} (hcr : c ≠ '\r') (hlf : c ≠ '\n') (rest : Text) :
    breaksPaired (c :: rest) = breaksPaired rest := by
  rw [breaksPaired]
  · simp [hcr, hlf]
  · intro _ h _
    exact hcr h

theorem rewriteChar_text {c : Char} (hcr : c ≠ '\r') (hlf : c ≠ '\n') : rewriteChar c = [c] := by
  rw [rewriteChar, if_neg hcr, if_neg hlf]

theorem rewritten_cons (c : Char) (rest : Text) : rewritten (c :: rest) = rewriteChar c ++ rewritten rest :=
  List.flatMap_cons

/-- All the breaks that are written are paired. -/
theorem breaksPaired_rewritten (field : Text) : breaksPaired (rewritten field) = true := by
  induction field with
  | nil => rfl
  | cons c rest ih =>
    rw [rewritten_cons]
    by_cases hcr : c = '\r'
    · rw [hcr]
      exact ih
    · by_cases hlf : c = '\n'
      · rw [hlf]
        exact ih
      · rw [rewriteChar_text hcr hlf, List.singleton_append, breaksPaired_cons hcr hlf]
        exact ih

theorem rewritten_of_breaksPaired (field : Text) (h : breaksPaired field = true) : rewritten field = field := by
  induction field using breaksPaired.induct with
  | case1 => rfl
  | case2 rest ih =>
    rw [rewritten_cons, rewritten_cons, ih h]
    rfl
  | case3 c rest hpair ih =>
    rw [breaksPaired] at h
    · simp only [Bool.and_eq_true, decide_eq_true_eq] at h
      rw [rewritten_cons, rewriteChar_text h.1.1 h.1.2, ih h.2]
      rfl
    · exact hpair

theorem rewritten_eq_self_iff {field : Text} : rewritten field = field ↔ breaksPaired field = true := by
  constructor
  · intro h
    rw [← h]
    exact breaksPaired_rewritten field
  · exact rewritten_of_breaksPaired field

/-! ## What the export is read as -/

theorem writeQuotedChar_eq (c : Char) : writeQuotedChar c = (rewriteChar c).flatMap Csv.escapeChar := by
  rw [writeQuotedChar, rewriteChar]
  by_cases hcr : c = '\r'
  · rw [hcr]
    rfl
  · by_cases hlf : c = '\n'
    · rw [hlf]
      rfl
    · rw [if_neg hcr, if_neg hlf, List.flatMap_singleton]
      rfl

theorem flatMap_writeQuotedChar (field : Text) :
    field.flatMap writeQuotedChar = (rewritten field).flatMap Csv.escapeChar := by
  rw [rewritten, List.flatMap_assoc]
  exact congrArg field.flatMap (funext writeQuotedChar_eq)

/-- A field without a special character has no line break. -/
theorem rewritten_of_plain {field : Text} (h : ∀ c ∈ field, Csv.isSpecial c = false) : rewritten field = field := by
  induction field with
  | nil => rfl
  | cons c rest ih =>
    have hc := h c List.mem_cons_self
    simp only [Csv.isSpecial, Bool.or_eq_false_iff, decide_eq_false_iff_not] at hc
    rw [rewritten_cons, rewriteChar_text hc.1.2 hc.2, ih fun d hd => h d (List.mem_cons_of_mem c hd)]
    rfl

theorem plain_of_not_needsQuotes {field : Text} (h : fieldNeedsQuotes field = false) :
    ∀ c ∈ field, Csv.isSpecial c = false := by
  intro c hc
  have hne : field ≠ [] := List.ne_nil_of_mem hc
  cases hspecial : Csv.isSpecial c with
  | false => rfl
  | true =>
    have hany : field.any Csv.isSpecial = true := List.any_eq_true.2 ⟨c, hc, hspecial⟩
    rw [fieldNeedsQuotes, hany] at h
    simp [hne] at h

theorem reads_writeField (field : Text) : Csv.Reads (writeField field) (rewritten field) := by
  rw [writeField]
  cases hquotes : fieldNeedsQuotes field with
  | true =>
    rw [if_pos rfl, flatMap_writeQuotedChar]
    exact Csv.reads_quoted _
  | false =>
    have hplain := plain_of_not_needsQuotes hquotes
    rw [if_neg Bool.false_ne_true, rewritten_of_plain hplain]
    exact Csv.reads_plain hplain

/-- What the export writes for a finished query. -/
theorem exportCSV_keep (s : Service (List (Option V))) (scope id : Text) (result : Finished V) :
    (s.keep scope id result).exportCSV sprint scope id =
      .ok (byteOrderMark :: (result.table sprint).flatMap writeRecord) := by
  have hjob : (s.keep scope id result).jobs.lookup id = some (result.job scope) := AList.lookup_insert _
  rw [Service.exportCSV, hjob]
  dsimp only [Finished.job]
  rw [if_neg (by simp), if_neg (by simp), Finished.table, List.flatMap_cons, List.flatMap_map]

/-- The export is read as the table with its line breaks rewritten, row by row. -/
theorem exportCSV_reads (s : Service (List (Option V))) (scope id : Text) (result : Finished V) :
    ∃ body, (s.keep scope id result).exportCSV sprint scope id = .ok (byteOrderMark :: body) ∧
      Csv.parse body = some ((result.table sprint).map fun record => record.map rewritten) := by
  refine ⟨_, exportCSV_keep sprint s scope id result, ?_⟩
  exact Csv.parse_records reads_writeField fun record => result.table_ne_nil sprint

/-- The export is read as the table itself. -/
def RoundTrips (s : Service (List (Option V))) (scope id : Text) (result : Finished V) : Prop :=
  ∃ body, (s.keep scope id result).exportCSV sprint scope id = .ok (byteOrderMark :: body) ∧
    Csv.parse body = some (result.table sprint)

theorem roundTrips_iff_rewritten (s : Service (List (Option V))) (scope id : Text) (result : Finished V) :
    RoundTrips sprint s scope id result ↔
      ((result.table sprint).map fun record => record.map rewritten) = result.table sprint := by
  obtain ⟨body, hbody, hreads⟩ := exportCSV_reads sprint s scope id result
  constructor
  · rintro ⟨body', hbody', htable⟩
    cases hbody.symm.trans hbody'
    exact Option.some.inj (hreads.symm.trans htable)
  · intro heq
    exact ⟨body, hbody, by rw [hreads, heq]⟩

theorem map_eq_self_iff {A : Type} (f : A → A) (l : List A) : l.map f = l ↔ ∀ a ∈ l, f a = a := by
  constructor
  · intro h a ha
    exact List.map_eq_map_iff.1 (h.trans (List.map_id l).symm) a ha
  · intro h
    exact (List.map_congr_left h).trans (List.map_id l)

/-- **An export is read as the names of the columns and the rows of the result just if in every name and in the text
of every cell the line breaks are CRLF.** -/
theorem exportCSV_roundtrip_iff (s : Service (List (Option V))) (scope id : Text) (result : Finished V) :
    RoundTrips sprint s scope id result ↔
      (∀ column ∈ result.columns, breaksPaired column.name = true) ∧
        ∀ row ∈ result.rows, ∀ value ∈ row, breaksPaired (cellText sprint value) = true := by
  rw [roundTrips_iff_rewritten, map_eq_self_iff]
  simp only [map_eq_self_iff, rewritten_eq_self_iff, Finished.table, List.mem_cons, forall_eq_or_imp, List.mem_map,
    forall_exists_index, and_imp, forall_apply_eq_imp_iff₂]

/-- A note of two lines. -/
def notes : Finished Text := ⟨[⟨"note".toList, "text".toList⟩], [[some "a\nb".toList]], false, by simp, by simp⟩

/-- The line break of the note is another one behind the export. -/
theorem exportCSV_rewrites_break :
    ¬RoundTrips id (newService ⟨200, 10000⟩) "owner".toList "query".toList notes := by
  rw [roundTrips_iff_rewritten]
  decide

end Workbench.Query
