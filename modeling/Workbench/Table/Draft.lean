import Workbench.Table.Cells
import Workbench.Table.Mutation

/-!
# Drafts of a table

The builders of `web/src/features/table/tableMutations.ts`. A record is read only by its column names, so
it is the function of these reads. `rowChanges` is the `values` object that `buildRowUpdate` fills.

`row_update_sends_only_edits_iff` says when an update leaves the columns that nobody edited alone: each of
their cells has to come back from its coercion as it was.
-/

set_option autoImplicit false

namespace Workbench.Table

open Workbench.Lib

abbrev Record : Type := Text → Cell

/-- A record with some of its properties set, one after the other. -/
def override (record : Record) (edits : List (Text × Cell)) : Record :=
  edits.foldl (fun record e => Function.update record e.1 e.2) record

/-- `Object.fromEntries`: a later entry replaces an earlier one. -/
def fromEntries (entries : List (Text × Cell)) : Record := override (fun _ => .undefined) entries

/-- `row[index]`. -/
def cellAt (row : List Cell) (index : Nat) : Cell := (row[index]?).getD .undefined

def rowToRecord (columns : List Column) (row : List Cell) : Record :=
  fromEntries (columns.mapIdx fun index column => (column.name, cellAt row index))

def buildRowKey (columns : List Column) (row : List Cell) (uniqueKey : List Text) : Lib.Table Text Cell :=
  uniqueKey.foldl (fun key name => key.insert name (rowToRecord columns row name)) ∅

/-- The name whose assignment sets the prototype of an object and none of its properties. -/
def prototypeName : Text := "__proto__".toList

/-- `values[name] = value`. -/
def setProperty (values : Lib.Table Text Cell) (name : Text) (value : Cell) : Lib.Table Text Cell :=
  if name = prototypeName then values else values.insert name value

def nextValue (editedRow : Record) (column : Column) : Cell :=
  coerceCellValue (editedRow column.name) column.dataType

def previousValue (columns : List Column) (originalRow : List Cell) (column : Column) : Cell :=
  cellAt originalRow (columns.findIdx fun item => item.name == column.name)

/-- Whether the loop of `buildRowUpdate` sets a column. -/
def isChanged (columns : List Column) (originalRow : List Cell) (editedRow : Record) (uniqueKey : List Text)
    (column : Column) : Bool :=
  !uniqueKey.contains column.name &&
    !valuesEqual (nextValue editedRow column) (previousValue columns originalRow column)

def rowChanges (columns : List Column) (originalRow : List Cell) (editedRow : Record)
    (uniqueKey : List Text) : Lib.Table Text Cell :=
  columns.foldl (fun values column =>
    if isChanged columns originalRow editedRow uniqueKey column then
      setProperty values column.name (nextValue editedRow column)
    else values) ∅

structure RowUpdate where
  key : Lib.Table Text Cell
  values : Lib.Table Text Cell

def buildRowUpdate (columns : List Column) (originalRow : List Cell) (editedRow : Record)
    (uniqueKey : List Text) : Option RowUpdate :=
  let values := rowChanges columns originalRow editedRow uniqueKey
  if values.keys = [] then none else some ⟨buildRowKey columns originalRow uniqueKey, values⟩

def buildInsertValues (columns : List Column) (row : Record) : Lib.Table Text Cell :=
  columns.foldl (fun values column => values.insert column.name (nextValue row column)) ∅

structure TableDraft where
  editedRows : Lib.Table Nat Record
  newRows : List Record
  deletedRowIndexes : List Nat

def emptyDraft : TableDraft := ⟨∅, [], []⟩

/-- `Object.entries` gives the row indexes in ascending order. -/
def TableDraft.edited (draft : TableDraft) : List (Nat × Record) :=
  (draft.editedRows.entries.map fun e => (e.1, e.2)).mergeSort fun a b => decide (a.1 ≤ b.1)

/-- The edited rows that `compactDraft` keeps. -/
def effectiveRows (columns : List Column) (rows : List (List Cell)) (draft : TableDraft) :
    Lib.Table Nat Record :=
  draft.edited.foldl (fun kept e =>
    match rows[e.1]? with
    | none => kept
    | some originalRow =>
      if (buildRowUpdate columns originalRow e.2 []).isSome then kept.insert e.1 e.2 else kept) ∅

def compactDraft (columns : List Column) (rows : List (List Cell)) (draft : TableDraft) :
    Option TableDraft :=
  let next : TableDraft := ⟨effectiveRows columns rows draft, draft.newRows, draft.deletedRowIndexes⟩
  if next.deletedRowIndexes = [] ∧ next.newRows = [] ∧ next.editedRows.keys = [] then none else some next

def hasEffectiveDraftChanges (columns : List Column) (rows : List (List Cell)) (draft : Option TableDraft) :
    Bool :=
  match draft with
  | none => false
  | some draft => (compactDraft columns rows draft).isSome

/-! ## What an update sends -/

/-- The loop over the columns, with the assignments that are none left out. -/
theorem rowChanges_eq (columns : List Column) (originalRow : List Cell) (editedRow : Record)
    (uniqueKey : List Text) :
    rowChanges columns originalRow editedRow uniqueKey =
      Lib.Table.fill
        (fun column => isChanged columns originalRow editedRow uniqueKey column &&
          !decide (column.name = prototypeName))
        Column.name (nextValue editedRow) columns ∅ := by
  unfold rowChanges Lib.Table.fill
  congr 1
  funext values column
  by_cases hname : column.name = prototypeName
  · simp [setProperty, hname]
  · simp [setProperty, hname]

theorem mem_rowChanges {columns : List Column} {originalRow : List Cell} {editedRow : Record}
    {uniqueKey : List Text} {name : Text} :
    name ∈ (rowChanges columns originalRow editedRow uniqueKey).keys ↔
      ∃ column ∈ columns, column.name = name ∧ name ≠ prototypeName ∧
        isChanged columns originalRow editedRow uniqueKey column = true := by
  rw [rowChanges_eq, Lib.Table.mem_keys_fill_empty]
  constructor
  · rintro ⟨column, hmem, hselected, rfl⟩
    rw [Bool.and_eq_true, Bool.not_eq_true', decide_eq_false_iff_not] at hselected
    exact ⟨column, hmem, rfl, hselected.2, hselected.1⟩
  · rintro ⟨column, hmem, rfl, hname, hchanged⟩
    refine ⟨column, hmem, ?_, rfl⟩
    rw [Bool.and_eq_true, Bool.not_eq_true', decide_eq_false_iff_not]
    exact ⟨hchanged, hname⟩

/-- A changed column is sent with its next value. -/
theorem lookup_rowChanges {columns : List Column} (hdistinct : (columns.map Column.name).Nodup)
    {originalRow : List Cell} {editedRow : Record} {uniqueKey : List Text} {column : Column}
    (hmem : column ∈ columns) (hname : column.name ≠ prototypeName)
    (hchanged : isChanged columns originalRow editedRow uniqueKey column = true) :
    (rowChanges columns originalRow editedRow uniqueKey).lookup column.name =
      some (nextValue editedRow column) := by
  rw [rowChanges_eq]
  apply Lib.Table.lookup_fill hdistinct hmem
  rw [Bool.and_eq_true, Bool.not_eq_true', decide_eq_false_iff_not]
  exact ⟨hchanged, hname⟩

theorem eq_of_name {columns : List Column} (hdistinct : (columns.map Column.name).Nodup) {c d : Column}
    (hc : c ∈ columns) (hd : d ∈ columns) (hname : c.name = d.name) : c = d :=
  List.inj_on_of_nodup_map hdistinct hc hd hname

theorem buildRowUpdate_eq_some {columns : List Column} {originalRow : List Cell} {editedRow : Record}
    {uniqueKey : List Text} {payload : RowUpdate} :
    buildRowUpdate columns originalRow editedRow uniqueKey = some payload ↔
      (rowChanges columns originalRow editedRow uniqueKey).keys ≠ [] ∧
        payload = ⟨buildRowKey columns originalRow uniqueKey,
          rowChanges columns originalRow editedRow uniqueKey⟩ := by
  unfold buildRowUpdate
  dsimp only
  split
  · rename_i hnil
    exact iff_of_false (fun h => nomatch h) fun h => h.1 hnil
  · rename_i hnil
    rw [Option.some.injEq]
    exact ⟨fun h => ⟨hnil, h.symm⟩, fun h => h.2.symm⟩

/-- An update is sent when some column outside the key is changed. -/
theorem isSome_buildRowUpdate {columns : List Column} {originalRow : List Cell} {editedRow : Record}
    {uniqueKey : List Text} :
    (buildRowUpdate columns originalRow editedRow uniqueKey).isSome = true ↔
      ∃ column ∈ columns, column.name ≠ prototypeName ∧
        isChanged columns originalRow editedRow uniqueKey column = true := by
  rw [Option.isSome_iff_exists]
  constructor
  · rintro ⟨payload, hpayload⟩
    obtain ⟨name, hname⟩ := List.exists_mem_of_ne_nil _ (buildRowUpdate_eq_some.1 hpayload).1
    obtain ⟨column, hmem, rfl, hproto, hchanged⟩ := mem_rowChanges.1 hname
    exact ⟨column, hmem, hproto, hchanged⟩
  · rintro ⟨column, hmem, hproto, hchanged⟩
    have hname := mem_rowChanges.2 ⟨column, hmem, rfl, hproto, hchanged⟩
    exact ⟨_, buildRowUpdate_eq_some.2 ⟨List.ne_nil_of_mem hname, rfl⟩⟩

/-! ## The entries of a draft -/

theorem mem_edited {draft : TableDraft} {e : Nat × Record} :
    e ∈ draft.edited ↔ draft.editedRows.lookup e.1 = some e.2 := by
  rw [TableDraft.edited, List.mem_mergeSort, List.mem_map, ← Lib.Table.mem_entries]
  constructor
  · rintro ⟨row, hmem, rfl⟩
    exact hmem
  · exact fun hmem => ⟨⟨e.1, e.2⟩, hmem, rfl⟩

theorem edited_unique {draft : TableDraft} {e e' : Nat × Record} (he : e ∈ draft.edited)
    (he' : e' ∈ draft.edited) (hindex : e.1 = e'.1) : e = e' := by
  rw [mem_edited] at he he'
  rw [hindex, he'] at he
  exact Prod.ext hindex (Option.some.inj he).symm

theorem edited_sorted (draft : TableDraft) : draft.edited.Pairwise fun a b => a.1 ≤ b.1 := by
  have hsorted : draft.edited.Pairwise fun a b => decide (a.1 ≤ b.1) = true :=
    List.pairwise_mergeSort
      (fun a b c hab hbc => by simp only [decide_eq_true_eq] at *; omega)
      (fun a b => by simp only [Bool.or_eq_true, decide_eq_true_eq]; omega) _
  exact hsorted.imp fun h => of_decide_eq_true h

/-- Whether `compactDraft` keeps an edited row. -/
def keepsRow (columns : List Column) (rows : List (List Cell)) (e : Nat × Record) : Bool :=
  match rows[e.1]? with
  | none => false
  | some originalRow => (buildRowUpdate columns originalRow e.2 []).isSome

theorem keepsRow_iff {columns : List Column} {rows : List (List Cell)} {e : Nat × Record} :
    keepsRow columns rows e = true ↔
      ∃ row, rows[e.1]? = some row ∧ (buildRowUpdate columns row e.2 []).isSome = true := by
  unfold keepsRow
  split
  · rename_i hrow
    exact iff_of_false Bool.false_ne_true fun ⟨row, h, _⟩ => nomatch hrow.symm.trans h
  · rename_i row hrow
    constructor
    · exact fun h => ⟨row, hrow, h⟩
    · rintro ⟨row', heq, h⟩
      rw [hrow] at heq
      cases heq
      exact h

theorem effectiveRows_eq (columns : List Column) (rows : List (List Cell)) (draft : TableDraft) :
    effectiveRows columns rows draft =
      Lib.Table.fill (keepsRow columns rows) Prod.fst Prod.snd draft.edited ∅ := by
  unfold effectiveRows Lib.Table.fill
  congr 1
  funext kept e
  unfold keepsRow
  split <;> rfl

theorem effectiveRows_eq_nil {columns : List Column} {rows : List (List Cell)} {draft : TableDraft} :
    (effectiveRows columns rows draft).keys = [] ↔ ∀ e ∈ draft.edited, keepsRow columns rows e = false := by
  rw [effectiveRows_eq, List.eq_nil_iff_forall_not_mem]
  constructor
  · intro hnone e he
    by_contra hkeeps
    exact hnone e.1 (Lib.Table.mem_keys_fill_empty.2 ⟨e, he, eq_true_of_ne_false hkeeps, rfl⟩)
  · intro hnone index hmem
    obtain ⟨e, he, hkeeps, -⟩ := Lib.Table.mem_keys_fill_empty.1 hmem
    rw [hnone e he] at hkeeps
    cases hkeeps

/-- A draft is dirty when it deletes, adds or changes something. -/
theorem isSome_compactDraft {columns : List Column} {rows : List (List Cell)} {draft : TableDraft} :
    (compactDraft columns rows draft).isSome = true ↔
      draft.deletedRowIndexes ≠ [] ∨ draft.newRows ≠ [] ∨
        ∃ e ∈ draft.edited, keepsRow columns rows e = true := by
  unfold compactDraft
  dsimp only
  split
  · rename_i h
    refine iff_of_false Bool.false_ne_true ?_
    rintro (hdeleted | hnew | ⟨e, he, hkeeps⟩)
    · exact hdeleted h.1
    · exact hnew h.2.1
    · rw [effectiveRows_eq_nil.1 h.2.2 e he] at hkeeps
      cases hkeeps
  · rename_i h
    refine iff_of_true rfl ?_
    by_contra hnone
    rw [not_or, not_or, not_not, not_not] at hnone
    refine h ⟨hnone.1, hnone.2.1, effectiveRows_eq_nil.2 fun e he => ?_⟩
    exact Bool.eq_false_iff.2 fun hkeeps => hnone.2.2 ⟨e, he, hkeeps⟩

/-! ## Columns that nobody edited -/

theorem override_of_not_mem {edits : List (Text × Cell)} {name : Text} (hname : name ∉ edits.map Prod.fst) :
    ∀ record : Record, override record edits name = record name := by
  induction edits with
  | nil => exact fun _ => rfl
  | cons e rest ih =>
    intro record
    rw [List.map_cons, List.mem_cons, not_or] at hname
    show override (Function.update record e.1 e.2) rest name = record name
    rw [ih hname.2, Function.update_of_ne hname.1]

theorem override_of_mem {edits : List (Text × Cell)} (hdistinct : (edits.map Prod.fst).Nodup) {name : Text}
    {value : Cell} (hmem : (name, value) ∈ edits) :
    ∀ record : Record, override record edits name = value := by
  induction edits with
  | nil => cases hmem
  | cons e rest ih =>
    intro record
    obtain ⟨hhead, hrest⟩ := List.nodup_cons.1 hdistinct
    show override (Function.update record e.1 e.2) rest name = value
    rcases List.mem_cons.1 hmem with rfl | hmem
    · rw [override_of_not_mem hhead, Function.update_self]
    · exact ih hrest hmem _

/-- The record of a row has the cells that the update compares with. -/
theorem rowToRecord_name {columns : List Column} (hdistinct : (columns.map Column.name).Nodup)
    (row : List Cell) {column : Column} (hmem : column ∈ columns) :
    rowToRecord columns row column.name = previousValue columns row column := by
  have hfst : (columns.mapIdx fun index column => (column.name, cellAt row index)).map Prod.fst =
      columns.map Column.name := by
    apply List.ext_getElem
    · simp
    · intro i _ _
      simp
  have hfind : columns.findIdx (fun item => item.name == column.name) < columns.length :=
    List.findIdx_lt_length_of_exists ⟨column, hmem, beq_self_eq_true _⟩
  have hname : columns[columns.findIdx fun item => item.name == column.name].name = column.name :=
    eq_of_beq (List.findIdx_getElem (w := hfind))
  apply override_of_mem (by rw [hfst]; exact hdistinct)
  rw [List.mem_mapIdx]
  exact ⟨_, hfind, by rw [hname]; rfl⟩

/-- Only edited columns are sent exactly when the cells of the others come back from their coercion. -/
theorem row_update_sends_only_edits_iff (columns : List Column) (row : List Cell)
    (edits : List (Text × Cell)) (uniqueKey : List Text)
    (hdistinct : (columns.map Column.name).Nodup) :
    (∀ payload, buildRowUpdate columns row (override (rowToRecord columns row) edits) uniqueKey =
        some payload → ∀ name ∈ payload.values.keys, name ∈ edits.map Prod.fst) ↔
      ∀ column ∈ columns, column.name ∉ edits.map Prod.fst → column.name ∉ uniqueKey →
        column.name ≠ prototypeName → Kept column.dataType (previousValue columns row column) := by
  have hnext : ∀ column ∈ columns, column.name ∉ edits.map Prod.fst →
      nextValue (override (rowToRecord columns row) edits) column =
        coerceCellValue (previousValue columns row column) column.dataType := by
    intro column hmem hname
    rw [nextValue, override_of_not_mem hname, rowToRecord_name hdistinct row hmem]
  constructor
  · intro hsent column hmem hname hkey hproto
    by_contra hkept
    rw [← valuesEqual_coerced, ← hnext column hmem hname] at hkept
    -- the column is among the values, though nobody edited it
    have hchange : column.name ∈ (rowChanges columns row (override (rowToRecord columns row) edits)
        uniqueKey).keys := by
      rw [mem_rowChanges]
      refine ⟨column, hmem, rfl, hproto, ?_⟩
      simp [isChanged, hkey, hkept]
    exact hname (hsent _ (buildRowUpdate_eq_some.2 ⟨List.ne_nil_of_mem hchange, rfl⟩) column.name hchange)
  · intro hkept payload hpayload name hmem
    obtain ⟨-, rfl⟩ := buildRowUpdate_eq_some.1 hpayload
    obtain ⟨column, hcolumn, rfl, hproto, hchanged⟩ := mem_rowChanges.1 hmem
    by_contra hname
    simp only [isChanged, Bool.and_eq_true, Bool.not_eq_true', List.contains_eq_mem,
      decide_eq_false_iff_not] at hchanged
    have hequal := (valuesEqual_coerced _ _).2 (hkept column hcolumn hname hchanged.1 hproto)
    rw [← hnext column hcolumn hname, hchanged.2] at hequal
    cases hequal

/-- A table of people with a note, which is the empty string for the one row that is shown. -/
def people : List Column :=
  [⟨"id".toList, some "bigint".toList⟩, ⟨"name".toList, some "text".toList⟩,
    ⟨"note".toList, some "text".toList⟩]

theorem people_distinct : (people.map Column.name).Nodup := by decide

def ada (note : Text) : List Cell := [.string "a1".toList, .string "Ada".toList, .string note]

/-- The name is edited, and so the note is rewritten. -/
theorem edit_rewrites_blank_note :
    ¬∀ payload, buildRowUpdate people (ada [])
        (override (rowToRecord people (ada [])) [("name".toList, .string "Bob".toList)]) ["id".toList] =
          some payload →
      ∀ name ∈ payload.values.keys, name ∈ [("name".toList, Cell.string "Bob".toList)].map Prod.fst := by
  intro hsent
  have hnote : "note".toList ∈ (rowChanges people (ada [])
      (override (rowToRecord people (ada [])) [("name".toList, .string "Bob".toList)])
        ["id".toList]).keys := by decide
  have hedited := hsent _ (buildRowUpdate_eq_some.2 ⟨List.ne_nil_of_mem hnote, rfl⟩) _ hnote
  exact absurd hedited (by decide)

theorem edit_keeps_note :
    "name".toList ∈ (rowChanges people (ada "pilot".toList)
        (override (rowToRecord people (ada "pilot".toList)) [("name".toList, .string "Bob".toList)])
          ["id".toList]).keys ∧
    ∀ payload, buildRowUpdate people (ada "pilot".toList)
        (override (rowToRecord people (ada "pilot".toList)) [("name".toList, .string "Bob".toList)])
          ["id".toList] = some payload →
      ∀ name ∈ payload.values.keys, name ∈ [("name".toList, Cell.string "Bob".toList)].map Prod.fst := by
  refine ⟨by decide, ?_⟩
  apply (row_update_sends_only_edits_iff people (ada "pilot".toList)
    [("name".toList, .string "Bob".toList)] ["id".toList] people_distinct).2
  intro column hcolumn hname hkey _
  have hnote : column = ⟨"note".toList, some "text".toList⟩ := by
    rcases List.mem_cons.1 hcolumn with rfl | hcolumn
    · exact absurd (List.mem_singleton_self _) hkey
    rcases List.mem_cons.1 hcolumn with rfl | hcolumn
    · exact absurd (List.mem_singleton_self _) hname
    · exact List.mem_singleton.1 hcolumn
  rw [hnote]
  exact ⟨by decide, fun h => absurd h (by decide), fun h => absurd h (by decide)⟩

end Workbench.Table
