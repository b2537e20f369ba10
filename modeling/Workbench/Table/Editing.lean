import Mathlib.Data.List.Nodup
import Workbench.Table.Compact

/-!
# Editing the displayed rows

`displayRows`, `updateCell`, `addRow` and `deleteSelectedRow` of `web/src/features/table/TableView.tsx`. A displayed
row is a row of the table that is not deleted, or one of the new rows, which stand behind them. The calls come with a
position in this list and change the draft by source indexes and positions among the new rows.

That compacting a draft drops no edit but those of the row at hand is an invariant of the calls: each edited row of
the draft has something to save (`Sound`).
-/

set_option autoImplicit false

namespace Workbench.Table

open Workbench.Web

/-- A row on the screen; a new one has no source index. -/
inductive DisplayRow where
  | existing (sourceIndex : Nat) (values : List Cell)
  | new (values : List Cell)
  deriving DecidableEq

namespace DisplayRow

/-- The same row with other values. -/
def withValues (values : List Cell) : DisplayRow → DisplayRow
  | existing sourceIndex _ => existing sourceIndex values
  | new _ => new values

end DisplayRow

section

variable (columns : List Column) (rows : List (List Cell))

/-- The values of a row with its edits. -/
def shownValues (row : List Cell) (edits : Option Record) : List Cell :=
  match edits with
  | none => row
  | some edits => columns.mapIdx fun index column =>
    if edits column.name ≠ .undefined then edits column.name else cellAt row index

/-- `newRow[column.name] ?? null`. -/
def newRowValues (newRow : Record) : List Cell :=
  columns.map fun column => if (newRow column.name).isNullish then .null else newRow column.name

def existingRow (draft : TableDraft) (index : Nat) (row : List Cell) : Option DisplayRow :=
  if index ∈ draft.deletedRowIndexes then none
  else some (.existing index (shownValues columns row (draft.editedRows.lookup index)))

def displayRows (draft : TableDraft) : List DisplayRow :=
  (rows.mapIdx (existingRow columns draft)).reduceOption ++ draft.newRows.map fun row => .new (newRowValues columns row)

/-- `draft ?? emptyDraft()`. -/
def draftState (draft : Option TableDraft) : TableDraft := draft.getD emptyDraft

/-- The rows on the screen. -/
def screen (draft : Option TableDraft) : List DisplayRow := displayRows columns rows (draftState draft)

/-- The position among the new rows of a row on the screen. -/
def newIndexOf (draft : Option TableDraft) (rowIndex : Nat) : Nat :=
  rowIndex - ((screen columns rows draft).length - (draftState draft).newRows.length)

/-- `value === '' ? null : value`, coerced. -/
def typedCell (value : Text) (column : Column) : Cell :=
  coerceCellValue (if value = [] then .null else .string value) column.dataType

def setEdits (draft : TableDraft) (sourceIndex : Nat) (edits : Record) : TableDraft :=
  { draft with editedRows := draft.editedRows.insert sourceIndex edits }

def dropEdits (draft : TableDraft) (sourceIndex : Nat) : TableDraft :=
  { draft with editedRows := draft.editedRows.erase sourceIndex }

/-- The branches of `updateCell` for a row of the table. -/
def updateExisting (draft : Option TableDraft) (sourceIndex columnIndex : Nat) (column : Column) (coerced : Cell) :
    Option TableDraft :=
  let next := draftState draft
  let originalRow := (rows[sourceIndex]?).getD []
  let originalValue := coerceCellValue (cellAt originalRow columnIndex) column.dataType
  if valuesEqual coerced originalValue then
    match next.editedRows.lookup sourceIndex with
    | none => draft
    | some edits =>
      let current := Function.update edits column.name coerced
      if (buildRowUpdate columns originalRow current []).isNone then
        compactDraft columns rows (dropEdits next sourceIndex)
      else compactDraft columns rows (setEdits next sourceIndex current)
  else
    let current := (next.editedRows.lookup sourceIndex).getD (rowToRecord columns originalRow)
    compactDraft columns rows (setEdits next sourceIndex (Function.update current column.name coerced))

/-- The branch of `updateCell` for a new row. -/
def updateNew (draft : Option TableDraft) (newIndex : Nat) (column : Column) (coerced : Cell) : Option TableDraft :=
  let next := draftState draft
  let newRow := (next.newRows[newIndex]?).getD fun _ => .undefined
  compactDraft columns rows
    { next with newRows := next.newRows.set newIndex (Function.update newRow column.name coerced) }

/-- A row that is not on the screen changes nothing; a column that there is not makes the function throw. -/
def updateCell (draft : Option TableDraft) (rowIndex columnIndex : Nat) (value : Text) : Option TableDraft :=
  match (screen columns rows draft)[rowIndex]?, columns[columnIndex]? with
  | some (.existing sourceIndex _), some column =>
    updateExisting columns rows draft sourceIndex columnIndex column (typedCell value column)
  | some (.new _), some column =>
    updateNew columns rows draft (newIndexOf columns rows draft rowIndex) column (typedCell value column)
  | _, _ => draft

def addRow (draft : Option TableDraft) : Option TableDraft :=
  let next := draftState draft
  some { next with newRows := next.newRows ++ [fromEntries (columns.map fun column => (column.name, .null))] }

def deleteSelectedRow (draft : Option TableDraft) (selectedRow : Option Nat) : Option TableDraft :=
  match selectedRow with
  | none => draft
  | some rowIndex =>
    let next := draftState draft
    match (screen columns rows draft)[rowIndex]? with
    | none => draft
    | some (.new _) =>
      some { next with newRows := next.newRows.eraseIdx (newIndexOf columns rows draft rowIndex) }
    | some (.existing sourceIndex _) =>
      some { dropEdits next sourceIndex with
        deletedRowIndexes :=
          if sourceIndex ∈ next.deletedRowIndexes then next.deletedRowIndexes
          else next.deletedRowIndexes ++ [sourceIndex] }

end

/-- What the table view calls; which row is selected is up to the user. -/
inductive DraftCall where
  | updateCell (rowIndex columnIndex : Nat) (value : Text)
  | addRow
  | deleteSelectedRow (selectedRow : Option Nat)
  deriving DecidableEq

section

variable (columns : List Column) (rows : List (List Cell))

def DraftCall.run (draft : Option TableDraft) : DraftCall → Option TableDraft
  | .updateCell rowIndex columnIndex value => Table.updateCell columns rows draft rowIndex columnIndex value
  | .addRow => Table.addRow columns draft
  | .deleteSelectedRow selectedRow => Table.deleteSelectedRow columns rows draft selectedRow

/-- The draft behind a sequence of calls on a table without one. -/
def draftAfter (calls : List DraftCall) : Option TableDraft := calls.foldl (DraftCall.run columns rows) none

end

/-! ## What the calls are for -/

/-- The cell shows what was typed, or the original value of the row, which compares equal to it. -/
def ShowsTyped (rows : List (List Cell)) (item : DisplayRow) (columnIndex : Nat) (column : Column) (typed : Cell)
    (values : List Cell) : Prop :=
  cellAt values columnIndex = typed ∨
    ∃ sourceIndex old, item = .existing sourceIndex old ∧
      cellAt values columnIndex = cellAt ((rows[sourceIndex]?).getD []) columnIndex ∧
      (valuesEqual typed (coerceCellValue (cellAt values columnIndex) column.dataType) = true ∨
        valuesEqual typed (cellAt values columnIndex) = true)

/-- A call changes the row of the screen that it is made for, takes it away or adds one at the end; the others keep
their values and their order. -/
def Addresses (columns : List Column) (rows : List (List Cell)) (before after : List DisplayRow) : DraftCall → Prop
  | .updateCell rowIndex columnIndex value =>
    match before[rowIndex]?, columns[columnIndex]? with
    | some item, some column =>
      ∃ values, after = before.set rowIndex (item.withValues values) ∧
        ((columns.map Column.name).Nodup → column.name ≠ prototypeName →
          ShowsTyped rows item columnIndex column (typedCell value column) values)
    | _, _ => after = before
  | .addRow => after = before ++ [.new (columns.map fun _ => .null)]
  | .deleteSelectedRow none => after = before
  | .deleteSelectedRow (some rowIndex) => after = before.eraseIdx rowIndex

/-! ## Positions and source indexes -/

section

variable {columns : List Column} {rows : List (List Cell)}

/-- The source indexes of the rows on the screen, in their order. -/
def visible (rows : List (List Cell)) (deleted : List Nat) : List Nat :=
  (List.range rows.length).filter fun index => index ∉ deleted

/-- A row of the table as the draft shows it. -/
def displayedRow (columns : List Column) (rows : List (List Cell)) (draft : TableDraft) (index : Nat) : DisplayRow :=
  .existing index (shownValues columns ((rows[index]?).getD []) (draft.editedRows.lookup index))

theorem visible_nodup (rows : List (List Cell)) (deleted : List Nat) : (visible rows deleted).Nodup :=
  List.nodup_range.filter _

theorem mem_visible {deleted : List Nat} {index : Nat} :
    index ∈ visible rows deleted ↔ index < rows.length ∧ index ∉ deleted := by
  rw [visible, List.mem_filter, List.mem_range, decide_eq_true_eq]

theorem reduceOption_map_ite (p : Nat → Prop) [DecidablePred p] (f : Nat → DisplayRow) (indexes : List Nat) :
    (indexes.map fun index => if p index then none else some (f index)).reduceOption =
      (indexes.filter fun index => ¬p index).map f := by
  induction indexes with
  | nil => rfl
  | cons index rest ih =>
    by_cases hp : p index
    · rw [List.map_cons, if_pos hp, List.filter_cons_of_neg (by simp [hp]), ← ih]
      rfl
    · rw [List.map_cons, if_neg hp, List.filter_cons_of_pos (by simp [hp]), List.map_cons, ← ih]
      rfl

theorem displayRows_eq (draft : TableDraft) : displayRows columns rows draft =
    (visible rows draft.deletedRowIndexes).map (displayedRow columns rows draft) ++
      draft.newRows.map fun row => .new (newRowValues columns row) := by
  have hrows : rows.mapIdx (existingRow columns draft) = (List.range rows.length).map fun index =>
      if index ∈ draft.deletedRowIndexes then none else some (displayedRow columns rows draft index) := by
    apply List.ext_getElem
    · simp
    · intro i hi _
      have hrow : i < rows.length := by simpa using hi
      rw [List.getElem_mapIdx, List.getElem_map, List.getElem_range]
      simp [existingRow, displayedRow, hrow]
  rw [displayRows, hrows, reduceOption_map_ite]
  rfl

/-! ## What one change does to the screen -/

/-- A row on the screen by its position: the rows of the table come first. -/
theorem getElem?_displayRows (draft : TableDraft) (i : Nat) :
    (displayRows columns rows draft)[i]? =
      if i < (visible rows draft.deletedRowIndexes).length then
        ((visible rows draft.deletedRowIndexes)[i]?).map (displayedRow columns rows draft)
      else
        (draft.newRows[i - (visible rows draft.deletedRowIndexes).length]?).map fun row =>
          .new (newRowValues columns row) := by
  rw [displayRows_eq, List.getElem?_append, List.length_map]
  split
  · rw [List.getElem?_map]
  · rw [List.getElem?_map]

/-- An existing row on the screen stands among the rows that are visible. -/
theorem visible_of_existing {draft : TableDraft} {i s : Nat} {values : List Cell}
    (h : (displayRows columns rows draft)[i]? = some (.existing s values)) :
    (visible rows draft.deletedRowIndexes)[i]? = some s ∧
      values = shownValues columns ((rows[s]?).getD []) (draft.editedRows.lookup s) := by
  rw [getElem?_displayRows] at h
  split at h
  · obtain ⟨index, hindex, hshown⟩ := Option.map_eq_some_iff.1 h
    cases hshown
    exact ⟨hindex, rfl⟩
  · obtain ⟨row, -, hnew⟩ := Option.map_eq_some_iff.1 h
    cases hnew

/-- A new row on the screen stands behind them. -/
theorem newRow_of_new {draft : TableDraft} {i : Nat} {values : List Cell}
    (h : (displayRows columns rows draft)[i]? = some (.new values)) :
    (visible rows draft.deletedRowIndexes).length ≤ i ∧
      ∃ row, draft.newRows[i - (visible rows draft.deletedRowIndexes).length]? = some row ∧
        values = newRowValues columns row := by
  rw [getElem?_displayRows] at h
  split at h
  · obtain ⟨index, -, hshown⟩ := Option.map_eq_some_iff.1 h
    cases hshown
  · next hbehind =>
      obtain ⟨row, hrow, hnew⟩ := Option.map_eq_some_iff.1 h
      cases hnew
      exact ⟨Nat.le_of_not_lt hbehind, row, hrow, rfl⟩

theorem newIndexOf_eq (draft : Option TableDraft) (rowIndex : Nat) :
    newIndexOf columns rows draft rowIndex =
      rowIndex - (visible rows (draftState draft).deletedRowIndexes).length := by
  rw [newIndexOf, screen, displayRows_eq, List.length_append, List.length_map, List.length_map, Nat.add_sub_cancel]

/-- Only the edits of one row are changed: this row of the screen has other values. -/
theorem displayRows_edit {draft draft' : TableDraft} {i s : Nat}
    (hvisible : (visible rows draft.deletedRowIndexes)[i]? = some s)
    (hdeleted : draft'.deletedRowIndexes = draft.deletedRowIndexes) (hnew : draft'.newRows = draft.newRows)
    (hother : ∀ index, index ≠ s → draft'.editedRows.lookup index = draft.editedRows.lookup index) :
    displayRows columns rows draft' = (displayRows columns rows draft).set i (displayedRow columns rows draft' s) := by
  obtain ⟨hi, hs⟩ := List.getElem?_eq_some_iff.1 hvisible
  have hshown : displayedRow columns rows draft' =
      Function.update (displayedRow columns rows draft) s (displayedRow columns rows draft' s) := by
    funext index
    by_cases hindex : index = s
    · rw [hindex, Function.update_self]
    · rw [Function.update_of_ne hindex, displayedRow, displayedRow, hother index hindex]
  have hmap : (visible rows draft.deletedRowIndexes).map (displayedRow columns rows draft') =
      ((visible rows draft.deletedRowIndexes).map (displayedRow columns rows draft)).set i
        (displayedRow columns rows draft' s) := by
    rw [hshown, (visible_nodup rows _).map_update, if_pos (hs ▸ List.getElem_mem hi), ← hs,
      (visible_nodup rows _).idxOf_getElem]
    simp
  rw [displayRows_eq, displayRows_eq, hdeleted, hnew, hmap, List.set_append_left _ _ (by simpa using hi)]

theorem displayedRow_congr {draft draft' : TableDraft}
    (h : ∀ index, draft'.editedRows.lookup index = draft.editedRows.lookup index) :
    displayedRow columns rows draft' = displayedRow columns rows draft := by
  funext index
  rw [displayedRow, displayedRow, h]

/-- Only one of the new rows is changed. -/
theorem displayRows_setNew {draft draft' : TableDraft} {i : Nat} {row : Record}
    (hbehind : (visible rows draft.deletedRowIndexes).length ≤ i)
    (hdeleted : draft'.deletedRowIndexes = draft.deletedRowIndexes)
    (hnew : draft'.newRows = draft.newRows.set (i - (visible rows draft.deletedRowIndexes).length) row)
    (hedits : ∀ index, draft'.editedRows.lookup index = draft.editedRows.lookup index) :
    displayRows columns rows draft' = (displayRows columns rows draft).set i (.new (newRowValues columns row)) := by
  rw [displayRows_eq, displayRows_eq, hdeleted, hnew, displayedRow_congr hedits, List.map_set,
    List.set_append_right]
  · rw [List.length_map]
  · rwa [List.length_map]

/-- A row of the table is deleted. -/
theorem displayRows_delete {draft draft' : TableDraft} {i s : Nat}
    (hvisible : (visible rows draft.deletedRowIndexes)[i]? = some s)
    (hdeleted : draft'.deletedRowIndexes = draft.deletedRowIndexes ++ [s]) (hnew : draft'.newRows = draft.newRows)
    (hother : ∀ index, index ≠ s → draft'.editedRows.lookup index = draft.editedRows.lookup index) :
    displayRows columns rows draft' = (displayRows columns rows draft).eraseIdx i := by
  obtain ⟨hi, hs⟩ := List.getElem?_eq_some_iff.1 hvisible
  have hrest : visible rows (draft.deletedRowIndexes ++ [s]) = (visible rows draft.deletedRowIndexes).eraseIdx i := by
    rw [← (visible_nodup rows _).erase_getElem i hi, hs, (visible_nodup rows _).erase_eq_filter, visible, visible,
      List.filter_filter]
    apply List.filter_congr
    intro index _
    simp [and_comm, bne, beq_eq_decide]
  have hshown : ((visible rows draft.deletedRowIndexes).eraseIdx i).map (displayedRow columns rows draft') =
      ((visible rows draft.deletedRowIndexes).eraseIdx i).map (displayedRow columns rows draft) := by
    apply List.map_congr_left
    intro index hindex
    rw [← hrest, mem_visible] at hindex
    have hne : index ≠ s := fun heq => hindex.2 (heq ▸ List.mem_append_right _ (List.mem_singleton_self _))
    rw [displayedRow, displayedRow, hother index hne]
  rw [displayRows_eq, displayRows_eq, hdeleted, hnew, hrest, hshown, List.eraseIdx_append_of_lt_length,
    List.eraseIdx_map]
  rwa [List.length_map]

/-- A new row is taken away. -/
theorem displayRows_eraseNew {draft draft' : TableDraft} {i : Nat}
    (hbehind : (visible rows draft.deletedRowIndexes).length ≤ i)
    (hdeleted : draft'.deletedRowIndexes = draft.deletedRowIndexes)
    (hnew : draft'.newRows = draft.newRows.eraseIdx (i - (visible rows draft.deletedRowIndexes).length))
    (hedits : draft'.editedRows = draft.editedRows) :
    displayRows columns rows draft' = (displayRows columns rows draft).eraseIdx i := by
  have hsame : ∀ index, draft'.editedRows.lookup index = draft.editedRows.lookup index := fun _ => by rw [hedits]
  rw [displayRows_eq, displayRows_eq, hdeleted, hnew, displayedRow_congr hsame, List.eraseIdx_append_of_length_le, List.length_map,
    List.eraseIdx_map]
  rwa [List.length_map]

/-! ## Drafts that compacting leaves alone -/

/-- The deleted rows are distinct rows of the table without edits, and each edited row has something to save. -/
structure Sound (columns : List Column) (rows : List (List Cell)) (draft : TableDraft) : Prop where
  distinct : draft.deletedRowIndexes.Nodup
  inRange : ∀ index ∈ draft.deletedRowIndexes, index < rows.length
  disjoint : ∀ index ∈ draft.deletedRowIndexes, draft.editedRows.lookup index = none
  effective : ∀ index edits, draft.editedRows.lookup index = some edits → keepsRow columns rows (index, edits) = true

theorem sound_emptyDraft : Sound columns rows emptyDraft := by
  constructor
  · exact List.nodup_nil
  · intro index hindex
    cases hindex
  · intro index hindex
    cases hindex
  · intro index edits hedits
    cases hedits

/-- A draft that was compacted to nothing shows what the empty draft shows. -/
theorem draftState_compactDraft (draft : TableDraft) :
    draftState (compactDraft columns rows draft) = compacted columns rows draft := by
  by_cases hblank : (compacted columns rows draft).isBlank
  · rw [compactDraft_of_blank hblank]
    obtain ⟨hdeleted, hnew, hedited⟩ := hblank
    have hrows : effectiveRows columns rows draft = ∅ := AList.ext (List.map_eq_nil_iff.1 hedited)
    have hnews : draft.newRows = [] := hnew
    have hdeletes : draft.deletedRowIndexes = [] := hdeleted
    rw [compacted, hrows, hnews, hdeletes]
    rfl
  · rw [compactDraft_of_not_blank hblank]
    rfl

theorem lookup_compacted {draft : TableDraft} {index : Nat} {edits : Record} :
    (compacted columns rows draft).editedRows.lookup index = some edits ↔
      draft.editedRows.lookup index = some edits ∧ keepsRow columns rows (index, edits) = true := by
  have hlookup : (compacted columns rows draft).editedRows.lookup index = some edits ↔
      (index, edits) ∈ draft.edited ∧ keepsRow columns rows (index, edits) = true :=
    lookup_effectiveRows (e := (index, edits))
  rwa [mem_edited] at hlookup

/-- The edits of a row that are none, or worth keeping, stay as they are. -/
theorem lookup_compacted_eq {draft : TableDraft} {index : Nat}
    (h : ∀ edits, draft.editedRows.lookup index = some edits → keepsRow columns rows (index, edits) = true) :
    (compacted columns rows draft).editedRows.lookup index = draft.editedRows.lookup index := by
  apply Option.ext
  intro edits
  rw [lookup_compacted]
  exact and_iff_left_of_imp (h edits)

/-- What leaves the deleted rows alone, and is compacted, leads to a sound draft. -/
theorem Sound.keep {draft draft' : TableDraft} (h : Sound columns rows draft)
    (hdeleted : draft'.deletedRowIndexes = draft.deletedRowIndexes)
    (hsame : ∀ index ∈ draft.deletedRowIndexes,
      draft'.editedRows.lookup index = draft.editedRows.lookup index) :
    Sound columns rows (compacted columns rows draft') := by
  constructor
  · show draft'.deletedRowIndexes.Nodup
    rw [hdeleted]
    exact h.distinct
  · intro index hindex
    have hmem : index ∈ draft.deletedRowIndexes := hdeleted ▸ hindex
    exact h.inRange index hmem
  · intro index hindex
    have hmem : index ∈ draft.deletedRowIndexes := hdeleted ▸ hindex
    rw [Option.eq_none_iff_forall_ne_some]
    intro edits hedits
    have hbefore := (lookup_compacted.1 hedits).1
    rw [hsame index hmem, h.disjoint index hmem] at hbefore
    cases hbefore
  · intro index edits hedits
    exact (lookup_compacted.1 hedits).2

/-! ## Coercing twice -/

theorem coerceCellValue_ne_undefined (raw : Cell) (dataType : Option Text) :
    coerceCellValue raw dataType ≠ .undefined := by
  cases raw with
  | string s =>
    rw [coerceCellValue]
    split
    · simp
    · rw [coerceText]
      split_ifs <;> simp
  | _ => simp [coerceCellValue]

/-- A text is read, or it stays, and is then read as it was. -/
theorem coerceText_cases (s text : Text) (dataType : Option Text) :
    coerceText s text dataType = .string s ∨
      ∀ raw, coerceText s text dataType = raw → coerceCellValue raw dataType = raw := by
  rw [coerceText]
  split_ifs
  · exact Or.inr fun raw h => h ▸ rfl
  · exact Or.inr fun raw h => h ▸ rfl
  · exact Or.inr fun raw h => h ▸ rfl
  · exact Or.inl rfl

theorem coerceCellValue_idem (raw : Cell) (dataType : Option Text) :
    coerceCellValue (coerceCellValue raw dataType) dataType = coerceCellValue raw dataType := by
  cases raw with
  | string s =>
    by_cases hblank : trim s = []
    · rw [coerceCellValue, if_pos hblank]
      rfl
    · have hcoerce : coerceCellValue (.string s) dataType = coerceText s (trim s) dataType := by
        rw [coerceCellValue, if_neg hblank]
      rcases coerceText_cases s (trim s) dataType with hstays | hread
      · rw [hcoerce, hstays, hcoerce, hstays]
      · rw [hcoerce]
        exact hread _ rfl
  | _ => rfl

/-! ## One call -/

theorem cellAt_shownValues {row : List Cell} {edits : Record} {columnIndex : Nat} {column : Column}
    (hcolumn : columns[columnIndex]? = some column) (hedited : edits column.name ≠ .undefined) :
    cellAt (shownValues columns row (some edits)) columnIndex = edits column.name := by
  rw [shownValues, cellAt, List.getElem?_mapIdx, hcolumn]
  simp [hedited]

/-- A record without a change has a value in the column that compares equal to the original one. -/
theorem valuesEqual_of_unchanged {row : List Cell} {record : Record} {columnIndex : Nat} {column : Column}
    (hcolumn : columns[columnIndex]? = some column) (hdistinct : (columns.map Column.name).Nodup)
    (hname : column.name ≠ prototypeName) (h : (buildRowUpdate columns row record []).isSome = false) :
    valuesEqual (coerceCellValue (record column.name) column.dataType) (cellAt row columnIndex) = true := by
  obtain ⟨hlt, hget⟩ := List.getElem?_eq_some_iff.1 hcolumn
  have hfind : columns.findIdx (fun item => item.name == column.name) = columnIndex := by
    rw [List.findIdx_eq hlt]
    refine ⟨by rw [hget, beq_self_eq_true], ?_⟩
    intro j hj
    rw [beq_eq_false_iff_ne, ← hget]
    intro hsame
    have hindex : j = columnIndex := by
      have hinj := List.inj_on_of_nodup_map hdistinct (List.getElem_mem (hj.trans hlt)) (List.getElem_mem hlt) hsame
      exact (hdistinct.of_map).getElem_inj_iff.1 hinj
    exact absurd hindex (Nat.ne_of_lt hj)
  have hequal : ¬isChanged columns row record [] column = true := by
    intro hchanged
    have hsome := isSome_buildRowUpdate.2 ⟨column, hget ▸ List.getElem_mem hlt, hname, hchanged⟩
    rw [h] at hsome
    cases hsome
  rw [isChanged, previousValue, hfind, nextValue] at hequal
  simpa using hequal

/-- A call that only touches the edits of one row on the screen, and compacts. -/
theorem Sound.edit {draft : TableDraft} (h : Sound columns rows draft) (draft' : TableDraft) {i s : Nat}
    (hvisible : (visible rows draft.deletedRowIndexes)[i]? = some s)
    (hdeleted : draft'.deletedRowIndexes = draft.deletedRowIndexes) (hnew : draft'.newRows = draft.newRows)
    (hother : ∀ index, index ≠ s → draft'.editedRows.lookup index = draft.editedRows.lookup index) :
    Sound columns rows (compacted columns rows draft') ∧
      displayRows columns rows (compacted columns rows draft') =
        (displayRows columns rows draft).set i (displayedRow columns rows (compacted columns rows draft') s) := by
  have hkept : s ∉ draft.deletedRowIndexes := (mem_visible.1 (List.mem_of_getElem? hvisible)).2
  refine ⟨h.keep hdeleted fun index hindex => hother index fun heq => hkept (heq ▸ hindex),
    displayRows_edit hvisible hdeleted hnew ?_⟩
  intro index hindex
  -- the edits of the other rows are all worth keeping
  rw [lookup_compacted_eq, hother index hindex]
  intro edits hedits
  rw [hother index hindex] at hedits
  exact h.effective index edits hedits

/-- What a row shows behind `setEdits` and `compactDraft`. -/
theorem shows_setEdits (draft : TableDraft) {s columnIndex : Nat} {column : Column} {current : Record}
    (old : List Cell) (hcolumn : columns[columnIndex]? = some column) (hs : s < rows.length)
    (htyped : coerceCellValue (current column.name) column.dataType = current column.name)
    (hdefined : current column.name ≠ .undefined) :
    ∃ values, displayedRow columns rows (compacted columns rows (setEdits draft s current)) s = .existing s values ∧
      ((columns.map Column.name).Nodup → column.name ≠ prototypeName →
        ShowsTyped rows (.existing s old) columnIndex column (current column.name) values) := by
  have hrow : rows[s]? = some rows[s] := List.getElem?_eq_getElem hs
  have hlookup : (setEdits draft s current).editedRows.lookup s = some current := AList.lookup_insert _
  refine ⟨_, rfl, ?_⟩
  intro hdistinct hname
  cases hkeeps : keepsRow columns rows (s, current) with
  | true =>
    refine Or.inl ?_
    rw [lookup_compacted.2 ⟨hlookup, hkeeps⟩]
    exact cellAt_shownValues hcolumn hdefined
  | false =>
    -- there is nothing to save, and the row shows its original cells
    have hnone : (compacted columns rows (setEdits draft s current)).editedRows.lookup s = none := by
      rw [Option.eq_none_iff_forall_ne_some]
      intro edits hedits
      obtain ⟨hsome, hkept⟩ := lookup_compacted.1 hedits
      cases hlookup.symm.trans hsome
      rw [hkeeps] at hkept
      cases hkept
    have hunchanged : (buildRowUpdate columns rows[s] current []).isSome = false := by
      rw [keepsRow, hrow] at hkeeps
      exact hkeeps
    have hequal := valuesEqual_of_unchanged hcolumn hdistinct hname hunchanged
    rw [htyped] at hequal
    refine Or.inr ⟨s, old, rfl, ?_, Or.inr ?_⟩
    · rw [hnone, shownValues]
    · rw [hnone, shownValues, hrow]
      exact hequal

theorem set_of_getElem? {items : List DisplayRow} {i : Nat} {item : DisplayRow} (h : items[i]? = some item) :
    items.set i item = items := by
  obtain ⟨hi, rfl⟩ := List.getElem?_eq_some_iff.1 h
  exact List.set_getElem_self hi

theorem updateExisting_addresses {draft : Option TableDraft} (h : Sound columns rows (draftState draft))
    {i s columnIndex : Nat} {old : List Cell} (hitem : (screen columns rows draft)[i]? = some (.existing s old))
    {column : Column} (hcolumn : columns[columnIndex]? = some column) {coerced : Cell}
    (htyped : coerceCellValue coerced column.dataType = coerced) (hdefined : coerced ≠ .undefined) :
    Sound columns rows (draftState (updateExisting columns rows draft s columnIndex column coerced)) ∧
      ∃ values, screen columns rows (updateExisting columns rows draft s columnIndex column coerced) =
          (screen columns rows draft).set i (.existing s values) ∧
        ((columns.map Column.name).Nodup → column.name ≠ prototypeName →
          ShowsTyped rows (.existing s old) columnIndex column coerced values) := by
  obtain ⟨hvisible, hold⟩ := visible_of_existing hitem
  have hs : s < rows.length := (mem_visible.1 (List.mem_of_getElem? hvisible)).1
  have hrow : rows[s]? = some rows[s] := List.getElem?_eq_getElem hs
  have hinsert : ∀ current index, index ≠ s → (setEdits (draftState draft) s current).editedRows.lookup index =
      (draftState draft).editedRows.lookup index := fun current index hindex => AList.lookup_insert_ne hindex
  -- the record with the typed value is put into the draft
  have hset : ∀ current : Record, current column.name = coerced →
      Sound columns rows (draftState (compactDraft columns rows (setEdits (draftState draft) s current))) ∧
        ∃ values, screen columns rows (compactDraft columns rows (setEdits (draftState draft) s current)) =
            (screen columns rows draft).set i (.existing s values) ∧
          ((columns.map Column.name).Nodup → column.name ≠ prototypeName →
            ShowsTyped rows (.existing s old) columnIndex column coerced values) := by
    intro current hcurrent
    rw [screen, draftState_compactDraft]
    obtain ⟨hsound, hscreen⟩ := h.edit (setEdits (draftState draft) s current) hvisible rfl rfl (hinsert current)
    subst hcurrent
    obtain ⟨values, hvalues, hshows⟩ := shows_setEdits (draftState draft) old hcolumn hs htyped hdefined
    exact ⟨hsound, values, by rw [hscreen, hvalues]; rfl, hshows⟩
  rw [updateExisting]
  dsimp only
  split
  · next hequal =>
      split
      · next hnone =>
          -- nothing was edited, and nothing changes
          refine ⟨h, old, ?_, ?_⟩
          · exact (set_of_getElem? hitem).symm
          · intro _ _
            refine Or.inr ⟨s, old, rfl, ?_, Or.inl ?_⟩
            · rw [hold, hnone, shownValues]
            · rw [hold, hnone, shownValues]
              exact hequal
      · next edits hedits =>
          split
          · next hnothing =>
              -- the edits are gone, as there is nothing to save
              rw [screen, draftState_compactDraft]
              obtain ⟨hsound, hscreen⟩ := h.edit (dropEdits (draftState draft) s) hvisible rfl rfl
                fun index hindex => AList.lookup_erase_ne hindex
              have hnone : (compacted columns rows (dropEdits (draftState draft) s)).editedRows.lookup s = none := by
                rw [Option.eq_none_iff_forall_ne_some]
                intro current hcurrent
                have herased := (lookup_compacted.1 hcurrent).1
                rw [dropEdits, AList.lookup_erase] at herased
                cases herased
              rw [hrow, Option.getD_some] at hnothing
              have hunchanged := congrArg Option.isSome (Option.isNone_iff_eq_none.1 hnothing)
              refine ⟨hsound, rows[s], ?_, ?_⟩
              · rw [hscreen, displayedRow, hnone, hrow]
                rfl
              · intro hdistinct hname
                have hequal := valuesEqual_of_unchanged hcolumn hdistinct hname hunchanged
                rw [Function.update_self, htyped] at hequal
                exact Or.inr ⟨s, old, rfl, by rw [hrow]; rfl, Or.inr hequal⟩
          · exact hset _ (Function.update_self ..)
  · exact hset _ (Function.update_self ..)

theorem cellAt_newRowValues {newRow : Record} {columnIndex : Nat} {column : Column}
    (hcolumn : columns[columnIndex]? = some column) (hdefined : newRow column.name ≠ .undefined) :
    cellAt (newRowValues columns newRow) columnIndex = newRow column.name := by
  rw [newRowValues, cellAt, List.getElem?_map, hcolumn]
  cases hcell : newRow column.name with
  | undefined => exact absurd hcell hdefined
  | _ => simp [hcell, Cell.isNullish]

theorem updateNew_addresses {draft : Option TableDraft} (h : Sound columns rows (draftState draft))
    {i columnIndex : Nat} {old : List Cell} (hitem : (screen columns rows draft)[i]? = some (.new old))
    {column : Column} (hcolumn : columns[columnIndex]? = some column) {coerced : Cell}
    (hdefined : coerced ≠ .undefined) :
    Sound columns rows
        (draftState (updateNew columns rows draft (newIndexOf columns rows draft i) column coerced)) ∧
      ∃ values, screen columns rows (updateNew columns rows draft (newIndexOf columns rows draft i) column coerced) =
          (screen columns rows draft).set i (.new values) ∧
        cellAt values columnIndex = coerced := by
  obtain ⟨hbehind, row, hrow, -⟩ := newRow_of_new hitem
  rw [screen, updateNew, draftState_compactDraft, newIndexOf_eq]
  refine ⟨h.keep rfl fun index _ => rfl, newRowValues columns (Function.update row column.name coerced), ?_, ?_⟩
  · refine displayRows_setNew hbehind ?_ ?_ ?_
    · rfl
    · rw [hrow]
      rfl
    · intro index
      exact lookup_compacted_eq (h.effective index)
  · have hnamed := Function.update_self column.name coerced row
    rw [cellAt_newRowValues hcolumn (by rw [hnamed]; exact hdefined), hnamed]

theorem isNullish_override {record : Record} (h : ∀ name, (record name).isNullish = true) (columns : List Column)
    (name : Text) : (override record (columns.map fun column => (column.name, .null)) name).isNullish = true := by
  induction columns generalizing record with
  | nil => exact h name
  | cons column rest ih =>
    apply ih
    intro other
    by_cases hother : other = column.name
    · rw [hother]
      exact congrArg Cell.isNullish (Function.update_self column.name Cell.null record)
    · exact (congrArg Cell.isNullish (Function.update_of_ne hother Cell.null record)).trans (h other)

theorem addRow_addresses {draft : Option TableDraft} (h : Sound columns rows (draftState draft)) :
    Sound columns rows (draftState (addRow columns draft)) ∧
      screen columns rows (addRow columns draft) =
        screen columns rows draft ++ [.new (columns.map fun _ => .null)] := by
  refine ⟨⟨h.distinct, h.inRange, h.disjoint, h.effective⟩, ?_⟩
  have hvalues : newRowValues columns (fromEntries (columns.map fun column => (column.name, .null))) =
      columns.map fun _ => .null := by
    apply List.map_congr_left
    intro column _
    exact if_pos (isNullish_override (fun _ => rfl) columns column.name)
  have hadded : screen columns rows (addRow columns draft) = screen columns rows draft ++
      [.new (newRowValues columns (fromEntries (columns.map fun column => (column.name, .null))))] := by
    rw [screen, screen, displayRows_eq, displayRows_eq, List.append_assoc]
    exact congrArg _ (List.map_append ..)
  rw [hadded, hvalues]

theorem deleteSelectedRow_addresses {draft : Option TableDraft} (h : Sound columns rows (draftState draft))
    (i : Nat) :
    Sound columns rows (draftState (deleteSelectedRow columns rows draft (some i))) ∧
      screen columns rows (deleteSelectedRow columns rows draft (some i)) = (screen columns rows draft).eraseIdx i := by
  rw [deleteSelectedRow]
  cases hitem : (screen columns rows draft)[i]? with
  | none =>
    have hbeyond := List.getElem?_eq_none_iff.1 hitem
    exact ⟨h, (List.eraseIdx_of_length_le hbeyond).symm⟩
  | some item =>
    cases item with
    | existing s values =>
      obtain ⟨hvisible, -⟩ := visible_of_existing hitem
      obtain ⟨hs, hkept⟩ := mem_visible.1 (List.mem_of_getElem? hvisible)
      have hother : ∀ index, index ≠ s → (dropEdits (draftState draft) s).editedRows.lookup index =
          (draftState draft).editedRows.lookup index := fun index hindex => AList.lookup_erase_ne hindex
      dsimp only
      rw [if_neg hkept]
      refine ⟨⟨?_, ?_, ?_, ?_⟩, displayRows_delete hvisible rfl rfl hother⟩
      · exact List.nodup_append.2 ⟨h.distinct, List.nodup_singleton s, fun a ha b hb heq =>
          hkept (List.mem_singleton.1 hb ▸ heq ▸ ha)⟩
      · intro index hindex
        rcases List.mem_append.1 hindex with hbefore | hlast
        · exact h.inRange index hbefore
        · rwa [List.mem_singleton.1 hlast]
      · intro index hindex
        rcases List.mem_append.1 hindex with hbefore | hlast
        · have hne : index ≠ s := fun heq => hkept (heq ▸ hbefore)
          exact (hother index hne).trans (h.disjoint index hbefore)
        · rw [List.mem_singleton.1 hlast]
          exact AList.lookup_erase _ _
      · intro index edits hedits
        by_cases hindex : index = s
        · rw [hindex] at hedits
          cases hedits.symm.trans (AList.lookup_erase s (draftState draft).editedRows)
        · exact h.effective index edits ((hother index hindex).symm.trans hedits)
    | new values =>
      obtain ⟨hbehind, -⟩ := newRow_of_new hitem
      dsimp only
      rw [newIndexOf_eq]
      exact ⟨⟨h.distinct, h.inRange, h.disjoint, h.effective⟩, displayRows_eraseNew hbehind rfl rfl rfl⟩

/-- **What a call does to the screen.** -/
theorem run_addresses {draft : Option TableDraft} (h : Sound columns rows (draftState draft)) (call : DraftCall) :
    Sound columns rows (draftState (call.run columns rows draft)) ∧
      Addresses columns rows (screen columns rows draft) (screen columns rows (call.run columns rows draft)) call := by
  cases call with
  | updateCell rowIndex columnIndex value =>
    rw [DraftCall.run, Addresses, updateCell]
    cases hitem : (screen columns rows draft)[rowIndex]? with
    | none => exact ⟨h, rfl⟩
    | some item =>
      cases hcolumn : columns[columnIndex]? with
      | none =>
        -- there is no such column
        cases item with
        | existing s old => exact ⟨h, rfl⟩
        | new old => exact ⟨h, rfl⟩
      | some column =>
        have htyped := coerceCellValue_idem (if value = [] then .null else .string value) column.dataType
        have hdefined : typedCell value column ≠ .undefined := coerceCellValue_ne_undefined _ _
        cases item with
        | existing s old => exact updateExisting_addresses h hitem hcolumn htyped hdefined
        | new old =>
          obtain ⟨hsound, values, hscreen, hshown⟩ := updateNew_addresses h hitem hcolumn hdefined
          exact ⟨hsound, values, hscreen, fun _ _ => Or.inl hshown⟩
  | addRow => exact addRow_addresses h
  | deleteSelectedRow selectedRow =>
    cases selectedRow with
    | none => exact ⟨h, rfl⟩
    | some rowIndex => exact deleteSelectedRow_addresses h rowIndex

theorem sound_draftAfter (columns : List Column) (rows : List (List Cell)) (calls : List DraftCall) :
    Sound columns rows (draftState (draftAfter columns rows calls)) := by
  induction calls using List.reverseRecOn with
  | nil => exact sound_emptyDraft
  | append_singleton calls call ih =>
    rw [draftAfter, List.foldl_concat]
    exact (run_addresses ih call).1

end

/-- **Over every run of calls, the deleted rows are distinct rows of the table without edits, and the next call
changes or takes away the row of the screen that it is made for and no other.** -/
theorem draft_addresses_rows (columns : List Column) (rows : List (List Cell)) (calls : List DraftCall)
    (call : DraftCall) :
    let draft := draftAfter columns rows calls
    (draftState draft).deletedRowIndexes.Nodup ∧
      (∀ index ∈ (draftState draft).deletedRowIndexes, index < rows.length ∧
        index ∉ (draftState draft).editedRows.keys) ∧
      Addresses columns rows (screen columns rows draft)
        (screen columns rows (draftAfter columns rows (calls ++ [call]))) call := by
  have hsound := sound_draftAfter columns rows calls
  refine ⟨hsound.distinct, ?_, ?_⟩
  · intro index hindex
    refine ⟨hsound.inRange index hindex, ?_⟩
    rw [← AList.mem_keys, ← AList.lookup_eq_none]
    exact hsound.disjoint index hindex
  · have hlast : draftAfter columns rows (calls ++ [call]) = call.run columns rows (draftAfter columns rows calls) :=
      List.foldl_concat ..
    rw [hlast]
    exact (run_addresses hsound call).2

end Workbench.Table
