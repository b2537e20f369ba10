import Workbench.Schema.Model

/-!
# The draft of a table

`web/src/features/schema/schemaDraft.ts`: the columns of the structure editor and the operations that
`diffColumns` derives from them. A field that is absent in a column has its zero value here, as in the
request that the server decodes.

`toLowerCase` is a parameter: nothing depends on what it does.
-/

set_option autoImplicit false

namespace Workbench.Schema

/-- A column of the editor. -/
structure DraftColumn extends Column where
  originalName : Option Text
  isNew : Bool
  deriving DecidableEq, Repr, Inhabited

namespace DraftColumn

/-- `columnPayload`. -/
abbrev columnPayload (c : DraftColumn) : Column := c.toColumn

/-- `item.originalName || item.name`. -/
def key (c : DraftColumn) : Text :=
  match c.originalName with
  | none => c.name
  | some text => if text = [] then c.name else text

/-- A column as `load` takes it into the draft. -/
def ofColumn (c : Column) : DraftColumn := { c with originalName := some c.name, isNew := false }

@[simp] theorem key_ofColumn (c : Column) : (ofColumn c).key = c.name := by
  unfold key ofColumn
  split
  · rfl
  · next text htext =>
      cases htext
      split_ifs
      · rfl
      · rfl

end DraftColumn

namespace Operation

/-- The operations of `diffColumns`; every field that is not given is absent. -/
def dropColumn (name : Text) : Operation :=
  { (default : Operation) with kind := OperationKind.dropColumn.text, name := name }

def addColumn (c : Column) : Operation :=
  { (default : Operation) with kind := OperationKind.addColumn.text, column := c }

def renameColumn (name newName : Text) : Operation :=
  { (default : Operation) with kind := OperationKind.renameColumn.text, name := name, newName := newName }

def alterColumn (c : Column) : Operation :=
  { (default : Operation) with kind := OperationKind.alterColumn.text, column := c }

def setColumnComment (c : Column) : Operation :=
  { (default : Operation) with kind := OperationKind.setColumnComment.text, column := c }

def setPrimary (name : Text) : Operation :=
  { (default : Operation) with kind := OperationKind.setPrimary.text, name := name }

def dropPrimary : Operation :=
  { (default : Operation) with kind := OperationKind.dropPrimary.text }

end Operation

/-- The name of the first primary column. -/
def firstPrimary (columns : List Column) : Option Text := (columns.find? Column.primary).map Column.name

/-- The names that columns of the draft keep in use. -/
def retained (after : List DraftColumn) : List Text :=
  (after.filter fun item => !item.isNew).map DraftColumn.key

/-- The first loop of `diffColumns`. -/
def diffDropped (before : List Column) (after : List DraftColumn) : List Operation :=
  (before.filter fun original => !(retained after).contains original.name).map fun original =>
    Operation.dropColumn original.name

section

variable (lowerCase : Text → Text)

/-- What `diffColumns` changes in a column that was there. -/
def diffColumn (original : Column) (current : DraftColumn) : List Operation :=
  (if current.key ≠ current.name then [Operation.renameColumn current.key current.name] else []) ++
    (if lowerCase original.type ≠ lowerCase current.type ∨ original.nullable ≠ current.nullable ∨
        original.default ≠ current.default then
      [Operation.alterColumn current.columnPayload] else []) ++
    (if original.comment ≠ current.comment then
      [Operation.setColumnComment current.columnPayload] else [])

/-- One round of the second loop. -/
def diffCurrent (before : List Column) (current : DraftColumn) : List Operation :=
  if current.isNew then [Operation.addColumn current.columnPayload]
  else
    match before.find? fun item => item.name = current.key with
    | none => []
    | some original => diffColumn lowerCase original current

/-- The primary key; an empty name counts as none. -/
def diffPrimary (before : List Column) (after : List DraftColumn) : List Operation :=
  let beforePrimary := firstPrimary before
  let afterPrimary := firstPrimary (after.map DraftColumn.toColumn)
  if beforePrimary ≠ afterPrimary then
    match afterPrimary.filter (· ≠ []) with
    | some name => [Operation.setPrimary name]
    | none => if (beforePrimary.filter (· ≠ [])).isSome then [Operation.dropPrimary] else []
  else []

/-- The operation drops a name that a column of the draft carries. -/
def dropsCarried (after : List DraftColumn) (op : Operation) : Bool :=
  op.kind = OperationKind.dropColumn.text && after.any fun item => item.key = op.name

/-- `diffColumns`. -/
def diffColumns (before : List Column) (after : List DraftColumn) : List Operation :=
  (diffDropped before after ++ after.flatMap (diffCurrent lowerCase before) ++
    diffPrimary before after).filter fun op => !dropsCarried after op

/-! ## Columns that stay as they are -/

variable {lowerCase}

/-- Columns have names of their own, so each is found under its own. -/
theorem find?_name {columns : List Column} (hdistinct : (columns.map Column.name).Nodup) {c : Column}
    (hc : c ∈ columns) : columns.find? (fun item => item.name = c.name) = some c := by
  induction columns with
  | nil => cases hc
  | cons first rest ih =>
    rw [List.map_cons, List.nodup_cons] at hdistinct
    rcases List.mem_cons.1 hc with rfl | hmem
    · exact List.find?_cons_of_pos (by simp)
    · have hne : first.name ≠ c.name := by
        intro hname
        exact hdistinct.1 (List.mem_map.2 ⟨c, hmem, hname.symm⟩)
      rw [List.find?_cons_of_neg (by simpa using hne)]
      exact ih hdistinct.2 hmem

/-- A column that is loaded and not edited needs nothing. -/
theorem diffColumn_ofColumn (c : Column) : diffColumn lowerCase c (DraftColumn.ofColumn c) = [] := by
  have hkey : (DraftColumn.ofColumn c).key = (DraftColumn.ofColumn c).name :=
    DraftColumn.key_ofColumn c
  have hsame : ¬(lowerCase c.type ≠ lowerCase (DraftColumn.ofColumn c).type ∨
      c.nullable ≠ (DraftColumn.ofColumn c).nullable ∨
      c.default ≠ (DraftColumn.ofColumn c).default) := by simp [DraftColumn.ofColumn]
  have hcomment : ¬c.comment ≠ (DraftColumn.ofColumn c).comment := not_not.2 rfl
  rw [diffColumn, if_neg (not_not.2 hkey), if_neg hsame, if_neg hcomment]
  rfl

theorem diffCurrent_ofColumn {columns : List Column} (hdistinct : (columns.map Column.name).Nodup)
    {c : Column} (hc : c ∈ columns) : diffCurrent lowerCase columns (DraftColumn.ofColumn c) = [] := by
  have hfind : columns.find? (fun item => item.name = (DraftColumn.ofColumn c).key) = some c := by
    rw [DraftColumn.key_ofColumn]
    exact find?_name hdistinct hc
  rw [diffCurrent, if_neg (by simp [DraftColumn.ofColumn]), hfind]
  exact diffColumn_ofColumn c

/-- What is changed in a column drops nothing. -/
theorem not_dropsCarried_of_mem {after : List DraftColumn} {original : Column} {current : DraftColumn}
    {op : Operation} (h : op ∈ diffColumn lowerCase original current) : dropsCarried after op = false := by
  have hkind : op.kind ≠ OperationKind.dropColumn.text := by
    rw [diffColumn, List.mem_append, List.mem_append] at h
    rcases h with (h | h) | h
    · split_ifs at h
      · rw [List.mem_singleton.1 h]
        exact (by decide : OperationKind.renameColumn.text ≠ OperationKind.dropColumn.text)
      · cases h
    · split_ifs at h
      · rw [List.mem_singleton.1 h]
        exact (by decide : OperationKind.alterColumn.text ≠ OperationKind.dropColumn.text)
      · cases h
    · split_ifs at h
      · rw [List.mem_singleton.1 h]
        exact (by decide : OperationKind.setColumnComment.text ≠ OperationKind.dropColumn.text)
      · cases h
  rw [dropsCarried, decide_eq_false hkind, Bool.false_and]

theorem retained_ofColumn (columns : List Column) :
    retained (columns.map DraftColumn.ofColumn) = columns.map Column.name := by
  have hall : (columns.map DraftColumn.ofColumn).filter (fun item => !item.isNew) =
      columns.map DraftColumn.ofColumn := by
    apply List.filter_eq_self.2
    intro item hitem
    obtain ⟨c, -, rfl⟩ := List.mem_map.1 hitem
    rfl
  rw [retained, hall, List.map_map]
  exact List.map_congr_left fun c _ => DraftColumn.key_ofColumn c

/-- An edited column keeps its key, so that all columns are retained. -/
theorem retained_edited {front back : List Column} {c : Column} {current : DraftColumn}
    (hnew : current.isNew = false) (hkey : current.key = c.name) :
    retained (front.map DraftColumn.ofColumn ++ current :: back.map DraftColumn.ofColumn) =
      (front ++ c :: back).map Column.name := by
  have hsplit : retained (front.map DraftColumn.ofColumn ++ current ::
      back.map DraftColumn.ofColumn) = retained (front.map DraftColumn.ofColumn) ++
        current.key :: retained (back.map DraftColumn.ofColumn) := by
    simp [retained, hnew]
  rw [hsplit, retained_ofColumn, retained_ofColumn, hkey, List.map_append, List.map_cons]

/-- The first primary column carries the same name in both lists. -/
theorem firstPrimary_edited {front back : List Column} {c : Column} {current : DraftColumn}
    (hprimary : current.primary = c.primary) (hname : current.name = c.name) :
    firstPrimary (front ++ c :: back) = firstPrimary ((front.map DraftColumn.ofColumn ++
      current :: back.map DraftColumn.ofColumn).map DraftColumn.toColumn) := by
  have hsame : ∀ columns : List Column,
      (columns.map DraftColumn.ofColumn).map DraftColumn.toColumn = columns := by
    intro columns
    rw [List.map_map]
    exact List.map_id columns
  rw [List.map_append, List.map_cons, hsame, hsame, firstPrimary, firstPrimary, List.find?_append,
    List.find?_append, List.find?_cons, List.find?_cons, hprimary]
  cases front.find? Column.primary with
  | some first => rfl
  | none =>
    cases c.primary with
    | true => exact congrArg some hname.symm
    | false => rfl

/-- **A draft that edits one column and keeps its name and its key yields what is changed in it.** -/
theorem diffColumns_edited {front back : List Column} {c : Column} {current : DraftColumn}
    (hdistinct : ((front ++ c :: back).map Column.name).Nodup) (hnew : current.isNew = false)
    (hkey : current.key = c.name) (hprimary : current.primary = c.primary)
    (hname : current.name = c.name) :
    diffColumns lowerCase (front ++ c :: back)
        (front.map DraftColumn.ofColumn ++ current :: back.map DraftColumn.ofColumn) =
      diffColumn lowerCase c current := by
  have hretained := @retained_edited front back c current hnew hkey
  have hdropped : diffDropped (front ++ c :: back) (front.map DraftColumn.ofColumn ++ current ::
      back.map DraftColumn.ofColumn) = [] := by
    rw [diffDropped, hretained, List.map_eq_nil_iff, List.filter_eq_nil_iff]
    intro original horiginal
    rw [List.contains_eq_mem, decide_eq_true (List.mem_map_of_mem horiginal)]
    exact Bool.false_ne_true
  have hunchanged : ∀ columns : List Column, (∀ x ∈ columns, x ∈ front ++ c :: back) →
      (columns.map DraftColumn.ofColumn).flatMap (diffCurrent lowerCase (front ++ c :: back)) = [] := by
    intro columns hsub
    rw [List.flatMap_eq_nil_iff]
    intro item hitem
    obtain ⟨x, hx, rfl⟩ := List.mem_map.1 hitem
    exact diffCurrent_ofColumn hdistinct (hsub x hx)
  have hfind : (front ++ c :: back).find? (fun item => item.name = current.key) = some c := by
    rw [hkey]
    exact find?_name hdistinct (by simp)
  have hcurrent : diffCurrent lowerCase (front ++ c :: back) current = diffColumn lowerCase c current := by
    rw [diffCurrent, if_neg (by simp [hnew]), hfind]
  have hloop : (front.map DraftColumn.ofColumn ++ current :: back.map DraftColumn.ofColumn).flatMap
      (diffCurrent lowerCase (front ++ c :: back)) = diffColumn lowerCase c current := by
    rw [List.flatMap_append, List.flatMap_cons, hunchanged front fun x hx => List.mem_append_left _ hx,
      hunchanged back fun x hx => List.mem_append_right _ (List.mem_cons_of_mem _ hx), hcurrent,
      List.nil_append, List.append_nil]
  have hfirst := @firstPrimary_edited front back c current hprimary hname
  rw [diffColumns, hdropped, hloop, diffPrimary, if_neg (not_not.2 hfirst), List.nil_append,
    List.append_nil, List.filter_eq_self]
  intro op hop
  rw [not_dropsCarried_of_mem hop]
  rfl

end

end Workbench.Schema
