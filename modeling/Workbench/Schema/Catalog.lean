import Workbench.Schema.Model

/-!
# The columns of a table as they are loaded

`loadMySQLColumns`, `loadPostgresColumns`, `applyPostgresColumnComments` and the primary key of
`DescribeTable` in `api/internal/db/catalog.go`, over the rows that their queries answer, and the rows
that the two catalogs show of a column.

A column of the server has attributes that no row shows; they are `extra`.
-/

set_option autoImplicit false

namespace Workbench.Schema

/-! ## The loaders -/

inductive LoadError where
  | tableNotFound
  deriving DecidableEq, Repr

/-- A row of the query for columns; an absent text is NULL. -/
structure CatalogRow where
  name : Text
  typ : Text
  nullable : Text
  default : Option Text
  comment : Option Text
  deriving DecidableEq, Repr

def yes : Text := "YES".toList

/-- The column that a loader appends for a row. -/
def CatalogRow.column (row : CatalogRow) : Column where
  name := row.name
  type := row.typ
  nullable := row.nullable = yes
  default := row.default
  comment := row.comment.getD []
  primary := false

/-- The loop of both loaders and the check behind it. -/
def loadRows (rows : List CatalogRow) : Except LoadError (List Column) :=
  if rows.length = 0 then .error .tableNotFound else .ok (rows.map CatalogRow.column)

def loadMySQLColumns (rows : List CatalogRow) : Except LoadError (List Column) := loadRows rows

/-- The query of PostgreSQL asks for no comment. -/
def loadPostgresColumns (rows : List CatalogRow) : Except LoadError (List Column) :=
  loadRows (rows.map fun row => { row with comment := none })

/-- The map of the comments: the last row of a name that has one. -/
def commentOf (rows : List (Text × Option Text)) (name : Text) : Option Text :=
  (rows.filterMap fun row => if row.1 = name then row.2 else none).getLast?

def applyPostgresColumnComments (rows : List (Text × Option Text)) (columns : List Column) :
    List Column :=
  columns.map fun c => { c with comment := (commentOf rows c.name).getD c.comment }

def primaryKey : Text := "PRIMARY KEY".toList

/-- The loop over the rows of keys: a column and the kind of its constraint. -/
def markPrimary (keyRows : List (Text × Text)) (columns : List Column) : List Column :=
  columns.map fun c => { c with primary := c.primary || keyRows.contains (c.name, primaryKey) }

/-- The columns of `DescribeTable`. -/
def describeColumns (d : Dialect) (rows : List CatalogRow) (comments : List (Text × Option Text))
    (keyRows : List (Text × Text)) : Except LoadError (List Column) := do
  match d with
  | .mysql => do
    let columns ← loadMySQLColumns rows
    .ok (markPrimary keyRows columns)
  | .postgres => do
    let columns ← loadPostgresColumns rows
    .ok (markPrimary keyRows (applyPostgresColumnComments comments columns))

/-! ## What the catalogs show -/

/-- A column of the server: `δ` are its defaults, `ε` the attributes that no row shows. -/
structure CatalogColumn (δ ε : Type) where
  name : Text
  type : Text
  nullable : Bool
  default : Option δ
  comment : Text
  extra : ε
  deriving DecidableEq, Repr

namespace CatalogColumn

variable {δ ε : Type} (text : δ → Text)

/-- `IS_NULLABLE`, and the `CASE` over `attnotnull`. -/
def nullableText (nullable : Bool) : Text := if nullable then yes else "NO".toList

/-- The row of the query; `text` is what `COLUMN_DEFAULT` and `pg_get_expr` show of a default. -/
def row (e : CatalogColumn δ ε) : CatalogRow where
  name := e.name
  typ := e.type
  nullable := nullableText e.nullable
  default := e.default.map text
  comment := some e.comment

/-- The row of `col_description`, which knows no empty comment. -/
def commentRow (e : CatalogColumn δ ε) : Text × Option Text :=
  (e.name, if e.comment = [] then none else some e.comment)

/-- The column that is loaded. -/
def loaded (keyRows : List (Text × Text)) (e : CatalogColumn δ ε) : Column where
  name := e.name
  type := e.type
  nullable := e.nullable
  default := e.default.map text
  comment := e.comment
  primary := keyRows.contains (e.name, primaryKey)

theorem nullableText_eq_yes (nullable : Bool) : decide (nullableText nullable = yes) = nullable := by
  cases nullable <;> rfl

/-- Columns have names of their own, so a comment is found under the name of its column. -/
theorem commentOf_map_commentRow {entries : List (CatalogColumn δ ε)}
    (hdistinct : (entries.map CatalogColumn.name).Nodup) {e : CatalogColumn δ ε} (he : e ∈ entries) :
    commentOf (entries.map commentRow) e.name = e.commentRow.2 := by
  induction entries with
  | nil => cases he
  | cons first rest ih =>
    rw [List.map_cons, List.nodup_cons] at hdistinct
    obtain ⟨hfirst, hrest⟩ := hdistinct
    have hothers : first.name = e.name → commentOf (rest.map commentRow) e.name = none := by
      intro hname
      have hnil : (rest.map commentRow).filterMap
          (fun row => if row.1 = e.name then row.2 else none) = [] := by
        apply List.filterMap_eq_nil_iff.2
        intro row hrow
        obtain ⟨other, hother, rfl⟩ := List.mem_map.1 hrow
        apply if_neg
        intro hsame
        exact hfirst (List.mem_map.2 ⟨other, hother, hsame.trans hname.symm⟩)
      rw [commentOf, hnil]
      rfl
    rcases List.mem_cons.1 he with rfl | hmem
    · have hnone := hothers rfl
      rw [commentOf, List.map_cons, List.filterMap_cons]
      have hhead : (if e.commentRow.1 = e.name then e.commentRow.2 else none) = e.commentRow.2 :=
        if_pos rfl
      simp only [hhead]
      rw [commentOf] at hnone
      cases hcomment : e.commentRow.2 with
      | none => exact hnone
      | some comment =>
        simp only
        rw [List.getLast?_cons, hnone]
        rfl
    · have hne : first.name ≠ e.name := by
        intro hname
        exact hfirst (List.mem_map.2 ⟨e, hmem, hname.symm⟩)
      rw [← ih hrest hmem, commentOf, commentOf, List.map_cons, List.filterMap_cons]
      have hhead : (if first.commentRow.1 = e.name then first.commentRow.2 else none) = none :=
        if_neg hne
      simp only [hhead]

/-- **Both loaders read back what the catalog shows.** -/
theorem describeColumns_eq (d : Dialect) (keyRows : List (Text × Text))
    {entries : List (CatalogColumn δ ε)} (hdistinct : (entries.map CatalogColumn.name).Nodup)
    (hne : entries ≠ []) :
    describeColumns d (entries.map (row text)) (entries.map commentRow) keyRows =
      .ok (entries.map (loaded text keyRows)) := by
  have hlength : ∀ {α : Type} (f : CatalogColumn δ ε → α), ¬(entries.map f).length = 0 := by
    intro α f hzero
    rw [List.length_map] at hzero
    exact hne (List.eq_nil_of_length_eq_zero hzero)
  cases d with
  | mysql =>
    show (loadMySQLColumns (entries.map (row text)) >>= fun columns =>
      Except.ok (markPrimary keyRows columns)) = _
    rw [loadMySQLColumns, loadRows, if_neg (hlength _), Workbench.bind_eq_ok]
    refine ⟨_, rfl, ?_⟩
    apply congrArg
    rw [markPrimary, List.map_map, List.map_map]
    apply List.map_congr_left
    intro e _
    simp [row, loaded, CatalogRow.column, nullableText_eq_yes]
  | postgres =>
    show (loadPostgresColumns (entries.map (row text)) >>= fun columns =>
      Except.ok (markPrimary keyRows
        (applyPostgresColumnComments (entries.map commentRow) columns))) = _
    rw [loadPostgresColumns, List.map_map, loadRows, if_neg (hlength _), Workbench.bind_eq_ok]
    refine ⟨_, rfl, ?_⟩
    apply congrArg
    rw [markPrimary, applyPostgresColumnComments, List.map_map, List.map_map, List.map_map]
    apply List.map_congr_left
    intro e he
    have hcomment := commentOf_map_commentRow hdistinct he
    have hback : e.commentRow.2.getD [] = e.comment := by
      unfold commentRow
      split_ifs with hempty
      · exact hempty.symm
      · rfl
    simp [row, loaded, CatalogRow.column, nullableText_eq_yes, hcomment, hback]

end CatalogColumn

end Workbench.Schema
