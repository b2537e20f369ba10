import Workbench.Base.Dialect
import Workbench.Lib.Grouping
import Workbench.Lib.Infixes
import Workbench.Query.Paging

/-!
# Tables, columns and keys of a database

`loadColumnMetadata` and `loadKeyMetadata` of `api/internal/db/metadata.go` read rows in the order that their queries
ask for, and send a table in front of its columns and one constraint of each table as its key. The collation of the
server decides what the order of two names is, so rows of tables and constraints that it takes for equal can alternate.
The objects of a table are right wherever its rows stand (`metadata_grouped`).
-/

set_option autoImplicit false

namespace Workbench.Schema

open Workbench.Lib
open Workbench.Query (RowStream)

structure Object where
  kind : Text
  catalog : Text
  schema : Text
  name : Text
  parent : Text
  dataType : Text
  nullable : Bool
  deriving DecidableEq

/-! ## The loops -/

/-- What a query answers. -/
abbrev RowAnswer (R : Type) := Except Text (RowStream R Text)

/-- The loop over `rows.Next`, and what `rows.Err` says behind it. -/
def readStream {R S : Type} (what : Text) (step : S → R → S) : S → RowStream R Text → Except Text S
  | state, .ended => .ok state
  | _, .failed err => .error ("iterate database ".toList ++ what ++ ": ".toList ++ err)
  | _, .row (.error err) _ => .error ("scan database ".toList ++ what ++ ": ".toList ++ err)
  | state, .row (.ok row) rest => readStream what step (step state row) rest

def loadStream {R S : Type} (what : Text) (step : S → R → S) (start : S) : RowAnswer R → Except Text S
  | .error err => .error ("load database ".toList ++ what ++ ": ".toList ++ err)
  | .ok stream => readStream what step start stream

/-- The key of a table in the maps of both loops. -/
def tableKey (catalog schema table : Text) : Text :=
  catalog ++ Char.ofNat 0 :: (schema ++ Char.ofNat 0 :: table)

structure ColumnRow where
  catalog : Text
  schema : Text
  table : Text
  column : Text
  dataType : Text
  nullable : Text

structure ColumnLoad where
  objects : List Object
  seenTables : Text → Bool

def ColumnLoad.row (load : ColumnLoad) (row : ColumnRow) : ColumnLoad :=
  let key := tableKey row.catalog row.schema row.table
  let column : Object :=
    ⟨"column".toList, row.catalog, row.schema, row.column, row.table, row.dataType, row.nullable = "YES".toList⟩
  if load.seenTables key then { load with objects := load.objects ++ [column] }
  else
    ⟨load.objects ++ [⟨"table".toList, row.catalog, row.schema, row.table, [], [], false⟩] ++ [column],
      Function.update load.seenTables key true⟩

def loadColumnMetadata (answer : RowAnswer ColumnRow) : Except Text (List Object) :=
  (loadStream "metadata".toList ColumnLoad.row ⟨[], fun _ => false⟩ answer).map ColumnLoad.objects

structure KeyRow where
  catalog : Text
  schema : Text
  table : Text
  column : Text
  constraint : Text
  constraintType : Text

/-- A row of the query for MySQL, which has no catalog. -/
structure MySqlKeyRow where
  schema : Text
  table : Text
  column : Text
  constraint : Text
  constraintType : Text

def MySqlKeyRow.scanned (row : MySqlKeyRow) : KeyRow :=
  ⟨"def".toList, row.schema, row.table, row.column, row.constraint, row.constraintType⟩

structure KeyLoad where
  objects : List Object
  chosen : Text → Option Text

def KeyLoad.row (load : KeyLoad) (row : KeyRow) : KeyLoad :=
  let key := tableKey row.catalog row.schema row.table
  if ∃ selected ∈ load.chosen key, selected ≠ row.constraint then load
  else
    ⟨load.objects ++ [⟨"key".toList, row.catalog, row.schema, row.column, row.table, row.constraintType, false⟩],
      Function.update load.chosen key (some row.constraint)⟩

/-- What the query of a driver for the keys answers. -/
inductive KeyAnswer where
  | mysql (answer : RowAnswer MySqlKeyRow)
  | postgres (answer : RowAnswer KeyRow)

def loadKeyMetadata (answer : KeyAnswer) : Except Text (List Object) :=
  let start : KeyLoad := ⟨[], fun _ => none⟩
  match answer with
  | .mysql answer => (loadStream "keys".toList (fun load row => load.row row.scanned) start answer).map KeyLoad.objects
  | .postgres answer => (loadStream "keys".toList KeyLoad.row start answer).map KeyLoad.objects

/-- `metadataSQL`. -/
def metadataSQL (columns : RowAnswer ColumnRow) (keys : KeyAnswer) : Except Text (List Object) := do
  let objects ← loadColumnMetadata columns
  let keys ← loadKeyMetadata keys
  return objects ++ keys

/-! ## What the queries ask for -/

/-- A name in the database; no server takes a NUL into one. -/
abbrev Identifier := {name : Text // Char.ofNat 0 ∉ name}

@[ext]
structure TableName where
  catalog : Identifier
  schema : Identifier
  name : Identifier
  deriving DecidableEq

/-- How a server compares names. Different names can be equal to it. -/
structure Collation where
  le : Text → Text → Prop
  total : ∀ a b, le a b ∨ le b a
  trans : ∀ a b c, le a b → le b c → le a c

/-- An `ORDER BY` of a name and of what comes behind it. -/
def Collation.andThen (collation : Collation) (a b : Text) (behind : Prop) : Prop :=
  collation.le a b ∧ (collation.le b a → behind)

instance (collation : Collation) [DecidableRel collation.le] (a b : Text) (behind : Prop) [Decidable behind] :
    Decidable (collation.andThen a b behind) := inferInstanceAs (Decidable (_ ∧ (_ → _)))

structure TableColumn where
  name : Text
  dataType : Text
  nullable : Text
  ordinal : Nat
  deriving DecidableEq

/-- A table with its columns. -/
structure TableColumns where
  table : TableName
  columns : List TableColumn
  nonempty : columns ≠ []
  increasing : columns.Pairwise fun a b => a.ordinal < b.ordinal

/-- A row of the query for the columns, with what it is ordered by. -/
structure OrderedColumn where
  table : TableName
  column : TableColumn
  deriving DecidableEq

def TableColumns.rows (t : TableColumns) : List OrderedColumn := t.columns.map fun column => ⟨t.table, column⟩

def OrderedColumn.Before (collation : Collation) (a b : OrderedColumn) : Prop :=
  collation.andThen a.table.catalog b.table.catalog (collation.andThen a.table.schema b.table.schema
    (collation.andThen a.table.name b.table.name (a.column.ordinal ≤ b.column.ordinal)))

def OrderedColumn.scanned (row : OrderedColumn) : ColumnRow :=
  ⟨row.table.catalog, row.table.schema, row.table.name, row.column.name, row.column.dataType, row.column.nullable⟩

/-- Rows in an order that the query for the columns asks for. -/
structure ColumnStream (collation : Collation) where
  tables : List TableColumns
  tables_nodup : (tables.map TableColumns.table).Nodup
  rows : List OrderedColumn
  perm : rows.Perm (tables.flatMap TableColumns.rows)
  ordered : rows.Pairwise (OrderedColumn.Before collation)

def ColumnStream.answer {collation : Collation} (columns : ColumnStream collation) : RowAnswer ColumnRow :=
  .ok (.ofList (columns.rows.map OrderedColumn.scanned))

inductive ConstraintType where
  | primaryKey
  | unique
  deriving DecidableEq

def ConstraintType.text : ConstraintType → Text
  | .primaryKey => "PRIMARY KEY".toList
  | .unique => "UNIQUE".toList

/-- `CASE WHEN tc.constraint_type = 'PRIMARY KEY' THEN 0 ELSE 1 END`. -/
def ConstraintType.rank : ConstraintType → Nat
  | .primaryKey => 0
  | .unique => 1

structure KeyColumn where
  name : Text
  ordinal : Nat
  deriving DecidableEq

/-- A constraint with its columns. -/
structure Constraint where
  table : TableName
  name : Text
  type : ConstraintType
  columns : List KeyColumn
  nonempty : columns ≠ []
  increasing : columns.Pairwise fun a b => a.ordinal < b.ordinal

/-- A row of the query for the keys, with what it is ordered by. -/
structure OrderedKey where
  table : TableName
  constraint : Text
  type : ConstraintType
  column : KeyColumn
  deriving DecidableEq

def Constraint.rows (c : Constraint) : List OrderedKey := c.columns.map fun column => ⟨c.table, c.name, c.type, column⟩

/-- The order of the keys in a schema, which both queries end with. -/
def OrderedKey.BeforeIn (collation : Collation) (a b : OrderedKey) : Prop :=
  collation.andThen a.table.schema b.table.schema (collation.andThen a.table.name b.table.name
    (a.type.rank ≤ b.type.rank ∧
      (b.type.rank ≤ a.type.rank → collation.andThen a.constraint b.constraint (a.column.ordinal ≤ b.column.ordinal))))

def OrderedKey.Before (collation : Collation) : Dialect → OrderedKey → OrderedKey → Prop
  | .mysql, a, b => a.BeforeIn collation b
  | .postgres, a, b => collation.andThen a.table.catalog b.table.catalog (a.BeforeIn collation b)

def OrderedKey.mysql (row : OrderedKey) : MySqlKeyRow :=
  ⟨row.table.schema, row.table.name, row.column.name, row.constraint, row.type.text⟩

def OrderedKey.scanned (row : OrderedKey) : KeyRow :=
  ⟨row.table.catalog, row.table.schema, row.table.name, row.column.name, row.constraint, row.type.text⟩

/-- Rows in an order that the query for the keys asks for. A table has one primary key at most, and the constraints of a
table have different names. -/
structure KeyStream (dialect : Dialect) (collation : Collation) where
  constraints : List Constraint
  names_nodup : (constraints.map fun c => (c.table, c.name)).Nodup
  one_primary : ∀ a ∈ constraints, ∀ b ∈ constraints, a.table = b.table → a.type = .primaryKey →
    b.type = .primaryKey → a.name = b.name
  catalog_def : dialect = .mysql → ∀ c ∈ constraints, c.table.catalog.val = "def".toList
  rows : List OrderedKey
  perm : rows.Perm (constraints.flatMap Constraint.rows)
  ordered : rows.Pairwise (OrderedKey.Before collation dialect)

def KeyStream.answer {collation : Collation} : {dialect : Dialect} → KeyStream dialect collation → KeyAnswer
  | .mysql, keys => .mysql (.ok (.ofList (keys.rows.map OrderedKey.mysql)))
  | .postgres, keys => .postgres (.ok (.ofList (keys.rows.map OrderedKey.scanned)))

/-! ## Objects of a table -/

/-- The table that an object is, or that it is a part of. -/
def Object.isOf (object : Object) (table : TableName) : Bool :=
  object.catalog = table.catalog.val ∧ object.schema = table.schema.val ∧
    (if object.kind = "table".toList then object.name else object.parent) = table.name.val

def TableName.object (t : TableName) : Object := ⟨"table".toList, t.catalog, t.schema, t.name, [], [], false⟩

def OrderedColumn.object (row : OrderedColumn) : Object :=
  ⟨"column".toList, row.table.catalog, row.table.schema, row.column.name, row.table.name, row.column.dataType,
    row.column.nullable = "YES".toList⟩

def OrderedKey.object (row : OrderedKey) : Object :=
  ⟨"key".toList, row.table.catalog, row.table.schema, row.column.name, row.table.name, row.type.text, false⟩

/-- Each table once, in front of its columns in order, and nothing else. -/
structure ColumnStream.Listed {collation : Collation} (stream : ColumnStream collation) (objects : List Object) :
    Prop where
  tables : ∀ t ∈ stream.tables,
    objects.filter (fun object => object.isOf t.table) = t.table.object :: t.rows.map OrderedColumn.object
  others : ∀ object ∈ objects, ∃ t ∈ stream.tables, object.isOf t.table

/-- The primary key of a table, or one of its constraints that no other comes before. -/
def KeyStream.IsKey {dialect : Dialect} {collation : Collation} (stream : KeyStream dialect collation)
    (table : TableName) (c : Constraint) : Prop :=
  c ∈ stream.constraints ∧ c.table = table ∧ ∀ other ∈ stream.constraints, other.table = table →
    c.type = .primaryKey ∨ other.type = .unique ∧ collation.le c.name other.name

/-- The columns of the key of each table in order, and nothing else. -/
structure KeyStream.Listed {dialect : Dialect} {collation : Collation} (stream : KeyStream dialect collation)
    (objects : List Object) : Prop where
  keys : ∀ c ∈ stream.constraints, ∃ key, stream.IsKey c.table key ∧
    objects.filter (fun object => object.isOf c.table) = key.rows.map OrderedKey.object
  others : ∀ object ∈ objects, ∃ c ∈ stream.constraints, object.isOf c.table

theorem TableName.eq_iff {a b : TableName} :
    a = b ↔ a.catalog.val = b.catalog.val ∧ a.schema.val = b.schema.val ∧ a.name.val = b.name.val := by
  rw [TableName.ext_iff, Subtype.ext_iff, Subtype.ext_iff, Subtype.ext_iff]

theorem isOf_table {a b : TableName} : a.object.isOf b = true ↔ a = b := by
  rw [TableName.eq_iff]
  exact decide_eq_true_iff

theorem isOf_column {row : OrderedColumn} {t : TableName} : row.object.isOf t = true ↔ row.table = t := by
  rw [TableName.eq_iff]
  exact decide_eq_true_iff

theorem isOf_key {row : OrderedKey} {t : TableName} : row.object.isOf t = true ↔ row.table = t := by
  rw [TableName.eq_iff]
  exact decide_eq_true_iff

/-! ## Reading without an error -/

theorem readStream_ofList {R S : Type} (what : Text) (step : S → R → S) (rows : List R) (state : S) :
    readStream what step state (.ofList rows) = .ok (rows.foldl step state) := by
  induction rows generalizing state with
  | nil => rfl
  | cons row rest ih => exact ih (step state row)

def TableName.key (t : TableName) : Text := tableKey t.catalog t.schema t.name

theorem key_inj {a b : TableName} : a.key = b.key ↔ a = b := by
  constructor
  · intro h
    obtain ⟨hcatalog, hrest⟩ := append_mark_inj a.catalog.property b.catalog.property h
    obtain ⟨hschema, hname⟩ := append_mark_inj a.schema.property b.schema.property hrest
    exact TableName.eq_iff.2 ⟨hcatalog, hschema, hname⟩
  · rintro rfl
    rfl

/-! ## Columns -/

def readColumns (rows : List OrderedColumn) : ColumnLoad :=
  rows.foldl (fun load row => load.row row.scanned) ⟨[], fun _ => false⟩

/-- What the rows of one table give. -/
def tableObjects (t : TableName) (rows : List OrderedColumn) : List Object :=
  if rows = [] then [] else t.object :: rows.map OrderedColumn.object

/-- One pass of the loop. -/
theorem ColumnLoad.row_eq (load : ColumnLoad) (row : OrderedColumn) :
    load.row row.scanned =
      ⟨load.objects ++ ((if load.seenTables row.table.key = true then [] else [row.table.object]) ++ [row.object]),
        Function.update load.seenTables row.table.key true⟩ := by
  show (if load.seenTables row.table.key = true then _ else _) = _
  by_cases hseen : load.seenTables row.table.key = true
  · rw [if_pos hseen, if_pos hseen, ← hseen, Function.update_eq_self]
    rfl
  · rw [if_neg hseen, if_neg hseen, ← List.append_assoc]
    rfl

theorem readColumns_concat (rows : List OrderedColumn) (row : OrderedColumn) :
    readColumns (rows ++ [row]) = (readColumns rows).row row.scanned := List.foldl_concat _ _ _ _

/-- What the loop has of a table comes from the rows of this table. -/
theorem readColumns_table (rows : List OrderedColumn) (t : TableName) :
    ((readColumns rows).seenTables t.key = true ↔ rows.filter (fun row => row.table = t) ≠ []) ∧
      (readColumns rows).objects.filter (fun object => object.isOf t) =
        tableObjects t (rows.filter fun row => row.table = t) := by
  -- By induction over the rows, as they are read: what is there for a table after the rows so far.
  induction rows using List.reverseRecOn with
  | nil => exact ⟨⟨fun h => absurd h Bool.false_ne_true, fun h => absurd rfl h⟩, rfl⟩
  | append_singleton rows row ih =>
    obtain ⟨hseen, hobjects⟩ := ih
    rw [readColumns_concat, ColumnLoad.row_eq]
    dsimp only
    rw [List.filter_append, List.filter_append, hobjects]
    by_cases htable : row.table = t
    · subst htable
      have hcolumn : [row.object].filter (fun object => object.isOf row.table) = [row.object] :=
        List.filter_cons_of_pos (isOf_column.2 rfl)
      have hrow : [row].filter (fun other => decide (other.table = row.table)) = [row] :=
        List.filter_cons_of_pos (decide_eq_true rfl)
      rw [Function.update_self, hrow]
      refine ⟨⟨fun _ => List.concat_ne_nil _ _, fun _ => rfl⟩, ?_⟩
      rw [List.filter_append, hcolumn, tableObjects, tableObjects, if_neg (List.concat_ne_nil _ _)]
      by_cases hfirst : rows.filter (fun other => decide (other.table = row.table)) = []
      · -- The first row of the table brings the table, too.
        have hnew : ¬ (readColumns rows).seenTables row.table.key = true := fun h => hseen.1 h hfirst
        have htable : [row.table.object].filter (fun object => object.isOf row.table) = [row.table.object] :=
          List.filter_cons_of_pos (isOf_table.2 rfl)
        rw [if_pos hfirst, if_neg hnew, hfirst, htable]
        rfl
      · rw [if_neg hfirst, if_pos (hseen.2 hfirst), List.map_append]
        rfl
    · -- A row of another table leaves the objects of this one alone.
      have hother : ∀ parts : List Object, (∀ object ∈ parts, object = row.table.object ∨ object = row.object) →
          parts.filter (fun object => object.isOf t) = [] := by
        intro parts hparts
        rw [List.filter_eq_nil_iff]
        intro object hobject hof
        rcases hparts object hobject with rfl | rfl
        · exact htable (isOf_table.1 hof)
        · exact htable (isOf_column.1 hof)
      have hkey : t.key ≠ row.table.key := fun h => htable (key_inj.1 h).symm
      have hrow : [row].filter (fun other => decide (other.table = t)) = [] :=
        List.filter_cons_of_neg fun h => htable (of_decide_eq_true h)
      rw [Function.update_of_ne hkey, hrow, List.append_nil]
      refine ⟨hseen, ?_⟩
      rw [hother, List.append_nil]
      intro object hobject
      rcases List.mem_append.1 hobject with hmem | hmem
      · split_ifs at hmem
        · cases hmem
        · exact .inl (List.mem_singleton.1 hmem)
      · exact .inr (List.mem_singleton.1 hmem)

/-- Every object comes from a row. -/
theorem mem_readColumns {rows : List OrderedColumn} {object : Object} (h : object ∈ (readColumns rows).objects) :
    ∃ row ∈ rows, object.isOf row.table = true := by
  induction rows using List.reverseRecOn with
  | nil => cases h
  | append_singleton rows row ih =>
    rw [readColumns_concat, ColumnLoad.row_eq] at h
    rcases List.mem_append.1 h with hold | hnew
    · obtain ⟨other, hother, hof⟩ := ih hold
      exact ⟨other, List.mem_append_left _ hother, hof⟩
    · refine ⟨row, List.mem_append_right _ (List.mem_singleton_self row), ?_⟩
      -- What a row adds is its table or its column.
      rcases List.mem_append.1 hnew with hmem | hmem
      · split_ifs at hmem
        · cases hmem
        · rw [List.mem_singleton.1 hmem]
          exact isOf_table.2 rfl
      · rw [List.mem_singleton.1 hmem]
        exact isOf_column.2 rfl

/-! ## Keys -/

def readKeys (rows : List OrderedKey) : KeyLoad := rows.foldl (fun load row => load.row row.scanned) ⟨[], fun _ => none⟩

/-- The rows that have the constraint of the first one. -/
def ofFirst (rows : List OrderedKey) : List OrderedKey :=
  rows.filter fun row => rows.head?.map OrderedKey.constraint = some row.constraint

theorem readKeys_concat (rows : List OrderedKey) (row : OrderedKey) :
    readKeys (rows ++ [row]) = (readKeys rows).row row.scanned := List.foldl_concat _ _ _ _

/-- A row of the constraint that is chosen, or of a table that has none yet, is kept. -/
theorem KeyLoad.row_of_chosen {load : KeyLoad} {row : OrderedKey}
    (h : ∀ selected ∈ load.chosen row.table.key, selected = row.constraint) :
    load.row row.scanned =
      ⟨load.objects ++ [row.object], Function.update load.chosen row.table.key (some row.constraint)⟩ := by
  refine if_neg ?_
  rintro ⟨selected, hselected, hne⟩
  exact hne (h selected hselected)

theorem KeyLoad.row_of_other {load : KeyLoad} {row : OrderedKey} {selected : Text}
    (h : load.chosen row.table.key = some selected) (hne : selected ≠ row.constraint) :
    load.row row.scanned = load := if_pos ⟨selected, h, hne⟩

theorem ofFirst_cons (first : OrderedKey) (rest : List OrderedKey) :
    ofFirst (first :: rest) = (first :: rest).filter fun row => row.constraint = first.constraint := by
  refine List.filter_congr fun row _ => ?_
  rw [List.head?_cons, Option.map_some, decide_eq_decide, Option.some.injEq, eq_comm]

theorem ofFirst_concat {rows : List OrderedKey} {first : OrderedKey} (h : rows.head? = some first) (row : OrderedKey) :
    ofFirst (rows ++ [row]) = ofFirst rows ++ if first.constraint = row.constraint then [row] else [] := by
  have hne : rows ≠ [] := by
    rintro rfl
    cases h
  have hrow : [row].filter (fun other => (some first).map OrderedKey.constraint = some other.constraint) =
      if first.constraint = row.constraint then [row] else [] := by
    by_cases hsame : first.constraint = row.constraint
    · rw [if_pos hsame]
      exact List.filter_cons_of_pos (decide_eq_true (congrArg some hsame))
    · rw [if_neg hsame]
      exact List.filter_cons_of_neg fun hof => hsame (Option.some.inj (of_decide_eq_true hof))
  rw [ofFirst, ofFirst, List.head?_append_of_ne_nil _ hne, List.filter_append, h, hrow]

/-- What the loop chooses for a table, and keeps of it, comes from the rows of this table. -/
theorem readKeys_table (rows : List OrderedKey) (t : TableName) :
    (readKeys rows).chosen t.key = (rows.filter fun row => row.table = t).head?.map OrderedKey.constraint ∧
      (readKeys rows).objects.filter (fun object => object.isOf t) =
        (ofFirst (rows.filter fun row => row.table = t)).map OrderedKey.object := by
  -- The constraint that is chosen is that of the first row of the table, and its rows are kept.
  induction rows using List.reverseRecOn with
  | nil => exact ⟨rfl, rfl⟩
  | append_singleton rows row ih =>
    obtain ⟨hchosen, hobjects⟩ := ih
    rw [readKeys_concat, List.filter_append]
    by_cases htable : row.table = t
    · subst htable
      have hkey : [row.object].filter (fun object => object.isOf row.table) = [row.object] :=
        List.filter_cons_of_pos (isOf_key.2 rfl)
      have hrow : [row].filter (fun other => decide (other.table = row.table)) = [row] :=
        List.filter_cons_of_pos (decide_eq_true rfl)
      rw [hrow]
      cases hfirst : (rows.filter fun other => decide (other.table = row.table)).head? with
      | none =>
        -- This is the first row of the table.
        have hempty := List.head?_eq_none_iff.1 hfirst
        rw [hempty] at hchosen hobjects
        rw [KeyLoad.row_of_chosen fun selected hselected => by rw [hchosen] at hselected; cases hselected]
        dsimp only
        rw [Function.update_self, List.filter_append, hobjects, hkey, hempty]
        refine ⟨rfl, ?_⟩
        have hself : ofFirst [row] = [row] := List.filter_cons_of_pos (decide_eq_true rfl)
        rw [List.nil_append, hself]
        rfl
      | some first =>
        have hne : (rows.filter fun other => decide (other.table = row.table)) ≠ [] := by
          intro hempty
          rw [hempty] at hfirst
          cases hfirst
        rw [hfirst] at hchosen
        rw [List.head?_append_of_ne_nil _ hne, hfirst, ofFirst_concat hfirst]
        -- A later row counts if it belongs to the constraint of the first.
        by_cases hsame : first.constraint = row.constraint
        · have hall : ∀ selected ∈ (readKeys rows).chosen row.table.key, selected = row.constraint := by
            intro selected hselected
            rw [hchosen] at hselected
            exact (Option.some.inj hselected).symm.trans hsame
          rw [KeyLoad.row_of_chosen hall, if_pos hsame]
          dsimp only
          rw [Function.update_self, List.filter_append, hobjects, hkey, List.map_append]
          exact ⟨congrArg some hsame.symm, rfl⟩
        · rw [KeyLoad.row_of_other hchosen hsame, if_neg hsame, List.append_nil]
          exact ⟨hchosen, hobjects⟩
    · have hrow : [row].filter (fun other => decide (other.table = t)) = [] :=
        List.filter_cons_of_neg fun h => htable (of_decide_eq_true h)
      have hkey : t.key ≠ row.table.key := fun h => htable (key_inj.1 h).symm
      rw [hrow, List.append_nil]
      by_cases hall : ∀ selected ∈ (readKeys rows).chosen row.table.key, selected = row.constraint
      · have hother : [row.object].filter (fun object => object.isOf t) = [] :=
          List.filter_cons_of_neg fun h => htable (isOf_key.1 h)
        rw [KeyLoad.row_of_chosen hall]
        dsimp only
        rw [Function.update_of_ne hkey, List.filter_append, hother, List.append_nil]
        exact ⟨hchosen, hobjects⟩
      · simp only [not_forall] at hall
        obtain ⟨selected, hselected, hne⟩ := hall
        rw [KeyLoad.row_of_other hselected hne]
        exact ⟨hchosen, hobjects⟩

theorem mem_readKeys {rows : List OrderedKey} {object : Object} (h : object ∈ (readKeys rows).objects) :
    ∃ row ∈ rows, object.isOf row.table = true := by
  induction rows using List.reverseRecOn with
  | nil => cases h
  | append_singleton rows row ih =>
    have hold : object ∈ (readKeys rows).objects → ∃ other ∈ rows ++ [row], object.isOf other.table = true := by
      intro hmem
      obtain ⟨other, hother, hof⟩ := ih hmem
      exact ⟨other, List.mem_append_left _ hother, hof⟩
    rw [readKeys_concat] at h
    -- A row adds its own object or none.
    by_cases hall : ∀ selected ∈ (readKeys rows).chosen row.table.key, selected = row.constraint
    · rw [KeyLoad.row_of_chosen hall] at h
      rcases List.mem_append.1 h with hmem | hmem
      · exact hold hmem
      · rw [List.mem_singleton.1 hmem]
        exact ⟨row, List.mem_append_right _ (List.mem_singleton_self row), isOf_key.2 rfl⟩
    · simp only [not_forall] at hall
      obtain ⟨selected, hselected, hne⟩ := hall
      rw [KeyLoad.row_of_other hselected hne] at h
      exact hold h

/-! ## Rows in the order of the queries -/

section

variable {dialect : Dialect} {collation : Collation}

theorem Collation.refl (collation : Collation) (a : Text) : collation.le a a := (collation.total a a).elim id id

/-- Behind equal names the order is the one of what comes behind. -/
theorem Collation.behind {a b : Text} {behind : Prop} (h : collation.andThen a b behind) (hsame : a = b) : behind :=
  h.2 (hsame ▸ collation.refl a)

theorem ordinal_le_of_before {a b : OrderedColumn} (h : a.Before collation b) (hsame : a.table = b.table) :
    a.column.ordinal ≤ b.column.ordinal := by
  have hschema := collation.behind h (by rw [hsame])
  have hname := collation.behind hschema (by rw [hsame])
  exact collation.behind hname (by rw [hsame])

theorem ColumnStream.filter_rows (stream : ColumnStream collation) {t : TableColumns} (ht : t ∈ stream.tables) :
    stream.rows.filter (fun row => row.table = t.table) = t.rows := by
  refine filter_eq_of_positions (fun row => row.column.ordinal) stream.perm ?_ ?_ ?_
  · refine filter_flatMap_name stream.tables_nodup ?_ ht
    intro other _ row hrow
    obtain ⟨column, -, rfl⟩ := List.mem_map.1 hrow
    rfl
  · exact List.pairwise_map.2 t.increasing
  · rw [List.pairwise_filter]
    refine stream.ordered.imp fun hbefore ha hb => ordinal_le_of_before hbefore ?_
    rw [of_decide_eq_true ha, of_decide_eq_true hb]

/-- What is read of the rows is each table in front of its columns. -/
theorem ColumnStream.listed (stream : ColumnStream collation) : stream.Listed (readColumns stream.rows).objects where
  tables t ht := by
    have hne : t.rows ≠ [] := fun h => t.nonempty (List.map_eq_nil_iff.1 h)
    rw [(readColumns_table stream.rows t.table).2, stream.filter_rows ht, tableObjects, if_neg hne]
  others object hobject := by
    obtain ⟨row, hrow, hof⟩ := mem_readColumns hobject
    obtain ⟨t, ht, hmem⟩ := List.mem_flatMap.1 (stream.perm.mem_iff.1 hrow)
    obtain ⟨column, -, rfl⟩ := List.mem_map.1 hmem
    exact ⟨t, ht, hof⟩

theorem key_of_before {a b : OrderedKey} (h : a.Before collation dialect b) (hsame : a.table = b.table) :
    a.type.rank ≤ b.type.rank ∧
      (b.type.rank ≤ a.type.rank →
        collation.andThen a.constraint b.constraint (a.column.ordinal ≤ b.column.ordinal)) := by
  have hin : a.BeforeIn collation b := by
    cases dialect with
    | mysql => exact h
    | postgres => exact collation.behind h (by rw [hsame])
  have hname := collation.behind hin (by rw [hsame])
  exact collation.behind hname (by rw [hsame])

theorem Constraint.mem_rows {c : Constraint} {row : OrderedKey} (h : row ∈ c.rows) :
    row.table = c.table ∧ row.constraint = c.name ∧ row.type = c.type := by
  obtain ⟨column, -, rfl⟩ := List.mem_map.1 h
  exact ⟨rfl, rfl, rfl⟩

namespace KeyStream

variable (stream : KeyStream dialect collation)

theorem mem_rows {row : OrderedKey} : row ∈ stream.rows ↔ ∃ c ∈ stream.constraints, row ∈ c.rows := by
  rw [stream.perm.mem_iff, List.mem_flatMap]

/-- The rows of a constraint stand in order, whatever stands between them. -/
theorem filter_rows {c : Constraint} (hc : c ∈ stream.constraints) :
    stream.rows.filter (fun row => (row.table, row.constraint) = (c.table, c.name)) = c.rows := by
  have hname : ∀ other ∈ stream.constraints, ∀ row ∈ other.rows,
      (row.table, row.constraint) = (other.table, other.name) := by
    intro other _ row hrow
    obtain ⟨htable, hconstraint, -⟩ := Constraint.mem_rows hrow
    rw [htable, hconstraint]
  have hall : (stream.constraints.flatMap Constraint.rows).filter
      (fun row => (row.table, row.constraint) = (c.table, c.name)) = c.rows :=
    filter_flatMap_name stream.names_nodup hname hc
  -- The rows of a constraint come in the order of their positions, in the catalogue and in the answer.
  refine filter_eq_of_positions (fun row => row.column.ordinal) stream.perm hall ?_ ?_
  · exact List.pairwise_map.2 c.increasing
  · refine (stream.ordered.filter _).imp_of_mem ?_
    intro a b ha hb hbefore
    have hmem : ∀ row,
        row ∈ stream.rows.filter (fun row => (row.table, row.constraint) = (c.table, c.name)) → row ∈ c.rows := by
      intro row hrow
      rw [← hall]
      exact (stream.perm.filter _).mem_iff.1 hrow
    obtain ⟨htable, hconstraint, htype⟩ := Constraint.mem_rows (hmem a ha)
    obtain ⟨htable', hconstraint', htype'⟩ := Constraint.mem_rows (hmem b hb)
    have hkey := (key_of_before hbefore (htable.trans htable'.symm)).2 (by rw [htype, htype'])
    exact collation.behind hkey (hconstraint.trans hconstraint'.symm)

/-- The constraint of the first row of a table is its key. -/
theorem isKey_first {first : OrderedKey} {rest : List OrderedKey} {c : Constraint} (hc : c ∈ stream.constraints)
    (hrow : first ∈ c.rows) (hmine : stream.rows.filter (fun row => row.table = c.table) = first :: rest) :
    stream.IsKey c.table c := by
  have hordered : (first :: rest).Pairwise (OrderedKey.Before collation dialect) := by
    rw [← hmine]
    exact stream.ordered.filter _
  obtain ⟨hfirst, hname, htype⟩ := Constraint.mem_rows hrow
  refine ⟨hc, rfl, fun other hother htable => ?_⟩
  obtain ⟨column, hcolumn⟩ := List.exists_mem_of_ne_nil _ other.nonempty
  have hmem : (⟨other.table, other.name, other.type, column⟩ : OrderedKey) ∈ first :: rest := by
    rw [← hmine, List.mem_filter]
    exact ⟨stream.mem_rows.2 ⟨other, hother, List.mem_map_of_mem hcolumn⟩, decide_eq_true htable⟩
  -- No row of the table comes in front of the first, so no constraint ranks in front of its own.
  have hle : c.type.rank ≤ other.type.rank ∧ (other.type.rank ≤ c.type.rank → collation.le c.name other.name) := by
    rcases List.mem_cons.1 hmem with hsame | hlater
    · rw [← hname, ← htype, ← hsame]
      exact ⟨le_refl _, fun _ => collation.refl _⟩
    · have hbefore := (List.pairwise_cons.1 hordered).1 _ hlater
      obtain ⟨hrank, hbehind⟩ := key_of_before hbefore (hfirst.trans htable.symm)
      rw [htype] at hrank hbehind
      rw [hname] at hbehind
      exact ⟨hrank, fun h => (hbehind h).1⟩
  -- A unique constraint is the key only where the table has no primary one.
  cases hkind : c.type with
  | primaryKey => exact .inl rfl
  | unique =>
    rw [hkind] at hle
    cases hkind' : other.type with
    | primaryKey =>
      rw [hkind'] at hle
      exact absurd hle.1 (by decide)
    | unique =>
      rw [hkind'] at hle
      exact .inr ⟨rfl, hle.2 (le_refl _)⟩

/-- What is read of the rows is the key of each table. -/
theorem listed : stream.Listed (readKeys stream.rows).objects where
  keys c hc := by
    obtain ⟨column, hcolumn⟩ := List.exists_mem_of_ne_nil _ c.nonempty
    have hmem : (⟨c.table, c.name, c.type, column⟩ : OrderedKey) ∈
        stream.rows.filter (fun row => row.table = c.table) :=
      List.mem_filter.2 ⟨stream.mem_rows.2 ⟨c, hc, List.mem_map_of_mem hcolumn⟩, decide_eq_true rfl⟩
    cases hmine : stream.rows.filter (fun row => row.table = c.table) with
    | nil =>
      rw [hmine] at hmem
      cases hmem
    | cons first rest =>
      have hfirst : first ∈ stream.rows.filter (fun row => row.table = c.table) := by
        rw [hmine]
        exact List.mem_cons_self
      obtain ⟨hrows, htable⟩ := List.mem_filter.1 hfirst
      obtain ⟨key, hkey, hrow⟩ := stream.mem_rows.1 hrows
      obtain ⟨hkeyTable, hname, -⟩ := Constraint.mem_rows hrow
      have hsame : key.table = c.table := hkeyTable.symm.trans (of_decide_eq_true htable)
      refine ⟨key, hsame ▸ stream.isKey_first hkey hrow (hsame ▸ hmine), ?_⟩
      have hkept : ofFirst (first :: rest) =
          stream.rows.filter (fun row => (row.table, row.constraint) = (key.table, key.name)) := by
        rw [ofFirst_cons, ← hmine, List.filter_filter]
        refine List.filter_congr fun row _ => ?_
        rw [hname, hsame, ← Bool.decide_and, decide_eq_decide, Prod.mk.injEq, and_comm]
      rw [(readKeys_table stream.rows c.table).2, hmine, hkept, stream.filter_rows hkey]
  others object hobject := by
    obtain ⟨row, hrow, hof⟩ := mem_readKeys hobject
    obtain ⟨c, hc, hmem⟩ := stream.mem_rows.1 hrow
    exact ⟨c, hc, (Constraint.mem_rows hmem).1 ▸ hof⟩

/-- The loops of both drivers are one. -/
theorem loaded : loadKeyMetadata stream.answer = .ok (readKeys stream.rows).objects := by
  cases dialect with
  | mysql =>
    -- The rows of MySQL have `def` for their catalog, as the server writes it into each.
    have hsame : ∀ load : KeyLoad, ∀ row ∈ stream.rows, load.row row.mysql.scanned = load.row row.scanned := by
      intro load row hrow
      obtain ⟨c, hc, hmem⟩ := stream.mem_rows.1 hrow
      have hcatalog : row.table.catalog.val = "def".toList :=
        (congrArg (fun t : TableName => t.catalog.val) (Constraint.mem_rows hmem).1).trans
          (stream.catalog_def rfl c hc)
      rw [OrderedKey.scanned, hcatalog]
      rfl
    rw [answer, loadKeyMetadata, loadStream, readStream_ofList, List.foldl_map, List.foldl_ext _ _ _ hsame]
    rfl
  | postgres =>
    rw [answer, loadKeyMetadata, loadStream, readStream_ofList, List.foldl_map]
    rfl

end KeyStream

theorem ColumnStream.loaded (stream : ColumnStream collation) :
    loadColumnMetadata stream.answer = .ok (readColumns stream.rows).objects := by
  rw [answer, loadColumnMetadata, loadStream, readStream_ofList, List.foldl_map]
  rfl

/-- **Whatever the order of the server is, each table stands once in front of its columns, and the key of each table is
its primary key or, without one, its first unique constraint.** -/
theorem metadata_grouped (columns : ColumnStream collation) (keys : KeyStream dialect collation) :
    ∃ objects keyObjects, loadColumnMetadata columns.answer = .ok objects ∧ columns.Listed objects ∧
      loadKeyMetadata keys.answer = .ok keyObjects ∧ keys.Listed keyObjects ∧
      metadataSQL columns.answer keys.answer = .ok (objects ++ keyObjects) := by
  refine ⟨_, _, columns.loaded, columns.listed, keys.loaded, keys.listed, ?_⟩
  rw [metadataSQL, columns.loaded, keys.loaded]
  rfl

end

/-! ## Two tables that a server takes for one name -/

/-- A collation to which upper and lower case are the same. -/
def ignoringCase : Collation :=
  ⟨fun a b => ¬ List.Lex (· < ·) (toLower b) (toLower a), fun _ _ => List.le_total _ _,
    fun _ _ _ => List.le_trans⟩

instance : DecidableRel ignoringCase.le := fun a b =>
  inferInstanceAs (Decidable (¬ List.Lex (· < ·) (toLower b) (toLower a)))

def shopTable (name : Text) (hname : Char.ofNat 0 ∉ name) : TableName :=
  ⟨⟨"def".toList, by decide⟩, ⟨"shop".toList, by decide⟩, ⟨name, hname⟩⟩

def upperItem : TableColumns where
  table := shopTable "Item".toList (by decide)
  columns := [⟨"id".toList, "int".toList, "NO".toList, 1⟩, ⟨"note".toList, "text".toList, "YES".toList, 2⟩]
  nonempty := by decide
  increasing := by decide

def lowerItem : TableColumns where
  table := shopTable "item".toList (by decide)
  columns := [⟨"sku".toList, "int".toList, "NO".toList, 1⟩, ⟨"size".toList, "int".toList, "NO".toList, 2⟩]
  nonempty := by decide
  increasing := by decide

/-- The rows of the two tables alternate. -/
def shopColumns : ColumnStream ignoringCase where
  tables := [upperItem, lowerItem]
  tables_nodup := by decide
  rows := [⟨upperItem.table, upperItem.columns[0]⟩, ⟨lowerItem.table, lowerItem.columns[0]⟩,
    ⟨upperItem.table, upperItem.columns[1]⟩, ⟨lowerItem.table, lowerItem.columns[1]⟩]
  perm := by decide
  ordered := by
    unfold OrderedColumn.Before
    decide

def upperPrimary : Constraint :=
  ⟨upperItem.table, "PRIMARY".toList, .primaryKey, [⟨"id".toList, 1⟩], by decide, by decide⟩

def upperUnique : Constraint :=
  ⟨upperItem.table, "by_note".toList, .unique, [⟨"note".toList, 1⟩], by decide, by decide⟩

def lowerPrimary : Constraint :=
  ⟨lowerItem.table, "PRIMARY".toList, .primaryKey, [⟨"sku".toList, 1⟩, ⟨"size".toList, 2⟩], by decide, by decide⟩

/-- A primary key stands inside the other one. -/
def shopKeys : KeyStream .mysql ignoringCase where
  constraints := [upperPrimary, upperUnique, lowerPrimary]
  names_nodup := by decide
  one_primary := by decide
  catalog_def := by decide
  rows := [⟨lowerItem.table, "PRIMARY".toList, .primaryKey, ⟨"sku".toList, 1⟩⟩,
    ⟨upperItem.table, "PRIMARY".toList, .primaryKey, ⟨"id".toList, 1⟩⟩,
    ⟨lowerItem.table, "PRIMARY".toList, .primaryKey, ⟨"size".toList, 2⟩⟩,
    ⟨upperItem.table, "by_note".toList, .unique, ⟨"note".toList, 1⟩⟩]
  perm := by decide
  ordered := by
    show List.Pairwise (OrderedKey.BeforeIn ignoringCase) _
    unfold OrderedKey.BeforeIn
    decide

theorem metadata_grouped_shop :
    (∃ objects keyObjects, loadColumnMetadata shopColumns.answer = .ok objects ∧ shopColumns.Listed objects ∧
      loadKeyMetadata shopKeys.answer = .ok keyObjects ∧ shopKeys.Listed keyObjects ∧
      metadataSQL shopColumns.answer shopKeys.answer = .ok (objects ++ keyObjects)) ∧
    (metadataSQL shopColumns.answer shopKeys.answer).map (List.map Object.name) =
      .ok (["Item", "id", "item", "sku", "note", "size", "sku", "id", "size"].map String.toList) :=
  ⟨metadata_grouped shopColumns shopKeys, by rfl⟩

end Workbench.Schema
