import Workbench.Lib.Grouping
import Workbench.Schema.Model

/-!
# The foreign keys of a table as they are loaded

`loadForeignKeys` of `api/internal/db/catalog.go` with its query over the views of PostgreSQL's `information_schema`.
The query joins the views by the name and the schema of a constraint. The names of constraints are unique in a table
only, and the view of the referenced columns has no position, so a foreign key comes out as it is declared only if it
has one column and its name is free in the schema (`loadForeignKeys_iff`).
-/

set_option autoImplicit false

namespace Workbench.Schema

open Workbench.Lib

/-! ## The catalog -/

inductive ConstraintBody where
  | key (primary : Bool) (columns : List Text)
  | check (used : List Text)
  | foreignKey (pairs : List (Text × Text)) (refSchema refTable deleteRule updateRule : Text)
  deriving DecidableEq

/-- A constraint of a table. -/
structure DeclaredConstraint where
  schema : Text
  table : Text
  name : Text
  body : ConstraintBody
  deriving DecidableEq

namespace ConstraintBody

/-- The columns of the table that a key is made of. -/
def localColumns : ConstraintBody → List Text
  | key _ columns => columns
  | check _ => []
  | foreignKey pairs _ _ _ _ => pairs.map Prod.fst

end ConstraintBody

/-- The constraints of a database. -/
structure ConstraintCatalog where
  constraints : List DeclaredConstraint
  distinct : (constraints.map fun c => (c.schema, c.table, c.name)).Nodup
  keys_nonempty : ∀ c ∈ constraints, c.body.localColumns = [] → ∃ used, c.body = .check used

/-! ## The views -/

structure TableConstraint where
  constraintSchema : Text
  constraintName : Text
  tableSchema : Text
  tableName : Text
  constraintType : Text
  deriving DecidableEq

structure KeyColumnUsage where
  constraintSchema : Text
  constraintName : Text
  columnName : Text
  ordinalPosition : Nat
  deriving DecidableEq

structure ConstraintColumnUsage where
  constraintSchema : Text
  constraintName : Text
  tableSchema : Text
  tableName : Text
  columnName : Text
  deriving DecidableEq

structure ReferentialConstraint where
  constraintSchema : Text
  constraintName : Text
  deleteRule : Text
  updateRule : Text
  deriving DecidableEq

def foreignKeyType : Text := "FOREIGN KEY".toList

namespace DeclaredConstraint

variable (c : DeclaredConstraint)

def constraintType : Text :=
  match c.body with
  | .key true _ => "PRIMARY KEY".toList
  | .key false _ => "UNIQUE".toList
  | .check _ => "CHECK".toList
  | .foreignKey _ _ _ _ _ => foreignKeyType

def tableConstraint : TableConstraint := ⟨c.schema, c.name, c.schema, c.table, c.constraintType⟩

/-- One row a local column. -/
def keyColumnUsage : List KeyColumnUsage :=
  c.body.localColumns.zipIdx.map fun column => ⟨c.schema, c.name, column.1, column.2 + 1⟩

/-- One row a referenced column, or a column that a key or a check has. -/
def constraintColumnUsage : List ConstraintColumnUsage :=
  match c.body with
  | .key _ columns => columns.map fun column => ⟨c.schema, c.name, c.schema, c.table, column⟩
  | .check used => used.map fun column => ⟨c.schema, c.name, c.schema, c.table, column⟩
  | .foreignKey pairs refSchema refTable _ _ => pairs.map fun pair => ⟨c.schema, c.name, refSchema, refTable, pair.2⟩

def referentialConstraint : List ReferentialConstraint :=
  match c.body with
  | .foreignKey _ _ _ deleteRule updateRule => [⟨c.schema, c.name, deleteRule, updateRule⟩]
  | _ => []

end DeclaredConstraint

/-! ## The query -/

/-- A row of the query. -/
structure ForeignKeyRow where
  constraintName : Text
  columnName : Text
  refSchema : Text
  refTable : Text
  refColumn : Text
  deleteRule : Text
  updateRule : Text
  deriving DecidableEq

/-- A row with the position by which the query orders. -/
structure JoinedRow where
  ordinalPosition : Nat
  row : ForeignKeyRow
  deriving DecidableEq

namespace ConstraintCatalog

variable (catalog : ConstraintCatalog)

/-- The joins for a constraint of the table. -/
def joinedWith (tc : TableConstraint) : List JoinedRow :=
  let usages := (catalog.constraints.flatMap DeclaredConstraint.keyColumnUsage).filter fun kcu =>
    tc.constraintName = kcu.constraintName ∧ tc.constraintSchema = kcu.constraintSchema
  let referenced := (catalog.constraints.flatMap DeclaredConstraint.constraintColumnUsage).filter fun ccu =>
    ccu.constraintName = tc.constraintName ∧ ccu.constraintSchema = tc.constraintSchema
  let rules := (catalog.constraints.flatMap DeclaredConstraint.referentialConstraint).filter fun rc =>
    rc.constraintName = tc.constraintName ∧ rc.constraintSchema = tc.constraintSchema
  usages.flatMap fun kcu => referenced.flatMap fun ccu => rules.map fun rc =>
    ⟨kcu.ordinalPosition, tc.constraintName, kcu.columnName, ccu.tableSchema, ccu.tableName, ccu.columnName,
      rc.deleteRule, rc.updateRule⟩

def tableConstraints (schemaName tableName : Text) : List TableConstraint :=
  (catalog.constraints.map DeclaredConstraint.tableConstraint).filter fun tc =>
    tc.constraintType = foreignKeyType ∧ tc.tableSchema = schemaName ∧ tc.tableName = tableName

def joined (schemaName tableName : Text) : List JoinedRow :=
  (catalog.tableConstraints schemaName tableName).flatMap catalog.joinedWith

end ConstraintCatalog

/-- The order of the query. -/
def JoinedRow.before (a b : JoinedRow) : Prop :=
  a.row.constraintName < b.row.constraintName ∨
    (a.row.constraintName = b.row.constraintName ∧ a.ordinalPosition ≤ b.ordinalPosition)

instance : DecidableRel JoinedRow.before := fun a b =>
  inferInstanceAs (Decidable (a.row.constraintName < b.row.constraintName ∨
    (a.row.constraintName = b.row.constraintName ∧ a.ordinalPosition ≤ b.ordinalPosition)))

/-- The rows that the server may answer: those of the join, in any order that the query's order leaves open. -/
def ConstraintCatalog.Answers (catalog : ConstraintCatalog) (schemaName tableName : Text) (rows : List ForeignKeyRow) :
    Prop :=
  ∃ sorted : List JoinedRow, sorted.Perm (catalog.joined schemaName tableName) ∧ sorted.Pairwise JoinedRow.before ∧
    rows = sorted.map JoinedRow.row

/-! ## The loader -/

/-- What `loadForeignKeys` keeps for a name. -/
def foreignKeyGathering : Groups.Gathering ForeignKeyRow Text ForeignKey where
  key := ForeignKeyRow.constraintName
  fresh := fun row => ⟨row.constraintName, [], row.refSchema, row.refTable, [], row.deleteRule, row.updateRule⟩
  put := fun key row =>
    { key with columns := key.columns ++ [row.columnName], refColumns := key.refColumns ++ [row.refColumn] }

def loadForeignKeys (rows : List ForeignKeyRow) : List ForeignKey := (Groups.run foreignKeyGathering rows).values

/-! ## What the loader makes of the rows of a name -/

theorem foldl_put (key : ForeignKey) (rows : List ForeignKeyRow) : rows.foldl foreignKeyGathering.put key =
    { key with
      columns := key.columns ++ rows.map ForeignKeyRow.columnName
      refColumns := key.refColumns ++ rows.map ForeignKeyRow.refColumn } := by
  induction rows generalizing key with
  | nil => simp
  | cons row rest ih =>
    rw [List.foldl_cons, ih]
    simp [foreignKeyGathering]

/-- A foreign key that is loaded has the columns of its rows. -/
theorem exists_loadForeignKeys {rows : List ForeignKeyRow} {name : Text} {p : List Text → List Text → Prop}
    (hrows : (rows.filter fun row => row.constraintName = name) ≠ []) :
    (∃ key ∈ loadForeignKeys rows, key.name = name ∧ p key.columns key.refColumns) ↔
      p ((rows.filter fun row => row.constraintName = name).map ForeignKeyRow.columnName)
        ((rows.filter fun row => row.constraintName = name).map ForeignKeyRow.refColumn) := by
  have hgathered : ∀ k key, Groups.gathered foreignKeyGathering (rows.filter fun row => row.constraintName = k) =
      some key → key.name = k ∧
        key.columns = (rows.filter fun row => row.constraintName = k).map ForeignKeyRow.columnName ∧
        key.refColumns = (rows.filter fun row => row.constraintName = k).map ForeignKeyRow.refColumn := by
    intro k key hkey
    cases hfilter : rows.filter fun row => row.constraintName = k with
    | nil =>
      rw [hfilter] at hkey
      cases hkey
    | cons row rest =>
      have hname : row.constraintName = k := by
        have hmem : row ∈ rows.filter fun row => row.constraintName = k := by
          rw [hfilter]
          exact List.mem_cons_self
        simpa using (List.mem_filter.1 hmem).2
      rw [hfilter, Groups.gathered, foldl_put] at hkey
      cases hkey
      exact ⟨hname, rfl, rfl⟩
  constructor
  · rintro ⟨key, hmem, hname, hp⟩
    obtain ⟨k, hk⟩ := (Groups.mem_values_run foreignKeyGathering).1 hmem
    obtain ⟨hkname, hcolumns, hrefColumns⟩ := hgathered k key hk
    rw [← hname, hkname, ← hcolumns, ← hrefColumns]
    exact hp
  · intro hp
    obtain ⟨key, hkey⟩ := Option.ne_none_iff_exists'.1
      (mt (Groups.gathered_eq_none foreignKeyGathering).1 hrows)
    obtain ⟨hname, hcolumns, hrefColumns⟩ := hgathered name key hkey
    refine ⟨key, (Groups.mem_values_run foreignKeyGathering).2 ⟨name, hkey⟩, hname, ?_⟩
    rw [hcolumns, hrefColumns]
    exact hp

/-! ## The rows of a foreign key -/

namespace ConstraintCatalog

variable (catalog : ConstraintCatalog) {fk : DeclaredConstraint}

/-- The constraints of the schema that have the name. -/
def namesakes (fk : DeclaredConstraint) : List DeclaredConstraint :=
  catalog.constraints.filter fun c => c.name = fk.name ∧ c.schema = fk.schema

theorem nodup : catalog.constraints.Nodup := List.Nodup.of_map _ catalog.distinct

theorem joinedWith_eq (fk : DeclaredConstraint) : catalog.joinedWith fk.tableConstraint =
    ((catalog.namesakes fk).flatMap DeclaredConstraint.keyColumnUsage).flatMap fun kcu =>
      ((catalog.namesakes fk).flatMap DeclaredConstraint.constraintColumnUsage).flatMap fun ccu =>
        ((catalog.namesakes fk).flatMap DeclaredConstraint.referentialConstraint).map fun rc =>
          ⟨kcu.ordinalPosition, fk.name, kcu.columnName, ccu.tableSchema, ccu.tableName, ccu.columnName, rc.deleteRule,
            rc.updateRule⟩ := by
  have husages : (catalog.constraints.flatMap DeclaredConstraint.keyColumnUsage).filter (fun kcu =>
      fk.name = kcu.constraintName ∧ fk.schema = kcu.constraintSchema) =
      (catalog.namesakes fk).flatMap DeclaredConstraint.keyColumnUsage := by
    apply filter_flatMap_of_eq
    intro c hc usage husage
    obtain ⟨column, -, rfl⟩ := List.mem_map.1 husage
    exact decide_eq_decide.2 ⟨fun h => ⟨h.1.symm, h.2.symm⟩, fun h => ⟨h.1.symm, h.2.symm⟩⟩
  have hreferenced : (catalog.constraints.flatMap DeclaredConstraint.constraintColumnUsage).filter (fun ccu =>
      ccu.constraintName = fk.name ∧ ccu.constraintSchema = fk.schema) =
      (catalog.namesakes fk).flatMap DeclaredConstraint.constraintColumnUsage := by
    apply filter_flatMap_of_eq
    intro c hc usage husage
    rw [DeclaredConstraint.constraintColumnUsage] at husage
    split at husage
    all_goals
      obtain ⟨column, -, rfl⟩ := List.mem_map.1 husage
      rfl
  have hrules : (catalog.constraints.flatMap DeclaredConstraint.referentialConstraint).filter (fun rc =>
      rc.constraintName = fk.name ∧ rc.constraintSchema = fk.schema) =
      (catalog.namesakes fk).flatMap DeclaredConstraint.referentialConstraint := by
    apply filter_flatMap_of_eq
    intro c hc rule hrule
    rw [DeclaredConstraint.referentialConstraint] at hrule
    split at hrule
    · rw [List.mem_singleton.1 hrule]
    · cases hrule
  rw [← husages, ← hreferenced, ← hrules]
  rfl

variable {catalog}

/-- The name of a constraint is unique in its table. -/
theorem tableConstraints_filter (hfk : fk ∈ catalog.constraints) (htype : fk.constraintType = foreignKeyType) :
    (catalog.tableConstraints fk.schema fk.table).filter (fun tc => tc.constraintName = fk.name) =
      [fk.tableConstraint] := by
  rw [tableConstraints, List.filter_filter, List.filter_map]
  refine congrArg (List.map DeclaredConstraint.tableConstraint) (filter_alone catalog.nodup hfk ?_)
  intro c hc
  simp only [Function.comp_apply, Bool.and_eq_true, decide_eq_true_eq]
  constructor
  · rintro ⟨hname, -, hschema, htable⟩
    exact List.inj_on_of_nodup_map catalog.distinct hc hfk (by
      rw [show c.schema = fk.schema from hschema, show c.table = fk.table from htable,
        show c.name = fk.name from hname])
  · rintro rfl
    exact ⟨rfl, htype, rfl, rfl⟩

theorem joined_filter (hfk : fk ∈ catalog.constraints) (htype : fk.constraintType = foreignKeyType) :
    (catalog.joined fk.schema fk.table).filter (fun joined => joined.row.constraintName = fk.name) =
      catalog.joinedWith fk.tableConstraint := by
  have hname : ∀ tc ∈ catalog.tableConstraints fk.schema fk.table, ∀ joined ∈ catalog.joinedWith tc,
      decide (joined.row.constraintName = fk.name) = decide (tc.constraintName = fk.name) := by
    intro tc _ joined hjoined
    simp only [joinedWith, List.mem_flatMap, List.mem_map] at hjoined
    obtain ⟨kcu, -, ccu, -, rc, -, rfl⟩ := hjoined
    rfl
  rw [ConstraintCatalog.joined, filter_flatMap_of_eq hname, tableConstraints_filter hfk htype, List.flatMap_singleton]

/-- The rows of the answer for a foreign key. -/
theorem Answers.filter_perm {rows : List ForeignKeyRow} (h : catalog.Answers fk.schema fk.table rows)
    (hfk : fk ∈ catalog.constraints) (htype : fk.constraintType = foreignKeyType) :
    (rows.filter fun row => row.constraintName = fk.name).Perm
      ((catalog.joinedWith fk.tableConstraint).map JoinedRow.row) := by
  obtain ⟨sorted, hperm, -, rfl⟩ := h
  rw [← joined_filter hfk htype, List.filter_map]
  exact (hperm.filter _).map JoinedRow.row

theorem length_joinedWith (fk : DeclaredConstraint) : (catalog.joinedWith fk.tableConstraint).length =
    ((catalog.namesakes fk).flatMap DeclaredConstraint.keyColumnUsage).length *
      (((catalog.namesakes fk).flatMap DeclaredConstraint.constraintColumnUsage).length *
        ((catalog.namesakes fk).flatMap DeclaredConstraint.referentialConstraint).length) := by
  rw [joinedWith_eq]
  simp [List.length_flatMap]

theorem mem_namesakes {c : DeclaredConstraint} :
    c ∈ catalog.namesakes fk ↔ c ∈ catalog.constraints ∧ c.name = fk.name ∧ c.schema = fk.schema := by
  rw [namesakes, List.mem_filter, decide_eq_true_eq]

end ConstraintCatalog

section

variable {catalog : ConstraintCatalog} {fk : DeclaredConstraint} {pairs : List (Text × Text)}
  {refSchema refTable deleteRule updateRule : Text}

/-- No other constraint of the schema has the name, save a check that uses no column. -/
def ConstraintCatalog.FreeName (catalog : ConstraintCatalog) (fk : DeclaredConstraint) : Prop :=
  ∀ other ∈ catalog.constraints, other ≠ fk → other.name = fk.name → other.schema = fk.schema →
    other.body = .check []

/-- A constraint that no view but one has is a check without columns. -/
theorem body_eq_check {c : DeclaredConstraint} (hc : c ∈ catalog.constraints)
    (husage : c.keyColumnUsage = []) (hreferenced : c.constraintColumnUsage = []) : c.body = .check [] := by
  have hlocal : c.body.localColumns = [] := by
    simpa [DeclaredConstraint.keyColumnUsage] using husage
  obtain ⟨used, hbody⟩ := catalog.keys_nonempty c hc hlocal
  rw [DeclaredConstraint.constraintColumnUsage, hbody] at hreferenced
  rw [hbody, List.map_eq_nil_iff.1 hreferenced]

theorem mem_namesakes_self (hfk : fk ∈ catalog.constraints) : fk ∈ catalog.namesakes fk :=
  ConstraintCatalog.mem_namesakes.2 ⟨hfk, rfl, rfl⟩

theorem length_view_le {β : Type} (view : DeclaredConstraint → List β) (hfk : fk ∈ catalog.constraints) :
    (view fk).length ≤ ((catalog.namesakes fk).flatMap view).length :=
  (List.sublist_flatten_of_mem (List.mem_map_of_mem (mem_namesakes_self hfk))).length_le

theorem length_keyColumnUsage (hbody : fk.body = .foreignKey pairs refSchema refTable deleteRule updateRule) :
    fk.keyColumnUsage.length = pairs.length := by
  simp [DeclaredConstraint.keyColumnUsage, hbody, ConstraintBody.localColumns]

theorem length_constraintColumnUsage
    (hbody : fk.body = .foreignKey pairs refSchema refTable deleteRule updateRule) :
    fk.constraintColumnUsage.length = pairs.length := by
  simp [DeclaredConstraint.constraintColumnUsage, hbody]

theorem length_referentialConstraint
    (hbody : fk.body = .foreignKey pairs refSchema refTable deleteRule updateRule) :
    fk.referentialConstraint.length = 1 := by
  simp [DeclaredConstraint.referentialConstraint, hbody]

theorem length_pairs_pos (hfk : fk ∈ catalog.constraints)
    (hbody : fk.body = .foreignKey pairs refSchema refTable deleteRule updateRule) : 0 < pairs.length := by
  rw [List.length_pos_iff]
  rintro rfl
  obtain ⟨used, hcheck⟩ := catalog.keys_nonempty fk hfk (by rw [hbody]; rfl)
  rw [hbody] at hcheck
  cases hcheck

/-- Three factors of which two are as large as the product. -/
theorem eq_one_of_mul_eq {n k c r : Nat} (hn : 0 < n) (hk : n ≤ k) (hc : n ≤ c) (hr : 1 ≤ r) (h : k * (c * r) = n) :
    n = 1 ∧ k = 1 ∧ c = 1 := by
  have hcr : n ≤ c * r := hc.trans (Nat.le_mul_of_pos_right c hr)
  have hsquare : n * n ≤ n * 1 := by
    calc n * n ≤ k * (c * r) := Nat.mul_le_mul hk hcr
      _ = n * 1 := by rw [h, Nat.mul_one]
  have hone : n = 1 := by
    have hle := Nat.le_of_mul_le_mul_left hsquare hn
    omega
  subst hone
  obtain ⟨hk1, hcr1⟩ := mul_eq_one.1 h
  exact ⟨rfl, hk1, (mul_eq_one.1 hcr1).1⟩

/-- With as many rows as pairs there is one of each. -/
theorem freeName_of_length (hfk : fk ∈ catalog.constraints)
    (hbody : fk.body = .foreignKey pairs refSchema refTable deleteRule updateRule)
    (hlength : (catalog.joinedWith fk.tableConstraint).length = pairs.length) :
    pairs.length = 1 ∧ catalog.FreeName fk := by
  have husage := length_keyColumnUsage hbody
  have hreferenced := length_constraintColumnUsage hbody
  have hrule := length_referentialConstraint hbody
  rw [ConstraintCatalog.length_joinedWith] at hlength
  obtain ⟨hpairs, husagesOne, hreferencesOne⟩ := eq_one_of_mul_eq (length_pairs_pos hfk hbody)
    (husage ▸ length_view_le DeclaredConstraint.keyColumnUsage hfk)
    (hreferenced ▸ length_view_le DeclaredConstraint.constraintColumnUsage hfk)
    (hrule ▸ length_view_le DeclaredConstraint.referentialConstraint hfk) hlength
  refine ⟨hpairs, ?_⟩
  intro other hmem hne hname hschema
  have hother : other ∈ catalog.namesakes fk := ConstraintCatalog.mem_namesakes.2 ⟨hmem, hname, hschema⟩
  -- the foreign key alone has all the rows that there are
  have husageRest := length_flatMap_two (f := DeclaredConstraint.keyColumnUsage) (mem_namesakes_self hfk) hother hne
  have hreferenceRest :=
    length_flatMap_two (f := DeclaredConstraint.constraintColumnUsage) (mem_namesakes_self hfk) hother hne
  apply body_eq_check hmem
  · rw [← List.length_eq_zero_iff]
    omega
  · rw [← List.length_eq_zero_iff]
    omega

/-- There are rows for a foreign key. -/
theorem joinedWith_ne_nil (hfk : fk ∈ catalog.constraints)
    (hbody : fk.body = .foreignKey pairs refSchema refTable deleteRule updateRule) :
    catalog.joinedWith fk.tableConstraint ≠ [] := by
  have husages := length_view_le DeclaredConstraint.keyColumnUsage hfk
  have hreferences := length_view_le DeclaredConstraint.constraintColumnUsage hfk
  have hrules := length_view_le DeclaredConstraint.referentialConstraint hfk
  have hpairs := length_pairs_pos hfk hbody
  rw [length_keyColumnUsage hbody] at husages
  rw [length_constraintColumnUsage hbody] at hreferences
  rw [length_referentialConstraint hbody] at hrules
  rw [← List.length_pos_iff, ConstraintCatalog.length_joinedWith]
  exact Nat.mul_pos (by omega) (Nat.mul_pos (by omega) hrules)

/-- A foreign key of one column with a free name has one row. -/
theorem joinedWith_of_freeName {column ref : Text} (hfk : fk ∈ catalog.constraints)
    (hbody : fk.body = .foreignKey [(column, ref)] refSchema refTable deleteRule updateRule)
    (hfree : catalog.FreeName fk) : catalog.joinedWith fk.tableConstraint =
      [⟨1, fk.name, column, refSchema, refTable, ref, deleteRule, updateRule⟩] := by
  have hself : fk ∈ catalog.namesakes fk := ConstraintCatalog.mem_namesakes.2 ⟨hfk, rfl, rfl⟩
  have hnodup : (catalog.namesakes fk).Nodup := catalog.nodup.filter _
  have hothers : ∀ c ∈ catalog.namesakes fk, c ≠ fk → c.body = .check [] := by
    intro c hc hne
    obtain ⟨hmem, hname, hschema⟩ := ConstraintCatalog.mem_namesakes.1 hc
    exact hfree c hmem hne hname hschema
  have husages : (catalog.namesakes fk).flatMap DeclaredConstraint.keyColumnUsage =
      [⟨fk.schema, fk.name, column, 1⟩] := by
    rw [flatMap_alone hnodup hself, DeclaredConstraint.keyColumnUsage, hbody]
    · rfl
    · intro c hc hne
      rw [DeclaredConstraint.keyColumnUsage, hothers c hc hne]
      rfl
  have hreferenced : (catalog.namesakes fk).flatMap DeclaredConstraint.constraintColumnUsage =
      [⟨fk.schema, fk.name, refSchema, refTable, ref⟩] := by
    rw [flatMap_alone hnodup hself, DeclaredConstraint.constraintColumnUsage, hbody]
    · rfl
    · intro c hc hne
      rw [DeclaredConstraint.constraintColumnUsage, hothers c hc hne]
      rfl
  have hrules : (catalog.namesakes fk).flatMap DeclaredConstraint.referentialConstraint =
      [⟨fk.schema, fk.name, deleteRule, updateRule⟩] := by
    rw [flatMap_alone hnodup hself, DeclaredConstraint.referentialConstraint, hbody]
    intro c hc hne
    rw [DeclaredConstraint.referentialConstraint, hothers c hc hne]
  rw [ConstraintCatalog.joinedWith_eq, husages, hreferenced, hrules]
  rfl

/-- **A foreign key comes out of every answer as it is declared exactly if it has one column and its name is free.** -/
theorem loadForeignKeys_iff (hfk : fk ∈ catalog.constraints)
    (hbody : fk.body = .foreignKey pairs refSchema refTable deleteRule updateRule) {rows : List ForeignKeyRow}
    (hrows : catalog.Answers fk.schema fk.table rows) :
    (∃ key ∈ loadForeignKeys rows, key.name = fk.name ∧ key.columns = pairs.map Prod.fst ∧
      key.refColumns = pairs.map Prod.snd) ↔ pairs.length = 1 ∧ catalog.FreeName fk := by
  have htype : fk.constraintType = foreignKeyType := by rw [DeclaredConstraint.constraintType, hbody]
  have hperm := hrows.filter_perm hfk htype
  have hpositive : (rows.filter fun row => row.constraintName = fk.name) ≠ [] := by
    intro hnil
    rw [hnil, List.nil_perm, List.map_eq_nil_iff] at hperm
    exact joinedWith_ne_nil hfk hbody hperm
  rw [exists_loadForeignKeys (p := fun columns refColumns => columns = pairs.map Prod.fst ∧
    refColumns = pairs.map Prod.snd) hpositive]
  constructor
  · rintro ⟨hcolumns, -⟩
    have hlength := congrArg List.length hcolumns
    rw [List.length_map, List.length_map, hperm.length_eq, List.length_map] at hlength
    exact freeName_of_length hfk hbody hlength
  · rintro ⟨hone, hfree⟩
    obtain ⟨⟨column, ref⟩, rfl⟩ := List.length_eq_one_iff.1 hone
    rw [joinedWith_of_freeName hfk hbody hfree] at hperm
    rw [List.perm_singleton.1 hperm]
    exact ⟨rfl, rfl⟩

end

/-- A foreign key from the table t to the table r. -/
def referenceTo (pairs : List (Text × Text)) : DeclaredConstraint where
  schema := "s".toList
  table := "t".toList
  name := "fk".toList
  body := .foreignKey pairs "s".toList "r".toList "CASCADE".toList "NO ACTION".toList

/-- The foreign key is the only constraint. -/
def referenceCatalog (pairs : List (Text × Text)) (h : pairs ≠ []) : ConstraintCatalog where
  constraints := [referenceTo pairs]
  distinct := List.nodup_singleton _
  keys_nonempty := by
    intro c hc hnone
    rw [List.mem_singleton.1 hc] at hnone
    exact absurd (List.map_eq_nil_iff.1 hnone) h

def referenceRow (column ref : Text) : ForeignKeyRow :=
  ⟨"fk".toList, column, "s".toList, "r".toList, ref, "CASCADE".toList, "NO ACTION".toList⟩

theorem loadForeignKeys_oneColumn :
    (∃ key ∈ loadForeignKeys [referenceRow ['a'] ['x']], key.name = "fk".toList ∧ key.columns = [['a']] ∧
      key.refColumns = [['x']]) ↔
      [(['a'], ['x'])].length = 1 ∧
        (referenceCatalog [(['a'], ['x'])] (List.cons_ne_nil _ _)).FreeName (referenceTo [(['a'], ['x'])]) := by
  have hmem : referenceTo [(['a'], ['x'])] ∈
      (referenceCatalog [(['a'], ['x'])] (List.cons_ne_nil _ _)).constraints := List.mem_singleton_self _
  exact loadForeignKeys_iff hmem rfl
    ⟨[⟨1, referenceRow ['a'] ['x']⟩], by decide, List.pairwise_singleton _ _, rfl⟩

def compositeRows : List ForeignKeyRow :=
  [referenceRow ['a'] ['x'], referenceRow ['a'] ['y'], referenceRow ['b'] ['x'], referenceRow ['b'] ['y']]

/-- Two pairs of columns come out as four. -/
theorem loadForeignKeys_composite :
    (referenceCatalog [(['a'], ['x']), (['b'], ['y'])] (List.cons_ne_nil _ _)).Answers "s".toList "t".toList
        compositeRows ∧
      loadForeignKeys compositeRows = [⟨"fk".toList, [['a'], ['a'], ['b'], ['b']], "s".toList, "r".toList,
        [['x'], ['y'], ['x'], ['y']], "CASCADE".toList, "NO ACTION".toList⟩] ∧
      ¬∃ key ∈ loadForeignKeys compositeRows, key.columns = [['a'], ['b']] := by
  have hloaded : loadForeignKeys compositeRows = [⟨"fk".toList, [['a'], ['a'], ['b'], ['b']], "s".toList, "r".toList,
      [['x'], ['y'], ['x'], ['y']], "CASCADE".toList, "NO ACTION".toList⟩] := by decide
  refine ⟨⟨[⟨1, referenceRow ['a'] ['x']⟩, ⟨1, referenceRow ['a'] ['y']⟩, ⟨2, referenceRow ['b'] ['x']⟩,
    ⟨2, referenceRow ['b'] ['y']⟩], by decide, by decide, rfl⟩, hloaded, ?_⟩
  rw [hloaded]
  rintro ⟨key, hkey, hcolumns⟩
  rw [List.mem_singleton.1 hkey] at hcolumns
  exact absurd hcolumns (by decide)

end Workbench.Schema
