import Mathlib.Data.Char
import Mathlib.Data.List.Lex
import Mathlib.Data.List.Sort
import Workbench.Table.Cells

/-!
# The key columns of a table

`loadKeyMetadata` of `api/internal/db/metadata.go` and the filter over its objects in
`web/src/app/DatabaseWorkbench.tsx`. The query joins the constraints of the catalog with their columns and
orders them: by table, the primary key first, then by constraint name and position.

`uniqueKey_eq` says which columns come out: those of the first constraint of the table in this order.
-/

set_option autoImplicit false

namespace Workbench.Table

/-- A primary key or a unique constraint with its columns in order. -/
structure Constraint where
  name : Text
  primary : Bool
  columns : List Text
  deriving DecidableEq

namespace Constraint

def constraintType (c : Constraint) : Text := if c.primary then "PRIMARY KEY".toList else "UNIQUE".toList

/-- The order of the query within a table. -/
def before (a b : Constraint) : Bool :=
  (a.primary && !b.primary) || (a.primary == b.primary && decide (a.name ≤ b.name))

end Constraint

/-- A table as the catalog declares it. -/
structure TableEntry where
  schema : Text
  name : Text
  columns : List Column
  constraints : List Constraint
  columns_distinct : (columns.map Column.name).Nodup
  constraints_distinct : (constraints.map Constraint.name).Nodup
  nonempty : ∀ c ∈ constraints, c.columns ≠ []
  of_table : ∀ c ∈ constraints, ∀ name ∈ c.columns, name ∈ columns.map Column.name

/-- The tables that the query's conditions on schemas let through. -/
structure Catalog where
  name : Text
  tables : List TableEntry
  distinct : (tables.map fun t => (t.schema, t.name)).Nodup

structure KeyRow where
  catalog : Text
  schema : Text
  table : Text
  column : Text
  constraint : Text
  constraintType : Text
  deriving DecidableEq

def KeyRow.key (r : KeyRow) : Text × Text × Text := (r.catalog, r.schema, r.table)

def TableEntry.sortedConstraints (t : TableEntry) : List Constraint :=
  t.constraints.mergeSort Constraint.before

def TableEntry.constraintRows (t : TableEntry) (catalog : Text) (c : Constraint) : List KeyRow :=
  c.columns.map fun column => ⟨catalog, t.schema, t.name, column, c.name, c.constraintType⟩

def TableEntry.keyRows (t : TableEntry) (catalog : Text) : List KeyRow :=
  t.sortedConstraints.flatMap (t.constraintRows catalog)

/-- The rows of the query. -/
def Catalog.keyRows (c : Catalog) : List KeyRow := c.tables.flatMap fun t => t.keyRows c.name

/-- An object of kind `key`. -/
structure KeyObject where
  catalog : Text
  schema : Text
  name : Text
  parent : Text
  dataType : Text
  deriving DecidableEq

def KeyRow.object (r : KeyRow) : KeyObject := ⟨r.catalog, r.schema, r.column, r.table, r.constraintType⟩

/-- The loop of `loadKeyMetadata`: the first constraint of each table is kept. No name has the NUL that
the source puts between the parts of a table's key. -/
def chooseRows (chosen : Text × Text × Text → Option Text) : List KeyRow → List KeyRow
  | [] => []
  | r :: rest =>
    if (chosen r.key).any (fun selected => selected != r.constraint) then chooseRows chosen rest
    else r :: chooseRows (Function.update chosen r.key (some r.constraint)) rest

def loadKeyMetadata (rows : List KeyRow) : List KeyObject :=
  (chooseRows (fun _ => none) rows).map KeyRow.object

/-- The key that the workbench passes to the table view. -/
def uniqueKey (objects : List KeyObject) (schema name : Text) : List Text :=
  (objects.filter fun object => object.schema == schema && object.parent == name).map KeyObject.name

/-! ## One table -/

def KeyRow.ofTable (key : Text × Text × Text) (r : KeyRow) : Bool := r.key == key

def KeyRow.ofConstraint (name : Text) (r : KeyRow) : Bool := r.constraint == name

/-- The loop on the rows of one table. -/
def chooseOf : Option Text → List KeyRow → List KeyRow
  | _, [] => []
  | selected, r :: rest =>
    if selected.any (fun selected => selected != r.constraint) then chooseOf selected rest
    else r :: chooseOf (some r.constraint) rest

theorem filter_chooseRows (key : Text × Text × Text) (rows : List KeyRow) :
    ∀ chosen, (chooseRows chosen rows).filter (KeyRow.ofTable key) =
      chooseOf (chosen key) (rows.filter (KeyRow.ofTable key)) := by
  induction rows with
  | nil => exact fun _ => rfl
  | cons r rest ih =>
    intro chosen
    rw [chooseRows]
    by_cases hkey : r.key = key
    · have hof : KeyRow.ofTable key r = true := beq_iff_eq.2 hkey
      rw [List.filter_cons_of_pos hof, chooseOf, hkey]
      split
      · exact ih chosen
      · rw [List.filter_cons_of_pos hof, ih, Function.update_self]
    · have hof : ¬KeyRow.ofTable key r = true := fun h => hkey (eq_of_beq h)
      rw [List.filter_cons_of_neg hof]
      split
      · exact ih chosen
      · rw [List.filter_cons_of_neg hof, ih, Function.update_of_ne (Ne.symm hkey)]

theorem chooseOf_some (selected : Text) (rows : List KeyRow) :
    chooseOf (some selected) rows = rows.filter (KeyRow.ofConstraint selected) := by
  induction rows with
  | nil => rfl
  | cons r rest ih =>
    rw [chooseOf]
    by_cases hsame : r.constraint = selected
    · have hof : KeyRow.ofConstraint selected r = true := beq_iff_eq.2 hsame
      rw [List.filter_cons_of_pos hof, hsame, ih]
      simp
    · have hof : ¬KeyRow.ofConstraint selected r = true := fun h => hsame (eq_of_beq h)
      rw [List.filter_cons_of_neg hof, ih]
      simp [Ne.symm hsame]

theorem filter_constraintRows (t : TableEntry) (catalog : Text) (c : Constraint) :
    (t.constraintRows catalog c).filter (KeyRow.ofConstraint c.name) = t.constraintRows catalog c := by
  rw [List.filter_eq_self]
  intro r hr
  obtain ⟨name, -, rfl⟩ := List.mem_map.1 hr
  exact beq_self_eq_true _

theorem filter_otherConstraints (t : TableEntry) (catalog : Text) {c : Constraint} {rest : List Constraint}
    (hother : ∀ c' ∈ rest, c'.name ≠ c.name) :
    (rest.flatMap (t.constraintRows catalog)).filter (KeyRow.ofConstraint c.name) = [] := by
  rw [List.filter_eq_nil_iff]
  intro r hr heq
  obtain ⟨c', hc', hr⟩ := List.mem_flatMap.1 hr
  obtain ⟨name, -, rfl⟩ := List.mem_map.1 hr
  exact hother c' hc' (eq_of_beq heq)

/-- Of the rows of a table those of its first constraint are kept. -/
theorem chooseOf_keyRows (t : TableEntry) (catalog : Text) {c : Constraint} {rest : List Constraint}
    (hsorted : t.sortedConstraints = c :: rest) :
    chooseOf none (t.keyRows catalog) = t.constraintRows catalog c := by
  have hperm : (c :: rest).Perm t.constraints := hsorted ▸ List.mergeSort_perm _ _
  have hdistinct : ((c :: rest).map Constraint.name).Nodup :=
    (hperm.map Constraint.name).nodup_iff.2 t.constraints_distinct
  have hother : ∀ c' ∈ rest, c'.name ≠ c.name := fun c' hc' heq =>
    (List.nodup_cons.1 hdistinct).1 (heq ▸ List.mem_map_of_mem hc')
  obtain ⟨column, more, hcolumns⟩ :=
    List.exists_cons_of_ne_nil (t.nonempty c (hperm.subset List.mem_cons_self))
  have hrows : ∃ r rs, t.keyRows catalog = r :: rs ∧ r.constraint = c.name := by
    rw [TableEntry.keyRows, hsorted, List.flatMap_cons, TableEntry.constraintRows, hcolumns, List.map_cons]
    exact ⟨_, _, rfl, rfl⟩
  obtain ⟨r, rs, hcons, hconstraint⟩ := hrows
  -- behind the first row the loop keeps the rows of its constraint
  have hchoose : chooseOf none (t.keyRows catalog) =
      (t.keyRows catalog).filter (KeyRow.ofConstraint c.name) := by
    have hof : KeyRow.ofConstraint c.name r = true := beq_iff_eq.2 hconstraint
    rw [hcons, List.filter_cons_of_pos hof, chooseOf, hconstraint, chooseOf_some]
    rfl
  rw [hchoose, TableEntry.keyRows, hsorted, List.flatMap_cons, List.filter_append,
    filter_constraintRows, filter_otherConstraints t catalog hother, List.append_nil]

theorem key_of_mem_keyRows {t : TableEntry} {catalog : Text} {r : KeyRow} (hr : r ∈ t.keyRows catalog) :
    r.key = (catalog, t.schema, t.name) := by
  obtain ⟨c, -, hr⟩ := List.mem_flatMap.1 hr
  obtain ⟨column, -, rfl⟩ := List.mem_map.1 hr
  rfl

theorem filter_otherTable {t u : TableEntry} {catalog : Text}
    (hother : (u.schema, u.name) ≠ (t.schema, t.name)) :
    (u.keyRows catalog).filter (KeyRow.ofTable (catalog, t.schema, t.name)) = [] := by
  rw [List.filter_eq_nil_iff]
  intro r hr heq
  have hkey := (key_of_mem_keyRows hr).symm.trans (eq_of_beq heq)
  exact hother (Prod.ext_iff.1 hkey).2

theorem filter_flatMap_keyRows (catalog : Text) {t : TableEntry} {tables : List TableEntry}
    (hdistinct : (tables.map fun t => (t.schema, t.name)).Nodup) (ht : t ∈ tables) :
    (tables.flatMap fun t => t.keyRows catalog).filter (KeyRow.ofTable (catalog, t.schema, t.name)) =
      t.keyRows catalog := by
  induction tables with
  | nil => cases ht
  | cons u rest ih =>
    obtain ⟨hhead, hrest⟩ := List.nodup_cons.1 hdistinct
    rw [List.flatMap_cons, List.filter_append]
    rcases List.mem_cons.1 ht with rfl | ht
    · have hself : (t.keyRows catalog).filter (KeyRow.ofTable (catalog, t.schema, t.name)) =
          t.keyRows catalog :=
        List.filter_eq_self.2 fun r hr => beq_iff_eq.2 (key_of_mem_keyRows hr)
      have hnone : (rest.flatMap fun t => t.keyRows catalog).filter
          (KeyRow.ofTable (catalog, t.schema, t.name)) = [] := by
        rw [List.filter_flatMap, List.flatMap_eq_nil_iff]
        intro u hu
        apply filter_otherTable
        exact fun heq => hhead (List.mem_map.2 ⟨u, hu, heq⟩)
      rw [hself, hnone, List.append_nil]
    · rw [ih hrest ht, filter_otherTable, List.nil_append]
      exact fun heq => hhead (List.mem_map.2 ⟨t, ht, heq.symm⟩)

theorem chooseRows_sublist (rows : List KeyRow) : ∀ chosen, (chooseRows chosen rows).Sublist rows := by
  induction rows with
  | nil => exact fun _ => List.Sublist.refl []
  | cons r rest ih =>
    intro chosen
    rw [chooseRows]
    split
    · exact (ih chosen).cons r
    · exact (ih _).cons_cons r

theorem catalog_of_mem {c : Catalog} {r : KeyRow} (hr : r ∈ c.keyRows) : r.catalog = c.name := by
  obtain ⟨t, -, hr⟩ := List.mem_flatMap.1 hr
  exact (Prod.ext_iff.1 (key_of_mem_keyRows hr)).1

/-- The key of a table are the columns of its first constraint. All rows are of one catalog, so that the
schema and the name tell the tables apart. -/
theorem uniqueKey_eq (c : Catalog) {t : TableEntry} (ht : t ∈ c.tables) :
    uniqueKey (loadKeyMetadata c.keyRows) t.schema t.name =
      (t.sortedConstraints.head?.map Constraint.columns).getD [] := by
  have hsame : (chooseRows (fun _ => none) c.keyRows).filter
        ((fun object => object.schema == t.schema && object.parent == t.name) ∘ KeyRow.object) =
      (chooseRows (fun _ => none) c.keyRows).filter (KeyRow.ofTable (c.name, t.schema, t.name)) := by
    apply List.filter_congr
    intro r hr
    have hcatalog := catalog_of_mem ((chooseRows_sublist _ _).subset hr)
    rw [Bool.eq_iff_iff]
    simp [KeyRow.ofTable, KeyRow.key, KeyRow.object, hcatalog]
  rw [uniqueKey, loadKeyMetadata, List.filter_map, hsame, filter_chooseRows, Catalog.keyRows,
    filter_flatMap_keyRows c.name c.distinct ht, List.map_map]
  cases hsorted : t.sortedConstraints with
  | nil =>
    rw [TableEntry.keyRows, hsorted]
    rfl
  | cons first rest =>
    rw [chooseOf_keyRows t c.name hsorted, TableEntry.constraintRows, List.map_map]
    exact List.map_id _

/-- A key that is not empty is that of a constraint of the table. -/
theorem constraint_of_uniqueKey (c : Catalog) {t : TableEntry} (ht : t ∈ c.tables)
    (hkey : uniqueKey (loadKeyMetadata c.keyRows) t.schema t.name ≠ []) :
    ∃ constraint ∈ t.constraints,
      uniqueKey (loadKeyMetadata c.keyRows) t.schema t.name = constraint.columns := by
  rw [uniqueKey_eq c ht] at hkey ⊢
  cases hsorted : t.sortedConstraints with
  | nil =>
    rw [hsorted] at hkey
    exact absurd rfl hkey
  | cons first rest =>
    have hperm : (first :: rest).Perm t.constraints := hsorted ▸ List.mergeSort_perm _ _
    exact ⟨first, hperm.subset List.mem_cons_self, rfl⟩

end Workbench.Table
