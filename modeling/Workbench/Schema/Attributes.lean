import Workbench.Schema.Draft
import Workbench.Schema.Servers

/-!
# One attribute of a column is edited

A table is loaded, the comment or the nullability of one of its columns is edited in the draft, and the
statements of the preview are executed. In PostgreSQL a comment is a statement of its own and changes
nothing else; a new nullability also writes the type again, which takes the column's own collation,
storage and compression away. In MySQL both write the whole definition again: what it does not name is
lost, and a default is written the way the catalog shows it, without quotes.
-/

set_option autoImplicit false

namespace Workbench.Schema

open Workbench.Lib

/-! ## Edits -/

/-- A table and the column of it that is edited. -/
structure Loaded (E : Engine) where
  schema : Text
  table : Text
  front : List E.Entry
  column : E.Entry
  back : List E.Entry
  /-- The rows of the query for keys. -/
  keyRows : List (Text × Text)
  distinct : ((front ++ column :: back).map CatalogColumn.name).Nodup
  holds : E.Holds column

/-- The patch that `change` applies. -/
inductive Edit where
  | comment (text : Text)
  | nullable (value : Bool)
  deriving DecidableEq, Repr

namespace Edit

def column (c : Column) : Edit → Column
  | comment text => { c with comment := text }
  | nullable value => { c with nullable := value }

def draft (c : DraftColumn) : Edit → DraftColumn
  | comment text => { c with comment := text }
  | nullable value => { c with nullable := value }

/-- The patch is not what is there. -/
def Changes (c : Column) : Edit → Prop
  | comment text => c.comment ≠ text
  | nullable value => c.nullable ≠ value

instance (c : Column) (edit : Edit) : Decidable (edit.Changes c) := by
  cases edit <;> exact inferInstanceAs (Decidable (_ ≠ _))

/-- Every attribute but the one that is edited is as it was. -/
def Keeps {δ ε : Type} (e e' : CatalogColumn δ ε) : Edit → Prop
  | comment _ => e' = { e with comment := e'.comment }
  | nullable _ => e' = { e with nullable := e'.nullable }

theorem keeps_self {δ ε : Type} (e : CatalogColumn δ ε) (edit : Edit) : edit.Keeps e e := by
  cases edit with
  | comment text => rfl
  | nullable value => rfl

/-- The operation of the edit. -/
def operation (c : Column) : Edit → Operation
  | comment text => Operation.setColumnComment (column c (comment text))
  | nullable value => Operation.alterColumn (column c (nullable value))

@[simp] theorem name_draft (c : DraftColumn) (edit : Edit) : (edit.draft c).name = c.name := by
  cases edit with
  | comment text => rfl
  | nullable value => rfl

@[simp] theorem isNew_draft (c : DraftColumn) (edit : Edit) : (edit.draft c).isNew = c.isNew := by
  cases edit with
  | comment text => rfl
  | nullable value => rfl

@[simp] theorem primary_draft (c : DraftColumn) (edit : Edit) :
    (edit.draft c).primary = c.primary := by
  cases edit with
  | comment text => rfl
  | nullable value => rfl

/-- What `diffColumns` finds in the edited column. -/
theorem diffColumn_draft {lowerCase : Text → Text} (c : Column) (edit : Edit) :
    diffColumn lowerCase c (edit.draft (DraftColumn.ofColumn c)) =
      if edit.Changes c then [edit.operation c] else [] := by
  cases edit with
  | comment text =>
    have hname : ¬(draft (DraftColumn.ofColumn c) (comment text)).key ≠
        (draft (DraftColumn.ofColumn c) (comment text)).name :=
      not_not.2 (DraftColumn.key_ofColumn c)
    have hsame : ¬(lowerCase c.type ≠ lowerCase (draft (DraftColumn.ofColumn c) (comment text)).type ∨
        c.nullable ≠ (draft (DraftColumn.ofColumn c) (comment text)).nullable ∨
        c.default ≠ (draft (DraftColumn.ofColumn c) (comment text)).default) := by
      simp [draft, DraftColumn.ofColumn]
    rw [diffColumn, if_neg hname, if_neg hsame]
    rfl
  | nullable value =>
    have hname : ¬(draft (DraftColumn.ofColumn c) (nullable value)).key ≠
        (draft (DraftColumn.ofColumn c) (nullable value)).name :=
      not_not.2 (DraftColumn.key_ofColumn c)
    have hcomment : ¬c.comment ≠ (draft (DraftColumn.ofColumn c) (nullable value)).comment :=
      not_not.2 rfl
    have hiff : (lowerCase c.type ≠ lowerCase (draft (DraftColumn.ofColumn c) (nullable value)).type ∨
        c.nullable ≠ (draft (DraftColumn.ofColumn c) (nullable value)).nullable ∨
        c.default ≠ (draft (DraftColumn.ofColumn c) (nullable value)).default) ↔
        Changes c (nullable value) := by
      simp [draft, DraftColumn.ofColumn, Changes]
    rw [diffColumn, if_neg hname, if_neg hcomment, List.nil_append, List.append_nil]
    exact if_congr hiff rfl rfl

end Edit

namespace Loaded

variable {E : Engine} (t : Loaded E)

def entries : List E.Entry := t.front ++ t.column :: t.back

/-- The column as it is loaded. -/
def loaded : Column := t.column.loaded E.text t.keyRows

/-- The columns of the draft: the edit is at the place of the column. -/
def draft (columns : List Column) (edit : Edit) : List DraftColumn :=
  (columns.map DraftColumn.ofColumn).modify t.front.length edit.draft

/-- The statements of the edit leave every other attribute of the column as it was, and the other
columns of the table too. -/
def KeepsOthers (lowerCase : Text → Text) (edit : Edit) : Prop :=
  ∀ columns p,
    describeColumns E.dialect (t.entries.map (CatalogColumn.row E.text))
      (t.entries.map CatalogColumn.commentRow) t.keyRows = .ok columns →
    generate E.dialect.name t.schema t.table (diffColumns lowerCase columns (t.draft columns edit)) =
      .ok p →
    ∃ e', E.run t.schema t.table p.statements t.entries = t.front ++ e' :: t.back ∧
      edit.Keeps t.column e'

variable {t} {lowerCase : Text → Text}

theorem name_not_mem_front : t.column.name ∉ t.front.map CatalogColumn.name := by
  have hdistinct := t.distinct
  rw [List.map_append, List.map_cons] at hdistinct
  intro hmem
  exact (List.nodup_append.1 hdistinct).2.2 _ hmem _ List.mem_cons_self rfl

theorem describeColumns_eq : describeColumns E.dialect (t.entries.map (CatalogColumn.row E.text))
    (t.entries.map CatalogColumn.commentRow) t.keyRows =
      .ok (t.entries.map (CatalogColumn.loaded E.text t.keyRows)) :=
  CatalogColumn.describeColumns_eq E.text E.dialect t.keyRows t.distinct (by simp [entries])

/-- **The operations of the edit.** -/
theorem diffColumns_draft (edit : Edit) :
    diffColumns lowerCase (t.entries.map (CatalogColumn.loaded E.text t.keyRows))
        (t.draft (t.entries.map (CatalogColumn.loaded E.text t.keyRows)) edit) =
      if edit.Changes t.loaded then [edit.operation t.loaded] else [] := by
  have hcolumns : t.entries.map (CatalogColumn.loaded E.text t.keyRows) =
      t.front.map (CatalogColumn.loaded E.text t.keyRows) ++
        t.loaded :: t.back.map (CatalogColumn.loaded E.text t.keyRows) := by
    rw [entries, List.map_append, List.map_cons]
    rfl
  have hdistinct : ((t.front.map (CatalogColumn.loaded E.text t.keyRows) ++
      t.loaded :: t.back.map (CatalogColumn.loaded E.text t.keyRows)).map Column.name).Nodup := by
    have hnames := t.distinct
    rw [← hcolumns, List.map_map]
    exact hnames
  have hdraft : t.draft (t.entries.map (CatalogColumn.loaded E.text t.keyRows)) edit =
      (t.front.map (CatalogColumn.loaded E.text t.keyRows)).map DraftColumn.ofColumn ++
        edit.draft (DraftColumn.ofColumn t.loaded) ::
          (t.back.map (CatalogColumn.loaded E.text t.keyRows)).map DraftColumn.ofColumn := by
    rw [draft, hcolumns, List.map_append, List.map_cons, List.modify_eq_set_getElem?]
    simp
  have hkey : (edit.draft (DraftColumn.ofColumn t.loaded)).key = t.loaded.name := by
    cases edit with
    | comment text => exact DraftColumn.key_ofColumn _
    | nullable value => exact DraftColumn.key_ofColumn _
  rw [hdraft, hcolumns, diffColumns_edited hdistinct (edit.isNew_draft _) hkey (edit.primary_draft _)
    (edit.name_draft _)]
  exact Edit.diffColumn_draft t.loaded edit

/-- The property, once the table is loaded and the operations are known. -/
theorem keepsOthers_iff (edit : Edit) :
    t.KeepsOthers lowerCase edit ↔
      (edit.Changes t.loaded → ∀ p,
        generate E.dialect.name t.schema t.table [edit.operation t.loaded] = .ok p →
        ∃ e', E.run t.schema t.table p.statements t.entries = t.front ++ e' :: t.back ∧
          edit.Keeps t.column e') := by
  constructor
  · intro h hchanges p hp
    apply h _ p describeColumns_eq
    rw [diffColumns_draft, if_pos hchanges]
    exact hp
  · intro h columns p hcolumns hp
    rw [describeColumns_eq] at hcolumns
    cases hcolumns
    rw [diffColumns_draft] at hp
    by_cases hchanges : edit.Changes t.loaded
    · rw [if_pos hchanges] at hp
      exact h hchanges p hp
    · rw [if_neg hchanges] at hp
      obtain ⟨-, -, outs, houts, hstatements, -⟩ := generate_ok hp
      cases houts
      refine ⟨t.column, ?_, edit.keeps_self _⟩
      rw [hstatements]
      rfl

end Loaded

end Workbench.Schema
