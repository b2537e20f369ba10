import Workbench.Schema.Forms

/-!
# The statements of each operation

One lemma for each case of the switch in the generator says of which kind the statements are that the
case appends; `generateOperation_form` puts them together.
-/

set_option autoImplicit false

namespace Workbench.Schema

open Workbench.Lib

/-! ## Kinds of operations -/

/-- The operation writes a column definition with its free text. -/
def writesDefinition (d : Dialect) (op : Operation) : Bool :=
  match OperationKind.parse op.kind with
  | some .addColumn => true
  | some .alterColumn => true
  | some .setColumnComment => d = .mysql
  | _ => false

/-- The comment that the operation writes as a string literal. -/
def emittedComment (d : Dialect) (op : Operation) : Option Text :=
  match OperationKind.parse op.kind, d with
  | some .addColumn, .mysql => some op.column.comment
  | some .alterColumn, .mysql => some op.column.comment
  | some .setColumnComment, .mysql => some op.column.comment
  | some .addColumn, .postgres =>
    if isBlankText op.column.comment then none else some op.column.comment
  | some .setColumnComment, .postgres =>
    if isBlankText op.column.comment then none else some op.column.comment
  | _, _ => none

/-- The operation replaces the primary key with a statement that MySQL alone accepts. -/
def replacesPrimary (d : Dialect) (op : Operation) : Bool :=
  OperationKind.parse op.kind = some .setPrimary && d = .mysql

/-- The statements of one operation. -/
inductive OutputForm (d : Dialect) (op : Operation) : List Statement → Prop
  | fixed {statements : List Statement} (hdefinition : writesDefinition d op = false)
      (hcomment : emittedComment d op = none) (hprimary : replacesPrimary d op = false)
      (h : ∀ st ∈ statements, Fixed d st.sql st.destructive) : OutputForm d op statements
  | primary {sql : Text} (hdefinition : writesDefinition d op = false)
      (hcomment : emittedComment d op = none) (hprimary : replacesPrimary d op = true)
      (h : Fixed d sql true) : OutputForm d op [⟨sql, false⟩]
  | comment {sql : Text} (hdefinition : writesDefinition d op = false)
      (hcomment : emittedComment d op = some op.column.comment)
      (hprimary : replacesPrimary d op = false) (h : Fixed d sql false)
      (hlast : (d.rules.tokens sql).getLast? = some (.quoted '\'' op.column.comment)) :
      OutputForm d op [⟨sql, false⟩]
  | definition {sql : Text} (hdefinition : writesDefinition d op = true)
      (hcomment : emittedComment d op = if d = .mysql then some op.column.comment else none)
      (hprimary : replacesPrimary d op = false) (h : Defines d sql op.column) :
      OutputForm d op [⟨sql, false⟩]
  | definitionAndComment {sql sql' : Text} (hd : d = .postgres)
      (hdefinition : writesDefinition d op = true)
      (hcomment : emittedComment d op = some op.column.comment)
      (hprimary : replacesPrimary d op = false) (h : Defines d sql op.column)
      (h' : Fixed d sql' false)
      (hlast : (d.rules.tokens sql').getLast? = some (.quoted '\'' op.column.comment)) :
      OutputForm d op [⟨sql, false⟩, ⟨sql', false⟩]

/-! ## The operations -/

section

variable {d : Dialect} {schema table : Text} {op : Operation} {out : Output}

theorem fixed_one {sql : Text} {destructive : Bool} {risks : List Risk}
    (h : Fixed d sql destructive) :
    ∀ st ∈ (Output.one sql destructive risks).statements, Fixed d st.sql st.destructive := by
  intro st hst
  rw [List.mem_singleton.1 hst]
  exact h

/-! The marks of an operation whose kind is known. -/

theorem writesDefinition_of_kind {kind : OperationKind}
    (hkind : OperationKind.parse op.kind = some kind) :
    writesDefinition d op = (decide (kind = .addColumn) || decide (kind = .alterColumn) ||
      (decide (kind = .setColumnComment) && decide (d = .mysql))) := by
  unfold writesDefinition
  rw [hkind]
  cases kind <;> rfl

theorem emittedComment_mysql {kind : OperationKind}
    (hkind : OperationKind.parse op.kind = some kind) :
    emittedComment .mysql op =
      if kind = .addColumn ∨ kind = .alterColumn ∨ kind = .setColumnComment
      then some op.column.comment else none := by
  unfold emittedComment
  rw [hkind]
  cases kind <;> rfl

theorem emittedComment_postgres {kind : OperationKind}
    (hkind : OperationKind.parse op.kind = some kind) :
    emittedComment .postgres op =
      if kind = .addColumn ∨ kind = .setColumnComment then
        if isBlankText op.column.comment then none else some op.column.comment
      else none := by
  unfold emittedComment
  rw [hkind]
  cases kind <;> rfl

theorem replacesPrimary_of_kind {kind : OperationKind}
    (hkind : OperationKind.parse op.kind = some kind) :
    replacesPrimary d op = (decide (kind = .setPrimary) && decide (d = .mysql)) := by
  unfold replacesPrimary
  rw [hkind, Bool.eq_iff_iff]
  simp only [Bool.and_eq_true, decide_eq_true_eq, Option.some.injEq]

/-- The operations that write no free text and replace no primary key. -/
def OperationKind.quiet : OperationKind → Bool
  | .dropColumn | .renameColumn | .dropPrimary | .addIndex | .dropIndex | .addForeignKey
  | .dropForeignKey => true
  | .addColumn | .alterColumn | .setColumnComment | .setPrimary => false

theorem OutputForm.of_quiet {kind : OperationKind} {statements : List Statement}
    (hkind : OperationKind.parse op.kind = some kind) (hquiet : kind.quiet = true)
    (h : ∀ st ∈ statements, Fixed d st.sql st.destructive) : OutputForm d op statements := by
  have hdefinition := writesDefinition_of_kind (d := d) hkind
  have hprimary := replacesPrimary_of_kind (d := d) hkind
  have hmysql := emittedComment_mysql hkind
  have hpostgres := emittedComment_postgres hkind
  have hcomment : emittedComment d op = none := by
    cases kind <;> cases d <;> first | exact hmysql | exact hpostgres | exact absurd hquiet (by decide)
  apply OutputForm.fixed _ hcomment _ h
  · cases kind <;> first | exact hdefinition | exact absurd hquiet (by decide)
  · cases kind <;> first | exact hprimary | exact absurd hquiet (by decide)

theorem addColumn_form (hs : ValidName schema) (ht : ValidName table)
    (hkind : OperationKind.parse op.kind = some .addColumn)
    (h : addColumn d (namedTable d schema table) op.column = .ok out) :
    OutputForm d op out.statements := by
  have hdefinition : writesDefinition d op = true := writesDefinition_of_kind hkind
  have hprimary : replacesPrimary d op = false := replacesPrimary_of_kind hkind
  simp only [addColumn, bind_eq_ok] at h
  obtain ⟨v, hv, h⟩ := h
  obtain ⟨hname, -, -⟩ := columnDef_ok hv
  have hwords : Reads d start .named "ADD COLUMN ".toList [] start (.inside 0) := by
    cases d <;> exact reads_of_readsTo rfl
  have hdefines := defines_definition hs ht hwords hv
  cases d with
  | mysql =>
    rw [if_neg (by simp)] at h
    cases h
    exact OutputForm.definition hdefinition (emittedComment_mysql hkind) hprimary hdefines
  | postgres =>
    by_cases hblank : isBlankText op.column.comment = true
    · rw [if_neg (by simp [hblank])] at h
      cases h
      exact OutputForm.definition hdefinition (by simp [emittedComment_postgres hkind, hblank]) hprimary
        hdefines
    · rw [if_pos ⟨rfl, by simp [hblank]⟩] at h
      simp only [bind_eq_ok] at h
      obtain ⟨col, hcol, h⟩ := h
      obtain ⟨-, rfl⟩ := quote_ok hcol
      obtain ⟨hfixed, hlast⟩ := fixed_comment hs ht hname op.column.comment
      cases h
      exact OutputForm.definitionAndComment rfl hdefinition
        (by simp [emittedComment_postgres hkind, hblank]) hprimary hdefines hfixed hlast

theorem dropColumn_form (hs : ValidName schema) (ht : ValidName table)
    (hkind : OperationKind.parse op.kind = some .dropColumn)
    (h : dropColumn d (namedTable d schema table) op.name = .ok out) :
    OutputForm d op out.statements := by
  simp only [dropColumn, bind_eq_ok] at h
  obtain ⟨n, hn, h⟩ := h
  obtain ⟨hname, rfl⟩ := quote_ok hn
  have hwords : Reads d start .named "DROP COLUMN ".toList [()] start (.inside 0) := by
    cases d <;> exact reads_of_readsTo rfl
  cases h
  apply OutputForm.of_quiet hkind rfl
  exact fixed_one (fixed_action hs ht hwords hname (by simp))

theorem renameColumn_form (hs : ValidName schema) (ht : ValidName table)
    (hkind : OperationKind.parse op.kind = some .renameColumn)
    (h : renameColumn d (namedTable d schema table) op.name op.newName = .ok out) :
    OutputForm d op out.statements := by
  simp only [renameColumn, bind_eq_ok] at h
  obtain ⟨a, ha, b, hb, h⟩ := h
  obtain ⟨hname, rfl⟩ := quote_ok ha
  obtain ⟨hnew, rfl⟩ := quote_ok hb
  cases h
  apply OutputForm.of_quiet hkind rfl
  exact fixed_one (fixed_renameColumn hs ht hname hnew)

theorem alterColumn_form (hs : ValidName schema) (ht : ValidName table)
    (hkind : OperationKind.parse op.kind = some .alterColumn)
    (h : alterColumn d (namedTable d schema table) op.column = .ok out) :
    OutputForm d op out.statements := by
  have hdefinition : writesDefinition d op = true := writesDefinition_of_kind hkind
  have hprimary : replacesPrimary d op = false := replacesPrimary_of_kind hkind
  simp only [alterColumn, bind_eq_ok, guard_eq_ok] at h
  obtain ⟨n, hn, htype, h⟩ := h
  obtain ⟨hname, rfl⟩ := quote_ok hn
  have htype' : ValidType op.column.type := by simpa [ValidType] using htype
  cases d with
  | postgres =>
    cases h
    exact OutputForm.definition hdefinition (emittedComment_postgres hkind) hprimary
      (defines_actions hs ht hname htype')
  | mysql =>
    simp only [bind_eq_ok] at h
    obtain ⟨v, hv, sql, hsql, h⟩ := h
    rw [← Except.ok.inj h, ← Except.ok.inj hsql]
    exact OutputForm.definition hdefinition (emittedComment_mysql hkind) hprimary
      (defines_definition hs ht (reads_of_readsTo rfl) hv)

theorem setColumnComment_form (hs : ValidName schema) (ht : ValidName table)
    (hkind : OperationKind.parse op.kind = some .setColumnComment)
    (h : setColumnComment d (namedTable d schema table) op.column = .ok out) :
    OutputForm d op out.statements := by
  have hprimary : replacesPrimary d op = false := replacesPrimary_of_kind hkind
  simp only [setColumnComment, bind_eq_ok] at h
  obtain ⟨col, hcol, h⟩ := h
  obtain ⟨hname, rfl⟩ := quote_ok hcol
  cases d with
  | postgres =>
    have hdefinition : writesDefinition .postgres op = false := by
      simp [writesDefinition, hkind]
    cases h
    by_cases hblank : isBlankText op.column.comment = true
    · simp only [hblank, if_true]
      apply OutputForm.fixed hdefinition _ hprimary
      · exact fixed_one (fixed_noComment hs ht hname)
      · simp [emittedComment_postgres hkind, hblank]
    · simp only [hblank]
      obtain ⟨hfixed, hlast⟩ := fixed_comment hs ht hname op.column.comment
      exact OutputForm.comment hdefinition (by simp [emittedComment_postgres hkind, hblank]) hprimary
        hfixed hlast
  | mysql =>
    simp only [bind_eq_ok] at h
    obtain ⟨v, hv, h⟩ := h
    cases h
    apply OutputForm.definition
    · simp [writesDefinition, hkind]
    · exact emittedComment_mysql hkind
    · exact hprimary
    · exact defines_definition hs ht (reads_of_readsTo rfl) hv

/-- A constraint that is dropped in PostgreSQL. -/
theorem fixed_dropConstraint (hs : ValidName schema) (ht : ValidName table) {name : Text}
    (hname : ValidName name) :
    Fixed .postgres (alterTable (namedTable .postgres schema table)
      ["DROP CONSTRAINT IF EXISTS ".toList, named .postgres name]) true := by
  have hwords : Reads .postgres start .named "DROP CONSTRAINT IF EXISTS ".toList [()] start
      (.inside 0) := reads_of_readsTo rfl
  exact fixed_action hs ht hwords hname (by simp)

theorem setPrimary_form (hs : ValidName schema) (ht : ValidName table)
    (hkind : OperationKind.parse op.kind = some .setPrimary)
    (h : setPrimary d (namedTable d schema table) table op.name = .ok out) :
    OutputForm d op out.statements := by
  have hdefinition : writesDefinition d op = false := writesDefinition_of_kind hkind
  have hcomment : emittedComment d op = none := by
    cases d
    · exact emittedComment_mysql hkind
    · exact emittedComment_postgres hkind
  simp only [setPrimary, bind_eq_ok] at h
  obtain ⟨col, hcol, h⟩ := h
  obtain ⟨hname, rfl⟩ := quote_ok hcol
  cases d with
  | mysql =>
    have hwords : Reads .mysql start .named "DROP PRIMARY KEY, ADD PRIMARY KEY (".toList [()]
        start (.inside 1) := reads_of_readsTo rfl
    cases h
    exact OutputForm.primary hdefinition hcomment (replacesPrimary_of_kind hkind)
      (fixed_addPrimary hs ht hname hwords (by simp))
  | postgres =>
    simp only [bind_eq_ok] at h
    obtain ⟨constraint, hconstraint, h⟩ := h
    obtain ⟨hpkey, rfl⟩ := quote_ok hconstraint
    have hwords : Reads .postgres start .named "ADD PRIMARY KEY (".toList [] start
        (.inside 1) := reads_of_readsTo rfl
    have hadd : Fixed .postgres (alterTable (namedTable .postgres schema table)
        ["ADD PRIMARY KEY (".toList, named .postgres op.name, ")".toList]) false :=
      fixed_addPrimary hs ht hname hwords (by simp)
    cases h
    apply OutputForm.fixed hdefinition hcomment (replacesPrimary_of_kind hkind)
    intro st hst
    rcases List.mem_cons.1 hst with rfl | hst
    · exact fixed_dropConstraint hs ht hpkey
    · rw [List.mem_singleton.1 hst]
      exact hadd

theorem dropPrimary_form (hs : ValidName schema) (ht : ValidName table)
    (hkind : OperationKind.parse op.kind = some .dropPrimary)
    (h : dropPrimary d (namedTable d schema table) table = .ok out) :
    OutputForm d op out.statements := by
  unfold dropPrimary at h
  cases d with
  | mysql =>
    have hwords : Reads .mysql start .named "DROP PRIMARY KEY".toList [()]
        (.word false, .word "KEY".toList) (.inside 0) := reads_of_readsTo rfl
    cases h
    exact OutputForm.of_quiet hkind rfl (fixed_one (fixed_alterTable hs ht
      hwords.last (ends_calm (Or.inr ⟨false, rfl⟩) (place_inside 0)) (by simp)))
  | postgres =>
    simp only [bind_eq_ok] at h
    obtain ⟨constraint, hconstraint, sql, hsql, h⟩ := h
    obtain ⟨hpkey, rfl⟩ := quote_ok hconstraint
    rw [← Except.ok.inj h, ← Except.ok.inj hsql]
    exact OutputForm.of_quiet hkind rfl
      (fixed_one (fixed_dropConstraint hs ht hpkey))

theorem addIndex_form (hs : ValidName schema) (ht : ValidName table)
    (hkind : OperationKind.parse op.kind = some .addIndex)
    (h : addIndex d (namedTable d schema table) op.index = .ok out) :
    OutputForm d op out.statements := by
  simp only [addIndex, bind_eq_ok] at h
  obtain ⟨sql, hsql, h⟩ := h
  cases h
  apply OutputForm.of_quiet hkind rfl
  exact fixed_one (fixed_addIndex hs ht hsql)

theorem dropIndex_form (hs : ValidName schema) (ht : ValidName table)
    (hkind : OperationKind.parse op.kind = some .dropIndex)
    (h : dropIndex d (namedTable d schema table) op.name = .ok out) :
    OutputForm d op out.statements := by
  simp only [dropIndex, bind_eq_ok] at h
  obtain ⟨n, hn, h⟩ := h
  obtain ⟨hname, rfl⟩ := quote_ok hn
  cases h
  apply OutputForm.of_quiet hkind rfl
  cases d with
  | postgres =>
    have hwords : Reads .postgres start .statement "DROP INDEX ".toList [()] start .other :=
      reads_of_readsTo rfl
    have hread := hwords.append (reads_named hname _)
    obtain ⟨hone, hdrops⟩ := hread.finish (ends_behindName .postgres op.name place_other)
      ⟨'D', _, rfl, rfl⟩
    exact fixed_one ⟨hone, hdrops.trans (by simp)⟩
  | mysql =>
    have hwords : Reads .mysql start .named "DROP INDEX ".toList [()] start (.inside 0) :=
      reads_of_readsTo rfl
    exact fixed_one (fixed_action hs ht hwords hname (by simp))

theorem addForeignKey_form (hs : ValidName schema) (ht : ValidName table)
    (hkind : OperationKind.parse op.kind = some .addForeignKey)
    (h : addForeignKey d (namedTable d schema table) op.foreignKey = .ok out) :
    OutputForm d op out.statements := by
  simp only [addForeignKey, bind_eq_ok] at h
  obtain ⟨sql, hsql, h⟩ := h
  cases h
  apply OutputForm.of_quiet hkind rfl
  exact fixed_one (fixed_addForeignKey hs ht hsql)

theorem dropForeignKey_form (hs : ValidName schema) (ht : ValidName table)
    (hkind : OperationKind.parse op.kind = some .dropForeignKey)
    (h : dropForeignKey d (namedTable d schema table) op.name = .ok out) :
    OutputForm d op out.statements := by
  simp only [dropForeignKey, bind_eq_ok] at h
  obtain ⟨n, hn, h⟩ := h
  obtain ⟨hname, rfl⟩ := quote_ok hn
  cases h
  apply OutputForm.of_quiet hkind rfl
  apply fixed_one
  -- the keyword and the blank behind it are the last fixed words
  cases d with
  | mysql =>
    have hdrop : Reads .mysql start .named "DROP ".toList [] start .dropping :=
      reads_of_readsTo rfl
    have hkey : Reads .mysql start .dropping "FOREIGN KEY".toList [()]
        (.word false, .word "KEY".toList) (.inside 0) := reads_of_readsTo rfl
    have hblank : Reads .mysql (.word false, .word "KEY".toList) (.inside 0) " ".toList []
        start (.inside 0) := reads_of_readsTo rfl
    have hread := hdrop.cons (hkey.consDrops (hblank.cons (reads_named hname _).last))
    exact fixed_alterTable hs ht hread (ends_behindName .mysql op.name (place_inside 0))
      (by simp)
  | postgres =>
    have hdrop : Reads .postgres start .named "DROP ".toList [] start .dropping :=
      reads_of_readsTo rfl
    have hkey : Reads .postgres start .dropping "CONSTRAINT".toList []
        (.word false, .word "CONSTRAINT".toList) .dropping :=
      reads_of_readsTo rfl
    have hblank : Reads .postgres (.word false, .word "CONSTRAINT".toList) .dropping
        " ".toList [()] start (.inside 0) := reads_of_readsTo rfl
    have hread := hdrop.cons (hkey.cons (hblank.consDrops (reads_named hname _).last))
    exact fixed_alterTable hs ht hread (ends_behindName .postgres op.name (place_inside 0))
      (by simp)

/-- **What the database reads in the statements of an accepted operation.** -/
theorem generateOperation_form (hs : ValidName schema) (ht : ValidName table)
    (h : generateOperation d (namedTable d schema table) table op = .ok out) :
    OutputForm d op out.statements := by
  unfold generateOperation at h
  cases hkind : OperationKind.parse op.kind with
  | none =>
    rw [hkind] at h
    exact absurd h (by simp)
  | some kind =>
    rw [hkind] at h
    cases kind with
    | addColumn => exact addColumn_form hs ht hkind h
    | dropColumn => exact dropColumn_form hs ht hkind h
    | renameColumn => exact renameColumn_form hs ht hkind h
    | alterColumn => exact alterColumn_form hs ht hkind h
    | setColumnComment => exact setColumnComment_form hs ht hkind h
    | setPrimary => exact setPrimary_form hs ht hkind h
    | dropPrimary => exact dropPrimary_form hs ht hkind h
    | addIndex => exact addIndex_form hs ht hkind h
    | dropIndex => exact dropIndex_form hs ht hkind h
    | addForeignKey => exact addForeignKey_form hs ht hkind h
    | dropForeignKey => exact dropForeignKey_form hs ht hkind h

end

end Workbench.Schema
