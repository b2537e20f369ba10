import Workbench.Schema.TokenJson

/-!
# The confirmation of a schema change

The server refuses a preview with a destructive statement until the request is confirmed. The front
end confirms a preview that carries a risk of the level `danger`. Both marks are set by hand in each
case of the generator, and they do not agree: an index or a foreign key that is dropped, and in
PostgreSQL a primary key that is replaced, is destructive but no danger (`save_never_deadEnds_iff`).
-/

set_option autoImplicit false

namespace Workbench.Schema

/-! ## The two marks -/

/-- The operation has a statement that is marked as destructive. -/
def isDestructive (d : Dialect) (op : Operation) : Bool :=
  match OperationKind.parse op.kind with
  | some .dropColumn => true
  | some .dropPrimary => true
  | some .dropIndex => true
  | some .dropForeignKey => true
  | some .setPrimary => d = .postgres
  | _ => false

/-- The operation has a risk of the level `danger`. -/
def isDangerous (op : Operation) : Bool :=
  match OperationKind.parse op.kind with
  | some .dropColumn => true
  | some .dropPrimary => true
  | _ => false

def Risk.isDanger (r : Risk) : Bool := r.level = .danger

/-- What an operation marks. -/
def Marks (d : Dialect) (op : Operation) (out : Output) : Prop :=
  out.statements.any Statement.destructive = isDestructive d op ∧
    out.risks.any Risk.isDanger = isDangerous op

theorem generateOperation_marks {d : Dialect} {table tableName : Text} {op : Operation}
    {out : Output} (h : generateOperation d table tableName op = .ok out) : Marks d op out := by
  unfold Marks isDestructive isDangerous
  unfold generateOperation at h
  cases hkind : OperationKind.parse op.kind with
  | none =>
    rw [hkind] at h
    exact absurd h (by simp)
  | some kind =>
    rw [hkind] at h
    -- One case for each kind: the flags of the output are set by the kind, whatever its parts are.
    cases kind with
    | addColumn =>
      simp only [addColumn, bind_eq_ok] at h
      obtain ⟨v, -, h⟩ := h
      split_ifs at h
      · simp only [bind_eq_ok] at h
        obtain ⟨col, -, h⟩ := h
        cases h
        exact ⟨rfl, rfl⟩
      · cases h
        exact ⟨rfl, rfl⟩
    | dropColumn =>
      simp only [dropColumn, bind_eq_ok] at h
      obtain ⟨n, -, h⟩ := h
      cases h
      exact ⟨rfl, rfl⟩
    | renameColumn =>
      simp only [renameColumn, bind_eq_ok] at h
      obtain ⟨a, -, b, -, h⟩ := h
      cases h
      exact ⟨rfl, rfl⟩
    | alterColumn =>
      simp only [alterColumn, bind_eq_ok, guard_eq_ok] at h
      obtain ⟨n, -, -, h⟩ := h
      cases d with
      | postgres =>
        cases h
        exact ⟨rfl, rfl⟩
      | mysql =>
        simp only [bind_eq_ok] at h
        obtain ⟨v, -, sql, -, h⟩ := h
        cases h
        exact ⟨rfl, rfl⟩
    | setColumnComment =>
      simp only [setColumnComment, bind_eq_ok] at h
      obtain ⟨col, -, h⟩ := h
      cases d with
      | postgres =>
        cases h
        exact ⟨rfl, rfl⟩
      | mysql =>
        simp only [bind_eq_ok] at h
        obtain ⟨v, -, h⟩ := h
        cases h
        exact ⟨rfl, rfl⟩
    | setPrimary =>
      simp only [setPrimary, bind_eq_ok] at h
      obtain ⟨col, -, h⟩ := h
      cases d with
      | mysql =>
        cases h
        exact ⟨rfl, rfl⟩
      | postgres =>
        simp only [bind_eq_ok] at h
        obtain ⟨constraint, -, h⟩ := h
        cases h
        exact ⟨rfl, rfl⟩
    | dropPrimary =>
      unfold dropPrimary at h
      cases d with
      | mysql =>
        cases h
        exact ⟨rfl, rfl⟩
      | postgres =>
        simp only [bind_eq_ok] at h
        obtain ⟨constraint, -, sql, -, h⟩ := h
        cases h
        exact ⟨rfl, rfl⟩
    | addIndex =>
      simp only [addIndex, bind_eq_ok] at h
      obtain ⟨sql, -, h⟩ := h
      cases h
      exact ⟨rfl, rfl⟩
    | dropIndex =>
      simp only [dropIndex, bind_eq_ok] at h
      obtain ⟨n, -, h⟩ := h
      cases h
      exact ⟨rfl, rfl⟩
    | addForeignKey =>
      simp only [addForeignKey, bind_eq_ok] at h
      obtain ⟨sql, -, h⟩ := h
      cases h
      exact ⟨rfl, rfl⟩
    | dropForeignKey =>
      simp only [dropForeignKey, bind_eq_ok] at h
      obtain ⟨n, -, h⟩ := h
      cases h
      exact ⟨rfl, rfl⟩

theorem marks_all {d : Dialect} {ops : List Operation} {outs : List Output}
    (h : List.Forall₂ (Marks d) ops outs) :
    (outs.flatMap Output.statements).any Statement.destructive = ops.any (isDestructive d) ∧
      (outs.flatMap Output.risks).any Risk.isDanger = ops.any isDangerous := by
  induction h with
  | nil => exact ⟨rfl, rfl⟩
  | cons hhead _ ih =>
    obtain ⟨hdestructive, hdanger⟩ := hhead
    constructor
    · rw [List.flatMap_cons, List.any_append, List.any_cons, hdestructive, ih.1]
    · rw [List.flatMap_cons, List.any_append, List.any_cons, hdanger, ih.2]

/-- **The marks of an accepted request.** -/
theorem generate_marks {d : Dialect} {schema table : Text} {ops : List Operation} {p : Preview}
    (h : generate d.name schema table ops = .ok p) :
    p.statements.any Statement.destructive = ops.any (isDestructive d) ∧
      p.risks.any Risk.isDanger = ops.any isDangerous := by
  obtain ⟨-, -, outs, hall, hstatements, hrisks⟩ := generate_ok h
  rw [hstatements, hrisks]
  exact marks_all (hall.imp fun _ _ hout => generateOperation_marks hout)

/-! ## The save button -/

/-- The flag of the request that the schema workspace sends, if it sends one; `answer` is what the
user answers in the dialog about the danger. -/
def saveFlag (ops : List Operation) (p : Preview) (answer : Bool) : Option Bool :=
  if ops = [] then none
  else
    let dangerous := p.risks.any Risk.isDanger
    if dangerous && !answer then none else some dangerous

section

variable (rt : Runtime) {δ τ : Type} (db : Database δ τ) (s : Service) (x : δ) (now : Int)
  (d : Dialect) (scope : Text) (before : Table) (ops : List Operation)

/-- Whatever is saved, at any time and in any scope, is not answered with the demand for a
confirmation. The service may have run other tokens meanwhile. -/
def SaveNeverDeadEnds : Prop :=
  ∀ p, preview rt s now d.name scope before ops = .ok p →
    ∀ answer flag, saveFlag ops p answer = some flag →
      ∀ (t : Service) (time : Int) (scope' fingerprint : Text), t.secret = s.secret →
        (execute rt db t x time scope' fingerprint p.token flag).2.2.error ≠ some .confirmation

/-- The generator accepts the request. -/
def Accepted : Prop := ∃ p, generate d.name before.schema before.name ops = .ok p

theorem exists_preview (h : Accepted d before ops) :
    ∃ p, preview rt s now d.name scope before ops = .ok p := by
  obtain ⟨q, hq⟩ := h
  exact ⟨_, by rw [preview, hq]; rfl⟩

/-- **The token of a preview, executed with a flag: when the answer is the demand for a
confirmation.** -/
theorem execute_preview_iff {p : Preview}
    (h : preview rt s now d.name scope before ops = .ok p) (t : Service)
    (hsecret : t.secret = s.secret) (time : Int) (scope' fingerprint : Text) (flag : Bool) :
    (execute rt db t x time scope' fingerprint p.token flag).2.2.error = some .confirmation ↔
      unix time ≤ unix (now + s.ttl) ∧ scope = scope' ∧ p.fingerprint = fingerprint ∧
        flag = false ∧ ops.any (isDestructive d) = true := by
  obtain ⟨q, hq, hstatements, -, -, htoken⟩ := preview_ok rt h
  rw [execute_confirmation_iff, htoken, verify_sign rt hsecret]
  by_cases hexpired : unix time > unix (now + s.ttl)
  · rw [if_pos hexpired]
    constructor
    · rintro ⟨data, hdata, -⟩
      exact absurd hdata (by simp)
    · rintro ⟨hle, -⟩
      omega
  · rw [if_neg hexpired]
    simp only [Except.ok.injEq, exists_eq_left']
    rw [hstatements, (generate_marks hq).1]
    constructor
    · intro hall
      exact ⟨by omega, hall⟩
    · rintro ⟨-, hall⟩
      exact hall

/-- **Saving never dead-ends on the confirmation exactly when a danger is among the operations or
none of them is destructive.** -/
theorem save_never_deadEnds_iff :
    SaveNeverDeadEnds rt db s x now d scope before ops ↔
      (Accepted d before ops →
        ops.any isDangerous = true ∨ ops.any (isDestructive d) = false) := by
  constructor
  · intro hsave haccepted
    obtain ⟨p, hp⟩ := exists_preview rt s now d scope before ops haccepted
    obtain ⟨q, hq, -, hrisks, -⟩ := preview_ok rt hp
    cases hdanger : ops.any isDangerous with
    | true => exact Or.inl rfl
    | false =>
      right
      by_contra hdestructive
      rw [Bool.not_eq_false] at hdestructive
      have hne : ops ≠ [] := by
        rintro rfl
        rw [List.any_nil] at hdestructive
        exact absurd hdestructive (by decide)
      have hflag : saveFlag ops p true = some false := by
        rw [saveFlag, if_neg hne, hrisks, (generate_marks hq).2, hdanger]
        rfl
      refine hsave p hp true false hflag s now scope p.fingerprint rfl ?_
      rw [execute_preview_iff rt db s x now d scope before ops hp s rfl]
      exact ⟨unix_le_expires s now, rfl, rfl, rfl, hdestructive⟩
  · intro hops p hp answer flag hflag t time scope' fingerprint hsecret herror
    obtain ⟨q, hq, -, hrisks, -⟩ := preview_ok rt hp
    rw [execute_preview_iff rt db s x now d scope before ops hp t hsecret] at herror
    obtain ⟨-, -, -, rfl, hdestructive⟩ := herror
    rcases hops ⟨q, hq⟩ with hdanger | hnone
    · unfold saveFlag at hflag
      rw [hrisks, (generate_marks hq).2, hdanger] at hflag
      split_ifs at hflag
      exact absurd hflag (by simp)
    · exact absurd (hnone.symm.trans hdestructive) (by decide)

end

/-- The index of a table cannot be dropped: the workspace sends the request without the flag. -/
theorem drop_index_deadEnds :
    ¬ ∀ (rt : Runtime) (δ τ : Type) (db : Database δ τ) (s : Service) (x : δ) (now : Int)
      (d : Dialect) (scope : Text) (before : Table) (ops : List Operation),
      SaveNeverDeadEnds rt db s x now d scope before ops := by
  intro hclaim
  let rt := jsonRuntime (fun _ _ => []) (fun _ => [])
  let db : Database Unit Unit :=
    ⟨fun x _ => (x, none), fun x => (x, .ok ()), fun t _ => (t, none), fun x _ => x,
      fun x _ => (x, none)⟩
  let s := newService "secret".toList 0
  let before : Table :=
    { (default : Table) with schema := "public".toList, name := "articles".toList }
  let op : Operation :=
    { (default : Operation) with kind := "drop_index".toList, name := "idx_title".toList }
  have haccepted : Accepted .postgres before [op] := ⟨_, rfl⟩
  obtain ⟨p, hp⟩ := exists_preview rt s 0 .postgres [] before [op] haccepted
  obtain ⟨q, hq, -, hrisks, -⟩ := preview_ok rt hp
  have hflag : saveFlag [op] p true = some false := by
    rw [saveFlag, if_neg (List.cons_ne_nil _ _), hrisks, (generate_marks hq).2]
    decide +kernel
  refine hclaim rt Unit Unit db s () 0 .postgres [] before [op] p hp true false hflag s 0 []
    p.fingerprint rfl ?_
  rw [execute_preview_iff rt db s () 0 .postgres [] before [op] hp s rfl]
  exact ⟨unix_le_expires s 0, rfl, rfl, rfl, by decide +kernel⟩

end Workbench.Schema
