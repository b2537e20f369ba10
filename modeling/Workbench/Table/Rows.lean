import Workbench.Session.Store
import Workbench.Table.Mutation

/-!
# The handler of row mutations

`POST /api/connections/{id}/rows/{operation}` of `api/internal/httpapi/router.go`, with `ExecuteOne` of
`api/internal/table/service.go`. What a statement does to the data, what it reports, and how a commit ends
are parameters: they are asked of the database. The data may be of any type.

`allOrNothing_iff` says when an error of the handler leaves the data as it was. A transaction of the handler
itself is rolled back; in a transaction that the caller has opened, the statement stays done.
-/

set_option autoImplicit false

namespace Workbench.Table

open Workbench.Lib Workbench.Session

variable {δ V : Type}

structure ApiError where
  status : Nat
  code : Text
  message : Text
  deriving DecidableEq, Repr

namespace ApiError

def invalidSession : ApiError := ⟨401, "invalid_session".toList, "会话不存在或已过期".toList⟩

def connectionNotFound : ApiError := ⟨404, "connection_not_found".toList, "连接不存在或已过期".toList⟩

def requestTooLarge : ApiError := ⟨413, "request_too_large".toList, "请求内容超过大小限制".toList⟩

def invalidJson : ApiError := ⟨400, "invalid_json".toList, "请求内容格式不正确".toList⟩

def operationNotFound : ApiError := ⟨404, "operation_not_found".toList, "不支持的数据操作".toList⟩

def uniqueKeyRequired : ApiError :=
  ⟨422, "unique_key_required".toList, "修改或删除需要主键或唯一键".toList⟩

def invalidMutation : ApiError := ⟨400, "invalid_mutation".toList, "数据修改请求无效".toList⟩

def transactionNotFound : ApiError := ⟨404, "transaction_not_found".toList, "事务不存在或已过期".toList⟩

def mutationFailed : ApiError := ⟨409, "mutation_failed".toList, "数据修改未影响恰好一行".toList⟩

def transactionFailed : ApiError := ⟨502, "transaction_failed".toList, "无法开始数据修改".toList⟩

def commitFailed : ApiError := ⟨502, "commit_failed".toList, "数据修改提交失败".toList⟩

/-- The answer to an error of the builders. -/
def ofBuild : BuildError → ApiError
  | .uniqueKeyRequired => uniqueKeyRequired
  | _ => invalidMutation

end ApiError

/-- How the body of a request is decoded. -/
inductive RowsBody (V : Type) where
  | tooLarge
  | malformed
  | decoded (mutation : Mutation V) (transactionID : Text)

structure RowsRequest (V : Type) where
  sessionID : Text
  connectionID : Text
  operation : Text
  body : RowsBody V

/-- What `ExecContext` and `RowsAffected` give, and the data that the transaction sees then. -/
inductive Execution (δ : Type) where
  | failed (after : δ)
  | done (after : δ) (affected : Option Int)

namespace Execution

def after : Execution δ → δ
  | failed after => after
  | done after _ => after

/-- Whether `ExecuteOne` returns no error: the statement ran and reports one row. -/
def affectedOne : Execution δ → Bool
  | failed _ => false
  | done _ affected => affected == some 1

end Execution

/-- How `Commit` ends: a commit that reports an error may have been applied all the same. -/
inductive Commit where
  | committed
  | failed (applied : Bool)
  deriving DecidableEq, Repr

/-- What the handler asks of the session store and of the database. -/
structure Dependencies (δ V : Type) where
  hasSession : Text → Bool
  getConnection : Text → Text → Option (Option Dialect)
  begins : Bool
  exec : δ → Statement V → Execution δ
  commit : Commit

/-- The data of the database, and the data that is seen inside the open transactions by scope and id. -/
structure Data (δ : Type) where
  database : δ
  transactions : Lib.Table (Text × Text) δ

/-- The builder of an operation. -/
def buildStatement (operation : Text) (driver : Option Dialect) (mutation : Mutation V) :
    Except ApiError (Statement V) :=
  if operation = "insert".toList then (buildInsert driver mutation).mapError ApiError.ofBuild
  else if operation = "update".toList then (buildUpdate driver mutation).mapError ApiError.ofBuild
  else if operation = "delete".toList then (buildDelete driver mutation).mapError ApiError.ofBuild
  else .error .operationNotFound

namespace RowsRequest

def scope (r : RowsRequest V) : Text := queryScope r.sessionID r.connectionID

/-- The transaction that the request names. -/
def transactionID (r : RowsRequest V) : Text :=
  match r.body with
  | .decoded _ transactionID => transactionID
  | _ => []

/-- `decodeJSON`. -/
def decode (r : RowsRequest V) : Except ApiError (Mutation V) :=
  match r.body with
  | .tooLarge => .error .requestTooLarge
  | .malformed => .error .invalidJson
  | .decoded mutation _ => .ok mutation

/-- The checks in front of the execution, down to the statement. -/
def statement (deps : Dependencies δ V) (r : RowsRequest V) : Except ApiError (Statement V) :=
  if r.sessionID = [] ∨ deps.hasSession r.sessionID = false then .error .invalidSession
  else
    match deps.getConnection r.sessionID r.connectionID with
    | none => .error .connectionNotFound
    | some driver => do
      let mutation ← r.decode
      buildStatement r.operation driver mutation

end RowsRequest

/-- The execution in the transaction that the request names. -/
def executeNamed (deps : Dependencies δ V) (key : Text × Text) (statement : Statement V) (s : Data δ) :
    Except ApiError Unit × Data δ :=
  match s.transactions.lookup key with
  | none => (.error .transactionNotFound, s)
  | some data =>
    let run := deps.exec data statement
    let s' : Data δ := ⟨s.database, s.transactions.insert key run.after⟩
    if run.affectedOne then (.ok (), s') else (.error .mutationFailed, s')

/-- The execution in a transaction of its own. -/
def executeOwn (deps : Dependencies δ V) (statement : Statement V) (s : Data δ) :
    Except ApiError Unit × Data δ :=
  if deps.begins = false then (.error .transactionFailed, s)
  else
    let run := deps.exec s.database statement
    -- the error of the rollback is dropped, and the database rolls back without it
    if run.affectedOne = false then (.error .mutationFailed, s)
    else
      match deps.commit with
      | .committed => (.ok (), ⟨run.after, s.transactions⟩)
      | .failed true => (.error .commitFailed, ⟨run.after, s.transactions⟩)
      | .failed false => (.error .commitFailed, s)

def rows (deps : Dependencies δ V) (r : RowsRequest V) (s : Data δ) : Except ApiError Unit × Data δ :=
  match r.statement deps with
  | .error e => (.error e, s)
  | .ok statement =>
    if r.transactionID = [] then executeOwn deps statement s
    else executeNamed deps (r.scope, r.transactionID) statement s

/-! ## The statement -/

/-- The data a request is about: inside the transaction it names, else in the database. -/
def Data.visible (s : Data δ) (r : RowsRequest V) : Option δ :=
  if r.transactionID = [] then some s.database else s.transactions.lookup (r.scope, r.transactionID)

/-- An error leaves the visible data as it was, and success means that the statement ran on it and
affected one row. -/
def AllOrNothing (deps : Dependencies δ V) (r : RowsRequest V) (s : Data δ) : Prop :=
  (∀ e, (rows deps r s).1 = .error e → (rows deps r s).2.visible r = s.visible r) ∧
    ((rows deps r s).1 = .ok () → ∃ statement data after, r.statement deps = .ok statement ∧
      s.visible r = some data ∧ deps.exec data statement = .done after (some 1) ∧
      (rows deps r s).2.visible r = some after)

/-- In the transaction of the caller, a statement that does not report one row changes nothing; in one of
the handler's own, a commit that reports an error has not been applied to a changed database. -/
def LeavesNothing (deps : Dependencies δ V) (r : RowsRequest V) (s : Data δ) : Prop :=
  ∀ statement, r.statement deps = .ok statement →
    (r.transactionID ≠ [] → ∀ data, s.transactions.lookup (r.scope, r.transactionID) = some data →
      (deps.exec data statement).affectedOne = false → (deps.exec data statement).after = data) ∧
    (r.transactionID = [] → deps.begins = true → deps.commit = .failed true →
      (deps.exec s.database statement).affectedOne = true →
        (deps.exec s.database statement).after = s.database)

theorem Execution.affectedOne_iff {run : Execution δ} :
    run.affectedOne = true ↔ run = .done run.after (some 1) := by
  cases run with
  | failed after => exact iff_of_false Bool.false_ne_true fun h => nomatch h
  | done after affected =>
    show (affected == some 1) = true ↔ Execution.done after affected = .done after (some 1)
    rw [beq_iff_eq, Execution.done.injEq, and_iff_right rfl]

section

variable {deps : Dependencies δ V} {r : RowsRequest V} {s : Data δ} {statement : Statement V}

theorem allOrNothing_of_error {e : ApiError} {s' : Data δ} (h : rows deps r s = (.error e, s')) :
    AllOrNothing deps r s ↔ s'.visible r = s.visible r := by
  unfold AllOrNothing
  rw [h]
  exact ⟨fun hall => hall.1 e rfl, fun hvisible => ⟨fun _ _ => hvisible, fun hok => nomatch hok⟩⟩

theorem allOrNothing_of_ok {s' : Data δ} {data : δ} (h : rows deps r s = (.ok (), s'))
    (hstatement : r.statement deps = .ok statement) (hdata : s.visible r = some data)
    (hone : (deps.exec data statement).affectedOne = true)
    (hafter : s'.visible r = some (deps.exec data statement).after) : AllOrNothing deps r s := by
  unfold AllOrNothing
  rw [h]
  refine ⟨fun e he => (nomatch he), fun _ => ?_⟩
  exact ⟨statement, data, _, hstatement, hdata, Execution.affectedOne_iff.1 hone, hafter⟩

/-! ## The two executions -/

theorem executeNamed_iff (hid : r.transactionID ≠ []) (hstatement : r.statement deps = .ok statement) :
    AllOrNothing deps r s ↔
      ∀ data, s.transactions.lookup (r.scope, r.transactionID) = some data →
        (deps.exec data statement).affectedOne = false → (deps.exec data statement).after = data := by
  have hrows : rows deps r s = executeNamed deps (r.scope, r.transactionID) statement s := by
    rw [rows, hstatement]
    exact if_neg hid
  have hvisible : ∀ s : Data δ, s.visible r = s.transactions.lookup (r.scope, r.transactionID) :=
    fun s => if_neg hid
  unfold executeNamed at hrows
  cases hlookup : s.transactions.lookup (r.scope, r.transactionID) with
  | none =>
    rw [hlookup] at hrows
    rw [allOrNothing_of_error hrows]
    exact iff_of_true rfl fun data h => nomatch h
  | some data =>
    rw [hlookup] at hrows
    dsimp only at hrows
    have hinside : (⟨s.database, s.transactions.insert (r.scope, r.transactionID)
        (deps.exec data statement).after⟩ : Data δ).visible r =
          some (deps.exec data statement).after := by
      rw [hvisible]
      exact AList.lookup_insert _
    cases hone : (deps.exec data statement).affectedOne with
    | true =>
      rw [hone, if_pos rfl] at hrows
      refine iff_of_true (allOrNothing_of_ok hrows hstatement ((hvisible s).trans hlookup) hone hinside) ?_
      intro data' hdata' hfalse
      cases hdata'
      rw [hone] at hfalse
      cases hfalse
    | false =>
      -- the statement is done, and nobody takes it back
      rw [hone, if_neg Bool.false_ne_true] at hrows
      rw [allOrNothing_of_error hrows, hinside, hvisible, hlookup, Option.some.injEq]
      constructor
      · intro hafter data' hdata' _
        cases hdata'
        exact hafter
      · exact fun h => h data rfl hone

theorem executeOwn_iff (hid : r.transactionID = []) (hstatement : r.statement deps = .ok statement) :
    AllOrNothing deps r s ↔
      (deps.begins = true → deps.commit = .failed true →
        (deps.exec s.database statement).affectedOne = true →
          (deps.exec s.database statement).after = s.database) := by
  have hrows : rows deps r s = executeOwn deps statement s := by
    rw [rows, hstatement]
    exact if_pos hid
  have hvisible : ∀ s : Data δ, s.visible r = some s.database := fun s => if_pos hid
  unfold executeOwn at hrows
  cases hbegins : deps.begins with
  | false =>
    rw [hbegins, if_pos rfl] at hrows
    rw [allOrNothing_of_error hrows]
    exact iff_of_true rfl fun h => nomatch h
  | true =>
    rw [hbegins, if_neg (fun h => nomatch h)] at hrows
    dsimp only at hrows
    cases hone : (deps.exec s.database statement).affectedOne with
    | false =>
      rw [hone, if_pos rfl] at hrows
      rw [allOrNothing_of_error hrows]
      exact iff_of_true rfl fun _ _ h => nomatch h
    | true =>
      rw [hone, if_neg (fun h => nomatch h)] at hrows
      cases hcommit : deps.commit with
      | committed =>
        rw [hcommit] at hrows
        refine iff_of_true ?_ fun _ h => nomatch h
        exact allOrNothing_of_ok hrows hstatement (hvisible s) hone (hvisible _)
      | failed applied =>
        rw [hcommit] at hrows
        cases applied with
        | false =>
          rw [allOrNothing_of_error hrows]
          exact iff_of_true rfl fun _ h => nomatch h
        | true =>
          rw [allOrNothing_of_error hrows, hvisible, hvisible, Option.some.injEq]
          exact ⟨fun h _ _ _ => h, fun h => h rfl rfl rfl⟩

end

/-- The handler is all or nothing exactly when what it cannot take back has changed nothing. -/
theorem allOrNothing_iff (deps : Dependencies δ V) (r : RowsRequest V) (s : Data δ) :
    AllOrNothing deps r s ↔ LeavesNothing deps r s := by
  cases hstatement : r.statement deps with
  | error e =>
    have hrows : rows deps r s = (.error e, s) := by
      rw [rows, hstatement]
    have hleaves : LeavesNothing deps r s := fun statement h => nomatch hstatement.symm.trans h
    exact iff_of_true ((allOrNothing_of_error hrows).2 rfl) hleaves
  | ok statement =>
    have hunique : ∀ statement', r.statement deps = .ok statement' → statement' = statement :=
      fun statement' h => (Except.ok.inj (hstatement.symm.trans h)).symm
    by_cases hid : r.transactionID = []
    · rw [executeOwn_iff hid hstatement]
      constructor
      · intro h statement' h'
        obtain rfl := hunique statement' h'
        exact ⟨fun hne => absurd hid hne, fun _ => h⟩
      · exact fun h => (h statement hstatement).2 hid
    · rw [executeNamed_iff hid hstatement]
      constructor
      · intro h statement' h'
        obtain rfl := hunique statement' h'
        exact ⟨fun _ => h, fun hnil => absurd hnil hid⟩
      · exact fun h => (h statement hstatement).1 hid

/-- Deleting by a name, in an open transaction. -/
def deleteByName : RowsRequest Text :=
  ⟨"s1".toList, "c1".toList, "delete".toList,
    .decoded ⟨[], "people".toList, ∅, (∅ : Lib.Table Text Text).insert "name".toList "Ada".toList⟩
      "t1".toList⟩

/-- A database whose data are the names of the rows. -/
def namesDatabase : Dependencies (List Text) Text where
  hasSession := fun _ => true
  getConnection := fun _ _ => some (some .postgres)
  begins := true
  exec := fun names statement =>
    .done (names.filter fun name => !statement.args.contains name)
      (some (names.filter fun name => statement.args.contains name).length)
  commit := .committed

theorem deleteByName_statement : deleteByName.statement namesDatabase =
    .ok ⟨.postgres, [], "people".toList, .delete [⟨"name".toList, 1⟩], ["Ada".toList]⟩ := by
  have hkeys : sortedKeys ((∅ : Lib.Table Text Text).insert "name".toList "Ada".toList) = ["name".toList] :=
    List.mergeSort_singleton _
  have hpredicates : predicates (some .postgres)
      ((∅ : Lib.Table Text Text).insert "name".toList "Ada".toList) [] =
        .ok ([⟨"name".toList, 1⟩], ["Ada".toList]) := by
    rw [predicates, hkeys]
    rfl
  show (buildDelete (some .postgres) ⟨[], "people".toList, ∅,
    (∅ : Lib.Table Text Text).insert "name".toList "Ada".toList⟩).mapError ApiError.ofBuild = _
  rw [buildDelete, if_neg (by decide), hpredicates]
  rfl

/-- Two rows have the name: both are gone from the transaction, and the answer is an error. -/
theorem failed_delete_stays :
    ¬AllOrNothing namesDatabase deleteByName
      ⟨[], (∅ : Lib.Table (Text × Text) (List Text)).insert (deleteByName.scope, "t1".toList)
        ["Ada".toList, "Ada".toList]⟩ := by
  rw [executeNamed_iff (by decide) deleteByName_statement]
  intro h
  have hafter := h ["Ada".toList, "Ada".toList] (AList.lookup_insert _) (by decide)
  exact absurd hafter (by decide)

end Workbench.Table
