import Workbench.Web.Ddl

/-!
# Switching databases and administrative DDL

`DatabaseWorkbench.tsx`: `switchDatabase`, `handleCreateTableSubmit` and `handleDeleteDatabase`, over the
database that the server's connection is at. The switch is a request of its own, which can be lost on
either way or refused; whatever happens to it is an input here (`Outcomes`). The routine deals with the
failure itself and returns as it does after a success.
-/

set_option autoImplicit false

namespace Workbench.Web

/-! ## Statements -/

structure CreateTableColumn where
  name : Text
  type : Text
  comment : Text
  primary : Bool
  deriving DecidableEq, Repr

def sqlStringLiteral (value : Text) : Text :=
  '\'' :: (value.flatMap (fun c => if c = '\'' then ['\'', '\''] else [c]) ++ ['\''])

def joinWith (separator : Text) (items : List Text) : Text := List.intercalate separator items

def buildColumnDef (driver : Dialect) (column : CreateTableColumn) (inlinePrimary : Bool) : Text :=
  let comment := trim column.comment
  let primary := if inlinePrimary && column.primary then " PRIMARY KEY".toList else []
  let note :=
    if driver = .mysql ∧ comment ≠ [] ∧ !comment.any (fun c => c = ';' || c = '\x00') then
      " COMMENT ".toList ++ sqlStringLiteral comment
    else []
  quoteIdent driver column.name ++ (' ' :: (column.type ++ (primary ++ note)))

/-- In MySQL the table is named alone, so it lands in the current database of the connection. -/
def tableRef (driver : Dialect) (schema name : Text) : Text :=
  match driver with
  | .postgres => identRef driver schema ++ ('.' :: identRef driver name)
  | .mysql => identRef driver name

def buildCreateTableSQL (driver : Dialect) (schema name : Text) (columns : List CreateTableColumn) :
    Text :=
  let table := tableRef driver schema name
  let pkColumns := (columns.filter (·.primary)).map fun column => quoteIdent driver column.name
  let defs := columns.map fun column => buildColumnDef driver column (pkColumns.length = 1)
  let defs := if pkColumns.length > 1 then
      defs ++ ["PRIMARY KEY (".toList ++ (joinWith ", ".toList pkColumns ++ [')'])]
    else defs
  let create := "CREATE TABLE ".toList ++
    (table ++ (" (\n  ".toList ++ (joinWith ",\n  ".toList defs ++ "\n);".toList)))
  let comments := match driver with
    | .mysql => []
    | .postgres => (columns.filter fun column => trim column.comment ≠ []).map fun column =>
      "COMMENT ON COLUMN ".toList ++ (table ++ ('.' :: (quoteIdent driver column.name ++
        (" IS ".toList ++ (sqlStringLiteral (trim column.comment) ++ [';'])))))
  joinWith ['\n'] (create :: comments)

/-! ## The workbench and its connection -/

/-- What the handlers read of the component, with the database that the server's handle of the
connection is at. -/
structure Workspace where
  driver : Dialect
  connectionId : Text
  activeDatabase : Text
  databases : List Text
  current : Text
  deriving DecidableEq, Repr

/-- What happens on the way: whether the switch request arrives, whether the server can open the
database, whether its answer comes back, the requests behind it, and the user's confirmation. -/
structure Outcomes where
  arrives : Bool
  opened : Bool
  answered : Bool
  metadata : Bool
  listed : Option (List Text)
  confirmed : Bool
  executed : Bool
  relisted : Option (List Text)
  deriving DecidableEq, Repr

/-- A statement that was sent, and the database of the connection it arrives on. -/
structure Sent where
  sql : Text
  database : Text
  deriving DecidableEq, Repr

/-- `POST /api/connections/{id}/database`: the answer, and the database of the handle behind it. -/
def serverSwitch (current database : Text) (opened : Bool) : Option Text × Text :=
  if database = [] then (none, current)
  else if database = current then (some current, current)
  else if opened then (some database, database)
  else (none, current)

/-- `api.switchDatabase`: what the promise resolves to, `none` when it is rejected. -/
def requestSwitch (w : Workspace) (o : Outcomes) (database : Text) : Option Text × Text :=
  if o.arrives then
    let (answer, current) := serverSwitch w.current database o.opened
    (if o.answered then answer else none, current)
  else (none, w.current)

/-- `refreshDatabases`. -/
def refreshDatabases (w : Workspace) : Option (List Text) → Workspace
  | none => w
  | some names => { w with databases := names, activeDatabase := w.current }

/-- `switchDatabase`. A rejected request only leaves a message behind. -/
def switchDatabase (w : Workspace) (o : Outcomes) (database : Text) : Workspace :=
  if w.connectionId = [] ∨ database = w.activeDatabase then w
  else
    let (answer, current) := requestSwitch w o database
    let w := { w with current := current }
    match answer with
    | none => w
    | some name =>
      let w := { w with activeDatabase := name }
      if o.metadata then refreshDatabases w o.listed else w

/-- `executeAdminSql`: the statement goes to the connection as it is. -/
def executeAdminSql (w : Workspace) (sql : Text) : List Sent := [⟨sql, w.current⟩]

def handleCreateTableSubmit (w : Workspace) (o : Outcomes) (database tableName : Text)
    (columns : List CreateTableColumn) : Workspace × List Sent :=
  if w.connectionId = [] then (w, [])
  else
    let w' := if database ≠ w.activeDatabase then switchDatabase w o database else w
    let schema := if w.driver = .postgres then "public".toList else database
    (w', executeAdminSql w' (buildCreateTableSQL w.driver schema tableName columns))

/-- The database to go to before the active one is dropped. -/
def fallbackDatabase (w : Workspace) (database : Text) : Text :=
  (w.databases.find? fun name => name ≠ database).getD
    (if w.driver = .postgres then "postgres".toList else [])

def handleDeleteDatabase (w : Workspace) (o : Outcomes) (database : Text) : Workspace × List Sent :=
  if w.connectionId = [] ∨ !o.confirmed then (w, [])
  else if database = w.activeDatabase ∧ fallbackDatabase w database = [] then (w, [])
  else
    let w' := if database = w.activeDatabase then switchDatabase w o (fallbackDatabase w database) else w
    let sent := executeAdminSql w' (buildDropDatabaseSQL w.driver database)
    (if o.executed then refreshDatabases w' o.relisted else w', sent)

inductive AdminCall where
  | switch (database : Text)
  | createTable (database tableName : Text) (columns : List CreateTableColumn)
  | deleteDatabase (database : Text)

namespace AdminCall

def run (w : Workspace) (o : Outcomes) : AdminCall → Workspace × List Sent
  | switch database => (switchDatabase w o database, [])
  | createTable database tableName columns => handleCreateTableSubmit w o database tableName columns
  | deleteDatabase database => handleDeleteDatabase w o database

/-- Deleting a database asks the server to switch first, and the request fails. -/
def SwitchFails (w : Workspace) (o : Outcomes) (database : Text) : Prop :=
  w.connectionId ≠ [] ∧ o.confirmed = true ∧ database = w.activeDatabase ∧
    fallbackDatabase w database ≠ [] ∧ fallbackDatabase w database ≠ w.activeDatabase ∧
    (requestSwitch w o (fallbackDatabase w database)).1 = none

/-- What the user may rely on: a table is created in the database that was named, and nothing is dropped
after a switch that failed. -/
def HitsNamed (w : Workspace) (o : Outcomes) (call : AdminCall) : Prop :=
  match call with
  | switch _ => True
  | createTable database _ _ => ∀ s ∈ (call.run w o).2, s.database = database
  | deleteDatabase database => SwitchFails w o database → (call.run w o).2 = []

/-- The connection is at the database, or the request gets it there; and no failing switch stands in
front of a drop. -/
def Reaches (w : Workspace) (o : Outcomes) : AdminCall → Prop
  | switch _ => True
  | createTable database _ _ =>
    w.connectionId = [] ∨ w.current = database ∨
      (database ≠ w.activeDatabase ∧ database ≠ [] ∧ o.arrives = true ∧ o.opened = true)
  | deleteDatabase database => ¬SwitchFails w o database

end AdminCall

/-! ## The switch -/

/-- Where the connection is behind a switch request. -/
theorem requestSwitch_current (w : Workspace) (o : Outcomes) (database : Text) :
    (requestSwitch w o database).2 = database ↔
      w.current = database ∨ (database ≠ [] ∧ o.arrives = true ∧ o.opened = true) := by
  cases harrives : o.arrives with
  | false => simp [requestSwitch, harrives]
  | true =>
    by_cases hempty : database = []
    · simp [requestSwitch, serverSwitch, harrives, hempty]
    · by_cases hsame : database = w.current
      · simp [requestSwitch, serverSwitch, harrives, hempty, ← hsame]
      · cases hopened : o.opened with
        | false => simp [requestSwitch, serverSwitch, harrives, hempty, hsame, hopened]
        | true => simp [requestSwitch, serverSwitch, harrives, hempty, hsame, hopened]

/-- If no answer is lost, the answer says where the connection is. -/
theorem requestSwitch_knows {w : Workspace} {o : Outcomes} (hanswered : o.arrives = true → o.answered = true)
    (database : Text) : (requestSwitch w o database).2 = (requestSwitch w o database).1.getD w.current := by
  cases harrives : o.arrives with
  | false => simp [requestSwitch, harrives]
  | true =>
    simp only [requestSwitch, serverSwitch, harrives, hanswered harrives, if_true]
    split_ifs with hempty hsame hopened
    · rfl
    · rfl
    · rfl
    · rfl

@[simp] theorem refreshDatabases_current (w : Workspace) (listed : Option (List Text)) :
    (refreshDatabases w listed).current = w.current := by
  cases listed with
  | none => rfl
  | some names => rfl

theorem switchDatabase_current {w : Workspace} {o : Outcomes} {database : Text}
    (hconnected : w.connectionId ≠ []) (hother : database ≠ w.activeDatabase) :
    (switchDatabase w o database).current = (requestSwitch w o database).2 := by
  rw [switchDatabase, if_neg (by simp [hconnected, hother])]
  cases hanswer : (requestSwitch w o database).1 with
  | none => simp only [hanswer]
  | some name =>
    simp only [hanswer]
    split
    · rw [refreshDatabases_current]
    · rfl

/-! ## What the statements hit -/

theorem createTable_hits_iff (w : Workspace) (o : Outcomes) (database tableName : Text)
    (columns : List CreateTableColumn) :
    (AdminCall.createTable database tableName columns).HitsNamed w o ↔
      (AdminCall.createTable database tableName columns).Reaches w o := by
  show (∀ s ∈ (handleCreateTableSubmit w o database tableName columns).2, s.database = database) ↔ _
  by_cases hconnected : w.connectionId = []
  · simp [handleCreateTableSubmit, AdminCall.Reaches, hconnected]
  · by_cases hother : database = w.activeDatabase
    · subst hother
      simp [handleCreateTableSubmit, executeAdminSql, AdminCall.Reaches, hconnected]
    · -- The statement arrives wherever the switch has left the connection.
      have hsent : (handleCreateTableSubmit w o database tableName columns).2 =
          executeAdminSql (switchDatabase w o database)
            (buildCreateTableSQL w.driver (if w.driver = .postgres then "public".toList else database)
              tableName columns) := by
        simp only [handleCreateTableSubmit, hconnected, if_false, ne_eq, hother, not_false_eq_true,
          if_true]
      rw [hsent, executeAdminSql, List.forall_mem_singleton,
        switchDatabase_current hconnected hother, requestSwitch_current]
      simp [AdminCall.Reaches, hconnected, hother]

theorem deleteDatabase_hits_iff (w : Workspace) (o : Outcomes) (database : Text) :
    (AdminCall.deleteDatabase database).HitsNamed w o ↔
      (AdminCall.deleteDatabase database).Reaches w o := by
  constructor
  · intro hits hfails
    have hnone : (handleDeleteDatabase w o database).2 = [] := hits hfails
    obtain ⟨hconnected, hconfirmed, hactive, hfallback, _⟩ := hfails
    have hgo : ¬(w.connectionId = [] ∨ (!o.confirmed) = true) := by
      simp [hconnected, hconfirmed]
    have hthere : ¬(database = w.activeDatabase ∧ fallbackDatabase w database = []) := fun h =>
      hfallback h.2
    rw [handleDeleteDatabase, if_neg hgo, if_neg hthere] at hnone
    cases hnone
  · intro hreaches hfails
    exact absurd hfails hreaches

/-- Administrative DDL hits the database the user named exactly when the connection is there or gets
there, and no failing switch stands in front of a drop. -/
theorem hits_named_iff (w : Workspace) (o : Outcomes) (call : AdminCall) :
    call.HitsNamed w o ↔ call.Reaches w o := by
  cases call with
  | switch database => exact Iff.rfl
  | createTable database tableName columns => exact createTable_hits_iff w o database tableName columns
  | deleteDatabase database => exact deleteDatabase_hits_iff w o database

/-- A MySQL connection at `a`, and a server that cannot open another database. -/
def atA : Workspace := ⟨.mysql, "c".toList, "a".toList, ["a".toList, "b".toList], "a".toList⟩

def refused : Outcomes := ⟨true, false, true, true, none, true, true, none⟩

/-- The table named for `b` is created in `a`, and `a` is dropped after the switch away from it
failed. -/
theorem atA_refused_misses :
    ¬(AdminCall.createTable "b".toList "t".toList []).HitsNamed atA refused ∧
      ¬(AdminCall.deleteDatabase "a".toList).HitsNamed atA refused := by
  constructor
  · intro hits
    have := hits ⟨buildCreateTableSQL .mysql "b".toList "t".toList [], "a".toList⟩ (by decide)
    exact absurd this (by decide)
  · intro hits
    have := hits ⟨by decide, rfl, rfl, by decide, by decide, rfl⟩
    exact absurd this (by decide)

/-! ## Runs -/

/-- The handlers one after the other. -/
def runCalls (w : Workspace) : List (AdminCall × Outcomes) → Workspace
  | [] => w
  | (call, o) :: rest => runCalls (call.run w o).1 rest

/-- The component and the server agree on the database. -/
def Workspace.Synced (w : Workspace) : Prop := w.activeDatabase = w.current

theorem synced_refreshDatabases {w : Workspace} (h : w.Synced) (listed : Option (List Text)) :
    (refreshDatabases w listed).Synced := by
  cases listed with
  | none => exact h
  | some names => rfl

/-- Unless the answer to a request that arrived is lost, the component knows where the connection is. -/
theorem synced_switchDatabase {w : Workspace} {o : Outcomes} (h : w.Synced)
    (hanswered : o.arrives = true → o.answered = true) (database : Text) :
    (switchDatabase w o database).Synced := by
  have hknows := requestSwitch_knows (w := w) hanswered database
  rw [switchDatabase]
  split
  · exact h
  · cases hanswer : (requestSwitch w o database).1 with
    | none =>
      rw [hanswer] at hknows
      simp only [hanswer]
      exact h.trans hknows.symm
    | some name =>
      rw [hanswer] at hknows
      simp only [hanswer]
      split
      · apply synced_refreshDatabases
        exact hknows.symm
      · exact hknows.symm

theorem synced_run {w : Workspace} {o : Outcomes} (h : w.Synced)
    (hanswered : o.arrives = true → o.answered = true) (call : AdminCall) : (call.run w o).1.Synced := by
  cases call with
  | switch database => exact synced_switchDatabase h hanswered database
  | createTable database tableName columns =>
    show (handleCreateTableSubmit w o database tableName columns).1.Synced
    rw [handleCreateTableSubmit]
    split
    · exact h
    · show (if database ≠ w.activeDatabase then switchDatabase w o database else w).Synced
      split
      · exact synced_switchDatabase h hanswered database
      · exact h
  | deleteDatabase database =>
    show (handleDeleteDatabase w o database).1.Synced
    have hbehind : (if database = w.activeDatabase then
        switchDatabase w o (fallbackDatabase w database) else w).Synced := by
      split
      · exact synced_switchDatabase h hanswered _
      · exact h
    rw [handleDeleteDatabase]
    split
    · exact h
    · split
      · exact h
      · show (if o.executed then refreshDatabases _ o.relisted else _).Synced
        split
        · exact synced_refreshDatabases hbehind _
        · exact hbehind

/-- In a run without lost answers the component always knows where the connection is. -/
theorem synced_runCalls (calls : List (AdminCall × Outcomes)) :
    ∀ {w : Workspace}, w.Synced → (∀ c ∈ calls, c.2.arrives = true → c.2.answered = true) →
      (runCalls w calls).Synced := by
  induction calls with
  | nil =>
    intro w h _
    exact h
  | cons c rest ih =>
    intro w h hanswered
    apply ih
    · exact synced_run h (hanswered c List.mem_cons_self) c.1
    · intro d hd
      exact hanswered d (List.mem_cons_of_mem c hd)

/-- **Behind a run without lost answers, a table for the active database is created there.** -/
theorem createTable_active_hits {w : Workspace} (calls : List (AdminCall × Outcomes)) (h : w.Synced)
    (hanswered : ∀ c ∈ calls, c.2.arrives = true → c.2.answered = true) (o : Outcomes)
    (tableName : Text) (columns : List CreateTableColumn) :
    (AdminCall.createTable (runCalls w calls).activeDatabase tableName columns).HitsNamed
      (runCalls w calls) o :=
  (createTable_hits_iff _ o _ tableName columns).2 (Or.inr (Or.inl (synced_runCalls calls h hanswered).symm))

/-- A switch that the server refuses leaves the component at `a`. -/
theorem createTable_active_hits_refused :
    (AdminCall.createTable "a".toList "t".toList []).HitsNamed
      (runCalls atA [(.switch "b".toList, refused)]) refused :=
  createTable_active_hits (w := atA) [(.switch "b".toList, refused)] rfl
    (fun _ hc _ => (List.mem_singleton.1 hc) ▸ rfl) refused "t".toList []

end Workbench.Web
