import Workbench.Registry.Store

/-!
# The log store

`api/internal/logs/store.go`: who sees which log session, and the statements that write sessions, files,
entries and statistics. Lines come in parsed; a statement that violates a constraint does not go through.
-/

set_option autoImplicit false

namespace Workbench.Logs

open Workbench.Lib Workbench.Storage
open Workbench.Identity (Principal)
open Workbench.Registry (isSystemAdmin teamRole)

inductive Err where
  | forbidden
  | notFound
  | invalid
  | database
  deriving DecidableEq, Repr

structure Session where
  id : Text
  name : Text
  status : Text
  scope : Text
  ownerUserID : Text
  teamID : Text
  createdAt : Nat
  updatedAt : Nat
  errorMessage : Text
  fileCount : Nat
  serviceCount : Nat
  deriving DecidableEq, Repr

/-! ## Reading sessions -/

/-- The files of a session. -/
def filesOf (db : Db) (sessionID : Text) : List (Sigma fun _ : Text => LogFileRow) :=
  db.logFiles.entries.filter fun f => f.2.sessionID = sessionID

def sessionOf (id : Text) (row : LogSessionRow) (fileCount serviceCount : Nat) : Session where
  id := id
  name := row.name
  status := row.status
  scope := row.owner.scope
  ownerUserID := row.owner.ownerUserID.getD []
  teamID := row.owner.teamID.getD []
  createdAt := row.createdAt
  updatedAt := row.updatedAt
  errorMessage := row.errorMessage.getD []
  fileCount := fileCount
  serviceCount := serviceCount

/-- The `WHERE` of `ListSessions`. -/
def listed (actor : Principal) (db : Db) (row : LogSessionRow) : Bool :=
  row.owner.scope = "personal".toList && row.owner.ownerUserID = some actor.user.id ||
    row.owner.scope = "team".toList && (isSystemAdmin actor ||
      db.members.any fun id _ => row.owner.teamID = some id.1 && id.2 = actor.user.id)

/-- A session with its files joined to it and grouped, where both counts are of distinct values. -/
def joined (db : Db) (id : Text) (row : LogSessionRow) : Session :=
  sessionOf id row ((filesOf db id).map Sigma.fst).dedup.length
    ((filesOf db id).map fun f => f.2.serviceName).dedup.length

/-- `ORDER BY s.updated_at DESC, s.created_at DESC`. -/
def listOrder (a b : Session) : Bool :=
  if a.updatedAt = b.updatedAt then b.createdAt ≤ a.createdAt else b.updatedAt ≤ a.updatedAt

def listSessions (actor : Principal) (db : Db) : Except Err (List Session) :=
  if actor.user.disabled then .error .forbidden
  else
    .ok (((db.logSessions.entries.filter fun e => listed actor db e.2).map fun e =>
      joined db e.1 e.2).mergeSort listOrder)

def loadSession (id : Text) (db : Db) : Except Err Session :=
  match db.logSessions.lookup id with
  | none => .error .notFound
  | some row =>
    .ok (sessionOf id row (filesOf db id).length
      ((filesOf db id).map fun f => f.2.serviceName).dedup.length)

/-- The `switch` of `authorize`. -/
def access (actor : Principal) (write : Bool) (session : Session) : Except Err Session :=
  if session.scope = "personal".toList then
    if session.ownerUserID = actor.user.id then .ok session else .error .notFound
  else if session.scope = "team".toList then
    if isSystemAdmin actor then .ok session
    else if write then
      if teamRole actor session.teamID = "admin".toList then .ok session else .error .forbidden
    else if teamRole actor session.teamID ≠ [] then .ok session
    else .error .forbidden
  else .error .forbidden

def authorize (actor : Principal) (id : Text) (write : Bool) (db : Db) : Except Err Session := do
  if actor.user.disabled then .error .forbidden
  else
    let session ← loadSession id db
    access actor write session

/-! ## Writing -/

/-- `NULLIF(value, '')`. -/
def nullIf (value : Text) : Option Text := if value = [] then none else some value

/-- The owner columns that `CreateSession` chooses, once it allows them. -/
def newOwner (actor : Principal) (scope teamID : Text) : Except Err (Text × Text) :=
  if scope = "personal".toList then .ok (actor.user.id, [])
  else if scope = "team".toList then
    if teamID = [] then .error .invalid
    else if isSystemAdmin actor = false ∧ teamRole actor teamID ≠ "admin".toList then
      .error .forbidden
    else .ok ([], teamID)
  else .error .invalid

/-- Whom a session refers to exists. -/
def refersToRows (db : Db) (row : LogSessionRow) : Bool :=
  (match row.owner with
    | .personal userID => (db.users.lookup userID).isSome
    | .team teamID => (db.teams.lookup teamID).isSome) && (db.users.lookup row.createdBy).isSome

/-- `CreateSession`; an empty name has been replaced by one with the time. -/
def createSession (newID : Text) (now : Nat) (actor : Principal) (name scope teamID : Text) (db : Db) :
    Except Err (Option Db) := do
  if actor.user.disabled then .error .forbidden
  else
    let scope := if trimSpace scope = [] then "personal".toList else trimSpace scope
    let (ownerUserID, teamID) ← newOwner actor scope (trimSpace teamID)
    .ok <| do
      let owner ← Owner.ofColumns scope (nullIf ownerUserID) (nullIf teamID)
      let row := ⟨name, "pending".toList, owner, actor.user.id, now, now, none⟩
      if (db.logSessions.lookup newID).isSome ∨ refersToRows db row = false then none
      else some { db with logSessions := db.logSessions.insert newID row }

/-- `INSERT INTO log_source_files`. -/
def insertFile (id : Text) (row : LogFileRow) (db : Db) : Option Db :=
  if (db.logFiles.lookup id).isSome ∨ db.logSessions.lookup row.sessionID = none ∨
      row.parseStatus ∉ ["pending".toList, "done".toList, "failed".toList] then none
  else some { db with logFiles := db.logFiles.insert id row }

/-- `UPDATE log_sessions SET status, error_message, updated_at`. -/
def markSession (id status : Text) (errorMessage : Option Text) (now : Nat) (db : Db) : Db :=
  { db with
    logSessions := db.logSessions.alter (fun other => other = id) fun row =>
      some { row with status := status, errorMessage := errorMessage, updatedAt := now } }

/-- `UPDATE log_source_files SET parse_status, total_lines`. -/
def markFile (id parseStatus : Text) (totalLines : Nat → Nat) (db : Db) : Db :=
  { db with
    logFiles := db.logFiles.alter (fun other => other = id) fun row =>
      some { row with parseStatus := parseStatus, totalLines := totalLines row.totalLines } }

structure ParsedLine where
  timestampMs : Option Int
  level : Text
  message : Text
  raw : Text
  lineNumber : Nat
  deriving DecidableEq, Repr

/-- One row of `log_entries`. -/
def insertEntry (sessionID fileID serviceName nodeName : Text) (line : ParsedLine) (db : Db) : Db :=
  { db with
    logEntries := db.logEntries.insert (nextID db.logEntries)
      ⟨sessionID, fileID, line.timestampMs, line.level, serviceName, nodeName, line.message, line.raw,
        line.lineNumber⟩ }

/-- The upsert on `log_scope_stats`. -/
def addScopeStats (sessionID serviceName nodeName : Text) (lines : Nat) (db : Db) : Db :=
  let key := (sessionID, serviceName, nodeName)
  { db with
    logScopeStats := db.logScopeStats.insert key ((db.logScopeStats.lookup key).getD 0 + lines) }

def defaultBucketSizeMs : Int := 60000

/-- Integer division of Go. -/
def bucketStart (timestampMs : Int) : Int := timestampMs.tdiv defaultBucketSizeMs * defaultBucketSizeMs

/-- The upsert on `log_time_buckets` for one line. -/
def addTimeBucket (sessionID : Text) (line : ParsedLine) (db : Db) : Db :=
  match line.timestampMs with
  | none => db
  | some timestamp =>
    let key := (sessionID, bucketStart timestamp, defaultBucketSizeMs)
    let old := (db.logTimeBuckets.lookup key).getD ⟨0, 0⟩
    { db with
      logTimeBuckets := db.logTimeBuckets.insert key
        ⟨old.count + 1, old.errorCount + if line.level = "ERROR".toList then 1 else 0⟩ }

/-- The entries of a batch with their statistics: one transaction, which the foreign keys of the entries
refuse if the session or the file is gone. An empty batch is not written. -/
def insertBatch (sessionID fileID serviceName nodeName : Text) (lines : List ParsedLine) (db : Db) :
    Option Db :=
  if lines = [] then some db
  else if db.logSessions.lookup sessionID = none ∨ db.logFiles.lookup fileID = none then none
  else
    let db := lines.foldl (fun db line => insertEntry sessionID fileID serviceName nodeName line db) db
    let db := addScopeStats sessionID serviceName nodeName lines.length db
    some (lines.foldl (fun db line => addTimeBucket sessionID line db) db)

/-- The transaction of `AppendTailLine`. -/
def appendTailLine (sessionID fileID : Text) (line : ParsedLine) (now : Nat) (db : Db) :
    Except Err Db :=
  match db.logFiles.lookup fileID with
  | none => .error .notFound
  | some file =>
    if file.sessionID ≠ sessionID then .error .notFound
    else
      let line := { line with lineNumber := file.totalLines + 1 }
      match insertBatch sessionID fileID file.serviceName file.nodeName [line] db with
      | none => .error .database
      | some db =>
        .ok (markSession sessionID "ready".toList none now
          (markFile fileID "done".toList (· + 1) db))

def deleteSession (actor : Principal) (sessionID : Text) (db : Db) : Except Err Db := do
  let _ ← authorize actor sessionID true db
  if db.logSessions.lookup sessionID = none then .error .notFound
  else
    let after := { db with logSessions := db.logSessions.erase sessionID }
    .ok (after.cascadeLogSessions (db.lostSession after))

/-! ## What a call that goes through leaves -/

section

variable {actor : Principal} {sessionID fileID : Text} {now : Nat} {db db' : Db}

theorem createSession_ok {newID name scope teamID : Text}
    (h : createSession newID now actor name scope teamID db = .ok (some db')) :
    db.logSessions.lookup newID = none ∧ ∃ row, db' = { db with logSessions := db.logSessions.insert newID row } := by
  simp only [createSession, guard_eq_ok, bind_eq_ok] at h
  obtain ⟨-, ⟨owner, team⟩, -, heq⟩ := h
  rw [Except.ok.injEq] at heq
  obtain ⟨o, -, hsome⟩ := Option.bind_eq_some_iff.1 heq
  split at hsome
  · cases hsome
  · next hfree =>
      cases hsome
      exact ⟨by simpa using (not_or.1 hfree).1, _, rfl⟩

theorem insertFile_ok {row : LogFileRow} (h : insertFile fileID row db = some db') :
    db.logFiles.lookup fileID = none ∧ db' = { db with logFiles := db.logFiles.insert fileID row } := by
  rw [insertFile] at h
  split at h
  · cases h
  · next hfree =>
      cases h
      exact ⟨by simpa using (not_or.1 hfree).1, rfl⟩

theorem appendTailLine_ok {line : ParsedLine} (h : appendTailLine sessionID fileID line now db = .ok db') :
    ∃ file mid, db.logFiles.lookup fileID = some file ∧ file.sessionID = sessionID ∧
      insertBatch sessionID fileID file.serviceName file.nodeName
        [{ line with lineNumber := file.totalLines + 1 }] db = some mid ∧
      db' = markSession sessionID "ready".toList none now (markFile fileID "done".toList (· + 1) mid) := by
  rw [appendTailLine] at h
  cases hfile : db.logFiles.lookup fileID with
  | none => simp [hfile] at h
  | some file =>
    simp only [hfile, guard_eq_ok, ne_eq, not_not] at h
    obtain ⟨hsession, h⟩ := h
    split at h
    · cases h
    · next mid hbatch =>
        cases h
        exact ⟨file, mid, rfl, hsession, hbatch, rfl⟩

theorem deleteSession_ok (h : deleteSession actor sessionID db = .ok db') :
    ∃ session after, authorize actor sessionID true db = .ok session ∧
      after = { db with logSessions := db.logSessions.erase sessionID } ∧
      db' = after.cascadeLogSessions (db.lostSession after) := by
  simp only [deleteSession, bind_eq_ok, guard_eq_ok] at h
  obtain ⟨session, hauthorize, -, heq⟩ := h
  cases heq
  exact ⟨session, _, hauthorize, rfl, rfl⟩

end

end Workbench.Logs
