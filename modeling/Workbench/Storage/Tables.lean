import Workbench.Identity.Store

/-!
# The tables of the application database

`api/internal/migrate/sql`, with the columns that the registry and the log store read and write; the
identity store knows of these tables only to whom their rows refer (`Workbench.Identity.Db`). The
timestamps are kept where a query orders by them.
-/

set_option autoImplicit false

namespace Workbench.Storage

open Workbench.Lib

/-- The three columns `scope`, `owner_user_id` and `team_id` as their `CHECK` admits them. -/
inductive Owner where
  | personal (userID : Text)
  | team (teamID : Text)
  deriving DecidableEq, Repr

namespace Owner

def scope : Owner → Text
  | .personal _ => "personal".toList
  | .team _ => "team".toList

def ownerUserID : Owner → Option Text
  | .personal userID => some userID
  | .team _ => none

def teamID : Owner → Option Text
  | .personal _ => none
  | .team teamID => some teamID

/-- The `CHECK` on the three columns. -/
def ofColumns (scope : Text) (ownerUserID teamID : Option Text) : Option Owner :=
  match ownerUserID, teamID with
  | some userID, none => if scope = "personal".toList then some (.personal userID) else none
  | none, some teamID => if scope = "team".toList then some (.team teamID) else none
  | _, _ => none

end Owner

structure ConnectionRow where
  name : Text
  kind : Text
  driver : Text
  owner : Owner
  endpoint : Text
  config : Text
  secretKeyID : Text
  secretCiphertext : List UInt8
  createdBy : Text
  updatedBy : Text
  deriving DecidableEq, Repr

structure AuditRow where
  actorUserID : Option Text
  action : Text
  resourceType : Text
  resourceID : Text
  metadata : List (Text × Text)
  deriving DecidableEq, Repr

structure LogSessionRow where
  name : Text
  status : Text
  owner : Owner
  createdBy : Text
  createdAt : Nat
  updatedAt : Nat
  errorMessage : Option Text
  deriving DecidableEq, Repr

structure LogFileRow where
  sessionID : Text
  serviceName : Text
  nodeName : Text
  originalName : Text
  storagePath : Text
  totalLines : Nat
  parseStatus : Text
  sourceType : Text
  deriving DecidableEq, Repr

structure LogEntryRow where
  sessionID : Text
  sourceFileID : Text
  timestampMs : Option Int
  level : Text
  serviceName : Text
  nodeName : Text
  message : Text
  raw : Text
  lineNumber : Nat
  deriving DecidableEq, Repr

structure TimeBucketRow where
  count : Nat
  errorCount : Nat
  deriving DecidableEq, Repr

/-- The statistics of a session are the line counts under the session, the service and the node; its time
buckets are the counts under the session, the start and the size of the bucket. -/
structure Db where
  users : Table Text Identity.UserRow
  teams : Table Text Identity.TeamRow
  members : Table (Text × Text) Identity.Role
  connections : Table Text ConnectionRow
  auditEvents : Table Nat AuditRow
  logSessions : Table Text LogSessionRow
  logFiles : Table Text LogFileRow
  logEntries : Table Nat LogEntryRow
  logScopeStats : Table (Text × Text × Text) Nat
  logTimeBuckets : Table (Text × Int × Int) TimeBucketRow

namespace Db

def empty : Db := ⟨∅, ∅, ∅, ∅, ∅, ∅, ∅, ∅, ∅, ∅⟩

end Db

/-- The next number of a `bigserial` column: one that no row has. -/
def nextID {V : Type} (t : Table Nat V) : Nat := t.keys.foldl max 0 + 1

theorem le_foldl_max {n : Nat} (l : List Nat) : ∀ start, n ≤ start ∨ n ∈ l → n ≤ l.foldl max start := by
  induction l with
  | nil =>
    intro start h
    rcases h with hle | hmem
    · exact hle
    · cases hmem
  | cons m rest ih =>
    intro start h
    apply ih
    rcases h with hle | hmem
    · exact Or.inl (le_max_of_le_left hle)
    · rcases List.mem_cons.1 hmem with rfl | hrest
      · exact Or.inl (le_max_right _ _)
      · exact Or.inr hrest

theorem lookup_nextID {V : Type} (t : Table Nat V) : t.lookup (nextID t) = none := by
  apply AList.lookup_eq_none.2
  intro hmem
  have hle := le_foldl_max t.keys 0 (Or.inr hmem)
  rw [nextID] at hle
  omega

/-! ## What the identity store sees -/

def ConnectionRow.references (row : ConnectionRow) : Identity.ConnectionRow :=
  ⟨row.owner.ownerUserID, row.owner.teamID, row.createdBy, row.updatedBy⟩

def LogSessionRow.references (row : LogSessionRow) : Identity.LogSessionRow :=
  ⟨row.owner.ownerUserID, row.owner.teamID, row.createdBy⟩

def AuditRow.references (row : AuditRow) : Identity.AuditRow := ⟨row.actorUserID⟩

/-- The database as the identity store sees it. -/
def Db.identity (db : Db) : Identity.Db where
  users := db.users
  teams := db.teams
  members := db.members
  connections := db.connections.mapValues ConnectionRow.references
  logSessions := db.logSessions.mapValues LogSessionRow.references
  auditEvents := db.auditEvents.mapValues AuditRow.references

/-! ## Cascades into the tables of the logs -/

/-- A file whose session is gone. -/
def Db.goneFile (gone : Text → Bool) (db : Db) (fileID : Text) : Bool :=
  match db.logFiles.lookup fileID with
  | some file => gone file.sessionID
  | none => false

/-- What the foreign keys of `0002_logs.sql` remove behind sessions: their files, entries and statistics,
and the entries of those files. -/
def Db.cascadeLogSessions (gone : Text → Bool) (db : Db) : Db :=
  { db with
    logFiles := db.logFiles.alter (fun _ => true) fun f => if gone f.sessionID then none else some f
    logEntries := db.logEntries.alter (fun _ => true) fun e =>
      if gone e.sessionID ∨ db.goneFile gone e.sourceFileID then none else some e
    logScopeStats := db.logScopeStats.alter (fun key => gone key.1) fun _ => none
    logTimeBuckets := db.logTimeBuckets.alter (fun key => gone key.1) fun _ => none }

/-- A log session that one state has and the other has not. -/
def Db.lostSession (before after : Db) (sessionID : Text) : Bool :=
  (before.logSessions.lookup sessionID).isSome && (after.logSessions.lookup sessionID).isNone

/-- The database behind a call of the identity store, which left the tables that it sees so. -/
def Db.withIdentity (db : Db) (seen : Identity.Db) : Db :=
  let after : Db :=
    { db with
      users := seen.users
      teams := seen.teams
      members := seen.members
      connections := db.connections.follow
        (fun row r => { row with createdBy := r.createdBy, updatedBy := r.updatedBy }) seen.connections
      logSessions := db.logSessions.follow (fun row r => { row with createdBy := r.createdBy })
        seen.logSessions
      auditEvents := db.auditEvents.follow (fun row r => { row with actorUserID := r.actorUserID })
        seen.auditEvents }
  after.cascadeLogSessions (db.lostSession after)

end Workbench.Storage
