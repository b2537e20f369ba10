import Workbench.Identity.Tables

/-!
# The statements of the identity store

Each query of `api/internal/identity/store.go` with the rows that it locks, its answer and its effect.
What PostgreSQL does behind a `DELETE` for the foreign keys that refer to the row is a statement of its
own. A key lock that a foreign key takes on a user is modelled as a lock of the user: the store has it
already wherever that matters.
-/

set_option autoImplicit false

namespace Workbench.Identity

open Workbench.Lib

/-! ## Errors -/

/-- The error values of the package. -/
inductive Sentinel where
  | alreadyBootstrapped
  | invalidCredentials
  | forbidden
  | conflict
  | invalid
  | notFound
  | lastTeamAdmin
  | lastSystemAdmin
  deriving DecidableEq, Repr

/-- What a query fails with: `pgconn.PgError`, or `pgx.ErrNoRows`. -/
inductive Cause where
  | pg (code constraint : Text)
  | noRows
  deriving DecidableEq, Repr

inductive Err where
  | plain (s : Sentinel)
  | mapped (operation : Text) (s : Sentinel) (constraint : Text)
  | wrapped (operation : Text) (cause : Cause)
  deriving DecidableEq, Repr

def pgUniqueViolation : Text := "23505".toList

def pgForeignKeyViolation : Text := "23503".toList

def pgCheckViolation : Text := "23514".toList

def mapStoreError (operation : Text) (cause : Cause) : Err :=
  match cause with
  | .pg code constraint =>
    if code = pgUniqueViolation then .mapped operation .conflict constraint
    else if code = pgCheckViolation then .mapped operation .invalid constraint
    else if code = pgForeignKeyViolation then .mapped operation .notFound constraint
    else .wrapped operation cause
  | .noRows => .wrapped operation cause

/-! ## Statements -/

inductive Label where
  | read
  | lockBootstrap
  | lockUser
  | lockMember
  | anotherSystemAdmin
  | adminTeams
  | lockTeamAdmins (teamID : Text)
  | anotherTeamAdmin (teamID : Text)
  | memberships
  | write
  deriving DecidableEq, Repr

abbrev Stmt (β : Type) : Type := Statement store Label Err β

/-- A query without `FOR UPDATE`. -/
def select {β : Type} (label : Label) (answer : Db → Except Err β) : Stmt β where
  label := label
  rows _ := []
  claims := []
  result _ view := answer view
  change _ _ db := db
  frame _ _ db k _ _ := store.refl k db

/-- A query `FOR UPDATE`. -/
def selectForUpdate {β : Type} (label : Label) (rows : Db → List Key) (answer : List Key → Db → β) :
    Stmt β where
  label := label
  rows := rows
  claims := []
  result found view := .ok (answer found view)
  change _ _ db := db
  frame _ _ db k _ _ := store.refl k db

/-- An `UPDATE` or a `DELETE` of users. -/
def alterUsers {β : Type} (rows : Db → List Key) (answer : List Key → Db → Except Err β)
    (row : UserRow → Option UserRow) : Stmt β where
  label := .write
  rows := rows
  claims := []
  result := answer
  change found _ db := { db with users := db.users.alter (fun id => .user id ∈ found) row }
  frame found view db k hfound hclaims := by
    cases k with
    | user id => exact ⟨Table.lookup_alter_of_not (by simpa using hfound), fun _ h => h⟩
    | team id => rfl
    | member teamID userID => rfl
    | _ => trivial

/-- An `UPDATE` or a `DELETE` of teams. -/
def alterTeams {β : Type} (rows : Db → List Key) (claims : List Key)
    (answer : List Key → Db → Except Err β) (row : TeamRow → Option TeamRow) : Stmt β where
  label := .write
  rows := rows
  claims := claims
  result := answer
  change found _ db := { db with teams := db.teams.alter (fun id => .team id ∈ found) row }
  frame found view db k hfound hclaims := by
    cases k with
    | user id => exact ⟨rfl, fun _ h => h⟩
    | team id => exact Table.lookup_alter_of_not (by simpa using hfound)
    | member teamID userID => rfl
    | _ => trivial

/-- An `UPDATE` or a `DELETE` of memberships. -/
def alterMembers (rows : Db → List Key) (row : Role → Option Role) : Stmt Unit where
  label := .write
  rows := rows
  claims := []
  result _ _ := .ok ()
  change found _ db :=
    { db with members := db.members.alter (fun id => .member id.1 id.2 ∈ found) row }
  frame found view db k hfound hclaims := by
    cases k with
    | user id => exact ⟨rfl, fun _ h => Table.lookup_alter_eq_none h⟩
    | team id => rfl
    | member teamID userID => exact Table.lookup_alter_of_not (by simpa using hfound)
    | _ => trivial

/-- An `UPDATE` or a `DELETE` in the tables that are no one's but their own. -/
def alterOthers (rows : Db → List Key) (answer : List Key → Db → Except Err Unit)
    (connection : ConnectionRow → Option ConnectionRow)
    (logSession : LogSessionRow → Option LogSessionRow) (auditEvent : AuditRow → Option AuditRow) :
    Stmt Unit where
  label := .write
  rows := rows
  claims := []
  result := answer
  change found _ db :=
    { db with
      connections := db.connections.alter (fun id => .connection id ∈ found) connection
      logSessions := db.logSessions.alter (fun id => .logSession id ∈ found) logSession
      auditEvents := db.auditEvents.alter (fun id => .auditEvent id ∈ found) auditEvent }
  frame found view db k hfound hclaims := by
    cases k with
    | user id => exact ⟨rfl, fun _ h => h⟩
    | team id => rfl
    | member teamID userID => rfl
    | _ => trivial

/-! ## Users -/

/-- A row by its key. -/
def rowOf (k : Key) (db : Db) : List Key := if db.present k then [k] else []

def lockBootstrap (key : Int) : Stmt Unit :=
  selectForUpdate .lockBootstrap (rowOf (.advisory key)) fun _ _ => ()

def usersExist : Stmt Bool := select .read fun db => .ok (db.users.any fun _ _ => true)

def lockUser (userID : Text) : Stmt (Option UserRow) :=
  selectForUpdate .lockUser (rowOf (.user userID)) fun found view =>
    if .user userID ∈ found then view.users.lookup userID else none

/-- `INSERT INTO users`, whose `CHECK` comes before the two unique indexes. -/
def insertUser (wrap : Cause → Err) (userID username displayName passwordHash role : Text) :
    Stmt UserRow where
  label := .write
  rows _ := []
  claims := [.user userID, .username username]
  result _ view :=
    match Role.parse role with
    | none => .error (wrap (.pg pgCheckViolation "users_system_role_check".toList))
    | some role =>
      if (view.users.lookup userID).isSome then
        .error (wrap (.pg pgUniqueViolation "users_pkey".toList))
      else if view.present (.username username) then
        .error (wrap (.pg pgUniqueViolation "users_username_key".toList))
      else .ok ⟨username, displayName, passwordHash, role, false⟩
  change _ _ db :=
    match Role.parse role with
    | none => db
    | some role =>
      { db with users := db.users.insert userID ⟨username, displayName, passwordHash, role, false⟩ }
  frame found view db k hfound hclaims := by
    cases Role.parse role with
    | none => exact store.refl k db
    | some role =>
      cases k with
      | user id =>
        have hne : id ≠ userID := by
          rintro rfl
          exact hclaims (by simp)
        exact ⟨AList.lookup_insert_ne hne, fun _ h => h⟩
      | team id => rfl
      | member teamID userID => rfl
      | _ => trivial

/-- `UPDATE users`, with the row as it is after it. -/
def updateUserRow (userID displayName : Text) (role : Role) (passwordHash : Option Text)
    (disabled : Option Bool) : Stmt (Option UserRow) :=
  let row := fun u : UserRow =>
    { u with
      displayName := displayName
      systemRole := role
      passwordHash := passwordHash.getD u.passwordHash
      disabled := disabled.getD u.disabled }
  alterUsers (rowOf (.user userID))
    (fun found view => .ok (if .user userID ∈ found then (view.users.lookup userID).map row else none))
    fun u => some (row u)

def anotherSystemAdmin (excludedUserID : Text) : Stmt Bool :=
  select .anotherSystemAdmin fun db =>
    .ok (db.users.any fun id u => id ≠ excludedUserID && u.activeAdmin)

/-- `DELETE FROM users`, which also frees the user's name, with the number of deleted rows. -/
def deleteUserRow (userID : Text) : Stmt Nat :=
  alterUsers
    (fun db =>
      match db.users.lookup userID with
      | some u => [.user userID, .username u.username]
      | none => [])
    (fun found _ => .ok (if .user userID ∈ found then 1 else 0))
    fun _ => none

/-- The check behind a `DELETE FROM users` for a foreign key without `ON DELETE CASCADE`. -/
def restrictUser (constraint : Text) (refers : Db → Bool) : Stmt Unit :=
  select .read fun db =>
    if refers db then .error (mapStoreError "delete user".toList (.pg pgForeignKeyViolation constraint))
    else .ok ()

def cascadeUserMembers (userID : Text) : Stmt Unit :=
  alterMembers
    (fun db => (db.members.keysWhere fun id _ => id.2 = userID).map fun id => .member id.1 id.2)
    fun _ => none

def cascadeUserConnections (userID : Text) : Stmt Unit :=
  alterOthers
    (fun db => (db.connections.keysWhere fun _ c => c.ownerUserID = some userID).map .connection)
    (fun _ _ => .ok ()) (fun _ => none) some some

def cascadeUserLogSessions (userID : Text) : Stmt Unit :=
  alterOthers
    (fun db => (db.logSessions.keysWhere fun _ l => l.ownerUserID = some userID).map .logSession)
    (fun _ _ => .ok ()) some (fun _ => none) some

/-! The references to a user that is to be deleted. -/

/-- The foreign key behind a reassigned reference. -/
def reassigned (constraint actorID : Text) (found : List Key) (view : Db) : Except Err Unit :=
  if found ≠ [] ∧ view.users.lookup actorID = none then
    .error (mapStoreError "reassign user references".toList (.pg pgForeignKeyViolation constraint))
  else .ok ()

def reassignConnectionsCreated (userID actorID : Text) : Stmt Unit :=
  alterOthers (fun db => (db.connections.keysWhere fun _ c => c.createdBy = userID).map .connection)
    (reassigned "connections_created_by_fkey".toList actorID)
    (fun c => some { c with createdBy := actorID }) some some

def reassignConnectionsUpdated (userID actorID : Text) : Stmt Unit :=
  alterOthers (fun db => (db.connections.keysWhere fun _ c => c.updatedBy = userID).map .connection)
    (reassigned "connections_updated_by_fkey".toList actorID)
    (fun c => some { c with updatedBy := actorID }) some some

def reassignLogSessions (userID actorID : Text) : Stmt Unit :=
  alterOthers (fun db => (db.logSessions.keysWhere fun _ l => l.createdBy = userID).map .logSession)
    (reassigned "log_sessions_created_by_fkey".toList actorID)
    some (fun l => some { l with createdBy := actorID }) some

def reassignTeams (userID actorID : Text) : Stmt Unit :=
  alterTeams (fun db => (db.teams.keysWhere fun _ t => t.createdBy = userID).map .team) []
    (reassigned "teams_created_by_fkey".toList actorID)
    fun t => some { t with createdBy := actorID }

def clearAuditActor (userID : Text) : Stmt Unit :=
  alterOthers
    (fun db => (db.auditEvents.keysWhere fun _ a => a.actorUserID = some userID).map .auditEvent)
    (fun _ _ => .ok ()) some some fun _ => some ⟨none⟩

/-! ## Teams -/

def insertTeam (teamID name createdBy : Text) : Stmt Unit where
  label := .write
  rows _ := []
  claims := [.team teamID, .teamName name]
  result _ view :=
    let violation := fun code constraint => mapStoreError "create team".toList (.pg code constraint)
    if (view.teams.lookup teamID).isSome then
      .error (violation pgUniqueViolation "teams_pkey".toList)
    else if view.present (.teamName name) then
      .error (violation pgUniqueViolation "teams_name_key".toList)
    else if view.users.lookup createdBy = none then
      .error (violation pgForeignKeyViolation "teams_created_by_fkey".toList)
    else .ok ()
  change _ _ db := { db with teams := db.teams.insert teamID ⟨name, createdBy⟩ }
  frame found view db k hfound hclaims := by
    cases k with
    | user id => exact ⟨rfl, fun _ h => h⟩
    | team id =>
      have hne : id ≠ teamID := by
        rintro rfl
        exact hclaims (by simp)
      exact AList.lookup_insert_ne hne
    | member teamID userID => rfl
    | _ => trivial

/-- `UPDATE teams SET name`, with the row as it is after it. -/
def updateTeamRow (teamID name : Text) : Stmt (Option TeamRow) :=
  alterTeams
    (fun db =>
      match db.teams.lookup teamID with
      | some t => [.team teamID, .teamName t.name]
      | none => [])
    [.teamName name]
    (fun found view =>
      if .team teamID ∈ found then
        if view.teams.any fun id t => id ≠ teamID && t.name = name then
          .error (mapStoreError "update team".toList (.pg pgUniqueViolation "teams_name_key".toList))
        else .ok ((view.teams.lookup teamID).map fun t => { t with name := name })
      else .ok none)
    fun t => some { t with name := name }

def deleteTeamRow (teamID : Text) : Stmt Nat :=
  alterTeams
    (fun db =>
      match db.teams.lookup teamID with
      | some t => [.team teamID, .teamName t.name]
      | none => [])
    [] (fun found _ => .ok (if .team teamID ∈ found then 1 else 0)) fun _ => none

def cascadeTeamMembers (teamID : Text) : Stmt Unit :=
  alterMembers
    (fun db => (db.members.keysWhere fun id _ => id.1 = teamID).map fun id => .member id.1 id.2)
    fun _ => none

def cascadeTeamConnections (teamID : Text) : Stmt Unit :=
  alterOthers
    (fun db => (db.connections.keysWhere fun _ c => c.teamID = some teamID).map .connection)
    (fun _ _ => .ok ()) (fun _ => none) some some

def cascadeTeamLogSessions (teamID : Text) : Stmt Unit :=
  alterOthers
    (fun db => (db.logSessions.keysWhere fun _ l => l.teamID = some teamID).map .logSession)
    (fun _ _ => .ok ()) some (fun _ => none) some

/-! ## Memberships -/

def lockMember (teamID userID : Text) : Stmt (Option Role) :=
  selectForUpdate .lockMember (rowOf (.member teamID userID)) fun found view =>
    if .member teamID userID ∈ found then view.members.lookup (teamID, userID) else none

/-- The teams that a user is an administrator of. -/
def adminTeams (userID : Text) : Stmt (List Text) :=
  selectForUpdate .adminTeams
    (fun db =>
      (db.members.keysWhere fun id role => id.2 = userID && role = .admin).map fun id =>
        .member id.1 id.2)
    fun found view => found.filterMap fun
      | .member teamID u =>
        if view.members.lookup (teamID, u) = some .admin then some teamID else none
      | _ => none

def memberships (userID : Text) : Stmt (List (Text × Role)) :=
  selectForUpdate .memberships
    (fun db => (db.members.keysWhere fun id _ => id.2 = userID).map fun id => .member id.1 id.2)
    fun found view => found.filterMap fun
      | .member teamID u => (view.members.lookup (teamID, u)).map fun role => (teamID, role)
      | _ => none

def lockTeamAdmins (teamID : Text) : Stmt Unit :=
  selectForUpdate (.lockTeamAdmins teamID)
    (fun db => (db.members.keysWhere fun id _ => id.1 = teamID).map fun id => .member id.1 id.2)
    fun _ _ => ()

def anotherTeamAdmin (teamID excludedUserID : Text) : Stmt Bool :=
  select (.anotherTeamAdmin teamID) fun db =>
    .ok (db.members.any fun id role => id.1 = teamID && id.2 ≠ excludedUserID && role = .admin)

def targetExists (userID : Text) : Stmt Bool :=
  selectForUpdate .lockUser (rowOf (.user userID)) fun found _ => .user userID ∈ found

/-- The constraints on a membership, in the order in which they are checked. -/
def memberViolation (view : Db) (teamID userID role : Text) (unique : Bool) : Option Cause :=
  if Role.parse role = none then some (.pg pgCheckViolation "team_members_role_check".toList)
  else if unique && (view.members.lookup (teamID, userID)).isSome then
    some (.pg pgUniqueViolation "team_members_pkey".toList)
  else if view.teams.lookup teamID = none then
    some (.pg pgForeignKeyViolation "team_members_team_id_fkey".toList)
  else if view.users.lookup userID = none then
    some (.pg pgForeignKeyViolation "team_members_user_id_fkey".toList)
  else none

/-- A membership written under a condition on the state, with the number of rows: `INSERT INTO
team_members`, where a membership that exists already is a conflict if `unique`, and is overwritten
otherwise. -/
def putMember (operation : Text) (allowed : Db → Bool) (unique : Bool) (teamID userID role : Text) :
    Stmt Nat where
  label := .write
  rows _ := []
  claims := [.member teamID userID, .user userID]
  result _ view :=
    if allowed view then
      match memberViolation view teamID userID role unique with
      | some cause => .error (mapStoreError operation cause)
      | none => .ok 1
    else .ok 0
  change _ view db :=
    match Role.parse role with
    | none => db
    | some role =>
      if allowed view then { db with members := db.members.insert (teamID, userID) role } else db
  frame found view db k hfound hclaims := by
    cases Role.parse role with
    | none => exact store.refl k db
    | some role =>
      cases allowed view with
      | false => exact store.refl k db
      | true =>
        cases k with
        | user id =>
          have hne : ∀ t, (t, id) ≠ (teamID, userID) := by
            rintro t ⟨⟩
            exact hclaims (by simp)
          exact ⟨rfl, fun t h => (AList.lookup_insert_ne (hne t)).trans h⟩
        | team id => rfl
        | member t u =>
          have hne : (t, u) ≠ (teamID, userID) := by
            rintro ⟨⟩
            exact hclaims (by simp)
          exact AList.lookup_insert_ne hne
        | _ => trivial

def insertMember (operation teamID userID role : Text) : Stmt Nat :=
  putMember operation (fun _ => true) true teamID userID role

def upsertMember (operation teamID userID role : Text) : Stmt Nat :=
  putMember operation (fun _ => true) false teamID userID role

/-- The common table expression `authorized` of `AddTeamMember`. -/
def authorized (actorID teamID : Text) (db : Db) : Bool :=
  match db.users.lookup actorID with
  | none => false
  | some u =>
    !u.disabled &&
      (u.systemRole = .admin || db.members.lookup (teamID, actorID) = some .admin)

def updateMember (teamID userID : Text) (role : Role) : Stmt Unit :=
  alterMembers (rowOf (.member teamID userID)) fun _ => some role

def deleteMember (teamID userID : Text) : Stmt Unit :=
  alterMembers (rowOf (.member teamID userID)) fun _ => none

end Workbench.Identity
