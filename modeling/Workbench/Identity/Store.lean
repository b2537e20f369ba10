import Workbench.Identity.Statements

/-!
# The identity store

The functions of `api/internal/identity/store.go`. Each one that works in a transaction is the sequence of
its statements (`Tx`); a query on the pool is a transaction of one statement, and a check before the
transaction begins is a transaction that fails without one. What the functions take from outside is a
parameter: the case mapping of `strings.ToLower`, password hashing, the collation of the database, and the
random identifiers and salts.
-/

set_option autoImplicit false

namespace Workbench.Identity

open Workbench.Lib

/-- What the store takes from outside of it. `VerifyPassword` accepts exactly what `HashPassword` was
given. -/
structure Runtime where
  lowerRune : Char → Char
  hashPassword : (salt password : Text) → Text
  verifyPassword : (password encoded : Text) → Bool
  verify_hash : ∀ salt p q, verifyPassword p (hashPassword salt q) = true ↔ p = q
  collate : Text → Text → Bool
  lowerText : Text → Text

/-- A runtime that keeps passwords as they are, for the runs on fixed inputs. -/
instance : Inhabited Runtime where
  default :=
    { lowerRune := asciiLower
      hashPassword := fun _ password => password
      verifyPassword := fun password encoded => password = encoded
      verify_hash := fun _ _ _ => decide_eq_true_iff
      collate := fun _ _ => true
      lowerText := toLower }

structure User where
  id : Text
  username : Text
  displayName : Text
  systemRole : Role
  disabled : Bool
  deriving DecidableEq, Repr

def UserRow.toUser (u : UserRow) (id : Text) : User :=
  ⟨id, u.username, u.displayName, u.systemRole, u.disabled⟩

/-- A team as one of its users sees it; a user who is not a member has no role in it. -/
structure Team where
  id : Text
  name : Text
  role : Option Role
  deriving DecidableEq, Repr

structure TeamMember where
  user : User
  role : Role
  deriving DecidableEq, Repr

structure TeamAssignment where
  teamID : Text
  role : Text
  deriving DecidableEq, Repr

structure Principal where
  user : User
  teams : List (Text × Role)
  deriving DecidableEq, Repr

structure UserUpdate where
  displayName : Option Text
  systemRole : Option Text
  disabled : Option Bool
  password : Option Text
  deriving DecidableEq, Repr

/-- The order in which a loop over a Go map comes to its entries. -/
structure MapOrder where
  order : List (Text × Role) → List (Text × Role)
  perm : ∀ l, (order l).Perm l

abbrev Transaction (α : Type) : Type 1 := Tx store Label Err α

def fail {α : Type} (s : Sentinel) : Transaction α := Tx.throw (.plain s)

def failIf (p : Prop) [Decidable p] (s : Sentinel) : Transaction Unit :=
  if p then fail s else pure ()

def runIf (p : Prop) [Decidable p] (tx : Transaction Unit) : Transaction Unit :=
  if p then tx else pure ()

def bootstrapLockKey : Int := 0x4f435f4944454e54

def validTeamRole (role : Text) : Bool := (Role.parse role).isSome

section

variable (rt : Runtime)

def normalizeUsername (username : Text) : Text := (trimSpace username).map rt.lowerRune

end

/-! ## Guards -/

def authorizeSystemAdminForUpdate (userID : Text) : Transaction Unit := do
  match ← Tx.perform (lockUser userID) with
  | none => fail .forbidden
  | some u => failIf (u.disabled ∨ u.systemRole ≠ .admin) .forbidden

def authorizeTeamAdminForUpdate (userID teamID : Text) : Transaction Unit := do
  match ← Tx.perform (lockUser userID) with
  | none => fail .forbidden
  | some u =>
    if u.disabled then fail .forbidden
    else if u.systemRole = .admin then pure ()
    else
      match ← Tx.perform (lockMember teamID userID) with
      | none => fail .forbidden
      | some role => failIf (role ≠ .admin) .forbidden

def lockTeamMember (teamID userID : Text) : Transaction Role := do
  match ← Tx.perform (lockMember teamID userID) with
  | none => fail .notFound
  | some role => pure role

def ensureAnotherTeamAdmin (teamID excludedUserID : Text) : Transaction Unit := do
  Tx.perform (lockTeamAdmins teamID)
  let exists_ ← Tx.perform (anotherTeamAdmin teamID excludedUserID)
  failIf (exists_ = false) .lastTeamAdmin

def ensureAnotherActiveSystemAdmin (excludedUserID : Text) : Transaction Unit := do
  let exists_ ← Tx.perform (anotherSystemAdmin excludedUserID)
  failIf (exists_ = false) .lastSystemAdmin

/-! ## Users -/

section

variable (rt : Runtime)

def bootstrapAdmin (userID salt username password : Text) : Transaction Unit := do
  let username := normalizeUsername rt username
  let passwordHash := rt.hashPassword salt password
  Tx.perform (lockBootstrap bootstrapLockKey)
  let exists_ ← Tx.perform usersExist
  failIf (exists_ = true) .alreadyBootstrapped
  let _ ← Tx.perform (insertUser (.wrapped "create bootstrap admin".toList) userID username username
    passwordHash Role.admin.text)

def authenticate (username password : Text) : Transaction User := do
  let username := normalizeUsername rt username
  let found ← Tx.perform (select .read fun db =>
    .ok (db.users.entries.find? fun e => e.2.username = username))
  match found with
  | none => fail .invalidCredentials
  | some ⟨id, u⟩ => do
    failIf (rt.verifyPassword password u.passwordHash = false ∨ u.disabled) .invalidCredentials
    pure (u.toUser id)

def createUser (userID salt : Text) (actor : Principal) (username displayName password role : Text) :
    Transaction User := do
  let username := normalizeUsername rt username
  let displayName := trimSpace displayName
  let passwordHash := rt.hashPassword salt password
  authorizeSystemAdminForUpdate actor.user.id
  let row ← Tx.perform (insertUser (mapStoreError "create user".toList) userID username displayName
    passwordHash role)
  pure (row.toUser userID)

def updatedDisplayName (update : UserUpdate) (current : UserRow) : Except Err Text :=
  match update.displayName with
  | none => .ok current.displayName
  | some name => if trimSpace name = [] then .error (.plain .invalid) else .ok (trimSpace name)

def updatedRole (update : UserUpdate) (current : UserRow) : Except Err Role :=
  match update.systemRole with
  | none => .ok current.systemRole
  | some role =>
    match Role.parse (trimSpace role) with
    | none => .error (.plain .invalid)
    | some role => .ok role

/-- The display name, the role and the flag that an update asks for, checked. -/
def updatedFields (actorID userID : Text) (update : UserUpdate) (current : UserRow) :
    Except Err (Text × Role × Bool) := do
  let displayName ← updatedDisplayName update current
  let role ← updatedRole update current
  let disabled := update.disabled.getD current.disabled
  if userID = actorID ∧ disabled then .error (.plain .forbidden) else .ok (displayName, role, disabled)

/-- The hash of the password that an update asks for. -/
def updatedPassword (salt : Text) (update : UserUpdate) : Except Err (Option Text) :=
  match update.password with
  | none => .ok none
  | some password =>
    if byteLength (trimSpace password) < 8 then .error (.plain .invalid)
    else .ok (some (rt.hashPassword salt (trimSpace password)))

/-- `UpdateUser` behind its checks. -/
def writeUpdate (salt userID displayName : Text) (role : Role) (update : UserUpdate) :
    Transaction User := do
  let passwordHash ← Tx.done (updatedPassword rt salt update)
  match ← Tx.perform (updateUserRow userID displayName role passwordHash update.disabled) with
  | none => Tx.throw (mapStoreError "update user".toList .noRows)
  | some row => pure (row.toUser userID)

def updateUser (salt : Text) (actor : Principal) (userID : Text) (update : UserUpdate) :
    Transaction User := do
  authorizeSystemAdminForUpdate actor.user.id
  match ← Tx.perform (lockUser userID) with
  | none => fail .notFound
  | some current => do
    let (displayName, role, disabled) ← Tx.done (updatedFields actor.user.id userID update current)
    runIf (current.systemRole = .admin ∧ (role ≠ .admin ∨ disabled))
      (ensureAnotherActiveSystemAdmin userID)
    writeUpdate rt salt userID displayName role update

end

/-- `DELETE FROM users` with what the foreign keys do behind it, in the order of their creation. -/
def deleteUserCascade (userID : Text) : Transaction Nat := do
  let deleted ← Tx.perform (deleteUserRow userID)
  Tx.perform (restrictUser "teams_created_by_fkey".toList
    fun db => db.teams.any fun _ t => t.createdBy = userID)
  Tx.perform (cascadeUserMembers userID)
  Tx.perform (cascadeUserConnections userID)
  Tx.perform (restrictUser "connections_created_by_fkey".toList
    fun db => db.connections.any fun _ c => c.createdBy = userID)
  Tx.perform (restrictUser "connections_updated_by_fkey".toList
    fun db => db.connections.any fun _ c => c.updatedBy = userID)
  Tx.perform (restrictUser "audit_events_actor_user_id_fkey".toList
    fun db => db.auditEvents.any fun _ a => a.actorUserID = some userID)
  Tx.perform (cascadeUserLogSessions userID)
  Tx.perform (restrictUser "log_sessions_created_by_fkey".toList
    fun db => db.logSessions.any fun _ l => l.createdBy = userID)
  pure deleted

def deleteUser (actor : Principal) (userID : Text) : Transaction Unit := do
  authorizeSystemAdminForUpdate actor.user.id
  match ← Tx.perform (lockUser userID) with
  | none => fail .notFound
  | some current => do
    failIf (userID = actor.user.id) .forbidden
    runIf (current.systemRole = .admin) (ensureAnotherActiveSystemAdmin userID)
    let adminTeamIDs ← Tx.perform (adminTeams userID)
    adminTeamIDs.forM fun teamID => ensureAnotherTeamAdmin teamID userID
    Tx.perform (reassignConnectionsCreated userID actor.user.id)
    Tx.perform (reassignConnectionsUpdated userID actor.user.id)
    Tx.perform (reassignLogSessions userID actor.user.id)
    Tx.perform (reassignTeams userID actor.user.id)
    Tx.perform (clearAuditActor userID)
    let deleted ← deleteUserCascade userID
    failIf (deleted = 0) .notFound

/-! ## Teams -/

def createTeam (teamID : Text) (actor : Principal) (name : Text) : Transaction Team := do
  let name := trimSpace name
  authorizeSystemAdminForUpdate actor.user.id
  Tx.perform (insertTeam teamID name actor.user.id)
  let _ ← Tx.perform (insertMember "add team creator".toList teamID actor.user.id Role.admin.text)
  pure ⟨teamID, name, some .admin⟩

/-- The transaction of `UpdateTeam`. -/
def updateTeamName (actor : Principal) (teamID name : Text) : Transaction TeamRow := do
  let name := trimSpace name
  authorizeSystemAdminForUpdate actor.user.id
  match ← Tx.perform (updateTeamRow teamID name) with
  | none => fail .notFound
  | some team => pure team

/-- The query of `UpdateTeam` behind its transaction. -/
def updatedTeamRole (actor : Principal) (teamID : Text) : Transaction (Option Role) :=
  Tx.perform (select .read fun db => .ok (db.members.lookup (teamID, actor.user.id)))

def deleteTeam (actor : Principal) (teamID : Text) : Transaction Unit := do
  authorizeSystemAdminForUpdate actor.user.id
  let deleted ← Tx.perform (deleteTeamRow teamID)
  Tx.perform (cascadeTeamMembers teamID)
  Tx.perform (cascadeTeamConnections teamID)
  Tx.perform (cascadeTeamLogSessions teamID)
  failIf (deleted = 0) .notFound

/-! ## Memberships -/

def addTeamMember (actor : Principal) (teamID userID role : Text) : Transaction Unit := do
  let rows ← Tx.perform (putMember "add team member".toList (authorized actor.user.id teamID) false
    teamID userID role)
  failIf (rows = 0) .forbidden

def setTeamMemberRole (actor : Principal) (teamID userID role : Text) : Transaction Unit := do
  match Role.parse (trimSpace role) with
  | none => fail .invalid
  | some role => do
    authorizeTeamAdminForUpdate actor.user.id teamID
    let currentRole ← lockTeamMember teamID userID
    runIf (currentRole = .admin ∧ role ≠ .admin) (ensureAnotherTeamAdmin teamID userID)
    Tx.perform (updateMember teamID userID role)

def removeTeamMember (actor : Principal) (teamID userID : Text) : Transaction Unit := do
  authorizeTeamAdminForUpdate actor.user.id teamID
  let currentRole ← lockTeamMember teamID userID
  runIf (currentRole = .admin) (ensureAnotherTeamAdmin teamID userID)
  Tx.perform (deleteMember teamID userID)

/-- The assignments with their spaces trimmed, if each one is valid and no team has two. -/
def normalizeAssignments : List TeamAssignment → (seen : List Text) → Except Err (List (Text × Role))
  | [], _ => .ok []
  | assignment :: rest, seen =>
    let teamID := trimSpace assignment.teamID
    match Role.parse (trimSpace assignment.role) with
    | none => .error (.plain .invalid)
    | some role =>
      if teamID = [] ∨ teamID ∈ seen then .error (.plain .invalid)
      else (normalizeAssignments rest (teamID :: seen)).map ((teamID, role) :: ·)

/-- The role that the assignments give in a team. -/
def desiredRole (normalized : List (Text × Role)) (teamID : Text) : Option Role :=
  (normalized.find? fun a => a.1 = teamID).map Prod.snd

def setUserTeamMemberships (guards deletes : MapOrder) (actor : Principal) (userID : Text)
    (assignments : List TeamAssignment) : Transaction Unit := do
  let normalized ← Tx.done (normalizeAssignments assignments [])
  authorizeSystemAdminForUpdate actor.user.id
  let exists_ ← Tx.perform (targetExists userID)
  failIf (exists_ = false) .notFound
  let current ← Tx.perform (memberships userID)
  (guards.order current).forM fun (teamID, currentRole) =>
    runIf (currentRole = .admin ∧ desiredRole normalized teamID ≠ some .admin)
      (ensureAnotherTeamAdmin teamID userID)
  (deletes.order current).forM fun (teamID, _) =>
    runIf (desiredRole normalized teamID = none) (Tx.perform (deleteMember teamID userID))
  normalized.forM fun (teamID, role) => do
    let _ ← Tx.perform (upsertMember "upsert user membership".toList teamID userID role.text)

/-! ## Queries -/

section

variable (rt : Runtime)

/-- `ORDER BY`. -/
def orderBy {α : Type} (key : α → Text) (rows : List α) : List α :=
  rows.mergeSort fun a b => rt.collate (key a) (key b)

/-- The first query of `ListTeamMembers`. -/
def mayListTeamMembers (actor : Principal) (teamID : Text) : Transaction Unit := do
  failIf (actor.user.disabled = true ∨ trimSpace teamID = []) .forbidden
  let allowed ← Tx.perform (select .read fun db =>
    match db.users.lookup actor.user.id with
    | none => .ok false
    | some u => .ok (!u.disabled && (u.systemRole = .admin ||
        (db.members.lookup (trimSpace teamID, actor.user.id)).isSome)))
  failIf (allowed = false) .forbidden

def listTeamMembers (teamID : Text) : Transaction (List TeamMember) :=
  Tx.perform (select .read fun db =>
    .ok (orderBy rt (fun m => rt.lowerText m.user.username)
      (db.members.entries.filterMap fun e =>
        if e.1.1 = trimSpace teamID then
          (db.users.lookup e.1.2).map fun u => ⟨u.toUser e.1.2, e.2⟩
        else none)))

/-- The first query of `ListUsers`. -/
def mayListUsers (actor : Principal) : Transaction Bool := do
  failIf (actor.user.disabled = true) .forbidden
  if actor.user.systemRole = .admin then pure true
  else Tx.perform (select .read fun db =>
    .ok (db.members.any fun id role => id.2 = actor.user.id && role = .admin))

def listUsers (actor : Principal) (all : Bool) : Transaction (List User) :=
  if all then
    Tx.perform (select .read fun db =>
      .ok (orderBy rt User.username (db.users.entries.map fun e => e.2.toUser e.1)))
  else pure [actor.user]

def listTeams (actor : Principal) : Transaction (List Team) := do
  failIf (actor.user.disabled = true) .forbidden
  Tx.perform (select .read fun db =>
    let every := (db.users.lookup actor.user.id).any UserRow.activeAdmin
    .ok (orderBy rt Team.name
      (db.teams.entries.filterMap fun e =>
        let role := db.members.lookup (e.1, actor.user.id)
        if role.isSome || every then some ⟨e.1, e.2.name, role⟩ else none)))

end

/-- The first query of `PrincipalForUser`. -/
def principalUser (userID : Text) : Transaction User := do
  let found ← Tx.perform (select .read fun db => .ok (db.users.lookup userID))
  match found with
  | none => fail .notFound
  | some u => pure (u.toUser userID)

def principalTeams (userID : Text) : Transaction (List (Text × Role)) :=
  Tx.perform (select .read fun db =>
    .ok (db.members.entries.filterMap fun e => if e.1.2 = userID then some (e.1.1, e.2) else none))

def principalForUser (userID : Text) : Program store Label Err Principal :=
  .transact (principalUser userID) fun user =>
    .transact (principalTeams userID) fun teams => .ret (.ok ⟨user, teams⟩)

end Workbench.Identity
