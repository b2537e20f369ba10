import Workbench.Base.Text
import Workbench.Lib.ReadCommitted
import Workbench.Lib.Table

/-!
# The tables of the identity store

`api/internal/migrate/sql/0001_identity_registry.sql` and `0002_logs.sql`, as far as the identity store
reads and writes them: of connections, log sessions and audit events it knows only to whom they refer.
Timestamps are left out but for `disabled_at`, of which the store asks whether it is set.
-/

set_option autoImplicit false

namespace Workbench.Identity

open Workbench.Lib

/-- The values that the `CHECK` of a role column admits. -/
inductive Role where
  | member
  | admin
  deriving DecidableEq, Repr

namespace Role

def text : Role → Text
  | .member => "member".toList
  | .admin => "admin".toList

def parse (text : Text) : Option Role :=
  if text = "member".toList then some .member
  else if text = "admin".toList then some .admin
  else none

end Role

structure UserRow where
  username : Text
  displayName : Text
  passwordHash : Text
  systemRole : Role
  disabled : Bool
  deriving DecidableEq, Repr

/-- An enabled system administrator. -/
def UserRow.activeAdmin (u : UserRow) : Bool := u.systemRole = .admin && !u.disabled

structure TeamRow where
  name : Text
  createdBy : Text
  deriving DecidableEq, Repr

structure ConnectionRow where
  ownerUserID : Option Text
  teamID : Option Text
  createdBy : Text
  updatedBy : Text
  deriving DecidableEq, Repr

structure LogSessionRow where
  ownerUserID : Option Text
  teamID : Option Text
  createdBy : Text
  deriving DecidableEq, Repr

structure AuditRow where
  actorUserID : Option Text
  deriving DecidableEq, Repr

/-- The members are the roles under their team and their user. -/
structure Db where
  users : Table Text UserRow
  teams : Table Text TeamRow
  members : Table (Text × Text) Role
  connections : Table Text ConnectionRow
  logSessions : Table Text LogSessionRow
  auditEvents : Table Nat AuditRow

/-- A row by its primary key, an entry of a unique index, or an advisory lock. -/
inductive Key where
  | user (id : Text)
  | username (name : Text)
  | team (id : Text)
  | teamName (name : Text)
  | member (teamID userID : Text)
  | connection (id : Text)
  | logSession (id : Text)
  | auditEvent (id : Nat)
  | advisory (key : Int)
  deriving DecidableEq, Repr

namespace Db

def empty : Db := ⟨∅, ∅, ∅, ∅, ∅, ∅⟩

variable (db : Db)

def present : Key → Bool
  | .user id => (db.users.lookup id).isSome
  | .username name => db.users.any fun _ u => u.username = name
  | .team id => (db.teams.lookup id).isSome
  | .teamName name => db.teams.any fun _ t => t.name = name
  | .member teamID userID => (db.members.lookup (teamID, userID)).isSome
  | .connection id => (db.connections.lookup id).isSome
  | .logSession id => (db.logSessions.lookup id).isSome
  | .auditEvent id => (db.auditEvents.lookup id).isSome
  | .advisory _ => true

/-- What a lock on a row protects: the row itself, and a lock on a user also keeps away new memberships
of this user, whose foreign key would have to lock the user. -/
def Keeps (a b : Db) : Key → Prop
  | .user id => b.users.lookup id = a.users.lookup id ∧
      ∀ teamID, a.members.lookup (teamID, id) = none → b.members.lookup (teamID, id) = none
  | .team id => b.teams.lookup id = a.teams.lookup id
  | .member teamID userID =>
    b.members.lookup (teamID, userID) = a.members.lookup (teamID, userID)
  | _ => True

end Db

/-- The rows of the store. -/
def store : Rows Db Key where
  present := Db.present
  Keeps k a b := a.Keeps b k
  refl k a := by
    cases k with
    | user id => exact ⟨rfl, fun _ h => h⟩
    | _ => trivial
  trans := by
    intro k a b c h h'
    cases k with
    | user id => exact ⟨h'.1.trans h.1, fun teamID hnone => h'.2 teamID (h.2 teamID hnone)⟩
    | team id => exact Eq.trans h' h
    | member teamID userID => exact Eq.trans h' h
    | _ => trivial

end Workbench.Identity
