import Workbench.Identity.Deletion
import Workbench.Storage.Stores

/-!
# The database without a deleted user

Where its guards pass, `DeleteUser` deletes the user from every state that the stores reach, and with it
what is personal to the user; nothing else of the database changes but who is named as its author.
-/

set_option autoImplicit false

namespace Workbench.Storage

open Workbench.Lib
open Workbench.Identity (Principal reassign reassign_ne deletion)

namespace Db

/-- No row refers to a user. -/
structure FreeOf (userID : Text) (db : Db) : Prop where
  users : db.users.lookup userID = none
  teams : ∀ id t, db.teams.lookup id = some t → t.createdBy ≠ userID
  members : ∀ teamID, db.members.lookup (teamID, userID) = none
  connections : ∀ id c, db.connections.lookup id = some c →
    c.owner.ownerUserID ≠ some userID ∧ c.createdBy ≠ userID ∧ c.updatedBy ≠ userID
  auditEvents : ∀ id a, db.auditEvents.lookup id = some a → a.actorUserID ≠ some userID
  logSessions : ∀ id l, db.logSessions.lookup id = some l →
    l.owner.ownerUserID ≠ some userID ∧ l.createdBy ≠ userID

/-- A personal session of a user. -/
def personalSession (userID : Text) (db : Db) (sessionID : Text) : Bool :=
  (db.logSessions.lookup sessionID).any fun l => l.owner.ownerUserID = some userID

/-- What is personal to a user is gone, and each other row is there with the actor as its author where the
user was it, and with no actor where the user was it. -/
structure UserDeleted (userID actorID : Text) (a b : Db) : Prop where
  users : ∀ id, b.users.lookup id = if id = userID then none else a.users.lookup id
  teams : ∀ id, b.teams.lookup id = (a.teams.lookup id).map fun t =>
    { t with createdBy := reassign userID actorID t.createdBy }
  members : ∀ id, b.members.lookup id = if id.2 = userID then none else a.members.lookup id
  connections : ∀ id, b.connections.lookup id = (a.connections.lookup id).bind fun c =>
    if c.owner.ownerUserID = some userID then none
    else some { c with
      createdBy := reassign userID actorID c.createdBy
      updatedBy := reassign userID actorID c.updatedBy }
  auditEvents : ∀ id, b.auditEvents.lookup id = (a.auditEvents.lookup id).map fun e =>
    { e with actorUserID := if e.actorUserID = some userID then none else e.actorUserID }
  logSessions : ∀ id, b.logSessions.lookup id = (a.logSessions.lookup id).bind fun l =>
    if l.owner.ownerUserID = some userID then none
    else some { l with createdBy := reassign userID actorID l.createdBy }
  logFiles : ∀ id, b.logFiles.lookup id = (a.logFiles.lookup id).filter fun f =>
    !a.personalSession userID f.sessionID
  logEntries : ∀ id, b.logEntries.lookup id = (a.logEntries.lookup id).filter fun e =>
    !a.personalSession userID e.sessionID
  logScopeStats : ∀ key, b.logScopeStats.lookup key =
    if a.personalSession userID key.1 then none else a.logScopeStats.lookup key
  logTimeBuckets : ∀ key, b.logTimeBuckets.lookup key =
    if a.personalSession userID key.1 then none else a.logTimeBuckets.lookup key

section

variable {userID actorID : Text} {a b : Db}

theorem UserDeleted.freeOf (h : a.UserDeleted userID actorID b) (hne : userID ≠ actorID) :
    b.FreeOf userID := by
  constructor
  · rw [h.users, if_pos rfl]
  · intro id t ht
    rw [h.teams, Option.map_eq_some_iff] at ht
    obtain ⟨t', -, rfl⟩ := ht
    exact reassign_ne hne _
  · intro teamID
    rw [h.members, if_pos rfl]
  · intro id c hc
    rw [h.connections, Option.bind_eq_some_iff] at hc
    obtain ⟨c', -, hkept⟩ := hc
    split at hkept
    · cases hkept
    · next howner =>
        cases hkept
        exact ⟨howner, reassign_ne hne _, reassign_ne hne _⟩
  · intro id e he
    rw [h.auditEvents, Option.map_eq_some_iff] at he
    obtain ⟨e', -, rfl⟩ := he
    show (if e'.actorUserID = some userID then none else e'.actorUserID) ≠ some userID
    split
    · intro hsome
      cases hsome
    · next hother => exact hother
  · intro id l hl
    rw [h.logSessions, Option.bind_eq_some_iff] at hl
    obtain ⟨l', -, hkept⟩ := hl
    split at hkept
    · cases hkept
    · next howner =>
        cases hkept
        exact ⟨howner, reassign_ne hne _⟩

end

end Db

/-! ## From the tables that the identity store sees -/

section

variable {userID actorID : Text} {db : Db} {seen : Identity.Db}

theorem lookup_connections_withIdentity
    (h : db.identity.Changed (deletion userID actorID) seen) (id : Text) :
    (db.withIdentity seen).connections.lookup id = (db.connections.lookup id).bind fun c =>
      if c.owner.ownerUserID = some userID then none
      else some { c with
        createdBy := reassign userID actorID c.createdBy
        updatedBy := reassign userID actorID c.updatedBy } := by
  show (db.connections.follow _ seen.connections).lookup id = _
  rw [Table.lookup_follow, h.connections]
  show _ = (db.connections.lookup id).bind _
  rw [Db.identity, Table.lookup_mapValues]
  cases db.connections.lookup id with
  | none => rfl
  | some c =>
    show ((if c.owner.ownerUserID = some userID then none else some _).map _) = _
    exact apply_ite (Option.map _) _ _ _

theorem lookup_logSessions_withIdentity
    (h : db.identity.Changed (deletion userID actorID) seen) (id : Text) :
    (db.withIdentity seen).logSessions.lookup id = (db.logSessions.lookup id).bind fun l =>
      if l.owner.ownerUserID = some userID then none
      else some { l with createdBy := reassign userID actorID l.createdBy } := by
  show (db.logSessions.follow _ seen.logSessions).lookup id = _
  rw [Table.lookup_follow, h.logSessions, Db.identity, Table.lookup_mapValues]
  cases db.logSessions.lookup id with
  | none => rfl
  | some l =>
    show ((if l.owner.ownerUserID = some userID then none else some _).map _) = _
    exact apply_ite (Option.map _) _ _ _

theorem lookup_auditEvents_withIdentity
    (h : db.identity.Changed (deletion userID actorID) seen) (id : Nat) :
    (db.withIdentity seen).auditEvents.lookup id = (db.auditEvents.lookup id).map fun e =>
      { e with actorUserID := if e.actorUserID = some userID then none else e.actorUserID } := by
  show (db.auditEvents.follow _ seen.auditEvents).lookup id = _
  rw [Table.lookup_follow, h.auditEvents, Db.identity, Table.lookup_mapValues]
  cases db.auditEvents.lookup id with
  | none => rfl
  | some e =>
    show some { e with actorUserID := (if e.actorUserID = some userID then
      (⟨none⟩ : Identity.AuditRow) else ⟨e.actorUserID⟩).actorUserID } = some _
    by_cases hactor : e.actorUserID = some userID <;> simp [hactor]

/-- The sessions that the deletion takes away are the personal ones of the user. -/
theorem lostSession_withIdentity (h : db.identity.Changed (deletion userID actorID) seen)
    (sessionID : Text) :
    db.lostSession (db.withIdentity seen) sessionID = db.personalSession userID sessionID := by
  rw [Db.lostSession, lookup_logSessions_withIdentity h, Db.personalSession]
  cases db.logSessions.lookup sessionID with
  | none => rfl
  | some l =>
    by_cases howner : l.owner.ownerUserID = some userID <;> simp [howner]

/-- What a cascade leaves of rows that it judges by themselves. -/
theorem lookup_cascade {K V : Type} [DecidableEq K] {t : Table K V} {p : V → Prop} [DecidablePred p]
    {k : K} {q : V → Bool} (h : ∀ v, t.lookup k = some v → (p v ↔ q v = true)) :
    (t.alter (fun _ => true) fun v => if p v then none else some v).lookup k =
      (t.lookup k).filter fun v => !q v := by
  rw [Table.lookup_alter, if_pos rfl]
  cases hv : t.lookup k with
  | none => rfl
  | some v =>
    show (if p v then none else some v) = _
    by_cases hq : q v = true
    · rw [if_pos ((h v hv).2 hq)]
      exact (Option.filter_some_neg (by simpa using hq)).symm
    · rw [if_neg fun hp => hq ((h v hv).1 hp)]
      exact (Option.filter_some_pos (by simpa using hq)).symm

theorem bind_filterKey {V : Type} {p : Prop} [Decidable p] (row : Option V) :
    (row.bind fun v => if p then none else some v) = if p then none else row := by
  split
  · exact Option.bind_fun_none row
  · exact Option.bind_fun_some row

/-- What a cascade leaves of rows that it judges by their key. -/
theorem lookup_cascadeKeys {K V : Type} [DecidableEq K] {t : Table K V} {p : K → Bool} {k : K} {b : Bool}
    (h : p k = b) : (t.alter p fun _ => none).lookup k = if b then none else t.lookup k := by
  rw [Table.lookup_alter, h]
  cases t.lookup k <;> rfl

theorem userDeleted_withIdentity {uploads : Table Text Text}
    (hlogs : World.Consistent ⟨db, uploads⟩)
    (h : db.identity.Changed (deletion userID actorID) seen) :
    db.UserDeleted userID actorID (db.withIdentity seen) where
  users id := by
    rw [← bind_filterKey]
    exact h.users id
  teams id := by
    rw [Option.map_eq_bind]
    exact h.teams id
  members id := by
    rw [← bind_filterKey]
    exact h.members id
  connections := lookup_connections_withIdentity h
  auditEvents := lookup_auditEvents_withIdentity h
  logSessions := lookup_logSessions_withIdentity h
  logFiles id := by
    refine lookup_cascade fun f _ => ?_
    exact iff_of_eq (congrArg (· = true) (lostSession_withIdentity h f.sessionID))
  logEntries id := by
    refine lookup_cascade fun e he => ?_
    -- the file of an entry goes with the session of the entry, and only with it
    obtain ⟨f, hf, hsession⟩ := hlogs.entries id e he
    have hfile : db.goneFile (db.lostSession (db.withIdentity seen)) e.sourceFileID =
        db.personalSession userID e.sessionID := by
      rw [Db.goneFile, hf, ← hsession]
      exact lostSession_withIdentity h f.sessionID
    show (db.lostSession (db.withIdentity seen) e.sessionID = true ∨
      db.goneFile (db.lostSession (db.withIdentity seen)) e.sourceFileID = true) ↔ _
    rw [hfile, lostSession_withIdentity h, or_self]
  logScopeStats key := by
    apply lookup_cascadeKeys
    exact lostSession_withIdentity h key.1
  logTimeBuckets key := by
    apply lookup_cascadeKeys
    exact lostSession_withIdentity h key.1

end

/-- In every state that the stores reach, `DeleteUser` goes through where its guards pass; then no row
refers to the user, what is personal to the user is gone with its logs, and each other row is as it was but
for its author. -/
theorem deleteUser_complete (env : World.Env) (w : World) (hreach : World.Reachable env w)
    (actor : Principal) (userID : Text) (hguards : w.db.identity.MayDelete actor.user.id userID) :
    ∃ seen, (Identity.deleteUser actor userID).exec w.db.identity = .ok ((), seen) ∧
      (w.db.withIdentity seen).FreeOf userID ∧
      w.db.UserDeleted userID actor.user.id (w.db.withIdentity seen) := by
  obtain ⟨seen, hexec, hchanged⟩ := Identity.exec_deleteUser hguards
  have hdeleted := userDeleted_withIdentity hreach.consistent hchanged
  exact ⟨seen, hexec, hdeleted.freeOf hguards.other, hdeleted⟩

/-! ## A user with a log session -/

namespace World

/-- The state behind a call of the identity store. -/
def calls (w : World) (call : Identity.Call) : World :=
  { w with db := w.db.withIdentity ((call.program default).eval w.db.identity).2 }

theorem Reachable.calls {w : World} (h : Reachable ⟨default, default⟩ w) (call : Identity.Call) :
    Reachable ⟨default, default⟩ (w.calls call) :=
  h.tail (.identity (Program.runs_eval _ _))

def rootPrincipal : Principal :=
  ⟨⟨"usr_root".toList, "root".toList, "root".toList, .admin, false⟩, []⟩

def bobPrincipal : Principal := ⟨⟨"usr_bob".toList, "bob".toList, "Bob".toList, .member, false⟩, []⟩

/-- An administrator and a member. -/
def twoUsers : World :=
  (init.calls (.bootstrapAdmin "usr_root".toList [] "root".toList "password".toList)).calls
    (.createUser "usr_bob".toList [] rootPrincipal "bob".toList "Bob".toList "password".toList
      Identity.Role.member.text)

def bobSession : LogSessionRow :=
  ⟨"errors".toList, "pending".toList, .personal "usr_bob".toList, "usr_bob".toList, 0, 0, none⟩

/-- The member has a log session. -/
def oneSession : World :=
  { twoUsers with
    db := { twoUsers.db with logSessions := twoUsers.db.logSessions.insert "logs_a".toList bobSession } }

theorem reachable_oneSession : Reachable ⟨default, default⟩ oneSession := by
  have htwo : Reachable ⟨default, default⟩ twoUsers :=
    (Reachable.calls Relation.ReflTransGen.refl _).calls _
  have hcreate : Logs.createSession "logs_a".toList 0 bobPrincipal "errors".toList [] [] twoUsers.db =
      .ok (some oneSession.db) := rfl
  exact htwo.tail (.createSession hcreate)

end World

theorem deleteUser_complete_bob :
    ∃ seen, (Identity.deleteUser World.rootPrincipal "usr_bob".toList).exec World.oneSession.db.identity =
        .ok ((), seen) ∧
      (World.oneSession.db.logSessions.lookup "logs_a".toList).isSome ∧
      (World.oneSession.db.withIdentity seen).logSessions.lookup "logs_a".toList = none := by
  have hguards := Identity.mayDelete_iff.1 (⟨_, rfl⟩ : ∃ seen, (Identity.deleteUser World.rootPrincipal
    "usr_bob".toList).exec World.oneSession.db.identity = .ok ((), seen))
  obtain ⟨seen, hexec, -, hdeleted⟩ := deleteUser_complete ⟨default, default⟩ World.oneSession
    World.reachable_oneSession World.rootPrincipal "usr_bob".toList hguards
  refine ⟨seen, hexec, rfl, ?_⟩
  rw [hdeleted.logSessions]
  rfl

end Workbench.Storage
