import Workbench.Identity.Deletion
import Workbench.Identity.TeamRaces

/-!
# What the calls of the identity store do to the tables of the other stores

Only the deletion of a user or of a team writes a row of the connections or of the log sessions: it takes
away what the user or the team owns, and puts the actor where the user was an author.
-/

set_option autoImplicit false

namespace Workbench.Identity

open Workbench.Lib

/-- The tables of the other stores are the same. -/
structure Db.SameOthers (a b : Db) : Prop where
  connections : b.connections = a.connections
  logSessions : b.logSessions = a.logSessions

theorem Db.SameOthers.refl (db : Db) : db.SameOthers db := ⟨rfl, rfl⟩

theorem Db.SameOthers.trans {a b c : Db} (h : a.SameOthers b) (h' : b.SameOthers c) : a.SameOthers c :=
  ⟨h'.connections.trans h.connections, h'.logSessions.trans h.logSessions⟩

/-- A statement that writes none of their rows. -/
def Spares {β : Type} (s : Stmt β) : Prop :=
  ∀ (found : List Key) (view db : Db), db.SameOthers (s.change found view db)

section

variable {α β : Type}

theorem sameOthers_of_each {tx : Transaction α} (htx : tx.Each Spares) {db db' : Db} {a : α}
    (h : tx.exec db = .ok (a, db')) : db.SameOthers db' := by
  induction tx generalizing db with
  | done r =>
    obtain ⟨-, rfl⟩ := Tx.exec_done_ok.1 h
    exact Db.SameOthers.refl _
  | stmt s next ih =>
    rw [Tx.exec] at h
    cases hresult : s.result (s.rows db) db with
    | error e =>
      rw [hresult] at h
      cases h
    | ok b =>
      rw [hresult] at h
      exact (htx.1 _ _ _).trans (ih b (htx.2 b) h)

theorem spares_of_quiet {tx : Transaction α} (h : tx.Each Quiet) : tx.Each Spares := by
  refine h.mono fun s hs found view db => ?_
  rw [hs.change]
  exact Db.SameOthers.refl db

/-- A statement that spares them, and what follows it. -/
theorem spares_then {s : Stmt β} {f : β → Transaction α}
    (hs : ∀ (found : List Key) (view db : Db), db.SameOthers (s.change found view db)) (hf : ∀ b, (f b).Each Spares) :
    (Tx.perform s >>= f).Each Spares := Tx.each_bind (Tx.each_perform hs) hf

end

/-! ## Functions -/

theorem spares_insertUser {wrap : Cause → Err} {userID username displayName passwordHash role : Text} :
    Spares (insertUser wrap userID username displayName passwordHash role) := by
  intro found view db
  dsimp only [insertUser]
  cases Role.parse role with
  | none => exact Db.SameOthers.refl db
  | some r => exact ⟨rfl, rfl⟩

theorem spares_putMember {operation : Text} {allowed : Db → Bool} {unique : Bool} {teamID userID role : Text} :
    Spares (putMember operation allowed unique teamID userID role) := by
  intro found view db
  dsimp only [putMember]
  cases Role.parse role with
  | none => exact Db.SameOthers.refl db
  | some r =>
    dsimp only
    split
    · exact ⟨rfl, rfl⟩
    · exact Db.SameOthers.refl db

theorem spares_ensureAnotherTeamAdmin (teamID userID : Text) :
    (ensureAnotherTeamAdmin teamID userID).Each Spares :=
  spares_then (fun _ _ _ => ⟨rfl, rfl⟩) fun _ => spares_then (fun _ _ _ => ⟨rfl, rfl⟩) fun _ => each_failIf _ _

section

variable (rt : Runtime) (actor : Principal)

theorem spares_bootstrapAdmin (userID salt username password : Text) :
    (bootstrapAdmin rt userID salt username password).Each Spares := by
  refine spares_then (fun _ _ _ => ⟨rfl, rfl⟩) fun _ => spares_then (fun _ _ _ => ⟨rfl, rfl⟩) fun _ => ?_
  exact Tx.each_bind (each_failIf _ _) fun _ => spares_then spares_insertUser fun _ => trivial

theorem spares_createUser (userID salt username displayName password role : Text) :
    (createUser rt userID salt actor username displayName password role).Each Spares :=
  Tx.each_bind (spares_of_quiet (each_authorizeSystemAdmin _)) fun _ =>
    spares_then spares_insertUser fun _ => trivial

theorem spares_updateUser (salt userID : Text) (update : UserUpdate) :
    (updateUser rt salt actor userID update).Each Spares := by
  refine Tx.each_bind (spares_of_quiet (each_authorizeSystemAdmin _)) fun _ => ?_
  refine spares_then (fun _ _ _ => ⟨rfl, rfl⟩) fun found => ?_
  cases found with
  | none => trivial
  | some current =>
    refine Tx.each_bind trivial fun fields => ?_
    refine Tx.each_bind (each_runIf (spares_of_quiet (each_guardSystemAdmin userID))) fun _ => ?_
    refine Tx.each_bind trivial fun _ => spares_then (fun _ _ _ => ⟨rfl, rfl⟩) fun row => ?_
    cases row <;> trivial

theorem spares_createTeam (teamID name : Text) : (createTeam teamID actor name).Each Spares := by
  refine Tx.each_bind (spares_of_quiet (each_authorizeSystemAdmin _)) fun _ => ?_
  exact spares_then (fun _ _ _ => ⟨rfl, rfl⟩) fun _ => spares_then spares_putMember fun _ => trivial

theorem spares_updateTeamName (teamID name : Text) : (updateTeamName actor teamID name).Each Spares := by
  refine Tx.each_bind (spares_of_quiet (each_authorizeSystemAdmin _)) fun _ => ?_
  refine spares_then (fun _ _ _ => ⟨rfl, rfl⟩) fun row => ?_
  cases row <;> trivial

theorem spares_setTeamMemberRole (teamID userID role : Text) :
    (setTeamMemberRole actor teamID userID role).Each Spares := by
  rw [setTeamMemberRole]
  cases Role.parse (trimSpace role) with
  | none => trivial
  | some r =>
    refine Tx.each_bind (spares_of_quiet (each_authorizeTeamAdmin _ _)) fun _ => ?_
    refine Tx.each_bind (spares_of_quiet (each_lockTeamMember _ _)) fun _ => ?_
    refine Tx.each_bind (each_runIf (spares_ensureAnotherTeamAdmin _ _)) fun _ => ?_
    exact Tx.each_perform fun _ _ _ => ⟨rfl, rfl⟩

theorem spares_removeTeamMember (teamID userID : Text) :
    (removeTeamMember actor teamID userID).Each Spares := by
  refine Tx.each_bind (spares_of_quiet (each_authorizeTeamAdmin _ _)) fun _ => ?_
  refine Tx.each_bind (spares_of_quiet (each_lockTeamMember _ _)) fun _ => ?_
  refine Tx.each_bind (each_runIf (spares_ensureAnotherTeamAdmin _ _)) fun _ => ?_
  exact Tx.each_perform fun _ _ _ => ⟨rfl, rfl⟩

theorem spares_setUserTeamMemberships (guards deletes : MapOrder) (userID : Text)
    (assignments : List TeamAssignment) :
    (setUserTeamMemberships guards deletes actor userID assignments).Each Spares := by
  refine Tx.each_bind trivial fun normalized => ?_
  refine Tx.each_bind (spares_of_quiet (each_authorizeSystemAdmin _)) fun _ => ?_
  refine spares_then (fun _ _ _ => ⟨rfl, rfl⟩) fun _ => Tx.each_bind (each_failIf _ _) fun _ => ?_
  refine spares_then (fun _ _ _ => ⟨rfl, rfl⟩) fun current => ?_
  refine Tx.each_bind (Tx.each_forM (fun m => each_runIf (spares_ensureAnotherTeamAdmin _ _)) _) fun _ => ?_
  refine Tx.each_bind (Tx.each_forM (fun m => each_runIf (Tx.each_perform fun _ _ _ => ⟨rfl, rfl⟩)) _) fun _ => ?_
  refine Tx.each_forM (fun m => spares_then spares_putMember fun _ => ?_) _
  trivial

end

/-! ## Calls -/

theorem sameOthers_of_once {β : Type} {tx : Transaction β} {db db' : Db} {r : Option (Except Err Unit)}
    (htx : tx.Each Spares) (h : (Program.once tx).Runs db r db') : db.SameOthers db' := by
  rcases Program.runs_once.1 h with ⟨-, b, hexec⟩ | ⟨-, rfl, -⟩
  · exact sameOthers_of_each htx hexec
  · exact Db.SameOthers.refl _

/-- Either a call spares the other tables, or it is a deletion that goes through. -/
theorem Call.runs_others {rt : Runtime} {c : Call} {db db' : Db} {r : Option (Except Err Unit)}
    (h : (c.program rt).Runs db r db') :
    db.SameOthers db' ∨
      (∃ actor userID, (Identity.deleteUser actor userID).exec db = .ok ((), db')) ∨
      ∃ actor teamID, (Identity.deleteTeam actor teamID).exec db = .ok ((), db') := by
  cases c with
  | deleteUser actor userID =>
    rcases Program.runs_once.1 h with ⟨-, ⟨⟩, hexec⟩ | ⟨-, rfl, -⟩
    · exact Or.inr (Or.inl ⟨actor, userID, hexec⟩)
    · exact Or.inl (Db.SameOthers.refl _)
  | deleteTeam actor teamID =>
    rcases Program.runs_once.1 h with ⟨-, ⟨⟩, hexec⟩ | ⟨-, rfl, -⟩
    · exact Or.inr (Or.inr ⟨actor, teamID, hexec⟩)
    · exact Or.inl (Db.SameOthers.refl _)
  | updateTeam actor teamID name =>
    left
    cases h with
    | commit hexec hnext =>
      have hfirst := sameOthers_of_each (spares_updateTeamName actor teamID name) hexec
      exact hfirst.trans (sameOthers_of_once (Tx.each_perform fun _ _ _ => ⟨rfl, rfl⟩) hnext)
    | rollback => exact Db.SameOthers.refl _
    | fail => exact Db.SameOthers.refl _
  | bootstrapAdmin => exact Or.inl (sameOthers_of_once (spares_bootstrapAdmin _ _ _ _ _) h)
  | createUser => exact Or.inl (sameOthers_of_once (spares_createUser _ _ _ _ _ _ _ _) h)
  | createTeam => exact Or.inl (sameOthers_of_once (spares_createTeam _ _ _) h)
  | updateUser => exact Or.inl (sameOthers_of_once (spares_updateUser _ _ _ _ _) h)
  | addTeamMember =>
    exact Or.inl (sameOthers_of_once (spares_then spares_putMember fun _ => each_failIf _ _) h)
  | setTeamMemberRole => exact Or.inl (sameOthers_of_once (spares_setTeamMemberRole _ _ _ _) h)
  | removeTeamMember => exact Or.inl (sameOthers_of_once (spares_removeTeamMember _ _ _) h)
  | setUserTeamMemberships =>
    exact Or.inl (sameOthers_of_once (spares_setUserTeamMemberships _ _ _ _ _) h)
  -- the queries
  | _ =>
    rcases Call.runs_cases h with ⟨rfl, -⟩ | ⟨-, rfl⟩
    · exact Or.inl (Db.SameOthers.refl _)
    · exact Or.inl (Db.SameOthers.refl _)

/-! ## Deletions -/

/-- What becomes of each row when a user is deleted, from the deletion itself. -/
theorem deleteUser_changed {actor : Principal} {userID : Text} {db db' : Db}
    (h : (deleteUser actor userID).exec db = .ok ((), db')) :
    db.Changed (deletion userID actor.user.id) db' := by
  obtain ⟨seen, hexec, hchanged⟩ := exec_deleteUser (mayDelete_iff.1 ⟨db', h⟩)
  rw [h] at hexec
  cases hexec
  exact hchanged

/-- A cascade takes away the connections that refer to the team, and no other. -/
theorem deleteTeam_others {actor : Principal} {teamID : Text} {db db' : Db}
    (h : (deleteTeam actor teamID).exec db = .ok ((), db')) :
    (∀ id, db'.connections.lookup id = (db.connections.lookup id).bind fun c =>
      if c.teamID = some teamID then none else some c) ∧
    ∀ id, db'.logSessions.lookup id = (db.logSessions.lookup id).bind fun l =>
      if l.teamID = some teamID then none else some l := by
  simp only [deleteTeam, Tx.exec_bind_ok] at h
  obtain ⟨⟨⟩, db₁, hauthorize, n, db₂, hdelete, ⟨⟩, db₃, hmembers, ⟨⟩, db₄, hconnections, ⟨⟩, db₅,
    hlogSessions, hfound⟩ := h
  have hfront : db.SameOthers db₃ :=
    (sameOthers_of_each (spares_of_quiet (each_authorizeSystemAdmin _)) hauthorize).trans
      ((sameOthers_of_each (Tx.each_perform fun _ _ _ => ⟨rfl, rfl⟩) hdelete).trans
        (sameOthers_of_each (Tx.each_perform fun _ _ _ => ⟨rfl, rfl⟩) hmembers))
  obtain ⟨db₄', hexec₄, hchanged₄⟩ := @exec_alterConnections db₃ (fun _ _ => .ok ())
    (fun c => c.teamID = some teamID) (fun _ => none) rfl
  obtain rfl : db₄' = db₄ := (Prod.mk.inj (Except.ok.inj (hexec₄.symm.trans hconnections))).2
  obtain ⟨db₅', hexec₅, hchanged₅⟩ := @exec_alterLogSessions db₄' (fun _ _ => .ok ())
    (fun l => l.teamID = some teamID) (fun _ => none) rfl
  obtain rfl : db₅' = db₅ := (Prod.mk.inj (Except.ok.inj (hexec₅.symm.trans hlogSessions))).2
  obtain ⟨-, rfl⟩ := exec_failIf.1 hfound
  have hboth := hchanged₄.trans hchanged₅
  constructor
  · intro id
    rw [hboth.connections, hfront.connections]
    simp [RowChanges.andThen, RowChanges.none]
  · intro id
    rw [hboth.logSessions, hfront.logSessions]
    simp [RowChanges.andThen, RowChanges.none]

end Workbench.Identity
