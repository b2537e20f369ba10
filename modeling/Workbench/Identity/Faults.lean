import Workbench.Identity.TeamAdmins
import Workbench.Lib.Faults

/-!
# The store when the database fails

Every function writes in one transaction, so that a failure leaves nothing of it behind. `UpdateTeam`
alone asks the database once more behind its commit, and returns an error when that query fails.
-/

set_option autoImplicit false

namespace Workbench.Identity

open Workbench.Lib

/-- The state with another name of a team. -/
def Db.renameTeam (teamID name : Text) (db : Db) : Db :=
  { db with
    teams := db.teams.alter (fun id => id = teamID) fun t => some { t with name := name } }

section

variable {db db' : Db} {actor : Principal} {teamID name : Text}

/-- The team of the name that is asked for is the team itself, or there is none. -/
theorem otherTeamName_iff :
    (db.teams.any fun id t => id ≠ teamID && t.name = name) = true ↔
      ∃ id t, id ≠ teamID ∧ db.teams.lookup id = some t ∧ t.name = name := by
  rw [Table.any_iff]
  constructor
  · rintro ⟨id, t, hlookup, hp⟩
    rw [Bool.and_eq_true, decide_eq_true_eq, decide_eq_true_eq] at hp
    exact ⟨id, t, hp.1, hlookup, hp.2⟩
  · rintro ⟨id, t, hne, hlookup, hname⟩
    exact ⟨id, t, hlookup, by simp [hne, hname]⟩

theorem exec_updateTeamRow {row : TeamRow} :
    (Tx.perform (updateTeamRow teamID name)).exec db = .ok (some row, db') ↔
      (∃ t, db.teams.lookup teamID = some t ∧ row = { t with name := name }) ∧
        (∀ id t, id ≠ teamID → db.teams.lookup id = some t → t.name ≠ name) ∧
        db' = db.renameTeam teamID name := by
  rw [updateTeamRow, exec_alterTeams]
  cases hteam : db.teams.lookup teamID with
  | none => simp
  | some t =>
    have hfound : ∀ id, (Key.team id ∈ [Key.team teamID, .teamName t.name]) = (id = teamID) := by
      simp
    simp only [hfound, if_true, Option.map_some, Option.some.injEq, exists_eq_left',
      Db.renameTeam]
    by_cases hother : (db.teams.any fun id t => id ≠ teamID && t.name = name) = true
    · obtain ⟨id, t', hne, hlookup, hname⟩ := otherTeamName_iff.1 hother
      rw [if_pos hother]
      constructor
      · rintro ⟨herr, -⟩
        cases herr
      · rintro ⟨-, hfree, -⟩
        exact absurd hname (hfree id t' hne hlookup)
    · rw [if_neg hother, Except.ok.injEq, Option.some.injEq]
      rw [otherTeamName_iff] at hother
      constructor
      · rintro ⟨hrow, hdb'⟩
        exact ⟨hrow.symm, fun id t' hne hlookup hname => hother ⟨id, t', hne, hlookup, hname⟩, hdb'⟩
      · rintro ⟨hrow, -, hdb'⟩
        exact ⟨hrow.symm, hdb'⟩

theorem exec_updateTeamName {row : TeamRow} :
    (updateTeamName actor teamID name).exec db = .ok (row, db') ↔
      db.IsActiveAdmin actor.user.id ∧
        (∃ t, db.teams.lookup teamID = some t ∧ row = { t with name := trimSpace name }) ∧
        (∀ id t, id ≠ teamID → db.teams.lookup id = some t → t.name ≠ trimSpace name) ∧
        db' = db.renameTeam teamID (trimSpace name) := by
  rw [updateTeamName]
  simp only [Tx.exec_bind_ok]
  constructor
  · rintro ⟨⟨⟩, mid, hauth, found, db₁, hupdate, hend⟩
    obtain ⟨hactive, rfl⟩ := exec_authorizeSystemAdmin.1 hauth
    cases found with
    | none => exact absurd hend (by simp [exec_fail])
    | some found =>
      obtain ⟨rfl, rfl⟩ := Tx.exec_pure_ok.1 hend
      exact ⟨hactive, exec_updateTeamRow.1 hupdate⟩
  · rintro ⟨hactive, hrow⟩
    refine ⟨(), db, exec_authorizeSystemAdmin.2 ⟨hactive, rfl⟩, some row, db', ?_, ?_⟩
    · exact exec_updateTeamRow.2 hrow
    · exact Tx.exec_pure_ok.2 ⟨rfl, rfl⟩

end

/-- The call that fails is a call of the query behind the commit, and the transaction before it has given
the team another name. -/
def Call.FailsAfterCommit (fault : Fault) (db : Db) : Call → Prop
  | .updateTeam actor teamID name =>
    fault.transaction = 1 ∧ fault.call ≤ 2 ∧ db.IsActiveAdmin actor.user.id ∧
      (db.teams.lookup teamID).isSome ∧
      ∀ id t, db.teams.lookup id = some t → t.name ≠ trimSpace name
  | _ => False

/-- A new name leaves the state as it was only if it is the old one. -/
theorem same_renameTeam_iff {db : Db} {teamID name : Text} {t : TeamRow}
    (hteam : db.teams.lookup teamID = some t) :
    db.Same (db.renameTeam teamID name) ↔ t.name = name := by
  constructor
  · intro hsame
    have hlookup := congrArg (AList.lookup teamID) hsame.teams
    simp only [Db.renameTeam, Table.lookup_alter, decide_true, if_true, hteam, Option.bind_some,
      Option.some.injEq] at hlookup
    exact (congrArg TeamRow.name hlookup).symm
  · intro hname
    refine ⟨rfl, Table.alter_eq_self fun id t' hlookup hid => ?_, rfl⟩
    rw [decide_eq_true_eq] at hid
    subst hid
    cases hteam.symm.trans hlookup
    rw [← hname]

section

variable {actor : Principal} {teamID name : Text} {fault : Fault} {db mid : Db} {row : TeamRow}

/-- The query behind the commit. -/
theorem attempt_updatedTeamRole :
    (Program.once (updatedTeamRole actor teamID)).attempt fault mid =
      if fault.transaction = 0 ∧ fault.call ≤ 2 then (none, mid) else (some (.ok ()), mid) :=
  Program.attempt_once_perform rfl fault

theorem failsAfterCommit_iff :
    (Call.updateTeam actor teamID name).FailsAfterCommit fault db ↔
      fault.transaction = 1 ∧ fault.call ≤ 2 ∧
        ∃ row, (updateTeamName actor teamID name).exec db = .ok (row, db.renameTeam teamID (trimSpace name)) ∧
          ¬ db.Same (db.renameTeam teamID (trimSpace name)) := by
  simp only [Call.FailsAfterCommit, exec_updateTeamName, and_true]
  refine and_congr_right fun _ => and_congr_right fun _ => ?_
  constructor
  · rintro ⟨hactive, hsome, hfree⟩
    obtain ⟨t, hteam⟩ := Option.isSome_iff_exists.1 hsome
    refine ⟨_, ⟨hactive, ⟨t, hteam, rfl⟩, fun id t' _ => hfree id t'⟩, ?_⟩
    rw [same_renameTeam_iff hteam]
    exact hfree teamID t hteam
  · rintro ⟨row, ⟨hactive, ⟨t, hteam, -⟩, hfree⟩, hchanged⟩
    rw [same_renameTeam_iff hteam] at hchanged
    refine ⟨hactive, Option.isSome_iff_exists.2 ⟨t, hteam⟩, fun id t' hlookup => ?_⟩
    by_cases hid : id = teamID
    · subst hid
      cases hteam.symm.trans hlookup
      exact hchanged
    · exact hfree id t' hid hlookup

end

/-- `UpdateTeam` leaves something behind an error exactly where the query fails that follows its commit. -/
theorem updateTeam_atomic_iff (rt : Runtime) (actor : Principal) (teamID name : Text) (fault : Fault)
    (db : Db) :
    ((((Call.updateTeam actor teamID name).program rt).attempt fault db).1 ≠ some (.ok ()) →
        db.Same (((Call.updateTeam actor teamID name).program rt).attempt fault db).2) ↔
      ¬ (Call.updateTeam actor teamID name).FailsAfterCommit fault db := by
  obtain ⟨k, n⟩ := fault
  rw [failsAfterCommit_iff, Call.program]
  cases hexec : (updateTeamName actor teamID name).exec db with
  | error e =>
    -- the transaction fails in any case
    have hsame : ((Program.transact (updateTeamName actor teamID name) fun _ =>
        Program.once (updatedTeamRole actor teamID)).attempt ⟨k, n⟩ db).2 = db := by
      cases k with
      | zero =>
        rw [Program.attempt]
        rcases (updateTeamName actor teamID name).attempt_eq n db with hfails | hruns
        · rw [hfails]
        · rw [hruns, hexec]
      | succ k => rw [Program.attempt, hexec]
    rw [hsame]
    simp [Db.Same.refl]
  | ok r =>
    obtain ⟨row, mid⟩ := r
    obtain ⟨-, -, -, rfl⟩ := exec_updateTeamName.1 hexec
    rcases k with _ | _ | k
    · rw [Program.attempt]
      rcases (updateTeamName actor teamID name).attempt_eq n db with hfails | hruns
      · rw [hfails]
        simp [Db.Same.refl]
      · rw [hruns, hexec]
        simp [Program.eval, Program.once, updatedTeamRole, Tx.perform, Tx.exec, select]
    -- the query behind the commit
    · rw [Program.attempt, hexec]
      simp only [Nat.zero_add, attempt_updatedTeamRole, true_and]
      by_cases hn : n ≤ 2
      · simp [hn]
      · simp [hn]
    · rw [Program.attempt, hexec]
      simp only [attempt_updatedTeamRole]
      simp

/-- An operation that returns an error has changed nothing, whichever call of the database failed, but for
`UpdateTeam` behind its commit. -/
theorem atomic_iff (rt : Runtime) (c : Call) (fault : Fault) (db : Db) :
    (((c.program rt).attempt fault db).1 ≠ some (.ok ()) → db.Same ((c.program rt).attempt fault db).2) ↔
      ¬ c.FailsAfterCommit fault db := by
  cases c with
  | updateTeam actor teamID name => exact updateTeam_atomic_iff rt actor teamID name fault db
  | _ =>
    refine iff_of_true (fun herror => ?_) id
    -- every other function is one transaction, or only reads
    rcases Call.runs_cases (Program.runs_attempt _ fault db) with
      ⟨-, hok | ⟨_, _, _, hupdate⟩⟩ | ⟨-, hdb⟩
    · exact absurd hok herror
    · cases hupdate
    · rw [hdb]
      exact Db.Same.refl db

/-- The team has its new name and the call has failed. -/
theorem updateTeam_not_atomic :
    ¬ ∀ (c : Call) (fault : Fault) (db : Db), Reachable default (fun _ _ => True) Db.empty db →
      ((c.program default).attempt fault db).1 ≠ some (.ok ()) →
        db.Same ((c.program default).attempt fault db).2 := by
  intro hatomic
  have hsame := hatomic (.updateTeam rootPrincipal "team_a".toList "B".toList) ⟨1, 0⟩ _
    (reachable_after default firstTeam Db.empty) (by rintro ⟨⟩)
  have hname := congrArg (AList.lookup "team_a".toList) hsame.teams
  cases hname

end Workbench.Identity
