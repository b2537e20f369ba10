import Workbench.Identity.Assignments

/-!
# What the foreign keys keep

In every state that the calls of the store reach, a membership is of a team and a user that exist, and a
team has an identifier that trimming leaves alone, as `newID` gives it.
-/

set_option autoImplicit false

namespace Workbench.Identity

open Workbench.Lib

structure Db.Sound (db : Db) : Prop where
  teamIDs : ∀ t, (db.teams.lookup t).isSome → trimSpace t = t ∧ t ≠ []
  teams : ∀ t u, (db.members.lookup (t, u)).isSome → (db.teams.lookup t).isSome
  users : ∀ t u, (db.members.lookup (t, u)).isSome → (db.users.lookup u).isSome

/-- The identifier of a new team is one that `newID` gives: the prefix `team_` and characters of base64. -/
def Call.Generated : Call → Prop
  | .createTeam teamID _ _ => trimSpace teamID = teamID ∧ teamID ≠ []
  | _ => True

section

variable {db db' : Db}

/-- More users. -/
theorem Db.Sound.insertUser (h : db.Sound) (userID : Text) (row : UserRow) :
    Db.Sound { db with users := db.users.insert userID row } := by
  refine ⟨h.teamIDs, h.teams, fun t u hmember => ?_⟩
  by_cases hu : u = userID
  · subst hu
    rw [AList.lookup_insert]
    rfl
  · rw [AList.lookup_insert_ne hu]
    exact h.users t u hmember

/-- Other columns of the same users and teams, and no more memberships. -/
theorem Db.Sound.shrink (h : db.Sound)
    (hteams : ∀ t, (db'.teams.lookup t).isSome → (db.teams.lookup t).isSome)
    (hmembers : ∀ t u, (db'.members.lookup (t, u)).isSome → (db.members.lookup (t, u)).isSome ∧
      ((db.teams.lookup t).isSome → (db'.teams.lookup t).isSome) ∧
      ((db.users.lookup u).isSome → (db'.users.lookup u).isSome)) : db'.Sound := by
  constructor
  · exact fun t ht => h.teamIDs t (hteams t ht)
  · intro t u hmember
    obtain ⟨hold, hteam, -⟩ := hmembers t u hmember
    exact hteam (h.teams t u hold)
  · intro t u hmember
    obtain ⟨hold, -, huser⟩ := hmembers t u hmember
    exact huser (h.users t u hold)

/-- A membership of a team and a user that are there. -/
theorem Db.Sound.insertMember (h : db.Sound) {teamID userID : Text} {role : Role}
    (hteam : (db.teams.lookup teamID).isSome) (huser : (db.users.lookup userID).isSome) :
    Db.Sound { db with members := db.members.insert (teamID, userID) role } := by
  constructor
  · exact h.teamIDs
  · intro t u hmember
    by_cases hkey : (t, u) = (teamID, userID)
    · cases hkey
      exact hteam
    · rw [AList.lookup_insert_ne hkey] at hmember
      exact h.teams t u hmember
  · intro t u hmember
    by_cases hkey : (t, u) = (teamID, userID)
    · cases hkey
      exact huser
    · rw [AList.lookup_insert_ne hkey] at hmember
      exact h.users t u hmember

theorem Db.Sound.addTeamMember {actor : Principal} {teamID userID role : Text} (h : db.Sound)
    (hexec : (addTeamMember actor teamID userID role).exec db = .ok ((), db')) : db'.Sound := by
  rw [Identity.addTeamMember, Tx.exec_bind_ok] at hexec
  obtain ⟨n, mid, hput, hcheck⟩ := hexec
  obtain ⟨-, rfl⟩ := exec_failIf.1 hcheck
  obtain ⟨-, -, rfl⟩ | ⟨-, -, r, -, hteam, huser, -, rfl⟩ := putMember_ok hput
  · exact h
  · exact h.insertMember hteam huser

theorem Db.Sound.setUserTeamMemberships {guards deletes : MapOrder} {actor : Principal}
    {userID : Text} {assignments : List TeamAssignment} (h : db.Sound)
    (hexec : (setUserTeamMemberships guards deletes actor userID assignments).exec db =
      .ok ((), db')) : db'.Sound := by
  have hmay := mayAssign_of_ok hexec
  obtain ⟨-, husers, hteams, normalized, hnormal, -, hmembers⟩ := setUserTeamMemberships_ok hexec
  constructor
  · rw [hteams]
    exact h.teamIDs
  · intro t u hmember
    rw [hteams]
    rw [hmembers] at hmember
    split at hmember
    · obtain ⟨r, hr⟩ := Option.isSome_iff_exists.1 hmember
      obtain ⟨a, ha, hteam, -⟩ := (desiredRole_eq_some hnormal).1 hr
      rw [← hteam]
      exact hmay.teams a ha
    · exact h.teams t u hmember
  · intro t u hmember
    rw [husers]
    rw [hmembers] at hmember
    split at hmember
    · next hu =>
        rw [hu]
        exact hmay.user
    · exact h.users t u hmember

end

/-! ## Calls and runs -/

/-- What a call does to the tables keeps them sound; the two calls that put memberships into the state
have lemmas of their own. -/
theorem Call.Effect.sound {rt : Runtime} {c : Call} {db db' : Db} (h : db.Sound)
    (hgenerated : c.Generated) (heffect : c.Effect rt db db')
    (hputs : ∀ actor teamID userID role, c ≠ .addTeamMember actor teamID userID role)
    (hsets : ∀ guards deletes actor userID assignments,
      c ≠ .setUserTeamMemberships guards deletes actor userID assignments) : db'.Sound := by
  -- What a call adds refers to rows that are there, and what it deletes nothing refers to any more.
  cases c with
  | bootstrapAdmin userID salt username password =>
    obtain ⟨-, rfl⟩ := heffect
    exact h.insertUser _ _
  | createUser userID salt actor username displayName password role =>
    obtain ⟨-, -, -, r, -, rfl⟩ := heffect
    exact h.insertUser _ _
  | createTeam teamID actor name =>
    obtain ⟨⟨u, hactor, -⟩, -, rfl⟩ := heffect
    have hteam : Db.Sound { db with teams := db.teams.insert teamID ⟨trimSpace name, actor.user.id⟩ } := by
      refine ⟨fun t ht => ?_, fun t u hmember => ?_, h.users⟩
      · by_cases hid : t = teamID
        · subst hid
          exact hgenerated
        · rw [AList.lookup_insert_ne hid] at ht
          exact h.teamIDs t ht
      · by_cases hid : t = teamID
        · subst hid
          rw [AList.lookup_insert]
          rfl
        · rw [AList.lookup_insert_ne hid]
          exact h.teams t u hmember
    -- The creator is a user, so the first member of the new team is one.
    refine hteam.insertMember ?_ ?_
    · rw [AList.lookup_insert]
      rfl
    · rw [hactor]
      rfl
  | updateUser salt actor userID update =>
    obtain ⟨-, current, displayName, role, disabled, hash, hcurrent, -, -, -, husers, hteams,
      hmembers⟩ := heffect
    refine h.shrink (fun t ht => hteams ▸ ht) fun t u hmember => ?_
    refine ⟨hmembers ▸ hmember, fun ht => hteams ▸ ht, fun hu => ?_⟩
    rw [husers]
    split
    · rfl
    · exact hu
  | deleteUser actor userID =>
    obtain ⟨-, -, -, hwithout⟩ := heffect
    refine h.shrink (fun t ht => (hwithout.teams t) ▸ ht) fun t u hmember => ?_
    rw [hwithout.members] at hmember
    split at hmember
    · cases hmember
    · next hu =>
        refine ⟨hmember, fun ht => (hwithout.teams t).symm ▸ ht, fun huser => ?_⟩
        rw [hwithout.users, if_neg hu]
        exact huser
  | updateTeam actor teamID name =>
    obtain ⟨-, husers, hmembers, hteams⟩ := heffect
    refine h.shrink (fun t ht => (hteams t) ▸ ht) fun t u hmember => ?_
    exact ⟨hmembers ▸ hmember, fun ht => (hteams t).symm ▸ ht, fun hu => husers ▸ hu⟩
  | deleteTeam actor teamID =>
    obtain ⟨-, husers, hteams, hmembers⟩ := heffect
    refine h.shrink (fun t ht => ?_) fun t u hmember => ?_
    · rw [hteams] at ht
      split at ht
      · cases ht
      · exact ht
    · rw [hmembers] at hmember
      split at hmember
      · cases hmember
      · next hid =>
          refine ⟨hmember, fun ht => ?_, fun hu => husers ▸ hu⟩
          rw [hteams, if_neg hid]
          exact ht
  | addTeamMember actor teamID userID role => exact absurd rfl (hputs _ _ _ _)
  | setTeamMemberRole actor teamID userID role =>
    obtain ⟨-, r, current, -, hcurrent, -, husers, hteams, hmembers⟩ := heffect
    refine h.shrink (fun t ht => hteams ▸ ht) fun t u hmember => ?_
    rw [hmembers] at hmember
    refine ⟨?_, fun ht => hteams ▸ ht, fun hu => husers ▸ hu⟩
    split at hmember
    · next hkey =>
        obtain ⟨rfl, rfl⟩ := hkey
        rw [hcurrent]
        rfl
    · exact hmember
  | removeTeamMember actor teamID userID =>
    obtain ⟨-, -, husers, hteams, hmembers⟩ := heffect
    refine h.shrink (fun t ht => hteams ▸ ht) fun t u hmember => ?_
    rw [hmembers] at hmember
    refine ⟨?_, fun ht => hteams ▸ ht, fun hu => husers ▸ hu⟩
    split at hmember
    · cases hmember
    · exact hmember
  | setUserTeamMemberships guards deletes actor userID assignments =>
    exact absurd rfl (hsets _ _ _ _ _)
  | authenticate username password => exact heffect ▸ h
  | listTeamMembers actor teamID => exact heffect ▸ h
  | listUsers actor => exact heffect ▸ h
  | listTeams actor => exact heffect ▸ h
  | principalForUser userID => exact heffect ▸ h

theorem sound_of_reachable {rt : Runtime} {db : Db}
    (h : Reachable rt (fun c _ => c.Generated) Db.empty db) : db.Sound := by
  induction h with
  | refl =>
    constructor
    · intro t ht
      cases ht
    · intro t u hmember
      cases hmember
    · intro t u hmember
      cases hmember
  | tail _ hlast ih =>
    obtain ⟨c, r, hgenerated, hruns⟩ := hlast
    by_cases hputs : ∃ actor teamID userID role, c = .addTeamMember actor teamID userID role
    · obtain ⟨actor, teamID, userID, role, rfl⟩ := hputs
      rcases Program.runs_once.1 hruns with ⟨-, ⟨⟩, hexec⟩ | ⟨-, rfl, -⟩
      · exact ih.addTeamMember hexec
      · exact ih
    by_cases hsets : ∃ guards deletes actor userID assignments,
        c = .setUserTeamMemberships guards deletes actor userID assignments
    · obtain ⟨guards, deletes, actor, userID, assignments, rfl⟩ := hsets
      rcases Program.runs_once.1 hruns with ⟨-, ⟨⟩, hexec⟩ | ⟨-, rfl, -⟩
      · exact ih.setUserTeamMemberships hexec
      · exact ih
    rcases Call.runs_cases hruns with ⟨heffect, -⟩ | ⟨-, rfl⟩
    · refine heffect.sound ih hgenerated ?_ ?_
      · exact fun _ _ _ _ heq => hputs ⟨_, _, _, _, heq⟩
      · exact fun _ _ _ _ _ heq => hsets ⟨_, _, _, _, _, heq⟩
    · exact ih

end Workbench.Identity
