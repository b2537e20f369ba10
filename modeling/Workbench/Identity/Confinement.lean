import Workbench.Identity.TeamAdmins

/-!
# What an actor without system rights can do

`authorizeSystemAdminForUpdate` or `authorizeTeamAdminForUpdate` stands before every write, and the upsert
of `AddTeamMember` has the same condition in its query.
-/

set_option autoImplicit false

namespace Workbench.Identity

open Workbench.Lib

/-- What is out of reach for an actor without system rights. -/
structure Db.Confined (actorID : Text) (a b : Db) : Prop where
  users : b.users = a.users
  teams : b.teams = a.teams
  members : ∀ t u, b.members.lookup (t, u) ≠ a.members.lookup (t, u) →
    a.IsEnabled actorID ∧ a.IsTeamAdmin t actorID

theorem Db.Confined.refl (actorID : Text) (a : Db) : a.Confined actorID a :=
  ⟨rfl, rfl, fun _ _ h => absurd rfl h⟩

/-- A change of one membership by an administrator of its team. -/
theorem Db.confined_of_member {actorID teamID : Text} (userID : Text) {a b : Db} (husers : b.users = a.users)
    (hteams : b.teams = a.teams)
    (hmembers : ∀ t u, ¬ (t = teamID ∧ u = userID) →
      b.members.lookup (t, u) = a.members.lookup (t, u))
    (hactor : a.IsEnabled actorID ∧ a.IsTeamAdmin teamID actorID) : a.Confined actorID b := by
  refine ⟨husers, hteams, fun t u hne => ?_⟩
  by_cases hkey : t = teamID ∧ u = userID
  · rw [hkey.1]
    exact hactor
  · exact absurd (hmembers t u hkey) hne

theorem Call.Effect.confined {rt : Runtime} {c : Call} {actor : Principal} {db db' : Db}
    (hactor : c.actor = some actor) (hnot : ¬ db.IsActiveAdmin actor.user.id)
    (heffect : c.Effect rt db db') : db.Confined actor.user.id db' := by
  cases c with
  | bootstrapAdmin userID salt username password => cases hactor
  | createUser userID salt actor' username displayName password role =>
    cases hactor
    exact absurd heffect.1 hnot
  | createTeam teamID actor' name =>
    cases hactor
    exact absurd heffect.1 hnot
  | updateUser salt actor' userID update =>
    cases hactor
    exact absurd heffect.1 hnot
  | deleteUser actor' userID =>
    cases hactor
    exact absurd heffect.1 hnot
  | updateTeam actor' teamID name =>
    cases hactor
    exact absurd heffect.1 hnot
  | deleteTeam actor' teamID =>
    cases hactor
    exact absurd heffect.1 hnot
  | addTeamMember actor' teamID userID role =>
    cases hactor
    -- Without the system role only a team admin is let through, and only this membership changes.
    obtain ⟨hallowed, r, -, rfl⟩ := heffect
    refine Db.confined_of_member userID rfl rfl (fun t u hkey => ?_) (hallowed.resolve_left hnot)
    exact AList.lookup_insert_ne fun heq => hkey ⟨congrArg Prod.fst heq, congrArg Prod.snd heq⟩
  | setTeamMemberRole actor' teamID userID role =>
    cases hactor
    obtain ⟨hallowed, r, current, -, -, -, husers, hteams, hmembers⟩ := heffect
    refine Db.confined_of_member userID husers hteams (fun t u hkey => ?_) (hallowed.resolve_left hnot)
    rw [hmembers, if_neg hkey]
  | removeTeamMember actor' teamID userID =>
    cases hactor
    obtain ⟨hallowed, -, husers, hteams, hmembers⟩ := heffect
    refine Db.confined_of_member userID husers hteams (fun t u hkey => ?_) (hallowed.resolve_left hnot)
    rw [hmembers, if_neg hkey]
  | setUserTeamMemberships guards deletes actor' userID assignments =>
    cases hactor
    exact absurd heffect.1 hnot
  | authenticate username password => cases hactor
  | listTeamMembers actor' teamID =>
    cases heffect
    exact Db.Confined.refl _ _
  | listUsers actor' =>
    cases heffect
    exact Db.Confined.refl _ _
  | listTeams actor' =>
    cases heffect
    exact Db.Confined.refl _ _
  | principalForUser userID => cases hactor

/-- Without system rights an actor changes no user and no team, and memberships only of the teams that he
administers; what fails, at whatever point, changes nothing. -/
theorem nonadmin_confined (rt : Runtime) (c : Call) (actor : Principal) (db db' : Db)
    (r : Option (Except Err Unit)) (hactor : c.actor = some actor)
    (hnot : ¬ db.IsActiveAdmin actor.user.id) (hruns : (c.program rt).Runs db r db') :
    db.Confined actor.user.id db' ∧ (r ≠ some (.ok ()) → db' = db) := by
  rcases Call.runs_cases hruns with ⟨heffect, hresult⟩ | ⟨-, rfl⟩
  · refine ⟨heffect.confined hactor hnot, fun hr => ?_⟩
    -- only the query behind `UpdateTeam` could fail now, and it is behind the check of the rights
    rcases hresult with hok | ⟨actor', teamID, name, rfl⟩
    · exact absurd hok hr
    · cases hactor
      exact absurd heffect.1 hnot
  · exact ⟨Db.Confined.refl _ _, fun _ => rfl⟩

/-- A second user, who administers the first team, takes its first administrator out of it. -/
def secondPrincipal : Principal := ⟨⟨"usr_b".toList, "b".toList, "B".toList, .member, false⟩, []⟩

def secondAdmin : List Call :=
  firstTeam ++
    [.createUser secondPrincipal.user.id [] rootPrincipal "b".toList "B".toList "password".toList
        "member".toList,
      .addTeamMember rootPrincipal "team_a".toList secondPrincipal.user.id "admin".toList]

theorem nonadmin_confined_remove :
    (after default secondAdmin Db.empty).Confined secondPrincipal.user.id
      (after default (secondAdmin ++
        [.removeTeamMember secondPrincipal "team_a".toList rootPrincipal.user.id]) Db.empty) := by
  refine (nonadmin_confined default
    (.removeTeamMember secondPrincipal "team_a".toList rootPrincipal.user.id) secondPrincipal _ _ _ rfl ?_
    (Program.runs_eval _ _)).1
  rintro ⟨u, hu, hadmin⟩
  cases hu
  cases hadmin

end Workbench.Identity
