import Workbench.Identity.Calls

/-!
# Every team has an administrator

`ensureAnotherTeamAdmin` stands before every way to take an administrator out of a team but one: the
upsert of `AddTeamMember` overwrites the role of a member that is there already.
-/

set_option autoImplicit false

namespace Workbench.Identity

open Workbench.Lib

def Db.TeamsHaveAdmins (db : Db) : Prop :=
  ∀ t, (db.teams.lookup t).isSome → ∃ u, db.IsTeamAdmin t u

/-- `AddTeamMember` is not used to make a plain member of a team's only administrator. -/
def Call.SparesLastAdmin : Call → Db → Prop
  | .addTeamMember actor teamID userID role, db =>
    authorized actor.user.id teamID db = true → role = Role.member.text →
      db.IsTeamAdmin teamID userID → db.OtherTeamAdmin teamID userID
  | _, _ => True

theorem Role.parse_eq_some {text : Text} {r : Role} : Role.parse text = some r ↔ text = r.text := by
  constructor
  · intro h
    unfold parse at h
    split at h
    · next htext =>
        cases h
        exact htext
    · split at h
      · next htext =>
          cases h
          exact htext
      · cases h
  · rintro rfl
    exact parse_text r

/-- A team keeps an administrator when one member gets another role or none, if the guard passed. -/
theorem Db.TeamsHaveAdmins.of_members {a b : Db} (h : a.TeamsHaveAdmins) (lost : Text → Text → Prop)
    (hteams : ∀ t, (b.teams.lookup t).isSome → (a.teams.lookup t).isSome)
    (hkept : ∀ t u, ¬ lost t u → a.IsTeamAdmin t u → b.IsTeamAdmin t u)
    (hguard : ∀ t u, (b.teams.lookup t).isSome → lost t u → a.IsTeamAdmin t u →
      ∃ w, ¬ lost t w ∧ a.IsTeamAdmin t w) : b.TeamsHaveAdmins := by
  intro t ht
  obtain ⟨u, hu⟩ := h t (hteams t ht)
  by_cases hlost : lost t u
  · obtain ⟨w, hw, hadmin⟩ := hguard t u ht hlost hu
    exact ⟨w, hkept t w hw hadmin⟩
  · exact ⟨u, hkept t u hlost hu⟩

theorem Call.Effect.teamsHaveAdmins {rt : Runtime} {c : Call} {db db' : Db} (h : db.TeamsHaveAdmins)
    (hspares : c.SparesLastAdmin db) (heffect : c.Effect rt db db') : db'.TeamsHaveAdmins := by
  -- where neither a team nor a membership changes, nothing is to be shown
  have same (hteams : ∀ t, (db'.teams.lookup t).isSome = (db.teams.lookup t).isSome)
      (hmembers : db'.members = db.members) : db'.TeamsHaveAdmins := by
    intro t ht
    obtain ⟨u, hu⟩ := h t (hteams t ▸ ht)
    exact ⟨u, (congrArg (AList.lookup (t, u)) hmembers).trans hu⟩
  cases c with
  | bootstrapAdmin userID salt username password =>
    obtain ⟨-, rfl⟩ := heffect
    exact same (fun _ => rfl) rfl
  | createUser userID salt actor username displayName password role =>
    obtain ⟨-, -, -, r, -, rfl⟩ := heffect
    exact same (fun _ => rfl) rfl
  | createTeam teamID actor name =>
    obtain ⟨-, -, rfl⟩ := heffect
    intro t ht
    by_cases hnew : t = teamID
    · subst hnew
      exact ⟨actor.user.id, AList.lookup_insert _⟩
    · obtain ⟨u, hu⟩ := h t (by rwa [AList.lookup_insert_ne hnew] at ht)
      refine ⟨u, (AList.lookup_insert_ne ?_).trans hu⟩
      rintro ⟨⟩
      exact hnew rfl
  | updateUser salt actor userID update =>
    obtain ⟨-, -, -, -, -, -, -, -, -, -, -, hteams, hmembers⟩ := heffect
    exact same (fun t => by rw [hteams]) hmembers
  | deleteUser actor userID =>
    obtain ⟨-, -, hother, hwithout⟩ := heffect
    refine h.of_members (fun _ u => u = userID) (fun t ht => hwithout.teams t ▸ ht) ?_ ?_
    · intro t u hu hadmin
      rw [Db.IsTeamAdmin, hwithout.members, if_neg hu]
      exact hadmin
    · rintro t u - rfl hadmin
      exact hother t hadmin
  | updateTeam actor teamID name =>
    obtain ⟨-, -, hmembers, hteams⟩ := heffect
    exact same hteams hmembers
  | deleteTeam actor teamID =>
    obtain ⟨-, -, hteams, hmembers⟩ := heffect
    have hkeeps : ∀ t, (db'.teams.lookup t).isSome → t ≠ teamID ∧ (db.teams.lookup t).isSome := by
      intro t ht
      rw [hteams] at ht
      split at ht
      · cases ht
      · next hne => exact ⟨hne, ht⟩
    refine h.of_members (fun t _ => t = teamID) (fun t ht => (hkeeps t ht).2) ?_ ?_
    · intro t u hne hadmin
      rw [Db.IsTeamAdmin, hmembers, if_neg hne]
      exact hadmin
    · intro t u ht hlost
      exact absurd hlost (hkeeps t ht).1
  | addTeamMember actor teamID userID role =>
    obtain ⟨hallowed, r, hr, rfl⟩ := heffect
    refine h.of_members (fun t u => (t, u) = (teamID, userID) ∧ r = .member) (fun t ht => ht)
      ?_ ?_
    · intro t u hlost hadmin
      by_cases hkey : (t, u) = (teamID, userID)
      · cases r with
        | member => exact absurd ⟨hkey, rfl⟩ hlost
        | admin => exact hkey ▸ AList.lookup_insert _
      · exact (AList.lookup_insert_ne hkey).trans hadmin
    · rintro t u - ⟨hkey, rfl⟩ hadmin
      cases hkey
      obtain ⟨w, hne, hw⟩ :=
        hspares (authorized_iff.2 hallowed) (Role.parse_eq_some.1 hr) hadmin
      refine ⟨w, ?_, hw⟩
      rintro ⟨hkey, -⟩
      exact hne (congrArg Prod.snd hkey)
  | setTeamMemberRole actor teamID userID role =>
    obtain ⟨-, r, current, -, hcurrent, hother, -, hteams, hmembers⟩ := heffect
    refine h.of_members (fun t u => (t = teamID ∧ u = userID) ∧ r ≠ .admin)
      (fun t ht => hteams ▸ ht) ?_ ?_
    · intro t u hlost hadmin
      rw [Db.IsTeamAdmin, hmembers]
      split
      · next hkey => exact congrArg some (not_not.1 fun hne => hlost ⟨hkey, hne⟩)
      · exact hadmin
    · rintro t u - ⟨⟨rfl, rfl⟩, hrole⟩ hadmin
      have hwas : current = .admin := Option.some.inj (hcurrent.symm.trans hadmin)
      obtain ⟨w, hne, hw⟩ := hother ⟨hwas, hrole⟩
      exact ⟨w, fun hlost => hne hlost.1.2, hw⟩
  | removeTeamMember actor teamID userID =>
    obtain ⟨-, hother, -, hteams, hmembers⟩ := heffect
    refine h.of_members (fun t u => t = teamID ∧ u = userID) (fun t ht => hteams ▸ ht) ?_ ?_
    · intro t u hlost hadmin
      rw [Db.IsTeamAdmin, hmembers, if_neg hlost]
      exact hadmin
    · rintro t u - ⟨rfl, rfl⟩ hadmin
      obtain ⟨w, hne, hw⟩ := hother hadmin
      exact ⟨w, fun hlost => hne hlost.2, hw⟩
  | setUserTeamMemberships guards deletes actor userID assignments =>
    obtain ⟨-, -, hteams, normalized, -, hother, hmembers⟩ := heffect
    refine h.of_members (fun t u => u = userID ∧ desiredRole normalized t ≠ some .admin)
      (fun t ht => hteams ▸ ht) ?_ ?_
    · intro t u hlost hadmin
      rw [Db.IsTeamAdmin, hmembers]
      split
      · next hu => exact not_not.1 fun hne => hlost ⟨hu, hne⟩
      · exact hadmin
    · rintro t u - ⟨rfl, hdesired⟩ hadmin
      obtain ⟨w, hne, hw⟩ := hother t hadmin hdesired
      exact ⟨w, fun hlost => hne hlost.1, hw⟩
  | authenticate username password =>
    cases heffect
    exact h
  | listTeamMembers actor teamID =>
    cases heffect
    exact h
  | listUsers actor =>
    cases heffect
    exact h
  | listTeams actor =>
    cases heffect
    exact h
  | principalForUser userID =>
    cases heffect
    exact h

def rootPrincipal : Principal := ⟨⟨"usr_root".toList, "root".toList, "root".toList, .admin, false⟩, []⟩

/-- An installation with one team of the first administrator. -/
def firstTeam : List Call :=
  [.bootstrapAdmin rootPrincipal.user.id [] "root".toList "password".toList,
    .createTeam "team_a".toList rootPrincipal "A".toList]

/-- Where `AddTeamMember` spares the last administrator of a team, no team is ever without one. -/
theorem teams_have_admins (rt : Runtime) (db : Db)
    (h : Reachable rt Call.SparesLastAdmin Db.empty db) : db.TeamsHaveAdmins := by
  refine Reachable.induction (fun c db db' hdb hspares heffect => ?_) h ?_
  · exact heffect.teamsHaveAdmins hdb hspares
  · intro t ht
    cases ht

/-- A second user becomes a plain member of the first team. -/
theorem teams_have_admins_second_member :
    (after default (firstTeam ++
      [.createUser "usr_b".toList [] rootPrincipal "b".toList "B".toList "password".toList
          "member".toList,
        .addTeamMember rootPrincipal "team_a".toList "usr_b".toList "member".toList])
      Db.empty).TeamsHaveAdmins := by
  apply teams_have_admins default
  refine Reachable.call (c := .addTeamMember ..) ?_ ?_
  · refine Reachable.call (c := .createUser ..) ?_ trivial
    refine Reachable.call (c := .createTeam ..) ?_ trivial
    exact Reachable.call (c := .bootstrapAdmin ..) Relation.ReflTransGen.refl trivial
  · intro _ _ hadmin
    cases hadmin

/-- The administrator adds himself once more to his team, as a plain member. -/
theorem addTeamMember_demotes_last_admin :
    ∃ db, Reachable default (fun _ _ => True) Db.empty db ∧ ¬ db.TeamsHaveAdmins := by
  refine ⟨_, reachable_after default (firstTeam ++
    [.addTeamMember rootPrincipal "team_a".toList rootPrincipal.user.id "member".toList]) _, ?_⟩
  intro h
  obtain ⟨u, hu⟩ := h "team_a".toList rfl
  have hnone : Table.any (after default (firstTeam ++
    [.addTeamMember rootPrincipal "team_a".toList rootPrincipal.user.id "member".toList])
      Db.empty).members (fun id role => id.1 = "team_a".toList && role = .admin) = false := by
    rfl
  rw [Bool.eq_false_iff] at hnone
  exact hnone (Table.any_iff.2 ⟨_, _, hu, rfl⟩)

/-- The condition is needed: a call that does not meet it and goes through leaves its team without an
administrator. -/
theorem addTeamMember_takes_last_admin {rt : Runtime} {actor : Principal} {teamID userID role : Text}
    {db db' : Db} (hcond : ¬ (Call.addTeamMember actor teamID userID role).SparesLastAdmin db)
    (heffect : (Call.addTeamMember actor teamID userID role).Effect rt db db') :
    ∀ u, ¬ db'.IsTeamAdmin teamID u := by
  simp only [Call.SparesLastAdmin, Classical.not_imp] at hcond
  obtain ⟨-, hrole, -, hlast⟩ := hcond
  obtain ⟨-, r, hr, rfl⟩ := heffect
  obtain rfl : r = .member := Option.some.inj (hr.symm.trans (Role.parse_eq_some.2 hrole))
  intro u hu
  by_cases hself : u = userID
  · subst hself
    cases (AList.lookup_insert _).symm.trans hu
  · refine hlast ⟨u, hself, ?_⟩
    rw [Db.IsTeamAdmin, AList.lookup_insert_ne (by simp [hself])] at hu
    exact hu

end Workbench.Identity
