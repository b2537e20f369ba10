import Workbench.Identity.Store

/-!
# What the functions of the store do

Each function that runs alone: what lets it succeed, and what it then does to the users, the teams and
the memberships.
-/

set_option autoImplicit false

namespace Workbench.Identity

open Workbench.Lib

namespace Db

/-- An enabled system administrator. -/
def IsActiveAdmin (db : Db) (userID : Text) : Prop :=
  ∃ u, db.users.lookup userID = some u ∧ u.activeAdmin = true

def IsEnabled (db : Db) (userID : Text) : Prop :=
  ∃ u, db.users.lookup userID = some u ∧ u.disabled = false

def IsTeamAdmin (db : Db) (teamID userID : Text) : Prop :=
  db.members.lookup (teamID, userID) = some .admin

/-- Another administrator of a team. -/
def OtherTeamAdmin (db : Db) (teamID userID : Text) : Prop :=
  ∃ w, w ≠ userID ∧ db.IsTeamAdmin teamID w

end Db

theorem UserRow.activeAdmin_iff (u : UserRow) :
    u.activeAdmin = true ↔ u.systemRole = .admin ∧ u.disabled = false := by
  simp [UserRow.activeAdmin]

namespace Role

theorem parse_text (r : Role) : parse r.text = some r := by
  cases r with
  | member => rfl
  | admin => rfl

end Role

/-! ## Statements that run alone -/

section

variable {β : Type} {db db' : Db} {b : β}

theorem exec_select {label : Label} {answer : Db → Except Err β} :
    (Tx.perform (select label answer)).exec db = .ok (b, db') ↔ answer db = .ok b ∧ db' = db :=
  Tx.exec_perform_ok

theorem exec_selectForUpdate {label : Label} {rows : Db → List Key} {answer : List Key → Db → β} :
    (Tx.perform (selectForUpdate label rows answer)).exec db = .ok (b, db') ↔
      answer (rows db) db = b ∧ db' = db := by
  rw [Tx.exec_perform_ok]
  exact and_congr (Except.ok.injEq _ _).to_iff Iff.rfl

theorem exec_alterUsers {rows : Db → List Key} {answer : List Key → Db → Except Err β}
    {row : UserRow → Option UserRow} :
    (Tx.perform (alterUsers rows answer row)).exec db = .ok (b, db') ↔
      answer (rows db) db = .ok b ∧
        db' = { db with users := db.users.alter (fun id => .user id ∈ rows db) row } :=
  Tx.exec_perform_ok

theorem exec_alterTeams {rows : Db → List Key} {claims : List Key}
    {answer : List Key → Db → Except Err β} {row : TeamRow → Option TeamRow} :
    (Tx.perform (alterTeams rows claims answer row)).exec db = .ok (b, db') ↔
      answer (rows db) db = .ok b ∧
        db' = { db with teams := db.teams.alter (fun id => .team id ∈ rows db) row } :=
  Tx.exec_perform_ok

theorem exec_alterMembers {rows : Db → List Key} {row : Role → Option Role} :
    (Tx.perform (alterMembers rows row)).exec db = .ok ((), db') ↔
      db' = { db with members := db.members.alter (fun id => .member id.1 id.2 ∈ rows db) row } := by
  rw [Tx.exec_perform_ok]
  exact and_iff_right rfl

end

theorem mem_rowOf {k k' : Key} {db : Db} : k' ∈ rowOf k db ↔ k' = k ∧ db.present k = true := by
  unfold rowOf
  split
  · next h => simp [h]
  · next h => simp [h]

section

variable {db db' : Db} {userID teamID : Text}

theorem exec_lockUser {u : Option UserRow} :
    (Tx.perform (lockUser userID)).exec db = .ok (u, db') ↔ u = db.users.lookup userID ∧ db' = db := by
  rw [lockUser, exec_selectForUpdate]
  refine and_congr ?_ Iff.rfl
  simp only [mem_rowOf, true_and, Db.present]
  cases h : db.users.lookup userID with
  | none => simp [eq_comm]
  | some row => simp [eq_comm]

theorem exec_lockMember {role : Option Role} :
    (Tx.perform (lockMember teamID userID)).exec db = .ok (role, db') ↔
      role = db.members.lookup (teamID, userID) ∧ db' = db := by
  rw [lockMember, exec_selectForUpdate]
  refine and_congr ?_ Iff.rfl
  simp only [mem_rowOf, true_and, Db.present]
  cases h : db.members.lookup (teamID, userID) with
  | none => simp [eq_comm]
  | some row => simp [eq_comm]

theorem exec_targetExists {b : Bool} :
    (Tx.perform (targetExists userID)).exec db = .ok (b, db') ↔
      b = (db.users.lookup userID).isSome ∧ db' = db := by
  rw [targetExists, exec_selectForUpdate]
  refine and_congr ?_ Iff.rfl
  simp only [mem_rowOf, true_and, Db.present]
  cases h : db.users.lookup userID with
  | none => simp [eq_comm]
  | some row => simp [eq_comm]

/-! ## Guards -/

theorem exec_failIf {p : Prop} [Decidable p] {s : Sentinel} :
    (failIf p s).exec db = .ok ((), db') ↔ ¬ p ∧ db' = db := by
  unfold failIf
  split
  · next h => simp [h, fail, Tx.exec_throw_ok]
  · next h => simp [h, Tx.exec_pure_ok]

theorem exec_fail {α : Type} {s : Sentinel} {a : α} :
    (fail s : Transaction α).exec db = .ok (a, db') ↔ False := Tx.exec_throw_ok

theorem exec_runIf {p : Prop} [Decidable p] {tx : Transaction Unit} {P : Prop}
    (h : p → (tx.exec db = .ok ((), db') ↔ P ∧ db' = db)) :
    (runIf p tx).exec db = .ok ((), db') ↔ (p → P) ∧ db' = db := by
  unfold runIf
  split
  · next hp => simp [h hp, hp]
  · next hp => simp [hp, Tx.exec_pure_ok]

theorem exec_authorizeSystemAdmin :
    (authorizeSystemAdminForUpdate userID).exec db = .ok ((), db') ↔
      db.IsActiveAdmin userID ∧ db' = db := by
  unfold authorizeSystemAdminForUpdate
  rw [Tx.exec_bind_ok]
  constructor
  · rintro ⟨u, mid, hlock, h⟩
    obtain ⟨rfl, rfl⟩ := exec_lockUser.1 hlock
    cases hu : mid.users.lookup userID with
    | none =>
      rw [hu] at h
      exact absurd h (by simp [exec_fail])
    | some u =>
      rw [hu] at h
      obtain ⟨hp, rfl⟩ := exec_failIf.1 h
      refine ⟨⟨u, hu, ?_⟩, rfl⟩
      rw [UserRow.activeAdmin_iff]
      simpa [and_comm] using hp
  · rintro ⟨⟨u, hu, hadmin⟩, rfl⟩
    refine ⟨some u, db', exec_lockUser.2 ⟨hu.symm, rfl⟩, exec_failIf.2 ⟨?_, rfl⟩⟩
    rw [UserRow.activeAdmin_iff] at hadmin
    simp [hadmin]

theorem exec_authorizeTeamAdmin :
    (authorizeTeamAdminForUpdate userID teamID).exec db = .ok ((), db') ↔
      (db.IsActiveAdmin userID ∨ db.IsEnabled userID ∧ db.IsTeamAdmin teamID userID) ∧ db' = db := by
  unfold authorizeTeamAdminForUpdate
  rw [Tx.exec_bind_ok]
  constructor
  · rintro ⟨u, mid, hlock, h⟩
    -- The two reads leave the database as it is, so every branch either fails or decides.
    obtain ⟨rfl, rfl⟩ := exec_lockUser.1 hlock
    cases hu : mid.users.lookup userID with
    | none =>
      rw [hu] at h
      exact absurd h (by simp [exec_fail])
    | some u =>
      simp only [hu] at h
      split at h
      · exact absurd h (by simp [exec_fail])
      · next hdisabled =>
          have henabled : u.disabled = false := by simpa using hdisabled
          split at h
          · next hrole =>
              obtain ⟨-, rfl⟩ := Tx.exec_pure_ok.1 h
              exact ⟨Or.inl ⟨u, hu, u.activeAdmin_iff.2 ⟨hrole, henabled⟩⟩, rfl⟩
          · obtain ⟨role, mid, hmember, h⟩ := Tx.exec_bind_ok.1 h
            obtain ⟨rfl, rfl⟩ := exec_lockMember.1 hmember
            cases hm : mid.members.lookup (teamID, userID) with
            | none =>
              rw [hm] at h
              exact absurd h (by simp [exec_fail])
            | some role =>
              rw [hm] at h
              obtain ⟨hp, rfl⟩ := exec_failIf.1 h
              rw [ne_eq, not_not] at hp
              exact ⟨Or.inr ⟨⟨u, hu, henabled⟩, hm.trans (congrArg some hp)⟩, rfl⟩
  · rintro ⟨hallowed, rfl⟩
    -- Either way the user is there and enabled.
    have huser : ∃ u, db'.users.lookup userID = some u ∧ u.disabled = false ∧
        (u.systemRole = .admin ∨ db'.IsTeamAdmin teamID userID) := by
      rcases hallowed with ⟨u, hu, hadmin⟩ | ⟨⟨u, hu, henabled⟩, hmember⟩
      · obtain ⟨hrole, henabled⟩ := u.activeAdmin_iff.1 hadmin
        exact ⟨u, hu, henabled, Or.inl hrole⟩
      · exact ⟨u, hu, henabled, Or.inr hmember⟩
    obtain ⟨u, hu, henabled, hrole⟩ := huser
    refine ⟨some u, db', exec_lockUser.2 ⟨hu.symm, rfl⟩, ?_⟩
    simp only [henabled, Bool.false_eq_true, if_false]
    split
    · exact Tx.exec_pure_ok.2 ⟨rfl, rfl⟩
    · next hne =>
        have hmember : db'.members.lookup (teamID, userID) = some .admin :=
          hrole.resolve_left hne
        refine Tx.exec_bind_ok.2 ⟨some .admin, db', exec_lockMember.2 ⟨hmember.symm, rfl⟩, ?_⟩
        exact exec_failIf.2 ⟨by simp, rfl⟩

theorem exec_lockTeamMember {role : Role} :
    (lockTeamMember teamID userID).exec db = .ok (role, db') ↔
      db.members.lookup (teamID, userID) = some role ∧ db' = db := by
  unfold lockTeamMember
  rw [Tx.exec_bind_ok]
  constructor
  · rintro ⟨found, mid, hlock, h⟩
    obtain ⟨rfl, rfl⟩ := exec_lockMember.1 hlock
    cases hm : mid.members.lookup (teamID, userID) with
    | none =>
      rw [hm] at h
      exact absurd h (by simp [exec_fail])
    | some r =>
      rw [hm] at h
      obtain ⟨rfl, rfl⟩ := Tx.exec_pure_ok.1 h
      exact ⟨rfl, rfl⟩
  · rintro ⟨hm, rfl⟩
    exact ⟨some role, db', exec_lockMember.2 ⟨hm.symm, rfl⟩, Tx.exec_pure_ok.2 ⟨rfl, rfl⟩⟩

theorem anotherTeamAdmin_iff :
    (db.members.any fun id role => id.1 = teamID && id.2 ≠ userID && role = .admin) = true ↔
      db.OtherTeamAdmin teamID userID := by
  rw [Table.any_iff]
  constructor
  · rintro ⟨⟨t, w⟩, role, hlookup, hp⟩
    simp only [Bool.and_eq_true, decide_eq_true_eq] at hp
    obtain ⟨⟨rfl, hne⟩, rfl⟩ := hp
    exact ⟨w, hne, hlookup⟩
  · rintro ⟨w, hne, hlookup⟩
    exact ⟨(teamID, w), .admin, hlookup, by simpa using hne⟩

theorem anotherSystemAdmin_iff :
    (db.users.any fun id u => id ≠ userID && u.activeAdmin) = true ↔
      ∃ w, w ≠ userID ∧ db.IsActiveAdmin w := by
  rw [Table.any_iff]
  constructor
  · rintro ⟨w, u, hlookup, hp⟩
    simp only [Bool.and_eq_true, decide_eq_true_eq] at hp
    exact ⟨w, hp.1, u, hlookup, hp.2⟩
  · rintro ⟨w, hne, u, hlookup, hadmin⟩
    exact ⟨w, u, hlookup, by simp [hne, hadmin]⟩

theorem exec_ensureAnotherTeamAdmin :
    (ensureAnotherTeamAdmin teamID userID).exec db = .ok ((), db') ↔
      db.OtherTeamAdmin teamID userID ∧ db' = db := by
  unfold ensureAnotherTeamAdmin
  rw [← anotherTeamAdmin_iff]
  constructor
  · intro h
    obtain ⟨⟨⟩, mid, hlock, hrest⟩ := Tx.exec_bind_ok.1 h
    obtain ⟨-, rfl⟩ := exec_selectForUpdate.1 hlock
    obtain ⟨b, mid', hread, hcheck⟩ := Tx.exec_bind_ok.1 hrest
    obtain ⟨hb, rfl⟩ := exec_select.1 hread
    obtain ⟨hp, rfl⟩ := exec_failIf.1 hcheck
    cases hb
    exact ⟨by simpa using hp, rfl⟩
  · rintro ⟨h, rfl⟩
    refine Tx.exec_bind_ok.2 ⟨(), db', exec_selectForUpdate.2 ⟨rfl, rfl⟩, ?_⟩
    refine Tx.exec_bind_ok.2 ⟨true, db', exec_select.2 ⟨congrArg Except.ok h, rfl⟩, ?_⟩
    exact exec_failIf.2 ⟨by simp, rfl⟩

theorem exec_ensureAnotherActiveSystemAdmin :
    (ensureAnotherActiveSystemAdmin userID).exec db = .ok ((), db') ↔
      (∃ w, w ≠ userID ∧ db.IsActiveAdmin w) ∧ db' = db := by
  unfold ensureAnotherActiveSystemAdmin
  rw [← anotherSystemAdmin_iff]
  constructor
  · intro h
    obtain ⟨b, mid, hread, hcheck⟩ := Tx.exec_bind_ok.1 h
    obtain ⟨hb, rfl⟩ := exec_select.1 hread
    obtain ⟨hp, rfl⟩ := exec_failIf.1 hcheck
    cases hb
    exact ⟨by simpa using hp, rfl⟩
  · rintro ⟨h, rfl⟩
    refine Tx.exec_bind_ok.2 ⟨true, db', exec_select.2 ⟨congrArg Except.ok h, rfl⟩, ?_⟩
    exact exec_failIf.2 ⟨by simp, rfl⟩

end

/-! ## Calls -/

inductive Call where
  | bootstrapAdmin (userID salt username password : Text)
  | createUser (userID salt : Text) (actor : Principal) (username displayName password role : Text)
  | createTeam (teamID : Text) (actor : Principal) (name : Text)
  | updateUser (salt : Text) (actor : Principal) (userID : Text) (update : UserUpdate)
  | deleteUser (actor : Principal) (userID : Text)
  | updateTeam (actor : Principal) (teamID name : Text)
  | deleteTeam (actor : Principal) (teamID : Text)
  | addTeamMember (actor : Principal) (teamID userID role : Text)
  | setTeamMemberRole (actor : Principal) (teamID userID role : Text)
  | removeTeamMember (actor : Principal) (teamID userID : Text)
  | setUserTeamMemberships (guards deletes : MapOrder) (actor : Principal) (userID : Text)
      (assignments : List TeamAssignment)
  | authenticate (username password : Text)
  | listTeamMembers (actor : Principal) (teamID : Text)
  | listUsers (actor : Principal)
  | listTeams (actor : Principal)
  | principalForUser (userID : Text)

/-- What the deletion of a user leaves. -/
structure Db.WithoutUser (userID : Text) (a b : Db) : Prop where
  users : ∀ id, b.users.lookup id = if id = userID then none else a.users.lookup id
  teams : ∀ t, (b.teams.lookup t).isSome = (a.teams.lookup t).isSome
  members : ∀ t u, b.members.lookup (t, u) = if u = userID then none else a.members.lookup (t, u)

/-- What a call that goes through does: who may make it, in which state, and what is different behind
it. -/
def Call.Effect (rt : Runtime) : Call → Db → Db → Prop
  | .bootstrapAdmin userID salt username password, db, db' =>
    (∀ id, db.users.lookup id = none) ∧
      db' = { db with
        users := db.users.insert userID
          ⟨normalizeUsername rt username, normalizeUsername rt username,
            rt.hashPassword salt password, .admin, false⟩ }
  | .createUser userID salt actor username displayName password role, db, db' =>
    db.IsActiveAdmin actor.user.id ∧ db.users.lookup userID = none ∧
      db.present (.username (normalizeUsername rt username)) = false ∧
      ∃ r, Role.parse role = some r ∧
        db' = { db with
          users := db.users.insert userID
            ⟨normalizeUsername rt username, trimSpace displayName, rt.hashPassword salt password, r,
              false⟩ }
  | .createTeam teamID actor name, db, db' =>
    db.IsActiveAdmin actor.user.id ∧ db.teams.lookup teamID = none ∧
      db' = { db with
        teams := db.teams.insert teamID ⟨trimSpace name, actor.user.id⟩
        members := db.members.insert (teamID, actor.user.id) .admin }
  | .updateUser salt actor userID update, db, db' =>
    db.IsActiveAdmin actor.user.id ∧
      ∃ current displayName role disabled passwordHash,
        db.users.lookup userID = some current ∧
        updatedFields actor.user.id userID update current = .ok (displayName, role, disabled) ∧
        (current.systemRole = .admin ∧ (role ≠ .admin ∨ disabled = true) →
          ∃ w, w ≠ userID ∧ db.IsActiveAdmin w) ∧
        updatedPassword rt salt update = .ok passwordHash ∧
        (∀ id, db'.users.lookup id =
          if id = userID then some ⟨current.username, displayName,
            passwordHash.getD current.passwordHash, role, update.disabled.getD current.disabled⟩
          else db.users.lookup id) ∧ db'.teams = db.teams ∧ db'.members = db.members
  | .deleteUser actor userID, db, db' =>
    db.IsActiveAdmin actor.user.id ∧ userID ≠ actor.user.id ∧
      (∀ t, db.IsTeamAdmin t userID → db.OtherTeamAdmin t userID) ∧ db.WithoutUser userID db'
  | .updateTeam actor _ _, db, db' =>
    db.IsActiveAdmin actor.user.id ∧ db'.users = db.users ∧ db'.members = db.members ∧
      ∀ t, (db'.teams.lookup t).isSome = (db.teams.lookup t).isSome
  | .deleteTeam actor teamID, db, db' =>
    db.IsActiveAdmin actor.user.id ∧ db'.users = db.users ∧
      (∀ t, db'.teams.lookup t = if t = teamID then none else db.teams.lookup t) ∧
      ∀ t u, db'.members.lookup (t, u) = if t = teamID then none else db.members.lookup (t, u)
  | .addTeamMember actor teamID userID role, db, db' =>
    (db.IsActiveAdmin actor.user.id ∨
      db.IsEnabled actor.user.id ∧ db.IsTeamAdmin teamID actor.user.id) ∧
      ∃ r, Role.parse role = some r ∧
        db' = { db with members := db.members.insert (teamID, userID) r }
  | .setTeamMemberRole actor teamID userID role, db, db' =>
    (db.IsActiveAdmin actor.user.id ∨
      db.IsEnabled actor.user.id ∧ db.IsTeamAdmin teamID actor.user.id) ∧
      ∃ r current, Role.parse (trimSpace role) = some r ∧
        db.members.lookup (teamID, userID) = some current ∧
        (current = .admin ∧ r ≠ .admin → db.OtherTeamAdmin teamID userID) ∧
        db'.users = db.users ∧ db'.teams = db.teams ∧
        ∀ t u, db'.members.lookup (t, u) =
          if t = teamID ∧ u = userID then some r else db.members.lookup (t, u)
  | .removeTeamMember actor teamID userID, db, db' =>
    (db.IsActiveAdmin actor.user.id ∨
      db.IsEnabled actor.user.id ∧ db.IsTeamAdmin teamID actor.user.id) ∧
      (db.IsTeamAdmin teamID userID → db.OtherTeamAdmin teamID userID) ∧
      db'.users = db.users ∧ db'.teams = db.teams ∧
      ∀ t u, db'.members.lookup (t, u) =
        if t = teamID ∧ u = userID then none else db.members.lookup (t, u)
  | .setUserTeamMemberships _ _ actor userID assignments, db, db' =>
    db.IsActiveAdmin actor.user.id ∧ db'.users = db.users ∧ db'.teams = db.teams ∧
      ∃ normalized, normalizeAssignments assignments [] = .ok normalized ∧
        (∀ t, db.IsTeamAdmin t userID → desiredRole normalized t ≠ some .admin →
          db.OtherTeamAdmin t userID) ∧
        ∀ t u, db'.members.lookup (t, u) =
          if u = userID then desiredRole normalized t else db.members.lookup (t, u)
  | .authenticate .., db, db' => db' = db
  | .listTeamMembers .., db, db' => db' = db
  | .listUsers _, db, db' => db' = db
  | .listTeams _, db, db' => db' = db
  | .principalForUser _, db, db' => db' = db

/-! ## Functions on users -/

/-- The tables that the store guards are the same. -/
structure Db.Same (a b : Db) : Prop where
  users : b.users = a.users
  teams : b.teams = a.teams
  members : b.members = a.members

theorem Db.Same.refl (db : Db) : db.Same db := ⟨rfl, rfl, rfl⟩

theorem Db.Same.trans {a b c : Db} (h : a.Same b) (h' : b.Same c) : a.Same c :=
  ⟨h'.users.trans h.users, h'.teams.trans h.teams, h'.members.trans h.members⟩

theorem exec_alterOthers {rows : Db → List Key} {answer : List Key → Db → Except Err Unit}
    {connection : ConnectionRow → Option ConnectionRow}
    {logSession : LogSessionRow → Option LogSessionRow} {auditEvent : AuditRow → Option AuditRow}
    {db db' : Db}
    (h : (Tx.perform (alterOthers rows answer connection logSession auditEvent)).exec db =
      .ok ((), db')) : db.Same db' := by
  obtain ⟨-, rfl⟩ := Tx.exec_perform_ok.1 h
  exact ⟨rfl, rfl, rfl⟩

theorem exec_restrictUser {constraint : Text} {refers : Db → Bool} {db db' : Db}
    (h : (Tx.perform (restrictUser constraint refers)).exec db = .ok ((), db')) : db.Same db' := by
  obtain ⟨-, rfl⟩ := exec_select.1 h
  exact ⟨rfl, rfl, rfl⟩

section

variable {db db' : Db} {userID teamID : Text}

theorem mem_memberKeys {p : Text × Text → Role → Bool} {t u : Text} :
    Key.member t u ∈ (db.members.keysWhere p).map (fun id => Key.member id.1 id.2) ↔
      ∃ role, db.members.lookup (t, u) = some role ∧ p (t, u) role = true := by
  rw [← Table.mem_keysWhere, List.mem_map]
  constructor
  · rintro ⟨⟨t', u'⟩, hmem, heq⟩
    cases heq
    exact hmem
  · intro hmem
    exact ⟨(t, u), hmem, rfl⟩

theorem exec_adminTeams {teamIDs : List Text} :
    (Tx.perform (adminTeams userID)).exec db = .ok (teamIDs, db') →
      (∀ t, t ∈ teamIDs ↔ db.IsTeamAdmin t userID) ∧ db' = db := by
  intro h
  obtain ⟨rfl, rfl⟩ := exec_selectForUpdate.1 h
  refine ⟨fun t => ?_, rfl⟩
  rw [List.mem_filterMap]
  constructor
  · rintro ⟨k, hk, hanswer⟩
    obtain ⟨⟨t', u'⟩, hkey, rfl⟩ := List.mem_map.1 hk
    obtain ⟨role, -, hp⟩ := Table.mem_keysWhere.1 hkey
    simp only [Bool.and_eq_true, decide_eq_true_eq] at hp
    obtain ⟨rfl, -⟩ := hp
    simp only [Option.ite_none_right_eq_some, Option.some.injEq] at hanswer
    obtain ⟨hadmin, rfl⟩ := hanswer
    exact hadmin
  · intro hadmin
    refine ⟨.member t userID, mem_memberKeys.2 ⟨.admin, hadmin, by simp⟩, ?_⟩
    exact if_pos hadmin

theorem exec_memberships {current : List (Text × Role)} :
    (Tx.perform (memberships userID)).exec db = .ok (current, db') →
      (∀ t role, (t, role) ∈ current ↔ db.members.lookup (t, userID) = some role) ∧ db' = db := by
  intro h
  obtain ⟨rfl, rfl⟩ := exec_selectForUpdate.1 h
  refine ⟨fun t role => ?_, rfl⟩
  rw [List.mem_filterMap]
  constructor
  · rintro ⟨k, hk, hanswer⟩
    obtain ⟨⟨t', u'⟩, hkey, rfl⟩ := List.mem_map.1 hk
    obtain ⟨-, -, hp⟩ := Table.mem_keysWhere.1 hkey
    rw [decide_eq_true_eq] at hp
    obtain rfl : u' = userID := hp
    obtain ⟨role', hlookup, heq⟩ := Option.map_eq_some_iff.1 hanswer
    cases heq
    exact hlookup
  · intro hlookup
    refine ⟨.member t userID, mem_memberKeys.2 ⟨role, hlookup, by simp⟩, ?_⟩
    exact Option.map_eq_some_iff.2 ⟨role, hlookup, rfl⟩

/-- The memberships behind the deletion of all that a condition picks. -/
theorem lookup_removeMembers {p : Text × Text → Role → Bool} {t u : Text}
    (h : (Tx.perform (alterMembers
      (fun db => (db.members.keysWhere p).map fun id => .member id.1 id.2) fun _ => none)).exec db =
        .ok ((), db')) :
    db'.members.lookup (t, u) = (db.members.lookup (t, u)).filter fun role => !p (t, u) role := by
  have hdb' := exec_alterMembers.1 h
  rw [hdb', Table.lookup_alter]
  simp only [decide_eq_true_eq, mem_memberKeys]
  cases db.members.lookup (t, u) with
  | none => simp
  | some role => cases hp : p (t, u) role <;> simp [Option.filter, hp]

theorem deleteUserRow_ok {n : Nat} (h : (Tx.perform (deleteUserRow userID)).exec db = .ok (n, db')) :
    (∀ id, db'.users.lookup id = if id = userID then none else db.users.lookup id) ∧
      db'.teams = db.teams ∧ db'.members = db.members := by
  obtain ⟨-, rfl⟩ := exec_alterUsers.1 h
  refine ⟨fun id => ?_, rfl, rfl⟩
  rw [Table.lookup_alter]
  cases hu : db.users.lookup userID with
  | none =>
    by_cases hid : id = userID
    · subst hid
      simp [hu]
    · simp [hid]
  | some u =>
    by_cases hid : id = userID
    · simp [hid]
    · simp [hid]

theorem deleteUserCascade_ok {n : Nat} (h : (deleteUserCascade userID).exec db = .ok (n, db')) :
    db.WithoutUser userID db' := by
  unfold deleteUserCascade at h
  simp only [Tx.exec_bind_ok] at h
  obtain ⟨deleted, db₁, h₁, ⟨⟩, db₂, h₂, ⟨⟩, db₃, h₃, ⟨⟩, db₄, h₄, ⟨⟩, db₅, h₅, h⟩ := h
  obtain ⟨⟨⟩, db₆, h₆, ⟨⟩, db₇, h₇, ⟨⟩, db₈, h₈, ⟨⟩, db₉, h₉, h⟩ := h
  obtain ⟨-, rfl⟩ := Tx.exec_pure_ok.1 h
  obtain ⟨husers, hteams, hmembers⟩ := deleteUserRow_ok h₁
  have hbefore := exec_restrictUser h₂
  -- behind the memberships only other tables change
  have hafter : db₃.Same db' :=
    (exec_alterOthers h₄).trans <| (exec_restrictUser h₅).trans <| (exec_restrictUser h₆).trans <|
      (exec_restrictUser h₇).trans <| (exec_alterOthers h₈).trans (exec_restrictUser h₉)
  have hcascade := exec_alterMembers.1 h₃
  constructor
  · intro id
    rw [hafter.users, hcascade, ← husers, ← hbefore.users]
  · intro t
    rw [hafter.teams, hcascade, ← hteams, ← hbefore.teams]
  · intro t u
    rw [hafter.members, lookup_removeMembers h₃, hbefore.members, hmembers]
    cases db.members.lookup (t, u) with
    | none => simp
    | some role => by_cases hu : u = userID <;> simp [Option.filter, hu]

theorem exec_reassignTeams {actorID : Text}
    (h : (Tx.perform (reassignTeams userID actorID)).exec db = .ok ((), db')) :
    db'.users = db.users ∧ db'.members = db.members ∧
      ∀ t, (db'.teams.lookup t).isSome = (db.teams.lookup t).isSome := by
  obtain ⟨-, rfl⟩ := exec_alterTeams.1 h
  exact ⟨rfl, rfl, fun t => Table.isSome_lookup_update⟩

/-- `DeleteUser` succeeds for an administrator other than the user, if no team loses its last
administrator. -/
theorem deleteUser_ok {actor : Principal} (h : (deleteUser actor userID).exec db = .ok ((), db')) :
    db.IsActiveAdmin actor.user.id ∧ userID ≠ actor.user.id ∧
      (∀ t, db.IsTeamAdmin t userID → db.OtherTeamAdmin t userID) ∧ db.WithoutUser userID db' := by
  unfold deleteUser at h
  rw [Tx.exec_bind_ok] at h
  obtain ⟨⟨⟩, mid, hauth, h⟩ := h
  obtain ⟨hactive, rfl⟩ := exec_authorizeSystemAdmin.1 hauth
  rw [Tx.exec_bind_ok] at h
  obtain ⟨found, mid', hlock, h⟩ := h
  obtain ⟨rfl, rfl⟩ := exec_lockUser.1 hlock
  cases hu : mid'.users.lookup userID with
  | none =>
    rw [hu] at h
    exact absurd h (by simp [exec_fail])
  | some current =>
    rw [hu] at h
    rw [Tx.exec_bind_ok] at h
    obtain ⟨⟨⟩, db₁, hself, h⟩ := h
    obtain ⟨hne, rfl⟩ := exec_failIf.1 hself
    rw [Tx.exec_bind_ok] at h
    obtain ⟨⟨⟩, db₂, hlast, h⟩ := h
    obtain ⟨-, rfl⟩ := (exec_runIf fun _ => exec_ensureAnotherActiveSystemAdmin).1 hlast
    rw [Tx.exec_bind_ok] at h
    obtain ⟨teamIDs, db₃, hteams, h⟩ := h
    obtain ⟨hmem, rfl⟩ := exec_adminTeams hteams
    rw [Tx.exec_bind_ok] at h
    obtain ⟨⟨⟩, db₄, hguards, h⟩ := h
    obtain ⟨hother, rfl⟩ := (Tx.exec_forM_guards (P := fun t db => db.OtherTeamAdmin t userID)
      (fun _ _ _ => exec_ensureAnotherTeamAdmin) _ _ _).1 hguards
    simp only [Tx.exec_bind_ok] at h
    obtain ⟨⟨⟩, db₅, h₅, ⟨⟩, db₆, h₆, ⟨⟩, db₇, h₇, ⟨⟩, db₈, h₈, ⟨⟩, db₉, h₉, n, db₁₀, hdelete, h⟩ := h
    obtain ⟨-, rfl⟩ := exec_failIf.1 h
    -- The steps before the delete change neither users nor memberships.
    have hbefore := (exec_alterOthers h₅).trans ((exec_alterOthers h₆).trans (exec_alterOthers h₇))
    obtain ⟨husers, hmembers, hsome⟩ := exec_reassignTeams h₈
    have hafter := exec_alterOthers h₉
    have hwithout := deleteUserCascade_ok hdelete
    refine ⟨hactive, hne, fun t ht => hother t ((hmem t).2 ht), ?_, ?_, ?_⟩
    · intro id
      rw [hwithout.users, hafter.users, husers, hbefore.users]
    · intro t
      rw [hwithout.teams, hafter.teams, hsome, hbefore.teams]
    · intro t u
      rw [hwithout.members, hafter.members, hmembers, hbefore.members]

end

/-! ## Creating and updating a user -/

section

variable {rt : Runtime} {db db' : Db} {userID : Text}

/-- What an `INSERT` that goes through has found. -/
theorem insertUser_result {wrap : Cause → Err} {username displayName passwordHash role : Text}
    {row : UserRow} {found : List Key}
    (h : (insertUser wrap userID username displayName passwordHash role).result found db = .ok row) :
    db.users.lookup userID = none ∧ db.present (.username username) = false ∧
      ∃ r, Role.parse role = some r ∧ row = ⟨username, displayName, passwordHash, r, false⟩ := by
  simp only [insertUser] at h
  cases hrole : Role.parse role with
  | none =>
    rw [hrole] at h
    cases h
  | some r =>
    simp only [hrole] at h
    split at h
    · cases h
    · next hid =>
        split at h
        · cases h
        · next hname =>
            cases h
            exact ⟨by simpa using hid, by simpa using hname, r, rfl, rfl⟩

theorem insertUser_ok {wrap : Cause → Err} {username displayName passwordHash role : Text}
    {row : UserRow}
    (h : (Tx.perform (insertUser wrap userID username displayName passwordHash role)).exec db =
      .ok (row, db')) :
    db.users.lookup userID = none ∧ db.present (.username username) = false ∧
      ∃ r, Role.parse role = some r ∧ row = ⟨username, displayName, passwordHash, r, false⟩ ∧
        db' = { db with users := db.users.insert userID row } := by
  obtain ⟨hresult, rfl⟩ := Tx.exec_perform_ok.1 h
  obtain ⟨hid, hname, r, hr, rfl⟩ := insertUser_result hresult
  refine ⟨hid, hname, r, hr, rfl, ?_⟩
  simp only [insertUser, hr]

theorem bootstrapAdmin_ok {salt username password : Text}
    (h : (bootstrapAdmin rt userID salt username password).exec db = .ok ((), db')) :
    (Call.bootstrapAdmin userID salt username password).Effect rt db db' := by
  unfold bootstrapAdmin at h
  simp only [Tx.exec_bind_ok] at h
  obtain ⟨⟨⟩, mid, hlock, b, mid', hread, ⟨⟩, db₁, hcheck, row, db₂, hinsert, hend⟩ := h
  obtain ⟨-, rfl⟩ := exec_selectForUpdate.1 hlock
  obtain ⟨hb, rfl⟩ := exec_select.1 hread
  obtain ⟨hnone, rfl⟩ := exec_failIf.1 hcheck
  obtain ⟨-, -, r, hr, rfl, rfl⟩ := insertUser_ok hinsert
  obtain ⟨-, rfl⟩ := Tx.exec_pure_ok.1 hend
  refine ⟨fun id => ?_, ?_⟩
  · cases hb
    cases hu : AList.lookup id _ with
    | none => rfl
    | some u => exact absurd (Table.any_iff.2 ⟨id, u, hu, rfl⟩) hnone
  · obtain rfl : Role.admin = r := Option.some.inj ((Role.parse_text .admin).symm.trans hr)
    rfl

theorem createUser_ok {actor : Principal} {salt username displayName password role : Text} {u : User}
    (h : (createUser rt userID salt actor username displayName password role).exec db =
      .ok (u, db')) :
    (Call.createUser userID salt actor username displayName password role).Effect rt db db' := by
  unfold createUser at h
  simp only [Tx.exec_bind_ok] at h
  obtain ⟨⟨⟩, mid, hauth, row, db₁, hinsert, hend⟩ := h
  obtain ⟨hactive, rfl⟩ := exec_authorizeSystemAdmin.1 hauth
  obtain ⟨hid, hname, r, hr, rfl, rfl⟩ := insertUser_ok hinsert
  obtain ⟨-, rfl⟩ := Tx.exec_pure_ok.1 hend
  exact ⟨hactive, hid, hname, r, hr, rfl⟩

theorem updateUserRow_ok {displayName : Text} {role : Role} {passwordHash : Option Text}
    {disabled : Option Bool} {row : Option UserRow}
    (h : (Tx.perform (updateUserRow userID displayName role passwordHash disabled)).exec db =
      .ok (row, db')) :
    (∀ id, db'.users.lookup id =
      if id = userID then (db.users.lookup id).map fun u =>
        ⟨u.username, displayName, passwordHash.getD u.passwordHash, role, disabled.getD u.disabled⟩
      else db.users.lookup id) ∧ db'.teams = db.teams ∧ db'.members = db.members := by
  obtain ⟨-, rfl⟩ := exec_alterUsers.1 h
  refine ⟨fun id => ?_, rfl, rfl⟩
  rw [Table.lookup_alter]
  simp only [mem_rowOf, Key.user.injEq, decide_eq_true_eq]
  by_cases hid : id = userID
  · subst hid
    cases hu : db.users.lookup id with
    | none => simp
    | some u => simp [Db.present, hu]
  · simp [hid]

theorem writeUpdate_ok {salt displayName : Text} {role : Role} {update : UserUpdate} {u : User}
    (h : (writeUpdate rt salt userID displayName role update).exec db = .ok (u, db')) :
    ∃ passwordHash, updatedPassword rt salt update = .ok passwordHash ∧
      (∀ id, db'.users.lookup id =
        if id = userID then (db.users.lookup id).map fun u =>
          ⟨u.username, displayName, passwordHash.getD u.passwordHash, role,
            update.disabled.getD u.disabled⟩
        else db.users.lookup id) ∧ db'.teams = db.teams ∧ db'.members = db.members := by
  unfold writeUpdate at h
  simp only [Tx.exec_bind_ok] at h
  obtain ⟨passwordHash, mid, hhashed, row, mid', hupdate, hend⟩ := h
  obtain ⟨hpassword, rfl⟩ := Tx.exec_done_ok.1 hhashed
  have hdb' : db' = mid' := by
    cases row with
    | none => exact absurd hend (by simp [Tx.exec_throw_ok])
    | some row => exact (Tx.exec_pure_ok.1 hend).2
  subst hdb'
  exact ⟨passwordHash, hpassword, updateUserRow_ok hupdate⟩

/-- What an update does: the actor is an administrator, the fields pass their checks, an administrator
who gives up the rights is not the last one, and the row gets the fields. -/
theorem updateUser_ok {salt : Text} {actor : Principal} {update : UserUpdate} {u : User}
    (h : (updateUser rt salt actor userID update).exec db = .ok (u, db')) :
    (Call.updateUser salt actor userID update).Effect rt db db' := by
  unfold updateUser at h
  rw [Tx.exec_bind_ok] at h
  obtain ⟨⟨⟩, mid, hauth, h⟩ := h
  obtain ⟨hactive, rfl⟩ := exec_authorizeSystemAdmin.1 hauth
  rw [Tx.exec_bind_ok] at h
  obtain ⟨found, mid', hlock, h⟩ := h
  obtain ⟨rfl, rfl⟩ := exec_lockUser.1 hlock
  cases hu : mid'.users.lookup userID with
  | none =>
    rw [hu] at h
    exact absurd h (by simp [exec_fail])
  | some current =>
    simp only [hu, Tx.exec_bind_ok] at h
    obtain ⟨⟨displayName, role, disabled⟩, db₁, hchecked, ⟨⟩, db₂, hlast, hwritten⟩ := h
    -- The checks and the guard change nothing; what is written is in one statement.
    obtain ⟨hfields, rfl⟩ := Tx.exec_done_ok.1 hchecked
    obtain ⟨hother, rfl⟩ := (exec_runIf fun _ => exec_ensureAnotherActiveSystemAdmin).1 hlast
    obtain ⟨passwordHash, hpassword, husers, hteams, hmembers⟩ := writeUpdate_ok hwritten
    refine ⟨hactive, current, displayName, role, disabled, passwordHash, hu, hfields, hother,
      hpassword, fun id => ?_, hteams, hmembers⟩
    rw [husers]
    by_cases hid : id = userID
    · rw [if_pos hid, if_pos hid, hid, hu]
      rfl
    · rw [if_neg hid, if_neg hid]

/-- What `UpdateUser` asks for, where it would give the user a role. -/
structure Db.MayUpdate (rt : Runtime) (salt actorID userID : Text) (update : UserUpdate) (db : Db)
    (role : Role) : Prop where
  actor : db.IsActiveAdmin actorID
  fields : ∃ current displayName disabled, db.users.lookup userID = some current ∧
    updatedFields actorID userID update current = .ok (displayName, role, disabled) ∧
    (current.systemRole = .admin ∧ (role ≠ .admin ∨ disabled = true) →
      ∃ w, w ≠ userID ∧ db.IsActiveAdmin w)
  password : ∃ passwordHash, updatedPassword rt salt update = .ok passwordHash

theorem exec_writeUpdate {salt : Text} (displayName : Text) (role : Role) {update : UserUpdate}
    {current : UserRow} {passwordHash : Option Text} (hcurrent : db.users.lookup userID = some current)
    (hpassword : updatedPassword rt salt update = .ok passwordHash) :
    ∃ u db', (writeUpdate rt salt userID displayName role update).exec db = .ok (u, db') := by
  obtain ⟨row, hrow⟩ : ∃ row, (updateUserRow userID displayName role passwordHash
      update.disabled).result (rowOf (.user userID) db) db = .ok (some row) := by
    simp [updateUserRow, alterUsers, rowOf, Db.present, hcurrent]
  obtain ⟨db', hupdate⟩ : ∃ db', (Tx.perform (updateUserRow userID displayName role passwordHash
      update.disabled)).exec db = .ok (some row, db') := ⟨_, Tx.exec_perform_ok.2 ⟨hrow, rfl⟩⟩
  refine ⟨row.toUser userID, db', ?_⟩
  rw [writeUpdate]
  refine Tx.exec_bind_ok.2 ⟨passwordHash, db, Tx.exec_done_ok.2 ⟨hpassword, rfl⟩, ?_⟩
  exact Tx.exec_bind_ok.2 ⟨some row, db', hupdate, Tx.exec_pure_ok.2 ⟨rfl, rfl⟩⟩

/-- These guards are all that `UpdateUser` can fail on. -/
theorem exec_updateUser {salt : Text} {actor : Principal} {update : UserUpdate} {role : Role}
    (h : db.MayUpdate rt salt actor.user.id userID update role) :
    ∃ u db', (updateUser rt salt actor userID update).exec db = .ok (u, db') := by
  obtain ⟨current, displayName, disabled, hcurrent, hfields, hother⟩ := h.fields
  obtain ⟨passwordHash, hpassword⟩ := h.password
  obtain ⟨u, db', hwrite⟩ := exec_writeUpdate displayName role hcurrent hpassword
  refine ⟨u, db', ?_⟩
  rw [updateUser]
  refine Tx.exec_bind_ok.2 ⟨(), db, exec_authorizeSystemAdmin.2 ⟨h.actor, rfl⟩, ?_⟩
  refine Tx.exec_bind_ok.2 ⟨some current, db, exec_lockUser.2 ⟨hcurrent.symm, rfl⟩, ?_⟩
  refine Tx.exec_bind_ok.2 ⟨_, db, Tx.exec_done_ok.2 ⟨hfields, rfl⟩, ?_⟩
  refine Tx.exec_bind_ok.2 ⟨(), db, ?_, hwrite⟩
  exact (exec_runIf fun _ => exec_ensureAnotherActiveSystemAdmin).2 ⟨hother, rfl⟩

end

/-! ## Functions on teams -/

section

variable {db db' : Db} {teamID userID : Text}

theorem putMember_ok {operation role : Text} {allowed : Db → Bool} {unique : Bool} {n : Nat}
    (h : (Tx.perform (putMember operation allowed unique teamID userID role)).exec db =
      .ok (n, db')) :
    (allowed db = false ∧ n = 0 ∧ db' = db) ∨
      (allowed db = true ∧ n = 1 ∧ ∃ r, Role.parse role = some r ∧
        (db.teams.lookup teamID).isSome ∧ (db.users.lookup userID).isSome ∧
        (unique = true → db.members.lookup (teamID, userID) = none) ∧
        db' = { db with members := db.members.insert (teamID, userID) r }) := by
  obtain ⟨hresult, rfl⟩ := Tx.exec_perform_ok.1 h
  simp only [putMember] at hresult ⊢
  cases hallowed : allowed db with
  | false =>
    rw [hallowed] at hresult
    cases hresult
    refine Or.inl ⟨rfl, rfl, ?_⟩
    cases Role.parse role <;> rfl
  | true =>
    simp only [hallowed, if_true] at hresult
    cases hviolation : memberViolation db teamID userID role unique with
    | some cause =>
      rw [hviolation] at hresult
      cases hresult
    | none =>
      rw [hviolation] at hresult
      cases hresult
      -- no constraint is violated
      unfold memberViolation at hviolation
      split at hviolation
      · cases hviolation
      next hrole =>
        split at hviolation
        · cases hviolation
        next hunique =>
          split at hviolation
          · cases hviolation
          next hteam =>
            split at hviolation
            · cases hviolation
            next huser =>
              obtain ⟨r, hr⟩ := Option.ne_none_iff_exists'.1 hrole
              refine Or.inr ⟨rfl, rfl, r, hr, Option.isSome_iff_ne_none.2 hteam,
                Option.isSome_iff_ne_none.2 huser, ?_, by simp only [hr, if_true]⟩
              rintro rfl
              simpa using hunique

end

section

variable {rt : Runtime} {db db' : Db} {actor : Principal} {teamID userID : Text}

theorem createTeam_ok {name : Text} {team : Team}
    (h : (createTeam teamID actor name).exec db = .ok (team, db')) :
    (Call.createTeam teamID actor name).Effect rt db db' := by
  unfold createTeam at h
  simp only [Tx.exec_bind_ok] at h
  obtain ⟨⟨⟩, mid, hauth, ⟨⟩, db₁, hteam, n, db₂, hmember, hend⟩ := h
  obtain ⟨hactive, rfl⟩ := exec_authorizeSystemAdmin.1 hauth
  obtain ⟨hresult, rfl⟩ := Tx.exec_perform_ok.1 hteam
  obtain ⟨-, rfl⟩ := Tx.exec_pure_ok.1 hend
  obtain ⟨hnot, -⟩ | ⟨-, -, r, hr, -, -, -, rfl⟩ := putMember_ok hmember
  · cases hnot
  · obtain rfl : Role.admin = r := Option.some.inj ((Role.parse_text .admin).symm.trans hr)
    refine ⟨hactive, ?_, rfl⟩
    simp only [insertTeam] at hresult
    split at hresult
    · cases hresult
    · next hnone => simpa using hnone

theorem updateTeamName_ok {name : Text} {team : TeamRow}
    (h : (updateTeamName actor teamID name).exec db = .ok (team, db')) :
    (Call.updateTeam actor teamID name).Effect rt db db' := by
  unfold updateTeamName at h
  simp only [Tx.exec_bind_ok] at h
  obtain ⟨⟨⟩, mid, hauth, row, db₁, hupdate, hend⟩ := h
  obtain ⟨hactive, rfl⟩ := exec_authorizeSystemAdmin.1 hauth
  obtain ⟨-, rfl⟩ := exec_alterTeams.1 hupdate
  cases row with
  | none => exact absurd hend (by simp [exec_fail])
  | some row =>
    obtain ⟨-, rfl⟩ := Tx.exec_pure_ok.1 hend
    exact ⟨hactive, rfl, rfl, fun t => Table.isSome_lookup_update⟩

theorem deleteTeamRow_ok {n : Nat} (h : (Tx.perform (deleteTeamRow teamID)).exec db = .ok (n, db')) :
    (∀ t, db'.teams.lookup t = if t = teamID then none else db.teams.lookup t) ∧
      db'.users = db.users ∧ db'.members = db.members := by
  obtain ⟨-, rfl⟩ := exec_alterTeams.1 h
  refine ⟨fun t => ?_, rfl, rfl⟩
  rw [Table.lookup_alter]
  by_cases ht : t = teamID
  · subst ht
    cases hteam : db.teams.lookup t <;> simp
  · cases hteam : db.teams.lookup teamID <;> simp [ht]

theorem deleteTeam_ok (h : (deleteTeam actor teamID).exec db = .ok ((), db')) :
    db.IsActiveAdmin actor.user.id ∧ db'.users = db.users ∧
      (∀ t, db'.teams.lookup t = if t = teamID then none else db.teams.lookup t) ∧
      ∀ t u, db'.members.lookup (t, u) = if t = teamID then none else db.members.lookup (t, u) := by
  unfold deleteTeam at h
  simp only [Tx.exec_bind_ok] at h
  obtain ⟨⟨⟩, mid, hauth, n, db₁, hdelete, ⟨⟩, db₂, hcascade, ⟨⟩, db₃, h₃, ⟨⟩, db₄, h₄, hend⟩ := h
  obtain ⟨hactive, rfl⟩ := exec_authorizeSystemAdmin.1 hauth
  obtain ⟨-, rfl⟩ := exec_failIf.1 hend
  obtain ⟨hteams, husers, hmembers⟩ := deleteTeamRow_ok hdelete
  have hmid := exec_alterMembers.1 hcascade
  have hafter := (exec_alterOthers h₃).trans (exec_alterOthers h₄)
  refine ⟨hactive, ?_, fun t => ?_, fun t u => ?_⟩
  · rw [hafter.users, hmid, husers]
  · rw [hafter.teams, hmid, hteams]
  · rw [hafter.members, lookup_removeMembers hcascade, hmembers]
    cases AList.lookup (t, u) _ with
    | none => simp
    | some role => by_cases ht : t = teamID <;> simp [Option.filter, ht]

/-! ## Functions on memberships -/

theorem authorized_iff :
    authorized userID teamID db = true ↔
      db.IsActiveAdmin userID ∨ db.IsEnabled userID ∧ db.IsTeamAdmin teamID userID := by
  unfold authorized
  cases hu : db.users.lookup userID with
  | none => simp [Db.IsActiveAdmin, Db.IsEnabled, hu]
  | some u =>
    simp only [Db.IsActiveAdmin, Db.IsEnabled, Db.IsTeamAdmin, hu, Option.some.injEq,
      exists_eq_left', UserRow.activeAdmin_iff, Bool.and_eq_true, Bool.not_eq_eq_eq_not,
      Bool.not_true, Bool.or_eq_true, decide_eq_true_eq]
    tauto

theorem addTeamMember_ok {role : Text}
    (h : (addTeamMember actor teamID userID role).exec db = .ok ((), db')) :
    (Call.addTeamMember actor teamID userID role).Effect rt db db' := by
  unfold addTeamMember at h
  simp only [Tx.exec_bind_ok] at h
  obtain ⟨n, mid, hput, hend⟩ := h
  obtain ⟨hrows, rfl⟩ := exec_failIf.1 hend
  obtain ⟨-, rfl, -⟩ | ⟨hallowed, -, r, hr, -, -, -, rfl⟩ := putMember_ok hput
  · exact absurd rfl hrows
  · exact ⟨authorized_iff.1 hallowed, r, hr, rfl⟩

theorem lookup_alterMember {row : Role → Option Role} {t u : Text}
    (h : (Tx.perform (alterMembers (rowOf (.member teamID userID)) row)).exec db = .ok ((), db')) :
    db'.members.lookup (t, u) =
      if t = teamID ∧ u = userID then (db.members.lookup (t, u)).bind row
      else db.members.lookup (t, u) := by
  obtain rfl := exec_alterMembers.1 h
  rw [Table.lookup_alter]
  simp only [mem_rowOf, Key.member.injEq, decide_eq_true_eq, Db.present]
  by_cases hkey : t = teamID ∧ u = userID
  · obtain ⟨rfl, rfl⟩ := hkey
    cases db.members.lookup (t, u) <;> simp
  · simp [hkey]

theorem setTeamMemberRole_ok {role : Text}
    (h : (setTeamMemberRole actor teamID userID role).exec db = .ok ((), db')) :
    (Call.setTeamMemberRole actor teamID userID role).Effect rt db db' := by
  unfold setTeamMemberRole at h
  cases hr : Role.parse (trimSpace role) with
  | none =>
    rw [hr] at h
    exact absurd h (by simp [exec_fail])
  | some r =>
    simp only [hr, Tx.exec_bind_ok] at h
    obtain ⟨⟨⟩, mid, hauth, current, db₁, hlock, ⟨⟩, db₂, hguard, hupdate⟩ := h
    obtain ⟨hallowed, rfl⟩ := exec_authorizeTeamAdmin.1 hauth
    obtain ⟨hcurrent, rfl⟩ := exec_lockTeamMember.1 hlock
    obtain ⟨hother, rfl⟩ := (exec_runIf fun _ => exec_ensureAnotherTeamAdmin).1 hguard
    have hdb' := exec_alterMembers.1 hupdate
    refine ⟨hallowed, r, current, hr, hcurrent, hother, by rw [hdb'], by rw [hdb'], fun t u => ?_⟩
    rw [lookup_alterMember hupdate]
    by_cases hkey : t = teamID ∧ u = userID
    · obtain ⟨rfl, rfl⟩ := hkey
      simp [hcurrent]
    · simp [hkey]

theorem removeTeamMember_ok (h : (removeTeamMember actor teamID userID).exec db = .ok ((), db')) :
    (Call.removeTeamMember actor teamID userID).Effect rt db db' := by
  unfold removeTeamMember at h
  simp only [Tx.exec_bind_ok] at h
  obtain ⟨⟨⟩, mid, hauth, current, db₁, hlock, ⟨⟩, db₂, hguard, hdelete⟩ := h
  obtain ⟨hallowed, rfl⟩ := exec_authorizeTeamAdmin.1 hauth
  obtain ⟨hcurrent, rfl⟩ := exec_lockTeamMember.1 hlock
  obtain ⟨hother, rfl⟩ := (exec_runIf fun _ => exec_ensureAnotherTeamAdmin).1 hguard
  have hdb' := exec_alterMembers.1 hdelete
  refine ⟨hallowed, fun hadmin => hother ?_, by rw [hdb'], by rw [hdb'], fun t u => ?_⟩
  · exact Option.some.inj (hcurrent.symm.trans hadmin)
  · rw [lookup_alterMember hdelete]
    by_cases hkey : t = teamID ∧ u = userID
    · simp [hkey]
    · simp [hkey]

end

/-! ## The memberships of a user -/

theorem normalizeAssignments_nodup {assignments : List TeamAssignment} {seen : List Text}
    {normalized : List (Text × Role)} (h : normalizeAssignments assignments seen = .ok normalized) :
    (normalized.map Prod.fst).Nodup ∧ ∀ t ∈ normalized.map Prod.fst, t ∉ seen := by
  induction assignments generalizing seen normalized with
  | nil =>
    cases h
    simp
  | cons assignment rest ih =>
    unfold normalizeAssignments at h
    dsimp only at h
    split at h
    · cases h
    · split at h
      · cases h
      · next hnew =>
          cases hrest : normalizeAssignments rest (trimSpace assignment.teamID :: seen) with
          | error e =>
            rw [hrest] at h
            cases h
          | ok tail =>
            rw [hrest] at h
            cases h
            obtain ⟨hnodup, hseen⟩ := ih hrest
            refine ⟨List.nodup_cons.2 ⟨fun hmem => ?_, hnodup⟩, fun t ht => ?_⟩
            · exact hseen _ hmem List.mem_cons_self
            · rcases List.mem_cons.1 ht with rfl | ht
              · exact fun hmem => hnew (Or.inr hmem)
              · exact fun hmem => hseen t ht (List.mem_cons_of_mem _ hmem)

theorem desiredRole_cons (a : Text × Role) (l : List (Text × Role)) (t : Text) :
    desiredRole (a :: l) t = if a.1 = t then some a.2 else desiredRole l t := by
  unfold desiredRole
  rw [List.find?_cons]
  by_cases h : a.1 = t
  · simp [h]
  · simp [h]

theorem desiredRole_eq_none {l : List (Text × Role)} {t : Text} (h : t ∉ l.map Prod.fst) :
    desiredRole l t = none := by
  induction l with
  | nil => rfl
  | cons a l ih =>
    rw [List.map_cons, List.mem_cons, not_or] at h
    rw [desiredRole_cons, if_neg (Ne.symm h.1), ih h.2]

section

variable {db db' : Db} {userID : Text}

theorem deleteMemberships_ok {normalized current : List (Text × Role)}
    (h : (current.forM fun (teamID, _) =>
      runIf (desiredRole normalized teamID = none) (Tx.perform (deleteMember teamID userID))).exec db =
        .ok (⟨⟩, db')) :
    db'.users = db.users ∧ db'.teams = db.teams ∧ ∀ t u, db'.members.lookup (t, u) =
      if u = userID ∧ t ∈ current.map Prod.fst ∧ desiredRole normalized t = none then none
      else db.members.lookup (t, u) := by
  induction current generalizing db with
  | nil =>
    obtain ⟨-, rfl⟩ := Tx.exec_pure_ok.1 h
    simp
  | cons a current ih =>
    rw [List.forM, Tx.exec_bind_ok] at h
    obtain ⟨⟨⟩, mid, hone, hrest⟩ := h
    obtain ⟨husers, hteams, hmembers⟩ := ih hrest
    simp only [runIf] at hone
    split at hone
    · next hgone =>
        have hmid := exec_alterMembers.1 hone
        refine ⟨by rw [husers, hmid], by rw [hteams, hmid], fun t u => ?_⟩
        rw [hmembers, lookup_alterMember hone]
        by_cases ht : t = a.1
        · subst ht
          by_cases hu : u = userID
          · cases AList.lookup (a.1, u) db.members <;> simp [hu, hgone]
          · simp [hu]
        · have hmem : t ∈ (a :: current).map Prod.fst ↔ t ∈ current.map Prod.fst := by simp [ht]
          simp only [ht, false_and, if_false, hmem]
    · next hkept =>
        obtain ⟨-, rfl⟩ := Tx.exec_pure_ok.1 hone
        refine ⟨husers, hteams, fun t u => ?_⟩
        rw [hmembers]
        by_cases ht : t = a.1
        · subst ht
          simp only [hkept, and_false, if_false]
        · have hmem : t ∈ (a :: current).map Prod.fst ↔ t ∈ current.map Prod.fst := by simp [ht]
          simp only [hmem]

theorem upsertMemberships_ok {operation : Text} {normalized : List (Text × Role)}
    (hnodup : (normalized.map Prod.fst).Nodup)
    (h : (normalized.forM fun (teamID, role) => do
      let _ ← Tx.perform (upsertMember operation teamID userID role.text)).exec db = .ok (⟨⟩, db')) :
    db'.users = db.users ∧ db'.teams = db.teams ∧ ∀ t u, db'.members.lookup (t, u) =
      if u = userID ∧ t ∈ normalized.map Prod.fst then desiredRole normalized t
      else db.members.lookup (t, u) := by
  induction normalized generalizing db with
  | nil =>
    obtain ⟨-, rfl⟩ := Tx.exec_pure_ok.1 h
    simp
  | cons a normalized ih =>
    rw [List.forM, Tx.exec_bind_ok] at h
    obtain ⟨⟨⟩, mid, hone, hrest⟩ := h
    rw [Tx.exec_bind_ok] at hone
    obtain ⟨n, mid', hput, hend⟩ := hone
    obtain ⟨-, rfl⟩ := Tx.exec_pure_ok.1 hend
    rw [List.map_cons, List.nodup_cons] at hnodup
    obtain ⟨husers, hteams, hmembers⟩ := ih hnodup.2 hrest
    obtain ⟨hnot, -⟩ | ⟨-, -, r, hr, -, -, -, rfl⟩ := putMember_ok hput
    · cases hnot
    · obtain rfl : a.2 = r := Option.some.inj ((Role.parse_text a.2).symm.trans hr)
      refine ⟨husers, hteams, fun t u => ?_⟩
      rw [hmembers, desiredRole_cons]
      by_cases hkey : (t, u) = (a.1, userID)
      · cases hkey
        simp [hnodup.1]
      · rw [AList.lookup_insert_ne hkey]
        by_cases hu : u = userID
        · have ht : t ≠ a.1 := fun ht => hkey (by rw [ht, hu])
          have hmem : t ∈ (a :: normalized).map Prod.fst ↔ t ∈ normalized.map Prod.fst := by
            simp [ht]
          simp only [hmem, if_neg (Ne.symm ht)]
        · simp only [hu, false_and, if_false]

/-- `SetUserTeamMemberships` leaves the user with exactly the memberships that are given. -/
theorem setUserTeamMemberships_ok {guards deletes : MapOrder} {actor : Principal}
    {assignments : List TeamAssignment}
    (h : (setUserTeamMemberships guards deletes actor userID assignments).exec db = .ok ((), db')) :
    db.IsActiveAdmin actor.user.id ∧ db'.users = db.users ∧ db'.teams = db.teams ∧
      ∃ normalized, normalizeAssignments assignments [] = .ok normalized ∧
        (∀ t, db.IsTeamAdmin t userID → desiredRole normalized t ≠ some .admin →
          db.OtherTeamAdmin t userID) ∧
        ∀ t u, db'.members.lookup (t, u) =
          if u = userID then desiredRole normalized t else db.members.lookup (t, u) := by
  unfold setUserTeamMemberships at h
  simp only [Tx.exec_bind_ok] at h
  obtain ⟨normalized, db₁, hnormalized, ⟨⟩, db₂, hauth, b, db₃, htarget, ⟨⟩, db₄, hfound, current, db₅,
    hcurrent, ⟨⟩, db₆, hguards, ⟨⟩, db₇, hdeletes, hupserts⟩ := h
  obtain ⟨hnormal, rfl⟩ := Tx.exec_done_ok.1 hnormalized
  obtain ⟨hactive, rfl⟩ := exec_authorizeSystemAdmin.1 hauth
  obtain ⟨-, rfl⟩ := exec_targetExists.1 htarget
  obtain ⟨-, rfl⟩ := exec_failIf.1 hfound
  obtain ⟨hmem, rfl⟩ := exec_memberships hcurrent
  obtain ⟨hother, rfl⟩ := (Tx.exec_forM_guards
    (P := fun a db => a.2 = .admin ∧ desiredRole normalized a.1 ≠ some .admin →
      db.OtherTeamAdmin a.1 userID)
    (fun _ _ _ => exec_runIf fun _ => exec_ensureAnotherTeamAdmin) _ _ _).1 hguards
  obtain ⟨husers, hteams, hmembers⟩ := deleteMemberships_ok hdeletes
  obtain ⟨husers', hteams', hmembers'⟩ := upsertMemberships_ok (normalizeAssignments_nodup hnormal).1
    hupserts
  refine ⟨hactive, husers'.trans husers, hteams'.trans hteams, normalized, hnormal, ?_, fun t u => ?_⟩
  · intro t hadmin hdesired
    have hcur : (t, Role.admin) ∈ guards.order current :=
      (guards.perm current).mem_iff.2 ((hmem t .admin).2 hadmin)
    exact hother _ hcur ⟨rfl, hdesired⟩
  · rw [hmembers', hmembers]
    by_cases hu : u = userID
    · subst hu
      by_cases ht : t ∈ normalized.map Prod.fst
      · simp [ht]
      · have hnone := desiredRole_eq_none ht
        cases hlookup : AList.lookup (t, u) _ with
        | none => simp [ht, hnone]
        | some role =>
          -- the membership was read, so the second loop came to it
          have hcur : t ∈ (deletes.order current).map Prod.fst :=
            List.mem_map.2 ⟨(t, role), (deletes.perm current).mem_iff.2 ((hmem t role).2 hlookup), rfl⟩
          simp [ht, hnone, hcur]
    · simp [hu]

end

/-! ## Principals -/

theorem exec_principalUser {userID : Text} {db db' : Db} {user : User} :
    (principalUser userID).exec db = .ok (user, db') ↔
      (∃ u, db.users.lookup userID = some u ∧ user = u.toUser userID) ∧ db' = db := by
  rw [principalUser, Tx.exec_bind_ok]
  constructor
  · rintro ⟨found, mid, hread, hend⟩
    obtain ⟨hfound, rfl⟩ := exec_select.1 hread
    cases hfound
    cases hlookup : mid.users.lookup userID with
    | none =>
      rw [hlookup] at hend
      exact absurd hend (by simp [exec_fail])
    | some u =>
      rw [hlookup] at hend
      obtain ⟨rfl, rfl⟩ := Tx.exec_pure_ok.1 hend
      exact ⟨⟨u, rfl, rfl⟩, rfl⟩
  · rintro ⟨⟨u, hlookup, rfl⟩, rfl⟩
    refine ⟨some u, db', exec_select.2 ⟨by rw [hlookup], rfl⟩, Tx.exec_pure_ok.2 ⟨rfl, rfl⟩⟩

theorem eval_principalForUser {userID : Text} {db : Db} {p : Principal}
    (h : ((principalForUser userID).eval db).1 = .ok p) :
    ∃ u, db.users.lookup userID = some u ∧ p.user = u.toUser userID := by
  rw [principalForUser, Program.eval] at h
  split at h
  · cases h
  · next user mid huser =>
      obtain ⟨hfound, rfl⟩ := exec_principalUser.1 huser
      rw [Program.eval] at h
      split at h
      · cases h
      · cases h
        exact hfound

end Workbench.Identity
