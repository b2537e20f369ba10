import Workbench.Identity.Integrity
import Workbench.Identity.SystemAdmins
import Workbench.Web.Normalize

/-!
# The teams of a user on the settings page

`useSettingsData`, `EditUserDialog` and `submitEdit` of `web/src/settings`, over the functions of the
server that their requests run. The page loads the members of each team, where a list that does not come
counts as empty; the dialog builds the user's teams from them, and a save sends them as the whole.
-/

set_option autoImplicit false

namespace Workbench.Web.Settings

open Workbench.Lib Workbench.Identity

structure TeamSummary where
  id : Text
  name : Text
  role : Text
  deriving DecidableEq, Repr

structure TeamMemberSummary where
  user : User
  role : Text
  deriving DecidableEq, Repr

structure TeamMembershipDraft where
  teamId : Text
  joined : Bool
  role : Text
  deriving DecidableEq, Repr

structure UpdateUserInput where
  displayName : Text
  systemRole : Text
  disabled : Bool
  password : Option Text
  deriving DecidableEq, Repr

/-! ## Requests -/

section

variable (rt : Runtime) (actor : Principal) (db : Db)

/-- The answer of a request, if it is no error. -/
def answer {α : Type} (tx : Transaction α) : Option α :=
  match tx.exec db with
  | .ok (a, _) => some a
  | .error _ => none

def listUsers : Option (List User) := do
  let all ← answer db (mayListUsers actor)
  answer db (Identity.listUsers rt actor all)

def listTeams : Option (List TeamSummary) := do
  let teams ← answer db (Identity.listTeams rt actor)
  some (teams.map fun t => ⟨t.id, t.name, (t.role.map Role.text).getD []⟩)

def listTeamMembers (teamID : Text) : Option (List TeamMemberSummary) := do
  answer db (mayListTeamMembers actor teamID)
  let members ← answer db (Identity.listTeamMembers rt teamID)
  some (members.map fun m => ⟨m.user, m.role.text⟩)

end

/-! ## Loading the page -/

structure SettingsData where
  users : List User
  teams : List TeamSummary
  teamMembers : Table Text (List TeamMemberSummary)

section

variable (rt : Runtime) (actor : Principal) (fails : Text → Bool) (db : Db)

/-- The members of a team, where the `catch` turns a failure into no members. -/
def loadedMembers (teamID : Text) : List TeamMemberSummary :=
  if fails teamID then [] else (listTeamMembers rt actor db teamID).getD []

def loadTeamMembers (teams : List TeamSummary) : Table Text (List TeamMemberSummary) :=
  Table.fill (fun _ => true) TeamSummary.id (fun team => loadedMembers rt actor fails db team.id) teams ∅

/-- `reloadSettings` where the users and the teams come; `fails` are the teams whose members do not. -/
def reloadSettings : Option SettingsData := do
  let loadedUsers ← listUsers rt actor db
  let loadedTeams ← listTeams rt actor db
  some ⟨if loadedUsers = [] then [actor.user] else loadedUsers, loadedTeams,
    loadTeamMembers rt actor fails db loadedTeams⟩

end

/-! ## The dialog -/

/-- The teams and the roles of a user. -/
def membershipsForUser (userId : Text) (teams : List TeamSummary)
    (teamMembers : Table Text (List TeamMemberSummary)) : List (Text × Text) :=
  teams.filterMap fun team =>
    (((teamMembers.lookup team.id).getD []).find? fun item => item.user.id = userId).map fun member =>
      (team.id, member.role)

def buildTeamMembershipDraft (userId : Text) (teams : List TeamSummary)
    (teamMembers : Table Text (List TeamMemberSummary)) : List TeamMembershipDraft :=
  let memberships := membershipsForUser userId teams teamMembers
  teams.map fun team =>
    match memberships.find? fun item => item.1 = team.id with
    | some membership => ⟨team.id, true, membership.2⟩
    | none => ⟨team.id, false, "member".toList⟩

/-- `length`, in code units. -/
def scriptLength (text : Text) : Nat := (text.map fun c => if c.toNat < 0x10000 then 1 else 2).sum

def validatePassword (password : Text) : Option Text :=
  if password = [] then some "请输入密码".toList
  else if scriptLength password < 8 then some "密码至少 8 位".toList
  else none

/-- What the dialog hands on, if its password passes. -/
def handleSubmit (profile : UpdateUserInput) (password passwordConfirm : Text) :
    Option UpdateUserInput :=
  let trimmedPassword := trim password
  if (trimmedPassword ≠ [] ∨ trim passwordConfirm ≠ []) ∧
      (validatePassword trimmedPassword ≠ none ∨ trimmedPassword ≠ trim passwordConfirm) then none
  else some { profile with password := if trimmedPassword = [] then none else some trimmedPassword }

/-! ## The save -/

def userUpdate (profile : UpdateUserInput) : UserUpdate where
  displayName := some (trim profile.displayName)
  systemRole := some profile.systemRole
  disabled := some profile.disabled
  password := profile.password.filter fun password => password ≠ []

def assignments (teams : List TeamMembershipDraft) : List TeamAssignment :=
  (teams.filter TeamMembershipDraft.joined).map fun item => ⟨item.teamId, item.role⟩

/-- The sessions that end with a new password include the one of the actor, if they are revoked. -/
def signedOut (revokes : Bool) (actorID userID : Text) (profile : UpdateUserInput) : Bool :=
  revokes && userID = actorID && (userUpdate profile).password.isSome

/-- `submitEdit`: two requests, of which the second replaces the memberships. -/
def submitEdit (rt : Runtime) (salt : Text) (guards deletes : MapOrder) (revokes : Bool)
    (actor : Principal) (userID : Text) (profile : UpdateUserInput) (teams : List TeamMembershipDraft)
    (db : Db) : Option Db :=
  match (updateUser rt salt actor userID (userUpdate profile)).exec db with
  | .error _ => none
  | .ok (_, db) =>
    if signedOut revokes actor.user.id userID profile then none
    else
      match (setUserTeamMemberships guards deletes actor userID (assignments teams)).exec db with
      | .error _ => none
      | .ok (_, db) => some db

/-- The dialog is opened on a loaded page, its team fields are left as they are, and it is saved. -/
def saveProfile (rt : Runtime) (salt : Text) (guards deletes : MapOrder) (revokes : Bool)
    (actor : Principal) (page : SettingsData) (userID : Text) (profile : UpdateUserInput)
    (password passwordConfirm : Text) (db : Db) : Option Db := do
  let input ← handleSubmit profile password passwordConfirm
  submitEdit rt salt guards deletes revokes actor userID input
    (buildTeamMembershipDraft userID page.teams page.teamMembers) db

/-! ## What the page loads -/

section

variable {rt : Runtime} {actor : Principal} {db : Db}

theorem answer_eq_some {α : Type} {tx : Transaction α} {a : α} :
    answer db tx = some a ↔ ∃ db', tx.exec db = .ok (a, db') := by
  rw [answer]
  cases tx.exec db with
  | error e => simp
  | ok r => simp [eq_comm, Prod.ext_iff]

theorem mem_orderBy {α : Type} {key : α → Text} {rows : List α} {a : α} :
    a ∈ orderBy rt key rows ↔ a ∈ rows := by
  rw [orderBy, List.mem_mergeSort]

theorem isActiveAdmin_iff {userID : Text} :
    (db.users.lookup userID).any UserRow.activeAdmin = true ↔ db.IsActiveAdmin userID := by
  rw [Option.any_eq_true]
  exact Iff.rfl

/-- To an administrator all teams are listed, each one once. -/
theorem listTeams_ids (hactor : db.IsActiveAdmin actor.user.id) {teams : List TeamSummary}
    (h : listTeams rt actor db = some teams) :
    actor.user.disabled = false ∧ (∀ t, t ∈ teams.map TeamSummary.id ↔ (db.teams.lookup t).isSome) ∧
      (teams.map TeamSummary.id).Nodup := by
  rw [listTeams, Option.bind_eq_bind, Option.bind_eq_some_iff] at h
  obtain ⟨found, hfound, heq⟩ := h
  cases heq
  obtain ⟨db', hexec⟩ := answer_eq_some.1 hfound
  rw [Identity.listTeams, Tx.exec_bind_ok] at hexec
  obtain ⟨⟨⟩, mid, hcheck, hread⟩ := hexec
  obtain ⟨henabled, rfl⟩ := exec_failIf.1 hcheck
  obtain ⟨hrows, rfl⟩ := exec_select.1 hread
  rw [isActiveAdmin_iff.2 hactor] at hrows
  cases hrows
  -- the condition on a row holds for each one
  have hperm : ((orderBy rt Team.name (db'.teams.entries.filterMap fun e =>
      if (db'.members.lookup (e.1, actor.user.id)).isSome || true then
        some (⟨e.1, e.2.name, db'.members.lookup (e.1, actor.user.id)⟩ : Team) else none)).map
        Team.id).Perm db'.teams.keys := by
    refine ((List.mergeSort_perm _ _).map Team.id).trans (List.Perm.of_eq ?_)
    simp only [Bool.or_true, if_true, List.filterMap_eq_map', List.map_map]
    rfl
  refine ⟨by simpa using henabled, fun t => ?_, ?_⟩
  · rw [List.map_map, AList.lookup_isSome]
    exact hperm.mem_iff
  · rw [List.map_map]
    exact hperm.nodup_iff.2 db'.teams.keys_nodup

theorem exec_mayListTeamMembers {teamID : Text} (henabled : actor.user.disabled = false)
    (hactor : db.IsActiveAdmin actor.user.id) (hteam : trimSpace teamID ≠ []) :
    (mayListTeamMembers actor teamID).exec db = .ok ((), db) := by
  obtain ⟨u, hu, hadmin⟩ := hactor
  obtain ⟨hrole, hdisabled⟩ := u.activeAdmin_iff.1 hadmin
  rw [mayListTeamMembers]
  refine Tx.exec_bind_ok.2 ⟨(), db, exec_failIf.2 ⟨by simp [henabled, hteam], rfl⟩, ?_⟩
  refine Tx.exec_bind_ok.2 ⟨true, db, exec_select.2 ⟨?_, rfl⟩, exec_failIf.2 ⟨by simp, rfl⟩⟩
  simp [hu, hrole, hdisabled]

/-- What a search by the only key of the rows finds. -/
theorem find?_map_of_unique {α β : Type} {l : List α} {p : α → Bool} {f : α → β} {b : Option β}
    (hfound : ∀ a ∈ l, p a = true → b = some (f a)) (hsome : b.isSome → ∃ a ∈ l, p a = true) :
    (l.find? p).map f = b := by
  cases hfind : l.find? p with
  | none =>
    cases b with
    | none => rfl
    | some b =>
      obtain ⟨a, ha, hp⟩ := hsome rfl
      exact absurd hp (List.find?_eq_none.1 hfind a ha)
  | some a => exact (hfound a (List.mem_of_find?_eq_some hfind) (List.find?_some hfind)).symm

/-- To an administrator a team lists the roles of its members. -/
theorem listTeamMembers_find (rt : Runtime) (hsound : db.Sound) (henabled : actor.user.disabled = false)
    (hactor : db.IsActiveAdmin actor.user.id) {t : Text} (hteam : (db.teams.lookup t).isSome) :
    ∃ members, listTeamMembers rt actor db t = some members ∧ ∀ u,
      (members.find? fun item => item.user.id = u).map TeamMemberSummary.role =
        (db.members.lookup (t, u)).map Role.text := by
  obtain ⟨htrim, hne⟩ := hsound.teamIDs t hteam
  have hmay := exec_mayListTeamMembers henabled hactor (by rw [htrim]; exact hne)
  obtain ⟨rows, hanswer⟩ : ∃ rows, answer db (Identity.listTeamMembers rt t) = some rows :=
    ⟨_, answer_eq_some.2 ⟨db, exec_select.2 ⟨rfl, rfl⟩⟩⟩
  refine ⟨rows.map fun m => ⟨m.user, m.role.text⟩, ?_, fun u => ?_⟩
  · exact Option.bind_eq_some_iff.2 ⟨(), answer_eq_some.2 ⟨db, hmay⟩,
      Option.bind_eq_some_iff.2 ⟨rows, hanswer, rfl⟩⟩
  · obtain ⟨db', hexec⟩ := answer_eq_some.1 hanswer
    obtain ⟨hrows, -⟩ := exec_select.1 hexec
    cases hrows
    apply find?_map_of_unique
    · intro item hitem hid
      obtain ⟨m, hm, rfl⟩ := List.mem_map.1 hitem
      obtain ⟨⟨⟨t', u'⟩, r⟩, hentry, hrow⟩ := List.mem_filterMap.1 (mem_orderBy.1 hm)
      rw [Option.ite_none_right_eq_some, htrim] at hrow
      obtain ⟨rfl, hrow⟩ := hrow
      obtain ⟨row, -, rfl⟩ := Option.map_eq_some_iff.1 hrow
      obtain rfl : u' = u := of_decide_eq_true hid
      rw [Table.mem_entries.1 hentry]
      rfl
    · intro hsome
      rw [Option.isSome_map] at hsome
      obtain ⟨r, hr⟩ := Option.isSome_iff_exists.1 hsome
      obtain ⟨row, hrow⟩ := Option.isSome_iff_exists.1 (hsound.users t u hsome)
      refine ⟨⟨row.toUser u, r.text⟩, List.mem_map.2 ⟨⟨row.toUser u, r⟩, ?_, rfl⟩, decide_eq_true rfl⟩
      refine mem_orderBy.2 (List.mem_filterMap.2 ⟨⟨(t, u), r⟩, Table.mem_entries.2 hr, ?_⟩)
      rw [htrim, if_pos rfl, hrow]
      rfl

end

/-! ## What the dialog builds -/

/-- A page as an administrator has loaded it from a state. -/
structure Loaded (rt : Runtime) (actor : Principal) (fails : Text → Bool) (db : Db)
    (page : SettingsData) : Prop where
  sound : db.Sound
  active : db.IsActiveAdmin actor.user.id
  page : reloadSettings rt actor fails db = some page

section

variable {rt : Runtime} {actor : Principal} {fails : Text → Bool} {db : Db} {page : SettingsData}

theorem Loaded.teams (h : Loaded rt actor fails db page) :
    listTeams rt actor db = some page.teams ∧
      page.teamMembers = loadTeamMembers rt actor fails db page.teams := by
  have hpage := h.page
  rw [reloadSettings, Option.bind_eq_bind, Option.bind_eq_some_iff] at hpage
  obtain ⟨users, -, hpage⟩ := hpage
  obtain ⟨teams, hteams, heq⟩ := Option.bind_eq_some_iff.1 hpage
  cases heq
  exact ⟨hteams, rfl⟩

theorem Loaded.mem_ids (h : Loaded rt actor fails db page) {t : Text} :
    t ∈ page.teams.map TeamSummary.id ↔ (db.teams.lookup t).isSome :=
  (listTeams_ids h.active h.teams.1).2.1 t

/-- The role that the page shows for a user in a team. -/
theorem Loaded.role (h : Loaded rt actor fails db page) {t : Text}
    (ht : t ∈ page.teams.map TeamSummary.id) (u : Text) :
    (((page.teamMembers.lookup t).getD []).find? fun item => item.user.id = u).map
        TeamMemberSummary.role =
      if fails t then none else (db.members.lookup (t, u)).map Role.text := by
  obtain ⟨hteams, hmembers⟩ := h.teams
  obtain ⟨henabled, -, hnodup⟩ := listTeams_ids h.active hteams
  obtain ⟨team, hteam, rfl⟩ := List.mem_map.1 ht
  rw [hmembers, loadTeamMembers, Table.lookup_fill hnodup hteam rfl, Option.getD_some, loadedMembers]
  split
  · rfl
  · obtain ⟨members, hlist, hfind⟩ :=
      listTeamMembers_find rt h.sound henabled h.active (h.mem_ids.1 ht)
    rw [hlist]
    exact hfind u

/-- The teams of a user and the roles in them, as far as the lists came. -/
theorem Loaded.find_membership (h : Loaded rt actor fails db page) {t : Text}
    (ht : t ∈ page.teams.map TeamSummary.id) (u : Text) :
    ((membershipsForUser u page.teams page.teamMembers).find? fun item => item.1 = t).map Prod.snd =
      if fails t then none else (db.members.lookup (t, u)).map Role.text := by
  rw [← h.role ht u]
  apply find?_map_of_unique
  · intro item hitem hid
    obtain ⟨team, -, hrow⟩ := List.mem_filterMap.1 hitem
    obtain ⟨member, hmember, rfl⟩ := Option.map_eq_some_iff.1 hrow
    obtain rfl : team.id = t := of_decide_eq_true hid
    rw [hmember]
    rfl
  · intro hsome
    rw [Option.isSome_map] at hsome
    obtain ⟨member, hmember⟩ := Option.isSome_iff_exists.1 hsome
    obtain ⟨team, hteam, rfl⟩ := List.mem_map.1 ht
    exact ⟨(team.id, member.role), List.mem_filterMap.2 ⟨team, hteam, by rw [hmember]; rfl⟩,
      decide_eq_true rfl⟩

/-- The assignments that a save sends where the team fields are left alone. -/
theorem Loaded.mem_assignments (h : Loaded rt actor fails db page) {u : Text} {a : TeamAssignment} :
    a ∈ assignments (buildTeamMembershipDraft u page.teams page.teamMembers) ↔
      fails a.teamID = false ∧ ∃ r, db.members.lookup (a.teamID, u) = some r ∧ a.role = r.text := by
  rw [assignments, List.mem_map]
  constructor
  · rintro ⟨item, hitem, rfl⟩
    obtain ⟨hdraft, hjoined⟩ := List.mem_filter.1 hitem
    obtain ⟨team, hteam, hrow⟩ := List.mem_map.1 hdraft
    have hfind := h.find_membership (List.mem_map_of_mem hteam) u
    cases hcase : (membershipsForUser u page.teams page.teamMembers).find? fun item =>
        item.1 = team.id with
    | none =>
      simp only [hcase] at hrow
      rw [← hrow] at hjoined
      cases hjoined
    | some membership =>
      simp only [hcase] at hrow
      rw [hcase, Option.map_some] at hfind
      split at hfind
      · cases hfind
      · next hcame =>
          obtain ⟨r, hr, hrole⟩ := Option.map_eq_some_iff.1 hfind.symm
          subst hrow
          exact ⟨Bool.eq_false_iff.2 hcame, r, hr, hrole.symm⟩
  · rintro ⟨hcame, r, hr, hrole⟩
    have hid := h.mem_ids.2 (h.sound.teams _ _ (Option.isSome_of_eq_some hr))
    have hfind := h.find_membership hid u
    rw [if_neg (Bool.eq_false_iff.1 hcame), hr, Option.map_some] at hfind
    obtain ⟨membership, hcase, hsnd⟩ := Option.map_eq_some_iff.1 hfind
    obtain ⟨team, hteam, hteamID⟩ := List.mem_map.1 hid
    refine ⟨⟨a.teamID, true, a.role⟩, List.mem_filter.2 ⟨List.mem_map.2 ⟨team, hteam, ?_⟩, rfl⟩, rfl⟩
    rw [hteamID, hcase]
    simp only [hsnd, hrole]

theorem Loaded.assignments_nodup (h : Loaded rt actor fails db page) (u : Text) :
    ((assignments (buildTeamMembershipDraft u page.teams page.teamMembers)).map
      TeamAssignment.teamID).Nodup := by
  have hids : (buildTeamMembershipDraft u page.teams page.teamMembers).map
      TeamMembershipDraft.teamId = page.teams.map TeamSummary.id := by
    rw [buildTeamMembershipDraft, List.map_map]
    apply List.map_congr_left
    intro team _
    rw [Function.comp_apply]
    split
    · rfl
    · rfl
  rw [assignments, List.map_map]
  refine (listTeams_ids h.active h.teams.1).2.2.sublist ?_
  rw [← hids]
  exact List.filter_sublist.map _

theorem trimSpace_role (r : Role) : trimSpace r.text = r.text := by
  cases r with
  | member => rfl
  | admin => rfl

/-- What the assignments give are the memberships whose lists came. -/
theorem Loaded.gives_iff (h : Loaded rt actor fails db page) {u t : Text} {r : Role} :
    (∃ a ∈ assignments (buildTeamMembershipDraft u page.teams page.teamMembers), a.Gives t r) ↔
      fails t = false ∧ db.members.lookup (t, u) = some r := by
  have htrim : ∀ {t r}, db.members.lookup (t, u) = some r → trimSpace t = t := fun hr =>
    (h.sound.teamIDs _ (h.sound.teams _ _ (Option.isSome_of_eq_some hr))).1
  constructor
  · rintro ⟨a, ha, hteam, hrole⟩
    obtain ⟨hcame, r', hr', htext⟩ := h.mem_assignments.1 ha
    rw [htrim hr'] at hteam
    rw [htext, trimSpace_role] at hrole
    obtain rfl := text_injective hrole
    rw [← hteam]
    exact ⟨hcame, hr'⟩
  · rintro ⟨hcame, hr⟩
    refine ⟨⟨t, r.text⟩, h.mem_assignments.2 ⟨hcame, r, hr, rfl⟩, htrim hr, trimSpace_role r⟩

/-! ## The save -/

/-- What the server asks for: it takes the profile, the actor stays an administrator who is signed in, and
no team whose list did not come has the user as its only administrator. -/
structure SaveAccepted (rt : Runtime) (salt : Text) (revokes : Bool) (actorID userID : Text)
    (fails : Text → Bool) (profile : UpdateUserInput) (db : Db) (role : Role) : Prop where
  update : db.MayUpdate rt salt actorID userID (userUpdate profile) role
  actor : userID = actorID → role = .admin
  session : signedOut revokes actorID userID profile = false
  admins : ∀ t, db.IsTeamAdmin t userID → fails t = true → db.OtherTeamAdmin t userID

theorem MayUpdate.role_unique {salt actorID userID : Text} {update : UserUpdate} {role role' : Role}
    (h : db.MayUpdate rt salt actorID userID update role)
    (h' : db.MayUpdate rt salt actorID userID update role') : role = role' := by
  obtain ⟨current, name, disabled, hcurrent, hfields, -⟩ := h.fields
  obtain ⟨current', name', disabled', hcurrent', hfields', -⟩ := h'.fields
  cases hcurrent.symm.trans hcurrent'
  cases hfields.symm.trans hfields'
  rfl

/-- The state between the two requests. -/
theorem updateUser_between {salt userID : Text} {update : UserUpdate} {u : User} {mid : Db}
    (h : (updateUser rt salt actor userID update).exec db = .ok (u, mid)) :
    ∃ role, db.MayUpdate rt salt actor.user.id userID update role ∧
      (mid.IsActiveAdmin actor.user.id ↔ (userID = actor.user.id → role = .admin)) ∧
      (mid.users.lookup userID).isSome ∧ mid.teams = db.teams ∧ mid.members = db.members := by
  obtain ⟨hactive, current, displayName, role, disabled, hash, hcurrent, hfields, hother, hpassword,
    husers, hteams, hmembers⟩ := updateUser_ok h
  refine ⟨role, ⟨hactive, ⟨current, displayName, disabled, hcurrent, hfields, hother⟩, hash, hpassword⟩,
    ?_, ?_, hteams, hmembers⟩
  · obtain ⟨-, hdisabled, hself⟩ := updatedFields_ok hfields
    rw [Db.IsActiveAdmin, husers]
    by_cases hsame : actor.user.id = userID
    · -- who updates himself cannot disable himself
      have henabled : disabled = false := Bool.eq_false_iff.2 fun hd => hself ⟨hsame.symm, hd⟩
      rw [if_pos hsame]
      constructor
      · rintro ⟨row, hrow, hadmin⟩ -
        cases hrow
        exact (UserRow.activeAdmin_iff _).1 hadmin |>.1
      · intro hkeeps
        refine ⟨_, rfl, (UserRow.activeAdmin_iff _).2 ⟨hkeeps hsame.symm, ?_⟩⟩
        exact hdisabled.symm.trans henabled
    · rw [if_neg hsame]
      exact iff_of_true hactive fun heq => absurd heq.symm hsame
  · rw [husers, if_pos rfl]
    rfl

/-- A save that the server accepts leaves the user the memberships whose lists came. -/
theorem Loaded.save_iff (h : Loaded rt actor fails db page) {salt userID : Text}
    {guards deletes : MapOrder} {revokes : Bool} {profile : UpdateUserInput} {db' : Db}
    (hsave : submitEdit rt salt guards deletes revokes actor userID profile
      (buildTeamMembershipDraft userID page.teams page.teamMembers) db = some db') :
    (∃ role, SaveAccepted rt salt revokes actor.user.id userID fails profile db role) ∧
      ∀ t, db'.members.lookup (t, userID) =
        if fails t then none else db.members.lookup (t, userID) := by
  rw [submitEdit] at hsave
  cases hupdate : (updateUser rt salt actor userID (userUpdate profile)).exec db with
  | error e => simp [hupdate] at hsave
  | ok r =>
    obtain ⟨u, mid⟩ := r
    obtain ⟨role, hmay, hactor, huser, hteams, hmembers⟩ := updateUser_between hupdate
    simp only [hupdate] at hsave
    split at hsave
    · cases hsave
    next hsession =>
    cases hset : (setUserTeamMemberships guards deletes actor userID (assignments
        (buildTeamMembershipDraft userID page.teams page.teamMembers))).exec mid with
    | error e => simp [hset] at hsave
    | ok r =>
      obtain ⟨⟨⟩, last⟩ := r
      rw [hset] at hsave
      cases hsave
      have hassign := mayAssign_of_ok hset
      obtain ⟨-, -, -, normalized, hnormal, -, hafter⟩ := setUserTeamMemberships_ok hset
      refine ⟨⟨role, hmay, hactor.1 hassign.actor, Bool.eq_false_iff.2 hsession, ?_⟩, fun t => ?_⟩
      · intro t hadmin hfailed
        have hother := hassign.admins t (by rw [Db.IsTeamAdmin, hmembers]; exact hadmin)
        rw [h.gives_iff, hfailed, Db.OtherTeamAdmin] at hother
        simp only [Db.IsTeamAdmin, hmembers] at hother
        exact hother fun hgiven => Bool.false_ne_true hgiven.1.symm
      · rw [hafter, if_pos rfl]
        apply Option.ext
        intro r
        rw [desiredRole_eq_some hnormal, h.gives_iff]
        split
        · next hfailed => simp [hfailed]
        · next hcame => simp [hcame]

/-- A save that the server accepts goes through. -/
theorem Loaded.save_exists (h : Loaded rt actor fails db page) {salt userID : Text} {role : Role}
    (guards deletes : MapOrder) {revokes : Bool} {profile : UpdateUserInput}
    (haccepted : SaveAccepted rt salt revokes actor.user.id userID fails profile db role) :
    ∃ db', submitEdit rt salt guards deletes revokes actor userID profile
      (buildTeamMembershipDraft userID page.teams page.teamMembers) db = some db' := by
  obtain ⟨u, mid, hupdate⟩ := exec_updateUser haccepted.update
  obtain ⟨role', hmay, hactor, huser, hteams, hmembers⟩ := updateUser_between hupdate
  obtain rfl := MayUpdate.role_unique hmay haccepted.update
  have htrim : ∀ a ∈ assignments (buildTeamMembershipDraft userID page.teams page.teamMembers),
      (db.teams.lookup a.teamID).isSome ∧ trimSpace a.teamID = a.teamID ∧ a.teamID ≠ [] := by
    intro a ha
    obtain ⟨-, r, hr, -⟩ := h.mem_assignments.1 ha
    have hteam := h.sound.teams _ _ (Option.isSome_of_eq_some hr)
    exact ⟨hteam, h.sound.teamIDs _ hteam⟩
  have hassign : MayAssign mid actor.user.id userID
      (assignments (buildTeamMembershipDraft userID page.teams page.teamMembers)) := by
    constructor
    · intro a ha
      obtain ⟨-, hsame, hne⟩ := htrim a ha
      rw [hsame]
      exact hne
    · rw [List.map_congr_left fun a ha => (htrim a ha).2.1]
      exact h.assignments_nodup userID
    · intro a ha
      obtain ⟨-, r, -, hrole⟩ := h.mem_assignments.1 ha
      rw [hrole, trimSpace_role]
      cases r with
      | member => exact Or.inl rfl
      | admin => exact Or.inr rfl
    · exact hactor.2 haccepted.actor
    · exact huser
    · intro a ha
      rw [(htrim a ha).2.1, hteams]
      exact (htrim a ha).1
    · intro t hadmin hnot
      rw [h.gives_iff, not_and] at hnot
      rw [Db.IsTeamAdmin, hmembers] at hadmin
      have hfailed : fails t = true := Bool.of_not_eq_false fun hcame => hnot hcame hadmin
      obtain ⟨w, hne, hw⟩ := haccepted.admins t hadmin hfailed
      exact ⟨w, hne, by rw [Db.IsTeamAdmin, hmembers]; exact hw⟩
  obtain ⟨db', hset⟩ : ∃ db', (setUserTeamMemberships guards deletes actor userID (assignments
      (buildTeamMembershipDraft userID page.teams page.teamMembers))).exec mid = .ok ((), db') :=
    ok_of_mayAssign hassign
  refine ⟨db', ?_⟩
  simp [submitEdit, hupdate, haccepted.session, hset]

end

/-- Saving a profile keeps the user's memberships exactly where the server refuses the save or the members
of each team that the user is in have come. -/
theorem saveProfile_keeps_memberships (rt : Runtime) (db : Db)
    (hreach : Reachable rt (fun c _ => c.Generated) Db.empty db) (actor : Principal)
    (fails : Text → Bool) (page : SettingsData) (hpage : reloadSettings rt actor fails db = some page)
    (salt : Text) (guards deletes : MapOrder) (revokes : Bool) (userID : Text)
    (profile : UpdateUserInput) (password passwordConfirm : Text) :
    (∀ db', saveProfile rt salt guards deletes revokes actor page userID profile password
        passwordConfirm db = some db' →
      ∀ t, db'.members.lookup (t, userID) = db.members.lookup (t, userID)) ↔
    (∀ input role, handleSubmit profile password passwordConfirm = some input →
        ¬ SaveAccepted rt salt revokes actor.user.id userID fails input db role) ∨
      ∀ t, (db.members.lookup (t, userID)).isSome → fails t = false := by
  have hsound := sound_of_reachable hreach
  constructor
  · intro hkeeps
    by_contra hnot
    rw [not_or] at hnot
    obtain ⟨haccepted, hlost⟩ := hnot
    push Not at haccepted hlost
    obtain ⟨input, role, hinput, haccepted⟩ := haccepted
    obtain ⟨t, hmember, hfailed⟩ := hlost
    have hloaded : Loaded rt actor fails db page := ⟨hsound, haccepted.update.actor, hpage⟩
    obtain ⟨db', hsave⟩ := hloaded.save_exists guards deletes haccepted
    have hafter := hkeeps db' (by rw [saveProfile, hinput]; exact hsave) t
    rw [(hloaded.save_iff hsave).2, if_pos (by simpa using hfailed)] at hafter
    rw [← hafter] at hmember
    cases hmember
  · intro hcond db' hsave t
    obtain ⟨input, hinput, hsubmit⟩ := Option.bind_eq_some_iff.1 hsave
    have hactive : db.IsActiveAdmin actor.user.id := by
      rw [submitEdit] at hsubmit
      cases hupdate : (updateUser rt salt actor userID (userUpdate input)).exec db with
      | error e => simp [hupdate] at hsubmit
      | ok r => exact (updateUser_ok hupdate).1
    have hloaded : Loaded rt actor fails db page := ⟨hsound, hactive, hpage⟩
    obtain ⟨⟨role, haccepted⟩, hafter⟩ := hloaded.save_iff hsubmit
    rcases hcond with hrefused | hcame
    · exact absurd haccepted (hrefused input role hinput)
    · rw [hafter]
      split
      · next hfailed =>
          cases hmember : db.members.lookup (t, userID) with
          | none => rfl
          | some r =>
            rw [hcame t (Option.isSome_of_eq_some hmember)] at hfailed
            cases hfailed
      · rfl

/-! ## A member whose team did not load -/

/-- A second user, who becomes a member of the first team. -/
def withBob : Db :=
  after default (firstTeam ++
    [.createUser "usr_b".toList [] rootPrincipal "b".toList "B".toList "password".toList
        Role.member.text,
      .addTeamMember rootPrincipal "team_a".toList "usr_b".toList Role.member.text]) Db.empty

theorem reachable_withBob : Reachable default (fun c _ => c.Generated) Db.empty withBob := by
  refine Reachable.call (c := .addTeamMember ..) ?_ trivial
  refine Reachable.call (c := .createUser ..) ?_ trivial
  refine Reachable.call (c := .createTeam ..) ?_ ⟨rfl, List.cons_ne_nil _ _⟩
  exact Reachable.call (c := .bootstrapAdmin ..) Relation.ReflTransGen.refl trivial

def bobProfile : UpdateUserInput := ⟨"B".toList, Role.member.text, false, none⟩

def anyOrder : MapOrder := ⟨id, List.Perm.refl⟩

theorem accepted_bob : SaveAccepted default [] true rootPrincipal.user.id "usr_b".toList
    (fun _ => true) bobProfile withBob .member := by
  constructor
  · refine ⟨⟨_, rfl, rfl⟩, ⟨_, _, _, rfl, rfl, ?_⟩, _, rfl⟩
    rintro ⟨hadmin, -⟩
    cases hadmin
  · intro hsame
    exact absurd hsame (by decide)
  · rfl
  · intro t hadmin
    have hrows : withBob.members.entries = [⟨("team_a".toList, "usr_b".toList), .member⟩,
      ⟨("team_a".toList, "usr_root".toList), .admin⟩] := rfl
    have hmem := Table.mem_entries.2 hadmin
    rw [hrows] at hmem
    rcases List.mem_cons.1 hmem with heq | hmem
    · cases heq
    · cases List.mem_singleton.1 hmem

/-- No list came, and a save of the profile takes the member out of the team. -/
theorem saveProfile_drops_memberships :
    ¬ ∀ (db : Db) (fails : Text → Bool) (page : SettingsData) (profile : UpdateUserInput) (db' : Db),
      Reachable default (fun c _ => c.Generated) Db.empty db →
      reloadSettings default rootPrincipal fails db = some page →
      saveProfile default [] anyOrder anyOrder true rootPrincipal page "usr_b".toList profile [] [] db =
        some db' →
      ∀ t, db'.members.lookup (t, "usr_b".toList) = db.members.lookup (t, "usr_b".toList) := by
  intro h
  obtain ⟨page, hpage⟩ : ∃ page, reloadSettings default rootPrincipal (fun _ => true) withBob =
      some page := ⟨_, rfl⟩
  have hloaded : Loaded default rootPrincipal (fun _ => true) withBob page :=
    ⟨sound_of_reachable reachable_withBob, accepted_bob.update.actor, hpage⟩
  obtain ⟨db', hsave⟩ := hloaded.save_exists anyOrder anyOrder accepted_bob
  have hkept := h withBob _ page bobProfile db' reachable_withBob hpage hsave "team_a".toList
  rw [(hloaded.save_iff hsave).2, if_pos rfl] at hkept
  cases hkept

/-- All lists came. -/
theorem saveProfile_keeps_memberships_bob :
    ∃ page db', reloadSettings default rootPrincipal (fun _ => false) withBob = some page ∧
      saveProfile default [] anyOrder anyOrder true rootPrincipal page "usr_b".toList bobProfile [] []
        withBob = some db' ∧
      ∀ t, db'.members.lookup (t, "usr_b".toList) = withBob.members.lookup (t, "usr_b".toList) := by
  obtain ⟨page, hpage⟩ : ∃ page, reloadSettings default rootPrincipal (fun _ => false) withBob =
      some page := ⟨_, rfl⟩
  have haccepted : SaveAccepted default [] true rootPrincipal.user.id "usr_b".toList (fun _ => false)
      bobProfile withBob .member :=
    ⟨accepted_bob.update, accepted_bob.actor, accepted_bob.session, fun _ _ hfailed => by cases hfailed⟩
  have hloaded : Loaded default rootPrincipal (fun _ => false) withBob page :=
    ⟨sound_of_reachable reachable_withBob, haccepted.update.actor, hpage⟩
  obtain ⟨db', hsave⟩ := hloaded.save_exists anyOrder anyOrder haccepted
  refine ⟨page, db', hpage, hsave, ?_⟩
  exact (saveProfile_keeps_memberships default withBob reachable_withBob rootPrincipal (fun _ => false)
    page hpage [] anyOrder anyOrder true "usr_b".toList bobProfile [] []).2 (Or.inr fun _ _ => rfl) db'
      hsave

end Workbench.Web.Settings
