import Workbench.Identity.TeamAdmins

/-!
# Passwords

Who can sign in, and with which password. `CreateUser` and `BootstrapAdmin` hash a password as it is
given, and `Authenticate` looks at it as it is given; `UpdateUser` trims it first.
-/

set_option autoImplicit false

namespace Workbench.Identity

open Workbench.Lib

/-- The user and the password that a call supplies. -/
def Call.supplies : Call → Option (Text × Text)
  | .bootstrapAdmin userID _ _ password => some (userID, password)
  | .createUser userID _ _ _ _ password _ => some (userID, password)
  | .updateUser _ _ userID update => update.password.map fun password => (userID, password)
  | _ => none

/-- The passwords last supplied, behind one more call that went through. -/
def Call.record (c : Call) (supplied : Text → Option Text) : Text → Option Text :=
  match c.supplies with
  | none => supplied
  | some (userID, password) => Function.update supplied userID (some password)

/-- The histories that lead to a state and to the passwords last supplied in them. -/
inductive History (rt : Runtime) (cond : Call → Prop) : Db → (Text → Option Text) → Prop
  | empty : History rt cond Db.empty fun _ => none
  | ok {db db' : Db} {supplied : Text → Option Text} {c : Call} (h : History rt cond db supplied)
      (hcond : cond c) (hruns : (c.program rt).Runs db (some (.ok ())) db') :
      History rt cond db' (c.record supplied)
  | failed {db db' : Db} {supplied : Text → Option Text} {c : Call} {r : Option (Except Err Unit)}
      (h : History rt cond db supplied) (hcond : cond c) (hruns : (c.program rt).Runs db r db')
      (hfailed : r ≠ some (.ok ())) : History rt cond db' supplied

/-- `UpdateUser` gets no password with white space at an end. -/
def Call.PasswordTrimmed : Call → Prop
  | .updateUser _ _ _ update => ∀ password, update.password = some password →
      trimSpace password = password
  | _ => True

/-- No two users have one name, and each one has the hash of the password last supplied. -/
structure PasswordsKept (rt : Runtime) (db : Db) (supplied : Text → Option Text) : Prop where
  names : ∀ i j u v, db.users.lookup i = some u → db.users.lookup j = some v →
    u.username = v.username → i = j
  hashes : ∀ i u, db.users.lookup i = some u →
    ∃ salt password, supplied i = some password ∧ u.passwordHash = rt.hashPassword salt password

theorem PasswordsKept.of_users {rt : Runtime} {a b : Db} {supplied : Text → Option Text}
    (h : PasswordsKept rt a supplied)
    (husers : ∀ i u, b.users.lookup i = some u → a.users.lookup i = some u) :
    PasswordsKept rt b supplied :=
  ⟨fun i j u v hu hv => h.names i j u v (husers i u hu) (husers j v hv),
    fun i u hu => h.hashes i u (husers i u hu)⟩

/-- A new user with a free name. -/
theorem PasswordsKept.insert {rt : Runtime} {db : Db} {supplied : Text → Option Text}
    (h : PasswordsKept rt db supplied) {userID salt password : Text} {row : UserRow}
    (hfree : db.present (.username row.username) = false)
    (hhash : row.passwordHash = rt.hashPassword salt password) :
    PasswordsKept rt { db with users := db.users.insert userID row }
      (Function.update supplied userID (some password)) := by
  have hother : ∀ i u, db.users.lookup i = some u → u.username ≠ row.username := by
    intro i u hu hname
    rw [Db.present, Bool.eq_false_iff] at hfree
    exact hfree (Table.any_iff.2 ⟨i, u, hu, by simpa using hname⟩)
  constructor
  · intro i j u v hu hv hname
    by_cases hi : i = userID
    · subst hi
      rw [AList.lookup_insert] at hu
      by_cases hj : j = i
      · exact hj.symm
      · rw [AList.lookup_insert_ne hj] at hv
        cases hu
        exact absurd hname.symm (hother j v hv)
    · rw [AList.lookup_insert_ne hi] at hu
      by_cases hj : j = userID
      · subst hj
        rw [AList.lookup_insert] at hv
        cases hv
        exact absurd hname (hother i u hu)
      · rw [AList.lookup_insert_ne hj] at hv
        exact h.names i j u v hu hv hname
  · intro i u hu
    by_cases hi : i = userID
    · subst hi
      rw [AList.lookup_insert] at hu
      cases hu
      exact ⟨salt, password, Function.update_self .., hhash⟩
    · rw [AList.lookup_insert_ne hi] at hu
      rw [Function.update_of_ne hi]
      exact h.hashes i u hu

/-- One row with another hash, the name as it was. -/
theorem PasswordsKept.update {rt : Runtime} {a b : Db} {supplied supplied' : Text → Option Text}
    (h : PasswordsKept rt a supplied) {userID : Text} {current row : UserRow}
    (hcurrent : a.users.lookup userID = some current)
    (husers : ∀ i, b.users.lookup i = if i = userID then some row else a.users.lookup i)
    (hname : row.username = current.username)
    (hsupplied : ∀ i, i ≠ userID → supplied' i = supplied i)
    (hhash : ∃ salt password, supplied' userID = some password ∧
      row.passwordHash = rt.hashPassword salt password) : PasswordsKept rt b supplied' := by
  -- each row of the new state has a row of the same name in the old one
  have hold : ∀ i u, b.users.lookup i = some u →
      ∃ v, a.users.lookup i = some v ∧ u.username = v.username := by
    intro i u hu
    rw [husers] at hu
    split at hu
    · next hi =>
        cases hu
        exact ⟨current, hi ▸ hcurrent, hname⟩
    · exact ⟨u, hu, rfl⟩
  constructor
  · intro i j u v hu hv huv
    obtain ⟨u', hu', hnameu⟩ := hold i u hu
    obtain ⟨v', hv', hnamev⟩ := hold j v hv
    exact h.names i j u' v' hu' hv' (hnameu.symm.trans (huv.trans hnamev))
  · intro i u hu
    rw [husers] at hu
    split at hu
    · next hi =>
        cases hu
        exact hi ▸ hhash
    · next hi =>
        rw [hsupplied i hi]
        exact h.hashes i u hu

theorem updatedPassword_ok {rt : Runtime} {salt : Text} {update : UserUpdate}
    {passwordHash : Option Text} (h : updatedPassword rt salt update = .ok passwordHash) :
    passwordHash = update.password.map fun password => rt.hashPassword salt (trimSpace password) := by
  unfold updatedPassword at h
  split at h
  · next hnone =>
      cases h
      rw [hnone]
      rfl
  · next password hsome =>
      rw [hsome]
      split at h
      · cases h
      · cases h
        rfl

theorem Call.Effect.passwordsKept {rt : Runtime} {c : Call} {db db' : Db}
    {supplied : Text → Option Text} (h : PasswordsKept rt db supplied) (hcond : c.PasswordTrimmed)
    (heffect : c.Effect rt db db') : PasswordsKept rt db' (c.record supplied) := by
  -- A call that leaves the users alone supplies no password either.
  have same (husers : db'.users = db.users) : PasswordsKept rt db' supplied :=
    h.of_users fun i u hu => husers ▸ hu
  cases c with
  | bootstrapAdmin userID salt username password =>
    obtain ⟨hempty, rfl⟩ := heffect
    refine h.insert ?_ rfl
    -- The first admin is created only where there is no user at all.
    rw [Db.present, Bool.eq_false_iff]
    intro hany
    obtain ⟨i, u, hu, -⟩ := Table.any_iff.1 hany
    cases (hempty i).symm.trans hu
  | createUser userID salt actor username displayName password role =>
    obtain ⟨-, -, hfree, r, -, rfl⟩ := heffect
    exact h.insert hfree rfl
  | updateUser salt actor userID update =>
    obtain ⟨-, current, displayName, role, disabled, passwordHash, hcurrent, -, -, hpassword, husers,
      -, -⟩ := heffect
    have hhash := updatedPassword_ok hpassword
    cases hgiven : update.password with
    | none =>
      have hrecord : (Call.updateUser salt actor userID update).record supplied = supplied := by
        simp only [Call.record, Call.supplies, hgiven, Option.map_none]
      rw [hrecord]
      refine h.update hcurrent husers rfl (fun _ _ => rfl) ?_
      rw [hhash, hgiven]
      exact h.hashes userID current hcurrent
    | some password =>
      have hrecord : (Call.updateUser salt actor userID update).record supplied =
          Function.update supplied userID (some password) := by
        simp only [Call.record, Call.supplies, hgiven, Option.map_some]
      rw [hrecord]
      refine h.update hcurrent husers rfl (fun i hi => Function.update_of_ne hi _ _) ?_
      -- The trimmed password is hashed, and it is the one given where nothing is to trim.
      refine ⟨salt, password, Function.update_self .., ?_⟩
      rw [hhash, hgiven]
      exact congrArg (rt.hashPassword salt) (hcond password hgiven)
  | deleteUser actor userID =>
    obtain ⟨-, -, -, hwithout⟩ := heffect
    refine h.of_users fun i u hu => ?_
    rw [hwithout.users] at hu
    split at hu
    · cases hu
    · exact hu
  | createTeam teamID actor name =>
    obtain ⟨-, -, rfl⟩ := heffect
    exact same rfl
  | updateTeam actor teamID name => exact same heffect.2.1
  | deleteTeam actor teamID => exact same heffect.2.1
  | addTeamMember actor teamID userID role =>
    obtain ⟨-, r, -, rfl⟩ := heffect
    exact same rfl
  | setTeamMemberRole actor teamID userID role =>
    obtain ⟨-, r, current, -, -, -, husers, -⟩ := heffect
    exact same husers
  | removeTeamMember actor teamID userID => exact same heffect.2.2.1
  | setUserTeamMemberships guards deletes actor userID assignments => exact same heffect.2.1
  | authenticate username password => exact same (congrArg Db.users heffect)
  | listTeamMembers actor teamID => exact same (congrArg Db.users heffect)
  | listUsers actor => exact same (congrArg Db.users heffect)
  | listTeams actor => exact same (congrArg Db.users heffect)
  | principalForUser userID => exact same (congrArg Db.users heffect)

theorem History.passwordsKept {rt : Runtime} {db : Db} {supplied : Text → Option Text}
    (h : History rt Call.PasswordTrimmed db supplied) : PasswordsKept rt db supplied := by
  induction h with
  | empty =>
    constructor
    · intro i j u v hu
      cases hu
    · intro i u hu
      cases hu
  | ok _ hcond hruns ih =>
    rcases Call.runs_cases hruns with ⟨heffect, -⟩ | ⟨hfailed, -⟩
    · exact heffect.passwordsKept ih hcond
    · exact absurd rfl hfailed
  | failed _ hcond hruns hfailed ih =>
    rcases Call.runs_cases hruns with ⟨heffect, hok | ⟨actor, teamID, name, rfl⟩⟩ | ⟨-, rfl⟩
    · exact absurd hok hfailed
    · exact heffect.passwordsKept ih hcond
    · exact ih

theorem exec_authenticate {rt : Runtime} {db db' : Db} {username password : Text} {user : User} :
    (authenticate rt username password).exec db = .ok (user, db') ↔
      ∃ id u, (db.users.entries.find? fun e => e.2.username = normalizeUsername rt username) =
          some ⟨id, u⟩ ∧
        rt.verifyPassword password u.passwordHash = true ∧ u.disabled = false ∧ user = u.toUser id ∧
          db' = db := by
  unfold authenticate
  rw [Tx.exec_bind_ok]
  constructor
  · rintro ⟨found, mid, hread, h⟩
    obtain ⟨hfound, rfl⟩ := exec_select.1 hread
    cases found with
    | none => exact absurd h (by simp [exec_fail])
    | some e =>
      obtain ⟨⟨⟩, mid', hcheck, hend⟩ := Tx.exec_bind_ok.1 h
      obtain ⟨hp, rfl⟩ := exec_failIf.1 hcheck
      obtain ⟨rfl, rfl⟩ := Tx.exec_pure_ok.1 hend
      simp only [not_or, Bool.not_eq_false, Bool.not_eq_true] at hp
      exact ⟨e.1, e.2, by simpa using hfound, hp.1, hp.2, rfl, rfl⟩
  · rintro ⟨id, u, hfound, hverify, henabled, rfl, rfl⟩
    refine ⟨some ⟨id, u⟩, db', exec_select.2 ⟨by simpa using hfound, rfl⟩, ?_⟩
    refine Tx.exec_bind_ok.2 ⟨(), db', exec_failIf.2 ⟨by simp [hverify, henabled], rfl⟩, ?_⟩
    exact Tx.exec_pure_ok.2 ⟨rfl, rfl⟩

/-- Who signs in with a name and a password, where `UpdateUser` gets no password with white space at an
end: the enabled user of that name, with the password last supplied. -/
theorem authenticate_iff (rt : Runtime) (db : Db) (supplied : Text → Option Text)
    (h : History rt Call.PasswordTrimmed db supplied) (username password : Text) :
    (∃ user db', (authenticate rt username password).exec db = .ok (user, db')) ↔
      ∃ id u, db.users.lookup id = some u ∧ u.username = normalizeUsername rt username ∧
        u.disabled = false ∧ supplied id = some password := by
  have hkept := h.passwordsKept
  constructor
  · rintro ⟨user, db', hexec⟩
    obtain ⟨id, u, hfound, hverify, henabled, -, -⟩ := exec_authenticate.1 hexec
    have hlookup := Table.mem_entries.1 (List.mem_of_find?_eq_some hfound)
    have hname : u.username = normalizeUsername rt username := by
      simpa using List.find?_some hfound
    obtain ⟨salt, q, hq, hhash⟩ := hkept.hashes id u hlookup
    rw [hhash, rt.verify_hash] at hverify
    exact ⟨id, u, hlookup, hname, henabled, hverify ▸ hq⟩
  · rintro ⟨id, u, hlookup, hname, henabled, hsupplied⟩
    -- the name is found, and no other user has it
    have hsome : (db.users.entries.find? fun e =>
        e.2.username = normalizeUsername rt username).isSome := by
      rw [List.find?_isSome]
      exact ⟨⟨id, u⟩, Table.mem_entries.2 hlookup, by simpa using hname⟩
    obtain ⟨⟨id', u'⟩, hfound⟩ := Option.isSome_iff_exists.1 hsome
    have hlookup' := Table.mem_entries.1 (List.mem_of_find?_eq_some hfound)
    have hname' : u'.username = normalizeUsername rt username := by
      simpa using List.find?_some hfound
    obtain rfl := hkept.names id id' u u' hlookup hlookup' (hname.trans hname'.symm)
    obtain rfl := Option.some.inj (hlookup.symm.trans hlookup')
    obtain ⟨salt, q, hq, hhash⟩ := hkept.hashes id u hlookup
    obtain rfl := Option.some.inj (hsupplied.symm.trans hq)
    refine ⟨u.toUser id, db, exec_authenticate.2 ⟨id, u, hfound, ?_, henabled, rfl, rfl⟩⟩
    rw [hhash, rt.verify_hash]

theorem History.call {rt : Runtime} {cond : Call → Prop} {db : Db} {supplied : Text → Option Text}
    (h : History rt cond db supplied) {c : Call} (hcond : cond c)
    (hok : ((c.program rt).eval db).1 = .ok ()) :
    History rt cond ((c.program rt).eval db).2 (c.record supplied) :=
  History.ok h hcond (hok ▸ Program.runs_eval _ _)

/-- The first administrator changes his own password. -/
def changePassword (password : Text) : Call :=
  .updateUser [] rootPrincipal rootPrincipal.user.id ⟨none, none, none, some password⟩

def bootstrapRoot : Call :=
  .bootstrapAdmin rootPrincipal.user.id [] "root".toList "password".toList

theorem authenticate_iff_changed :
    (∃ user db', (authenticate default "root".toList "new password".toList).exec
        (after default [bootstrapRoot, changePassword "new password".toList] Db.empty) =
          .ok (user, db')) ↔
      ∃ id u, (after default [bootstrapRoot, changePassword "new password".toList]
          Db.empty).users.lookup id = some u ∧
        u.username = normalizeUsername default "root".toList ∧ u.disabled = false ∧
        (changePassword "new password".toList).record (bootstrapRoot.record fun _ => none) id =
          some "new password".toList := by
  refine authenticate_iff default _ _ (History.call (c := changePassword _) ?_ ?_ rfl) _ _
  · exact History.call (c := bootstrapRoot) History.empty trivial rfl
  · rintro password ⟨⟩
    rfl

/-- With white space at an end the new password is not the one that the user can sign in with. -/
theorem updateUser_changes_password :
    ∃ db supplied, History default (fun _ => True) db supplied ∧ ∃ username password,
      ¬ ((∃ user db', (authenticate default username password).exec db = .ok (user, db')) ↔
        ∃ id u, db.users.lookup id = some u ∧ u.username = normalizeUsername default username ∧
          u.disabled = false ∧ supplied id = some password) := by
  refine ⟨_, _, History.call (c := changePassword " new password".toList)
    (History.call (c := bootstrapRoot) History.empty trivial rfl) trivial rfl, "root".toList,
    " new password".toList, fun hiff => ?_⟩
  obtain ⟨user, db', hexec⟩ := hiff.2 ⟨rootPrincipal.user.id, _, rfl, rfl, rfl, rfl⟩
  cases hexec

end Workbench.Identity
