import Workbench.Identity.Passwords

/-!
# What every user looks like

`UpdateUser` refuses a blank display name, an unknown role and a password of fewer than eight bytes.
`CreateUser` and `BootstrapAdmin` write the same columns and check none of this: the role is left to the
`CHECK` of the table, the name and the password to the caller.
-/

set_option autoImplicit false

namespace Workbench.Identity

open Workbench.Lib

/-- The constraints of `UpdateUser`, for a row: the name, the role, and every password that the hash
accepts. -/
structure UserRow.Valid (rt : Runtime) (u : UserRow) : Prop where
  displayName : trimSpace u.displayName ≠ []
  systemRole : u.systemRole = .member ∨ u.systemRole = .admin
  password : ∀ p, rt.verifyPassword p u.passwordHash = true → 8 ≤ byteLength p

def Db.UsersValid (rt : Runtime) (db : Db) : Prop :=
  ∀ i u, db.users.lookup i = some u → u.Valid rt

/-- The calls that write a user's columns. -/
def Call.SavesUser : Call → Prop
  | .bootstrapAdmin .. | .createUser .. | .updateUser .. => True
  | _ => False

/-- A new user is given a name that is not blank and a password of at least eight bytes. -/
def Call.InputValid (rt : Runtime) : Call → Prop
  | .bootstrapAdmin _ _ username password =>
    trimSpace (normalizeUsername rt username) ≠ [] ∧ 8 ≤ byteLength password
  | .createUser _ _ _ _ displayName password _ =>
    trimSpace displayName ≠ [] ∧ 8 ≤ byteLength password
  | _ => True

theorem Role.member_or_admin (r : Role) : r = .member ∨ r = .admin := by
  cases r with
  | member => exact Or.inl rfl
  | admin => exact Or.inr rfl

theorem long_of_verified {rt : Runtime} {salt password : Text} (h : 8 ≤ byteLength password) (p : Text)
    (hp : rt.verifyPassword p (rt.hashPassword salt password) = true) : 8 ≤ byteLength p := by
  rw [rt.verify_hash] at hp
  rwa [hp]

theorem Db.UsersValid.insert {rt : Runtime} {db : Db} (h : db.UsersValid rt) {userID : Text}
    {row : UserRow} (hrow : row.Valid rt) :
    Db.UsersValid rt { db with users := db.users.insert userID row } := by
  intro i u hu
  by_cases hi : i = userID
  · subst hi
    rw [AList.lookup_insert] at hu
    cases hu
    exact hrow
  · rw [AList.lookup_insert_ne hi] at hu
    exact h i u hu

theorem updatedDisplayName_ok {update : UserUpdate} {current : UserRow} {displayName : Text}
    (hcurrent : trimSpace current.displayName ≠ [])
    (h : updatedDisplayName update current = .ok displayName) : trimSpace displayName ≠ [] := by
  rw [updatedDisplayName] at h
  cases hgiven : update.displayName with
  | none =>
    rw [hgiven] at h
    cases h
    exact hcurrent
  | some name =>
    simp only [hgiven, guard_eq_ok] at h
    obtain ⟨hblank, hname⟩ := h
    cases hname
    exact trimSpace_trimSpace_ne_nil hblank

theorem updatedFields_displayName {actorID userID : Text} {update : UserUpdate} {current : UserRow}
    {displayName : Text} {role : Role} {disabled : Bool}
    (h : updatedFields actorID userID update current = .ok (displayName, role, disabled)) :
    updatedDisplayName update current = .ok displayName := by
  rw [updatedFields, bind_eq_ok] at h
  obtain ⟨name, hname, h⟩ := h
  rw [bind_eq_ok] at h
  obtain ⟨r, -, h⟩ := h
  rw [guard_eq_ok] at h
  cases h.2
  exact hname

/-- The hash that an update leaves accepts no short password. -/
theorem updatedPassword_long {rt : Runtime} {salt : Text} {update : UserUpdate} {current : UserRow}
    {passwordHash : Option Text} (hcurrent : current.Valid rt)
    (h : updatedPassword rt salt update = .ok passwordHash) (p : Text)
    (hp : rt.verifyPassword p (passwordHash.getD current.passwordHash) = true) : 8 ≤ byteLength p := by
  rw [updatedPassword] at h
  cases hgiven : update.password with
  | none =>
    rw [hgiven] at h
    cases h
    exact hcurrent.password p hp
  | some password =>
    simp only [hgiven, guard_eq_ok] at h
    obtain ⟨hshort, hhash⟩ := h
    cases hhash
    exact long_of_verified (Nat.le_of_not_lt hshort) p hp

/-- One call keeps all users valid. -/
theorem Call.Effect.usersValid {rt : Runtime} {c : Call} {db db' : Db} (h : db.UsersValid rt)
    (hsaves : c.SavesUser) (hinput : c.InputValid rt) (heffect : c.Effect rt db db') :
    db'.UsersValid rt := by
  cases c with
  | bootstrapAdmin userID salt username password =>
    obtain ⟨-, rfl⟩ := heffect
    apply h.insert
    exact ⟨hinput.1, Role.member_or_admin _, long_of_verified hinput.2⟩
  | createUser userID salt actor username displayName password role =>
    obtain ⟨-, -, -, r, -, rfl⟩ := heffect
    apply h.insert
    exact ⟨trimSpace_trimSpace_ne_nil hinput.1, Role.member_or_admin _, long_of_verified hinput.2⟩
  | updateUser salt actor userID update =>
    obtain ⟨-, current, displayName, role, disabled, passwordHash, hcurrent, hfields, -, hpassword,
      husers, -, -⟩ := heffect
    have hvalid := h userID current hcurrent
    intro i u hu
    rw [husers] at hu
    split at hu
    · cases hu
      constructor
      · exact updatedDisplayName_ok hvalid.displayName (updatedFields_displayName hfields)
      · exact Role.member_or_admin _
      · exact updatedPassword_long hvalid hpassword
    · exact h i u hu
  | _ => exact hsaves.elim

/-- In every run of `BootstrapAdmin`, `CreateUser` and `UpdateUser` in which each new user is given a name
and a long enough password, all users meet what `UpdateUser` asks for. -/
theorem users_valid_of_inputs (rt : Runtime) (db : Db)
    (h : Reachable rt (fun c _ => c.SavesUser ∧ c.InputValid rt) Db.empty db) : db.UsersValid rt := by
  refine h.induction ?_ ?_
  · intro c db db' hvalid hcond heffect
    exact heffect.usersValid hvalid hcond.1 hcond.2
  · intro i u hu
    cases hu

theorem users_valid_bootstrapped :
    (after default [bootstrapRoot] Db.empty).UsersValid default :=
  users_valid_of_inputs default _
    (Reachable.call (c := bootstrapRoot) Relation.ReflTransGen.refl
      ⟨trivial, by decide +kernel, by decide⟩)

/-- `CreateUser` with a blank name and an empty password. -/
def createBlankUser : Call :=
  .createUser "usr_b".toList [] rootPrincipal "b".toList " ".toList [] "member".toList

theorem createUser_unvalidated :
    ∃ db, Reachable default (fun c _ => c.SavesUser) Db.empty db ∧ ¬ db.UsersValid default := by
  refine ⟨_, Reachable.call (c := createBlankUser) (Reachable.call (c := bootstrapRoot)
    Relation.ReflTransGen.refl trivial) trivial, fun hvalid => ?_⟩
  have hrow := hvalid "usr_b".toList _ rfl
  exact hrow.displayName rfl

end Workbench.Identity
