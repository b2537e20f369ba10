import Workbench.Identity.Effects

/-!
# The calls of the identity store

What every call of the store runs, and that it has its effect or none.
-/

set_option autoImplicit false

namespace Workbench.Identity

open Workbench.Lib

namespace Call

/-- On whose behalf a call is made. -/
def actor : Call → Option Principal
  | .bootstrapAdmin .. => none
  | .createUser _ _ actor .. => some actor
  | .createTeam _ actor _ => some actor
  | .updateUser _ actor .. => some actor
  | .deleteUser actor _ => some actor
  | .updateTeam actor .. => some actor
  | .deleteTeam actor _ => some actor
  | .addTeamMember actor .. => some actor
  | .setTeamMemberRole actor .. => some actor
  | .removeTeamMember actor .. => some actor
  | .setUserTeamMemberships _ _ actor .. => some actor
  | .authenticate .. => none
  | .listTeamMembers actor _ => some actor
  | .listUsers actor => some actor
  | .listTeams actor => some actor
  | .principalForUser _ => none

/-- What a call runs. `UpdateTeam`, `ListTeamMembers`, `ListUsers` and `PrincipalForUser` come back to the
pool for a second query. -/
def program (rt : Runtime) : Call → Program store Label Err Unit
  | .bootstrapAdmin userID salt username password =>
    .once (Identity.bootstrapAdmin rt userID salt username password)
  | .createUser userID salt actor username displayName password role =>
    .once (Identity.createUser rt userID salt actor username displayName password role)
  | .createTeam teamID actor name => .once (Identity.createTeam teamID actor name)
  | .updateUser salt actor userID update => .once (Identity.updateUser rt salt actor userID update)
  | .deleteUser actor userID => .once (Identity.deleteUser actor userID)
  | .updateTeam actor teamID name =>
    .transact (updateTeamName actor teamID name) fun _ => .once (updatedTeamRole actor teamID)
  | .deleteTeam actor teamID => .once (Identity.deleteTeam actor teamID)
  | .addTeamMember actor teamID userID role => .once (Identity.addTeamMember actor teamID userID role)
  | .setTeamMemberRole actor teamID userID role =>
    .once (Identity.setTeamMemberRole actor teamID userID role)
  | .removeTeamMember actor teamID userID => .once (Identity.removeTeamMember actor teamID userID)
  | .setUserTeamMemberships guards deletes actor userID assignments =>
    .once (Identity.setUserTeamMemberships guards deletes actor userID assignments)
  | .authenticate username password => .once (Identity.authenticate rt username password)
  | .listTeamMembers actor teamID =>
    .transact (mayListTeamMembers actor teamID) fun _ => .once (Identity.listTeamMembers rt teamID)
  | .listUsers actor =>
    .transact (mayListUsers actor) fun all => .once (Identity.listUsers rt actor all)
  | .listTeams actor => .once (Identity.listTeams rt actor)
  | .principalForUser userID =>
    .transact (principalUser userID) fun _ => .once (principalTeams userID)

end Call

/-! ## Queries change nothing -/

/-- A transaction that only reads. -/
def ReadsOnly {α : Type} (tx : Transaction α) : Prop :=
  ∀ db a db', tx.exec db = .ok (a, db') → db' = db

theorem ReadsOnly.bind {α β : Type} {tx : Transaction α} {f : α → Transaction β} (h : ReadsOnly tx)
    (hf : ∀ a, ReadsOnly (f a)) : ReadsOnly (tx >>= f) := by
  intro db b db' hexec
  obtain ⟨a, mid, htx, hrest⟩ := Tx.exec_bind_ok.1 hexec
  rw [hf a _ _ _ hrest, h _ _ _ htx]

theorem readsOnly_select {β : Type} (label : Label) (answer : Db → Except Err β) :
    ReadsOnly (Tx.perform (select label answer)) := fun _ _ _ h => (exec_select.1 h).2

theorem readsOnly_pure {α : Type} (a : α) : ReadsOnly (pure a) := fun _ _ _ h =>
  (Tx.exec_pure_ok.1 h).2

theorem readsOnly_fail {α : Type} (s : Sentinel) : ReadsOnly (fail s : Transaction α) :=
  fun _ _ _ h => absurd h (by simp [exec_fail])

theorem readsOnly_failIf (p : Prop) [Decidable p] (s : Sentinel) : ReadsOnly (failIf p s) :=
  fun _ _ _ h => (exec_failIf.1 h).2

theorem readsOnly_authenticate (rt : Runtime) (username password : Text) :
    ReadsOnly (authenticate rt username password) := by
  refine (readsOnly_select _ _).bind fun found => ?_
  cases found with
  | none => exact readsOnly_fail _
  | some e => exact (readsOnly_failIf _ _).bind fun _ => readsOnly_pure _

theorem readsOnly_mayListTeamMembers (actor : Principal) (teamID : Text) :
    ReadsOnly (mayListTeamMembers actor teamID) :=
  (readsOnly_failIf _ _).bind fun _ => (readsOnly_select _ _).bind fun _ => readsOnly_failIf _ _

theorem readsOnly_mayListUsers (actor : Principal) : ReadsOnly (mayListUsers actor) := by
  refine (readsOnly_failIf _ _).bind fun _ => ?_
  split
  · exact readsOnly_pure _
  · exact readsOnly_select _ _

theorem readsOnly_listUsers (rt : Runtime) (actor : Principal) (all : Bool) :
    ReadsOnly (listUsers rt actor all) := by
  unfold listUsers
  split
  · exact readsOnly_select _ _
  · exact readsOnly_pure _

theorem readsOnly_listTeams (rt : Runtime) (actor : Principal) : ReadsOnly (listTeams rt actor) :=
  (readsOnly_failIf _ _).bind fun _ => readsOnly_select _ _

theorem readsOnly_principalUser (userID : Text) : ReadsOnly (principalUser userID) := by
  refine (readsOnly_select _ _).bind fun found => ?_
  cases found with
  | none => exact readsOnly_fail _
  | some u => exact readsOnly_pure _

/-! ## Runs -/

theorem runs_of_once {β : Type} {tx : Transaction β} {db db' : Db} {r : Option (Except Err Unit)}
    {P : Prop} (h : (Program.once tx).Runs db r db') (hok : ∀ b, tx.exec db = .ok (b, db') → P) :
    (P ∧ r = some (.ok ())) ∨ (r ≠ some (.ok ()) ∧ db' = db) := by
  rcases Program.runs_once.1 h with ⟨hr, b, hexec⟩ | ⟨hr, hdb, -⟩
  · exact Or.inl ⟨hok b hexec, hr⟩
  · exact Or.inr ⟨hr, hdb⟩

/-- Two queries. -/
theorem runs_of_queries {β γ : Type} {tx : Transaction β} {tx' : β → Transaction γ} {db db' : Db}
    {r : Option (Except Err Unit)}
    (h : (Program.transact tx fun b => Program.once (tx' b)).Runs db r db') (htx : ReadsOnly tx)
    (htx' : ∀ b, ReadsOnly (tx' b)) :
    (db' = db ∧ r = some (.ok ())) ∨ (r ≠ some (.ok ()) ∧ db' = db) := by
  cases h with
  | commit hexec hnext =>
    obtain rfl := htx _ _ _ hexec
    exact runs_of_once hnext fun b hb => htx' _ _ _ _ hb
  | rollback => exact Or.inr ⟨by simp, rfl⟩
  | fail => exact Or.inr ⟨by simp, rfl⟩

/-- What a call can come to. Only `UpdateTeam` can fail behind what it did. -/
theorem Call.runs_cases {rt : Runtime} {c : Call} {db db' : Db} {r : Option (Except Err Unit)}
    (h : (c.program rt).Runs db r db') :
    (c.Effect rt db db' ∧ (r = some (.ok ()) ∨ ∃ actor teamID name, c = .updateTeam actor teamID name)) ∨
      (r ≠ some (.ok ()) ∧ db' = db) := by
  have once {P : Prop} : (P ∧ r = some (.ok ())) ∨ (r ≠ some (.ok ()) ∧ db' = db) →
      (P ∧ (r = some (.ok ()) ∨ ∃ actor teamID name, c = .updateTeam actor teamID name)) ∨
        (r ≠ some (.ok ()) ∧ db' = db) := fun hcases => hcases.imp_left fun ⟨hP, hr⟩ => ⟨hP, Or.inl hr⟩
  cases c with
  | bootstrapAdmin userID salt username password =>
    exact once (runs_of_once h fun _ => bootstrapAdmin_ok)
  | createUser userID salt actor username displayName password role =>
    exact once (runs_of_once h fun _ => createUser_ok)
  | createTeam teamID actor name => exact once (runs_of_once h fun _ => createTeam_ok)
  | updateUser salt actor userID update => exact once (runs_of_once h fun _ => updateUser_ok)
  | deleteUser actor userID => exact once (runs_of_once h fun _ => deleteUser_ok)
  | updateTeam actor teamID name =>
    cases h with
    | commit hexec hnext =>
      refine Or.inl ⟨?_, Or.inr ⟨actor, teamID, name, rfl⟩⟩
      have heffect : (updateTeam actor teamID name).Effect rt db _ := updateTeamName_ok hexec
      -- the role is read from the pool, whether or not that query fails
      rcases runs_of_once (P := db' = _) hnext fun b hb => readsOnly_select _ _ _ _ _ hb with
        ⟨rfl, -⟩ | ⟨-, rfl⟩
      · exact heffect
      · exact heffect
    | rollback => exact Or.inr ⟨by simp, rfl⟩
    | fail => exact Or.inr ⟨by simp, rfl⟩
  | deleteTeam actor teamID => exact once (runs_of_once h fun _ => deleteTeam_ok)
  | addTeamMember actor teamID userID role => exact once (runs_of_once h fun _ => addTeamMember_ok)
  | setTeamMemberRole actor teamID userID role =>
    exact once (runs_of_once h fun _ => setTeamMemberRole_ok)
  | removeTeamMember actor teamID userID => exact once (runs_of_once h fun _ => removeTeamMember_ok)
  | setUserTeamMemberships guards deletes actor userID assignments =>
    exact once (runs_of_once h fun _ => setUserTeamMemberships_ok)
  | authenticate username password =>
    exact once (runs_of_once h fun _ => readsOnly_authenticate rt username password _ _ _)
  | listTeamMembers actor teamID =>
    exact once (runs_of_queries h (readsOnly_mayListTeamMembers actor teamID)
      fun _ => readsOnly_select _ _)
  | listUsers actor =>
    exact once (runs_of_queries h (readsOnly_mayListUsers actor)
      fun all => readsOnly_listUsers rt actor all)
  | listTeams actor => exact once (runs_of_once h fun _ => readsOnly_listTeams rt actor _ _ _)
  | principalForUser userID =>
    exact once (runs_of_queries h (readsOnly_principalUser userID) fun _ => readsOnly_select _ _)

/-! ## Histories -/

/-- The states that calls lead to, where each call meets a condition on the state before it. -/
def Reachable (rt : Runtime) (cond : Call → Db → Prop) : Db → Db → Prop :=
  Relation.ReflTransGen fun db db' => ∃ c r, cond c db ∧ (c.program rt).Runs db r db'

/-- The state behind calls in which the database does not fail. -/
def after (rt : Runtime) : List Call → Db → Db
  | [], db => db
  | c :: calls, db => after rt calls ((c.program rt).eval db).2

theorem reachable_after (rt : Runtime) (calls : List Call) (db : Db) :
    Reachable rt (fun _ _ => True) db (after rt calls db) := by
  induction calls generalizing db with
  | nil => exact Relation.ReflTransGen.refl
  | cons c calls ih =>
    exact Relation.ReflTransGen.head ⟨c, _, trivial, Program.runs_eval _ _⟩ (ih _)

/-- One more call in which the database does not fail. -/
theorem Reachable.call {rt : Runtime} {cond : Call → Db → Prop} {db db' : Db}
    (h : Reachable rt cond db db') {c : Call} (hcond : cond c db') :
    Reachable rt cond db ((c.program rt).eval db').2 :=
  Relation.ReflTransGen.tail h ⟨c, _, hcond, Program.runs_eval _ _⟩

/-- What every call keeps holds in every state reached. -/
theorem Reachable.induction {rt : Runtime} {cond : Call → Db → Prop} {P : Db → Prop}
    (hstep : ∀ c db db', P db → cond c db → c.Effect rt db db' → P db') {db db' : Db}
    (h : Reachable rt cond db db') (hP : P db) : P db' := by
  induction h with
  | refl => exact hP
  | tail _ hlast ih =>
    obtain ⟨c, r, hcond, hruns⟩ := hlast
    rcases Call.runs_cases hruns with ⟨heffect, -⟩ | ⟨-, rfl⟩
    · exact hstep c _ _ ih hcond heffect
    · exact ih

end Workbench.Identity
