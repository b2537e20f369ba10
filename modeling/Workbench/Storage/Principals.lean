import Workbench.Identity.Effects
import Workbench.Registry.Store

/-!
# Principals as they are loaded

The authentication loads the principal of a request from the users and the memberships
(`PrincipalForUser`); the registry and the log store then decide by the role that its team map gives.
-/

set_option autoImplicit false

namespace Workbench.Storage

open Workbench.Lib
open Workbench.Identity (Principal principalUser principalTeams exec_select exec_principalUser)

/-- `PrincipalForUser` gives this principal. -/
def Db.Loads (db : Db) (userID : Text) (p : Principal) : Prop :=
  (∃ db', (principalUser userID).exec db.identity = .ok (p.user, db')) ∧
    ∃ db', (principalTeams userID).exec db.identity = .ok (p.teams, db')

section

variable {db : Db} {userID : Text} {p : Principal}

theorem Db.Loads.user (h : db.Loads userID p) :
    ∃ u, db.users.lookup userID = some u ∧ p.user = u.toUser userID := by
  obtain ⟨⟨db', huser⟩, -⟩ := h
  exact (exec_principalUser.1 huser).1

theorem Db.Loads.id (h : db.Loads userID p) : p.user.id = userID := by
  obtain ⟨u, -, huser⟩ := h.user
  rw [huser]
  rfl

theorem Db.Loads.teams (h : db.Loads userID p) :
    p.teams = db.members.entries.filterMap fun e =>
      if e.1.2 = userID then some (e.1.1, e.2) else none := by
  obtain ⟨-, db', hteams⟩ := h
  obtain ⟨hanswer, -⟩ := exec_select.1 hteams
  exact (Except.ok.inj hanswer).symm

theorem Db.Loads.mem_teams (h : db.Loads userID p) {t : Text} {r : Identity.Role} :
    (t, r) ∈ p.teams ↔ db.members.lookup (t, userID) = some r := by
  rw [h.teams, List.mem_filterMap]
  constructor
  · rintro ⟨⟨⟨t', u⟩, r'⟩, hmem, heq⟩
    rw [Option.ite_none_right_eq_some] at heq
    obtain ⟨hu, heq⟩ := heq
    cases heq
    cases hu
    exact Table.mem_entries.1 hmem
  · intro hlookup
    exact ⟨⟨(t, userID), r⟩, Table.mem_entries.2 hlookup, if_pos rfl⟩

/-- The team map of a loaded principal gives the roles of the memberships. -/
theorem Db.Loads.teamRole (h : db.Loads userID p) (t : Text) :
    Registry.teamRole p t =
      match db.members.lookup (t, userID) with
      | some r => r.text
      | none => [] := by
  rw [Registry.teamRole]
  cases hfind : p.teams.find? fun a => a.1 = t with
  | none =>
    have hnone : db.members.lookup (t, userID) = none := by
      rw [Option.eq_none_iff_forall_ne_some]
      intro r hlookup
      have hne := List.find?_eq_none.1 hfind _ (h.mem_teams.2 hlookup)
      exact hne (by simp)
    rw [hnone]
  | some a =>
    obtain ⟨t', r⟩ := a
    have heq : t' = t := by simpa using List.find?_some hfind
    subst heq
    rw [h.mem_teams.1 (List.mem_of_find?_eq_some hfind)]

theorem role_text_ne_nil (r : Identity.Role) : r.text ≠ [] := by
  cases r with
  | member => exact List.cons_ne_nil _ _
  | admin => exact List.cons_ne_nil _ _

/-- A role is found exactly in the teams of the user. -/
theorem Db.Loads.teamRole_ne_nil (h : db.Loads userID p) {t : Text} :
    Registry.teamRole p t ≠ [] ↔ (db.members.lookup (t, userID)).isSome := by
  rw [h.teamRole]
  cases db.members.lookup (t, userID) with
  | none => simp
  | some r => simp [role_text_ne_nil]

end

end Workbench.Storage
