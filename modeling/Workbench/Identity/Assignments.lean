import Workbench.Identity.TeamAdmins

/-!
# The teams of a user

`SetUserTeamMemberships` succeeds exactly where the assignments are valid, the actor may make them, the
user and the teams exist and no team loses its last administrator; behind it the user has the memberships
that were given, and nothing else has changed.
-/

set_option autoImplicit false

namespace Workbench.Identity

open Workbench.Lib

/-- The membership that an assignment gives, once its two texts are trimmed. -/
def TeamAssignment.Gives (a : TeamAssignment) (teamID : Text) (role : Role) : Prop :=
  trimSpace a.teamID = teamID ∧ trimSpace a.role = role.text

/-- What `SetUserTeamMemberships` asks for. -/
structure MayAssign (db : Db) (actorID userID : Text) (assignments : List TeamAssignment) : Prop where
  named : ∀ a ∈ assignments, trimSpace a.teamID ≠ []
  distinct : (assignments.map fun a => trimSpace a.teamID).Nodup
  roles : ∀ a ∈ assignments, trimSpace a.role = "member".toList ∨ trimSpace a.role = "admin".toList
  actor : db.IsActiveAdmin actorID
  user : (db.users.lookup userID).isSome
  teams : ∀ a ∈ assignments, (db.teams.lookup (trimSpace a.teamID)).isSome
  admins : ∀ t, db.IsTeamAdmin t userID → (¬ ∃ a ∈ assignments, a.Gives t .admin) →
    db.OtherTeamAdmin t userID

/-! ## The assignments that are accepted -/

theorem normalizeAssignments_cons {a : TeamAssignment} {rest : List TeamAssignment} {seen : List Text}
    {normalized : List (Text × Role)} :
    normalizeAssignments (a :: rest) seen = .ok normalized ↔
      ∃ role tail, trimSpace a.role = role.text ∧ trimSpace a.teamID ≠ [] ∧ trimSpace a.teamID ∉ seen ∧
        normalizeAssignments rest (trimSpace a.teamID :: seen) = .ok tail ∧
          normalized = (trimSpace a.teamID, role) :: tail := by
  rw [normalizeAssignments]
  constructor
  · intro h
    cases hrole : Role.parse (trimSpace a.role) with
    | none => simp [hrole] at h
    | some role =>
      simp only [hrole, guard_eq_ok, not_or] at h
      obtain ⟨⟨hnamed, hnew⟩, h⟩ := h
      cases hrest : normalizeAssignments rest (trimSpace a.teamID :: seen) with
      | error e => simp [hrest, Except.map] at h
      | ok tail =>
        rw [hrest] at h
        cases h
        exact ⟨role, tail, Role.parse_eq_some.1 hrole, hnamed, hnew, rfl, rfl⟩
  · rintro ⟨role, tail, hrole, hnamed, hnew, hrest, rfl⟩
    simp only [Role.parse_eq_some.2 hrole, guard_eq_ok, not_or, hrest]
    exact ⟨⟨hnamed, hnew⟩, rfl⟩

/-- What is accepted, and as what. `seen` are the teams that came before. -/
theorem normalizeAssignments_iff {assignments : List TeamAssignment} {seen : List Text}
    {normalized : List (Text × Role)} :
    normalizeAssignments assignments seen = .ok normalized ↔
      (assignments.map fun a => (trimSpace a.teamID, trimSpace a.role)) =
          (normalized.map fun n => (n.1, n.2.text)) ∧
        (∀ a ∈ assignments, trimSpace a.teamID ≠ []) ∧
        (assignments.map fun a => trimSpace a.teamID).Nodup ∧
        ∀ a ∈ assignments, trimSpace a.teamID ∉ seen := by
  induction assignments generalizing seen normalized with
  | nil =>
    cases normalized with
    | nil => simp [normalizeAssignments]
    | cons n tail => simp [normalizeAssignments]
  | cons a rest ih =>
    rw [normalizeAssignments_cons]
    simp only [ih, List.map_cons, List.nodup_cons, List.forall_mem_cons]
    constructor
    · rintro ⟨role, tail, hrole, hnamed, hnew, ⟨hmap, hnameds, hnodup, hseen⟩, rfl⟩
      refine ⟨by rw [hmap, hrole, List.map_cons], ⟨hnamed, hnameds⟩, ⟨?_, hnodup⟩, hnew, ?_⟩
      · rw [List.mem_map]
        rintro ⟨b, hb, heq⟩
        exact hseen b hb (heq ▸ List.mem_cons_self)
      · exact fun b hb hmem => hseen b hb (List.mem_cons_of_mem _ hmem)
    · rintro ⟨hmap, ⟨hnamed, hnameds⟩, ⟨hfresh, hnodup⟩, hnew, hseen⟩
      cases normalized with
      | nil => cases hmap
      | cons n tail =>
        rw [List.map_cons, List.cons.injEq, Prod.mk.injEq] at hmap
        obtain ⟨⟨hteam, hrole⟩, hmap⟩ := hmap
        refine ⟨n.2, tail, hrole, hnamed, hnew, ⟨hmap, hnameds, hnodup, fun b hb hmem => ?_⟩, by rw [hteam]⟩
        rcases List.mem_cons.1 hmem with heq | hmem
        · exact hfresh (List.mem_map.2 ⟨b, hb, heq⟩)
        · exact hseen b hb hmem

/-- Valid assignments are accepted. -/
theorem normalizeAssignments_exists {assignments : List TeamAssignment}
    (hnamed : ∀ a ∈ assignments, trimSpace a.teamID ≠ [])
    (hdistinct : (assignments.map fun a => trimSpace a.teamID).Nodup)
    (hroles : ∀ a ∈ assignments, trimSpace a.role = "member".toList ∨
      trimSpace a.role = "admin".toList) :
    ∃ normalized, normalizeAssignments assignments [] = .ok normalized := by
  have hparsed : ∃ normalized : List (Text × Role),
      (assignments.map fun a => (trimSpace a.teamID, trimSpace a.role)) =
        normalized.map fun n => (n.1, n.2.text) := by
    clear hnamed hdistinct
    induction assignments with
    | nil => exact ⟨[], rfl⟩
    | cons a rest ih =>
      obtain ⟨tail, htail⟩ := ih fun b hb => hroles b (List.mem_cons_of_mem a hb)
      rcases hroles a List.mem_cons_self with hrole | hrole
      · exact ⟨(trimSpace a.teamID, .member) :: tail, by simp [htail, hrole, Role.text]⟩
      · exact ⟨(trimSpace a.teamID, .admin) :: tail, by simp [htail, hrole, Role.text]⟩
  obtain ⟨normalized, hmap⟩ := hparsed
  exact ⟨normalized, normalizeAssignments_iff.2 ⟨hmap, hnamed, hdistinct, by simp⟩⟩

theorem text_injective {r r' : Role} (h : r.text = r'.text) : r = r' := by
  cases r with
  | member => cases r' with
    | member => rfl
    | admin => cases h
  | admin => cases r' with
    | member => cases h
    | admin => rfl

theorem desiredRole_iff {l : List (Text × Role)} (hnodup : (l.map Prod.fst).Nodup) {t : Text}
    {r : Role} : desiredRole l t = some r ↔ (t, r) ∈ l := by
  induction l with
  | nil => simp [desiredRole]
  | cons a l ih =>
    rw [List.map_cons, List.nodup_cons] at hnodup
    rw [desiredRole_cons, List.mem_cons, ← ih hnodup.2]
    by_cases ht : a.1 = t
    · have hnone : desiredRole l t = none := desiredRole_eq_none (ht ▸ hnodup.1)
      rw [if_pos ht, hnone]
      constructor
      · intro hr
        exact Or.inl (Prod.ext ht.symm (Option.some.inj hr).symm)
      · rintro (heq | hr)
        · rw [← heq]
        · cases hr
    · rw [if_neg ht]
      refine (or_iff_right fun heq => ht ?_).symm
      rw [← heq]

/-- The roles that the accepted assignments give. -/
theorem desiredRole_eq_some {assignments : List TeamAssignment} {normalized : List (Text × Role)}
    (h : normalizeAssignments assignments [] = .ok normalized) {t : Text} {r : Role} :
    desiredRole normalized t = some r ↔ ∃ a ∈ assignments, a.Gives t r := by
  obtain ⟨hmap, -, -, -⟩ := normalizeAssignments_iff.1 h
  rw [desiredRole_iff (normalizeAssignments_nodup h).1]
  -- both lists give the same texts
  have htexts : (t, r.text) ∈ (normalized.map fun n => (n.1, n.2.text)) ↔ (t, r) ∈ normalized := by
    rw [List.mem_map]
    constructor
    · rintro ⟨⟨t', r'⟩, hmem, heq⟩
      obtain ⟨rfl, hr⟩ := Prod.mk.inj heq
      rwa [← text_injective hr]
    · exact fun hmem => ⟨(t, r), hmem, rfl⟩
  rw [← htexts, ← hmap, List.mem_map]
  constructor
  · rintro ⟨a, ha, heq⟩
    obtain ⟨hteam, hrole⟩ := Prod.mk.inj heq
    exact ⟨a, ha, hteam, hrole⟩
  · rintro ⟨a, ha, hteam, hrole⟩
    exact ⟨a, ha, by rw [hteam, hrole]⟩

/-! ## The loops -/

section

variable {userID : Text}

/-- The deletions go through. -/
theorem deleteMemberships_exists (db : Db) (normalized : List (Text × Role)) (current : List (Text × Role)) :
    ∃ db', (current.forM fun (teamID, _) =>
      runIf (desiredRole normalized teamID = none) (Tx.perform (deleteMember teamID userID))).exec db =
        .ok (⟨⟩, db') := by
  induction current generalizing db with
  | nil => exact ⟨db, rfl⟩
  | cons a current ih =>
    have hone : ∃ mid, (runIf (desiredRole normalized a.1 = none)
        (Tx.perform (deleteMember a.1 userID))).exec db = .ok ((), mid) := by
      rw [runIf]
      split
      · exact ⟨_, exec_alterMembers.2 rfl⟩
      · exact ⟨db, rfl⟩
    obtain ⟨mid, hone⟩ := hone
    obtain ⟨db', hrest⟩ := ih mid
    exact ⟨db', Tx.exec_bind_ok.2 ⟨⟨⟩, mid, hone, hrest⟩⟩

theorem upsertMember_iff {operation teamID : Text} {role : Role} {n : Nat} {db db' : Db} :
    (Tx.perform (upsertMember operation teamID userID role.text)).exec db = .ok (n, db') ↔
      n = 1 ∧ (db.teams.lookup teamID).isSome ∧ (db.users.lookup userID).isSome ∧
        db' = { db with members := db.members.insert (teamID, userID) role } := by
  constructor
  · intro h
    obtain ⟨hnot, -⟩ | ⟨-, hn, r, hr, hteam, huser, -, hdb'⟩ := putMember_ok h
    · cases hnot
    · cases Option.some.inj ((Role.parse_text role).symm.trans hr)
      exact ⟨hn, hteam, huser, hdb'⟩
  · rintro ⟨rfl, hteam, huser, rfl⟩
    refine Tx.exec_perform_ok.2 ⟨?_, ?_⟩
    · have hnone : memberViolation db teamID userID role.text false = none := by
        simp [memberViolation, Role.parse_text, Option.isSome_iff_ne_none.1 hteam,
          Option.isSome_iff_ne_none.1 huser]
      simp [upsertMember, putMember, hnone]
    · simp [upsertMember, putMember, Role.parse_text]

/-- The insertions go through if all teams exist. -/
theorem upsertMemberships_iff {operation : Text} {normalized : List (Text × Role)} (db : Db)
    (huser : (db.users.lookup userID).isSome) :
    (∃ db', (normalized.forM fun (teamID, role) => do
      let _ ← Tx.perform (upsertMember operation teamID userID role.text)).exec db = .ok (⟨⟩, db')) ↔
      ∀ n ∈ normalized, (db.teams.lookup n.1).isSome := by
  induction normalized generalizing db with
  | nil => exact iff_of_true ⟨db, rfl⟩ (by simp)
  | cons a normalized ih =>
    rw [List.forall_mem_cons]
    simp only [List.forM, Tx.exec_bind_ok]
    constructor
    · rintro ⟨db', ⟨⟩, mid, ⟨n, mid', hone, hend⟩, hrest⟩
      obtain ⟨-, rfl⟩ := Tx.exec_pure_ok.1 hend
      obtain ⟨-, hteam, -, rfl⟩ := upsertMember_iff.1 hone
      have hteams := ih { db with members := db.members.insert (a.1, userID) a.2 } huser
      exact ⟨hteam, hteams.1 ⟨db', hrest⟩⟩
    · rintro ⟨hteam, hteams⟩
      obtain ⟨db', hrest⟩ :=
        (ih { db with members := db.members.insert (a.1, userID) a.2 } huser).2 hteams
      exact ⟨db', ⟨⟩, _, ⟨1, _, upsertMember_iff.2 ⟨rfl, hteam, huser, rfl⟩,
        Tx.exec_pure_ok.2 ⟨rfl, rfl⟩⟩, hrest⟩

end

/-! ## The function -/

section

variable {db db' : Db} {guards deletes : MapOrder} {actor : Principal} {userID : Text}
  {assignments : List TeamAssignment}

/-- The current memberships that the transaction reads. -/
theorem exec_memberships_exists (db : Db) (userID : Text) :
    ∃ current, (Tx.perform (memberships userID)).exec db = .ok (current, db) :=
  ⟨_, exec_selectForUpdate.2 ⟨rfl, rfl⟩⟩

theorem mayAssign_of_ok
    (h : (setUserTeamMemberships guards deletes actor userID assignments).exec db = .ok ((), db')) :
    MayAssign db actor.user.id userID assignments := by
  obtain ⟨-, -, -, normalized, hnormal, hadmins, -⟩ := setUserTeamMemberships_ok h
  rw [setUserTeamMemberships] at h
  simp only [Tx.exec_bind_ok] at h
  obtain ⟨normalized', db₁, hnormalized, ⟨⟩, db₂, hauth, b, db₃, htarget, ⟨⟩, db₄, hfound, current, db₅,
    hcurrent, ⟨⟩, db₆, hguards, ⟨⟩, db₇, hdeletes, hupserts⟩ := h
  obtain ⟨hnormal', rfl⟩ := Tx.exec_done_ok.1 hnormalized
  cases hnormal.symm.trans hnormal'
  obtain ⟨hactive, rfl⟩ := exec_authorizeSystemAdmin.1 hauth
  obtain ⟨rfl, rfl⟩ := exec_targetExists.1 htarget
  obtain ⟨huser, rfl⟩ := exec_failIf.1 hfound
  rw [Bool.not_eq_false] at huser
  obtain ⟨-, rfl⟩ := exec_memberships hcurrent
  obtain ⟨-, rfl⟩ := (Tx.exec_forM_guards
    (P := fun a db => a.2 = .admin ∧ desiredRole normalized a.1 ≠ some .admin →
      db.OtherTeamAdmin a.1 userID)
    (fun _ _ _ => exec_runIf fun _ => exec_ensureAnotherTeamAdmin) _ _ _).1 hguards
  obtain ⟨husers, hteams, -⟩ := deleteMemberships_ok hdeletes
  obtain ⟨hmap, hnamed, hdistinct, -⟩ := normalizeAssignments_iff.1 hnormal
  -- each assignment stands for one of the accepted ones
  have hmem : ∀ a ∈ assignments, ∃ n ∈ normalized, trimSpace a.teamID = n.1 ∧
      trimSpace a.role = n.2.text := by
    intro a ha
    have hpair := List.mem_map_of_mem (f := fun a : TeamAssignment =>
      (trimSpace a.teamID, trimSpace a.role)) ha
    rw [hmap] at hpair
    obtain ⟨n, hn, heq⟩ := List.mem_map.1 hpair
    exact ⟨n, hn, (Prod.mk.inj heq).1.symm, (Prod.mk.inj heq).2.symm⟩
  refine ⟨hnamed, hdistinct, fun a ha => ?_, hactive, huser, fun a ha => ?_, fun t ht hnot => ?_⟩
  · obtain ⟨n, -, -, hrole⟩ := hmem a ha
    rw [hrole]
    cases n.2 with
    | member => exact Or.inl rfl
    | admin => exact Or.inr rfl
  · obtain ⟨n, hn, hteam, -⟩ := hmem a ha
    have hall := (upsertMemberships_iff db₇ (by rw [husers]; exact huser)).1 ⟨db', hupserts⟩
    rw [hteam, ← hteams]
    exact hall n hn
  · exact hadmins t ht fun hadmin => hnot ((desiredRole_eq_some hnormal).1 hadmin)

theorem ok_of_mayAssign (h : MayAssign db actor.user.id userID assignments) :
    ∃ db', (setUserTeamMemberships guards deletes actor userID assignments).exec db = .ok ((), db') := by
  obtain ⟨normalized, hnormal⟩ := normalizeAssignments_exists h.named h.distinct h.roles
  obtain ⟨current, hcurrent⟩ := exec_memberships_exists db userID
  obtain ⟨hcur, -⟩ := exec_memberships hcurrent
  obtain ⟨db₁, hdeletes⟩ := deleteMemberships_exists db normalized (deletes.order current)
  obtain ⟨husers, hteams, -⟩ := deleteMemberships_ok hdeletes
  obtain ⟨hmap, -, -, -⟩ := normalizeAssignments_iff.1 hnormal
  have hlisted : ∀ n ∈ normalized, (db₁.teams.lookup n.1).isSome := by
    intro n hn
    have hpair := List.mem_map_of_mem (f := fun n : Text × Role => (n.1, n.2.text)) hn
    rw [← hmap] at hpair
    obtain ⟨a, ha, heq⟩ := List.mem_map.1 hpair
    rw [hteams, ← (Prod.mk.inj heq).1]
    exact h.teams a ha
  obtain ⟨db', hupserts⟩ := (upsertMemberships_iff db₁ (by rw [husers]; exact h.user)).2 hlisted
  refine ⟨db', ?_⟩
  rw [setUserTeamMemberships]
  simp only [Tx.exec_bind_ok]
  refine ⟨normalized, db, Tx.exec_done_ok.2 ⟨hnormal, rfl⟩, (), db,
    exec_authorizeSystemAdmin.2 ⟨h.actor, rfl⟩, true, db, exec_targetExists.2 ⟨h.user.symm, rfl⟩, (), db,
    exec_failIf.2 ⟨by simp, rfl⟩, current, db, hcurrent, (), db, ?_, (), db₁, hdeletes, hupserts⟩
  refine (Tx.exec_forM_guards
    (P := fun a db => a.2 = .admin ∧ desiredRole normalized a.1 ≠ some .admin →
      db.OtherTeamAdmin a.1 userID)
    (fun _ _ _ => exec_runIf fun _ => exec_ensureAnotherTeamAdmin) _ _ _).2 ⟨?_, rfl⟩
  rintro ⟨t, role⟩ hmem ⟨rfl, hnot⟩
  have hadmin := (hcur t .admin).1 ((guards.perm current).mem_iff.1 hmem)
  exact h.admins t hadmin fun hgiven => hnot ((desiredRole_eq_some hnormal).2 hgiven)

end

/-- `SetUserTeamMemberships` succeeds if and only if the assignments may be made. Behind it the user has
the memberships that they give, with their spaces trimmed, and no other; if it fails nothing has
changed. -/
theorem setUserTeamMemberships_exact (rt : Runtime) (guards deletes : MapOrder) (actor : Principal)
    (userID : Text) (assignments : List TeamAssignment) (db : Db) :
    ((((Call.setUserTeamMemberships guards deletes actor userID assignments).program rt).eval db).1 =
        .ok () ↔ MayAssign db actor.user.id userID assignments) ∧
      ∀ r db', ((Call.setUserTeamMemberships guards deletes actor userID assignments).program rt).Runs
          db r db' →
        (r = some (.ok ()) →
          (∀ t role, db'.members.lookup (t, userID) = some role ↔
            ∃ a ∈ assignments, a.Gives t role) ∧
          ∀ t u, u ≠ userID → db'.members.lookup (t, u) = db.members.lookup (t, u)) ∧
        (r ≠ some (.ok ()) → db' = db) := by
  refine ⟨⟨fun hok => ?_, fun hmay => ?_⟩, fun r db' hruns => ⟨?_, fun hfailed => ?_⟩⟩
  · have hruns := Program.runs_eval
      ((Call.setUserTeamMemberships guards deletes actor userID assignments).program rt) db
    rcases Program.runs_once.1 hruns with ⟨-, ⟨⟩, hexec⟩ | ⟨hfailed, -⟩
    · exact mayAssign_of_ok hexec
    · exact absurd (congrArg some hok) hfailed
  · obtain ⟨db', hexec⟩ := ok_of_mayAssign hmay
    rw [Call.program, Program.once, Program.eval, hexec]
    rfl
  · rintro rfl
    rcases Call.runs_cases hruns with ⟨heffect, -⟩ | ⟨hfailed, -⟩
    · obtain ⟨-, -, -, normalized, hnormal, -, hmembers⟩ := heffect
      refine ⟨fun t role => ?_, fun t u hu => ?_⟩
      · rw [hmembers, if_pos rfl]
        exact desiredRole_eq_some hnormal
      · rw [hmembers, if_neg hu]
    · exact absurd rfl hfailed
  · rcases Call.runs_cases hruns with ⟨-, hok | ⟨_, _, _, hupdate⟩⟩ | ⟨-, hdb⟩
    · exact absurd hok hfailed
    · cases hupdate
    · exact hdb

/-- A role with a space in front of it is accepted. -/
theorem setUserTeamMemberships_trims_roles :
    ∃ db guards deletes actor userID, ∃ assignments : List TeamAssignment,
      Reachable default (fun _ _ => True) Db.empty db ∧
        (((Call.setUserTeamMemberships guards deletes actor userID assignments).program
          default).eval db).1 = .ok () ∧
        ¬ ∀ a ∈ assignments, a.role = "member".toList ∨ a.role = "admin".toList := by
  refine ⟨_, ⟨id, List.Perm.refl⟩, ⟨id, List.Perm.refl⟩, rootPrincipal, rootPrincipal.user.id,
    [⟨"team_a".toList, " admin".toList⟩], reachable_after default firstTeam Db.empty, rfl, ?_⟩
  simp

end Workbench.Identity
