import Workbench.Logs.Store
import Workbench.Registry.Secrets

/-!
# Lists agree with access

Each rule of access is there twice: as a `WHERE` over the membership table, and as Go code over the team
map of the principal. For a principal that was loaded from the state both say the same.
-/

set_option autoImplicit false

namespace Workbench.Storage

open Workbench.Lib
open Workbench.Identity (Principal)
open Workbench.Registry (isSystemAdmin teamRole connectionOf)

theorem personal_ne_team : "personal".toList ≠ "team".toList := by decide

section

variable {db : Db} {userID : Text} {p : Principal}

/-- The membership that the `WHERE` asks for. -/
theorem anyMember_iff (h : db.Loads userID p) {t : Text} :
    (db.members.any fun id _ => some t = some id.1 && id.2 = p.user.id) = true ↔
      teamRole p t ≠ [] := by
  rw [h.teamRole_ne_nil, Table.any_iff, h.id]
  constructor
  · rintro ⟨⟨t', u⟩, r, hlookup, hp⟩
    rw [Bool.and_eq_true, decide_eq_true_eq, decide_eq_true_eq, Option.some.injEq] at hp
    obtain ⟨rfl, rfl⟩ := hp
    rw [hlookup]
    rfl
  · intro hsome
    obtain ⟨r, hr⟩ := Option.isSome_iff_exists.1 hsome
    exact ⟨(t, userID), r, hr, by simp⟩

theorem cases_iff {s a b : Text} {x y : Bool} :
    (s = a && x || s = b && y) = true ↔ s = a ∧ x = true ∨ s = b ∧ y = true := by
  simp

/-- The `WHERE` of both stores. -/
theorem owner_visible_iff (h : db.Loads userID p) (owner : Owner) :
    (owner.scope = "personal".toList && owner.ownerUserID = some p.user.id ||
      owner.scope = "team".toList && (isSystemAdmin p ||
        db.members.any fun id _ => owner.teamID = some id.1 && id.2 = p.user.id)) = true ↔
      match owner with
      | .personal user => user = p.user.id
      | .team t => isSystemAdmin p = true ∨ teamRole p t ≠ [] := by
  rw [cases_iff]
  cases owner with
  | personal user =>
    constructor
    · rintro (⟨-, huser⟩ | ⟨hscope, -⟩)
      · exact Option.some.inj (of_decide_eq_true huser)
      · exact absurd hscope personal_ne_team
    · rintro rfl
      exact Or.inl ⟨rfl, decide_eq_true rfl⟩
  | team t =>
    have hany := anyMember_iff h (t := t)
    constructor
    · rintro (⟨hscope, -⟩ | ⟨-, hmember⟩)
      · exact absurd hscope personal_ne_team.symm
      · exact (Bool.or_eq_true_iff.1 hmember).imp_right hany.1
    · intro hmember
      exact Or.inr ⟨rfl, Bool.or_eq_true_iff.2 (hmember.imp_right hany.2)⟩

/-! ## Connections -/

theorem connectionOf_personal (id : Text) {row : ConnectionRow} {user : Text}
    (h : row.owner = .personal user) :
    (connectionOf id row).scope = "personal".toList ∧ (connectionOf id row).ownerUserID = user := by
  rw [connectionOf, h]
  exact ⟨rfl, rfl⟩

theorem connectionOf_team (id : Text) {row : ConnectionRow} {t : Text} (h : row.owner = .team t) :
    (connectionOf id row).scope = "team".toList ∧ (connectionOf id row).teamID = t := by
  rw [connectionOf, h]
  exact ⟨rfl, rfl⟩

/-- `authorizeUse` for an owner. -/
theorem authorizeUse_iff (henabled : p.user.disabled = false) {id : Text} {row : ConnectionRow} :
    Registry.authorizeUse p (connectionOf id row) = .ok () ↔
      match row.owner with
      | .personal user => user = p.user.id
      | .team t => isSystemAdmin p = true ∨ teamRole p t ≠ [] := by
  rw [Registry.authorizeUse, henabled]
  cases howner : row.owner with
  | personal user =>
    obtain ⟨hscope, huser⟩ := connectionOf_personal id howner
    rw [if_pos hscope, huser]
    by_cases hsame : user = p.user.id
    · simp [hsame]
    · simp [hsame]
  | team t =>
    obtain ⟨hscope, hteam⟩ := connectionOf_team id howner
    rw [if_neg (fun heq => personal_ne_team (heq.symm.trans hscope)), if_pos hscope, hteam]
    by_cases hallowed : isSystemAdmin p = true ∨ teamRole p t ≠ []
    · rw [if_pos ⟨rfl, hallowed⟩]
      exact iff_of_true rfl hallowed
    · rw [if_neg fun hboth => hallowed hboth.2]
      exact iff_of_false (by simp) hallowed

/-- `List` without filters gives the connections that the principal may use. -/
theorem mem_list_iff (rt : Registry.Runtime) (h : db.Loads userID p)
    (henabled : p.user.disabled = false) {c : Registry.Connection} :
    c ∈ Registry.list rt p [] [] db ↔ ∃ id row, db.connections.lookup id = some row ∧
      c = connectionOf id row ∧ Registry.authorizeUse p c = .ok () := by
  have hlisted : ∀ row, Registry.listed p [] [] db row = true ↔
      match row.owner with
      | .personal user => user = p.user.id
      | .team t => isSystemAdmin p = true ∨ teamRole p t ≠ [] := by
    intro row
    rw [Registry.listed, ← owner_visible_iff h row.owner]
    simp only [decide_true, Bool.true_or, Bool.and_true]
  rw [Registry.list, List.mem_mergeSort, List.mem_map]
  constructor
  · rintro ⟨⟨id, row⟩, hmem, rfl⟩
    obtain ⟨hentry, hvisible⟩ := List.mem_filter.1 hmem
    refine ⟨id, row, Table.mem_entries.1 hentry, rfl, ?_⟩
    exact (authorizeUse_iff henabled).2 ((hlisted row).1 hvisible)
  · rintro ⟨id, row, hrow, rfl, huse⟩
    refine ⟨⟨id, row⟩, List.mem_filter.2 ⟨Table.mem_entries.2 hrow, ?_⟩, rfl⟩
    exact (hlisted row).2 ((authorizeUse_iff henabled).1 huse)

theorem list_nodup (rt : Registry.Runtime) (kind scope : Text) :
    ((Registry.list rt p kind scope db).map Registry.Connection.id).Nodup := by
  rw [Registry.list, ((List.mergeSort_perm _ _).map _).nodup_iff, List.map_map]
  exact db.connections.keysWhere_nodup fun _ row => Registry.listed p kind scope db row

theorem authorizeUse_of_mutation {c : Registry.Connection}
    (h : Registry.authorizeMutation p c = .ok ()) : Registry.authorizeUse p c = .ok () := by
  rw [Registry.authorizeMutation] at h
  rw [Registry.authorizeUse]
  by_cases hpersonal : c.scope = "personal".toList
  · rw [if_pos hpersonal] at h ⊢
    exact h
  · rw [if_neg hpersonal] at h ⊢
    by_cases hteam : c.scope = "team".toList
    · rw [if_pos hteam] at h ⊢
      split at h
      · next hallowed =>
          have hrole : teamRole p c.teamID = "admin".toList → teamRole p c.teamID ≠ [] := by
            intro hadmin
            rw [hadmin]
            exact List.cons_ne_nil _ _
          exact if_pos ⟨hallowed.1, hallowed.2.imp_right hrole⟩
      · cases h
    · rw [if_neg hteam] at h
      cases h

/-! ## Log sessions -/

/-- The two ways to count the files of a session. -/
theorem joined_eq (id : Text) (row : LogSessionRow) :
    Logs.joined db id row = Logs.sessionOf id row (Logs.filesOf db id).length
      ((Logs.filesOf db id).map fun f => f.2.serviceName).dedup.length := by
  have hnodup : ((Logs.filesOf db id).map Sigma.fst).Nodup :=
    db.logFiles.keysWhere_nodup fun _ f => f.sessionID = id
  rw [Logs.joined, hnodup.dedup, List.length_map]

theorem loadSession_iff {id : Text} {session : Logs.Session} :
    Logs.loadSession id db = .ok session ↔
      ∃ row, db.logSessions.lookup id = some row ∧ session = Logs.joined db id row := by
  rw [Logs.loadSession]
  cases hlookup : db.logSessions.lookup id with
  | none => simp
  | some row =>
    rw [Except.ok.injEq, ← joined_eq]
    constructor
    · rintro rfl
      exact ⟨row, rfl, rfl⟩
    · rintro ⟨row', hrow, rfl⟩
      rw [Option.some.inj hrow]

/-- What a principal may do with a session of an owner. -/
def MayAccess (p : Principal) (write : Bool) : Owner → Prop
  | .personal user => user = p.user.id
  | .team t => isSystemAdmin p = true ∨
      (write = true ∧ teamRole p t = "admin".toList ∨ write = false ∧ teamRole p t ≠ [])

theorem ite_ok_iff {ε α : Type} {P : Prop} [Decidable P] {a b : α} {e : ε} :
    (if P then Except.ok a else .error e) = Except.ok b ↔ b = a ∧ P := by
  split
  · next hP => rw [Except.ok.injEq, eq_comm, and_iff_left hP]
  · next hP => exact iff_of_false (by simp) fun hboth => hP hboth.2

theorem access_iff {id : Text} {write : Bool} {row : LogSessionRow} {session : Logs.Session} :
    Logs.access p write (Logs.joined db id row) = .ok session ↔
      session = Logs.joined db id row ∧ MayAccess p write row.owner := by
  rw [Logs.access]
  cases howner : row.owner with
  | personal user =>
    have hscope : (Logs.joined db id row).scope = "personal".toList := by
      rw [Logs.joined, Logs.sessionOf, howner]
      rfl
    have huser : (Logs.joined db id row).ownerUserID = user := by
      rw [Logs.joined, Logs.sessionOf, howner]
      rfl
    rw [if_pos hscope, huser, MayAccess, ite_ok_iff]
  | team t =>
    have hscope : (Logs.joined db id row).scope = "team".toList := by
      rw [Logs.joined, Logs.sessionOf, howner]
      rfl
    have hteam : (Logs.joined db id row).teamID = t := by
      rw [Logs.joined, Logs.sessionOf, howner]
      rfl
    rw [if_neg (fun heq => personal_ne_team (heq.symm.trans hscope)), if_pos hscope, hteam,
      MayAccess]
    -- The team's role is compared with the name, whatever text that is.
    generalize "admin".toList = admin
    cases isSystemAdmin p with
    | true =>
      rw [if_pos rfl, Except.ok.injEq, eq_comm]
      exact (and_iff_left (Or.inl rfl)).symm
    | false =>
      rw [if_neg Bool.false_ne_true]
      cases write with
      | true =>
        rw [if_pos rfl, ite_ok_iff]
        simp
      | false =>
        rw [if_neg Bool.false_ne_true, ite_ok_iff]
        simp

/-- `authorize` gives the session that the list joins. -/
theorem authorize_iff (henabled : p.user.disabled = false) {id : Text} {write : Bool}
    {session : Logs.Session} :
    Logs.authorize p id write db = .ok session ↔
      ∃ row, db.logSessions.lookup id = some row ∧ session = Logs.joined db id row ∧
        MayAccess p write row.owner := by
  rw [Logs.authorize, henabled, if_neg Bool.false_ne_true, bind_eq_ok]
  constructor
  · rintro ⟨loaded, hload, h⟩
    obtain ⟨row, hrow, rfl⟩ := loadSession_iff.1 hload
    exact ⟨row, hrow, access_iff.1 h⟩
  · rintro ⟨row, hrow, h⟩
    exact ⟨_, loadSession_iff.2 ⟨row, hrow, rfl⟩, access_iff.2 h⟩

theorem authorize_read_of_write {id : Text} {session : Logs.Session}
    (h : Logs.authorize p id true db = .ok session) :
    Logs.authorize p id false db = .ok session := by
  cases hdisabled : p.user.disabled with
  | true =>
    rw [Logs.authorize, hdisabled, if_pos rfl] at h
    cases h
  | false =>
    obtain ⟨row, hrow, hsession, hmay⟩ := (authorize_iff hdisabled).1 h
    refine (authorize_iff hdisabled).2 ⟨row, hrow, hsession, ?_⟩
    cases howner : row.owner with
    | personal user =>
      rw [howner] at hmay
      exact hmay
    | team t =>
      rw [howner] at hmay
      refine hmay.imp_right fun hrole => Or.inr ⟨rfl, ?_⟩
      rcases hrole with ⟨-, hadmin⟩ | ⟨hnot, -⟩
      · rw [hadmin]
        exact List.cons_ne_nil _ _
      · cases hnot

/-- `ListSessions` gives the sessions that the principal may read. -/
theorem mem_listSessions_iff (h : db.Loads userID p) (henabled : p.user.disabled = false)
    {sessions : List Logs.Session} (hlist : Logs.listSessions p db = .ok sessions)
    {session : Logs.Session} :
    session ∈ sessions ↔ ∃ id, Logs.authorize p id false db = .ok session := by
  rw [Logs.listSessions, henabled, if_neg Bool.false_ne_true] at hlist
  cases hlist
  have hlisted : ∀ row, Logs.listed p db row = true ↔ MayAccess p false row.owner := by
    intro row
    rw [Logs.listed, owner_visible_iff h row.owner]
    cases row.owner with
    | personal user => exact Iff.rfl
    | team t => simp [MayAccess]
  rw [List.mem_mergeSort, List.mem_map]
  constructor
  · rintro ⟨⟨id, row⟩, hmem, rfl⟩
    obtain ⟨hentry, hvisible⟩ := List.mem_filter.1 hmem
    exact ⟨id, (authorize_iff henabled).2
      ⟨row, Table.mem_entries.1 hentry, rfl, (hlisted row).1 hvisible⟩⟩
  · rintro ⟨id, hauthorized⟩
    obtain ⟨row, hrow, rfl, hmay⟩ := (authorize_iff henabled).1 hauthorized
    exact ⟨⟨id, row⟩, List.mem_filter.2 ⟨Table.mem_entries.2 hrow, (hlisted row).2 hmay⟩, rfl⟩

theorem listSessions_nodup {sessions : List Logs.Session}
    (hlist : Logs.listSessions p db = .ok sessions) : (sessions.map Logs.Session.id).Nodup := by
  rw [Logs.listSessions, guard_eq_ok, Except.ok.injEq] at hlist
  rw [← hlist.2, ((List.mergeSort_perm _ _).map _).nodup_iff, List.map_map]
  exact db.logSessions.keysWhere_nodup fun _ row => Logs.listed p db row

end

/-- For every enabled principal that the state loads, the lists are what the principal may use or read,
each row once; who may change a connection may use it, and who may write a session may read it. -/
theorem lists_agree_with_access (rt : Registry.Runtime) (db : Db) (userID : Text) (p : Principal)
    (h : db.Loads userID p) (henabled : p.user.disabled = false) :
    ((∀ c, c ∈ Registry.list rt p [] [] db ↔ ∃ id row, db.connections.lookup id = some row ∧
        c = connectionOf id row ∧ Registry.authorizeUse p c = .ok ()) ∧
      ((Registry.list rt p [] [] db).map Registry.Connection.id).Nodup) ∧
    (∃ sessions, Logs.listSessions p db = .ok sessions ∧
      (∀ session, session ∈ sessions ↔ ∃ id, Logs.authorize p id false db = .ok session) ∧
      (sessions.map Logs.Session.id).Nodup) ∧
    (∀ c, Registry.authorizeMutation p c = .ok () → Registry.authorizeUse p c = .ok ()) ∧
    ∀ id session, Logs.authorize p id true db = .ok session →
      Logs.authorize p id false db = .ok session := by
  have hsessions : ∃ sessions, Logs.listSessions p db = .ok sessions := by
    rw [Logs.listSessions, henabled, if_neg Bool.false_ne_true]
    exact ⟨_, rfl⟩
  obtain ⟨sessions, hlist⟩ := hsessions
  refine ⟨⟨fun c => mem_list_iff rt h henabled, list_nodup rt [] []⟩, ⟨sessions, hlist, ?_, ?_⟩, ?_, ?_⟩
  · exact fun session => mem_listSessions_iff h henabled hlist
  · exact listSessions_nodup hlist
  · exact fun c => authorizeUse_of_mutation
  · exact fun id session => authorize_read_of_write

/-- The first administrator sees the connection to the shop. -/
theorem lists_agree_with_access_shop :
    ∃ c, c ∈ Registry.list default Registry.rootPrincipal [] [] Registry.shop.db := by
  obtain ⟨⟨hmem, -⟩, -⟩ := lists_agree_with_access default Registry.shop.db "usr_root".toList
    Registry.rootPrincipal ⟨⟨_, rfl⟩, _, rfl⟩ rfl
  exact ⟨_, (hmem _).2 ⟨"conn_a".toList, _, rfl, rfl, rfl⟩⟩

end Workbench.Storage
