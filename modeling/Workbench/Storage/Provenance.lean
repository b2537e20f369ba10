import Workbench.Identity.OtherTables
import Workbench.Storage.Access
import Workbench.Storage.Counters

/-!
# Who changed what, over whole runs

The rules of access are checked call by call. Over a run of the three stores they come to this: what a
connection holds was written by someone entitled to it, its owner never changes, a line of a log stays as
it came in, and whatever is gone went by someone entitled to it or with its owner.
-/

set_option autoImplicit false

namespace Workbench.Storage

open Workbench.Lib
open Workbench.Identity (Principal deletion)
open Workbench.Registry (connectionOf isSystemAdmin teamRole)
open Relation (ReflTransGen)

/-! ## Entitled principals -/

/-- An enabled principal that may change what belongs to an owner. -/
def MayChange (p : Principal) (owner : Owner) : Prop := p.user.disabled = false ∧ MayAccess p true owner

/-- `authorizeMutation` for an owner. -/
theorem authorizeMutation_iff {p : Principal} {id : Text} {row : ConnectionRow} :
    Registry.authorizeMutation p (connectionOf id row) = .ok () ↔ MayChange p row.owner := by
  rw [Registry.authorizeMutation]
  cases howner : row.owner with
  | personal user =>
    obtain ⟨hscope, huser⟩ := connectionOf_personal id howner
    rw [if_pos hscope, huser, ite_ok_iff]
    simp [MayChange, MayAccess, and_comm]
  | team t =>
    obtain ⟨hscope, hteam⟩ := connectionOf_team id howner
    rw [if_neg fun heq => personal_ne_team (heq.symm.trans hscope), if_pos hscope, hteam, ite_ok_iff]
    simp [MayChange, MayAccess]

/-- Who may write a session is entitled to what its owner has. -/
theorem authorize_write {p : Principal} {id : Text} {session : Logs.Session} {db : Db}
    (h : Logs.authorize p id true db = .ok session) :
    session.id = id ∧ ∃ row, db.logSessions.lookup id = some row ∧ MayChange p row.owner := by
  cases henabled : p.user.disabled with
  | true =>
    rw [Logs.authorize, henabled, if_pos rfl] at h
    cases h
  | false =>
    obtain ⟨row, hrow, rfl, hmay⟩ := (authorize_iff henabled).1 h
    exact ⟨rfl, row, hrow, henabled, hmay⟩

/-! ## What is gone behind a call of the identity store -/

/-- An administrator of the system deletes an owner. -/
def OwnerDeleted (owner : Owner) (a b : Db) : Prop :=
  ∃ (actor : Principal) (seen : Identity.Db), a.identity.IsActiveAdmin actor.user.id ∧
    b = a.withIdentity seen ∧
    match owner with
    | .personal userID => (Identity.deleteUser actor userID).exec a.identity = .ok ((), seen)
    | .team teamID => (Identity.deleteTeam actor teamID).exec a.identity = .ok ((), seen)

/-- All of a connection but its authors. -/
def ConnectionRow.content (row : ConnectionRow) : ConnectionRow :=
  { row with createdBy := [], updatedBy := [] }

/-- What a log session is from its creation on. -/
def LogSessionRow.content (row : LogSessionRow) : Text × Owner × Nat :=
  (row.name, row.owner, row.createdAt)

section

variable {db : Db} {seen : Identity.Db} {rt : Identity.Runtime} {call : Identity.Call}
  {r : Option (Except Identity.Err Unit)}

theorem lookup_connections_seen (id : Text) :
    (db.withIdentity seen).connections.lookup id = (db.connections.lookup id).bind fun c =>
      (seen.connections.lookup id).map fun r =>
        { c with createdBy := r.createdBy, updatedBy := r.updatedBy } := by
  exact Table.lookup_follow _ _ _ _

theorem lookup_logSessions_seen (id : Text) :
    (db.withIdentity seen).logSessions.lookup id = (db.logSessions.lookup id).bind fun l =>
      (seen.logSessions.lookup id).map fun r => { l with createdBy := r.createdBy } := by
  exact Table.lookup_follow _ _ _ _

theorem ownerDeleted_user {owner : Owner} {actor : Principal} {userID : Text}
    (howner : owner.ownerUserID = some userID)
    (h : (Identity.deleteUser actor userID).exec db.identity = .ok ((), seen)) :
    OwnerDeleted owner db (db.withIdentity seen) := by
  cases owner with
  | personal user =>
    cases howner
    exact ⟨actor, seen, (Identity.deleteUser_ok h).1, rfl, h⟩
  | team t => cases howner

theorem ownerDeleted_team {owner : Owner} {actor : Principal} {teamID : Text}
    (howner : owner.teamID = some teamID)
    (h : (Identity.deleteTeam actor teamID).exec db.identity = .ok ((), seen)) :
    OwnerDeleted owner db (db.withIdentity seen) := by
  cases owner with
  | personal user => cases howner
  | team t =>
    cases howner
    exact ⟨actor, seen, (Identity.deleteTeam_ok h).1, rfl, h⟩

/-- A connection stays but for its authors, or its owner is deleted. -/
theorem connection_withIdentity (h : (call.program rt).Runs db.identity r seen) {id : Text}
    {row : ConnectionRow} (hrow : db.connections.lookup id = some row) :
    (∃ row', (db.withIdentity seen).connections.lookup id = some row' ∧ row'.content = row.content) ∨
      OwnerDeleted row.owner db (db.withIdentity seen) := by
  have hreferences : db.identity.connections.lookup id = some row.references := by
    rw [Db.identity, Table.lookup_mapValues, hrow]
    rfl
  rcases Identity.Call.runs_others h with hsame | ⟨actor, userID, hdelete⟩ | ⟨actor, teamID, hdelete⟩
  · refine Or.inl ⟨row, ?_, rfl⟩
    rw [lookup_connections_seen, hrow, hsame.connections, hreferences]
    rfl
  · rw [lookup_connections_withIdentity (Identity.deleteUser_changed hdelete), hrow]
    by_cases howner : row.owner.ownerUserID = some userID
    · exact Or.inr (ownerDeleted_user howner hdelete)
    · exact Or.inl ⟨_, if_neg howner, rfl⟩
  · rw [lookup_connections_seen, (Identity.deleteTeam_others hdelete).1, hreferences, hrow]
    by_cases howner : row.owner.teamID = some teamID
    · exact Or.inr (ownerDeleted_team howner hdelete)
    · refine Or.inl ⟨row, ?_, rfl⟩
      simp [ConnectionRow.references, howner]

/-- The same of a log session. -/
theorem logSession_withIdentity (h : (call.program rt).Runs db.identity r seen) {id : Text}
    {row : LogSessionRow} (hrow : db.logSessions.lookup id = some row) :
    (∃ row', (db.withIdentity seen).logSessions.lookup id = some row' ∧ row'.content = row.content) ∨
      OwnerDeleted row.owner db (db.withIdentity seen) := by
  have hreferences : db.identity.logSessions.lookup id = some row.references := by
    rw [Db.identity, Table.lookup_mapValues, hrow]
    rfl
  rcases Identity.Call.runs_others h with hsame | ⟨actor, userID, hdelete⟩ | ⟨actor, teamID, hdelete⟩
  · refine Or.inl ⟨row, ?_, rfl⟩
    rw [lookup_logSessions_seen, hrow, hsame.logSessions, hreferences]
    rfl
  · rw [lookup_logSessions_withIdentity (Identity.deleteUser_changed hdelete), hrow]
    by_cases howner : row.owner.ownerUserID = some userID
    · exact Or.inr (ownerDeleted_user howner hdelete)
    · exact Or.inl ⟨_, if_neg howner, rfl⟩
  · rw [lookup_logSessions_seen, (Identity.deleteTeam_others hdelete).2, hreferences, hrow]
    by_cases howner : row.owner.teamID = some teamID
    · exact Or.inr (ownerDeleted_team howner hdelete)
    · refine Or.inl ⟨row, ?_, rfl⟩
      simp [LogSessionRow.references, howner]

end

/-! ## What the log store leaves alone -/

/-- A state behind a write of the log store: no connection is written, the entries that were there stay,
and a session stays but for its status. -/
structure LogsWritten (a b : Db) : Prop where
  connections : b.connections = a.connections
  logSessions : ∀ id row, a.logSessions.lookup id = some row →
    ∃ row', b.logSessions.lookup id = some row' ∧ row'.content = row.content
  logEntries : ∀ id e, a.logEntries.lookup id = some e → b.logEntries.lookup id = some e

theorem LogsWritten.refl (db : Db) : LogsWritten db db :=
  ⟨rfl, fun _ row h => ⟨row, h, rfl⟩, fun _ _ h => h⟩

theorem LogsWritten.trans {a b c : Db} (h : LogsWritten a b) (h' : LogsWritten b c) :
    LogsWritten a c := by
  refine ⟨h'.connections.trans h.connections, ?_, fun id e he => h'.logEntries id e (h.logEntries id e he)⟩
  intro id row hrow
  obtain ⟨row₁, hrow₁, hcontent₁⟩ := h.logSessions id row hrow
  obtain ⟨row₂, hrow₂, hcontent₂⟩ := h'.logSessions id row₁ hrow₁
  exact ⟨row₂, hrow₂, hcontent₂.trans hcontent₁⟩

section

variable {db db' : Db}

theorem logsWritten_of_same (hconnections : db'.connections = db.connections)
    (hsessions : db'.logSessions = db.logSessions) (hentries : db'.logEntries = db.logEntries) :
    LogsWritten db db' := by
  refine ⟨hconnections, fun id row hrow => ⟨row, ?_, rfl⟩, fun id e he => ?_⟩
  · rw [hsessions, hrow]
  · rw [hentries, he]

theorem logsWritten_foldl {A : Type} {f : Db → A → Db} (hf : ∀ db a, LogsWritten db (f db a))
    (l : List A) (db : Db) : LogsWritten db (l.foldl f db) := by
  induction l generalizing db with
  | nil => exact LogsWritten.refl db
  | cons a rest ih => exact (hf db a).trans (ih (f db a))

theorem logsWritten_insertEntry (sessionID fileID serviceName nodeName : Text) (db : Db)
    (line : Logs.ParsedLine) :
    LogsWritten db (Logs.insertEntry sessionID fileID serviceName nodeName line db) := by
  refine ⟨rfl, fun id row hrow => ⟨row, hrow, rfl⟩, fun id e he => ?_⟩
  -- the new entry has an id of its own
  have hne : id ≠ nextID db.logEntries := by
    rintro rfl
    rw [lookup_nextID] at he
    cases he
  rw [Logs.insertEntry, AList.lookup_insert_ne hne, he]

theorem logsWritten_addTimeBucket (sessionID : Text) (db : Db) (line : Logs.ParsedLine) :
    LogsWritten db (Logs.addTimeBucket sessionID line db) := by
  rw [Logs.addTimeBucket]
  cases line.timestampMs with
  | none => exact LogsWritten.refl db
  | some t => exact logsWritten_of_same rfl rfl rfl

theorem logsWritten_insertBatch {sessionID fileID serviceName nodeName : Text}
    {lines : List Logs.ParsedLine}
    (h : Logs.insertBatch sessionID fileID serviceName nodeName lines db = some db') :
    LogsWritten db db' := by
  rw [Logs.insertBatch] at h
  split at h
  · cases h
    exact LogsWritten.refl db
  · split at h
    · cases h
    · cases h
      have hentries := logsWritten_foldl
        (logsWritten_insertEntry sessionID fileID serviceName nodeName) lines db
      refine hentries.trans (LogsWritten.trans ?_
        (logsWritten_foldl (logsWritten_addTimeBucket sessionID) lines _))
      exact logsWritten_of_same rfl rfl rfl

theorem logsWritten_markSession (id status : Text) (errorMessage : Option Text) (now : Nat) (db : Db) :
    LogsWritten db (Logs.markSession id status errorMessage now db) := by
  refine ⟨rfl, fun other row hrow => ?_, fun _ _ he => he⟩
  rw [Logs.markSession, Table.lookup_alter, hrow]
  by_cases hid : other = id
  · simp [hid, LogSessionRow.content]
  · simp [hid]

theorem logsWritten_markFile (id parseStatus : Text) (totalLines : Nat → Nat) (db : Db) :
    LogsWritten db (Logs.markFile id parseStatus totalLines db) :=
  logsWritten_of_same rfl rfl rfl

theorem logsWritten_appendTailLine {sessionID fileID : Text} {line : Logs.ParsedLine} {now : Nat}
    (h : Logs.appendTailLine sessionID fileID line now db = .ok db') : LogsWritten db db' := by
  obtain ⟨file, mid, -, -, hbatch, rfl⟩ := Logs.appendTailLine_ok h
  refine (logsWritten_insertBatch hbatch).trans ?_
  exact (logsWritten_markFile _ _ _ _).trans (logsWritten_markSession _ _ _ _ _)

theorem logsWritten_insertFile {id : Text} {row : LogFileRow}
    (h : Logs.insertFile id row db = some db') : LogsWritten db db' := by
  obtain ⟨-, rfl⟩ := Logs.insertFile_ok h
  exact logsWritten_of_same rfl rfl rfl

theorem logsWritten_createSession {newID name scope teamID : Text} {now : Nat} {p : Principal}
    (h : Logs.createSession newID now p name scope teamID db = .ok (some db')) : LogsWritten db db' := by
  obtain ⟨hfree, new, rfl⟩ := Logs.createSession_ok h
  refine ⟨rfl, fun id row hrow => ⟨row, ?_, rfl⟩, fun _ _ he => he⟩
  have hne : id ≠ newID := by
    rintro rfl
    rw [hrow] at hfree
    cases hfree
  exact (AList.lookup_insert_ne hne).trans hrow

end

/-! ## Connections -/

namespace World

/-- Someone entitled to it updates a connection. -/
def Updates (env : Env) (id : Text) (owner : Owner) (w w' : World) : Prop :=
  ∃ keys nonce p input c, Registry.update env.registry keys nonce p id input w.db = .ok (c, w'.db) ∧
    MayChange p owner

/-- Someone entitled to it deletes a connection, or its owner is deleted. -/
def Removes (id : Text) (owner : Owner) (w w' : World) : Prop :=
  (∃ p, Registry.delete p id w.db = .ok w'.db ∧ MayChange p owner) ∨ OwnerDeleted owner w.db w'.db

variable {env : Env} {w w' : World} {id : Text} {row : ConnectionRow}

/-- What `UPDATE connections` writes belongs to whom the connection belonged. -/
theorem updatedRow_owner {rt : Registry.Runtime} {userID : Text} {c : Registry.Connection}
    {sealed : Registry.SealedSecret} {row row' : ConnectionRow}
    (h : Registry.updatedRow rt userID c sealed row = .ok row') : row'.owner = row.owner := by
  rw [Registry.updatedRow] at h
  split at h
  · cases h
    rfl
  · cases h

/-- A new connection takes no id that a row has. -/
theorem create_new {rt : Registry.Runtime} {keys : Registry.Keyring} {newID : Text}
    {nonce : Registry.Nonce} {p : Principal} {input : Registry.SaveInput} {c : Registry.Connection}
    {db db' : Db} (h : Registry.create rt keys newID nonce p input db = .ok (c, db')) :
    db.connections.lookup c.id = none := by
  simp only [Registry.create, bind_eq_ok] at h
  obtain ⟨secret, -, ⟨⟩, -, sealed, -, row, hrow, db₁, -, hend⟩ := h
  cases hend
  have hfree := (Registry.checked_ok.1 hrow).2
  simp only [Registry.insertViolation, Option.or_eq_none_iff] at hfree
  have hkey := hfree.2.1
  rw [Registry.keyViolation] at hkey
  split at hkey
  · cases hkey
  · next hnot => exact Option.not_isSome_iff_eq_none.1 hnot

/-- One step on a connection. -/
theorem Step.connection (hstep : Step env w w') (hrow : w.db.connections.lookup id = some row) :
    (∃ row', w'.db.connections.lookup id = some row' ∧ row'.owner = row.owner ∧
      (row'.content = row.content ∨ Updates env id row.owner w w')) ∨
    Removes id row.owner w w' := by
  -- where the table is the same, so is the row
  have same (heq : w'.db.connections = w.db.connections) : ∃ row', w'.db.connections.lookup id = some row' ∧
      row'.owner = row.owner ∧ (row'.content = row.content ∨ Updates env id row.owner w w') :=
    ⟨row, by rw [heq, hrow], rfl, Or.inl rfl⟩
  cases hstep with
  | identity hruns =>
    rcases connection_withIdentity hruns hrow with ⟨row', hrow', hcontent⟩ | hdeleted
    · have howner := congrArg ConnectionRow.owner hcontent
      exact Or.inl ⟨row', hrow', howner, Or.inl hcontent⟩
    · exact Or.inr (Or.inr hdeleted)
  | @createConnection keys newID nonce p input c db hexec =>
    obtain ⟨secret, new, key, -, -, -, -, hconnections⟩ := Registry.create_ok hexec
    have hne : id ≠ c.id := by
      rintro rfl
      rw [create_new hexec] at hrow
      cases hrow
    refine Or.inl ⟨row, ?_, rfl, Or.inl rfl⟩
    show db.connections.lookup id = _
    rw [hconnections, AList.lookup_insert_ne hne, hrow]
  | @updateConnection keys nonce p id' input c db hexec =>
    by_cases hid : id = id'
    · subst hid
      have hfull := hexec
      simp only [Registry.update, bind_eq_ok] at hexec
      obtain ⟨old, hload, ⟨⟩, hauthorize, sealed, -, row', hchecked, db₁, haudit, hend⟩ := hexec
      cases hend
      obtain rfl := Option.some.inj (hrow.symm.trans (Registry.loadConnection_ok.1 hload))
      refine Or.inl ⟨row', ?_, updatedRow_owner (Registry.checked_ok.1 hchecked).1, Or.inr ?_⟩
      · show db.connections.lookup id = _
        rw [Registry.insertAudit_ok haudit]
        exact AList.lookup_insert _
      · exact ⟨keys, nonce, p, input, _, hfull, authorizeMutation_iff.1 hauthorize⟩
    · obtain ⟨old, new, -, hconnections, -⟩ := Registry.update_ok hexec
      refine Or.inl ⟨row, ?_, rfl, Or.inl rfl⟩
      show db.connections.lookup id = _
      rw [hconnections, AList.lookup_insert_ne hid, hrow]
  | @deleteConnection p id' db hexec =>
    by_cases hid : id = id'
    · subst hid
      have hfull := hexec
      simp only [Registry.delete, bind_eq_ok] at hexec
      obtain ⟨old, hload, ⟨⟩, hauthorize, -⟩ := hexec
      obtain rfl := Option.some.inj (hrow.symm.trans (Registry.loadConnection_ok.1 hload))
      exact Or.inr (Or.inl ⟨p, hfull, authorizeMutation_iff.1 hauthorize⟩)
    · refine Or.inl ⟨row, ?_, rfl, Or.inl rfl⟩
      show db.connections.lookup id = _
      rw [Registry.delete_ok hexec, AList.lookup_erase_ne hid, hrow]
  | useSecret hexec => exact Or.inl (same (Registry.secretForUse_ok hexec).1)
  | createSession hexec => exact Or.inl (same (logsWritten_createSession hexec).connections)
  | startFile _ _ => exact Or.inl (same rfl)
  | insertFile _ hexec => exact Or.inl (same (logsWritten_insertFile hexec).connections)
  | insertBatch _ hexec => exact Or.inl (same (logsWritten_insertBatch hexec).connections)
  | markFile _ => exact Or.inl (same rfl)
  | markSession _ => exact Or.inl (same rfl)
  | appendTailLine _ hexec => exact Or.inl (same (logsWritten_appendTailLine hexec).connections)
  | deleteSession hexec =>
    obtain ⟨session, after, -, rfl, rfl⟩ := Logs.deleteSession_ok hexec
    exact Or.inl (same rfl)

/-- In every run of the stores a connection keeps its owner as long as it is there, what it holds is
written by principals that are entitled to it, and it goes only by one of them or with its owner. -/
theorem connection_provenance (env : Env) (w w' : World) (hrun : ReflTransGen (Step env) w w')
    (id : Text) (row : ConnectionRow) (hrow : w.db.connections.lookup id = some row) :
    (∃ row', w'.db.connections.lookup id = some row' ∧ row'.owner = row.owner ∧
      (row'.content = row.content ∨ ∃ u v, ReflTransGen (Step env) w u ∧
        Updates env id row.owner u v ∧ ReflTransGen (Step env) v w')) ∨
    ∃ u v, ReflTransGen (Step env) w u ∧ Removes id row.owner u v ∧ ReflTransGen (Step env) v w' := by
  have howned := kept_or_lost hrun
    (P := fun s => ∃ r, s.db.connections.lookup id = some r ∧ r.owner = row.owner) ⟨row, hrow, rfl⟩
  have hheld := kept_or_lost hrun (P := fun s => ∃ r, s.db.connections.lookup id = some r ∧
    r.owner = row.owner ∧ r.content = row.content) ⟨row, hrow, rfl, rfl⟩
  rcases howned with ⟨row', hrow', howner⟩ | ⟨u, v, hfront, ⟨r, hr, howner⟩, hstep, hlost, hbehind⟩
  · -- still there: the first step that changed what it holds, if any, was an update
    rcases hheld with ⟨r, hr, -, hcontent⟩ | ⟨u, v, hfront, ⟨r, hr, hr', hcontent⟩, hstep, hlost, hbehind⟩
    · rw [hrow'] at hr
      cases hr
      exact Or.inl ⟨row', hrow', howner, Or.inl hcontent⟩
    · rcases hstep.connection hr with ⟨r', hlookup, howner', hcontent' | hupdates⟩ | hremoves
      · exact absurd ⟨r', hlookup, howner'.trans hr', hcontent'.trans hcontent⟩ hlost
      · rw [hr'] at hupdates
        exact Or.inl ⟨row', hrow', howner, Or.inr ⟨u, v, hfront, hupdates, hbehind⟩⟩
      · rw [hr'] at hremoves
        exact Or.inr ⟨u, v, hfront, hremoves, hbehind⟩
  · rcases hstep.connection hr with ⟨r', hlookup, howner', -⟩ | hremoves
    · exact absurd ⟨r', hlookup, howner'.trans howner⟩ hlost
    · rw [howner] at hremoves
      exact Or.inr ⟨u, v, hfront, hremoves, hbehind⟩

/-- The first administrator has a connection of his own and deletes it. -/
def shopWorld : World := ⟨Registry.shop.db, ∅⟩

theorem connection_provenance_shop :
    ∃ row w', shopWorld.db.connections.lookup "conn_a".toList = some row ∧
      Step ⟨default, default⟩ shopWorld w' ∧ w'.db.connections.lookup "conn_a".toList = none ∧
      ∃ u v, Removes "conn_a".toList row.owner u v := by
  obtain ⟨row, hrow⟩ : ∃ row, shopWorld.db.connections.lookup "conn_a".toList = some row := ⟨_, rfl⟩
  obtain ⟨db, hdelete⟩ : ∃ db, Registry.delete Registry.rootPrincipal "conn_a".toList shopWorld.db =
      .ok db := ⟨_, rfl⟩
  have hgone : db.connections.lookup "conn_a".toList = none := by
    rw [Registry.delete_ok hdelete, AList.lookup_erase]
  have hstep : Step ⟨default, default⟩ shopWorld { shopWorld with db := db } := .deleteConnection hdelete
  refine ⟨row, _, hrow, hstep, hgone, ?_⟩
  rcases connection_provenance ⟨default, default⟩ _ _ (.single hstep) _ row hrow with
    ⟨row', hrow', -⟩ | ⟨u, v, -, hremoves, -⟩
  · rw [hgone] at hrow'
    cases hrow'
  · exact ⟨u, v, hremoves⟩

/-! ## Lines of a log -/

/-- Someone entitled to it deletes a session, or its owner is deleted. -/
def RemovesSession (sessionID : Text) (owner : Owner) (w w' : World) : Prop :=
  (∃ p, Logs.deleteSession p sessionID w.db = .ok w'.db ∧ MayChange p owner) ∨
    OwnerDeleted owner w.db w'.db

/-- One step on a session. -/
theorem Step.logSession {row : LogSessionRow} (hstep : Step env w w')
    (hrow : w.db.logSessions.lookup id = some row) :
    (∃ row', w'.db.logSessions.lookup id = some row' ∧ row'.content = row.content) ∨
      RemovesSession id row.owner w w' := by
  have written {db : Db} (h : LogsWritten w.db db) (hdb : w'.db = db) :
      ∃ row', w'.db.logSessions.lookup id = some row' ∧ row'.content = row.content := by
    rw [hdb]
    exact h.logSessions id row hrow
  have registry {db : Db} (h : RegistryChange w.db db) (hdb : w'.db = db) :
      ∃ row', w'.db.logSessions.lookup id = some row' ∧ row'.content = row.content := by
    exact ⟨row, by rw [hdb, h.eq, hrow], rfl⟩
  cases hstep with
  | identity hruns => exact (logSession_withIdentity hruns hrow).imp_right Or.inr
  | createConnection hexec => exact Or.inl (registry (create_change hexec) rfl)
  | updateConnection hexec => exact Or.inl (registry (update_change hexec) rfl)
  | deleteConnection hexec => exact Or.inl (registry (delete_change hexec) rfl)
  | useSecret hexec => exact Or.inl (registry (secretForUse_change hexec) rfl)
  | createSession hexec => exact Or.inl (written (logsWritten_createSession hexec) rfl)
  | startFile _ _ => exact Or.inl (written (LogsWritten.refl _) rfl)
  | insertFile _ hexec => exact Or.inl (written (logsWritten_insertFile hexec) rfl)
  | insertBatch _ hexec => exact Or.inl (written (logsWritten_insertBatch hexec) rfl)
  | markFile _ => exact Or.inl (written (logsWritten_markFile _ _ _ _) rfl)
  | markSession _ => exact Or.inl (written (logsWritten_markSession _ _ _ _ _) rfl)
  | appendTailLine _ hexec => exact Or.inl (written (logsWritten_appendTailLine hexec) rfl)
  | @deleteSession p sessionID _ hexec =>
    obtain ⟨session, after, hauthorize, rfl, rfl⟩ := Logs.deleteSession_ok hexec
    by_cases hid : id = sessionID
    · subst hid
      obtain ⟨-, row', hrow', hmay⟩ := authorize_write hauthorize
      obtain rfl := Option.some.inj (hrow.symm.trans hrow')
      exact Or.inr (Or.inl ⟨p, hexec, hmay⟩)
    · exact Or.inl ⟨row, (AList.lookup_erase_ne hid).trans hrow, rfl⟩

/-- A cascade leaves the entries of a session that stays. -/
theorem lookup_cascadeEntries (h : w.Consistent) {gone : Text → Bool} {db : Db} (hsame : SameLogs w.db db)
    {k : Nat} {e : LogEntryRow} (he : w.db.logEntries.lookup k = some e)
    (hstays : gone e.sessionID = false) :
    (db.cascadeLogSessions gone).logEntries.lookup k = some e := by
  obtain ⟨f, hf, hsession⟩ := h.entries k e he
  have hfile : db.goneFile gone e.sourceFileID = false := by
    rw [Db.goneFile, hsame.logFiles, hf]
    show gone f.sessionID = false
    rw [hsession, hstays]
  rw [Db.cascadeLogSessions, Table.lookup_alter, if_pos rfl, hsame.logEntries, he]
  simp [hfile, hstays]

/-- One step on an entry whose session stays. -/
theorem Step.logEntry (hstep : Step env w w') (h : w.Consistent) {k : Nat} {e : LogEntryRow}
    (he : w.db.logEntries.lookup k = some e)
    (hstays : (w'.db.logSessions.lookup e.sessionID).isSome) :
    w'.db.logEntries.lookup k = some e := by
  -- a cascade does not take the session that stays for a lost one
  have hkept : ∀ db : Db, w'.db.logSessions = db.logSessions →
      w.db.lostSession db e.sessionID = false := by
    intro db hdb
    rw [Db.lostSession, ← hdb, Bool.and_eq_false_iff]
    exact Or.inr (by simpa using hstays)
  have registry {db : Db} (h : RegistryChange w.db db) (hdb : w'.db = db) :
      w'.db.logEntries.lookup k = some e := by
    rw [hdb, h.logs.logEntries, he]
  cases hstep with
  | identity hruns => exact lookup_cascadeEntries h ⟨rfl, rfl⟩ he (hkept _ rfl)
  | createConnection hexec => exact registry (create_change hexec) rfl
  | updateConnection hexec => exact registry (update_change hexec) rfl
  | deleteConnection hexec => exact registry (delete_change hexec) rfl
  | useSecret hexec => exact registry (secretForUse_change hexec) rfl
  | createSession hexec => exact (logsWritten_createSession hexec).logEntries k e he
  | startFile _ _ => exact he
  | insertFile _ hexec => exact (logsWritten_insertFile hexec).logEntries k e he
  | insertBatch _ hexec => exact (logsWritten_insertBatch hexec).logEntries k e he
  | markFile _ => exact he
  | markSession _ => exact he
  | appendTailLine _ hexec => exact (logsWritten_appendTailLine hexec).logEntries k e he
  | deleteSession hexec =>
    obtain ⟨session, after, -, rfl, rfl⟩ := Logs.deleteSession_ok hexec
    exact lookup_cascadeEntries h ⟨rfl, rfl⟩ he (hkept _ rfl)

/-- An entry that is there, in a session of an owner. -/
def Holds (k : Nat) (e : LogEntryRow) (content : Text × Owner × Nat) (w : World) : Prop :=
  w.Consistent ∧ w.db.logEntries.lookup k = some e ∧
    ∃ row, w.db.logSessions.lookup e.sessionID = some row ∧ row.content = content

/-- In every run from a state that the stores reach, a line of a log stays word for word as it came in, in a
session with the same name and owner, until someone entitled to the session deletes it or its owner is
deleted. -/
theorem log_lines_immutable (env : Env) (w w' : World) (hreach : Reachable env w)
    (hrun : ReflTransGen (Step env) w w') (k : Nat) (e : LogEntryRow) (row : LogSessionRow)
    (he : w.db.logEntries.lookup k = some e)
    (hsession : w.db.logSessions.lookup e.sessionID = some row) :
    (w'.db.logEntries.lookup k = some e ∧ ∃ row', w'.db.logSessions.lookup e.sessionID = some row' ∧
      row'.content = row.content) ∨
    ∃ u v, ReflTransGen (Step env) w u ∧ RemovesSession e.sessionID row.owner u v ∧
      ReflTransGen (Step env) v w' := by
  have hheld : Holds k e row.content w := ⟨hreach.consistent, he, row, hsession, rfl⟩
  rcases kept_or_lost hrun hheld with
    ⟨-, hentry, hrow⟩ | ⟨u, v, hfront, ⟨hu, hentry, r, hr, hcontent⟩, hstep, hlost, hbehind⟩
  · exact Or.inl ⟨hentry, hrow⟩
  · refine Or.inr ⟨u, v, hfront, ?_, hbehind⟩
    have howner : r.owner = row.owner := congrArg (fun c => c.2.1) hcontent
    rw [← howner]
    -- if the session stayed, so did the entry
    rcases hstep.logSession hr with ⟨r', hr', hcontent'⟩ | hremoves
    · refine absurd ⟨hstep.consistent hu, hstep.logEntry hu hentry ?_, r', hr', ?_⟩ hlost
      · rw [hr']
        rfl
      · exact hcontent'.trans hcontent
    · exact hremoves

/-- A line has come into the session of a user, who is deleted then. -/
def oneInfo : World := withLines [⟨none, "INFO".toList, "up".toList, "up".toList, 1⟩]

def infoEntry : LogEntryRow :=
  ⟨"logs_a".toList, "logfile_a".toList, none, "INFO".toList, "shop".toList, "n1".toList, "up".toList,
    "up".toList, 1⟩

theorem log_lines_immutable_info :
    oneInfo.db.logEntries.lookup 1 = some infoEntry ∧
      ∃ u v, RemovesSession "logs_a".toList (.personal "usr_bob".toList) u v ∧
        ReflTransGen (Step ⟨default, default⟩) v
          (oneInfo.calls (.deleteUser rootPrincipal "usr_bob".toList)) := by
  have hstep : Step ⟨default, default⟩ oneInfo
      (oneInfo.calls (.deleteUser rootPrincipal "usr_bob".toList)) :=
    .identity (Program.runs_eval _ _)
  obtain ⟨row, hrow, howner⟩ : ∃ row, oneInfo.db.logSessions.lookup "logs_a".toList = some row ∧
      row.owner = .personal "usr_bob".toList := ⟨_, rfl, rfl⟩
  refine ⟨rfl, ?_⟩
  rcases log_lines_immutable ⟨default, default⟩ oneInfo _ (reachable_withLines _) (.single hstep) 1
    infoEntry row rfl hrow with ⟨hentry, -⟩ | ⟨u, v, -, hremoves, hbehind⟩
  · cases hentry
  · rw [howner] at hremoves
    exact ⟨u, v, hremoves, hbehind⟩

/-! ## Where lines come from -/

/-- Before a state, someone was let through to write a session. -/
def LetThrough (env : Env) (sessionID : Text) (w : World) : Prop :=
  ∃ (u : World) (p : Principal) (session : Logs.Session) (row : LogSessionRow),
    Reachable env u ∧ ReflTransGen (Step env) u w ∧ Logs.authorize p sessionID true u.db = .ok session ∧
      u.db.logSessions.lookup sessionID = some row ∧ MayChange p row.owner

theorem LetThrough.step {sessionID : Text} (h : LetThrough env sessionID w) (hstep : Step env w w') :
    LetThrough env sessionID w' := by
  obtain ⟨u, p, session, row, hreach, hrun, hrest⟩ := h
  exact ⟨u, p, session, row, hreach, hrun.tail hstep, hrest⟩

theorem Step.uploads (hstep : Step env w w') (hreach : Reachable env w)
    (h : ∀ fileID sessionID, w.uploads.lookup fileID = some sessionID → LetThrough env sessionID w) :
    ∀ fileID sessionID, w'.uploads.lookup fileID = some sessionID → LetThrough env sessionID w' := by
  intro fileID sessionID hupload
  have hfull := hstep
  cases hstep with
  | @startFile p id started session hauthorize hnew =>
    by_cases hid : fileID = started
    · subst hid
      rw [AList.lookup_insert] at hupload
      cases hupload
      obtain ⟨hsame, row, hrow, hmay⟩ := authorize_write hauthorize
      rw [hsame] at hfull ⊢
      exact ⟨w, p, session, row, hreach, ReflTransGen.single hfull, hauthorize, hrow, hmay⟩
    · rw [AList.lookup_insert_ne hid] at hupload
      exact (h fileID sessionID hupload).step hfull
  | _ => exact (h fileID sessionID hupload).step hfull

/-- In every state that the stores reach, each line of a log is in the session of its file, and before it
came in someone entitled to that session had been let through to write it. -/
theorem log_lines_authorized (env : Env) (w : World) (hreach : Reachable env w) (k : Nat)
    (e : LogEntryRow) (he : w.db.logEntries.lookup k = some e) :
    ∃ f, w.db.logFiles.lookup e.sourceFileID = some f ∧ f.sessionID = e.sessionID ∧
      LetThrough env e.sessionID w := by
  have huploads : ∀ fileID sessionID, w.uploads.lookup fileID = some sessionID →
      LetThrough env sessionID w := by
    clear he
    induction hreach with
    | refl =>
      intro fileID sessionID hnone
      cases hnone
    | tail hfront hlast ih => exact hlast.uploads hfront ih
  obtain ⟨f, hf, hsession⟩ := hreach.consistent.entries k e he
  refine ⟨f, hf, hsession, ?_⟩
  rw [← hsession]
  exact huploads _ _ (hreach.consistent.files _ f hf)

theorem log_lines_authorized_info : LetThrough ⟨default, default⟩ "logs_a".toList oneInfo := by
  obtain ⟨f, -, -, hthrough⟩ := log_lines_authorized ⟨default, default⟩ oneInfo
    (reachable_withLines _) 1 infoEntry rfl
  exact hthrough

end World

end Workbench.Storage
