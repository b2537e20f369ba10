import Workbench.Lib.Trails
import Workbench.Storage.Stores

/-!
# The audit trail of the registry

The four functions of `postgres_store.go` that write audit events, as transactions at READ COMMITTED, each
of whose calls of the database can fail.
-/

set_option autoImplicit false

namespace Workbench.Registry

open Workbench.Lib Workbench.Storage
open Workbench.Identity (Principal)

/-! ## Statements -/

inductive Label where
  | loadConnectionForUpdate
  | loadConnectionForUse
  | insertConnection
  | updateConnection
  | deleteConnection
  | insertAudit
  deriving DecidableEq, Repr

/-- The rows of `connections`, which are what the functions lock. -/
def connectionRows : Rows Db Text where
  present db id := (db.connections.lookup id).isSome
  Keeps id a b := b.connections.lookup id = a.connections.lookup id
  refl _ _ := rfl
  trans h h' := h'.trans h

abbrev Stmt (β : Type) : Type := Statement connectionRows Label Err β

abbrev Transaction (β : Type) : Type 1 := Tx connectionRows Label Err β

/-- The row of a connection, if it is there. -/
def rowOf (id : Text) (db : Db) : List Text := if (db.connections.lookup id).isSome then [id] else []

def loadConnectionForUpdate (id : Text) : Stmt ConnectionRow where
  label := .loadConnectionForUpdate
  rows := rowOf id
  claims := []
  result found view := if id ∈ found then loadConnection id view else .error .notFound
  change _ _ db := db
  frame _ _ _ _ _ _ := rfl

def loadConnectionForUse (id : Text) : Stmt ConnectionRow where
  label := .loadConnectionForUse
  rows _ := []
  claims := []
  result _ view := loadConnection id view
  change _ _ db := db
  frame _ _ _ _ _ _ := rfl

/-- The row that `result` gives, put into the table. -/
def putConnection (id : Text) (result : Except Err ConnectionRow) (db : Db) : Db :=
  match result with
  | .ok row => { db with connections := db.connections.insert id row }
  | .error _ => db

theorem putConnection_frame {id k : Text} (hk : k ≠ id) (result : Except Err ConnectionRow) (db : Db) :
    (putConnection id result db).connections.lookup k = db.connections.lookup k := by
  cases result with
  | ok row => exact AList.lookup_insert_ne hk
  | error e => rfl

section

variable (rt : Runtime)

def insertConnection (userID : Text) (c : Connection) (sealed : SealedSecret) : Stmt Connection where
  label := .insertConnection
  rows _ := []
  claims := [c.id]
  result _ view :=
    (checked "create connection".toList (insertViolation rt view c.id)
      (insertedRow rt userID c sealed)).map (connectionOf c.id)
  change _ view db :=
    putConnection c.id (checked "create connection".toList (insertViolation rt view c.id)
      (insertedRow rt userID c sealed)) db
  frame _ _ _ _ _ hclaims := putConnection_frame (fun heq => hclaims (List.mem_singleton.2 heq)) _ _

/-- What `UPDATE connections` returns; no row where the connection is gone. -/
def updateResult (userID id : Text) (next : Connection) (sealed : SealedSecret) (found : List Text)
    (view : Db) : Except Err ConnectionRow :=
  match view.connections.lookup id with
  | some row =>
    if id ∈ found then
      checked "update connection".toList (updateViolation rt view id)
        (updatedRow rt userID next sealed row)
    else .error (.database "update connection".toList [] [])
  | none => .error (.database "update connection".toList [] [])

theorem updateResult_not_mem {userID id : Text} {next : Connection} {sealed : SealedSecret}
    {found : List Text} {view : Db} (h : id ∉ found) :
    updateResult rt userID id next sealed found view =
      .error (.database "update connection".toList [] []) := by
  rw [updateResult]
  cases view.connections.lookup id with
  | none => rfl
  | some row => exact if_neg h

def updateConnection (userID id : Text) (next : Connection) (sealed : SealedSecret) :
    Stmt Connection where
  label := .updateConnection
  rows := rowOf id
  claims := []
  result found view := (updateResult rt userID id next sealed found view).map (connectionOf id)
  change found view db := putConnection id (updateResult rt userID id next sealed found view) db
  frame found view db k hfound _ := by
    -- a row that was not found is not updated
    by_cases hk : k = id
    · subst hk
      rw [updateResult_not_mem rt hfound]
      rfl
    · exact putConnection_frame hk _ _

def deleteConnection (id : Text) : Stmt Unit where
  label := .deleteConnection
  rows := rowOf id
  claims := []
  result _ _ := .ok ()
  change found _ db := if id ∈ found then { db with connections := db.connections.erase id } else db
  frame found view db k hfound _ := by
    by_cases hk : k = id
    · subst hk
      rw [if_neg hfound]
      rfl
    · split
      · exact AList.lookup_erase_ne hk
      · rfl

/-- The row that `insertAudit` adds. -/
def addAudit (actorUserID action : Text) (c : Connection) (outcome : Text) (db : Db) : Db :=
  { db with
    auditEvents := db.auditEvents.insert (nextID db.auditEvents)
      ⟨some actorUserID, action, "connection".toList, c.id,
        [("kind".toList, c.kind), ("driver".toList, c.driver), ("scope".toList, c.scope),
          ("outcome".toList, outcome)]⟩ }

def auditConnection (actorUserID action : Text) (c : Connection) (outcome : Text) : Stmt Unit where
  label := .insertAudit
  rows _ := []
  claims := []
  result _ view := (insertAudit actorUserID action c outcome view).map fun _ => ()
  change _ _ db := addAudit actorUserID action c outcome db
  frame _ _ _ _ _ _ := rfl

/-! ## Transactions -/

def createTx (keys : Keyring) (newID : Text) (nonce : Nonce) (p : Principal) (input : SaveInput) :
    Transaction Connection := do
  let secret ← Tx.done (requiredSecret input)
  let c := newConnection newID p input.connection
  Tx.done (authorizeCreate p c)
  let sealed ← Tx.done (sealSecret rt keys nonce c.id secret)
  let created ← Tx.perform (insertConnection rt p.user.id c sealed)
  Tx.perform (auditConnection p.user.id "connection.create".toList created "success".toList)
  pure created

def updateTx (keys : Keyring) (nonce : Nonce) (p : Principal) (id : Text) (input : SaveInput) :
    Transaction Connection := do
  let row ← Tx.perform (loadConnectionForUpdate id)
  let current := connectionOf id row
  Tx.done (authorizeMutation p current)
  let sealed ← Tx.done (updatedSecret rt keys nonce id row input)
  let next := normalizeConnectionForUpdate input.connection current
  let updated ← Tx.perform (updateConnection rt p.user.id id next sealed)
  Tx.perform (auditConnection p.user.id "connection.update".toList updated "success".toList)
  pure updated

def deleteTx (p : Principal) (id : Text) : Transaction Unit := do
  let row ← Tx.perform (loadConnectionForUpdate id)
  let current := connectionOf id row
  Tx.done (authorizeMutation p current)
  Tx.perform (deleteConnection id)
  Tx.perform (auditConnection p.user.id "connection.delete".toList current "success".toList)
  pure ()

def secretForUseTx (keys : Keyring) (p : Principal) (id : Text) : Transaction (Connection × Secret) := do
  let row ← Tx.perform (loadConnectionForUse id)
  let c := connectionOf id row
  Tx.done (authorizeUse p c)
  let secret ← Tx.done ((keys.openSecret rt.aead c.id row.secretKeyID row.secretCiphertext).mapError
    .keyring)
  Tx.perform (auditConnection p.user.id "connection.secret_use".toList c "success".toList)
  pure (c, secret)

end

/-! ## Alone, the transactions are the functions of the store -/

section

variable {rt : Runtime} {keys : Keyring} {nonce : Nonce} {p : Principal} {id : Text} {input : SaveInput}
  {db : Db}

theorem except_ok_bind {β γ : Type} (b : β) (f : β → Except Err γ) :
    ((Except.ok b : Except Err β) >>= f) = f b := rfl

theorem exec_done {β γ : Type} (r : Except Err β) (f : β → Transaction γ) (db : Db) :
    (Tx.done r >>= f).exec db = r >>= fun b => (f b).exec db := by
  cases r with
  | ok b => rfl
  | error e => rfl

theorem exec_statement {β γ : Type} (s : Stmt β) (f : β → Transaction γ) (db : Db) :
    (Tx.perform s >>= f).exec db =
      s.result (s.rows db) db >>= fun b => (f b).exec (s.change (s.rows db) db db) := by
  show (Tx.stmt s f).exec db = _
  rw [Tx.exec]
  cases s.result (s.rows db) db with
  | ok b => rfl
  | error e => rfl

theorem exec_auditConnection {γ : Type} (actorUserID action : Text) (c : Connection) (outcome : Text)
    (f : Unit → Transaction γ) :
    (Tx.perform (auditConnection actorUserID action c outcome) >>= f).exec db =
      insertAudit actorUserID action c outcome db >>= fun after => (f ()).exec after := by
  rw [exec_statement]
  simp only [auditConnection, insertAudit]
  split
  · rfl
  · rfl

theorem rowOf_eq {row : ConnectionRow} (hrow : db.connections.lookup id = some row) :
    rowOf id db = [id] := by
  rw [rowOf, hrow]
  rfl

theorem exec_loadConnectionForUpdate {γ : Type} (f : ConnectionRow → Transaction γ) :
    (Tx.perform (loadConnectionForUpdate id) >>= f).exec db =
      loadConnection id db >>= fun row => (f row).exec db := by
  rw [exec_statement]
  cases hrow : db.connections.lookup id with
  | none => simp [loadConnectionForUpdate, rowOf, loadConnection, hrow]
  | some row => simp [loadConnectionForUpdate, rowOf, loadConnection, hrow]

theorem exec_createTx (newID : Text) :
    (createTx rt keys newID nonce p input).exec db = create rt keys newID nonce p input db := by
  rw [createTx, create, exec_done]
  apply bind_congr
  intro secret
  rw [exec_done]
  apply bind_congr
  rintro ⟨⟩
  rw [exec_done]
  apply bind_congr
  intro sealed
  rw [exec_statement]
  simp only [insertConnection]
  cases checked "create connection".toList
      (insertViolation rt db (newConnection newID p input.connection).id)
      (insertedRow rt p.user.id (newConnection newID p input.connection) sealed) with
  | error e => rfl
  | ok row => exact exec_auditConnection _ _ _ _ _

theorem updateResult_rowOf {row : ConnectionRow} (hrow : db.connections.lookup id = some row)
    (userID : Text) (next : Connection) (sealed : SealedSecret) :
    updateResult rt userID id next sealed (rowOf id db) db =
      checked "update connection".toList (updateViolation rt db id)
        (updatedRow rt userID next sealed row) := by
  rw [updateResult, hrow, rowOf_eq hrow]
  exact if_pos List.mem_cons_self

theorem exec_updateTx :
    (updateTx rt keys nonce p id input).exec db = update rt keys nonce p id input db := by
  rw [updateTx, update, exec_loadConnectionForUpdate]
  cases hrow : db.connections.lookup id with
  | none =>
    rw [loadConnection, hrow]
    rfl
  | some row =>
    rw [loadConnection_ok.2 hrow, except_ok_bind, except_ok_bind, exec_done]
    apply bind_congr
    rintro ⟨⟩
    rw [exec_done]
    apply bind_congr
    intro sealed
    rw [exec_statement]
    simp only [updateConnection, updateResult_rowOf hrow]
    cases checked "update connection".toList (updateViolation rt db id) (updatedRow rt p.user.id
        (normalizeConnectionForUpdate input.connection (connectionOf id row)) sealed row) with
    | error e => rfl
    | ok row => exact exec_auditConnection _ _ _ _ _

theorem exec_deleteTx :
    (deleteTx p id).exec db = (delete p id db).map fun after => ((), after) := by
  rw [deleteTx, delete, exec_loadConnectionForUpdate]
  cases hrow : db.connections.lookup id with
  | none =>
    rw [loadConnection, hrow]
    rfl
  | some row =>
    rw [loadConnection_ok.2 hrow, except_ok_bind, except_ok_bind, exec_done]
    dsimp only
    cases authorizeMutation p (connectionOf id row) with
    | error e => rfl
    | ok _ =>
      rw [except_ok_bind, except_ok_bind, exec_statement]
      simp only [deleteConnection, rowOf_eq hrow, List.mem_singleton, if_true]
      rw [except_ok_bind, exec_auditConnection]
      -- `Delete` returns the state alone
      cases insertAudit p.user.id "connection.delete".toList (connectionOf id row) "success".toList
          { db with connections := db.connections.erase id } with
      | error e => rfl
      | ok after => rfl

theorem exec_secretForUseTx :
    (secretForUseTx rt keys p id).exec db = secretForUse rt keys p id db := by
  rw [secretForUseTx, secretForUse, exec_statement]
  apply bind_congr
  intro row
  rw [exec_done]
  apply bind_congr
  rintro ⟨⟩
  rw [exec_done]
  apply bind_congr
  intro secret
  exact exec_auditConnection _ _ _ _ _

end

/-! ## Calls and events -/

/-- A call of one of the four functions. -/
inductive Call where
  | create (keys : Keyring) (newID : Text) (nonce : Nonce) (p : Principal) (input : SaveInput)
  | update (keys : Keyring) (nonce : Nonce) (p : Principal) (id : Text) (input : SaveInput)
  | delete (p : Principal) (id : Text)
  | secretForUse (keys : Keyring) (p : Principal) (id : Text)

/-- What a call returns if it has no error. -/
inductive Outcome where
  | saved (c : Connection)
  | deleted
  | secret (c : Connection) (secret : Secret)

/-- Who did what to what, without the metadata. -/
structure Trail where
  actorUserID : Option Text
  action : Text
  resourceType : Text
  resourceID : Text
  deriving DecidableEq, Repr

def trailOf (row : AuditRow) : Trail := ⟨row.actorUserID, row.action, row.resourceType, row.resourceID⟩

/-- The audit events of a state. -/
def trails (db : Db) : List Trail := db.auditEvents.rows.map trailOf

namespace Call

def tx (rt : Runtime) : Call → Transaction Outcome
  | .create keys newID nonce p input => createTx rt keys newID nonce p input >>= fun c => pure (.saved c)
  | .update keys nonce p id input => updateTx rt keys nonce p id input >>= fun c => pure (.saved c)
  | .delete p id => deleteTx p id >>= fun _ => pure .deleted
  | .secretForUse keys p id => secretForUseTx rt keys p id >>= fun r => pure (.secret r.1 r.2)

def actor : Call → Principal
  | .create _ _ _ p _ => p
  | .update _ _ p _ _ => p
  | .delete p _ => p
  | .secretForUse _ p _ => p

def action : Call → Text
  | .create .. => "connection.create".toList
  | .update .. => "connection.update".toList
  | .delete .. => "connection.delete".toList
  | .secretForUse .. => "connection.secret_use".toList

/-- The connection that a call is about; `Create` gives it an id if the input has none. -/
def connectionID : Call → Text
  | .create _ newID _ p input => (newConnection newID p input.connection).id
  | .update _ _ _ id _ => id
  | .delete _ id => id
  | .secretForUse _ _ id => id

/-- The event that a call leaves. -/
def event (call : Call) : Trail :=
  ⟨some call.actor.user.id, call.action, "connection".toList, call.connectionID⟩

/-- What is returned is the connection that the call is about. -/
def Returns (call : Call) : Outcome → Prop
  | .saved c => c.id = call.connectionID
  | .deleted => True
  | .secret c _ => c.id = call.connectionID

end Call

/-! ## What a call records -/

section

variable {rt : Runtime}

theorem trails_addAudit (actorUserID action : Text) (c : Connection) (outcome : Text) (db : Db) :
    trails (addAudit actorUserID action c outcome db) =
      [⟨some actorUserID, action, "connection".toList, c.id⟩] ++ trails db := by
  rw [trails, addAudit, Table.rows_insert_new (lookup_nextID db.auditEvents)]
  rfl

theorem trails_putConnection (id : Text) (result : Except Err ConnectionRow) (db : Db) :
    trails (putConnection id result db) = trails db := by
  cases result with
  | ok row => rfl
  | error e => rfl

/-- A statement that writes no event. -/
theorem records_silent {β γ : Type} {s : Stmt β} {f : β → Transaction γ} {total : γ → List Trail}
    {Q : γ → Prop} {sofar : List Trail}
    (hsilent : ∀ found view db, trails (s.change found view db) = trails db)
    (h : ∀ found view b, s.result found view = .ok b → (f b).Records trails total Q sofar) :
    (Tx.perform s >>= f).Records trails total Q sofar := by
  apply Tx.records_perform
  intro found view b hresult
  exact ⟨[], hsilent found view, h found view b hresult⟩

/-- The end of each call: its event and its result. -/
theorem records_audit {γ : Type} {actorUserID action outcome : Text} {c : Connection} {a : γ}
    {Q : γ → Prop} {event : Trail}
    (hevent : event = ⟨some actorUserID, action, "connection".toList, c.id⟩) (hQ : Q a) :
    (Tx.perform (auditConnection actorUserID action c outcome) >>= fun _ =>
      (pure a : Transaction γ)).Records trails (fun _ => [event]) Q [] := by
  apply Tx.records_perform
  intro found view b hresult
  rw [hevent]
  exact ⟨_, trails_addAudit actorUserID action c outcome, rfl, hQ⟩

theorem id_of_map {id : Text} {result : Except Err ConnectionRow} {c : Connection}
    (h : result.map (connectionOf id) = .ok c) : c.id = id := by
  cases result with
  | error e => cases h
  | ok row =>
    cases h
    rfl

variable {keys : Keyring} {newID id : Text} {nonce : Nonce} {p : Principal} {input : SaveInput}

theorem createTx_records :
    (createTx rt keys newID nonce p input).Records trails
      (fun _ => [(Call.create keys newID nonce p input).event])
      (fun c => c.id = (newConnection newID p input.connection).id) [] := by
  rw [createTx]
  apply Tx.records_done
  intro secret _
  apply Tx.records_done
  rintro ⟨⟩ _
  apply Tx.records_done
  intro sealed _
  apply records_silent
  · exact fun _ _ db => trails_putConnection _ _ db
  · intro found view created hcreated
    have hid : created.id = (newConnection newID p input.connection).id := id_of_map hcreated
    apply records_audit
    · rw [Call.event, Call.connectionID, hid]
      rfl
    · exact hid

theorem updateTx_records :
    (updateTx rt keys nonce p id input).Records trails
      (fun _ => [(Call.update keys nonce p id input).event]) (fun c => c.id = id) [] := by
  rw [updateTx]
  apply records_silent (fun _ _ _ => rfl)
  intro found view row _
  apply Tx.records_done
  rintro ⟨⟩ _
  apply Tx.records_done
  intro sealed _
  apply records_silent
  · exact fun _ _ db => trails_putConnection _ _ db
  · intro found view updated hupdated
    have hid : updated.id = id := id_of_map hupdated
    apply records_audit
    · rw [Call.event, Call.connectionID, hid]
      rfl
    · exact hid

theorem deleteTx_records :
    (deleteTx p id).Records trails (fun _ => [(Call.delete p id).event]) (fun _ => True) [] := by
  rw [deleteTx]
  apply records_silent (fun _ _ _ => rfl)
  intro found view row _
  apply Tx.records_done
  rintro ⟨⟩ _
  apply records_silent
  · intro found view db
    simp only [deleteConnection]
    split
    · rfl
    · rfl
  · intro found view b _
    exact records_audit rfl trivial

theorem secretForUseTx_records :
    (secretForUseTx rt keys p id).Records trails (fun _ => [(Call.secretForUse keys p id).event])
      (fun r => r.1.id = id) [] := by
  rw [secretForUseTx]
  apply records_silent (fun _ _ _ => rfl)
  intro found view row _
  apply Tx.records_done
  rintro ⟨⟩ _
  apply Tx.records_done
  intro secret _
  exact records_audit rfl rfl

theorem Call.records (call : Call) :
    (call.tx rt).Records trails (fun _ => [call.event]) call.Returns [] := by
  cases call with
  | create keys newID nonce p input => exact Tx.records_map createTx_records
  | update keys nonce p id input => exact Tx.records_map updateTx_records
  | delete p id => exact Tx.records_map deleteTx_records
  | secretForUse keys p id => exact Tx.records_map secretForUseTx_records

end

/-- In every run of calls, whatever fails in them, the audit events are those of the start and one for each
call that has committed, with its actor, its action and its connection; a secret that is returned is of the
connection that its event names. -/
theorem audit_exact (rt : Runtime) {ι : Type} [DecidableEq ι] (calls : ι → Call) (db : Db)
    (σ : System connectionRows Label Err Outcome ι)
    (hrun : System.Run (fun _ _ _ => True) (System.init db fun i => (calls i).tx rt) σ) :
    ∃ committed : List ι, committed.Nodup ∧
      (∀ i, i ∈ committed ↔ ∃ a, (σ.procs i).phase = .finished (some (.ok a))) ∧
      (trails σ.committed).Perm (committed.map (fun i => (calls i).event) ++ trails db) ∧
      ∀ i c secret, (σ.procs i).phase = .finished (some (.ok (.secret c secret))) →
        i ∈ committed ∧ c.id = (calls i).connectionID := by
  -- each call adds its own event and no other
  obtain ⟨committed, h⟩ := System.Run.recorded (fun i => (calls i).records) hrun
  have hmem : ∀ i, i ∈ committed.map Prod.fst ↔
      ∃ a, (σ.procs i).phase = .finished (some (.ok a)) := by
    intro i
    rw [List.mem_map]
    constructor
    · rintro ⟨⟨i, a⟩, hcommitted, rfl⟩
      exact ⟨a, (h.mem i a).1 hcommitted⟩
    · rintro ⟨a, hphase⟩
      exact ⟨(i, a), (h.mem i a).2 hphase, rfl⟩
  refine ⟨committed.map Prod.fst, h.nodup, hmem, ?_, ?_⟩
  · have hentries := h.entries
    rw [List.map_map, List.map_eq_flatMap]
    exact hentries
  · intro i c secret hphase
    exact ⟨(hmem i).2 ⟨_, hphase⟩, h.results i _ ((h.mem i _).2 hphase)⟩

/-- A connection is created, and then its secret is used. -/
def shopCalls : Fin 2 → Call
  | 0 => .create firstKeyring "conn_a".toList zeroNonce rootPrincipal ⟨shopConnection, some shopSecret⟩
  | 1 => .secretForUse firstKeyring rootPrincipal "conn_a".toList

set_option maxRecDepth 10000 in
theorem audit_exact_shop :
    ∃ σ : System connectionRows Label Err Outcome (Fin 2),
      (∀ i, ∃ a, (σ.procs i).phase = .finished (some (.ok a))) ∧
      ∃ committed : List (Fin 2), committed.Nodup ∧ (∀ i, i ∈ committed) ∧
        (trails σ.committed).Perm (committed.map fun i => (shopCalls i).event) := by
  have hsome : (System.follow [0, 0, 0, 0, 0, 1, 1, 1, 1, 1]
      (System.init rootDb fun i => (shopCalls i).tx default)).isSome := rfl
  have hrun := System.run_follow hsome
  -- both calls have committed
  have hended : ∀ i, ∃ a, (((System.follow [0, 0, 0, 0, 0, 1, 1, 1, 1, 1]
      (System.init rootDb fun i => (shopCalls i).tx default)).get hsome).procs i).phase =
        .finished (some (.ok a)) := by
    intro i
    match i with
    | 0 => exact ⟨_, rfl⟩
    | 1 => exact ⟨_, rfl⟩
  obtain ⟨committed, hnodup, hmem, hperm, -⟩ := audit_exact default shopCalls rootDb _ hrun
  refine ⟨_, hended, committed, hnodup, fun i => (hmem i).2 (hended i), ?_⟩
  rw [show trails rootDb = [] from rfl, List.append_nil] at hperm
  exact hperm

end Workbench.Registry
