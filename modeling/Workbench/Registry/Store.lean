import Workbench.Registry.Keyring
import Workbench.Storage.Tables

/-!
# The registry of connections

`api/internal/registry/model.go` and `postgres_store.go`. Each function is one transaction on the database,
run by itself: it gives an error and leaves the database as it is, or a result and the state behind it.
-/

set_option autoImplicit false

namespace Workbench.Registry

open Workbench.Lib Workbench.Storage
open Workbench.Identity (Principal Role pgUniqueViolation pgForeignKeyViolation pgCheckViolation)

/-- What the registry takes from outside: the encryption, what PostgreSQL stores of a JSON text, if
anything, its case mapping and collation, and the host and the port that `json.Unmarshal` reads of an
endpoint. -/
structure Runtime where
  aead : Aead
  jsonb : Text → Option Text
  lowerText : Text → Text
  collate : Text → Text → Bool
  endpoint : Text → Option (Text × Nat)

/-- An endpoint as the front end writes it. -/
def readEndpoint (text : Text) : Option (Text × Nat) := do
  let text ← Schema.readWord "\x7b\"host\":".toList text
  let (host, text) ← Schema.readJsonString text
  let text ← Schema.readWord ",\"port\":".toList text
  let (port, text) := Schema.readNat text
  if text = ['}'] ∧ port < 65536 then some (host, port) else none

/-- A runtime that reads endpoints of one form, for the runs on fixed inputs. -/
instance : Inhabited Runtime where
  default := ⟨default, some, toLower, fun _ _ => true, readEndpoint⟩

structure Connection where
  id : Text
  name : Text
  kind : Text
  driver : Text
  scope : Text
  ownerUserID : Text
  teamID : Text
  endpoint : Text
  config : Text
  hasSecret : Bool
  deriving DecidableEq, Repr

structure SaveInput where
  connection : Connection
  secret : Option Secret
  deriving DecidableEq, Repr

inductive Err where
  | forbidden
  | notFound
  | conflict (operation constraint : Text)
  | message (text : Text)
  | keyring (e : KeyringErr)
  | database (operation code constraint : Text)
  deriving DecidableEq, Repr

/-- `scanConnection`. -/
def connectionOf (id : Text) (row : ConnectionRow) : Connection where
  id := id
  name := row.name
  kind := row.kind
  driver := row.driver
  scope := row.owner.scope
  ownerUserID := row.owner.ownerUserID.getD []
  teamID := row.owner.teamID.getD []
  endpoint := row.endpoint
  config := row.config
  hasSecret := row.secretCiphertext ≠ []

/-! ## Principals -/

def isSystemAdmin (p : Principal) : Bool := !p.user.disabled && p.user.systemRole = .admin

/-- `p.Teams[teamID]`: the empty text where there is no entry. -/
def teamRole (p : Principal) (teamID : Text) : Text :=
  match p.teams.find? fun t => t.1 = teamID with
  | some t => t.2.text
  | none => []

def authorizeCreate (p : Principal) (connection : Connection) : Except Err Unit :=
  if connection.scope = "personal".toList then
    if p.user.id = [] ∨ p.user.disabled then .error .forbidden else .ok ()
  else if connection.scope = "team".toList then
    if p.user.disabled ∨ (isSystemAdmin p = false ∧ teamRole p connection.teamID ≠ "admin".toList) then
      .error .forbidden
    else .ok ()
  else .error (.message "invalid connection scope".toList)

def authorizeMutation (p : Principal) (connection : Connection) : Except Err Unit :=
  if connection.scope = "personal".toList then
    if connection.ownerUserID = p.user.id ∧ p.user.disabled = false then .ok () else .error .notFound
  else if connection.scope = "team".toList then
    if p.user.disabled = false ∧ (isSystemAdmin p ∨ teamRole p connection.teamID = "admin".toList) then
      .ok ()
    else .error .forbidden
  else .error .forbidden

def authorizeUse (p : Principal) (connection : Connection) : Except Err Unit :=
  if connection.scope = "personal".toList then
    if connection.ownerUserID = p.user.id ∧ p.user.disabled = false then .ok () else .error .notFound
  else if connection.scope = "team".toList then
    if p.user.disabled = false ∧ (isSystemAdmin p ∨ teamRole p connection.teamID ≠ []) then .ok ()
    else .error .forbidden
  else .error .forbidden

/-! ## The checks of a request -/

def validKindDriver (kind driver : Text) : Bool :=
  if kind = "database".toList then
    driver = "mysql".toList || driver = "postgres".toList || driver = "mongodb".toList ||
      driver = "redis".toList
  else if kind = "ssh".toList then driver = "ssh".toList
  else false

/-- `validateConnectionInput` of `connection_handlers.go`. -/
def validateConnectionInput (rt : Runtime) (c : Connection) : Except Text Unit :=
  if trimSpace c.name = [] then .error "name is required".toList
  else if validKindDriver c.kind c.driver = false then
    .error "kind and driver are incompatible".toList
  else if c.scope ≠ "personal".toList ∧ c.scope ≠ "team".toList then
    .error "scope must be personal or team".toList
  else if c.scope = "team".toList ∧ trimSpace c.teamID = [] then
    .error "teamId is required for team connections".toList
  else
    match rt.endpoint c.endpoint with
    | none => .error "endpoint must include host and port".toList
    | some (host, port) =>
      if trimSpace host = [] ∨ port = 0 then .error "endpoint must include host and port".toList
      else .ok ()

/-! ## Rows -/

section

variable (rt : Runtime)

def normalizeJSON (value : Text) : Text := if trimSpace value = [] then "\x7b\x7d".toList else value

def nullString (value : Text) : Option Text := if trimSpace value = [] then none else some value

def normalizeConnectionForCreate (p : Principal) (connection : Connection) : Connection :=
  let scope := trimSpace connection.scope
  { connection with
    id := trimSpace connection.id
    name := trimSpace connection.name
    kind := trimSpace connection.kind
    driver := trimSpace connection.driver
    scope := scope
    ownerUserID := if scope = "personal".toList then p.user.id else []
    teamID := if scope = "personal".toList then [] else trimSpace connection.teamID }

def normalizeConnectionForUpdate (input current : Connection) : Connection :=
  { current with
    name := if trimSpace input.name ≠ [] then trimSpace input.name else current.name
    kind := if trimSpace input.kind ≠ [] then trimSpace input.kind else current.kind
    driver := if trimSpace input.driver ≠ [] then trimSpace input.driver else current.driver
    endpoint := if input.endpoint ≠ [] then input.endpoint else current.endpoint
    config := if input.config ≠ [] then input.config else current.config }

/-- What a write to `connections` violates. -/
structure Violation where
  code : Text
  constraint : Text
  deriving DecidableEq, Repr

def normalizeStoreError (operation : Text) (v : Violation) : Err :=
  if v.code = pgUniqueViolation ∧
      (v.constraint = "connections_personal_name".toList ∨
        v.constraint = "connections_team_name".toList) then .conflict operation v.constraint
  else .database operation v.code v.constraint

/-- The two `CHECK`s on single columns. -/
def checkViolation (row : ConnectionRow) : Option Violation :=
  if row.kind ∉ ["database".toList, "ssh".toList] then
    some ⟨pgCheckViolation, "connections_kind_check".toList⟩
  else if row.driver ∉ ["mysql".toList, "postgres".toList, "mongodb".toList, "redis".toList,
      "ssh".toList] then some ⟨pgCheckViolation, "connections_driver_check".toList⟩
  else none

/-- The unique index on the names of one owner's connections of one kind. -/
def nameViolation (db : Db) (id : Text) (row : ConnectionRow) : Option Violation :=
  if db.connections.any fun other r => other ≠ id && r.owner = row.owner && r.kind = row.kind &&
      rt.lowerText r.name = rt.lowerText row.name then
    match row.owner with
    | .personal _ => some ⟨pgUniqueViolation, "connections_personal_name".toList⟩
    | .team _ => some ⟨pgUniqueViolation, "connections_team_name".toList⟩
  else none

def ownerViolation (db : Db) (row : ConnectionRow) : Option Violation :=
  match row.owner with
  | .personal userID =>
    if db.users.lookup userID = none then
      some ⟨pgForeignKeyViolation, "connections_owner_user_id_fkey".toList⟩
    else none
  | .team teamID =>
    if db.teams.lookup teamID = none then
      some ⟨pgForeignKeyViolation, "connections_team_id_fkey".toList⟩
    else none

def createdByViolation (db : Db) (row : ConnectionRow) : Option Violation :=
  if db.users.lookup row.createdBy = none then
    some ⟨pgForeignKeyViolation, "connections_created_by_fkey".toList⟩
  else none

def updatedByViolation (db : Db) (row : ConnectionRow) : Option Violation :=
  if db.users.lookup row.updatedBy = none then
    some ⟨pgForeignKeyViolation, "connections_updated_by_fkey".toList⟩
  else none

def keyViolation (db : Db) (id : Text) : Option Violation :=
  if (db.connections.lookup id).isSome then some ⟨pgUniqueViolation, "connections_pkey".toList⟩
  else none

def insertViolation (db : Db) (id : Text) (row : ConnectionRow) : Option Violation :=
  (checkViolation row).or <| (keyViolation db id).or <| (nameViolation rt db id row).or <|
    (ownerViolation db row).or <| (createdByViolation db row).or (updatedByViolation db row)

def updateViolation (db : Db) (id : Text) (row : ConnectionRow) : Option Violation :=
  (checkViolation row).or <| (nameViolation rt db id row).or (updatedByViolation db row)

/-- The row that is to be written, if PostgreSQL takes its JSON and its owner. -/
def insertedRow (userID : Text) (c : Connection) (sealed : SealedSecret) : Except Violation ConnectionRow :=
  match rt.jsonb (normalizeJSON c.endpoint), rt.jsonb (normalizeJSON c.config) with
  | some endpoint, some config =>
    match Owner.ofColumns c.scope (nullString c.ownerUserID) (nullString c.teamID) with
    | none => .error ⟨pgCheckViolation, "connections_check".toList⟩
    | some owner =>
      .ok ⟨c.name, c.kind, c.driver, owner, endpoint, config, sealed.keyID, sealed.ciphertext,
        userID, userID⟩
  | _, _ => .error ⟨"22P02".toList, []⟩

def updatedRow (userID : Text) (c : Connection) (sealed : SealedSecret) (row : ConnectionRow) :
    Except Violation ConnectionRow :=
  match rt.jsonb (normalizeJSON c.endpoint), rt.jsonb (normalizeJSON c.config) with
  | some endpoint, some config =>
    .ok { row with
      name := c.name
      kind := c.kind
      driver := c.driver
      endpoint := endpoint
      config := config
      secretKeyID := sealed.keyID
      secretCiphertext := sealed.ciphertext
      updatedBy := userID }
  | _, _ => .error ⟨"22P02".toList, []⟩

/-- A row that violates nothing. -/
def checked (operation : Text) (violation : ConnectionRow → Option Violation)
    (row : Except Violation ConnectionRow) : Except Err ConnectionRow :=
  match row with
  | .error v => .error (normalizeStoreError operation v)
  | .ok row =>
    match violation row with
    | some v => .error (normalizeStoreError operation v)
    | none => .ok row

def insertAudit (actorUserID action : Text) (c : Connection) (outcome : Text) (db : Db) :
    Except Err Db :=
  if db.users.lookup actorUserID = none then
    .error (.database "insert audit event".toList pgForeignKeyViolation
      "audit_events_actor_user_id_fkey".toList)
  else
    .ok { db with
      auditEvents := db.auditEvents.insert (nextID db.auditEvents)
        ⟨some actorUserID, action, "connection".toList, c.id,
          [("kind".toList, c.kind), ("driver".toList, c.driver), ("scope".toList, c.scope),
            ("outcome".toList, outcome)]⟩ }

end

/-! ## Functions -/

section

variable (rt : Runtime)

/-- `ORDER BY lower(name), id`. -/
def listOrder (a b : Connection) : Bool :=
  if rt.lowerText a.name = rt.lowerText b.name then rt.collate a.id b.id
  else rt.collate (rt.lowerText a.name) (rt.lowerText b.name)

/-- The `WHERE` of `List`. -/
def listed (p : Principal) (kind scope : Text) (db : Db) (row : ConnectionRow) : Bool :=
  (row.owner.scope = "personal".toList && row.owner.ownerUserID = some p.user.id ||
    row.owner.scope = "team".toList && (isSystemAdmin p ||
      db.members.any fun id _ => row.owner.teamID = some id.1 && id.2 = p.user.id)) &&
  (kind = [] || row.kind = kind) && (scope = [] || row.owner.scope = scope)

def list (p : Principal) (kind scope : Text) (db : Db) : List Connection :=
  ((db.connections.entries.filter fun e => listed p kind scope db e.2).map fun e =>
    connectionOf e.1 e.2).mergeSort (listOrder rt)

def loadConnection (id : Text) (db : Db) : Except Err ConnectionRow :=
  match db.connections.lookup id with
  | none => .error .notFound
  | some row => .ok row

def sealSecret (keys : Keyring) (nonce : Nonce) (id : Text) (secret : Secret) :
    Except Err SealedSecret :=
  (keys.sealSecret rt.aead nonce id secret).mapError .keyring

/-- The secret that a new connection must have. -/
def requiredSecret (input : SaveInput) : Except Err Secret :=
  match input.secret with
  | none => .error (.message "secret is required".toList)
  | some secret =>
    if secret.empty then .error (.message "secret is required".toList) else .ok secret

/-- The connection that `Create` makes; `newID` is what `newConnectionID` gives. -/
def newConnection (newID : Text) (p : Principal) (connection : Connection) : Connection :=
  let c := normalizeConnectionForCreate p connection
  if c.id = [] then { c with id := newID } else c

/-- The key id and the ciphertext that `Update` leaves in a row. -/
def updatedSecret (keys : Keyring) (nonce : Nonce) (id : Text) (row : ConnectionRow)
    (input : SaveInput) : Except Err SealedSecret :=
  match input.secret with
  | none => .ok ⟨row.secretKeyID, row.secretCiphertext⟩
  | some secret => sealSecret rt keys nonce id secret

def create (keys : Keyring) (newID : Text) (nonce : Nonce) (p : Principal) (input : SaveInput)
    (db : Db) : Except Err (Connection × Db) := do
  let secret ← requiredSecret input
  let c := newConnection newID p input.connection
  authorizeCreate p c
  let sealed ← sealSecret rt keys nonce c.id secret
  let row ← checked "create connection".toList (insertViolation rt db c.id)
    (insertedRow rt p.user.id c sealed)
  let created := connectionOf c.id row
  let db ← insertAudit p.user.id "connection.create".toList created "success".toList
    { db with connections := db.connections.insert c.id row }
  pure (created, db)

def update (keys : Keyring) (nonce : Nonce) (p : Principal) (id : Text) (input : SaveInput) (db : Db) :
    Except Err (Connection × Db) := do
  let row ← loadConnection id db
  let current := connectionOf id row
  authorizeMutation p current
  let sealed ← updatedSecret rt keys nonce id row input
  let next := normalizeConnectionForUpdate input.connection current
  let row ← checked "update connection".toList (updateViolation rt db id)
    (updatedRow rt p.user.id next sealed row)
  let updated := connectionOf id row
  let db ← insertAudit p.user.id "connection.update".toList updated "success".toList
    { db with connections := db.connections.insert id row }
  pure (updated, db)

def delete (p : Principal) (id : Text) (db : Db) : Except Err Db := do
  let row ← loadConnection id db
  let current := connectionOf id row
  authorizeMutation p current
  insertAudit p.user.id "connection.delete".toList current "success".toList
    { db with connections := db.connections.erase id }

def secretForUse (keys : Keyring) (p : Principal) (id : Text) (db : Db) :
    Except Err ((Connection × Secret) × Db) := do
  let row ← loadConnection id db
  let c := connectionOf id row
  authorizeUse p c
  let secret ← (keys.openSecret rt.aead c.id row.secretKeyID row.secretCiphertext).mapError .keyring
  let db ← insertAudit p.user.id "connection.secret_use".toList c "success".toList db
  pure ((c, secret), db)

end

end Workbench.Registry
