import Workbench.Registry.Store
import Workbench.Web.JsonText
import Workbench.Web.Normalize

/-!
# The connection form

`web/src/connections/connectionForm.ts`, and what the server checks of the request that the form makes: in
`connection_handlers.go`, and in `Create` in front of the database. The two sides write most rules twice;
`toSaveInput_taken_iff` says where they part.
-/

set_option autoImplicit false

namespace Workbench.Web

open Workbench.Lib Workbench.Registry Workbench.Storage
open Workbench.Identity (Principal Role)

/-! ## The form -/

inductive ConnectionKind where
  | database
  | ssh
  deriving DecidableEq, Repr

inductive ConnectionDriver where
  | postgres
  | mysql
  | mongodb
  | redis
  | ssh
  deriving DecidableEq, Repr

inductive ConnectionScope where
  | personal
  | team
  deriving DecidableEq, Repr

def ConnectionKind.text : ConnectionKind → Text
  | .database => "database".toList
  | .ssh => "ssh".toList

def ConnectionDriver.text : ConnectionDriver → Text
  | .postgres => "postgres".toList
  | .mysql => "mysql".toList
  | .mongodb => "mongodb".toList
  | .redis => "redis".toList
  | .ssh => "ssh".toList

def ConnectionScope.text : ConnectionScope → Text
  | .personal => "personal".toList
  | .team => "team".toList

structure TeamSummary where
  id : Text
  name : Text
  role : Text
  deriving DecidableEq, Repr

structure ConnectionFormValue where
  name : Text
  kind : ConnectionKind
  driver : ConnectionDriver
  scope : ConnectionScope
  teamId : Text
  host : Text
  port : Text
  database : Text
  username : Text
  password : Text
  privateKey : Text
  passphrase : Text
  deriving DecidableEq, Repr

def databaseDrivers : List ConnectionDriver := [.postgres, .mysql, .mongodb, .redis]

def defaultPorts : ConnectionDriver → Nat
  | .postgres => 5432
  | .mysql => 3306
  | .mongodb => 27017
  | .redis => 6379
  | .ssh => 22

def defaultPort (driver : ConnectionDriver) : Text := Schema.jsonNat (defaultPorts driver)

def isValidKindDriver (kind : ConnectionKind) (driver : ConnectionDriver) : Bool :=
  if kind = .ssh then driver = .ssh else driver ∈ databaseDrivers

/-- There is a team of that id in which the user is an admin. -/
def isAdminTeam (teams : List TeamSummary) (id : Text) : Bool :=
  teams.any fun team => team.id = id && team.role = "admin".toList

/-- A port that the form lets through. -/
structure Port where
  value : Nat
  pos : 0 < value
  lt : value < 65536
  deriving DecidableEq

theorem port_pos {n : Int} (h : 1 ≤ n ∧ n ≤ 65535) : 0 < n.toNat := by omega

theorem port_lt {n : Int} (h : 1 ≤ n ∧ n ≤ 65535) : n.toNat < 65536 := by omega

/-- The text that is read as the port. -/
def rawPort (value : ConnectionFormValue) : Text :=
  if trim value.port ≠ [] then trim value.port
  else if value.kind = .ssh then "22".toList
  else defaultPort value.driver

/-- The port of a text; `number` is `Number`, where that gives an integer. -/
def readPort (number : Text → Option Int) (raw : Text) : Option Port :=
  match number raw with
  | none => none
  | some n => if h : 1 ≤ n ∧ n ≤ 65535 then some ⟨n.toNat, port_pos h, port_lt h⟩ else none

/-- The fields of a `ConnectionFormError`, each with its message. -/
abbrev FieldErrors := List (Text × Text)

def fieldError (wrong : Bool) (field message : Text) : FieldErrors := if wrong then [(field, message)] else []

def formErrors (value : ConnectionFormValue) (teams : List TeamSummary) (existingSecret : Bool)
    (port : Option Port) : FieldErrors :=
  fieldError (trim value.name = []) "name".toList "请输入连接名称".toList ++
  fieldError (trim value.host = []) "host".toList "请输入主机名".toList ++
  fieldError (!isValidKindDriver value.kind value.driver) "driver".toList "类型和驱动不匹配".toList ++
  fieldError (value.scope = .team && !isAdminTeam teams value.teamId) "teamId".toList "请选择你管理的团队".toList ++
  fieldError (value.kind = .ssh && trim value.passphrase ≠ [] && trim value.privateKey = []) "passphrase".toList
    "私钥口令需要配合私钥使用".toList ++
  fieldError (value.kind = .ssh && trim value.password = [] && trim value.privateKey = [] && !existingSecret)
    "credentials".toList "请输入登录密码或私钥".toList ++
  fieldError port.isNone "port".toList "端口必须在 1 到 65535 之间".toList

/-! ## The request -/

structure FormSecret where
  username : Text
  password : Option Text
  privateKey : Option Text
  passphrase : Option Text
  deriving DecidableEq

structure FormConnection where
  name : Text
  kind : ConnectionKind
  driver : ConnectionDriver
  scope : ConnectionScope
  host : Text
  port : Port
  database : Option Text
  teamId : Option Text
  deriving DecidableEq

/-- The `SaveInput` of the front end. -/
structure FormInput where
  connection : FormConnection
  secret : Option FormSecret
  deriving DecidableEq

/-- A text that is left out when it is empty. -/
def given (text : Text) : Option Text := if text = [] then none else some text

def formSecret (value : ConnectionFormValue) : Option FormSecret :=
  let username := trim value.username
  let password := trim value.password
  let privateKey := trim value.privateKey
  let passphrase := trim value.passphrase
  if value.kind = .database ∧ password ≠ [] then some ⟨username, some password, none, none⟩
  else if value.kind = .ssh ∧ (password ≠ [] ∨ privateKey ≠ []) then
    some ⟨username, given password, given privateKey, if privateKey = [] then none else given passphrase⟩
  else none

def formConnection (value : ConnectionFormValue) (port : Port) : FormConnection where
  name := trim value.name
  kind := value.kind
  driver := value.driver
  scope := value.scope
  host := trim value.host
  port := port
  database := if value.kind = .database then given (trim value.database) else none
  teamId := if value.scope = .team then some value.teamId else none

def toSaveInput (number : Text → Option Int) (value : ConnectionFormValue) (teams : List TeamSummary)
    (existingSecret : Bool) : Except FieldErrors FormInput :=
  let port := readPort number (rawPort value)
  let fields := formErrors value teams existingSecret port
  match port, fields with
  | some port, [] => .ok ⟨formConnection value port, formSecret value⟩
  | _, _ => .error fields

/-- A property that may be missing. -/
def optionalText (name : Text) : Option Text → List (Text × Json)
  | none => []
  | some text => [(name, .string text)]

def FormSecret.json (s : FormSecret) : Json :=
  .object (("username".toList, .string s.username) ::
    (optionalText "password".toList s.password ++ (optionalText "privateKey".toList s.privateKey ++
      optionalText "passphrase".toList s.passphrase)))

def endpointJson (host : Text) (port : Nat) : Json :=
  .object [("host".toList, .string host), ("port".toList, .number (Schema.jsonNat port))]

def configJson (database : Option Text) : Json := .object (optionalText "database".toList database)

def FormConnection.json (c : FormConnection) : Json :=
  .object ([("name".toList, .string c.name), ("kind".toList, .string c.kind.text),
      ("driver".toList, .string c.driver.text), ("scope".toList, .string c.scope.text),
      ("endpoint".toList, endpointJson c.host c.port.value), ("config".toList, configJson c.database)] ++
    optionalText "teamId".toList c.teamId)

def FormInput.json (input : FormInput) : Json :=
  .object (("connection".toList, input.connection.json) ::
    match input.secret with
    | none => []
    | some secret => [("secret".toList, secret.json)])

/-- The body of the `POST`. -/
def FormInput.body (input : FormInput) : Text := writeJson .browser [] [] input.json

/-! ## The server -/

def endpointFields : StructFields (Text × Nat) :=
  [textField "host".toList Prod.fst fun s text => (text, s.2),
    ("port".toList, fun s v => (decodeUint16 s.2 v).map fun port => (s.1, port))]

/-- The endpoint as `validateConnectionInput` reads it. -/
def unmarshalEndpoint (text : Text) : Option (Text × Nat) :=
  (readJson text).bind (decodeObject false endpointFields ([], 0))

/-- A runtime that reads endpoints as `json.Unmarshal` does. -/
def withJson (rt : Registry.Runtime) : Registry.Runtime := { rt with endpoint := unmarshalEndpoint }

def secretFields : StructFields Secret :=
  [textField "username".toList Secret.username fun s text => { s with username := text },
    textField "password".toList Secret.password fun s text => { s with password := text },
    textField "privateKey".toList Secret.privateKey fun s text => { s with privateKey := text },
    textField "passphrase".toList Secret.passphrase fun s text => { s with passphrase := text }]

def connectionFields : StructFields Connection :=
  [textField "id".toList Connection.id fun c text => { c with id := text },
    textField "name".toList Connection.name fun c text => { c with name := text },
    textField "kind".toList Connection.kind fun c text => { c with kind := text },
    textField "driver".toList Connection.driver fun c text => { c with driver := text },
    textField "scope".toList Connection.scope fun c text => { c with scope := text },
    textField "ownerUserId".toList Connection.ownerUserID fun c text => { c with ownerUserID := text },
    textField "teamId".toList Connection.teamID fun c text => { c with teamID := text },
    ("endpoint".toList, fun c v => some { c with endpoint := rawMessage v }),
    ("config".toList, fun c v => some { c with config := rawMessage v }),
    ("hasSecret".toList, fun c v => (decodeBool c.hasSecret v).map fun b => { c with hasSecret := b })]

/-- A pointer to a secret, which `null` sets to nil. -/
def decodeSecret (old : Option Secret) : Json → Option (Option Secret)
  | .null => some none
  | v => (decodeObject true secretFields (old.getD ⟨[], [], [], []⟩) v).map some

def saveInputFields : StructFields SaveInput :=
  [("connection".toList, fun s v =>
      (decodeObject true connectionFields s.connection v).map fun c => { s with connection := c }),
    ("secret".toList, fun s v => (decodeSecret s.secret v).map fun secret => { s with secret := secret })]

def emptyConnection : Connection := ⟨[], [], [], [], [], [], [], [], [], false⟩

/-- What `decodeJSON` makes of the body of a `POST`, if the body is not over its limit. -/
def decodeSaveInput (body : Text) : Option SaveInput :=
  (readJson body).bind (decodeObject true saveInputFields ⟨emptyConnection, none⟩)

/-- The checks that `Create` makes before it seals the secret. -/
def createChecks (newID : Text) (p : Principal) (input : SaveInput) : Except Err Secret := do
  let secret ← requiredSecret input
  authorizeCreate p (newConnection newID p input.connection)
  pure secret

/-- The handler and `Create` let the input through, as far as the database is not asked. -/
def Taken (rt : Registry.Runtime) (newID : Text) (p : Principal) (input : SaveInput) : Prop :=
  validateConnectionInput rt input.connection = .ok () ∧ ∃ secret, createChecks newID p input = .ok secret

/-! ## What the form lets through -/

theorem fieldError_eq_nil {wrong : Bool} {field message : Text} :
    fieldError wrong field message = [] ↔ wrong = false := by
  cases wrong with
  | false => exact iff_of_true rfl rfl
  | true => exact iff_of_false (List.cons_ne_nil _ _) Bool.true_eq_false_eq_False

/-- The rules of a form that makes a new connection. -/
structure FormRules (value : ConnectionFormValue) (teams : List TeamSummary) : Prop where
  name : trim value.name ≠ []
  host : trim value.host ≠ []
  driver : isValidKindDriver value.kind value.driver = true
  team : value.scope = .team → isAdminTeam teams value.teamId = true
  passphrase : value.kind = .ssh → trim value.passphrase ≠ [] → trim value.privateKey ≠ []
  credentials : value.kind = .ssh → trim value.password ≠ [] ∨ trim value.privateKey ≠ []

theorem formErrors_eq_nil (value : ConnectionFormValue) (teams : List TeamSummary) (port : Option Port) :
    formErrors value teams false port = [] ↔ FormRules value teams ∧ port.isSome = true := by
  simp only [formErrors, List.append_eq_nil_iff, fieldError_eq_nil]
  constructor
  · rintro ⟨⟨⟨⟨⟨⟨hname, hhost⟩, hdriver⟩, hteam⟩, hpassphrase⟩, hcredentials⟩, hport⟩
    have hrules : FormRules value teams :=
      { name := of_decide_eq_false hname
        host := of_decide_eq_false hhost
        driver := by simpa using hdriver
        team := by simpa using hteam
        passphrase := by simpa using hpassphrase
        credentials := by
          intro hssh
          by_contra hnone
          rw [not_or, not_not, not_not] at hnone
          simp [hssh, hnone] at hcredentials }
    exact ⟨hrules, by simpa using hport⟩
  · rintro ⟨hrules, hport⟩
    refine ⟨⟨⟨⟨⟨⟨decide_eq_false hrules.name, decide_eq_false hrules.host⟩, ?_⟩, ?_⟩, ?_⟩, ?_⟩, ?_⟩
    · simp [hrules.driver]
    · simpa using hrules.team
    · simpa using hrules.passphrase
    · have hcredentials := hrules.credentials
      by_cases hssh : value.kind = .ssh
      · rcases hcredentials hssh with hpassword | hkey
        · simp [hpassword]
        · simp [hkey]
      · simp [hssh]
    · simpa using hport

/-- An input is made of a form that keeps the rules and has a port. -/
theorem toSaveInput_eq_ok {number : Text → Option Int} {value : ConnectionFormValue} {teams : List TeamSummary}
    {input : FormInput} :
    toSaveInput number value teams false = .ok input ↔
      FormRules value teams ∧ ∃ port, readPort number (rawPort value) = some port ∧
        input = ⟨formConnection value port, formSecret value⟩ := by
  rw [toSaveInput]
  cases hport : readPort number (rawPort value) with
  | none => simp
  | some port =>
    have hiff := formErrors_eq_nil value teams (some port)
    rcases hfields : formErrors value teams false (some port) with _ | ⟨e, rest⟩
    · have hrules := (hiff.1 hfields).1
      simp [hrules, eq_comm]
    · have hrules : ¬ FormRules value teams := by
        intro hrules
        rw [hiff.2 ⟨hrules, rfl⟩] at hfields
        cases hfields
      simp [hrules]

/-! ## What the server reads -/

/-- The input that the server has of a request of the form. -/
def received (input : FormInput) : SaveInput where
  connection :=
    { emptyConnection with
      name := input.connection.name
      kind := input.connection.kind.text
      driver := input.connection.driver.text
      scope := input.connection.scope.text
      teamID := input.connection.teamId.getD []
      endpoint := rawMessage (endpointJson input.connection.host input.connection.port.value)
      config := rawMessage (configJson input.connection.database) }
  secret := input.secret.map fun s =>
    ⟨s.username, s.password.getD [], s.privateKey.getD [], s.passphrase.getD []⟩

theorem validFields_append {fs gs : List (Text × Json)} (hf : ValidFields fs) (hg : ValidFields gs) :
    ValidFields (fs ++ gs) := by
  induction fs with
  | nil => exact hg
  | cons f rest ih => exact ⟨hf.1, ih hf.2⟩

theorem validFields_optionalText (name : Text) (text : Option Text) : ValidFields (optionalText name text) := by
  cases text with
  | none => trivial
  | some text => exact ⟨trivial, trivial⟩

theorem valid_endpointJson (host : Text) (port : Nat) : (endpointJson host port).Valid :=
  ⟨trivial, isJsonNumber_jsonNat port, trivial⟩

theorem valid_connection (c : FormConnection) : c.json.Valid :=
  ⟨trivial, trivial, trivial, trivial, valid_endpointJson _ _, validFields_optionalText _ _,
    validFields_optionalText _ _⟩

theorem valid_secret (s : FormSecret) : s.json.Valid :=
  ⟨trivial, validFields_append (validFields_optionalText _ _)
    (validFields_append (validFields_optionalText _ _) (validFields_optionalText _ _))⟩

theorem valid_input (input : FormInput) : input.json.Valid := by
  refine ⟨valid_connection _, ?_⟩
  cases input.secret with
  | none => trivial
  | some secret => exact ⟨valid_secret secret, trivial⟩

theorem decodeObject_connection (c : FormConnection) (secret : Option FormSecret) :
    decodeObject true connectionFields emptyConnection c.json = some (received ⟨c, secret⟩).connection := by
  obtain ⟨name, kind, driver, scope, host, port, database, teamId⟩ := c
  cases teamId with
  | none => rfl
  | some id => rfl

theorem decodeSecret_json (s : FormSecret) :
    decodeSecret none s.json =
      some (some ⟨s.username, s.password.getD [], s.privateKey.getD [], s.passphrase.getD []⟩) := by
  obtain ⟨username, password, privateKey, passphrase⟩ := s
  cases password <;> cases privateKey <;> cases passphrase <;> rfl

/-- The server reads the input that the form made. -/
theorem decodeSaveInput_body (input : FormInput) : decodeSaveInput input.body = some (received input) := by
  have hread : readJson input.body = some input.json := readJson_writeJson (by simp) (valid_input input)
  obtain ⟨connection, secret⟩ := input
  have hconnection := decodeObject_connection connection secret
  rw [decodeSaveInput, hread, Option.bind_some]
  cases secret with
  | none =>
    show ((decodeObject true connectionFields emptyConnection connection.json).map _).bind _ = _
    rw [hconnection]
    rfl
  | some s =>
    show ((decodeObject true connectionFields emptyConnection connection.json).map _).bind
      (fun s' => decodeStruct true saveInputFields s' [("secret".toList, s.json)]) = _
    rw [hconnection, Option.map_some, Option.bind_some]
    show ((decodeSecret none s.json).map _).bind _ = _
    rw [decodeSecret_json]
    rfl

/-- The server reads the host and the port that the form wrote. -/
theorem unmarshalEndpoint_rawMessage (host : Text) {port : Nat} (h : port < 65536) :
    unmarshalEndpoint (rawMessage (endpointJson host port)) = some (host, port) := by
  have hread : readJson (rawMessage (endpointJson host port)) = some (endpointJson host port) :=
    readJson_writeJson (by simp) (valid_endpointJson host port)
  rw [unmarshalEndpoint, hread, Option.bind_some]
  show ((decodeUint16 0 (.number (Schema.jsonNat port))).map _).bind _ = _
  rw [decodeUint16_jsonNat 0 h]
  rfl

/-! ## Where the two sides agree -/

/-- The two tables of kinds and drivers are one. -/
theorem validKindDriver_text (kind : ConnectionKind) (driver : ConnectionDriver) :
    validKindDriver kind.text driver.text = isValidKindDriver kind driver := by
  cases kind <;> cases driver <;> decide

theorem trimSpace_scope (scope : ConnectionScope) : trimSpace scope.text = scope.text := by
  cases scope <;> decide

theorem scope_text_eq_team {scope : ConnectionScope} : scope.text = "team".toList ↔ scope = .team := by
  cases scope <;> decide

theorem scope_text_eq_personal {scope : ConnectionScope} : scope.text = "personal".toList ↔ scope = .personal := by
  cases scope <;> decide

theorem validateConnectionInput_received (rt : Registry.Runtime) (input : FormInput)
    (hdriver : isValidKindDriver input.connection.kind input.connection.driver = true) :
    validateConnectionInput (withJson rt) (received input).connection = .ok () ↔
      trimSpace input.connection.name ≠ [] ∧ trimSpace input.connection.host ≠ [] ∧
        (input.connection.scope = .team → trimSpace (input.connection.teamId.getD []) ≠ []) := by
  have hkind : validKindDriver input.connection.kind.text input.connection.driver.text = true := by
    rw [validKindDriver_text, hdriver]
  have hscope : ¬ (input.connection.scope.text ≠ "personal".toList ∧
      input.connection.scope.text ≠ "team".toList) := by
    cases input.connection.scope <;> decide
  have hendpoint : (withJson rt).endpoint (rawMessage (endpointJson input.connection.host
      input.connection.port.value)) = some (input.connection.host, input.connection.port.value) :=
    unmarshalEndpoint_rawMessage _ input.connection.port.lt
  have hport : input.connection.port.value ≠ 0 := input.connection.port.pos.ne'
  simp only [validateConnectionInput, received, guard_eq_ok, hkind, hendpoint, scope_text_eq_team, hport, or_false,
    Bool.true_eq_false, not_false_eq_true, true_and, not_and]
  simp only [not_and] at hscope
  tauto

theorem scope_newConnection (newID : Text) (p : Principal) (c : Connection) :
    (newConnection newID p c).scope = trimSpace c.scope := by
  rw [newConnection]
  split <;> rfl

theorem teamID_newConnection {newID : Text} {p : Principal} {c : Connection}
    (h : trimSpace c.scope ≠ "personal".toList) : (newConnection newID p c).teamID = trimSpace c.teamID := by
  have hteam : (normalizeConnectionForCreate p c).teamID = trimSpace c.teamID := if_neg h
  rw [newConnection]
  split
  · exact hteam
  · exact hteam

theorem authorizeCreate_received (newID : Text) (p : Principal) (input : FormInput) :
    authorizeCreate p (newConnection newID p (received input).connection) = .ok () ↔
      p.user.disabled = false ∧ (input.connection.scope = .personal → p.user.id ≠ []) ∧
        (input.connection.scope = .team → isSystemAdmin p = true ∨
          teamRole p (trimSpace (input.connection.teamId.getD [])) = "admin".toList) := by
  have hscope : (newConnection newID p (received input).connection).scope = input.connection.scope.text := by
    rw [scope_newConnection]
    exact trimSpace_scope _
  rw [authorizeCreate, hscope]
  cases hs : input.connection.scope with
  | personal =>
    rw [if_pos (scope_text_eq_personal.2 rfl)]
    by_cases hid : p.user.id = []
    · simp [hid]
    · simp [hid]
  | team =>
    have hteamID : (newConnection newID p (received input).connection).teamID =
        trimSpace (input.connection.teamId.getD []) := by
      apply teamID_newConnection
      show trimSpace input.connection.scope.text ≠ _
      rw [trimSpace_scope, hs]
      decide
    rw [if_neg (by decide), if_pos (scope_text_eq_team.2 rfl), hteamID]
    by_cases hsystem : isSystemAdmin p = true
    · simp [hsystem]
    · simp [hsystem]

theorem given_getD (text : Text) : (given text).getD [] = text := by
  rw [given]
  split
  · next h => exact h.symm
  · rfl

theorem requiredSecret_eq_ok {input : SaveInput} :
    (∃ secret, requiredSecret input = .ok secret) ↔ ∃ secret, input.secret = some secret ∧ secret.empty = false := by
  rw [requiredSecret]
  cases input.secret with
  | none => simp
  | some secret => cases hempty : secret.empty <;> simp [hempty]

/-- A form for an `ssh` connection always has a secret, one for a database only with a password. -/
theorem requiredSecret_received {value : ConnectionFormValue} {teams : List TeamSummary} (port : Port)
    (h : FormRules value teams) :
    (∃ secret, requiredSecret (received ⟨formConnection value port, formSecret value⟩) = .ok secret) ↔
      (value.kind = .database → trim value.password ≠ []) := by
  rw [requiredSecret_eq_ok]
  cases hkind : value.kind with
  | database =>
    by_cases hpassword : trim value.password = []
    · have hnone : formSecret value = none := by simp [formSecret, hkind, hpassword]
      simp [received, hnone, hpassword]
    · have hsome : formSecret value = some ⟨trim value.username, some (trim value.password), none, none⟩ := by
        simp [formSecret, hkind, hpassword]
      simp [received, hsome, hpassword, Secret.empty]
  | ssh =>
    have hcredentials := h.credentials hkind
    have hsome : formSecret value = some ⟨trim value.username, given (trim value.password),
        given (trim value.privateKey),
        if trim value.privateKey = [] then none else given (trim value.passphrase)⟩ := by
      simp [formSecret, hkind, hcredentials]
    refine iff_of_true ⟨_, congrArg (Option.map _) hsome, ?_⟩ (fun hdatabase => by cases hdatabase)
    rcases hcredentials with hpassword | hkey
    · simp [given_getD, Secret.empty, hpassword]
    · simp [given_getD, Secret.empty, hkey]

/-! ## The agreement -/

/-- A principal that is an admin of exactly the teams that are marked so. -/
def AdminOfMarked (p : Principal) (teams : List TeamSummary) : Prop :=
  ∀ id, teamRole p id = "admin".toList ↔ isAdminTeam teams id = true

/-- What the server asks of a form beyond the rules of the form. It trims once more, with the white space of Go. -/
structure ServerRules (value : ConnectionFormValue) (teams : List TeamSummary) (p : Principal) : Prop where
  password : value.kind = .database → trim value.password ≠ []
  name : trimSpace (trim value.name) ≠ []
  host : trimSpace (trim value.host) ≠ []
  enabled : p.user.disabled = false
  personal : value.scope = .personal → p.user.id ≠ []
  teamId : value.scope = .team → trimSpace value.teamId ≠ []
  admin : value.scope = .team → isSystemAdmin p = true ∨ isAdminTeam teams (trimSpace value.teamId) = true

theorem createChecks_eq_ok {newID : Text} {p : Principal} {input : SaveInput} :
    (∃ secret, createChecks newID p input = .ok secret) ↔
      (∃ secret, requiredSecret input = .ok secret) ∧
        authorizeCreate p (newConnection newID p input.connection) = .ok () := by
  simp only [createChecks, bind_eq_ok]
  constructor
  · rintro ⟨secret, s, hs, ⟨⟩, hauth, -⟩
    exact ⟨⟨s, hs⟩, hauth⟩
  · rintro ⟨⟨s, hs⟩, hauth⟩
    exact ⟨s, s, hs, (), hauth, rfl⟩

/-- What the checks refuse is not created. -/
theorem create_of_createChecks {rt : Registry.Runtime} {keys : Keyring} {newID : Text} {nonce : Nonce} {p : Principal}
    {input : SaveInput} {db : Db} {e : Err} (h : createChecks newID p input = .error e) :
    create rt keys newID nonce p input db = .error e := by
  rw [createChecks] at h
  rw [create]
  cases hsecret : requiredSecret input with
  | error e' =>
    have he : (Except.error e' : Except Err Secret) = .error e := by rwa [hsecret] at h
    cases he
    rfl
  | ok secret =>
    cases hauth : authorizeCreate p (newConnection newID p input.connection) with
    | error e' =>
      have he : (Except.error e' : Except Err Secret) = .error e := by
        rw [hsecret] at h
        simpa only [hauth, bind, Except.bind] using h
      cases he
      simp only [hauth, bind, Except.bind]
    | ok u =>
      rw [hsecret] at h
      simp only [hauth, bind, Except.bind] at h
      cases h

/-- **An input of the form passes the checks of the server if and only if the form keeps the rules of the server.** -/
theorem toSaveInput_taken_iff (number : Text → Option Int) (rt : Registry.Runtime) (newID : Text)
    {value : ConnectionFormValue} {teams : List TeamSummary} {p : Principal} {input : FormInput}
    (hadmin : AdminOfMarked p teams) (hinput : toSaveInput number value teams false = .ok input) :
    (∃ request, decodeSaveInput input.body = some request ∧ Taken (withJson rt) newID p request) ↔
      ServerRules value teams p := by
  obtain ⟨hrules, port, -, rfl⟩ := toSaveInput_eq_ok.1 hinput
  have hvalidate := validateConnectionInput_received rt ⟨formConnection value port, formSecret value⟩ hrules.driver
  have hauthorize := authorizeCreate_received newID p ⟨formConnection value port, formSecret value⟩
  have hsecret := requiredSecret_received port hrules
  have hteamId : value.scope = .team → (formConnection value port).teamId.getD [] = value.teamId := by
    intro hteam
    simp [formConnection, hteam]
  rw [decodeSaveInput_body]
  simp only [Option.some.injEq, exists_eq_left', Taken, createChecks_eq_ok, hvalidate, hauthorize, hsecret]
  constructor
  · rintro ⟨⟨hname, hhost, hid⟩, hpassword, henabled, hpersonal, hrole⟩
    refine ⟨hpassword, hname, hhost, henabled, hpersonal, ?_, ?_⟩
    · intro hteam
      rw [← hteamId hteam]
      exact hid hteam
    · intro hteam
      rw [← hteamId hteam, ← hadmin]
      exact hrole hteam
  · intro h
    refine ⟨⟨h.name, h.host, ?_⟩, h.password, h.enabled, h.personal, ?_⟩
    · intro hteam
      rw [hteamId hteam]
      exact h.teamId hteam
    · intro hteam
      rw [hteamId hteam, hadmin]
      exact h.admin hteam

/-- `Number` of a text of digits. -/
def decimal (text : Text) : Option Int := if text.all Char.isDigit then some (Schema.readNat text).1 else none

def teamOneId : Text := "team_one".toList

def memberOf (teams : List (Text × Role)) : Principal :=
  ⟨⟨"usr_1".toList, "ada".toList, "Ada".toList, .member, false⟩, teams⟩

def cacheForm : ConnectionFormValue where
  name := "Cache".toList
  kind := .database
  driver := .redis
  scope := .personal
  teamId := []
  host := "127.0.0.1".toList
  port := "6379".toList
  database := []
  username := []
  password := []
  privateKey := []
  passphrase := []

def teamForm : ConnectionFormValue :=
  { cacheForm with scope := .team, teamId := teamOneId, password := "secret".toList }

def teamOne : TeamSummary := ⟨teamOneId, "Team One".toList, "admin".toList⟩

theorem adminOfMarked_teamOne : AdminOfMarked (memberOf [(teamOneId, .admin)]) [teamOne] := by
  intro id
  by_cases hid : id = teamOneId
  · subst hid
    decide
  · have hrole : teamRole (memberOf [(teamOneId, .admin)]) id = [] := by
      simp [teamRole, memberOf, Ne.symm hid]
    have hteam : isAdminTeam [teamOne] id = false := by simp [isAdminTeam, teamOne, Ne.symm hid]
    rw [hrole, hteam]
    decide

/-- The form of a team, sent by a user who is an admin of the team. -/
theorem toSaveInput_taken_iff_team :
    ∃ input, toSaveInput decimal teamForm [teamOne] false = .ok input ∧
      ∃ request, decodeSaveInput input.body = some request ∧
        Taken (withJson default) "conn_1".toList (memberOf [(teamOneId, .admin)]) request := by
  have hinput : toSaveInput decimal teamForm [teamOne] false =
      .ok ⟨formConnection teamForm ⟨6379, by decide, by decide⟩, formSecret teamForm⟩ := rfl
  have hrules : ServerRules teamForm [teamOne] (memberOf [(teamOneId, .admin)]) :=
    ⟨by decide, by decide, by decide, rfl, by decide, by decide, by decide⟩
  exact ⟨_, hinput, (toSaveInput_taken_iff decimal default _ adminOfMarked_teamOne hinput).2 hrules⟩

/-- A cache without a password: the form takes it, `Create` asks for a secret. -/
theorem toSaveInput_without_password :
    AdminOfMarked (memberOf []) [] ∧
      ∃ input request, toSaveInput decimal cacheForm [] false = .ok input ∧
        decodeSaveInput input.body = some request ∧
        (∀ keys nonce db, create (withJson default) keys "conn_1".toList nonce (memberOf []) request db =
          .error (.message "secret is required".toList)) ∧
        ¬ Taken (withJson default) "conn_1".toList (memberOf []) request := by
  have hrefused : createChecks "conn_1".toList (memberOf []) (received ⟨formConnection cacheForm ⟨6379, by decide,
      by decide⟩, none⟩) = .error (.message "secret is required".toList) := rfl
  refine ⟨fun id => iff_of_false (by simp [teamRole, memberOf]) (by simp [isAdminTeam]), _, _, rfl,
    decodeSaveInput_body _, fun _ _ _ => create_of_createChecks hrefused, ?_⟩
  rintro ⟨-, secret, hsecret⟩
  cases hrefused.symm.trans hsecret

end Workbench.Web
