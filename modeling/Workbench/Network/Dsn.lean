import Workbench.Network.Dialing
import Workbench.Network.MysqlDsn
import Workbench.Network.PostgresDsn

/-!
# Connection strings

`buildDSN` of `api/internal/db/driver.go`, and what the driver's own parser makes of its result. `carried_iff` says
exactly for which connections user, password, host, port, database and TLS mode come back.
-/

set_option autoImplicit false

namespace Workbench.Network

open Workbench.Lib

def Driver.name : Driver → Text
  | .mySQL => "mysql".toList
  | .postgreSQL => "postgres".toList
  | .mongoDB => "mongodb".toList
  | .redis => "redis".toList
  | .unsupported name => name

/-- The name of the TLS configuration for a mode of MySQL. -/
def mysqlTLS (mode : Text) : Option Text :=
  if ["", "disabled"].map String.toList |>.contains mode then some "false".toList
  else if ["preferred", "required", "skip-verify"].map String.toList |>.contains mode then some mode
  else none

/-- The mode of PostgreSQL, with its default. -/
def postgresTLS (mode : Text) : Option Text :=
  let sslmode := if mode = [] then "prefer".toList else mode
  if ["disable", "allow", "prefer", "require", "verify-ca", "verify-full"].map String.toList |>.contains sslmode then
    some sslmode
  else none

/-- What a configuration of the driver says of the connection. -/
def MysqlConfig.target (cfg : MysqlConfig) : Option Target := do
  let (host, port) ← splitHostPort cfg.addr
  let port ← readPort port
  some ⟨cfg.user, cfg.passwd, host, port, cfg.dbName, cfg.tlsConfig⟩

/-- What the driver's parser makes of a connection string. -/
def parseWith (env : Surroundings) (driver : Driver) (dsn : List UInt8) : Option Target :=
  match driver with
  | .mySQL => (parseDSN dsn).bind MysqlConfig.target
  | .postgreSQL => env.parseConfig dsn
  | _ => none

namespace ConnectionInput

section

variable (input : ConnectionInput)

/-- `net.JoinHostPort` of the host and the port. -/
def addr : List UInt8 := joinHostPort (utf8Encode input.host) (decimal input.port.toNat)

def mysqlConfig (tls : Text) : MysqlConfig where
  user := utf8Encode input.user
  passwd := utf8Encode input.password
  net := ascii "tcp".toList
  addr := input.addr
  dbName := utf8Encode input.database
  parseTime := true
  tlsConfig := utf8Encode tls

def connURL (sslmode : Text) : ConnURL where
  user := utf8Encode input.user
  password := utf8Encode input.password
  host := input.addr
  path := utf8Encode input.database
  rawQuery := ascii "sslmode=".toList ++ queryEscape (utf8Encode sslmode)

/-- `buildDSN`; how `%q` writes a name is a parameter. -/
def buildDSN (quote : Text → Text) (env : Surroundings) : Except Text (List UInt8) :=
  if input.host = [] ∨ input.port = 0 ∨ input.user = [] then .error "host, port, and user are required".toList
  else
    match input.driver with
    | .mySQL =>
      match mysqlTLS input.tlsMode with
      | some tls => .ok (input.mysqlConfig tls).formatDSN
      | none => .error "invalid MySQL TLS mode".toList
    | .postgreSQL =>
      match postgresTLS input.tlsMode with
      | some sslmode =>
        if (env.parseConfig (input.connURL sslmode).string).isSome then .ok (input.connURL sslmode).string
        else .error "invalid PostgreSQL connection configuration".toList
      | none => .error "invalid PostgreSQL TLS mode".toList
    | driver => .error ("unsupported database driver ".toList ++ quote driver.name)

/-- What is asked for. -/
def target : Target where
  user := utf8Encode input.user
  password := utf8Encode input.password
  host := utf8Encode input.host
  port := input.port.toNat
  database := utf8Encode input.database
  tlsMode :=
    utf8Encode <|
      match input.driver with
      | .mySQL => (mysqlTLS input.tlsMode).getD []
      | .postgreSQL => (postgresTLS input.tlsMode).getD []
      | _ => input.tlsMode

/-- When all of it comes back. MySQL's user must not have a colon and its host neither an at sign nor a bracket, and the
driver knows no TLS mode `required`. -/
def Carries (env : Surroundings) : Prop :=
  match input.driver with
  | .mySQL =>
    ':' ∉ input.user ∧ '@' ∉ input.host ∧ '[' ∉ input.host ∧ ']' ∉ input.host ∧ input.tlsMode ≠ "required".toList
  | .postgreSQL =>
    env.KeepsHost (utf8Encode input.host) ∧ env.KeepsDatabase (utf8Encode input.database) ∧
      (input.password = [] → env.findPassword (utf8Encode input.host) input.port.toNat (utf8Encode input.database)
        (utf8Encode input.user) = [])
  | _ => True

end

end ConnectionInput

/-! ## MySQL -/

section

variable {input : ConnectionInput} {tls : Text}

/-- The TLS modes as the driver gets them. -/
theorem mysqlTLS_eq_some {mode : Text} (h : mysqlTLS mode = some tls) :
    (mode ≠ "required".toList → utf8Encode tls ∈ ["false", "skip-verify", "preferred"].map fun s => ascii s.toList) ∧
      (mode = "required".toList → utf8Encode tls ∉ knownTLSConfigs) := by
  rw [mysqlTLS] at h
  split_ifs at h with hdisabled hmode
  · cases h
    refine ⟨fun _ => by decide, ?_⟩
    rintro rfl
    exact absurd hdisabled (by decide)
  · cases h
    rw [List.contains_iff_mem] at hmode
    simp only [List.map_cons, List.map_nil, List.mem_cons, List.not_mem_nil, or_false] at hmode
    rcases hmode with rfl | rfl | rfl
    · exact ⟨fun _ => by decide, fun heq => absurd heq (by decide)⟩
    · -- This is the mode that the driver does not know.
      exact ⟨fun hne => absurd rfl hne, fun _ => by decide⟩
    · exact ⟨fun _ => by decide, fun heq => absurd heq (by decide)⟩

/-- The marks of a host are those of its address. -/
theorem mark_mem_addr {c : Char} (hascii : c.toNat < 128) (hport : ¬(48 ≤ (byteOf c).toNat ∧ (byteOf c).toNat ≤ 57))
    (hmark : byteOf c ∉ [colonByte, openBracket, closeBracket]) : byteOf c ∈ input.addr ↔ c ∈ input.host := by
  have hnot := not_mem_decimal hport input.port.toNat
  simp only [List.mem_cons, List.not_mem_nil, or_false, not_or] at hmark
  rw [ConnectionInput.addr, joinHostPort, ← byteOf_mem_utf8Encode hascii]
  split_ifs
  · simp only [List.mem_cons, List.mem_append, hmark, hnot, or_false, false_or]
  · simp only [List.mem_cons, List.mem_append, hmark, hnot, or_false]

/-- What comes back has neither a colon in its user nor an at sign in its address. -/
theorem mysql_only_if {cfg : MysqlConfig} {dsn : List UInt8} (hparse : parseDSN dsn = some cfg)
    (htarget : cfg.target = some input.target) (hdriver : input.driver = .mySQL)
    (htls : mysqlTLS input.tlsMode = some tls) :
    ':' ∉ input.user ∧ '@' ∉ input.host ∧ '[' ∉ input.host ∧ ']' ∉ input.host ∧
      input.tlsMode ≠ "required".toList := by
  obtain ⟨hcolon, hat, hknown⟩ := parseDSN_eq_some hparse
  obtain ⟨⟨host, port⟩, hsplit, htarget⟩ := Option.bind_eq_some_iff.1 htarget
  obtain ⟨n, -, htarget⟩ := Option.bind_eq_some_iff.1 htarget
  have hsame := Option.some.inj htarget
  simp only [ConnectionInput.target, Target.mk.injEq, hdriver, htls, Option.getD_some] at hsame
  obtain ⟨huser, -, rfl, -, -, hmode⟩ := hsame
  obtain ⟨-, hopen, hclose, -⟩ := splitHostPort_eq_some hsplit
  -- Each mark would be in what the reader gives, where it never is.
  refine ⟨fun hmem => ?_, fun hmem => ?_, fun hmem => ?_, fun hmem => ?_, fun hrequired => ?_⟩
  · rw [huser] at hcolon
    exact hcolon ((byteOf_mem_utf8Encode (by decide) _).2 hmem)
  · exact hat (mem_of_splitHostPort hsplit ((byteOf_mem_utf8Encode (by decide) _).2 hmem))
  · exact hopen ((byteOf_mem_utf8Encode (by decide) _).2 hmem)
  · exact hclose ((byteOf_mem_utf8Encode (by decide) _).2 hmem)
  · rw [hmode] at hknown
    exact (mysqlTLS_eq_some htls).2 hrequired hknown

theorem mysql_if (huser : input.user ≠ []) (hdriver : input.driver = .mySQL)
    (htls : mysqlTLS input.tlsMode = some tls) (hcolon : ':' ∉ input.user) (hat : '@' ∉ input.host)
    (hopen : '[' ∉ input.host) (hclose : ']' ∉ input.host) (hmode : input.tlsMode ≠ "required".toList) :
    (parseDSN (input.mysqlConfig tls).formatDSN).bind MysqlConfig.target = some input.target := by
  have hsplit : splitHostPort input.addr = some (utf8Encode input.host, decimal input.port.toNat) := by
    refine splitHostPort_joinHostPort ?_ ?_ (not_mem_port_marks _)
    · exact fun hmem => hopen ((byteOf_mem_utf8Encode (by decide) _).1 hmem)
    · exact fun hmem => hclose ((byteOf_mem_utf8Encode (by decide) _).1 hmem)
  have hparse : parseDSN (input.mysqlConfig tls).formatDSN = some (input.mysqlConfig tls) := by
    refine parseDSN_formatDSN ?_ ?_ rfl ?_ ?_ rfl ((mysqlTLS_eq_some htls).1 hmode)
    · exact fun hnil => huser (utf8Encode_eq_nil.1 hnil)
    · exact fun hmem => hcolon ((byteOf_mem_utf8Encode (by decide) _).1 hmem)
    · exact fun hmem => hat ((mark_mem_addr (by decide) (by decide) (by decide)).1 hmem)
    · intro hnone
      rw [ConnectionInput.mysqlConfig, hsplit] at hnone
      cases hnone
  have hport : readPort (decimal input.port.toNat) = some input.port.toNat := readPort_decimal input.port.toNat_lt
  -- Host and port come back from the address.
  rw [hparse, Option.bind_some, MysqlConfig.target, ConnectionInput.mysqlConfig, hsplit]
  simp only [Option.bind_eq_bind, Option.bind_some, hport, ConnectionInput.target, hdriver, htls, Option.getD_some]

end

/-! ## PostgreSQL -/

theorem postgres_iff {env : Surroundings} {input : ConnectionInput} {sslmode : Text} {cfg : Target}
    (hhost : input.host ≠ []) (hport : input.port ≠ 0) (hdriver : input.driver = .postgreSQL)
    (hmode : postgresTLS input.tlsMode = some sslmode) (h : env.parseConfig (input.connURL sslmode).string = some cfg) :
    cfg = input.target ↔ env.KeepsHost (utf8Encode input.host) ∧ env.KeepsDatabase (utf8Encode input.database) ∧
      (input.password = [] → env.findPassword (utf8Encode input.host) input.port.toNat (utf8Encode input.database)
        (utf8Encode input.user) = []) := by
  have hne : utf8Encode input.host ≠ [] := fun hnil => hhost (utf8Encode_eq_nil.1 hnil)
  have hpos : input.port.toNat ≠ 0 := fun hzero => hport (UInt16.toNat_inj.1 hzero)
  have hiff := parseConfig_iff (u := input.connURL sslmode) rfl rfl hne hpos input.port.toNat_lt h
  -- What is asked for is what the URL is made of.
  have htarget : input.target = ⟨utf8Encode input.user, utf8Encode input.password, utf8Encode input.host,
      input.port.toNat, utf8Encode input.database, utf8Encode sslmode⟩ := by
    simp only [ConnectionInput.target, hdriver, hmode, Option.getD_some]
  rw [htarget]
  refine hiff.trans ?_
  rw [ConnectionInput.connURL, utf8Encode_eq_nil]

/-- A connection that is complete, with a mode that MySQL has. -/
theorem buildDSN_mysql {quote : Text → Text} {env : Surroundings} {input : ConnectionInput} {tls : Text}
    (hdriver : input.driver = .mySQL) (hhost : input.host ≠ []) (hport : input.port ≠ 0) (huser : input.user ≠ [])
    (htls : mysqlTLS input.tlsMode = some tls) :
    input.buildDSN quote env = .ok (input.mysqlConfig tls).formatDSN := by
  rw [ConnectionInput.buildDSN, if_neg (by simp [hhost, hport, huser]), hdriver]
  simp only [htls]

/-- **What a connection string carries**: user, password, host, port, database and TLS mode come back from the driver's
own parser exactly where `Carries` holds. -/
theorem carried_iff {quote : Text → Text} {env : Surroundings} {input : ConnectionInput} {dsn : List UInt8}
    (h : input.buildDSN quote env = .ok dsn) :
    parseWith env input.driver dsn = some input.target ↔ input.Carries env := by
  rw [ConnectionInput.buildDSN] at h
  split_ifs at h with hmissing
  simp only [not_or] at hmissing
  obtain ⟨hhost, hport, huser⟩ := hmissing
  cases hdriver : input.driver with
  | mySQL =>
    rw [hdriver] at h
    dsimp only at h
    rw [ConnectionInput.Carries, hdriver, parseWith]
    split at h
    · next tls htls =>
        cases h
        constructor
        · intro hback
          obtain ⟨cfg, hparse, htarget⟩ := Option.bind_eq_some_iff.1 hback
          -- What comes back is the target, so each part went through the grammar unharmed.
          exact mysql_only_if hparse htarget hdriver htls
        · rintro ⟨hcolon, hat, hopen, hclose, hmode⟩
          -- The five conditions are the five places where the grammar could cut a part short.
          exact mysql_if huser hdriver htls hcolon hat hopen hclose hmode
    · cases h
  | postgreSQL =>
    rw [hdriver] at h
    dsimp only at h
    rw [ConnectionInput.Carries, hdriver, parseWith]
    split at h
    · next sslmode hmode =>
        -- The text built is parsed once before it is returned, so a parse of it succeeds.
        split_ifs at h with hparse
        cases h
        obtain ⟨cfg, hcfg⟩ := Option.isSome_iff_exists.1 hparse
        rw [hcfg, Option.some.injEq]
        exact postgres_iff hhost hport hdriver hmode hcfg
    · cases h
  | mongoDB =>
    rw [hdriver] at h
    cases h
  | redis =>
    rw [hdriver] at h
    cases h
  | unsupported name =>
    rw [hdriver] at h
    cases h

/-- There is nothing besides the connection string. -/
def plainSurroundings : Surroundings where
  settings := []
  findPassword := fun _ _ _ _ => []
  acceptsURL := fun _ => true
  acceptsSettings := fun _ => true
  parseKeywordValues := fun _ => none

/-- A connection whose parts hold no mark. -/
def shop : ConnectionInput :=
  ⟨.mySQL, "db.example.com".toList, 3306, "shop".toList, "app".toList, "secret".toList, "preferred".toList⟩

theorem shop_carried : parseWith plainSurroundings shop.driver (shop.mysqlConfig "preferred".toList).formatDSN =
    some shop.target :=
  (carried_iff (@buildDSN_mysql id _ _ _ rfl (by decide) (by decide) (by decide) (by decide))).2
    ⟨by decide, by decide, by decide, by decide, by decide⟩

/-- A user with a colon. -/
def teamUser : ConnectionInput :=
  ⟨.mySQL, "db.example.com".toList, 3306, "shop".toList, "team:app".toList, "secret".toList, "disabled".toList⟩

/-- A part of the user is read as the beginning of the password. -/
theorem not_always_carried : ¬∀ (quote : Text → Text) (env : Surroundings) (input : ConnectionInput) (dsn : List UInt8),
    (∀ text ∈ [input.user, input.password, input.host, input.database], Char.ofNat 0 ∉ text) →
      input.buildDSN quote env = .ok dsn → parseWith env input.driver dsn = some input.target := by
  intro hall
  have htls : mysqlTLS teamUser.tlsMode = some "false".toList := by decide
  have hback := hall id plainSurroundings teamUser _ (by decide)
    (buildDSN_mysql rfl (by decide) (by decide) (by decide) htls)
  have hdriver : teamUser.driver = .mySQL := rfl
  rw [hdriver, parseWith] at hback
  obtain ⟨cfg, hparse, htarget⟩ := Option.bind_eq_some_iff.1 hback
  exact (mysql_only_if hparse htarget hdriver htls).1 (by decide)

end Workbench.Network
