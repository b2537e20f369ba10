import Workbench.Lib.HostPort

/-!
# Data source names of MySQL

`FormatDSN` and `ParseDSN` of the MySQL driver as far as `buildDSN` of `api/internal/db/driver.go` goes: user and
password are written as they are, the database is percent-encoded, and the reader looks for the last slash, the last at
sign in front of it and the first colon of what is in front of that. `parseDSN_eq_some` says what never comes out, and
`parseDSN_formatDSN` what comes back.
-/

set_option autoImplicit false

namespace Workbench.Network

open Workbench.Lib

/-- What `url.PathEscape` keeps. -/
def keepPathSegment : UInt8 → Bool := keepAlso "$&+:=@".toList

/-- The fields of `mysql.Config` that `buildDSN` sets. -/
structure MysqlConfig where
  user : List UInt8
  passwd : List UInt8
  net : List UInt8
  addr : List UInt8
  dbName : List UInt8
  parseTime : Bool
  tlsConfig : List UInt8
  deriving DecidableEq

namespace MysqlConfig

/-! ## Writing -/

variable (cfg : MysqlConfig)

def credentials : List UInt8 :=
  if cfg.user = [] then []
  else cfg.user ++ ((if cfg.passwd = [] then [] else colonByte :: cfg.passwd) ++ [byteOf '@'])

def network : List UInt8 :=
  if cfg.net = [] then []
  else cfg.net ++ (if cfg.addr = [] then [] else byteOf '(' :: (cfg.addr ++ [byteOf ')']))

def params : List (List UInt8) :=
  (if cfg.parseTime then [ascii "parseTime=true".toList] else []) ++
    (if cfg.tlsConfig = [] then [] else [ascii "tls=".toList ++ queryEscape cfg.tlsConfig])

def formatDSN : List UInt8 :=
  cfg.credentials ++ (cfg.network ++ byteOf '/' :: (percentEncode keepPathSegment cfg.dbName ++
    (if cfg.params = [] then [] else byteOf '?' :: [byteOf '&'].intercalate cfg.params)))

end MysqlConfig

/-! ## Reading -/

def readBool (value : List UInt8) : Option Bool :=
  if (["1", "true", "TRUE", "True"].map fun s => ascii s.toList).contains value then some true
  else if (["0", "false", "FALSE", "False"].map fun s => ascii s.toList).contains value then some false
  else none

/-- An ASCII letter in lower case. -/
def lowerByte (b : UInt8) : UInt8 := if 65 ≤ b.toNat && b.toNat ≤ 90 then b + 32 else b

/-- The TLS configuration that a parameter names. -/
def readTLS (value : List UInt8) : Option (List UInt8) :=
  match readBool value with
  | some flag => some (ascii (if flag then "true".toList else "false".toList))
  | none =>
    if (["skip-verify", "preferred"].map fun s => ascii s.toList).contains (value.map lowerByte) then
      some (value.map lowerByte)
    else queryUnescape value

/-- The two parameters that `buildDSN` writes; the others are passed over. -/
def parseParam (cfg : MysqlConfig) (param : List UInt8) : Option MysqlConfig :=
  match cutFirst (byteOf '=') param with
  | none => some cfg
  | some (key, value) =>
    if key = ascii "parseTime".toList then (readBool value).map fun flag => { cfg with parseTime := flag }
    else if key = ascii "tls".toList then (readTLS value).map fun name => { cfg with tlsConfig := name }
    else some cfg

def parseDSNParams (cfg : MysqlConfig) (params : List UInt8) : Option MysqlConfig :=
  (params.splitOn (byteOf '&')).foldlM parseParam cfg

/-- A port is added where the address has none. -/
def ensureHavePort (addr : List UInt8) : List UInt8 :=
  if splitHostPort addr = none then joinHostPort addr (ascii "3306".toList) else addr

/-- The names of TLS configurations that need not be registered. -/
def knownTLSConfigs : List (List UInt8) :=
  ["", "false", "true", "skip-verify", "preferred"].map fun s => ascii s.toList

/-- The address with its defaults; there are none for other nets. -/
def normalizeAddr (net addr : List UInt8) : Option (List UInt8) :=
  if addr = [] then
    if net = ascii "tcp".toList then some (ascii "127.0.0.1:3306".toList)
    else if net = ascii "unix".toList then some (ascii "/tmp/mysql.sock".toList)
    else none
  else some (if net = ascii "tcp".toList then ensureHavePort addr else addr)

/-- A name of a TLS configuration has to be known, and none is registered. -/
def MysqlConfig.normalize (cfg : MysqlConfig) : Option MysqlConfig :=
  let net := if cfg.net = [] then ascii "tcp".toList else cfg.net
  if knownTLSConfigs.contains cfg.tlsConfig then
    (normalizeAddr net cfg.addr).map fun addr => { cfg with net := net, addr := addr }
  else none

/-- The user in front of the first colon. -/
def parseCredentials (credentials : List UInt8) : List UInt8 × List UInt8 :=
  (cutFirst colonByte credentials).getD (credentials, [])

/-- An address has to end right in front of the slash. -/
def parseNetwork (network : List UInt8) : Option (List UInt8 × List UInt8) :=
  match cutFirst (byteOf '(') network with
  | none => some (network, [])
  | some (net, addr) => if addr.getLast? = some (byteOf ')') then some (net, addr.dropLast) else none

/-- What is in front of the last slash. -/
def parseLeft (left : List UInt8) : Option ((List UInt8 × List UInt8) × (List UInt8 × List UInt8)) :=
  match cutLast (byteOf '@') left with
  | none => (parseNetwork left).map fun network => (([], []), network)
  | some (credentials, network) => (parseNetwork network).map fun network => (parseCredentials credentials, network)

def newMysqlConfig : MysqlConfig := ⟨[], [], [], [], [], false, []⟩

def parseDSN (dsn : List UInt8) : Option MysqlConfig :=
  match cutLast (byteOf '/') dsn with
  | none => if dsn = [] then newMysqlConfig.normalize else none
  | some (left, right) => do
    let ((user, passwd), net, addr) ← parseLeft left
    let cut := (cutFirst (byteOf '?') right).getD (right, [])
    let cfg ← parseDSNParams { newMysqlConfig with user := user, passwd := passwd, net := net, addr := addr } cut.2
    let dbName ← percentDecode cut.1
    ({ cfg with dbName := dbName } : MysqlConfig).normalize

/-! ## What can come out -/

section

variable {cfg cfg' : MysqlConfig}

/-- The parameters change two fields only. -/
theorem parseParam_keeps {param : List UInt8} (h : parseParam cfg param = some cfg') :
    cfg' = { cfg with parseTime := cfg'.parseTime, tlsConfig := cfg'.tlsConfig } := by
  rw [parseParam] at h
  split at h
  · cases h
    rfl
  · split_ifs at h
    · obtain ⟨flag, -, rfl⟩ := Option.map_eq_some_iff.1 h
      rfl
    · obtain ⟨name, -, rfl⟩ := Option.map_eq_some_iff.1 h
      rfl
    · cases h
      rfl

theorem parseDSNParams_keeps {params : List UInt8} (h : parseDSNParams cfg params = some cfg') :
    cfg' = { cfg with parseTime := cfg'.parseTime, tlsConfig := cfg'.tlsConfig } := by
  rw [parseDSNParams] at h
  generalize params.splitOn (byteOf '&') = parts at h
  -- By induction over the parameters: what one leaves alone the next finds as it was.
  induction parts generalizing cfg with
  | nil =>
    cases h
    rfl
  | cons part rest ih =>
    obtain ⟨next, hnext, h⟩ := Option.bind_eq_some_iff.1 h
    rw [ih h, parseParam_keeps hnext]

/-- No port is added that has an at sign. -/
theorem at_not_mem_ensureHavePort {addr : List UInt8} (h : byteOf '@' ∉ addr) : byteOf '@' ∉ ensureHavePort addr := by
  rw [ensureHavePort]
  split_ifs with hport
  · rw [joinHostPort]
    have hrest : byteOf '@' ∉ colonByte :: ascii "3306".toList := by decide
    split_ifs with hcolon
    · simp only [List.mem_cons, List.mem_append, not_or]
      simp only [List.mem_cons, not_or] at hrest
      exact ⟨by decide, h, by decide, hrest⟩
    · simp only [List.mem_append, not_or]
      exact ⟨h, hrest⟩
  · -- There is a port already.
    exact h

theorem at_not_mem_normalizeAddr {net addr addr' : List UInt8} (h : normalizeAddr net addr = some addr')
    (hat : byteOf '@' ∉ addr) : byteOf '@' ∉ addr' := by
  rw [normalizeAddr] at h
  split_ifs at h
  · cases h
    decide
  · cases h
    decide
  · cases h
    exact at_not_mem_ensureHavePort hat
  · cases h
    exact hat

/-- The defaults leave everything but the net and the address alone. -/
theorem normalize_keeps (h : cfg.normalize = some cfg') :
    cfg' = { cfg with net := cfg'.net, addr := cfg'.addr } ∧ cfg.tlsConfig ∈ knownTLSConfigs ∧
      (byteOf '@' ∉ cfg.addr → byteOf '@' ∉ cfg'.addr) := by
  obtain ⟨hknown, h⟩ := Option.ite_none_right_eq_some.1 h
  obtain ⟨addr, haddr, rfl⟩ := Option.map_eq_some_iff.1 h
  exact ⟨rfl, List.contains_iff_mem.1 hknown, at_not_mem_normalizeAddr haddr⟩

/-- The user has no colon, as it ends at the first one. -/
theorem colon_not_mem_parseCredentials (credentials : List UInt8) : colonByte ∉ (parseCredentials credentials).1 := by
  rw [parseCredentials]
  cases hcut : cutFirst colonByte credentials with
  | none => exact cutFirst_eq_none.1 hcut
  | some cut => exact (cutFirst_eq_some hcut).2

theorem mem_of_parseNetwork {network net addr : List UInt8} (h : parseNetwork network = some (net, addr)) {b : UInt8}
    (hb : b ∈ addr) : b ∈ network := by
  rw [parseNetwork] at h
  split at h
  · cases h
    cases hb
  · next front back hcut =>
      split_ifs at h
      cases h
      rw [(cutFirst_eq_some hcut).1]
      exact List.mem_append_right _ (List.mem_cons_of_mem _ (List.mem_of_mem_dropLast hb))

/-- The user ends at the first colon and the address begins behind the last at sign. -/
theorem parseLeft_eq_some {left user passwd net addr : List UInt8}
    (h : parseLeft left = some ((user, passwd), net, addr)) : colonByte ∉ user ∧ byteOf '@' ∉ addr := by
  rw [parseLeft] at h
  split at h
  · -- Without an at sign there is no user, and none can be in the address.
    next hcut =>
      obtain ⟨network, hnetwork, heq⟩ := Option.map_eq_some_iff.1 h
      cases heq
      exact ⟨List.not_mem_nil, fun hmem => cutLast_eq_none.1 hcut (mem_of_parseNetwork hnetwork hmem)⟩
  · -- The address is a part of what is behind the last at sign.
    next credentials network hcut =>
      obtain ⟨found, hfound, heq⟩ := Option.map_eq_some_iff.1 h
      obtain ⟨hcredentials, rfl⟩ := Prod.mk.inj heq
      have hcolon := colon_not_mem_parseCredentials credentials
      rw [hcredentials] at hcolon
      exact ⟨hcolon, fun hmem => (cutLast_eq_some hcut).2 (mem_of_parseNetwork hfound hmem)⟩

/-- **What the reader never gives**: a user with a colon, an address with an at sign, an unknown TLS configuration. -/
theorem parseDSN_eq_some {dsn : List UInt8} (h : parseDSN dsn = some cfg) :
    colonByte ∉ cfg.user ∧ byteOf '@' ∉ cfg.addr ∧ cfg.tlsConfig ∈ knownTLSConfigs := by
  rw [parseDSN] at h
  split at h
  · -- The empty name gets its defaults.
    split_ifs at h
    cases h
    decide
  · next left right hcut =>
      obtain ⟨⟨⟨user, passwd⟩, net, addr⟩, hleft, h⟩ := Option.bind_eq_some_iff.1 h
      obtain ⟨hcolon, hat⟩ := parseLeft_eq_some hleft
      obtain ⟨read, hread, h⟩ := Option.bind_eq_some_iff.1 h
      obtain ⟨dbName, -, h⟩ := Option.bind_eq_some_iff.1 h
      -- Neither parameters nor defaults touch the user, and no default has an at sign.
      have hkeeps := parseDSNParams_keeps hread
      obtain ⟨hsame, hknown, haddr⟩ := normalize_keeps h
      rw [hkeeps] at hsame hknown haddr
      rw [hsame]
      exact ⟨hcolon, haddr hat, hknown⟩

end

/-! ## What comes back -/

theorem slash_not_mem_dbName (s : List UInt8) : byteOf '/' ∉ percentEncode keepPathSegment s :=
  not_mem_percentEncode (by decide) (by decide) (by decide) s

theorem mark_not_mem_dbName (s : List UInt8) : byteOf '?' ∉ percentEncode keepPathSegment s :=
  not_mem_percentEncode (by decide) (by decide) (by decide) s

section

variable {cfg : MysqlConfig} (huser : cfg.user ≠ []) (hcolon : colonByte ∉ cfg.user)
  (hnet : cfg.net = ascii "tcp".toList)
  (hat : byteOf '@' ∉ cfg.addr) (haddr : splitHostPort cfg.addr ≠ none) (htime : cfg.parseTime = true)
  (htls : cfg.tlsConfig ∈ ["false", "skip-verify", "preferred"].map fun s => ascii s.toList)

include htime htls in
/-- The parameters without slashes. -/
theorem params_read (cfg' : MysqlConfig) :
    byteOf '/' ∉ [byteOf '&'].intercalate cfg.params ∧
      parseDSNParams cfg' ([byteOf '&'].intercalate cfg.params) =
        some { cfg' with parseTime := true, tlsConfig := cfg.tlsConfig } := by
  rw [MysqlConfig.params, htime]
  simp only [List.map_cons, List.map_nil, List.mem_cons, List.not_mem_nil, or_false] at htls
  -- The query is a closed text for each of the three names.
  rcases htls with htls | htls | htls
  · rw [htls]
    exact ⟨by decide, rfl⟩
  · rw [htls]
    exact ⟨by decide, rfl⟩
  · rw [htls]
    exact ⟨by decide, rfl⟩

include huser hcolon in
theorem parseCredentials_credentials : ∃ front, cfg.credentials = front ++ [byteOf '@'] ∧
    parseCredentials front = (cfg.user, cfg.passwd) := by
  rw [MysqlConfig.credentials, if_neg huser]
  split_ifs with hpasswd
  · -- Without a password there is no colon either.
    refine ⟨cfg.user, by simp, ?_⟩
    rw [parseCredentials, cutFirst_eq_none.2 hcolon, hpasswd]
    rfl
  · refine ⟨cfg.user ++ colonByte :: cfg.passwd, by simp, ?_⟩
    rw [parseCredentials, cutFirst_append hcolon]
    rfl

include haddr in
theorem addr_ne_nil : cfg.addr ≠ [] := by
  intro hnil
  rw [hnil] at haddr
  exact haddr rfl

include hnet haddr in
theorem parseNetwork_network : cfg.network = ascii "tcp(".toList ++ (cfg.addr ++ [byteOf ')']) ∧
    parseNetwork cfg.network = some (cfg.net, cfg.addr) := by
  have hne := addr_ne_nil haddr
  have hnetwork : cfg.network = ascii "tcp".toList ++ byteOf '(' :: (cfg.addr ++ [byteOf ')']) := by
    rw [MysqlConfig.network, if_neg (by rw [hnet]; decide), if_neg hne, hnet]
  refine ⟨hnetwork, ?_⟩
  rw [hnetwork, parseNetwork, cutFirst_append (by decide)]
  simp [hnet]

include huser hcolon hnet hat haddr in
theorem parseLeft_formatDSN :
    parseLeft (cfg.credentials ++ cfg.network) = some ((cfg.user, cfg.passwd), cfg.net, cfg.addr) := by
  obtain ⟨front, hfront, hcredentials⟩ := parseCredentials_credentials huser hcolon
  obtain ⟨hform, hnetwork⟩ := parseNetwork_network hnet haddr
  -- The last at sign is the one that was written.
  have hnot : byteOf '@' ∉ cfg.network := by
    rw [hform, List.mem_append, List.mem_append, not_or, not_or]
    exact ⟨by decide, hat, by decide⟩
  rw [hfront, List.append_assoc, List.singleton_append, parseLeft, cutLast_append hnot]
  simp only [hnetwork, hcredentials, Option.map_some]

include hnet haddr htls in
/-- There is nothing to add. -/
theorem normalize_self : cfg.normalize = some cfg := by
  have hknown : knownTLSConfigs.contains cfg.tlsConfig = true := by
    simp only [List.map_cons, List.map_nil, List.mem_cons, List.not_mem_nil, or_false] at htls
    rcases htls with htls | htls | htls
    all_goals
      rw [htls]
      decide
  have hport : normalizeAddr cfg.net cfg.addr = some cfg.addr := by
    rw [normalizeAddr, if_neg (addr_ne_nil haddr), if_pos hnet, ensureHavePort, if_neg haddr]
  have hne : cfg.net ≠ [] := by
    rw [hnet]
    decide
  rw [MysqlConfig.normalize, if_pos hknown, if_neg hne, hport]
  rfl

include huser hcolon hnet hat haddr htime htls in
/-- **A data source name is read back** if its user has no colon and its address no at sign. -/
theorem parseDSN_formatDSN : parseDSN cfg.formatDSN = some cfg := by
  obtain ⟨hslash, hread⟩ := params_read htime htls
    { newMysqlConfig with user := cfg.user, passwd := cfg.passwd, net := cfg.net, addr := cfg.addr }
  have hparams : cfg.params ≠ [] := by simp [MysqlConfig.params, htime]
  have hform : cfg.formatDSN = (cfg.credentials ++ cfg.network) ++ byteOf '/' ::
      (percentEncode keepPathSegment cfg.dbName ++ byteOf '?' :: [byteOf '&'].intercalate cfg.params) := by
    rw [MysqlConfig.formatDSN, if_neg hparams, List.append_assoc]
  -- The database is encoded, so the last slash is the one that was written, too.
  have hright : byteOf '/' ∉
      percentEncode keepPathSegment cfg.dbName ++ byteOf '?' :: [byteOf '&'].intercalate cfg.params := by
    rw [List.mem_append, List.mem_cons, not_or, not_or]
    exact ⟨slash_not_mem_dbName _, by decide, hslash⟩
  have hleft := parseLeft_formatDSN huser hcolon hnet hat haddr
  have hdbName : percentDecode (percentEncode keepPathSegment cfg.dbName) = some cfg.dbName :=
    percentDecode_percentEncode (by decide) _
  rw [hform, parseDSN, cutLast_append hright]
  simp only [hleft, cutFirst_append (mark_not_mem_dbName _), Option.getD_some, hread, hdbName, Option.bind_eq_bind,
    Option.bind_some]
  rw [← htime]
  exact normalize_self hnet haddr htls

end

end Workbench.Network
