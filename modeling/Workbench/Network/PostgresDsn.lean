import Workbench.Lib.HostPort
import Workbench.Lib.NetIp

/-!
# Connection URLs of PostgreSQL

The URL that `buildDSN` of `api/internal/db/driver.go` writes, and `ParseConfig` of the PostgreSQL driver as far as it
reads user, password, host, port, database and TLS mode. What the driver takes from its surroundings is a parameter,
and so is what `net/url` and the driver refuse besides what is modelled here.
-/

set_option autoImplicit false

namespace Workbench.Network

open Workbench.Lib
open scoped Workbench.Lib.Bytes

/-! ## Writing -/

/-- The fields of `url.URL` that `buildDSN` sets. -/
structure ConnURL where
  user : List UInt8
  password : List UInt8
  host : List UInt8
  path : List UInt8
  rawQuery : List UInt8
  deriving DecidableEq

def keepUserinfo : UInt8 → Bool := keepAlso "$&+,;=".toList

def keepHost : UInt8 → Bool := keepAlso "!$&'()*+,;=:[]<>\"".toList

def keepPath : UInt8 → Bool := keepAlso "$&+,/:;=@".toList

def slash : UInt8 := byteOf '/'

/-- `EscapedPath`: an asterisk is left as it is. -/
def escapedPath (path : List UInt8) : List UInt8 :=
  if path = [byteOf '*'] then path else percentEncode keepPath path

/-- The path with the slash that `String` puts in front. -/
def rootedPath (path : List UInt8) : List UInt8 :=
  let path := escapedPath path
  if path ≠ [] ∧ path.head? ≠ some slash then slash :: path else path

/-- What `String` writes behind the scheme. -/
def ConnURL.behindScheme (u : ConnURL) : List UInt8 :=
  percentEncode keepUserinfo u.user ++ colonByte :: (percentEncode keepUserinfo u.password ++
    byteOf '@' :: (percentEncode keepHost u.host ++ (rootedPath u.path ++ byteOf '?' :: u.rawQuery)))

/-- `String` of a URL with the scheme `postgres`. -/
def ConnURL.string (u : ConnURL) : List UInt8 := ascii "postgres://".toList ++ u.behindScheme

/-! ## Reading -/

/-- What `url.Parse` gives: a user may have no password. -/
structure ParsedURL where
  user : Option (List UInt8 × Option (List UInt8))
  host : List UInt8
  path : List UInt8
  rawQuery : List UInt8
  deriving DecidableEq

def parseUserinfo (userinfo : List UInt8) : Option (List UInt8 × Option (List UInt8)) :=
  match cutFirst colonByte userinfo with
  | none => (percentDecode userinfo).map fun user => (user, none)
  | some (user, password) => do
    let user ← percentDecode user
    let password ← percentDecode password
    some (user, some password)

def parseAuthority (authority : List UInt8) :
    Option (Option (List UInt8 × Option (List UInt8)) × List UInt8) :=
  match cutLast (byteOf '@') authority with
  | none => (percentDecode authority).map fun host => (none, host)
  | some (userinfo, host) => do
    let host ← percentDecode host
    let user ← parseUserinfo userinfo
    some (some user, host)

/-- What is behind the scheme and two slashes. -/
def parseURL (rest : List UInt8) : Option ParsedURL := do
  -- A fragment is left out, then the query, then the path.
  let text := ((cutFirst (byteOf '#') rest).getD (rest, [])).1
  let (text, rawQuery) := (cutFirst (byteOf '?') text).getD (text, [])
  let (authority, path) := ((cutFirst slash text).map fun cut => (cut.1, slash :: cut.2)).getD (text, [])
  let (user, host) ← parseAuthority authority
  let path ← percentDecode path
  some ⟨user, host, path, rawQuery⟩

/-- `parseQuery`: a pair that cannot be read is left out. -/
def parseQuery (rawQuery : List UInt8) : List (List UInt8 × List UInt8) :=
  (rawQuery.splitOn (byteOf '&')).filterMap fun pair =>
    if pair = [] ∨ byteOf ';' ∈ pair then none
    else
      let (key, value) := (cutFirst (byteOf '=') pair).getD (pair, [])
      (queryUnescape key).bind fun key => (queryUnescape value).map fun value => (key, value)

/-- Settings by name; the first of a name counts. -/
abbrev Settings := List (List UInt8 × List UInt8)

def Settings.get (settings : Settings) (name : String) : List UInt8 :=
  (settings.lookup (ascii name.toList)).getD []

/-- `strings.Trim(host, "[]")`. -/
def trimBrackets (host : List UInt8) : List UInt8 :=
  let bracket := fun b => b = openBracket || b = closeBracket
  (host.dropWhile bracket).rdropWhile bracket

def isIPOnly (host : List UInt8) : Bool := isIP (textOf (trimBrackets host)) || !host.contains colonByte

/-- The hosts and the ports of the parts of a host with commas. -/
def splitHosts : List (List UInt8) → Option (List (List UInt8) × List (List UInt8))
  | [] => some ([], [])
  | part :: rest =>
    if part = [] then splitHosts rest
    else if isIPOnly part then (splitHosts rest).map fun found => (trimBrackets part :: found.1, found.2)
    else do
      let (host, port) ← splitHostPort part
      let (hosts, ports) ← splitHosts rest
      some (if host = [] then hosts else host :: hosts, if port = [] then ports else port :: ports)

/-- A setting that is there only if it has a value. -/
def settingOf (name : String) (value : List UInt8) : Settings :=
  if value = [] then [] else [(ascii name.toList, value)]

/-- What the query says counts more than the rest of the URL. -/
def ParsedURL.settings (u : ParsedURL) : Option Settings := do
  let (hosts, ports) ← splitHosts (u.host.splitOn (byteOf ','))
  -- `dbname` is another name of `database`.
  let query := (parseQuery u.rawQuery).map fun (key, value) =>
    (if key = ascii "dbname".toList then ascii "database".toList else key, value)
  let user : Settings :=
    match u.user with
    | none => []
    | some (user, password) =>
      (ascii "user".toList, user) :: (password.map fun password => (ascii "password".toList, password)).toList
  some (query ++ user ++ settingOf "host" ([byteOf ','].intercalate hosts) ++
    settingOf "port" ([byteOf ','].intercalate ports) ++ settingOf "database" (u.path.dropWhile (· = slash)))

/-- What is outside of the connection string: the settings of the environment, of service files and by default, the
password file, what else `url.Parse` and `ParseConfig` check, and how connection strings that are no URLs are read. -/
structure Surroundings where
  settings : Settings
  findPassword : (host : List UInt8) → (port : Nat) → (database user : List UInt8) → List UInt8
  acceptsURL : List UInt8 → Bool
  acceptsSettings : Settings → Bool
  parseKeywordValues : List UInt8 → Option Settings

/-- What a connection is made with: of `pgx.ConnConfig` the fields for the first host, where the TLS mode stands for
the configurations that are made of it. -/
structure Target where
  user : List UInt8
  password : List UInt8
  host : List UInt8
  port : Nat
  database : List UInt8
  tlsMode : List UInt8
  deriving DecidableEq

def parsePort (port : List UInt8) : Option Nat := (readPort port).filter (· ≠ 0)

/-- Where a port is missing, the first one is taken. -/
def targetsOf (ports : List (List UInt8)) (hosts : List (List UInt8)) : Option (List (List UInt8 × Nat)) :=
  hosts.zipIdx.mapM fun (host, i) => (parsePort (ports.getD i (ports.headD []))).map fun port => (host, port)

namespace Surroundings

variable (env : Surroundings)

def parseURLSettings (connString rest : List UInt8) : Option Settings :=
  if env.acceptsURL connString then (parseURL rest).bind ParsedURL.settings else none

def givenSettings (connString : List UInt8) : Option Settings :=
  if (ascii "postgres://".toList).isPrefixOf connString then env.parseURLSettings connString (connString.drop 11)
  else if (ascii "postgresql://".toList).isPrefixOf connString then
    env.parseURLSettings connString (connString.drop 13)
  else env.parseKeywordValues connString

/-- A host for each part between commas. -/
def configOf (settings : Settings) : Option Target := do
  let targets ← targetsOf ((settings.get "port").splitOn (byteOf ',')) ((settings.get "host").splitOn (byteOf ','))
  let (host, port) ← targets.head?
  let user := settings.get "user"
  let database := settings.get "database"
  let password := settings.get "password"
  if env.acceptsSettings settings then
    some ⟨user, if password = [] then env.findPassword host port database user else password, host, port, database,
      settings.get "sslmode"⟩
  else none

def parseConfig (connString : List UInt8) : Option Target := do
  let given ← env.givenSettings connString
  env.configOf (given ++ env.settings)

end Surroundings

/-! ## Reading what was written -/

/-- Marks that are neither kept nor digits do not come out. -/
theorem not_mem_userinfo {b : UInt8} (h : b ∈ ascii ":/?#@".toList) (s : List UInt8) :
    b ∉ percentEncode keepUserinfo s := by
  have hall : ∀ a ∈ ascii ":/?#@".toList, keepUserinfo a = false ∧ a ≠ percent ∧ ∀ n < 16, a ≠ hexByte n := by decide
  obtain ⟨hkeep, hpercent, hhex⟩ := hall b h
  exact not_mem_percentEncode hkeep hpercent hhex s

theorem not_mem_host {b : UInt8} (h : b ∈ ascii "/?#@".toList) (s : List UInt8) : b ∉ percentEncode keepHost s := by
  have hall : ∀ a ∈ ascii "/?#@".toList, keepHost a = false ∧ a ≠ percent ∧ ∀ n < 16, a ≠ hexByte n := by decide
  obtain ⟨hkeep, hpercent, hhex⟩ := hall b h
  exact not_mem_percentEncode hkeep hpercent hhex s

theorem not_mem_escapedPath {b : UInt8} (h : b ∈ ascii "?#".toList) (path : List UInt8) : b ∉ escapedPath path := by
  have hall : ∀ a ∈ ascii "?#".toList, keepPath a = false ∧ a ≠ percent ∧ (∀ n < 16, a ≠ hexByte n) ∧
      a ∉ [byteOf '*'] := by decide
  obtain ⟨hkeep, hpercent, hhex, hstar⟩ := hall b h
  rw [escapedPath]
  split_ifs with hpath
  · rw [hpath]
    exact hstar
  · exact not_mem_percentEncode hkeep hpercent hhex path

theorem not_mem_rootedPath {b : UInt8} (h : b ∈ ascii "?#".toList) (path : List UInt8) : b ∉ rootedPath path := by
  have hnot := not_mem_escapedPath h path
  have hslash : b ≠ slash := by
    rintro rfl
    exact absurd h (by decide)
  rw [rootedPath]
  split_ifs
  · rw [List.mem_cons, not_or]
    exact ⟨hslash, hnot⟩
  · exact hnot

theorem percentDecode_escapedPath (path : List UInt8) : percentDecode (escapedPath path) = some path := by
  rw [escapedPath]
  split_ifs with hpath
  · rw [hpath]
    decide
  · exact percentDecode_percentEncode (by decide) path

/-- The path is read with a slash in front, if it has none. -/
theorem percentDecode_rootedPath (path : List UInt8) : ∃ read, percentDecode (rootedPath path) = some read ∧
    read.dropWhile (· = slash) = path.dropWhile (· = slash) := by
  rw [rootedPath]
  split_ifs
  · refine ⟨slash :: path, ?_, ?_⟩
    · rw [percentDecode_kept (by decide), percentDecode_escapedPath]
      rfl
    · rw [List.dropWhile_cons, if_pos (by decide)]
  · exact ⟨path, percentDecode_escapedPath path, rfl⟩

/-- The path is empty or begins with a slash. -/
theorem cutFirst_rootedPath {authority : List UInt8} (h : slash ∉ authority) (path : List UInt8) :
    ((cutFirst slash (authority ++ rootedPath path)).map fun cut => (cut.1, slash :: cut.2)).getD
      (authority ++ rootedPath path, []) = (authority, rootedPath path) := by
  have hform : rootedPath path = [] ∨ ∃ more, rootedPath path = slash :: more := by
    rw [rootedPath]
    split_ifs with hroot
    · exact Or.inr ⟨_, rfl⟩
    · rw [not_and_or, not_not, not_not] at hroot
      rcases hroot with hnil | hhead
      · exact Or.inl hnil
      · exact Or.inr (List.head?_eq_some_iff.1 hhead)
  -- In both cases the authority ends where it was written to end.
  rcases hform with hnil | ⟨more, hmore⟩
  · rw [hnil, List.append_nil, cutFirst_eq_none.2 h]
    rfl
  · rw [hmore, cutFirst_append h]
    rfl

section

variable (u : ConnURL)

/-- User, password and host of the URL. -/
def ConnURL.authority : List UInt8 :=
  (percentEncode keepUserinfo u.user ++ colonByte :: percentEncode keepUserinfo u.password) ++
    byteOf '@' :: percentEncode keepHost u.host

theorem behindScheme_eq : u.behindScheme = (u.authority ++ rootedPath u.path) ++ byteOf '?' :: u.rawQuery := by
  simp [ConnURL.behindScheme, ConnURL.authority]

/-- The marks behind the authority are not in it. -/
theorem not_mem_authority {b : UInt8} (h : b ∈ ascii "/?#".toList) : b ∉ u.authority := by
  have hall : ∀ a ∈ ascii "/?#".toList, a ∈ ascii ":/?#@".toList ∧ a ∈ ascii "/?#@".toList ∧
      a ≠ colonByte ∧ a ≠ byteOf '@' := by decide
  obtain ⟨huserinfo, hhost, hcolon, hat⟩ := hall b h
  rw [ConnURL.authority, List.mem_append, List.mem_append, List.mem_cons, List.mem_cons]
  simp only [not_or]
  exact ⟨⟨not_mem_userinfo huserinfo _, hcolon, not_mem_userinfo huserinfo _⟩, hat, not_mem_host hhost _⟩

theorem parseAuthority_authority :
    parseAuthority u.authority = some (some (u.user, some u.password), u.host) := by
  have huser : ∀ s, percentDecode (percentEncode keepUserinfo s) = some s := percentDecode_percentEncode (by decide)
  have hhost : ∀ s, percentDecode (percentEncode keepHost s) = some s := percentDecode_percentEncode (by decide)
  have hcolon : colonByte ∉ percentEncode keepUserinfo u.user := not_mem_userinfo (by decide) _
  rw [ConnURL.authority, parseAuthority, cutLast_append (not_mem_host (by decide) _)]
  simp only [parseUserinfo, cutFirst_append hcolon, huser, hhost, Option.bind_eq_bind, Option.bind_some]

/-- **A URL is read back** up to the slashes in front of its path. -/
theorem parseURL_behindScheme (h : byteOf '#' ∉ u.rawQuery) : ∃ path,
    parseURL u.behindScheme = some ⟨some (u.user, some u.password), u.host, path, u.rawQuery⟩ ∧
      path.dropWhile (· = slash) = u.path.dropWhile (· = slash) := by
  obtain ⟨path, hpath, hsame⟩ := percentDecode_rootedPath u.path
  refine ⟨path, ?_, hsame⟩
  -- None of the marks that the reader looks for comes out of the encoding of the parts in front.
  have hmark : byteOf '?' ∉ u.authority ++ rootedPath u.path := by
    rw [List.mem_append, not_or]
    exact ⟨not_mem_authority u (by decide), not_mem_rootedPath (by decide) _⟩
  have hfragment : byteOf '#' ∉ (u.authority ++ rootedPath u.path) ++ byteOf '?' :: u.rawQuery := by
    rw [List.mem_append, List.mem_append, List.mem_cons, not_or, not_or, not_or]
    exact ⟨⟨not_mem_authority u (by decide), not_mem_rootedPath (by decide) _⟩, by decide, h⟩
  rw [behindScheme_eq, parseURL, cutFirst_eq_none.2 hfragment, Option.getD_none, cutFirst_append hmark,
    Option.getD_some]
  simp only [cutFirst_rootedPath (not_mem_authority u (by decide)), parseAuthority_authority, hpath,
    Option.bind_eq_bind, Option.bind_some]

end

/-! ## Settings -/

/-- The value of a setting, or the one of the surroundings. -/
def orDefault (value other : List UInt8) : List UInt8 := if value = [] then other else value

section

variable {name name' : String} (value : List UInt8) (rest : Settings)

theorem get_cons_self : Settings.get ((ascii name.toList, value) :: rest) name = value := by
  rw [Settings.get, List.lookup_cons, beq_self_eq_true]
  rfl

theorem get_cons_of_ne (h : ascii name.toList ≠ ascii name'.toList) :
    Settings.get ((ascii name'.toList, value) :: rest) name = rest.get name := by
  rw [Settings.get, List.lookup_cons, beq_eq_false_iff_ne.2 h]
  rfl

theorem get_settingOf_self :
    Settings.get (settingOf name value ++ rest) name = orDefault value (rest.get name) := by
  rw [settingOf, orDefault]
  split_ifs with hvalue
  · rfl
  · exact get_cons_self value rest

theorem get_settingOf_of_ne (h : ascii name.toList ≠ ascii name'.toList) :
    Settings.get (settingOf name' value ++ rest) name = rest.get name := by
  rw [settingOf]
  split_ifs with hvalue
  · rfl
  · exact get_cons_of_ne value rest h

end

/-- The settings of the URL stand in front of those of the surroundings. -/
theorem get_settings (mode user password host port database : List UInt8) (others : Settings) :
    let settings : Settings := [(ascii "sslmode".toList, mode)] ++
      [(ascii "user".toList, user), (ascii "password".toList, password)] ++ settingOf "host" host ++
      settingOf "port" port ++ settingOf "database" database ++ others
    settings.get "sslmode" = mode ∧ settings.get "user" = user ∧ settings.get "password" = password ∧
      settings.get "host" = orDefault host (others.get "host") ∧
      settings.get "port" = orDefault port (others.get "port") ∧
      settings.get "database" = orDefault database (others.get "database") := by
  simp only [List.append_assoc, List.cons_append, List.nil_append]
  refine ⟨get_cons_self _ _, ?_, ?_, ?_, ?_, ?_⟩
  all_goals simp (disch := decide) only [get_cons_self, get_cons_of_ne, get_settingOf_self, get_settingOf_of_ne]

/-- The first host and the first port count. -/
theorem targetsOf_head {ports hosts : List (List UInt8)} {targets : List (List UInt8 × Nat)} {host : List UInt8}
    {port : Nat} (h : targetsOf ports hosts = some targets) (hhead : targets.head? = some (host, port)) :
    hosts.head? = some host ∧ parsePort (ports.headD []) = some port := by
  cases hosts with
  | nil =>
    cases h
    cases hhead
  | cons first rest =>
    rw [targetsOf, List.zipIdx_cons, List.mapM_cons] at h
    obtain ⟨target, htarget, h⟩ := Option.bind_eq_some_iff.1 h
    obtain ⟨others, -, h⟩ := Option.bind_eq_some_iff.1 h
    cases h
    cases hhead
    obtain ⟨n, hn, heq⟩ := Option.map_eq_some_iff.1 htarget
    cases heq
    refine ⟨rfl, ?_⟩
    -- With or without ports, the first host gets the first one.
    cases ports with
    | nil => exact hn
    | cons port more => exact hn

namespace Surroundings

variable {env : Surroundings}

theorem configOf_eq_some {settings : Settings} {cfg : Target} (h : env.configOf settings = some cfg) :
    cfg.user = settings.get "user" ∧ cfg.database = settings.get "database" ∧ cfg.tlsMode = settings.get "sslmode" ∧
      ((settings.get "host").splitOn (byteOf ',')).head? = some cfg.host ∧
      parsePort (((settings.get "port").splitOn (byteOf ',')).headD []) = some cfg.port ∧
      cfg.password =
        orDefault (settings.get "password") (env.findPassword cfg.host cfg.port cfg.database cfg.user) := by
  obtain ⟨targets, htargets, h⟩ := Option.bind_eq_some_iff.1 h
  obtain ⟨⟨host, port⟩, hhead, h⟩ := Option.bind_eq_some_iff.1 h
  obtain ⟨-, h⟩ := Option.ite_none_right_eq_some.1 h
  obtain ⟨hhost, hport⟩ := targetsOf_head htargets hhead
  cases h
  exact ⟨rfl, rfl, rfl, hhost, hport, rfl⟩

end Surroundings

/-! ## Hosts -/

section

variable {part : List UInt8} {hosts ports : List (List UInt8)}

/-- A host with a colon is an address or it is split at the colon. -/
theorem splitHosts_singleton (hcolon : colonByte ∈ part) (h : splitHosts [part] = some (hosts, ports)) :
    (isIP (textOf (trimBrackets part)) = true ∧ hosts = [trimBrackets part]) ∨
      isIP (textOf (trimBrackets part)) = false ∧ ∃ host port, splitHostPort part = some (host, port) ∧
        hosts = (if host = [] then [] else [host]) ∧ ports = if port = [] then [] else [port] := by
  have hne : part ≠ [] := List.ne_nil_of_mem hcolon
  have hcontains : (!part.contains colonByte) = false := by
    rw [List.contains_iff_mem.2 hcolon]
    rfl
  -- As there is a colon, only an address can stand for a host alone.
  rw [splitHosts, if_neg hne, isIPOnly, hcontains, Bool.or_false] at h
  split_ifs at h with hip
  · cases h
    exact Or.inl ⟨hip, rfl⟩
  · obtain ⟨⟨host, port⟩, hsplit, h⟩ := Option.bind_eq_some_iff.1 h
    cases h
    exact Or.inr ⟨by rwa [Bool.not_eq_true] at hip, host, port, hsplit, rfl, rfl⟩

theorem count_trimBrackets (part : List UInt8) : (trimBrackets part).count colonByte = part.count colonByte := by
  have hbracket : ∀ b : UInt8, (b = openBracket || b = closeBracket) = true → (b == colonByte) = false := by
    intro b hb
    rw [Bool.or_eq_true, decide_eq_true_eq, decide_eq_true_eq] at hb
    rcases hb with rfl | rfl
    all_goals decide
  -- Brackets are no colons, so trimming them leaves the count.
  rw [trimBrackets, List.count_eq_countP, countP_rdropWhile _ hbracket, countP_dropWhile _ hbracket]
  rfl

/-- Nothing but the characters of an address is in one. -/
theorem not_mem_of_isIP {c : Char} (hascii : c.toNat < 128) (hchar : isAddrChar c = false) {host : List UInt8}
    (h : isIP (textOf host) = true) : byteOf c ∉ host := by
  intro hmem
  rw [(isIP_eq_true h).1 c ((mem_textOf hascii).2 hmem)] at hchar
  cases hchar

end

section

variable {host : List UInt8} {n : Nat}

theorem not_mem_port {b : UInt8} (hb : b ∈ ascii ":,[]".toList) (n : Nat) : b ∉ decimal n := by
  have hall : ∀ a ∈ ascii ":,[]".toList, ¬(48 ≤ a.toNat ∧ a.toNat ≤ 57) := by decide
  exact not_mem_decimal (hall b hb) n

theorem colon_mem_joinHostPort (host port : List UInt8) : colonByte ∈ joinHostPort host port := by
  rw [joinHostPort]
  split_ifs with hcolon
  · exact List.mem_cons_of_mem _ (List.mem_append_left _ hcolon)
  · exact List.mem_append_right _ List.mem_cons_self

theorem comma_not_mem_joinHostPort (hcomma : byteOf ',' ∉ host) (n : Nat) :
    byteOf ',' ∉ joinHostPort host (decimal n) := by
  have hport := not_mem_port (show byteOf ',' ∈ _ by decide) n
  rw [joinHostPort]
  split_ifs
  · simp only [List.mem_cons, List.mem_append, not_or]
    exact ⟨by decide, hcomma, by decide, by decide, hport⟩
  · simp only [List.mem_cons, List.mem_append, not_or]
    exact ⟨hcomma, by decide, hport⟩

/-- **With its port, a host without brackets is no address.** -/
theorem not_isIP_joinHostPort (hne : host ≠ [])
    (hhost : host = [openBracket, closeBracket] ∨ openBracket ∉ host ∧ closeBracket ∉ host) (n : Nat) :
    isIP (textOf (trimBrackets (joinHostPort host (decimal n)))) = false := by
  rw [Bool.eq_false_iff]
  intro hip
  have hcolonPort : colonByte ∉ decimal n := not_mem_port (by decide) n
  by_cases hcolon : colonByte ∈ host
  · -- The bracket behind the host is still there.
    have hplain : openBracket ∉ host ∧ closeBracket ∉ host := by
      rcases hhost with rfl | hplain
      · exact absurd hcolon (by decide)
      · exact hplain
    obtain ⟨c, rest, rfl⟩ := List.exists_cons_of_ne_nil hne
    have hfirst : ¬(c = openBracket || c = closeBracket) = true := by
      simp only [List.mem_cons, not_or] at hplain
      simp only [Bool.or_eq_true, decide_eq_true_eq, not_or]
      exact ⟨Ne.symm hplain.1.1, Ne.symm hplain.2.1⟩
    have hlast : ∀ b ∈ decimal n, ¬(b = openBracket || b = closeBracket) = true := by
      intro b hb
      simp only [Bool.or_eq_true, decide_eq_true_eq, not_or]
      exact ⟨fun heq => not_mem_port (by decide) n (heq ▸ hb), fun heq => not_mem_port (by decide) n (heq ▸ hb)⟩
    have htrim : trimBrackets (joinHostPort (c :: rest) (decimal n)) =
        c :: rest ++ [closeBracket, colonByte] ++ decimal n := by
      rw [joinHostPort, if_pos hcolon, trimBrackets]
      rw [List.dropWhile_cons, if_pos (by decide), List.cons_append, List.dropWhile_cons, if_neg hfirst]
      have hsplit : c :: (rest ++ closeBracket :: colonByte :: decimal n) =
          c :: rest ++ [closeBracket, colonByte] ++ decimal n := by simp
      rw [hsplit, List.rdropWhile_eq_self_iff]
      intro hnil
      rw [List.getLast_append_of_ne_nil hnil (decimal_ne_nil n)]
      exact hlast _ (List.getLast_mem _)
    refine not_mem_of_isIP (c := ']') (by decide) (by decide) hip ?_
    rw [htrim]
    exact List.mem_append_left _ (List.mem_append_right _ List.mem_cons_self)
  · -- One colon alone is in no address.
    have hone : (joinHostPort host (decimal n)).count colonByte = 1 := by
      rw [joinHostPort, if_neg hcolon, List.count_append, List.count_cons_self, List.count_eq_zero.2 hcolon,
        List.count_eq_zero.2 hcolonPort]
    apply (isIP_eq_true hip).2
    rw [count_textOf (by decide)]
    exact (count_trimBrackets _).trans hone

/-- The first host of the surroundings. -/
def Surroundings.firstHost (env : Surroundings) : Option (List UInt8) :=
  ((env.settings.get "host").splitOn (byteOf ',')).head?

/-- When a host comes back. -/
def Surroundings.KeepsHost (env : Surroundings) (host : List UInt8) : Prop :=
  byteOf ',' ∉ host ∧
    if host = [openBracket, closeBracket] then env.firstHost = some host else openBracket ∉ host ∧ closeBracket ∉ host

/-- A single part without commas. -/
theorem head_singleton {part : List UInt8} (hne : part ≠ []) (hcomma : byteOf ',' ∉ part) (other : List UInt8) :
    ((orDefault ([byteOf ','].intercalate [part]) other).splitOn (byteOf ',')) = [part] := by
  rw [List.intercalate_singleton, orDefault, if_neg hne, List.splitOn_eq_singleton hcomma]

theorem not_mem_port_marks (n : Nat) : ∀ b ∈ [colonByte, openBracket, closeBracket], b ∉ decimal n := by
  have hall : ∀ b ∈ [colonByte, openBracket, closeBracket], b ∈ ascii ":,[]".toList := by decide
  exact fun b hb => not_mem_port (hall b hb) n

/-- A host that is kept is split off with its port; of a pair of brackets nothing is left. -/
theorem splitHosts_kept {hosts ports : List (List UInt8)} (hne : host ≠ []) (hcomma : byteOf ',' ∉ host)
    (hkept : host = [openBracket, closeBracket] ∨ openBracket ∉ host ∧ closeBracket ∉ host)
    (hsplit : splitHosts ((joinHostPort host (decimal n)).splitOn (byteOf ',')) = some (hosts, ports)) :
    hosts = (if host = [openBracket, closeBracket] then [] else [host]) ∧ ports = [decimal n] := by
  rw [List.splitOn_eq_singleton (comma_not_mem_joinHostPort hcomma n)] at hsplit
  rcases splitHosts_singleton (colon_mem_joinHostPort host (decimal n)) hsplit with
    ⟨hip, -⟩ | ⟨-, found, port, hparts, rfl, rfl⟩
  · rw [not_isIP_joinHostPort hne hkept n] at hip
    cases hip
  · rcases hkept with rfl | ⟨hopen, hclose⟩
    · have hempty : splitHostPort (joinHostPort [openBracket, closeBracket] (decimal n)) = some ([], decimal n) :=
        splitHostPort_bracketed List.not_mem_nil List.not_mem_nil (not_mem_port_marks n)
      rw [hempty] at hparts
      cases hparts
      rw [if_pos rfl, if_pos rfl, if_neg (decimal_ne_nil n)]
      exact ⟨rfl, rfl⟩
    · rw [splitHostPort_joinHostPort hopen hclose (not_mem_port_marks n)] at hparts
      cases hparts
      have hnot : host ≠ [openBracket, closeBracket] := by
        rintro rfl
        exact hopen List.mem_cons_self
      rw [if_neg hne, if_neg hnot, if_neg (decimal_ne_nil n)]
      exact ⟨rfl, rfl⟩

theorem Surroundings.KeepsHost.plain {env : Surroundings} (h : env.KeepsHost host) :
    host = [openBracket, closeBracket] ∨ openBracket ∉ host ∧ closeBracket ∉ host := by
  obtain ⟨-, hkept⟩ := h
  split_ifs at hkept with hbrackets
  · exact Or.inl hbrackets
  · exact Or.inr hkept

/-- **The host that comes of the URL.** -/
theorem host_iff {env : Surroundings} {hosts ports : List (List UInt8)} {found : List UInt8} (hne : host ≠ [])
    (hsplit : splitHosts ((joinHostPort host (decimal n)).splitOn (byteOf ',')) = some (hosts, ports))
    (hhead : ((orDefault ([byteOf ','].intercalate hosts) (env.settings.get "host")).splitOn (byteOf ',')).head? =
      some found) : found = host ↔ env.KeepsHost host := by
  have hcolon := colon_mem_joinHostPort host (decimal n)
  constructor
  · rintro rfl
    -- What is found is a part between commas.
    have hcomma : byteOf ',' ∉ found := not_mem_of_mem_splitOn (List.mem_of_mem_head? hhead)
    refine ⟨hcomma, ?_⟩
    have hplain : openBracket ∉ found ∧ closeBracket ∉ found →
        if found = [openBracket, closeBracket] then env.firstHost = some found
        else openBracket ∉ found ∧ closeBracket ∉ found := by
      intro hnone
      rw [if_neg]
      · exact hnone
      · rintro rfl
        exact hnone.1 List.mem_cons_self
    rw [List.splitOn_eq_singleton (comma_not_mem_joinHostPort hcomma n)] at hsplit
    rcases splitHosts_singleton hcolon hsplit with ⟨hip, rfl⟩ | ⟨-, host, port, hparts, rfl, -⟩
    · -- An address has no brackets.
      have hne' : trimBrackets (joinHostPort found (decimal n)) ≠ [] := by
        intro hnil
        rw [hnil] at hip
        exact absurd hip (by decide)
      rw [head_singleton hne' (not_mem_of_isIP (by decide) (by decide) hip)] at hhead
      have hsame := Option.some.inj hhead
      rw [hsame] at hip
      exact hplain ⟨not_mem_of_isIP (by decide) (by decide) hip, not_mem_of_isIP (by decide) (by decide) hip⟩
    · split_ifs at hhead with hnil
      · -- Nothing is split off, so the host of the surroundings counts.
        rw [hnil] at hparts
        rcases host_of_splitHostPort_nil (not_mem_port (by decide) n) hparts with hempty | hbrackets
        · exact absurd hempty hne
        · rw [if_pos hbrackets]
          exact hhead
      · -- What is split off has no brackets.
        have hcommaHost : byteOf ',' ∉ host := fun hmem =>
          comma_not_mem_joinHostPort hcomma n (mem_of_splitHostPort hparts hmem)
        rw [head_singleton hnil hcommaHost] at hhead
        obtain ⟨-, hopen, hclose, -⟩ := splitHostPort_eq_some hparts
        rw [Option.some.inj hhead] at hopen hclose
        exact hplain ⟨hopen, hclose⟩
  · intro hkeeps
    have hplain := hkeeps.plain
    obtain ⟨hcomma, hkept⟩ := hkeeps
    obtain ⟨rfl, -⟩ := splitHosts_kept hne hcomma hplain hsplit
    split_ifs at hkept hhead with hbrackets
    · exact Option.some.inj (hhead.symm.trans hkept)
    · rw [head_singleton hne hcomma] at hhead
      exact (Option.some.inj hhead).symm

end

/-! ## What comes back -/

/-- The query of a single pair. -/
theorem parseQuery_sslmode (mode : List UInt8) :
    parseQuery (ascii "sslmode=".toList ++ queryEscape mode) = [(ascii "sslmode".toList, mode)] := by
  have hnot : ∀ b ∈ ascii "&;".toList, b ∉ ascii "sslmode=".toList ++ queryEscape mode := by
    have hall : ∀ a ∈ ascii "&;".toList, a ∉ ascii "sslmode=".toList ∧ a ≠ byteOf '+' ∧ isUnreserved a = false ∧
        a ≠ percent ∧ ∀ n < 16, a ≠ hexByte n := by decide
    intro b hb
    obtain ⟨hkey, hplus, hkeep, hpercent, hhex⟩ := hall b hb
    rw [List.mem_append, not_or]
    exact ⟨hkey, not_mem_queryEscape hplus hkeep hpercent hhex mode⟩
  have hpair : ascii "sslmode=".toList ++ queryEscape mode = ascii "sslmode".toList ++ byteOf '=' :: queryEscape mode :=
    rfl
  have hkey : queryUnescape (ascii "sslmode".toList) = some (ascii "sslmode".toList) := by
    have hplain : queryEscape (ascii "sslmode".toList) = ascii "sslmode".toList := by decide
    have hread := queryUnescape_queryEscape (ascii "sslmode".toList)
    rwa [hplain] at hread
  rw [parseQuery, List.splitOn_eq_singleton (hnot _ (by decide)), List.filterMap_cons, if_neg]
  · rw [hpair, cutFirst_append (by decide)]
    simp only [Option.getD_some, hkey, queryUnescape_queryEscape, Option.bind_some, Option.map_some, List.filterMap_nil]
  · rw [not_or]
    exact ⟨List.cons_ne_nil _ _, hnot _ (by decide)⟩

theorem fragment_not_mem_sslmode (mode : List UInt8) : byteOf '#' ∉ ascii "sslmode=".toList ++ queryEscape mode := by
  rw [List.mem_append, not_or]
  exact ⟨by decide, not_mem_queryEscape (by decide) (by decide) (by decide) (by decide) mode⟩

/-- The port is read back. -/
theorem parsePort_decimal {n : Nat} (hpos : n ≠ 0) (h : n < 65536) : parsePort (decimal n) = some n := by
  rw [parsePort, readPort_decimal h]
  simp [hpos]

/-- When a database comes back: the slashes in front of it are dropped. -/
def Surroundings.KeepsDatabase (env : Surroundings) (database : List UInt8) : Prop :=
  if database.dropWhile (· = slash) = [] then env.settings.get "database" = database
  else database.head? ≠ some slash

theorem database_iff (env : Surroundings) (database : List UInt8) :
    orDefault (database.dropWhile (· = slash)) (env.settings.get "database") = database ↔
      env.KeepsDatabase database := by
  rw [orDefault, Surroundings.KeepsDatabase]
  split_ifs with hslashes
  · exact Iff.rfl
  · cases database with
    | nil => exact absurd rfl hslashes
    | cons b rest =>
      rw [List.head?_cons]
      by_cases hb : b = slash
      · -- The slash in front is lost.
        rw [List.dropWhile_cons, if_pos (decide_eq_true hb)]
        refine iff_of_false (fun hsame => ?_) fun hhead => hhead (congrArg some hb)
        have hshort := (List.dropWhile_sublist (· = slash) (l := rest)).length_le
        rw [hsame, List.length_cons] at hshort
        omega
      · rw [List.dropWhile_cons, if_neg (by simpa using hb)]
        exact iff_of_true rfl fun hhead => hb (Option.some.inj hhead)

section

variable {env : Surroundings} {u : ConnURL} {host mode : List UInt8} {n : Nat} {cfg : Target}

/-- The settings of the URL and what is made of them. -/
theorem parseConfig_eq_some (hquery : u.rawQuery = ascii "sslmode=".toList ++ queryEscape mode)
    (h : env.parseConfig u.string = some cfg) :
    ∃ hosts ports, splitHosts (u.host.splitOn (byteOf ',')) = some (hosts, ports) ∧
      cfg.user = u.user ∧ cfg.tlsMode = mode ∧
      cfg.database = orDefault (u.path.dropWhile (· = slash)) (env.settings.get "database") ∧
      ((orDefault ([byteOf ','].intercalate hosts) (env.settings.get "host")).splitOn (byteOf ',')).head? =
        some cfg.host ∧
      parsePort (((orDefault ([byteOf ','].intercalate ports) (env.settings.get "port")).splitOn
        (byteOf ',')).headD []) = some cfg.port ∧
      cfg.password = orDefault u.password (env.findPassword cfg.host cfg.port cfg.database cfg.user) := by
  have hprefix : (ascii "postgres://".toList).isPrefixOf u.string = true := by
    rw [List.isPrefixOf_iff_prefix]
    exact List.prefix_append _ _
  have hdrop : u.string.drop 11 = u.behindScheme := rfl
  have hfragment : byteOf '#' ∉ u.rawQuery := by
    rw [hquery]
    exact fragment_not_mem_sslmode mode
  obtain ⟨path, hparse, hpath⟩ := parseURL_behindScheme u hfragment
  obtain ⟨given, hgiven, hconfig⟩ := Option.bind_eq_some_iff.1 h
  rw [Surroundings.givenSettings, if_pos hprefix, hdrop, Surroundings.parseURLSettings] at hgiven
  obtain ⟨-, hgiven⟩ := Option.ite_none_right_eq_some.1 hgiven
  rw [hparse, Option.bind_some] at hgiven
  obtain ⟨⟨hosts, ports⟩, hsplit, hgiven⟩ := Option.bind_eq_some_iff.1 hgiven
  refine ⟨hosts, ports, hsplit, ?_⟩
  dsimp only at hgiven
  rw [hquery, parseQuery_sslmode, hpath] at hgiven
  obtain ⟨hmode, huser, hpassword, hhost, hport, hdatabase⟩ := get_settings mode u.user u.password
    ([byteOf ','].intercalate hosts) ([byteOf ','].intercalate ports) (u.path.dropWhile (· = slash)) env.settings
  -- The query comes first, and it names the mode only.
  have hsame : given = [(ascii "sslmode".toList, mode)] ++
      [(ascii "user".toList, u.user), (ascii "password".toList, u.password)] ++
      settingOf "host" ([byteOf ','].intercalate hosts) ++ settingOf "port" ([byteOf ','].intercalate ports) ++
      settingOf "database" (u.path.dropWhile (· = slash)) := (Option.some.inj hgiven).symm
  rw [← hsame] at hmode huser hpassword hhost hport hdatabase
  obtain ⟨hcfgUser, hcfgDatabase, hcfgMode, hcfgHost, hcfgPort, hcfgPassword⟩ :=
    Surroundings.configOf_eq_some hconfig
  rw [huser] at hcfgUser
  rw [hdatabase] at hcfgDatabase
  rw [hmode] at hcfgMode
  rw [hhost] at hcfgHost
  rw [hport] at hcfgPort
  rw [hpassword] at hcfgPassword
  exact ⟨hcfgUser, hcfgMode, hcfgDatabase, hcfgHost, hcfgPort, hcfgPassword⟩

/-- **What comes back from a URL**, exactly. -/
theorem parseConfig_iff (hhost : u.host = joinHostPort host (decimal n))
    (hquery : u.rawQuery = ascii "sslmode=".toList ++ queryEscape mode) (hne : host ≠ []) (hpos : n ≠ 0)
    (hport : n < 65536) (h : env.parseConfig u.string = some cfg) :
    cfg = ⟨u.user, u.password, host, n, u.path, mode⟩ ↔ env.KeepsHost host ∧ env.KeepsDatabase u.path ∧
      (u.password = [] → env.findPassword host n u.path u.user = []) := by
  obtain ⟨hosts, ports, hsplit, huser, hmode, hdatabase, hfound, hfoundPort, hpassword⟩ :=
    parseConfig_eq_some hquery h
  rw [hhost] at hsplit
  have hkeeps := host_iff hne hsplit hfound
  constructor
  · rintro rfl
    refine ⟨hkeeps.1 rfl, (database_iff env u.path).1 hdatabase.symm, fun hnil => ?_⟩
    rw [orDefault, if_pos hnil] at hpassword
    exact hpassword.symm.trans hnil
  · rintro ⟨hkeepsHost, hkeepsDatabase, hnone⟩
    -- The port is the one that was written, as it is the only one.
    obtain ⟨-, rfl⟩ := splitHosts_kept hne hkeepsHost.1 hkeepsHost.plain hsplit
    rw [head_singleton (decimal_ne_nil n) (not_mem_port (by decide) n), List.headD_cons,
      parsePort_decimal hpos hport] at hfoundPort
    rw [(database_iff env u.path).2 hkeepsDatabase] at hdatabase
    rw [hkeeps.2 hkeepsHost, ← Option.some.inj hfoundPort, hdatabase, huser] at hpassword
    have hsame : cfg.password = u.password := by
      rw [hpassword, orDefault]
      split_ifs with hnil
      · rw [hnone hnil, hnil]
      · rfl
    cases cfg
    simp only at huser hmode hdatabase hsame
    rw [Target.mk.injEq]
    exact ⟨huser, hsame, hkeeps.2 hkeepsHost, (Option.some.inj hfoundPort).symm, hdatabase, hmode⟩

end

end Workbench.Network
