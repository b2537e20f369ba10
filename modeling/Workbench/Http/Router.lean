import Workbench.Base.Text
import Workbench.Lib.ServeMux

/-!
# The routes of the API

The patterns that `NewRouter` registers, `api/internal/httpapi/router.go` and the files beside it. A
handler is known by its pattern.
-/

set_option autoImplicit false

namespace Workbench.Http

open Workbench.Lib

/-- Which of the services there are. -/
structure Dependencies where
  identity : Bool
  /-- The identity service is an `IdentityAdminService`. -/
  identityAdmin : Bool
  authSessions : Bool
  connectionRegistry : Bool
  logs : Bool
  sessions : Bool
  queries : Bool
  transactions : Bool
  schema : Bool
  deriving DecidableEq, Repr

instance : Coe String Segment where
  coe s := .lit s.toList

def wild (name : String) : Segment := .wild name.toList

/-- `HandleFunc` of a method and a path, which is cut at its slashes. -/
def on (method : String) (path : List Segment) : Pattern := ⟨some method.toList, path⟩

def healthRoutes : List Pattern := [on "GET" ["health", "live"], on "GET" ["health", "ready"]]

def login : Pattern := on "POST" ["api", "auth", "login"]

def authRoutes : List Pattern :=
  [login, on "POST" ["api", "auth", "logout"], on "GET" ["api", "auth", "session"]]

def userTeamRoutes : List Pattern :=
  [on "GET" ["api", "users"], on "POST" ["api", "users"],
    on "PATCH" ["api", "users", wild "id"], on "DELETE" ["api", "users", wild "id"],
    on "PUT" ["api", "users", wild "id", "teams"],
    on "GET" ["api", "teams"], on "POST" ["api", "teams"],
    on "PATCH" ["api", "teams", wild "id"], on "DELETE" ["api", "teams", wild "id"],
    on "POST" ["api", "teams", wild "id", "members"],
    on "PATCH" ["api", "teams", wild "id", "members", wild "userId"],
    on "DELETE" ["api", "teams", wild "id", "members", wild "userId"],
    on "GET" ["api", "teams", wild "id", "members"]]

def connectionRegistryRoutes : List Pattern :=
  [on "GET" ["api", "registry", "v2", "connections"],
    on "POST" ["api", "registry", "v2", "connections", wild "id", "sessions"],
    on "POST" ["api", "registry", "v2", "connections"],
    on "PUT" ["api", "registry", "v2", "connections", wild "id"],
    on "DELETE" ["api", "registry", "v2", "connections", wild "id"]]

def logRoutes : List Pattern :=
  [on "GET" ["api", "logs", "sessions"], on "POST" ["api", "logs", "sessions"],
    on "DELETE" ["api", "logs", "sessions", wild "id"],
    on "POST" ["api", "logs", "sessions", wild "id", "upload"],
    on "GET" ["api", "logs", "ssh-connections"],
    on "POST" ["api", "logs", "ssh", "test"], on "POST" ["api", "logs", "ssh", "browse"],
    on "POST" ["api", "logs", "ssh", "scan"],
    on "POST" ["api", "logs", "sessions", wild "id", "ssh", "import"],
    on "POST" ["api", "logs", "sessions", wild "id", "tail"],
    on "GET" ["api", "logs", "sessions", wild "id", "search"],
    on "GET" ["api", "logs", "sessions", wild "id", "files"],
    on "GET" ["api", "logs", "sessions", wild "id", "tree"],
    on "GET" ["api", "logs", "sessions", wild "id", "timeline"]]

def sessionRoutes : List Pattern :=
  [on "POST" ["api", "sessions"], on "POST" ["api", "connections"],
    on "GET" ["api", "connections", wild "id", "databases"],
    on "POST" ["api", "connections", wild "id", "database"],
    on "DELETE" ["api", "connections", wild "id"],
    on "GET" ["api", "connections", wild "id", "metadata"]]

def queryRoutes : List Pattern :=
  [on "POST" ["api", "connections", wild "id", "queries"],
    on "GET" ["api", "connections", wild "id", "queries", wild "queryId"],
    on "DELETE" ["api", "connections", wild "id", "queries", wild "queryId"],
    on "GET" ["api", "connections", wild "id", "queries", wild "queryId", "export.csv"]]

def transactionRoutes : List Pattern :=
  [on "POST" ["api", "connections", wild "id", "transactions"],
    on "POST" ["api", "connections", wild "id", "transactions", wild "txId", "commit"],
    on "POST" ["api", "connections", wild "id", "transactions", wild "txId", "rollback"],
    on "POST" ["api", "connections", wild "id", "rows", wild "operation"]]

def schemaRoutes : List Pattern :=
  [on "GET" ["api", "connections", wild "id", "tables", wild "schema", wild "table"],
    on "POST" ["api", "connections", wild "id", "tables", wild "schema", wild "table", "schema", "preview"],
    on "POST" ["api", "connections", wild "id", "tables", wild "schema", wild "table", "schema", "execute"]]

def mongoRedisRoutes : List Pattern :=
  [on "GET" ["api", "connections", wild "id", "capabilities"],
    on "POST" ["api", "connections", wild "id", "mongo", "find"],
    on "POST" ["api", "connections", wild "id", "mongo", "aggregate"],
    on "POST" ["api", "connections", wild "id", "mongo", "documents"],
    on "GET" ["api", "connections", wild "id", "mongo", "collections", wild "collection"],
    on "POST" ["api", "connections", wild "id", "mongo", "collections", wild "collection", "indexes"],
    on "DELETE" ["api", "connections", wild "id", "mongo", "collections", wild "collection", "indexes",
      wild "name"],
    on "GET" ["api", "connections", wild "id", "redis", "keys"],
    on "GET" ["api", "connections", wild "id", "redis", "key"],
    on "PUT" ["api", "connections", wild "id", "redis", "key"],
    on "DELETE" ["api", "connections", wild "id", "redis", "key"],
    on "POST" ["api", "connections", wild "id", "redis", "key", "ttl"],
    on "POST" ["api", "connections", wild "id", "redis", "commands"]]

/-- The embedded web interface. -/
def webui : Pattern := ⟨none, [.multi]⟩

/-- Routes that are registered if a service is there. -/
def ifSet (there : Bool) (patterns : List Pattern) : List Pattern := if there then patterns else []

namespace Dependencies

/-- The router is behind the authentication. -/
def authenticates (deps : Dependencies) : Bool := deps.identity && deps.authSessions

/-- The multiplexer of `NewRouter`. -/
def mux (deps : Dependencies) : ServeMux :=
  healthRoutes ++
    ifSet deps.authenticates (authRoutes ++ ifSet deps.identityAdmin userTeamRoutes) ++
    ifSet deps.connectionRegistry connectionRegistryRoutes ++
    ifSet deps.logs logRoutes ++
    ifSet deps.sessions
      (sessionRoutes ++ ifSet deps.queries queryRoutes ++ ifSet deps.transactions transactionRoutes ++
        ifSet deps.schema schemaRoutes ++ mongoRedisRoutes) ++
    [webui]

/-- All services are there. -/
def all : Dependencies := ⟨true, true, true, true, true, true, true, true, true⟩

end Dependencies

/-- A route under `/api`. -/
def UnderApi (p : Pattern) : Prop := p.segments.head? = some (.lit "api".toList)

instance (p : Pattern) : Decidable (UnderApi p) := inferInstanceAs (Decidable (_ = _))

theorem ifSet_sublist (there : Bool) {a b : List Pattern} (h : a.Sublist b) :
    (ifSet there a).Sublist (ifSet true b) := by
  cases there with
  | false => exact List.nil_sublist _
  | true => exact h

/-- Whatever services are there, the patterns are among those of all services. -/
theorem Dependencies.mux_sublist (deps : Dependencies) : deps.mux.Sublist Dependencies.all.mux := by
  have hself : ∀ l : List Pattern, l.Sublist l := List.Sublist.refl
  have huserTeam := (hself authRoutes).append
    (ifSet_sublist deps.identityAdmin (hself userTeamRoutes))
  have hsession := ((((hself sessionRoutes).append
    (ifSet_sublist deps.queries (hself queryRoutes))).append
    (ifSet_sublist deps.transactions (hself transactionRoutes))).append
    (ifSet_sublist deps.schema (hself schemaRoutes))).append (hself mongoRedisRoutes)
  exact ((((((hself healthRoutes).append (ifSet_sublist _ huserTeam)).append
    (ifSet_sublist _ (hself _))).append (ifSet_sublist _ (hself _))).append
    (ifSet_sublist _ hsession)).append (hself _))

/-! ## What a request under `/api` looks like -/

def loginPath : Text := "/api/auth/login".toList

/-- What is decided of a pattern: its literals are plain; and under `/api` it has a method, which is not
`CONNECT`, and more than one segment, and only the login is a `POST` to the path of the login. -/
def Listed (p : Pattern) : Prop :=
  (∀ s ∈ p.segments, s.Plain) ∧
    (UnderApi p → p.method ≠ none ∧ p.method ≠ some methodConnect ∧ p.segments.length ≠ 1 ∧
      (p.method = login.method → couldSpell p.segments loginPath = true → p = login))

instance (p : Pattern) : Decidable (Listed p) := inferInstanceAs (Decidable (_ ∧ _))

theorem listed {deps : Dependencies} {p : Pattern} (hp : p ∈ deps.mux) : Listed p := by
  have hall : ∀ q ∈ Dependencies.all.mux, Listed q := by decide +kernel
  exact hall p (deps.mux_sublist.subset hp)

/-- The unescaped path of a request for a route under `/api` begins with `/api/`. -/
theorem path_under_api {deps : Dependencies} {p : Pattern} {path : Text} (hp : p ∈ deps.mux)
    (hapi : UnderApi p) (hpath : Spelled p.segments path) : ("/api/".toList).isPrefixOf path = true := by
  obtain ⟨-, -, hlength, -⟩ := (listed hp).2 hapi
  rw [UnderApi] at hapi
  generalize p.segments = segs at hapi hpath hlength
  cases hpath with
  | nil => cases hapi
  | lit hrest =>
    cases hapi
    -- A second segment begins with the second slash.
    cases hrest with
    | nil => exact absurd rfl hlength
    | lit _ => rfl
    | wild _ => rfl
    | multi => rfl
  | wild _ => cases hapi
  | multi => cases hapi

end Workbench.Http
