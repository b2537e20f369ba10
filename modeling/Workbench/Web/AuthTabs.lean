import Workbench.Http.Auth
import Workbench.Lib.Runs

/-!
# Who is signed in, in the tabs of a browser

`AuthProvider` of `web/src/auth/AuthProvider.tsx` and `authFetch` of `web/src/auth/client.ts`, with the routes
under `/api/auth`. The tabs of a browser share its cookies, but each has a session and a CSRF token of its
own, and the answers come back in any order, late or not at all. Only a login puts a session into Redis, so
what the other routes do there, and whatever else happens to it, is that sessions go; users change at will,
and so does the cookie of the browser.
-/

set_option autoImplicit false

namespace Workbench.Web.AuthTabs

open Workbench.Lib
open Workbench.Identity (Redis LoginSession Principal)
open Workbench.Identity.Sessions (Draw)
open Workbench.Http (Request Dependencies on methodPost csrfSafeMethod newRouter)

/-! ## The server -/

structure UserResponse where
  id : Text
  username : Text
  displayName : Text
  systemRole : Text
  disabled : Bool
  deriving DecidableEq

def toUserResponse (user : Identity.User) : UserResponse :=
  ⟨user.id, user.username, user.displayName, user.systemRole.text, user.disabled⟩

/-- The body of an answer to a login, which leaves out the teams, or to `GET /api/auth/session`. -/
structure AuthSessionPayload where
  user : UserResponse
  teams : Option (List (Text × Text))
  csrfToken : Text
  deriving DecidableEq

/-- What a page reads of an answer. -/
inductive Content where
  | session (payload : AuthSessionPayload)
  | failed (status : Nat) (message : Text)
  /-- None of the two: nothing that the authentication reads. -/
  | other
  deriving DecidableEq

def unavailable : Content := .failed 503 "认证服务不可用".toList

/-- The user name and the password of a login, with what `Create` draws. -/
structure Credentials where
  username : Text
  password : Text
  draws : List Draw

def logout : Pattern := on "POST" ["api", "auth", "logout"]

def authSession : Pattern := on "GET" ["api", "auth", "session"]

/-- How the services answer a request: the deliveries of the commands to Redis, and whether the database of
the users can be reached. -/
structure Weather where
  auth : List Delivery
  handler : List Delivery
  reachable : Bool

section

variable (rt : Identity.Runtime) (ttl : Int) (weather : Weather) (users : Identity.Db)

/-- `POST /api/auth/login`. -/
def handleLogin (body : Option Credentials) (redis : Redis) : Content × Redis :=
  match body with
  | none => (.failed 400 "请求内容格式不正确".toList, redis)
  | some c =>
    if weather.reachable then
      match (Identity.authenticate rt c.username c.password).exec users with
      | .ok (user, _) =>
        let created := (Identity.Sessions.create ttl user.id c.draws).run Redis.exec weather.handler redis
        match created.1 with
        | .ok session =>
          (.session ⟨toUserResponse user, none, session.csrfToken⟩, created.2)
        | .error _ => (unavailable, created.2)
      | .error (.plain .invalidCredentials) => (.failed 401 "用户名或密码错误".toList, redis)
      | .error _ => (unavailable, redis)
    else (unavailable, redis)

/-- `POST /api/auth/logout`. -/
def handleLogout (login : Option (Principal × LoginSession)) (redis : Redis) : Content × Redis :=
  match login with
  | none => (.other, redis)
  | some (_, session) =>
    let deleted := (Identity.Sessions.delete session.id).run Redis.exec weather.handler redis
    match deleted.1 with
    | .ok () => (.other, deleted.2)
    | .error _ => (unavailable, deleted.2)

/-- `GET /api/auth/session`. -/
def handleSession : Option (Principal × LoginSession) → Content
  | none => .failed 401 "需要登录".toList
  | some (principal, session) =>
    .session ⟨toUserResponse principal.user, some (principal.teams.map fun t => (t.1, t.2.text)),
      session.csrfToken⟩

/-- A request at the server; what the routes beside `/api/auth` do is not looked at here. -/
def serve (deps : Dependencies) (r : Request) (body : Option Credentials) (redis : Redis) : Content × Redis :=
  match newRouter deps ⟨redis, weather.auth, users, weather.reachable⟩ r with
  | (.served (.handler p) login, redis) =>
    if p = Http.login then handleLogin rt ttl weather users body redis
    else if p = logout then handleLogout weather login redis
    else if p = authSession then (handleSession login, redis)
    else (.other, redis)
  | (.served _ _, redis) => (.other, redis)
  | (.refused status _ message, redis) => (.failed status message, redis)

end

/-! ## A tab -/

structure AuthTeam where
  id : Text
  name : Text
  role : Text

structure AuthSession where
  user : UserResponse
  teams : List AuthTeam
  csrfToken : Text

inductive AuthState where
  | loading
  | guest
  | ready
  | error

/-- The `AuthProvider` of a page, and the token of its `auth/client.ts`. -/
structure Tab where
  csrfToken : Text
  session : Option AuthSession
  status : AuthState
  error : Text

def normalizeTeams (teams : Option (List (Text × Text))) : List AuthTeam :=
  (teams.getD []).map fun entry => ⟨entry.1, entry.1, entry.2⟩

def normalizeSession (payload : AuthSessionPayload) : AuthSession :=
  ⟨payload.user, normalizeTeams payload.teams, payload.csrfToken⟩

/-- The token of what a tab shows; it is empty where there is none. -/
def tokenOf (shown : Option AuthSession) : Text := (shown.map AuthSession.csrfToken).getD []

def Tab.load : Tab := ⟨[], none, .loading, []⟩

def applySession (next : Option AuthSession) : Tab :=
  ⟨tokenOf next, next, if next.isSome then .ready else .guest, []⟩

/-- A call of `login`, `logout` or `reload`, or any other request of the page with `authFetch`. -/
inductive Task where
  | login (c : Credentials)
  | logout
  | reload
  | fetch (method : Text) (url : URL) (body : Option Credentials)

namespace Task

def method : Task → Text
  | .login _ | .logout => methodPost
  | .reload => methodGet
  | .fetch method _ _ => method

def url : Task → URL
  | .login _ => ⟨"/api/auth/login".toList, "/api/auth/login".toList, by decide +kernel⟩
  | .logout => ⟨"/api/auth/logout".toList, "/api/auth/logout".toList, by decide +kernel⟩
  | .reload => ⟨"/api/auth/session".toList, "/api/auth/session".toList, by decide +kernel⟩
  | .fetch _ url _ => url

def body : Task → Option Credentials
  | .login c => some c
  | .fetch _ _ body => body
  | _ => none

/-- What a call does to its page before it sends the request. -/
def begin : Task → Tab → Tab
  | .reload, t => { t with status := .loading }
  | _, t => t

/-- What it does with the answer; `unreadable` is the error of an answer that is no session. -/
def finish (unreadable : Text) : Task → Content → Tab → Tab
  | .login _, .session payload, _ | .reload, .session payload, _ =>
    applySession (some (normalizeSession payload))
  | .reload, .failed status message, t =>
    if status = 401 then applySession none else { t with status := .error, error := message }
  | .reload, .other, t => { t with status := .error, error := unreadable }
  | .logout, _, _ => applySession none
  | _, _, t => t

/-- What it does when no answer comes. -/
def fail : Task → Text → Tab → Tab
  | .reload, message, t => { t with status := .error, error := message }
  | .logout, _, _ => applySession none
  | _, _, t => t

end Task

/-- `authFetch`, with the cookie that the browser adds. -/
def authFetch (t : Tab) (jar : Option Text) (task : Task) : Request where
  method := task.method
  url := task.url
  cookie := jar
  csrfToken := if csrfSafeMethod task.method then [] else t.csrfToken

/-! ## The browser and the server -/

/-- A request under way, with what its page showed as it sent it, and what the server has answered. -/
structure Call where
  tab : Nat
  task : Task
  request : Request
  shown : Option AuthSession
  awaited : Bool
  answer : Option Content

/-- The server with the CSRF tokens that were ever drawn, and a browser with its tabs. -/
structure World where
  redis : Redis
  users : Identity.Db
  drawn : List Text
  jar : Option Text
  tabs : Nat → Tab
  calls : Table Nat Call

inductive Event where
  | load (tab : Nat)
  | send (key tab : Nat) (task : Task)
  | serve (key : Nat) (weather : Weather)
  | finish (key : Nat) (unreadable : Text)
  /-- The page gives up on an answer. -/
  | fail (key : Nat) (message : Text)
  /-- A login elsewhere, or another request to the server. -/
  | elsewhere (r : Request) (body : Option Credentials) (weather : Weather)
  /-- Sessions go, by expiry or by any route, and users change. -/
  | change (gone : Text → Bool) (users : Identity.Db)
  /-- The cookie of the browser is set or cleared, by an answer or by something else. -/
  | cookie (jar : Option Text)

/-- The CSRF tokens that a request draws. -/
def tokens (body : Option Credentials) : List Text := (body.elim [] Credentials.draws).map Draw.csrf

namespace World

/-- A server with users and no sessions, and a browser that has just been started. -/
def opening (users : Identity.Db) : World := ⟨.empty, users, [], none, fun _ => .load, ∅⟩

/-- What a page does to itself. -/
def change (tab : Nat) (f : Tab → Tab) (w : World) : World :=
  { w with tabs := Function.update w.tabs tab (f (w.tabs tab)) }

def file (key : Nat) (c : Call) (w : World) : World := { w with calls := w.calls.insert key c }

/-- The request of a page. -/
def request (w : World) (tab : Nat) (task : Task) : Call :=
  ⟨tab, task, authFetch (task.begin (w.tabs tab)) w.jar task, (w.tabs tab).session, true, none⟩

variable (deps : Dependencies) (rt : Identity.Runtime) (ttl : Int)

/-- A request at the server, with the answer. -/
def answer (weather : Weather) (r : Request) (body : Option Credentials) (w : World) : Content × World :=
  let served := serve rt ttl weather w.users deps r body w.redis
  (served.1, { w with redis := served.2, drawn := tokens body ++ w.drawn })

/-- The next thing that happens to a request under way. -/
def advance (key : Nat) (c : Call) (w : World) : Event → World
  | .serve _ weather =>
    if c.answer.isSome then w
    else
      let answered := w.answer deps rt ttl weather c.request c.task.body
      answered.2.file key { c with answer := some answered.1 }
  | .finish _ unreadable =>
    match c.awaited, c.answer with
    | true, some content =>
      (w.change c.tab (c.task.finish unreadable content)).file key { c with awaited := false }
    | _, _ => w
  | .fail _ message =>
    if c.awaited then (w.change c.tab (c.task.fail message)).file key { c with awaited := false } else w
  | _ => w

def step (w : World) (e : Event) : World :=
  match e with
  | .load tab =>
    -- the calls of the page before are awaited no more
    { w.change tab fun _ => .load with
      calls := w.calls.mapValues fun c => { c with awaited := c.awaited && c.tab ≠ tab } }
  | .send key tab task =>
    if (w.calls.lookup key).isSome then w
    else (w.change tab task.begin).file key (w.request tab task)
  | .serve key _ | .finish key _ | .fail key _ =>
    match w.calls.lookup key with
    | some c => w.advance deps rt ttl key c e
    | none => w
  | .elsewhere r body weather => (w.answer deps rt ttl weather r body).2
  | .change gone users =>
    { w with redis.sessions := w.redis.sessions.alter gone fun _ => none, users := users }
  | .cookie jar => { w with jar := jar }

/-- The tokens that a request draws are not empty and were never drawn before. -/
def Fresh (w : World) : Event → Prop
  | .serve key _ => ∀ c, w.calls.lookup key = some c → ∀ t ∈ tokens c.task.body, t ≠ [] ∧ t ∉ w.drawn
  | .elsewhere _ body _ => ∀ t ∈ tokens body, t ≠ [] ∧ t ∉ w.drawn
  | _ => True

end World

/-! ## Whose token it is -/

section

variable {owner owner' : Text → Option Text} {r : Redis}

/-- The token of each session belongs to its user. -/
def Owned (owner : Text → Option Text) (r : Redis) : Prop :=
  ∀ id s, r.sessions.lookup id = some (some s) → owner s.csrfToken = some s.userID

/-- The commands that put such sessions only. -/
def Puts (owner : Text → Option Text) {β : Type} : Identity.Command β → Prop
  | .setNX _ s => owner s.csrfToken = some s.userID
  | _ => True

theorem Owned.exec (h : Owned owner r) {β : Type} {c : Identity.Command β} (hc : Puts owner c) :
    Owned owner (Redis.exec c r).2 := by
  intro id s hs
  cases c with
  | setNX other payload =>
    rw [Redis.exec] at hs
    split at hs
    · exact h id s hs
    · by_cases heq : id = other
      · subst heq
        rw [AList.lookup_insert] at hs
        cases hs
        exact hc
      · rw [AList.lookup_insert_ne heq] at hs
        exact h id s hs
  | del ids userIDs =>
    rw [Redis.exec, Redis.lookup_del] at hs
    split at hs
    · cases hs
    · exact h id s hs
  | _ => exact h id s hs

theorem Owned.run (h : Owned owner r) {α : Type} {p : Identity.Session α} {Q : Except Identity.SessionError α → Prop}
    (hp : p.Obeys (Puts owner) Q) (ds : List Delivery) :
    Q (p.run Redis.exec ds r).1 ∧ Owned owner (p.run Redis.exec ds r).2 :=
  hp.run (fun _ _ hc hr => hr.exec hc) ds r h

/-- `Create` puts, and gives, a session of its user with one of the tokens that it draws. -/
theorem create_obeys {ttl : Int} {userID : Text} {draws : List Draw}
    (hdraws : ∀ draw ∈ draws, owner draw.csrf = some userID) :
    (Identity.Sessions.create ttl userID draws).Obeys (Puts owner) fun result =>
      ∀ s, result = .ok s → s.userID = userID ∧ owner s.csrfToken = some userID := by
  rw [Identity.Sessions.create]
  split
  · rintro s ⟨⟩
  induction draws with
  | nil => rintro s ⟨⟩
  | cons draw rest ih =>
    have hdraw := hdraws draw List.mem_cons_self
    refine ⟨hdraw, fun created => ?_⟩
    match created with
    | none => rintro s ⟨⟩
    | some false => exact ih fun other hother => hdraws other (List.mem_cons_of_mem _ hother)
    | some true =>
      refine ⟨trivial, fun added => ?_⟩
      match added with
      | none => exact ⟨trivial, fun _ => by rintro s ⟨⟩⟩
      | some () =>
        refine ⟨trivial, fun expires => ?_⟩
        match expires with
        | none => exact ⟨trivial, fun _ => ⟨trivial, fun _ => by rintro s ⟨⟩⟩⟩
        | some () =>
          rintro s ⟨⟩
          exact ⟨rfl, hdraw⟩

theorem delete_obeys (owner : Text → Option Text) (id : Text) :
    (Identity.Sessions.delete id).Obeys (Puts owner) fun _ => True := by
  refine ⟨trivial, fun found => ?_⟩
  dsimp only
  split
  · refine ⟨trivial, fun deleted => ?_⟩
    match deleted with
    | none => exact trivial
    | some () => exact ⟨trivial, fun removed => by cases removed <;> exact trivial⟩
  · exact ⟨trivial, fun deleted => by cases deleted <;> exact trivial⟩
  · exact trivial

/-! ## One request at the server -/

theorem Owned.newRouter {w : Http.World} (h : Owned owner w.redis) (deps : Dependencies) (x : Request) :
    Owned owner (newRouter deps w x).2 := by
  have hdeleted : ∀ id ds, Owned owner ((Identity.Sessions.delete id).run Redis.exec ds w.redis).2 :=
    fun id ds => (h.run (delete_obeys owner id) ds).2
  rw [Http.newRouter]
  split
  · rw [Http.authMiddleware]
    repeat' split
    all_goals first | exact h | exact hdeleted _ _
  · exact h

/-- Whoever is logged in has a session in Redis, and a request that is not safe has its token. -/
theorem login_of_served {deps : Dependencies} {w : Http.World} {x : Request} {routed : Routed} {p : Principal}
    {s : LoginSession} (h : (newRouter deps w x).1 = .served routed (some (p, s))) :
    (∃ id, w.redis.sessions.lookup id = some (some s)) ∧ p.user.id = s.userID ∧
      (csrfSafeMethod x.method = false → x.csrfToken = s.csrfToken) := by
  rw [Http.newRouter] at h
  split at h
  · rcases Http.authMiddleware_served h with ⟨-, hnext⟩ | ⟨principal, session, hnext, hauth⟩
    · cases hnext
    · cases hnext
      obtain ⟨id, -, -, hheld⟩ := hauth.cookie
      obtain ⟨u, -, -, huser⟩ := hauth.user
      refine ⟨⟨id, hheld⟩, by rw [huser]; rfl, fun hwrites => ?_⟩
      simp only [csrfSafeMethod, Bool.or_eq_false_iff, decide_eq_false_iff_not] at hwrites
      exact hauth.csrf hwrites.1.1 hwrites.1.2 hwrites.2
  · cases h

/-- More tokens have an owner: some new ones. -/
structure Grows (owner owner' : Text → Option Text) (new : List Text) : Prop where
  old : ∀ t u, owner t = some u → owner' t = some u
  new : ∀ t, (owner' t).isSome → (owner t).isSome ∨ t ∈ new

theorem Grows.refl (owner : Text → Option Text) (new : List Text) : Grows owner owner new :=
  ⟨fun _ _ h => h, fun _ h => Or.inl h⟩

/-- New tokens are those of a user. -/
def give (owner : Text → Option Text) (new : List Text) (userID : Text) : Text → Option Text :=
  fun t => if t ∈ new then some userID else owner t

theorem grows_give {new : List Text} (hfresh : ∀ t ∈ new, owner t = none) (userID : Text) :
    Grows owner (give owner new userID) new := by
  constructor
  · intro t u ht
    have hold : t ∉ new := fun hmem => by simp [hfresh t hmem] at ht
    simp [give, hold, ht]
  · intro t ht
    by_cases hmem : t ∈ new
    · exact Or.inr hmem
    · exact Or.inl (by simpa [give, hmem] using ht)

/-- Behind a request each session has an owner, and so has what is answered. -/
theorem serve_owned (h : Owned owner r) (rt : Identity.Runtime) (ttl : Int) (weather : Weather)
    (users : Identity.Db) (deps : Dependencies) (x : Request) {body : Option Credentials}
    (hfresh : ∀ t ∈ tokens body, owner t = none) :
    ∃ owner', Grows owner owner' (tokens body) ∧ Owned owner' (serve rt ttl weather users deps x body r).2 ∧
      ∀ payload, (serve rt ttl weather users deps x body r).1 = .session payload →
        owner' payload.csrfToken = some payload.user.id := by
  have hrouter := Owned.newRouter (w := ⟨r, weather.auth, users, weather.reachable⟩) h deps x
  -- where no session is answered, the owners stay
  have same : ∀ {answer : Content × Redis}, Owned owner answer.2 →
      (∀ payload, answer.1 ≠ .session payload) → ∃ owner', Grows owner owner' (tokens body) ∧
        Owned owner' answer.2 ∧ ∀ payload, answer.1 = .session payload →
          owner' payload.csrfToken = some payload.user.id :=
    fun howned hno => ⟨owner, Grows.refl _ _, howned, fun payload hp => (hno payload hp).elim⟩
  rw [serve]
  rcases hserved : newRouter deps ⟨r, weather.auth, users, weather.reachable⟩ x with ⟨reaction, redis⟩
  have hbehind : Owned owner redis := by rwa [hserved] at hrouter
  clear hrouter
  match reaction with
  | .refused status code message => exact same hbehind (by simp)
  | .served (.redirect _) _ => exact same hbehind (by simp)
  | .served .methodNotAllowed _ => exact same hbehind (by simp)
  | .served .notFound _ => exact same hbehind (by simp)
  | .served (.handler p) login =>
    dsimp only
    split_ifs
    · -- a login: the tokens that it draws are those of its user
      cases body with
      | none => exact same hbehind (by simp [handleLogin])
      | some c =>
        rw [handleLogin]
        split
        · split
          · next user _ _ =>
              have hgrows := grows_give hfresh user.id
              have howned : Owned (give owner (tokens (some c)) user.id) redis :=
                fun id s hs => hgrows.old _ _ (hbehind id s hs)
              have hobeys := @create_obeys (give owner (tokens (some c)) user.id) ttl user.id c.draws
                fun draw hdraw => if_pos (List.mem_map_of_mem hdraw)
              obtain ⟨hresult, hredis⟩ := howned.run hobeys weather.handler
              dsimp only
              split
              · next session hsession =>
                  refine ⟨_, hgrows, hredis, ?_⟩
                  rintro payload ⟨⟩
                  exact (hresult session hsession).2
              · exact ⟨_, hgrows, hredis, by rintro payload ⟨⟩⟩
          · exact same hbehind (by simp)
          · exact same hbehind (by simp [unavailable])
        · exact same hbehind (by simp [unavailable])
    · match login with
      | none => exact same hbehind (by simp [handleLogout])
      | some (_, session) =>
        rw [handleLogout]
        have hdeleted := (hbehind.run (delete_obeys owner session.id) weather.handler).2
        split
        · exact same hdeleted (by simp)
        · exact same hdeleted (by simp [unavailable])
    · match login with
      | none => exact same hbehind (by simp [handleSession])
      | some (principal, session) =>
        obtain ⟨⟨id, hheld⟩, huser, -⟩ := login_of_served (congrArg Prod.fst hserved)
        refine ⟨owner, Grows.refl _ _, hbehind, ?_⟩
        rintro payload ⟨⟩
        exact (h id session hheld).trans (congrArg some huser.symm)
    · exact ⟨owner, Grows.refl _ _, hbehind, by rintro payload ⟨⟩⟩

/-! ## What every run keeps -/

/-- The token of what a tab shows belongs to the user that it shows. -/
def Shows (owner : Text → Option Text) (shown : Option AuthSession) : Prop :=
  ∀ s, shown = some s → owner s.csrfToken = some s.user.id

structure Tab.Kept (owner : Text → Option Text) (t : Tab) : Prop where
  shows : Shows owner t.session
  token : t.csrfToken = tokenOf t.session

structure Call.Kept (owner : Text → Option Text) (c : Call) : Prop where
  shows : Shows owner c.shown
  token : csrfSafeMethod c.request.method = false → c.request.csrfToken = tokenOf c.shown
  content : ∀ payload, c.answer = some (.session payload) →
    owner payload.csrfToken = some payload.user.id

/-- The tokens that are about have an owner, and nobody has the empty one. -/
structure World.Kept (owner : Text → Option Text) (w : World) : Prop where
  empty : owner [] = none
  drawn : ∀ t, (owner t).isSome → t ∈ w.drawn
  redis : Owned owner w.redis
  tabs : ∀ n, (w.tabs n).Kept owner
  calls : ∀ k c, w.calls.lookup k = some c → c.Kept owner

theorem Shows.grow {new : List Text} {shown : Option AuthSession} (h : Shows owner shown)
    (hgrows : Grows owner owner' new) : Shows owner' shown := fun s hs => hgrows.old _ _ (h s hs)

theorem kept_applySession {next : Option AuthSession} (h : Shows owner next) : (applySession next).Kept owner :=
  ⟨h, rfl⟩

theorem Tab.Kept.begin {t : Tab} (h : t.Kept owner) (task : Task) : (task.begin t).Kept owner := by
  cases task <;> exact ⟨h.shows, h.token⟩

theorem Tab.Kept.finish {t : Tab} (h : t.Kept owner) (unreadable : Text) (task : Task) {content : Content}
    (hcontent : ∀ payload, content = .session payload → owner payload.csrfToken = some payload.user.id) :
    (task.finish unreadable content t).Kept owner := by
  have hsession : ∀ payload, content = .session payload →
      (applySession (some (normalizeSession payload))).Kept owner := by
    rintro payload hpayload
    apply kept_applySession
    rintro s ⟨⟩
    exact hcontent payload hpayload
  have hnone : (applySession none).Kept owner := kept_applySession (by rintro s ⟨⟩)
  cases task with
  | login c => cases content <;> first | exact hsession _ rfl | exact h
  | logout => exact hnone
  | fetch => exact h
  | reload =>
    cases content with
    | session payload => exact hsession _ rfl
    | failed status message =>
      rw [Task.finish]
      split
      · exact hnone
      · exact ⟨h.shows, h.token⟩
    | other => exact ⟨h.shows, h.token⟩

theorem Tab.Kept.fail {t : Tab} (h : t.Kept owner) (task : Task) (message : Text) :
    (task.fail message t).Kept owner := by
  cases task with
  | logout => exact kept_applySession (by rintro s ⟨⟩)
  | _ => exact ⟨h.shows, h.token⟩

namespace World.Kept

variable {w : World}

theorem change (h : w.Kept owner) {tab : Nat} {f : Tab → Tab} (hf : (f (w.tabs tab)).Kept owner) :
    (w.change tab f).Kept owner := by
  refine ⟨h.empty, h.drawn, h.redis, fun n => ?_, h.calls⟩
  by_cases hn : n = tab
  · subst hn
    simpa [World.change] using hf
  · simpa [World.change, hn] using h.tabs n

theorem file (h : w.Kept owner) (key : Nat) {c : Call} (hc : c.Kept owner) : (w.file key c).Kept owner := by
  refine ⟨h.empty, h.drawn, h.redis, h.tabs, fun k c' hc' => ?_⟩
  by_cases hk : k = key
  · subst hk
    rw [World.file, AList.lookup_insert] at hc'
    cases hc'
    exact hc
  · rw [World.file, AList.lookup_insert_ne hk] at hc'
    exact h.calls k c' hc'

/-- A request at the server: its answer has an owner as well. -/
theorem answer (h : w.Kept owner) (deps : Dependencies) (rt : Identity.Runtime) (ttl : Int)
    (weather : Weather) (x : Request) {body : Option Credentials}
    (hfresh : ∀ t ∈ tokens body, t ≠ [] ∧ t ∉ w.drawn) :
    ∃ owner', (w.answer deps rt ttl weather x body).2.Kept owner' ∧ Grows owner owner' (tokens body) ∧
      ∀ payload, (w.answer deps rt ttl weather x body).1 = .session payload →
        owner' payload.csrfToken = some payload.user.id := by
  have hnew : ∀ t ∈ tokens body, owner t = none := by
    intro t ht
    rw [← Option.not_isSome_iff_eq_none]
    exact fun hsome => (hfresh t ht).2 (h.drawn t hsome)
  obtain ⟨owner', hgrows, howned, hcontent⟩ := serve_owned h.redis rt ttl weather w.users deps x hnew
  refine ⟨owner', ⟨?_, fun t ht => ?_, howned, fun n => ?_, fun k c hc => ?_⟩, hgrows, hcontent⟩
  · rw [← Option.not_isSome_iff_eq_none]
    intro hsome
    rcases hgrows.new [] hsome with hold | hmem
    · rw [h.empty] at hold
      cases hold
    · exact (hfresh [] hmem).1 rfl
  · exact List.mem_append.2 ((hgrows.new t ht).symm.imp_right (h.drawn t))
  · exact ⟨(h.tabs n).shows.grow hgrows, (h.tabs n).token⟩
  · have hkept := h.calls k c hc
    exact ⟨hkept.shows.grow hgrows, hkept.token, fun payload hp => hgrows.old _ _ (hkept.content payload hp)⟩

theorem advance (h : w.Kept owner) (deps : Dependencies) (rt : Identity.Runtime) (ttl : Int) {key : Nat}
    {c : Call} (hc : w.calls.lookup key = some c) {e : Event}
    (hfresh : ∀ k weather, e = .serve k weather → ∀ t ∈ tokens c.task.body, t ≠ [] ∧ t ∉ w.drawn) :
    ∃ owner', (w.advance deps rt ttl key c e).Kept owner' := by
  have hkept := h.calls key c hc
  unfold World.advance
  split
  · split
    · exact ⟨owner, h⟩
    · next k weather _ =>
        obtain ⟨owner', hw, hgrows, hcontent⟩ := h.answer deps rt ttl weather c.request (hfresh k weather rfl)
        refine ⟨owner', hw.file key ⟨hkept.shows.grow hgrows, hkept.token, fun payload hp => ?_⟩⟩
        exact hcontent payload (Option.some.inj hp)
  · split
    · next content _ hanswer =>
        refine ⟨owner, (h.change ((h.tabs c.tab).finish _ c.task fun payload hp => ?_)).file key
          ⟨hkept.shows, hkept.token, hkept.content⟩⟩
        exact hkept.content payload (by rw [hanswer, hp])
    · exact ⟨owner, h⟩
  · split
    · exact ⟨owner, (h.change ((h.tabs c.tab).fail c.task _)).file key
        ⟨hkept.shows, hkept.token, hkept.content⟩⟩
    · exact ⟨owner, h⟩
  · exact ⟨owner, h⟩

theorem step (h : w.Kept owner) (deps : Dependencies) (rt : Identity.Runtime) (ttl : Int) (e : Event)
    (hfresh : w.Fresh e) : ∃ owner', (w.step deps rt ttl e).Kept owner' := by
  have found : ∀ key, (∀ k weather, e = .serve k weather → ∀ c, w.calls.lookup key = some c →
      ∀ t ∈ tokens c.task.body, t ≠ [] ∧ t ∉ w.drawn) → ∃ owner', World.Kept owner'
        (match w.calls.lookup key with
        | some c => w.advance deps rt ttl key c e
        | none => w) := by
    intro key hfresh
    cases hc : w.calls.lookup key with
    | none => exact ⟨owner, h⟩
    | some c => exact h.advance deps rt ttl hc fun k weather he => hfresh k weather he c hc
  cases e with
  | load tab =>
    have hload : Tab.load.Kept owner := ⟨by rintro s ⟨⟩, rfl⟩
    have hchanged := @World.Kept.change _ w h tab (fun _ => .load) hload
    refine ⟨owner, hchanged.empty, hchanged.drawn, hchanged.redis, hchanged.tabs, fun k c hc => ?_⟩
    rw [World.step, Table.lookup_mapValues] at hc
    obtain ⟨c', hc', rfl⟩ := Option.map_eq_some_iff.1 hc
    have hkept := h.calls k c' hc'
    exact ⟨hkept.shows, hkept.token, hkept.content⟩
  | send key tab task =>
    rw [World.step]
    split
    · exact ⟨owner, h⟩
    · have hbegun := (h.tabs tab).begin task
      have hsame : (task.begin (w.tabs tab)).session = (w.tabs tab).session := by cases task <;> rfl
      refine ⟨owner, (h.change hbegun).file key ⟨(h.tabs tab).shows, fun hwrites => ?_, by rintro p ⟨⟩⟩⟩
      have htoken : (w.request tab task).request.csrfToken = (task.begin (w.tabs tab)).csrfToken :=
        if_neg (Bool.eq_false_iff.1 hwrites)
      exact htoken.trans (hbegun.token.trans (congrArg tokenOf hsame))
  | serve key weather => exact found key fun k weather' he c hc => hfresh c hc
  | finish key unreadable => exact found key (by rintro k weather ⟨⟩)
  | fail key message => exact found key (by rintro k weather ⟨⟩)
  | elsewhere x body weather =>
    obtain ⟨owner', hw, -⟩ := h.answer deps rt ttl weather x hfresh
    exact ⟨owner', hw⟩
  | change gone users =>
    refine ⟨owner, h.empty, h.drawn, fun id s hs => h.redis id s ?_, h.tabs, h.calls⟩
    rw [World.step, Table.lookup_alter] at hs
    split at hs
    · cases hs' : w.redis.sessions.lookup id <;> simp [hs'] at hs
    · exact hs
  | cookie jar => exact ⟨owner, h.empty, h.drawn, h.redis, h.tabs, h.calls⟩

end World.Kept

end

/-- **A request that is not safe is served as the user whom its tab showed when it was sent, whatever cookie
the browser sent along**, however the answers to the tabs come in and whoever else logs in. -/
theorem write_as_shown (deps : Dependencies) (rt : Identity.Runtime) (ttl : Int) (users : Identity.Db) (w : World)
    (hruns : Runs (World.step deps rt ttl) World.Fresh (World.opening users) w) (key : Nat) (c : Call)
    (hcall : w.calls.lookup key = some c) (hwrites : csrfSafeMethod c.request.method = false)
    (weather : Weather) (routed : Routed) (p : Principal) (s : LoginSession)
    (hserved : (newRouter deps ⟨w.redis, weather.auth, w.users, weather.reachable⟩ c.request).1 =
      .served routed (some (p, s))) :
    ∃ shown, c.shown = some shown ∧ shown.user.id = p.user.id ∧ shown.csrfToken = s.csrfToken := by
  obtain ⟨owner, hkept⟩ : ∃ owner, w.Kept owner := by
    refine hruns.invariant (P := fun w => ∃ owner, w.Kept owner) ?_ ?_
    · rintro w e hfresh ⟨owner, hkept⟩
      exact hkept.step deps rt ttl e hfresh
    · refine ⟨fun _ => none, rfl, by rintro t ⟨⟩, ?_, fun _ => ⟨by rintro s ⟨⟩, rfl⟩, ?_⟩
      · rintro id s ⟨⟩
      · rintro k c ⟨⟩
  obtain ⟨⟨id, hheld⟩, huser, htoken⟩ := login_of_served hserved
  have howner := hkept.redis id s hheld
  have hsent := (htoken hwrites).symm.trans ((hkept.calls key c hcall).token hwrites)
  cases hshown : c.shown with
  | none =>
    -- nobody has the empty token
    rw [hsent, hshown, tokenOf, Option.map_none, Option.getD_none, hkept.empty] at howner
    cases howner
  | some shown =>
    rw [hshown] at hsent
    have hsame : s.csrfToken = shown.csrfToken := hsent
    have hshows := (hkept.calls key c hcall).shows shown hshown
    rw [← hsame, howner, huser.symm] at hshows
    exact ⟨shown, rfl, (Option.some.inj hshows).symm, hsame.symm⟩

namespace Sample

/-- Bob is a user. -/
def users : Identity.Db :=
  { Identity.Db.empty with
    users := AList.insert "bob".toList ⟨"bob".toList, "Bob".toList, "password".toList, .member, false⟩ ∅ }

/-- He logs in and then closes a connection. -/
def closing : List Event :=
  [.send 0 0 (.login ⟨"bob".toList, "password".toList, [⟨"s1".toList, "t1".toList, 0⟩]⟩), .serve 0 ⟨[], [], true⟩,
    .finish 0 [], .cookie (some "s1".toList), .send 1 0 (.fetch Http.Sample.close.method Http.Sample.close.url none)]

def closed : World := closing.foldl (World.step .all default 1) (World.opening users)

theorem closed_sent : (closed.calls.lookup 1).isSome := by decide +kernel

end Sample

theorem write_as_shown_bob : ∃ c shown, Sample.closed.calls.lookup 1 = some c ∧ c.shown = some shown ∧
    shown.user.id = "bob".toList ∧ shown.csrfToken = "t1".toList := by
  have hruns := @Runs.of_meets _ _ (World.step .all default 1) World.Fresh Sample.closing
    (World.opening Sample.users)
    ⟨trivial, by rintro c ⟨⟩ t ht; revert t; decide +kernel, trivial, trivial, trivial, trivial⟩
  have hcall : Sample.closed.calls.lookup 1 = some ((Sample.closed.calls.lookup 1).get Sample.closed_sent) := by
    simp
  obtain ⟨shown, h⟩ := write_as_shown .all default 1 Sample.users Sample.closed hruns 1 _ hcall
    (by decide +kernel) ⟨[], [], true⟩ (.handler (on "DELETE" ["api", "connections", Http.wild "id"]))
    Http.Sample.principal { Http.Sample.bob with expiresAt := 1 } (by decide +kernel)
  exact ⟨_, shown, hcall, h⟩

end Workbench.Web.AuthTabs
