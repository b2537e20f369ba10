import Workbench.Http.Router
import Workbench.Identity.Effects
import Workbench.Identity.Sessions

/-!
# The authentication in front of the routes

`authMiddleware` of `api/internal/httpapi/auth_middleware.go`, between the security headers and the
multiplexer. It decides by the unescaped path whether a request needs a session; the multiplexer routes
by the escaped one.
-/

set_option autoImplicit false

namespace Workbench.Http

open Workbench.Lib
open Workbench.Identity (Redis LoginSession Principal)

/-- What the middleware and the multiplexer read of a request: the value of its first `ops_session`
cookie, and its `X-CSRF-Token`, which is empty where there is none. -/
structure Request where
  method : Text
  url : URL
  cookie : Option Text
  csrfToken : Text

/-- What the services have and how they answer: the deliveries of the commands to Redis, and whether the
database of the users can be reached. -/
structure World where
  redis : Redis
  deliveries : List Delivery
  users : Identity.Db
  reachable : Bool

/-- `PrincipalForUser` of the identity service. -/
def World.principalForUser (w : World) (userID : Text) : Option Principal :=
  if w.reachable then
    match ((Identity.principalForUser userID).eval w.users).1 with
    | .ok p => some p
    | .error _ => none
  else none

/-- What answers a request: the multiplexer, for whoever is logged in, or the middleware itself. -/
inductive Reaction where
  | served (routed : Routed) (login : Option (Principal × LoginSession))
  | refused (status : Nat) (code message : Text)
  deriving DecidableEq, Repr

def authRequired : Reaction := .refused 401 "auth_required".toList "需要登录".toList
def authUnavailable : Reaction := .refused 503 "auth_unavailable".toList "认证服务不可用".toList
def csrfInvalid : Reaction := .refused 403 "csrf_invalid".toList "CSRF token 无效".toList

def methodPost : Text := "POST".toList
def methodOptions : Text := "OPTIONS".toList

def isPublicAuthPath (r : Request) : Bool :=
  (r.method = methodGet && (r.url.path = "/health/live".toList || r.url.path = "/health/ready".toList)) ||
  (r.method = methodPost && r.url.path = "/api/auth/login".toList) ||
  ((r.method = methodGet || r.method = methodHead) && r.url.path ≠ "/api".toList &&
    !("/api/".toList).isPrefixOf r.url.path)

def csrfSafeMethod (method : Text) : Bool :=
  method = methodGet || method = methodHead || method = methodOptions

/-- The reaction and what is then in Redis: the session of a user who is gone or disabled is deleted. -/
def authMiddleware (next : Option (Principal × LoginSession) → Reaction) (w : World) (r : Request) :
    Reaction × Redis :=
  if isPublicAuthPath r then (next none, w.redis)
  else
    match r.cookie with
    | none => (authRequired, w.redis)
    | some [] => (authRequired, w.redis)
    | some cookie =>
      match ((Identity.Sessions.get cookie).run Redis.exec w.deliveries w.redis).1 with
      | .error .sessionNotFound => (authRequired, w.redis)
      | .error _ => (authUnavailable, w.redis)
      | .ok session =>
        let deleted :=
          ((Identity.Sessions.delete session.id).run Redis.exec w.deliveries.tail w.redis).2
        match w.principalForUser session.userID with
        | none => (authRequired, deleted)
        | some principal =>
          if principal.user.disabled then (authRequired, deleted)
          else if !csrfSafeMethod r.method && r.csrfToken ≠ session.csrfToken then
            (csrfInvalid, w.redis)
          else (next (some (principal, session)), w.redis)

/-- The handler that `NewRouter` returns, behind the security headers. -/
def newRouter (deps : Dependencies) (w : World) (r : Request) : Reaction × Redis :=
  let next := Reaction.served (deps.mux.findHandler r.method r.url)
  if deps.authenticates then authMiddleware next w r else (next none, w.redis)

/-! ## What passes -/

theorem World.principalForUser_eq {w : World} {userID : Text} {p : Principal}
    (h : w.principalForUser userID = some p) :
    ∃ u, w.users.users.lookup userID = some u ∧ p.user = u.toUser userID := by
  rw [principalForUser, Option.ite_none_right_eq_some] at h
  obtain ⟨-, h⟩ := h
  split at h
  · next q hload =>
      cases h
      exact Identity.eval_principalForUser hload
  · cases h

/-- What a request that is no public one comes with, if the middleware lets it pass. -/
structure Authenticated (w : World) (r : Request) (principal : Principal) (session : LoginSession) :
    Prop where
  cookie : ∃ cookie, r.cookie = some cookie ∧ cookie ≠ [] ∧
    w.redis.sessions.lookup cookie = some (some session)
  user : ∃ u, w.users.users.lookup session.userID = some u ∧ u.disabled = false ∧
    principal.user = u.toUser session.userID
  csrf : r.method ≠ methodGet → r.method ≠ methodHead → r.method ≠ methodOptions →
    r.csrfToken = session.csrfToken

/-- What the middleware passes on: a public request, or one that is authenticated. -/
theorem authMiddleware_served {next : Option (Principal × LoginSession) → Reaction} {w : World}
    {r : Request} {routed : Routed} {login : Option (Principal × LoginSession)}
    (h : (authMiddleware next w r).1 = .served routed login) :
    (isPublicAuthPath r = true ∧ next none = .served routed login) ∨
      ∃ principal session, next (some (principal, session)) = .served routed login ∧
        Authenticated w r principal session := by
  rw [authMiddleware] at h
  split at h
  · next hpublic => exact Or.inl ⟨hpublic, h⟩
  refine Or.inr ?_
  cases hcookie : r.cookie with
  | none =>
    rw [hcookie] at h
    cases h
  | some cookie =>
    rw [hcookie] at h
    cases cookie with
    | nil => cases h
    | cons c cs =>
      simp only at h
      split at h
      · cases h
      · cases h
      · next session hget =>
          -- The session is one the store holds, and the checks behind it only refuse.
          have hheld := Identity.Sessions.held_of_get hget
          split at h
          · cases h
          · next principal hload =>
              obtain ⟨u, hu, huser⟩ := World.principalForUser_eq hload
              split at h
              · cases h
              · next henabled =>
                  split at h
                  · cases h
                  · next hcsrf =>
                      refine ⟨principal, session, h, ?_⟩
                      refine ⟨⟨_, hcookie, List.cons_ne_nil _ _, hheld⟩, ⟨u, hu, ?_, huser⟩, ?_⟩
                      · rw [huser] at henabled
                        exact Bool.not_eq_true _ ▸ henabled
                      · intro hget hhead hoptions
                        simpa [csrfSafeMethod, hget, hhead, hoptions] using hcsrf

/-! ## Public requests -/

/-- A public request is no request for a route under `/api` but the login. -/
theorem not_public_of_api {deps : Dependencies} {r : Request} {p : Pattern}
    (hfound : deps.mux.findHandler r.method r.url = .handler p) (hapi : UnderApi p)
    (hlogin : p ≠ login) : isPublicAuthPath r = false := by
  obtain ⟨hp, hserves, hspelled⟩ := ServeMux.findHandler_sound (fun q hq => (listed hq).1) hfound
  obtain ⟨hmethod, hconnect, -, honly⟩ := (listed hp).2 hapi
  have hpath : Spelled p.segments r.url.path := by
    apply hspelled
    intro hmeth
    rcases hserves with hsame | ⟨hhead, -⟩ | hnone
    · exact hconnect (hsame.trans (congrArg some hmeth))
    · rw [hmeth] at hhead
      exact absurd hhead (by decide)
    · exact hmethod hnone
  have hfront := path_under_api hp hapi hpath
  rw [← Bool.not_eq_true]
  intro hpublic
  simp only [isPublicAuthPath, Bool.or_eq_true, Bool.and_eq_true, decide_eq_true_eq,
    Bool.not_eq_true'] at hpublic
  rcases hpublic with (⟨-, hhealth | hhealth⟩ | ⟨hpost, hloginPath⟩) | ⟨-, hno⟩
  · rw [hhealth] at hfront
    exact absurd hfront (by decide)
  · rw [hhealth] at hfront
    exact absurd hfront (by decide)
  · -- A `POST` to the path of the login goes to the login.
    apply hlogin
    apply honly
    · rcases hserves with hsame | ⟨hhead, -⟩ | hnone
      · rw [hsame, hpost]
        rfl
      · rw [hpost] at hhead
        exact absurd hhead (by decide)
      · exact absurd hnone hmethod
    · rw [hloginPath] at hpath
      exact hpath.couldSpell
  · rw [hfront] at hno
    exact absurd hno (by decide)

/-- The two readings of a path differ: this `POST` is public, but it goes to the web interface. -/
example :
    let url : URL := ⟨"/api/auth%2Flogin".toList, "/api/auth/login".toList, by decide +kernel⟩
    isPublicAuthPath ⟨methodPost, url, none, []⟩ = true ∧
      Dependencies.all.mux.findHandler methodPost url = .handler webui := by
  decide +kernel

/-! ## No handler without a login -/

/-- A handler under `/api` other than the login only runs for a request whose cookie names a session that
is held, whose user is there and enabled, and which has the token of the session if its method is not
safe. -/
theorem api_handler_authenticated (deps : Dependencies) (hservices : deps.authenticates = true)
    (w : World) (r : Request) {p : Pattern} {login : Option (Principal × LoginSession)}
    (h : (newRouter deps w r).1 = .served (.handler p) login) (hapi : UnderApi p)
    (hlogin : p ≠ Http.login) :
    ∃ principal session, login = some (principal, session) ∧ Authenticated w r principal session := by
  rw [newRouter, if_pos hservices] at h
  rcases authMiddleware_served h with ⟨hpublic, hnext⟩ | ⟨principal, session, hnext, hauth⟩
  · obtain ⟨hfound, -⟩ := Reaction.served.inj hnext
    rw [not_public_of_api hfound hapi hlogin] at hpublic
    cases hpublic
  · obtain ⟨-, hlog⟩ := Reaction.served.inj hnext
    exact ⟨principal, session, hlog.symm, hauth⟩

namespace Sample

def bob : LoginSession := ⟨"s1".toList, "bob".toList, "t1".toList, 0⟩

/-- Bob is logged in. -/
def world : World where
  redis := ⟨AList.insert "s1".toList (some bob) ∅, ∅⟩
  deliveries := []
  users :=
    { Identity.Db.empty with
      users := AList.insert "bob".toList ⟨"bob".toList, "Bob".toList, [], .member, false⟩ ∅ }
  reachable := true

/-- Bob closes a connection. -/
def close : Request where
  method := "DELETE".toList
  url := ⟨"/api/connections/c1".toList, "/api/connections/c1".toList, by decide +kernel⟩
  cookie := some "s1".toList
  csrfToken := "t1".toList

def principal : Principal := ⟨⟨"bob".toList, "bob".toList, "Bob".toList, .member, false⟩, []⟩

end Sample

theorem api_handler_authenticated_close :
    ∃ principal session, some (Sample.principal, Sample.bob) = some (principal, session) ∧
      Authenticated Sample.world Sample.close principal session := by
  have hran : (newRouter .all Sample.world Sample.close).1 =
      .served (.handler (on "DELETE" ["api", "connections", wild "id"]))
        (some (Sample.principal, Sample.bob)) := by
    decide +kernel
  exact api_handler_authenticated .all (by decide) Sample.world Sample.close hran (by decide) (by decide)

end Workbench.Http
