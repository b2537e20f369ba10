import Workbench.Base.Text
import Workbench.Lib.Commands
import Workbench.Lib.Table

/-!
# The login sessions in Redis

`api/internal/identity/sessions.go`. A session is a value under its key `ops:session:`, and the set under
`ops:user-sessions:` has the ids of the sessions of a user; no key has both forms. The expiry of the keys
is left out.
-/

set_option autoImplicit false

namespace Workbench.Identity

open Workbench.Lib

structure LoginSession where
  id : Text
  userID : Text
  csrfToken : Text
  expiresAt : Int
  deriving DecidableEq, Repr

/-- The sessions by their ids, where a payload that does not decode is none, and the members of the
index sets by their users. -/
structure Redis where
  sessions : Table Text (Option LoginSession)
  userSessions : Table (Text × Text) Unit

/-- The commands that `Sessions` sends. -/
inductive Command : Type → Type where
  | get (id : Text) : Command (Option (Option LoginSession))
  | setNX (id : Text) (payload : LoginSession) : Command Bool
  | sAdd (userID id : Text) : Command Unit
  | expire (userID : Text) : Command Unit
  | del (ids userIDs : List Text) : Command Unit
  | sRem (userID id : Text) : Command Unit
  | sMembers (userID : Text) : Command (List Text)

namespace Redis

def empty : Redis := ⟨∅, ∅⟩

/-- The keys of the sessions and of the index sets are deleted together. -/
def del (r : Redis) (ids userIDs : List Text) : Redis where
  sessions := r.sessions.alter (fun id => id ∈ ids) fun _ => none
  userSessions := r.userSessions.alter (fun k => k.1 ∈ userIDs) fun _ => none

def members (r : Redis) (userID : Text) : List Text :=
  (r.userSessions.keysWhere fun k _ => k.1 = userID).map Prod.snd

def exec {β : Type} : Command β → Redis → β × Redis
  | .get id, r => (r.sessions.lookup id, r)
  | .setNX id payload, r =>
    match r.sessions.lookup id with
    | some _ => (false, r)
    | none => (true, { r with sessions := r.sessions.insert id (some payload) })
  | .sAdd userID id, r => ((), { r with userSessions := r.userSessions.insert (userID, id) () })
  | .expire _, r => ((), r)
  | .del ids userIDs, r => ((), r.del ids userIDs)
  | .sRem userID id, r => ((), { r with userSessions := r.userSessions.erase (userID, id) })
  | .sMembers userID, r => (r.members userID, r)

@[simp]
theorem lookup_del (r : Redis) (ids userIDs : List Text) (id : Text) :
    (r.del ids userIDs).sessions.lookup id = if id ∈ ids then none else r.sessions.lookup id := by
  simp [del]

@[simp]
theorem lookup_del_userSessions (r : Redis) (ids userIDs : List Text) (k : Text × Text) :
    (r.del ids userIDs).userSessions.lookup k =
      if k.1 ∈ userIDs then none else r.userSessions.lookup k := by
  simp [del]

theorem mem_members {r : Redis} {userID id : Text} :
    id ∈ r.members userID ↔ r.userSessions.lookup (userID, id) = some () := by
  simp only [members, List.mem_map, Table.mem_keysWhere]
  constructor
  · rintro ⟨⟨u, i⟩, ⟨⟨⟩, hlookup, hu⟩, rfl⟩
    obtain rfl : u = userID := of_decide_eq_true hu
    exact hlookup
  · intro hlookup
    exact ⟨(userID, id), ⟨(), hlookup, decide_eq_true rfl⟩, rfl⟩

end Redis

inductive SessionError where
  | sessionNotFound
  | ttl
  | token
  | loadSession
  | decodeSession
  | createSession
  | indexUserSession
  | expireUserSessions
  | deleteSession
  | removeUserSessionIndex
  | loadUserSessions
  | deleteUserSessions
  deriving DecidableEq, Repr

/-- A program of the session store. -/
abbrev Session (α : Type) := Prog Command (Except SessionError α)

namespace Sessions

/-- What a round of `Create` takes from outside: two random tokens and the clock. -/
structure Draw where
  id : Text
  csrf : Text
  now : Int
  deriving DecidableEq, Repr

/-- The last cleaning up of a `Create` that could not set the expiry of the index. -/
def unindexNew (session : LoginSession) : Session LoginSession :=
  .call (.sRem session.userID session.id) fun _ => .ret (.error .expireUserSessions)

def dropNew (session : LoginSession) : Session LoginSession :=
  .call (.del [session.id] []) fun _ => unindexNew session

/-- `Create` when the session and its index entry are there. -/
def expireIndex (session : LoginSession) : Session LoginSession :=
  .call (.expire session.userID) fun
    | none => dropNew session
    | some () => .ret (.ok session)

def dropUnindexed (session : LoginSession) : Session LoginSession :=
  .call (.del [session.id] []) fun _ => .ret (.error .indexUserSession)

/-- `Create` when the session is there. -/
def index (session : LoginSession) : Session LoginSession :=
  .call (.sAdd session.userID session.id) fun
    | none => dropUnindexed session
    | some () => expireIndex session

/-- The loop of `Create`; where the draws end, the random source fails. -/
def createLoop (ttl : Int) (userID : Text) : List Draw → Session LoginSession
  | [] => .ret (.error .token)
  | draw :: rest =>
    let session : LoginSession := ⟨draw.id, userID, draw.csrf, draw.now + ttl⟩
    .call (.setNX draw.id session) fun
      | none => .ret (.error .createSession)
      | some false => createLoop ttl userID rest
      | some true => index session

def create (ttl : Int) (userID : Text) (draws : List Draw) : Session LoginSession :=
  if ttl ≤ 0 then .ret (.error .ttl) else createLoop ttl userID draws

/-- What `Get` makes of the answer. -/
def decode : Option (Option (Option LoginSession)) → Except SessionError LoginSession
  | none => .error .loadSession
  | some none => .error .sessionNotFound
  | some (some none) => .error .decodeSession
  | some (some (some session)) => .ok session

theorem decode_eq_ok {answer : Option (Option (Option LoginSession))} {session : LoginSession} :
    decode answer = .ok session ↔ answer = some (some (some session)) := by
  constructor
  · intro h
    match answer, h with
    | some (some (some _)), rfl => rfl
  · rintro rfl
    rfl

def get (id : Text) : Session LoginSession := .call (.get id) fun answer => .ret (decode answer)

/-- `Delete` behind its `Get`. -/
def unindex (session : LoginSession) (id : Text) : Session Unit :=
  .call (.sRem session.userID id) fun
    | none => .ret (.error .removeUserSessionIndex)
    | some () => .ret (.ok ())

def drop (id : Text) (found : Option LoginSession) : Session Unit :=
  .call (.del [id] []) fun
    | none => .ret (.error .deleteSession)
    | some () =>
      match found with
      | none => .ret (.ok ())
      | some session => unindex session id

def delete (id : Text) : Session Unit :=
  .call (.get id) fun answer =>
    match decode answer with
    | .ok session => drop id (some session)
    | .error .sessionNotFound => drop id none
    | .error e => .ret (.error e)

/-- `DeleteUser` when it has read the index. -/
def deleteAll (userID : Text) (ids : List Text) : Session Unit :=
  .call (.del ids [userID]) fun
    | none => .ret (.error .deleteUserSessions)
    | some () => .ret (.ok ())

def deleteUser (userID : Text) : Session Unit :=
  .call (.sMembers userID) fun
    | none => .ret (.error .loadUserSessions)
    | some ids => deleteAll userID ids

/-! ## One call alone -/

theorem run_get (id : Text) (ds : List Delivery) (r : Redis) :
    (get id).run Redis.exec ds r = (decode (deliver Redis.exec (ds.headD .answered) (.get id) r).1, r) := by
  rw [get, Prog.run]
  cases ds.headD .answered <;> rfl

/-- A session that `Get` gives is held. -/
theorem held_of_get {id : Text} {ds : List Delivery} {r : Redis} {session : LoginSession}
    (h : ((get id).run Redis.exec ds r).1 = .ok session) :
    r.sessions.lookup id = some (some session) := by
  rw [run_get] at h
  cases hd : ds.headD .answered with
  | answered =>
    rw [hd] at h
    exact Option.some.inj (decode_eq_ok.1 h)
  | refused =>
    rw [hd] at h
    cases h
  | lost =>
    rw [hd] at h
    cases h

end Sessions

end Workbench.Identity
