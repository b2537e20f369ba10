import Workbench.Lib.Runs
import Workbench.Session.Store

/-!
# Who uses whose handles

The requests of many users on one `session.Store`. `authMiddleware` takes the user of a request from its
cookie; from then on the store is asked by the `X-Session-ID` and the connection id of the request alone
(`requireSession`). The operations of requests on their way come in any order. That a user only uses
handles which he opened is so in every run in which nobody presents the session of another user
(`uses_own_handles`).
-/

set_option autoImplicit false

namespace Workbench.Session

open Workbench.Lib

/-- A request behind the middleware: its user, and the session and the connection that it names, if it
needs a session. -/
structure Request where
  principal : Text
  target : Option (Text × Text)
  deriving DecidableEq, Repr

/-- A handle that was read, replaced or closed: the user of the request, and who had opened it. -/
structure Use where
  principal : Text
  openedBy : Text
  deriving DecidableEq, Repr

/-- The login sessions with their users, the store and the requests on their way; and the history: who
created each session, who opened the handle of each connection, and every use. -/
structure Desk where
  logins : Table Text Text
  store : Store
  requests : List Request
  creators : Table Text Text
  openers : Table (Text × Text) Text
  uses : List Use

inductive DeskEvent where
  | login (cookie user : Text)
  | logout (cookie : Text)
  /-- `POST /api/sessions` comes in. -/
  | arrive (cookie : Text)
  /-- A request with an `X-Session-ID` comes in, for a connection or to open one. -/
  | arriveIn (cookie sessionID connectionID : Text)
  | createSession (i : Nat) (bytes : List UInt8)
  | putHandle (i : Nat) (bytes : List UInt8) (handle : Handle) (now : Int)
  | getHandle (i : Nat) (now : Int)
  | replaceHandle (i : Nat) (handle : Handle) (now : Int)
  | delete (i : Nat)
  | finish (i : Nat)
  | closeIdle (now : Int)

namespace Desk

def start (idle : Int) : Desk := ⟨∅, ⟨idle, [], ∅⟩, [], ∅, ∅, []⟩

/-- `authMiddleware`, and `requireSession` where the request names a session. -/
def enter (s : Desk) (cookie : Text) (target : Option (Text × Text)) : Desk :=
  match s.logins.lookup cookie with
  | none => s
  | some user =>
    if target.all fun t => t.1 ≠ [] && s.store.hasSession t.1 then
      { s with requests := s.requests ++ [⟨user, target⟩] }
    else s

/-- The user and the connection of a request that names one. -/
def asks (s : Desk) (i : Nat) : Option (Text × Text × Text) := do
  let r ← s.requests[i]?
  let t ← r.target
  some (r.principal, t)

/-- What the history says of a handle that is used. -/
def useOf (s : Desk) (user : Text) (key : Text × Text) : List Use :=
  if (s.store.registered key.1 key.2).isSome then [⟨user, (s.openers.lookup key).getD []⟩] else []

def createSession (s : Desk) (i : Nat) (bytes : List UInt8) : Desk :=
  match s.requests[i]? with
  | none => s
  | some r =>
    { s with
      store := s.store.createSession (randomID bytes)
      creators := if s.store.hasSession (randomID bytes) then s.creators
        else s.creators.insert (randomID bytes) r.principal }

/-- The end of a request that opens a connection. -/
def putHandle (s : Desk) (i : Nat) (bytes : List UInt8) (handle : Handle) (now : Int) : Desk :=
  match s.asks i with
  | none => s
  | some (user, sessionID, _) =>
    if s.store.hasSession sessionID ∧
        s.store.connections.lookup (sessionID, randomID bytes) = none then
      { s with
        store := s.store.putHandle sessionID (randomID bytes) handle now
        openers := s.openers.insert (sessionID, randomID bytes) user }
    else s

def getHandle (s : Desk) (i : Nat) (now : Int) : Desk :=
  match s.asks i with
  | none => s
  | some (user, sessionID, connectionID) =>
    { s with
      store := (s.store.getHandle sessionID connectionID now).2
      uses := s.useOf user (sessionID, connectionID) ++ s.uses }

def replaceHandle (s : Desk) (i : Nat) (handle : Handle) (now : Int) : Desk :=
  match s.asks i with
  | none => s
  | some (user, sessionID, connectionID) =>
    match s.store.replaceHandle sessionID connectionID handle now with
    | none => s
    | some (store, _) =>
      { s with
        store := store
        openers := s.openers.insert (sessionID, connectionID) user
        uses := s.useOf user (sessionID, connectionID) ++ s.uses }

def delete (s : Desk) (i : Nat) : Desk :=
  match s.asks i with
  | none => s
  | some (user, sessionID, connectionID) =>
    { s with
      store := (s.store.delete sessionID connectionID).1
      uses := s.useOf user (sessionID, connectionID) ++ s.uses }

def step (s : Desk) : DeskEvent → Desk
  | .login cookie user => { s with logins := s.logins.insert cookie user }
  | .logout cookie => { s with logins := s.logins.erase cookie }
  | .arrive cookie => s.enter cookie none
  | .arriveIn cookie sessionID connectionID => s.enter cookie (some (sessionID, connectionID))
  | .createSession i bytes => s.createSession i bytes
  | .putHandle i bytes handle now => s.putHandle i bytes handle now
  | .getHandle i now => s.getHandle i now
  | .replaceHandle i handle now => s.replaceHandle i handle now
  | .delete i => s.delete i
  | .finish i => { s with requests := s.requests.eraseIdx i }
  | .closeIdle now => { s with store := (s.store.closeIdle now).1 }

/-- Every handle that was used had been opened by the user of the request. -/
def Isolated (s : Desk) : Prop := ∀ u ∈ s.uses, u.openedBy = u.principal

instance (s : Desk) : Decidable s.Isolated :=
  inferInstanceAs (Decidable (∀ u ∈ s.uses, u.openedBy = u.principal))

/-- A request that comes in with the `X-Session-ID` of a session that exists comes from the user who
created the session. -/
def PresentsOwn (s : Desk) : DeskEvent → Prop
  | .arriveIn cookie sessionID _ => ∀ user ∈ s.logins.lookup cookie,
      s.store.hasSession sessionID = true → s.creators.lookup sessionID = some user
  | _ => True

instance (s : Desk) : ∀ e, Decidable (s.PresentsOwn e)
  | .arriveIn cookie sessionID _ => inferInstanceAs (Decidable (∀ user ∈ s.logins.lookup cookie,
      s.store.hasSession sessionID = true → s.creators.lookup sessionID = some user))
  | .login .. | .logout .. | .arrive .. | .createSession .. | .putHandle .. | .getHandle ..
  | .replaceHandle .. | .delete .. | .finish .. | .closeIdle .. => inferInstanceAs (Decidable True)

/-! ## The invariant -/

/-- A session has a creator, a request names a session of its user, and a handle was opened by the creator
of its session. -/
structure Kept (s : Desk) : Prop where
  sessions : ∀ sessionID user, s.creators.lookup sessionID = some user →
    s.store.hasSession sessionID = true
  requests : ∀ r ∈ s.requests, ∀ t, r.target = some t → s.creators.lookup t.1 = some r.principal
  openers : ∀ key entry, s.store.connections.lookup key = some entry →
    ∃ user, s.openers.lookup key = some user ∧ s.creators.lookup key.1 = some user
  isolated : s.Isolated

section

variable {s : Desk}

theorem Kept.asks (h : s.Kept) {i : Nat} {user sessionID connectionID : Text}
    (hasks : s.asks i = some (user, sessionID, connectionID)) :
    s.creators.lookup sessionID = some user := by
  rw [Desk.asks, Option.bind_eq_bind, Option.bind_eq_some_iff] at hasks
  obtain ⟨r, hr, hasks⟩ := hasks
  obtain ⟨t, ht, heq⟩ := Option.bind_eq_some_iff.1 hasks
  cases heq
  exact h.requests r (List.mem_of_getElem? hr) _ ht

/-- A request uses a handle that its user opened. -/
theorem Kept.useOf (h : s.Kept) {user : Text} {key : Text × Text}
    (huser : s.creators.lookup key.1 = some user) : ∀ u ∈ s.useOf user key, u.openedBy = u.principal := by
  intro u hu
  rw [Desk.useOf] at hu
  split at hu
  · next hreg =>
      obtain rfl := List.mem_singleton.1 hu
      rw [Store.registered] at hreg
      cases hentry : s.store.connections.lookup key with
      | none => simp [hentry] at hreg
      | some entry =>
        obtain ⟨opener, hopener, hcreator⟩ := h.openers key entry hentry
        show (s.openers.lookup key).getD [] = user
        rw [hopener, Option.getD_some]
        exact Option.some.inj (hcreator.symm.trans huser)
  · cases hu

theorem isolated_append {uses : List Use} (h : s.Isolated)
    (huses : ∀ u ∈ uses, u.openedBy = u.principal) : ∀ u ∈ uses ++ s.uses, u.openedBy = u.principal := by
  intro u hu
  rcases List.mem_append.1 hu with hu | hu
  · exact huses u hu
  · exact h u hu

theorem Kept.enter (h : s.Kept) {cookie : Text} {target : Option (Text × Text)}
    (hown : ∀ t, target = some t → ∀ user, s.logins.lookup cookie = some user →
      s.store.hasSession t.1 = true → s.creators.lookup t.1 = some user) :
    (s.enter cookie target).Kept := by
  rw [Desk.enter]
  cases hlogin : s.logins.lookup cookie with
  | none => exact h
  | some user =>
    simp only
    split
    · next hrequired =>
        refine ⟨h.sessions, fun r hr t ht => ?_, h.openers, h.isolated⟩
        rcases List.mem_append.1 hr with hold | hnew
        · exact h.requests r hold t ht
        · obtain rfl := List.mem_singleton.1 hnew
          obtain rfl : target = some t := ht
          have hsession := (Bool.and_eq_true_iff.1 hrequired).2
          exact hown t rfl user hlogin hsession
    · exact h

theorem Kept.createSession (h : s.Kept) (i : Nat) (bytes : List UInt8) :
    (s.createSession i bytes).Kept := by
  rw [Desk.createSession]
  cases s.requests[i]? with
  | none => exact h
  | some r =>
    by_cases hexists : s.store.hasSession (randomID bytes) = true
    · have hsame : s.store.createSession (randomID bytes) = s.store := if_pos hexists
      simp only [hsame, if_pos hexists]
      exact ⟨h.sessions, h.requests, h.openers, h.isolated⟩
    · have hnew : s.store.createSession (randomID bytes) =
          { s.store with sessions := randomID bytes :: s.store.sessions } := if_neg hexists
      -- nobody has named the new session before
      have hother : ∀ sessionID user, s.creators.lookup sessionID = some user →
          (s.creators.insert (randomID bytes) r.principal).lookup sessionID = some user := by
        intro sessionID user hcreator
        have hne : sessionID ≠ randomID bytes := by
          rintro rfl
          exact hexists (h.sessions _ _ hcreator)
        exact (AList.lookup_insert_ne hne).trans hcreator
      simp only [hnew, if_neg hexists]
      constructor
      · intro sessionID user hcreator
        rw [Store.hasSession, List.contains_iff_mem, List.mem_cons]
        by_cases hid : sessionID = randomID bytes
        · exact Or.inl hid
        · rw [AList.lookup_insert_ne hid] at hcreator
          exact Or.inr (List.contains_iff_mem.1 (h.sessions _ _ hcreator))
      · exact fun r' hr' t ht => hother _ _ (h.requests r' hr' t ht)
      · intro key entry hentry
        obtain ⟨user, hopener, hcreator⟩ := h.openers key entry hentry
        exact ⟨user, hopener, hother _ _ hcreator⟩
      · exact h.isolated

/-- A handle filed under a connection of the user's session. -/
theorem Kept.opened (h : s.Kept) {user : Text} (key : Text × Text) {store : Store} {entry : Entry}
    {uses : List Use} (huser : s.creators.lookup key.1 = some user)
    (hsessions : store.sessions = s.store.sessions)
    (hconnections : store.connections = s.store.connections.insert key entry)
    (huses : ∀ u ∈ uses, u.openedBy = u.principal) :
    Kept { s with store := store, openers := s.openers.insert key user, uses := uses } := by
  constructor
  · intro sessionID creator hcreator
    rw [Store.hasSession, hsessions]
    exact h.sessions sessionID creator hcreator
  · exact h.requests
  · intro other e he
    rw [hconnections] at he
    by_cases hkey : other = key
    · subst hkey
      exact ⟨user, AList.lookup_insert s.openers, huser⟩
    · rw [AList.lookup_insert_ne hkey] at he
      obtain ⟨opener, hopener, hcreator⟩ := h.openers other e he
      exact ⟨opener, (AList.lookup_insert_ne hkey).trans hopener, hcreator⟩
  · exact huses

/-- Connections that go or are only touched. -/
theorem Kept.shrink (h : s.Kept) {store : Store} {uses : List Use}
    (hsessions : store.sessions = s.store.sessions)
    (hconnections : ∀ key, (store.connections.lookup key).isSome →
      (s.store.connections.lookup key).isSome) (huses : ∀ u ∈ uses, u.openedBy = u.principal) :
    Kept { s with store := store, uses := uses } := by
  constructor
  · intro sessionID creator hcreator
    rw [Store.hasSession, hsessions]
    exact h.sessions sessionID creator hcreator
  · exact h.requests
  · intro key e he
    obtain ⟨entry, hentry⟩ := Option.isSome_iff_exists.1 (hconnections key (Option.isSome_of_eq_some he))
    exact h.openers key entry hentry
  · exact huses

theorem Kept.putHandle (h : s.Kept) (i : Nat) (bytes : List UInt8) (handle : Handle) (now : Int) :
    (s.putHandle i bytes handle now).Kept := by
  rw [Desk.putHandle]
  cases hasks : s.asks i with
  | none => exact h
  | some ask =>
    obtain ⟨user, sessionID, connectionID⟩ := ask
    simp only
    split
    · next hfree =>
        have hput : s.store.putHandle sessionID (randomID bytes) handle now =
          s.store.put (sessionID, randomID bytes) ⟨some handle, now⟩ := if_pos hfree
        rw [hput]
        exact h.opened (sessionID, randomID bytes) (h.asks hasks) rfl rfl h.isolated
    · exact h

theorem Kept.getHandle (h : s.Kept) (i : Nat) (now : Int) : (s.getHandle i now).Kept := by
  rw [Desk.getHandle]
  cases hasks : s.asks i with
  | none => exact h
  | some ask =>
    obtain ⟨user, sessionID, connectionID⟩ := ask
    refine h.shrink ?_ ?_ (isolated_append h.isolated (h.useOf (h.asks hasks)))
    · rw [Store.getHandle]
      split
      · rfl
      · split
        · rfl
        · rfl
    · intro key hkey
      rw [Store.getHandle] at hkey
      split at hkey
      · exact hkey
      · next entry hentry =>
          split at hkey
          · exact hkey
          · by_cases hsame : key = (sessionID, connectionID)
            · rw [hsame, hentry]
              rfl
            · rw [Store.put, AList.lookup_insert_ne hsame] at hkey
              exact hkey

theorem Kept.replaceHandle (h : s.Kept) (i : Nat) (handle : Handle) (now : Int) :
    (s.replaceHandle i handle now).Kept := by
  rw [Desk.replaceHandle]
  cases hasks : s.asks i with
  | none => exact h
  | some ask =>
    obtain ⟨user, sessionID, connectionID⟩ := ask
    simp only
    cases hreplace : s.store.replaceHandle sessionID connectionID handle now with
    | none => exact h
    | some r =>
      obtain ⟨entry, hentry, heq⟩ := Option.map_eq_some_iff.1 hreplace
      cases heq
      exact h.opened (sessionID, connectionID) (h.asks hasks) rfl rfl
        (isolated_append h.isolated (h.useOf (h.asks hasks)))

theorem Kept.delete (h : s.Kept) (i : Nat) : (s.delete i).Kept := by
  rw [Desk.delete]
  cases hasks : s.asks i with
  | none => exact h
  | some ask =>
    obtain ⟨user, sessionID, connectionID⟩ := ask
    refine h.shrink rfl (fun key hkey => ?_) (isolated_append h.isolated (h.useOf (h.asks hasks)))
    by_cases hsame : key = (sessionID, connectionID)
    · rw [Store.delete, hsame, AList.lookup_erase] at hkey
      cases hkey
    · rw [Store.delete, AList.lookup_erase_ne hsame] at hkey
      exact hkey

/-- One event keeps the invariant. -/
theorem Kept.step (h : s.Kept) {e : DeskEvent} (hown : s.PresentsOwn e) : (s.step e).Kept := by
  cases e with
  | login cookie user => exact ⟨h.sessions, h.requests, h.openers, h.isolated⟩
  | logout cookie => exact ⟨h.sessions, h.requests, h.openers, h.isolated⟩
  | arrive cookie => exact h.enter fun t ht => by cases ht
  | arriveIn cookie sessionID connectionID =>
    apply h.enter
    rintro t ⟨⟩ user huser hsession
    exact hown user huser hsession
  | createSession i bytes => exact h.createSession i bytes
  | putHandle i bytes handle now => exact h.putHandle i bytes handle now
  | getHandle i now => exact h.getHandle i now
  | replaceHandle i handle now => exact h.replaceHandle i handle now
  | delete i => exact h.delete i
  | finish i =>
    exact ⟨h.sessions, fun r hr => h.requests r (List.mem_of_mem_eraseIdx hr), h.openers, h.isolated⟩
  | closeIdle now =>
    refine h.shrink rfl (fun key hkey => ?_) h.isolated
    rw [Store.closeIdle, Table.lookup_alter, if_pos rfl] at hkey
    cases hentry : s.store.connections.lookup key with
    | none =>
      rw [hentry] at hkey
      cases hkey
    | some entry => rfl

end

/-! ## Runs -/

/-- In every run in which each request that names a session comes from the user who created it, nobody
uses a handle that another one opened. -/
theorem uses_own_handles (idle : Int) (s : Desk) (h : Runs step PresentsOwn (start idle) s) :
    s.Isolated := by
  have hkept : s.Kept := by
    refine h.invariant (fun s e hown hs => hs.step hown) ⟨?_, ?_, ?_, ?_⟩
    · intro sessionID user hcreator
      cases hcreator
    · intro r hr
      cases hr
    · intro key entry hentry
      cases hentry
    · intro u hu
      cases hu
  exact hkept.isolated

/-! ## Two users -/

def sessionBytes : List UInt8 := [1, 2, 3]

def connectionBytes : List UInt8 := [4, 5, 6]

/-- The first user creates a session and opens a connection in it. -/
def openOwn : List DeskEvent :=
  [.login "ca".toList "usr_a".toList, .arrive "ca".toList, .createSession 0 sessionBytes, .finish 0,
    .arriveIn "ca".toList (randomID sessionBytes) [], .putHandle 0 connectionBytes ⟨[], some 0⟩ 0,
    .finish 0]

def useOwn : List DeskEvent :=
  [.arriveIn "ca".toList (randomID sessionBytes) (randomID connectionBytes), .getHandle 0 0]

/-- The second user names the session and the connection of the first one. -/
def useOther : List DeskEvent :=
  [.login "cb".toList "usr_b".toList,
    .arriveIn "cb".toList (randomID sessionBytes) (randomID connectionBytes), .getHandle 0 0]

theorem uses_own_handles_first :
    ((openOwn ++ useOwn).foldl step (start 0)).uses ≠ [] ∧
      Isolated ((openOwn ++ useOwn).foldl step (start 0)) := by
  refine ⟨by decide, uses_own_handles 0 _ ?_⟩
  exact Runs.of_meets _ (by decide)

theorem uses_handles_of_others :
    ¬ ∀ (idle : Int) (s : Desk), Runs step (fun _ _ => True) (start idle) s → s.Isolated := by
  intro h
  have hrun : Runs step (fun _ _ => True) (start 0) ((openOwn ++ useOther).foldl step (start 0)) :=
    Runs.of_meets _ (by decide)
  have hnot : ¬ Isolated ((openOwn ++ useOther).foldl step (start 0)) := by decide
  exact hnot (h 0 _ hrun)

end Desk

end Workbench.Session
