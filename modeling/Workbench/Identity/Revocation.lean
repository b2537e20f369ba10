import Workbench.Identity.Sessions
import Workbench.Lib.Runs

/-!
# Revoking the sessions of a user

Any number of calls of the session store, whose commands come to Redis in any order. `DeleteUser` reads the
index of a user and then deletes the sessions it has read together with the whole index, so a session that
`Create` puts into the index in between stays behind without an index entry, and no later `DeleteUser`
finds it. In a run in which no index entry comes in between, the revocation is complete
(`deleteUser_revokes`).
-/

set_option autoImplicit false

namespace Workbench.Identity.Sessions

open Workbench.Lib

/-- A call on its way. A `DeleteUser` has the sessions of its user whose `Create` had returned when it
began. -/
inductive Call where
  | create (userID : Text) (rest : Session LoginSession)
  | get (rest : Session LoginSession)
  | delete (rest : Session Unit)
  | deleteUser (userID : Text) (before : List Text) (rest : Session Unit)
  | returned

/-- Redis and the calls; and the history: the sessions whose `Create` has returned with their users, the
call that brought each session into Redis, and the sessions that a `DeleteUser` has revoked. -/
structure Hall where
  redis : Redis
  calls : List Call
  created : List (Text × Text)
  owners : Table Text Nat
  revoked : List Text

inductive Event where
  | create (ttl : Int) (userID : Text) (draws : List Draw)
  | get (id : Text)
  | delete (id : Text)
  | deleteUser (userID : Text)
  /-- The next command of a call comes to Redis. -/
  | perform (i : Nat) (d : Delivery)
  | finish (i : Nat)

/-- The session that the next command of a program brings into Redis. -/
def brings {α : Type} (d : Delivery) (r : Redis) : Session α → Option Text
  | .call (.setNX id _) _ => if d ≠ .refused ∧ r.sessions.lookup id = none then some id else none
  | _ => none

namespace Call

/-- The user whose index the next command of a call extends. -/
def indexes (d : Delivery) : Call → Option Text
  | .create _ (.call (.sAdd userID _) _) => if d ≠ .refused then some userID else none
  | _ => none

/-- The user whose index a `DeleteUser` has read and not yet deleted. -/
def revokes : Call → Option Text
  | .deleteUser userID _ (.call (.del _ _) _) => some userID
  | _ => none

/-- The session that the next command of a call brings into Redis. -/
def brings (d : Delivery) (r : Redis) : Call → Option Text
  | .create _ rest => Sessions.brings d r rest
  | _ => none

/-- The next command of a call. -/
def perform (d : Delivery) (r : Redis) : Call → Call × Redis
  | .create userID rest =>
    let next := rest.step Redis.exec d r
    (.create userID next.1, next.2)
  | .get rest =>
    let next := rest.step Redis.exec d r
    (.get next.1, next.2)
  | .delete rest =>
    let next := rest.step Redis.exec d r
    (.delete next.1, next.2)
  | .deleteUser userID before rest =>
    let next := rest.step Redis.exec d r
    (.deleteUser userID before next.1, next.2)
  | .returned => (.returned, r)

end Call

/-- The history of a session that the call `i` brings into Redis. -/
def adopt (i : Nat) (brought : Option Text) (owners : Table Text Nat) : Table Text Nat :=
  match brought with
  | none => owners
  | some id => owners.insert id i

namespace Hall

def start : Hall := ⟨.empty, [], [], ∅, []⟩

/-- The sessions of a user whose `Create` has returned. -/
def createdOf (s : Hall) (userID : Text) : List Text :=
  (s.created.filter fun c => c.1 = userID).map Prod.snd

def begin (s : Hall) (call : Call) : Hall := { s with calls := s.calls ++ [call] }

def perform (s : Hall) (i : Nat) (d : Delivery) (call : Call) : Hall :=
  { s with
    redis := (call.perform d s.redis).2
    calls := s.calls.set i (call.perform d s.redis).1
    owners := adopt i (call.brings d s.redis) s.owners }

/-- A call that has its result returns. -/
def finish (s : Hall) (i : Nat) : Call → Hall
  | .create userID (.ret (.ok session)) =>
    { s with calls := s.calls.set i .returned, created := (userID, session.id) :: s.created }
  | .create _ (.ret (.error _)) => { s with calls := s.calls.set i .returned }
  | .get (.ret _) => { s with calls := s.calls.set i .returned }
  | .delete (.ret _) => { s with calls := s.calls.set i .returned }
  | .deleteUser _ before (.ret (.ok ())) =>
    { s with calls := s.calls.set i .returned, revoked := before ++ s.revoked }
  | .deleteUser _ _ (.ret (.error _)) => { s with calls := s.calls.set i .returned }
  | _ => s

def step (s : Hall) : Event → Hall
  | .create ttl userID draws => s.begin (.create userID (Sessions.create ttl userID draws))
  | .get id => s.begin (.get (Sessions.get id))
  | .delete id => s.begin (.delete (Sessions.delete id))
  | .deleteUser userID =>
    s.begin (.deleteUser userID (s.createdOf userID) (Sessions.deleteUser userID))
  | .perform i d =>
    match s.calls[i]? with
    | none => s
    | some call => s.perform i d call
  | .finish i =>
    match s.calls[i]? with
    | none => s
    | some call => s.finish i call

/-- No `Get` retrieves a session that was revoked. -/
def Revoked (s : Hall) : Prop :=
  ∀ id ∈ s.revoked, ∀ ds session, ((Sessions.get id).run Redis.exec ds s.redis).1 ≠ .ok session

/-- A command puts no session into an index that a `DeleteUser` has read and not yet deleted, and brings no
session into Redis under a token that was used before. -/
def calm (s : Hall) : Event → Bool
  | .perform i d =>
    match s.calls[i]? with
    | none => true
    | some call =>
      ((call.indexes d).all fun userID => s.calls.all fun other => other.revokes ≠ some userID) &&
        (call.brings d s.redis).all fun id => s.owners.lookup id = none
  | _ => true

end Hall

/-! ## What a command keeps -/

/-- The session is in Redis. -/
def Held (r : Redis) (id : Text) : Prop := r.sessions.lookup id ≠ none

def Indexed (r : Redis) (userID id : Text) : Prop := r.userSessions.lookup (userID, id) = some ()

/-- The session is in the index as long as it is held. -/
def Covered (r : Redis) (userID id : Text) : Prop := Held r id → Indexed r userID id

/-- The session is no more in Redis, and its token was used. -/
def Gone (r : Redis) (owners : Table Text Nat) (id : Text) : Prop :=
  ¬ Held r id ∧ (owners.lookup id).isSome

/-- What a command of the call `j` keeps for the others, when the indexes of the users in `busy` were
read. -/
structure Keeps (j : Nat) (busy : Text → Prop) (r r' : Redis) (owners owners' : Table Text Nat) :
    Prop where
  owner : ∀ {id i}, owners.lookup id = some i → owners'.lookup id = some i
  gone : ∀ {id}, Gone r owners id → Gone r' owners' id
  covered : ∀ {userID id i}, owners.lookup id = some i → i ≠ j → Covered r userID id →
    Covered r' userID id
  index : ∀ {userID id}, busy userID → Indexed r' userID id → Indexed r userID id
  held : (∀ id, Held r id → (owners.lookup id).isSome) → ∀ id, Held r' id → (owners'.lookup id).isSome

section

variable {j : Nat} {busy : Text → Prop} {r r' : Redis} {owners : Table Text Nat}

theorem Keeps.refl : Keeps j busy r r owners owners :=
  ⟨id, id, fun _ _ h => h, fun _ h => h, id⟩

/-- A command is executed, or nothing happens. -/
theorem Keeps.deliver {β : Type} {c : Command β} (h : Keeps j busy r (Redis.exec c r).2 owners owners)
    (d : Delivery) : Keeps j busy r (Lib.deliver Redis.exec d c r).2 owners owners := by
  cases d with
  | answered => exact h
  | refused => exact Keeps.refl
  | lost => exact h

theorem held_del {ids userIDs : List Text} {id : Text} :
    Held (r.del ids userIDs) id ↔ id ∉ ids ∧ Held r id := by
  rw [Held, Redis.lookup_del]
  by_cases hid : id ∈ ids
  · simp [hid]
  · simp [hid, Held]

theorem indexed_del {ids userIDs : List Text} {userID id : Text} :
    Indexed (r.del ids userIDs) userID id ↔ userID ∉ userIDs ∧ Indexed r userID id := by
  rw [Indexed, Redis.lookup_del_userSessions]
  by_cases huser : userID ∈ userIDs
  · simp [huser]
  · simp [huser, Indexed]

/-- Where an index is deleted, the sessions in it are deleted too. -/
theorem keeps_del {ids userIDs : List Text}
    (h : ∀ userID id, userID ∈ userIDs → Indexed r userID id → id ∈ ids) :
    Keeps j busy r (r.del ids userIDs) owners owners where
  owner := id
  gone := fun ⟨hheld, howned⟩ => ⟨fun hdel => hheld (held_del.1 hdel).2, howned⟩
  covered := by
    intro userID id i _ _ hcovered hdel
    obtain ⟨hid, hheld⟩ := held_del.1 hdel
    refine indexed_del.2 ⟨?_, hcovered hheld⟩
    intro huser
    exact hid (h userID id huser (hcovered hheld))
  index := fun _ hdel => (indexed_del.1 hdel).2
  held := fun howned id hdel => howned id (held_del.1 hdel).2

theorem keeps_sAdd {userID id : Text} (hbusy : ¬ busy userID) :
    Keeps j busy r { r with userSessions := r.userSessions.insert (userID, id) () } owners owners where
  owner := fun h => h
  gone := fun h => h
  covered := by
    intro userID' id' i _ _ hcovered hheld
    by_cases heq : (userID', id') = (userID, id)
    · rw [Indexed, heq]
      exact AList.lookup_insert _
    · rw [Indexed, AList.lookup_insert_ne heq]
      exact hcovered hheld
  index := by
    intro userID' id' hbusy' hindex
    by_cases heq : (userID', id') = (userID, id)
    · cases heq
      exact absurd hbusy' hbusy
    · rwa [Indexed, AList.lookup_insert_ne heq] at hindex
  held := fun h => h

/-- An index entry may be removed if the session is not held, or is one of the same call. -/
theorem keeps_sRem {userID id : Text} (h : ∀ i, owners.lookup id = some i → i ≠ j → ¬ Held r id) :
    Keeps j busy r { r with userSessions := r.userSessions.erase (userID, id) } owners owners where
  owner := fun h => h
  gone := fun h => h
  covered := by
    intro userID' id' i howner hi hcovered hheld
    have hne : (userID', id') ≠ (userID, id) := by
      intro heq
      cases heq
      exact h i howner hi hheld
    rw [Indexed, AList.lookup_erase_ne hne]
    exact hcovered hheld
  index := by
    intro userID' id' _ hindex
    have hne : (userID', id') ≠ (userID, id) := by
      intro heq
      rw [Indexed, heq, AList.lookup_erase] at hindex
      cases hindex
    rwa [Indexed, AList.lookup_erase_ne hne] at hindex
  held := fun h => h

theorem keeps_setNX {id : Text} {payload : LoginSession} (hfresh : owners.lookup id = none) :
    Keeps j busy r { r with sessions := r.sessions.insert id (some payload) } owners
      (owners.insert id j) where
  owner := by
    intro id' i howner
    have hne : id' ≠ id := by
      rintro rfl
      rw [hfresh] at howner
      cases howner
    rwa [AList.lookup_insert_ne hne]
  gone := by
    rintro id' ⟨hheld, howned⟩
    have hne : id' ≠ id := by
      rintro rfl
      rw [hfresh] at howned
      cases howned
    refine ⟨?_, by rwa [AList.lookup_insert_ne hne]⟩
    rwa [Held, AList.lookup_insert_ne hne]
  covered := by
    intro userID' id' i howner _ hcovered hheld
    have hne : id' ≠ id := by
      rintro rfl
      rw [hfresh] at howner
      cases howner
    apply hcovered
    rwa [Held, AList.lookup_insert_ne hne] at hheld
  index := fun _ hindex => hindex
  held := by
    intro howned id' hheld
    by_cases heq : id' = id
    · rw [heq, AList.lookup_insert]
      rfl
    · rw [AList.lookup_insert_ne heq]
      apply howned
      rwa [Held, AList.lookup_insert_ne heq] at hheld

end

/-! ## The points of the calls -/

/-- Where a `Create` of a user stands, as the call `i`. -/
inductive CreateAt (r : Redis) (owners : Table Text Nat) (i : Nat) (userID : Text) :
    Session LoginSession → Prop
  | loop (ttl : Int) (draws : List Draw) : CreateAt r owners i userID (createLoop ttl userID draws)
  | index {session : LoginSession} (huser : session.userID = userID)
      (howner : owners.lookup session.id = some i) : CreateAt r owners i userID (index session)
  | dropUnindexed {session : LoginSession} : CreateAt r owners i userID (dropUnindexed session)
  | expireIndex {session : LoginSession} (huser : session.userID = userID)
      (howner : owners.lookup session.id = some i) (hcovered : Covered r userID session.id) :
      CreateAt r owners i userID (expireIndex session)
  | dropNew {session : LoginSession} (howner : owners.lookup session.id = some i) :
      CreateAt r owners i userID (dropNew session)
  | unindexNew {session : LoginSession} (howner : owners.lookup session.id = some i) :
      CreateAt r owners i userID (unindexNew session)
  | done {session : LoginSession} (howner : owners.lookup session.id = some i)
      (hcovered : Covered r userID session.id) : CreateAt r owners i userID (.ret (.ok session))
  | failed {e : SessionError} : CreateAt r owners i userID (.ret (.error e))

inductive DeleteAt (r : Redis) (owners : Table Text Nat) : Session Unit → Prop
  | start (id : Text) : DeleteAt r owners (delete id)
  | drop {id : Text} {found : Option LoginSession}
      (howned : found.isSome → (owners.lookup id).isSome) : DeleteAt r owners (drop id found)
  | unindex {session : LoginSession} {id : Text} (hgone : Gone r owners id) :
      DeleteAt r owners (unindex session id)
  | done {result : Except SessionError Unit} : DeleteAt r owners (.ret result)

/-- Where a `DeleteUser` stands that began behind the sessions `before`. -/
inductive DeleteUserAt (r : Redis) (owners : Table Text Nat) (created : List (Text × Text))
    (userID : Text) (before : List Text) : Session Unit → Prop
  | start (hbefore : ∀ id ∈ before, (userID, id) ∈ created) :
      DeleteUserAt r owners created userID before (deleteUser userID)
  | deleteAll {ids : List Text} (hbefore : ∀ id ∈ before, (userID, id) ∈ created)
      (hids : ∀ id, Indexed r userID id → id ∈ ids) :
      DeleteUserAt r owners created userID before (deleteAll userID ids)
  | done (hgone : ∀ id ∈ before, Gone r owners id) :
      DeleteUserAt r owners created userID before (.ret (.ok ()))
  | failed {e : SessionError} : DeleteUserAt r owners created userID before (.ret (.error e))

/-- Where the call `i` stands. -/
inductive Call.At (r : Redis) (owners : Table Text Nat) (created : List (Text × Text)) (i : Nat) :
    Call → Prop
  | create {userID : Text} {rest : Session LoginSession} (h : CreateAt r owners i userID rest) :
      Call.At r owners created i (.create userID rest)
  | get {rest : Session LoginSession} (h : (∃ id, rest = Sessions.get id) ∨ ∃ result, rest = .ret result) :
      Call.At r owners created i (.get rest)
  | delete {rest : Session Unit} (h : DeleteAt r owners rest) :
      Call.At r owners created i (.delete rest)
  | deleteUser {userID : Text} {before : List Text} {rest : Session Unit}
      (h : DeleteUserAt r owners created userID before rest) :
      Call.At r owners created i (.deleteUser userID before rest)
  | returned : Call.At r owners created i .returned

section

variable {i j : Nat} {busy : Text → Prop} {r r' : Redis} {owners owners' : Table Text Nat}
  {created created' : List (Text × Text)}

/-- The commands of the call `j` leave the others where they are. -/
theorem Call.At.keeps {call : Call} (h : Call.At r owners created i call) (hij : i ≠ j)
    (hkeeps : Keeps j busy r r' owners owners') (hbusy : ∀ userID, call.revokes = some userID → busy userID)
    (hcreated : ∀ c ∈ created, c ∈ created') : Call.At r' owners' created' i call := by
  cases h with
  | create h =>
    apply Call.At.create
    cases h with
    | loop ttl draws => exact CreateAt.loop ttl draws
    | index huser howner => exact CreateAt.index huser (hkeeps.owner howner)
    | dropUnindexed => exact CreateAt.dropUnindexed
    | expireIndex huser howner hcovered =>
      exact CreateAt.expireIndex huser (hkeeps.owner howner) (hkeeps.covered howner hij hcovered)
    | dropNew howner => exact CreateAt.dropNew (hkeeps.owner howner)
    | unindexNew howner => exact CreateAt.unindexNew (hkeeps.owner howner)
    | done howner hcovered =>
      exact CreateAt.done (hkeeps.owner howner) (hkeeps.covered howner hij hcovered)
    | failed => exact CreateAt.failed
  | get h => exact Call.At.get h
  | delete h =>
    apply Call.At.delete
    cases h with
    | start id => exact DeleteAt.start id
    | drop howned =>
      apply DeleteAt.drop
      -- Another call gives no identifier away, so the one found keeps its owner.
      intro hfound
      obtain ⟨k, hk⟩ := Option.isSome_iff_exists.1 (howned hfound)
      rw [hkeeps.owner hk]
      rfl
    | unindex hgone => exact DeleteAt.unindex (hkeeps.gone hgone)
    | done => exact DeleteAt.done
  | deleteUser h =>
    apply Call.At.deleteUser
    cases h with
    | start hbefore => exact DeleteUserAt.start fun id hid => hcreated _ (hbefore id hid)
    | deleteAll hbefore hids =>
      apply DeleteUserAt.deleteAll (fun id hid => hcreated _ (hbefore id hid))
      intro id hindex
      exact hids id (hkeeps.index (hbusy _ rfl) hindex)
    | done hgone => exact DeleteUserAt.done fun id hid => hkeeps.gone (hgone id hid)
    | failed => exact DeleteUserAt.failed
  | returned => exact Call.At.returned

/-- A `Create` goes on, if the index that it extends is not being revoked and the session that it brings
is new. -/
theorem CreateAt.step {userID : Text} {rest : Session LoginSession} (h : CreateAt r owners j userID rest)
    (d : Delivery) (hindex : ∀ u, (Call.create userID rest).indexes d = some u → ¬ busy u)
    (hfresh : ∀ id, brings d r rest = some id → owners.lookup id = none) :
    Keeps j busy r (rest.step Redis.exec d r).2 owners (adopt j (brings d r rest) owners) ∧
      CreateAt (rest.step Redis.exec d r).2 (adopt j (brings d r rest) owners) j userID
        (rest.step Redis.exec d r).1 := by
  cases h with
  | loop ttl draws =>
    cases draws with
    | nil => exact ⟨Keeps.refl, CreateAt.failed⟩
    | cons draw draws =>
      rw [createLoop] at hfresh ⊢
      cases hheld : r.sessions.lookup draw.id with
      | some payload =>
        -- The token is taken: the loop goes on.
        have hnone : ∀ k : Option Bool → Session LoginSession,
            brings d r (.call (.setNX draw.id ⟨draw.id, userID, draw.csrf, draw.now + ttl⟩) k) =
              none := by
          intro k
          rw [brings, if_neg]
          rw [hheld]
          exact fun hboth => absurd hboth.2 (by simp)
        rw [hnone]
        cases d with
        | refused => exact ⟨Keeps.refl, CreateAt.failed⟩
        | answered =>
          simp only [Prog.step, deliver, Redis.exec, hheld]
          exact ⟨Keeps.refl, CreateAt.loop ttl draws⟩
        | lost =>
          simp only [Prog.step, deliver, Redis.exec, hheld]
          exact ⟨Keeps.refl, CreateAt.failed⟩
      | none =>
        cases d with
        | refused => exact ⟨Keeps.refl, CreateAt.failed⟩
        | answered =>
          rw [brings, if_pos ⟨by decide, hheld⟩] at hfresh ⊢
          simp only [Prog.step, deliver, Redis.exec, hheld]
          refine ⟨keeps_setNX (hfresh _ rfl), CreateAt.index rfl ?_⟩
          exact AList.lookup_insert _
        | lost =>
          rw [brings, if_pos ⟨by decide, hheld⟩] at hfresh ⊢
          simp only [Prog.step, deliver, Redis.exec, hheld]
          exact ⟨keeps_setNX (hfresh _ rfl), CreateAt.failed⟩
  | @index session huser howner =>
    refine ⟨?_, ?_⟩
    · cases d with
      | refused => exact Keeps.refl
      | answered => exact keeps_sAdd (hindex session.userID rfl)
      | lost => exact keeps_sAdd (hindex session.userID rfl)
    · cases d with
      | answered =>
        apply CreateAt.expireIndex huser howner
        intro _
        rw [← huser]
        exact AList.lookup_insert _
      | refused => exact CreateAt.dropUnindexed
      | lost => exact CreateAt.dropUnindexed
  -- the session goes; an index entry whose answer was lost is left without one
  | @dropUnindexed session =>
    refine ⟨Keeps.deliver (c := .del [session.id] []) ?_ d, CreateAt.failed⟩
    exact keeps_del fun _ _ huser => absurd huser List.not_mem_nil
  | @expireIndex session huser howner hcovered =>
    refine ⟨Keeps.deliver (c := .expire session.userID) Keeps.refl d, ?_⟩
    cases d with
    | answered => exact CreateAt.done howner hcovered
    | refused => exact CreateAt.dropNew howner
    | lost => exact CreateAt.dropNew howner
  | @dropNew session howner =>
    refine ⟨Keeps.deliver (c := .del [session.id] []) ?_ d, CreateAt.unindexNew howner⟩
    exact keeps_del fun _ _ huser => absurd huser List.not_mem_nil
  | @unindexNew session howner =>
    refine ⟨Keeps.deliver (c := .sRem session.userID session.id) ?_ d, CreateAt.failed⟩
    apply keeps_sRem
    intro i hi hne
    rw [howner] at hi
    exact absurd (Option.some.inj hi).symm hne
  | done howner hcovered => exact ⟨Keeps.refl, CreateAt.done howner hcovered⟩
  | failed => exact ⟨Keeps.refl, CreateAt.failed⟩

/-- A `Delete` removes an index entry only when the session is gone. -/
theorem DeleteAt.step {rest : Session Unit} (h : DeleteAt r owners rest) (d : Delivery)
    (hheld : ∀ id, Held r id → (owners.lookup id).isSome) :
    Keeps j busy r (rest.step Redis.exec d r).2 owners owners ∧
      DeleteAt (rest.step Redis.exec d r).2 owners (rest.step Redis.exec d r).1 := by
  cases h with
  | start id =>
    refine ⟨Keeps.deliver (c := .get id) Keeps.refl d, ?_⟩
    rw [delete, Prog.step]
    cases hanswer : decode (deliver Redis.exec d (.get id) r).1 with
    | ok session =>
      dsimp only
      apply DeleteAt.drop
      intro _
      -- What was found was held.
      apply hheld
      cases d with
      | answered =>
        have hfound := Option.some.inj (decode_eq_ok.1 hanswer)
        rw [Held]
        exact fun hnone => absurd (hfound.symm.trans hnone) (by simp)
      | refused => cases hanswer
      | lost => cases hanswer
    | error e =>
      cases e with
      | sessionNotFound =>
        dsimp only
        apply DeleteAt.drop
        intro hfound
        cases hfound
      | _ => exact DeleteAt.done
  | @drop id found howned =>
    refine ⟨Keeps.deliver (c := .del [id] []) ?_ d, ?_⟩
    · exact keeps_del fun _ _ huser => absurd huser List.not_mem_nil
    · cases d with
      | answered =>
        cases found with
        | none => exact DeleteAt.done
        | some session =>
          apply DeleteAt.unindex
          refine ⟨?_, howned rfl⟩
          intro hdel
          exact (held_del.1 hdel).1 List.mem_cons_self
      | refused => exact DeleteAt.done
      | lost => exact DeleteAt.done
  | @unindex session id hgone =>
    refine ⟨Keeps.deliver (c := .sRem session.userID id) ?_ d, ?_⟩
    · exact keeps_sRem fun _ _ _ => hgone.1
    · cases d with
      | answered => exact DeleteAt.done
      | refused => exact DeleteAt.done
      | lost => exact DeleteAt.done
  | done => exact ⟨Keeps.refl, DeleteAt.done⟩

/-- A `DeleteUser` that has read the index of its user deletes every session that was created. -/
theorem DeleteUserAt.step {userID : Text} {before : List Text} {rest : Session Unit}
    (h : DeleteUserAt r owners created userID before rest) (d : Delivery)
    (hcreated : ∀ id, (userID, id) ∈ created → (owners.lookup id).isSome ∧ Covered r userID id) :
    Keeps j busy r (rest.step Redis.exec d r).2 owners owners ∧
      DeleteUserAt (rest.step Redis.exec d r).2 owners created userID before
        (rest.step Redis.exec d r).1 := by
  cases h with
  | start hbefore =>
    refine ⟨Keeps.deliver (c := .sMembers userID) Keeps.refl d, ?_⟩
    cases d with
    | answered => exact DeleteUserAt.deleteAll hbefore fun id hindex => Redis.mem_members.2 hindex
    | refused => exact DeleteUserAt.failed
    | lost => exact DeleteUserAt.failed
  | @deleteAll ids hbefore hids =>
    have hcovers : ∀ u id, u ∈ [userID] → Indexed r u id → id ∈ ids := by
      intro u id hu hindex
      rw [List.mem_singleton.1 hu] at hindex
      exact hids id hindex
    refine ⟨Keeps.deliver (c := .del ids [userID]) (keeps_del hcovers) d, ?_⟩
    cases d with
    | answered =>
      apply DeleteUserAt.done
      intro id hid
      obtain ⟨howned, hcovered⟩ := hcreated id (hbefore id hid)
      refine ⟨?_, howned⟩
      intro hdel
      obtain ⟨hnot, hheld⟩ := held_del.1 hdel
      exact hnot (hids id (hcovered hheld))
    | refused => exact DeleteUserAt.failed
    | lost => exact DeleteUserAt.failed
  | done hgone => exact ⟨Keeps.refl, DeleteUserAt.done hgone⟩
  | failed => exact ⟨Keeps.refl, DeleteUserAt.failed⟩

theorem CreateAt.of_ok {userID : Text} {rest : Session LoginSession} {session : LoginSession}
    (h : CreateAt r owners i userID rest) (hrest : rest = .ret (.ok session)) :
    owners.lookup session.id = some i ∧ Covered r userID session.id := by
  cases h with
  | loop ttl draws => cases draws <;> cases hrest
  | done howner hcovered =>
    cases hrest
    exact ⟨howner, hcovered⟩
  | _ => cases hrest

theorem DeleteUserAt.of_ok {userID : Text} {before : List Text} {rest : Session Unit}
    (h : DeleteUserAt r owners created userID before rest) (hrest : rest = .ret (.ok ())) :
    ∀ id ∈ before, Gone r owners id := by
  cases h with
  | done hgone => exact hgone
  | _ => cases hrest

end

/-! ## Runs -/

/-- Where the store and all calls stand together. -/
structure Hall.Consistent (s : Hall) : Prop where
  held : ∀ id, Held s.redis id → (s.owners.lookup id).isSome
  created : ∀ userID id, (userID, id) ∈ s.created →
    ∃ i, s.owners.lookup id = some i ∧ s.calls[i]? = some .returned ∧ Covered s.redis userID id
  calls : ∀ (i : Nat) (call : Call), s.calls[i]? = some call → call.At s.redis s.owners s.created i
  revoked : ∀ id ∈ s.revoked, Gone s.redis s.owners id

namespace Hall

variable {s : Hall}

theorem Consistent.start : start.Consistent where
  held := fun _ hheld => absurd rfl hheld
  created := fun _ _ hmem => absurd hmem List.not_mem_nil
  calls := by
    intro i call hcall
    cases hcall
  revoked := fun _ hmem => absurd hmem List.not_mem_nil

theorem Consistent.begin (h : s.Consistent) {call : Call}
    (hcall : ∀ i, call.At s.redis s.owners s.created i) : (s.begin call).Consistent where
  held := h.held
  created := by
    intro userID id hmem
    obtain ⟨i, howner, hreturned, hcovered⟩ := h.created userID id hmem
    refine ⟨i, howner, ?_, hcovered⟩
    obtain ⟨hlt, -⟩ := List.getElem?_eq_some_iff.1 hreturned
    exact (List.getElem?_append_left hlt).trans hreturned
  calls := by
    intro i other hother
    rcases Nat.lt_or_ge i s.calls.length with hlt | hge
    · exact h.calls i other ((List.getElem?_append_left hlt).symm.trans hother)
    · change (s.calls ++ [call])[i]? = some other at hother
      rw [List.getElem?_append_right hge] at hother
      have hmem := List.mem_of_getElem? hother
      rw [List.mem_singleton.1 hmem]
      exact hcall i
  revoked := h.revoked

/-- A call is put in the place of another one. -/
theorem getElem?_set_cases {calls : List Call} {i k : Nat} {call other : Call}
    (h : (calls.set i call)[k]? = some other) :
    (k = i ∧ other = call) ∨ (k ≠ i ∧ calls[k]? = some other) := by
  rw [List.getElem?_set] at h
  split at h
  · next heq =>
      split at h
      · exact Or.inl ⟨heq.symm, (Option.some.inj h).symm⟩
      · cases h
  · next hne => exact Or.inr ⟨fun heq => hne heq.symm, h⟩

/-- The state behind a command that keeps what the other calls rely on. -/
theorem Consistent.perform (h : s.Consistent) {i : Nat} {call call' : Call} {r' : Redis} {owners' : Table Text Nat}
    (hcall : s.calls[i]? = some call) (hactive : call ≠ .returned)
    (hkeeps : Keeps i (fun userID => ∃ other ∈ s.calls, other.revokes = some userID) s.redis r' s.owners
      owners')
    (hat : call'.At r' owners' s.created i) :
    Consistent { s with redis := r', calls := s.calls.set i call', owners := owners' } where
  held := hkeeps.held h.held
  created := by
    intro userID id hmem
    obtain ⟨k, howner, hreturned, hcovered⟩ := h.created userID id hmem
    have hne : k ≠ i := by
      rintro rfl
      exact hactive (Option.some.inj (hcall.symm.trans hreturned))
    refine ⟨k, hkeeps.owner howner, ?_, hkeeps.covered howner hne hcovered⟩
    exact (List.getElem?_set_ne (Ne.symm hne)).trans hreturned
  calls := by
    intro k other hother
    rcases getElem?_set_cases hother with ⟨rfl, rfl⟩ | ⟨hne, hother⟩
    · exact hat
    · apply (h.calls k other hother).keeps hne hkeeps
      · intro userID hrevokes
        exact ⟨other, List.mem_of_getElem? hother, hrevokes⟩
      · exact fun _ hmem => hmem
  revoked := fun id hmem => hkeeps.gone (h.revoked id hmem)

/-- A call returns, and may leave a created session or revoked ones behind. -/
theorem Consistent.returns (h : s.Consistent) {i : Nat} {call : Call} (hcall : s.calls[i]? = some call)
    (more : List (Text × Text)) (gone : List Text)
    (hmore : ∀ userID id, (userID, id) ∈ more →
      s.owners.lookup id = some i ∧ Covered s.redis userID id)
    (hgone : ∀ id ∈ gone, Gone s.redis s.owners id) :
    Consistent { s with
      calls := s.calls.set i .returned, created := more ++ s.created, revoked := gone ++ s.revoked } where
  held := h.held
  created := by
    intro userID id hmem
    obtain ⟨hlt, -⟩ := List.getElem?_eq_some_iff.1 hcall
    rcases List.mem_append.1 hmem with hnew | hold
    · obtain ⟨howner, hcovered⟩ := hmore userID id hnew
      exact ⟨i, howner, List.getElem?_set_self hlt, hcovered⟩
    · obtain ⟨k, howner, hreturned, hcovered⟩ := h.created userID id hold
      refine ⟨k, howner, ?_, hcovered⟩
      by_cases heq : i = k
      · rw [← heq]
        exact List.getElem?_set_self hlt
      · exact (List.getElem?_set_ne heq).trans hreturned
  calls := by
    intro k other hother
    rcases getElem?_set_cases hother with ⟨-, rfl⟩ | ⟨hne, hother⟩
    · exact Call.At.returned
    · have hsame : Keeps i (fun _ => True) s.redis s.redis s.owners s.owners := Keeps.refl
      apply (h.calls k other hother).keeps hne hsame
      · exact fun _ _ => trivial
      · exact fun c hmem => List.mem_append_right _ hmem
  revoked := by
    intro id hmem
    rcases List.mem_append.1 hmem with hnew | hold
    · exact hgone id hnew
    · exact h.revoked id hold

/-- A calm command. -/
theorem Consistent.perform_calm (h : s.Consistent) {i : Nat} {d : Delivery} {call : Call}
    (hcall : s.calls[i]? = some call)
    (hindex : ∀ userID, call.indexes d = some userID → ∀ other ∈ s.calls, other.revokes ≠ some userID)
    (hfresh : ∀ id, call.brings d s.redis = some id → s.owners.lookup id = none) :
    (s.perform i d call).Consistent := by
  -- A calm delivery indexes no user whose sessions are being revoked.
  have hbusy : ∀ u, call.indexes d = some u → ¬ ∃ other ∈ s.calls, other.revokes = some u := by
    rintro u hu ⟨other, hmem, hrevokes⟩
    exact hindex u hu other hmem hrevokes
  have hat := h.calls i call hcall
  cases hat with
  | create hcreate =>
    obtain ⟨hkeeps, hnext⟩ := hcreate.step d hbusy hfresh
    exact h.perform hcall (by simp) hkeeps (Call.At.create hnext)
  | get hget =>
    rcases hget with ⟨id, rfl⟩ | ⟨result, rfl⟩
    · apply h.perform hcall (by simp) (Keeps.deliver (c := .get id) Keeps.refl d)
      exact Call.At.get (Or.inr ⟨_, rfl⟩)
    · exact h.perform hcall (by simp) Keeps.refl (Call.At.get (Or.inr ⟨_, rfl⟩))
  | delete hdelete =>
    obtain ⟨hkeeps, hnext⟩ := hdelete.step d h.held
    exact h.perform hcall (by simp) hkeeps (Call.At.delete hnext)
  | deleteUser hdelete =>
    obtain ⟨hkeeps, hnext⟩ := hdelete.step d (by
      intro id hmem
      obtain ⟨k, howner, -, hcovered⟩ := h.created _ id hmem
      exact ⟨Option.isSome_iff_exists.2 ⟨k, howner⟩, hcovered⟩)
    exact h.perform hcall (by simp) hkeeps (Call.At.deleteUser hnext)
  | returned =>
    -- A call that has returned takes no further step.
    have hself : s.calls.set i .returned = s.calls := by
      obtain ⟨hlt, heq⟩ := List.getElem?_eq_some_iff.1 hcall
      rw [← heq]
      exact List.set_getElem_self hlt
    have hsame : s.perform i d .returned = s := by
      show { s with calls := s.calls.set i .returned } = s
      rw [hself]
    rw [hsame]
    exact h

theorem Consistent.finish (h : s.Consistent) {i : Nat} {call : Call} (hcall : s.calls[i]? = some call) :
    (s.finish i call).Consistent := by
  have hplain : Consistent { s with calls := s.calls.set i .returned } := by
    refine h.returns hcall [] [] ?_ ?_
    · exact fun _ _ hmem => absurd hmem List.not_mem_nil
    · exact fun _ hmem => absurd hmem List.not_mem_nil
  have hat := h.calls i call hcall
  cases hat with
  | @create userID rest hcreate =>
    match rest, hcreate with
    | .ret (.ok session), hcreate =>
      refine h.returns hcall [(userID, session.id)] [] ?_ ?_
      · intro u id hmem
        cases List.mem_singleton.1 hmem
        exact hcreate.of_ok rfl
      · exact fun _ hmem => absurd hmem List.not_mem_nil
    | .ret (.error e), _ => exact hplain
    | .call c next, _ => exact h
  | @get rest hget =>
    cases rest with
    | ret result => exact hplain
    | call c next => exact h
  | @delete rest hdelete =>
    cases rest with
    | ret result => exact hplain
    | call c next => exact h
  | @deleteUser userID before rest hdelete =>
    match rest, hdelete with
    | .ret (.ok ()), hdelete =>
      refine h.returns hcall [] before ?_ (hdelete.of_ok rfl)
      exact fun _ _ hmem => absurd hmem List.not_mem_nil
    | .ret (.error e), _ => exact hplain
    | .call c next, _ => exact h
  | returned => exact h

theorem Consistent.step (h : s.Consistent) {e : Event} (hcalm : s.calm e = true) :
    (s.step e).Consistent := by
  cases e with
  | create ttl userID draws =>
    apply h.begin
    intro i
    apply Call.At.create
    rw [Sessions.create]
    split
    · exact CreateAt.failed
    · exact CreateAt.loop ttl draws
  | get id =>
    apply h.begin
    exact fun i => Call.At.get (Or.inl ⟨id, rfl⟩)
  | delete id =>
    apply h.begin
    exact fun i => Call.At.delete (DeleteAt.start id)
  | deleteUser userID =>
    apply h.begin
    intro i
    apply Call.At.deleteUser
    apply DeleteUserAt.start
    intro id hid
    -- The sessions to revoke are the ones created so far for this user.
    obtain ⟨⟨u, id'⟩, hmem, rfl⟩ := List.mem_map.1 hid
    obtain ⟨hcreated, hu⟩ := List.mem_filter.1 hmem
    obtain rfl : u = userID := of_decide_eq_true hu
    exact hcreated
  | perform i d =>
    rw [Hall.step]
    rw [calm] at hcalm
    cases hcall : s.calls[i]? with
    | none => exact h
    | some call =>
      rw [hcall] at hcalm
      simp only [Bool.and_eq_true, Option.all_eq_true, List.all_eq_true, decide_eq_true_eq] at hcalm
      exact h.perform_calm hcall hcalm.1 hcalm.2
  | finish i =>
    rw [Hall.step]
    cases hcall : s.calls[i]? with
    | none => exact h
    | some call => exact h.finish hcall

theorem Consistent.isRevoked (h : s.Consistent) : s.Revoked := by
  intro id hmem ds session hget
  apply (h.revoked id hmem).1
  rw [Held, held_of_get hget]
  exact Option.some_ne_none _

end Hall

/-- In a run in which no session is put into an index that is being revoked, and no token comes twice, no
session can be retrieved when a `DeleteUser` of its user has returned that began behind its `Create`. -/
theorem deleteUser_revokes {s : Hall} (h : Runs Hall.step (fun s e => s.calm e = true) Hall.start s) :
    s.Revoked :=
  (h.invariant (fun _ _ hcalm hs => hs.step hcalm) Hall.Consistent.start).isRevoked

namespace Sample

def bob : Text := "bob".toList

/-- Bob logs in, in the call `i`. -/
def login (i : Nat) (token : Text) : List Event :=
  [.create 3600 bob [⟨token, "csrf".toList, 0⟩], .perform i .answered, .perform i .answered,
    .perform i .answered, .finish i]

/-- A second login is indexed before the revocation reads the index, and returns behind it. -/
def inTime : List Event :=
  login 0 "a".toList ++
    [.create 3600 bob [⟨"b".toList, "csrf".toList, 0⟩], .perform 1 .answered, .perform 1 .answered,
      .deleteUser bob, .perform 2 .answered, .perform 2 .answered, .finish 2, .perform 1 .answered,
      .finish 1]

/-- A second login is indexed while the first revocation is on its way; another one begins behind it. -/
def between : List Event :=
  login 0 "a".toList ++ [.deleteUser bob, .perform 1 .answered] ++ login 2 "b".toList ++
    [.perform 1 .answered, .finish 1, .deleteUser bob, .perform 3 .answered, .perform 3 .answered,
      .finish 3]

end Sample

theorem deleteUser_revokes_inTime :
    (Sample.inTime.foldl Hall.step Hall.start).revoked = ["a".toList] ∧
      (Sample.inTime.foldl Hall.step Hall.start).Revoked :=
  ⟨by decide +kernel, deleteUser_revokes (Runs.of_meets Sample.inTime (by decide +kernel))⟩

/-- A session stays behind when it is put into the index in between. -/
theorem deleteUser_misses_session :
    ∃ s, Runs Hall.step (fun _ _ => True) Hall.start s ∧ ¬ s.Revoked := by
  refine ⟨_, Runs.of_meets Sample.between (by decide +kernel), ?_⟩
  intro hrevoked
  have hheld : ((Sessions.get "b".toList).run Redis.exec []
      (Sample.between.foldl Hall.step Hall.start).redis).1 =
        .ok ⟨"b".toList, Sample.bob, "csrf".toList, 3600⟩ := by
    decide +kernel
  exact hrevoked "b".toList (by decide +kernel) [] _ hheld

end Workbench.Identity.Sessions
