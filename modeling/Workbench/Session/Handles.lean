import Workbench.Lib.Runs
import Workbench.Session.Store

/-!
# The clients behind the handles of a session

`api/internal/session/store.go` with the clients that a `database.Handle` holds: for SQL, MongoDB and Redis.
Whoever opens a client gives it to the store, and from then on it is either behind a registered handle or
closed, and closed once (`Owned`).
-/

set_option autoImplicit false

namespace Workbench.Session.Handles

open Workbench.Lib

/-- A `*sql.DB`, a `*mongo.Client` or a `*redis.Client`, by the order in which they are opened. -/
inductive Client where
  | sql (n : Nat)
  | mongo (n : Nat)
  | redis (n : Nat)
  deriving DecidableEq, Repr

/-- `database.Handle`, with the database of its configuration. -/
structure Handle where
  driver : Text
  database : Text
  sql : Option Nat
  mongo : Option Nat
  redis : Option Nat
  deriving DecidableEq, Repr

/-- What `Handle.Close` closes. -/
def Handle.clients (h : Handle) : List Client :=
  (h.sql.map Client.sql).toList ++ (h.mongo.map Client.mongo).toList ++ (h.redis.map Client.redis).toList

structure Entry where
  handle : Option Handle
  lastUsed : Int
  deriving DecidableEq, Repr

def Entry.clients (entry : Entry) : List Client := (entry.handle.map Handle.clients).getD []

structure Store where
  idle : Int
  sessions : List Text
  connections : Table (Text × Text) Entry

namespace Store

def hasSession (s : Store) (sessionID : Text) : Bool := s.sessions.contains sessionID

def put (s : Store) (key : Text × Text) (entry : Entry) : Store :=
  { s with connections := s.connections.insert key entry }

/-- `CreateSession`, whose loop draws until the id is new. -/
def createSession (s : Store) (id : Text) : Store :=
  if s.hasSession id then s else { s with sessions := id :: s.sessions }

/-- `PutHandle`, behind `Put` and `PutConnection`: the id that the loop ends with, if there is the
session. -/
def putHandle (s : Store) (sessionID id : Text) (handle : Handle) (now : Int) : Option Text × Store :=
  if s.hasSession sessionID ∧ s.connections.lookup (sessionID, id) = none then
    (some id, s.put (sessionID, id) ⟨some handle, now⟩)
  else (none, s)

/-- `GetHandle`, behind `GetConnection`, `GetConnectionConfig` and `Get`. -/
def getHandle (s : Store) (sessionID connectionID : Text) (now : Int) : Option Handle × Store :=
  match s.connections.lookup (sessionID, connectionID) with
  | none => (none, s)
  | some entry =>
    match entry.handle with
    | none => (none, s)
    | some handle => (some handle, s.put (sessionID, connectionID) ⟨some handle, now⟩)

/-- `ReplaceDatabase`: the SQL part of the handle is closed and replaced. -/
def replaceDatabase (s : Store) (sessionID connectionID : Text) (db : Nat) (databaseName : Text)
    (now : Int) : Bool × Store × List Client :=
  match s.connections.lookup (sessionID, connectionID) with
  | none => (false, s, [])
  | some entry =>
    match entry.handle with
    | none => (false, s, [])
    | some handle =>
      (true,
        s.put (sessionID, connectionID)
          ⟨some { handle with sql := some db, database := databaseName }, now⟩,
        if handle.sql ≠ some db then (handle.sql.map Client.sql).toList else [])

/-- `ReplaceHandle`. -/
def replaceHandle (s : Store) (sessionID connectionID : Text) (handle : Handle) (now : Int) :
    Bool × Store × List Client :=
  match s.connections.lookup (sessionID, connectionID) with
  | none => (false, s, [])
  | some entry => (true, s.put (sessionID, connectionID) ⟨some handle, now⟩, entry.clients)

/-- `Delete`. -/
def delete (s : Store) (sessionID connectionID : Text) : Store × List Client :=
  ({ s with connections := s.connections.erase (sessionID, connectionID) },
    ((s.connections.lookup (sessionID, connectionID)).map Entry.clients).getD [])

/-- The entry is idle at the cutoff of `CloseIdle`. -/
def idleAt (s : Store) (now : Int) (entry : Entry) : Bool := entry.lastUsed ≤ now - s.idle

/-- `CloseIdle`. -/
def closeIdle (s : Store) (now : Int) : Store × List Client :=
  ({ s with connections := s.connections.alter (fun _ => true) fun entry =>
      if s.idleAt now entry then none else some entry },
    s.connections.entries.flatMap fun e => if s.idleAt now e.2 then e.2.clients else [])

end Store

/-! ## Operations -/

inductive Op where
  | createSession (id : Text)
  | putHandle (sessionID id : Text) (handle : Handle) (now : Int)
  | getHandle (sessionID connectionID : Text) (now : Int)
  | replaceDatabase (sessionID connectionID : Text) (db : Nat) (databaseName : Text) (now : Int)
  | replaceHandle (sessionID connectionID : Text) (handle : Handle) (now : Int)
  | delete (sessionID connectionID : Text)
  | closeIdle (now : Int)
  deriving DecidableEq, Repr

namespace Op

/-- The session whose id the operation carries. -/
def session : Op → Option Text
  | .createSession _ => none
  | .putHandle sessionID .. => some sessionID
  | .getHandle sessionID .. => some sessionID
  | .replaceDatabase sessionID .. => some sessionID
  | .replaceHandle sessionID .. => some sessionID
  | .delete sessionID _ => some sessionID
  | .closeIdle _ => none

/-- The clients that the operation brings along. -/
def clients : Op → List Client
  | .putHandle _ _ handle _ => handle.clients
  | .replaceDatabase _ _ db _ _ => [.sql db]
  | .replaceHandle _ _ handle _ => handle.clients
  | _ => []

/-- What an operation does: whether it accepts the clients that it brings, what it returns, the store
behind it, and what it closes. -/
structure Outcome where
  accepted : Bool
  returned : Option Handle
  store : Store
  closed : List Client

def run (s : Store) : Op → Outcome
  | .createSession id => ⟨false, none, s.createSession id, []⟩
  | .putHandle sessionID id handle now =>
    let (answer, store) := s.putHandle sessionID id handle now
    ⟨answer.isSome, none, store, []⟩
  | .getHandle sessionID connectionID now =>
    let (handle, store) := s.getHandle sessionID connectionID now
    ⟨false, handle, store, []⟩
  | .replaceDatabase sessionID connectionID db databaseName now =>
    let (accepted, store, closed) := s.replaceDatabase sessionID connectionID db databaseName now
    ⟨accepted, none, store, closed⟩
  | .replaceHandle sessionID connectionID handle now =>
    let (accepted, store, closed) := s.replaceHandle sessionID connectionID handle now
    ⟨accepted, none, store, closed⟩
  | .delete sessionID connectionID =>
    let (store, closed) := s.delete sessionID connectionID
    ⟨false, none, store, closed⟩
  | .closeIdle now =>
    let (store, closed) := s.closeIdle now
    ⟨false, none, store, closed⟩

end Op

/-- The store, the clients that operations brought, those that the store accepted, and those that it
closed. -/
structure World where
  store : Store
  given : List Client
  accepted : List Client
  closed : List Client

namespace World

def start (idle : Int) : World := ⟨⟨idle, [], ∅⟩, [], [], []⟩

def step (w : World) (op : Op) : World where
  store := (op.run w.store).store
  given := op.clients ++ w.given
  accepted := (if (op.run w.store).accepted then op.clients else []) ++ w.accepted
  closed := (op.run w.store).closed ++ w.closed

/-- The operation brings clients that are open and were not there before. -/
def Fresh (w : World) (op : Op) : Prop := op.clients.Disjoint w.given

end World

/-! ## Who holds a client -/

/-- The client is behind the handle of a connection. -/
def Store.Holds (s : Store) (key : Text × Text) (c : Client) : Prop :=
  ∃ entry, s.connections.lookup key = some entry ∧ c ∈ entry.clients

theorem Handle.clients_nodup (h : Handle) : h.clients.Nodup := by
  obtain ⟨driver, database, sql, mongo, redis⟩ := h
  cases sql <;> cases mongo <;> cases redis <;> simp [clients]

theorem Entry.clients_nodup (entry : Entry) : entry.clients.Nodup := by
  rw [clients]
  cases entry.handle with
  | none => exact List.nodup_nil
  | some h => exact h.clients_nodup

/-- What an operation does to the clients: it closes some that were held and registers what it accepts in
one place. -/
structure Moves (s : Store) (op : Op) : Prop where
  nodup : (op.run s).closed.Nodup
  held : ∀ c ∈ (op.run s).closed, ∃ key, s.Holds key c
  holds : ∃ place, ∀ key c, (op.run s).store.Holds key c ↔
    (s.Holds key c ∧ c ∉ (op.run s).closed) ∨
      ((op.run s).accepted = true ∧ c ∈ op.clients ∧ key = place)

/-- No client is behind two connections. -/
def Store.Separate (s : Store) : Prop := ∀ key key' c, s.Holds key c → s.Holds key' c → key = key'

section

variable {s : Store} {key place : Text × Text} {entry : Entry} {c : Client}

theorem Store.holds_put : (s.put place entry).Holds key c ↔
    if key = place then c ∈ entry.clients else s.Holds key c := by
  rw [Holds, put]
  by_cases hkey : key = place
  · subst hkey
    rw [if_pos rfl, AList.lookup_insert]
    constructor
    · rintro ⟨entry', hentry, hc⟩
      cases hentry
      exact hc
    · intro hc
      exact ⟨entry, rfl, hc⟩
  · rw [if_neg hkey, AList.lookup_insert_ne hkey]
    exact Iff.rfl

theorem Store.holds_of_lookup (hentry : s.connections.lookup key = some entry) :
    s.Holds key c ↔ c ∈ entry.clients := by
  constructor
  · rintro ⟨entry', hentry', hc⟩
    rw [hentry] at hentry'
    cases hentry'
    exact hc
  · intro hc
    exact ⟨entry, hentry, hc⟩

theorem Store.not_holds_of_lookup (hnone : s.connections.lookup key = none) : ¬s.Holds key c := by
  rintro ⟨entry, hentry, -⟩
  rw [hnone] at hentry
  cases hentry

/-- An operation that changes nothing but the time of use. -/
theorem moves_of_holds {op : Op} (hclosed : (op.run s).closed = [])
    (haccepted : (op.run s).accepted = false)
    (hholds : ∀ key c, (op.run s).store.Holds key c ↔ s.Holds key c) : Moves s op where
  nodup := by
    rw [hclosed]
    exact List.nodup_nil
  held := by
    rw [hclosed]
    intro c hc
    cases hc
  holds := by
    refine ⟨([], []), ?_⟩
    intro key c
    rw [hholds, hclosed, haccepted]
    constructor
    · intro h
      exact Or.inl ⟨h, List.not_mem_nil⟩
    · rintro (⟨h, -⟩ | ⟨h, -⟩)
      · exact h
      · cases h

theorem moves_createSession (id : Text) : Moves s (.createSession id) := by
  apply moves_of_holds rfl rfl
  intro key c
  show (s.createSession id).Holds key c ↔ _
  rw [Store.createSession]
  split
  · exact Iff.rfl
  · exact Iff.rfl

theorem moves_putHandle (sessionID id : Text) (handle : Handle) (now : Int) :
    Moves s (.putHandle sessionID id handle now) := by
  -- The handle is taken in only for a live session with no entry under the key.
  by_cases hnew : s.hasSession sessionID ∧ s.connections.lookup (sessionID, id) = none
  · have hrun : (Op.putHandle sessionID id handle now).run s =
        ⟨true, none, s.put (sessionID, id) ⟨some handle, now⟩, []⟩ := by
      rw [Op.run, Store.putHandle, if_pos hnew]
      rfl
    refine ⟨?_, ?_, (sessionID, id), ?_⟩
    · rw [hrun]
      exact List.nodup_nil
    · rw [hrun]
      intro c hc
      cases hc
    · intro key c
      rw [hrun]
      dsimp only
      rw [Store.holds_put]
      -- The entry under the key is new, and every other one is as before.
      by_cases hkey : key = (sessionID, id)
      · rw [if_pos hkey]
        constructor
        · intro hc
          exact Or.inr ⟨rfl, hc, hkey⟩
        · rintro (⟨hold, -⟩ | ⟨-, hc, -⟩)
          · rw [hkey] at hold
            exact (Store.not_holds_of_lookup hnew.2 hold).elim
          · exact hc
      · rw [if_neg hkey]
        constructor
        · intro hold
          exact Or.inl ⟨hold, List.not_mem_nil⟩
        · rintro (⟨hold, -⟩ | ⟨-, -, hplace⟩)
          · exact hold
          · exact (hkey hplace).elim
  · have hrun : (Op.putHandle sessionID id handle now).run s = ⟨false, none, s, []⟩ := by
      rw [Op.run, Store.putHandle, if_neg hnew]
      rfl
    apply moves_of_holds
    · rw [hrun]
    · rw [hrun]
    · intro key c
      rw [hrun]

theorem moves_getHandle (sessionID connectionID : Text) (now : Int) :
    Moves s (.getHandle sessionID connectionID now) := by
  apply moves_of_holds rfl rfl
  intro key c
  show (s.getHandle sessionID connectionID now).2.Holds key c ↔ _
  rw [Store.getHandle]
  split
  · exact Iff.rfl
  · next entry hentry =>
      split
      · exact Iff.rfl
      · next handle hhandle =>
          rw [Store.holds_put]
          by_cases hkey : key = (sessionID, connectionID)
          · rw [if_pos hkey, hkey, Store.holds_of_lookup hentry, Entry.clients, Entry.clients, hhandle]
          · rw [if_neg hkey]

/-- An operation that puts another entry in the place of one, and closes what this leaves behind. -/
theorem moves_replace {op : Op} {entry' : Entry} (hseparate : s.Separate)
    (hentry : s.connections.lookup place = some entry) (haccepted : (op.run s).accepted = true)
    (hstore : (op.run s).store = s.put place entry') (hnodup : (op.run s).closed.Nodup)
    (hheld : ∀ c ∈ (op.run s).closed, c ∈ entry.clients)
    (hclients : ∀ c, c ∈ entry'.clients ↔
      (c ∈ entry.clients ∧ c ∉ (op.run s).closed) ∨ c ∈ op.clients) : Moves s op where
  nodup := hnodup
  held := fun c hc => ⟨place, (Store.holds_of_lookup hentry).2 (hheld c hc)⟩
  holds := by
    refine ⟨place, ?_⟩
    intro key c
    rw [hstore, haccepted, Store.holds_put]
    by_cases hkey : key = place
    · rw [if_pos hkey, hclients, hkey, Store.holds_of_lookup hentry]
      constructor
      · rintro (hold | hnew)
        · exact Or.inl hold
        · exact Or.inr ⟨rfl, hnew, rfl⟩
      · rintro (hold | ⟨-, hnew, -⟩)
        · exact Or.inl hold
        · exact Or.inr hnew
    · -- What is closed was held in the other place.
      rw [if_neg hkey]
      constructor
      · intro hold
        refine Or.inl ⟨hold, ?_⟩
        intro hclosed
        exact hkey (hseparate key place c hold ((Store.holds_of_lookup hentry).2 (hheld c hclosed)))
      · rintro (⟨hold, -⟩ | ⟨-, -, hplace⟩)
        · exact hold
        · exact (hkey hplace).elim

theorem mem_clients {h : Handle} : c ∈ h.clients ↔
    (∃ n, h.sql = some n ∧ .sql n = c) ∨ (∃ n, h.mongo = some n ∧ .mongo n = c) ∨
      ∃ n, h.redis = some n ∧ .redis n = c := by
  simp only [Handle.clients, List.mem_append, Option.mem_toList, Option.map_eq_some_iff, or_assoc]

/-- The clients of a handle whose SQL part is `db` in place of another. -/
theorem clients_withSql_iff (h : Handle) (db : Nat) (c : Client) :
    (∃ n, some db = some n ∧ Client.sql n = c) ∨ (∃ n, h.mongo = some n ∧ .mongo n = c) ∨
        (∃ n, h.redis = some n ∧ .redis n = c) ↔
      (((∃ n, h.sql = some n ∧ Client.sql n = c) ∨ (∃ n, h.mongo = some n ∧ .mongo n = c) ∨
          ∃ n, h.redis = some n ∧ .redis n = c) ∧
        ¬∃ n, h.sql = some n ∧ n ≠ db ∧ Client.sql n = c) ∨ c = .sql db := by
  cases c with
  | sql m =>
    by_cases hm : m = db
    · simp [hm]
    · simp [hm, Ne.symm hm]
  | mongo m => simp
  | redis m => simp

theorem moves_replaceDatabase (hseparate : s.Separate) (sessionID connectionID : Text) (db : Nat)
    (databaseName : Text) (now : Int) :
    Moves s (.replaceDatabase sessionID connectionID db databaseName now) := by
  cases hlookup : s.connections.lookup (sessionID, connectionID) with
  -- without a handle there is nothing to replace
  | none =>
    have hrun : (Op.replaceDatabase sessionID connectionID db databaseName now).run s =
        ⟨false, none, s, []⟩ := by
      rw [Op.run, Store.replaceDatabase, hlookup]
    apply moves_of_holds
    · rw [hrun]
    · rw [hrun]
    · intro key c
      rw [hrun]
  | some entry =>
    cases hhandle : entry.handle with
    | none =>
      have hrun : (Op.replaceDatabase sessionID connectionID db databaseName now).run s =
          ⟨false, none, s, []⟩ := by
        rw [Op.run, Store.replaceDatabase, hlookup]
        simp only [hhandle]
      apply moves_of_holds
      · rw [hrun]
      · rw [hrun]
      · intro key c
        rw [hrun]
    | some handle =>
      have hrun : (Op.replaceDatabase sessionID connectionID db databaseName now).run s =
          ⟨true, none, s.put (sessionID, connectionID)
            ⟨some { handle with sql := some db, database := databaseName }, now⟩,
            if handle.sql ≠ some db then (handle.sql.map Client.sql).toList else []⟩ := by
        rw [Op.run, Store.replaceDatabase, hlookup]
        simp only [hhandle]
      have hold : entry.clients = handle.clients := by
        rw [Entry.clients, hhandle]
        rfl
      -- only a database client that is not the new one is closed
      have hclosed : ∀ c, c ∈ ((Op.replaceDatabase sessionID connectionID db databaseName now).run
          s).closed ↔ ∃ n, handle.sql = some n ∧ n ≠ db ∧ .sql n = c := by
        intro c
        rw [hrun]
        dsimp only
        split
        · next hne =>
            rw [Option.mem_toList, Option.map_eq_some_iff]
            constructor
            · rintro ⟨n, hn, hc⟩
              refine ⟨n, hn, ?_, hc⟩
              rintro rfl
              exact hne hn
            · rintro ⟨n, hn, -, hc⟩
              exact ⟨n, hn, hc⟩
        · next hsame =>
            refine iff_of_false List.not_mem_nil ?_
            rintro ⟨n, hn, hne, -⟩
            rw [not_not.1 hsame] at hn
            exact hne (Option.some_inj.1 hn).symm
      refine moves_replace hseparate hlookup (by rw [hrun]) (by rw [hrun]) ?_ ?_ ?_
      · rw [hrun]
        dsimp only
        split
        · cases handle.sql with
          | none => exact List.nodup_nil
          | some n => exact List.nodup_singleton _
        · exact List.nodup_nil
      · intro c hc
        obtain ⟨n, hn, -, rfl⟩ := (hclosed c).1 hc
        rw [hold, mem_clients]
        exact Or.inl ⟨n, hn, rfl⟩
      · intro c
        rw [hold, mem_clients, hclosed]
        show c ∈ Handle.clients _ ↔ _ ∨ c ∈ [Client.sql db]
        rw [mem_clients, List.mem_singleton]
        exact clients_withSql_iff handle db c

theorem moves_replaceHandle (hseparate : s.Separate) (sessionID connectionID : Text) (handle : Handle)
    (now : Int) : Moves s (.replaceHandle sessionID connectionID handle now) := by
  cases hlookup : s.connections.lookup (sessionID, connectionID) with
  | none =>
    have hrun : (Op.replaceHandle sessionID connectionID handle now).run s = ⟨false, none, s, []⟩ := by
      rw [Op.run, Store.replaceHandle, hlookup]
    apply moves_of_holds
    · rw [hrun]
    · rw [hrun]
    · intro key c
      rw [hrun]
  | some entry =>
    have hrun : (Op.replaceHandle sessionID connectionID handle now).run s =
        ⟨true, none, s.put (sessionID, connectionID) ⟨some handle, now⟩, entry.clients⟩ := by
      rw [Op.run, Store.replaceHandle, hlookup]
    refine moves_replace hseparate hlookup (by rw [hrun]) (by rw [hrun]) ?_ ?_ ?_
    · rw [hrun]
      exact entry.clients_nodup
    · rw [hrun]
      intro c hc
      exact hc
    · intro c
      rw [hrun]
      constructor
      · intro hc
        exact Or.inr hc
      · rintro (⟨hold, hclosed⟩ | hc)
        · exact (hclosed hold).elim
        · exact hc

theorem moves_delete (hseparate : s.Separate) (sessionID connectionID : Text) :
    Moves s (.delete sessionID connectionID) := by
  -- everything but the entry stays, and what the entry held is closed
  have hgone : ∀ key c, ((Op.delete sessionID connectionID).run s).store.Holds key c ↔
      key ≠ (sessionID, connectionID) ∧ s.Holds key c := by
    intro key c
    show (∃ entry, (s.connections.erase _).lookup key = some entry ∧ _) ↔ _
    by_cases hkey : key = (sessionID, connectionID)
    · rw [hkey, AList.lookup_erase]
      refine iff_of_false ?_ fun h => h.1 rfl
      rintro ⟨entry, hentry, -⟩
      cases hentry
    · rw [AList.lookup_erase_ne hkey]
      exact (and_iff_right hkey).symm
  have hclosed : ∀ c, c ∈ ((Op.delete sessionID connectionID).run s).closed ↔
      s.Holds (sessionID, connectionID) c := by
    intro c
    show c ∈ ((s.connections.lookup (sessionID, connectionID)).map Entry.clients).getD [] ↔ _
    cases hlookup : s.connections.lookup (sessionID, connectionID) with
    | none => exact iff_of_false List.not_mem_nil (Store.not_holds_of_lookup hlookup)
    | some entry => exact (Store.holds_of_lookup hlookup).symm
  refine ⟨?_, ?_, (sessionID, connectionID), ?_⟩
  · show (((s.connections.lookup (sessionID, connectionID)).map Entry.clients).getD []).Nodup
    cases s.connections.lookup (sessionID, connectionID) with
    | none => exact List.nodup_nil
    | some entry => exact entry.clients_nodup
  · intro c hc
    exact ⟨_, (hclosed c).1 hc⟩
  · intro key c
    rw [hgone, hclosed]
    constructor
    · rintro ⟨hkey, hold⟩
      refine Or.inl ⟨hold, ?_⟩
      intro hdeleted
      exact hkey (hseparate key _ c hold hdeleted)
    · rintro (⟨hold, hkept⟩ | ⟨hfalse, -, -⟩)
      · refine ⟨?_, hold⟩
        rintro rfl
        exact hkept hold
      · cases hfalse

theorem moves_closeIdle (hseparate : s.Separate) (now : Int) : Moves s (.closeIdle now) := by
  have hstays : ∀ key c, ((Op.closeIdle now).run s).store.Holds key c ↔
      ∃ entry, s.connections.lookup key = some entry ∧ s.idleAt now entry = false ∧
        c ∈ entry.clients := by
    intro key c
    show (∃ entry, (s.connections.alter _ _).lookup key = some entry ∧ _) ↔ _
    rw [Table.lookup_alter, if_pos rfl]
    constructor
    · rintro ⟨entry, hentry, hc⟩
      obtain ⟨old, hold, hkept⟩ := Option.bind_eq_some_iff.1 hentry
      split at hkept
      · cases hkept
      · next hidle =>
          cases hkept
          exact ⟨_, hold, Bool.eq_false_iff.2 hidle, hc⟩
    · rintro ⟨entry, hentry, hidle, hc⟩
      refine ⟨entry, ?_, hc⟩
      rw [hentry, Option.bind_some, hidle]
      rfl
  have hclosed : ∀ c, c ∈ ((Op.closeIdle now).run s).closed ↔
      ∃ key entry, s.connections.lookup key = some entry ∧ s.idleAt now entry = true ∧
        c ∈ entry.clients := by
    intro c
    show c ∈ s.connections.entries.flatMap _ ↔ _
    rw [List.mem_flatMap]
    constructor
    · rintro ⟨⟨key, entry⟩, hmem, hc⟩
      split at hc
      · next hidle => exact ⟨key, entry, Table.mem_entries.1 hmem, hidle, hc⟩
      · cases hc
    · rintro ⟨key, entry, hentry, hidle, hc⟩
      refine ⟨⟨key, entry⟩, Table.mem_entries.2 hentry, ?_⟩
      rw [if_pos hidle]
      exact hc
  refine ⟨?_, ?_, ([], []), ?_⟩
  · show (s.connections.entries.flatMap _).Nodup
    rw [List.nodup_flatMap]
    constructor
    · intro e _
      split
      · exact e.2.clients_nodup
      · exact List.nodup_nil
    · -- Entries under different keys have no client in common.
      apply (List.nodupKeys_iff_pairwise.1 s.connections.nodupKeys).imp_of_mem
      intro e e' he he' hkeys c hc hc'
      dsimp only at hc hc'
      split at hc
      · split at hc'
        · exact hkeys (hseparate e.1 e'.1 c ⟨e.2, Table.mem_entries.1 he, hc⟩
            ⟨e'.2, Table.mem_entries.1 he', hc'⟩)
        · cases hc'
      · cases hc
  · intro c hc
    obtain ⟨key, entry, hentry, -, hclient⟩ := (hclosed c).1 hc
    exact ⟨key, entry, hentry, hclient⟩
  · intro key c
    rw [hstays, hclosed]
    constructor
    · rintro ⟨entry, hentry, hidle, hc⟩
      refine Or.inl ⟨⟨entry, hentry, hc⟩, ?_⟩
      rintro ⟨key', entry', hentry', hidle', hc'⟩
      obtain rfl := hseparate key key' c ⟨entry, hentry, hc⟩ ⟨entry', hentry', hc'⟩
      rw [hentry] at hentry'
      cases hentry'
      rw [hidle] at hidle'
      cases hidle'
    · rintro (⟨⟨entry, hentry, hc⟩, hkept⟩ | ⟨hfalse, -, -⟩)
      · refine ⟨entry, hentry, Bool.eq_false_iff.2 ?_, hc⟩
        intro hidle
        exact hkept ⟨key, entry, hentry, hidle, hc⟩
      · cases hfalse

theorem moves (hseparate : s.Separate) (op : Op) : Moves s op := by
  cases op with
  | createSession id => exact moves_createSession id
  | putHandle sessionID id handle now => exact moves_putHandle sessionID id handle now
  | getHandle sessionID connectionID now => exact moves_getHandle sessionID connectionID now
  | replaceDatabase sessionID connectionID db databaseName now =>
    exact moves_replaceDatabase hseparate sessionID connectionID db databaseName now
  | replaceHandle sessionID connectionID handle now =>
    exact moves_replaceHandle hseparate sessionID connectionID handle now
  | delete sessionID connectionID => exact moves_delete hseparate sessionID connectionID
  | closeIdle now => exact moves_closeIdle hseparate now

end

/-! ## Whole runs -/

/-- A client that the store accepted is behind one connection and open, or was closed once. -/
structure Owned (w : World) : Prop where
  separate : w.store.Separate
  held : ∀ key c, w.store.Holds key c → c ∈ w.accepted ∧ c ∉ w.closed
  kept : ∀ c ∈ w.accepted, (∃ key, w.store.Holds key c) ∨ c ∈ w.closed
  closed_nodup : w.closed.Nodup
  closed_accepted : w.closed ⊆ w.accepted
  accepted_given : w.accepted ⊆ w.given

theorem owned_start (idle : Int) : Owned (World.start idle) where
  separate := by
    rintro key key' c ⟨entry, hentry, -⟩
    cases hentry
  held := by
    rintro key c ⟨entry, hentry, -⟩
    cases hentry
  kept := by
    intro c hc
    cases hc
  closed_nodup := List.nodup_nil
  closed_accepted := List.nil_subset _
  accepted_given := List.nil_subset _

section

variable {w : World} {op : Op}

theorem mem_accepted_step {c : Client} : c ∈ (w.step op).accepted ↔
    ((op.run w.store).accepted = true ∧ c ∈ op.clients) ∨ c ∈ w.accepted := by
  show c ∈ _ ++ w.accepted ↔ _
  rw [List.mem_append]
  cases (op.run w.store).accepted with
  | false => simp
  | true => simp

theorem owned_step (h : Owned w) (hfresh : w.Fresh op) : Owned (w.step op) := by
  obtain ⟨hnodup, hheld, place, hholds⟩ := moves h.separate op
  -- What comes in was not there before.
  have hnew : ∀ c ∈ op.clients, c ∉ w.accepted := fun c hc hold => hfresh hc (h.accepted_given hold)
  have hclosed : ∀ c ∈ (op.run w.store).closed, c ∈ w.accepted ∧ c ∉ w.closed := by
    intro c hc
    obtain ⟨key, hkey⟩ := hheld c hc
    exact h.held key c hkey
  refine ⟨?_, ?_, ?_, ?_, ?_, ?_⟩
  · intro key key' c hkey hkey'
    rcases (hholds key c).1 hkey with ⟨hold, -⟩ | ⟨-, hc, rfl⟩
    · rcases (hholds key' c).1 hkey' with ⟨hold', -⟩ | ⟨-, hc', -⟩
      · exact h.separate key key' c hold hold'
      · exact (hnew c hc' (h.held key c hold).1).elim
    · rcases (hholds key' c).1 hkey' with ⟨hold', -⟩ | ⟨-, -, rfl⟩
      · exact (hnew c hc (h.held key' c hold').1).elim
      · rfl
  · intro key c hkey
    rw [mem_accepted_step]
    show _ ∧ c ∉ (op.run w.store).closed ++ w.closed
    rw [List.mem_append, not_or]
    rcases (hholds key c).1 hkey with ⟨hold, hstays⟩ | ⟨haccepted, hc, -⟩
    · exact ⟨Or.inr (h.held key c hold).1, hstays, (h.held key c hold).2⟩
    · refine ⟨Or.inl ⟨haccepted, hc⟩, ?_, ?_⟩
      · exact fun hcl => hnew c hc (hclosed c hcl).1
      · exact fun hcl => hnew c hc (h.closed_accepted hcl)
  · intro c hc
    show _ ∨ c ∈ (op.run w.store).closed ++ w.closed
    rw [List.mem_append]
    rcases mem_accepted_step.1 hc with ⟨haccepted, hclient⟩ | hold
    · exact Or.inl ⟨place, (hholds place c).2 (Or.inr ⟨haccepted, hclient, rfl⟩)⟩
    · by_cases hgone : c ∈ (op.run w.store).closed
      · exact Or.inr (Or.inl hgone)
      · rcases h.kept c hold with ⟨key, hkey⟩ | hclosed'
        · exact Or.inl ⟨key, (hholds key c).2 (Or.inl ⟨hkey, hgone⟩)⟩
        · exact Or.inr (Or.inr hclosed')
  · apply hnodup.append h.closed_nodup
    intro c hc
    exact (hclosed c hc).2
  · intro c hc
    rw [mem_accepted_step]
    rcases List.mem_append.1 hc with hnow | hold
    · exact Or.inr (hclosed c hnow).1
    · exact Or.inr (h.closed_accepted hold)
  · intro c hc
    show c ∈ op.clients ++ w.given
    rw [List.mem_append]
    rcases mem_accepted_step.1 hc with ⟨-, hclient⟩ | hold
    · exact Or.inl hclient
    · exact Or.inr (h.accepted_given hold)

end

/-! ## Other sessions -/

/-- Both stores have the same connections of a session. -/
structure Store.Agrees (s t : Store) (sessionID : Text) : Prop where
  session : s.hasSession sessionID = t.hasSession sessionID
  lookup : ∀ id, s.connections.lookup (sessionID, id) = t.connections.lookup (sessionID, id)

/-- The operation answers the same and leaves the same connections of the session. -/
structure SameFor (sessionID : Text) (a b : Op.Outcome) : Prop where
  accepted : a.accepted = b.accepted
  returned : a.returned = b.returned
  closed : a.closed = b.closed
  store : a.store.Agrees b.store sessionID

section

variable {s t : Store} {sessionID : Text}

theorem Store.Agrees.put (h : s.Agrees t sessionID) (id : Text) (entry : Entry) :
    (s.put (sessionID, id) entry).Agrees (t.put (sessionID, id) entry) sessionID where
  session := h.session
  lookup := by
    intro other
    rw [Store.put, Store.put]
    by_cases hkey : (sessionID, other) = (sessionID, id)
    · rw [hkey, AList.lookup_insert, AList.lookup_insert]
    · rw [AList.lookup_insert_ne hkey, AList.lookup_insert_ne hkey]
      exact h.lookup other

theorem Store.lookup_put_other {other id id' : Text} (hother : other ≠ sessionID) (entry : Entry) :
    (s.put (sessionID, id) entry).connections.lookup (other, id') =
      s.connections.lookup (other, id') := by
  apply AList.lookup_insert_ne
  intro hkey
  exact hother (Prod.mk.inj hkey).1

/-- An operation leaves the connections of every other session alone. -/
theorem lookup_run_other {op : Op} (hsession : op.session = some sessionID) {other : Text}
    (hother : other ≠ sessionID) (id : Text) :
    (op.run s).store.connections.lookup (other, id) = s.connections.lookup (other, id) := by
  cases op with
  | createSession _ => cases hsession
  | putHandle sid cid handle now =>
    cases hsession
    show (s.putHandle sessionID cid handle now).2.connections.lookup _ = _
    rw [Store.putHandle]
    split
    · exact Store.lookup_put_other hother _
    · rfl
  | getHandle sid cid now =>
    cases hsession
    show (s.getHandle sessionID cid now).2.connections.lookup _ = _
    rw [Store.getHandle]
    split
    · rfl
    · split
      · rfl
      · exact Store.lookup_put_other hother _
  | replaceDatabase sid cid db databaseName now =>
    cases hsession
    show (s.replaceDatabase sessionID cid db databaseName now).2.1.connections.lookup _ = _
    rw [Store.replaceDatabase]
    split
    · rfl
    · split
      · rfl
      · exact Store.lookup_put_other hother _
  | replaceHandle sid cid handle now =>
    cases hsession
    show (s.replaceHandle sessionID cid handle now).2.1.connections.lookup _ = _
    rw [Store.replaceHandle]
    split
    · rfl
    · exact Store.lookup_put_other hother _
  | delete sid cid =>
    cases hsession
    apply AList.lookup_erase_ne
    intro hkey
    exact hother (Prod.mk.inj hkey).1
  | closeIdle _ => cases hsession

/-- An operation does not look at the connections of any other session. -/
theorem sameFor_run {op : Op} (hsession : op.session = some sessionID) (h : s.Agrees t sessionID) :
    SameFor sessionID (op.run s) (op.run t) := by
  cases op with
  | createSession _ => cases hsession
  | putHandle sid cid handle now =>
    cases hsession
    rw [Op.run, Op.run, Store.putHandle, Store.putHandle, h.session, h.lookup]
    by_cases hnew : t.hasSession sessionID ∧ t.connections.lookup (sessionID, cid) = none
    · rw [if_pos hnew, if_pos hnew]
      exact ⟨rfl, rfl, rfl, h.put cid _⟩
    · rw [if_neg hnew, if_neg hnew]
      exact ⟨rfl, rfl, rfl, h⟩
  | getHandle sid cid now =>
    cases hsession
    rw [Op.run, Op.run, Store.getHandle, Store.getHandle, h.lookup]
    cases t.connections.lookup (sessionID, cid) with
    | none => exact ⟨rfl, rfl, rfl, h⟩
    | some entry =>
      cases hhandle : entry.handle with
      | none =>
        simp only [hhandle]
        exact ⟨rfl, rfl, rfl, h⟩
      | some handle =>
        simp only [hhandle]
        exact ⟨rfl, rfl, rfl, h.put cid _⟩
  | replaceDatabase sid cid db databaseName now =>
    cases hsession
    rw [Op.run, Op.run, Store.replaceDatabase, Store.replaceDatabase, h.lookup]
    cases t.connections.lookup (sessionID, cid) with
    | none => exact ⟨rfl, rfl, rfl, h⟩
    | some entry =>
      cases hhandle : entry.handle with
      | none =>
        simp only [hhandle]
        exact ⟨rfl, rfl, rfl, h⟩
      | some handle =>
        simp only [hhandle]
        exact ⟨rfl, rfl, rfl, h.put cid _⟩
  | replaceHandle sid cid handle now =>
    cases hsession
    rw [Op.run, Op.run, Store.replaceHandle, Store.replaceHandle, h.lookup]
    cases t.connections.lookup (sessionID, cid) with
    | none => exact ⟨rfl, rfl, rfl, h⟩
    | some entry => exact ⟨rfl, rfl, rfl, h.put cid _⟩
  | delete sid cid =>
    cases hsession
    rw [Op.run, Op.run, Store.delete, Store.delete, h.lookup]
    refine ⟨rfl, rfl, rfl, h.session, ?_⟩
    intro other
    dsimp only
    by_cases hkey : (sessionID, other) = (sessionID, cid)
    · rw [hkey, AList.lookup_erase, AList.lookup_erase]
    · rw [AList.lookup_erase_ne hkey, AList.lookup_erase_ne hkey]
      exact h.lookup other
  | closeIdle _ => cases hsession

end

/-- **Whatever the store accepted is open while it is registered and closed once when it is not, and no
operation reaches into another session.** -/
theorem handles_owned {idle : Int} {w : World}
    (hrun : Runs World.step World.Fresh (World.start idle) w) :
    (∀ key c, w.store.Holds key c → c ∉ w.closed) ∧
      w.closed.Nodup ∧
      (∀ c ∈ w.accepted, (∀ key, ¬w.store.Holds key c) → c ∈ w.closed) ∧
      ∀ op sessionID, Op.session op = some sessionID →
        (∀ other ≠ sessionID, ∀ id, (op.run w.store).store.connections.lookup (other, id) =
          w.store.connections.lookup (other, id)) ∧
        ∀ t, w.store.Agrees t sessionID → SameFor sessionID (op.run w.store) (op.run t) := by
  have howned : Owned w := hrun.invariant (fun _ _ hfresh h => owned_step h hfresh) (owned_start idle)
  refine ⟨?_, howned.closed_nodup, ?_, ?_⟩
  · intro key c hkey
    exact (howned.held key c hkey).2
  · intro c hc hnone
    rcases howned.kept c hc with ⟨key, hkey⟩ | hclosed
    · exact (hnone key hkey).elim
    · exact hclosed
  · intro op sessionID hsession
    exact ⟨fun other hother id => lookup_run_other hsession hother id, fun t h => sameFor_run hsession h⟩

/-- A session, a handle, another database, and the end of both. -/
def firstOps : List Op :=
  [.createSession ['s'], .putHandle ['s'] ['c'] ⟨['m'], ['a'], some 0, none, none⟩ 0,
    .replaceDatabase ['s'] ['c'] 1 ['b'] 1, .closeIdle 2000]

theorem handles_owned_first :
    (∀ key c, (firstOps.foldl World.step (World.start 1000)).store.Holds key c →
      c ∉ (firstOps.foldl World.step (World.start 1000)).closed) ∧
    (firstOps.foldl World.step (World.start 1000)).closed = [.sql 1, .sql 0] := by
  have hrun : Runs World.step World.Fresh (World.start 1000)
      (firstOps.foldl World.step (World.start 1000)) := by
    apply Runs.of_meets
    refine ⟨?_, ?_, ?_, ?_, trivial⟩
    · exact List.disjoint_nil_left _
    · exact List.disjoint_nil_right _
    · apply List.singleton_disjoint.2
      decide
    · exact List.disjoint_nil_left _
  exact ⟨(handles_owned hrun).1, rfl⟩

end Workbench.Session.Handles
