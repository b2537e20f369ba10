import Workbench.Base.Text
import Workbench.Lib.Base64
import Workbench.Lib.Infixes
import Workbench.Lib.Table

/-!
# Connections and transactions of sessions

`api/internal/session/store.go` and `api/internal/query/transaction.go`: the handles that are registered
for the connections of a session, and the open transactions, each filed under its own id with the scope of
its connection. A `*sql.DB` is known by the order in which it was opened.
-/

set_option autoImplicit false

namespace Workbench.Session

open Workbench.Lib

/-- `randomID` and `transactionID`, from the bytes drawn. -/
def randomID (bytes : List UInt8) : Text := Base64.encode bytes

/-- `database.Handle`, with the database of its configuration. MongoDB and Redis have no `SQL`. -/
structure Handle where
  database : Text
  sql : Option Nat
  deriving DecidableEq, Repr

structure Entry where
  handle : Option Handle
  lastUsed : Int
  deriving DecidableEq, Repr

/-- The connections are filed under their session and their id. -/
structure Store where
  idle : Int
  sessions : List Text
  connections : Table (Text × Text) Entry

namespace Store

/-- What a store operation closes on its way. -/
def closing (entry : Entry) : List Nat := ((entry.handle.bind Handle.sql).map fun db => [db]).getD []

def hasSession (s : Store) (sessionID : Text) : Bool := s.sessions.contains sessionID

def put (s : Store) (key : Text × Text) (entry : Entry) : Store :=
  { s with connections := s.connections.insert key entry }

/-- `CreateSession`: the loop draws until the id is new. -/
def createSession (s : Store) (id : Text) : Store :=
  if s.hasSession id then s else { s with sessions := id :: s.sessions }

/-- `PutHandle`. -/
def putHandle (s : Store) (sessionID id : Text) (handle : Handle) (now : Int) : Store :=
  if s.hasSession sessionID ∧ s.connections.lookup (sessionID, id) = none then
    s.put (sessionID, id) ⟨some handle, now⟩
  else s

/-- `GetHandle`, which counts as a use. -/
def getHandle (s : Store) (sessionID connectionID : Text) (now : Int) : Option Handle × Store :=
  match s.connections.lookup (sessionID, connectionID) with
  | none => (none, s)
  | some entry =>
    match entry.handle with
    | none => (none, s)
    | some handle => (some handle, s.put (sessionID, connectionID) { entry with lastUsed := now })

/-- `ReplaceHandle`: the handle that was registered is closed. -/
def replaceHandle (s : Store) (sessionID connectionID : Text) (handle : Handle) (now : Int) :
    Option (Store × List Nat) :=
  (s.connections.lookup (sessionID, connectionID)).map fun entry =>
    (s.put (sessionID, connectionID) ⟨some handle, now⟩, closing entry)

/-- `Delete`. -/
def delete (s : Store) (sessionID connectionID : Text) : Store × List Nat :=
  ({ s with connections := s.connections.erase (sessionID, connectionID) },
    ((s.connections.lookup (sessionID, connectionID)).map closing).getD [])

/-- The entry is idle at the cutoff of `CloseIdle`. -/
def idleAt (s : Store) (now : Int) (entry : Entry) : Bool := entry.lastUsed ≤ now - s.idle

/-- `CloseIdle`. -/
def closeIdle (s : Store) (now : Int) : Store × List Nat :=
  ({ s with connections := s.connections.alter (fun _ => true) fun entry =>
      if s.idleAt now entry then none else some entry },
    s.connections.entries.flatMap fun e => if s.idleAt now e.2 then closing e.2 else [])

end Store

/-- A transaction and the handle it runs on. -/
structure Tx where
  db : Nat
  deriving DecidableEq, Repr

structure TransactionEntry where
  scope : Text
  tx : Tx
  lastUsed : Int
  deriving DecidableEq, Repr

structure TransactionService where
  idle : Int
  items : Table Text TransactionEntry

namespace TransactionService

/-- The end of `Begin`, once the transaction has begun. -/
def add (t : TransactionService) (scope id : Text) (tx : Tx) (now : Int) : TransactionService :=
  { t with items := t.items.insert id ⟨scope, tx, now⟩ }

/-- What `Get` returns. -/
def get (t : TransactionService) (scope id : Text) : Option Tx :=
  match t.items.lookup id with
  | none => none
  | some item => if item.scope ≠ scope then none else some item.tx

def use (scope : Text) (now : Int) (item : TransactionEntry) : TransactionEntry :=
  if item.scope ≠ scope then item else { item with lastUsed := now }

/-- `Get` counts as a use. -/
def touch (t : TransactionService) (scope id : Text) (now : Int) : TransactionService :=
  { t with items := t.items.alter (fun k => k = id) fun item => some (use scope now item) }

/-- `take`, behind `Commit` and `Rollback`. -/
def take (t : TransactionService) (scope id : Text) : Option (TransactionEntry × TransactionService) :=
  match t.items.lookup id with
  | none => none
  | some item =>
    if item.scope ≠ scope then none else some (item, { t with items := t.items.erase id })

/-- `CloseIdle`: the transactions it removes are rolled back. -/
def closeIdle (t : TransactionService) (now : Int) : TransactionService :=
  { t with items := t.items.alter (fun _ => true) fun item =>
      if item.lastUsed ≤ now - t.idle then none else some item }

end TransactionService

def queryScope (sessionID connectionID : Text) : Text := sessionID ++ ('/' :: connectionID)

/-! ## Scopes -/

/-- No random id has a slash in it. -/
theorem slash_not_mem_randomID (bytes : List UInt8) : '/' ∉ randomID bytes := by
  intro h
  rw [randomID, Base64.encode_eq_map] at h
  obtain ⟨n, hn, hdigit⟩ := List.mem_map.1 h
  have hall : ∀ k : Fin 64, Base64.digit k ≠ '/' := by decide +kernel
  exact hall ⟨n, Base64.digits_lt bytes n hn⟩ hdigit

/-- A scope names one connection of one session. -/
theorem queryScope_inj {s s' c c' : Text} (hs : '/' ∉ s) (hs' : '/' ∉ s')
    (h : queryScope s c = queryScope s' c') : s = s' ∧ c = c' :=
  append_mark_inj hs hs' h

/-! ## What the operations leave behind -/

namespace Store

/-- The handle registered for a connection. -/
def registered (s : Store) (sessionID connectionID : Text) : Option Handle :=
  (s.connections.lookup (sessionID, connectionID)).bind Entry.handle

theorem registered_put (s : Store) (key : Text × Text) (entry : Entry) (sessionID connectionID : Text) :
    (s.put key entry).registered sessionID connectionID =
      if key = (sessionID, connectionID) then entry.handle else s.registered sessionID connectionID := by
  show ((s.connections.insert key entry).lookup _).bind _ = _
  split
  · next hkey =>
      subst hkey
      rw [AList.lookup_insert]
      rfl
  · next hkey =>
      rw [AList.lookup_insert_ne (Ne.symm hkey)]
      rfl

/-- Looking a handle up registers nothing else. -/
theorem registered_getHandle (s : Store) (sessionID connectionID : Text) (now : Int)
    (sid cid : Text) :
    (s.getHandle sessionID connectionID now).2.registered sid cid = s.registered sid cid := by
  unfold getHandle
  split
  · rfl
  · next entry hentry =>
      split
      · rfl
      · next handle hhandle =>
          show (s.put _ _).registered sid cid = _
          rw [registered_put]
          split
          · next hkey =>
              rw [registered, ← hkey, hentry]
              rfl
          · rfl

theorem getHandle_fst (s : Store) (sessionID connectionID : Text) (now : Int) :
    (s.getHandle sessionID connectionID now).1 = s.registered sessionID connectionID := by
  unfold getHandle registered
  cases hentry : s.connections.lookup (sessionID, connectionID) with
  | none => rfl
  | some entry =>
    show _ = entry.handle
    cases hhandle : entry.handle with
    | none => simp only [hhandle]
    | some handle => simp only [hhandle]

theorem registered_putHandle {s : Store} {sessionID id : Text} {handle : Handle} {now : Int}
    {sid cid : Text} {h : Handle}
    (hreg : (s.putHandle sessionID id handle now).registered sid cid = some h) :
    s.registered sid cid = some h ∨ (h = handle ∧ sid = sessionID ∧ s.hasSession sessionID = true) := by
  unfold putHandle at hreg
  split at hreg
  · next hnew =>
      rw [registered_put] at hreg
      split at hreg
      · next hkey =>
          cases hreg
          cases hkey
          exact Or.inr ⟨rfl, rfl, hnew.1⟩
      · exact Or.inl hreg
  · exact Or.inl hreg

/-- A handle that is registered stays so when another connection is opened. -/
theorem registered_putHandle_of_some {s : Store} {sessionID id : Text} {handle : Handle} {now : Int}
    {sid cid : Text} {h : Handle} (hreg : s.registered sid cid = some h) :
    (s.putHandle sessionID id handle now).registered sid cid = some h := by
  unfold putHandle
  split
  · next hnew =>
      rw [registered_put]
      split
      · next hkey =>
          rw [registered, ← hkey, hnew.2] at hreg
          cases hreg
      · exact hreg
  · exact hreg

theorem closing_of_registered {s : Store} {sid cid : Text} {h : Handle} {db : Nat} {entry : Entry}
    (hentry : s.connections.lookup (sid, cid) = some entry) (hreg : s.registered sid cid = some h)
    (hsql : h.sql = some db) : db ∈ closing entry := by
  have hhandle : entry.handle = some h := by
    rw [registered, hentry] at hreg
    exact hreg
  rw [closing, hhandle]
  show db ∈ ((h.sql).map fun d => [d]).getD []
  rw [hsql]
  exact List.mem_singleton_self db

theorem registered_delete (s : Store) (sessionID connectionID : Text) (sid cid : Text) :
    (s.delete sessionID connectionID).1.registered sid cid =
      if (sessionID, connectionID) = (sid, cid) then none else s.registered sid cid := by
  show ((s.connections.erase _).lookup _).bind _ = _
  split
  · next hkey =>
      rw [← hkey, AList.lookup_erase]
      rfl
  · next hkey =>
      rw [AList.lookup_erase_ne (Ne.symm hkey)]
      rfl

theorem registered_closeIdle (s : Store) (now : Int) (sid cid : Text) :
    (s.closeIdle now).1.registered sid cid =
      (s.connections.lookup (sid, cid)).bind fun entry =>
        if s.idleAt now entry then none else entry.handle := by
  show ((s.connections.alter _ _).lookup _).bind _ = _
  rw [Table.lookup_alter, if_pos rfl]
  cases s.connections.lookup (sid, cid) with
  | none => rfl
  | some entry =>
    show (if s.idleAt now entry then none else some entry).bind Entry.handle = _
    rw [apply_ite (fun o : Option Entry => o.bind Entry.handle)]
    rfl

end Store

namespace TransactionService

/-- The entry under an id that answers for a scope. -/
theorem get_eq_some {t : TransactionService} {scope id : Text} {tx : Tx} :
    t.get scope id = some tx ↔
      ∃ item, t.items.lookup id = some item ∧ item.scope = scope ∧ item.tx = tx := by
  unfold get
  cases hitem : t.items.lookup id with
  | none => simp
  | some item =>
    by_cases hscope : item.scope = scope
    · simp [hscope]
    · simp [hscope]

/-- Every transaction behind an operation that only files uses or takes entries out was there before,
on the same handle. -/
def From (t t' : TransactionService) : Prop :=
  ∀ id item', t'.items.lookup id = some item' →
    ∃ item, t.items.lookup id = some item ∧ item.scope = item'.scope ∧ item.tx = item'.tx

theorem From.refl (t : TransactionService) : From t t := fun _ item' h => ⟨item', h, rfl, rfl⟩

theorem from_touch (t : TransactionService) (scope id : Text) (now : Int) : From t (t.touch scope id now) := by
  intro k item' h
  have hlookup : (t.items.alter _ _).lookup k = some item' := h
  rw [Table.lookup_alter] at hlookup
  split at hlookup
  · obtain ⟨item, hitem, heq⟩ := Option.bind_eq_some_iff.1 hlookup
    refine ⟨item, hitem, ?_⟩
    cases heq
    unfold use
    split
    · exact ⟨rfl, rfl⟩
    · exact ⟨rfl, rfl⟩
  · exact ⟨item', hlookup, rfl, rfl⟩

theorem from_take {t t' : TransactionService} {scope id : Text} {item : TransactionEntry}
    (h : t.take scope id = some (item, t')) : From t t' := by
  unfold take at h
  split at h
  · cases h
  · split at h
    · cases h
    · cases h
      intro k item' hk
      by_cases hkey : k = id
      · subst hkey
        rw [AList.lookup_erase] at hk
        cases hk
      · rw [AList.lookup_erase_ne hkey] at hk
        exact ⟨item', hk, rfl, rfl⟩

theorem from_closeIdle (t : TransactionService) (now : Int) : From t (t.closeIdle now) := by
  intro k item' h
  have hlookup : (t.items.alter _ _).lookup k = some item' := h
  rw [Table.lookup_alter, if_pos rfl] at hlookup
  obtain ⟨item, hitem, heq⟩ := Option.bind_eq_some_iff.1 hlookup
  refine ⟨item, hitem, ?_⟩
  split at heq
  · cases heq
  · cases heq
    exact ⟨rfl, rfl⟩

end TransactionService

end Workbench.Session
