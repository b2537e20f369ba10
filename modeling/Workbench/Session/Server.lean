import Workbench.Session.Store

/-!
# Transactions and the handles of their connections

The handlers of `api/internal/httpapi/router.go` that touch both stores. A request is one step, but for
`POST transactions`: it looks the handle up, begins the transaction on it and files the transaction, and
other requests can come between. Every step gets the clock and the outcomes of what it calls as inputs.
-/

set_option autoImplicit false

namespace Workbench.Session

open Workbench.Lib

/-- A request for a transaction on its way: it holds the handle it has looked up, or the transaction has
begun there and is not filed yet. -/
structure Begin where
  scope : Text
  db : Nat
  begun : Bool
  deriving DecidableEq, Repr

/-- Both stores, the requests for transactions on their way, the number of handles opened so far, and
those that were closed. -/
structure Server where
  store : Store
  transactions : TransactionService
  begins : List Begin
  opened : Nat
  closed : List Nat

inductive Event where
  | createSession (bytes : List UInt8)
  | openConnection (sessionID : Text) (bytes : List UInt8) (database : Text) (sql : Bool) (now : Int)
  | useConnection (sessionID connectionID : Text) (now : Int)
  | switchDatabase (sessionID connectionID database currentDatabase : Text) (opens sql : Bool) (now : Int)
  | deleteConnection (sessionID connectionID : Text)
  | closeIdle (now : Int)
  | lookUp (sessionID connectionID : Text) (now : Int)
  | beginTx (i : Nat) (ok : Bool)
  | fileTransaction (i : Nat) (bytes : List UInt8) (now : Int)
  | finishTransaction (sessionID connectionID txID : Text)
  | query (sessionID connectionID txID : Text) (now : Int)
  | closeIdleTransactions (now : Int)

namespace Server

def start (idle txIdle : Int) : Server := ⟨⟨idle, [], ∅⟩, ⟨txIdle, ∅⟩, [], 0, []⟩

/-- What `OpenHandle` opens next. -/
def nextHandle (s : Server) (database : Text) (sql : Bool) : Handle :=
  ⟨database, if sql then some s.opened else none⟩

def openConnection (s : Server) (sessionID : Text) (bytes : List UInt8) (database : Text) (sql : Bool)
    (now : Int) : Server :=
  if s.store.hasSession sessionID then
    { s with
      store := s.store.putHandle sessionID (randomID bytes) (s.nextHandle database sql) now
      opened := s.opened + 1 }
  else s

/-- The switch goes on to open the other database. -/
def switches (s : Server) (sessionID database currentDatabase : Text) (opens : Bool) : Bool :=
  s.store.hasSession sessionID && database ≠ [] && database ≠ currentDatabase && opens

/-- `POST database`, from the current database that the handler has looked up. -/
def switchDatabase (s : Server) (sessionID connectionID database currentDatabase : Text)
    (opens sql : Bool) (now : Int) : Server :=
  if s.switches sessionID database currentDatabase opens then
    let handle := s.nextHandle database sql
    match s.store.replaceHandle sessionID connectionID handle now with
    | none => { s with opened := s.opened + 1, closed := s.opened :: s.closed }
    | some (store, closed) =>
      { s with store := store, opened := s.opened + 1, closed := closed ++ s.closed }
  else s

def deleteConnection (s : Server) (sessionID connectionID : Text) : Server :=
  if s.store.hasSession sessionID then
    let (store, closed) := s.store.delete sessionID connectionID
    { s with store := store, closed := closed ++ s.closed }
  else s

def closeIdle (s : Server) (now : Int) : Server :=
  let (store, closed) := s.store.closeIdle now
  { s with store := store, closed := closed ++ s.closed }

/-- The first half of `POST transactions`: `GetConnection`. -/
def lookUp (s : Server) (sessionID connectionID : Text) (now : Int) : Server :=
  if s.store.hasSession sessionID then
    let (handle, store) := s.store.getHandle sessionID connectionID now
    match handle.bind Handle.sql with
    | none => { s with store := store }
    | some db =>
      { s with store := store, begins := s.begins ++ [⟨queryScope sessionID connectionID, db, false⟩] }
  else s

/-- `BeginTx` fails on a handle that is closed. -/
def beginTx (s : Server) (i : Nat) (ok : Bool) : Server :=
  match s.begins[i]? with
  | none => s
  | some p =>
    if p.begun then s
    else if ok ∧ p.db ∉ s.closed then { s with begins := s.begins.set i { p with begun := true } }
    else { s with begins := s.begins.eraseIdx i }

def fileTransaction (s : Server) (i : Nat) (bytes : List UInt8) (now : Int) : Server :=
  match s.begins[i]? with
  | none => s
  | some p =>
    if p.begun then
      { s with
        transactions := s.transactions.add p.scope (randomID bytes) ⟨p.db⟩ now
        begins := s.begins.eraseIdx i }
    else s

def finishTransaction (s : Server) (sessionID connectionID txID : Text) : Server :=
  if s.store.hasSession sessionID then
    match s.transactions.take (queryScope sessionID connectionID) txID with
    | none => s
    | some (_, transactions) => { s with transactions := transactions }
  else s

/-- The statement of a query is of no matter here: it goes to the handle, or to what `Get` returns. -/
def query (s : Server) (sessionID connectionID txID : Text) (now : Int) : Server :=
  if s.store.hasSession sessionID then
    let (handle, store) := s.store.getHandle sessionID connectionID now
    if handle.isNone ∨ txID = [] then { s with store := store }
    else
      { s with
        store := store
        transactions := s.transactions.touch (queryScope sessionID connectionID) txID now }
  else s

def step (s : Server) : Event → Server
  | .createSession bytes => { s with store := s.store.createSession (randomID bytes) }
  | .openConnection sessionID bytes database sql now => s.openConnection sessionID bytes database sql now
  | .useConnection sessionID connectionID now =>
    if s.store.hasSession sessionID then
      { s with store := (s.store.getHandle sessionID connectionID now).2 }
    else s
  | .switchDatabase sessionID connectionID database currentDatabase opens sql now =>
    s.switchDatabase sessionID connectionID database currentDatabase opens sql now
  | .deleteConnection sessionID connectionID => s.deleteConnection sessionID connectionID
  | .closeIdle now => s.closeIdle now
  | .lookUp sessionID connectionID now => s.lookUp sessionID connectionID now
  | .beginTx i ok => s.beginTx i ok
  | .fileTransaction i bytes now => s.fileTransaction i bytes now
  | .finishTransaction sessionID connectionID txID => s.finishTransaction sessionID connectionID txID
  | .query sessionID connectionID txID now => s.query sessionID connectionID txID now
  | .closeIdleTransactions now => { s with transactions := s.transactions.closeIdle now }

end Server

end Workbench.Session
