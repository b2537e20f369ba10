import Workbench.Lib.Runs
import Workbench.Session.Server

/-!
# Every transaction on the handle of its connection

The handle of a connection is replaced, deleted or expires without a look at the transactions. Each
transaction is on the registered handle of its connection in every run in which that only happens while
the connection has no transaction (`transactions_stay`).
-/

set_option autoImplicit false

namespace Workbench.Session

open Workbench.Lib

namespace Server

/-! ## Coherence -/

/-- What `Get` returns for a connection runs on the handle that is registered for it. -/
def Coherent (s : Server) : Prop :=
  ∀ sessionID connectionID txID tx, s.store.hasSession sessionID = true →
    s.transactions.get (queryScope sessionID connectionID) txID = some tx →
      ∃ handle, s.store.registered sessionID connectionID = some handle ∧ handle.sql = some tx.db

/-- The connections whose handle a step takes out of the store. -/
def retires (s : Server) : Event → List (Text × Text)
  | .switchDatabase sessionID connectionID database currentDatabase opens _ _ =>
    if s.switches sessionID database currentDatabase opens then [(sessionID, connectionID)] else []
  | .deleteConnection sessionID connectionID =>
    if s.store.hasSession sessionID then [(sessionID, connectionID)] else []
  | .closeIdle now => s.store.connections.keysWhere fun _ entry => s.store.idleAt now entry
  | _ => []

/-- No transaction of the scope is open, and none has begun. -/
def ScopeIdle (s : Server) (scope : Text) : Prop :=
  s.transactions.items.any (fun _ item => item.scope = scope) = false ∧
    ∀ p ∈ s.begins, p.begun = true → p.scope ≠ scope

instance (s : Server) (scope : Text) : Decidable (s.ScopeIdle scope) := inferInstanceAs (Decidable (_ ∧ _))

/-- The step retires handles only of connections without a transaction. -/
def RetiresIdle (s : Server) (e : Event) : Prop :=
  ∀ key ∈ s.retires e, s.ScopeIdle (queryScope key.1 key.2)

instance (s : Server) (e : Event) : Decidable (s.RetiresIdle e) :=
  inferInstanceAs (Decidable (∀ key ∈ s.retires e, s.ScopeIdle (queryScope key.1 key.2)))

theorem ScopeIdle.scope_ne {s : Server} {scope id : Text} {item : TransactionEntry} (h : s.ScopeIdle scope)
    (hitem : s.transactions.items.lookup id = some item) : item.scope ≠ scope := by
  intro hscope
  have hany : s.transactions.items.any (fun _ item => item.scope = scope) = true :=
    Table.any_iff.2 ⟨id, item, hitem, decide_eq_true hscope⟩
  rw [h.1] at hany
  cases hany

/-- The handle of the scope's connection. -/
def RunsOn (s : Server) (scope : Text) (db : Nat) : Prop :=
  ∃ sessionID connectionID handle, s.store.registered sessionID connectionID = some handle ∧
    scope = queryScope sessionID connectionID ∧ handle.sql = some db

structure Inv (s : Server) : Prop where
  sessions : ∀ sessionID ∈ s.store.sessions, '/' ∉ sessionID
  owners : ∀ sessionID connectionID handle,
    s.store.registered sessionID connectionID = some handle → sessionID ∈ s.store.sessions
  fresh : ∀ scope db, s.RunsOn scope db → db < s.opened
  items : ∀ id item, s.transactions.items.lookup id = some item → s.RunsOn item.scope item.tx.db
  begins : ∀ p ∈ s.begins, s.RunsOn p.scope p.db ∨ (p.begun = false ∧ p.db ∈ s.closed)

theorem Inv.coherent {s : Server} (h : s.Inv) : s.Coherent := by
  intro sessionID connectionID txID tx hsession hget
  obtain ⟨item, hitem, hscope, rfl⟩ := TransactionService.get_eq_some.1 hget
  obtain ⟨sid, cid, handle, hreg, hqueryScope, hsql⟩ := h.items txID item hitem
  have hslash := h.sessions sessionID (List.contains_iff_mem.1 hsession)
  have hslash' := h.sessions sid (h.owners sid cid handle hreg)
  obtain ⟨rfl, rfl⟩ := queryScope_inj hslash' hslash (hqueryScope.symm.trans hscope)
  exact ⟨handle, hreg, hsql⟩

theorem inv_start (idle txIdle : Int) : (start idle txIdle).Inv where
  sessions := by
    intro sid hsid
    cases hsid
  owners := by
    intro sid cid handle hreg
    cases hreg
  fresh := by
    rintro scope db ⟨sid, cid, handle, hreg, -⟩
    cases hreg
  items := by
    intro id item hitem
    cases hitem
  begins := by
    intro p hp
    cases hp

/-! ## One step -/

/-- Every handle registered behind a step was registered before it, or is the one that was opened in
it. -/
structure Registry (s s' : Server) : Prop where
  sessions : ∀ sid ∈ s'.store.sessions, sid ∈ s.store.sessions ∨ '/' ∉ sid
  kept : ∀ sid ∈ s.store.sessions, sid ∈ s'.store.sessions
  opened : s.opened ≤ s'.opened
  handles : ∀ sid cid handle, s'.store.registered sid cid = some handle →
    s.store.registered sid cid = some handle ∨
      (sid ∈ s.store.sessions ∧ ∀ db, handle.sql = some db → db = s.opened ∧ db < s'.opened)

/-- The part of the invariant that is about the registry alone. -/
theorem Registry.inv {s s' : Server} (hreg : Registry s s') (h : s.Inv) :
    (∀ sid ∈ s'.store.sessions, '/' ∉ sid) ∧
      (∀ sid cid handle, s'.store.registered sid cid = some handle → sid ∈ s'.store.sessions) ∧
      ∀ scope db, s'.RunsOn scope db → db < s'.opened := by
  refine ⟨?_, ?_, ?_⟩
  · intro sid hsid
    rcases hreg.sessions sid hsid with hold | hnew
    · exact h.sessions sid hold
    · exact hnew
  · intro sid cid handle hhandle
    apply hreg.kept
    rcases hreg.handles sid cid handle hhandle with hold | ⟨hsession, -⟩
    · exact h.owners sid cid handle hold
    · exact hsession
  · rintro scope db ⟨sid, cid, handle, hhandle, rfl, hsql⟩
    rcases hreg.handles sid cid handle hhandle with hold | ⟨-, hnew⟩
    · exact Nat.lt_of_lt_of_le (h.fresh _ db ⟨sid, cid, handle, hold, rfl, hsql⟩) hreg.opened
    · exact (hnew db hsql).2

/-- What a handle is when its connection loses it: closed, and without a transaction. -/
def Retired (s s' : Server) : Prop :=
  ∀ scope db, s.RunsOn scope db → s'.RunsOn scope db ∨ (db ∈ s'.closed ∧ s.ScopeIdle scope)

theorem Retired.of_registered {s s' : Server}
    (h : ∀ sid cid, s'.store.registered sid cid = s.store.registered sid cid) : Retired s s' := by
  rintro scope db ⟨sid, cid, handle, hreg, hscope, hsql⟩
  exact Or.inl ⟨sid, cid, handle, (h sid cid).trans hreg, hscope, hsql⟩

/-- A step that begins and files no transaction keeps the invariant. -/
theorem Inv.retire {s s' : Server} (h : s.Inv) (hreg : Registry s s') (hretired : Retired s s')
    (hclosed : ∀ db ∈ s.closed, db ∈ s'.closed)
    (hitems : TransactionService.From s.transactions s'.transactions)
    (hbegins : ∀ p ∈ s'.begins, p ∈ s.begins) : s'.Inv := by
  obtain ⟨hsessions, howners, hfresh⟩ := hreg.inv h
  refine ⟨hsessions, howners, hfresh, ?_, ?_⟩
  · intro id item' hitem'
    obtain ⟨item, hitem, hscope, htx⟩ := hitems id item' hitem'
    rw [← hscope, ← htx]
    rcases hretired _ _ (h.items id item hitem) with hruns | ⟨-, hidle⟩
    · exact hruns
    · exact absurd rfl (hidle.scope_ne hitem)
  · intro p hp
    rcases h.begins p (hbegins p hp) with hruns | ⟨hwaits, hold⟩
    · rcases hretired _ _ hruns with hstays | ⟨hgone, hidle⟩
      · exact Or.inl hstays
      · -- A transaction that had begun there would have kept the connection busy.
        refine Or.inr ⟨?_, hgone⟩
        apply Bool.eq_false_iff.2
        intro hbegun
        exact hidle.2 p (hbegins p hp) hbegun rfl
    · exact Or.inr ⟨hwaits, hclosed _ hold⟩

theorem Registry.same {s s' : Server} (hsessions : s'.store.sessions = s.store.sessions)
    (hopened : s.opened ≤ s'.opened)
    (h : ∀ sid cid handle, s'.store.registered sid cid = some handle →
      s.store.registered sid cid = some handle) : Registry s s' where
  sessions := by
    intro sid hsid
    exact Or.inl (hsessions ▸ hsid)
  kept := by
    intro sid hsid
    exact hsessions ▸ hsid
  opened := hopened
  handles := by
    intro sid cid handle hhandle
    exact Or.inl (h sid cid handle hhandle)

theorem Registry.refl (s : Server) : Registry s s :=
  Registry.same rfl (Nat.le_refl _) fun _ _ _ hreg => hreg

theorem sessions_getHandle (s : Store) (sessionID connectionID : Text) (now : Int) :
    (s.getHandle sessionID connectionID now).2.sessions = s.sessions := by
  unfold Store.getHandle
  split
  · rfl
  · split
    · rfl
    · rfl

/-- Looking a handle up changes nothing in the registry. -/
theorem registry_getHandle (s : Server) (sessionID connectionID : Text) (now : Int)
    (transactions : TransactionService) (begins : List Begin) :
    Registry s { s with
      store := (s.store.getHandle sessionID connectionID now).2
      transactions := transactions
      begins := begins } := by
  refine Registry.same (sessions_getHandle s.store sessionID connectionID now) (Nat.le_refl s.opened) ?_
  intro sid cid handle hhandle
  exact (s.store.registered_getHandle sessionID connectionID now sid cid).symm.trans hhandle

/-- A handle opened in a step is the next one. -/
theorem nextHandle_sql {s : Server} {database : Text} {sql : Bool} {db : Nat}
    (h : (s.nextHandle database sql).sql = some db) : db = s.opened ∧ db < s.opened + 1 := by
  unfold nextHandle at h
  split at h
  · cases h
    exact ⟨rfl, Nat.lt_succ_self _⟩
  · cases h

theorem registered_createSession (s : Store) (id sid cid : Text) :
    (s.createSession id).registered sid cid = s.registered sid cid := by
  unfold Store.createSession
  split <;> rfl

theorem registry_createSession (s : Server) (bytes : List UInt8) :
    Registry s (s.step (.createSession bytes)) where
  sessions := by
    intro sid hsid
    have hmem : sid ∈ (s.store.createSession (randomID bytes)).sessions := hsid
    unfold Store.createSession at hmem
    split at hmem
    · exact Or.inl hmem
    · rcases List.mem_cons.1 hmem with rfl | hold
      · exact Or.inr (slash_not_mem_randomID bytes)
      · exact Or.inl hold
  kept := by
    intro sid hsid
    show sid ∈ (s.store.createSession (randomID bytes)).sessions
    unfold Store.createSession
    split
    · exact hsid
    · exact List.mem_cons_of_mem _ hsid
  opened := Nat.le_refl _
  handles := by
    intro sid cid handle hhandle
    exact Or.inl ((registered_createSession s.store _ sid cid).symm.trans hhandle)

theorem registry_openConnection (s : Server) (sessionID : Text) (bytes : List UInt8) (database : Text)
    (sql : Bool) (now : Int) : Registry s (s.openConnection sessionID bytes database sql now) := by
  unfold openConnection
  split
  · next hsession =>
      have hsessions : (s.store.putHandle sessionID (randomID bytes) (s.nextHandle database sql)
          now).sessions = s.store.sessions := by
        unfold Store.putHandle
        split <;> rfl
      refine ⟨?_, ?_, Nat.le_succ _, ?_⟩
      · intro sid hsid
        exact Or.inl (hsessions ▸ hsid)
      · intro sid hsid
        exact hsessions ▸ hsid
      · intro sid cid handle hhandle
        rcases Store.registered_putHandle hhandle with hold | ⟨rfl, rfl, -⟩
        · exact Or.inl hold
        · exact Or.inr ⟨List.contains_iff_mem.1 hsession, fun db hdb => nextHandle_sql hdb⟩
  · exact Registry.refl s

theorem registry_switchDatabase (s : Server) (sessionID connectionID database currentDatabase : Text)
    (opens sql : Bool) (now : Int) :
    Registry s (s.switchDatabase sessionID connectionID database currentDatabase opens sql now) := by
  unfold switchDatabase
  split
  · next hswitches =>
      have hsession : s.store.hasSession sessionID = true := by
        simp [switches] at hswitches
        exact hswitches.1.1.1
      cases hentry : s.store.connections.lookup (sessionID, connectionID) with
      | none =>
        simp only [Store.replaceHandle, hentry, Option.map_none]
        exact Registry.same rfl (Nat.le_succ _) fun _ _ _ hreg => hreg
      | some entry =>
        simp only [Store.replaceHandle, hentry, Option.map_some]
        refine ⟨fun sid hsid => Or.inl hsid, fun sid hsid => hsid, Nat.le_succ _, ?_⟩
        intro sid cid handle hhandle
        rw [Store.registered_put] at hhandle
        split at hhandle
        · next hkey =>
            cases hhandle
            cases hkey
            exact Or.inr ⟨List.contains_iff_mem.1 hsession, fun db hdb => nextHandle_sql hdb⟩
        · exact Or.inl hhandle
  · exact Registry.refl s

theorem registry_deleteConnection (s : Server) (sessionID connectionID : Text) :
    Registry s (s.deleteConnection sessionID connectionID) := by
  unfold deleteConnection
  split
  · refine Registry.same rfl (Nat.le_refl _) ?_
    intro sid cid handle hhandle
    rw [Store.registered_delete] at hhandle
    split at hhandle
    · cases hhandle
    · exact hhandle
  · exact Registry.refl s

theorem registry_closeIdle (s : Server) (now : Int) : Registry s (s.closeIdle now) := by
  refine Registry.same rfl (Nat.le_refl _) ?_
  intro sid cid handle hhandle
  rw [closeIdle, Store.registered_closeIdle] at hhandle
  obtain ⟨entry, hentry, hstays⟩ := Option.bind_eq_some_iff.1 hhandle
  split at hstays
  · cases hstays
  · rw [Store.registered, hentry]
    exact hstays

theorem registry_lookUp (s : Server) (sessionID connectionID : Text) (now : Int) :
    Registry s (s.lookUp sessionID connectionID now) := by
  unfold lookUp
  split
  · cases hdb : (s.store.getHandle sessionID connectionID now).1.bind Handle.sql with
    | none =>
      simp only [hdb]
      exact registry_getHandle s sessionID connectionID now _ _
    | some db =>
      simp only [hdb]
      exact registry_getHandle s sessionID connectionID now _ _
  · exact Registry.refl s

theorem registry_query (s : Server) (sessionID connectionID txID : Text) (now : Int) :
    Registry s (s.query sessionID connectionID txID now) := by
  unfold query
  split
  · by_cases hnone : (s.store.getHandle sessionID connectionID now).1.isNone = true ∨ txID = []
    · simp only [if_pos hnone]
      exact registry_getHandle s sessionID connectionID now _ _
    · simp only [if_neg hnone]
      exact registry_getHandle s sessionID connectionID now _ _
  · exact Registry.refl s

/-- Behind every step the handles are those from before it and the one opened in it. -/
theorem registry_step (s : Server) (e : Event) : Registry s (s.step e) := by
  cases e with
  | createSession bytes => exact registry_createSession s bytes
  | openConnection sessionID bytes database sql now => exact registry_openConnection s _ _ _ _ _
  | useConnection sessionID connectionID now =>
    show Registry s (if _ then _ else _)
    split
    · exact registry_getHandle s sessionID connectionID now _ _
    · exact Registry.refl s
  | switchDatabase sessionID connectionID database currentDatabase opens sql now =>
    exact registry_switchDatabase s _ _ _ _ _ _ _
  | deleteConnection sessionID connectionID => exact registry_deleteConnection s _ _
  | closeIdle now => exact registry_closeIdle s now
  | lookUp sessionID connectionID now => exact registry_lookUp s _ _ _
  -- The events of a transaction leave the store alone.
  | beginTx i ok =>
    show Registry s (s.beginTx i ok)
    unfold beginTx
    repeat' split
    all_goals exact Registry.same rfl (Nat.le_refl _) fun _ _ _ hreg => hreg
  | fileTransaction i bytes now =>
    show Registry s (s.fileTransaction i bytes now)
    unfold fileTransaction
    repeat' split
    all_goals exact Registry.same rfl (Nat.le_refl _) fun _ _ _ hreg => hreg
  | finishTransaction sessionID connectionID txID =>
    show Registry s (s.finishTransaction sessionID connectionID txID)
    unfold finishTransaction
    repeat' split
    all_goals exact Registry.same rfl (Nat.le_refl _) fun _ _ _ hreg => hreg
  | query sessionID connectionID txID now => exact registry_query s _ _ _ _
  | closeIdleTransactions now => exact Registry.same rfl (Nat.le_refl _) fun _ _ _ hreg => hreg

theorem inv_createSession {s : Server} (h : s.Inv) (bytes : List UInt8) :
    (s.step (.createSession bytes)).Inv :=
  h.retire (registry_createSession s bytes)
    (Retired.of_registered (registered_createSession s.store (randomID bytes)))
    (fun _ hdb => hdb) (TransactionService.From.refl _) (fun _ hp => hp)

theorem inv_openConnection {s : Server} (h : s.Inv) (sessionID : Text) (bytes : List UInt8)
    (database : Text) (sql : Bool) (now : Int) :
    (s.openConnection sessionID bytes database sql now).Inv := by
  have hreg := registry_openConnection s sessionID bytes database sql now
  revert hreg
  unfold openConnection
  split
  · intro hreg
    refine h.retire hreg ?_ (fun _ hdb => hdb) (TransactionService.From.refl _) (fun _ hp => hp)
    rintro scope db ⟨sid, cid, handle, hhandle, hscope, hsql⟩
    exact Or.inl ⟨sid, cid, handle, Store.registered_putHandle_of_some hhandle, hscope, hsql⟩
  · intro _
    exact h

/-- The handle of a connection is taken out, and another one may come in. -/
theorem retired_key {s s' : Server} {sessionID connectionID : Text}
    (hidle : s.ScopeIdle (queryScope sessionID connectionID))
    (hother : ∀ sid cid, (sessionID, connectionID) ≠ (sid, cid) →
      s'.store.registered sid cid = s.store.registered sid cid)
    (hgone : ∀ handle db, s.store.registered sessionID connectionID = some handle →
      handle.sql = some db → db ∈ s'.closed) : Retired s s' := by
  rintro scope db ⟨sid, cid, handle, hreg, rfl, hsql⟩
  by_cases hkey : (sessionID, connectionID) = (sid, cid)
  · cases hkey
    exact Or.inr ⟨hgone handle db hreg hsql, hidle⟩
  · exact Or.inl ⟨sid, cid, handle, (hother sid cid hkey).trans hreg, rfl, hsql⟩

theorem inv_switchDatabase {s : Server} (h : s.Inv) {sessionID connectionID database
    currentDatabase : Text} {opens sql : Bool} {now : Int}
    (hidle : s.switches sessionID database currentDatabase opens = true →
      s.ScopeIdle (queryScope sessionID connectionID)) :
    (s.switchDatabase sessionID connectionID database currentDatabase opens sql now).Inv := by
  have hreg := registry_switchDatabase s sessionID connectionID database currentDatabase opens sql now
  revert hreg
  unfold switchDatabase
  split
  · next hswitches =>
      cases hentry : s.store.connections.lookup (sessionID, connectionID) with
      | none =>
        simp only [Store.replaceHandle, hentry, Option.map_none]
        intro hreg
        exact h.retire hreg (Retired.of_registered fun _ _ => rfl)
          (fun _ hdb => List.mem_cons_of_mem _ hdb) (TransactionService.From.refl _) (fun _ hp => hp)
      | some entry =>
        simp only [Store.replaceHandle, hentry, Option.map_some]
        intro hreg
        -- The old handle is retired: no transaction runs on it, and it is among those being closed.
        refine h.retire hreg (retired_key (hidle hswitches) ?_ ?_)
          (fun _ hdb => List.mem_append_right _ hdb) (TransactionService.From.refl _) (fun _ hp => hp)
        · intro sid cid hkey
          rw [Store.registered_put, if_neg hkey]
        · intro handle db hhandle hsql
          exact List.mem_append_left _ (Store.closing_of_registered hentry hhandle hsql)
  · intro _
    exact h

theorem inv_deleteConnection {s : Server} (h : s.Inv) {sessionID connectionID : Text}
    (hidle : s.store.hasSession sessionID = true →
      s.ScopeIdle (queryScope sessionID connectionID)) :
    (s.deleteConnection sessionID connectionID).Inv := by
  have hreg := registry_deleteConnection s sessionID connectionID
  revert hreg
  unfold deleteConnection
  split
  · next hsession =>
      intro hreg
      refine h.retire hreg (retired_key (hidle hsession) ?_ ?_)
        (fun _ hdb => List.mem_append_right _ hdb) (TransactionService.From.refl _) (fun _ hp => hp)
      · intro sid cid hkey
        rw [Store.registered_delete, if_neg hkey]
      · intro handle db hhandle hsql
        -- The handle taken out of the store is closed.
        apply List.mem_append_left
        cases hentry : s.store.connections.lookup (sessionID, connectionID) with
        | none =>
          rw [Store.registered, hentry] at hhandle
          cases hhandle
        | some entry =>
          show db ∈ ((s.store.connections.lookup (sessionID, connectionID)).map Store.closing).getD []
          rw [hentry]
          exact Store.closing_of_registered hentry hhandle hsql
  · intro _
    exact h

theorem inv_closeIdle {s : Server} (h : s.Inv) {now : Int}
    (hidle : ∀ key ∈ s.store.connections.keysWhere fun _ entry => s.store.idleAt now entry,
      s.ScopeIdle (queryScope key.1 key.2)) : (s.closeIdle now).Inv := by
  refine h.retire (registry_closeIdle s now) ?_ (fun _ hdb => List.mem_append_right _ hdb)
    (TransactionService.From.refl _) (fun _ hp => hp)
  rintro scope db ⟨sid, cid, handle, hreg, rfl, hsql⟩
  obtain ⟨entry, hentry, hhandle⟩ := Option.bind_eq_some_iff.1 hreg
  by_cases hat : s.store.idleAt now entry = true
  · -- The entry goes, and its handle is closed with it.
    refine Or.inr ⟨?_, hidle (sid, cid) (Table.mem_keysWhere.2 ⟨entry, hentry, hat⟩)⟩
    apply List.mem_append_left
    apply List.mem_flatMap.2
    refine ⟨⟨(sid, cid), entry⟩, Table.mem_entries.2 hentry, ?_⟩
    rw [if_pos hat]
    exact Store.closing_of_registered hentry hreg hsql
  · refine Or.inl ⟨sid, cid, handle, ?_, rfl, hsql⟩
    show (s.store.closeIdle now).1.registered sid cid = some handle
    rw [Store.registered_closeIdle, hentry]
    show (if s.store.idleAt now entry then none else entry.handle) = some handle
    rw [if_neg hat]
    exact hhandle

theorem inv_lookUp {s : Server} (h : s.Inv) (sessionID connectionID : Text) (now : Int) :
    (s.lookUp sessionID connectionID now).Inv := by
  unfold lookUp
  split
  · have hregistered := s.store.registered_getHandle sessionID connectionID now
    have hfirst := s.store.getHandle_fst sessionID connectionID now
    cases hdb : (s.store.getHandle sessionID connectionID now).1.bind Handle.sql with
    | none =>
      simp only [hdb]
      exact h.retire (registry_getHandle s sessionID connectionID now _ _)
        (Retired.of_registered hregistered) (fun _ hc => hc) (TransactionService.From.refl _)
        (fun _ hp => hp)
    | some db =>
      simp only [hdb]
      -- The request holds the handle that is registered now.
      obtain ⟨handle, hhandle, hsql⟩ := Option.bind_eq_some_iff.1 hdb
      have hold := h.retire (registry_getHandle s sessionID connectionID now s.transactions s.begins)
        (Retired.of_registered hregistered) (fun _ hc => hc) (TransactionService.From.refl _)
        (fun _ hp => hp)
      refine ⟨hold.sessions, hold.owners, hold.fresh, hold.items, ?_⟩
      intro p hp
      rcases List.mem_append.1 hp with hp | hp
      · exact hold.begins p hp
      · rw [List.mem_singleton.1 hp]
        refine Or.inl ⟨sessionID, connectionID, handle, ?_, rfl, hsql⟩
        exact (hregistered sessionID connectionID).trans (hfirst.symm.trans hhandle)
  · exact h

theorem inv_beginTx {s : Server} (h : s.Inv) (i : Nat) (ok : Bool) : (s.beginTx i ok).Inv := by
  unfold beginTx
  split
  · exact h
  · next p hp =>
      have hmem : p ∈ s.begins := List.mem_of_getElem? hp
      split
      · exact h
      · split
        · next hopen =>
            refine ⟨h.sessions, h.owners, h.fresh, h.items, ?_⟩
            intro q hq
            rcases List.mem_or_eq_of_mem_set hq with hold | rfl
            · exact h.begins q hold
            · -- The handle is not closed, so it is the registered one.
              rcases h.begins p hmem with hruns | ⟨-, hclosed⟩
              · exact Or.inl hruns
              · exact absurd hclosed hopen.2
        · refine ⟨h.sessions, h.owners, h.fresh, h.items, ?_⟩
          intro q hq
          exact h.begins q (List.mem_of_mem_eraseIdx hq)

theorem inv_fileTransaction {s : Server} (h : s.Inv) (i : Nat) (bytes : List UInt8) (now : Int) :
    (s.fileTransaction i bytes now).Inv := by
  unfold fileTransaction
  split
  · exact h
  · next p hp =>
      have hmem : p ∈ s.begins := List.mem_of_getElem? hp
      split
      · next hbegun =>
          refine ⟨h.sessions, h.owners, h.fresh, ?_, ?_⟩
          · intro id item hitem
            have hlookup : (s.transactions.items.insert (randomID bytes) ⟨p.scope, ⟨p.db⟩, now⟩).lookup id =
                some item := hitem
            -- The filed transaction runs on the database its begin was for.
            by_cases hkey : id = randomID bytes
            · subst hkey
              rw [AList.lookup_insert] at hlookup
              cases hlookup
              rcases h.begins p hmem with hruns | ⟨hwaits, -⟩
              · exact hruns
              · rw [hbegun] at hwaits
                cases hwaits
            · rw [AList.lookup_insert_ne hkey] at hlookup
              exact h.items id item hlookup
          · intro q hq
            exact h.begins q (List.mem_of_mem_eraseIdx hq)
      · exact h

/-- Only the transactions change, and none is added. -/
theorem Inv.from {s : Server} (h : s.Inv) {transactions : TransactionService}
    (hitems : TransactionService.From s.transactions transactions) :
    ({ s with transactions := transactions } : Server).Inv :=
  h.retire (Registry.same rfl (Nat.le_refl _) fun _ _ _ hreg => hreg)
    (Retired.of_registered fun _ _ => rfl) (fun _ hdb => hdb) hitems (fun _ hp => hp)

theorem inv_finishTransaction {s : Server} (h : s.Inv) (sessionID connectionID txID : Text) :
    (s.finishTransaction sessionID connectionID txID).Inv := by
  unfold finishTransaction
  split
  · cases htake : s.transactions.take (queryScope sessionID connectionID) txID with
    | none => exact h
    | some taken => exact h.from (TransactionService.from_take htake)
  · exact h

theorem inv_query {s : Server} (h : s.Inv) (sessionID connectionID txID : Text) (now : Int) :
    (s.query sessionID connectionID txID now).Inv := by
  have hregistered := s.store.registered_getHandle sessionID connectionID now
  unfold query
  split
  · by_cases hnone : (s.store.getHandle sessionID connectionID now).1.isNone = true ∨ txID = []
    · simp only [if_pos hnone]
      exact h.retire (registry_getHandle s sessionID connectionID now _ _)
        (Retired.of_registered hregistered) (fun _ hc => hc) (TransactionService.From.refl _)
        (fun _ hp => hp)
    · simp only [if_neg hnone]
      exact h.retire (registry_getHandle s sessionID connectionID now _ _)
        (Retired.of_registered hregistered) (fun _ hc => hc) (TransactionService.from_touch _ _ _ _)
        (fun _ hp => hp)
  · exact h

theorem inv_step (s : Server) (e : Event) (hcond : s.RetiresIdle e) (h : s.Inv) : (s.step e).Inv := by
  cases e with
  | createSession bytes => exact inv_createSession h bytes
  | openConnection sessionID bytes database sql now => exact inv_openConnection h _ _ _ _ _
  | useConnection sessionID connectionID now =>
    show (if _ then _ else _ : Server).Inv
    split
    · exact h.retire (registry_getHandle s sessionID connectionID now _ _)
        (Retired.of_registered (s.store.registered_getHandle sessionID connectionID now))
        (fun _ hc => hc) (TransactionService.From.refl _) (fun _ hp => hp)
    · exact h
  | switchDatabase sessionID connectionID database currentDatabase opens sql now =>
    apply inv_switchDatabase h
    intro hswitches
    apply hcond (sessionID, connectionID)
    rw [retires, if_pos hswitches]
    exact List.mem_singleton_self _
  | deleteConnection sessionID connectionID =>
    apply inv_deleteConnection h
    intro hsession
    apply hcond (sessionID, connectionID)
    rw [retires, if_pos hsession]
    exact List.mem_singleton_self _
  | closeIdle now => exact inv_closeIdle h hcond
  | lookUp sessionID connectionID now => exact inv_lookUp h sessionID connectionID now
  | beginTx i ok => exact inv_beginTx h i ok
  | fileTransaction i bytes now => exact inv_fileTransaction h i bytes now
  | finishTransaction sessionID connectionID txID =>
    exact inv_finishTransaction h sessionID connectionID txID
  | query sessionID connectionID txID now => exact inv_query h sessionID connectionID txID now
  | closeIdleTransactions now => exact h.from (TransactionService.from_closeIdle _ now)

/-! ## Runs -/

theorem inv_of_runs {idle txIdle : Int} {s : Server}
    (h : Runs step RetiresIdle (start idle txIdle) s) : s.Inv :=
  Runs.invariant inv_step h (inv_start idle txIdle)

/-- The handle of a connection, if it has one, is not older than `n`. -/
def NoOlder (n : Nat) (sessionID connectionID : Text) (s : Server) : Prop :=
  n ≤ s.opened ∧ ∀ handle db, s.store.registered sessionID connectionID = some handle →
    handle.sql = some db → n ≤ db

/-- A connection never gets an older handle back. -/
theorem noOlder_step {n : Nat} {sessionID connectionID : Text} (s : Server) (e : Event)
    (h : s.NoOlder n sessionID connectionID) : (s.step e).NoOlder n sessionID connectionID := by
  obtain ⟨hopened, hhandle⟩ := h
  have hreg := registry_step s e
  refine ⟨Nat.le_trans hopened hreg.opened, ?_⟩
  intro handle db hregistered hsql
  rcases hreg.handles sessionID connectionID handle hregistered with hold | ⟨-, hnew⟩
  · exact hhandle handle db hold hsql
  · rw [(hnew db hsql).1]
    exact hopened

/-- A connection that has lost its handle has none, or the one that was opened in the same step. -/
theorem noOlder_of_retires {s : Server} {e : Event} {sessionID connectionID : Text}
    (h : (sessionID, connectionID) ∈ s.retires e) :
    (s.step e).NoOlder s.opened sessionID connectionID := by
  refine ⟨(registry_step s e).opened, ?_⟩
  intro handle db hregistered hsql
  cases e with
  | switchDatabase sid cid database currentDatabase opens sql now =>
    rw [retires] at h
    split at h
    · next hswitches =>
        cases List.mem_singleton.1 h
        have hreg : (s.switchDatabase sessionID connectionID database currentDatabase opens sql
          now).store.registered sessionID connectionID = some handle := hregistered
        rw [switchDatabase, if_pos hswitches] at hreg
        -- A switch replaces the handle by the one just opened, which is the newest.
        cases hentry : s.store.connections.lookup (sessionID, connectionID) with
        | none =>
          simp only [Store.replaceHandle, hentry, Option.map_none, Store.registered,
            Option.bind_none] at hreg
          cases hreg
        | some entry =>
          simp only [Store.replaceHandle, hentry, Option.map_some] at hreg
          rw [Store.registered_put, if_pos rfl] at hreg
          cases hreg
          exact Nat.le_of_eq (nextHandle_sql hsql).1.symm
    · cases h
  | deleteConnection sid cid =>
    rw [retires] at h
    split at h
    · next hsession =>
        cases List.mem_singleton.1 h
        have hreg : (s.deleteConnection sessionID connectionID).store.registered sessionID
          connectionID = some handle := hregistered
        rw [deleteConnection, if_pos hsession] at hreg
        have hnone : (s.store.delete sessionID connectionID).1.registered sessionID connectionID =
          some handle := hreg
        -- A deleted entry registers no handle.
        rw [Store.registered_delete, if_pos rfl] at hnone
        cases hnone
    · cases h
  | closeIdle now =>
    have hkey : (sessionID, connectionID) ∈
        s.store.connections.keysWhere fun _ entry => s.store.idleAt now entry := h
    obtain ⟨entry, hentry, hat⟩ := Table.mem_keysWhere.1 hkey
    have hreg : (s.store.closeIdle now).1.registered sessionID connectionID = some handle := hregistered
    rw [Store.registered_closeIdle, hentry] at hreg
    have hnone : (if s.store.idleAt now entry then none else entry.handle) = some handle := hreg
    -- An idle entry is gone, whichever handle it had.
    rw [if_pos hat] at hnone
    cases hnone
  | createSession | openConnection | useConnection | lookUp | beginTx | fileTransaction
  | finishTransaction | query | closeIdleTransactions => cases h

/-- No transaction that is there in `s` answers for the connection. -/
def NoneOf (s t : Server) (sessionID connectionID : Text) : Prop :=
  ∀ txID tx, t.transactions.get (queryScope sessionID connectionID) txID = some tx →
    ∀ id item, s.transactions.items.lookup id = some item → item.tx ≠ tx

/-- In every run in which handles are only taken from connections without a transaction, what `Get`
returns for a connection runs on its registered handle, and behind a step that takes the handle away no
older transaction ever answers for the connection. -/
theorem transactions_stay {idle txIdle : Int} {s : Server}
    (h : Runs step RetiresIdle (start idle txIdle) s) :
    s.Coherent ∧
      ∀ e, s.RetiresIdle e → ∀ sessionID connectionID,
        s.store.hasSession sessionID = true → (sessionID, connectionID) ∈ s.retires e →
          ∀ t, Runs step RetiresIdle (s.step e) t → s.NoneOf t sessionID connectionID := by
  have hinv := inv_of_runs h
  refine ⟨hinv.coherent, ?_⟩
  intro e he sessionID connectionID hsession hretires t hruns txID tx hget id item hitem htx
  have htail : Runs step RetiresIdle (start idle txIdle) t := (h.tail he).trans hruns
  have hold : sessionID ∈ t.store.sessions := by
    refine Runs.invariant (P := fun u : Server => sessionID ∈ u.store.sessions)
      (fun u e' _ hmem => (registry_step u e').kept sessionID hmem) hruns ?_
    exact (registry_step s e).kept sessionID (List.contains_iff_mem.1 hsession)
  have hlate : t.NoOlder s.opened sessionID connectionID :=
    Runs.invariant (fun u e' _ => noOlder_step u e') hruns (noOlder_of_retires hretires)
  -- The transaction runs on a handle that is registered now, so it was opened in that step or later.
  obtain ⟨handle, hregistered, hsql⟩ :=
    (inv_of_runs htail).coherent sessionID connectionID txID tx (List.contains_iff_mem.2 hold) hget
  have hnew : s.opened ≤ tx.db := hlate.2 handle tx.db hregistered hsql
  have hearly : item.tx.db < s.opened := hinv.fresh _ _ (hinv.items id item hitem)
  rw [htx] at hearly
  omega

/-- A transaction that is finished before the switch, and another one behind it. -/
def finishThenSwitch : List Event :=
  [.createSession [1], .openConnection (randomID [1]) [2] "a".toList true 0,
    .lookUp (randomID [1]) (randomID [2]) 1, .beginTx 0 true, .fileTransaction 0 [3] 2,
    .finishTransaction (randomID [1]) (randomID [2]) (randomID [3]),
    .switchDatabase (randomID [1]) (randomID [2]) "b".toList "a".toList true true 3,
    .lookUp (randomID [1]) (randomID [2]) 4, .beginTx 0 true, .fileTransaction 0 [4] 5]

theorem finishThenSwitch_stays :
    (finishThenSwitch.foldl step (start 30 30)).Coherent ∧
      (finishThenSwitch.foldl step (start 30 30)).transactions.get
        (queryScope (randomID [1]) (randomID [2])) (randomID [4]) = some ⟨1⟩ :=
  ⟨(transactions_stay (Runs.of_meets finishThenSwitch (by decide +kernel))).1, by decide +kernel⟩

/-- A session, a connection with a transaction, and the switch to another database. -/
def switchUnderTransaction : List Event :=
  [.createSession [1], .openConnection (randomID [1]) [2] "a".toList true 0,
    .lookUp (randomID [1]) (randomID [2]) 1, .beginTx 0 true, .fileTransaction 0 [3] 2,
    .switchDatabase (randomID [1]) (randomID [2]) "b".toList "a".toList true true 3]

/-- The transaction that is returned afterwards runs on the handle that was closed. -/
theorem switchUnderTransaction_incoherent :
    ¬(switchUnderTransaction.foldl step (start 30 30)).Coherent := by
  intro hcoherent
  obtain ⟨handle, hregistered, hsql⟩ := hcoherent (randomID [1]) (randomID [2]) (randomID [3]) ⟨0⟩
    (by decide +kernel) (by decide +kernel)
  have hhandle : (switchUnderTransaction.foldl step (start 30 30)).store.registered (randomID [1])
      (randomID [2]) = some ⟨"b".toList, some 1⟩ := by decide +kernel
  rw [hhandle] at hregistered
  cases hregistered
  cases hsql

end Server

end Workbench.Session
