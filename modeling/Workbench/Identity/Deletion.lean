import Workbench.Identity.Effects

/-!
# Deleting a user, row by row

What each statement of `DeleteUser` does to the rows of each table, and the whole of it: where the guards
pass no foreign key stands in the way, and every row is gone, reassigned or as it was.
-/

set_option autoImplicit false

namespace Workbench.Identity

open Workbench.Lib

/-- What becomes of each row, by its table and its key. -/
structure RowChanges where
  users : Text → UserRow → Option UserRow
  teams : Text → TeamRow → Option TeamRow
  members : Text × Text → Role → Option Role
  connections : Text → ConnectionRow → Option ConnectionRow
  logSessions : Text → LogSessionRow → Option LogSessionRow
  auditEvents : Nat → AuditRow → Option AuditRow

namespace RowChanges

/-- Every row stays. -/
def none : RowChanges :=
  ⟨fun _ r => some r, fun _ r => some r, fun _ r => some r, fun _ r => some r, fun _ r => some r,
    fun _ r => some r⟩

/-- One change behind another. -/
def andThen (f g : RowChanges) : RowChanges where
  users k r := (f.users k r).bind (g.users k)
  teams k r := (f.teams k r).bind (g.teams k)
  members k r := (f.members k r).bind (g.members k)
  connections k r := (f.connections k r).bind (g.connections k)
  logSessions k r := (f.logSessions k r).bind (g.logSessions k)
  auditEvents k r := (f.auditEvents k r).bind (g.auditEvents k)

end RowChanges

/-- Each row of the new state is what became of one of the old state. -/
structure Db.Changed (f : RowChanges) (a b : Db) : Prop where
  users : ∀ k, b.users.lookup k = (a.users.lookup k).bind (f.users k)
  teams : ∀ k, b.teams.lookup k = (a.teams.lookup k).bind (f.teams k)
  members : ∀ k, b.members.lookup k = (a.members.lookup k).bind (f.members k)
  connections : ∀ k, b.connections.lookup k = (a.connections.lookup k).bind (f.connections k)
  logSessions : ∀ k, b.logSessions.lookup k = (a.logSessions.lookup k).bind (f.logSessions k)
  auditEvents : ∀ k, b.auditEvents.lookup k = (a.auditEvents.lookup k).bind (f.auditEvents k)

theorem Db.Changed.refl (db : Db) : db.Changed RowChanges.none db := by
  constructor <;> intro k <;> exact (Option.bind_fun_some _).symm

theorem Db.Changed.trans {f g : RowChanges} {a b c : Db} (h : a.Changed f b) (h' : b.Changed g c) :
    a.Changed (f.andThen g) c := by
  constructor
  · exact fun k => by rw [h'.users, h.users, Option.bind_assoc]; rfl
  · exact fun k => by rw [h'.teams, h.teams, Option.bind_assoc]; rfl
  · exact fun k => by rw [h'.members, h.members, Option.bind_assoc]; rfl
  · exact fun k => by rw [h'.connections, h.connections, Option.bind_assoc]; rfl
  · exact fun k => by rw [h'.logSessions, h.logSessions, Option.bind_assoc]; rfl
  · exact fun k => by rw [h'.auditEvents, h.auditEvents, Option.bind_assoc]; rfl

/-! ## Single statements -/

section

variable {db db' : Db}

theorem exec_alterOthers_iff {rows : Db → List Key} {answer : List Key → Db → Except Err Unit}
    {connection : ConnectionRow → Option ConnectionRow}
    {logSession : LogSessionRow → Option LogSessionRow} {auditEvent : AuditRow → Option AuditRow} :
    (Tx.perform (alterOthers rows answer connection logSession auditEvent)).exec db = .ok ((), db') ↔
      answer (rows db) db = .ok () ∧
        db' = { db with
          connections := db.connections.alter (fun id => .connection id ∈ rows db) connection
          logSessions := db.logSessions.alter (fun id => .logSession id ∈ rows db) logSession
          auditEvents := db.auditEvents.alter (fun id => .auditEvent id ∈ rows db) auditEvent } :=
  Tx.exec_perform_ok

/-- The rows that a condition picks are changed. -/
theorem lookup_alter_keysWhere {K V : Type} [DecidableEq K] {t : Table K V} {p : V → Bool} {c : K → Key}
    (hc : Function.Injective c) (f : V → Option V) (k : K) :
    (t.alter (fun id => c id ∈ (t.keysWhere fun _ r => p r).map c) f).lookup k =
      (t.lookup k).bind fun r => if p r then f r else some r := by
  have hmem : c k ∈ (t.keysWhere fun _ r => p r).map c ↔ ∃ r, t.lookup k = some r ∧ p r = true := by
    rw [List.mem_map_of_injective hc, Table.mem_keysWhere]
  rw [Table.lookup_alter]
  simp only [decide_eq_true_eq, hmem]
  cases t.lookup k with
  | none => simp
  | some r => by_cases hp : p r = true <;> simp [hp]

/-- A key of another table picks no row. -/
theorem lookup_alter_other {K V A : Type} [DecidableEq K] {t : Table K V} {keys : List A} {c : K → Key}
    {c' : A → Key} (hc : ∀ a k, c' a ≠ c k) (f : V → Option V) (k : K) :
    (t.alter (fun id => c id ∈ keys.map c') f).lookup k = (t.lookup k).bind some := by
  rw [Option.bind_fun_some]
  refine Table.lookup_alter_of_not ?_
  rw [decide_eq_false_iff_not, List.mem_map]
  rintro ⟨a, -, heq⟩
  exact hc a k heq

/-- A statement on the connections that a condition picks. -/
theorem exec_alterConnections (answer : List Key → Db → Except Err Unit)
    {p : ConnectionRow → Bool} {f : ConnectionRow → Option ConnectionRow}
    (h : answer ((db.connections.keysWhere fun _ c => p c).map .connection) db = .ok ()) :
    ∃ db', (Tx.perform (alterOthers
        (fun db => (db.connections.keysWhere fun _ c => p c).map .connection) answer f some some)).exec
          db = .ok ((), db') ∧
      db.Changed { RowChanges.none with connections := fun _ c => if p c then f c else some c } db' := by
  exact ⟨_, exec_alterOthers_iff.2 ⟨h, rfl⟩, { Db.Changed.refl db with
    connections := lookup_alter_keysWhere (fun _ _ => Key.connection.inj) f
    logSessions := lookup_alter_other (fun _ _ => by simp) some
    auditEvents := lookup_alter_other (fun _ _ => by simp) some }⟩

theorem exec_alterLogSessions (answer : List Key → Db → Except Err Unit)
    {p : LogSessionRow → Bool} {f : LogSessionRow → Option LogSessionRow}
    (h : answer ((db.logSessions.keysWhere fun _ l => p l).map .logSession) db = .ok ()) :
    ∃ db', (Tx.perform (alterOthers
        (fun db => (db.logSessions.keysWhere fun _ l => p l).map .logSession) answer some f some)).exec
          db = .ok ((), db') ∧
      db.Changed { RowChanges.none with logSessions := fun _ l => if p l then f l else some l } db' := by
  exact ⟨_, exec_alterOthers_iff.2 ⟨h, rfl⟩, { Db.Changed.refl db with
    connections := lookup_alter_other (fun _ _ => by simp) some
    logSessions := lookup_alter_keysWhere (fun _ _ => Key.logSession.inj) f
    auditEvents := lookup_alter_other (fun _ _ => by simp) some }⟩

theorem exec_alterAuditEvents (answer : List Key → Db → Except Err Unit)
    {p : AuditRow → Bool} {f : AuditRow → Option AuditRow}
    (h : answer ((db.auditEvents.keysWhere fun _ a => p a).map .auditEvent) db = .ok ()) :
    ∃ db', (Tx.perform (alterOthers
        (fun db => (db.auditEvents.keysWhere fun _ a => p a).map .auditEvent) answer some some f)).exec
          db = .ok ((), db') ∧
      db.Changed { RowChanges.none with auditEvents := fun _ a => if p a then f a else some a } db' := by
  exact ⟨_, exec_alterOthers_iff.2 ⟨h, rfl⟩, { Db.Changed.refl db with
    connections := lookup_alter_other (fun _ _ => by simp) some
    logSessions := lookup_alter_other (fun _ _ => by simp) some
    auditEvents := lookup_alter_keysWhere (fun _ _ => Key.auditEvent.inj) f }⟩

theorem exec_alterTeamsOf (answer : List Key → Db → Except Err Unit) {p : TeamRow → Bool}
    {f : TeamRow → Option TeamRow}
    (h : answer ((db.teams.keysWhere fun _ t => p t).map .team) db = .ok ()) :
    ∃ db', (Tx.perform (alterTeams
        (fun db => (db.teams.keysWhere fun _ t => p t).map .team) [] answer f)).exec db = .ok ((), db') ∧
      db.Changed { RowChanges.none with teams := fun _ t => if p t then f t else some t } db' := by
  exact ⟨_, exec_alterTeams.2 ⟨h, rfl⟩, { Db.Changed.refl db with
    teams := lookup_alter_keysWhere (fun _ _ => Key.team.inj) f }⟩

theorem exec_cascadeUserMembers (userID : Text) (db : Db) :
    ∃ db', (Tx.perform (cascadeUserMembers userID)).exec db = .ok ((), db') ∧
      db.Changed { RowChanges.none with
        members := fun k r => if k.2 = userID then Option.none else some r } db' := by
  have hexec : ∃ db', (Tx.perform (cascadeUserMembers userID)).exec db = .ok ((), db') :=
    ⟨_, exec_alterMembers.2 rfl⟩
  obtain ⟨db', hexec⟩ := hexec
  have hmembers : ∀ k, db'.members.lookup k =
      (db.members.lookup k).bind fun r => if k.2 = userID then Option.none else some r := by
    rintro ⟨t, u⟩
    rw [lookup_removeMembers hexec]
    cases db.members.lookup (t, u) with
    | none => rfl
    | some r => by_cases hu : u = userID <;> simp [Option.filter, hu]
  obtain rfl := exec_alterMembers.1 hexec
  exact ⟨_, hexec, { Db.Changed.refl db with members := hmembers }⟩

theorem exec_deleteUserRow {userID : Text} (h : (db.users.lookup userID).isSome) :
    ∃ db', (Tx.perform (deleteUserRow userID)).exec db = .ok (1, db') ∧
      db.Changed { RowChanges.none with
        users := fun k u => if k = userID then Option.none else some u } db' := by
  obtain ⟨u, hu⟩ := Option.isSome_iff_exists.1 h
  have hexec : ∃ db', (Tx.perform (deleteUserRow userID)).exec db = .ok (1, db') := by
    refine ⟨_, exec_alterUsers.2 ⟨?_, rfl⟩⟩
    rw [hu]
    simp
  obtain ⟨db', hexec⟩ := hexec
  obtain ⟨husers, hteams, hmembers⟩ := deleteUserRow_ok hexec
  obtain ⟨-, rfl⟩ := exec_alterUsers.1 hexec
  refine ⟨_, hexec, { Db.Changed.refl db with users := fun k => ?_ }⟩
  rw [husers]
  by_cases hk : k = userID
  · rw [if_pos hk, hk, hu]
    simp
  · rw [if_neg hk]
    simp [hk]

theorem exec_restrictUser_none {constraint : Text} {refers : Db → Bool} (h : refers db = false) :
    (Tx.perform (restrictUser constraint refers)).exec db = .ok ((), db) := by
  rw [restrictUser, exec_select, h]
  exact ⟨rfl, rfl⟩

end

theorem reassigned_ok {actorID : Text} (constraint : Text) {found : List Key} {view : Db}
    (h : (view.users.lookup actorID).isSome) : reassigned constraint actorID found view = .ok () := by
  rw [reassigned, if_neg]
  rintro ⟨-, hnone⟩
  rw [hnone] at h
  cases h

/-! ## References to the user -/

/-- A reference to the user becomes one to the actor. -/
def reassign (userID actorID id : Text) : Text := if id = userID then actorID else id

theorem reassign_ne {userID actorID : Text} (h : userID ≠ actorID) (id : Text) :
    reassign userID actorID id ≠ userID := by
  rw [reassign]
  split
  · exact h.symm
  · next hne => exact hne

/-- The references to a user that no cascade takes away are gone. -/
structure Db.Unreferenced (userID : Text) (db : Db) : Prop where
  teams : ∀ k t, db.teams.lookup k = some t → t.createdBy ≠ userID
  created : ∀ k c, db.connections.lookup k = some c → c.createdBy ≠ userID
  updated : ∀ k c, db.connections.lookup k = some c → c.updatedBy ≠ userID
  logSessions : ∀ k l, db.logSessions.lookup k = some l → l.createdBy ≠ userID
  auditEvents : ∀ k a, db.auditEvents.lookup k = some a → a.actorUserID ≠ some userID

/-- The part of a deletion in front of the `DELETE`. -/
def reassignment (userID actorID : Text) : RowChanges where
  users _ u := some u
  teams _ t := some { t with createdBy := reassign userID actorID t.createdBy }
  members _ r := some r
  connections _ c := some { c with
    createdBy := reassign userID actorID c.createdBy
    updatedBy := reassign userID actorID c.updatedBy }
  logSessions _ l := some { l with createdBy := reassign userID actorID l.createdBy }
  auditEvents _ a := some (if a.actorUserID = some userID then ⟨none⟩ else a)

/-- The `DELETE` with its cascades. -/
def cascade (userID : Text) : RowChanges where
  users k u := if k = userID then none else some u
  teams _ t := some t
  members k r := if k.2 = userID then none else some r
  connections _ c := if c.ownerUserID = some userID then none else some c
  logSessions _ l := if l.ownerUserID = some userID then none else some l
  auditEvents _ a := some a

/-- What becomes of each row when a user is deleted. -/
def deletion (userID actorID : Text) : RowChanges :=
  (reassignment userID actorID).andThen (cascade userID)

theorem Db.Changed.unreferenced {userID actorID : Text} {a b : Db} (hne : userID ≠ actorID)
    (h : a.Changed (reassignment userID actorID) b) : b.Unreferenced userID := by
  constructor
  · intro k t ht
    rw [h.teams, Option.bind_eq_some_iff] at ht
    obtain ⟨t', -, heq⟩ := ht
    cases heq
    exact reassign_ne hne _
  · intro k c hc
    rw [h.connections, Option.bind_eq_some_iff] at hc
    obtain ⟨c', -, heq⟩ := hc
    cases heq
    exact reassign_ne hne _
  · intro k c hc
    rw [h.connections, Option.bind_eq_some_iff] at hc
    obtain ⟨c', -, heq⟩ := hc
    cases heq
    exact reassign_ne hne _
  · intro k l hl
    rw [h.logSessions, Option.bind_eq_some_iff] at hl
    obtain ⟨l', -, heq⟩ := hl
    cases heq
    exact reassign_ne hne _
  · intro k e he
    rw [h.auditEvents, Option.bind_eq_some_iff] at he
    obtain ⟨e', -, heq⟩ := he
    cases heq
    split
    · intro hsome
      cases hsome
    · next hother => exact hother

/-- A change that leaves each row as it is or takes it away. -/
structure RowChanges.Removes (f : RowChanges) : Prop where
  teams : ∀ k t t', f.teams k t = some t' → t' = t
  connections : ∀ k c c', f.connections k c = some c' → c' = c
  logSessions : ∀ k l l', f.logSessions k l = some l' → l' = l
  auditEvents : ∀ k a a', f.auditEvents k a = some a' → a' = a

theorem Db.Unreferenced.changed {userID : Text} {f : RowChanges} {a b : Db}
    (ha : a.Unreferenced userID) (h : a.Changed f b) (hf : f.Removes) : b.Unreferenced userID := by
  constructor
  · intro k t ht
    rw [h.teams, Option.bind_eq_some_iff] at ht
    obtain ⟨t', ht', heq⟩ := ht
    obtain rfl := hf.teams _ _ _ heq
    exact ha.teams k t ht'
  · intro k c hc
    rw [h.connections, Option.bind_eq_some_iff] at hc
    obtain ⟨c', hc', heq⟩ := hc
    obtain rfl := hf.connections _ _ _ heq
    exact ha.created k c hc'
  · intro k c hc
    rw [h.connections, Option.bind_eq_some_iff] at hc
    obtain ⟨c', hc', heq⟩ := hc
    obtain rfl := hf.connections _ _ _ heq
    exact ha.updated k c hc'
  · intro k l hl
    rw [h.logSessions, Option.bind_eq_some_iff] at hl
    obtain ⟨l', hl', heq⟩ := hl
    obtain rfl := hf.logSessions _ _ _ heq
    exact ha.logSessions k l hl'
  · intro k e he
    rw [h.auditEvents, Option.bind_eq_some_iff] at he
    obtain ⟨e', he', heq⟩ := he
    obtain rfl := hf.auditEvents _ _ _ heq
    exact ha.auditEvents k e he'

theorem RowChanges.removes_none : RowChanges.none.Removes :=
  ⟨fun _ _ _ h => (Option.some.inj h).symm, fun _ _ _ h => (Option.some.inj h).symm,
    fun _ _ _ h => (Option.some.inj h).symm, fun _ _ _ h => (Option.some.inj h).symm⟩

/-- What a filter keeps is as it was. -/
theorem eq_of_filtered {V : Type} {p : Prop} [Decidable p] {v v' : V}
    (h : (if p then none else some v) = some v') : v' = v := by
  split at h
  · cases h
  · exact (Option.some.inj h).symm

section

variable {db db' : Db} {userID actorID : Text}

theorem Db.Changed.congr {f g : RowChanges} {a b : Db} (h : a.Changed f b) (hfg : f = g) :
    a.Changed g b := hfg ▸ h

theorem restrict_none {K V : Type} [DecidableEq K] {t : Table K V} {p : V → Bool}
    (h : ∀ k v, t.lookup k = some v → p v = false) : t.any (fun _ v => p v) = false := by
  rw [Bool.eq_false_iff, ne_eq, Table.any_iff]
  rintro ⟨k, v, hv, hp⟩
  rw [h k v hv] at hp
  cases hp

/-! ## The statements of the function, in their order -/

/-- The five statements in front of the `DELETE`. -/
theorem exec_reassignments (userID : Text) (hactor : (db.users.lookup actorID).isSome) :
    ∃ db₁ db₂ db₃ db₄ db₅,
      (Tx.perform (reassignConnectionsCreated userID actorID)).exec db = .ok ((), db₁) ∧
      (Tx.perform (reassignConnectionsUpdated userID actorID)).exec db₁ = .ok ((), db₂) ∧
      (Tx.perform (reassignLogSessions userID actorID)).exec db₂ = .ok ((), db₃) ∧
      (Tx.perform (reassignTeams userID actorID)).exec db₃ = .ok ((), db₄) ∧
      (Tx.perform (clearAuditActor userID)).exec db₄ = .ok ((), db₅) ∧
      db.Changed (reassignment userID actorID) db₅ := by
  -- No reassignment removes a user, so the new owner is still there for the next one.
  have hkeeps : ∀ {f : RowChanges} {mid : Db}, db.Changed f mid → f.users = RowChanges.none.users →
      (mid.users.lookup actorID).isSome := by
    intro f mid h hf
    rw [h.users, hf]
    exact (congrArg Option.isSome (Option.bind_fun_some _)).trans hactor
  obtain ⟨db₁, e₁, c₁⟩ := exec_alterConnections
    (reassigned "connections_created_by_fkey".toList actorID) (p := fun c => c.createdBy = userID)
    (f := fun c => some { c with createdBy := actorID })
    (reassigned_ok _ hactor)
  obtain ⟨db₂, e₂, c₂⟩ := exec_alterConnections
    (reassigned "connections_updated_by_fkey".toList actorID) (p := fun c => c.updatedBy = userID)
    (f := fun c => some { c with updatedBy := actorID })
    (reassigned_ok _ (hkeeps c₁ rfl))
  have c₁₂ := c₁.trans c₂
  obtain ⟨db₃, e₃, c₃⟩ := exec_alterLogSessions
    (reassigned "log_sessions_created_by_fkey".toList actorID) (p := fun l => l.createdBy = userID)
    (f := fun l => some { l with createdBy := actorID })
    (reassigned_ok _ (hkeeps c₁₂ rfl))
  have c₁₃ := c₁₂.trans c₃
  obtain ⟨db₄, e₄, c₄⟩ := exec_alterTeamsOf
    (reassigned "teams_created_by_fkey".toList actorID) (p := fun t => t.createdBy = userID)
    (f := fun t => some { t with createdBy := actorID })
    (reassigned_ok _ (hkeeps c₁₃ rfl))
  have c₁₄ := c₁₃.trans c₄
  obtain ⟨db₅, e₅, c₅⟩ : ∃ db₅, (Tx.perform (clearAuditActor userID)).exec db₄ = .ok ((), db₅) ∧
      db₄.Changed _ db₅ := exec_alterAuditEvents (fun _ _ => .ok ()) rfl
  refine ⟨db₁, db₂, db₃, db₄, db₅, e₁, e₂, e₃, e₄, e₅, (c₁₄.trans c₅).congr ?_⟩
  -- The five changes one after the other are the one change, table by table.
  rw [reassignment, RowChanges.mk.injEq]
  refine ⟨rfl, ?_, rfl, ?_, ?_, ?_⟩
  · funext k t
    by_cases h : t.createdBy = userID <;> simp [RowChanges.andThen, RowChanges.none, reassign, h]
  · funext k c
    by_cases h : c.createdBy = userID <;> by_cases h' : c.updatedBy = userID <;>
      simp [RowChanges.andThen, RowChanges.none, reassign, h, h']
  · funext k l
    by_cases h : l.createdBy = userID <;> simp [RowChanges.andThen, RowChanges.none, reassign, h]
  · funext k a
    by_cases h : a.actorUserID = some userID <;> simp [RowChanges.andThen, RowChanges.none, h]

/-- The `DELETE` of a user to whom nothing refers that no cascade takes away. -/
theorem exec_deleteUserCascade (huser : (db.users.lookup userID).isSome)
    (hfree : db.Unreferenced userID) :
    ∃ db', (deleteUserCascade userID).exec db = .ok (1, db') ∧ db.Changed (cascade userID) db' := by
  have kept := RowChanges.removes_none
  obtain ⟨db₁, e₁, c₁⟩ := exec_deleteUserRow huser
  have f₁ := hfree.changed c₁ ⟨kept.teams, kept.connections, kept.logSessions, kept.auditEvents⟩
  obtain ⟨db₂, e₂, c₂⟩ := exec_cascadeUserMembers userID db₁
  have f₂ := f₁.changed c₂ ⟨kept.teams, kept.connections, kept.logSessions, kept.auditEvents⟩
  obtain ⟨db₃, e₃, c₃⟩ : ∃ db₃, (Tx.perform (cascadeUserConnections userID)).exec db₂ =
      .ok ((), db₃) ∧ db₂.Changed _ db₃ := exec_alterConnections (fun _ _ => .ok ()) rfl
  have f₃ := f₂.changed c₃
    ⟨kept.teams, fun _ _ _ => eq_of_filtered, kept.logSessions, kept.auditEvents⟩
  obtain ⟨db₄, e₄, c₄⟩ : ∃ db₄, (Tx.perform (cascadeUserLogSessions userID)).exec db₃ =
      .ok ((), db₄) ∧ db₃.Changed _ db₄ := exec_alterLogSessions (fun _ _ => .ok ()) rfl
  have f₄ := f₃.changed c₄
    ⟨kept.teams, kept.connections, fun _ _ _ => eq_of_filtered, kept.auditEvents⟩
  refine ⟨db₄, ?_, (((c₁.trans c₂).trans c₃).trans c₄).congr ?_⟩
  · rw [deleteUserCascade]
    refine Tx.exec_bind_ok.2 ⟨1, db₁, e₁, ?_⟩
    -- Nothing refers to the user any more, so no restriction stops the delete.
    refine Tx.exec_bind_ok.2 ⟨(), db₁, exec_restrictUser_none
      (restrict_none fun k t h => decide_eq_false (f₁.teams k t h)), ?_⟩
    refine Tx.exec_bind_ok.2 ⟨(), db₂, e₂, Tx.exec_bind_ok.2 ⟨(), db₃, e₃, ?_⟩⟩
    refine Tx.exec_bind_ok.2 ⟨(), db₃, exec_restrictUser_none
      (restrict_none fun k c h => decide_eq_false (f₃.created k c h)), ?_⟩
    refine Tx.exec_bind_ok.2 ⟨(), db₃, exec_restrictUser_none
      (restrict_none fun k c h => decide_eq_false (f₃.updated k c h)), ?_⟩
    refine Tx.exec_bind_ok.2 ⟨(), db₃, exec_restrictUser_none
      (restrict_none fun k a h => decide_eq_false (f₃.auditEvents k a h)), ?_⟩
    refine Tx.exec_bind_ok.2 ⟨(), db₄, e₄, ?_⟩
    refine Tx.exec_bind_ok.2 ⟨(), db₄, exec_restrictUser_none
      (restrict_none fun k l h => decide_eq_false (f₄.logSessions k l h)), ?_⟩
    exact Tx.exec_pure_ok.2 ⟨rfl, rfl⟩
  · -- The four changes together remove the user's rows and no others.
    rw [cascade, RowChanges.mk.injEq]
    refine ⟨?_, rfl, ?_, ?_, ?_, rfl⟩
    · funext k u
      by_cases h : k = userID <;> simp [RowChanges.andThen, RowChanges.none, h]
    · funext k r
      by_cases h : k.2 = userID <;> simp [RowChanges.andThen, RowChanges.none, h]
    · funext k c
      by_cases h : c.ownerUserID = some userID <;> simp [RowChanges.andThen, RowChanges.none, h]
    · funext k l
      by_cases h : l.ownerUserID = some userID <;> simp [RowChanges.andThen, RowChanges.none, h]

/-! ## The whole function -/

/-- What `DeleteUser` asks for. -/
structure Db.MayDelete (actorID userID : Text) (db : Db) : Prop where
  actor : db.IsActiveAdmin actorID
  exists_ : (db.users.lookup userID).isSome
  other : userID ≠ actorID
  systemAdmin : ∀ u, db.users.lookup userID = some u → u.systemRole = .admin →
    ∃ w, w ≠ userID ∧ db.IsActiveAdmin w
  teamAdmin : ∀ t, db.IsTeamAdmin t userID → db.OtherTeamAdmin t userID

/-- Behind its guards `DeleteUser` meets no foreign key. -/
theorem exec_deleteUser {actor : Principal} (h : db.MayDelete actor.user.id userID) :
    ∃ db', (deleteUser actor userID).exec db = .ok ((), db') ∧
      db.Changed (deletion userID actor.user.id) db' := by
  obtain ⟨current, hcurrent⟩ := Option.isSome_iff_exists.1 h.exists_
  obtain ⟨a, hactor, -⟩ := h.actor
  obtain ⟨db₁, db₂, db₃, db₄, db₅, e₁, e₂, e₃, e₄, e₅, hreassign⟩ :=
    exec_reassignments userID (Option.isSome_of_eq_some hactor)
  have huser : (db₅.users.lookup userID).isSome := by
    rw [hreassign.users, hcurrent]
    rfl
  obtain ⟨db₆, e₆, hcascade⟩ := exec_deleteUserCascade huser (hreassign.unreferenced h.other)
  refine ⟨db₆, ?_, hreassign.trans hcascade⟩
  rw [deleteUser]
  refine Tx.exec_bind_ok.2 ⟨(), db, exec_authorizeSystemAdmin.2 ⟨h.actor, rfl⟩, ?_⟩
  refine Tx.exec_bind_ok.2 ⟨some current, db, exec_lockUser.2 ⟨hcurrent.symm, rfl⟩, ?_⟩
  refine Tx.exec_bind_ok.2 ⟨(), db, exec_failIf.2 ⟨h.other, rfl⟩, ?_⟩
  refine Tx.exec_bind_ok.2 ⟨(), db, (exec_runIf fun _ => exec_ensureAnotherActiveSystemAdmin).2
    ⟨h.systemAdmin current hcurrent, rfl⟩, ?_⟩
  obtain ⟨teamIDs, hteams⟩ : ∃ teamIDs, (Tx.perform (adminTeams userID)).exec db =
      .ok (teamIDs, db) := ⟨_, exec_selectForUpdate.2 ⟨rfl, rfl⟩⟩
  have hmem := (exec_adminTeams hteams).1
  refine Tx.exec_bind_ok.2 ⟨teamIDs, db, hteams, ?_⟩
  refine Tx.exec_bind_ok.2 ⟨(), db, (Tx.exec_forM_guards
    (P := fun t db => db.OtherTeamAdmin t userID) (fun _ _ _ => exec_ensureAnotherTeamAdmin) _ _ _).2
      ⟨fun t ht => h.teamAdmin t ((hmem t).1 ht), rfl⟩, ?_⟩
  refine Tx.exec_bind_ok.2 ⟨(), db₁, e₁, Tx.exec_bind_ok.2 ⟨(), db₂, e₂, ?_⟩⟩
  refine Tx.exec_bind_ok.2 ⟨(), db₃, e₃, Tx.exec_bind_ok.2 ⟨(), db₄, e₄, ?_⟩⟩
  refine Tx.exec_bind_ok.2 ⟨(), db₅, e₅, Tx.exec_bind_ok.2 ⟨1, db₆, e₆, ?_⟩⟩
  exact exec_failIf.2 ⟨Nat.one_ne_zero, rfl⟩

/-- These guards are all that `DeleteUser` can fail on. -/
theorem mayDelete_iff {actor : Principal} :
    (∃ db', (deleteUser actor userID).exec db = .ok ((), db')) ↔ db.MayDelete actor.user.id userID := by
  constructor
  · rintro ⟨db', hexec⟩
    obtain ⟨hactor, hother, hteams, -⟩ := deleteUser_ok hexec
    rw [deleteUser, Tx.exec_bind_ok] at hexec
    obtain ⟨⟨⟩, mid, hauth, hexec⟩ := hexec
    obtain ⟨-, rfl⟩ := exec_authorizeSystemAdmin.1 hauth
    rw [Tx.exec_bind_ok] at hexec
    obtain ⟨found, mid', hlock, hexec⟩ := hexec
    obtain ⟨rfl, rfl⟩ := exec_lockUser.1 hlock
    cases hu : mid'.users.lookup userID with
    | none =>
      rw [hu] at hexec
      exact absurd hexec (by simp [exec_fail])
    | some current =>
      rw [hu, Tx.exec_bind_ok] at hexec
      obtain ⟨⟨⟩, db₁, hself, hexec⟩ := hexec
      obtain ⟨-, rfl⟩ := exec_failIf.1 hself
      rw [Tx.exec_bind_ok] at hexec
      obtain ⟨⟨⟩, db₂, hlast, -⟩ := hexec
      obtain ⟨hadmin, -⟩ := (exec_runIf fun _ => exec_ensureAnotherActiveSystemAdmin).1 hlast
      refine ⟨hactor, Option.isSome_of_eq_some hu, hother, ?_, hteams⟩
      intro u hlookup hrole
      obtain rfl := Option.some.inj (hu.symm.trans hlookup)
      exact hadmin hrole
  · intro hmay
    obtain ⟨db', hexec, -⟩ := exec_deleteUser hmay
    exact ⟨db', hexec⟩

end

end Workbench.Identity
