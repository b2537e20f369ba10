import Workbench.Identity.Outlines

/-!
# The last system administrator

`UpdateUser`, `DeleteUser` and `CreateUser` as transactions of a system. Each of them locks its actor, an
enabled administrator, and keeps him so to its commit, unless he takes the rights from himself: the guard
of that update reads the users without a lock.
-/

set_option autoImplicit false

namespace Workbench.Identity

open Workbench.Lib

inductive UserCall where
  | update (salt : Text) (actor : Principal) (userID : Text) (fields : UserUpdate)
  | delete (actor : Principal) (userID : Text)
  | create (userID salt : Text) (actor : Principal) (username displayName password role : Text)

namespace UserCall

def actorID : UserCall → Text
  | .update _ actor .. => actor.user.id
  | .delete actor _ => actor.user.id
  | .create _ _ actor .. => actor.user.id

def tx (rt : Runtime) : UserCall → Transaction Unit
  | .update salt actor userID fields => (updateUser rt salt actor userID fields).void
  | .delete actor userID => deleteUser actor userID
  | .create userID salt actor username displayName password role =>
    (createUser rt userID salt actor username displayName password role).void

/-- An update by which the actor gives up the rights. -/
def DemotesSelf : UserCall → Prop
  | .update _ actor userID fields =>
    userID = actor.user.id ∧
      fields.systemRole.bind (fun role => Role.parse (trimSpace role)) = some .member
  | _ => False

/-- What a call knows. -/
def notes (c : UserCall) : Notes Label Key Db where
  entry _ _ := True
  fact l _ L _ := l = .anotherSystemAdmin → .user c.actorID ∈ L
  post trace L db write :=
    .user c.actorID ∈ L ∧
      (c.DemotesSelf → .anotherSystemAdmin ∈ trace.map Prod.fst ∧
        ∀ id, id ≠ c.actorID → (write db).users.lookup id = db.users.lookup id) ∧
      (¬ c.DemotesSelf → (write db).IsActiveAdmin c.actorID)

theorem notes_stable (c : UserCall) : c.notes.Stable store :=
  fun _ _ _ _ _ _ _ _ hsub _ hfact hl => hsub (hfact hl)

end UserCall

/-! ## Outlines -/

/-- The actor is locked, an enabled administrator, and what is written leaves his row alone. -/
structure ActorKept (actorID : Text) (x : View) : Prop where
  locked : .user actorID ∈ x.locks
  active : x.snap.IsActiveAdmin actorID
  unchanged : ∀ db, (x.write db).users.lookup actorID = db.users.lookup actorID

theorem ActorKept.behind {actorID : Text} {x : View} (h : ActorKept actorID x) {β : Type} (s : Stmt β)
    (found : List Key) {db : Db} (hagree : Agree store x.locks x.snap db)
    (hs : ∀ view y, (s.change found view y).users.lookup actorID = y.users.lookup actorID) :
    ActorKept actorID (x.behind s found db) where
  locked := Or.inr (Or.inl h.locked)
  active := agree_activeAdmin hagree h.locked h.active
  unchanged := fun y => (hs _ _).trans (h.unchanged y)

theorem ActorKept.atCommit {c : UserCall} {x : View} (h : ActorKept c.actorID x)
    (hnot : ¬ c.DemotesSelf) : AtCommit c.notes store x := by
  intro db hagree
  refine ⟨h.locked, fun hself => absurd hself hnot, fun _ => ?_⟩
  obtain ⟨u, hu, hactive⟩ := agree_activeAdmin hagree h.locked h.active
  exact ⟨u, (h.unchanged db).trans hu, hactive⟩

theorem UserCall.begins {c : UserCall} {β : Type} {s : Stmt β} {x : View}
    (h : s.label = .anotherSystemAdmin → .user c.actorID ∈ x.locks) : Tx.Begins c.notes s x :=
  ⟨trivial, fun _ _ => h⟩

/-- Behind the check of the rights the actor is kept. -/
theorem wp_authorize_actor {c : UserCall} {db₀ : Db} {Q : Unit → View → Prop}
    (h : ∀ x : View, ActorKept c.actorID x → x.write = id → x.trace.map Prod.fst = [.lockUser] →
      Q () x) :
    (authorizeSystemAdminForUpdate c.actorID).Wp c.notes Q ⟨[], ∅, db₀, id⟩ := by
  refine wp_authorizeSystemAdmin (UserCall.begins fun hl => by cases hl) ?_
  intro found db hagree hmem hactive
  exact h _ ⟨Or.inr (Or.inr hmem), hactive, fun _ => rfl⟩ rfl rfl

/-- A statement that leaves the row of a user as it is, whatever rows it finds. -/
def KeepsUser (userID : Text) {β : Type} (s : Stmt β) : Prop :=
  ∀ found view y, (∀ k ∈ found, ∃ start, k ∈ s.rows start) →
    (s.change found view y).users.lookup userID = y.users.lookup userID

theorem keepsUser_of_users {userID : Text} {β : Type} {s : Stmt β}
    (h : ∀ found view y, (s.change found view y).users = y.users) : KeepsUser userID s :=
  fun found view y _ => by rw [h]

theorem wp_of_keepsUser {α : Type} {c : UserCall} {tx : Transaction α} {Q : α → View → Prop} {x : View}
    (htx : tx.Each (KeepsUser c.actorID)) (hx : ActorKept c.actorID x)
    (hQ : ∀ a y, ActorKept c.actorID y → Q a y) : tx.Wp c.notes Q x := by
  refine Tx.wp_of_each (P := KeepsUser c.actorID) (I := ActorKept c.actorID) htx ?_ hQ hx
  intro β s y hs hy
  refine ⟨UserCall.begins fun _ => hy.locked, fun start found db b hfound _ => ?_⟩
  exact hy.behind s found hfound.agree fun view z => hs found view z fun k hk => ⟨_, hfound.sound k hk⟩

theorem each_failIf {P : {β : Type} → Stmt β → Prop} (p : Prop) [Decidable p] (s : Sentinel) :
    (failIf p s).Each P := by
  unfold failIf
  split <;> trivial

theorem each_runIf {P : {β : Type} → Stmt β → Prop} {p : Prop} [Decidable p] {tx : Transaction Unit}
    (h : tx.Each P) : (runIf p tx).Each P := by
  unfold runIf
  split
  · exact h
  · trivial

section

variable {userID : Text}

theorem each_ensureAnotherSystemAdmin (excluded : Text) :
    (ensureAnotherActiveSystemAdmin excluded).Each (KeepsUser userID) :=
  Tx.each_bind (Tx.each_perform (keepsUser_of_users fun _ _ _ => rfl)) fun _ => each_failIf _ _

theorem each_ensureAnotherTeamAdmin (teamID excluded : Text) :
    (ensureAnotherTeamAdmin teamID excluded).Each (KeepsUser userID) :=
  Tx.each_bind (Tx.each_perform (keepsUser_of_users fun _ _ _ => rfl)) fun _ =>
    Tx.each_bind (Tx.each_perform (keepsUser_of_users fun _ _ _ => rfl)) fun _ => each_failIf _ _

theorem keepsUser_deleteUserRow {id : Text} (hne : id ≠ userID) :
    KeepsUser userID (deleteUserRow id) := by
  intro found view y hfound
  refine Table.lookup_alter_of_not ?_
  rw [decide_eq_false_iff_not]
  intro hmem
  -- the rows of the statement are the deleted user and his name
  obtain ⟨start, hrow⟩ := hfound _ hmem
  simp only [deleteUserRow, alterUsers] at hrow
  split at hrow
  · simp [Ne.symm hne] at hrow
  · cases hrow

theorem each_deleteUserCascade {id : Text} (hne : id ≠ userID) :
    (deleteUserCascade id).Each (KeepsUser userID) := by
  have other {β : Type} {s : Stmt β} (h : ∀ found view y, (s.change found view y).users = y.users) :
      (Tx.perform s).Each (KeepsUser userID) := Tx.each_perform (keepsUser_of_users h)
  refine Tx.each_bind (Tx.each_perform (keepsUser_deleteUserRow hne)) fun _ => ?_
  iterate 7 refine Tx.each_bind (other fun _ _ _ => rfl) fun _ => ?_
  exact Tx.each_bind (other fun _ _ _ => rfl) fun _ => trivial

end

theorem outline_delete (actor : Principal) (userID : Text) (db₀ : Db) :
    (deleteUser actor userID).Outline (UserCall.delete actor userID).notes ⟨[], ∅, db₀, id⟩ := by
  unfold deleteUser Tx.Outline
  rw [Tx.wp_bind]
  refine wp_authorize_actor (c := .delete actor userID) fun x hx hwrite _ => ?_
  rw [Tx.wp_bind]
  refine wp_lockUser (UserCall.begins fun hl => by cases hl) (fun y => wp_fail _) ?_
  intro found db u hagree hmem hu
  have hy := hx.behind (lockUser userID) found hagree fun _ _ => rfl
  rw [Tx.wp_bind]
  refine wp_failIf fun hne => ?_
  have other {β : Type} {s : Stmt β} (h : ∀ found view y, (s.change found view y).users = y.users) :
      (Tx.perform s).Each (KeepsUser actor.user.id) := Tx.each_perform (keepsUser_of_users h)
  refine wp_of_keepsUser (c := .delete actor userID) ?_ hy fun _ y hy => hy.atCommit id
  refine Tx.each_bind (each_runIf (each_ensureAnotherSystemAdmin _)) fun _ => ?_
  refine Tx.each_bind (other fun _ _ _ => rfl) fun teamIDs => ?_
  refine Tx.each_bind (Tx.each_forM (fun teamID => each_ensureAnotherTeamAdmin teamID userID) _) fun _ => ?_
  iterate 5 refine Tx.each_bind (other fun _ _ _ => rfl) fun _ => ?_
  exact Tx.each_bind (each_deleteUserCascade hne) fun _ => each_failIf _ _

theorem keepsUser_insertUser {wrap : Cause → Err} {userID username displayName passwordHash role : Text}
    {id : Text} (hne : id ≠ userID) (found : List Key) (view y : Db) :
    ((insertUser wrap userID username displayName passwordHash role).change found view y).users.lookup
      id = y.users.lookup id := by
  simp only [insertUser]
  split
  · rfl
  · exact AList.lookup_insert_ne hne

theorem outline_create (rt : Runtime) (userID salt : Text) (actor : Principal)
    (username displayName password role : Text) (db₀ : Db) :
    (createUser rt userID salt actor username displayName password role).void.Outline
      (UserCall.create userID salt actor username displayName password role).notes
      ⟨[], ∅, db₀, id⟩ := by
  unfold Tx.void createUser Tx.Outline
  rw [Tx.wp_bind, Tx.wp_bind]
  refine wp_authorize_actor (c := .create userID salt actor username displayName password role)
    fun x hx hwrite _ => ?_
  rw [Tx.wp_bind]
  refine (Tx.wp_perform _ _ _).2 ⟨⟨trivial, fun _ _ hl => by cases hl⟩, ?_⟩
  intro start found db row hfound hresult
  -- the new user is not the actor, who is there already
  obtain ⟨u, hu, -⟩ := agree_activeAdmin hfound.agree hx.locked hx.active
  have hnew := (insertUser_result hresult).1
  rw [hwrite] at hnew
  have hne : actor.user.id ≠ userID := by
    rintro heq
    rw [← heq] at hnew
    cases hu.symm.trans hnew
  exact (hx.behind _ found hfound.agree fun view y => keepsUser_insertUser hne found view y).atCommit id

theorem updatedFields_ok {actorID userID : Text} {fields : UserUpdate} {current : UserRow}
    {displayName : Text} {role : Role} {disabled : Bool}
    (h : updatedFields actorID userID fields current = .ok (displayName, role, disabled)) :
    updatedRole fields current = .ok role ∧ disabled = fields.disabled.getD current.disabled ∧
      ¬ (userID = actorID ∧ disabled = true) := by
  simp only [updatedFields, bind_eq_ok, guard_eq_ok] at h
  obtain ⟨name, -, role', hrole, hself, hend⟩ := h
  cases hend
  exact ⟨hrole, rfl, hself⟩

/-- An administrator who updates himself stays one, unless the update says otherwise. -/
theorem updatedRole_self {fields : UserUpdate} {current : UserRow} {role : Role}
    (h : updatedRole fields current = .ok role) (hadmin : current.systemRole = .admin) :
    role = .member ↔ fields.systemRole.bind (fun r => Role.parse (trimSpace r)) = some .member := by
  unfold updatedRole at h
  cases hgiven : fields.systemRole with
  | none =>
    rw [hgiven] at h
    cases h
    simp [hadmin]
  | some r =>
    simp only [hgiven] at h
    split at h
    · cases h
    · next hparse =>
        cases h
        simp [hparse]

/-- What an update knows when it comes to its `UPDATE`: the row that it has read is locked, and the guard
is passed if it is needed. -/
structure UpdateReady (actorID userID : Text) (current : UserRow) (role : Role) (disabled : Bool)
    (x : View) : Prop where
  actor : ActorKept actorID x
  write : x.write = id
  locked : .user userID ∈ x.locks
  row : x.snap.users.lookup userID = some current
  guarded : current.systemRole = .admin ∧ (role ≠ .admin ∨ disabled = true) →
    .anotherSystemAdmin ∈ x.trace.map Prod.fst

theorem UpdateReady.atCommit {salt : Text} {actor : Principal} {userID : Text} {fields : UserUpdate}
    {current : UserRow} {displayName : Text} {role : Role} {disabled : Bool}
    {passwordHash : Option Text} {x : View}
    (hready : UpdateReady actor.user.id userID current role disabled x)
    (hfields : updatedFields actor.user.id userID fields current = .ok (displayName, role, disabled))
    {start db : Db} {found : List Key}
    (hfound : Found (updateUserRow userID displayName role passwordHash fields.disabled) x start found
      db) :
    AtCommit (UserCall.update salt actor userID fields).notes store
      (x.behind (updateUserRow userID displayName role passwordHash fields.disabled) found db) := by
  obtain ⟨hrole, hdisabled, hself⟩ := updatedFields_ok hfields
  intro db' hagree
  -- only the row of the user is written
  have hother : ∀ id, id ≠ userID → .user id ∉ found := by
    intro id hne hmem
    have hrow := hfound.sound _ hmem
    exact hne (Key.user.inj (mem_rowOf.1 hrow).1)
  have hagree' : Agree store x.locks x.snap db' :=
    hfound.agree.trans (hagree.mono fun k hk => Or.inr (Or.inl hk))
  have hwrite : ∀ id, ((x.behind (updateUserRow userID displayName role passwordHash fields.disabled)
      found db).write db').users.lookup id = if .user id ∈ found then
        (db'.users.lookup id).map fun u => ⟨u.username, displayName, passwordHash.getD u.passwordHash,
          role, fields.disabled.getD u.disabled⟩ else db'.users.lookup id := by
    intro id
    simp only [Local.behind, hready.write, updateUserRow, alterUsers, id_eq, Table.lookup_alter,
      decide_eq_true_eq]
    split
    · cases db'.users.lookup id <;> rfl
    · rfl
  obtain ⟨u, hu, hactive⟩ := agree_activeAdmin hagree' hready.actor.locked hready.actor.active
  refine ⟨Or.inr (Or.inl hready.actor.locked), ?_, ?_⟩
  · rintro ⟨rfl, hmember⟩
    refine ⟨?_, fun id hne => ?_⟩
    · have hcurrent : current = u := by
        have := (agree_user hagree' hready.locked).trans hready.row
        exact Option.some.inj (this.symm.trans hu)
      have hadmin : current.systemRole = .admin := by
        rw [hcurrent]
        exact (u.activeAdmin_iff.1 hactive).1
      -- he gives up the role himself, so that the guard was asked
      have hguard := hready.guarded ⟨hadmin, Or.inl ?_⟩
      · exact List.mem_map.2 <| (List.mem_map.1 hguard).imp fun e he =>
          ⟨List.mem_append_left _ he.1, he.2⟩
      · rw [(updatedRole_self hrole hadmin).2 hmember]
        decide
    · rw [hwrite, if_neg (hother id hne)]
  · intro hnot
    show Db.IsActiveAdmin _ actor.user.id
    unfold Db.IsActiveAdmin
    rw [hwrite]
    split
    · next hmem =>
        -- the actor updates himself, and neither loses the role nor is disabled
        obtain rfl : actor.user.id = userID := by
          by_contra hne
          exact hother _ hne hmem
        have hcurrent : u = current := by
          have := (agree_user hagree' hready.locked).trans hready.row
          exact Option.some.inj (hu.symm.trans this)
        subst hcurrent
        obtain ⟨hadmin, henabled⟩ := u.activeAdmin_iff.1 hactive
        have hrole' : role ≠ .member := fun hmember =>
          hnot ⟨rfl, (updatedRole_self hrole hadmin).1 hmember⟩
        refine ⟨_, by rw [hu]; rfl, (UserRow.activeAdmin_iff _).2 ⟨?_, ?_⟩⟩
        · cases role with
          | member => exact absurd rfl hrole'
          | admin => rfl
        · show fields.disabled.getD u.disabled = false
          rw [← hdisabled]
          simpa using hself
    · exact ⟨u, hu, hactive⟩

theorem UpdateReady.wp {rt : Runtime} {salt : Text} {actor : Principal} {userID : Text}
    {fields : UserUpdate} {current : UserRow} {displayName : Text} {role : Role} {disabled : Bool}
    {x : View} (hready : UpdateReady actor.user.id userID current role disabled x)
    (hfields : updatedFields actor.user.id userID fields current = .ok (displayName, role, disabled)) :
    (writeUpdate rt salt userID displayName role fields).Wp
      (UserCall.update salt actor userID fields).notes
      (fun _ => AtCommit (UserCall.update salt actor userID fields).notes store) x := by
  unfold writeUpdate
  rw [Tx.wp_bind, Tx.wp_done]
  intro passwordHash _
  rw [Tx.wp_bind]
  refine (Tx.wp_perform _ _ _).2 ⟨⟨trivial, fun _ _ hl => by cases hl⟩, ?_⟩
  intro start found db row hfound _
  cases row with
  | none => trivial
  | some row => exact hready.atCommit hfields hfound

theorem outline_update (rt : Runtime) (salt : Text) (actor : Principal) (userID : Text)
    (fields : UserUpdate) (db₀ : Db) :
    (updateUser rt salt actor userID fields).void.Outline (UserCall.update salt actor userID fields).notes
      ⟨[], ∅, db₀, id⟩ := by
  unfold Tx.void updateUser Tx.Outline
  rw [Tx.wp_bind, Tx.wp_bind]
  refine wp_authorize_actor (c := .update salt actor userID fields) fun x hx hwrite _ => ?_
  rw [Tx.wp_bind]
  refine wp_lockUser ⟨trivial, fun _ _ hl => by cases hl⟩ (fun y => wp_fail _) ?_
  intro found db current hagree hmem hcurrent
  have hy := hx.behind (lockUser userID) found hagree fun _ _ => rfl
  rw [hwrite] at hcurrent
  dsimp only
  rw [Tx.wp_bind, Tx.wp_done]
  rintro ⟨displayName, role, disabled⟩ hfields
  dsimp only
  rw [Tx.wp_bind]
  refine wp_runIf (fun hneeded => ?_) fun hneeded => ?_
  · unfold ensureAnotherActiveSystemAdmin
    rw [Tx.wp_bind]
    refine (Tx.wp_perform _ _ _).2 ⟨⟨trivial, fun _ _ _ => hy.locked⟩, ?_⟩
    intro start found' db' b hfound _
    refine wp_failIf fun _ => UpdateReady.wp ⟨hy.behind _ found' hfound.agree fun _ _ => rfl, ?_, ?_, ?_,
      ?_⟩ hfields
    · funext y
      exact congrFun hwrite y
    · exact Or.inr (Or.inl (Or.inr (Or.inr hmem)))
    · exact (agree_user hfound.agree (Or.inr (Or.inr hmem))).trans hcurrent
    · intro _
      exact List.mem_map.2 ⟨_, List.mem_append_right _ (List.mem_singleton_self _), rfl⟩
  · refine UpdateReady.wp ⟨hy, ?_, Or.inr (Or.inr hmem), hcurrent, fun hguard => absurd hguard hneeded⟩
      hfields
    funext y
    exact congrFun hwrite y

theorem UserCall.outline (rt : Runtime) (c : UserCall) (db₀ : Db) :
    (c.tx rt).Outline c.notes ⟨[], ∅, db₀, id⟩ := by
  cases c with
  | update salt actor userID fields => exact outline_update rt salt actor userID fields db₀
  | delete actor userID => exact outline_delete actor userID db₀
  | create userID salt actor username displayName password role =>
    exact outline_create rt userID salt actor username displayName password role db₀

/-! ## Runs -/

abbrev UserSystem (ι : Type) : Type 1 := System store Label Err Unit ι

/-- A transaction that is not through and has executed the guard of the last administrator. -/
def PastGuard (p : Proc store Label Err Unit) : Prop :=
  ¬ p.isFinished ∧ .anotherSystemAdmin ∈ p.trace.map Prod.fst

section

variable {ι : Type} (calls : ι → UserCall)

/-- Another unfinished transaction is on its way to take the rights from this administrator, who is its
own actor. -/
def Leaving (σ : UserSystem ι) (i : ι) (id : Text) : Prop :=
  (calls i).DemotesSelf ∧ (calls i).actorID = id ∧ PastGuard (σ.procs i)

/-- An update by which an actor gives up the rights passes the guard only while there is another enabled
administrator who is not about to do the same. -/
def GuardedByStaying (i : ι) (σ σ' : UserSystem ι) : Prop :=
  (calls i).DemotesSelf → ¬ PastGuard (σ.procs i) → PastGuard (σ'.procs i) →
    ∃ id, id ≠ (calls i).actorID ∧ σ.committed.IsActiveAdmin id ∧ ∀ j, j ≠ i → ¬ Leaving calls σ j id

/-- There is an enabled administrator whom no unfinished transaction takes the rights from. -/
def AdminStays (σ : UserSystem ι) : Prop :=
  ∃ id, σ.committed.IsActiveAdmin id ∧ ∀ i, ¬ Leaving calls σ i id

variable [DecidableEq ι] {calls}

theorem Leaving.of_update {σ : UserSystem ι} {db : Db} {i j : ι} {p : Proc store Label Err Unit}
    {id : Text} (hji : j ≠ i) (h : Leaving calls ⟨db, Function.update σ.procs i p⟩ j id) :
    Leaving calls σ j id := by
  obtain ⟨hself, hactor, hpast⟩ := h
  rw [System.procs_of_ne hji] at hpast
  exact ⟨hself, hactor, hpast⟩

theorem AdminStays.step {i : ι} {σ σ' : UserSystem ι} (hinv : σ.Inv fun i => (calls i).notes)
    (h : AdminStays calls σ) (hstep : System.StepBy i σ σ') (hcond : GuardedByStaying calls i σ σ') :
    AdminStays calls σ' := by
  obtain ⟨hp⟩ := hstep
  rename_i db p
  obtain ⟨id, hadmin, hstays⟩ := h
  rcases hp.commits_or with ⟨a, hphase, rfl, hfin⟩ | ⟨rfl, hrest⟩
  · -- a commit: the notes say whose rights it leaves
    have hnotdone : ¬ Leaving calls ⟨(σ.procs i).write σ.committed, Function.update σ.procs i p⟩ i id := by
      rintro ⟨-, -, hpast, -⟩
      exact hpast (by rwa [System.procs_self])
    obtain ⟨hlocked, hself, hother⟩ := (hinv.proc i).post_of_ready hphase
    by_cases hdemotes : (calls i).DemotesSelf
    · obtain ⟨hguard, hkeeps⟩ := hself hdemotes
      have hne : id ≠ (calls i).actorID := by
        rintro rfl
        refine hstays i ⟨hdemotes, rfl, ?_, hguard⟩
        rintro ⟨result, hfinished⟩
        cases hphase.symm.trans hfinished
      refine ⟨id, ?_, fun j => ?_⟩
      · obtain ⟨u, hu, hactive⟩ := hadmin
        exact ⟨u, (hkeeps id hne).trans hu, hactive⟩
      · by_cases hji : j = i
        · rw [hji]
          exact hnotdone
        · exact fun hleaving => hstays j (hleaving.of_update hji)
    · refine ⟨(calls i).actorID, hother hdemotes, fun j hleaving => ?_⟩
      by_cases hji : j = i
      · obtain ⟨hdemotes', -, -⟩ := hleaving
        exact hdemotes (hji ▸ hdemotes')
      · -- the other transaction would hold the same lock
        obtain ⟨-, hactor, hunfinished, hguard⟩ := hleaving.of_update hji
        have hbegun : Label.anotherSystemAdmin ∈ (σ.procs j).begun := List.mem_append_left _ hguard
        have hlock : Key.user (calls j).actorID ∈ (σ.procs j).locks :=
          (hinv.proc j).facts hunfinished _ hbegun rfl
        rw [hactor] at hlock
        exact hinv.exclusive j i _ hji hlock hlocked
  · -- no commit: only the transaction of this step can have come past its guard
    by_cases hpast : PastGuard p ∧ (calls i).DemotesSelf ∧ ¬ PastGuard (σ.procs i)
    · obtain ⟨hnew, hdemotes, hbefore⟩ := hpast
      obtain ⟨id', hne, hadmin', hstays'⟩ := hcond hdemotes hbefore (by rwa [System.procs_self])
      refine ⟨id', hadmin', fun j hleaving => ?_⟩
      by_cases hji : j = i
      · exact hne (hji ▸ hleaving.2.1.symm)
      · exact hstays' j hji (hleaving.of_update hji)
    · refine ⟨id, hadmin, fun j hleaving => ?_⟩
      by_cases hji : j = i
      · subst hji
        obtain ⟨hdemotes, hactor, hnew⟩ := hleaving
        rw [System.procs_self] at hnew
        have hbefore : PastGuard (σ.procs j) := by
          by_contra hnot
          exact hpast ⟨hnew, hdemotes, hnot⟩
        exact hstays j ⟨hdemotes, hactor, hbefore⟩
      · exact hstays j (hleaving.of_update hji)

end

/-- In every run in which the guards are passed only under an administrator who stays, there is an enabled
administrator in every state. -/
theorem active_admin_remains {ι : Type} [DecidableEq ι] (rt : Runtime) (calls : ι → UserCall) (db : Db)
    (hdb : ∃ id, db.IsActiveAdmin id) (σ : UserSystem ι)
    (hrun : System.Run (GuardedByStaying calls) (System.init db fun i => (calls i).tx rt) σ) :
    ∃ id, σ.committed.IsActiveAdmin id := by
  have hinv : (System.init db fun i => (calls i).tx rt).Inv fun i => (calls i).notes :=
    System.inv_init fun i => (calls i).outline rt db
  have hstays : AdminStays calls (System.init db fun i => (calls i).tx rt) := by
    obtain ⟨id, hadmin⟩ := hdb
    refine ⟨id, hadmin, ?_⟩
    rintro i ⟨-, -, -, hguard⟩
    cases hguard
  obtain ⟨id, hadmin, -⟩ := System.Inv.run_induction (fun i => (calls i).notes_stable)
    (fun i σ σ' hinv hP hstep hcond => hP.step hinv hstep hcond) hinv hstays hrun
  exact ⟨id, hadmin⟩

/-- Two enabled administrators. -/
def twoAdmins : Db :=
  { Db.empty with
    users := (AList.singleton "usr_b".toList ⟨"b".toList, "B".toList, [], .admin, false⟩).insert
      "usr_a".toList ⟨"a".toList, "A".toList, [], .admin, false⟩ }

/-- One user makes a plain member of another. -/
def demote (actorID userID : Text) : UserCall :=
  .update [] ⟨⟨actorID, [], [], .admin, false⟩, []⟩ userID ⟨none, some "member".toList, none, none⟩

def bothDemote (userOf : Bool → Text) : Bool → UserCall
  | true => demote "usr_a".toList (userOf true)
  | false => demote "usr_b".toList (userOf false)

/-- The state behind a schedule of two administrators, each of whom takes the rights from someone. -/
def bothDemoted (userOf : Bool → Text) (turns : List Bool) : Option (UserSystem Bool) :=
  System.follow turns (System.init twoAdmins fun b => (bothDemote userOf b).tx default)

def eachOther : Bool → Text
  | true => "usr_b".toList
  | false => "usr_a".toList

def themselves : Bool → Text
  | true => "usr_a".toList
  | false => "usr_b".toList

/-- Both administrators take the rights from the other; the second one comes too late. -/
theorem active_admin_remains_mutual :
    ∃ id, ((bothDemoted eachOther (List.replicate 12 true ++ List.replicate 4 false)).get
      rfl).committed.IsActiveAdmin id := by
  refine active_admin_remains default (bothDemote eachOther) twoAdmins ⟨"usr_a".toList, _, rfl, rfl⟩ _
    (System.Run.mono ?_ (System.run_follow _))
  rintro (_ | _) σ σ' - ⟨hself, -⟩ <;> cases hself

/-- Two administrators who give up the rights at the same time each find the other one still in office. -/
theorem administrators_resign_together :
    ∃ σ : UserSystem Bool, System.Run (fun _ _ _ => True)
        (System.init twoAdmins fun b => (bothDemote themselves b).tx default) σ ∧
      σ.Done ∧ ¬ ∃ id, σ.committed.IsActiveAdmin id := by
  refine ⟨(bothDemoted themselves (List.replicate 8 true ++ List.replicate 8 false ++
    List.replicate 4 true ++ List.replicate 4 false)).get rfl, System.run_follow _, ?_, ?_⟩
  · rintro (_ | _)
    · exact ⟨_, rfl⟩
    · exact ⟨_, rfl⟩
  · rintro ⟨id, u, hu, hactive⟩
    cases Table.any_iff (p := fun _ u => u.activeAdmin) |>.2 ⟨id, u, hu, hactive⟩

end Workbench.Identity
