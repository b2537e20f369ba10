import Workbench.Identity.SystemAdmins

/-!
# The guards of the team administrators

`DeleteUser`, `SetTeamMemberRole`, `RemoveTeamMember` and `SetUserTeamMemberships` as transactions of a
system, and what each of them knows while the others run: before it locks the members of a team it has
locked the one that it takes from it, and it writes behind all of its guards.
-/

set_option autoImplicit false

namespace Workbench.Identity

open Workbench.Lib

inductive TeamCall where
  | deleteUser (actor : Principal) (userID : Text)
  | setTeamMemberRole (actor : Principal) (teamID userID role : Text)
  | removeTeamMember (actor : Principal) (teamID userID : Text)
  | setUserTeamMemberships (guards deletes : MapOrder) (actor : Principal) (userID : Text)
      (assignments : List TeamAssignment)

namespace TeamCall

/-- The user whose memberships the call changes. -/
def userID : TeamCall → Text
  | .deleteUser _ userID => userID
  | .setTeamMemberRole _ _ userID _ => userID
  | .removeTeamMember _ _ userID => userID
  | .setUserTeamMemberships _ _ _ userID _ => userID

def tx : TeamCall → Transaction Unit
  | .deleteUser actor userID => Identity.deleteUser actor userID
  | .setTeamMemberRole actor teamID userID role => Identity.setTeamMemberRole actor teamID userID role
  | .removeTeamMember actor teamID userID => Identity.removeTeamMember actor teamID userID
  | .setUserTeamMemberships guards deletes actor userID assignments =>
    Identity.setUserTeamMemberships guards deletes actor userID assignments

/-- `SetTeamMemberRole` makes an administrator of a plain member. -/
def Promotes (c : TeamCall) (db : Db) (teamID userID : Text) : Prop :=
  ∃ actor role, c = .setTeamMemberRole actor teamID userID role ∧
    Role.parse (trimSpace role) = some .admin ∧ db.members.lookup (teamID, userID) = some .member

/-- What a call leaves behind at its commit. An administrator is lost only behind the guard of his team, but
for the ones that `DeleteUser` did not find among the teams of its user. -/
structure Leaves (c : TeamCall) (trace : List (Label × List Key)) (L : Set Key) (db db' : Db) : Prop where
  teams : ∀ t, (db'.teams.lookup t).isSome → (db.teams.lookup t).isSome
  lost : ∀ t u, db.IsTeamAdmin t u → ¬ db'.IsTeamAdmin t u → u = c.userID ∧
    ((∀ actor, c = .deleteUser actor u → ∀ found, (.adminTeams, found) ∈ trace → .member t u ∈ found) →
      .anotherTeamAdmin t ∈ trace.map Prod.fst)
  won : ∀ t u, db'.IsTeamAdmin t u → ¬ db.IsTeamAdmin t u → .user u ∈ L ∨ c.Promotes db t u

/-- What a call knows. -/
def notes (c : TeamCall) : Notes Label Key Db where
  entry l write := l ≠ .write → l ≠ .read → write = id
  fact l trace L db :=
    (∀ t, l = .lockTeamAdmins t →
      .member t c.userID ∈ L ∧ (db.members.lookup (t, c.userID)).isSome) ∧
    (∀ t, l = .anotherTeamAdmin t → .lockTeamAdmins t ∈ trace.map Prod.fst) ∧
    (l = .adminTeams → .user c.userID ∈ L)
  post trace L db write := c.Leaves trace L db (write db)

theorem notes_stable (c : TeamCall) : c.notes.Stable store := by
  rintro l trace trace' L L' a b ⟨more, rfl⟩ hsub hagree ⟨hmember, hlocked, huser⟩
  refine ⟨fun t ht => ?_, fun t ht => ?_, fun hl => hsub (huser hl)⟩
  · obtain ⟨hmem, hpresent⟩ := hmember t ht
    refine ⟨hsub hmem, ?_⟩
    rw [agree_member hagree hmem]
    exact hpresent
  · rw [List.map_append]
    exact List.mem_append_left _ (hlocked t ht)

end TeamCall

/-! ## Before the guards -/

/-- A query that no note is about. -/
structure Quiet {β : Type} (s : Stmt β) : Prop where
  change : ∀ found view y, s.change found view y = y
  adminTeams : s.label ≠ .adminTeams
  lockTeamAdmins : ∀ t, s.label ≠ .lockTeamAdmins t
  anotherTeamAdmin : ∀ t, s.label ≠ .anotherTeamAdmin t

/-- The same transaction further on, with no write in between and not behind `adminTeams`. -/
structure Later (x y : View) : Prop where
  trace : x.trace <+: y.trace
  adminTeams : ∀ found, (.adminTeams, found) ∈ y.trace → (.adminTeams, found) ∈ x.trace
  locks : x.locks ⊆ y.locks
  agree : Agree store x.locks x.snap y.snap
  write : y.write = x.write

section

variable {c : TeamCall} {x y z : View}

theorem Later.refl (x : View) : Later x x :=
  ⟨List.prefix_refl _, fun _ h => h, subset_rfl, Agree.refl _ _, rfl⟩

theorem Later.trans (h : Later x y) (h' : Later y z) : Later x z :=
  ⟨h.trace.trans h'.trace, fun found hfound => h.adminTeams found (h'.adminTeams found hfound),
    h.locks.trans h'.locks, h.agree.trans (h'.agree.mono h.locks), h'.write.trans h.write⟩

theorem Later.behind (x : View) {β : Type} {s : Stmt β} (found : List Key) {db : Db}
    (hagree : Agree store x.locks x.snap db) (hchange : ∀ found view y, s.change found view y = y)
    (hlabel : s.label ≠ .adminTeams) : Later x (x.behind s found db) where
  trace := List.prefix_append _ _
  adminTeams := by
    intro found' hfound
    rcases List.mem_append.1 hfound with hold | hnew
    · exact hold
    · exact absurd (congrArg Prod.fst (List.mem_singleton.1 hnew)).symm hlabel
  locks := fun _ hk => Or.inr (Or.inl hk)
  agree := hagree
  write := funext fun y => hchange found _ _

/-- A label that was passed stays in the trace. -/
theorem Later.mem (h : Later x y) {l : Label} (hl : l ∈ x.trace.map Prod.fst) :
    l ∈ y.trace.map Prod.fst := by
  obtain ⟨more, hmore⟩ := h.trace
  rw [← hmore, List.map_append]
  exact List.mem_append_left _ hl

theorem Quiet.begins {β : Type} {s : Stmt β} (hs : Quiet s) (hx : x.write = id) : Tx.Begins c.notes s x :=
  ⟨fun _ _ => hx, fun _ _ => ⟨fun t ht => absurd ht (hs.lockTeamAdmins t),
    fun t ht => absurd ht (hs.anotherTeamAdmin t), fun hl => absurd hl hs.adminTeams⟩⟩

theorem wp_quiet {α : Type} {tx : Transaction α} {Q : α → View → Prop} (htx : tx.Each Quiet)
    (hx : x.write = id) (hQ : ∀ a y, Later x y → Q a y) : tx.Wp c.notes Q x := by
  refine Tx.wp_of_each (P := Quiet) (I := Later x) htx ?_ hQ (Later.refl x)
  intro β s y hs hy
  refine ⟨hs.begins (hy.write.trans hx), fun start found db b hfound _ => ?_⟩
  exact hy.trans (Later.behind y found hfound.agree hs.change hs.adminTeams)

theorem quiet_lockUser (userID : Text) : Quiet (lockUser userID) :=
  ⟨fun _ _ _ => rfl, Label.noConfusion, fun _ => Label.noConfusion, fun _ => Label.noConfusion⟩

theorem quiet_lockMember (teamID userID : Text) : Quiet (lockMember teamID userID) :=
  ⟨fun _ _ _ => rfl, Label.noConfusion, fun _ => Label.noConfusion, fun _ => Label.noConfusion⟩

theorem quiet_anotherSystemAdmin (userID : Text) : Quiet (anotherSystemAdmin userID) :=
  ⟨fun _ _ _ => rfl, Label.noConfusion, fun _ => Label.noConfusion, fun _ => Label.noConfusion⟩

theorem quiet_targetExists (userID : Text) : Quiet (targetExists userID) :=
  ⟨fun _ _ _ => rfl, Label.noConfusion, fun _ => Label.noConfusion, fun _ => Label.noConfusion⟩

theorem quiet_memberships (userID : Text) : Quiet (memberships userID) :=
  ⟨fun _ _ _ => rfl, Label.noConfusion, fun _ => Label.noConfusion, fun _ => Label.noConfusion⟩

theorem each_authorizeSystemAdmin (userID : Text) :
    (authorizeSystemAdminForUpdate userID).Each Quiet := by
  refine Tx.each_bind (Tx.each_perform (quiet_lockUser userID)) fun u => ?_
  cases u with
  | none => trivial
  | some u => exact each_failIf _ _

theorem each_guardSystemAdmin (userID : Text) : (ensureAnotherActiveSystemAdmin userID).Each Quiet :=
  Tx.each_bind (Tx.each_perform (quiet_anotherSystemAdmin userID)) fun _ => each_failIf _ _

theorem each_authorizeTeamAdmin (userID teamID : Text) :
    (authorizeTeamAdminForUpdate userID teamID).Each Quiet := by
  refine Tx.each_bind (Tx.each_perform (quiet_lockUser userID)) fun u => ?_
  cases u with
  | none => trivial
  | some u =>
    dsimp only
    split
    · trivial
    · split
      · trivial
      · refine Tx.each_bind (Tx.each_perform (quiet_lockMember teamID userID)) fun role => ?_
        cases role with
        | none => trivial
        | some role => exact each_failIf _ _

/-! ## The guard of a team -/

/-- The member that the call takes from the team is there, and it is locked. -/
structure Guarded (c : TeamCall) (teamID : Text) (x : View) : Prop where
  locked : .member teamID c.userID ∈ x.locks
  present : (x.snap.members.lookup (teamID, c.userID)).isSome

theorem Guarded.later {teamID : Text} (h : Guarded c teamID x) (hlater : Later x y) : Guarded c teamID y := by
  refine ⟨hlater.locks h.locked, ?_⟩
  -- a row that is locked is the same in every later state
  rw [agree_member hlater.agree h.locked]
  exact h.present

theorem wp_ensureAnotherTeamAdmin {teamID : Text} {Q : Unit → View → Prop} (hx : x.write = id)
    (hguarded : Guarded c teamID x)
    (hQ : ∀ y, Later x y → .anotherTeamAdmin teamID ∈ y.trace.map Prod.fst → Q () y) :
    (ensureAnotherTeamAdmin teamID c.userID).Wp c.notes Q x := by
  rw [ensureAnotherTeamAdmin, Tx.wp_bind]
  refine (Tx.wp_perform _ _ _).2 ⟨⟨fun _ _ => hx, fun db hagree => ?_⟩, ?_⟩
  · refine ⟨?_, fun _ hl => (nomatch hl), fun hl => (nomatch hl)⟩
    rintro t ⟨⟩
    refine ⟨hguarded.locked, ?_⟩
    rw [agree_member hagree hguarded.locked]
    exact hguarded.present
  · intro start found db b hfound _
    have hlater := Later.behind x (s := lockTeamAdmins teamID) found hfound.agree (fun _ _ _ => rfl)
      Label.noConfusion
    rw [Tx.wp_bind]
    refine (Tx.wp_perform _ _ _).2 ⟨⟨fun _ _ => hlater.write.trans hx, fun db' hagree => ?_⟩, ?_⟩
    · refine ⟨fun _ hl => (nomatch hl), ?_, fun hl => (nomatch hl)⟩
      rintro t ⟨⟩
      -- the lock of the members stands in the trace since the statement before
      simp [Local.behind, lockTeamAdmins, selectForUpdate]
    · intro start' found' db' b' hfound' _
      have hlater' := Later.behind (x.behind (lockTeamAdmins teamID) found db)
        (s := anotherTeamAdmin teamID c.userID) found' hfound'.agree (fun _ _ _ => rfl) Label.noConfusion
      apply wp_failIf
      intro _
      apply hQ _ (hlater.trans hlater')
      simp [Local.behind, anotherTeamAdmin, select]

/-- A loop of guards. -/
theorem wp_forM_guards {β : Type} (p : β → Prop) [DecidablePred p] (team : β → Text) (l : List β)
    {Q : PUnit → View → Prop} (hx : x.write = id) (hguarded : ∀ a ∈ l, p a → Guarded c (team a) x)
    (hQ : ∀ y, Later x y → (∀ a ∈ l, p a → .anotherTeamAdmin (team a) ∈ y.trace.map Prod.fst) →
      Q ⟨⟩ y) :
    (l.forM fun a => runIf (p a) (ensureAnotherTeamAdmin (team a) c.userID)).Wp c.notes Q x := by
  induction l generalizing x with
  | nil => exact hQ x (Later.refl x) fun a ha => absurd ha List.not_mem_nil
  | cons a l ih =>
    rw [List.forM, Tx.wp_bind]
    -- the rest of the loop, from any state behind the first guard
    have hrest : ∀ y, Later x y → (p a → .anotherTeamAdmin (team a) ∈ y.trace.map Prod.fst) →
        (l.forM fun a => runIf (p a) (ensureAnotherTeamAdmin (team a) c.userID)).Wp c.notes Q y := by
      intro y hlater ha
      apply ih (hlater.write.trans hx)
      · exact fun a' ha' hp => (hguarded a' (List.mem_cons_of_mem _ ha') hp).later hlater
      · intro z hz hall
        apply hQ z (hlater.trans hz)
        intro a' ha' hp
        rcases List.mem_cons.1 ha' with rfl | ha'
        · exact hz.mem (ha hp)
        · exact hall a' ha' hp
    apply wp_runIf
    · intro hp
      apply wp_ensureAnotherTeamAdmin hx (hguarded a List.mem_cons_self hp)
      exact fun y hlater hmem => hrest y hlater fun _ => hmem
    · exact fun hp => hrest x (Later.refl x) fun hp' => absurd hp' hp

end

/-! ## One member -/

/-- The statements of `SetTeamMemberRole` and `RemoveTeamMember` behind the guard. -/
theorem atCommit_alterMember {c : TeamCall} {teamID : Text} {x : View} {row : Role → Option Role}
    {current : Role} (hx : x.write = id) (hlocked : .member teamID c.userID ∈ x.locks)
    (hcurrent : x.snap.members.lookup (teamID, c.userID) = some current)
    (hlost : current = .admin → row .admin ≠ some .admin →
      .anotherTeamAdmin teamID ∈ x.trace.map Prod.fst)
    (hwon : row .member = some .admin → ∀ db : Db, db.members.lookup (teamID, c.userID) = some .member →
      c.Promotes db teamID c.userID) {start db : Db} {found : List Key}
    (hfound : Found (alterMembers (rowOf (.member teamID c.userID)) row) x start found db) :
    AtCommit c.notes store
      (x.behind (alterMembers (rowOf (.member teamID c.userID)) row) found db) := by
  intro db' hagree
  -- the role that was read is still that of the member, which is locked
  have hrow : db'.members.lookup (teamID, c.userID) = some current := by
    have hbefore := hfound.agree.trans (hagree.mono fun k hk => Or.inr (Or.inl hk))
    rw [agree_member hbefore hlocked, hcurrent]
  have hwrite : (x.behind (alterMembers (rowOf (.member teamID c.userID)) row) found db).write db' =
      { db' with members := db'.members.alter (fun id => .member id.1 id.2 ∈ found) row } := by
    simp only [Local.behind, hx, alterMembers, id_eq]
  -- no other row is found, so none is changed
  have hother : ∀ t u, (t, u) ≠ (teamID, c.userID) →
      (db'.members.alter (fun id => .member id.1 id.2 ∈ found) row).lookup (t, u) =
        db'.members.lookup (t, u) := by
    intro t u hne
    apply Table.lookup_alter_of_not
    rw [decide_eq_false_iff_not]
    intro hmem
    have hkey := (mem_rowOf.1 (hfound.sound _ hmem)).1
    exact hne (Prod.ext (Key.member.inj hkey).1 (Key.member.inj hkey).2)
  have hself : (db'.members.alter (fun id => .member id.1 id.2 ∈ found) row).lookup (teamID, c.userID) =
      if .member teamID c.userID ∈ found then row current else some current := by
    rw [Table.lookup_alter, hrow]
    simp only [decide_eq_true_eq, Option.bind_some]
  show c.Leaves _ _ db' _
  rw [hwrite]
  refine ⟨fun t ht => ht, fun t u hadmin hgone => ?_, fun t u hadmin hnew => ?_⟩
  · by_cases hkey : (t, u) = (teamID, c.userID)
    · cases hkey
      -- an administrator who is one no more: the guard passed
      have hwas : current = .admin := Option.some.inj (hrow.symm.trans hadmin)
      have hnot : row .admin ≠ some .admin := by
        intro hrowAdmin
        apply hgone
        refine hself.trans ?_
        rw [hwas, hrowAdmin, ite_self]
      refine ⟨rfl, fun _ => ?_⟩
      simp only [Local.behind, List.map_append]
      exact List.mem_append_left _ (hlost hwas hnot)
    · exact absurd ((hother t u hkey).trans hadmin) hgone
  · right
    by_cases hkey : (t, u) = (teamID, c.userID)
    · cases hkey
      cases current with
      -- he was one before
      | admin => exact absurd hrow hnew
      | member =>
        refine hwon ?_ db' hrow
        have hafter := hself.symm.trans hadmin
        split at hafter
        · exact hafter
        · cases hafter
    · exact absurd ((hother t u hkey).symm.trans hadmin) hnew

theorem wp_lockTeamMember {c : TeamCall} {x : View} {teamID : Text} {Q : Role → View → Prop}
    (hx : x.write = id)
    (hQ : ∀ y current, Later x y → .member teamID c.userID ∈ y.locks →
      y.snap.members.lookup (teamID, c.userID) = some current → Q current y) :
    (lockTeamMember teamID c.userID).Wp c.notes Q x := by
  rw [lockTeamMember, Tx.wp_bind]
  apply wp_lockMember ((quiet_lockMember teamID c.userID).begins hx)
  · exact fun y => wp_fail _
  · intro found db role hagree hmem hrole
    rw [hx] at hrole
    apply hQ
    · exact Later.behind x found hagree (fun _ _ _ => rfl) Label.noConfusion
    · exact Or.inr (Or.inr hmem)
    · exact hrole

/-- The guard that stands before the change of one member. -/
theorem wp_guardMember {c : TeamCall} {x : View} {teamID : Text} {current : Role} {p : Prop} [Decidable p]
    {Q : Unit → View → Prop} (hx : x.write = id) (hlocked : .member teamID c.userID ∈ x.locks)
    (hcurrent : x.snap.members.lookup (teamID, c.userID) = some current)
    (hQ : ∀ y, Later x y → (p → .anotherTeamAdmin teamID ∈ y.trace.map Prod.fst) →
      y.snap.members.lookup (teamID, c.userID) = some current → Q () y) :
    (runIf p (ensureAnotherTeamAdmin teamID c.userID)).Wp c.notes Q x := by
  apply wp_runIf
  · intro _
    apply wp_ensureAnotherTeamAdmin hx ⟨hlocked, by rw [hcurrent]; rfl⟩
    intro y hlater hguard
    apply hQ y hlater fun _ => hguard
    rw [agree_member hlater.agree hlocked, hcurrent]
  · exact fun hp => hQ x (Later.refl x) (fun hp' => absurd hp' hp) hcurrent

/-- `SetTeamMemberRole` and `RemoveTeamMember` behind the check of the rights. -/
theorem wp_changeMember {c : TeamCall} {x : View} {teamID : Text} (p : Role → Prop) [DecidablePred p]
    (row : Role → Option Role) (hx : x.write = id) (hlost : row .admin ≠ some .admin → p .admin)
    (hwon : row .member = some .admin → ∀ db : Db, db.members.lookup (teamID, c.userID) = some .member →
      c.Promotes db teamID c.userID) :
    (do
      let currentRole ← lockTeamMember teamID c.userID
      runIf (p currentRole) (ensureAnotherTeamAdmin teamID c.userID)
      Tx.perform (alterMembers (rowOf (.member teamID c.userID)) row) : Transaction Unit).Wp c.notes
        (fun _ => AtCommit c.notes store) x := by
  refine (Tx.wp_bind _ _ _ _).2 (wp_lockTeamMember hx fun y current hy hlocked hcurrent => ?_)
  have hwrite : y.write = id := hy.write.trans hx
  -- the guard is asked for only where the role that was read demands it
  refine (Tx.wp_bind _ _ _ _).2 (wp_guardMember hwrite hlocked hcurrent fun z hz hguard hrow => ?_)
  refine (Tx.wp_perform _ _ _).2 ⟨⟨fun hl => absurd rfl hl, fun _ _ => ?_⟩, ?_⟩
  · exact ⟨fun _ hl => (nomatch hl), fun _ hl => (nomatch hl), fun hl => (nomatch hl)⟩
  · intro start found db b hfound _
    apply atCommit_alterMember (hz.write.trans hwrite) (hz.locks hlocked) hrow
    · rintro rfl hne
      exact hguard (hlost hne)
    · exact hwon
    · exact hfound

theorem outline_setTeamMemberRole (actor : Principal) (teamID userID role : Text) (db₀ : Db) :
    (setTeamMemberRole actor teamID userID role).Outline
      (TeamCall.setTeamMemberRole actor teamID userID role).notes ⟨[], ∅, db₀, id⟩ := by
  rw [setTeamMemberRole]
  cases hrole : Role.parse (trimSpace role) with
  | none => exact wp_fail _
  | some r =>
    refine (Tx.wp_bind _ _ _ _).2 ?_
    refine wp_quiet (each_authorizeTeamAdmin _ _) rfl fun _ x hx => ?_
    apply wp_changeMember (c := .setTeamMemberRole actor teamID userID role)
      (fun current => current = .admin ∧ r ≠ .admin) (fun _ => some r) hx.write
    · exact fun hne => ⟨rfl, fun heq => hne (congrArg some heq)⟩
    · rintro ⟨⟩ db hmember
      exact ⟨actor, role, rfl, hrole, hmember⟩

theorem outline_removeTeamMember (actor : Principal) (teamID userID : Text) (db₀ : Db) :
    (removeTeamMember actor teamID userID).Outline
      (TeamCall.removeTeamMember actor teamID userID).notes ⟨[], ∅, db₀, id⟩ := by
  refine (Tx.wp_bind _ _ _ _).2 ?_
  refine wp_quiet (each_authorizeTeamAdmin _ _) rfl fun _ x hx => ?_
  apply wp_changeMember (c := .removeTeamMember actor teamID userID) (fun current => current = .admin)
    (fun _ => none) hx.write
  · exact fun _ => rfl
  · exact fun hnone => (nomatch hnone)

/-! ## Behind the guards -/

/-- What the writes for a user leave of the teams and of the memberships; the memberships of the user in the
teams of `keep` stay those of an administrator. -/
structure Writes (userID : Text) (keep : Text → Prop) (a b : Db) : Prop where
  teams : ∀ t, (b.teams.lookup t).isSome → (a.teams.lookup t).isSome
  others : ∀ t u, u ≠ userID → b.members.lookup (t, u) = a.members.lookup (t, u)
  kept : ∀ t, keep t → a.IsTeamAdmin t userID → b.IsTeamAdmin t userID

/-- A statement with such a change, whatever rows it finds. -/
structure WriteOf (userID : Text) (keep : Text → Prop) {β : Type} (s : Stmt β) : Prop where
  label : s.label = .write ∨ s.label = .read
  change : ∀ found view y, (∀ k ∈ found, ∃ start, k ∈ s.rows start) →
    Writes userID keep y (s.change found view y)

/-- What a call knows while it writes: its user is locked, and it passed the guard of every team that is to
lose him. -/
structure Writing (c : TeamCall) (keep : Text → Prop) (x : View) : Prop where
  write : ∀ db, Writes c.userID keep db (x.write db)
  user : .user c.userID ∈ x.locks
  guards : ∀ db, Agree store x.locks x.snap db → ∀ t, ¬ keep t → db.IsTeamAdmin t c.userID →
    (∀ actor, c = .deleteUser actor c.userID → ∀ found, (.adminTeams, found) ∈ x.trace →
      .member t c.userID ∈ found) → .anotherTeamAdmin t ∈ x.trace.map Prod.fst

section

variable {c : TeamCall} {keep : Text → Prop} {x : View}

theorem Writing.atCommit (h : Writing c keep x) : AtCommit c.notes store x := by
  intro db hagree
  have hwrite := h.write db
  refine ⟨hwrite.teams, fun t u hadmin hgone => ?_, fun t u hadmin hnew => ?_⟩
  · by_cases hu : u = c.userID
    · subst hu
      refine ⟨rfl, h.guards db hagree t ?_ hadmin⟩
      exact fun hkeep => hgone (hwrite.kept t hkeep hadmin)
    · exact absurd ((hwrite.others t u hu).trans hadmin) hgone
  · by_cases hu : u = c.userID
    · rw [hu]
      exact Or.inl h.user
    · exact absurd ((hwrite.others t u hu).symm.trans hadmin) hnew

theorem wp_writes {α : Type} (keep : Text → Prop) {tx : Transaction α} (htx : tx.Each (WriteOf c.userID keep))
    (hx : Writing c keep x) : tx.Wp c.notes (fun _ => AtCommit c.notes store) x := by
  refine Tx.wp_of_each (P := WriteOf c.userID keep) (I := Writing c keep) htx ?_
    (fun _ _ hy => hy.atCommit) hx
  intro β s y hs hy
  -- a write begins none of the statements that notes are about
  have hlabel : s.label ≠ .adminTeams ∧ (∀ t, s.label ≠ .lockTeamAdmins t) ∧
      ∀ t, s.label ≠ .anotherTeamAdmin t := by
    rcases hs.label with hl | hl <;> simp [hl]
  refine ⟨⟨fun hwrite hread => ?_, fun _ _ => ⟨fun t ht => absurd ht (hlabel.2.1 t),
    fun t ht => absurd ht (hlabel.2.2 t), fun hl => absurd hl hlabel.1⟩⟩, fun start found db b hfound _ => ?_⟩
  · exact absurd hs.label (not_or.2 ⟨hwrite, hread⟩)
  · constructor
    · intro db'
      -- what is written now comes behind what was written before
      have hbefore := hy.write db'
      have hafter := hs.change found (y.write db) (y.write db') fun k hk => ⟨_, hfound.sound k hk⟩
      refine ⟨fun t ht => hbefore.teams t (hafter.teams t ht), fun t u hu => ?_, fun t hkeep hadmin => ?_⟩
      · exact (hafter.others t u hu).trans (hbefore.others t u hu)
      · exact hafter.kept t hkeep (hbefore.kept t hkeep hadmin)
    · exact Or.inr (Or.inl hy.user)
    · intro db' hagree t hkeep hadmin hlisted
      -- the guards passed before the first write, and their rows are locked since then
      have hguard := hy.guards db' (hfound.agree.trans (hagree.mono fun k hk => Or.inr (Or.inl hk))) t hkeep
        hadmin fun actor hc found' hmem => hlisted actor hc found' (List.mem_append_left _ hmem)
      simp only [Local.behind, List.map_append]
      exact List.mem_append_left _ hguard

theorem Writes.refl (userID : Text) (keep : Text → Prop) (db : Db) : Writes userID keep db db :=
  ⟨fun _ h => h, fun _ _ _ => rfl, fun _ _ h => h⟩

end

/-! ## `DeleteUser` -/

section

variable {userID : Text} {keep : Text → Prop} {β : Type} {s : Stmt β}

theorem writeOf_of_same (hlabel : s.label = .write ∨ s.label = .read)
    (hteams : ∀ found view y, (s.change found view y).teams = y.teams)
    (hmembers : ∀ found view y, (s.change found view y).members = y.members) : WriteOf userID keep s := by
  refine ⟨hlabel, fun found view y _ => ⟨fun t ht => ?_, fun t u _ => ?_, fun t _ hadmin => ?_⟩⟩
  · rw [hteams] at ht
    exact ht
  · rw [hmembers]
  · rw [Db.IsTeamAdmin, hmembers]
    exact hadmin

theorem writeOf_alterOthers (rows : Db → List Key) (answer : List Key → Db → Except Err Unit)
    (connection : ConnectionRow → Option ConnectionRow) (logSession : LogSessionRow → Option LogSessionRow)
    (auditEvent : AuditRow → Option AuditRow) :
    WriteOf userID keep (alterOthers rows answer connection logSession auditEvent) :=
  writeOf_of_same (Or.inl rfl) (fun _ _ _ => rfl) fun _ _ _ => rfl

theorem writeOf_restrictUser (constraint : Text) (refers : Db → Bool) :
    WriteOf userID keep (restrictUser constraint refers) :=
  writeOf_of_same (Or.inr rfl) (fun _ _ _ => rfl) fun _ _ _ => rfl

theorem writeOf_reassignTeams (id actorID : Text) : WriteOf userID keep (reassignTeams id actorID) := by
  refine ⟨Or.inl rfl, fun found view y _ => ⟨fun t ht => ?_, fun _ _ _ => rfl, fun _ _ hadmin => hadmin⟩⟩
  simp only [reassignTeams, alterTeams] at ht
  rw [Table.isSome_lookup_update] at ht
  exact ht

theorem writeOf_cascadeUserMembers (userID : Text) :
    WriteOf userID (fun _ => False) (cascadeUserMembers userID) := by
  refine ⟨Or.inl rfl, fun found view y hfound => ⟨fun t ht => ht, fun t u hu => ?_, fun _ hkeep => hkeep.elim⟩⟩
  apply Table.lookup_alter_of_not
  rw [decide_eq_false_iff_not]
  intro hmem
  obtain ⟨start, hrow⟩ := hfound _ hmem
  obtain ⟨⟨t', u'⟩, hkey, heq⟩ := List.mem_map.1 hrow
  obtain ⟨role, -, howner⟩ := Table.mem_keysWhere.1 hkey
  obtain ⟨-, rfl⟩ := Key.member.inj heq
  exact hu (of_decide_eq_true howner)

theorem each_deleteUserRows (userID actorID : Text) :
    (do
      Tx.perform (reassignConnectionsCreated userID actorID)
      Tx.perform (reassignConnectionsUpdated userID actorID)
      Tx.perform (reassignLogSessions userID actorID)
      Tx.perform (reassignTeams userID actorID)
      Tx.perform (clearAuditActor userID)
      let deleted ← deleteUserCascade userID
      failIf (deleted = 0) .notFound : Transaction Unit).Each (WriteOf userID fun _ => False) := by
  refine Tx.each_bind (Tx.each_perform (writeOf_alterOthers ..)) fun _ => ?_
  refine Tx.each_bind (Tx.each_perform (writeOf_alterOthers ..)) fun _ => ?_
  refine Tx.each_bind (Tx.each_perform (writeOf_alterOthers ..)) fun _ => ?_
  refine Tx.each_bind (Tx.each_perform (writeOf_reassignTeams ..)) fun _ => ?_
  refine Tx.each_bind (Tx.each_perform (writeOf_alterOthers ..)) fun _ => ?_
  refine Tx.each_bind ?_ fun _ => each_failIf _ _
  refine Tx.each_bind (Tx.each_perform ?_) fun _ => ?_
  · exact writeOf_of_same (Or.inl rfl) (fun _ _ _ => rfl) fun _ _ _ => rfl
  refine Tx.each_bind (Tx.each_perform (writeOf_restrictUser ..)) fun _ => ?_
  refine Tx.each_bind (Tx.each_perform (writeOf_cascadeUserMembers _)) fun _ => ?_
  refine Tx.each_bind (Tx.each_perform (writeOf_alterOthers ..)) fun _ => ?_
  refine Tx.each_bind (Tx.each_perform (writeOf_restrictUser ..)) fun _ => ?_
  refine Tx.each_bind (Tx.each_perform (writeOf_restrictUser ..)) fun _ => ?_
  refine Tx.each_bind (Tx.each_perform (writeOf_restrictUser ..)) fun _ => ?_
  refine Tx.each_bind (Tx.each_perform (writeOf_alterOthers ..)) fun _ => ?_
  exact Tx.each_bind (Tx.each_perform (writeOf_restrictUser ..)) fun _ => trivial

end

/-- The rows that `adminTeams` locks. -/
theorem mem_rows_adminTeams {userID t u : Text} {db : Db} :
    .member t u ∈ (adminTeams userID).rows db ↔ u = userID ∧ db.IsTeamAdmin t u := by
  simp only [adminTeams, selectForUpdate, List.mem_map]
  constructor
  · rintro ⟨⟨t', u'⟩, hkey, heq⟩
    obtain ⟨role, hrole, hp⟩ := Table.mem_keysWhere.1 hkey
    obtain ⟨rfl, rfl⟩ := Key.member.inj heq
    simp only [Bool.and_eq_true, decide_eq_true_eq] at hp
    rw [hp.2] at hrole
    exact ⟨hp.1, hrole⟩
  · rintro ⟨rfl, hadmin⟩
    exact ⟨(t, u), Table.mem_keysWhere.2 ⟨_, hadmin, by simp⟩, rfl⟩

theorem outline_deleteUser (actor : Principal) (userID : Text) (db₀ : Db) :
    (deleteUser actor userID).Outline (TeamCall.deleteUser actor userID).notes ⟨[], ∅, db₀, id⟩ := by
  refine (Tx.wp_bind _ _ _ _).2 ?_
  refine wp_quiet (each_authorizeSystemAdmin _) rfl fun _ x hx => ?_
  refine (Tx.wp_bind _ _ _ _).2 ?_
  refine wp_lockUser ((quiet_lockUser userID).begins hx.write) (fun y => wp_fail _) ?_
  intro found db u hagree hmem hu
  have hy := hx.trans (Later.behind x (s := lockUser userID) found hagree (fun _ _ _ => rfl)
    Label.noConfusion)
  -- From here on the user's row is locked, so what is read of the user holds to the end.
  have huser : Key.user userID ∈ (x.behind (lockUser userID) found db).locks := Or.inr (Or.inr hmem)
  generalize x.behind (lockUser userID) found db = y at hy huser
  refine (Tx.wp_bind _ _ _ _).2 (wp_failIf fun _ => ?_)
  refine (Tx.wp_bind _ _ _ _).2 ?_
  refine wp_quiet ?_ hy.write fun _ z hz => ?_
  · exact each_runIf (each_guardSystemAdmin userID)
  have hwrite : z.write = id := hz.write.trans hy.write
  refine (Tx.wp_bind _ _ _ _).2 ((Tx.wp_perform _ _ _).2 ⟨⟨fun _ _ => hwrite, fun _ _ => ?_⟩, ?_⟩)
  · exact ⟨fun _ hl => (nomatch hl), fun _ hl => (nomatch hl), fun _ => hz.locks huser⟩
  intro start listed db' ids hfound hresult
  -- The teams to guard are the listed ones the user is an admin of at that moment.
  have hids : ∀ t, t ∈ ids ↔ .member t userID ∈ listed ∧ db'.IsTeamAdmin t userID := by
    intro t
    rw [← Except.ok.inj hresult, hwrite, List.mem_filterMap]
    constructor
    · rintro ⟨k, hk, heq⟩
      split at heq
      · next t' u' =>
          obtain ⟨rfl, -⟩ := mem_rows_adminTeams.1 (hfound.sound _ hk)
          split at heq
          · next hadmin =>
              cases heq
              exact ⟨hk, hadmin⟩
          · cases heq
      · cases heq
    · rintro ⟨hk, hadmin⟩
      exact ⟨_, hk, if_pos hadmin⟩
  have hlisted : ∀ found', (.adminTeams, found') ∈ (z.behind (adminTeams userID) listed db').trace →
      found' = listed := by
    intro found' hmem'
    rcases List.mem_append.1 hmem' with hold | hnew
    · exact absurd (hy.adminTeams _ (hz.adminTeams _ hold)) List.not_mem_nil
    · exact (Prod.mk.inj (List.mem_singleton.1 hnew)).2
  have hlock : ∀ t, .member t userID ∈ listed →
      .member t userID ∈ (z.behind (adminTeams userID) listed db').locks := fun t ht => Or.inr (Or.inr ht)
  have hwrite' : (z.behind (adminTeams userID) listed db').write = id := hwrite
  have hsnap : (z.behind (adminTeams userID) listed db').snap = db' := rfl
  have huser' : Key.user userID ∈ (z.behind (adminTeams userID) listed db').locks :=
    Or.inr (Or.inl (hz.locks huser))
  have hpassed : (.adminTeams, listed) ∈ (z.behind (adminTeams userID) listed db').trace :=
    List.mem_append_right _ List.mem_cons_self
  generalize z.behind (adminTeams userID) listed db' = w at hlisted hlock hwrite' hsnap huser' hpassed
  refine (Tx.wp_bind _ _ _ _).2 ?_
  -- Each guard runs under the lock of the membership it is about.
  refine wp_forM_guards (c := .deleteUser actor userID) (fun _ => True) id ids hwrite' ?_ ?_
  · intro t ht _
    obtain ⟨hmem', hadmin⟩ := (hids t).1 ht
    refine ⟨hlock t hmem', ?_⟩
    rw [hsnap]
    exact Option.isSome_of_mem hadmin
  · intro v hv hguards
    apply wp_writes (c := .deleteUser actor userID) (fun _ => False) (each_deleteUserRows userID actor.user.id)
    refine ⟨fun db => ?_, hv.locks huser', fun db hagree' t _ hadmin hall => ?_⟩
    · rw [hv.write, hwrite']
      exact Writes.refl _ _ _
    · have hmem' := hall actor rfl listed (hv.trace.subset hpassed)
      apply hguards t ((hids t).2 ⟨hmem', ?_⟩) trivial
      -- The locked membership is the same at the commit, so an admin then was an admin when listed.
      have hsame := agree_member (hv.agree.trans (hagree'.mono hv.locks)) (hlock t hmem')
      rw [hsnap] at hsame
      exact hsame.symm.trans hadmin

/-! ## `SetUserTeamMemberships` -/

theorem mem_rows_memberships {userID t u : Text} {db : Db} :
    .member t u ∈ (memberships userID).rows db ↔ u = userID ∧ (db.members.lookup (t, u)).isSome := by
  simp only [memberships, selectForUpdate, List.mem_map]
  constructor
  · rintro ⟨⟨t', u'⟩, hkey, heq⟩
    obtain ⟨role, hrole, hp⟩ := Table.mem_keysWhere.1 hkey
    obtain ⟨rfl, rfl⟩ := Key.member.inj heq
    exact ⟨of_decide_eq_true hp, Option.isSome_of_mem hrole⟩
  · rintro ⟨rfl, hsome⟩
    obtain ⟨role, hrole⟩ := Option.isSome_iff_exists.1 hsome
    exact ⟨(t, u), Table.mem_keysWhere.2 ⟨role, hrole, by simp⟩, rfl⟩

/-- The memberships of a locked user: those that were found are locked, and there are no others. -/
structure Current (userID : Text) (current : List (Text × Role)) (x : View) : Prop where
  user : .user userID ∈ x.locks
  locked : ∀ t r, (t, r) ∈ current → .member t userID ∈ x.locks ∧
    x.snap.members.lookup (t, userID) = some r
  complete : ∀ db, Agree store x.locks x.snap db → ∀ t r, db.members.lookup (t, userID) = some r →
    (t, r) ∈ current

theorem Current.later {userID : Text} {current : List (Text × Role)} {x y : View}
    (h : Current userID current x) (hlater : Later x y) : Current userID current y := by
  refine ⟨hlater.locks h.user, fun t r hmem => ?_, fun db hagree => ?_⟩
  · obtain ⟨hlocked, hrow⟩ := h.locked t r hmem
    exact ⟨hlater.locks hlocked, (agree_member hlater.agree hlocked).trans hrow⟩
  · exact h.complete db (hlater.agree.trans (hagree.mono hlater.locks))

theorem wp_memberships {c : TeamCall} {userID : Text} {x : View} {Q : List (Text × Role) → View → Prop}
    (hx : x.write = id) (huser : .user userID ∈ x.locks)
    (hQ : ∀ current y, Later x y → Current userID current y → Q current y) :
    (Tx.perform (memberships userID)).Wp c.notes Q x := by
  have hquiet := quiet_memberships userID
  refine (Tx.wp_perform _ _ _).2 ⟨hquiet.begins hx, fun start found db current hfound hresult => ?_⟩
  have hcurrent : ∀ t r, (t, r) ∈ current ↔
      .member t userID ∈ found ∧ db.members.lookup (t, userID) = some r := by
    intro t r
    rw [← Except.ok.inj hresult, hx, List.mem_filterMap]
    constructor
    · rintro ⟨k, hk, heq⟩
      split at heq
      · obtain ⟨rfl, -⟩ := mem_rows_memberships.1 (hfound.sound _ hk)
        obtain ⟨role, hrole, hpair⟩ := Option.map_eq_some_iff.1 heq
        cases hpair
        exact ⟨hk, hrole⟩
      · cases heq
    · rintro ⟨hk, hrole⟩
      exact ⟨_, hk, Option.map_eq_some_iff.2 ⟨r, hrole, rfl⟩⟩
  apply hQ
  · exact Later.behind x found hfound.agree hquiet.change hquiet.adminTeams
  · refine ⟨Or.inr (Or.inl huser), fun t r hmem => ?_, fun db' hagree t r hrow => ?_⟩
    · obtain ⟨hk, hrole⟩ := (hcurrent t r).1 hmem
      exact ⟨Or.inr (Or.inr hk), hrole⟩
    · -- a locked user gets no new memberships, so this one was there in the snapshot and is there still
      have hthere : ∀ mid, Agree store x.locks mid db → (mid.members.lookup (t, userID)).isSome := by
        intro mid hmid
        by_contra hnone
        rw [Option.not_isSome_iff_eq_none] at hnone
        have hgone := agree_noMember (hmid.trans (hagree.mono fun k hk => Or.inr (Or.inl hk))) huser hnone
        rw [hgone] at hrow
        cases hrow
      have hrows : .member t userID ∈ (memberships userID).rows (x.write start) := by
        rw [hx]
        exact mem_rows_memberships.2 ⟨rfl, hthere start hfound.after⟩
      rcases hfound.complete _ hrows with hmem | ⟨mid, -, hmid, habsent⟩
      · rw [hcurrent]
        refine ⟨hmem, ?_⟩
        have hsame := agree_member hagree (Or.inr (Or.inr hmem))
        exact hsame.symm.trans hrow
      · rw [hx] at habsent
        exact absurd (hthere mid hmid) (by rw [id_eq] at habsent; exact Bool.eq_false_iff.1 habsent)

theorem writeOf_deleteMember {userID teamID : Text} {keep : Text → Prop} (hkeep : ¬ keep teamID) :
    WriteOf userID keep (deleteMember teamID userID) := by
  have hother : ∀ found (view y : Db), (∀ k ∈ found, ∃ start, k ∈ (deleteMember teamID userID).rows start) →
      ∀ t u, (t, u) ≠ (teamID, userID) →
        ((deleteMember teamID userID).change found view y).members.lookup (t, u) =
          y.members.lookup (t, u) := by
    intro found view y hfound t u hne
    apply Table.lookup_alter_of_not
    rw [decide_eq_false_iff_not]
    intro hmem
    obtain ⟨start, hrow⟩ := hfound _ hmem
    obtain ⟨rfl, rfl⟩ := Key.member.inj (mem_rowOf.1 hrow).1
    exact hne rfl
  refine ⟨Or.inl rfl, fun found view y hfound => ⟨fun t ht => ht, fun t u hu => ?_, fun t ht hadmin => ?_⟩⟩
  · exact hother found view y hfound t u fun heq => hu (Prod.mk.inj heq).2
  · refine (hother found view y hfound t userID fun heq => hkeep ?_).trans hadmin
    rw [← (Prod.mk.inj heq).1]
    exact ht

theorem writeOf_upsertMember {operation userID teamID : Text} {role : Role} {keep : Text → Prop}
    (hkeep : keep teamID → role = .admin) :
    WriteOf userID keep (upsertMember operation teamID userID role.text) := by
  have hchange : ∀ found (view y : Db),
      (upsertMember operation teamID userID role.text).change found view y =
        { y with members := y.members.insert (teamID, userID) role } := by
    intro found view y
    simp only [upsertMember, putMember, Role.parse_text, if_pos]
  refine ⟨Or.inl rfl, fun found view y _ => ?_⟩
  rw [hchange]
  refine ⟨fun t ht => ht, fun t u hu => ?_, fun t ht hadmin => ?_⟩
  · exact AList.lookup_insert_ne fun heq => hu (Prod.mk.inj heq).2
  · by_cases hteam : t = teamID
    · subst hteam
      rw [hkeep ht]
      exact AList.lookup_insert _
    · exact (AList.lookup_insert_ne fun heq => hteam (Prod.mk.inj heq).1).trans hadmin

theorem desiredRole_of_mem {l : List (Text × Role)} (h : (l.map Prod.fst).Nodup) {a : Text × Role}
    (ha : a ∈ l) : desiredRole l a.1 = some a.2 := by
  induction l with
  | nil => exact absurd ha List.not_mem_nil
  | cons b l ih =>
    rw [List.map_cons, List.nodup_cons] at h
    rw [desiredRole_cons]
    rcases List.mem_cons.1 ha with rfl | ha
    · rw [if_pos rfl]
    · rw [if_neg, ih h.2 ha]
      intro heq
      exact h.1 (heq ▸ List.mem_map_of_mem ha)

theorem outline_setUserTeamMemberships (guards deletes : MapOrder) (actor : Principal) (userID : Text)
    (assignments : List TeamAssignment) (db₀ : Db) :
    (setUserTeamMemberships guards deletes actor userID assignments).Outline
      (TeamCall.setUserTeamMemberships guards deletes actor userID assignments).notes
        ⟨[], ∅, db₀, id⟩ := by
  refine (Tx.wp_bind _ _ _ _).2 ((Tx.wp_done _ _ _).2 fun normalized hnormalized => ?_)
  have hdistinct := (normalizeAssignments_nodup hnormalized).1
  refine (Tx.wp_bind _ _ _ _).2 ?_
  refine wp_quiet (each_authorizeSystemAdmin _) rfl fun _ x hx => ?_
  have hquiet := quiet_targetExists userID
  refine (Tx.wp_bind _ _ _ _).2 ((Tx.wp_perform _ _ _).2 ⟨hquiet.begins hx.write, ?_⟩)
  intro start found db exists_ hfound hresult
  refine (Tx.wp_bind _ _ _ _).2 (wp_failIf fun hexists => ?_)
  -- The lookup locks the user's row where it finds one.
  have hmem : .user userID ∈ found := by
    rw [Bool.not_eq_false, ← Except.ok.inj hresult] at hexists
    exact of_decide_eq_true hexists
  have hy := Later.behind x found hfound.agree hquiet.change hquiet.adminTeams
  refine (Tx.wp_bind _ _ _ _).2 ?_
  refine wp_memberships (c := .setUserTeamMemberships guards deletes actor userID assignments)
    (hy.write.trans hx.write) (Or.inr (Or.inr hmem)) fun current z hz hcurrent => ?_
  have hwrite : z.write = id := hz.write.trans (hy.write.trans hx.write)
  refine (Tx.wp_bind _ _ _ _).2 ?_
  -- The guards run over the memberships read under the lock, in whatever order the map yields.
  refine wp_forM_guards (c := .setUserTeamMemberships guards deletes actor userID assignments)
    (fun a => a.2 = .admin ∧ desiredRole normalized a.1 ≠ some .admin) Prod.fst
    (guards.order current) hwrite ?_ ?_
  · rintro ⟨t, r⟩ ha -
    obtain ⟨hlocked, hrow⟩ := hcurrent.locked t r ((guards.perm current).mem_iff.1 ha)
    exact ⟨hlocked, Option.isSome_of_mem hrow⟩
  · intro w hw hguards
    have hcurrent' := hcurrent.later hw
    apply wp_writes (c := .setUserTeamMemberships guards deletes actor userID assignments)
      (fun t => desiredRole normalized t = some .admin)
    · -- The deletes take no kept admin away, and the inserts write the desired role.
      refine Tx.each_bind (Tx.each_forM ?_ _) fun _ => Tx.each_forM_of_mem ?_
      · rintro ⟨t, r⟩
        show (runIf (desiredRole normalized t = none) _).Each _
        rw [runIf]
        split
        · next hnone =>
            apply Tx.each_perform
            apply writeOf_deleteMember
            rw [hnone]
            exact fun h => absurd h (by simp)
        · trivial
      · rintro ⟨t, r⟩ ha
        refine Tx.each_bind (Tx.each_perform ?_) fun _ => trivial
        apply writeOf_upsertMember
        intro hkeep
        rw [desiredRole_of_mem hdistinct ha] at hkeep
        exact Option.some.inj hkeep
    · refine ⟨fun db => ?_, hcurrent'.user, fun db' hagree t hkeep hadmin _ => ?_⟩
      · rw [hw.write, hwrite]
        exact Writes.refl _ _ _
      · -- An admin at the commit is among the memberships read, so the guard has run for the team.
        have hmem' := hcurrent'.complete db' hagree t .admin hadmin
        exact hguards (t, .admin) ((guards.perm current).mem_iff.2 hmem') ⟨rfl, hkeep⟩

theorem TeamCall.outline (c : TeamCall) (db : Db) : c.tx.Outline c.notes ⟨[], ∅, db, id⟩ := by
  cases c with
  | deleteUser actor userID => exact outline_deleteUser actor userID db
  | setTeamMemberRole actor teamID userID role => exact outline_setTeamMemberRole actor teamID userID role db
  | removeTeamMember actor teamID userID => exact outline_removeTeamMember actor teamID userID db
  | setUserTeamMemberships guards deletes actor userID assignments =>
    exact outline_setUserTeamMemberships guards deletes actor userID assignments db

end Workbench.Identity
