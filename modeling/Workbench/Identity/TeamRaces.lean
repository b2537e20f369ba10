import Workbench.Identity.TeamAdmins
import Workbench.Identity.TeamGuards

/-!
# The last administrator of a team

Two transactions that take administrators from one team cannot both be past their guards: each has locked the
member that it takes before it locks all members, so the later one of the two still waits for the member of the
other. What the guard has seen is therefore true until the commit. `DeleteUser` is the exception: a member who
becomes an administrator behind its query for the teams goes without a guard.
-/

set_option autoImplicit false

namespace Workbench.Identity

open Workbench.Lib

/-! ## What the statements tell -/

/-- The rows that the guards are about are among those that their statements lock. -/
def LocksMembers (userID : Text) {β : Type} (s : Stmt β) : Prop :=
  (∀ t, s.label = .lockTeamAdmins t → ∀ (db : Db) u, (db.members.lookup (t, u)).isSome →
    .member t u ∈ s.rows db) ∧
  (s.label = .adminTeams → ∀ (db : Db) t, db.IsTeamAdmin t userID → .member t userID ∈ s.rows db)

/-- What a guard has seen. -/
def SawAnother (userID : Text) (l : Label) (view : Db) : Prop :=
  ∀ t, l = .anotherTeamAdmin t → view.OtherTeamAdmin t userID

section

variable {α : Type} {userID : Text}

theorem tells_of_labels {β : Type} {s : Stmt β} (hteams : s.label ≠ .adminTeams)
    (hlock : ∀ t, s.label ≠ .lockTeamAdmins t) (hanother : ∀ t, s.label ≠ .anotherTeamAdmin t) :
    LocksMembers userID s ∧ ∀ view, SawAnother userID s.label view :=
  ⟨⟨fun t hl => absurd hl (hlock t), fun hl => absurd hl hteams⟩, fun _ t hl => absurd hl (hanother t)⟩

theorem tells_of_quiet {tx : Transaction α} (htx : tx.Each Quiet) :
    tx.Tells (LocksMembers userID) (SawAnother userID) :=
  Tx.tells_of_each htx fun _ hs => tells_of_labels hs.adminTeams hs.lockTeamAdmins hs.anotherTeamAdmin

theorem tells_of_writes {id : Text} {keep : Text → Prop} {tx : Transaction α} (htx : tx.Each (WriteOf id keep)) :
    tx.Tells (LocksMembers userID) (SawAnother userID) := by
  refine Tx.tells_of_each htx fun s hs => ?_
  apply tells_of_labels
  · rcases hs.label with hl | hl <;> simp [hl]
  · rcases hs.label with hl | hl <;> simp [hl]
  · rcases hs.label with hl | hl <;> simp [hl]

theorem tells_failIf (p : Prop) [Decidable p] (s : Sentinel) :
    (failIf p s).Tells (LocksMembers userID) (SawAnother userID) := tells_of_quiet (each_failIf p s)

theorem tells_runIf {p : Prop} [Decidable p] {tx : Transaction Unit}
    (h : tx.Tells (LocksMembers userID) (SawAnother userID)) :
    (runIf p tx).Tells (LocksMembers userID) (SawAnother userID) := by
  rw [runIf]
  split
  · exact h
  · trivial

theorem tells_ensureAnotherTeamAdmin (teamID userID : Text) :
    (ensureAnotherTeamAdmin teamID userID).Tells (LocksMembers userID) (SawAnother userID) := by
  refine ⟨⟨?_, fun hl => (nomatch hl)⟩, fun _ _ _ _ => ⟨Or.inr fun _ hl => (nomatch hl), ?_⟩⟩
  · rintro t ⟨⟩ db u hmember
    obtain ⟨role, hrole⟩ := Option.isSome_iff_exists.1 hmember
    exact List.mem_map.2 ⟨(teamID, u), Table.mem_keysWhere.2 ⟨role, hrole, decide_eq_true rfl⟩, rfl⟩
  · refine ⟨⟨fun _ hl => (nomatch hl), fun hl => (nomatch hl)⟩, fun found view b hresult => ?_⟩
    refine ⟨?_, tells_failIf _ _⟩
    have hb : view.members.any (fun id role => id.1 = teamID && id.2 ≠ userID && role = .admin) = b :=
      Except.ok.inj hresult
    -- a guard that is not told of another administrator fails
    cases b with
    | false => exact Or.inl trivial
    | true =>
      obtain ⟨⟨t, w⟩, role, hrole, hp⟩ := Table.any_iff.1 hb
      simp only [Bool.and_eq_true, decide_eq_true_eq] at hp
      obtain ⟨⟨rfl, hne⟩, rfl⟩ := hp
      right
      rintro t ⟨⟩
      exact ⟨w, hne, hrole⟩

theorem each_lockTeamMember (teamID userID : Text) : (lockTeamMember teamID userID).Each Quiet := by
  refine Tx.each_bind (Tx.each_perform (quiet_lockMember _ _)) fun role => ?_
  cases role with
  | none => trivial
  | some role => trivial

/-- `SetTeamMemberRole` and `RemoveTeamMember` behind the check of the rights. -/
theorem tells_alterMember (teamID userID : Text) (p : Role → Prop) [DecidablePred p]
    (row : Role → Option Role) :
    (do
      let currentRole ← lockTeamMember teamID userID
      runIf (p currentRole) (ensureAnotherTeamAdmin teamID userID)
      Tx.perform (alterMembers (rowOf (.member teamID userID)) row) : Transaction Unit).Tells
        (LocksMembers userID) (SawAnother userID) := by
  refine Tx.tells_bind (tells_of_quiet (each_lockTeamMember teamID userID)) fun current => ?_
  refine Tx.tells_bind (tells_runIf (tells_ensureAnotherTeamAdmin teamID userID)) fun _ => ?_
  exact ⟨⟨fun _ hl => (nomatch hl), fun hl => (nomatch hl)⟩,
    fun _ _ _ _ => ⟨Or.inr fun _ hl => (nomatch hl), trivial⟩⟩

theorem TeamCall.tells (c : TeamCall) : c.tx.Tells (LocksMembers c.userID) (SawAnother c.userID) := by
  cases c with
  | deleteUser actor userID =>
    refine Tx.tells_bind (tells_of_quiet (each_authorizeSystemAdmin _)) fun _ => ?_
    refine Tx.tells_bind (tells_of_quiet (Tx.each_perform (quiet_lockUser _))) fun u => ?_
    cases u with
    | none => trivial
    | some u =>
      refine Tx.tells_bind (tells_failIf _ _) fun _ => ?_
      refine Tx.tells_bind (tells_runIf (tells_of_quiet (each_guardSystemAdmin userID))) fun _ => ?_
      refine Tx.tells_bind ?_ fun ids => ?_
      · refine ⟨⟨fun _ hl => (nomatch hl), fun _ db t hadmin => ?_⟩,
          fun _ _ _ _ => ⟨Or.inr fun _ hl => (nomatch hl), trivial⟩⟩
        exact mem_rows_adminTeams.2 ⟨rfl, hadmin⟩
      -- the guards of all teams come before the first row is written
      refine Tx.tells_bind (Tx.tells_forM (fun t => tells_ensureAnotherTeamAdmin t userID) ids) fun _ => ?_
      exact tells_of_writes (each_deleteUserRows userID actor.user.id)
  | setTeamMemberRole actor teamID userID role =>
    show (Identity.setTeamMemberRole actor teamID userID role).Tells _ _
    rw [Identity.setTeamMemberRole]
    split
    · trivial
    · next r _ =>
        refine Tx.tells_bind (tells_of_quiet (each_authorizeTeamAdmin _ _)) fun _ => ?_
        exact tells_alterMember teamID userID (fun current => current = .admin ∧ r ≠ .admin) fun _ => some r
  | removeTeamMember actor teamID userID =>
    refine Tx.tells_bind (tells_of_quiet (each_authorizeTeamAdmin _ _)) fun _ => ?_
    exact tells_alterMember teamID userID (fun current => current = .admin) fun _ => none
  | setUserTeamMemberships guards deletes actor userID assignments =>
    have hplain : ∀ {β : Type} {s : Stmt β}, Quiet s →
        (Tx.perform s).Tells (LocksMembers userID) (SawAnother userID) :=
      fun hs => tells_of_quiet (Tx.each_perform hs)
    have hwrite : ∀ {β : Type} {s : Stmt β}, s.label = .write →
        (Tx.perform s).Tells (LocksMembers userID) (SawAnother userID) := by
      intro β s hl
      obtain ⟨hlocks, hsaw⟩ := @tells_of_labels userID β s (by simp [hl]) (by simp [hl]) (by simp [hl])
      exact ⟨hlocks, fun _ view _ _ => ⟨Or.inr (hsaw view), trivial⟩⟩
    refine Tx.tells_bind ?_ fun normalized => ?_
    · cases normalizeAssignments assignments [] <;> trivial
    refine Tx.tells_bind (tells_of_quiet (each_authorizeSystemAdmin _)) fun _ => ?_
    refine Tx.tells_bind (hplain (quiet_targetExists userID)) fun _ => ?_
    refine Tx.tells_bind (tells_failIf _ _) fun _ => ?_
    refine Tx.tells_bind (hplain (quiet_memberships userID)) fun current => ?_
    refine Tx.tells_bind (Tx.tells_forM (fun a => ?_) _) fun _ => ?_
    · exact tells_runIf (tells_ensureAnotherTeamAdmin a.1 userID)
    refine Tx.tells_bind (Tx.tells_forM (fun a => ?_) _) fun _ => Tx.tells_forM (fun a => ?_) _
    · exact tells_runIf (hwrite rfl)
    · exact Tx.tells_bind (hwrite rfl) fun _ => trivial

end

/-! ## Invariants -/

/-- A transaction on its way that has begun a statement. -/
def Began (p : Proc store Label Err Unit) (l : Label) : Prop := ¬ p.isFinished ∧ l ∈ p.begun

/-- The transaction has not got past the lock of the members of a team for the first time, and the row is
still to be locked. -/
def AwaitsMember (p : Proc store Label Err Unit) (t : Text) (k : Key) : Prop :=
  .lockTeamAdmins t ∉ p.trace.map Prod.fst ∧
    match p.phase with
    | .locking s _ todo _ => s.label = .lockTeamAdmins t ∧ k ∈ todo
    | _ => False

/-- Every team in which the user is an administrator is among those that were found, or will be. -/
def ListsTeams (userID : Text) (p : Proc store Label Err Unit) (db : Db) : Prop :=
  (∀ found, (.adminTeams, found) ∈ p.trace → ∀ t, db.IsTeamAdmin t userID → .member t userID ∈ found) ∧
    match p.phase with
    | .locking s _ todo got =>
      s.label = .adminTeams → ∀ t, db.IsTeamAdmin t userID → .member t userID ∈ todo ∨ .member t userID ∈ got
    | _ => True

section

variable {c : TeamCall} {busy : Key → Prop} {p p' : Proc store Label Err Unit} {db db' : Db}

/-- One step of a transaction while the row `k` of the team is locked by another one. -/
theorem awaitsMember_step {X : Prop} {t : Text} {k : Key} (hinv : p.Inv c.notes db)
    (htells : p.Tells (LocksMembers c.userID) (SawAnother c.userID)) (hstep : p.Step busy db db' p')
    (hbusy : busy k) (hk : ∃ u, k = .member t u ∧ (db.members.lookup (t, u)).isSome)
    (h : Began p (.lockTeamAdmins t) → AwaitsMember p t k ∨ X) :
    Began p' (.lockTeamAdmins t) → AwaitsMember p' t k ∨ X := by
  rintro ⟨hunfinished, hbegun⟩
  obtain ⟨u, rfl, hpresent⟩ := hk
  cases hstep with
  | @begin β s next write locks trace =>
    -- it is this statement that begins, or the lock was begun before
    by_cases hold : .lockTeamAdmins t ∈ trace.map Prod.fst
    · have hbegan : Began ⟨.ready (.stmt s next), write, locks, trace⟩ (.lockTeamAdmins t) :=
        ⟨Proc.unfinished_of_ready rfl, List.mem_append_left _ hold⟩
      rcases h hbegan with ⟨-, hwaits⟩ | hX
      · exact hwaits.elim
      · exact Or.inr hX
    · have hl : s.label = .lockTeamAdmins t :=
        (List.mem_singleton.1 ((List.mem_append.1 hbegun).resolve_left hold)).symm
      have hwrite : write = id := hinv.entry_of_ready rfl (by simp [hl]) (by simp [hl])
      refine Or.inl ⟨hold, hl, ?_⟩
      rw [hwrite]
      exact htells.1.1 t hl db u hpresent
  | @lock β s next write locks trace k' todo got hfree hthere =>
    have hbegan : Began ⟨.locking s next (k' :: todo) got, write, locks, trace⟩ (.lockTeamAdmins t) :=
      ⟨Proc.unfinished_of_locking rfl, hbegun⟩
    rcases h hbegan with ⟨hold, hl, hmem⟩ | hX
    · rcases List.mem_cons.1 hmem with rfl | hmem
      · -- the row that is waited for is not free
        exact absurd hbusy hfree
      · exact Or.inl ⟨hold, hl, hmem⟩
    · exact Or.inr hX
  | @skip β s next write locks trace k' todo got hgone =>
    have hbegan : Began ⟨.locking s next (k' :: todo) got, write, locks, trace⟩ (.lockTeamAdmins t) :=
      ⟨Proc.unfinished_of_locking rfl, hbegun⟩
    rcases h hbegan with ⟨hold, hl, hmem⟩ | hX
    · rcases List.mem_cons.1 hmem with rfl | hmem
      · have hwrite : write = id := hinv.entry_of_locking rfl (by simp [hl]) (by simp [hl])
        rw [hwrite] at hgone
        -- nor is it skipped, because it is there
        exact absurd hpresent (Bool.eq_false_iff.1 hgone)
      · exact Or.inl ⟨hold, hl, hmem⟩
    · exact Or.inr hX
  | @exec β s next write locks trace got b hfree hresult =>
    have hbegan : Began ⟨.locking s next [] got, write, locks, trace⟩ (.lockTeamAdmins t) := by
      refine ⟨Proc.unfinished_of_locking rfl, ?_⟩
      simpa [Proc.begun] using hbegun
    rcases h hbegan with ⟨-, -, hmem⟩ | hX
    · exact absurd hmem List.not_mem_nil
    · exact Or.inr hX
  | _ => exact absurd ⟨_, rfl⟩ hunfinished

/-- What a guard has seen when it passes. -/
theorem sawAnother_step {t : Text} (hinv : p.Inv c.notes db)
    (htells : p.Tells (LocksMembers c.userID) (SawAnother c.userID)) (hstep : p.Step busy db db' p')
    (h : ¬ p.isFinished → ¬ p.Fails → .anotherTeamAdmin t ∈ p.trace.map Prod.fst →
      db.OtherTeamAdmin t c.userID)
    (hunfinished : ¬ p'.isFinished) (hfails : ¬ p'.Fails)
    (hpassed : .anotherTeamAdmin t ∈ p'.trace.map Prod.fst) : db'.OtherTeamAdmin t c.userID := by
  cases hstep with
  | begin => exact h (Proc.unfinished_of_ready rfl) id hpassed
  | lock hfree hthere => exact h (Proc.unfinished_of_locking rfl) id hpassed
  | skip hgone => exact h (Proc.unfinished_of_locking rfl) id hpassed
  | @exec β s next write locks trace got b hfree hresult =>
    rw [List.map_append, List.mem_append] at hpassed
    rcases hpassed with hold | hnew
    · exact h (Proc.unfinished_of_locking rfl) id hold
    · have hl : s.label = .anotherTeamAdmin t := (List.mem_singleton.1 hnew).symm
      have hwrite : write = id := hinv.entry_of_locking rfl (by simp [hl]) (by simp [hl])
      -- the guard itself, which sees the committed state because nothing is written yet
      have hsaw := ((htells.2 got (write db) b hresult).1.resolve_left hfails) t hl
      rw [hwrite] at hsaw
      exact hsaw
  | _ => exact absurd ⟨_, rfl⟩ hunfinished

/-- The others make no administrator of the user once the query has begun. -/
theorem ListsTeams.other {userID : Text} (h : ListsTeams userID p db)
    (hold : .adminTeams ∈ p.begun → ∀ t, db'.IsTeamAdmin t userID → db.IsTeamAdmin t userID) :
    ListsTeams userID p db' := by
  obtain ⟨phase, write, locks, trace⟩ := p
  obtain ⟨hfound, hlists⟩ := h
  refine ⟨fun found hmem t hadmin => ?_, ?_⟩
  · apply hfound found hmem t
    exact hold (List.mem_append_left _ (List.mem_map.2 ⟨_, hmem, rfl⟩)) t hadmin
  · cases phase with
    | locking s next todo got =>
      intro hl t hadmin
      apply hlists hl t
      apply hold _ t hadmin
      exact List.mem_append_right _ (List.mem_singleton.2 hl.symm)
    | _ => trivial

/-- One step of the query for the teams of a user. -/
theorem listsTeams_step (hinv : p.Inv c.notes db)
    (htells : p.Tells (LocksMembers c.userID) (SawAnother c.userID)) (hstep : p.Step busy db db' p')
    (h : ¬ p.isFinished → ListsTeams c.userID p db) (hunfinished : ¬ p'.isFinished) :
    ListsTeams c.userID p' db' := by
  cases hstep with
  | @begin β s next write locks trace =>
    obtain ⟨hfound, -⟩ := h (Proc.unfinished_of_ready rfl)
    refine ⟨hfound, fun hl t hadmin => Or.inl ?_⟩
    have hwrite : write = id := hinv.entry_of_ready rfl (by simp [hl]) (by simp [hl])
    rw [hwrite]
    exact htells.1.2 hl db t hadmin
  | @lock β s next write locks trace k todo got hfree hthere =>
    obtain ⟨hfound, hlists⟩ := h (Proc.unfinished_of_locking rfl)
    refine ⟨hfound, fun hl t hadmin => ?_⟩
    rcases hlists hl t hadmin with hmem | hmem
    · rcases List.mem_cons.1 hmem with rfl | hmem
      · exact Or.inr (List.mem_append_right _ List.mem_cons_self)
      · exact Or.inl hmem
    · exact Or.inr (List.mem_append_left _ hmem)
  | @skip β s next write locks trace k todo got hgone =>
    obtain ⟨hfound, hlists⟩ := h (Proc.unfinished_of_locking rfl)
    refine ⟨hfound, fun hl t hadmin => ?_⟩
    rcases hlists hl t hadmin with hmem | hmem
    · rcases List.mem_cons.1 hmem with rfl | hmem
      · have hwrite : write = id := hinv.entry_of_locking rfl (by simp [hl]) (by simp [hl])
        rw [hwrite] at hgone
        -- a row of the list that is skipped is gone
        exact absurd (Option.isSome_of_mem hadmin) (Bool.eq_false_iff.1 hgone)
      · exact Or.inl hmem
    · exact Or.inr hmem
  | @exec β s next write locks trace got b hfree hresult =>
    obtain ⟨hfound, hlists⟩ := h (Proc.unfinished_of_locking rfl)
    refine ⟨fun found hmem t hadmin => ?_, trivial⟩
    rcases List.mem_append.1 hmem with hold | hnew
    · exact hfound found hold t hadmin
    · -- the query itself, whose rows are all locked
      obtain ⟨hl, rfl⟩ := Prod.mk.inj (List.mem_singleton.1 hnew)
      rcases hlists hl.symm t hadmin with hmem | hmem
      · exact absurd hmem List.not_mem_nil
      · exact hmem
  | _ => exact absurd ⟨_, rfl⟩ hunfinished

end

/-! ## Systems -/

abbrev TeamSystem (ι : Type) : Type 1 := System store Label Err Unit ι

section

variable {ι : Type} [DecidableEq ι] {calls : ι → TeamCall} {σ σ' : TeamSystem ι} {i j : ι}

/-- When `SetTeamMemberRole` commits and makes an administrator of a plain member, no `DeleteUser` of this
member has come to its query for the teams that he is an administrator of. -/
def PromotesInTime (calls : ι → TeamCall) (i : ι) (σ σ' : TeamSystem ι) : Prop :=
  (∃ a, (σ'.procs i).phase = .finished (some (.ok a))) →
    ∀ t u, (calls i).Promotes σ.committed t u → ∀ j actor, calls j = .deleteUser actor u →
      ¬ Began (σ.procs j) .adminTeams

/-- Of two transactions that have begun to lock the members of one team one still waits for the member of the
other; a guard that passed is still right; and `DeleteUser` knows the teams of its user. -/
structure Raced (calls : ι → TeamCall) (σ : TeamSystem ι) : Prop where
  tells : ∀ i, (σ.procs i).Tells (LocksMembers (calls i).userID) (SawAnother (calls i).userID)
  apart : ∀ i j t, i ≠ j → Began (σ.procs i) (.lockTeamAdmins t) → Began (σ.procs j) (.lockTeamAdmins t) →
    AwaitsMember (σ.procs i) t (.member t (calls j).userID) ∨
      AwaitsMember (σ.procs j) t (.member t (calls i).userID)
  saw : ∀ i t, ¬ (σ.procs i).isFinished → ¬ (σ.procs i).Fails →
    .anotherTeamAdmin t ∈ (σ.procs i).trace.map Prod.fst → σ.committed.OtherTeamAdmin t (calls i).userID
  lists : ∀ i actor u, calls i = .deleteUser actor u → ¬ (σ.procs i).isFinished →
    ListsTeams u (σ.procs i) σ.committed
  teams : σ.committed.TeamsHaveAdmins

abbrev TeamInv (calls : ι → TeamCall) (σ : TeamSystem ι) : Prop := σ.Inv fun i => (calls i).notes

omit [DecidableEq ι] in
/-- The member of a transaction that has begun the guard of a team is there, and it is locked. -/
theorem member_of_began (hinv : TeamInv calls σ) {t : Text} (h : Began (σ.procs i) (.lockTeamAdmins t)) :
    .member t (calls i).userID ∈ (σ.procs i).locks ∧
      (σ.committed.members.lookup (t, (calls i).userID)).isSome :=
  ((hinv.proc i).facts h.1 _ h.2).1 t rfl

omit [DecidableEq ι] in
/-- Two transactions cannot both be past the lock of the members of one team. -/
theorem Raced.not_both (h : Raced calls σ) (hinv : TeamInv calls σ) (hij : i ≠ j) {t : Text}
    (hi : ¬ (σ.procs i).isFinished) (hj : ¬ (σ.procs j).isFinished)
    (hpassed : .anotherTeamAdmin t ∈ (σ.procs i).trace.map Prod.fst)
    (hpassed' : .anotherTeamAdmin t ∈ (σ.procs j).trace.map Prod.fst) : False := by
  have hlocked := ((hinv.proc i).facts hi _ (List.mem_append_left _ hpassed)).2.1 t rfl
  have hlocked' := ((hinv.proc j).facts hj _ (List.mem_append_left _ hpassed')).2.1 t rfl
  -- one of them would still be waiting for the member of the other
  rcases h.apart i j t hij ⟨hi, List.mem_append_left _ hlocked⟩ ⟨hj, List.mem_append_left _ hlocked'⟩ with
    hwaits | hwaits
  · exact hwaits.1 hlocked
  · exact hwaits.1 hlocked'

section

variable {db : Db} {p : Proc store Label Err Unit}

omit [DecidableEq ι] in
/-- A transaction takes an administrator away only at its commit, and behind its guard. -/
theorem Raced.lost (h : Raced calls σ) (hinv : TeamInv calls σ) {busy : Key → Prop}
    (hstep : (σ.procs i).Step busy σ.committed db p) {t u : Text} (hadmin : σ.committed.IsTeamAdmin t u)
    (hgone : ¬ db.IsTeamAdmin t u) : u = (calls i).userID ∧ ¬ (σ.procs i).isFinished ∧
      ¬ (σ.procs i).Fails ∧ .anotherTeamAdmin t ∈ (σ.procs i).trace.map Prod.fst := by
  obtain ⟨a, hphase, rfl, -⟩ | ⟨rfl, -⟩ := hstep.commits_or
  · have hunfinished := Proc.unfinished_of_ready hphase
    obtain ⟨rfl, hguard⟩ := ((hinv.proc i).post_of_ready hphase).lost t u hadmin hgone
    refine ⟨rfl, hunfinished, ?_, hguard fun actor hcall found hfound => ?_⟩
    · rw [Proc.Fails, hphase]
      exact id
    · exact (h.lists i actor _ hcall hunfinished).1 found hfound t hadmin
  · exact absurd hadmin hgone

omit [DecidableEq ι] in
/-- No one becomes an administrator behind the query of the one who deletes him. -/
theorem won_of_lists (hinv : TeamInv calls σ) (hij : i ≠ j) {busy : Key → Prop}
    (hstep : (σ.procs i).Step busy σ.committed db p)
    (hcond : (∃ a, p.phase = .finished (some (.ok a))) → ∀ t u, (calls i).Promotes σ.committed t u →
      ∀ j actor, calls j = .deleteUser actor u → ¬ Began (σ.procs j) .adminTeams)
    {actor : Principal} {u : Text} (hcall : calls j = .deleteUser actor u)
    (hbegan : Began (σ.procs j) .adminTeams) {t : Text} (hadmin : db.IsTeamAdmin t u) :
    σ.committed.IsTeamAdmin t u := by
  by_contra hnew
  generalize hp : σ.procs i = q at hstep
  cases hstep with
  | @commit a write locks trace =>
    have hinv' := hinv.proc i
    rw [hp] at hinv'
    rcases hinv'.post_of_commit.won t u hadmin hnew with hlocked | hpromotes
    · -- the one who deletes a user holds the lock of the user
      have huser := ((hinv.proc j).facts hbegan.1 _ hbegan.2).2.2 rfl
      rw [hcall] at huser
      refine hinv.exclusive i j _ hij ?_ huser
      rw [hp]
      exact hlocked
    · exact hcond ⟨a, rfl⟩ t u hpromotes j actor hcall hbegan
  | _ => exact hnew hadmin

end

theorem Raced.step (h : Raced calls σ) (hinv : TeamInv calls σ) (hstep : System.StepBy i σ σ')
    (hcond : PromotesInTime calls i σ σ') : Raced calls σ' := by
  obtain ⟨hp⟩ := hstep
  rename_i db p
  rw [PromotesInTime, System.procs_self] at hcond
  have hself : ∀ {db' : Db}, (⟨db', Function.update σ.procs i p⟩ : TeamSystem ι).procs i = p :=
    System.procs_self ..
  have hother : ∀ {db' : Db} {k : ι}, k ≠ i →
      (⟨db', Function.update σ.procs i p⟩ : TeamSystem ι).procs k = σ.procs k := fun hk => System.procs_of_ne hk ..
  -- what the transaction of this step waits for, where another one has begun the guard of the same team
  have happart : ∀ k t, k ≠ i → Began p (.lockTeamAdmins t) → Began (σ.procs k) (.lockTeamAdmins t) →
      AwaitsMember p t (.member t (calls k).userID) ∨
        AwaitsMember (σ.procs k) t (.member t (calls i).userID) := by
    intro k t hk hbegan hbegan'
    obtain ⟨hlocked, hpresent⟩ := member_of_began hinv hbegan'
    refine awaitsMember_step (hinv.proc i) (h.tells i) hp ⟨k, hk, hlocked⟩ ⟨_, rfl, hpresent⟩ ?_ hbegan
    exact fun hbefore => h.apart i k t (Ne.symm hk) hbefore hbegan'
  constructor
  · intro k
    by_cases hk : k = i
    · rw [hk, hself]
      exact (h.tells i).step hp
    · rw [hother hk]
      exact h.tells k
  · intro k l t hkl hbegan hbegan'
    by_cases hk : k = i
    · subst hk
      rw [hself] at hbegan ⊢
      rw [hother (Ne.symm hkl)] at hbegan' ⊢
      exact happart l t (Ne.symm hkl) hbegan hbegan'
    · rw [hother hk] at hbegan ⊢
      by_cases hl : l = i
      · subst hl
        rw [hself] at hbegan' ⊢
        exact (happart k t hk hbegan' hbegan).symm
      · rw [hother hl] at hbegan' ⊢
        exact h.apart k l t hkl hbegan hbegan'
  · intro k t hunfinished hfails hpassed
    by_cases hk : k = i
    · subst hk
      rw [hself] at hunfinished hfails hpassed
      exact sawAnother_step (hinv.proc k) (h.tells k) hp (h.saw k t) hunfinished hfails hpassed
    · rw [hother hk] at hunfinished hfails hpassed
      obtain ⟨w, hne, hadmin⟩ := h.saw k t hunfinished hfails hpassed
      refine ⟨w, hne, ?_⟩
      -- the other administrator is lost only behind a guard of the one who takes him away
      by_contra hgone
      obtain ⟨-, hunfinished', -, hpassed'⟩ := h.lost hinv hp hadmin hgone
      exact h.not_both hinv hk hunfinished hunfinished' hpassed hpassed'
  · intro k actor u hcall hunfinished
    by_cases hk : k = i
    · subst hk
      rw [hself] at hunfinished ⊢
      have hbefore := h.lists k actor u hcall
      have huser : u = (calls k).userID := by
        rw [hcall]
        rfl
      rw [huser] at hbefore ⊢
      exact listsTeams_step (hinv.proc k) (h.tells k) hp hbefore hunfinished
    · rw [hother hk] at hunfinished ⊢
      apply (h.lists k actor u hcall hunfinished).other
      exact fun hbegun t => won_of_lists hinv (Ne.symm hk) hp hcond hcall ⟨hunfinished, hbegun⟩
  · intro t ht
    have hthere : (σ.committed.teams.lookup t).isSome := by
      obtain ⟨a, hphase, hdb, -⟩ | ⟨hdb, -⟩ := hp.commits_or
      · apply ((hinv.proc i).post_of_ready hphase).teams t
        rw [← hdb]
        exact ht
      · rw [← hdb]
        exact ht
    obtain ⟨u, hadmin⟩ := h.teams t hthere
    by_cases hkept : db.IsTeamAdmin t u
    · exact ⟨u, hkept⟩
    · -- the team loses an administrator, and keeps the one that its guard has seen
      obtain ⟨hu, hunfinished, hfails, hpassed⟩ := h.lost hinv hp hadmin hkept
      obtain ⟨w, hne, hadmin'⟩ := h.saw i t hunfinished hfails hpassed
      refine ⟨w, ?_⟩
      by_contra hgone
      exact hne (h.lost hinv hp hadmin' hgone).1

/-- In every run in which no one is made an administrator behind the query of the one who deletes him, every
team has an administrator in every state. -/
theorem team_admins_remain (calls : ι → TeamCall) (db : Db) (hdb : db.TeamsHaveAdmins) (σ : TeamSystem ι)
    (hrun : System.Run (PromotesInTime calls) (System.init db fun i => (calls i).tx) σ) :
    σ.committed.TeamsHaveAdmins := by
  have hinv : TeamInv calls (System.init db fun i => (calls i).tx) :=
    System.inv_init fun i => (calls i).outline db
  have hraced : Raced calls (System.init db fun i => (calls i).tx) := by
    refine ⟨fun i => (calls i).tells, ?_, ?_, ?_, hdb⟩
    · rintro i j t - ⟨-, hbegun⟩
      exact absurd hbegun List.not_mem_nil
    · exact fun i t _ _ hpassed => absurd hpassed List.not_mem_nil
    · exact fun i actor u _ _ => ⟨fun found hmem => absurd hmem List.not_mem_nil, trivial⟩
  have hend := System.Inv.run_induction (fun i => (calls i).notes_stable)
    (fun i σ σ' hinv hraced hstep hcond => hraced.step hinv hstep hcond) hinv hraced hrun
  exact hend.teams

end

/-- A team with an administrator `w` and a second member `v`. -/
def pairTeam (role : Role) : Db :=
  { Db.empty with
    users := ((AList.singleton "usr_w".toList ⟨"w".toList, "W".toList, [], .member, false⟩).insert
      "usr_v".toList ⟨"v".toList, "V".toList, [], .member, false⟩).insert
      rootPrincipal.user.id ⟨"root".toList, "root".toList, [], .admin, false⟩
    teams := AList.singleton "team_a".toList ⟨"A".toList, rootPrincipal.user.id⟩
    members := (AList.singleton ("team_a".toList, "usr_w".toList) Role.admin).insert
      ("team_a".toList, "usr_v".toList) role }

theorem pairTeam_teamsHaveAdmins (role : Role) : (pairTeam role).TeamsHaveAdmins := by
  intro t ht
  obtain ⟨row, hrow⟩ := Option.isSome_iff_exists.1 ht
  have hentry := List.mem_singleton.1 (Table.mem_entries.2 hrow)
  cases hentry
  exact ⟨"usr_w".toList, rfl⟩

def teamAdminW : Principal := ⟨⟨"usr_w".toList, "w".toList, "W".toList, .member, false⟩, []⟩

/-- One administrator is taken out of the team, and the other one is to be a plain member. -/
def bothTaken : Bool → TeamCall
  | true => .removeTeamMember rootPrincipal "team_a".toList "usr_w".toList
  | false => .setTeamMemberRole rootPrincipal "team_a".toList "usr_v".toList "member".toList

/-- The second one is refused. -/
theorem team_admins_remain_both :
    ((System.follow (List.replicate 16 true ++ List.replicate 12 false)
      (System.init (pairTeam .admin) fun b => (bothTaken b).tx)).get rfl).committed.TeamsHaveAdmins := by
  refine team_admins_remain bothTaken (pairTeam .admin) (pairTeam_teamsHaveAdmins _) _
    (System.Run.mono ?_ (System.run_follow _))
  rintro (_ | _) σ σ' - - t u ⟨actor, role, hcall, hrole, -⟩
  · cases hcall
    cases hrole
  · cases hcall

/-- While `v` is being deleted, `w` makes an administrator of him and then a plain member of himself. -/
def handedOver : Fin 3 → TeamCall
  | 0 => .deleteUser rootPrincipal "usr_v".toList
  | 1 => .setTeamMemberRole teamAdminW "team_a".toList "usr_v".toList "admin".toList
  | 2 => .setTeamMemberRole teamAdminW "team_a".toList "usr_w".toList "member".toList

theorem deleteUser_takes_last_team_admin :
    ∃ (db : Db) (calls : Fin 3 → TeamCall) (σ : TeamSystem (Fin 3)), db.TeamsHaveAdmins ∧
      System.Run (fun _ _ _ => True) (System.init db fun i => (calls i).tx) σ ∧ σ.Done ∧
        ¬ σ.committed.TeamsHaveAdmins := by
  refine ⟨pairTeam .member, handedOver,
    (System.follow (List.replicate 8 0 ++ List.replicate 13 1 ++ List.replicate 19 2 ++ List.replicate 32 0)
      (System.init (pairTeam .member) fun i => (handedOver i).tx)).get rfl,
    pairTeam_teamsHaveAdmins _, System.run_follow _, ?_, ?_⟩
  · intro i
    match i with
    | 0 => exact ⟨_, rfl⟩
    | 1 => exact ⟨_, rfl⟩
    | 2 => exact ⟨_, rfl⟩
  · intro h
    obtain ⟨u, hu⟩ := h "team_a".toList rfl
    cases List.mem_singleton.1 (Table.mem_entries.2 hu)

end Workbench.Identity
