import Workbench.Identity.Outlines

/-!
# The first administrator

Any number of calls of `BootstrapAdmin` at once. Each one asks for the users behind the advisory lock, which it
keeps to its end; what it was told is therefore true until it commits, and a second call that gets the lock finds
the user that the first one has made.
-/

set_option autoImplicit false

namespace Workbench.Identity

open Workbench.Lib

structure BootstrapCall where
  userID : Text
  salt : Text
  username : Text
  password : Text

namespace BootstrapCall

variable (rt : Runtime)

def tx (c : BootstrapCall) : Transaction Unit := bootstrapAdmin rt c.userID c.salt c.username c.password

/-- The administrator that a call makes. -/
def row (c : BootstrapCall) : UserRow :=
  ⟨normalizeUsername rt c.username, normalizeUsername rt c.username, rt.hashPassword c.salt c.password, .admin, false⟩

/-- What a call knows: behind the question for the users it has the lock, and it writes its administrator. -/
def notes (c : BootstrapCall) : Notes Label Key Db where
  entry l write := l = .read → write = id
  fact l _ L _ := l = .read → .advisory bootstrapLockKey ∈ L
  post trace _ db write :=
    .read ∈ trace.map Prod.fst ∧ write db = { db with users := db.users.insert c.userID (c.row rt) }

theorem notes_stable (c : BootstrapCall) : (c.notes rt).Stable store :=
  fun _ _ _ _ _ _ _ _ hsub _ hfact hl => hsub (hfact hl)

theorem outline (c : BootstrapCall) (db₀ : Db) : (c.tx rt).Outline (c.notes rt) ⟨[], ∅, db₀, id⟩ := by
  rw [tx, bootstrapAdmin, Tx.Outline]
  rw [Tx.wp_bind]
  refine (Tx.wp_perform _ _ _).2 ⟨⟨fun _ => rfl, fun _ _ hl => by cases hl⟩, ?_⟩
  intro start found db _ hfound _
  -- an advisory lock is there for everyone, so that it is never skipped
  have hlocked : .advisory bootstrapLockKey ∈ found := by
    rcases hfound.complete (.advisory bootstrapLockKey) List.mem_cons_self with hmem | ⟨_, -, -, hgone⟩
    · exact hmem
    · cases hgone
  rw [Tx.wp_bind]
  refine (Tx.wp_perform _ _ _).2 ⟨⟨fun _ => rfl, fun _ _ _ => Or.inr (Or.inr hlocked)⟩, ?_⟩
  intro _ found' db' exists_ _ _
  rw [Tx.wp_bind]
  refine wp_failIf fun _ => ?_
  rw [Tx.wp_bind]
  refine (Tx.wp_perform _ _ _).2 ⟨⟨fun hl => (by cases hl), fun _ _ hl => (by cases hl)⟩, ?_⟩
  intro _ found'' db'' _ _ _ db₁ _
  exact ⟨by simp [Local.behind, usersExist, select], rfl⟩

end BootstrapCall

/-- Who was told that there are no users was told so by the users that there are. -/
def SawNoUsers (l : Label) (view : Db) : Prop := l = .read → view.users = ∅

theorem users_eq_empty {db : Db} (h : (db.users.any fun _ _ => true) = false) : db.users = ∅ := by
  refine AList.ext ?_
  cases hentries : db.users.entries with
  | nil => rfl
  | cons e rest =>
    rw [Table.any, hentries] at h
    cases h

theorem BootstrapCall.tells (rt : Runtime) (c : BootstrapCall) : (c.tx rt).Tells (fun _ => True) SawNoUsers := by
  refine ⟨trivial, fun _ _ _ _ => ⟨Or.inr fun hl => (by cases hl), ?_⟩⟩
  refine ⟨trivial, fun found view exists_ hresult => ?_⟩
  have hexists : (view.users.any fun _ _ => true) = exists_ := Except.ok.inj hresult
  cases exists_ with
  | true => exact ⟨Or.inl trivial, trivial⟩
  | false =>
    refine ⟨Or.inr fun _ => users_eq_empty hexists, ?_⟩
    exact ⟨trivial, fun _ _ _ _ => ⟨Or.inr fun hl => (by cases hl), trivial⟩⟩

/-! ## Steps -/

def Succeeded (p : Proc store Label Err Unit) : Prop := p.phase = .finished (some (.ok ()))

section

variable {rt : Runtime} {c : BootstrapCall} {busy : Key → Prop} {p p' : Proc store Label Err Unit} {db db' : Db}

theorem unfinished_of_step (hstep : p.Step busy db db' p') : ¬ p.isFinished := by
  rintro ⟨result, hphase⟩
  cases hstep with
  | fail hunfinished => exact hunfinished ⟨result, hphase⟩
  | _ => cases hphase

theorem not_succeeded_of_step (hstep : p.Step busy db db' p') : ¬ Succeeded p := fun h =>
  unfinished_of_step hstep ⟨_, h⟩

/-- A call succeeds with its commit, and otherwise leaves the committed state alone. -/
theorem step_succeeds_iff (hstep : p.Step busy db db' p') :
    (Succeeded p' ∧ db' = p.write db ∧ p.phase = .ready (.done (.ok ()))) ∨ (¬ Succeeded p' ∧ db' = db) := by
  cases hstep with
  | commit => exact Or.inl ⟨rfl, rfl, rfl⟩
  | _ =>
    right
    refine ⟨?_, rfl⟩
    rintro ⟨⟩

/-- What a call that goes on was told is true behind its step. -/
theorem sawNoUsers_step (hinv : p.Inv (c.notes rt) db) (htells : p.Tells (fun _ => True) SawNoUsers)
    (hstep : p.Step busy db db' p')
    (h : ¬ p.isFinished → ¬ p.Fails → .read ∈ p.trace.map Prod.fst → db.users = ∅)
    (hunfinished : ¬ p'.isFinished) (hfails : ¬ p'.Fails) (hread : .read ∈ p'.trace.map Prod.fst) :
    db'.users = ∅ := by
  cases hstep with
  | begin => exact h (Proc.unfinished_of_ready rfl) id hread
  | lock hfree hpresent => exact h (Proc.unfinished_of_locking rfl) id hread
  | skip hgone => exact h (Proc.unfinished_of_locking rfl) id hread
  | @exec β s next write locks trace got b hfree hresult =>
    by_cases hold : .read ∈ trace.map Prod.fst
    · exact h (Proc.unfinished_of_locking rfl) id hold
    · -- it is this statement that asks, and it sees the committed users
      have hl : s.label = .read := by
        rw [List.map_append, List.mem_append] at hread
        exact (List.mem_singleton.1 (hread.resolve_left hold)).symm
      have hwrite : write = id := hinv.entry_of_locking rfl hl
      rw [hwrite] at hresult
      exact ((htells.2 _ _ _ hresult).1.resolve_left hfails) hl
  | _ => exact absurd ⟨_, rfl⟩ hunfinished

end

/-! ## Systems -/

abbrev BootstrapSystem (ι : Type) : Type 1 := System store Label Err Unit ι

section

variable {ι : Type} {rt : Runtime} {calls : ι → BootstrapCall} {db₀ : Db} {σ σ' : BootstrapSystem ι} {i j : ι}

/-- The administrator of the call `i` is the only user, and no other call has succeeded. -/
structure Bootstrapped (rt : Runtime) (calls : ι → BootstrapCall) (db₀ : Db) (σ : BootstrapSystem ι) (i : ι) :
    Prop where
  succeeded : Succeeded (σ.procs i)
  only : ∀ j, Succeeded (σ.procs j) → j = i
  committed : σ.committed = { db₀ with users := AList.singleton (calls i).userID ((calls i).row rt) }

/-- Either no call has succeeded and nothing is changed, or one has. -/
def OneBootstrap (rt : Runtime) (calls : ι → BootstrapCall) (db₀ : Db) (σ : BootstrapSystem ι) : Prop :=
  ((∀ i, ¬ Succeeded (σ.procs i)) ∧ σ.committed = db₀) ∨ ∃ i, Bootstrapped rt calls db₀ σ i

/-- What the calls know of each other. -/
structure Queued (rt : Runtime) (calls : ι → BootstrapCall) (db₀ : Db) (σ : BootstrapSystem ι) : Prop where
  tells : ∀ i, (σ.procs i).Tells (fun _ => True) SawNoUsers
  saw : ∀ i, ¬ (σ.procs i).isFinished → ¬ (σ.procs i).Fails → .read ∈ (σ.procs i).trace.map Prod.fst →
    σ.committed.users = ∅
  one : OneBootstrap rt calls db₀ σ

abbrev BootstrapInv (rt : Runtime) (calls : ι → BootstrapCall) (σ : BootstrapSystem ι) : Prop :=
  σ.Inv fun i => (calls i).notes rt

/-- Two calls cannot both be past the question for the users. -/
theorem eq_of_read (hinv : BootstrapInv rt calls σ) (hi : ¬ (σ.procs i).isFinished) (hj : ¬ (σ.procs j).isFinished)
    (hread : .read ∈ (σ.procs i).trace.map Prod.fst) (hread' : .read ∈ (σ.procs j).trace.map Prod.fst) : i = j := by
  by_contra hij
  have hlocked := (hinv.proc i).facts hi _ (List.mem_append_left _ hread) rfl
  have hlocked' := (hinv.proc j).facts hj _ (List.mem_append_left _ hread') rfl
  exact hinv.exclusive i j _ hij hlocked hlocked'

variable [DecidableEq ι]

/-- The first commit. -/
theorem Queued.commit (h : Queued rt calls db₀ σ) (hinv : BootstrapInv rt calls σ)
    {p : Proc store Label Err Unit} (hphase : (σ.procs i).phase = .ready (.done (.ok ()))) (hp : Succeeded p) :
    Bootstrapped rt calls db₀ ⟨(σ.procs i).write σ.committed, Function.update σ.procs i p⟩ i := by
  obtain ⟨hread, hwrite⟩ := (hinv.proc i).post_of_ready hphase
  have hnone : σ.committed.users = ∅ := by
    refine h.saw i (Proc.unfinished_of_ready hphase) ?_ hread
    rw [Proc.Fails, hphase]
    exact id
  rcases h.one with ⟨hfailed, hcommitted⟩ | ⟨k, hk⟩
  · refine ⟨?_, fun j hj => ?_, ?_⟩
    · rw [System.procs_self]
      exact hp
    · by_contra hji
      rw [System.procs_of_ne hji] at hj
      exact hfailed j hj
    · show (σ.procs i).write σ.committed = _
      rw [hwrite, hnone, hcommitted]
      rfl
  · -- the user of an earlier call would have been seen
    rw [hk.committed] at hnone
    cases congrArg AList.entries hnone

theorem Queued.step (h : Queued rt calls db₀ σ) (hinv : BootstrapInv rt calls σ)
    (hstep : System.StepBy i σ σ') : Queued rt calls db₀ σ' := by
  obtain ⟨hp⟩ := hstep
  rename_i db p
  constructor
  · intro k
    by_cases hk : k = i
    · rw [hk, System.procs_self]
      exact (h.tells i).step hp
    · rw [System.procs_of_ne hk]
      exact h.tells k
  · intro k hunfinished hfails hread
    by_cases hk : k = i
    · subst hk
      rw [System.procs_self] at hunfinished hfails hread
      exact sawNoUsers_step (hinv.proc k) (h.tells k) hp (h.saw k) hunfinished hfails hread
    · rw [System.procs_of_ne hk] at hunfinished hfails hread
      rcases step_succeeds_iff hp with ⟨-, -, hphase⟩ | ⟨-, rfl⟩
      · -- who commits has asked for the users, and so has this call: one of them has no lock
        have hasked := ((hinv.proc i).post_of_ready hphase).1
        exact absurd (eq_of_read hinv hunfinished (unfinished_of_step hp) hread hasked) hk
      · exact h.saw k hunfinished hfails hread
  · rcases step_succeeds_iff hp with ⟨hsucceeded, rfl, hphase⟩ | ⟨hfailed, rfl⟩
    · exact Or.inr ⟨i, h.commit hinv hphase hsucceeded⟩
    · have hsame : ∀ k, Succeeded ((⟨σ.committed, Function.update σ.procs i p⟩ : BootstrapSystem ι).procs k) ↔
          Succeeded (σ.procs k) := by
        intro k
        by_cases hk : k = i
        · rw [hk, System.procs_self]
          exact iff_of_false hfailed (not_succeeded_of_step hp)
        · rw [System.procs_of_ne hk]
      rcases h.one with ⟨hnone, hcommitted⟩ | ⟨k, hk⟩
      · exact Or.inl ⟨fun k hk => hnone k ((hsame k).1 hk), hcommitted⟩
      · exact Or.inr ⟨k, (hsame k).2 hk.succeeded, fun l hl => hk.only l ((hsame l).1 hl), hk.committed⟩

theorem Queued.run
    (hrun : System.Run (fun _ _ _ => True) (System.init db₀ fun i => (calls i).tx rt) σ) :
    Queued rt calls db₀ σ := by
  have hinv : BootstrapInv rt calls (System.init db₀ fun i => (calls i).tx rt) :=
    System.inv_init fun i => (calls i).outline rt db₀
  have hqueued : Queued rt calls db₀ (System.init db₀ fun i => (calls i).tx rt) := by
    refine ⟨fun i => (calls i).tells rt, ?_, Or.inl ⟨?_, rfl⟩⟩
    · intro i _ _ hread
      exact absurd hread List.not_mem_nil
    · rintro i ⟨⟩
  exact System.Inv.run_induction (fun i => (calls i).notes_stable rt)
    (fun i σ σ' hinv hqueued hstep _ => hqueued.step hinv hstep) hinv hqueued hrun

/-- In every state that any number of calls can lead to, no call has succeeded and nothing has changed, or one call
has succeeded and its administrator is the only user; and the only step that changes anything is the one with which
this call succeeds. -/
theorem bootstrapAdmin_once (rt : Runtime) (calls : ι → BootstrapCall) (db₀ : Db)
    (σ : BootstrapSystem ι)
    (hrun : System.Run (fun _ _ _ => True) (System.init db₀ fun i => (calls i).tx rt) σ) :
    OneBootstrap rt calls db₀ σ ∧
      ∀ i σ', System.StepBy i σ σ' → σ'.committed ≠ σ.committed →
        (∀ j, ¬ Succeeded (σ.procs j)) ∧ Bootstrapped rt calls db₀ σ' i := by
  refine ⟨(Queued.run hrun).one, fun i σ' hstep hchanged => ?_⟩
  have hafter := Queued.run (hrun.tail ⟨i, hstep, trivial⟩)
  obtain ⟨hp⟩ := hstep
  rename_i db p
  rcases step_succeeds_iff hp with ⟨hsucceeded, -, -⟩ | ⟨-, hsame⟩
  · have hself : Succeeded ((⟨db, Function.update σ.procs i p⟩ : BootstrapSystem ι).procs i) := by
      rw [System.procs_self]
      exact hsucceeded
    rcases hafter.one with ⟨hnone, -⟩ | ⟨k, hk⟩
    · exact absurd hself (hnone i)
    · obtain rfl : i = k := hk.only i hself
      refine ⟨fun j hj => ?_, hk⟩
      -- an earlier success would still be one
      have hji : j ≠ i := by
        rintro rfl
        exact not_succeeded_of_step hp hj
      refine hji (hk.only j ?_)
      rw [System.procs_of_ne hji]
      exact hj
  · exact absurd hsame hchanged

end

/-- Two calls with different names. -/
def twoBootstraps : Bool → BootstrapCall
  | true => ⟨"usr_a".toList, [], "a".toList, "first password".toList⟩
  | false => ⟨"usr_b".toList, [], "b".toList, "second password".toList⟩

/-- The second one waits for the lock from the beginning, and then finds the user of the first. -/
def bothBootstraps : BootstrapSystem Bool :=
  (System.follow (true :: false :: List.replicate 7 true ++ List.replicate 5 false)
    (System.init Db.empty fun b => (twoBootstraps b).tx default)).get rfl

theorem bootstrapAdmin_once_two : Bootstrapped default twoBootstraps Db.empty bothBootstraps true ∧
    (bothBootstraps.procs false).phase = .finished (some (.error (.plain .alreadyBootstrapped))) := by
  have hone : OneBootstrap default twoBootstraps Db.empty bothBootstraps :=
    (bootstrapAdmin_once default twoBootstraps Db.empty _ (System.run_follow _)).1
  rcases hone with ⟨hnone, -⟩ | ⟨i, hi⟩
  · exact absurd rfl (hnone true)
  · obtain rfl : true = i := hi.only true rfl
    exact ⟨hi, rfl⟩

end Workbench.Identity
