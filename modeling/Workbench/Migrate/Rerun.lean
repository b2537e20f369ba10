import Mathlib.Data.List.Sort
import Workbench.Migrate.ExactlyOnce

/-!
# Runs of migrations

A process that finds the lock free comes to its end when its calls are answered, and then every file is there.
With the invariant of all processes this is what `applyMigrations` is for: in every run each file takes effect
once, in the order of the names, and a later run goes on where an earlier one stopped.
-/

set_option autoImplicit false

namespace Workbench.Migrate

open Workbench.Lib

section

variable {ι : Type} {old : List Text} {files : List File} {db : Db ι} {conn : Conn} {i : ι}

/-! ## The start -/

theorem start_eq (hnames : ∀ f ∈ files, migrationName f.name = true) :
    start files = .acquire (byName files) := by
  rw [start, sortMigrationFiles]
  have hnone : (files.find? fun f => !migrationName f.name) = none := by
    rw [List.find?_eq_none]
    intro f hf
    rw [hnames f hf]
    exact Bool.false_ne_true
  rw [hnone]

theorem mem_byName {f : File} : f ∈ byName files ↔ f ∈ files := (List.mergeSort_perm files _).mem_iff

theorem byName_nodup (hnodup : (files.map File.name).Nodup) : ((byName files).map File.name).Nodup :=
  ((List.mergeSort_perm files _).map File.name).nodup_iff.2 hnodup

theorem byName_sorted (hnodup : (files.map File.name).Nodup) :
    ((byName files).map File.name).Pairwise (· < ·) := by
  have hle : ((byName files).map File.name).Pairwise (· ≤ ·) := by
    rw [List.pairwise_map]
    have hsorted := @List.pairwise_mergeSort File (fun a b => decide (a.name ≤ b.name))
      (fun a b c hab hbc => decide_eq_true
        (le_trans (of_decide_eq_true hab) (of_decide_eq_true hbc)))
      (fun a b => by simpa using le_total a.name b.name) files
    exact hsorted.imp of_decide_eq_true
  apply (hle.and (byName_nodup hnodup)).imp
  rintro a b ⟨hab, hne⟩
  exact lt_of_le_of_ne hab hne

theorem Sound.init (hrecorded : db.effects = db.recorded)
    (hnames : ∀ f ∈ files, migrationName f.name = true) :
    Sound db.effects (byName files) (init db files) := by
  refine ⟨⟨hrecorded, [], (List.append_nil _).symm, List.nil_prefix⟩, fun i => ?_⟩
  show ProcInv (byName files) i db ⟨start files, _⟩
  rw [start_eq hnames]
  refine ⟨rfl, fun _ => rfl, fun _ _ => ?_, fun _ c hc => (nomatch hc)⟩
  rintro c ⟨⟩
  trivial

/-! ## A process alone -/

/-- The process got no error, and no other session has the lock while it needs it. -/
def Alone (i : ι) (db : Db ι) : Phase → Prop
  | .acquire _ => db.holder = none ∨ db.holder = some i
  | .lock _ => db.holder = none ∨ db.holder = some i
  | .rollback _ => False
  | .unlock errs => errs = [] ∧ db.holder = some i
  | .discard _ => False
  | .done errs => errs = []
  | _ => db.holder = some i

/-- The calls that are left when every file has to be applied. -/
def Phase.calls : Phase → Nat
  | .acquire files => 5 * files.length + 4
  | .lock files => 5 * files.length + 3
  | .createTable files => 5 * files.length + 2
  | .begin _ rest => 5 * rest.length + 6
  | .check _ rest => 5 * rest.length + 5
  | .apply _ rest => 5 * rest.length + 4
  | .record _ rest => 5 * rest.length + 3
  | .commit _ rest _ => 5 * rest.length + 2
  | .rollback _ => 3
  | .unlock _ => 1
  | .discard _ => 0
  | .done _ => 0

theorem Alone.applyFiles (hholder : db.holder = some i) (rest : List File) :
    Alone i db (Phase.applyFiles rest) := by
  cases rest with
  | nil => exact ⟨rfl, hholder⟩
  | cons file rest => exact hholder

theorem Phase.calls_applyFiles (rest : List File) : (Phase.applyFiles rest).calls = 5 * rest.length + 1 := by
  cases rest with
  | nil => rfl
  | cons file rest => rfl

variable [DecidableEq ι]

/-- The server answers the next call. -/
theorem Alone.exec {phase : Phase} (h : Alone i db phase) (hledger : Ledger old files db)
    (hprogress : Progress files db phase) (hready : Ready files i db conn phase) {c : Command}
    (hc : phase.command = some c) :
    ∃ r, exec i db conn c = some r ∧ Alone i r.2.1 (phase.next (some r.1)) ∧
      r.2.2.up = conn.up ∧ r.2.2.linked = conn.linked ∧ (phase.next (some r.1)).calls < phase.calls := by
  cases phase with
  | acquire rest =>
    cases hc
    exact ⟨_, rfl, h, rfl, rfl, Nat.lt_succ_self _⟩
  | lock rest =>
    cases hc
    exact ⟨_, if_pos h, rfl, rfl, rfl, Nat.lt_succ_self _⟩
  | createTable rest =>
    cases hc
    refine ⟨_, rfl, Alone.applyFiles h rest, rfl, rfl, ?_⟩
    show (Phase.applyFiles rest).calls < 5 * rest.length + 2
    rw [Phase.calls_applyFiles]
    exact Nat.lt_succ_self _
  | begin file rest =>
    cases hc
    exact ⟨_, rfl, h, rfl, rfl, Nat.lt_succ_self _⟩
  | check file rest =>
    cases hc
    -- the table was created before the first question
    obtain ⟨names, hnames⟩ := Option.isSome_iff_exists.1 hprogress.1
    refine ⟨_, Option.map_eq_some_iff.2 ⟨names, hnames, rfl⟩, ?_, rfl, rfl, ?_⟩
    · rw [Phase.next]
      split
      · exact h
      · exact h
    · rw [Phase.next]
      split
      · exact Nat.add_lt_add_left (by decide) _
      · exact Nat.lt_succ_self _
  | apply file rest =>
    cases hc
    obtain ⟨-, htx, -⟩ := hready.guard rfl
    refine ⟨_, by rw [Migrate.exec, htx], h, rfl, rfl, Nat.lt_succ_self _⟩
  | record file rest =>
    cases hc
    obtain ⟨-, htx, htable, hnew, -⟩ := hready.guard rfl
    obtain ⟨names, hnames⟩ := Option.isSome_iff_exists.1 htable
    rw [hledger.effects_eq hnames] at hnew
    -- the name is new, so no key is violated
    have hexec : Migrate.exec i db conn (.record file.name) =
        some (true, db, { conn with tx := some ⟨[file.name], [file.name]⟩ }) := by
      rw [Migrate.exec, hnames]
      simp [hnew, htx]
    exact ⟨_, hexec, h, rfl, rfl, Nat.lt_succ_self _⟩
  | commit file rest applied =>
    have htx : ∃ tx, conn.tx = some tx := by
      cases applied with
      | true => exact ⟨_, hready.2⟩
      | false => exact ⟨_, hready.2.1⟩
    obtain ⟨tx, htx⟩ := htx
    cases hc
    refine ⟨_, by rw [Migrate.exec, htx], ?_, rfl, rfl, ?_⟩
    · rw [Phase.next_commit]
      exact Alone.applyFiles h rest
    · rw [Phase.next_commit, Phase.calls_applyFiles]
      exact Nat.lt_succ_self _
  | rollback errs => exact h.elim
  | unlock errs =>
    cases hc
    exact ⟨_, if_pos h.2, h.1, rfl, rfl, Nat.lt_succ_self _⟩
  | discard errs => exact h.elim
  | done errs => cases hc

variable {s : State ι}

/-- By induction on the calls that are left. -/
theorem run_alone (h : Sound old files s) (hnodup : (files.map File.name).Nodup)
    (hup : (s.procs i).conn.up = true) (hlinked : (s.procs i).conn.linked = true)
    (halone : Alone i s.db (s.procs i).phase) :
    ∃ s', Steps s s' ∧ (s'.procs i).phase = .done [] ∧ ∀ j, j ≠ i → s'.procs j = s.procs j := by
  induction hcalls : (s.procs i).phase.calls using Nat.strong_induction_on generalizing s with
  | _ n ih =>
    subst hcalls
    cases hc : (s.procs i).phase.command with
    | none =>
      refine ⟨s, Relation.ReflTransGen.refl, ?_, fun _ _ => rfl⟩
      cases hphase : (s.procs i).phase with
      | done errs =>
        rw [hphase] at halone
        rw [show errs = [] from halone]
      | _ =>
        rw [hphase] at hc
        cases hc
    | some c =>
      have hi := h.procs i
      obtain ⟨r, hexec, hnext, hup', hlinked', hless⟩ :=
        halone.exec h.ledger hi.progress (hi.ready hup hlinked) hc
      have hstep : step s (.call i .answered) =
          some ⟨r.2.1, Function.update s.procs i ⟨(s.procs i).phase.next (some r.1), r.2.2⟩⟩ := by
        simp [step, executed, hc, hup, hlinked, hexec]
      obtain ⟨s', hsteps, hdone, hothers⟩ := ih _ (by simpa using hless) (h.step hnodup hstep)
        (by simpa [hup'] using hup) (by simpa [hlinked'] using hlinked) (by simpa using hnext) rfl
      refine ⟨s', Relation.ReflTransGen.head ⟨_, hstep⟩ hsteps, hdone, fun j hj => ?_⟩
      rw [hothers j hj]
      exact Function.update_of_ne hj _ _

/-! ## From the start -/

/-- What runs leave behind when no session holds the lock any more. -/
inductive Prior : Db ι → Prop where
  | fresh : Prior ⟨none, [], none⟩
  | run {db : Db ι} {files : List File} {s : State ι} (hprior : Prior db)
      (hnames : ∀ f ∈ files, migrationName f.name = true) (hnodup : (files.map File.name).Nodup)
      (hsteps : Steps (init db files) s) (hfree : s.db.holder = none) : Prior s.db

theorem Prior.spec (h : Prior db) : db.effects = db.recorded ∧ db.effects.Nodup := by
  induction h with
  | fresh => exact ⟨rfl, List.nodup_nil⟩
  | run _ hnames hnodup hsteps _ ih =>
    have hsound := (Sound.init ih.1 hnames).steps (byName_nodup hnodup) hsteps
    exact ⟨hsound.ledger.recorded, hsound.ledger.nodup (byName_nodup hnodup) ih.2⟩

/-- A process at its start comes to its end once the session that has the lock is gone. -/
theorem run_from_start {s : State ι} (h : Sound old files s) (hnodup : (files.map File.name).Nodup)
    (hproc : s.procs i = ⟨.acquire files, ⟨true, true, none, none⟩⟩) :
    ∃ s', Steps s s' ∧ (s'.procs i).phase = .done [] ∧
      ∀ j, j ≠ i → (s'.procs j).phase = (s.procs j).phase := by
  by_cases hfree : s.db.holder = none ∨ s.db.holder = some i
  · obtain ⟨s', hsteps, hdone, hothers⟩ := run_alone h hnodup (by rw [hproc]) (by rw [hproc])
      (by rw [hproc]; exact hfree)
    exact ⟨s', hsteps, hdone, fun j hj => by rw [hothers j hj]⟩
  · rw [not_or, ← ne_eq, Option.ne_none_iff_exists'] at hfree
    obtain ⟨⟨k, hholder⟩, hk⟩ := hfree
    have hki : i ≠ k := by
      rintro rfl
      exact hk hholder
    let s₁ : State ι := ⟨release k s.db,
      Function.update s.procs k
        { s.procs k with conn := { (s.procs k).conn with up := false, tx := none, late := none } }⟩
    have hstep : step s (.disconnect k) = some s₁ := rfl
    have hfree₁ : s₁.db.holder = none := by
      show (release k s.db).holder = none
      rw [release, if_pos hholder]
    have hproc₁ : s₁.procs i = ⟨.acquire files, ⟨true, true, none, none⟩⟩ := by
      rw [← hproc]
      exact Function.update_of_ne hki _ _
    obtain ⟨s', hsteps, hdone, hothers⟩ := run_alone (h.step hnodup hstep) hnodup (by rw [hproc₁])
      (by rw [hproc₁]) (by rw [hproc₁]; exact Or.inl hfree₁)
    refine ⟨s', Relation.ReflTransGen.head ⟨_, hstep⟩ hsteps, hdone, fun j hj => ?_⟩
    rw [hothers j hj]
    by_cases hjk : j = k
    · rw [hjk]
      show (Function.update s.procs k _ k).phase = _
      rw [Function.update_self]
    · show (Function.update s.procs k _ j).phase = _
      rw [Function.update_of_ne hjk]

/-- In every state that processes reach, whatever fails: what has taken effect is recorded, and it took effect
once; it is what was there before and then the first of the other files, in the order of their names; a process
without an error has applied them all; and a process that is at its start can still apply what is left. -/
theorem applied_exactly_once {db₀ : Db ι} (hprior : Prior db₀)
    (hnames : ∀ f ∈ files, migrationName f.name = true) (hnodup : (files.map File.name).Nodup)
    {s : State ι} (hsteps : Steps (init db₀ files) s) :
    (∀ name, name ∈ s.db.effects ↔ name ∈ s.db.recorded) ∧ s.db.effects.Nodup ∧
      (∀ j, (s.procs j).phase = .done [] → ∀ f ∈ files, f.name ∈ s.db.effects) ∧
      ∃ applied left, s.db.effects = db₀.effects ++ applied ∧ (applied ++ left).Pairwise (· < ·) ∧
        (∀ name, name ∈ applied ++ left ↔ (∃ f ∈ files, f.name = name) ∧ name ∉ db₀.effects) ∧
        ∀ i, s.procs i = (init db₀ files).procs i →
          ∃ s', Steps s s' ∧ (s'.procs i).phase = .done [] ∧ s'.db.effects = s.db.effects ++ left ∧
            ∀ j, j ≠ i → (s'.procs j).phase = (s.procs j).phase := by
  have hsorted := byName_nodup hnodup
  have hsound := (Sound.init hprior.spec.1 hnames).steps hsorted hsteps
  have hdone : ∀ {s' : State ι}, Sound db₀.effects (byName files) s' → ∀ j,
      (s'.procs j).phase = .done [] → ∀ f ∈ byName files, f.name ∈ s'.db.effects := by
    intro s' h j hphase
    have hprogress := (h.procs j).progress
    rw [hphase] at hprogress
    exact hprogress rfl
  refine ⟨fun name => ?_, hsound.ledger.nodup hsorted hprior.spec.2, ?_, ?_⟩
  · rw [hsound.ledger.recorded]
  · exact fun j hphase f hf => hdone hsound j hphase f (mem_byName.2 hf)
  · obtain ⟨P, heffects, Q, hPQ⟩ := hsound.ledger.order
    refine ⟨P, Q, heffects, ?_, fun name => ?_, fun i hi => ?_⟩
    · rw [hPQ]
      exact (byName_sorted hnodup).filter _
    · rw [hPQ, mem_pending]
      simp only [mem_byName]
    · have hproc : s.procs i = ⟨.acquire (byName files), ⟨true, true, none, none⟩⟩ := by
        rw [hi, ← start_eq hnames]
        rfl
      obtain ⟨s', hsteps', hphase, hothers⟩ := run_from_start hsound hsorted hproc
      have hsound' := hsound.steps hsorted hsteps'
      refine ⟨s', hsteps', hphase, ?_, hothers⟩
      rw [hsound'.ledger.complete hsorted (hdone hsound' i hphase), heffects, ← hPQ, List.append_assoc]

def twoFiles : List File := [⟨"0001_users.sql".toList, []⟩, ⟨"0002_teams.sql".toList, []⟩]

/-- The first process crashes behind its first file; the second one applies what is left. -/
theorem applied_exactly_once_two :
    ∃ s, Steps (@init (Fin 2) ⟨none, [], none⟩ twoFiles) s ∧ s.db.effects = ["0001_users.sql".toList] ∧
      s.db.effects.Nodup ∧ ∃ s', Steps s s' ∧ (s'.procs 1).phase = .done [] := by
  have hstart : start twoFiles = .acquire twoFiles := by
    rw [start_eq (by decide), byName, List.mergeSort_of_pairwise (by decide)]
  obtain ⟨s, hfollow, heffects, hproc⟩ : ∃ s,
      follow (@init (Fin 2) ⟨none, [], none⟩ twoFiles)
        (List.replicate 8 (.call 0 .answered) ++ [.crash 0, .disconnect 0]) = some s ∧
      s.db.effects = ["0001_users.sql".toList] ∧
      s.procs 1 = (@init (Fin 2) ⟨none, [], none⟩ twoFiles).procs 1 := by
    rw [init, hstart]
    exact ⟨_, rfl, rfl, rfl⟩
  have hsteps := steps_of_follow hfollow
  obtain ⟨-, hnodup, -, applied, left, -, -, -, hrun⟩ :=
    applied_exactly_once Prior.fresh (by decide) (by decide) hsteps
  obtain ⟨s', hsteps', hphase, -, -⟩ := hrun 1 hproc
  exact ⟨s, hsteps, heffects, hnodup, s', hsteps', hphase⟩

end

end Workbench.Migrate
