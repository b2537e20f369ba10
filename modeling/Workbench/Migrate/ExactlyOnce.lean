import Mathlib.Data.List.Infix
import Workbench.Migrate.Apply

/-!
# Each migration once, and in order

What the advisory lock protects: a session that is about to commit a file holds the lock, the file is not
recorded, and every file before it is.
-/

set_option autoImplicit false

namespace Workbench.Migrate

open Workbench.Lib

/-! ## Prefixes -/

/-- The one element that can come behind a prefix. -/
theorem eq_of_prefix {l P front back : List Text} {name : Text} (hl : l = front ++ name :: back)
    (hnodup : l.Nodup) (hfirst : P <+: l) (hfront : ∀ g ∈ front, g ∈ P) (hname : name ∉ P) :
    P = front := by
  obtain ⟨Q, hQ⟩ := hfirst
  rw [hl] at hQ
  rcases List.append_eq_append_iff.1 hQ with ⟨a, hsplit, hback⟩ | ⟨a, hsplit, hback⟩
  · cases a with
    | nil => rw [hsplit, List.append_nil]
    | cons x a =>
      -- the next element of the front would come twice
      have hmem : x ∈ P := by
        apply hfront
        rw [hsplit]
        exact List.mem_append_right _ List.mem_cons_self
      rw [hl, hsplit, List.append_assoc, List.nodup_append] at hnodup
      exact absurd rfl (hnodup.2.2 x hmem x List.mem_cons_self)
  · cases a with
    | nil => rw [hsplit, List.append_nil]
    | cons x a =>
      cases hback
      refine absurd ?_ hname
      rw [hsplit]
      exact List.mem_append_right _ List.mem_cons_self

/-- The names of the files that are not among the old ones, in their order. -/
def pending (old : List Text) (files : List File) : List Text :=
  (files.map File.name).filter fun name => name ∉ old

theorem pending_append (old : List Text) (front : List File) {file : File} (back : List File)
    (hfile : file.name ∉ old) :
    pending old (front ++ file :: back) = pending old front ++ file.name :: pending old back := by
  rw [pending, List.map_append, List.filter_append, List.map_cons, List.filter_cons_of_pos (by simpa)]
  rfl

theorem mem_pending {old : List Text} {files : List File} {name : Text} :
    name ∈ pending old files ↔ (∃ f ∈ files, f.name = name) ∧ name ∉ old := by
  rw [pending, List.mem_filter, List.mem_map, decide_eq_true_eq]

/-! ## Invariants -/

section

variable {ι : Type}

/-- What has taken effect is what is recorded: the old files, and then the first of the others. -/
structure Ledger (old : List Text) (files : List File) (db : Db ι) : Prop where
  recorded : db.effects = db.recorded
  order : ∃ P, db.effects = old ++ P ∧ P <+: pending old files

/-- The file is the next one to take effect. -/
def Next (files : List File) (db : Db ι) (name : Text) : Prop :=
  db.schemaMigrations.isSome ∧ name ∉ db.effects ∧
    ∃ front file back, files = front ++ file :: back ∧ file.name = name ∧
      ∀ g ∈ front, g.name ∈ db.effects

/-- What holds when the server executes a command of the session `i`. -/
def Guard (files : List File) (i : ι) (db : Db ι) (conn : Conn) : Command → Prop
  | .createTable => db.holder = some i
  | .begin => db.holder = some i
  | .check _ => db.holder = some i ∧ conn.tx = some ⟨[], []⟩
  | .apply file => db.holder = some i ∧ conn.tx = some ⟨[], []⟩ ∧ Next files db file.name
  | .record name => db.holder = some i ∧ conn.tx = some ⟨[name], []⟩ ∧ Next files db name
  | .commit =>
    db.holder = some i ∧
      (conn.tx = some ⟨[], []⟩ ∨ ∃ name, conn.tx = some ⟨[name], [name]⟩ ∧ Next files db name)
  | _ => True

/-- The same where the client is to send the command. -/
def Ready (files : List File) (i : ι) (db : Db ι) (conn : Conn) : Phase → Prop
  | .commit _ _ true => db.holder = some i ∧ conn.tx = some ⟨[], []⟩
  | .commit file _ false =>
    db.holder = some i ∧ conn.tx = some ⟨[file.name], [file.name]⟩ ∧ Next files db file.name
  | phase => ∀ c, phase.command = some c → Guard files i db conn c

/-- The files before the one that is looked at are there, and at the end all of them. -/
def Progress (files : List File) (db : Db ι) : Phase → Prop
  | .acquire rest => rest = files
  | .lock rest => rest = files
  | .createTable rest => rest = files
  | .begin file rest => Upto file rest
  | .check file rest => Upto file rest
  | .apply file rest => Upto file rest
  | .record file rest => Upto file rest
  | .commit file rest applied => Upto file rest ∧ (applied = true → file.name ∈ db.effects)
  | .rollback errs => errs = [] → ∀ g ∈ files, g.name ∈ db.effects
  | .unlock errs => errs = [] → ∀ g ∈ files, g.name ∈ db.effects
  | .discard errs => errs = [] → ∀ g ∈ files, g.name ∈ db.effects
  | .done errs => errs = [] → ∀ g ∈ files, g.name ∈ db.effects
where
  Upto (file : File) (rest : List File) : Prop :=
    db.schemaMigrations.isSome ∧
      ∃ front, files = front ++ file :: rest ∧ ∀ g ∈ front, g.name ∈ db.effects

/-- A command is on its way without a client only where the client can send no other. -/
structure ProcInv (files : List File) (i : ι) (db : Db ι) (p : Proc) : Prop where
  progress : Progress files db p.phase
  quiet : p.conn.linked = true → p.conn.late = none
  ready : p.conn.up = true → p.conn.linked = true → Ready files i db p.conn p.phase
  late : p.conn.up = true → ∀ c, p.conn.late = some c → Guard files i db p.conn c

/-- The invariant of all processes. -/
structure Sound (old : List Text) (files : List File) (s : State ι) : Prop where
  ledger : Ledger old files s.db
  procs : ∀ i, ProcInv files i s.db (s.procs i)

variable {old : List Text} {files : List File} {db db' : Db ι} {conn : Conn} {c : Command} {i j : ι}

theorem Ready.guard {phase : Phase} (h : Ready files i db conn phase)
    (hc : phase.command = some c) : Guard files i db conn c := by
  cases phase with
  | commit file rest applied =>
    cases hc
    cases applied with
    | true => exact ⟨h.1, Or.inl h.2⟩
    | false => exact ⟨h.1, Or.inr ⟨file.name, h.2⟩⟩
  | _ => exact h c hc

/-! ## What a command does -/

/-- What took effect stays, and so does the table. -/
structure Grows (db db' : Db ι) : Prop where
  effects : ∀ name ∈ db.effects, name ∈ db'.effects
  table : db.schemaMigrations.isSome → db'.schemaMigrations.isSome

theorem Grows.refl (db : Db ι) : Grows db db := ⟨fun _ h => h, fun h => h⟩

theorem Progress.grows {phase : Phase} (h : Progress files db phase) (hgrows : Grows db db') :
    Progress files db' phase := by
  have hupto : ∀ {file rest}, Progress.Upto files db file rest → Progress.Upto files db' file rest := by
    rintro file rest ⟨htable, front, hfiles, hfront⟩
    exact ⟨hgrows.table htable, front, hfiles, fun g hg => hgrows.effects _ (hfront g hg)⟩
  cases phase with
  | acquire rest => exact h
  | lock rest => exact h
  | createTable rest => exact h
  | begin file rest => exact hupto h
  | check file rest => exact hupto h
  | apply file rest => exact hupto h
  | record file rest => exact hupto h
  | commit file rest applied => exact ⟨hupto h.1, fun happlied => hgrows.effects _ (h.2 happlied)⟩
  | rollback errs => exact fun herrs g hg => hgrows.effects _ (h herrs g hg)
  | unlock errs => exact fun herrs g hg => hgrows.effects _ (h herrs g hg)
  | discard errs => exact fun herrs g hg => hgrows.effects _ (h herrs g hg)
  | done errs => exact fun herrs g hg => hgrows.effects _ (h herrs g hg)

theorem Ledger.effects_eq (h : Ledger old files db) {names : List Text}
    (hnames : db.schemaMigrations = some names) : db.effects = names := by
  have hrecorded := h.recorded
  rw [Db.recorded, hnames] at hrecorded
  exact hrecorded

/-- The commit of the next file. -/
theorem Ledger.append (h : Ledger old files db) (hnodup : (files.map File.name).Nodup) {name : Text}
    (hnext : Next files db name) :
    Ledger old files
      { db with
        schemaMigrations := db.schemaMigrations.map fun names => names ++ [name]
        effects := db.effects ++ [name] } := by
  obtain ⟨htable, hnew, front, file, back, hfiles, rfl, hfront⟩ := hnext
  obtain ⟨P, heffects, hfirst⟩ := h.order
  obtain ⟨names, hnames⟩ := Option.isSome_iff_exists.1 htable
  -- what is new now was no old file either
  have hold : file.name ∉ old := by
    intro hmem
    apply hnew
    rw [heffects]
    exact List.mem_append_left _ hmem
  have hpending := pending_append old front back hold
  rw [← hfiles] at hpending
  -- the files before it are all there, and it is not: what is there ends right before it
  have hP : P = pending old front := by
    apply eq_of_prefix hpending (hnodup.filter _) hfirst
    · intro g hg
      obtain ⟨⟨f, hf, rfl⟩, hg⟩ := mem_pending.1 hg
      have hmem := hfront f hf
      rw [heffects, List.mem_append] at hmem
      exact hmem.resolve_left hg
    · intro hmem
      apply hnew
      rw [heffects]
      exact List.mem_append_right _ hmem
  refine ⟨?_, P ++ [file.name], ?_, ?_⟩
  · rw [Db.recorded, hnames, h.effects_eq hnames]
    rfl
  · rw [heffects, List.append_assoc]
  · rw [hP, hpending]
    exact ⟨pending old back, by rw [List.append_assoc]; rfl⟩

theorem Ledger.nodup (h : Ledger old files db) (hnodup : (files.map File.name).Nodup)
    (hold : old.Nodup) : db.effects.Nodup := by
  obtain ⟨P, heffects, hfirst⟩ := h.order
  rw [heffects, List.nodup_append]
  refine ⟨hold, (hnodup.filter _).sublist hfirst.sublist, ?_⟩
  rintro name hmem _ hname rfl
  exact (mem_pending.1 (hfirst.subset hname)).2 hmem

/-- When every file is there, nothing is left of the others. -/
theorem Ledger.complete (h : Ledger old files db) (hnodup : (files.map File.name).Nodup)
    (hall : ∀ g ∈ files, g.name ∈ db.effects) : db.effects = old ++ pending old files := by
  obtain ⟨P, heffects, hfirst⟩ := h.order
  -- no duplicates on either side, so that the inclusion is enough
  have hsub : pending old files ⊆ P := by
    intro name hname
    obtain ⟨⟨g, hg, rfl⟩, hnew⟩ := mem_pending.1 hname
    have hmem := hall g hg
    rw [heffects, List.mem_append] at hmem
    exact hmem.resolve_left hnew
  have hlength : (pending old files).length ≤ P.length :=
    ((hnodup.filter _).subperm hsub).length_le
  rw [heffects, hfirst.eq_of_length_le hlength]

theorem Guard.frame (h : Guard files j db conn c) (hsame : db.holder = some j → db' = db) :
    Guard files j db' conn c := by
  cases c with
  | createTable =>
    rw [hsame h]
    exact h
  | begin =>
    rw [hsame h]
    exact h
  | check name =>
    rw [hsame h.1]
    exact h
  | apply file =>
    rw [hsame h.1]
    exact h
  | record name =>
    rw [hsame h.1]
    exact h
  | commit =>
    rw [hsame h.1]
    exact h
  | _ => trivial

theorem Ready.frame {phase : Phase} (h : Ready files j db conn phase)
    (hsame : db.holder = some j → db' = db) : Ready files j db' conn phase := by
  cases phase with
  | commit file rest applied =>
    cases applied with
    | true =>
      rw [hsame h.1]
      exact h
    | false =>
      rw [hsame h.1]
      exact h
  | _ => exact fun c hc => (h c hc).frame hsame

/-- A process that takes no step itself. -/
theorem ProcInv.frame {p : Proc} (h : ProcInv files j db p) (hgrows : Grows db db')
    (hsame : db.holder = some j → db' = db) : ProcInv files j db' p :=
  ⟨h.progress.grows hgrows, h.quiet, fun hup hlinked => (h.ready hup hlinked).frame hsame,
    fun hup c hc => (h.late hup c hc).frame hsame⟩

/-- Only the transaction of a connection matters. -/
theorem Guard.sameTx {conn' : Conn} (h : Guard files i db conn c) (htx : conn'.tx = conn.tx) :
    Guard files i db conn' c := by
  cases c with
  | check name => exact ⟨h.1, htx.trans h.2⟩
  | apply file => exact ⟨h.1, htx.trans h.2.1, h.2.2⟩
  | record name => exact ⟨h.1, htx.trans h.2.1, h.2.2⟩
  | commit =>
    rw [Guard, htx]
    exact h
  | _ => exact h

/-! ## Behind a call -/

theorem Progress.failed {phase : Phase} (h : Progress files db phase) :
    Progress files db (phase.next none) := by
  cases phase with
  | commit file rest applied =>
    cases applied with
    | true => exact fun herrs => (nomatch herrs)
    | false => exact fun herrs => (nomatch herrs)
  | rollback errs => exact h
  | unlock errs => exact fun herrs => absurd herrs (List.append_ne_nil_of_right_ne_nil _ (by simp))
  | discard errs => exact fun herrs => absurd herrs (List.append_ne_nil_of_right_ne_nil _ (by simp))
  | done errs => exact h
  | _ => exact fun herrs => (nomatch herrs)

theorem Ready.failed (phase : Phase) : Ready files i db conn (phase.next none) := by
  cases phase with
  | commit file rest applied =>
    cases applied with
    | true =>
      rintro c ⟨⟩
      trivial
    | false =>
      rintro c ⟨⟩
      trivial
  | done errs => exact fun c hc => (nomatch hc)
  | acquire rest => exact fun c hc => (nomatch hc)
  | discard errs => exact fun c hc => (nomatch hc)
  | _ =>
    rintro c ⟨⟩
    trivial

/-- The loop over the files that are left. -/
theorem applyFiles_inv (front : List File) {rest : List File} (hfiles : files = front ++ rest)
    (hfront : ∀ g ∈ front, g.name ∈ db.effects) (htable : db.schemaMigrations.isSome)
    (hholder : db.holder = some i) :
    Progress files db (Phase.applyFiles rest) ∧ Ready files i db conn (Phase.applyFiles rest) := by
  cases rest with
  | nil =>
    refine ⟨fun _ g hg => hfront g ?_, ?_⟩
    · rw [hfiles, List.append_nil] at hg
      exact hg
    · rintro c ⟨⟩
      trivial
  | cons file rest =>
    refine ⟨⟨htable, front, hfiles, hfront⟩, ?_⟩
    rintro c ⟨⟩
    exact hholder

section

variable [DecidableEq ι] {r : Bool × Db ι × Conn}

/-- What a command changes: nothing, the lock, the table, the open transaction or what it has done. -/
inductive Effect (i : ι) (db : Db ι) (conn : Conn) : Command → Db ι → Conn → Prop where
  | same {c : Command} : Effect i db conn c db conn
  | lock (hfree : db.holder = none ∨ db.holder = some i) :
      Effect i db conn .lock { db with holder := some i } conn
  | createTable : Effect i db conn .createTable { db with schemaMigrations := some db.recorded } conn
  | inTx {c : Command} (tx : Option Staged) : Effect i db conn c db { conn with tx := tx }
  | apply {file : File} (htx : conn.tx = none) :
      Effect i db conn (.apply file) { db with effects := db.effects ++ [file.name] } conn
  | record {name : Text} {names : List Text} (htx : conn.tx = none) :
      Effect i db conn (.record name) { db with schemaMigrations := some (names ++ [name]) } conn
  | commit {tx : Staged} (htx : conn.tx = some tx) :
      Effect i db conn .commit
        { db with
          schemaMigrations := db.schemaMigrations.map fun names => names ++ tx.recorded
          effects := db.effects ++ tx.applied }
        { conn with tx := none }
  | unlock (hholder : db.holder = some i) : Effect i db conn .unlock { db with holder := none } conn
  | discard : Effect i db conn .discard db { conn with linked := false }

theorem exec_effect (h : exec i db conn c = some r) : Effect i db conn c r.2.1 r.2.2 := by
  cases c with
  | acquire =>
    cases h
    exact .same
  | lock =>
    rw [exec] at h
    split at h
    · next hfree =>
        cases h
        exact .lock hfree
    · cases h
  | createTable =>
    cases h
    exact .createTable
  | begin =>
    cases h
    exact .inTx _
  | check name =>
    obtain ⟨names, -, rfl⟩ := Option.map_eq_some_iff.1 h
    exact .same
  | apply file =>
    rw [exec] at h
    split at h
    · next htx =>
        cases h
        exact .apply htx
    · cases h
      exact .inTx _
  | record name =>
    rw [exec] at h
    split at h
    · cases h
    · split at h
      · cases h
      · split at h
        · next htx =>
            cases h
            exact .record htx
        · cases h
          exact .inTx _
  | commit =>
    rw [exec] at h
    split at h
    · cases h
      exact .same
    · next htx =>
        cases h
        exact .commit htx
  | rollback =>
    cases h
    exact .inTx _
  | unlock =>
    rw [exec] at h
    split at h
    · next hholder =>
        cases h
        exact .unlock hholder
    · cases h
      exact .same
  | discard =>
    cases h
    exact .discard

theorem exec_ledger (hledger : Ledger old files db) (hnodup : (files.map File.name).Nodup)
    (hguard : Guard files i db conn c) (h : exec i db conn c = some r) : Ledger old files r.2.1 := by
  have heffect := exec_effect h
  obtain ⟨answer, db', conn'⟩ := r
  cases heffect with
  | same => exact hledger
  | lock hfree => exact ⟨hledger.recorded, hledger.order⟩
  | createTable => exact ⟨hledger.recorded, hledger.order⟩
  | inTx tx => exact hledger
  | apply htx =>
    rw [hguard.2.1] at htx
    cases htx
  | record htx =>
    rw [hguard.2.1] at htx
    cases htx
  | commit htx =>
    obtain ⟨-, hempty | ⟨name, hname, hnext⟩⟩ := hguard
    · -- nothing was done
      rw [hempty] at htx
      cases htx
      constructor
      · have hrecorded := hledger.recorded
        rw [Db.recorded] at hrecorded ⊢
        rw [List.append_nil, hrecorded]
        cases db.schemaMigrations with
        | none => rfl
        | some names => exact (List.append_nil names).symm
      · obtain ⟨P, heffects, hfirst⟩ := hledger.order
        exact ⟨P, by rw [List.append_nil, heffects], hfirst⟩
    · rw [hname] at htx
      cases htx
      exact hledger.append hnodup hnext
  | unlock hholder => exact ⟨hledger.recorded, hledger.order⟩
  | discard => exact hledger

theorem exec_grows (h : exec i db conn c = some r) : Grows db r.2.1 := by
  have heffect := exec_effect h
  obtain ⟨answer, db', conn'⟩ := r
  cases heffect with
  | createTable => exact ⟨fun _ h => h, fun _ => rfl⟩
  | apply htx => exact ⟨fun _ h => List.mem_append_left _ h, fun h => h⟩
  | record htx => exact ⟨fun _ h => h, fun _ => rfl⟩
  | commit htx =>
    refine ⟨fun _ h => List.mem_append_left _ h, fun h => ?_⟩
    rw [Option.isSome_map]
    exact h
  | _ => exact ⟨fun _ h => h, fun h => h⟩

/-- While one session holds the lock, no other one changes the database. -/
theorem exec_frame (hguard : Guard files i db conn c) (h : exec i db conn c = some r)
    (hholder : db.holder = some j) (hij : j ≠ i) : r.2.1 = db := by
  -- the session `j` has the lock, so that `i` has not
  have hnot : db.holder ≠ some i := by
    rw [hholder]
    exact fun heq => hij (Option.some.inj heq)
  have heffect := exec_effect h
  obtain ⟨answer, db', conn'⟩ := r
  cases heffect with
  | same => rfl
  | lock hfree =>
    rcases hfree with hnone | hsame
    · rw [hholder] at hnone
      cases hnone
    · exact absurd hsame hnot
  | createTable => exact absurd hguard hnot
  | inTx tx => rfl
  | apply htx => exact absurd hguard.1 hnot
  | record htx => exact absurd hguard.1 hnot
  | commit htx => exact absurd hguard.1 hnot
  | unlock hsame => exact absurd hsame hnot
  | discard => rfl

/-- What a command leaves of the connection. -/
theorem exec_conn (h : exec i db conn c = some r) :
    r.2.2.late = conn.late ∧ r.2.2.up = conn.up ∧ (r.2.2.linked = true → conn.linked = true) := by
  have heffect := exec_effect h
  obtain ⟨answer, db', conn'⟩ := r
  cases heffect with
  | discard => exact ⟨rfl, rfl, fun hlinked => (nomatch hlinked)⟩
  | _ => exact ⟨rfl, rfl, id⟩

/-- The question whether a file is recorded, in its own transaction. -/
theorem check_inv {file : File} {rest : List File} (hledger : Ledger old files db)
    (hprogress : Progress files db (.check file rest)) (hholder : db.holder = some i)
    (htx : conn.tx = some ⟨[], []⟩) (h : exec i db conn (.check file.name) = some r) :
    Progress files r.2.1 ((Phase.check file rest).next (some r.1)) ∧
      Ready files i r.2.1 r.2.2 ((Phase.check file rest).next (some r.1)) := by
  obtain ⟨names, hnames, rfl⟩ := Option.map_eq_some_iff.1 h
  -- nothing is staged, so that the answer is about what took effect
  have hanswer : (decide (file.name ∈ names) || conn.tx.any fun tx => file.name ∈ tx.recorded) =
      decide (file.name ∈ db.effects) := by
    rw [htx, hledger.effects_eq hnames]
    simp
  dsimp only
  rw [hanswer]
  by_cases hmem : file.name ∈ db.effects
  · rw [decide_eq_true hmem]
    exact ⟨⟨hprogress, fun _ => hmem⟩, hholder, htx⟩
  · rw [decide_eq_false hmem]
    refine ⟨hprogress, ?_⟩
    obtain ⟨htable, front, hfiles, hfront⟩ := hprogress
    rintro c ⟨⟩
    exact ⟨hholder, htx, htable, hmem, front, file, rest, hfiles, rfl, hfront⟩

/-- The commit leaves the lock where it is, and the file behind it. -/
theorem commit_there {file : File} {rest : List File} {applied : Bool}
    (hready : Ready files i db conn (.commit file rest applied))
    (hmem : applied = true → file.name ∈ db.effects) (h : exec i db conn .commit = some r) :
    r.2.1.holder = some i ∧ file.name ∈ r.2.1.effects := by
  cases applied with
  | true =>
    obtain ⟨hholder, htx⟩ := hready
    have hgrows := exec_grows h
    rw [exec, htx] at h
    cases h
    exact ⟨hholder, hgrows.effects _ (hmem rfl)⟩
  | false =>
    obtain ⟨hholder, htx, -⟩ := hready
    rw [exec, htx] at h
    cases h
    exact ⟨hholder, List.mem_append_right _ List.mem_cons_self⟩

theorem Phase.next_commit (file : File) (rest : List File) (applied answer : Bool) :
    (Phase.commit file rest applied).next (some answer) = Phase.applyFiles rest := by
  cases applied <;> rfl

/-- Behind the commit of a file the next one begins. -/
theorem commit_inv {file : File} {rest : List File} {applied : Bool}
    (hprogress : Progress files db (.commit file rest applied))
    (hready : Ready files i db conn (.commit file rest applied))
    (h : exec i db conn .commit = some r) :
    Progress files r.2.1 ((Phase.commit file rest applied).next (some r.1)) ∧
      Ready files i r.2.1 r.2.2 ((Phase.commit file rest applied).next (some r.1)) := by
  obtain ⟨⟨htable, front, hfiles, hfront⟩, hmem⟩ := hprogress
  obtain ⟨hholder, hfile⟩ := commit_there hready hmem h
  have hgrows := exec_grows h
  have hsplit : files = (front ++ [file]) ++ rest := by
    rw [hfiles, List.append_assoc]
    rfl
  -- the front grows by the file that was looked at
  have hbehind : ∀ g ∈ front ++ [file], g.name ∈ r.2.1.effects := by
    intro g hg
    rcases List.mem_append.1 hg with hg | hg
    · exact hgrows.effects _ (hfront g hg)
    · rw [List.mem_singleton.1 hg]
      exact hfile
  rw [Phase.next_commit]
  exact applyFiles_inv _ hsplit hbehind (hgrows.table htable) hholder

/-- What is true behind an answered command, one case for each phase. -/
theorem answered_inv {phase : Phase} (hledger : Ledger old files db) (hprogress : Progress files db phase)
    (hready : Ready files i db conn phase) (hc : phase.command = some c)
    (h : exec i db conn c = some r) :
    Progress files r.2.1 (phase.next (some r.1)) ∧
      Ready files i r.2.1 r.2.2 (phase.next (some r.1)) := by
  -- One case for each command; what it needs of the database is the guard of its phase.
  cases phase with
  | acquire rest =>
    cases hc
    cases h
    refine ⟨hprogress, ?_⟩
    rintro c ⟨⟩
    trivial
  | lock rest =>
    cases hc
    rw [exec] at h
    split at h
    · cases h
      refine ⟨hprogress, ?_⟩
      rintro c ⟨⟩
      rfl
    · cases h
  | createTable rest =>
    have hrest : rest = files := hprogress
    cases hc
    have hholder : db.holder = some i := hready.guard rfl
    cases h
    apply applyFiles_inv []
    · rw [hrest]
      rfl
    · exact fun g hg => absurd hg List.not_mem_nil
    · rfl
    · exact hholder
  | begin file rest =>
    cases hc
    have hholder : db.holder = some i := hready.guard rfl
    cases h
    refine ⟨hprogress, ?_⟩
    rintro c ⟨⟩
    exact ⟨hholder, rfl⟩
  | check file rest =>
    cases hc
    obtain ⟨hholder, htx⟩ := hready.guard rfl
    exact check_inv hledger hprogress hholder htx h
  | apply file rest =>
    cases hc
    obtain ⟨hholder, htx, hnext⟩ := hready.guard rfl
    rw [exec, htx] at h
    cases h
    refine ⟨hprogress, ?_⟩
    rintro c ⟨⟩
    exact ⟨hholder, rfl, hnext⟩
  | record file rest =>
    cases hc
    obtain ⟨hholder, htx, hnext⟩ := hready.guard rfl
    rw [exec, htx] at h
    split at h
    · cases h
    · split at h
      · cases h
      · cases h
        exact ⟨⟨hprogress, fun happlied => (nomatch happlied)⟩, hholder, rfl, hnext⟩
  | commit file rest applied =>
    cases hc
    exact commit_inv hprogress hready h
  | rollback errs =>
    cases hc
    cases h
    refine ⟨hprogress, ?_⟩
    rintro c ⟨⟩
    trivial
  | unlock errs =>
    cases hc
    -- The lock is given back or not, but no file is taken out of the ledger.
    have hgrows := exec_grows h
    rw [exec] at h
    split at h
    · cases h
      exact ⟨fun herrs g hg => hgrows.effects _ (hprogress herrs g hg), fun c hc => (nomatch hc)⟩
    · cases h
      refine ⟨?_, ?_⟩
      · exact fun herrs => absurd herrs (List.append_ne_nil_of_right_ne_nil _ (by simp))
      · rintro c ⟨⟩
        trivial
  | discard errs =>
    cases hc
    cases h
    exact ⟨hprogress, fun c hc => (nomatch hc)⟩
  | done errs => cases hc

/-! ## Steps and runs -/

section

variable {s s' : State ι}

/-- A step of one process. -/
theorem Sound.update (h : Sound old files s) {p : Proc} (hledger : Ledger old files db')
    (hgrows : Grows s.db db') (hframe : ∀ j, j ≠ i → s.db.holder = some j → db' = s.db)
    (hproc : ProcInv files i db' p) : Sound old files ⟨db', Function.update s.procs i p⟩ := by
  refine ⟨hledger, fun j => ?_⟩
  by_cases hj : j = i
  · subst hj
    show ProcInv files j db' (Function.update s.procs j p j)
    rw [Function.update_self]
    exact hproc
  · show ProcInv files j db' (Function.update s.procs i p j)
    rw [Function.update_of_ne hj]
    exact (h.procs j).frame hgrows (hframe j hj)

/-- A step that leaves the database alone. -/
theorem Sound.local (h : Sound old files s) {p : Proc} (hproc : ProcInv files i s.db p) :
    Sound old files { s with procs := Function.update s.procs i p } :=
  h.update h.ledger (Grows.refl _) (fun _ _ _ => rfl) hproc

theorem Sound.executed (h : Sound old files s) (hnodup : (files.map File.name).Nodup)
    {answered : Bool} (hstep : executed s i answered = some s') : Sound old files s' := by
  rw [Migrate.executed] at hstep
  have hi := h.procs i
  cases hc : (s.procs i).phase.command with
  | none => simp [hc] at hstep
  | some c =>
    simp only [hc] at hstep
    split at hstep
    · next hlive =>
        rw [Bool.and_eq_true] at hlive
        obtain ⟨hup, hlinked⟩ := hlive
        obtain ⟨r, hexec, rfl⟩ := Option.map_eq_some_iff.1 hstep
        have hready := hi.ready hup hlinked
        have hguard := hready.guard hc
        have hgrows := exec_grows hexec
        obtain ⟨hprogress, hanswer⟩ := answered_inv h.ledger hi.progress hready hc hexec
        -- a session whose client is there has nothing else on its way
        obtain ⟨hlate, -, -⟩ := exec_conn hexec
        rw [hi.quiet hlinked] at hlate
        apply h.update (exec_ledger h.ledger hnodup hguard hexec) hgrows
        · exact fun j hj hholder => exec_frame hguard hexec hholder hj
        · refine ⟨?_, fun _ => hlate, fun _ _ => ?_, fun _ c hc => ?_⟩
          · cases answered with
            | true => exact hprogress
            | false => exact (hi.progress.grows hgrows).failed
          · cases answered with
            | true => exact hanswer
            | false => exact Ready.failed _
          · rw [hlate] at hc
            cases hc
    · cases hstep

theorem release_ledger (h : Ledger old files db) (i : ι) : Ledger old files (release i db) := by
  rw [release]
  split
  · exact ⟨h.recorded, h.order⟩
  · exact h

theorem release_grows (i : ι) (db : Db ι) : Grows db (release i db) := by
  rw [release]
  split
  · exact ⟨fun _ h => h, fun h => h⟩
  · exact Grows.refl db

theorem Sound.step (h : Sound old files s) (hnodup : (files.map File.name).Nodup) {e : Event ι}
    (hstep : step s e = some s') : Sound old files s' := by
  cases e with
  | call i delivery =>
    cases delivery with
    | answered => exact h.executed hnodup hstep
    | lost => exact h.executed hnodup hstep
    | refused =>
      cases hstep
      have hi := h.procs i
      exact h.local ⟨hi.progress.failed, hi.quiet, fun _ _ => Ready.failed _, hi.late⟩
  | giveUp i =>
    have hi := h.procs i
    rw [Migrate.step] at hstep
    dsimp only at hstep
    split at hstep
    · next hlinked =>
        cases hstep
        refine h.local ⟨hi.progress.failed, fun hnot => (nomatch hnot), fun _ hnot => (nomatch hnot), ?_⟩
        intro hup c hc
        exact ((hi.ready hup hlinked).guard hc).sameTx rfl
    · cases hstep
  | late i =>
    have hi := h.procs i
    rw [Migrate.step] at hstep
    cases hlate : (s.procs i).conn.late with
    | none => simp [hlate] at hstep
    | some c =>
      simp only [hlate] at hstep
      split at hstep
      · next hup =>
          obtain ⟨r, hexec, rfl⟩ := Option.map_eq_some_iff.1 hstep
          -- the command was guarded when its client gave up, and still is
          have hguard : Guard files i s.db { (s.procs i).conn with late := none } c :=
            (hi.late hup c hlate).sameTx rfl
          have hgrows := exec_grows hexec
          obtain ⟨hnone, -, hlinked⟩ := exec_conn hexec
          apply h.update (exec_ledger h.ledger hnodup hguard hexec) hgrows
          · exact fun j hj hholder => exec_frame hguard hexec hholder hj
          · refine ⟨hi.progress.grows hgrows, fun _ => hnone, fun _ hlink => ?_, fun _ c hc => ?_⟩
            · -- its client had given up
              have hquiet := hi.quiet (hlinked hlink)
              rw [hlate] at hquiet
              cases hquiet
            · rw [hnone] at hc
              cases hc
      · cases hstep
  | crash i =>
    cases hstep
    have hi := h.procs i
    -- what the client had sent may still arrive
    refine h.local ⟨fun herrs => (nomatch herrs), fun hnot => (nomatch hnot),
      fun _ hnot => (nomatch hnot), ?_⟩
    intro hup c hc
    dsimp only at hc
    split at hc
    · next hlinked => exact ((hi.ready hup hlinked).guard hc).sameTx rfl
    · exact (hi.late hup c hc).sameTx rfl
  | disconnect i =>
    cases hstep
    have hi := h.procs i
    apply h.update (release_ledger h.ledger i) (release_grows i s.db)
    · intro j hj hholder
      -- the lock that goes is that of `i`
      rw [release, if_neg]
      rw [hholder]
      exact fun heq => hj (Option.some.inj heq)
    · exact ⟨hi.progress.grows (release_grows i s.db), fun _ => rfl, fun hnot => (nomatch hnot),
        fun hnot => (nomatch hnot)⟩

theorem Sound.steps (h : Sound old files s) (hnodup : (files.map File.name).Nodup)
    (hsteps : Steps s s') : Sound old files s' := by
  induction hsteps with
  | refl => exact h
  | tail _ hlast ih =>
    obtain ⟨e, hstep⟩ := hlast
    exact ih.step hnodup hstep

end

end

end

end Workbench.Migrate
