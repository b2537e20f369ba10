import Mathlib.Data.Char
import Mathlib.Data.List.Lex
import Mathlib.Logic.Function.Basic
import Mathlib.Logic.Relation
import Workbench.Base.Text
import Workbench.Lib.Commands

/-!
# Migrations

`api/internal/migrate/migrate.go`: `applyMigrations` in any number of processes, each with a connection of its
own. A call can fail before or behind its execution, a process can give up or crash with a call on its way,
and the server can end a session at any time; then it takes back its advisory lock and its open transaction.
-/

set_option autoImplicit false

namespace Workbench.Migrate

open Workbench.Lib

structure File where
  name : Text
  sql : Text
  deriving DecidableEq, Repr

/-- A segment of `[a-z0-9]+`. -/
def segment (part : Text) : Bool := part ≠ [] && part.all fun c => isLower c || isDigit c

/-- `^[0-9]{4}_[a-z0-9]+(?:_[a-z0-9]+)*\.sql$`. -/
def migrationName (name : Text) : Bool :=
  name.drop (name.length - 4) = ".sql".toList &&
    match (name.take (name.length - 4)).splitOn '_' with
    | version :: parts => version.length = 4 && version.all isDigit && parts ≠ [] && parts.all segment
    | [] => false

/-- The order of `sort.Slice`. -/
def byName (files : List File) : List File := files.mergeSort fun a b => a.name ≤ b.name

def sortMigrationFiles (files : List File) : Except Text (List File) :=
  match files.find? fun f => !migrationName f.name with
  | some f => .error ("invalid migration filename ".toList ++ f.name)
  | none => .ok (byName files)

/-! ## The database -/

section

variable {ι : Type}

/-- The table `schema_migrations`, if it is there, with its rows in the order in which they came; the files
whose SQL has taken effect, in their order; and the session that holds the advisory lock. -/
structure Db (ι : Type) where
  schemaMigrations : Option (List Text)
  effects : List Text
  holder : Option ι

/-- The recorded versions. -/
def Db.recorded (db : Db ι) : List Text := db.schemaMigrations.getD []

/-- What an open transaction has done. -/
structure Staged where
  applied : List Text
  recorded : List Text
  deriving DecidableEq, Repr

inductive Command where
  | acquire
  | lock
  | createTable
  | begin
  | check (name : Text)
  | apply (file : File)
  | record (name : Text)
  | commit
  | rollback
  | unlock
  | discard
  deriving DecidableEq, Repr

/-- A connection: whether the server has a session for it, whether its client can send, the open transaction
of the session, and a command that was on its way when the client gave up. -/
structure Conn where
  up : Bool
  linked : Bool
  tx : Option Staged
  late : Option Command
  deriving DecidableEq, Repr

section

variable [DecidableEq ι]

/-- A command that the server executes for the session `i`, and its answer. It refuses what violates the
primary key and what needs a table that is not there, and it does not answer a lock that another session
holds. Outside of a transaction a statement takes effect at once. -/
def exec (i : ι) (db : Db ι) (conn : Conn) : Command → Option (Bool × Db ι × Conn)
  | .acquire => some (true, db, conn)
  | .lock =>
    if db.holder = none ∨ db.holder = some i then some (true, { db with holder := some i }, conn)
    else none
  | .createTable => some (true, { db with schemaMigrations := some db.recorded }, conn)
  | .begin => some (true, db, { conn with tx := some ⟨[], []⟩ })
  | .check name =>
    db.schemaMigrations.map fun names =>
      (name ∈ names || conn.tx.any fun tx => name ∈ tx.recorded, db, conn)
  | .apply file =>
    match conn.tx with
    | none => some (true, { db with effects := db.effects ++ [file.name] }, conn)
    | some tx => some (true, db, { conn with tx := some { tx with applied := tx.applied ++ [file.name] } })
  | .record name =>
    match db.schemaMigrations with
    | none => none
    | some names =>
      if name ∈ names then none
      else
        match conn.tx with
        | none => some (true, { db with schemaMigrations := some (names ++ [name]) }, conn)
        | some tx => some (true, db, { conn with tx := some { tx with recorded := tx.recorded ++ [name] } })
  | .commit =>
    match conn.tx with
    | none => some (true, db, conn)
    | some tx =>
      some (true,
        { db with
          schemaMigrations := db.schemaMigrations.map fun names => names ++ tx.recorded
          effects := db.effects ++ tx.applied },
        { conn with tx := none })
  | .rollback => some (true, db, { conn with tx := none })
  | .unlock =>
    if db.holder = some i then some (true, { db with holder := none }, conn) else some (false, db, conn)
  | .discard => some (true, db, { conn with linked := false })

/-- The server ends the session `i`. -/
def release (i : ι) (db : Db ι) : Db ι := if db.holder = some i then { db with holder := none } else db

end

/-! ## The program -/

/-- The call that comes next, with the files that are left and the errors so far. -/
inductive Phase where
  | acquire (files : List File)
  | lock (files : List File)
  | createTable (files : List File)
  | begin (file : File) (rest : List File)
  | check (file : File) (rest : List File)
  | apply (file : File) (rest : List File)
  | record (file : File) (rest : List File)
  | commit (file : File) (rest : List File) (applied : Bool)
  | rollback (errs : List Text)
  | unlock (errs : List Text)
  | discard (errs : List Text)
  | done (errs : List Text)
  deriving DecidableEq, Repr

namespace Phase

def command : Phase → Option Command
  | .acquire _ => some .acquire
  | .lock _ => some .lock
  | .createTable _ => some .createTable
  | .begin _ _ => some .begin
  | .check file _ => some (.check file.name)
  | .apply file _ => some (.apply file)
  | .record file _ => some (.record file.name)
  | .commit _ _ _ => some .commit
  | .rollback _ => some .rollback
  | .unlock _ => some .unlock
  | .discard _ => some .discard
  | .done _ => none

/-- The loop over the files; behind it comes `finishLockedConnection` without an error. -/
def applyFiles : List File → Phase
  | [] => .unlock []
  | file :: rest => .begin file rest

/-- The message of an operation on a file, without its cause. -/
def failure (operation : Text) (file : File) : List Text := [operation ++ ' ' :: file.name]

/-- Where the program goes with the answer, or without one; a transaction that did not come to its commit is
rolled back. -/
def next : Phase → Option Bool → Phase
  | .acquire _, none => .done ["acquire migration connection".toList]
  | .acquire files, some _ => .lock files
  | .lock _, none => .discard ["acquire migration advisory lock".toList]
  | .lock files, some _ => .createTable files
  | .createTable _, none => .unlock ["create schema migrations table".toList]
  | .createTable files, some _ => applyFiles files
  | .begin file _, none => .unlock (failure "begin migration".toList file)
  | .begin file rest, some _ => .check file rest
  | .check file _, none => .rollback (failure "check migration".toList file)
  | .check file rest, some applied => if applied then .commit file rest true else .apply file rest
  | .apply file _, none => .rollback (failure "apply migration".toList file)
  | .apply file rest, some _ => .record file rest
  | .record file _, none => .rollback (failure "record migration".toList file)
  | .record file rest, some _ => .commit file rest false
  | .commit file _ true, none => .unlock (failure "commit migration check".toList file)
  | .commit file _ false, none => .unlock (failure "commit migration".toList file)
  | .commit _ rest _, some _ => applyFiles rest
  | .rollback errs, _ => .unlock errs
  | .unlock errs, some true => .done errs
  | .unlock errs, _ => .discard (errs ++ ["release migration advisory lock".toList])
  | .discard errs, some _ => .done errs
  | .discard errs, none => .done (errs ++ ["close uncertain migration connection".toList])
  | .done errs, _ => .done errs

end Phase

/-- `applyMigrations` before its first call. -/
def start (files : List File) : Phase :=
  match sortMigrationFiles files with
  | .error e => .done [e]
  | .ok sorted => .acquire sorted

/-! ## Processes -/

structure Proc where
  phase : Phase
  conn : Conn
  deriving DecidableEq, Repr

structure State (ι : Type) where
  db : Db ι
  procs : ι → Proc

inductive Event (ι : Type) where
  /-- The next call of a process. -/
  | call (i : ι) (delivery : Delivery)
  /-- A process goes on without waiting for its call, and its connection is lost. -/
  | giveUp (i : ι)
  /-- The server executes what was on its way when a process gave up. -/
  | late (i : ι)
  | crash (i : ι)
  /-- The server ends a session. -/
  | disconnect (i : ι)

def init (db : Db ι) (files : List File) : State ι := ⟨db, fun _ => ⟨start files, ⟨true, true, none, none⟩⟩⟩

variable [DecidableEq ι]

/-- The state behind a call that the server executes; the client may not get the answer. -/
def executed (s : State ι) (i : ι) (answered : Bool) : Option (State ι) :=
  let p := s.procs i
  match p.phase.command with
  | none => none
  | some c =>
    if p.conn.up && p.conn.linked then
      (exec i s.db p.conn c).map fun r =>
        ⟨r.2.1, Function.update s.procs i ⟨p.phase.next (if answered then some r.1 else none), r.2.2⟩⟩
    else none

def step (s : State ι) : Event ι → Option (State ι)
  | .call i .answered => executed s i true
  | .call i .lost => executed s i false
  | .call i .refused =>
    let p := s.procs i
    some { s with procs := Function.update s.procs i { p with phase := p.phase.next none } }
  | .giveUp i =>
    let p := s.procs i
    if p.conn.linked then
      some { s with
        procs := Function.update s.procs i
          ⟨p.phase.next none, { p.conn with linked := false, late := p.phase.command }⟩ }
    else none
  | .late i =>
    let p := s.procs i
    match p.conn.late with
    | none => none
    | some c =>
      if p.conn.up then
        (exec i s.db { p.conn with late := none } c).map fun r =>
          ⟨r.2.1, Function.update s.procs i { p with conn := r.2.2 }⟩
      else none
  | .crash i =>
    let p := s.procs i
    let late := if p.conn.linked then p.phase.command else p.conn.late
    some { s with
      procs := Function.update s.procs i
        ⟨.done ["crash".toList], { p.conn with linked := false, late := late }⟩ }
  | .disconnect i =>
    let p := s.procs i
    some ⟨release i s.db,
      Function.update s.procs i { p with conn := { p.conn with up := false, tx := none, late := none } }⟩

/-- The states that processes reach, in any order of their steps. -/
def Steps : State ι → State ι → Prop := Relation.ReflTransGen fun s s' => ∃ e, step s e = some s'

/-- The run of these events. -/
def follow (s : State ι) : List (Event ι) → Option (State ι)
  | [] => some s
  | e :: es => (step s e).bind fun s' => follow s' es

theorem steps_of_follow {s s' : State ι} {es : List (Event ι)} (h : follow s es = some s') :
    Steps s s' := by
  induction es generalizing s with
  | nil =>
    cases h
    exact Relation.ReflTransGen.refl
  | cons e es ih =>
    obtain ⟨s₁, hstep, hrest⟩ := Option.bind_eq_some_iff.1 h
    exact Relation.ReflTransGen.head ⟨e, hstep⟩ (ih hrest)

end

example : migrationName "0003_connection_names_by_kind.sql".toList = true := by decide

end Workbench.Migrate
