import Mathlib.Data.Fintype.Basic
import Mathlib.Data.List.Basic
import Mathlib.Logic.Function.Basic
import Mathlib.Logic.Relation

/-!
# Transactions at READ COMMITTED

A transaction is a list of statements in which each one may depend on what the earlier ones found. A
statement takes a snapshot of the committed state, locks the rows that it found there one by one, waits
for each of them, and then looks at the latest committed state and at the writes of its own transaction.
Locks are held to the end of the transaction, and the writes of a transaction show to the others when it
commits. The same transaction has a meaning of its own, in which it runs alone (`Tx.exec`), and so has a
program that runs several of them (`Program.Runs`).
-/

set_option autoImplicit false

namespace Workbench.Lib

/-- What there is to know about the rows of a database: which of them exist, and what no other
transaction changes about a row that is locked. -/
structure Rows (Db Key : Type) where
  present : Db → Key → Bool
  Keeps : Key → Db → Db → Prop
  refl : ∀ k db, Keeps k db db
  trans : ∀ {k : Key} {a b c : Db}, Keeps k a b → Keeps k b c → Keeps k a c

/-- A statement with a result in `β`. `rows` are the rows that it finds in its snapshot and locks,
`claims` the keys that it inserts; `result` and `change` get the rows that it could lock and the state
it looks at. It leaves every other row alone. -/
structure Statement {Db Key : Type} (R : Rows Db Key) (Label Err β : Type) where
  label : Label
  rows : Db → List Key
  claims : List Key
  result : List Key → Db → Except Err β
  change : List Key → Db → Db → Db
  frame : ∀ found view db k, k ∉ found → k ∉ claims → R.Keeps k db (change found view db)

/-- What is left of a transaction. -/
inductive Tx {Db Key : Type} (R : Rows Db Key) (Label Err α : Type) : Type 1 where
  | done (result : Except Err α)
  | stmt {β : Type} (s : Statement R Label Err β) (next : β → Tx R Label Err α)

section

variable {Db Key : Type} {R : Rows Db Key} {Label Err α : Type}

namespace Tx

/-- A transaction that runs alone, on the state that its own writes have left: with an error it is
rolled back. -/
def exec : Tx R Label Err α → Db → Except Err (α × Db)
  | .done (.ok a), view => .ok (a, view)
  | .done (.error e), _ => .error e
  | .stmt s next, view =>
    match s.result (s.rows view) view with
    | .error e => .error e
    | .ok b => (next b).exec (s.change (s.rows view) view view)

/-- One statement. -/
def perform {β : Type} (s : Statement R Label Err β) : Tx R Label Err β := .stmt s fun b => .done (.ok b)

def throw (e : Err) : Tx R Label Err α := .done (.error e)

/-- The rest of a transaction behind its first part. -/
def bind {β : Type} : Tx R Label Err β → (β → Tx R Label Err α) → Tx R Label Err α
  | .done (.ok b), f => f b
  | .done (.error e), _ => .done (.error e)
  | .stmt s next, f => .stmt s fun c => (next c).bind f

instance : Monad (Tx R Label Err) where
  pure a := .done (.ok a)
  bind := bind

/-- A transaction whose result is not looked at. -/
def void {β : Type} (tx : Tx R Label Err β) : Tx R Label Err Unit := tx >>= fun _ => pure ()

theorem exec_bind {β : Type} (t : Tx R Label Err β) (f : β → Tx R Label Err α) (db : Db) :
    (t >>= f).exec db =
      match t.exec db with
      | .error e => .error e
      | .ok (b, db') => (f b).exec db' := by
  induction t generalizing db with
  | done r => cases r <;> rfl
  | stmt s next ih =>
    show (Tx.stmt s fun c => (next c).bind f).exec db = _
    simp only [exec]
    cases s.result (s.rows db) db with
    | error e => rfl
    | ok c => exact ih c _

theorem exec_bind_ok {β : Type} {t : Tx R Label Err β} {f : β → Tx R Label Err α} {db db' : Db}
    {a : α} :
    (t >>= f).exec db = .ok (a, db') ↔
      ∃ b mid, t.exec db = .ok (b, mid) ∧ (f b).exec mid = .ok (a, db') := by
  rw [exec_bind]
  cases t.exec db with
  | error e => simp
  | ok r =>
    obtain ⟨b, mid⟩ := r
    simp

theorem exec_pure_ok {a b : α} {db db' : Db} :
    (pure a : Tx R Label Err α).exec db = .ok (b, db') ↔ b = a ∧ db' = db := by
  show Except.ok (a, db) = Except.ok (b, db') ↔ _
  simp only [Except.ok.injEq, Prod.mk.injEq, eq_comm]

theorem exec_throw_ok {e : Err} {a : α} {db db' : Db} :
    (throw e : Tx R Label Err α).exec db = .ok (a, db') ↔ False := by
  simp [throw, exec]

theorem exec_perform_ok {β : Type} {s : Statement R Label Err β} {db db' : Db} {b : β} :
    (perform s).exec db = .ok (b, db') ↔
      s.result (s.rows db) db = .ok b ∧ db' = s.change (s.rows db) db db := by
  rw [perform, exec]
  cases s.result (s.rows db) db with
  | error e => simp
  | ok c => simp [exec, eq_comm]

/-- The result of checks that no statement takes part in. -/
theorem exec_done_ok {r : Except Err α} {a : α} {db db' : Db} :
    (done r : Tx R Label Err α).exec db = .ok (a, db') ↔ r = .ok a ∧ db' = db := by
  cases r with
  | error e => simp [exec]
  | ok b =>
    show Except.ok (b, db) = Except.ok (a, db') ↔ _
    simp only [Except.ok.injEq, Prod.mk.injEq, eq_comm]

/-- A loop of guards. -/
theorem exec_forM_guards {β : Type} {f : β → Tx R Label Err PUnit} {P : β → Db → Prop}
    (hf : ∀ x db db', (f x).exec db = .ok (⟨⟩, db') ↔ P x db ∧ db' = db) (l : List β) (db db' : Db) :
    (l.forM f).exec db = .ok (⟨⟩, db') ↔ (∀ x ∈ l, P x db) ∧ db' = db := by
  induction l with
  | nil => simp [List.forM, exec_pure_ok]
  | cons x l ih =>
    rw [List.forM, exec_bind_ok]
    constructor
    · rintro ⟨⟨⟩, mid, hx, hl⟩
      obtain ⟨hPx, rfl⟩ := (hf x _ _).1 hx
      obtain ⟨hPl, rfl⟩ := ih.1 hl
      exact ⟨List.forall_mem_cons.2 ⟨hPx, hPl⟩, rfl⟩
    · rintro ⟨hP, rfl⟩
      obtain ⟨hPx, hPl⟩ := List.forall_mem_cons.1 hP
      exact ⟨⟨⟩, db', (hf x _ _).2 ⟨hPx, rfl⟩, ih.2 ⟨hPl, rfl⟩⟩

end Tx

/-! ## Programs -/

/-- Code that runs one transaction after another. -/
inductive Program {Db Key : Type} (R : Rows Db Key) (Label Err α : Type) : Type 1 where
  | ret (result : Except Err α)
  | transact {β : Type} (tx : Tx R Label Err β) (next : β → Program R Label Err α)

namespace Program

/-- What a program that runs alone can come to: its result, or a failure of the database in one of its
transactions, and the state behind it. -/
inductive Runs : Program R Label Err α → Db → Option (Except Err α) → Db → Prop
  | ret {result : Except Err α} {db : Db} : Runs (.ret result) db (some result) db
  | commit {β : Type} {tx : Tx R Label Err β} {next : β → Program R Label Err α} {b : β}
      {db mid db' : Db} {r : Option (Except Err α)} (h : tx.exec db = .ok (b, mid))
      (hnext : Runs (next b) mid r db') : Runs (.transact tx next) db r db'
  | rollback {β : Type} {tx : Tx R Label Err β} {next : β → Program R Label Err α} {e : Err} {db : Db}
      (h : tx.exec db = .error e) : Runs (.transact tx next) db (some (.error e)) db
  | fail {β : Type} {tx : Tx R Label Err β} {next : β → Program R Label Err α} {db : Db} :
      Runs (.transact tx next) db none db

/-- The run in which the database does not fail. -/
def eval : Program R Label Err α → Db → Except Err α × Db
  | .ret result, db => (result, db)
  | .transact tx next, db =>
    match tx.exec db with
    | .error e => (.error e, db)
    | .ok (b, mid) => (next b).eval mid

theorem runs_eval (p : Program R Label Err α) (db : Db) :
    p.Runs db (some (p.eval db).1) (p.eval db).2 := by
  induction p generalizing db with
  | ret result => exact Runs.ret
  | transact tx next ih =>
    rw [eval]
    cases h : tx.exec db with
    | error e => exact Runs.rollback h
    | ok r => exact Runs.commit h (ih _ _)

/-- One transaction whose result is not looked at. -/
def once {β : Type} (tx : Tx R Label Err β) : Program R Label Err Unit :=
  .transact tx fun _ => .ret (.ok ())

theorem runs_once {β : Type} {tx : Tx R Label Err β} {db db' : Db} {r : Option (Except Err Unit)} :
    (once tx).Runs db r db' ↔
      (r = some (.ok ()) ∧ ∃ b, tx.exec db = .ok (b, db')) ∨
      (r ≠ some (.ok ()) ∧ db' = db ∧ ∀ e, r = some (.error e) → tx.exec db = .error e) := by
  constructor
  · intro h
    cases h with
    | commit hexec hnext =>
      cases hnext
      exact Or.inl ⟨rfl, _, hexec⟩
    | rollback hexec =>
      refine Or.inr ⟨by simp, rfl, ?_⟩
      rintro e' ⟨⟩
      exact hexec
    | fail => exact Or.inr ⟨by simp, rfl, by simp⟩
  · rintro (⟨rfl, b, hexec⟩ | ⟨hne, rfl, herr⟩)
    · exact Runs.commit hexec Runs.ret
    · cases r with
      | none => exact Runs.fail
      | some r =>
        cases r with
        | ok u => exact absurd rfl hne
        | error e => exact Runs.rollback (herr e rfl)

end Program

/-! ## Processes -/

/-- Where a transaction stands: before its next statement, on the way to the rows that this statement
found in its snapshot, or at its end. A transaction that a failure ended has no result. -/
inductive Phase (R : Rows Db Key) (Label Err α : Type) : Type 1 where
  | ready (tx : Tx R Label Err α)
  | locking {β : Type} (s : Statement R Label Err β) (next : β → Tx R Label Err α)
      (todo got : List Key)
  | finished (result : Option (Except Err α))

/-- A transaction on its way, with its writes, its locks and the statements it has executed, each with
the rows that it locked. -/
structure Proc (R : Rows Db Key) (Label Err α : Type) : Type 1 where
  phase : Phase R Label Err α
  write : Db → Db
  locks : List Key
  trace : List (Label × List Key)

namespace Proc

def start (tx : Tx R Label Err α) : Proc R Label Err α := ⟨.ready tx, id, [], []⟩

def finish (p : Proc R Label Err α) (result : Option (Except Err α)) : Proc R Label Err α :=
  ⟨.finished result, id, [], p.trace⟩

def isFinished (p : Proc R Label Err α) : Prop := ∃ result, p.phase = .finished result

/-- The statements that the transaction has begun. -/
def begun (p : Proc R Label Err α) : List Label :=
  p.trace.map Prod.fst ++
    match p.phase with
    | .locking s _ _ _ => [s.label]
    | _ => []

/-- One step of a transaction, where the keys in `busy` are locked by the others. A row that the
snapshot had and that is gone is skipped; a key that is to be inserted is waited for in any case. -/
inductive Step (busy : Key → Prop) (db : Db) : Proc R Label Err α → Db → Proc R Label Err α → Prop
  | begin {β : Type} {s : Statement R Label Err β} {next : β → Tx R Label Err α} {write : Db → Db}
      {locks : List Key} {trace : List (Label × List Key)} :
      Step busy db ⟨.ready (.stmt s next), write, locks, trace⟩ db
        ⟨.locking s next (s.rows (write db)) [], write, locks, trace⟩
  | lock {β : Type} {s : Statement R Label Err β} {next : β → Tx R Label Err α} {write : Db → Db}
      {locks : List Key} {trace : List (Label × List Key)} {k : Key} {todo got : List Key}
      (hfree : ¬ busy k) (hpresent : R.present (write db) k = true) :
      Step busy db ⟨.locking s next (k :: todo) got, write, locks, trace⟩ db
        ⟨.locking s next todo (got ++ [k]), write, k :: locks, trace⟩
  | skip {β : Type} {s : Statement R Label Err β} {next : β → Tx R Label Err α} {write : Db → Db}
      {locks : List Key} {trace : List (Label × List Key)} {k : Key} {todo got : List Key}
      (hgone : R.present (write db) k = false) :
      Step busy db ⟨.locking s next (k :: todo) got, write, locks, trace⟩ db
        ⟨.locking s next todo got, write, locks, trace⟩
  | exec {β : Type} {s : Statement R Label Err β} {next : β → Tx R Label Err α} {write : Db → Db}
      {locks : List Key} {trace : List (Label × List Key)} {got : List Key} {b : β}
      (hfree : ∀ k ∈ s.claims, ¬ busy k) (h : s.result got (write db) = .ok b) :
      Step busy db ⟨.locking s next [] got, write, locks, trace⟩ db
        ⟨.ready (next b), fun x => s.change got (write db) (write x), s.claims ++ locks,
          trace ++ [(s.label, got)]⟩
  | refuse {β : Type} {s : Statement R Label Err β} {next : β → Tx R Label Err α} {write : Db → Db}
      {locks : List Key} {trace : List (Label × List Key)} {got : List Key} {e : Err}
      (h : s.result got (write db) = .error e) :
      Step busy db ⟨.locking s next [] got, write, locks, trace⟩ db
        ⟨.finished (some (.error e)), id, [], trace⟩
  | commit {a : α} {write : Db → Db} {locks : List Key} {trace : List (Label × List Key)} :
      Step busy db ⟨.ready (.done (.ok a)), write, locks, trace⟩ (write db)
        ⟨.finished (some (.ok a)), id, [], trace⟩
  | rollback {e : Err} {write : Db → Db} {locks : List Key} {trace : List (Label × List Key)} :
      Step busy db ⟨.ready (.done (.error e)), write, locks, trace⟩ db
        ⟨.finished (some (.error e)), id, [], trace⟩
  | fail {p : Proc R Label Err α} (h : ¬ p.isFinished) : Step busy db p db (p.finish none)

/-- The step that a transaction takes if nothing fails, where it has one. -/
def next [DecidableEq Key] (busy : Key → Bool) (db : Db) (p : Proc R Label Err α) :
    Option (Db × Proc R Label Err α) :=
  match p.phase with
  | .ready (.stmt s next) =>
    some (db, { p with phase := .locking s next (s.rows (p.write db)) [] })
  | .ready (.done (.ok a)) => some (p.write db, p.finish (some (.ok a)))
  | .ready (.done (.error e)) => some (db, p.finish (some (.error e)))
  | .locking s next (k :: todo) got =>
    if R.present (p.write db) k = false then some (db, { p with phase := .locking s next todo got })
    else if busy k then none
    else some (db, { p with phase := .locking s next todo (got ++ [k]), locks := k :: p.locks })
  | .locking s next [] got =>
    match s.result got (p.write db) with
    | .error e => some (db, p.finish (some (.error e)))
    | .ok b =>
      if s.claims.any busy then none
      else some (db, ⟨.ready (next b), fun x => s.change got (p.write db) (p.write x),
        s.claims ++ p.locks, p.trace ++ [(s.label, got)]⟩)
  | .finished _ => none

theorem step_of_next [DecidableEq Key] {busy : Key → Bool} {db db' : Db} {p p' : Proc R Label Err α}
    (h : p.next busy db = some (db', p')) : p.Step (fun k => busy k = true) db db' p' := by
  obtain ⟨phase, write, locks, trace⟩ := p
  unfold next at h
  split at h
  all_goals rename_i hphase
  all_goals obtain rfl : phase = _ := hphase
  · cases h
    exact Step.begin
  · cases h
    exact Step.commit
  · cases h
    exact Step.rollback
  · split at h
    · next hgone =>
        cases h
        exact Step.skip hgone
    · next hpresent =>
        split at h
        · cases h
        · next hfree =>
            cases h
            exact Step.lock hfree (by simpa using hpresent)
  · split at h
    · next hresult =>
        cases h
        exact Step.refuse hresult
    · next hresult =>
        split at h
        · cases h
        · next hfree =>
            cases h
            refine Step.exec (fun k hk hbusy => hfree ?_) hresult
            exact List.any_eq_true.2 ⟨k, hk, hbusy⟩
  · cases h

end Proc

/-- The committed state and every transaction. -/
structure System (R : Rows Db Key) (Label Err α ι : Type) : Type 1 where
  committed : Db
  procs : ι → Proc R Label Err α

namespace System

variable {ι : Type} [DecidableEq ι]

def init (db : Db) (txs : ι → Tx R Label Err α) : System R Label Err α ι :=
  ⟨db, fun i => Proc.start (txs i)⟩

/-- A key that another transaction has locked. -/
def busy (σ : System R Label Err α ι) (i : ι) (k : Key) : Prop := ∃ j, j ≠ i ∧ k ∈ (σ.procs j).locks

/-- A step of the transaction `i`. -/
inductive StepBy (i : ι) (σ : System R Label Err α ι) : System R Label Err α ι → Prop
  | mk {db : Db} {p : Proc R Label Err α} (h : (σ.procs i).Step (σ.busy i) σ.committed db p) :
      StepBy i σ ⟨db, Function.update σ.procs i p⟩

theorem procs_self (db : Db) (procs : ι → Proc R Label Err α) (i : ι) (p : Proc R Label Err α) :
    (⟨db, Function.update procs i p⟩ : System R Label Err α ι).procs i = p := Function.update_self ..

theorem procs_of_ne {i j : ι} (hji : j ≠ i) (db : Db) (procs : ι → Proc R Label Err α)
    (p : Proc R Label Err α) :
    (⟨db, Function.update procs i p⟩ : System R Label Err α ι).procs j = procs j :=
  Function.update_of_ne hji ..

/-- The runs all of whose steps meet a condition. -/
def Run (cond : ι → System R Label Err α ι → System R Label Err α ι → Prop) :
    System R Label Err α ι → System R Label Err α ι → Prop :=
  Relation.ReflTransGen fun σ σ' => ∃ i, StepBy i σ σ' ∧ cond i σ σ'

theorem Run.mono {cond cond' : ι → System R Label Err α ι → System R Label Err α ι → Prop}
    (himp : ∀ i σ σ', cond i σ σ' → cond' i σ σ') {σ σ' : System R Label Err α ι}
    (h : Run cond σ σ') : Run cond' σ σ' := by
  induction h with
  | refl => exact Relation.ReflTransGen.refl
  | tail _ hlast ih =>
    obtain ⟨i, hstep, hcond⟩ := hlast
    exact Relation.ReflTransGen.tail ih ⟨i, hstep, himp i _ _ hcond⟩

/-- Every transaction has committed or failed. -/
def Done (σ : System R Label Err α ι) : Prop := ∀ i, (σ.procs i).isFinished

/-! A schedule says whose turn it is. -/

section

variable [DecidableEq Key] [Fintype ι]

def advance (i : ι) (σ : System R Label Err α ι) : Option (System R Label Err α ι) :=
  ((σ.procs i).next (fun k => decide (∃ j, j ≠ i ∧ k ∈ (σ.procs j).locks)) σ.committed).map
    fun r => ⟨r.1, Function.update σ.procs i r.2⟩

def follow : List ι → System R Label Err α ι → Option (System R Label Err α ι)
  | [], σ => some σ
  | i :: rest, σ => (σ.advance i).bind (follow rest)

theorem step_of_advance {i : ι} {σ σ' : System R Label Err α ι} (h : σ.advance i = some σ') :
    StepBy i σ σ' := by
  obtain ⟨⟨db, p⟩, hnext, rfl⟩ := Option.map_eq_some_iff.1 h
  have hstep := Proc.step_of_next hnext
  simp only [decide_eq_true_eq] at hstep
  exact StepBy.mk hstep

theorem run_follow {t : List ι} {σ : System R Label Err α ι} (h : (follow t σ).isSome) :
    Run (fun _ _ _ => True) σ ((follow t σ).get h) := by
  induction t generalizing σ with
  | nil => exact Relation.ReflTransGen.refl
  | cons i rest ih =>
    obtain ⟨σ', hrun⟩ := Option.isSome_iff_exists.1 h
    obtain ⟨mid, hadvance, hrest⟩ := Option.bind_eq_some_iff.1 hrun
    have htail := ih (σ := mid) (hrest ▸ rfl)
    have hget : (follow (i :: rest) σ).get h = (follow rest mid).get (hrest ▸ rfl) := by
      simp only [follow, hadvance, Option.bind_some]
    rw [hget]
    exact Relation.ReflTransGen.head ⟨i, step_of_advance hadvance, trivial⟩ htail

end

end System

end

end Workbench.Lib
