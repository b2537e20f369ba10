import Workbench.Lib.ReadCommitted

/-!
# Programs in which one call of the database fails

The calls of a transaction are its begin, its statements in their order, and its commit. Where one of
them fails, the transaction is rolled back and the program ends with that failure; a commit that fails
has done nothing. What a program does behind a commit can still fail, and then it ends with an error
although something has changed.
-/

set_option autoImplicit false

namespace Workbench.Lib

/-- The call that fails: the transaction of the program, and the call of this transaction. -/
structure Fault where
  transaction : Nat
  call : Nat
  deriving DecidableEq, Repr

section

variable {Db Key : Type} {R : Rows Db Key} {Label Err α : Type}

namespace Tx

/-- What is left of a transaction, run alone, where its `n`-th call from here fails. -/
def attemptRest : Tx R Label Err α → Nat → Db → Option (Except Err (α × Db))
  | .done (.ok _), 0, _ => none
  | .done (.ok a), _ + 1, view => some (.ok (a, view))
  | .done (.error e), _, _ => some (.error e)
  | .stmt _ _, 0, _ => none
  | .stmt s next, n + 1, view =>
    match s.result (s.rows view) view with
    | .error e => some (.error e)
    | .ok b => (next b).attemptRest n (s.change (s.rows view) view view)

/-- A transaction whose `n`-th call fails. -/
def attempt (tx : Tx R Label Err α) : Nat → Db → Option (Except Err (α × Db))
  | 0, _ => none
  | n + 1, db => tx.attemptRest n db

theorem attemptRest_eq (tx : Tx R Label Err α) (n : Nat) (db : Db) :
    tx.attemptRest n db = none ∨ tx.attemptRest n db = some (tx.exec db) := by
  induction tx generalizing n db with
  | done result =>
    cases result with
    | error e => exact Or.inr rfl
    | ok a =>
      cases n with
      | zero => exact Or.inl rfl
      | succ n => exact Or.inr rfl
  | stmt s next ih =>
    cases n with
    | zero => exact Or.inl rfl
    | succ n =>
      rw [attemptRest, exec]
      cases s.result (s.rows db) db with
      | error e => exact Or.inr rfl
      | ok b => exact ih b n _

/-- A transaction fails, or does what it does when nothing fails. -/
theorem attempt_eq (tx : Tx R Label Err α) (n : Nat) (db : Db) :
    tx.attempt n db = none ∨ tx.attempt n db = some (tx.exec db) := by
  cases n with
  | zero => exact Or.inl rfl
  | succ n => exact tx.attemptRest_eq n db

/-- The three calls of a transaction of one statement. -/
theorem attempt_perform {β : Type} {s : Statement R Label Err β} {db : Db} {b : β}
    (h : s.result (s.rows db) db = .ok b) (n : Nat) :
    (perform s).attempt n db = none ↔ n ≤ 2 := by
  match n with
  | 0 => simp [attempt]
  | 1 => simp [attempt, perform, attemptRest]
  | 2 => simp [attempt, perform, attemptRest, h]
  | n + 3 => simp [attempt, perform, attemptRest, h]

end Tx

namespace Program

/-- A program one of whose calls fails: its result, where the failure is none of its own, and the state
behind it. -/
def attempt : Program R Label Err α → Fault → Db → Option (Except Err α) × Db
  | .ret result, _, db => (some result, db)
  | .transact tx next, ⟨0, n⟩, db =>
    match tx.attempt n db with
    | none => (none, db)
    | some (.error e) => (some (.error e), db)
    | some (.ok (b, mid)) => (some ((next b).eval mid).1, ((next b).eval mid).2)
  | .transact tx next, ⟨k + 1, n⟩, db =>
    match tx.exec db with
    | .error e => (some (.error e), db)
    | .ok (b, mid) => (next b).attempt ⟨k, n⟩ mid

/-- A failing call leads to one of the runs of the program. -/
theorem runs_attempt (p : Program R Label Err α) (fault : Fault) (db : Db) :
    p.Runs db (p.attempt fault db).1 (p.attempt fault db).2 := by
  induction p generalizing fault db with
  | ret result => exact Runs.ret
  | transact tx next ih =>
    obtain ⟨k, n⟩ := fault
    cases k with
    | zero =>
      rw [attempt]
      rcases tx.attempt_eq n db with hfails | hruns
      · rw [hfails]
        exact Runs.fail
      · rw [hruns]
        cases h : tx.exec db with
        | error e => exact Runs.rollback h
        | ok r => exact Runs.commit h (runs_eval _ _)
    | succ k =>
      rw [attempt]
      cases h : tx.exec db with
      | error e => exact Runs.rollback h
      | ok r => exact Runs.commit h (ih _ ⟨k, n⟩ _)

/-- A statement that runs by itself and has a result. -/
theorem attempt_once_perform {β : Type} {s : Statement R Label Err β} {db : Db} {b : β}
    (h : s.result (s.rows db) db = .ok b) (fault : Fault) :
    (once (Tx.perform s)).attempt fault db =
      if fault.transaction = 0 ∧ fault.call ≤ 2 then (none, db)
      else (some (.ok ()), s.change (s.rows db) db db) := by
  obtain ⟨k, n⟩ := fault
  have hexec := Tx.exec_perform_ok.2 ⟨h, rfl⟩
  cases k with
  | zero =>
    rw [once, attempt]
    rcases (Tx.perform s).attempt_eq n db with hfails | hruns
    · rw [hfails, if_pos ⟨rfl, (Tx.attempt_perform h n).1 hfails⟩]
    · have hlate : ¬ n ≤ 2 := by
        rw [← Tx.attempt_perform h n, hruns]
        simp
      rw [hruns, hexec, if_neg (by simp [hlate])]
      rfl
  | succ k =>
    rw [once, attempt, hexec, if_neg (by simp)]
    rfl

end Program

end

end Workbench.Lib
