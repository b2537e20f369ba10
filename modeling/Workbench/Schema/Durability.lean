import Workbench.Schema.Confirmation

/-!
# What persists of an execution

A database on which one call of `Execute` fails: the statements of MySQL persist one by one, those of
PostgreSQL with the commit of their transaction. The results that `Execute` returns are held against the
statements that persist (`execute_truthful_iff`).
-/

set_option autoImplicit false

namespace Workbench.Schema

/-- The call that fails. A commit whose answer is lost has gone through or not. -/
inductive FailurePoint where
  | begin
  | statement (index : Nat)
  | commit (durable : Bool)
  deriving DecidableEq, Repr

section

variable (failure : Option FailurePoint) (message : Text)

/-- A statement that is executed behind others. -/
def executeNext (done : List Text) (sql : Text) : List Text × Option Text :=
  if failure = some (.statement done.length) then (done, some message) else (done ++ [sql], none)

/-- The database in which the statements that persist are listed. -/
def recorder : Database (List Text) (List Text) where
  exec := executeNext failure message
  begin done := if failure = some .begin then (done, .error message) else (done, .ok [])
  execTx := executeNext failure message
  rollback done _ := done
  commit done tx :=
    match failure with
    | some (.commit true) => (done ++ tx, some message)
    | some (.commit false) => (done, some message)
    | _ => (done ++ tx, none)

end

/-- The statements that the results report as executed. -/
def succeeded (results : List ExecutionResult) : List Text :=
  (results.filter fun r => r.status = .success).map ExecutionResult.sql

/-- What is reported as executed is what persists. -/
def Truthful (persisted : List Text) (answer : Answer) : Prop := succeeded answer.results = persisted

instance (persisted : List Text) (answer : Answer) : Decidable (Truthful persisted answer) :=
  inferInstanceAs (Decidable (_ = _))

theorem succeeded_success (sql : Text) (rest : List ExecutionResult) :
    succeeded (⟨sql, .success, none⟩ :: rest) = sql :: succeeded rest := rfl

section

variable {failure : Option FailurePoint} {message : Text}

/-- **The loop reports what it has executed, up to the statement that fails.** -/
theorem runStatements_executeNext {ddl : List Statement} {done final : List Text}
    {results : List ExecutionResult} {result : Option Text}
    (h : runStatements (executeNext failure message) done ddl = (final, results, result)) :
    final = done ++ succeeded results ∧
      match result with
      | none =>
        succeeded results = ddl.map Statement.sql ∧
          ∀ n < ddl.length, failure ≠ some (.statement (done.length + n))
      | some _ =>
        (succeeded results).length < ddl.length ∧
          failure = some (.statement (done.length + (succeeded results).length)) := by
  induction ddl generalizing done results with
  | nil =>
    cases h
    refine ⟨(List.append_nil _).symm, rfl, ?_⟩
    intro n hn
    exact absurd hn (Nat.not_lt_zero n)
  | cons st rest ih =>
    rw [runStatements, executeNext] at h
    by_cases hfails : failure = some (.statement done.length)
    · rw [if_pos hfails] at h
      cases h
      exact ⟨(List.append_nil _).symm, Nat.succ_pos _, hfails⟩
    · rw [if_neg hfails] at h
      obtain ⟨after', results', result', hrest⟩ : ∃ after' results' result',
          runStatements (executeNext failure message) (done ++ [st.sql]) rest =
            (after', results', result') := ⟨_, _, _, rfl⟩
      simp only [hrest] at h
      cases h
      obtain ⟨hdone, hend⟩ := ih hrest
      rw [List.length_append, List.length_singleton] at hend
      rw [succeeded_success]
      refine ⟨?_, ?_⟩
      · rw [hdone, List.append_assoc, List.singleton_append]
      · -- The index counts from the first statement of the whole list.
        cases result with
        | none =>
          refine ⟨congrArg (List.cons st.sql) hend.1, ?_⟩
          intro n hn
          cases n with
          | zero => exact hfails
          | succ n =>
            have hlater := hend.2 n (Nat.lt_of_succ_lt_succ hn)
            rwa [Nat.add_assoc, Nat.add_comm 1 n] at hlater
        | some e =>
          refine ⟨Nat.succ_lt_succ hend.1, hend.2.trans ?_⟩
          rw [List.length_cons, Nat.add_assoc, Nat.add_comm 1]

/-- A failure that is not between the first statement and the commit, or after which everything
persists. -/
def HarmlessFailure (failure : Option FailurePoint) (ddl : List Statement) : Prop :=
  (∀ n < ddl.length, failure = some (.statement n) → n = 0) ∧
    (failure = some (.commit false) → ddl = [])

theorem succeeded_eq_nil_iff {ddl : List Statement} {results : List ExecutionResult}
    (hlength : (succeeded results).length < ddl.length)
    (hfailure : failure = some (.statement (succeeded results).length)) :
    succeeded results = [] ↔ HarmlessFailure failure ddl := by
  constructor
  · intro hnil
    rw [hnil] at hfailure
    constructor
    · intro n _ hn
      cases hfailure.symm.trans hn
      rfl
    · intro hcommit
      cases hfailure.symm.trans hcommit
  · intro h
    exact List.length_eq_zero_iff.1 (h.1 _ hlength hfailure)

/-- The part behind the checks. -/
theorem runDDL_truthful_iff (d : TokenData) :
    Truthful (runDDL (recorder failure message) [] d).1 (runDDL (recorder failure message) [] d).2 ↔
      (d.dialect = Dialect.postgres.name → HarmlessFailure failure d.ddl) := by
  obtain ⟨after, results, result, hrun⟩ : ∃ after results result,
      runStatements (executeNext failure message) [] d.ddl = (after, results, result) := ⟨_, _, _, rfl⟩
  obtain ⟨hafter, hend⟩ := runStatements_executeNext hrun
  rw [List.nil_append] at hafter
  rw [Truthful, runDDL]
  by_cases hdialect : d.dialect = Dialect.postgres.name
  · rw [if_pos hdialect]
    simp only [hdialect, forall_const]
    by_cases hbegin : failure = some .begin
    · have hbegins : (recorder failure message).begin [] = ([], .error message) := if_pos hbegin
      have hharmless : HarmlessFailure failure d.ddl := by
        rw [hbegin]
        exact ⟨fun n _ h => (nomatch h), fun h => (nomatch h)⟩
      rw [hbegins]
      exact iff_of_true rfl hharmless
    · have hbegins : (recorder failure message).begin [] = ([], .ok []) := if_neg hbegin
      have hexec : runStatements (recorder failure message).execTx [] d.ddl = (after, results, result) :=
        hrun
      rw [hbegins]
      simp only [hexec]
      cases result with
      | some e =>
        -- The transaction is rolled back.
        rw [List.length_nil, Nat.zero_add] at hend
        exact succeeded_eq_nil_iff hend.1 hend.2
      | none =>
        obtain ⟨hall, hnone⟩ := hend
        -- every statement went through, so none of them is the one that fails
        have hstatements : ∀ n < d.ddl.length, failure = some (.statement n) → n = 0 := by
          intro n hn hfailure
          refine absurd ?_ (hnone n hn)
          rw [List.length_nil, Nat.zero_add, hfailure]
        subst hafter
        dsimp only
        -- only the commit can still fail: it is undone, or it is durable and only its answer is an error
        by_cases hcommit : failure = some (.commit false)
        · have hrolled : (recorder failure message).commit [] (succeeded results) =
              ([], some message) := by
            rw [hcommit]
            rfl
          rw [hrolled, HarmlessFailure, and_iff_right hstatements]
          simp only [hcommit, forall_const]
          rw [hall, List.map_eq_nil_iff]
        · have hdurable : ((recorder failure message).commit [] (succeeded results)).1 =
              succeeded results := by
            match failure, hcommit with
            | none, _ => rfl
            | some .begin, _ => rfl
            | some (.statement _), _ => rfl
            | some (.commit true), _ => rfl
          have hharmless : HarmlessFailure failure d.ddl := ⟨hstatements, fun h => (hcommit h).elim⟩
          refine iff_of_true ?_ hharmless
          cases hanswer : (recorder failure message).commit [] (succeeded results) with
          | mk final error =>
            rw [hanswer] at hdurable
            cases error with
            | none => exact hdurable.symm
            | some e => exact hdurable.symm
  · rw [if_neg hdialect]
    have hexec : runStatements (recorder failure message).exec [] d.ddl = (after, results, result) := hrun
    simp only [hexec]
    exact iff_of_true hafter.symm fun h => (hdialect h).elim

section

variable (rt : Runtime) (s : Service) (now : Int) (scope currentFingerprint token : Text)
  (confirmed : Bool)

/-- The token passes the checks of `Execute`. -/
def Passes (d : TokenData) : Prop :=
  verify rt s now token = .ok d ∧ d.scope = scope ∧ d.fingerprint = currentFingerprint ∧
    d.ddl.any (fun st => st.destructive && !confirmed) = false ∧ s.used.contains token = false

/-- **The results are truthful exactly if nothing fails in a transaction behind its first statement.** -/
theorem execute_truthful_iff :
    Truthful (execute rt (recorder failure message) s [] now scope currentFingerprint token confirmed).2.1
        (execute rt (recorder failure message) s [] now scope currentFingerprint token confirmed).2.2 ↔
      ∀ d, Passes rt s now scope currentFingerprint token confirmed d →
        d.dialect = Dialect.postgres.name → HarmlessFailure failure d.ddl := by
  rw [execute]
  cases hverify : verify rt s now token with
  | error e =>
    refine iff_of_true rfl ?_
    rintro d ⟨hd, -⟩
    rw [hverify] at hd
    cases hd
  | ok d =>
    have honly : ∀ d', Passes rt s now scope currentFingerprint token confirmed d' → d' = d := by
      rintro d' ⟨hd', -⟩
      rw [hverify] at hd'
      exact (Except.ok.inj hd').symm
    dsimp only
    split_ifs with hscope hfingerprint hconfirm hused
    · refine iff_of_true rfl ?_
      intro d' hpass
      obtain rfl := honly d' hpass
      exact absurd hpass.2.1 hscope
    · refine iff_of_true rfl ?_
      intro d' hpass
      obtain rfl := honly d' hpass
      exact absurd hpass.2.2.1 hfingerprint
    · refine iff_of_true rfl ?_
      intro d' hpass
      obtain rfl := honly d' hpass
      exact absurd hconfirm (Bool.eq_false_iff.1 hpass.2.2.2.1)
    · refine iff_of_true rfl ?_
      intro d' hpass
      obtain rfl := honly d' hpass
      exact absurd hused (Bool.eq_false_iff.1 hpass.2.2.2.2)
    · have hpass : Passes rt s now scope currentFingerprint token confirmed d :=
        ⟨hverify, not_not.1 hscope, not_not.1 hfingerprint, Bool.eq_false_iff.2 hconfirm,
          Bool.eq_false_iff.2 hused⟩
      refine (runDDL_truthful_iff d).trans ?_
      constructor
      · intro h d' hpass'
        obtain rfl := honly d' hpass'
        exact h
      · intro h
        exact h d hpass

end

end

/-- A preview that is confirmed at once in its scope runs its statements. -/
theorem execute_preview {rt : Runtime} {s : Service} {now : Int} {dialect scope : Text} {before : Table}
    {ops : List Operation} {p : Preview} (h : preview rt s now dialect scope before ops = .ok p)
    (hunused : s.used.contains p.token = false) {δ τ : Type} (db : Database δ τ) (x : δ) :
    (execute rt db s x now scope p.fingerprint p.token true).2 =
      runDDL db x ⟨dialect, scope, p.fingerprint, unix (now + s.ttl), p.statements⟩ := by
  obtain ⟨q, -, -, -, -, htoken⟩ := preview_ok rt h
  have hverify : verify rt s now p.token =
      .ok ⟨dialect, scope, p.fingerprint, unix (now + s.ttl), p.statements⟩ := by
    rw [htoken, verify_sign rt rfl]
    exact if_neg (not_lt.2 (unix_le_expires s now))
  have hconfirm : ¬(p.statements.any fun st => st.destructive && !true) = true := by
    rw [List.any_eq_true]
    rintro ⟨st, -, hst⟩
    rw [Bool.not_true, Bool.and_false] at hst
    cases hst
  rw [execute, hverify]
  dsimp only
  rw [if_neg (not_not.2 rfl), if_neg (not_not.2 rfl), if_neg hconfirm, if_neg (by rw [hunused]; decide)]

/-- The second statement of a transaction fails: the first is reported as executed and is undone. -/
theorem execute_reports_undone :
    ¬ ∀ (rt : Runtime) (s : Service) (failure : Option FailurePoint) (message : Text) (now : Int)
      (scope currentFingerprint token : Text) (confirmed : Bool),
      Truthful (execute rt (recorder failure message) s [] now scope currentFingerprint token confirmed).2.1
        (execute rt (recorder failure message) s [] now scope currentFingerprint token confirmed).2.2 := by
  intro hclaim
  let rt := jsonRuntime (fun _ _ => []) (fun _ => [])
  let before : Table :=
    { (default : Table) with schema := "public".toList, name := "articles".toList }
  let op (name : Text) : Operation :=
    { (default : Operation) with kind := "drop_index".toList, name := name }
  have haccepted : Accepted .postgres before [op ['i'], op ['j']] := ⟨_, rfl⟩
  obtain ⟨p, hp⟩ := exists_preview rt (newService "secret".toList 0) 0 .postgres [] before
    [op ['i'], op ['j']] haccepted
  obtain ⟨q, hq, hstatements, -⟩ := preview_ok rt hp
  have htrue := hclaim rt (newService "secret".toList 0) (some (.statement 1)) ['x'] 0 [] p.fingerprint
    p.token true
  rw [execute_preview hp rfl, runDDL_truthful_iff] at htrue
  have hlength : p.statements.length = 2 := by
    rw [hstatements, ← Except.ok.inj hq]
    rfl
  have hindex := (htrue rfl).1 1 (by rw [hlength]; decide) rfl
  cases hindex

end Workbench.Schema
