import Workbench.Query.Risk
import Workbench.Lib.Table

/-!
# Results of queries

`api/internal/query/service.go` behind the gate: the limits, the loop over a stream of rows that can fail, and the
pages in which the rows that are kept are handed out. The rows and the errors are of any type.
-/

set_option autoImplicit false

namespace Workbench.Query

open Workbench.Lib

structure Limits where
  pageSize : Int
  maxRows : Int
  deriving DecidableEq, Repr

structure Column where
  name : Text
  databaseType : Text
  deriving DecidableEq, Repr

inductive ResultError where
  | queryNotFound
  | queryPending
  | invalidCursor
  deriving DecidableEq, Repr

structure ResultPage (R : Type) where
  queryID : Text
  columns : List Column
  rows : List R
  nextCursor : Nat
  truncated : Bool

/-- A limit that is not positive takes its default. -/
def Limits.orDefault (limits : Limits) : Limits :=
  ⟨if limits.pageSize ≤ 0 then 200 else limits.pageSize,
    if limits.maxRows ≤ 0 then 10000 else limits.maxRows⟩

/-- The limits are positive once the service is there. -/
theorem Limits.orDefault_pos (limits : Limits) :
    0 < limits.orDefault.pageSize ∧ 0 < limits.orDefault.maxRows := by
  constructor
  · show 0 < (if limits.pageSize ≤ 0 then (200 : Int) else limits.pageSize)
    split <;> omega
  · show 0 < (if limits.maxRows ≤ 0 then (10000 : Int) else limits.maxRows)
    split <;> omega

/-! ## Streams -/

/-- What `rows.Next` goes through: rows, each with what `Scan` makes of it, and an end with or without an
error. -/
inductive RowStream (R E : Type) where
  | ended
  | failed (e : E)
  | row (scanned : Except E R) (rest : RowStream R E)

namespace RowStream

variable {R E : Type}

def length : RowStream R E → Nat
  | .row _ rest => rest.length + 1
  | _ => 0

/-- The rows that can be scanned. -/
def values : RowStream R E → List R
  | .row (.ok value) rest => value :: rest.values
  | .row (.error _) rest => rest.values
  | _ => []

/-- The error that reading `n` rows and asking for one more meets. -/
def errorWithin (queryError : E → E) : Nat → RowStream R E → Option E
  | _, .ended => none
  | _, .failed e => some (queryError e)
  | 0, .row _ _ => none
  | _ + 1, .row (.error e) _ => some e
  | n + 1, .row (.ok _) rest => rest.errorWithin queryError n

/-- A stream without errors. -/
def ofList : List R → RowStream R E
  | [] => .ended
  | value :: rest => .row (.ok value) (ofList rest)

end RowStream

variable {R S E : Type}

/-- The loop over `rows.Next`, and what `rows.Err` says behind it. -/
def fetchStream (queryError : E → E) (normalize : R → S) (maxRows : Int) :
    List S → RowStream R E → List S × Bool × Option E
  | kept, .ended => (kept, false, none)
  | kept, .failed e => (kept, false, some (queryError e))
  | kept, .row scanned rest =>
    if (kept.length : Int) ≥ maxRows then (kept, true, none)
    else
      match scanned with
      | .error e => (kept, false, some e)
      | .ok value => fetchStream queryError normalize maxRows (kept ++ [normalize value]) rest

/-! ## The service -/

/-- A job with the error that it has met. -/
structure StreamJob (S E : Type) where
  scope : Text
  done : Bool
  columns : List Column
  rows : List S
  truncated : Bool
  err : Option E

/-- What the driver answers to a statement that returns rows. -/
inductive StreamAnswer (R E : Type) where
  | rows (columns : List Column) (stream : RowStream R E)
  | error (e : E)

/-- `queryError`: an error of the context comes first. -/
def queryError (ctxErr : Option E) (e : E) : E := ctxErr.getD e

/-- `run`, on a statement that returns rows. -/
def runStream (limits : Limits) (ctxErr : Option E) (normalize : R → S) (scope : Text) :
    StreamAnswer R E → StreamJob S E
  | .error e => ⟨scope, true, [], [], false, some (queryError ctxErr e)⟩
  | .rows columns stream =>
    let (kept, truncated, err) := fetchStream (queryError ctxErr) normalize limits.maxRows [] stream
    ⟨scope, true, columns, kept, truncated, err⟩

structure StreamService (S E : Type) where
  limits : Limits
  jobs : Table Text (StreamJob S E)

/-- An error of `Result` itself, or the one of the job. -/
inductive PageError (E : Type) where
  | result (e : ResultError)
  | query (e : E)
  deriving DecidableEq, Repr

namespace StreamService

/-- `Result`, with unbounded integers: a cursor that is not zero was given out behind a whole page of rows. -/
def result (s : StreamService S E) (scope id : Text) (cursor : Int) :
    Except (PageError E) (ResultPage S) :=
  match s.jobs.lookup id with
  | none => .error (.result .queryNotFound)
  | some item =>
    if item.scope ≠ scope then .error (.result .queryNotFound)
    else if !item.done then .error (.result .queryPending)
    else
      match item.err with
      | some e => .error (.query e)
      | none =>
        if cursor < 0 ∨ cursor > item.rows.length then .error (.result .invalidCursor)
        else
          let stop := min (cursor + s.limits.pageSize) item.rows.length
          .ok ⟨id, item.columns, (item.rows.take stop.toNat).drop cursor.toNat,
            if stop < item.rows.length then stop.toNat else 0, item.truncated⟩

/-- A query that is through. -/
def finish (s : StreamService S E) (id : Text) (job : StreamJob S E) : StreamService S E :=
  { s with jobs := s.jobs.insert id job }

end StreamService

/-! ## Reading the stream -/

section

variable {queryError : E → E} {normalize : R → S} {maxRows : Int} {max : Nat}

theorem fetchStream_row (kept : List S) (scanned : Except E R) (rest : RowStream R E) :
    fetchStream queryError normalize maxRows kept (.row scanned rest) =
      if (kept.length : Int) ≥ maxRows then (kept, true, none)
      else
        match scanned with
        | .error e => (kept, false, some e)
        | .ok value => fetchStream queryError normalize maxRows (kept ++ [normalize value]) rest := by
  cases scanned with
  | error e => rfl
  | ok value => rfl

/-- The error of the loop is the one that the stream has up to the limit. -/
theorem fetchStream_err (queryError : E → E) (normalize : R → S) (hmax : maxRows = max) (stream : RowStream R E) :
    ∀ kept : List S, kept.length ≤ max →
      (fetchStream queryError normalize maxRows kept stream).2.2 =
        stream.errorWithin queryError (max - kept.length) := by
  subst hmax
  induction stream with
  | ended =>
    intro kept _
    rw [fetchStream, RowStream.errorWithin]
  | failed e =>
    intro kept _
    rw [fetchStream, RowStream.errorWithin]
  | row scanned rest ih =>
    intro kept hkept
    rw [fetchStream_row]
    by_cases hfull : (kept.length : Int) ≥ max
    · have hleft : max - kept.length = 0 := by omega
      rw [if_pos hfull, hleft, RowStream.errorWithin]
    · obtain ⟨left, hleft⟩ : ∃ left, max - kept.length = left + 1 :=
        ⟨max - kept.length - 1, by omega⟩
      rw [if_neg hfull, hleft]
      cases scanned with
      | error e => rfl
      | ok value =>
        have hkept' : (kept ++ [normalize value]).length ≤ max := by
          rw [List.length_append, List.length_singleton]
          omega
        have hleft' : max - (kept ++ [normalize value]).length = left := by
          rw [List.length_append, List.length_singleton]
          omega
        rw [RowStream.errorWithin, ← hleft']
        exact ih _ hkept'

/-- Without an error the loop keeps the first rows up to the limit, and says whether there was one more. -/
theorem fetchStream_eq (queryError : E → E) (normalize : R → S) (hmax : maxRows = max) (stream : RowStream R E) :
    ∀ kept : List S, kept.length ≤ max → stream.errorWithin queryError (max - kept.length) = none →
      fetchStream queryError normalize maxRows kept stream =
        (kept ++ (stream.values.take (max - kept.length)).map normalize,
          decide (max < kept.length + stream.length), none) := by
  subst hmax
  induction stream with
  | ended =>
    intro kept hkept _
    have hfew : ¬max < kept.length + (RowStream.ended : RowStream R E).length := not_lt.2 hkept
    rw [decide_eq_false hfew]
    show (kept, false, none) = (kept ++ (List.take _ []).map normalize, false, none)
    rw [List.take_nil, List.map_nil, List.append_nil]
  | failed e =>
    intro kept _ herr
    rw [RowStream.errorWithin] at herr
    cases herr
  | row scanned rest ih =>
    intro kept hkept herr
    rw [fetchStream_row]
    -- A full buffer stops at the next row, which it only counts.
    by_cases hfull : (kept.length : Int) ≥ max
    · have hleft : max - kept.length = 0 := by omega
      have hmore : max < kept.length + (RowStream.row scanned rest).length := by
        rw [RowStream.length]
        omega
      rw [if_pos hfull, hleft, List.take_zero, List.map_nil, List.append_nil, decide_eq_true hmore]
    · -- One place less is left for the rest of the rows.
      obtain ⟨left, hleft⟩ : ∃ left, max - kept.length = left + 1 :=
        ⟨max - kept.length - 1, by omega⟩
      rw [if_neg hfull]
      rw [hleft] at herr ⊢
      cases scanned with
      | error e =>
        rw [RowStream.errorWithin] at herr
        cases herr
      | ok value =>
        have hlength : (kept ++ [normalize value]).length = kept.length + 1 := by
          rw [List.length_append, List.length_singleton]
        have hleft' : max - (kept ++ [normalize value]).length = left := by omega
        rw [RowStream.errorWithin, ← hleft'] at herr
        have hrest := ih (kept ++ [normalize value]) (by omega) herr
        rw [RowStream.values, List.take_succ_cons, List.map_cons, RowStream.length]
        dsimp only
        rw [hrest, hleft', hlength, List.append_assoc, List.singleton_append, Nat.add_right_comm,
          Nat.add_assoc]

end

/-! ## Drivers whose errors are not looked at -/

/-- A service all of whose errors are one. -/
abbrev Service (R : Type) := StreamService R Unit

abbrev Job (R : Type) := StreamJob R Unit

/-- What the driver answers to a statement: its columns with all its rows, or an error. -/
inductive DriverAnswer (R : Type) where
  | rows (columns : List Column) (rows : List R)
  | error

def DriverAnswer.stream : DriverAnswer R → StreamAnswer R Unit
  | .rows columns all => .rows columns (.ofList all)
  | .error => .error ()

def newService (limits : Limits) : Service R := ⟨limits.orDefault, ∅⟩

/-- `run`. A statement that returns no rows goes to `ExecContext` and keeps none. -/
def run (limits : Limits) (scope statement : Text) (answer : DriverAnswer R) : Job R :=
  if returnsRows statement then runStream limits none id scope answer.stream
  else
    match answer with
    | .error => ⟨scope, true, [], [], false, some ()⟩
    | .rows .. => ⟨scope, true, [], [], false, none⟩

/-- A query that has started and is through. -/
def Service.start (s : Service R) (id scope statement : Text) (answer : DriverAnswer R) : Service R :=
  s.finish id (run s.limits scope statement answer)

theorem RowStream.values_ofList (rows : List R) : (ofList rows : RowStream R E).values = rows := by
  induction rows with
  | nil => rfl
  | cons row rest ih => rw [ofList, values, ih]

theorem RowStream.length_ofList (rows : List R) : (ofList rows : RowStream R E).length = rows.length := by
  induction rows with
  | nil => rfl
  | cons row rest ih => rw [ofList, length, ih, List.length_cons]

theorem RowStream.errorWithin_ofList (queryError : E → E) (rows : List R) :
    ∀ n, (ofList rows : RowStream R E).errorWithin queryError n = none := by
  induction rows with
  | nil =>
    intro n
    rw [ofList, errorWithin]
  | cons row rest ih =>
    intro n
    cases n with
    | zero => rfl
    | succ n => exact ih n

/-- A stream without errors: the first rows up to the limit are kept, and it is said whether there was one more. -/
theorem run_rows {limits : Limits} {max : Nat} (hmax : limits.maxRows = max) (scope statement : Text)
    (columns : List Column) (rows : List R) (hrows : returnsRows statement = true) :
    run limits scope statement (.rows columns rows) =
      ⟨scope, true, columns, rows.take max, decide (max < rows.length), none⟩ := by
  have hloop := fetchStream_eq (queryError (none : Option Unit)) (id : R → R) hmax (.ofList rows) [] (Nat.zero_le _)
    (RowStream.errorWithin_ofList _ rows _)
  rw [List.nil_append, List.length_nil, Nat.sub_zero, Nat.zero_add, RowStream.values_ofList,
    RowStream.length_ofList, List.map_id] at hloop
  rw [run, if_pos hrows, DriverAnswer.stream, runStream, hloop]

/-- The first page of a query that is through: as many rows as the page size and the row limit let
through. -/
theorem result_finish {s : Service R} {page max : Nat} (hpage : s.limits.pageSize = page)
    (hmax : s.limits.maxRows = max) (id scope statement : Text) (columns : List Column) (rows : List R)
    (hrows : returnsRows statement = true) :
    (s.start id scope statement (.rows columns rows)).result scope id 0 =
      .ok ⟨id, columns, rows.take (min page max),
        if min page max < min max rows.length then min page max else 0,
        decide (max < rows.length)⟩ := by
  have hrun := run_rows hmax scope statement columns rows hrows
  have hzero : ¬((0 : Int) < 0 ∨ (0 : Int) > (rows.take max).length) := by omega
  have hstop : (min ((0 : Int) + page) (rows.take max).length).toNat = min page (min max rows.length) := by
    rw [List.length_take]
    omega
  have htake : (rows.take max).take (min page (min max rows.length)) = rows.take (min page max) := by
    rw [List.take_take]
    rcases Nat.le_total max rows.length with h | h
    · congr 1
      omega
    · rw [List.take_eq_take_iff]
      omega
  rw [StreamService.result, Service.start, StreamService.finish, AList.lookup_insert, hrun]
  simp only [ne_eq, not_true_eq_false, if_false, Bool.not_true, Bool.false_eq_true, hzero, hpage]
  rw [hstop, htake, List.length_take]
  congr 2
  split <;> split <;> omega

end Workbench.Query
