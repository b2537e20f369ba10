import Workbench.Logs.Store

/-!
# The timeline of a log session

`Timeline` of `api/internal/logs/store.go` and the route in `api/internal/httpapi/log_handlers.go` that
asks for it.
-/

set_option autoImplicit false

namespace Workbench.Logs

open Workbench.Lib Workbench.Storage
open Workbench.Identity (Principal)

structure TimeBucket where
  bucketStartMs : Int
  count : Nat
  errorCount : Nat
  deriving DecidableEq, Repr

/-- The rows that `Timeline` selects. -/
def timelineRows (sessionID : Text) (bucketSizeMs : Int) (db : Db) : List TimeBucket :=
  (db.logTimeBuckets.entries.filter fun e => e.1.1 = sessionID && e.1.2.2 = bucketSizeMs).map fun e =>
    ⟨e.1.2.1, e.2.count, e.2.errorCount⟩

/-- `Timeline`, with `ORDER BY bucket_start_ms`. -/
def timeline (actor : Principal) (sessionID : Text) (bucketSizeMs : Int) (db : Db) :
    Except Err (List TimeBucket) := do
  let _ ← authorize actor sessionID false db
  let bucketSizeMs := if bucketSizeMs ≤ 0 then defaultBucketSizeMs else bucketSizeMs
  .ok ((timelineRows sessionID bucketSizeMs db).mergeSort fun a b => a.bucketStartMs ≤ b.bucketStartMs)

/-! ## The route -/

/-- Decimal digits without a sign. -/
def parseDigits (digits : Text) : Option Nat :=
  if digits = [] ∨ digits.all Char.isDigit = false then none else some (Nat.ofDigitChars 10 digits 0)

/-- `strconv.ParseInt(raw, 10, 64)`, where an error is none. -/
def parseInt64 (raw : Text) : Option Int :=
  match raw with
  | '-' :: digits => (parseDigits digits).bind fun n => if n ≤ 2 ^ 63 then some (-(n : Int)) else none
  | '+' :: digits => (parseDigits digits).bind fun n => if n < 2 ^ 63 then some (n : Int) else none
  | digits => (parseDigits digits).bind fun n => if n < 2 ^ 63 then some (n : Int) else none

/-- The bucket size for a query parameter; a missing parameter is empty. -/
def requestedBucketSize (raw : Text) : Int :=
  match parseInt64 (trimSpace raw) with
  | some parsed => if 0 < parsed then parsed else 60000
  | none => 60000

structure TimelineAnswer where
  bucketSizeMs : Int
  buckets : List TimeBucket
  deriving DecidableEq, Repr

/-- `GET /api/logs/sessions/{id}/timeline`. -/
def timelineRoute (actor : Principal) (sessionID raw : Text) (db : Db) : Except Err TimelineAnswer := do
  let bucketSizeMs := requestedBucketSize raw
  let buckets ← timeline actor sessionID bucketSizeMs db
  .ok ⟨bucketSizeMs, buckets⟩

theorem requestedBucketSize_pos (raw : Text) : 0 < requestedBucketSize raw := by
  rw [requestedBucketSize]
  split
  · split
    · assumption
    · decide
  · decide

theorem timelineRoute_eq {actor : Principal} {sessionID : Text} {db : Db} {session : Session}
    (hauthorize : authorize actor sessionID false db = .ok session) (raw : Text) :
    timelineRoute actor sessionID raw db = .ok ⟨requestedBucketSize raw,
      (timelineRows sessionID (requestedBucketSize raw) db).mergeSort
        fun a b => a.bucketStartMs ≤ b.bucketStartMs⟩ := by
  -- the size is positive, so that it is not replaced by the default one
  have hpos := requestedBucketSize_pos raw
  have hsize : ¬requestedBucketSize raw ≤ 0 := by omega
  simp [timelineRoute, timeline, hauthorize, hsize, bind, Except.bind]

theorem timelineRoute_ok {actor : Principal} {sessionID raw : Text} {db : Db} {answer : TimelineAnswer}
    (h : timelineRoute actor sessionID raw db = .ok answer) :
    answer.bucketSizeMs = requestedBucketSize raw ∧
      answer.buckets.Perm (timelineRows sessionID (requestedBucketSize raw) db) := by
  cases hauthorize : authorize actor sessionID false db with
  | error e => simp [timelineRoute, timeline, hauthorize, bind, Except.bind] at h
  | ok session =>
    rw [timelineRoute_eq hauthorize, Except.ok.injEq] at h
    rw [← h]
    exact ⟨rfl, List.mergeSort_perm _ _⟩

end Workbench.Logs
