import Workbench.Logs.Timeline
import Workbench.Storage.Counters

/-!
# Which entries a time bucket counts

The start of a bucket comes from a division that truncates, so the bucket of a negative instant that is on no
full minute starts behind it, and the bucket of zero reaches a minute to both sides.
-/

set_option autoImplicit false

namespace Workbench.Storage

open Workbench.Lib
open Workbench.Identity (Principal)
open Workbench.Logs (ParsedLine bucketStart defaultBucketSizeMs)

/-! ## The start of a bucket -/

theorem dvd_bucketStart (t : Int) : defaultBucketSizeMs ∣ bucketStart t := Int.dvd_mul_left _ _

theorem bucketStart_of_nonneg {t : Int} (ht : 0 ≤ t) :
    bucketStart t ≤ t ∧ t < bucketStart t + defaultBucketSizeMs := by
  rw [bucketStart, defaultBucketSizeMs, Int.tdiv_eq_ediv_of_nonneg ht]
  omega

theorem bucketStart_of_nonpos {t : Int} (ht : t ≤ 0) :
    bucketStart t - defaultBucketSizeMs < t ∧ t ≤ bucketStart t := by
  -- the division truncates, so it is that of `-t` with the sign turned
  have hneg : t.tdiv 60000 = -((-t) / 60000) := by
    rw [← Int.tdiv_eq_ediv_of_nonneg (by omega), Int.neg_tdiv, Int.neg_neg]
  rw [bucketStart, defaultBucketSizeMs, hneg]
  omega

/-- An instant from 1970 on, or on a full minute. -/
def Settled (t : Int) : Prop := 0 ≤ t ∨ defaultBucketSizeMs ∣ t

theorem bucketStart_eq_iff {t start : Int} (ht : Settled t) (hstart : defaultBucketSizeMs ∣ start) :
    bucketStart t = start ↔ start ≤ t ∧ t < start + defaultBucketSizeMs := by
  have hdvd := dvd_bucketStart t
  rcases Int.le_total 0 t with hnonneg | hnonpos
  · have hbounds := bucketStart_of_nonneg hnonneg
    rw [defaultBucketSizeMs] at hbounds hstart hdvd ⊢
    omega
  · have hbounds := bucketStart_of_nonpos hnonpos
    rw [Settled, defaultBucketSizeMs] at ht
    rw [defaultBucketSizeMs] at hbounds hstart hdvd ⊢
    omega

/-! ## What is counted and what is covered -/

/-- The entry is of the session, and of an instant that the bucket covers. -/
def during (sessionID : Text) (start : Int) (e : LogEntryRow) : Bool :=
  e.sessionID = sessionID && e.timestampMs.any fun t => start ≤ t && t < start + 60000

/-- Each bucket of a session counts the entries, and the entries with an error, that it covers. -/
def Db.BucketsCorrect (db : Db) (sessionID : Text) : Prop :=
  ∀ start size row, db.logTimeBuckets.lookup (sessionID, start, size) = some row →
    row.count = db.logEntries.rows.countP (during sessionID start) ∧
    row.errorCount = db.logEntries.rows.countP fun e => during sessionID start e && isError e

theorem during_iff {sessionID : Text} {start : Int} {e : LogEntryRow} :
    during sessionID start e = true ↔
      e.sessionID = sessionID ∧ ∃ t, e.timestampMs = some t ∧ start ≤ t ∧ t < start + 60000 := by
  simp only [during, Bool.and_eq_true, decide_eq_true_eq, Option.any_eq_true]

theorem inClass_bucket_iff {p : LogEntryRow → Bool} {sessionID : Text} {start : Int}
    {e : LogEntryRow} :
    inClass entryBucket p (sessionID, start, defaultBucketSizeMs) e = true ↔
      (e.sessionID = sessionID ∧ ∃ t, e.timestampMs = some t ∧ bucketStart t = start) ∧ p e = true := by
  simp only [inClass, entryBucket, Bool.and_eq_true, decide_eq_true_eq, Option.map_eq_some_iff,
    Prod.mk.injEq, and_true]
  apply and_congr_left
  intro _
  constructor
  · rintro ⟨t, ht, hsession, hstart⟩
    exact ⟨hsession, t, ht, hstart⟩
  · rintro ⟨hsession, t, ht, hstart⟩
    exact ⟨t, ht, hsession, hstart⟩

section

variable {db : Db} {sessionID : Text}

/-- Entries on settled instants are counted where they are covered. -/
theorem countP_settled {start : Int} (hstart : defaultBucketSizeMs ∣ start)
    (hsettled : ∀ e ∈ db.logEntries.rows, e.sessionID = sessionID → ∀ t, e.timestampMs = some t →
      Settled t) (p : LogEntryRow → Bool) :
    db.logEntries.rows.countP (inClass entryBucket p (sessionID, start, defaultBucketSizeMs)) =
      db.logEntries.rows.countP fun e => during sessionID start e && p e := by
  apply List.countP_congr
  intro e he
  rw [inClass_bucket_iff, Bool.and_eq_true, during_iff]
  apply and_congr_left
  intro _
  apply and_congr_right
  intro hsession
  apply exists_congr
  intro t
  apply and_congr_right
  intro ht
  exact bucketStart_eq_iff (hsettled e he hsession t ht) hstart

theorem Db.Counted.correct_of_settled (h : db.Counted)
    (hsettled : ∀ e ∈ db.logEntries.rows, e.sessionID = sessionID → ∀ t, e.timestampMs = some t →
      Settled t) : db.BucketsCorrect sessionID := by
  intro start size row hlookup
  -- the bucket is one of an instant, so its start is a multiple of its size
  obtain ⟨sessionID', t, hkey⟩ := h.keys _ row hlookup
  cases hkey
  have hstart := dvd_bucketStart t
  constructor
  · rw [← countOf_lookup (f := TimeBucketRow.count) hlookup, h.counts, countP_settled hstart hsettled]
    simp only [Bool.and_true]
  · rw [← countOf_lookup (f := TimeBucketRow.errorCount) hlookup, h.errors,
      countP_settled hstart hsettled]

/-- Each bucket of a session counts as many entries as it covers. -/
def Db.CountsCover (db : Db) (sessionID : Text) : Prop :=
  ∀ start row, db.logTimeBuckets.lookup (sessionID, start, defaultBucketSizeMs) = some row →
    row.count = db.logEntries.rows.countP (during sessionID start)

/-- A bucket that covers no entry but those it counts, with the right count, counts none but those it
covers. -/
theorem covered_of_counted (h : db.Counted) (hcover : db.CountsCover sessionID) (start : Int)
    (hsub : ∀ e ∈ db.logEntries.rows, e.sessionID = sessionID → ∀ t, e.timestampMs = some t →
      start ≤ t → t < start + 60000 → bucketStart t = start)
    {e : LogEntryRow} (he : e ∈ db.logEntries.rows) (hsession : e.sessionID = sessionID) {t : Int}
    (ht : e.timestampMs = some t) (hbucket : bucketStart t = start) : start ≤ t := by
  have hclass : inClass entryBucket (fun _ => true) (sessionID, start, defaultBucketSizeMs) e = true :=
    inClass_bucket_iff.2 ⟨⟨hsession, t, ht, hbucket⟩, rfl⟩
  -- the entry is counted, so its bucket is stored
  have hpos : 0 < countOf TimeBucketRow.count db.logTimeBuckets
      (sessionID, start, defaultBucketSizeMs) := by
    rw [h.counts]
    exact List.countP_pos_iff.2 ⟨e, he, hclass⟩
  cases hlookup : db.logTimeBuckets.lookup (sessionID, start, defaultBucketSizeMs) with
  | none => simp [countOf, hlookup] at hpos
  | some row =>
    have hcount := h.counts (sessionID, start, defaultBucketSizeMs)
    rw [countOf_lookup hlookup, hcover start row hlookup] at hcount
    -- it counts as many as it covers and covers only what it counts, so it covers the entry
    have hduring : during sessionID start e = true := by
      refine of_countP_eq (fun e he hduring => ?_) hcount.symm he hclass
      obtain ⟨hsession, t, ht, hlow, hhigh⟩ := during_iff.1 hduring
      exact inClass_bucket_iff.2 ⟨⟨hsession, t, ht, hsub e he hsession t ht hlow hhigh⟩, rfl⟩
    obtain ⟨-, t', ht', hlow, -⟩ := during_iff.1 hduring
    rw [ht, Option.some.injEq] at ht'
    rw [ht']
    exact hlow

/-- Where every bucket is right, no entry before 1970 is off a full minute. The induction is on the bucket,
from the one of zero down: it covers entries that it does not count only if these are counted by the bucket
above it without being covered there. -/
theorem settled_of_cover (h : db.Counted) (hcover : db.CountsCover sessionID) (n : Nat) :
    ∀ e ∈ db.logEntries.rows, e.sessionID = sessionID → ∀ t, e.timestampMs = some t →
      bucketStart t = -(n : Int) * defaultBucketSizeMs → Settled t := by
  induction n with
  | zero =>
    intro e he hsession t ht hbucket
    rw [Nat.cast_zero, Int.neg_zero, Int.zero_mul] at hbucket
    apply Or.inl
    -- what the bucket of zero covers is of an instant from 1970 on
    refine covered_of_counted h hcover 0 ?_ he hsession ht hbucket
    intro e _ _ t _ hlow hhigh
    exact (bucketStart_eq_iff (Or.inl hlow) (Int.dvd_zero _)).2 ⟨hlow, hhigh⟩
  | succ n ih =>
    intro e he hsession t ht hbucket
    have hlow : -((n + 1 : Nat) : Int) * defaultBucketSizeMs ≤ t := by
      refine covered_of_counted h hcover _ ?_ he hsession ht hbucket
      intro e he hsession t ht hlow hhigh
      have hdvd : defaultBucketSizeMs ∣ -((n + 1 : Nat) : Int) * defaultBucketSizeMs :=
        Int.dvd_mul_left _ _
      have hnonpos : t ≤ 0 := by
        rw [defaultBucketSizeMs] at hhigh
        omega
      have hbounds := bucketStart_of_nonpos hnonpos
      have hmultiple := dvd_bucketStart t
      -- behind a full minute comes the bucket above
      have habove : bucketStart t = -((n + 1 : Nat) : Int) * defaultBucketSizeMs ∨
          bucketStart t = -(n : Int) * defaultBucketSizeMs := by
        rw [defaultBucketSizeMs] at *
        omega
      rcases habove with heq | hnext
      · exact heq
      · exact (bucketStart_eq_iff (ih e he hsession t ht hnext) hdvd).2 ⟨hlow, hhigh⟩
    have hdvd := dvd_bucketStart t
    rcases Int.le_total 0 t with hnonneg | hnonpos
    · exact Or.inl hnonneg
    · have hbounds := bucketStart_of_nonpos hnonpos
      -- before 1970 the bucket starts behind the instant or with it
      have heq : bucketStart t = t := by omega
      rw [heq] at hdvd
      exact Or.inr hdvd

theorem Db.Counted.settled_of_cover (h : db.Counted) (hcover : db.CountsCover sessionID)
    {e : LogEntryRow} (he : e ∈ db.logEntries.rows) (hsession : e.sessionID = sessionID) {t : Int}
    (ht : e.timestampMs = some t) : Settled t := by
  rcases Int.le_total 0 t with hnonneg | hnonpos
  · exact Or.inl hnonneg
  · -- the bucket is the one with the number `-k` below that of zero
    obtain ⟨k, hk⟩ := dvd_bucketStart t
    have hbounds := bucketStart_of_nonpos hnonpos
    have hbucket : bucketStart t = -((-k).toNat : Int) * defaultBucketSizeMs := by
      rw [defaultBucketSizeMs] at *
      omega
    exact Storage.settled_of_cover h hcover (-k).toNat e he hsession t ht hbucket

end

/-- In a state that the stores reach, each bucket of a session counts what it covers exactly if no entry of
the session is of an instant before 1970 that is on no full minute. -/
theorem buckets_correct_iff (env : World.Env) (w : World) (hreach : World.Reachable env w)
    (sessionID : Text) :
    w.db.BucketsCorrect sessionID ↔
      ∀ e ∈ w.db.logEntries.rows, e.sessionID = sessionID → ∀ t, e.timestampMs = some t →
        0 ≤ t ∨ defaultBucketSizeMs ∣ t := by
  have hcounted := World.Reachable.counted hreach
  constructor
  · intro hcorrect e he hsession t ht
    have hcover : w.db.CountsCover sessionID :=
      fun start row hlookup => (hcorrect start defaultBucketSizeMs row hlookup).1
    exact hcounted.settled_of_cover hcover he hsession ht
  · exact hcounted.correct_of_settled

/-- The bucket of zero counts the last millisecond before 1970, which it does not cover. -/
theorem bucket_counts_outside :
    ∃ w : World, World.Reachable ⟨default, default⟩ w ∧
      w.db.logEntries.rows.map LogEntryRow.timestampMs = [some (-1)] ∧
      w.db.logTimeBuckets.lookup ("logs_a".toList, 0, 60000) = some ⟨1, 0⟩ ∧
      w.db.logEntries.rows.countP (during "logs_a".toList 0) = 0 :=
  ⟨_, World.reachable_withLines [⟨some (-1), "INFO".toList, "a".toList, "a".toList, 1⟩], rfl, rfl, rfl⟩

theorem buckets_correct_shop :
    Db.BucketsCorrect (World.withLines [⟨some (-60000), "ERROR".toList, "a".toList, "a".toList, 1⟩,
      ⟨some 5, "INFO".toList, "b".toList, "b".toList, 2⟩]).db "logs_a".toList := by
  apply (buckets_correct_iff ⟨default, default⟩ _ (World.reachable_withLines _) _).2
  have hrows : (World.withLines [⟨some (-60000), "ERROR".toList, "a".toList, "a".toList, 1⟩,
      ⟨some 5, "INFO".toList, "b".toList, "b".toList, 2⟩]).db.logEntries.rows.map
        LogEntryRow.timestampMs = [some 5, some (-60000)] := rfl
  intro e he _ t ht
  have hmem := List.mem_map_of_mem (f := LogEntryRow.timestampMs) he
  rw [hrows, ht] at hmem
  rcases List.mem_cons.1 hmem with hfive | hmem
  · cases hfive
    exact Or.inl (by decide)
  · cases List.mem_singleton.1 hmem
    exact Or.inr (by decide)

/-! ## Timelines -/

/-- The entry is of the session, and of an instant in the `size` milliseconds from `start` on. -/
def covered (sessionID : Text) (start size : Int) (e : LogEntryRow) : Bool :=
  e.sessionID = sessionID && e.timestampMs.any fun t => start ≤ t && t < start + size

/-- The buckets of a timeline add up to the entries of the session that have a timestamp, and each of them
counts the entries that it covers. -/
structure ExactTimeline (db : Db) (sessionID : Text) (answer : Logs.TimelineAnswer) : Prop where
  total : (answer.buckets.map Logs.TimeBucket.count).sum =
    db.logEntries.rows.countP fun e => e.sessionID = sessionID && e.timestampMs.isSome
  covers : ∀ bucket ∈ answer.buckets, bucket.count =
    db.logEntries.rows.countP (covered sessionID bucket.bucketStartMs answer.bucketSizeMs)

section

variable {db : Db} {sessionID : Text}

theorem mem_timelineRows {size : Int} {bucket : Logs.TimeBucket} :
    bucket ∈ Logs.timelineRows sessionID size db ↔
      db.logTimeBuckets.lookup (sessionID, bucket.bucketStartMs, size) =
        some ⟨bucket.count, bucket.errorCount⟩ := by
  rw [Logs.timelineRows, List.mem_map]
  constructor
  · rintro ⟨⟨⟨session, start, size'⟩, row⟩, hmem, rfl⟩
    obtain ⟨hentry, hkey⟩ := List.mem_filter.1 hmem
    simp only [Bool.and_eq_true, decide_eq_true_eq] at hkey
    obtain ⟨rfl, rfl⟩ := hkey
    exact Table.mem_entries.1 hentry
  · intro hlookup
    refine ⟨_, List.mem_filter.2 ⟨Table.mem_entries.2 hlookup, ?_⟩, rfl⟩
    simp

/-- Buckets are stored in one size only. -/
theorem Db.Counted.timelineRows_eq_nil (h : db.Counted) {size : Int} (hsize : size ≠ defaultBucketSizeMs) :
    Logs.timelineRows sessionID size db = [] := by
  rw [List.eq_nil_iff_forall_not_mem]
  intro bucket hmem
  obtain ⟨sessionID', t, hkey⟩ := h.keys _ _ (mem_timelineRows.1 hmem)
  simp only [Prod.mk.injEq] at hkey
  exact hsize hkey.2.2

/-- The buckets in this size add up to the entries with a timestamp, whatever their starts are. -/
theorem Db.Counted.sum_timelineRows (h : db.Counted) :
    ((Logs.timelineRows sessionID defaultBucketSizeMs db).map Logs.TimeBucket.count).sum =
      db.logEntries.rows.countP fun e => e.sessionID = sessionID && e.timestampMs.isSome := by
  have htotal := h.counts.total fun key => decide (key.1 = sessionID) && decide (key.2.2 = defaultBucketSizeMs)
  rw [Logs.timelineRows, List.map_map]
  refine htotal.trans ?_
  apply List.countP_congr
  intro e _
  rw [entryBucket]
  cases e.timestampMs <;> simp

theorem exactTimeline_default_iff (h : db.Counted) {answer : Logs.TimelineAnswer}
    (hsize : answer.bucketSizeMs = defaultBucketSizeMs)
    (hbuckets : answer.buckets.Perm (Logs.timelineRows sessionID defaultBucketSizeMs db)) :
    ExactTimeline db sessionID answer ↔ db.CountsCover sessionID := by
  constructor
  · intro hexact start row hlookup
    have hmem : (⟨start, row.count, row.errorCount⟩ : Logs.TimeBucket) ∈ answer.buckets :=
      hbuckets.mem_iff.2 (mem_timelineRows.2 hlookup)
    have hcount := hexact.covers _ hmem
    rw [hsize] at hcount
    exact hcount
  · intro hcover
    constructor
    · rw [(hbuckets.map _).sum_eq]
      exact h.sum_timelineRows
    · intro bucket hmem
      rw [hsize]
      exact hcover _ _ (mem_timelineRows.1 (hbuckets.mem_iff.1 hmem))

theorem exactTimeline_other_iff (h : db.Counted) {answer : Logs.TimelineAnswer} {size : Int}
    (hsize : size ≠ defaultBucketSizeMs)
    (hbuckets : answer.buckets.Perm (Logs.timelineRows sessionID size db)) :
    ExactTimeline db sessionID answer ↔
      ∀ e ∈ db.logEntries.rows, e.sessionID = sessionID → e.timestampMs = none := by
  rw [h.timelineRows_eq_nil hsize, List.perm_nil] at hbuckets
  constructor
  · intro hexact e he hsession
    have htotal := hexact.total
    rw [hbuckets] at htotal
    -- the sum of no buckets is zero, so that no entry has a timestamp
    have hnone := List.countP_eq_zero.1 htotal.symm e he
    simpa [hsession] using hnone
  · intro hnone
    constructor
    · rw [hbuckets]
      symm
      apply List.countP_eq_zero.2
      intro e he hboth
      simp only [Bool.and_eq_true, decide_eq_true_eq] at hboth
      simp [hnone e he hboth.1] at hboth
    · rw [hbuckets]
      exact fun _ h => nomatch h

end

/-- In a state that the stores reach, what the timeline route answers is exact if and only if the session has
no entry with a timestamp, or it is asked for the size in which the buckets are stored and no entry is of an
instant before 1970 that is on no full minute. -/
theorem timeline_exact_iff (env : World.Env) (w : World) (hreach : World.Reachable env w)
    (actor : Principal) (sessionID raw : Text) (answer : Logs.TimelineAnswer)
    (hanswer : Logs.timelineRoute actor sessionID raw w.db = .ok answer) :
    ExactTimeline w.db sessionID answer ↔
      (∀ e ∈ w.db.logEntries.rows, e.sessionID = sessionID → e.timestampMs = none) ∨
      Logs.requestedBucketSize raw = 60000 ∧
        ∀ e ∈ w.db.logEntries.rows, e.sessionID = sessionID → ∀ t, e.timestampMs = some t →
          0 ≤ t ∨ (60000 : Int) ∣ t := by
  have hcounted := World.Reachable.counted hreach
  obtain ⟨hsize, hbuckets⟩ := Logs.timelineRoute_ok hanswer
  by_cases hdefault : Logs.requestedBucketSize raw = defaultBucketSizeMs
  · rw [hdefault] at hsize hbuckets
    rw [exactTimeline_default_iff hcounted hsize hbuckets]
    constructor
    · intro hcover
      exact Or.inr ⟨hdefault, fun e he hsession t ht => hcounted.settled_of_cover hcover he hsession ht⟩
    · intro hcases start row hlookup
      -- without timestamps there is nothing that could be unsettled
      refine (hcounted.correct_of_settled (fun e he hsession t ht => ?_) start _ row hlookup).1
      rcases hcases with hnone | ⟨-, hsettled⟩
      · rw [hnone e he hsession] at ht
        cases ht
      · exact hsettled e he hsession t ht
  · rw [exactTimeline_other_iff hcounted hdefault hbuckets]
    exact (or_iff_left fun hother => hdefault hother.1).symm

/-- A session with one line, five milliseconds after 1970. -/
def World.oneLine : World := .withLines [⟨some 5, "INFO".toList, "a".toList, "a".toList, 1⟩]

theorem timelineRoute_oneLine (raw : Text) :
    Logs.timelineRoute World.bobPrincipal "logs_a".toList raw World.oneLine.db =
      .ok ⟨Logs.requestedBucketSize raw,
        (Logs.timelineRows "logs_a".toList (Logs.requestedBucketSize raw) World.oneLine.db).mergeSort
          fun a b => a.bucketStartMs ≤ b.bucketStartMs⟩ := by
  have hauthorize : Logs.authorize World.bobPrincipal "logs_a".toList false World.oneLine.db =
      .ok (Logs.sessionOf "logs_a".toList World.bobSession 1 1) := by rfl
  exact Logs.timelineRoute_eq hauthorize raw

/-- Its timeline has one bucket in the default size and none in seconds. -/
theorem timeline_empty_in_seconds :
    World.Reachable ⟨default, default⟩ World.oneLine ∧
      Logs.timelineRoute World.bobPrincipal "logs_a".toList [] World.oneLine.db =
        .ok ⟨60000, [⟨0, 1, 0⟩]⟩ ∧
      Logs.timelineRoute World.bobPrincipal "logs_a".toList "1000".toList World.oneLine.db =
        .ok ⟨1000, []⟩ ∧
      ¬ExactTimeline World.oneLine.db "logs_a".toList ⟨1000, []⟩ := by
  refine ⟨World.reachable_withLines _, ?_, ?_, fun hexact => absurd hexact.total (by decide)⟩
  · have hsize : Logs.requestedBucketSize [] = 60000 := by rfl
    have hrows : Logs.timelineRows "logs_a".toList 60000 World.oneLine.db = [⟨0, 1, 0⟩] := by rfl
    rw [timelineRoute_oneLine, hsize, hrows, List.mergeSort_singleton]
  · have hsize : Logs.requestedBucketSize "1000".toList = 1000 := by rfl
    have hrows : Logs.timelineRows "logs_a".toList 1000 World.oneLine.db = [] := by rfl
    rw [timelineRoute_oneLine, hsize, hrows, List.mergeSort_nil]

theorem timeline_exact_oneLine :
    ∃ answer, Logs.timelineRoute World.bobPrincipal "logs_a".toList [] World.oneLine.db = .ok answer ∧
      ExactTimeline World.oneLine.db "logs_a".toList answer := by
  refine ⟨_, timelineRoute_oneLine [], ?_⟩
  apply (timeline_exact_iff ⟨default, default⟩ World.oneLine (World.reachable_withLines _)
    World.bobPrincipal "logs_a".toList [] _ (timelineRoute_oneLine [])).2
  refine Or.inr ⟨by rfl, fun e he _ t ht => Or.inl ?_⟩
  have hrows : World.oneLine.db.logEntries.rows.map LogEntryRow.timestampMs = [some 5] := rfl
  have hmem := List.mem_map_of_mem (f := LogEntryRow.timestampMs) he
  rw [hrows, ht, List.mem_singleton, Option.some.injEq] at hmem
  omega

end Workbench.Storage
