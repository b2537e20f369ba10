import Workbench.Logs.Import

/-!
# The batches of an import

`indexFile` of `api/internal/logs/store.go` reads line by line and sends a batch whenever it is full. Seen
from the database it sends one list of batches, one after the other, and this list depends only on the
lines and on whether the scanner ended with an error.
-/

set_option autoImplicit false

namespace Workbench.Logs

open Workbench.Lib Workbench.Storage

section

variable (parseLogLine : LineParser)

/-- The rows of lines, behind `lineNumber` lines with the timestamp `last`. -/
def parsedRows : (lineNumber : Nat) → (last : Option Int) → List Text → List ParsedLine
  | _, _, [] => []
  | lineNumber, last, raw :: rest =>
    let parsed := parseLogLine raw last
    parsed.row raw (lineNumber + 1) ::
      parsedRows (lineNumber + 1) (parsed.timestampMs.or last) rest

end

/-- The batches that are sent for the rows that are left, where `batch` is collected; what is collected at
the end is sent only if the scanner ended without an error. -/
def batchesOf (scanError : Option Text) : (batch : List ParsedLine) → List ParsedLine →
    List (List ParsedLine)
  | batch, [] => if scanError.isSome ∨ batch = [] then [] else [batch]
  | batch, row :: rest =>
    if batchSize ≤ (batch ++ [row]).length then (batch ++ [row]) :: batchesOf scanError [] rest
    else batchesOf scanError (batch ++ [row]) rest

/-- The number of the last line of a batch. -/
def lastNumber (batch : List ParsedLine) : Nat := (batch.getLast?.map ParsedLine.lineNumber).getD 0

section

variable {α : Type}

/-- The batches are sent until one of them does not go through. -/
def sendBatches (sessionID fileID serviceName nodeName batchError : Text)
    (next : Nat → Option Text → Prog Command α) (ending : Prog Command α) :
    List (List ParsedLine) → Prog Command α
  | [] => ending
  | batch :: rest =>
    .call (.insertBatch sessionID fileID serviceName nodeName batch) fun answer =>
      if answer = some true then
        sendBatches sessionID fileID serviceName nodeName batchError next ending rest
      else next (lastNumber batch) (some batchError)

variable {parseLogLine : LineParser} {sessionID fileID serviceName nodeName batchError : Text}
  {scanError : Option Text} {next : Nat → Option Text → Prog Command α}

theorem length_parsedRows (lines : List Text) : ∀ lineNumber last,
    (parsedRows parseLogLine lineNumber last lines).length = lines.length := by
  induction lines with
  | nil => exact fun _ _ => rfl
  | cons raw rest ih =>
    intro lineNumber last
    simp [parsedRows, ih]

theorem lastNumber_append (batch : List ParsedLine) (row : ParsedLine) :
    lastNumber (batch ++ [row]) = row.lineNumber := by
  simp [lastNumber]

/-- **The loop of `indexFile` sends these batches.** -/
theorem indexFile_eq (lines : List Text) : ∀ (lineNumber : Nat) (last : Option Int)
    (batch : List ParsedLine), (batch ≠ [] → lastNumber batch = lineNumber) →
    indexFile parseLogLine sessionID fileID serviceName nodeName batchError scanError next lineNumber
        last batch lines =
      sendBatches sessionID fileID serviceName nodeName batchError next
        (next (lineNumber + lines.length) scanError)
        (batchesOf scanError batch (parsedRows parseLogLine lineNumber last lines)) := by
  induction lines with
  | nil =>
    intro lineNumber last batch hbatch
    rw [parsedRows, batchesOf]
    cases scanError with
    | some e => simp [indexFile, sendBatches]
    | none =>
      rw [indexFile]
      by_cases hempty : batch = []
      · simp [hempty, flush, sendBatches]
      · simp only [hempty, flush, sendBatches, hbatch hempty, if_false, or_self, Option.isSome_none,
          Bool.false_eq_true, List.length_nil, Nat.add_zero, decide_eq_true_eq]
        congr 1
        funext answer
        split <;> rfl
  | cons raw rest ih =>
    intro lineNumber last batch hbatch
    have hlast : lastNumber (batch ++ [(parseLogLine raw last).row raw (lineNumber + 1)]) =
        lineNumber + 1 := lastNumber_append _ _
    have htotal : lineNumber + 1 + rest.length = lineNumber + (rest.length + 1) := by omega
    rw [indexFile, parsedRows, batchesOf, List.length_cons, ← htotal]
    by_cases hfull : batchSize ≤ (batch ++ [(parseLogLine raw last).row raw (lineNumber + 1)]).length
    · -- the batch is sent, and the next one starts empty
      rw [if_pos hfull, if_pos hfull, flush, if_neg (by simp), sendBatches, hlast]
      congr 1
      funext answer
      rw [ih _ _ _ (fun h => absurd rfl h)]
      by_cases hanswer : answer = some true
      · simp [hanswer]
      · simp [hanswer]
    · rw [if_neg hfull, if_neg hfull]
      exact ih _ _ _ fun _ => hlast

/-! ## What is in the batches -/

theorem flatten_batchesOf (rows : List ParsedLine) : ∀ batch,
    (batchesOf none batch rows).flatten = batch ++ rows := by
  induction rows with
  | nil =>
    intro batch
    by_cases hempty : batch = []
    · simp [batchesOf, hempty]
    · simp [batchesOf, hempty]
  | cons row rest ih =>
    intro batch
    rw [batchesOf]
    split
    · simp [ih]
    · simp [ih]

theorem ne_nil_of_mem_batchesOf (scanError : Option Text) (rows : List ParsedLine) : ∀ batch,
    ∀ b ∈ batchesOf scanError batch rows, b ≠ [] := by
  induction rows with
  | nil =>
    intro batch b hb
    rw [batchesOf] at hb
    split at hb
    · cases hb
    · next hnot =>
        rw [List.mem_singleton.1 hb]
        exact fun hempty => hnot (Or.inr hempty)
  | cons row rest ih =>
    intro batch b hb
    rw [batchesOf] at hb
    split at hb
    · rcases List.mem_cons.1 hb with rfl | hrest
      · simp
      · exact ih [] b hrest
    · exact ih _ b hb

/-- A batch is sent if one gets full, or if there are lines and the scanner reads all of them. -/
theorem batchesOf_ne_nil_iff (scanError : Option Text) (rows : List ParsedLine) :
    ∀ batch : List ParsedLine,
    batch.length < batchSize →
    (batchesOf scanError batch rows ≠ [] ↔
      batchSize ≤ batch.length + rows.length ∨ scanError = none ∧ batch ++ rows ≠ []) := by
  induction rows with
  | nil =>
    intro batch hbatch
    rw [batchesOf]
    cases scanError with
    | some e => simpa using hbatch
    | none =>
      by_cases hempty : batch = []
      · simp [hempty, batchSize]
      · simp [hempty]
  | cons row rest ih =>
    intro batch hbatch
    rw [batchesOf]
    split
    · next hfull =>
        simp only [List.length_append, List.length_cons, List.length_nil] at hfull
        simp only [ne_eq, reduceCtorEq, not_false_eq_true, List.length_cons, true_iff]
        exact Or.inl (by omega)
    · next hfull =>
        rw [ih _ (by omega)]
        simp only [List.length_append, List.length_cons, List.length_nil]
        have hsum : batch.length + (0 + 1) + rest.length = batch.length + (rest.length + 1) := by omega
        rw [hsum]
        simp

/-- Without an error of the scanner the last batch is the only one that may not be full. -/
theorem length_batchesOf (rows : List ParsedLine) : ∀ batch : List ParsedLine, batch.length < batchSize →
    (batchesOf none batch rows).length = (batch.length + rows.length + (batchSize - 1)) / batchSize := by
  induction rows with
  | nil =>
    intro batch hbatch
    rw [batchesOf, batchSize] at *
    by_cases hempty : batch = []
    · simp [hempty]
    · have hpos := List.length_pos_iff.2 hempty
      simp only [Option.isSome_none, Bool.false_eq_true, hempty, or_self, if_false, List.length_cons,
        List.length_nil]
      omega
  | cons row rest ih =>
    intro batch hbatch
    rw [batchesOf]
    have hlength : (batch ++ [row]).length = batch.length + 1 := by simp
    split
    · next hfull =>
        have hrest := ih [] (by decide)
        rw [List.length_cons, hrest, List.length_nil, List.length_cons]
        rw [hlength] at hfull
        rw [batchSize] at *
        omega
    · next hfull =>
        rw [ih _ (by omega), hlength, List.length_cons]
        congr 2
        omega

/-! ## What becomes of the batches -/

/-- The session and the file that the entries of a batch refer to. -/
def Keyed (sessionID fileID : Text) (db : Db) : Prop :=
  (db.logSessions.lookup sessionID).isSome ∧ (db.logFiles.lookup fileID).isSome

/-- A batch changes neither sessions nor files. -/
structure SameStanding (a b : Db) : Prop where
  logSessions : b.logSessions = a.logSessions
  logFiles : b.logFiles = a.logFiles

theorem SameStanding.refl (db : Db) : SameStanding db db := ⟨rfl, rfl⟩

theorem SameStanding.trans {a b c : Db} (h : SameStanding a b) (h' : SameStanding b c) :
    SameStanding a c :=
  ⟨h'.logSessions.trans h.logSessions, h'.logFiles.trans h.logFiles⟩

theorem SameStanding.keyed {a b : Db} (h : SameStanding a b) (hkeyed : Keyed sessionID fileID a) :
    Keyed sessionID fileID b := by
  rw [Keyed, h.logSessions, h.logFiles]
  exact hkeyed

theorem insertEntries_standing (sessionID fileID serviceName nodeName : Text)
    (lines : List ParsedLine) : ∀ db : Db, SameStanding db
    (lines.foldl (fun db line => insertEntry sessionID fileID serviceName nodeName line db) db) := by
  induction lines with
  | nil => exact SameStanding.refl
  | cons line rest ih =>
    intro db
    have hfirst : SameStanding db (insertEntry sessionID fileID serviceName nodeName line db) :=
      ⟨rfl, rfl⟩
    exact hfirst.trans (ih _)

theorem addTimeBuckets_standing (lines : List ParsedLine) : ∀ db : Db, SameStanding db
    (lines.foldl (fun db line => addTimeBucket sessionID line db) db) := by
  induction lines with
  | nil => exact SameStanding.refl
  | cons line rest ih =>
    intro db
    have hfirst : SameStanding db (addTimeBucket sessionID line db) := by
      rw [addTimeBucket]
      cases line.timestampMs with
      | none => exact SameStanding.refl db
      | some timestamp => exact ⟨rfl, rfl⟩
    exact hfirst.trans (ih _)

/-- A batch that refers to rows goes through. -/
theorem insertBatch_keyed (serviceName nodeName : Text) (batch : List ParsedLine) {db : Db}
    (hkeyed : Keyed sessionID fileID db) :
    ∃ db', insertBatch sessionID fileID serviceName nodeName batch db = some db' ∧
      SameStanding db db' := by
  rw [insertBatch]
  by_cases hempty : batch = []
  · exact ⟨db, if_pos hempty, SameStanding.refl db⟩
  · obtain ⟨hsession, hfile⟩ := hkeyed
    have hfree : ¬(db.logSessions.lookup sessionID = none ∨ db.logFiles.lookup fileID = none) := by
      simp [Option.ne_none_iff_isSome.2 hsession, Option.ne_none_iff_isSome.2 hfile]
    rw [if_neg hempty, if_neg hfree]
    refine ⟨_, rfl, ?_⟩
    have hentries := insertEntries_standing sessionID fileID serviceName nodeName batch db
    have hstats : ∀ db : Db, SameStanding db
        (addScopeStats sessionID serviceName nodeName batch.length db) := fun _ => ⟨rfl, rfl⟩
    exact (hentries.trans (hstats _)).trans (addTimeBuckets_standing batch _)

/-- The database behind batches that go through. -/
def inserted (sessionID fileID serviceName nodeName : Text) (batches : List (List ParsedLine))
    (db : Db) : Db :=
  batches.foldl (fun db batch =>
    (insertBatch sessionID fileID serviceName nodeName batch db).getD db) db

theorem inserted_standing (batches : List (List ParsedLine)) : ∀ db : Db, Keyed sessionID fileID db →
    SameStanding db (inserted sessionID fileID serviceName nodeName batches db) := by
  induction batches with
  | nil => exact fun db _ => SameStanding.refl db
  | cons batch rest ih =>
    intro db hkeyed
    obtain ⟨db', hexec, hsame⟩ := insertBatch_keyed serviceName nodeName batch hkeyed
    rw [inserted, List.foldl_cons, hexec, Option.getD_some]
    exact hsame.trans (ih db' (hsame.keyed hkeyed))

variable {now : Nat} {ending : Prog Command α}

/-- All batches are answered. -/
theorem run_sendBatches_through (batches : List (List ParsedLine)) : ∀ (ds : List Delivery) (db : Db),
    Keyed sessionID fileID db → Through ds batches.length →
    (sendBatches sessionID fileID serviceName nodeName batchError next ending batches).run
        (Command.exec parseLogLine now) ds db =
      ending.run (Command.exec parseLogLine now) (ds.drop batches.length)
        (inserted sessionID fileID serviceName nodeName batches db) := by
  induction batches with
  | nil => exact fun _ _ _ _ => rfl
  | cons batch rest ih =>
    intro ds db hkeyed hthrough
    obtain ⟨hhead, htail⟩ := through_succ.1 hthrough
    obtain ⟨db', hexec, hsame⟩ := insertBatch_keyed serviceName nodeName batch hkeyed
    rw [sendBatches, Prog.run, hhead, deliver]
    simp only [Command.exec, accepted, hexec, Option.isSome_some, Option.getD_some, if_true]
    rw [ih ds.tail db' (hsame.keyed hkeyed) htail, List.drop_tail, List.length_cons, inserted,
      inserted, List.foldl_cons, hexec, Option.getD_some]

/-- A batch is not answered: some of the batches are inserted, the first of them if it arrived. -/
theorem run_sendBatches_stopped (batches : List (List ParsedLine)) : ∀ (ds : List Delivery) (db : Db),
    Keyed sessionID fileID db → ¬Through ds batches.length →
    ∃ number ds' count, (count = 0 ↔ ¬Arrives ds 0) ∧
      (sendBatches sessionID fileID serviceName nodeName batchError next ending batches).run
          (Command.exec parseLogLine now) ds db =
        (next number (some batchError)).run (Command.exec parseLogLine now) ds'
          (inserted sessionID fileID serviceName nodeName (batches.take count) db) := by
  induction batches with
  | nil => exact fun _ _ _ hnot => absurd through_zero hnot
  | cons batch rest ih =>
    intro ds db hkeyed hnot
    obtain ⟨db', hexec, hsame⟩ := insertBatch_keyed serviceName nodeName batch hkeyed
    rw [List.length_cons, through_succ] at hnot
    rw [sendBatches, Prog.run, arrives_zero]
    cases hhead : ds.headD .answered with
    | answered =>
      rw [hhead] at hnot
      obtain ⟨number, ds', count, -, hrun⟩ := ih ds.tail db' (hsame.keyed hkeyed)
        fun htail => hnot ⟨rfl, htail⟩
      refine ⟨number, ds', count + 1, by simp, ?_⟩
      simp only [deliver, Command.exec, accepted, hexec, Option.isSome_some, Option.getD_some,
        if_true]
      rw [hrun, List.take_succ_cons, inserted, inserted, List.foldl_cons, hexec, Option.getD_some]
    | refused => exact ⟨lastNumber batch, ds.tail, 0, by simp, rfl⟩
    | lost =>
      -- the batch is there, but the client takes it for failed
      refine ⟨lastNumber batch, ds.tail, 1, by simp, ?_⟩
      simp only [deliver, Command.exec, accepted, hexec, Option.getD_some, reduceCtorEq, if_false,
        List.take_succ_cons, List.take_zero, inserted, List.foldl_cons, List.foldl_nil]

end

end Workbench.Logs
