import Workbench.Logs.Calls
import Workbench.Storage.Counters

/-!
# What a failed import leaves behind

`AddFile` of `api/internal/logs/store.go` commits batch by batch and takes none of them back. So what is left
of the lines when an import fails depends on whether its first batch got into the database.
-/

set_option autoImplicit false

namespace Workbench.Logs

open Workbench.Lib Workbench.Storage
open Workbench.Identity (Principal)

/-- The entries, the scope counters and the time buckets of a session are the same in two states. -/
structure SameData (sessionID : Text) (a b : Db) : Prop where
  entries : (b.logEntries.entries.filter fun e => e.2.sessionID = sessionID) =
    a.logEntries.entries.filter fun e => e.2.sessionID = sessionID
  scopes : ∀ serviceName nodeName, b.logScopeStats.lookup (sessionID, serviceName, nodeName) =
    a.logScopeStats.lookup (sessionID, serviceName, nodeName)
  buckets : ∀ start size, b.logTimeBuckets.lookup (sessionID, start, size) =
    a.logTimeBuckets.lookup (sessionID, start, size)

/-- The first batch of an import gets into the database: the call is admitted, the file is new and could be
stored, a batch is sent, and nothing that is sent up to it is lost. -/
def BatchArrives (fileID : Text) (actor : Principal) (sessionID : Text) (input : AddFileInput)
    (ds : List Delivery) (db : Db) : Prop :=
  Admits actor sessionID db ∧ db.logFiles.lookup fileID = none ∧ Arrives ds 3 ∧
    ∃ upload, input.reader = some upload ∧ upload.stored.isSome ∧
      (batchSize ≤ upload.lines.length ∨ upload.scanError = none ∧ upload.lines ≠ [])

/-! ## Tables that stay -/

/-- The tables of the data are the same. -/
structure SameTables (a b : Db) : Prop where
  logEntries : b.logEntries = a.logEntries
  logScopeStats : b.logScopeStats = a.logScopeStats
  logTimeBuckets : b.logTimeBuckets = a.logTimeBuckets

theorem SameTables.refl (db : Db) : SameTables db db := ⟨rfl, rfl, rfl⟩

theorem SameTables.trans {a b c : Db} (h : SameTables a b) (h' : SameTables b c) : SameTables a c :=
  ⟨h'.logEntries.trans h.logEntries, h'.logScopeStats.trans h.logScopeStats,
    h'.logTimeBuckets.trans h.logTimeBuckets⟩

theorem SameTables.data {a b : Db} (h : SameTables a b) (sessionID : Text) : SameData sessionID a b := by
  constructor
  · rw [h.logEntries]
  · intro serviceName nodeName
    rw [h.logScopeStats]
  · intro start size
    rw [h.logTimeBuckets]

/-- A statement that only marks a file or a session. -/
def Command.Marks : ∀ {β : Type}, Command β → Prop
  | _, .markSession _ _ _ => True
  | _, .markFile _ _ _ => True
  | _, _ => False

section

variable {parseLogLine : LineParser} {now : Nat} {fileID batchError sessionID serviceName nodeName : Text}
  {row : LogFileRow} {db : Db}

theorem exec_marks {β : Type} (c : Command β) (db : Db) (hc : c.Marks) :
    SameTables db (c.exec parseLogLine now db).2 := by
  cases c with
  | markSession id status errorMessage => exact ⟨rfl, rfl, rfl⟩
  | markFile id parseStatus totalLines => exact ⟨rfl, rfl, rfl⟩
  | loadSession id => exact hc.elim
  | insertFile id row => exact hc.elim
  | insertBatch session id serviceName nodeName lines => exact hc.elim
  | appendLine session id raw => exact hc.elim
  | deleteSession id => exact hc.elim

/-- The end of an import, however it goes, only marks. -/
theorem run_finishImport (totalLines : Nat) (indexErr : Option Text) (ds : List Delivery) (db : Db) :
    SameTables db ((finishImport fileID row totalLines indexErr).run
      (Command.exec parseLogLine now) ds db).2 := by
  have hsends : (finishImport fileID row totalLines indexErr).Sends Command.Marks := by
    cases indexErr with
    | some e => exact ⟨trivial, fun _ => ⟨trivial, fun _ => trivial⟩⟩
    | none =>
      apply sends_demand trivial
      exact sends_demand trivial trivial
  exact Prog.run_invariant (fun c db' hc hsame => hsame.trans (exec_marks c db' hc)) _ ds db hsends
    (SameTables.refl db)

/-! ## Entries that come in -/

theorem rows_insertBatch {lines : List ParsedLine} {db' : Db}
    (hexec : insertBatch sessionID fileID serviceName nodeName lines db = some db') :
    db'.logEntries.rows =
      (lines.map (lineEntry sessionID fileID serviceName nodeName)).reverse ++ db.logEntries.rows := by
  rw [insertBatch] at hexec
  split at hexec
  · next hempty =>
      cases hexec
      rw [hempty]
      rfl
  · split at hexec
    · cases hexec
    · obtain ⟨entries, hentries, hrows⟩ :=
        insertEntries_eq sessionID fileID serviceName nodeName lines db
      -- the other two statements of the batch write other tables
      obtain ⟨buckets, hbuckets⟩ := addTimeBuckets_eq sessionID lines
        (addScopeStats sessionID serviceName nodeName lines.length { db with logEntries := entries })
      rw [hentries] at hexec
      dsimp only at hexec
      rw [hbuckets] at hexec
      cases hexec
      exact hrows

theorem rows_inserted (batches : List (List ParsedLine)) : ∀ db : Db, Keyed sessionID fileID db →
    (inserted sessionID fileID serviceName nodeName batches db).logEntries.rows =
      (batches.flatten.map (lineEntry sessionID fileID serviceName nodeName)).reverse ++
        db.logEntries.rows := by
  induction batches with
  | nil => exact fun _ _ => rfl
  | cons batch rest ih =>
    intro db hkeyed
    obtain ⟨db', hexec, hsame⟩ := insertBatch_keyed serviceName nodeName batch hkeyed
    rw [inserted, List.foldl_cons, hexec, Option.getD_some, ← inserted, ih db' (hsame.keyed hkeyed),
      rows_insertBatch hexec]
    simp

/-- Lines of a session that came in are more than there were. -/
theorem not_sameData_of_rows {entries : List LogEntryRow} {a b : Db} (hne : entries ≠ [])
    (hentries : ∀ e ∈ entries, e.sessionID = sessionID)
    (hrows : b.logEntries.rows = entries ++ a.logEntries.rows) : ¬SameData sessionID a b := by
  intro hsame
  have hcount : ∀ db : Db, (db.logEntries.entries.filter fun e => e.2.sessionID = sessionID).length =
      db.logEntries.rows.countP fun e => e.sessionID = sessionID := by
    intro db
    rw [Table.rows, List.countP_map, List.countP_eq_length_filter]
    rfl
  have hlength := congrArg List.length hsame.entries
  rw [hcount, hcount, hrows, List.countP_append] at hlength
  have hall : entries.countP (fun e => e.sessionID = sessionID) = entries.length := by
    rw [List.countP_eq_length]
    exact fun e he => decide_eq_true (hentries e he)
  have hpos := List.length_pos_of_ne_nil hne
  omega

/-! ## The course of an import -/

/-- An import that stops in front of the batches. -/
theorem run_importFile_stopped (parseLogLine : LineParser) (now : Nat) (fileID batchError : Text)
    (row : LogFileRow) (upload : Upload) (ds : List Delivery) (db : Db)
    (hstop : insertFile fileID row db = none ∨ ¬Through ds 2) :
    ∃ db', SameTables db db' ∧ (importFile parseLogLine fileID batchError row upload).run
      (Command.exec parseLogLine now) ds db = (none, db') := by
  rw [importFile_eq]
  cases hinsert : insertFile fileID row db with
  | none => exact ⟨db, SameTables.refl db, run_demandFile_refused (Or.inl hinsert)⟩
  | some db' =>
    have hfile : SameTables db db' := by
      obtain ⟨-, rfl⟩ := insertFile_ok hinsert
      exact ⟨rfl, rfl, rfl⟩
    rcases hstop with hnone | hstop
    · rw [hinsert] at hnone
      cases hnone
    · by_cases hfirst : Arrives ds 0
      · by_cases hone : Through ds 1
        · -- the file is there, and the session is not marked or the client does not hear of it
          rw [run_demandFile_answered hinsert hone, run_demand, if_neg]
          · refine ⟨_, hfile.trans ?_, rfl⟩
            split
            · exact ⟨rfl, rfl, rfl⟩
            · exact SameTables.refl db'
          · intro hsecond
            exact hstop (through_succ.2 ⟨(through_succ.1 hone).1, through_succ.2 ⟨hsecond, through_zero⟩⟩)
        · exact ⟨db', hfile, run_demandFile_lost hinsert ⟨hfirst, hone⟩⟩
      · exact ⟨db, SameTables.refl db, run_demandFile_refused (Or.inr hfirst)⟩

/-- Of the batches that are sent, none comes in exactly if there is none or the first one does not arrive. -/
theorem run_sendBatches_tables (parseLogLine : LineParser) (now : Nat) (fileID batchError : Text)
    (row : LogFileRow) (totalLines : Nat) (scanError : Option Text) (batches : List (List ParsedLine))
    (ds : List Delivery) (hkeyed : Keyed row.sessionID fileID db) :
    ∃ count, (batches.take count = [] ↔ ¬(Arrives ds 0 ∧ batches ≠ [])) ∧
      SameTables (inserted row.sessionID fileID row.serviceName row.nodeName (batches.take count) db)
        ((sendBatches row.sessionID fileID row.serviceName row.nodeName batchError
          (finishImport fileID row) (finishImport fileID row totalLines scanError) batches).run
            (Command.exec parseLogLine now) ds db).2 := by
  by_cases hall : Through ds batches.length
  · refine ⟨batches.length, ?_, ?_⟩
    · rw [List.take_length]
      constructor
      · exact fun hempty hboth => hboth.2 hempty
      · intro hnot
        by_contra hne
        exact hnot ⟨through_of_arrives hall (List.length_pos_of_ne_nil hne), hne⟩
    · rw [run_sendBatches_through _ _ _ hkeyed hall, List.take_length]
      exact run_finishImport _ _ _ _
  · have hne : batches ≠ [] := by
      rintro rfl
      exact hall through_zero
    obtain ⟨number, ds', count, hcount, hrun⟩ : ∃ number ds' count, (count = 0 ↔ ¬Arrives ds 0) ∧
        (sendBatches row.sessionID fileID row.serviceName row.nodeName batchError (finishImport fileID row)
          (finishImport fileID row totalLines scanError) batches).run
            (Command.exec parseLogLine now) ds db =
          (finishImport fileID row number (some batchError)).run (Command.exec parseLogLine now) ds'
            (inserted row.sessionID fileID row.serviceName row.nodeName (batches.take count) db) :=
      run_sendBatches_stopped batches ds db hkeyed hall
    refine ⟨count, ?_, ?_⟩
    · rw [List.take_eq_nil_iff, or_iff_left hne, hcount]
      simp [hne]
    · rw [hrun]
      exact run_finishImport _ _ _ _

/-- An import that comes to its batches: something of them comes in exactly if the first one arrives. -/
theorem run_importFile_data {upload : Upload} {ds : List Delivery} {db' : Db}
    (hinsert : insertFile fileID row db = some db') (hkeyed : Keyed row.sessionID fileID db')
    (hthrough : Through ds 2) :
    SameData row.sessionID db ((importFile parseLogLine fileID batchError row upload).run
        (Command.exec parseLogLine now) ds db).2 ↔
      ¬(Arrives ds 2 ∧ upload.batches parseLogLine ≠ []) := by
  have hfile : SameTables db (markSession row.sessionID "indexing".toList none now db') := by
    obtain ⟨-, rfl⟩ := insertFile_ok hinsert
    exact ⟨rfl, rfl, rfl⟩
  have hmarked : Keyed row.sessionID fileID
      (markSession row.sessionID "indexing".toList none now db') := by
    rw [Keyed, markSession, Table.isSome_lookup_update]
    exact hkeyed
  have harrives : Arrives (ds.drop 2) 0 ↔ Arrives ds 2 := arrives_drop hthrough
  rw [run_importFile_batches hinsert hthrough, ← harrives]
  obtain ⟨count, hcount, htables⟩ := run_sendBatches_tables parseLogLine now fileID batchError row
    upload.lines.length upload.scanError (upload.batches parseLogLine) (ds.drop 2) hmarked
  rw [← hcount]
  constructor
  · intro hsame
    by_contra hne
    have hrows : (inserted row.sessionID fileID row.serviceName row.nodeName
        ((upload.batches parseLogLine).take count)
        (markSession row.sessionID "indexing".toList none now db')).logEntries.rows = _ :=
      rows_inserted _ _ hmarked
    rw [← htables.logEntries, hfile.logEntries] at hrows
    refine not_sameData_of_rows ?_ ?_ hrows hsame
    · -- no batch is empty, so some line came in
      obtain ⟨batch, hbatch⟩ := List.exists_mem_of_ne_nil _ hne
      have hbatch' := ne_nil_of_mem_batchesOf _ _ _ batch (List.mem_of_mem_take hbatch)
      intro hempty
      rw [List.reverse_eq_nil_iff, List.map_eq_nil_iff, List.flatten_eq_nil_iff] at hempty
      exact hbatch' (hempty batch hbatch)
    · intro e he
      obtain ⟨line, -, rfl⟩ := List.mem_map.1 (List.mem_reverse.1 he)
      rfl
  · intro hempty
    rw [hempty] at htables
    exact (hfile.trans htables).data row.sessionID

/-- The same for any import into a session that is there. -/
theorem importFile_data_iff (parseLogLine : LineParser) (now : Nat) (fileID batchError : Text)
    (row : LogFileRow) (upload : Upload) (ds : List Delivery) (db : Db)
    (hsession : ∃ session, db.logSessions.lookup row.sessionID = some session)
    (hstatus : row.parseStatus = "pending".toList) :
    SameData row.sessionID db ((importFile parseLogLine fileID batchError row upload).run
        (Command.exec parseLogLine now) ds db).2 ↔
      ¬(db.logFiles.lookup fileID = none ∧ Arrives ds 2 ∧ upload.batches parseLogLine ≠ []) := by
  by_cases hfresh : db.logFiles.lookup fileID = none
  · have hinsert : insertFile fileID row db = some (withFile fileID row db) := by
      apply insertFile_fresh hfresh hsession
      rw [hstatus]
      exact List.mem_cons_self
    by_cases hthrough : Through ds 2
    · have hkeyed : Keyed row.sessionID fileID (withFile fileID row db) := by
        obtain ⟨session, hfound⟩ := hsession
        exact ⟨by simp [withFile, hfound], by simp [withFile]⟩
      rw [run_importFile_data hinsert hkeyed hthrough]
      simp [hfresh]
    · obtain ⟨db', hsame, hrun⟩ := run_importFile_stopped parseLogLine now fileID batchError row upload ds
        db (Or.inr hthrough)
      rw [hrun]
      exact iff_of_true (hsame.data row.sessionID) fun h => hthrough h.2.1.1
  · obtain ⟨db', hsame, hrun⟩ := run_importFile_stopped parseLogLine now fileID batchError row upload ds
      db (Or.inl (insertFile_taken hfresh))
    rw [hrun]
    exact iff_of_true (hsame.data row.sessionID) fun h => hfresh h.1

end

/-! ## Failed imports -/

/-- Which batches are sent depends on the number of the lines only. -/
theorem batches_ne_nil_iff (parseLogLine : LineParser) (upload : Upload) : upload.batches parseLogLine ≠ [] ↔
    batchSize ≤ upload.lines.length ∨ upload.scanError = none ∧ upload.lines ≠ [] := by
  have hlength : (parsedRows parseLogLine 0 none upload.lines).length = upload.lines.length :=
    length_parsedRows upload.lines 0 none
  have hlines : parsedRows parseLogLine 0 none upload.lines ≠ [] ↔ upload.lines ≠ [] := by
    rw [← List.length_pos_iff, ← List.length_pos_iff, hlength]
  rw [Upload.batches, batchesOf_ne_nil_iff _ _ [] (by decide), List.nil_append, hlines, hlength, List.length_nil,
    Nat.zero_add]

/-- **An import that fails leaves the data of its session as it was if and only if no batch of it got into
the database.** -/
theorem failed_import_leaves_data_iff (parseLogLine : LineParser) (fileID batchError : Text)
    (actor : Principal) (sessionID : Text) (input : AddFileInput) (now : Nat) (ds : List Delivery) (db : Db)
    (_hfail : ¬Succeeded ((addFile parseLogLine fileID batchError actor sessionID input).run
      (Command.exec parseLogLine now) ds db).1) :
    SameData sessionID db ((addFile parseLogLine fileID batchError actor sessionID input).run
        (Command.exec parseLogLine now) ds db).2 ↔
      ¬BatchArrives fileID actor sessionID input ds db := by
  by_cases hin : Admits actor sessionID db ∧ ds.headD .answered = .answered ∧
      ∃ upload storagePath, input.Stored upload storagePath
  · obtain ⟨hadmits, hhead, upload, storagePath, hstored⟩ := hin
    have harrives : BatchArrives fileID actor sessionID input ds db ↔
        db.logFiles.lookup fileID = none ∧ Arrives ds.tail 2 ∧ upload.batches parseLogLine ≠ [] := by
      rw [BatchArrives, batches_ne_nil_iff, arrives_succ]
      constructor
      · rintro ⟨-, hfresh, ⟨-, harrives⟩, upload', hreader, -, hsent⟩
        rw [hstored.1, Option.some.injEq] at hreader
        rw [hreader]
        exact ⟨hfresh, harrives, hsent⟩
      · rintro ⟨hfresh, harrives, hsent⟩
        exact ⟨hadmits, hfresh, ⟨hhead, harrives⟩, upload, hstored.1, by simp [hstored.2], hsent⟩
    rw [run_addFile_import hadmits hhead hstored, harrives]
    exact importFile_data_iff parseLogLine now fileID batchError (input.row sessionID storagePath) upload
      ds.tail db hadmits.session (input.parseStatus_row sessionID storagePath)
  · obtain ⟨outcome, -, hrun⟩ := run_addFile_idle parseLogLine now fileID batchError
      fun hadmits hhead upload storagePath hstored => hin ⟨hadmits, hhead, upload, storagePath, hstored⟩
    rw [hrun]
    refine iff_of_true ((SameTables.refl db).data sessionID) ?_
    rintro ⟨hadmits, -, harrives, upload, hreader, hstored, -⟩
    obtain ⟨storagePath, hstored⟩ := Option.isSome_iff_exists.1 hstored
    exact hin ⟨hadmits, (through_succ.1 harrives.1).1, upload, storagePath, hreader, hstored⟩

/-- The upload of one line. -/
def oneLineInput : AddFileInput :=
  ⟨"a.log".toList, [], [], [], some ⟨some "/uploads/a".toList, ["a".toList], none⟩⟩

/-- The statement that completes the file fails: the call returns an error, and the line stays. -/
theorem failed_import_leaves_line :
    ∃ db', (addFile plainLine "logfile_a".toList [] World.bobPrincipal "logs_a".toList oneLineInput).run
        (Command.exec plainLine 0) [.answered, .answered, .answered, .answered, .refused]
        World.oneSession.db = (none, db') ∧
      World.oneSession.db.logEntries.rows = [] ∧ db'.logEntries.rows.map LogEntryRow.raw = ["a".toList] ∧
      ¬SameData "logs_a".toList World.oneSession.db db' := by
  refine ⟨_, rfl, rfl, rfl, fun hsame => ?_⟩
  have hlength : (1 : Nat) = 0 := congrArg List.length hsame.entries
  cases hlength

/-- A batch that does not get through leaves nothing. -/
theorem failed_import_leaves_nothing :
    SameData "logs_a".toList World.oneSession.db
      ((addFile plainLine "logfile_a".toList [] World.bobPrincipal "logs_a".toList oneLineInput).run
        (Command.exec plainLine 0) [.answered, .answered, .answered, .refused] World.oneSession.db).2 := by
  apply (failed_import_leaves_data_iff plainLine "logfile_a".toList [] World.bobPrincipal
    "logs_a".toList oneLineInput 0 [.answered, .answered, .answered, .refused] World.oneSession.db ?_).2
  · rintro ⟨-, -, harrives, -⟩
    exact harrives.2 rfl
  · rintro ⟨file, hfile⟩
    cases hfile

end Workbench.Logs
