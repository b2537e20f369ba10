import Workbench.Logs.FailedImports
import Workbench.Logs.Lines
import Workbench.Logs.Status

/-!
# Importing a file and tailing its lines

`AddFile` keeps the last timestamp while it goes through the lines and sends them in batches, `AppendTailLine`
reads it from the table again for each line. PostgreSQL takes no text with a NUL: a statement that stores one
is refused, and a batch as a whole.
-/

set_option autoImplicit false

namespace Workbench.Logs

open Workbench.Lib Workbench.Storage
open Workbench.Identity (Principal)

/-! ## What lines leave in the tables -/

/-- The upsert on `log_time_buckets` for one line, as a change of the table. -/
def addBucket (sessionID : Text) (buckets : Table (Text × Int × Int) TimeBucketRow) (line : ParsedLine) :
    Table (Text × Int × Int) TimeBucketRow :=
  match line.timestampMs with
  | none => buckets
  | some timestamp =>
    let key := (sessionID, bucketStart timestamp, defaultBucketSizeMs)
    let old := (buckets.lookup key).getD ⟨0, 0⟩
    buckets.insert key ⟨old.count + 1, old.errorCount + if line.level = "ERROR".toList then 1 else 0⟩

/-- These lines have come in as lines of a file. -/
structure Stores (sessionID fileID serviceName nodeName : Text) (lines : List ParsedLine) (a b : Db) : Prop where
  rows : b.logEntries.rows =
    (lines.map (lineEntry sessionID fileID serviceName nodeName)).reverse ++ a.logEntries.rows
  scopes : ∀ key, b.logScopeStats.lookup key =
    if key = (sessionID, serviceName, nodeName) ∧ lines ≠ [] then
      some ((a.logScopeStats.lookup key).getD 0 + lines.length)
    else a.logScopeStats.lookup key
  buckets : b.logTimeBuckets = lines.foldl (addBucket sessionID) a.logTimeBuckets

section

variable {sessionID fileID serviceName nodeName : Text}

theorem Stores.of_same {a b : Db} (h : SameTables a b) : Stores sessionID fileID serviceName nodeName [] a b := by
  constructor
  · rw [h.logEntries]
    rfl
  · intro key
    rw [h.logScopeStats, if_neg fun hlines => hlines.2 rfl]
  · rw [h.logTimeBuckets]
    rfl

theorem Stores.trans {lines more : List ParsedLine} {a b c : Db}
    (h : Stores sessionID fileID serviceName nodeName lines a b)
    (h' : Stores sessionID fileID serviceName nodeName more b c) :
    Stores sessionID fileID serviceName nodeName (lines ++ more) a c := by
  constructor
  · rw [h'.rows, h.rows, List.map_append, List.reverse_append, List.append_assoc]
  · intro key
    rw [h'.scopes key, h.scopes key]
    by_cases hkey : key = (sessionID, serviceName, nodeName)
    · rcases eq_or_ne lines [] with rfl | hlines
      · simp
      · rcases eq_or_ne more [] with rfl | hmore
        · simp [hkey, hlines]
        · simp [hkey, hlines, hmore, Nat.add_assoc]
    · simp [hkey]
  · rw [h'.buckets, h.buckets, List.foldl_append]

theorem Stores.after {lines : List ParsedLine} {a b c : Db}
    (h : Stores sessionID fileID serviceName nodeName lines a b) (hsame : SameTables b c) :
    Stores sessionID fileID serviceName nodeName lines a c := by
  have hall := h.trans (Stores.of_same hsame)
  rwa [List.append_nil] at hall

theorem Stores.before {lines : List ParsedLine} {a b c : Db} (hsame : SameTables a b)
    (h : Stores sessionID fileID serviceName nodeName lines b c) :
    Stores sessionID fileID serviceName nodeName lines a c := by
  have hall := (Stores.of_same hsame).trans h
  rwa [List.nil_append] at hall

theorem foldl_addTimeBucket (lines : List ParsedLine) : ∀ db : Db,
    lines.foldl (fun db line => addTimeBucket sessionID line db) db =
      { db with logTimeBuckets := lines.foldl (addBucket sessionID) db.logTimeBuckets } := by
  induction lines with
  | nil => exact fun _ => rfl
  | cons line rest ih =>
    intro db
    have hline : addTimeBucket sessionID line db =
        { db with logTimeBuckets := addBucket sessionID db.logTimeBuckets line } := by
      rw [addTimeBucket, addBucket]
      cases line.timestampMs <;> rfl
    rw [List.foldl_cons, ih, hline]
    rfl

theorem insertBatch_stores {lines : List ParsedLine} {db db' : Db}
    (hexec : insertBatch sessionID fileID serviceName nodeName lines db = some db') :
    Stores sessionID fileID serviceName nodeName lines db db' := by
  have hrows := rows_insertBatch hexec
  rw [insertBatch] at hexec
  split at hexec
  · next hempty =>
      cases hexec
      rw [hempty]
      exact Stores.of_same (SameTables.refl db)
  · next hlines =>
      split at hexec
      · cases hexec
      · obtain ⟨entries, hentries, -⟩ := insertEntries_eq sessionID fileID serviceName nodeName lines db
        rw [hentries] at hexec
        dsimp only at hexec
        rw [foldl_addTimeBucket] at hexec
        cases hexec
        refine ⟨hrows, ?_, rfl⟩
        intro key
        dsimp only [addScopeStats]
        by_cases hkey : key = (sessionID, serviceName, nodeName)
        · rw [hkey, AList.lookup_insert, if_pos ⟨rfl, hlines⟩]
        · rw [AList.lookup_insert_ne hkey, if_neg fun h => hkey h.1]

theorem inserted_stores (batches : List (List ParsedLine)) :
    ∀ db : Db, Keyed sessionID fileID db →
    Stores sessionID fileID serviceName nodeName batches.flatten db
      (inserted sessionID fileID serviceName nodeName batches db) := by
  induction batches with
  | nil => exact fun db _ => Stores.of_same (SameTables.refl db)
  | cons batch rest ih =>
    intro db hkeyed
    obtain ⟨db', hexec, hsame⟩ := insertBatch_keyed serviceName nodeName batch hkeyed
    rw [inserted, List.foldl_cons, hexec, Option.getD_some, ← inserted, List.flatten_cons]
    exact (insertBatch_stores hexec).trans (ih db' (hsame.keyed hkeyed))

end

/-! ## What PostgreSQL refuses -/

/-- No text of the line has a NUL. -/
def ParsedLine.Storable (line : ParsedLine) : Prop := ∀ text ∈ [line.level, line.message, line.raw], Char.ofNat 0 ∉ text

instance (line : ParsedLine) : Decidable line.Storable := inferInstanceAs (Decidable (∀ text ∈ _, _))

/-- A statement with lines is taken if each of them can be stored; of an unknown file nothing is stored. -/
def Command.takes (parseLogLine : LineParser) : ∀ {β : Type}, Command β → Db → Bool
  | _, .insertBatch _ _ _ _ lines, _ => ∀ line ∈ lines, line.Storable
  | _, .appendLine sessionID fileID raw, db =>
    (db.logFiles.lookup fileID).isSome →
      ((parseLogLine (trimLine raw) (previousTimestamp sessionID fileID db)).row (trimLine raw) 0).Storable
  | _, _, _ => true

section

variable {parseLogLine : LineParser} {α : Type} {now : Nat} {actor : Principal}
  {sessionID fileID serviceName nodeName batchError : Text} {db : Db}

theorem runWhere_authorized (parseLogLine : LineParser) (now : Nat) (α : Type)
    (hadmits : Admits actor sessionID db) : ∃ session : Session, session.id = sessionID ∧
      ∀ next : Session → Prog Command (Outcome α),
        (authorized actor sessionID true next).runWhere (Command.takes parseLogLine) (Command.exec parseLogLine now)
            db =
          (next session).runWhere (Command.takes parseLogLine) (Command.exec parseLogLine now) db := by
  obtain ⟨session, hauthorize⟩ := hadmits
  have hdisabled := (authorize_found hauthorize).1
  have hid := (authorize_found hauthorize).2.1
  rw [authorize, if_neg (by simp [hdisabled]), bind_eq_ok] at hauthorize
  obtain ⟨found, hload, haccess⟩ := hauthorize
  refine ⟨session, hid, fun next => ?_⟩
  rw [authorized, if_neg (by simp [hdisabled]), Prog.runWhere_taken rfl]
  simp [Command.exec, hload, haccess]

theorem runWhere_demandFile {row : LogFileRow} {next : Prog Command (Outcome α)} {db' : Db}
    (hinsert : insertFile fileID row db = some db') :
    (demandFile fileID row next).runWhere (Command.takes parseLogLine) (Command.exec parseLogLine now) db =
      next.runWhere (Command.takes parseLogLine) (Command.exec parseLogLine now) db' := by
  rw [demandFile, Prog.runWhere_taken rfl]
  simp [Command.exec, accepted, hinsert]

/-- The batches of an import are inserted up to one that cannot be stored. -/
theorem runWhere_sendBatches (parseLogLine : LineParser) (now : Nat) (serviceName nodeName batchError : Text)
    (next : Nat → Option Text → Prog Command α) (ending : Prog Command α) (batches : List (List ParsedLine)) :
    ∀ db : Db, Keyed sessionID fileID db →
    (∀ batch ∈ batches, ∀ line ∈ batch, line.Storable) ∧
        (sendBatches sessionID fileID serviceName nodeName batchError next ending batches).runWhere
            (Command.takes parseLogLine) (Command.exec parseLogLine now) db =
          ending.runWhere (Command.takes parseLogLine) (Command.exec parseLogLine now)
            (inserted sessionID fileID serviceName nodeName batches db) ∨
      (∃ batch ∈ batches, ∃ line ∈ batch, ¬line.Storable) ∧
        ∃ number count, (∀ batch ∈ batches.take count, ∀ line ∈ batch, line.Storable) ∧
          (sendBatches sessionID fileID serviceName nodeName batchError next ending batches).runWhere
              (Command.takes parseLogLine) (Command.exec parseLogLine now) db =
            (next number (some batchError)).runWhere (Command.takes parseLogLine) (Command.exec parseLogLine now)
              (inserted sessionID fileID serviceName nodeName (batches.take count) db) := by
  induction batches with
  | nil => exact fun _ _ => Or.inl ⟨by simp, rfl⟩
  | cons batch rest ih =>
    intro db hkeyed
    obtain ⟨db', hexec, hsame⟩ := insertBatch_keyed serviceName nodeName batch hkeyed
    rw [sendBatches]
    by_cases hbatch : ∀ line ∈ batch, line.Storable
    · have htaken : Command.takes parseLogLine (.insertBatch sessionID fileID serviceName nodeName batch) db = true :=
        decide_eq_true hbatch
      rw [Prog.runWhere_taken htaken]
      simp only [if_true, Command.exec, accepted, hexec, Option.isSome_some, Option.getD_some]
      rcases ih db' (hsame.keyed hkeyed) with ⟨hall, hrun⟩ | ⟨hrefused, number, count, hfront, hrun⟩
      · refine Or.inl ⟨List.forall_mem_cons.2 ⟨hbatch, hall⟩, ?_⟩
        rw [hrun, inserted, inserted, List.foldl_cons, hexec, Option.getD_some]
      · obtain ⟨bad, hbad, hline⟩ := hrefused
        refine Or.inr ⟨⟨bad, List.mem_cons_of_mem _ hbad, hline⟩, number, count + 1, ?_, ?_⟩
        · rw [List.take_succ_cons]
          exact List.forall_mem_cons.2 ⟨hbatch, hfront⟩
        · rw [hrun, List.take_succ_cons, inserted, inserted, List.foldl_cons, hexec, Option.getD_some]
    · have hrefused : Command.takes parseLogLine (.insertBatch sessionID fileID serviceName nodeName batch) db =
          false := decide_eq_false hbatch
      rw [Prog.runWhere_refused hrefused, if_neg (by simp)]
      simp only [not_forall] at hbatch
      obtain ⟨line, hline, hbad⟩ := hbatch
      exact Or.inr ⟨⟨batch, List.mem_cons_self, line, hline, hbad⟩, lastNumber batch, 0, by simp, rfl⟩

/-! ## The import -/

/-- The database when an import begins with its lines. -/
def importStart (fileID : Text) (row : LogFileRow) (now : Nat) (db : Db) : Db :=
  markSession row.sessionID "indexing".toList none now (withFile fileID row db)

/-- The number of lines that the row of a file tells. -/
def totalLinesOf (fileID : Text) (db : Db) : Option Nat := (db.logFiles.lookup fileID).map LogFileRow.totalLines

theorem totalLinesOf_markFile (fileID parseStatus : Text) (totalLines : Nat → Nat) (db : Db) :
    totalLinesOf fileID (markFile fileID parseStatus totalLines db) = (totalLinesOf fileID db).map totalLines := by
  simp only [totalLinesOf, markFile, Table.lookup_alter, decide_true, if_true]
  cases db.logFiles.lookup fileID <;> rfl

variable {row : LogFileRow}

theorem keyed_importStart (hsession : db.logSessions.lookup row.sessionID ≠ none) :
    Keyed row.sessionID fileID (importStart fileID row now db) := by
  obtain ⟨session, hsession⟩ := Option.ne_none_iff_exists'.1 hsession
  constructor
  · simp [importStart, markSession, withFile, hsession]
  · simp [importStart, markSession, withFile]

/-- A file whose batches have come in so far has the number of lines that it was given. -/
theorem totalLinesOf_inserted (hsession : db.logSessions.lookup row.sessionID ≠ none)
    (batches : List (List ParsedLine)) : totalLinesOf fileID
      (inserted row.sessionID fileID serviceName nodeName batches (importStart fileID row now db)) =
        some row.totalLines := by
  rw [totalLinesOf, (inserted_standing batches _ (keyed_importStart hsession)).logFiles]
  simp [importStart, markSession, withFile]

theorem stores_inserted (hsession : db.logSessions.lookup row.sessionID ≠ none) (batches : List (List ParsedLine)) :
    Stores row.sessionID fileID serviceName nodeName batches.flatten db
      (inserted row.sessionID fileID serviceName nodeName batches (importStart fileID row now db)) := by
  have hstart : SameTables db (importStart fileID row now db) := ⟨rfl, rfl, rfl⟩
  exact (inserted_stores batches _ (keyed_importStart hsession)).before hstart

theorem runWhere_importFile {upload : Upload} (hinsert : insertFile fileID row db = some (withFile fileID row db)) :
    (importFile parseLogLine fileID batchError row upload).runWhere (Command.takes parseLogLine)
        (Command.exec parseLogLine now) db =
      (sendBatches row.sessionID fileID row.serviceName row.nodeName batchError (finishImport fileID row)
        (finishImport fileID row upload.lines.length upload.scanError) (upload.batches parseLogLine)).runWhere
          (Command.takes parseLogLine) (Command.exec parseLogLine now) (importStart fileID row now db) := by
  rw [importFile_eq, runWhere_demandFile hinsert, demand, Prog.runWhere_taken rfl]
  rfl

/-- What an import leaves: all lines if they can be stored, else the batches in front of the first that cannot,
and no number of lines. -/
theorem importFile_stores (parseLogLine : LineParser) (now : Nat) (batchError : Text) {upload : Upload}
    (hsession : db.logSessions.lookup row.sessionID ≠ none)
    (hinsert : insertFile fileID row db = some (withFile fileID row db)) (hscan : upload.scanError = none) :
    ∃ db', ((importFile parseLogLine fileID batchError row upload).runWhere (Command.takes parseLogLine)
        (Command.exec parseLogLine now) db).2 = db' ∧
      ((∀ line ∈ parsedRows parseLogLine 0 none upload.lines, line.Storable) ∧
          Stores row.sessionID fileID row.serviceName row.nodeName (parsedRows parseLogLine 0 none upload.lines) db db' ∧
          totalLinesOf fileID db' = some upload.lines.length ∨
        (∃ line ∈ parsedRows parseLogLine 0 none upload.lines, ¬line.Storable) ∧
          totalLinesOf fileID db' = some row.totalLines ∧
          ∃ front, (∀ line ∈ front, line ∈ parsedRows parseLogLine 0 none upload.lines ∧ line.Storable) ∧
            Stores row.sessionID fileID row.serviceName row.nodeName front db db') := by
  have hflat : (upload.batches parseLogLine).flatten = parsedRows parseLogLine 0 none upload.lines := by
    rw [Upload.batches, hscan, flatten_batchesOf]
    rfl
  have hmem : ∀ batch ∈ upload.batches parseLogLine, ∀ line ∈ batch,
      line ∈ parsedRows parseLogLine 0 none upload.lines := by
    intro batch hbatch line hline
    rw [← hflat]
    exact List.mem_flatten.2 ⟨batch, hbatch, hline⟩
  refine ⟨_, rfl, ?_⟩
  rw [runWhere_importFile hinsert]
  rcases runWhere_sendBatches parseLogLine now row.serviceName row.nodeName batchError (finishImport fileID row)
      (finishImport fileID row upload.lines.length upload.scanError) (upload.batches parseLogLine) _
      (keyed_importStart hsession) with
    ⟨hall, hrun⟩ | ⟨⟨batch, hbatch, line, hline, hbad⟩, number, count, hfront, hrun⟩
  · rw [hrun, hscan]
    refine Or.inl ⟨?_, ?_, ?_⟩
    · rw [← hflat]
      intro line hline
      obtain ⟨batch, hbatch, hline⟩ := List.mem_flatten.1 hline
      exact hall batch hbatch line hline
    · rw [← hflat]
      exact (stores_inserted hsession _).after ⟨rfl, rfl, rfl⟩
    · have hmarked := totalLinesOf_markFile fileID "done".toList (fun _ => upload.lines.length)
        (inserted row.sessionID fileID row.serviceName row.nodeName (upload.batches parseLogLine)
          (importStart fileID row now db))
      rw [totalLinesOf_inserted hsession] at hmarked
      exact hmarked
  · rw [hrun]
    refine Or.inr ⟨⟨line, hmem batch hbatch line hline, hbad⟩, ?_, _, ?_,
      (stores_inserted hsession ((upload.batches parseLogLine).take count)).after ⟨rfl, rfl, rfl⟩⟩
    · have hmarked := totalLinesOf_markFile fileID "failed".toList id
        (inserted row.sessionID fileID row.serviceName row.nodeName ((upload.batches parseLogLine).take count)
          (importStart fileID row now db))
      rw [totalLinesOf_inserted hsession] at hmarked
      exact hmarked
    · intro line hline
      obtain ⟨batch, hbatch, hline⟩ := List.mem_flatten.1 hline
      exact ⟨hmem batch (List.mem_of_mem_take hbatch) line hline, hfront batch hbatch line hline⟩

/-! ## The tail -/

theorem Admits.of_owner {db' : Db} (h : Admits actor sessionID db)
    (howner : ∀ row, db.logSessions.lookup sessionID = some row →
      ∃ row', db'.logSessions.lookup sessionID = some row' ∧ row'.owner = row.owner) :
    Admits actor sessionID db' := by
  obtain ⟨session, hauthorize⟩ := h
  have hdisabled := (authorize_found hauthorize).1
  obtain ⟨row, hrow, -, haccess⟩ := (authorize_iff hdisabled).1 hauthorize
  obtain ⟨row', hrow', howner⟩ := howner row hrow
  rw [← howner] at haccess
  exact ⟨_, (authorize_iff hdisabled).2 ⟨row', hrow', rfl, haccess⟩⟩

theorem Admits.markSession {db' : Db} (h : Admits actor sessionID db) (hsame : db'.logSessions = db.logSessions)
    (status : Text) (errorMessage : Option Text) :
    Admits actor sessionID (Logs.markSession sessionID status errorMessage now db') := by
  apply h.of_owner
  intro row hrow
  refine ⟨{ row with status := status, errorMessage := errorMessage, updatedAt := now }, ?_, rfl⟩
  simp [Logs.markSession, hsame, hrow]

/-- Sorted downwards, a list begins with the element of the greatest key. -/
theorem head?_mergeSort_greatest {β : Type} (key : β → Nat) {l : List β} {e : β} (hmem : e ∈ l)
    (hgreatest : ∀ other ∈ l, other = e ∨ key other < key e) :
    (l.mergeSort fun a b => key b ≤ key a).head? = some e := by
  have hperm := List.mergeSort_perm l fun a b => decide (key b ≤ key a)
  have hsorted : (l.mergeSort fun a b => key b ≤ key a).Pairwise fun a b => decide (key b ≤ key a) = true := by
    apply List.pairwise_mergeSort
    · intro a b c
      simp only [decide_eq_true_eq]
      omega
    · intro a b
      simp only [Bool.or_eq_true, decide_eq_true_eq]
      omega
  cases hsort : l.mergeSort fun a b => key b ≤ key a with
  | nil =>
    rw [hsort] at hperm
    rw [hperm.symm.eq_nil] at hmem
    cases hmem
  | cons first more =>
    rw [hsort] at hperm hsorted
    rw [List.head?_cons]
    rcases hgreatest first (hperm.mem_iff.1 List.mem_cons_self) with rfl | hless
    · rfl
    rcases List.mem_cons.1 (hperm.mem_iff.2 hmem) with rfl | hlater
    · rfl
    · -- what comes later has no greater key
      have hle := of_decide_eq_true ((List.pairwise_cons.1 hsorted).1 e hlater)
      omega

/-- The line with the greatest number is the one whose timestamp is found. -/
theorem previousTimestamp_last {e : LogEntryRow} {rest : List LogEntryRow} (hrows : db.logEntries.rows = e :: rest)
    (hsession : e.sessionID = sessionID) (hfile : e.sourceFileID = fileID)
    (hless : ∀ other ∈ rest, other.sourceFileID = fileID → other.lineNumber < e.lineNumber) :
    previousTimestamp sessionID fileID db = e.timestampMs := by
  rw [previousTimestamp, hrows, head?_mergeSort_greatest LogEntryRow.lineNumber (e := e), Option.bind_some]
  · simp [hsession, hfile]
  · intro other hother
    obtain ⟨hmem, hkeys⟩ := List.mem_filter.1 hother
    rw [Bool.and_eq_true, decide_eq_true_eq, decide_eq_true_eq] at hkeys
    rcases List.mem_cons.1 hmem with rfl | hrest
    · exact Or.inl rfl
    · exact Or.inr (hless other hrest hkeys.2)

/-- A tail file with some lines, of which the last one has some timestamp. -/
structure TailAt (actor : Principal) (sessionID fileID serviceName nodeName : Text) (number : Nat) (last : Option Int)
    (db : Db) : Prop where
  admits : Admits actor sessionID db
  file : ∃ row, db.logFiles.lookup fileID = some row ∧ row.sessionID = sessionID ∧ row.serviceName = serviceName ∧
    row.nodeName = nodeName ∧ row.totalLines = number
  previous : previousTimestamp sessionID fileID db = last
  numbers : ∀ e ∈ db.logEntries.rows, e.sourceFileID = fileID → e.lineNumber ≤ number

/-- Lines that are appended one by one, each at its time. -/
def appendTailLines (parseLogLine : LineParser) (actor : Principal) (sessionID fileID : Text)
    (appends : List (Nat × Text)) (db : Db) : Db :=
  appends.foldl (fun db append => ((appendTail actor sessionID fileID append.2).runWhere
    (Command.takes parseLogLine) (Command.exec parseLogLine append.1) db).2) db

theorem runWhere_appendTail {raw : Text} (hadmits : Admits actor sessionID db) :
    ((appendTail actor sessionID fileID raw).runWhere (Command.takes parseLogLine) (Command.exec parseLogLine now) db).2 =
      if Command.takes parseLogLine (.appendLine sessionID fileID raw) db then
        ((Command.appendLine sessionID fileID raw).exec parseLogLine now db).2
      else db := by
  obtain ⟨session, hid, hrun⟩ := runWhere_authorized parseLogLine now Unit hadmits
  rw [appendTail, hrun, hid]
  split
  · next htaken =>
      rw [Prog.runWhere_taken htaken]
      rfl
  · next hrefused =>
      rw [Prog.runWhere_refused (Bool.eq_false_iff.2 hrefused)]
      rfl

/-- A line that can be stored gets the next number and the timestamp behind the last one. -/
theorem TailAt.appendRaw_ok (parseLogLine : LineParser) (now : Nat) {number : Nat} {last : Option Int} {raw : Text}
    (hclean : CleanLine raw) (h : TailAt actor sessionID fileID serviceName nodeName number last db) :
    ∃ db', insertBatch sessionID fileID serviceName nodeName [(parseLogLine raw last).row raw (number + 1)] db =
        some db' ∧ SameStanding db db' ∧
      appendRaw parseLogLine sessionID fileID raw now db =
        .ok (markSession sessionID "ready".toList none now (markFile fileID "done".toList (· + 1) db')) := by
  obtain ⟨file, hfile, hsession, hservice, hnode, htotal⟩ := h.file
  have hkeyed : Keyed sessionID fileID db :=
    ⟨Option.isSome_iff_exists.2 h.admits.session, Option.isSome_iff_exists.2 ⟨file, hfile⟩⟩
  obtain ⟨db', hexec, hsame⟩ := insertBatch_keyed serviceName nodeName
    [(parseLogLine raw last).row raw (number + 1)] hkeyed
  refine ⟨db', hexec, hsame, ?_⟩
  have hnumbered : ({ (parseLogLine raw last).row raw 0 with lineNumber := file.totalLines + 1 } : ParsedLine) =
      (parseLogLine raw last).row raw (number + 1) := by rw [htotal]; rfl
  simp only [appendRaw, appendTailLine, hclean.trimLine, h.previous, hfile, hsession, ne_eq, not_true_eq_false,
    if_false, hnumbered, hservice, hnode, hexec]

/-- A line of a tail: it comes behind the others, or it is refused. -/
theorem TailAt.append (parseLogLine : LineParser) (now : Nat) {number : Nat} {last : Option Int} {raw : Text}
    (hclean : CleanLine raw)
    (h : TailAt actor sessionID fileID serviceName nodeName number last db) :
    ∃ db', ((appendTail actor sessionID fileID raw).runWhere (Command.takes parseLogLine)
        (Command.exec parseLogLine now) db).2 = db' ∧
      (((parseLogLine raw last).row raw (number + 1)).Storable ∧
          TailAt actor sessionID fileID serviceName nodeName (number + 1) (parseLogLine raw last).timestampMs db' ∧
          Stores sessionID fileID serviceName nodeName [(parseLogLine raw last).row raw (number + 1)] db db' ∨
        ¬((parseLogLine raw last).row raw (number + 1)).Storable ∧ db' = db) := by
  obtain ⟨file, hfile, hsession, hservice, hnode, htotal⟩ := h.file
  refine ⟨_, rfl, ?_⟩
  rw [runWhere_appendTail h.admits, Command.takes, hclean.trimLine, h.previous]
  by_cases hstorable : ((parseLogLine raw last).row raw (number + 1)).Storable
  · have htaken : ((parseLogLine raw last).row raw 0).Storable := hstorable
    rw [if_pos (by simp [htaken])]
    obtain ⟨db', hexec, hsame, happend⟩ := h.appendRaw_ok parseLogLine now hclean
    have hstores : Stores sessionID fileID serviceName nodeName [(parseLogLine raw last).row raw (number + 1)] db
        (markSession sessionID "ready".toList none now (markFile fileID "done".toList (· + 1) db')) :=
      (insertBatch_stores hexec).after ⟨rfl, rfl, rfl⟩
    rw [Command.exec, happend]
    refine Or.inl ⟨hstorable, ⟨?_, ?_, ?_, ?_⟩, hstores⟩
    · have hsessions : (markFile fileID "done".toList (· + 1) db').logSessions = db.logSessions := hsame.logSessions
      exact h.admits.markSession hsessions _ _
    · refine ⟨{ file with parseStatus := "done".toList, totalLines := file.totalLines + 1 }, ?_, hsession, hservice,
        hnode, by rw [htotal]⟩
      simp [markSession, markFile, hsame.logFiles, hfile]
    · -- the new line has a greater number than those before
      refine previousTimestamp_last hstores.rows rfl rfl ?_
      intro other hother hsource
      exact Nat.lt_succ_of_le (h.numbers other hother hsource)
    · rw [hstores.rows]
      intro e he hsource
      rcases List.mem_cons.1 he with rfl | hold
      · exact le_refl _
      · exact Nat.le_succ_of_le (h.numbers e hold hsource)
  · have hrefused : ¬((parseLogLine raw last).row raw 0).Storable := hstorable
    rw [if_neg (by simp [hrefused, hfile])]
    exact Or.inr ⟨hstorable, rfl⟩

/-- The message of the line has no NUL. -/
def LineParser.Stores (parse : LineParser) (raw : Text) : Prop := Char.ofNat 0 ∉ (parse raw none).message

instance (parse : LineParser) (raw : Text) : Decidable (parse.Stores raw) := inferInstanceAs (Decidable (_ ∉ _))

/-- What a parser must have in common with `ParseLogLine`. -/
structure LineParser.Regular (parse : LineParser) : Prop where
  fallsBack : parse.FallsBack
  level : ∀ line last, Char.ofNat 0 ∉ (parse line last).level

theorem LineParser.Regular.storable_row (h : parseLogLine.Regular) {raw : Text} (hclean : CleanLine raw)
    (last : Option Int) (number : Nat) :
    ((parseLogLine raw last).row raw number).Storable ↔ parseLogLine.Stores raw := by
  have hmessage : (parseLogLine raw last).message = (parseLogLine raw none).message := by
    rw [h.fallsBack raw last, message_withFallback]
  simp only [ParsedLine.Storable, LineParse.row, List.forall_mem_cons, hmessage, LineParser.Stores]
  by_cases hempty : (parseLogLine raw none).message = []
  · simp [hempty, h.level, hclean.nul]
  · simp [hempty, h.level, hclean.nul]

theorem LineParser.FallsBack.or_last (h : parseLogLine.FallsBack) (raw : Text) (last : Option Int) :
    (parseLogLine raw last).timestampMs.or last = (parseLogLine raw last).timestampMs := by
  rw [h raw last, timestampMs_withFallback]
  cases (parseLogLine raw none).timestampMs <;> cases last <;> rfl

/-- A tail takes the lines that can be stored, as if there were no others. -/
theorem TailAt.appendLines (hregular : parseLogLine.Regular) (appends : List (Nat × Text)) :
    ∀ (number : Nat) (last : Option Int) (db : Db), (∀ append ∈ appends, CleanLine append.2) →
    TailAt actor sessionID fileID serviceName nodeName number last db →
    Stores sessionID fileID serviceName nodeName
        (parsedRows parseLogLine number last ((appends.map Prod.snd).filter fun raw => parseLogLine.Stores raw)) db
        (appendTailLines parseLogLine actor sessionID fileID appends db) ∧
      totalLinesOf fileID (appendTailLines parseLogLine actor sessionID fileID appends db) =
        some (number + ((appends.map Prod.snd).filter fun raw => parseLogLine.Stores raw).length) := by
  induction appends with
  | nil =>
    intro number last db _ h
    obtain ⟨file, hfile, -, -, -, htotal⟩ := h.file
    refine ⟨Stores.of_same (SameTables.refl db), ?_⟩
    simp [totalLinesOf, appendTailLines, hfile, htotal]
  | cons append rest ih =>
    intro number last db hclean h
    obtain ⟨hfirst, hrest⟩ := List.forall_mem_cons.1 hclean
    obtain ⟨db', hrun, hcase⟩ := h.append parseLogLine append.1 hfirst
    rw [appendTailLines, List.foldl_cons, hrun, ← appendTailLines, List.map_cons]
    rw [hregular.storable_row hfirst] at hcase
    rcases hcase with ⟨hstorable, htail, hstores⟩ | ⟨hrefused, rfl⟩
    · obtain ⟨hall, htotal⟩ := ih _ _ db' hrest htail
      rw [List.filter_cons_of_pos (by simpa using hstorable), parsedRows, hregular.fallsBack.or_last,
        List.length_cons, htotal]
      refine ⟨hstores.trans hall, ?_⟩
      congr 1
      omega
    · rw [List.filter_cons_of_neg (by simpa using hrefused)]
      exact ih _ _ db' hrest h

end

/-! ## The same lines on both ways -/

/-- The row that `CreateTailFile` inserts. -/
def tailFileRow (sessionID remotePath serviceName nodeName : Text) : LogFileRow :=
  let originalName :=
    if base (trimSpace remotePath) = ['.'] ∨ base (trimSpace remotePath) = ['/'] then "remote.log".toList
    else base (trimSpace remotePath)
  let names := serviceNode serviceName nodeName originalName
  ⟨sessionID, names.1, names.2, originalName, trimSpace remotePath, 0, "done".toList, "ssh_tail".toList⟩

/-- The entries of a file, but for the id of the file. -/
def entriesOf (fileID : Text) (db : Db) : List LogEntryRow :=
  (db.logEntries.rows.filter fun e => e.sourceFileID = fileID).map fun e => { e with sourceFileID := [] }

/-- An imported file in one state and a tailed one in another have the same entries, and what the states count
is the same. -/
structure SameImport (importID tailID : Text) (a b : Db) : Prop where
  entries : entriesOf importID a = entriesOf tailID b
  totalLines : totalLinesOf importID a = totalLinesOf tailID b
  scopes : ∀ key, a.logScopeStats.lookup key = b.logScopeStats.lookup key
  buckets : ∀ key, a.logTimeBuckets.lookup key = b.logTimeBuckets.lookup key

section

variable {parseLogLine : LineParser} {now : Nat} {actor : Principal} {input : AddFileInput} {upload : Upload}
  {sessionID fileID importID tailID serviceName nodeName storagePath remotePath batchError : Text} {db : Db}

theorem runWhere_addFile (hadmits : Admits actor sessionID db) (hstored : input.Stored upload storagePath) :
    (addFile parseLogLine fileID batchError actor sessionID input).runWhere (Command.takes parseLogLine)
        (Command.exec parseLogLine now) db =
      (importFile parseLogLine fileID batchError (input.row sessionID storagePath) upload).runWhere
        (Command.takes parseLogLine) (Command.exec parseLogLine now) db := by
  obtain ⟨session, hid, hrun⟩ := runWhere_authorized parseLogLine now SourceFile hadmits
  rw [addFile_eq, hrun, hid]
  simp only [hstored.1, hstored.2]

theorem runWhere_createTailFile (hadmits : Admits actor sessionID db) (hpath : PathAccepted remotePath)
    (hfresh : db.logFiles.lookup fileID = none) :
    ((createTailFile fileID actor sessionID remotePath serviceName nodeName).runWhere (Command.takes parseLogLine)
        (Command.exec parseLogLine now) db).2 =
      markSession sessionID "ready".toList none now
        (withFile fileID (tailFileRow sessionID remotePath serviceName nodeName) db) := by
  obtain ⟨session, hid, hrun⟩ := runWhere_authorized parseLogLine now SourceFile hadmits
  have hinsert : insertFile fileID (tailFileRow sessionID remotePath serviceName nodeName) db =
      some (withFile fileID (tailFileRow sessionID remotePath serviceName nodeName) db) :=
    insertFile_fresh hfresh hadmits.session (List.mem_cons_of_mem _ List.mem_cons_self)
  rw [createTailFile, hrun]
  dsimp only
  rw [if_neg hpath.not_rejected, hid]
  change (Prog.runWhere _ _ (demandFile fileID (tailFileRow sessionID remotePath serviceName nodeName) _) db).2 = _
  rw [runWhere_demandFile hinsert, demand, Prog.runWhere_taken rfl]
  rfl

/-- The entries of a file whose lines have come in. -/
theorem entriesOf_stores {lines : List ParsedLine} {db' : Db}
    (h : Stores sessionID fileID serviceName nodeName lines db db')
    (hnone : ∀ e ∈ db.logEntries.rows, e.sourceFileID ≠ fileID) :
    entriesOf fileID db' = (lines.map (lineEntry sessionID [] serviceName nodeName)).reverse := by
  have hold : db.logEntries.rows.filter (fun e => e.sourceFileID = fileID) = [] := by
    rw [List.filter_eq_nil_iff]
    intro e he
    simpa using hnone e he
  have hnew : ((lines.map (lineEntry sessionID fileID serviceName nodeName)).reverse).filter
      (fun e => e.sourceFileID = fileID) = (lines.map (lineEntry sessionID fileID serviceName nodeName)).reverse := by
    rw [List.filter_eq_self]
    intro e he
    obtain ⟨line, -, rfl⟩ := List.mem_map.1 (List.mem_reverse.1 he)
    exact decide_eq_true rfl
  rw [entriesOf, h.rows, List.filter_append, hold, hnew, List.append_nil, List.map_reverse, List.map_map]
  rfl

/-- The same lines in two files. -/
theorem Stores.sameImport {lines : List ParsedLine} {a b : Db}
    (himport : Stores sessionID importID serviceName nodeName lines db a)
    (htail : Stores sessionID tailID serviceName nodeName lines db b)
    (hnoImport : ∀ e ∈ db.logEntries.rows, e.sourceFileID ≠ importID)
    (hnoTail : ∀ e ∈ db.logEntries.rows, e.sourceFileID ≠ tailID)
    (htotal : totalLinesOf importID a = totalLinesOf tailID b) : SameImport importID tailID a b := by
  constructor
  · rw [entriesOf_stores himport hnoImport, entriesOf_stores htail hnoTail]
  · exact htotal
  · intro key
    rw [himport.scopes, htail.scopes]
  · intro key
    rw [himport.buckets, htail.buckets]

theorem previousTimestamp_none (hnone : ∀ e ∈ db.logEntries.rows, e.sourceFileID ≠ fileID) :
    previousTimestamp sessionID fileID db = none := by
  have hfilter : db.logEntries.rows.filter (fun e => e.sessionID = sessionID && e.sourceFileID = fileID) = [] := by
    rw [List.filter_eq_nil_iff]
    intro e he
    simp [hnone e he]
  rw [previousTimestamp, hfilter, List.mergeSort_nil]
  rfl

/-- A new file is a tail file without lines. -/
theorem tailAt_createTailFile (now : Nat) (remotePath serviceName nodeName : Text) (hadmits : Admits actor sessionID db)
    (hnone : ∀ e ∈ db.logEntries.rows, e.sourceFileID ≠ fileID) :
    TailAt actor sessionID fileID (tailFileRow sessionID remotePath serviceName nodeName).serviceName
      (tailFileRow sessionID remotePath serviceName nodeName).nodeName 0 none
      (markSession sessionID "ready".toList none now
        (withFile fileID (tailFileRow sessionID remotePath serviceName nodeName) db)) := by
  have hsessions : (withFile fileID (tailFileRow sessionID remotePath serviceName nodeName) db).logSessions =
      db.logSessions := rfl
  refine ⟨hadmits.markSession hsessions _ _,
    ⟨tailFileRow sessionID remotePath serviceName nodeName, ?_, rfl, rfl, rfl, rfl⟩,
    previousTimestamp_none hnone, fun e he hsource => absurd hsource (hnone e he)⟩
  simp [markSession, withFile]

/-- A row can be stored if its line can. -/
theorem storable_parsedRows (hregular : parseLogLine.Regular) {lines : List Text}
    (hclean : ∀ line ∈ lines, CleanLine line) : ∀ number last,
    (parsedRows parseLogLine number last lines).map (fun line => decide line.Storable) =
      lines.map fun raw => decide (parseLogLine.Stores raw) := by
  induction lines with
  | nil => exact fun _ _ => rfl
  | cons raw rest ih =>
    intro number last
    obtain ⟨hfirst, hrest⟩ := List.forall_mem_cons.1 hclean
    rw [parsedRows, List.map_cons, List.map_cons, ih hrest]
    simp only [hregular.storable_row hfirst]

/-- What holds of the rows holds of the lines. -/
theorem forall_parsedRows_iff (hregular : parseLogLine.Regular) {lines : List Text}
    (hclean : ∀ line ∈ lines, CleanLine line) (p : Bool → Prop) :
    (∀ line ∈ parsedRows parseLogLine 0 none lines, p (decide line.Storable)) ↔
      ∀ raw ∈ lines, p (decide (parseLogLine.Stores raw)) := by
  rw [← List.forall_mem_map, storable_parsedRows hregular hclean, List.forall_mem_map]

theorem forall_storable_iff (hregular : parseLogLine.Regular) {lines : List Text}
    (hclean : ∀ line ∈ lines, CleanLine line) :
    (∀ line ∈ parsedRows parseLogLine 0 none lines, line.Storable) ↔ ∀ raw ∈ lines, parseLogLine.Stores raw := by
  have hrows := forall_parsedRows_iff hregular hclean fun b => b = true
  simp only [decide_eq_true_eq] at hrows
  exact hrows

theorem forall_not_storable_iff (hregular : parseLogLine.Regular) {lines : List Text}
    (hclean : ∀ line ∈ lines, CleanLine line) :
    (∀ line ∈ parsedRows parseLogLine 0 none lines, ¬line.Storable) ↔ ∀ raw ∈ lines, ¬parseLogLine.Stores raw := by
  have hrows := forall_parsedRows_iff hregular hclean fun b => b = false
  simp only [decide_eq_false_iff_not] at hrows
  exact hrows

/-- **An import and a tail of the same lines come to the same, just if all of the lines can be stored or none.** -/
theorem sameImport_iff (hregular : parseLogLine.Regular) (hadmits : Admits actor sessionID db)
    (himport : db.logFiles.lookup importID = none) (htail : db.logFiles.lookup tailID = none)
    (hnoImport : ∀ e ∈ db.logEntries.rows, e.sourceFileID ≠ importID)
    (hnoTail : ∀ e ∈ db.logEntries.rows, e.sourceFileID ≠ tailID)
    (hstored : input.Stored upload storagePath) (hscan : upload.scanError = none)
    (hclean : ∀ line ∈ upload.lines, CleanLine line) (hpath : PathAccepted remotePath)
    (hnames : (tailFileRow sessionID remotePath serviceName nodeName).serviceName =
        (input.row sessionID storagePath).serviceName ∧
      (tailFileRow sessionID remotePath serviceName nodeName).nodeName = (input.row sessionID storagePath).nodeName)
    {appends : List (Nat × Text)} (happends : appends.map Prod.snd = upload.lines) (now created : Nat)
    (batchError : Text) :
    SameImport importID tailID
        ((addFile parseLogLine importID batchError actor sessionID input).runWhere (Command.takes parseLogLine)
          (Command.exec parseLogLine now) db).2
        (appendTailLines parseLogLine actor sessionID tailID appends
          ((createTailFile tailID actor sessionID remotePath serviceName nodeName).runWhere
            (Command.takes parseLogLine) (Command.exec parseLogLine created) db).2) ↔
      (∀ line ∈ upload.lines, parseLogLine.Stores line) ∨ ∀ line ∈ upload.lines, ¬parseLogLine.Stores line := by
  have hinsert : insertFile importID (input.row sessionID storagePath) db =
      some (withFile importID (input.row sessionID storagePath) db) :=
    insertFile_fresh himport hadmits.session List.mem_cons_self
  obtain ⟨a, himported, hcase⟩ :=
    importFile_stores parseLogLine now batchError (Option.ne_none_iff_exists'.2 hadmits.session) hinsert hscan
  have hall := forall_storable_iff hregular hclean
  have hnone := forall_not_storable_iff hregular hclean
  -- the tail begins with an empty file, and takes what can be stored
  have hcleanAppends : ∀ append ∈ appends, CleanLine append.2 := fun append happend =>
    hclean _ (happends ▸ List.mem_map_of_mem happend)
  obtain ⟨htailStores, htailTotal⟩ :=
    (tailAt_createTailFile created remotePath serviceName nodeName hadmits hnoTail).appendLines hregular appends 0 none
      _ hcleanAppends
  have hstart : SameTables db (markSession sessionID "ready".toList none created
      (withFile tailID (tailFileRow sessionID remotePath serviceName nodeName) db)) := ⟨rfl, rfl, rfl⟩
  replace htailStores := htailStores.before hstart
  rw [happends, Nat.zero_add] at htailTotal
  rw [happends, hnames.1, hnames.2] at htailStores
  rw [runWhere_addFile hadmits hstored, himported, runWhere_createTailFile hadmits hpath htail]
  rcases hcase with ⟨hgood, hstores, htotal⟩ | ⟨hbad, htotal, front, hfront, hstores⟩
  · -- every line can be stored
    have hkept := hall.1 hgood
    refine iff_of_true ?_ (Or.inl hkept)
    have hfilter : upload.lines.filter (fun raw => parseLogLine.Stores raw) = upload.lines :=
      List.filter_eq_self.2 fun raw hraw => decide_eq_true (hkept raw hraw)
    rw [hfilter] at htailStores htailTotal
    exact hstores.sameImport htailStores hnoImport hnoTail (htotal.trans htailTotal.symm)
  · have hnotAll : ¬∀ raw ∈ upload.lines, parseLogLine.Stores raw := by
      rw [← hall]
      obtain ⟨line, hline, hbad⟩ := hbad
      exact fun hgood => hbad (hgood line hline)
    rw [or_iff_right hnotAll]
    constructor
    · -- the import says nothing of its lines, so the tail can have none
      intro hsame raw hraw hkept
      have hcount := hsame.totalLines
      rw [htotal, htailTotal, Option.some.injEq] at hcount
      have hempty := List.eq_nil_of_length_eq_zero hcount.symm
      have hmem : raw ∈ upload.lines.filter fun raw => parseLogLine.Stores raw :=
        List.mem_filter.2 ⟨hraw, decide_eq_true hkept⟩
      rw [hempty] at hmem
      cases hmem
    · intro hrefused
      have hfilter : upload.lines.filter (fun raw => parseLogLine.Stores raw) = [] :=
        List.filter_eq_nil_iff.2 fun raw hraw => by simpa using hrefused raw hraw
      have hfrontNil : front = [] := by
        rw [List.eq_nil_iff_forall_not_mem]
        intro line hline
        exact hnone.2 hrefused line (hfront line hline).1 (hfront line hline).2
      rw [hfilter] at htailStores htailTotal
      rw [hfrontNil] at hstores
      exact hstores.sameImport htailStores hnoImport hnoTail (htotal.trans htailTotal.symm)

end

/-! ## `ParseLogLine` -/

theorem parseLogLine_regular (rt : LineRuntime) : (parseLogLine rt).Regular := by
  refine ⟨parseLogLine_fallsBack rt, ?_⟩
  intro line last
  have hlevels : ∀ level ∈ levels, Char.ofNat 0 ∉ level := by decide
  exact hlevels _ (level_parseLogLine rt line last)

/-- A file that has not come in yet has neither a row nor entries. -/
theorem fresh_file {env : World.Env} {w : World} (hreach : World.Reachable env w) {fileID : Text}
    (hfresh : w.uploads.lookup fileID = none) :
    w.db.logFiles.lookup fileID = none ∧ ∀ e ∈ w.db.logEntries.rows, e.sourceFileID ≠ fileID := by
  have hfile : w.db.logFiles.lookup fileID = none := by
    cases hrow : w.db.logFiles.lookup fileID with
    | none => rfl
    | some row =>
      have hupload := hreach.consistent.files _ _ hrow
      rw [hfresh] at hupload
      cases hupload
  refine ⟨hfile, ?_⟩
  rintro e he rfl
  obtain ⟨⟨id, row⟩, hmem, rfl⟩ := List.mem_map.1 he
  obtain ⟨file, hlookup, -⟩ := hreach.consistent.entries _ _ (Table.mem_entries.1 hmem)
  rw [hfile] at hlookup
  cases hlookup

/-- The two ways from a state of the stores, for a file that the scanner reads to its end. -/
theorem sameImport_reachable_iff {parseLogLine : LineParser} (hregular : parseLogLine.Regular) {env : World.Env}
    {w : World} (hreach : World.Reachable env w) {actor : Principal} {sessionID importID tailID : Text}
    (hadmits : Admits actor sessionID w.db) (himport : w.uploads.lookup importID = none)
    (htail : w.uploads.lookup tailID = none) {lines : List Text}
    (hlines : ∀ line ∈ lines, CleanLine line ∧ byteLength line < scanLimit) {input : AddFileInput} {storagePath : Text}
    (hreader : input.reader = some (.ofContent storagePath (lines.flatMap fun line => line ++ ['\n'])))
    {remotePath serviceName nodeName : Text} (hpath : PathAccepted remotePath)
    (hnames : (tailFileRow sessionID remotePath serviceName nodeName).serviceName =
        (input.row sessionID storagePath).serviceName ∧
      (tailFileRow sessionID remotePath serviceName nodeName).nodeName = (input.row sessionID storagePath).nodeName)
    (imported created : Nat) (batchError : Text) {appends : List (Nat × Text)}
    (happends : appends.map Prod.snd = lines) :
    SameImport importID tailID
        ((addFile parseLogLine importID batchError actor sessionID input).runWhere
          (Command.takes parseLogLine) (Command.exec parseLogLine imported) w.db).2
        (appendTailLines parseLogLine actor sessionID tailID appends
          ((createTailFile tailID actor sessionID remotePath serviceName nodeName).runWhere
            (Command.takes parseLogLine) (Command.exec parseLogLine created) w.db).2) ↔
      (∀ line ∈ lines, parseLogLine.Stores line) ∨ ∀ line ∈ lines, ¬parseLogLine.Stores line := by
  have hscan := scanLines_flatMap hlines
  have hupload : (Upload.ofContent storagePath (lines.flatMap fun line => line ++ ['\n'])).lines = lines := by
    rw [Upload.ofContent, hscan]
  have herror : (Upload.ofContent storagePath (lines.flatMap fun line => line ++ ['\n'])).scanError = none := by
    rw [Upload.ofContent, hscan]
    rfl
  obtain ⟨himportFile, hnoImport⟩ := fresh_file hreach himport
  obtain ⟨htailFile, hnoTail⟩ := fresh_file hreach htail
  have hclean : ∀ line ∈ (Upload.ofContent storagePath (lines.flatMap fun line => line ++ ['\n'])).lines,
      CleanLine line := by
    rw [hupload]
    exact fun line hline => (hlines line hline).1
  have hsame := sameImport_iff hregular hadmits himportFile htailFile hnoImport hnoTail
    ⟨hreader, rfl⟩ herror hclean hpath hnames (happends.trans hupload.symm) imported created batchError
  rwa [hupload] at hsame

/-- **`AddFile` of a file and `AppendTailLine` of its lines, from the same state, come to the same just if no line
has a message with a NUL, or every line.** -/
theorem import_equals_tail_iff (rt : LineRuntime) (env : World.Env) (w : World) (hreach : World.Reachable env w)
    (actor : Principal) (sessionID importID tailID : Text) (hadmits : Admits actor sessionID w.db)
    (himport : w.uploads.lookup importID = none) (htail : w.uploads.lookup tailID = none) (lines : List Text)
    (hlines : ∀ line ∈ lines, CleanLine line ∧ byteLength line < scanLimit) (input : AddFileInput) (storagePath : Text)
    (hreader : input.reader = some (.ofContent storagePath (lines.flatMap fun line => line ++ ['\n'])))
    (remotePath serviceName nodeName : Text) (hpath : PathAccepted remotePath)
    (hnames : (tailFileRow sessionID remotePath serviceName nodeName).serviceName =
        (input.row sessionID storagePath).serviceName ∧
      (tailFileRow sessionID remotePath serviceName nodeName).nodeName = (input.row sessionID storagePath).nodeName)
    (imported created : Nat) (batchError : Text) (appends : List (Nat × Text))
    (happends : appends.map Prod.snd = lines) :
    SameImport importID tailID
        ((addFile (parseLogLine rt) importID batchError actor sessionID input).runWhere
          (Command.takes (parseLogLine rt)) (Command.exec (parseLogLine rt) imported) w.db).2
        (appendTailLines (parseLogLine rt) actor sessionID tailID appends
          ((createTailFile tailID actor sessionID remotePath serviceName nodeName).runWhere
            (Command.takes (parseLogLine rt)) (Command.exec (parseLogLine rt) created) w.db).2) ↔
      (∀ line ∈ lines, Char.ofNat 0 ∉ (parseLogLine rt line none).message) ∨
        ∀ line ∈ lines, Char.ofNat 0 ∈ (parseLogLine rt line none).message := by
  have hsame := sameImport_reachable_iff (parseLogLine_regular rt) hreach hadmits himport htail hlines hreader hpath
    hnames imported created batchError happends
  simpa only [LineParser.Stores, not_not] using hsame

/-! ## A message with a NUL -/

/-- A JSON line whose message is an escaped NUL, and what `json.Unmarshal` makes of it. -/
def nulLine : Text := "\x7b\"msg\":\"\\u0000\"\x7d".toList

/-- A JSON line with a time. -/
def timedLine : Text := "\x7b\"time\":1714557600000,\"msg\":\"up\"\x7d".toList

def nulRuntime : LineRuntime :=
  ⟨fun _ _ => none, fun _ _ => none, fun line =>
    if line = nulLine then some [("msg".toList, .string [Char.ofNat 0])]
    else if line = timedLine then
      some [("time".toList, .float64 1714557600000 "1.7145576e+12".toList), ("msg".toList, .string "up".toList)]
    else none⟩

/-- The upload form with a file of these lines. -/
def formOf (lines : List Text) : AddFileInput :=
  ⟨"app.log".toList, "shop".toList, "n1".toList, [],
    some (.ofContent "/uploads/a".toList (lines.flatMap fun line => line ++ ['\n']))⟩

/-- The lines as a file, and one by one. -/
def importedShop (lines : List Text) : Db :=
  ((addFile (parseLogLine nulRuntime) "logfile_a".toList [] World.bobPrincipal "logs_a".toList (formOf lines)).runWhere
    (Command.takes (parseLogLine nulRuntime)) (Command.exec (parseLogLine nulRuntime) 3) World.oneSession.db).2

def tailedShop (lines : List Text) : Db :=
  appendTailLines (parseLogLine nulRuntime) World.bobPrincipal "logs_a".toList "logfile_b".toList
    (lines.map fun line => (4, line))
    ((createTailFile "logfile_b".toList World.bobPrincipal "logs_a".toList "/var/log/app.log".toList "shop".toList
      "n1".toList).runWhere (Command.takes (parseLogLine nulRuntime)) (Command.exec (parseLogLine nulRuntime) 3)
        World.oneSession.db).2

theorem cleanLine_up : CleanLine "up".toList ∧ byteLength "up".toList < scanLimit :=
  ⟨⟨by decide, by decide, by decide⟩, by decide⟩

theorem cleanLine_nulLine : CleanLine nulLine ∧ byteLength nulLine < scanLimit :=
  ⟨⟨by decide, by decide, by decide⟩, by decide⟩

theorem admits_oneSession : Admits World.bobPrincipal "logs_a".toList World.oneSession.db :=
  ⟨Logs.sessionOf "logs_a".toList World.bobSession 0 0, rfl⟩

theorem names_formOf (lines : List Text) :
    (tailFileRow "logs_a".toList "/var/log/app.log".toList "shop".toList "n1".toList).serviceName =
        ((formOf lines).row "logs_a".toList "/uploads/a".toList).serviceName ∧
      (tailFileRow "logs_a".toList "/var/log/app.log".toList "shop".toList "n1".toList).nodeName =
        ((formOf lines).row "logs_a".toList "/uploads/a".toList).nodeName := by
  exact ⟨rfl, rfl⟩

theorem pathAccepted_log : PathAccepted "/var/log/app.log".toList := ⟨rfl, by decide⟩

/-- The import of a line and one with a NUL in its message brings in nothing, the tail the first line. -/
theorem nul_message_fails_import :
    (∀ line ∈ ["up".toList, nulLine], CleanLine line) ∧ World.Reachable ⟨default, default⟩ World.oneSession ∧
      ¬SameImport "logfile_a".toList "logfile_b".toList (importedShop ["up".toList, nulLine])
        (tailedShop ["up".toList, nulLine]) := by
  have hlines : ∀ line ∈ ["up".toList, nulLine], CleanLine line ∧ byteLength line < scanLimit := by
    rw [List.forall_mem_cons, List.forall_mem_singleton]
    exact ⟨cleanLine_up, cleanLine_nulLine⟩
  refine ⟨fun line hline => (hlines line hline).1, World.reachable_oneSession, fun hsame => ?_⟩
  have hup : (parseLogLine nulRuntime).Stores "up".toList := by decide
  have hnul : ¬(parseLogLine nulRuntime).Stores nulLine := by decide
  rcases (sameImport_reachable_iff (parseLogLine_regular nulRuntime) World.reachable_oneSession admits_oneSession rfl
    rfl hlines rfl pathAccepted_log (names_formOf _) 3 3 [] rfl).1 hsame with hall | hnone
  · exact hnul (hall nulLine (by simp))
  · exact hnone "up".toList (by simp) hup

/-- A line with a timestamp, and two that take it over. -/
def upLines : List Text := [timedLine, "up".toList, "  at worker 3".toList]

/-- The timestamp is carried from line to line. -/
theorem import_equals_tail_up : ((parseLogLine nulRuntime) timedLine none).timestampMs =
      some 1714557600000 ∧
    ((parseLogLine nulRuntime) "  at worker 3".toList none).timestampMs = none ∧
    SameImport "logfile_a".toList "logfile_b".toList (importedShop upLines) (tailedShop upLines) := by
  have hlines : ∀ line ∈ upLines, CleanLine line ∧ byteLength line < scanLimit := by
    rw [upLines, List.forall_mem_cons, List.forall_mem_cons, List.forall_mem_singleton]
    exact ⟨⟨⟨by decide, by decide, by decide⟩, by decide⟩, cleanLine_up, ⟨⟨by decide, by decide, by decide⟩, by decide⟩⟩
  have hup : ∀ line ∈ upLines, Char.ofNat 0 ∉ (parseLogLine nulRuntime line none).message := by
    rw [upLines, List.forall_mem_cons, List.forall_mem_cons, List.forall_mem_singleton]
    exact ⟨by decide, by decide, by decide⟩
  refine ⟨by decide, by decide, ?_⟩
  exact (import_equals_tail_iff nulRuntime ⟨default, default⟩ World.oneSession World.reachable_oneSession
    World.bobPrincipal "logs_a".toList "logfile_a".toList "logfile_b".toList admits_oneSession rfl rfl upLines hlines
    (formOf upLines) "/uploads/a".toList rfl "/var/log/app.log".toList "shop".toList "n1".toList pathAccepted_log
    (names_formOf _) 3 3 [] (upLines.map fun line => (4, line)) (by decide)).2 (Or.inl hup)

end Workbench.Logs
