import Workbench.Logs.Calls
import Workbench.Storage.Deletion

/-!
# The status of a session and its files

`AddFile`, `CreateTailFile` and `AppendTailLine` of `api/internal/logs/store.go` each set the status of the
session from their own outcome. What they do to the statuses is told here delivery by delivery, and with it
which calls let a session be ready that has a file which is not done.
-/

set_option autoImplicit false

namespace Workbench.Logs

open Workbench.Lib Workbench.Storage
open Workbench.Identity (Principal)

/-! ## Statuses -/

/-- The statuses of the sessions, and the files with their sessions and statuses. -/
structure Standing where
  session : Text → Option Text
  file : Text → Option (Text × Text)

def standing (db : Db) : Standing where
  session id := (db.logSessions.lookup id).map LogSessionRow.status
  file id := (db.logFiles.lookup id).map fun row => (row.sessionID, row.parseStatus)

namespace Standing

/-- A session is ready only if every one of its files is done. -/
def Honest (s : Standing) : Prop :=
  ∀ sessionID, s.session sessionID = some "ready".toList →
    ∀ fileID parseStatus, s.file fileID = some (sessionID, parseStatus) → parseStatus = "done".toList

/-- The files of a session other than one are done. -/
def OthersDone (s : Standing) (sessionID fileID : Text) : Prop :=
  ∀ other parseStatus, other ≠ fileID → s.file other = some (sessionID, parseStatus) →
    parseStatus = "done".toList

def setSession (s : Standing) (id status : Text) : Standing :=
  { s with session := fun other => if other = id then some status else s.session other }

def setFile (s : Standing) (id sessionID parseStatus : Text) : Standing :=
  { s with file := fun other => if other = id then some (sessionID, parseStatus) else s.file other }

variable {s : Standing} {sessionID fileID status parseStatus : Text}

@[simp]
theorem session_setSession (id : Text) :
    (s.setSession sessionID status).session id = if id = sessionID then some status else s.session id :=
  rfl

@[simp]
theorem file_setSession (id : Text) : (s.setSession sessionID status).file id = s.file id := rfl

@[simp]
theorem file_setFile (id : Text) : (s.setFile fileID sessionID parseStatus).file id =
    if id = fileID then some (sessionID, parseStatus) else s.file id :=
  rfl

/-- A file alone: what counts is whether its session is ready. -/
theorem honest_setFile (h : s.Honest) : (s.setFile fileID sessionID parseStatus).Honest ↔
    (s.session sessionID = some "ready".toList → parseStatus = "done".toList) := by
  constructor
  · intro hafter hready
    exact hafter sessionID hready fileID parseStatus (by simp)
  · intro hdone id hready other otherStatus hother
    rw [file_setFile] at hother
    split at hother
    · obtain ⟨rfl, rfl⟩ := Prod.mk.inj (Option.some.inj hother)
      exact hdone hready
    · exact h id hready other otherStatus hother

/-- A file and its session together. -/
theorem honest_setBoth (h : s.Honest) :
    ((s.setFile fileID sessionID parseStatus).setSession sessionID status).Honest ↔
      (status = "ready".toList → parseStatus = "done".toList ∧ s.OthersDone sessionID fileID) := by
  constructor
  · rintro hafter rfl
    refine ⟨hafter sessionID (by simp) fileID parseStatus (by simp), fun other otherStatus hne hother => ?_⟩
    exact hafter sessionID (by simp) other otherStatus (by simp [hne, hother])
  · intro hdone id hready other otherStatus hother
    rw [session_setSession] at hready
    rw [file_setSession, file_setFile] at hother
    split at hready
    · next hid =>
        obtain ⟨hself, hothers⟩ := hdone (Option.some.inj hready)
        split at hother
        · rwa [← (Prod.mk.inj (Option.some.inj hother)).2]
        · next hne => exact hothers other otherStatus hne (hid ▸ hother)
    · next hid =>
        split at hother
        · exact absurd (Prod.mk.inj (Option.some.inj hother)).1.symm hid
        · exact h id hready other otherStatus hother

end Standing

/-! ## What statements do to the statuses -/

section

variable {db : Db} {sessionID fileID : Text}

theorem SameStanding.standing {a b : Db} (h : SameStanding a b) : standing b = standing a := by
  simp only [Logs.standing, h.logSessions, h.logFiles]

theorem standing_markSession (status : Text) (errorMessage : Option Text) (now : Nat)
    (hsession : ∃ row, db.logSessions.lookup sessionID = some row) :
    standing (markSession sessionID status errorMessage now db) =
      (standing db).setSession sessionID status := by
  obtain ⟨row, hrow⟩ := hsession
  simp only [standing, markSession, Standing.setSession, Table.lookup_alter, Standing.mk.injEq, and_true]
  funext id
  rcases eq_or_ne id sessionID with rfl | hid
  · simp [hrow]
  · simp [hid]

theorem standing_markFile (parseStatus : Text) (totalLines : Nat → Nat) {row : LogFileRow}
    (hfile : db.logFiles.lookup fileID = some row) :
    standing (markFile fileID parseStatus totalLines db) =
      (standing db).setFile fileID row.sessionID parseStatus := by
  simp only [standing, markFile, Standing.setFile, Table.lookup_alter, Standing.mk.injEq, true_and]
  funext id
  rcases eq_or_ne id fileID with rfl | hid
  · simp [hfile]
  · simp [hid]

theorem standing_withFile (row : LogFileRow) :
    standing (withFile fileID row db) = (standing db).setFile fileID row.sessionID row.parseStatus := by
  simp only [standing, withFile, Standing.setFile, Standing.mk.injEq, true_and]
  funext id
  rcases eq_or_ne id fileID with rfl | hid
  · simp
  · simp [hid, AList.lookup_insert_ne hid]

end

/-- A file and its session with their statuses, beside what is otherwise in `s`. -/
def Stands (s : Standing) (sessionID fileID status parseStatus : Text) (db : Db) : Prop :=
  standing db = (s.setFile fileID sessionID parseStatus).setSession sessionID status

namespace Stands

variable {s : Standing} {sessionID fileID status parseStatus : Text} {db : Db}

theorem session (h : Stands s sessionID fileID status parseStatus db) :
    ∃ row, db.logSessions.lookup sessionID = some row := by
  have hstatus : (standing db).session sessionID = some status := by
    rw [h]
    simp
  obtain ⟨row, hrow, -⟩ := Option.map_eq_some_iff.1 hstatus
  exact ⟨row, hrow⟩

theorem file (h : Stands s sessionID fileID status parseStatus db) :
    ∃ row, db.logFiles.lookup fileID = some row ∧ row.sessionID = sessionID := by
  have hfile : (standing db).file fileID = some (sessionID, parseStatus) := by
    rw [h]
    simp
  obtain ⟨row, hrow, hpair⟩ := Option.map_eq_some_iff.1 hfile
  exact ⟨row, hrow, (Prod.mk.inj hpair).1⟩

theorem keyed (h : Stands s sessionID fileID status parseStatus db) : Keyed sessionID fileID db := by
  obtain ⟨sessionRow, hsession⟩ := h.session
  obtain ⟨fileRow, hfile, -⟩ := h.file
  simp [Keyed, hsession, hfile]

theorem same {db' : Db} (h : Stands s sessionID fileID status parseStatus db)
    (hsame : SameStanding db db') : Stands s sessionID fileID status parseStatus db' := by
  rw [Stands, hsame.standing]
  exact h

theorem markSession (h : Stands s sessionID fileID status parseStatus db) (status' : Text)
    (errorMessage : Option Text) (now : Nat) :
    Stands s sessionID fileID status' parseStatus (Logs.markSession sessionID status' errorMessage now db) := by
  rw [Stands, standing_markSession _ _ _ h.session, h]
  simp only [Standing.setSession, Standing.mk.injEq, and_true]
  funext id
  split <;> rfl

theorem markFile (h : Stands s sessionID fileID status parseStatus db) (parseStatus' : Text)
    (totalLines : Nat → Nat) :
    Stands s sessionID fileID status parseStatus' (Logs.markFile fileID parseStatus' totalLines db) := by
  obtain ⟨row, hrow, hsession⟩ := h.file
  rw [Stands, standing_markFile _ _ hrow, h, hsession]
  simp only [Standing.setSession, Standing.setFile, Standing.mk.injEq, true_and]
  funext id
  split <;> rfl

end Stands

/-! ## What the calls do to the statuses -/

section

variable {parseLogLine : LineParser} {now : Nat} {fileID batchError sessionID : Text} {row : LogFileRow}
  {s : Standing} {db : Db} {ds : List Delivery}

/-- An import that failed leaves its session not ready. -/
theorem finishImport_failed {totalLines : Nat} {e : Text}
    (h : Stands s row.sessionID fileID "indexing".toList "pending".toList db) :
    ∃ status parseStatus, status ≠ "ready".toList ∧ Stands s row.sessionID fileID status parseStatus
      ((finishImport fileID row totalLines (some e)).run (Command.exec parseLogLine now) ds db).2 := by
  rw [finishImport, run_ignore, run_ignore, Prog.run]
  -- either of the two statements may get lost
  have hfile : ∃ parseStatus, Stands s row.sessionID fileID "indexing".toList parseStatus
      (if ds.headD .answered = .refused then db
        else ((Command.markFile fileID "failed".toList id).exec parseLogLine now db).2) := by
    split
    · exact ⟨_, h⟩
    · exact ⟨_, h.markFile "failed".toList id⟩
  obtain ⟨parseStatus, hfile⟩ := hfile
  split
  · exact ⟨_, parseStatus, by decide, hfile⟩
  · exact ⟨_, parseStatus, by decide, hfile.markSession "failed".toList (some e) now⟩

/-- An import that went through makes its session ready with its last statement. -/
theorem finishImport_done {totalLines : Nat}
    (h : Stands s row.sessionID fileID "indexing".toList "pending".toList db) :
    ∃ status parseStatus, (status = "ready".toList ↔ Arrives ds 1) ∧
      (status = "ready".toList → parseStatus = "done".toList) ∧ Stands s row.sessionID fileID status parseStatus
        ((finishImport fileID row totalLines none).run (Command.exec parseLogLine now) ds db).2 := by
  have hdone := h.markFile "done".toList fun _ => totalLines
  rw [finishImport, run_demand, arrives_succ, arrives_zero]
  cases hhead : ds.headD .answered with
  | refused => exact ⟨_, _, by simp, by simp, h⟩
  | lost => exact ⟨_, _, by simp, by simp, hdone⟩
  | answered =>
    rw [if_pos rfl, run_demand]
    have hready := hdone.markSession "ready".toList none now
    cases hnext : ds.tail.headD .answered with
    | refused => exact ⟨_, _, by simp, by simp, hdone⟩
    | lost => exact ⟨_, _, by simp, by simp, hready⟩
    | answered => exact ⟨_, _, by simp, by simp, hready⟩

/-- The session is being indexed, but the client does not hear of it. -/
theorem run_importFile_unheard {upload : Upload} {db' : Db} (hinsert : insertFile fileID row db = some db')
    (harrives : Arrives ds 1) (hthrough : ¬Through ds 2) :
    ((importFile parseLogLine fileID batchError row upload).run (Command.exec parseLogLine now) ds db).2 =
      markSession row.sessionID "indexing".toList none now db' := by
  have hnext : ds.tail.headD .answered = .lost := by
    rw [arrives_succ, arrives_zero] at harrives
    rw [through_succ, through_succ, and_iff_left through_zero] at hthrough
    cases hnext : ds.tail.headD .answered with
    | answered => exact absurd ⟨harrives.1, hnext⟩ hthrough
    | refused => exact absurd hnext harrives.2
    | lost => rfl
  rw [importFile_eq, run_demandFile_answered hinsert (harrives.through (le_refl 1)), run_demand,
    if_neg (by rw [hnext]; decide), if_pos hnext]
  rfl

/-- An import whose session is set to be indexed. -/
theorem standing_importFile {upload : Upload} (hfresh : db.logFiles.lookup fileID = none)
    (hsession : ∃ session, db.logSessions.lookup row.sessionID = some session)
    (hpending : row.parseStatus = "pending".toList) (harrives : Arrives ds 1) :
    ∃ status parseStatus,
      (status = "ready".toList ↔
        upload.scanError = none ∧ Arrives ds (3 + (upload.batches parseLogLine).length)) ∧
      (status = "ready".toList → parseStatus = "done".toList) ∧
      Stands (standing db) row.sessionID fileID status parseStatus
        ((importFile parseLogLine fileID batchError row upload).run
          (Command.exec parseLogLine now) ds db).2 := by
  have hinsert := insertFile_fresh hfresh hsession (by simp [hpending])
  have hsession' : ∃ session, (withFile fileID row db).logSessions.lookup row.sessionID = some session :=
    hsession
  have hcount : 3 + (upload.batches parseLogLine).length = 2 + ((upload.batches parseLogLine).length + 1) := by
    omega
  -- the state in which the batches begin
  have hindexing : Stands (standing db) row.sessionID fileID "indexing".toList "pending".toList
      (markSession row.sessionID "indexing".toList none now (withFile fileID row db)) := by
    rw [Stands, standing_markSession _ _ _ hsession', standing_withFile, hpending]
  by_cases hthrough : Through ds 2
  · rw [run_importFile_batches hinsert hthrough, hcount, ← arrives_drop hthrough]
    by_cases hbatches : Through (ds.drop 2) (upload.batches parseLogLine).length
    · -- all batches are in the database, and what counts is how the scanner ended
      rw [run_sendBatches_through _ _ _ hindexing.keyed hbatches]
      have hsent : Stands (standing db) row.sessionID fileID "indexing".toList "pending".toList
          (inserted row.sessionID fileID row.serviceName row.nodeName (upload.batches parseLogLine)
            (markSession row.sessionID "indexing".toList none now (withFile fileID row db))) :=
        hindexing.same (inserted_standing _ _ hindexing.keyed)
      cases upload.scanError with
      | some e =>
        obtain ⟨status, parseStatus, hstatus, hstands⟩ := finishImport_failed hsent
        exact ⟨status, parseStatus, iff_of_false hstatus (by simp), fun h => absurd h hstatus, hstands⟩
      | none =>
        obtain ⟨status, parseStatus, hstatus, hdone, hstands⟩ := finishImport_done hsent
        refine ⟨status, parseStatus, ?_, hdone, hstands⟩
        rw [hstatus, arrives_drop hbatches]
        simp
    · -- a batch did not get through, and the end of the import says so
      obtain ⟨number, ds', count, -, hrun⟩ := run_sendBatches_stopped _ _ _ hindexing.keyed hbatches
      rw [hrun]
      obtain ⟨status, parseStatus, hstatus, hstands⟩ :=
        finishImport_failed (hindexing.same (inserted_standing _ _ hindexing.keyed))
      refine ⟨status, parseStatus, iff_of_false hstatus ?_, fun h => absurd h hstatus, hstands⟩
      exact fun hlast => hbatches (hlast.2.through (Nat.le_succ _))
  · refine ⟨"indexing".toList, "pending".toList, iff_of_false (by decide) ?_, by simp, ?_⟩
    · exact fun hlast => hthrough (hlast.2.through (by omega))
    · rw [run_importFile_unheard hinsert harrives hthrough]
      exact hindexing

/-- An import that stops before its session is set to be indexed. -/
theorem standing_importFile_orphan {upload : Upload} (hfresh : db.logFiles.lookup fileID = none)
    (hsession : ∃ session, db.logSessions.lookup row.sessionID = some session)
    (hpending : row.parseStatus = "pending".toList) (hinserted : Arrives ds 0) (hnot : ¬Arrives ds 1) :
    standing ((importFile parseLogLine fileID batchError row upload).run
      (Command.exec parseLogLine now) ds db).2 =
        (standing db).setFile fileID row.sessionID "pending".toList := by
  have hinsert := insertFile_fresh hfresh hsession (by simp [hpending])
  rw [← hpending, ← standing_withFile, importFile_eq]
  by_cases hthrough : Through ds 1
  · rw [run_demandFile_answered hinsert hthrough, run_demand]
    have hnext : ds.tail.headD .answered = .refused := by
      rw [arrives_succ, arrives_zero, not_and, not_not] at hnot
      exact hnot (through_succ.1 hthrough).1
    rw [hnext]
    rfl
  · rw [run_demandFile_lost hinsert ⟨hinserted, hthrough⟩]

/-- `CreateTailFile` accepts the path. -/
def PathAccepted (remotePath : Text) : Prop :=
  (trimSpace remotePath).head? = some '/' ∧ Char.ofNat 0 ∉ trimSpace remotePath

variable {actor : Principal} {remotePath serviceName nodeName raw : Text}

theorem PathAccepted.not_rejected (h : PathAccepted remotePath) :
    ¬(trimSpace remotePath = [] ∨ (trimSpace remotePath).head? ≠ some '/' ∨ Char.ofNat 0 ∈ trimSpace remotePath) := by
  rintro (hempty | hhead | hnul)
  · simp [PathAccepted, hempty] at h
  · exact hhead h.1
  · exact h.2 hnul

/-- What `CreateTailFile` sends behind its authorization. -/
theorem run_createTailFile (parseLogLine : LineParser) (now : Nat) (fileID serviceName nodeName : Text)
    (hadmits : Admits actor sessionID db) (hhead : ds.headD .answered = .answered)
    (hpath : PathAccepted remotePath) :
    ∃ row : LogFileRow, ∃ file : SourceFile, row.sessionID = sessionID ∧ row.parseStatus = "done".toList ∧
      (createTailFile fileID actor sessionID remotePath serviceName nodeName).run
          (Command.exec parseLogLine now) ds db =
        (demandFile fileID row (demand (.markSession sessionID "ready".toList none)
          (.ret (some (.ok file))))).run (Command.exec parseLogLine now) ds.tail db := by
  obtain ⟨session, hauthorize⟩ := hadmits
  have hid := (authorize_found hauthorize).2.1
  rw [createTailFile, run_authorized_ok hauthorize hhead]
  dsimp only
  rw [if_neg hpath.not_rejected, hid]
  exact ⟨_, _, rfl, rfl, rfl⟩

/-- A `CreateTailFile` that does not come to its file does nothing. -/
theorem run_createTailFile_idle (hidle : Admits actor sessionID db → ds.headD .answered = .answered →
    ¬PathAccepted remotePath) :
    ((createTailFile fileID actor sessionID remotePath serviceName nodeName).run
      (Command.exec parseLogLine now) ds db).2 = db := by
  rw [createTailFile]
  by_cases hin : Admits actor sessionID db ∧ ds.headD .answered = .answered
  · obtain ⟨⟨session, hauthorize⟩, hhead⟩ := hin
    have hnot := hidle ⟨session, hauthorize⟩ hhead
    have hinvalid : trimSpace remotePath = [] ∨ (trimSpace remotePath).head? ≠ some '/' ∨
        Char.ofNat 0 ∈ trimSpace remotePath := by
      rw [PathAccepted, not_and_or, not_not] at hnot
      exact Or.inr hnot
    rw [run_authorized_ok hauthorize hhead]
    dsimp only
    rw [if_pos hinvalid]
    rfl
  · have hstop : Admits actor sessionID db → ds.headD .answered ≠ .answered :=
      fun hadmits hhead => hin ⟨hadmits, hhead⟩
    obtain ⟨outcome, -, hrun⟩ := run_authorized_stopped hstop
    rw [hrun]

/-- What `AppendTailLine` sends behind its authorization. -/
theorem run_appendTail (hadmits : Admits actor sessionID db) (hhead : ds.headD .answered = .answered) :
    ((appendTail actor sessionID fileID raw).run (Command.exec parseLogLine now) ds db).2 =
      if ds.tail.headD .answered = .refused then db
      else ((Command.appendLine sessionID fileID raw).exec parseLogLine now db).2 := by
  obtain ⟨session, hauthorize⟩ := hadmits
  rw [appendTail, run_authorized_ok hauthorize hhead, (authorize_found hauthorize).2.1, Prog.run, Prog.run]
  cases ds.tail.headD .answered <;> simp [deliver]

theorem run_appendTail_idle
    (hidle : Admits actor sessionID db → ds.headD .answered ≠ .answered) :
    ((appendTail actor sessionID fileID raw).run (Command.exec parseLogLine now) ds db).2 = db := by
  rw [appendTail]
  obtain ⟨outcome, -, hrun⟩ := run_authorized_stopped hidle
  rw [hrun]

/-- A line of a file of the session makes the file done and the session ready. -/
theorem stands_appendLine (parseLogLine : LineParser) (now : Nat) (raw : Text)
    (hsession : ∃ session, db.logSessions.lookup sessionID = some session)
    (hfile : db.logFiles.lookup fileID = some row) (hrow : row.sessionID = sessionID) :
    Stands (standing db) sessionID fileID "ready".toList "done".toList
      ((Command.appendLine sessionID fileID raw).exec parseLogLine now db).2 := by
  obtain ⟨session, hsession⟩ := hsession
  have hkeyed : Keyed sessionID fileID db := by simp [Keyed, hsession, hfile]
  have hstands : Stands (standing db) sessionID fileID session.status row.parseStatus db := by
    simp only [Stands, standing, Standing.setSession, Standing.setFile, Standing.mk.injEq]
    constructor
    · funext id
      rcases eq_or_ne id sessionID with rfl | hid
      · simp [hsession]
      · simp [hid]
    · funext id
      rcases eq_or_ne id fileID with rfl | hid
      · simp [hfile, hrow]
      · simp [hid]
  obtain ⟨db', hexec, hsame⟩ := insertBatch_keyed row.serviceName row.nodeName
    [{ (parseLogLine (trimLine raw) (previousTimestamp sessionID fileID db)).row (trimLine raw) 0 with
      lineNumber := row.totalLines + 1 }] hkeyed
  have happend : appendRaw parseLogLine sessionID fileID raw now db =
      .ok (markSession sessionID "ready".toList none now (markFile fileID "done".toList (· + 1) db')) := by
    simp [appendRaw, appendTailLine, hfile, hrow, hexec]
  rw [Command.exec, happend]
  exact ((hstands.same hsame).markFile "done".toList (· + 1)).markSession "ready".toList none now

/-- A line of no file of the session is refused. -/
theorem exec_appendLine_lost
    (hnot : ∀ row, db.logFiles.lookup fileID = some row → row.sessionID ≠ sessionID) :
    ((Command.appendLine sessionID fileID raw).exec parseLogLine now db).2 = db := by
  have herror : appendRaw parseLogLine sessionID fileID raw now db = .error .notFound := by
    rw [appendRaw, appendTailLine]
    cases hfile : db.logFiles.lookup fileID with
    | none => rfl
    | some row => exact if_pos (hnot row hfile)
  rw [Command.exec, herror]

end

/-! ## Runs of calls -/

/-- The calls that bring lines into a session; `fileID` is what `newID` gives for a new file. -/
inductive Call where
  | addFile (fileID batchError : Text) (actor : Principal) (sessionID : Text) (input : AddFileInput)
  | createTailFile (fileID : Text) (actor : Principal) (sessionID remotePath serviceName nodeName : Text)
  | appendTailLine (actor : Principal) (sessionID fileID raw : Text)

/-- A call, the time at which it is made, and what becomes of its statements. -/
structure Event where
  call : Call
  now : Nat
  deliveries : List Delivery

namespace Call

def sessionID : Call → Text
  | .addFile _ _ _ sessionID _ => sessionID
  | .createTailFile _ _ sessionID _ _ _ => sessionID
  | .appendTailLine _ sessionID _ _ => sessionID

def fileID : Call → Text
  | .addFile fileID _ _ _ _ => fileID
  | .createTailFile fileID _ _ _ _ _ => fileID
  | .appendTailLine _ _ fileID _ => fileID

/-- A call that comes to its file: it is admitted, a new file is well formed and its id free, and a file
that gets a line is one of the session. -/
def Valid (db : Db) : Call → Prop
  | .addFile fileID _ actor sessionID input =>
    Admits actor sessionID db ∧ db.logFiles.lookup fileID = none ∧
      ∃ upload storagePath, input.Stored upload storagePath
  | .createTailFile fileID actor sessionID remotePath _ _ =>
    Admits actor sessionID db ∧ db.logFiles.lookup fileID = none ∧ PathAccepted remotePath
  | .appendTailLine actor sessionID fileID _ =>
    Admits actor sessionID db ∧ ∃ row, db.logFiles.lookup fileID = some row ∧ row.sessionID = sessionID

/-- The statement that makes the session ready is carried out: all before it are answered, and it is not
refused. In front of it `AddFile` sends four statements and one for every 5000 lines. -/
def ReachesReady (ds : List Delivery) : Call → Prop
  | .addFile _ _ _ _ input => ∃ upload, input.reader = some upload ∧ upload.scanError = none ∧
      Arrives ds (4 + (upload.lines.length + (batchSize - 1)) / batchSize)
  | .createTailFile .. => Arrives ds 2
  | .appendTailLine .. => Arrives ds 1

/-- The file is inserted, and the status of the session is not touched any more. -/
def StopsBehindFile (ds : List Delivery) : Call → Prop
  | .addFile .. => Arrives ds 1 ∧ ¬Arrives ds 2
  | .createTailFile .. => False
  | .appendTailLine .. => False

end Call

namespace Event

/-- The database behind an event. -/
def after (parseLogLine : LineParser) (db : Db) (e : Event) : Db :=
  match e.call with
  | .addFile fileID batchError actor sessionID input =>
    ((addFile parseLogLine fileID batchError actor sessionID input).run
      (Command.exec parseLogLine e.now) e.deliveries db).2
  | .createTailFile fileID actor sessionID remotePath serviceName nodeName =>
    ((createTailFile fileID actor sessionID remotePath serviceName nodeName).run
      (Command.exec parseLogLine e.now) e.deliveries db).2
  | .appendTailLine actor sessionID fileID raw =>
    ((appendTail actor sessionID fileID raw).run (Command.exec parseLogLine e.now) e.deliveries db).2

/-- A call makes a session ready only where its other files are done, and leaves no pending file in a
session that is ready. -/
def Harmless (db : Db) (e : Event) : Prop :=
  e.call.Valid db →
    (e.call.ReachesReady e.deliveries → (standing db).OthersDone e.call.sessionID e.call.fileID) ∧
    (e.call.StopsBehindFile e.deliveries →
      (standing db).session e.call.sessionID ≠ some "ready".toList)

variable {parseLogLine : LineParser} {db : Db} {e : Event}

/-- An event that changes nothing is harmless if none of its statements counts. -/
theorem honest_of_unchanged (h : (standing db).Honest) (hafter : e.after parseLogLine db = db)
    (hnone : e.call.Valid db →
      ¬e.call.ReachesReady e.deliveries ∧ ¬e.call.StopsBehindFile e.deliveries) :
    (standing (e.after parseLogLine db)).Honest ↔ e.Harmless db := by
  rw [hafter]
  refine iff_of_true h fun hvalid => ?_
  obtain ⟨hready, hstops⟩ := hnone hvalid
  exact ⟨fun hreaches => absurd hreaches hready, fun hbehind => absurd hbehind hstops⟩

/-- An event that leaves a file and its session with statuses of their own. -/
theorem honest_of_stands (h : (standing db).Honest) (hvalid : e.call.Valid db) {status parseStatus : Text}
    (hready : status = "ready".toList ↔ e.call.ReachesReady e.deliveries)
    (hdone : status = "ready".toList → parseStatus = "done".toList)
    (hstops : ¬e.call.StopsBehindFile e.deliveries)
    (hstands : Stands (standing db) e.call.sessionID e.call.fileID status parseStatus
      (e.after parseLogLine db)) :
    (standing (e.after parseLogLine db)).Honest ↔ e.Harmless db := by
  rw [hstands, Standing.honest_setBoth h, Harmless, hready]
  constructor
  · intro hothers _
    exact ⟨fun hreaches => (hothers hreaches).2, fun hbehind => absurd hbehind hstops⟩
  · intro hharmless hreaches
    exact ⟨hdone (hready.2 hreaches), (hharmless hvalid).1 hreaches⟩

/-- What is behind an answer. -/
theorem arrives_behind {ds : List Delivery} (hhead : ds.headD .answered = .answered) (n : Nat) :
    Arrives ds (n + 1) ↔ Arrives ds.tail n := by
  rw [arrives_succ, and_iff_right hhead]

section

variable {fileID batchError : Text} {actor : Principal} {sessionID : Text} {input : AddFileInput} {now : Nat}
  {ds : List Delivery} {upload : Upload} {storagePath : Text}

theorem after_addFile (hadmits : Admits actor sessionID db) (hhead : ds.headD .answered = .answered)
    (hstored : input.Stored upload storagePath) :
    after parseLogLine db ⟨.addFile fileID batchError actor sessionID input, now, ds⟩ =
      ((importFile parseLogLine fileID batchError (input.row sessionID storagePath) upload).run
        (Command.exec parseLogLine now) ds.tail db).2 :=
  congrArg Prod.snd (run_addFile_import hadmits hhead hstored)

/-- The call does not come to insert its file. -/
theorem honest_addFile_unchanged (h : (standing db).Honest)
    (hafter : after parseLogLine db ⟨.addFile fileID batchError actor sessionID input, now, ds⟩ = db)
    (hnot : (Call.addFile fileID batchError actor sessionID input).Valid db → ¬Arrives ds 1) :
    (standing (after parseLogLine db ⟨.addFile fileID batchError actor sessionID input, now, ds⟩)).Honest ↔
      Harmless db ⟨.addFile fileID batchError actor sessionID input, now, ds⟩ := by
  apply honest_of_unchanged h hafter
  intro hvalid
  refine ⟨?_, fun hstops => hnot hvalid hstops.1⟩
  rintro ⟨upload', -, -, hlast⟩
  exact hnot hvalid (through_of_arrives hlast.1 (Nat.lt_add_right _ (by decide)))

/-- The file is there, and its session has the status it had. -/
theorem honest_addFile_orphan (h : (standing db).Honest) (hadmits : Admits actor sessionID db)
    (hhead : ds.headD .answered = .answered) (hstored : input.Stored upload storagePath)
    (hfresh : db.logFiles.lookup fileID = none) (hinserted : Arrives ds.tail 0) (hindexing : ¬Arrives ds.tail 1) :
    (standing (after parseLogLine db ⟨.addFile fileID batchError actor sessionID input, now, ds⟩)).Honest ↔
      Harmless db ⟨.addFile fileID batchError actor sessionID input, now, ds⟩ := by
  have hvalid : (Call.addFile fileID batchError actor sessionID input).Valid db :=
    ⟨hadmits, hfresh, upload, storagePath, hstored⟩
  have hstops : (Call.addFile fileID batchError actor sessionID input).StopsBehindFile ds :=
    ⟨(arrives_behind hhead 0).2 hinserted, fun hindexed => hindexing ((arrives_behind hhead 1).1 hindexed)⟩
  rw [after_addFile hadmits hhead hstored, standing_importFile_orphan hfresh hadmits.session rfl hinserted hindexing,
    Standing.honest_setFile h]
  constructor
  · intro hnot _
    refine ⟨?_, fun _ hready => absurd (hnot hready) (by decide)⟩
    rintro ⟨upload', -, -, hlast⟩
    exact (hstops.2 (through_of_arrives hlast.1 (Nat.lt_add_right _ (by decide)))).elim
  · intro hharmless hready
    exact absurd hready ((hharmless hvalid).2 hstops)

/-- The session is set to be indexed, and may become ready at the end. -/
theorem honest_addFile_indexed (h : (standing db).Honest) (hadmits : Admits actor sessionID db)
    (hhead : ds.headD .answered = .answered) (hstored : input.Stored upload storagePath)
    (hfresh : db.logFiles.lookup fileID = none) (hindexing : Arrives ds.tail 1) :
    (standing (after parseLogLine db ⟨.addFile fileID batchError actor sessionID input, now, ds⟩)).Honest ↔
      Harmless db ⟨.addFile fileID batchError actor sessionID input, now, ds⟩ := by
  have hvalid : (Call.addFile fileID batchError actor sessionID input).Valid db :=
    ⟨hadmits, hfresh, upload, storagePath, hstored⟩
  obtain ⟨status, parseStatus, hready, hdone, hstands⟩ :=
    standing_importFile hfresh hadmits.session (input.parseStatus_row sessionID storagePath) hindexing
  rw [← after_addFile hadmits hhead hstored] at hstands
  apply honest_of_stands h hvalid ?_ hdone ?_ hstands
  · -- the number of statements, in batches and in lines
    have hcount : upload.scanError = none → 3 + (upload.batches parseLogLine).length + 1 =
        4 + (upload.lines.length + (batchSize - 1)) / batchSize := by
      intro hnone
      rw [Upload.batches, hnone, length_batchesOf _ [] (by decide), length_parsedRows, List.length_nil,
        Nat.zero_add]
      omega
    rw [hready, ← arrives_behind hhead]
    constructor
    · rintro ⟨hnone, hlast⟩
      exact ⟨upload, hstored.1, hnone, hcount hnone ▸ hlast⟩
    · rintro ⟨upload', hreader, hnone, hlast⟩
      rw [hstored.1, Option.some.injEq] at hreader
      subst hreader
      exact ⟨hnone, (hcount hnone).symm ▸ hlast⟩
  · exact fun hstops => hstops.2 ((arrives_behind hhead 1).2 hindexing)

end

theorem honest_addFile (fileID batchError : Text) (actor : Principal) (sessionID : Text)
    (input : AddFileInput) (now : Nat) (ds : List Delivery) (h : (standing db).Honest) :
    (standing (after parseLogLine db ⟨.addFile fileID batchError actor sessionID input, now, ds⟩)).Honest ↔
      Harmless db ⟨.addFile fileID batchError actor sessionID input, now, ds⟩ := by
  by_cases hin : Admits actor sessionID db ∧ ds.headD .answered = .answered ∧
      ∃ upload storagePath, input.Stored upload storagePath
  · obtain ⟨hadmits, hhead, upload, storagePath, hstored⟩ := hin
    by_cases hinserted : db.logFiles.lookup fileID = none ∧ Arrives ds.tail 0
    · by_cases hindexing : Arrives ds.tail 1
      · exact honest_addFile_indexed h hadmits hhead hstored hinserted.1 hindexing
      · exact honest_addFile_orphan h hadmits hhead hstored hinserted.1 hinserted.2 hindexing
    · apply honest_addFile_unchanged h
      · rw [after_addFile hadmits hhead hstored, importFile_eq, run_demandFile_refused]
        by_cases hfresh : db.logFiles.lookup fileID = none
        · exact Or.inr fun harrives => hinserted ⟨hfresh, harrives⟩
        · exact Or.inl (insertFile_taken hfresh)
      · rintro ⟨-, hfresh, -⟩ harrives
        exact hinserted ⟨hfresh, (arrives_behind hhead 0).1 harrives⟩
  · obtain ⟨outcome, -, hrun⟩ := run_addFile_idle parseLogLine now fileID batchError
      fun hadmits hhead upload storagePath hstored => hin ⟨hadmits, hhead, upload, storagePath, hstored⟩
    apply honest_addFile_unchanged h (congrArg Prod.snd hrun)
    rintro ⟨hadmits, -, hstored⟩ harrives
    exact hin ⟨hadmits, (arrives_succ.1 harrives).1, hstored⟩

section

variable {fileID : Text} {actor : Principal} {sessionID remotePath serviceName nodeName : Text} {now : Nat}
  {ds : List Delivery}

/-- The new file is done, and the session is made ready if the statement that does so arrives. -/
theorem after_createTailFile (parseLogLine : LineParser) (serviceName nodeName : Text) (now : Nat)
    (hadmits : Admits actor sessionID db) (hhead : ds.headD .answered = .answered) (hpath : PathAccepted remotePath)
    (hfresh : db.logFiles.lookup fileID = none) (hinserted : Arrives ds.tail 0) :
    ∃ row : LogFileRow, row.sessionID = sessionID ∧ row.parseStatus = "done".toList ∧
      (Arrives ds.tail 1 →
        after parseLogLine db ⟨.createTailFile fileID actor sessionID remotePath serviceName nodeName, now, ds⟩ =
          markSession sessionID "ready".toList none now (withFile fileID row db)) ∧
      (¬Arrives ds.tail 1 →
        after parseLogLine db ⟨.createTailFile fileID actor sessionID remotePath serviceName nodeName, now, ds⟩ =
          withFile fileID row db) := by
  obtain ⟨row, file, hrow, hdone, hrun⟩ :=
    run_createTailFile parseLogLine now fileID serviceName nodeName hadmits hhead hpath
  have hafter : after parseLogLine db
      ⟨.createTailFile fileID actor sessionID remotePath serviceName nodeName, now, ds⟩ = _ :=
    congrArg Prod.snd hrun
  have hinsert := insertFile_fresh hfresh (hrow ▸ hadmits.session) (by simp [hdone])
  refine ⟨row, hrow, hdone, ?_, ?_⟩
  · intro hready
    rw [hafter, run_demandFile_answered hinsert (hready.through (le_refl 1)), run_demand]
    have hsent := arrives_zero.1 (arrives_succ.1 hready).2
    cases hnext : ds.tail.tail.headD .answered with
    | answered => rfl
    | refused => exact absurd hnext hsent
    | lost => rfl
  · intro hready
    rw [hafter]
    by_cases hthrough : Through ds.tail 1
    · rw [run_demandFile_answered hinsert hthrough, run_demand]
      have hnext : ds.tail.tail.headD .answered = .refused := by
        rw [arrives_succ, arrives_zero, not_and, not_not] at hready
        exact hready (through_succ.1 hthrough).1
      rw [hnext]
      rfl
    · rw [run_demandFile_lost hinsert ⟨hinserted, hthrough⟩]

theorem honest_createTailFile_inserted (h : (standing db).Honest) (hadmits : Admits actor sessionID db)
    (hhead : ds.headD .answered = .answered) (hpath : PathAccepted remotePath)
    (hfresh : db.logFiles.lookup fileID = none) (hinserted : Arrives ds.tail 0) :
    (standing (after parseLogLine db
      ⟨.createTailFile fileID actor sessionID remotePath serviceName nodeName, now, ds⟩)).Honest ↔
      Harmless db ⟨.createTailFile fileID actor sessionID remotePath serviceName nodeName, now, ds⟩ := by
  have hvalid : (Call.createTailFile fileID actor sessionID remotePath serviceName nodeName).Valid db :=
    ⟨hadmits, hfresh, hpath⟩
  obtain ⟨row, hrow, hdone, hmade, hwaiting⟩ :=
    after_createTailFile parseLogLine serviceName nodeName now hadmits hhead hpath hfresh hinserted
  have hfile : standing (withFile fileID row db) =
      (standing db).setFile fileID sessionID "done".toList := by
    rw [standing_withFile, hrow, hdone]
  by_cases hready : Arrives ds.tail 1
  · have hmarked : Stands (standing db) sessionID fileID "ready".toList "done".toList
        (markSession sessionID "ready".toList none now (withFile fileID row db)) := by
      have hkept : ∃ session, (withFile fileID row db).logSessions.lookup sessionID = some session :=
        hadmits.session
      rw [Stands, standing_markSession _ _ _ hkept, hfile]
    rw [← hmade hready] at hmarked
    apply honest_of_stands h hvalid ?_ (fun _ => rfl) ?_ hmarked
    · exact iff_of_true rfl ((arrives_behind hhead 1).2 hready)
    · exact fun hstops => hstops
  · -- the new file is done, and no session has got ready
    rw [hwaiting hready, hfile, Standing.honest_setFile h]
    refine iff_of_true (fun _ => rfl) fun _ => ⟨fun hreaches => ?_, fun hstops => hstops.elim⟩
    exact absurd ((arrives_behind hhead 1).1 hreaches) hready

end

theorem honest_createTailFile (fileID : Text) (actor : Principal)
    (sessionID remotePath serviceName nodeName : Text) (now : Nat) (ds : List Delivery)
    (h : (standing db).Honest) :
    (standing (after parseLogLine db
      ⟨.createTailFile fileID actor sessionID remotePath serviceName nodeName, now, ds⟩)).Honest ↔
      Harmless db ⟨.createTailFile fileID actor sessionID remotePath serviceName nodeName, now, ds⟩ := by
  by_cases hin : Admits actor sessionID db ∧ ds.headD .answered = .answered ∧ PathAccepted remotePath
  · obtain ⟨hadmits, hhead, hpath⟩ := hin
    by_cases hinserted : db.logFiles.lookup fileID = none ∧ Arrives ds.tail 0
    · exact honest_createTailFile_inserted h hadmits hhead hpath hinserted.1 hinserted.2
    · -- no file is inserted
      apply honest_of_unchanged h
      · obtain ⟨row, file, -, -, hrun⟩ :=
          run_createTailFile parseLogLine now fileID serviceName nodeName hadmits hhead hpath
        refine (congrArg Prod.snd hrun).trans ?_
        rw [run_demandFile_refused]
        by_cases hfresh : db.logFiles.lookup fileID = none
        · exact Or.inr fun harrives => hinserted ⟨hfresh, harrives⟩
        · exact Or.inl (insertFile_taken hfresh)
      · rintro ⟨-, hfresh, -⟩
        refine ⟨fun hready => hinserted ⟨hfresh, (arrives_behind hhead 0).1 ?_⟩, fun hstops => hstops⟩
        exact through_of_arrives hready.1 (by decide)
  · apply honest_of_unchanged h
    · exact run_createTailFile_idle fun hadmits hhead hpath => hin ⟨hadmits, hhead, hpath⟩
    · rintro ⟨hadmits, -, hpath⟩
      exact ⟨fun hready => hin ⟨hadmits, (arrives_succ.1 hready).1, hpath⟩, fun hstops => hstops⟩

theorem honest_appendTailLine (actor : Principal) (sessionID fileID raw : Text) (now : Nat)
    (ds : List Delivery) (h : (standing db).Honest) :
    (standing (after parseLogLine db ⟨.appendTailLine actor sessionID fileID raw, now, ds⟩)).Honest ↔
      Harmless db ⟨.appendTailLine actor sessionID fileID raw, now, ds⟩ := by
  by_cases hin : Admits actor sessionID db ∧ Arrives ds 1
  · obtain ⟨hadmits, harrives⟩ := hin
    have hafter : after parseLogLine db ⟨.appendTailLine actor sessionID fileID raw, now, ds⟩ =
        ((Command.appendLine sessionID fileID raw).exec parseLogLine now db).2 := by
      rw [arrives_succ, arrives_zero] at harrives
      exact (run_appendTail hadmits harrives.1).trans (if_neg harrives.2)
    by_cases hfile : ∃ row, db.logFiles.lookup fileID = some row ∧ row.sessionID = sessionID
    · have hvalid : (Call.appendTailLine actor sessionID fileID raw).Valid db := ⟨hadmits, hfile⟩
      obtain ⟨row, hfile, hrow⟩ := hfile
      have hstands := stands_appendLine parseLogLine now raw hadmits.session hfile hrow
      rw [← hafter] at hstands
      apply honest_of_stands h hvalid ?_ (fun _ => rfl) ?_ hstands
      · exact iff_of_true rfl harrives
      · exact fun hstops => hstops
    · apply honest_of_unchanged h
      · rw [hafter]
        exact exec_appendLine_lost fun row hrow hsame => hfile ⟨row, hrow, hsame⟩
      · exact fun hvalid => absurd hvalid.2 hfile
  · apply honest_of_unchanged h
    · by_cases hauthorized : Admits actor sessionID db ∧ ds.headD .answered = .answered
      · obtain ⟨hadmits, hhead⟩ := hauthorized
        refine (run_appendTail hadmits hhead).trans (if_pos ?_)
        by_contra hsent
        exact hin ⟨hadmits, arrives_succ.2 ⟨hhead, arrives_zero.2 hsent⟩⟩
      · exact run_appendTail_idle fun hadmits hhead => hauthorized ⟨hadmits, hhead⟩
    · exact fun hvalid => ⟨fun harrives => hin ⟨hvalid.1, harrives⟩, fun hstops => hstops⟩

/-- One call keeps the statuses honest exactly if it is harmless. -/
theorem honest_after (e : Event) (h : (standing db).Honest) :
    (standing (e.after parseLogLine db)).Honest ↔ e.Harmless db := by
  rcases e with ⟨call, now, ds⟩
  cases call with
  | addFile fileID batchError actor sessionID input =>
    exact honest_addFile fileID batchError actor sessionID input now ds h
  | createTailFile fileID actor sessionID remotePath serviceName nodeName =>
    exact honest_createTailFile fileID actor sessionID remotePath serviceName nodeName now ds h
  | appendTailLine actor sessionID fileID raw =>
    exact honest_appendTailLine actor sessionID fileID raw now ds h

end Event

/-- **A session that is ready has no file that is not done, in every state of a run, exactly if every call of
the run is harmless.** -/
theorem ready_sessions_have_done_files_iff (parseLogLine : LineParser) (events : List Event) (db : Db)
    (h : (standing db).Honest) :
    (∀ front, front <+: events → (standing (front.foldl (Event.after parseLogLine) db)).Honest) ↔
      Runs.Meets (Event.after parseLogLine) Event.Harmless db events :=
  (Runs.meets_iff_always (P := fun db => (standing db).Honest)
    (fun _ e hbefore => Event.honest_after e hbefore) events h).symm

/-- An import whose only batch does not get into the database. -/
def brokenImport : Event :=
  ⟨.addFile "logfile_a".toList [] World.bobPrincipal "logs_a".toList
    ⟨"a.log".toList, [], [], [], some ⟨some "/uploads/a".toList, ["a".toList], none⟩⟩, 0,
    [.answered, .answered, .answered, .refused]⟩

/-- A remote file that is created without a failure. -/
def remoteFile : Event :=
  ⟨.createTailFile "logfile_b".toList World.bobPrincipal "logs_a".toList "/var/log/b.log".toList [] [], 0, []⟩

theorem honest_oneSession : (standing World.oneSession.db).Honest := by
  intro sessionID _ fileID parseStatus hfile
  -- the session has no files yet
  have hnone : (standing World.oneSession.db).file fileID = none := rfl
  rw [hnone] at hfile
  cases hfile

/-- A remote file behind an import that failed: the session is ready, and its first file is not done. -/
theorem ready_session_with_failed_file :
    (standing World.oneSession.db).Honest ∧
      ∃ db, [brokenImport, remoteFile].foldl (Event.after plainLine) World.oneSession.db = db ∧
        (standing db).session "logs_a".toList = some "ready".toList ∧
        (standing db).file "logfile_a".toList = some ("logs_a".toList, "failed".toList) ∧
        ¬(standing db).Honest := by
  refine ⟨honest_oneSession, _, rfl, rfl, rfl, fun honest => ?_⟩
  have hdone := honest "logs_a".toList rfl "logfile_a".toList "failed".toList rfl
  cases hdone

/-- The import of a file of one line that comes to its end. -/
def finishedImport : Event :=
  ⟨.addFile "logfile_a".toList [] World.bobPrincipal "logs_a".toList
    ⟨"a.log".toList, [], [], [], some ⟨some "/uploads/a".toList, ["a".toList], none⟩⟩, 0, []⟩

/-- A remote file behind an import that is done: the session is ready. -/
theorem ready_session_with_remote_file :
    ∃ db, [finishedImport, remoteFile].foldl (Event.after plainLine) World.oneSession.db = db ∧
      (standing db).session "logs_a".toList = some "ready".toList ∧
      (standing db).file "logfile_a".toList = some ("logs_a".toList, "done".toList) ∧ (standing db).Honest := by
  refine ⟨_, rfl, rfl, rfl, ?_⟩
  refine (ready_sessions_have_done_files_iff plainLine [finishedImport, remoteFile] World.oneSession.db
    honest_oneSession).2 ⟨fun _ => ⟨?_, ?_⟩, fun _ => ⟨?_, fun hstops => hstops.elim⟩, trivial⟩ _ List.prefix_rfl
  · intro _ other parseStatus _ hother
    have hnone : (standing World.oneSession.db).file other = none := rfl
    rw [hnone] at hother
    cases hother
  · rintro ⟨-, hstopped⟩
    exact absurd ⟨fun _ _ => rfl, by decide⟩ hstopped
  · intro _ other parseStatus _ hother
    have hkeys : (finishedImport.after plainLine World.oneSession.db).logFiles.keys = ["logfile_a".toList] := rfl
    by_cases hfirst : other = "logfile_a".toList
    · rw [hfirst] at hother
      cases hother
      rfl
    · have hnone : (finishedImport.after plainLine World.oneSession.db).logFiles.lookup other = none := by
        rw [AList.lookup_eq_none, AList.mem_keys, hkeys]
        exact fun hmem => hfirst (List.mem_singleton.1 hmem)
      have hfile := congrArg (Option.map fun row : LogFileRow => (row.sessionID, row.parseStatus)) hnone
      cases hother.symm.trans hfile

/-! ## Calls among the steps of the stores -/

/-- A call of the log store. -/
inductive StoreCall where
  | write (e : Event)
  | delete (actor : Principal) (sessionID : Text) (now : Nat) (deliveries : List Delivery)

namespace StoreCall

/-- The id that a call gives to a new file. -/
def newFile : StoreCall → Option Text
  | write ⟨.addFile fileID .., _, _⟩ | write ⟨.createTailFile fileID .., _, _⟩ => some fileID
  | _ => none

def after (parseLogLine : LineParser) (db : Db) : StoreCall → Db
  | write e => e.after parseLogLine db
  | delete actor sessionID now ds => ((deleteLogSession actor sessionID).run (Command.exec parseLogLine now) ds db).2

theorem steps (env : World.Env) (parseLogLine : LineParser) (w : World) (call : StoreCall)
    (hnew : ∀ id, call.newFile = some id → w.uploads.lookup id = none) :
    ∃ uploads, (∀ id, call.newFile ≠ some id → uploads.lookup id = w.uploads.lookup id) ∧
      Relation.ReflTransGen (World.Step env) w ⟨call.after parseLogLine w.db, uploads⟩ := by
  match call with
  | write ⟨.addFile fileID _ _ _ _, now, ds⟩ =>
    obtain ⟨uploads, hsame, hsteps⟩ := addFile_steps (hnew fileID rfl) ds
    exact ⟨uploads, fun id hid => hsame id fun heq => hid (heq ▸ rfl), hsteps⟩
  | write ⟨.createTailFile fileID _ _ _ _ _, now, ds⟩ =>
    obtain ⟨uploads, hsame, hsteps⟩ := createTailFile_steps (hnew fileID rfl) ds
    exact ⟨uploads, fun id hid => hsame id fun heq => hid (heq ▸ rfl), hsteps⟩
  | write ⟨.appendTailLine _ _ _ _, now, ds⟩ => exact ⟨w.uploads, fun _ _ => rfl, appendTail_steps ds⟩
  | delete _ _ now ds => exact ⟨w.uploads, fun _ _ => rfl, deleteLogSession_steps ds⟩

end StoreCall

/-- **However the calls of the log store go, one after the other, and wherever each of them stops, the database
behind them is one to which the steps of the stores lead.** -/
theorem calls_among_steps (env : World.Env) (parseLogLine : LineParser) (calls : List StoreCall) (w : World)
    (hnew : ∀ id ∈ calls.filterMap StoreCall.newFile, w.uploads.lookup id = none)
    (hnodup : (calls.filterMap StoreCall.newFile).Nodup) :
    ∃ uploads, Relation.ReflTransGen (World.Step env) w
      ⟨calls.foldl (StoreCall.after parseLogLine) w.db, uploads⟩ := by
  induction calls generalizing w with
  | nil => exact ⟨w.uploads, Relation.ReflTransGen.refl⟩
  | cons call rest ih =>
    obtain ⟨uploads, hsame, hsteps⟩ := call.steps env parseLogLine w fun id hid =>
      hnew id (List.mem_filterMap.2 ⟨call, List.mem_cons_self, hid⟩)
    have hlater : ∀ id ∈ rest.filterMap StoreCall.newFile, call.newFile ≠ some id := by
      intro id hid hfirst
      rw [List.filterMap_cons_some hfirst] at hnodup
      exact (List.nodup_cons.1 hnodup).1 hid
    obtain ⟨uploads', hrest⟩ := ih ⟨call.after parseLogLine w.db, uploads⟩
      (fun id hid => by
        rw [hsame id (hlater id hid)]
        exact hnew id ((List.sublist_cons_self call rest).filterMap _ |>.subset hid))
      (hnodup.sublist ((List.sublist_cons_self call rest).filterMap _))
    exact ⟨uploads', hsteps.trans hrest⟩

theorem calls_among_steps_broken : ∃ uploads, World.Reachable ⟨default, default⟩
    ⟨[.write brokenImport, .write remoteFile].foldl (StoreCall.after plainLine) World.oneSession.db, uploads⟩ := by
  obtain ⟨uploads, hsteps⟩ := calls_among_steps ⟨default, default⟩ plainLine [.write brokenImport, .write remoteFile]
    World.oneSession (fun _ _ => rfl) (by decide)
  exact ⟨uploads, World.reachable_oneSession.trans hsteps⟩

end Workbench.Logs
