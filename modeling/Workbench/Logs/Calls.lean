import Workbench.Logs.Batches
import Workbench.Storage.Access

/-!
# The calls of the log store, delivery by delivery

How far a call comes depends only on its authorization and on what becomes of its statements. Statement 0 of
each call loads the session; `AddFile` goes on with the file, the status of the session, the batches and the
two statements that mark the end.
-/

set_option autoImplicit false

namespace Workbench.Logs

open Workbench.Lib Workbench.Storage
open Workbench.Identity (Principal)

/-- A call that returned a value. -/
def Succeeded {α : Type} (outcome : Outcome α) : Prop := ∃ a, outcome = some (.ok a)

/-- The call is let into the session. -/
def Admits (actor : Principal) (sessionID : Text) (db : Db) : Prop :=
  ∃ session, authorize actor sessionID true db = .ok session

/-- What `ParseLogLine` makes of a line without a timestamp and without a level. -/
def plainLine : LineParser := fun raw last => ⟨last, "UNKNOWN".toList, raw⟩

/-! ## Authorization -/

theorem authorize_found {actor : Principal} {sessionID : Text} {write : Bool} {db : Db}
    {session : Session} (h : authorize actor sessionID write db = .ok session) :
    actor.user.disabled = false ∧ session.id = sessionID ∧
      ∃ row, db.logSessions.lookup sessionID = some row := by
  cases hdisabled : actor.user.disabled with
  | true => simp [authorize, hdisabled] at h
  | false =>
    obtain ⟨row, hrow, rfl, -⟩ := (authorize_iff hdisabled).1 h
    exact ⟨rfl, rfl, row, hrow⟩

theorem Admits.session {actor : Principal} {sessionID : Text} {db : Db} (h : Admits actor sessionID db) :
    ∃ row, db.logSessions.lookup sessionID = some row := by
  obtain ⟨session, hauthorize⟩ := h
  exact (authorize_found hauthorize).2.2

section

variable {parseLogLine : LineParser} {now : Nat} {α : Type} {actor : Principal} {sessionID : Text}
  {next : Session → Prog Command (Outcome α)} {db : Db} {ds : List Delivery}

theorem run_authorized_ok {session : Session} (hauthorize : authorize actor sessionID true db = .ok session)
    (hhead : ds.headD .answered = .answered) :
    (authorized actor sessionID true next).run (Command.exec parseLogLine now) ds db =
      (next session).run (Command.exec parseLogLine now) ds.tail db := by
  have hdisabled := (authorize_found hauthorize).1
  rw [authorize, if_neg (by simp [hdisabled]), bind_eq_ok] at hauthorize
  obtain ⟨found, hload, haccess⟩ := hauthorize
  rw [authorized, if_neg (by simp [hdisabled]), Prog.run, hhead]
  simp [deliver, Command.exec, hload, haccess]

theorem run_authorized_stopped (hstop : Admits actor sessionID db → ds.headD .answered ≠ .answered) :
    ∃ outcome, ¬Succeeded outcome ∧
      (authorized actor sessionID true next).run (Command.exec parseLogLine now) ds db =
        (outcome, db) := by
  rw [authorized]
  cases hdisabled : actor.user.disabled with
  | true => exact ⟨some (.error .forbidden), by simp [Succeeded], rfl⟩
  | false =>
    rw [if_neg Bool.false_ne_true, Prog.run]
    cases hhead : ds.headD .answered with
    | refused => exact ⟨none, by simp [Succeeded], rfl⟩
    | lost => exact ⟨none, by simp [Succeeded], rfl⟩
    | answered =>
      simp only [deliver, Command.exec]
      cases hload : loadSession sessionID db with
      | error e => exact ⟨some (.error e), by simp [Succeeded], rfl⟩
      | ok found =>
        dsimp only
        cases haccess : access actor true found with
        | error e => exact ⟨some (.error e), by simp [Succeeded], rfl⟩
        | ok session =>
          -- the call would have been admitted
          have hauthorize : authorize actor sessionID true db = .ok session := by
            simp [authorize, hdisabled, hload, haccess, bind, Except.bind]
          exact absurd hhead (hstop ⟨session, hauthorize⟩)

end

/-! ## The file of a call -/

/-- The row that `AddFile` inserts. -/
def AddFileInput.row (input : AddFileInput) (sessionID storagePath : Text) : LogFileRow :=
  let originalName :=
    if trimSpace input.originalName = [] then "uploaded.log".toList else trimSpace input.originalName
  let names := serviceNode input.serviceName input.nodeName originalName
  let sourceType := if trimSpace input.sourceType = [] then "local".toList else trimSpace input.sourceType
  ⟨sessionID, names.1, names.2, originalName, storagePath, 0, "pending".toList, sourceType⟩

/-- The file that a row describes. -/
def sourceFileOf (fileID : Text) (row : LogFileRow) (totalLines : Nat) : SourceFile :=
  ⟨fileID, row.sessionID, row.serviceName, row.nodeName, row.originalName, totalLines, "done".toList,
    row.sourceType⟩

section

variable (parseLogLine : LineParser) (fileID batchError : Text)

/-- What `AddFile` does behind `indexFile`. -/
def finishImport (row : LogFileRow) (totalLines : Nat) (indexErr : Option Text) :
    Prog Command (Outcome SourceFile) :=
  match indexErr with
  | some e =>
    ignore (.markFile fileID "failed".toList id) <|
    ignore (.markSession row.sessionID "failed".toList (some e)) <|
    .ret none
  | none =>
    demand (.markFile fileID "done".toList fun _ => totalLines) <|
    demand (.markSession row.sessionID "ready".toList none) <|
    .ret (some (.ok (sourceFileOf fileID row totalLines)))

/-- The batches of an upload. -/
def Upload.batches (upload : Upload) : List (List ParsedLine) :=
  batchesOf upload.scanError [] (parsedRows parseLogLine 0 none upload.lines)

theorem importFile_eq (row : LogFileRow) (upload : Upload) :
    importFile parseLogLine fileID batchError row upload =
      demandFile fileID row (demand (.markSession row.sessionID "indexing".toList none)
        (sendBatches row.sessionID fileID row.serviceName row.nodeName batchError
          (finishImport fileID row) (finishImport fileID row upload.lines.length upload.scanError)
          (upload.batches parseLogLine))) := by
  rw [importFile]
  congr 2
  rw [indexFile_eq _ _ _ _ fun h => absurd rfl h, Nat.zero_add]
  rfl

theorem addFile_eq (actor : Principal) (sessionID : Text) (input : AddFileInput) :
    addFile parseLogLine fileID batchError actor sessionID input =
      authorized actor sessionID true fun session =>
        match input.reader with
        | none => .ret (some (.error .invalid))
        | some upload =>
          match upload.stored with
          | none => .ret none
          | some storagePath =>
            importFile parseLogLine fileID batchError (input.row session.id storagePath) upload :=
  rfl

end

theorem AddFileInput.parseStatus_row (input : AddFileInput) (sessionID storagePath : Text) :
    (input.row sessionID storagePath).parseStatus = "pending".toList := rfl

/-! ## The course of an import -/

section

variable {parseLogLine : LineParser} {now : Nat} {fileID batchError sessionID : Text} {row : LogFileRow}
  {upload : Upload} {db : Db} {ds : List Delivery}

/-- The database behind the insertion of the file. -/
def withFile (fileID : Text) (row : LogFileRow) (db : Db) : Db :=
  { db with logFiles := db.logFiles.insert fileID row }

theorem insertFile_fresh (hfresh : db.logFiles.lookup fileID = none)
    (hsession : ∃ session, db.logSessions.lookup row.sessionID = some session)
    (hstatus : row.parseStatus ∈ ["pending".toList, "done".toList, "failed".toList]) :
    insertFile fileID row db = some (withFile fileID row db) := by
  obtain ⟨session, hsession⟩ := hsession
  rw [insertFile, if_neg]
  · rfl
  · rw [hfresh, hsession, not_or, not_or, not_not]
    exact ⟨by simp, by simp, hstatus⟩

theorem insertFile_taken (htaken : db.logFiles.lookup fileID ≠ none) : insertFile fileID row db = none := by
  rw [insertFile, if_pos]
  exact Or.inl (Option.isSome_iff_ne_none.2 htaken)

/-- A file that cannot be inserted. -/
theorem run_demandFile_refused {α : Type} {next : Prog Command (Outcome α)}
    (hstop : insertFile fileID row db = none ∨ ¬Arrives ds 0) :
    (demandFile fileID row next).run (Command.exec parseLogLine now) ds db = (none, db) := by
  rw [demandFile, Prog.run]
  rw [arrives_zero, not_not] at hstop
  rcases hstop with hrefused | hrefused
  · -- the database refuses the row, whether the client hears of it or not
    cases ds.headD .answered <;>
      simp [deliver, Command.exec, accepted, hrefused, Prog.run]
  · rw [hrefused]
    rfl

/-- A file whose insertion is not answered. -/
theorem run_demandFile_lost {α : Type} {next : Prog Command (Outcome α)} {db' : Db}
    (hinsert : insertFile fileID row db = some db') (hlost : Arrives ds 0 ∧ ¬Through ds 1) :
    (demandFile fileID row next).run (Command.exec parseLogLine now) ds db = (none, db') := by
  rw [arrives_zero, through_succ, and_iff_left through_zero] at hlost
  rw [demandFile, Prog.run]
  cases hhead : ds.headD .answered with
  | answered => exact absurd hhead hlost.2
  | refused => exact absurd hhead hlost.1
  | lost => simp [deliver, Command.exec, accepted, hinsert, Prog.run]

theorem run_demandFile_answered {α : Type} {next : Prog Command (Outcome α)} {db' : Db}
    (hinsert : insertFile fileID row db = some db') (hthrough : Through ds 1) :
    (demandFile fileID row next).run (Command.exec parseLogLine now) ds db =
      next.run (Command.exec parseLogLine now) ds.tail db' := by
  have hhead := (through_succ.1 hthrough).1
  rw [demandFile, Prog.run, hhead]
  simp [deliver, Command.exec, accepted, hinsert]

/-- A statement without a condition that the client waits for. -/
theorem run_demand {α β : Type} {c : Command β} {next : Prog Command (Outcome α)} :
    (demand c next).run (Command.exec parseLogLine now) ds db =
      if ds.headD .answered = .answered then
        next.run (Command.exec parseLogLine now) ds.tail (c.exec parseLogLine now db).2
      else (none, if ds.headD .answered = .lost then (c.exec parseLogLine now db).2 else db) := by
  rw [demand, Prog.run]
  cases ds.headD .answered <;> simp [deliver, Prog.run]

/-- A statement without a condition that the client does not wait for. -/
theorem run_ignore {α β : Type} {c : Command β} {next : Prog Command α} :
    (ignore c next).run (Command.exec parseLogLine now) ds db =
      next.run (Command.exec parseLogLine now) ds.tail
        (if ds.headD .answered = .refused then db else (c.exec parseLogLine now db).2) := by
  rw [ignore, Prog.run]
  cases ds.headD .answered <;> simp [deliver]

/-- Everything in front of the batches is answered. -/
theorem run_importFile_batches {db' : Db} (hinsert : insertFile fileID row db = some db')
    (hthrough : Through ds 2) :
    (importFile parseLogLine fileID batchError row upload).run (Command.exec parseLogLine now) ds db =
      (sendBatches row.sessionID fileID row.serviceName row.nodeName batchError
          (finishImport fileID row) (finishImport fileID row upload.lines.length upload.scanError)
          (upload.batches parseLogLine)).run (Command.exec parseLogLine now) (ds.drop 2)
        (markSession row.sessionID "indexing".toList none now db') := by
  obtain ⟨hfile, htail⟩ := through_succ.1 hthrough
  have hone : Through ds 1 := through_succ.2 ⟨hfile, through_zero⟩
  rw [importFile_eq, run_demandFile_answered hinsert hone, run_demand, if_pos (through_succ.1 htail).1]
  have hrest : ds.tail.tail = ds.drop 2 := by rw [← List.drop_one (l := ds.tail), List.drop_tail]
  rw [hrest]
  rfl

/-- The content of a file is there, and could be stored. -/
def AddFileInput.Stored (input : AddFileInput) (upload : Upload) (storagePath : Text) : Prop :=
  input.reader = some upload ∧ upload.stored = some storagePath

variable {actor : Principal} {input : AddFileInput}

/-- A call that is admitted comes to its import. -/
theorem run_addFile_import {storagePath : Text} (hadmits : Admits actor sessionID db)
    (hhead : ds.headD .answered = .answered) (hstored : input.Stored upload storagePath) :
    (addFile parseLogLine fileID batchError actor sessionID input).run
        (Command.exec parseLogLine now) ds db =
      (importFile parseLogLine fileID batchError (input.row sessionID storagePath) upload).run
        (Command.exec parseLogLine now) ds.tail db := by
  obtain ⟨session, hauthorize⟩ := hadmits
  rw [addFile_eq, run_authorized_ok hauthorize hhead, (authorize_found hauthorize).2.1]
  simp only [hstored.1, hstored.2]

/-- A call that does not come to its import does nothing. -/
theorem run_addFile_idle (parseLogLine : LineParser) (now : Nat) (fileID batchError : Text)
    (hidle : Admits actor sessionID db → ds.headD .answered = .answered →
      ∀ upload storagePath, ¬input.Stored upload storagePath) :
    ∃ outcome, ¬Succeeded outcome ∧ (addFile parseLogLine fileID batchError actor sessionID input).run
      (Command.exec parseLogLine now) ds db = (outcome, db) := by
  rw [addFile_eq]
  by_cases hin : Admits actor sessionID db ∧ ds.headD .answered = .answered
  · obtain ⟨⟨session, hauthorize⟩, hhead⟩ := hin
    rw [run_authorized_ok hauthorize hhead]
    have hnone := hidle ⟨session, hauthorize⟩ hhead
    cases hreader : input.reader with
    | none => exact ⟨some (.error .invalid), by simp [Succeeded], rfl⟩
    | some upload =>
      cases hstored : upload.stored with
      | none =>
        simp only [hstored]
        exact ⟨none, by simp [Succeeded], rfl⟩
      | some storagePath => exact absurd ⟨hreader, hstored⟩ (hnone upload storagePath)
  · exact run_authorized_stopped fun hadmits hhead => hin ⟨hadmits, hhead⟩

end

end Workbench.Logs
