import Mathlib.Logic.Relation
import Workbench.Lib.Commands
import Workbench.Storage.Stores

/-!
# Bringing lines into the log store

`AddFile`, `CreateTailFile`, `AppendTailLine` and `DeleteSession` of `api/internal/logs/store.go`, as programs that
send one statement or one transaction after the other, each of which can fail. What `ParseLogLine` reads of a line is
left open.
-/

set_option autoImplicit false

namespace Workbench.Logs

open Workbench.Lib Workbench.Storage
open Workbench.Identity (Principal)

/-! ## Statements -/

/-- The statements of the programs below; an answer says whether a statement went through. -/
inductive Command : Type → Type where
  | loadSession (id : Text) : Command (Except Err Session)
  | insertFile (id : Text) (row : LogFileRow) : Command Bool
  | markSession (id status : Text) (errorMessage : Option Text) : Command Unit
  | markFile (id parseStatus : Text) (totalLines : Nat → Nat) : Command Unit
  | insertBatch (sessionID fileID serviceName nodeName : Text) (lines : List ParsedLine) : Command Bool
  /-- The transaction of `AppendTailLine`. -/
  | appendLine (sessionID fileID raw : Text) : Command (Except Err Unit)
  | deleteSession (id : Text) : Command Bool

/-! ## Names -/

/-- `filepath.Base` and `path.Base`. -/
def base (path : Text) : Text :=
  if path = [] then ['.']
  else
    let last := (path.rdropWhile fun c => c = '/').rtakeWhile fun c => c ≠ '/'
    if last = [] then ['/'] else last

/-- What `(?i)\.(log|txt|gz)$` leaves of a name. -/
def dropExtension (name : Text) : Text :=
  let reversed := name.reverse.map asciiLower
  if (".log".toList.reverse <+: reversed) ∨ (".txt".toList.reverse <+: reversed) then
    name.take (name.length - 4)
  else if ".gz".toList.reverse <+: reversed then name.take (name.length - 3)
  else name

def inferServiceNode (fileName : Text) : Text × Text :=
  let stem := dropExtension (base fileName)
  match stem.splitOnP fun c => c = '-' || c = '_' with
  | service :: node :: _ =>
    if service ≠ [] ∧ node ≠ [] then (service, node)
    else if stem = [] then ("unknown".toList, "default".toList)
    else (stem, "default".toList)
  | _ => if stem = [] then ("unknown".toList, "default".toList) else (stem, "default".toList)

/-- The service and the node of a file: what is given, else what its name says. -/
def serviceNode (serviceName nodeName originalName : Text) : Text × Text :=
  let service := trimSpace serviceName
  let node := trimSpace nodeName
  if service = [] ∨ node = [] then
    let inferred := inferServiceNode originalName
    (if service = [] then inferred.1 else service, if node = [] then inferred.2 else node)
  else (service, node)

/-! ## Lines -/

/-- What `ParseLogLine` says of a line. -/
structure LineParse where
  timestampMs : Option Int
  level : Text
  message : Text
  deriving DecidableEq, Repr

/-- `ParseLogLine`: it gets the line and the timestamp before it. -/
abbrev LineParser := Text → Option Int → LineParse

/-- The row of a line; a line without a message is its own message. -/
def LineParse.row (parsed : LineParse) (raw : Text) (lineNumber : Nat) : ParsedLine where
  timestampMs := parsed.timestampMs
  level := parsed.level
  message := if parsed.message = [] then raw else parsed.message
  raw := raw
  lineNumber := lineNumber

/-- The timestamp of the last line of a file, to which a further line falls back. -/
def previousTimestamp (sessionID fileID : Text) (db : Db) : Option Int :=
  (((db.logEntries.rows.filter fun e =>
    e.sessionID = sessionID && e.sourceFileID = fileID).mergeSort
      fun a b => b.lineNumber ≤ a.lineNumber).head?).bind LogEntryRow.timestampMs

/-- `strings.TrimRight(raw, "\r\n")`. -/
def trimLine (raw : Text) : Text := raw.rdropWhile fun c => c = '\r' || c = '\n'

section

variable (parseLogLine : LineParser)

/-- `AppendTailLine` behind its authorization: one transaction, in which the number of the line is set. -/
def appendRaw (sessionID fileID raw : Text) (now : Nat) (db : Db) : Except Err Db :=
  let raw := trimLine raw
  appendTailLine sessionID fileID ((parseLogLine raw (previousTimestamp sessionID fileID db)).row raw 0)
    now db

/-! ## What a statement does -/

/-- `DELETE FROM log_sessions`. -/
def removeSession (id : Text) (db : Db) : Option Db :=
  if db.logSessions.lookup id = none then none
  else
    let after := { db with logSessions := db.logSessions.erase id }
    some (after.cascadeLogSessions (db.lostSession after))

/-- The answer of a statement that may be refused, and the state behind it. -/
def accepted (result : Option Db) (db : Db) : Bool × Db := (result.isSome, result.getD db)

def Command.exec (now : Nat) : ∀ {β : Type}, Command β → Db → β × Db
  | _, .loadSession id, db => (Logs.loadSession id db, db)
  | _, .insertFile id row, db => accepted (Logs.insertFile id row db) db
  | _, .markSession id status errorMessage, db => ((), Logs.markSession id status errorMessage now db)
  | _, .markFile id parseStatus totalLines, db => ((), Logs.markFile id parseStatus totalLines db)
  | _, .insertBatch sessionID fileID serviceName nodeName lines, db =>
    accepted (Logs.insertBatch sessionID fileID serviceName nodeName lines db) db
  | _, .appendLine sessionID fileID raw, db =>
    match appendRaw parseLogLine sessionID fileID raw now db with
    | .error e => (.error e, db)
    | .ok db => (.ok (), db)
  | _, .deleteSession id, db => accepted (removeSession id db) db

/-! ## Programs -/

/-- What a program comes to; nothing where something fails that is none of the store's own errors. -/
abbrev Outcome (α : Type) := Option (Except Err α)

section

variable {α : Type}

/-- `authorize`, and what comes behind it. -/
def authorized (actor : Principal) (sessionID : Text) (write : Bool)
    (next : Session → Prog Command (Outcome α)) : Prog Command (Outcome α) :=
  if actor.user.disabled then .ret (some (.error .forbidden))
  else
    .call (.loadSession sessionID) fun
      | none => .ret none
      | some (.error e) => .ret (some (.error e))
      | some (.ok session) =>
        match access actor write session with
        | .error e => .ret (some (.error e))
        | .ok session => next session

/-- What `AddFile` reads: whether it could be stored, the lines that the scanner gives, and whether the
scanner ended with an error. -/
structure Upload where
  stored : Option Text
  lines : List Text
  scanError : Option Text

def batchSize : Nat := 5000

/-- `flush`; `next` is told whether it went through. -/
def flush (sessionID fileID serviceName nodeName : Text) (batch : List ParsedLine)
    (next : Bool → Prog Command α) : Prog Command α :=
  if batch = [] then next true
  else .call (.insertBatch sessionID fileID serviceName nodeName batch) fun answer =>
    next (answer = some true)

/-- The loop of `indexFile` over the lines that are left, and what comes behind it; `batchError` is the text
of an error of `flush`. -/
def indexFile (sessionID fileID serviceName nodeName batchError : Text) (scanError : Option Text)
    (next : Nat → Option Text → Prog Command α) :
    (lineNumber : Nat) → (last : Option Int) → (batch : List ParsedLine) → List Text → Prog Command α
  | lineNumber, _, batch, [] =>
    match scanError with
    | some e => next lineNumber (some e)
    | none =>
      flush sessionID fileID serviceName nodeName batch fun flushed =>
        next lineNumber (if flushed then none else some batchError)
  | lineNumber, last, batch, raw :: rest =>
    let parsed := parseLogLine raw last
    let last := parsed.timestampMs.or last
    let batch := batch ++ [parsed.row raw (lineNumber + 1)]
    if batchSize ≤ batch.length then
      flush sessionID fileID serviceName nodeName batch fun flushed =>
        if flushed then
          indexFile sessionID fileID serviceName nodeName batchError scanError next (lineNumber + 1) last
            [] rest
        else next (lineNumber + 1) (some batchError)
    else
      indexFile sessionID fileID serviceName nodeName batchError scanError next (lineNumber + 1) last batch
        rest

structure AddFileInput where
  originalName : Text
  serviceName : Text
  nodeName : Text
  sourceType : Text
  reader : Option Upload

structure SourceFile where
  id : Text
  sessionID : Text
  serviceName : Text
  nodeName : Text
  originalName : Text
  totalLines : Nat
  parseStatus : Text
  sourceType : Text
  deriving DecidableEq, Repr

/-- A statement whose failure ends the program. -/
def demand {β : Type} (c : Command β) (next : Prog Command (Outcome α)) : Prog Command (Outcome α) :=
  .call c fun
    | none => .ret none
    | some _ => next

/-- A statement whose failure is ignored. -/
def ignore {β : Type} (c : Command β) (next : Prog Command α) : Prog Command α := .call c fun _ => next

/-- `INSERT INTO log_source_files`, which ends the program if it is refused. -/
def demandFile (fileID : Text) (row : LogFileRow) (next : Prog Command (Outcome α)) :
    Prog Command (Outcome α) :=
  .call (.insertFile fileID row) fun answer => if answer = some true then next else .ret none

end

/-- `AddFile` from the insertion of the file on. -/
def importFile (fileID batchError : Text) (row : LogFileRow) (upload : Upload) :
    Prog Command (Outcome SourceFile) :=
  demandFile fileID row <|
  demand (.markSession row.sessionID "indexing".toList none) <|
  indexFile parseLogLine row.sessionID fileID row.serviceName row.nodeName batchError upload.scanError
    (fun totalLines indexErr =>
      match indexErr with
      | some e =>
        ignore (.markFile fileID "failed".toList id) <|
        ignore (.markSession row.sessionID "failed".toList (some e)) <|
        .ret none
      | none =>
        demand (.markFile fileID "done".toList fun _ => totalLines) <|
        demand (.markSession row.sessionID "ready".toList none) <|
        .ret (some (.ok ⟨fileID, row.sessionID, row.serviceName, row.nodeName, row.originalName,
          totalLines, "done".toList, row.sourceType⟩)))
    0 none [] upload.lines

/-- `AddFile`, where `fileID` is what `newID` gives. -/
def addFile (fileID batchError : Text) (actor : Principal) (sessionID : Text) (input : AddFileInput) :
    Prog Command (Outcome SourceFile) :=
  authorized actor sessionID true fun session =>
    match input.reader with
    | none => .ret (some (.error .invalid))
    | some upload =>
      let originalName :=
        if trimSpace input.originalName = [] then "uploaded.log".toList
        else trimSpace input.originalName
      let (serviceName, nodeName) := serviceNode input.serviceName input.nodeName originalName
      let sourceType :=
        if trimSpace input.sourceType = [] then "local".toList else trimSpace input.sourceType
      match upload.stored with
      | none => .ret none
      | some storagePath =>
        importFile parseLogLine fileID batchError
          ⟨session.id, serviceName, nodeName, originalName, storagePath, 0, "pending".toList,
            sourceType⟩ upload

end

/-- `CreateTailFile`. -/
def createTailFile (fileID : Text) (actor : Principal) (sessionID remotePath serviceName nodeName : Text) :
    Prog Command (Outcome SourceFile) :=
  authorized actor sessionID true fun session =>
    let remotePath := trimSpace remotePath
    if remotePath = [] ∨ remotePath.head? ≠ some '/' ∨ Char.ofNat 0 ∈ remotePath then
      .ret (some (.error .invalid))
    else
      let originalName :=
        if base remotePath = ['.'] ∨ base remotePath = ['/'] then "remote.log".toList
        else base remotePath
      let (serviceName, nodeName) := serviceNode serviceName nodeName originalName
      let row : LogFileRow := ⟨session.id, serviceName, nodeName, originalName, remotePath, 0,
        "done".toList, "ssh_tail".toList⟩
      demandFile fileID row <|
      demand (.markSession session.id "ready".toList none) <|
      .ret (some (.ok ⟨fileID, session.id, serviceName, nodeName, originalName, 0, "done".toList,
        "ssh_tail".toList⟩))

/-- `AppendTailLine`. -/
def appendTail (actor : Principal) (sessionID fileID raw : Text) : Prog Command (Outcome Unit) :=
  authorized actor sessionID true fun session => .call (.appendLine session.id fileID raw) .ret

/-- `DeleteSession`. -/
def deleteLogSession (actor : Principal) (sessionID : Text) : Prog Command (Outcome Unit) :=
  authorized actor sessionID true fun _ =>
    .call (.deleteSession sessionID) fun answer =>
      .ret (answer.map fun found => if found then .ok () else .error .notFound)

example : inferServiceNode "/var/log/shop-api_n1.LOG".toList = ("shop".toList, "api".toList) := by decide

/-! ## What a run of a program does -/

/-- The statements that bring one file into one session. -/
def Command.ForFile (sessionID fileID : Text) : ∀ {β : Type}, Command β → Prop
  | _, .loadSession _ => True
  | _, .insertFile id row => id = fileID ∧ row.sessionID = sessionID
  | _, .markSession id _ _ => id = sessionID
  | _, .markFile id _ _ => id = fileID
  | _, .insertBatch session id _ _ _ => session = sessionID ∧ id = fileID
  | _, .appendLine _ _ _ => False
  | _, .deleteSession _ => False

section

variable {parseLogLine : LineParser} {now : Nat} {α : Type}

/-- A program that is authorized, or ends where it is not. -/
theorem run_authorized {actor : Principal} {sessionID : Text} {write : Bool}
    {next : Session → Prog Command (Outcome α)} (ds : List Delivery) (db : Db) :
    ((authorized actor sessionID write next).run (Command.exec parseLogLine now) ds db).2 = db ∨
      ∃ session ds', authorize actor sessionID write db = .ok session ∧
        (authorized actor sessionID write next).run (Command.exec parseLogLine now) ds db =
          (next session).run (Command.exec parseLogLine now) ds' db := by
  rw [authorized]
  by_cases hdisabled : actor.user.disabled = true
  · rw [if_pos hdisabled]
    exact Or.inl rfl
  · rw [if_neg hdisabled, Prog.run]
    cases ds.headD .answered with
    | refused => exact Or.inl rfl
    | lost => exact Or.inl rfl
    | answered =>
      -- behind the check of the user, `authorize` is the query and the check of the rights
      have hauthorize : authorize actor sessionID write db =
          (loadSession sessionID db >>= access actor write) := by
        rw [authorize, if_neg hdisabled]
      rw [hauthorize]
      simp only [deliver, Command.exec]
      cases loadSession sessionID db with
      | error e => exact Or.inl rfl
      | ok found =>
        dsimp only
        cases haccess : access actor write found with
        | error e => exact Or.inl rfl
        | ok session => exact Or.inr ⟨session, ds.tail, haccess, rfl⟩

section

variable {P : ∀ {β : Type}, Command β → Prop} {sessionID fileID serviceName nodeName batchError : Text}

theorem sends_flush {batch : List ParsedLine} {next : Bool → Prog Command α}
    (hbatch : ∀ lines, P (.insertBatch sessionID fileID serviceName nodeName lines)) (hnext : ∀ b, (next b).Sends P) :
    (flush sessionID fileID serviceName nodeName batch next).Sends P := by
  rw [flush]
  split
  · exact hnext true
  · exact ⟨hbatch batch, fun answer => hnext _⟩

theorem sends_indexFile {scanError : Option Text} {next : Nat → Option Text → Prog Command α}
    (hbatch : ∀ lines, P (.insertBatch sessionID fileID serviceName nodeName lines))
    (hnext : ∀ n e, (next n e).Sends P) (lines : List Text) :
    ∀ (lineNumber : Nat) (last : Option Int) (batch : List ParsedLine),
      (indexFile parseLogLine sessionID fileID serviceName nodeName batchError scanError next lineNumber
        last batch lines).Sends P := by
  induction lines with
  | nil =>
    intro lineNumber last batch
    cases scanError with
    | some e => exact hnext _ _
    | none =>
      rw [indexFile]
      apply sends_flush hbatch
      exact fun _ => hnext _ _
  | cons raw rest ih =>
    intro lineNumber last batch
    rw [indexFile]
    split
    · -- the batch is full: it is sent, and the loop goes on only if it went through
      apply sends_flush hbatch
      intro flushed
      cases flushed with
      | true => exact ih _ _ _
      | false => exact hnext _ _
    · exact ih _ _ _

theorem sends_demandFile {row : LogFileRow} {next : Prog Command (Outcome α)} (hfile : P (.insertFile fileID row))
    (hnext : next.Sends P) : (demandFile fileID row next).Sends P := by
  refine ⟨hfile, fun answer => ?_⟩
  dsimp only
  split
  · exact hnext
  · trivial

theorem sends_demand {β : Type} {c : Command β} {next : Prog Command (Outcome α)} (hc : P c) (hnext : next.Sends P) :
    (demand c next).Sends P := by
  refine ⟨hc, fun answer => ?_⟩
  cases answer with
  | none => trivial
  | some b => exact hnext

/-- The statements of an import: its row, the marks of its session and its file, and its batches. -/
theorem sends_importFile {row : LogFileRow} {upload : Upload} (hfile : P (.insertFile fileID row))
    (hsession : ∀ status e, P (.markSession row.sessionID status e))
    (hmark : ∀ parseStatus totalLines, P (.markFile fileID parseStatus totalLines))
    (hbatch : ∀ lines, P (.insertBatch row.sessionID fileID row.serviceName row.nodeName lines)) :
    (importFile parseLogLine fileID batchError row upload).Sends P := by
  apply sends_demandFile hfile
  apply sends_demand (hsession _ _)
  apply sends_indexFile hbatch
  intro totalLines indexErr
  cases indexErr with
  | some e => exact ⟨hmark _ _, fun _ => ⟨hsession _ _, fun _ => trivial⟩⟩
  | none =>
    apply sends_demand (hmark _ _)
    exact sends_demand (hsession _ _) trivial

end

/-! ## The programs among the steps of the stores -/

variable {env : World.Env} {w : World}

/-- A statement of `accepted`, where what it accepts is a step. -/
theorem steps_accepted {uploads : Table Text Text} {db : Db} {result : Option Db}
    (hrun : Relation.ReflTransGen (World.Step env) w ⟨db, uploads⟩)
    (hstep : ∀ db', result = some db' → World.Step env ⟨db, uploads⟩ ⟨db', uploads⟩) :
    Relation.ReflTransGen (World.Step env) w ⟨(accepted result db).2, uploads⟩ := by
  cases hresult : result with
  | none => exact hrun
  | some db' => exact hrun.tail (hstep db' hresult)

theorem steps_forFile {uploads : Table Text Text} {sessionID fileID : Text}
    (hupload : uploads.lookup fileID = some sessionID) {β : Type} (c : Command β) (db : Db)
    (hc : c.ForFile sessionID fileID)
    (hrun : Relation.ReflTransGen (World.Step env) w ⟨db, uploads⟩) :
    Relation.ReflTransGen (World.Step env) w ⟨(c.exec parseLogLine now db).2, uploads⟩ := by
  cases c with
  | loadSession id => exact hrun
  | insertFile id row =>
    obtain ⟨rfl, hsession⟩ := hc
    apply steps_accepted hrun
    intro db' hexec
    exact .insertFile (hsession ▸ hupload) hexec
  | markSession id status errorMessage =>
    have hid : id = sessionID := hc
    exact hrun.tail (.markSession (hid ▸ hupload))
  | markFile id parseStatus totalLines =>
    have hid : id = fileID := hc
    exact hrun.tail (.markFile (hid ▸ hupload))
  | insertBatch session id serviceName nodeName lines =>
    obtain ⟨rfl, rfl⟩ := hc
    apply steps_accepted hrun
    intro db' hexec
    exact .insertBatch hupload hexec
  -- no import sends the last two
  | appendLine session id raw => exact hc.elim
  | deleteSession id => exact hc.elim

/-- A program behind its authorization, for a file that gets a new id. -/
theorem steps_file {actor : Principal} {sessionID fileID : Text}
    (hnew : w.uploads.lookup fileID = none) {session : Session}
    (hauthorize : authorize actor sessionID true w.db = .ok session) {p : Prog Command (Outcome α)}
    (hp : p.Sends (Command.ForFile session.id fileID)) (ds : List Delivery) :
    ∃ uploads, (∀ id, id ≠ fileID → uploads.lookup id = w.uploads.lookup id) ∧
      Relation.ReflTransGen (World.Step env) w ⟨(p.run (Command.exec parseLogLine now) ds w.db).2, uploads⟩ := by
  refine ⟨w.uploads.insert fileID session.id, fun id hid => AList.lookup_insert_ne hid, ?_⟩
  have hstart : Relation.ReflTransGen (World.Step env) w ⟨w.db, w.uploads.insert fileID session.id⟩ :=
    .single (.startFile hauthorize hnew)
  exact p.run_invariant
    (fun c db hc hrun => steps_forFile (AList.lookup_insert _) c db hc hrun) ds w.db hp hstart

/-- However `AddFile` goes, and wherever it stops, it takes steps of the stores. -/
theorem addFile_steps {fileID batchError sessionID : Text} {actor : Principal} {input : AddFileInput}
    (hnew : w.uploads.lookup fileID = none) (ds : List Delivery) :
    ∃ uploads, (∀ id, id ≠ fileID → uploads.lookup id = w.uploads.lookup id) ∧
      Relation.ReflTransGen (World.Step env) w ⟨((addFile parseLogLine fileID batchError actor sessionID input).run
        (Command.exec parseLogLine now) ds w.db).2, uploads⟩ := by
  rw [addFile]
  rcases run_authorized ds w.db with hends | ⟨session, ds', hauthorize, hrun⟩
  · rw [hends]
    exact ⟨w.uploads, fun _ _ => rfl, Relation.ReflTransGen.refl⟩
  · rw [hrun]
    apply steps_file hnew hauthorize
    cases input.reader with
    | none => trivial
    | some upload =>
      dsimp only
      cases upload.stored with
      | none => trivial
      | some storagePath => exact sends_importFile ⟨rfl, rfl⟩ (fun _ _ => rfl) (fun _ _ => rfl) fun _ => ⟨rfl, rfl⟩

theorem createTailFile_steps {fileID sessionID remotePath serviceName nodeName : Text}
    {actor : Principal} (hnew : w.uploads.lookup fileID = none) (ds : List Delivery) :
    ∃ uploads, (∀ id, id ≠ fileID → uploads.lookup id = w.uploads.lookup id) ∧
      Relation.ReflTransGen (World.Step env) w ⟨((createTailFile fileID actor sessionID remotePath serviceName nodeName).run
        (Command.exec parseLogLine now) ds w.db).2, uploads⟩ := by
  rw [createTailFile]
  rcases run_authorized ds w.db with hends | ⟨session, ds', hauthorize, hrun⟩
  · rw [hends]
    exact ⟨w.uploads, fun _ _ => rfl, Relation.ReflTransGen.refl⟩
  · rw [hrun]
    apply steps_file hnew hauthorize
    dsimp only
    split
    · trivial
    · apply sends_demandFile
      · exact ⟨rfl, rfl⟩
      · exact sends_demand rfl trivial

theorem appendTail_steps {sessionID fileID raw : Text} {actor : Principal} (ds : List Delivery) :
    Relation.ReflTransGen (World.Step env) w
      ⟨((appendTail actor sessionID fileID raw).run (Command.exec parseLogLine now) ds w.db).2,
        w.uploads⟩ := by
  rw [appendTail]
  rcases run_authorized ds w.db with hends | ⟨session, ds', hauthorize, hrun⟩
  · rw [hends]
  · rw [hrun]
    have hline : Relation.ReflTransGen (World.Step env) w
        ⟨((Command.appendLine session.id fileID raw).exec parseLogLine now w.db).2, w.uploads⟩ := by
      rw [Command.exec]
      cases hexec : appendRaw parseLogLine session.id fileID raw now w.db with
      | error e => exact Relation.ReflTransGen.refl
      | ok db => exact .single (.appendTailLine hauthorize hexec)
    rw [Prog.run]
    -- where the answer is lost, the transaction was carried out all the same
    cases ds'.headD .answered with
    | answered => exact hline
    | refused => exact Relation.ReflTransGen.refl
    | lost => exact hline

theorem deleteLogSession_steps {sessionID : Text} {actor : Principal} (ds : List Delivery) :
    Relation.ReflTransGen (World.Step env) w
      ⟨((deleteLogSession actor sessionID).run (Command.exec parseLogLine now) ds w.db).2,
        w.uploads⟩ := by
  rw [deleteLogSession]
  rcases run_authorized ds w.db with hends | ⟨session, ds', hauthorize, hrun⟩
  · rw [hends]
  · rw [hrun]
    have hdelete : Relation.ReflTransGen (World.Step env) w
        ⟨((Command.deleteSession sessionID).exec parseLogLine now w.db).2, w.uploads⟩ := by
      apply steps_accepted Relation.ReflTransGen.refl
      intro db' hexec
      rw [removeSession] at hexec
      split at hexec
      · cases hexec
      · next hfound =>
          -- the statement does what `DeleteSession` does behind its authorization
          have hcall : deleteSession actor sessionID w.db = .ok db' := by
            rw [deleteSession, hauthorize, ← Option.some.inj hexec]
            exact if_neg hfound
          exact .deleteSession hcall
    rw [Prog.run]
    cases ds'.headD .answered with
    | answered => exact hdelete
    | refused => exact Relation.ReflTransGen.refl
    | lost => exact hdelete

end

end Workbench.Logs
