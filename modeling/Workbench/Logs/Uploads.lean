import Workbench.Logs.Calls
import Workbench.Logs.Paths
import Workbench.Storage.Deletion

/-!
# The upload directory

`saveUpload` of `api/internal/logs/store.go`, and the files that it leaves beside the database. A file is written
before its row, and nothing removes it: `Reachable.row_of_recorded` says how long it has a row.
-/

set_option autoImplicit false

namespace Workbench.Logs

open Workbench.Lib Workbench.Storage
open Workbench.Identity (Principal)

/-! ## Paths -/

/-- The characters that `safePathPart` keeps. -/
def isPathChar (c : Char) : Bool := isLetter c || isDigit c || c = '.' || c = '_' || c = '-'

/-- Each run of other characters gives way to one underscore; `inside` is true in such a run. -/
def replaceOthers (inside : Bool) : Text → Text
  | [] => []
  | c :: rest =>
    if isPathChar c then c :: replaceOthers false rest
    else if inside then replaceOthers true rest
    else '_' :: replaceOthers true rest

def safePathPart (value : Text) : Text :=
  let value := replaceOthers false (base (trimSpace value))
  if value = [] ∨ value = ['.'] then "file".toList else value

/-- What becomes of the writing of a file. -/
inductive Written where
  | notCreated
  | copyFailed
  | complete
  deriving DecidableEq, Repr

/-- `saveUpload`: the path that it returns, and the path of the file that is there behind it. -/
def saveUpload (uploadDir sessionID fileID originalName : Text) (written : Written) : Option Text × Option Text :=
  if uploadDir = [] then (none, none)
  else
    let dir := join uploadDir (safePathPart sessionID)
    let path := join dir (safePathPart fileID ++ '-' :: safePathPart originalName)
    match written with
    | .notCreated => (none, none)
    | .copyFailed => (none, some path)
    | .complete => (some path, some path)

example : (saveUpload "/data/log_uploads".toList "logs_a".toList "logfile_1".toList "../shop api.log".toList
    .complete).1 = some "/data/log_uploads/logs_a/logfile_1-shop_api.log".toList := by decide

/-- A path that is returned is that of a file. -/
theorem saveUpload_stored {uploadDir sessionID fileID originalName path : Text} {written : Written}
    (h : (saveUpload uploadDir sessionID fileID originalName written).1 = some path) :
    (saveUpload uploadDir sessionID fileID originalName written).2 = some path := by
  rw [saveUpload] at h ⊢
  split
  · next hdir =>
      rw [if_pos hdir] at h
      cases h
  · next hdir =>
      rw [if_neg hdir] at h
      cases written with
      | notCreated => cases h
      | copyFailed => cases h
      | complete => exact h

/-! ## The database and the directory -/

/-- A file of the directory: the call that wrote it last, whether the row of that call was ever there, and whether
its session was deleted since. -/
structure SavedFile where
  sessionID : Text
  fileID : Text
  recorded : Bool
  dropped : Bool
  deriving DecidableEq, Repr

/-- The file behind a step of the stores. -/
def SavedFile.behind (f : SavedFile) (before after : Db) : SavedFile :=
  { f with
    recorded := f.recorded || (after.logFiles.lookup f.fileID).isSome
    dropped := f.dropped || before.lostSession after f.sessionID }

/-- The stores with the files under the upload directory by their paths. -/
structure Site where
  world : World
  disk : Text → Option SavedFile

namespace Site

def init : Site := ⟨World.init, fun _ => none⟩

/-- No step of the stores touches the directory. -/
def follow (s : Site) (w : World) : Site := ⟨w, fun path => (s.disk path).map fun f => f.behind s.world.db w.db⟩

/-- A row of a saved file that comes in has the path of the file. -/
def TakesPaths (s : Site) (w : World) : Prop :=
  ∀ path f row, s.disk path = some f → s.world.db.logFiles.lookup f.fileID = none →
    w.db.logFiles.lookup f.fileID = some row → row.storagePath = path

/-- One statement or one transaction of any call, or the writing of a file, behind which its row comes in. -/
inductive Step (env : World.Env) (uploadDir : Text) (s : Site) : Site → Prop
  | store {w : World} : World.Step env s.world w → s.TakesPaths w → Step env uploadDir s (s.follow w)
  | saveUpload {sessionID fileID originalName path : Text} {written : Written} :
      s.world.uploads.lookup fileID = some sessionID → s.world.db.logFiles.lookup fileID = none →
      (saveUpload uploadDir sessionID fileID originalName written).2 = some path →
        Step env uploadDir s
          { s with disk := Function.update s.disk path (some ⟨sessionID, fileID, false, false⟩) }

/-- The states that the calls reach from an empty database and an empty directory, in any interleaving, and wherever
one of them stops. -/
def Reachable (env : World.Env) (uploadDir : Text) : Site → Prop := Relation.ReflTransGen (Step env uploadDir) init

/-- Every file under the upload directory is the `storage_path` of a row. -/
def NoOrphans (s : Site) : Prop :=
  ∀ path f, s.disk path = some f → ∃ id row, s.world.db.logFiles.lookup id = some row ∧ row.storagePath = path

end Site

/-! ## What a step of the stores leaves of the rows -/

/-- The row of a file is there with the same path and the same session. -/
def KeepsRow (id : Text) (row : LogFileRow) (db : Db) : Prop :=
  ∃ row', db.logFiles.lookup id = some row' ∧ row'.storagePath = row.storagePath ∧ row'.sessionID = row.sessionID

/-- Every row stays. -/
def RowsStay (a b : Db) : Prop := ∀ id row, a.logFiles.lookup id = some row → KeepsRow id row b

/-- Every row stays whose session stays. -/
def RowsFollow (a b : Db) : Prop :=
  ∀ id row, a.logFiles.lookup id = some row → a.lostSession b row.sessionID = false → KeepsRow id row b

theorem RowsStay.follow {a b : Db} (h : RowsStay a b) : RowsFollow a b := fun id row hrow _ => h id row hrow

theorem RowsStay.trans {a b c : Db} (h : RowsStay a b) (h' : RowsStay b c) : RowsStay a c := by
  intro id row hrow
  obtain ⟨row₁, hrow₁, hpath₁, hsession₁⟩ := h id row hrow
  obtain ⟨row₂, hrow₂, hpath₂, hsession₂⟩ := h' id row₁ hrow₁
  exact ⟨row₂, hrow₂, hpath₂.trans hpath₁, hsession₂.trans hsession₁⟩

theorem rowsStay_of_eq {a b : Db} (h : b.logFiles = a.logFiles) : RowsStay a b := by
  intro id row hrow
  exact ⟨row, by rwa [h], rfl, rfl⟩

theorem rowsStay_markFile (fileID parseStatus : Text) (totalLines : Nat → Nat) (db : Db) :
    RowsStay db (markFile fileID parseStatus totalLines db) := by
  intro id row hrow
  rw [KeepsRow, markFile, Table.lookup_alter, hrow]
  split
  · exact ⟨_, rfl, rfl, rfl⟩
  · exact ⟨row, rfl, rfl, rfl⟩

theorem rowsStay_insertFile {fileID : Text} {new : LogFileRow} {db db' : Db}
    (h : insertFile fileID new db = some db') : RowsStay db db' := by
  obtain ⟨hfree, rfl⟩ := insertFile_ok h
  intro id row hrow
  have hne : id ≠ fileID := by
    rintro rfl
    cases hfree.symm.trans hrow
  exact ⟨row, (AList.lookup_insert_ne hne).trans hrow, rfl, rfl⟩

/-- The one row that an insertion brings in. -/
theorem new_of_insertFile {fileID id : Text} {new row : LogFileRow} {db db' : Db}
    (h : insertFile fileID new db = some db') (hnone : db.logFiles.lookup id = none)
    (hrow : db'.logFiles.lookup id = some row) : id = fileID ∧ row = new := by
  obtain ⟨-, rfl⟩ := insertFile_ok h
  by_cases hid : id = fileID
  · subst hid
    rw [AList.lookup_insert] at hrow
    exact ⟨rfl, (Option.some.inj hrow).symm⟩
  · rw [AList.lookup_insert_ne hid, hnone] at hrow
    cases hrow

theorem rowsStay_appendTailLine {sessionID fileID : Text} {line : ParsedLine} {now : Nat} {db db' : Db}
    (h : appendTailLine sessionID fileID line now db = .ok db') : RowsStay db db' := by
  obtain ⟨file, mid, -, -, hbatch, rfl⟩ := appendTailLine_ok h
  have hlines : RowsStay db mid := rowsStay_of_eq (World.insertBatch_adds hbatch).1.logFiles
  exact hlines.trans (rowsStay_markFile _ _ _ _)

/-- The cascade takes the rows of the sessions that are gone, and no others. -/
theorem rowsFollow_cascade {a b : Db} (h : b.logFiles = a.logFiles) :
    RowsFollow a (b.cascadeLogSessions (a.lostSession b)) := by
  intro id row hrow hkept
  have hstays : ¬ a.lostSession b row.sessionID = true := Bool.eq_false_iff.1 hkept
  refine ⟨row, ?_, rfl, rfl⟩
  rw [Db.cascadeLogSessions, Table.lookup_alter, if_pos rfl, h, hrow]
  exact if_neg hstays

/-- What any step of the stores does to the rows: the step lemma of the invariant below. -/
theorem rowsFollow_step {env : World.Env} {w w' : World} (h : World.Step env w w') : RowsFollow w.db w'.db := by
  cases h with
  | identity _ => exact rowsFollow_cascade rfl
  | createConnection hexec => exact (rowsStay_of_eq (World.create_change hexec).logs.logFiles).follow
  | updateConnection hexec => exact (rowsStay_of_eq (World.update_change hexec).logs.logFiles).follow
  | deleteConnection hexec => exact (rowsStay_of_eq (World.delete_change hexec).logs.logFiles).follow
  | useSecret hexec => exact (rowsStay_of_eq (World.secretForUse_change hexec).logs.logFiles).follow
  | createSession hexec => exact (rowsStay_of_eq (World.createSession_logs hexec).logFiles).follow
  | startFile _ _ => exact (rowsStay_of_eq rfl).follow
  | insertFile _ hexec => exact (rowsStay_insertFile hexec).follow
  | insertBatch _ hexec => exact (rowsStay_of_eq (World.insertBatch_adds hexec).1.logFiles).follow
  | markFile _ => exact (rowsStay_markFile _ _ _ _).follow
  | markSession _ =>
    apply RowsStay.follow
    exact rowsStay_of_eq rfl
  | appendTailLine _ hexec => exact (rowsStay_appendTailLine hexec).follow
  | deleteSession hexec =>
    obtain ⟨session, after, -, rfl, rfl⟩ := deleteSession_ok hexec
    exact rowsFollow_cascade rfl

/-- The id of a file stays with its session. -/
theorem uploads_step {env : World.Env} {w w' : World} (h : World.Step env w w') {fileID sessionID : Text}
    (hupload : w.uploads.lookup fileID = some sessionID) : w'.uploads.lookup fileID = some sessionID := by
  cases h with
  | @startFile _ _ newID _ _ hnew =>
    have hne : fileID ≠ newID := by
      rintro rfl
      cases hnew.symm.trans hupload
    exact (AList.lookup_insert_ne hne).trans hupload
  | _ => exact hupload

/-! ## The files with a row -/

namespace Site

/-- A file whose row came in has it as long as its session is not deleted; a file whose row did not come in has
none. -/
structure Recorded (s : Site) : Prop where
  consistent : s.world.Consistent
  uploads : ∀ path f, s.disk path = some f → s.world.uploads.lookup f.fileID = some f.sessionID
  unrecorded : ∀ path f, s.disk path = some f → f.recorded = false → s.world.db.logFiles.lookup f.fileID = none
  rows : ∀ path f, s.disk path = some f → f.recorded = true → f.dropped = false →
    ∃ row, s.world.db.logFiles.lookup f.fileID = some row ∧ row.storagePath = path ∧ row.sessionID = f.sessionID

variable {env : World.Env} {uploadDir : Text} {s s' : Site}

theorem Recorded.follow {w : World} (h : s.Recorded) (hstep : World.Step env s.world w) (hpaths : s.TakesPaths w) :
    (s.follow w).Recorded := by
  have hconsistent : w.Consistent := hstep.consistent h.consistent
  have hbefore : ∀ {path : Text} {f : SavedFile}, (s.follow w).disk path = some f →
      ∃ g, s.disk path = some g ∧ f = g.behind s.world.db w.db := by
    intro path f hf
    obtain ⟨g, hg, heq⟩ := Option.map_eq_some_iff.1 hf
    exact ⟨g, hg, heq.symm⟩
  constructor
  · exact hconsistent
  · intro path f hf
    obtain ⟨g, hg, rfl⟩ := hbefore hf
    exact uploads_step hstep (h.uploads path g hg)
  · intro path f hf hunrecorded
    obtain ⟨g, hg, rfl⟩ := hbefore hf
    have hnone := (Bool.or_eq_false_iff.1 hunrecorded).2
    rwa [Option.isSome_eq_false_iff, Option.isNone_iff_eq_none] at hnone
  · intro path f hf hrecorded hlive
    obtain ⟨g, hg, rfl⟩ := hbefore hf
    obtain ⟨hlive, hkept⟩ := Bool.or_eq_false_iff.1 hlive
    cases hg' : g.recorded with
    | true =>
      -- the row was there, and the step leaves it
      obtain ⟨row, hrow, hpath, hsession⟩ := h.rows path g hg hg' hlive
      rw [← hsession] at hkept
      obtain ⟨row', hrow', hpath', hsession'⟩ := rowsFollow_step hstep _ row hrow hkept
      exact ⟨row', hrow', hpath'.trans hpath, hsession'.trans hsession⟩
    | false =>
      -- the step brought the row in
      have hsome : (w.db.logFiles.lookup g.fileID).isSome = true := by
        simpa [SavedFile.behind, hg'] using hrecorded
      obtain ⟨row, hrow⟩ := Option.isSome_iff_exists.1 hsome
      refine ⟨row, hrow, hpaths path g row hg (h.unrecorded path g hg hg') hrow, ?_⟩
      have hold := uploads_step hstep (h.uploads path g hg)
      exact Option.some.inj ((hconsistent.files _ row hrow).symm.trans hold)

theorem Recorded.saveUpload {path sessionID fileID : Text} (h : s.Recorded)
    (hupload : s.world.uploads.lookup fileID = some sessionID) (hnew : s.world.db.logFiles.lookup fileID = none) :
    Recorded { s with disk := Function.update s.disk path (some ⟨sessionID, fileID, false, false⟩) } := by
  have hfile : ∀ {other : Text} {f : SavedFile},
      Function.update s.disk path (some ⟨sessionID, fileID, false, false⟩) other = some f →
        f = ⟨sessionID, fileID, false, false⟩ ∨ s.disk other = some f := by
    intro other f hf
    rw [Function.update_apply] at hf
    split at hf
    · exact Or.inl (Option.some.inj hf).symm
    · exact Or.inr hf
  constructor
  · exact h.consistent
  · intro other f hf
    rcases hfile hf with rfl | hold
    · exact hupload
    · exact h.uploads other f hold
  · intro other f hf hunrecorded
    rcases hfile hf with rfl | hold
    · exact hnew
    · exact h.unrecorded other f hold hunrecorded
  · intro other f hf hrecorded hlive
    rcases hfile hf with rfl | hold
    · cases hrecorded
    · exact h.rows other f hold hrecorded hlive

theorem Step.recorded (hstep : Step env uploadDir s s') (h : s.Recorded) : s'.Recorded := by
  cases hstep with
  | store hworld hpaths => exact h.follow hworld hpaths
  | saveUpload hupload hnew _ => exact h.saveUpload hupload hnew

theorem recorded_init : init.Recorded := by
  constructor
  · exact ⟨fun _ _ hf => (by cases hf), fun _ _ he => (by cases he)⟩
  · rintro path f ⟨⟩
  · rintro path f ⟨⟩
  · rintro path f ⟨⟩

theorem Reachable.recorded (h : Reachable env uploadDir s) : s.Recorded := by
  induction h with
  | refl => exact recorded_init
  | tail _ hlast ih => exact hlast.recorded ih

/-! ## The calls -/

theorem takesPaths_of_rows {w : World}
    (h : ∀ id, s.world.db.logFiles.lookup id = none → w.db.logFiles.lookup id = none) : s.TakesPaths w := by
  intro path f row _ hnone hrow
  rw [h _ hnone] at hrow
  cases hrow

theorem lookup_cascade_none {db : Db} {gone : Text → Bool} {id : Text} (h : db.logFiles.lookup id = none) :
    (db.cascadeLogSessions gone).logFiles.lookup id = none := by
  rw [Db.cascadeLogSessions, Table.lookup_alter, if_pos rfl, h]
  rfl

theorem Reachable.deleteSession (h : Reachable env uploadDir s) {actor : Principal} {sessionID : Text} {db : Db}
    (hexec : deleteSession actor sessionID s.world.db = .ok db) :
    Reachable env uploadDir (s.follow { s.world with db := db }) := by
  refine h.tail (.store (.deleteSession hexec) (takesPaths_of_rows fun id hnone => ?_))
  obtain ⟨session, after, -, rfl, rfl⟩ := deleteSession_ok hexec
  exact lookup_cascade_none hnone

/-- What the stores reach, they reach with an empty directory. -/
theorem reachable_of_world {w : World} (h : World.Reachable env w) :
    Reachable env uploadDir ⟨w, fun _ => none⟩ := by
  induction h with
  | refl => exact .refl
  | tail _ hlast ih => exact ih.tail (.store hlast (by rintro path f row ⟨⟩))

end Site

/-! ## `AddFile` -/

/-- The statements of an import whose file is at a path. -/
def Command.ForUpload (sessionID fileID path : Text) : ∀ {β : Type}, Command β → Prop
  | _, .insertFile id row => id = fileID ∧ row.sessionID = sessionID ∧ row.storagePath = path
  | _, c => c.ForFile sessionID fileID

/-- The name under which `AddFile` saves its file. -/
def AddFileInput.fileName (input : AddFileInput) : Text :=
  if trimSpace input.originalName = [] then "uploaded.log".toList else trimSpace input.originalName

/-- The input with what `saveUpload` returned. -/
def AddFileInput.savedAs (input : AddFileInput) (stored : Option Text) : AddFileInput :=
  { input with reader := input.reader.map fun upload => { upload with stored := stored } }

/-- The file that a call leaves, if it comes as far as `saveUpload`. -/
def createdFile (uploadDir fileID : Text) (actor : Principal) (sessionID : Text) (input : AddFileInput)
    (written : Written) (ds : List Delivery) (db : Db) : Option Text :=
  match authorize actor sessionID true db, ds.headD .answered, input.reader with
  | .ok session, .answered, some _ => (saveUpload uploadDir session.id fileID input.fileName written).2
  | _, _, _ => none

theorem createdFile_eq_some {uploadDir fileID sessionID path : Text} {actor : Principal} {input : AddFileInput}
    {written : Written} {ds : List Delivery} {db : Db} :
    createdFile uploadDir fileID actor sessionID input written ds db = some path ↔
      Admits actor sessionID db ∧ ds.headD .answered = .answered ∧ input.reader.isSome = true ∧
        (saveUpload uploadDir sessionID fileID input.fileName written).2 = some path := by
  rw [createdFile, Admits]
  cases hauthorize : authorize actor sessionID true db with
  | error e => simp
  | ok session =>
    have hid : session.id = sessionID := (authorize_found hauthorize).2.1
    cases ds.headD .answered with
    | refused => simp
    | lost => simp
    | answered => cases input.reader <;> simp [hid]

namespace Site

variable {env : World.Env} {uploadDir : Text} {s : Site}

/-- The call has come to a state, with the file at its path and no other file touched. -/
def Comes (env : World.Env) (uploadDir : Text) (s : Site) (uploads : Table Text Text) (fileID path : Text)
    (db : Db) : Prop :=
  ∃ disk, Relation.ReflTransGen (Step env uploadDir) s ⟨⟨db, uploads⟩, disk⟩ ∧
    (∀ other, (disk other).isSome = true ↔ (s.disk other).isSome = true ∨ other = path) ∧
    ∀ other f, disk other = some f → f.fileID = fileID → other = path

section

variable {uploads : Table Text Text} {fileID path : Text} {db : Db}

theorem Comes.step {db' : Db} (h : Comes env uploadDir s uploads fileID path db)
    (hstep : World.Step env ⟨db, uploads⟩ ⟨db', uploads⟩)
    (hrows : ∀ id row, db.logFiles.lookup id = none → db'.logFiles.lookup id = some row →
      id = fileID ∧ row.storagePath = path) : Comes env uploadDir s uploads fileID path db' := by
  obtain ⟨disk, hsteps, hpaths, hown⟩ := h
  have htakes : Site.TakesPaths ⟨⟨db, uploads⟩, disk⟩ ⟨db', uploads⟩ := by
    intro other f row hf hnone hrow
    obtain ⟨hid, hpath⟩ := hrows _ row hnone hrow
    rw [hown other f hf hid]
    exact hpath
  refine ⟨_, hsteps.tail (.store hstep htakes), ?_, ?_⟩
  · intro other
    rw [← hpaths other, Option.isSome_map]
  · intro other f hf hid
    obtain ⟨g, hg, rfl⟩ := Option.map_eq_some_iff.1 hf
    exact hown other g hg hid

theorem Comes.step_of_eq {db' : Db} (h : Comes env uploadDir s uploads fileID path db)
    (hstep : World.Step env ⟨db, uploads⟩ ⟨db', uploads⟩) (heq : db'.logFiles = db.logFiles) :
    Comes env uploadDir s uploads fileID path db' := by
  apply h.step hstep
  intro id row hnone hrow
  rw [heq, hnone] at hrow
  cases hrow

/-- Each statement of the import is a step, or is refused. -/
theorem Comes.exec {parseLogLine : LineParser} {now : Nat} {sessionID : Text}
    (hupload : uploads.lookup fileID = some sessionID) {β : Type} (c : Command β) (db : Db)
    (hc : c.ForUpload sessionID fileID path) (h : Comes env uploadDir s uploads fileID path db) :
    Comes env uploadDir s uploads fileID path (c.exec parseLogLine now db).2 := by
  cases c with
  | loadSession id => exact h
  | insertFile id row =>
    obtain ⟨rfl, hsession, hpath⟩ := hc
    rw [Command.exec]
    cases hexec : insertFile id row db with
    | none => exact h
    | some db' =>
      refine h.step (.insertFile (hsession ▸ hupload) hexec) fun other row' hnone hrow => ?_
      obtain ⟨hid, rfl⟩ := new_of_insertFile hexec hnone hrow
      exact ⟨hid, hpath⟩
  | markSession id status errorMessage =>
    have hid : id = sessionID := hc
    exact h.step_of_eq (.markSession (hid ▸ hupload)) rfl
  | markFile id parseStatus totalLines =>
    have hid : id = fileID := hc
    refine h.step (.markFile (hid ▸ hupload)) fun other row hnone hrow => ?_
    rw [Command.exec, markFile, Table.lookup_alter, hnone] at hrow
    split at hrow <;> cases hrow
  | insertBatch session id serviceName nodeName lines =>
    obtain ⟨rfl, rfl⟩ := hc
    rw [Command.exec]
    cases hexec : insertBatch session id serviceName nodeName lines db with
    | none => exact h
    | some db' => exact h.step_of_eq (.insertBatch hupload hexec) (World.insertBatch_adds hexec).1.logFiles
  -- no import sends the last two
  | appendLine session id raw => exact hc.elim
  | deleteSession id => exact hc.elim

end

section

variable {fileID sessionID path : Text} {actor : Principal} {input : AddFileInput} {written : Written}
  {ds : List Delivery}

/-- A call gets its id and writes its file. -/
theorem comes_saveUpload (env : World.Env) {originalName : Text} (hs : s.Recorded)
    (hnew : s.world.uploads.lookup fileID = none) (hadmits : Admits actor sessionID s.world.db)
    (hsaved : (saveUpload uploadDir sessionID fileID originalName written).2 = some path) :
    Comes env uploadDir s (s.world.uploads.insert fileID sessionID) fileID path s.world.db := by
  obtain ⟨session, hauthorize⟩ := hadmits
  have hid : session.id = sessionID := (authorize_found hauthorize).2.1
  have hstart : Step env uploadDir s (s.follow ⟨s.world.db, s.world.uploads.insert fileID session.id⟩) :=
    .store (.startFile hauthorize hnew) (takesPaths_of_rows fun _ hnone => hnone)
  rw [hid] at hstart
  have hnorow : s.world.db.logFiles.lookup fileID = none := by
    by_contra hrow
    obtain ⟨row, hrow⟩ := Option.ne_none_iff_exists'.1 hrow
    cases hnew.symm.trans (hs.consistent.files fileID row hrow)
  refine ⟨_, (Relation.ReflTransGen.single hstart).tail
    (.saveUpload (AList.lookup_insert _) hnorow hsaved), fun other => ?_, fun other f hf hfile => ?_⟩
  · rw [Function.update_apply]
    by_cases hpath : other = path
    · simp [hpath]
    · simp [hpath, follow]
  · rw [Function.update_apply] at hf
    split at hf
    · assumption
    · -- the other files are of calls that came before
      obtain ⟨g, hg, rfl⟩ := Option.map_eq_some_iff.1 hf
      have hold := hs.uploads other g hg
      rw [show g.fileID = fileID from hfile, hnew] at hold
      cases hold

/-- A call that leaves no file does nothing. -/
theorem run_addFile_createdFile_none {parseLogLine : LineParser} {now : Nat} {batchError : Text} {db : Db}
    (h : createdFile uploadDir fileID actor sessionID input written ds db = none) :
    ((addFile parseLogLine fileID batchError actor sessionID (input.savedAs
      (saveUpload uploadDir sessionID fileID input.fileName written).1)).run (Command.exec parseLogLine now) ds db).2 =
        db := by
  have hidle : Admits actor sessionID db → ds.headD .answered = .answered → ∀ upload storagePath, ¬ (input.savedAs
      (saveUpload uploadDir sessionID fileID input.fileName written).1).Stored upload storagePath := by
    rintro hadmits hhead upload storagePath ⟨hreader, hstored⟩
    obtain ⟨given, hgiven, rfl⟩ := Option.map_eq_some_iff.1 hreader
    have hcreated := createdFile_eq_some.2 ⟨hadmits, hhead, by rw [hgiven]; rfl, saveUpload_stored hstored⟩
    cases h.symm.trans hcreated
  obtain ⟨outcome, -, hrun⟩ := run_addFile_idle parseLogLine now fileID batchError hidle
  rw [hrun]

/-- What a call does behind the writing of its file. -/
theorem comes_run (parseLogLine : LineParser) (now : Nat) (batchError : Text) {uploads : Table Text Text} {db : Db}
    (hupload : uploads.lookup fileID = some sessionID)
    (hcreated : createdFile uploadDir fileID actor sessionID input written ds db = some path)
    (h : Comes env uploadDir s uploads fileID path db) :
    Comes env uploadDir s uploads fileID path ((addFile parseLogLine fileID batchError actor sessionID
      (input.savedAs (saveUpload uploadDir sessionID fileID input.fileName written).1)).run
        (Command.exec parseLogLine now) ds db).2 := by
  obtain ⟨hadmits, hhead, hreader, hsaved⟩ := createdFile_eq_some.1 hcreated
  obtain ⟨upload, hreader⟩ := Option.isSome_iff_exists.1 hreader
  cases hstored : (saveUpload uploadDir sessionID fileID input.fileName written).1 with
  | none =>
    -- the copy failed
    have hidle : ∀ upload storagePath, ¬ (input.savedAs none).Stored upload storagePath := by
      rintro upload storagePath ⟨hgiven, hnone⟩
      obtain ⟨given, -, rfl⟩ := Option.map_eq_some_iff.1 hgiven
      cases hnone
    obtain ⟨outcome, -, hrun⟩ := run_addFile_idle parseLogLine now fileID batchError fun _ _ => hidle
    rw [hrun]
    exact h
  | some storagePath =>
    have hpath : storagePath = path := by
      have hfile := saveUpload_stored hstored
      rw [hsaved] at hfile
      exact (Option.some.inj hfile).symm
    subst hpath
    have hinput : (input.savedAs (some storagePath)).Stored { upload with stored := some storagePath } storagePath :=
      ⟨by rw [AddFileInput.savedAs, hreader]; rfl, rfl⟩
    rw [run_addFile_import hadmits hhead hinput]
    refine Prog.run_invariant (fun c db hc hcomes => hcomes.exec hupload c db hc) _ _ db ?_ h
    exact sends_importFile ⟨rfl, rfl, rfl⟩ (fun _ _ => rfl) (fun _ _ => rfl) fun _ => ⟨rfl, rfl⟩

end

/-- **However `AddFile` goes, and wherever it stops, it takes steps of the calls: its file comes first, its row
behind it.** -/
theorem addFile_writes_then_inserts (parseLogLine : LineParser) (now : Nat) (fileID batchError sessionID : Text)
    (actor : Principal) (input : AddFileInput) (written : Written) (ds : List Delivery) (hs : s.Recorded)
    (hnew : s.world.uploads.lookup fileID = none) :
    ∃ s', Relation.ReflTransGen (Step env uploadDir) s s' ∧
      s'.world.db = ((addFile parseLogLine fileID batchError actor sessionID (input.savedAs
        (saveUpload uploadDir sessionID fileID input.fileName written).1)).run
          (Command.exec parseLogLine now) ds s.world.db).2 ∧
      ∀ path, (s'.disk path).isSome = true ↔ (s.disk path).isSome = true ∨
        createdFile uploadDir fileID actor sessionID input written ds s.world.db = some path := by
  cases hcreated : createdFile uploadDir fileID actor sessionID input written ds s.world.db with
  | none => exact ⟨s, .refl, (run_addFile_createdFile_none hcreated).symm, by simp⟩
  | some path =>
    obtain ⟨hadmits, -, -, hsaved⟩ := createdFile_eq_some.1 hcreated
    have hcomes := comes_run parseLogLine now batchError (AList.lookup_insert s.world.uploads) hcreated
      (comes_saveUpload env hs hnew hadmits hsaved)
    obtain ⟨disk, hsteps, hpaths, -⟩ := hcomes
    refine ⟨_, hsteps, rfl, fun other => ?_⟩
    rw [hpaths other, Option.some.injEq, eq_comm (a := path)]

/-! ## Files and their rows -/

/-- **In every state that the calls reach, a file whose row went in and whose session was not deleted since is the
`storage_path` of that row.** -/
theorem uploads_have_rows (env : World.Env) (uploadDir : Text) (s : Site) (h : Reachable env uploadDir s) (path : Text)
    (f : SavedFile) (hf : s.disk path = some f) (hrecorded : f.recorded = true) (hlive : f.dropped = false) :
    ∃ row, s.world.db.logFiles.lookup f.fileID = some row ∧ row.storagePath = path ∧ row.sessionID = f.sessionID :=
  h.recorded.rows path f hf hrecorded hlive

def dataDir : Text := "/data/log_uploads".toList

def appLog : AddFileInput := ⟨"app.log".toList, [], [], [], some ⟨none, ["started".toList], none⟩⟩

def appPath : Text := "/data/log_uploads/logs_a/logfile_1-app.log".toList

/-- The directory behind the writing of that file. -/
def appDisk : Text → Option SavedFile :=
  Function.update (fun _ => none) appPath (some ⟨"logs_a".toList, "logfile_1".toList, false, false⟩)

def startedWorld : World := ⟨World.oneSession.db, World.oneSession.uploads.insert "logfile_1".toList "logs_a".toList⟩

/-- The upload has come to its row. -/
def insertedSite : Site :=
  Site.follow ⟨startedWorld, appDisk⟩
    { startedWorld with db := withFile "logfile_1".toList (appLog.row "logs_a".toList appPath) World.oneSession.db }

theorem reachable_insertedSite : Reachable ⟨default, default⟩ dataDir insertedSite := by
  obtain ⟨session, hauthorize, hid⟩ : ∃ session, authorize World.bobPrincipal "logs_a".toList true
      World.oneSession.db = .ok session ∧ session.id = "logs_a".toList := ⟨_, rfl, rfl⟩
  have hstarted : World.Reachable ⟨default, default⟩ startedWorld := by
    rw [startedWorld, ← hid]
    exact World.reachable_oneSession.tail (.startFile hauthorize rfl)
  have hsaved : (saveUpload dataDir "logs_a".toList "logfile_1".toList appLog.fileName .complete).2 =
      some appPath := rfl
  have hwritten : Reachable ⟨default, default⟩ dataDir ⟨startedWorld, appDisk⟩ :=
    (reachable_of_world hstarted).tail (.saveUpload (AList.lookup_insert _) rfl hsaved)
  have hinsert : insertFile "logfile_1".toList (appLog.row "logs_a".toList appPath) startedWorld.db =
      some (withFile "logfile_1".toList (appLog.row "logs_a".toList appPath) World.oneSession.db) := rfl
  refine hwritten.tail (.store (.insertFile (AList.lookup_insert _) hinsert) ?_)
  intro path f row hf hnone hrow
  obtain ⟨-, rfl⟩ := new_of_insertFile hinsert hnone hrow
  by_contra hpath
  have hother : appDisk path = none := Function.update_of_ne (Ne.symm hpath) _ _
  cases hother.symm.trans hf

theorem uploads_have_rows_inserted :
    ∃ row, insertedSite.world.db.logFiles.lookup "logfile_1".toList = some row ∧ row.storagePath = appPath ∧
      row.sessionID = "logs_a".toList :=
  uploads_have_rows ⟨default, default⟩ dataDir insertedSite reachable_insertedSite appPath
    ⟨"logs_a".toList, "logfile_1".toList, true, false⟩ rfl rfl rfl

/-- The database behind an upload of one line. -/
def uploaded (ds : List Delivery) : Db :=
  ((addFile plainLine "logfile_1".toList [] World.bobPrincipal "logs_a".toList (appLog.savedAs
    (saveUpload dataDir "logs_a".toList "logfile_1".toList appLog.fileName .complete).1)).run
      (Command.exec plainLine 0) ds World.oneSession.db).2

theorem reachable_uploaded (ds : List Delivery) (hhead : ds.headD .answered = .answered) :
    ∃ s, Reachable ⟨default, default⟩ dataDir s ∧ s.world.db = uploaded ds ∧ (s.disk appPath).isSome = true := by
  have hstart : Reachable ⟨default, default⟩ dataDir ⟨World.oneSession, fun _ => none⟩ :=
    reachable_of_world World.reachable_oneSession
  obtain ⟨s, hsteps, hdb, hpaths⟩ := addFile_writes_then_inserts plainLine 0 "logfile_1".toList [] "logs_a".toList
    World.bobPrincipal appLog .complete ds hstart.recorded rfl
  refine ⟨s, hstart.trans hsteps, hdb, (hpaths appPath).2 (Or.inr ?_)⟩
  have hadmits : Admits World.bobPrincipal "logs_a".toList World.oneSession.db := ⟨_, rfl⟩
  exact createdFile_eq_some.2 ⟨hadmits, hhead, rfl, rfl⟩

theorem not_noOrphans {s : Site} (path : Text) (hfile : (s.disk path).isSome = true)
    (hrows : s.world.db.logFiles = ∅) : ¬ s.NoOrphans := by
  intro h
  obtain ⟨f, hf⟩ := Option.isSome_iff_exists.1 hfile
  obtain ⟨id, row, hrow, -⟩ := h path f hf
  rw [hrows] at hrow
  cases hrow

/-- A file stays without a row where the insertion fails, and where its session is deleted. -/
theorem uploads_outlive_rows :
    (∃ s, Reachable ⟨default, default⟩ dataDir s ∧ s.world.db = uploaded [.answered, .refused] ∧ ¬ s.NoOrphans) ∧
      ∃ s, Reachable ⟨default, default⟩ dataDir s ∧
        deleteSession World.bobPrincipal "logs_a".toList (uploaded []) = .ok s.world.db ∧ ¬ s.NoOrphans := by
  constructor
  · obtain ⟨s, hreach, hdb, hfile⟩ := reachable_uploaded [.answered, .refused] rfl
    refine ⟨s, hreach, hdb, not_noOrphans appPath hfile ?_⟩
    rw [hdb]
    rfl
  · obtain ⟨s, hreach, hdb, hfile⟩ := reachable_uploaded [] rfl
    obtain ⟨db, hexec, hrows⟩ : ∃ db, deleteSession World.bobPrincipal "logs_a".toList (uploaded []) = .ok db ∧
        db.logFiles = ∅ := ⟨_, rfl, rfl⟩
    rw [← hdb] at hexec
    refine ⟨_, hreach.deleteSession hexec, by rw [← hdb]; exact hexec, not_noOrphans appPath ?_ hrows⟩
    rw [follow, Option.isSome_map]
    exact hfile

end Site

end Workbench.Logs
