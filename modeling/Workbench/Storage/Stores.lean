import Workbench.Identity.Calls
import Workbench.Logs.Store
import Workbench.Registry.Secrets

/-!
# The three stores on one database

Every state that calls of the identity store, the registry and the log store reach. A file comes in by several
statements that are no transaction, so other calls can come between them; the id under which it comes in is never given
to another one. `createSession`, `deleteSession` and `appendTailLine` read what they allow and write in one step, as if
nothing came in between.
-/

set_option autoImplicit false

namespace Workbench.Storage

open Workbench.Lib
open Workbench.Identity (Principal)

/-- The database, with the session of every file that came in so far. -/
structure World where
  db : Db
  uploads : Table Text Text

namespace World

def init : World := ⟨Db.empty, ∅⟩

/-- What the stores take from outside. -/
structure Env where
  identity : Identity.Runtime
  registry : Registry.Runtime

/-- One transaction, one statement of its own, or one call with the rights that it reads first. -/
inductive Step (env : Env) (w : World) : World → Prop
  | identity {call : Identity.Call} {r : Option (Except Identity.Err Unit)} {seen : Identity.Db} :
      (call.program env.identity).Runs w.db.identity r seen →
        Step env w { w with db := w.db.withIdentity seen }
  | createConnection {keys : Registry.Keyring} {newID : Text} {nonce : Registry.Nonce} {p : Principal}
      {input : Registry.SaveInput} {c : Registry.Connection} {db : Db} :
      Registry.create env.registry keys newID nonce p input w.db = .ok (c, db) →
        Step env w { w with db := db }
  | updateConnection {keys : Registry.Keyring} {nonce : Registry.Nonce} {p : Principal} {id : Text}
      {input : Registry.SaveInput} {c : Registry.Connection} {db : Db} :
      Registry.update env.registry keys nonce p id input w.db = .ok (c, db) →
        Step env w { w with db := db }
  | deleteConnection {p : Principal} {id : Text} {db : Db} :
      Registry.delete p id w.db = .ok db → Step env w { w with db := db }
  | useSecret {keys : Registry.Keyring} {p : Principal} {id : Text}
      {found : Registry.Connection × Registry.Secret} {db : Db} :
      Registry.secretForUse env.registry keys p id w.db = .ok (found, db) →
        Step env w { w with db := db }
  | createSession {newID : Text} {now : Nat} {p : Principal} {name scope teamID : Text} {db : Db} :
      Logs.createSession newID now p name scope teamID w.db = .ok (some db) →
        Step env w { w with db := db }
  /-- `AddFile` and `CreateTailFile` up to the id of the file. -/
  | startFile {p : Principal} {sessionID fileID : Text} {session : Logs.Session} :
      Logs.authorize p sessionID true w.db = .ok session → w.uploads.lookup fileID = none →
        Step env w { w with uploads := w.uploads.insert fileID session.id }
  | insertFile {fileID : Text} {row : LogFileRow} {db : Db} :
      w.uploads.lookup fileID = some row.sessionID → Logs.insertFile fileID row w.db = some db →
        Step env w { w with db := db }
  | insertBatch {sessionID fileID serviceName nodeName : Text} {lines : List Logs.ParsedLine} {db : Db} :
      w.uploads.lookup fileID = some sessionID →
      Logs.insertBatch sessionID fileID serviceName nodeName lines w.db = some db →
        Step env w { w with db := db }
  | markFile {sessionID fileID parseStatus : Text} {totalLines : Nat → Nat} :
      w.uploads.lookup fileID = some sessionID →
        Step env w { w with db := Logs.markFile fileID parseStatus totalLines w.db }
  | markSession {sessionID fileID status : Text} {errorMessage : Option Text} {now : Nat} :
      w.uploads.lookup fileID = some sessionID →
        Step env w { w with db := Logs.markSession sessionID status errorMessage now w.db }
  | appendTailLine {p : Principal} {sessionID fileID : Text} {session : Logs.Session}
      {line : Logs.ParsedLine} {now : Nat} {db : Db} :
      Logs.authorize p sessionID true w.db = .ok session →
      Logs.appendTailLine session.id fileID line now w.db = .ok db →
        Step env w { w with db := db }
  | deleteSession {p : Principal} {sessionID : Text} {db : Db} :
      Logs.deleteSession p sessionID w.db = .ok db → Step env w { w with db := db }

/-- The states that the stores reach from an empty database. -/
def Reachable (env : Env) : World → Prop := Relation.ReflTransGen (Step env) init

/-! ## Files and entries -/

/-- A file is in the session for which it came in, and an entry is in the session of its file. -/
structure Consistent (w : World) : Prop where
  files : ∀ id f, w.db.logFiles.lookup id = some f → w.uploads.lookup id = some f.sessionID
  entries : ∀ id e, w.db.logEntries.lookup id = some e →
    ∃ f, w.db.logFiles.lookup e.sourceFileID = some f ∧ f.sessionID = e.sessionID

/-- The files and the entries of two states are the same. -/
structure SameLogs (a b : Db) : Prop where
  logFiles : b.logFiles = a.logFiles
  logEntries : b.logEntries = a.logEntries

variable {env : Env} {w : World} {db : Db}

theorem Consistent.same (h : w.Consistent) (hsame : SameLogs w.db db) :
    Consistent { w with db := db } := by
  constructor
  · intro id f hf
    rw [hsame.logFiles] at hf
    exact h.files id f hf
  · intro id e he
    rw [hsame.logEntries] at he
    rw [hsame.logFiles]
    exact h.entries id e he

/-- A cascade that takes away an entry whose file goes. -/
theorem Consistent.cascade (h : w.Consistent) (hsame : SameLogs w.db db) (gone : Text → Bool) :
    Consistent { w with db := db.cascadeLogSessions gone } := by
  replace h := h.same hsame
  constructor
  · intro id f hf
    rw [Db.cascadeLogSessions, Table.lookup_alter, if_pos rfl, Option.bind_eq_some_iff] at hf
    obtain ⟨f', hf', hkept⟩ := hf
    split at hkept
    · cases hkept
    · cases hkept
      exact h.files id f hf'
  · intro id e he
    rw [Db.cascadeLogSessions, Table.lookup_alter, if_pos rfl, Option.bind_eq_some_iff] at he
    obtain ⟨e', he', hkept⟩ := he
    split at hkept
    · cases hkept
    · next hstays =>
        cases hkept
        obtain ⟨f, hf, hsession⟩ := h.entries id e he'
        refine ⟨f, ?_, hsession⟩
        have hnot : gone f.sessionID = false := by
          rw [Db.goneFile, hf] at hstays
          exact Bool.eq_false_iff.2 fun hgone => hstays (Or.inr hgone)
        rw [Db.cascadeLogSessions, Table.lookup_alter, if_pos rfl, hf]
        exact if_neg (Bool.eq_false_iff.1 hnot)

/-! ## The registry -/

/-- The registry writes connections and audit events. -/
structure RegistryChange (a b : Db) : Prop where
  eq : b = { a with connections := b.connections, auditEvents := b.auditEvents }

theorem RegistryChange.logs {a b : Db} (h : RegistryChange a b) : SameLogs a b := by
  rw [h.eq]
  exact ⟨rfl, rfl⟩

theorem insertAudit_change {c : Registry.Connection} {actorUserID action outcome : Text} {db db' : Db}
    (h : Registry.insertAudit actorUserID action c outcome db = .ok db') : RegistryChange db db' := by
  rw [Registry.insertAudit, guard_eq_ok] at h
  cases h.2
  exact ⟨rfl⟩

theorem create_change {keys : Registry.Keyring} {newID : Text} {nonce : Registry.Nonce} {p : Principal}
    {input : Registry.SaveInput} {c : Registry.Connection} {db db' : Db} {rt : Registry.Runtime}
    (h : Registry.create rt keys newID nonce p input db = .ok (c, db')) : RegistryChange db db' := by
  simp only [Registry.create, bind_eq_ok] at h
  obtain ⟨secret, -, ⟨⟩, -, sealed, -, row, -, db₁, haudit, hend⟩ := h
  cases hend
  exact ⟨(insertAudit_change haudit).eq⟩

theorem update_change {keys : Registry.Keyring} {id : Text} {nonce : Registry.Nonce} {p : Principal}
    {input : Registry.SaveInput} {c : Registry.Connection} {db db' : Db} {rt : Registry.Runtime}
    (h : Registry.update rt keys nonce p id input db = .ok (c, db')) : RegistryChange db db' := by
  simp only [Registry.update, bind_eq_ok] at h
  obtain ⟨row, -, ⟨⟩, -, sealed, -, row', -, db₁, haudit, hend⟩ := h
  cases hend
  exact ⟨(insertAudit_change haudit).eq⟩

theorem delete_change {p : Principal} {id : Text} {db db' : Db}
    (h : Registry.delete p id db = .ok db') : RegistryChange db db' := by
  simp only [Registry.delete, bind_eq_ok] at h
  obtain ⟨row, -, ⟨⟩, -, haudit⟩ := h
  exact ⟨(insertAudit_change haudit).eq⟩

theorem secretForUse_change {keys : Registry.Keyring} {p : Principal} {id : Text}
    {found : Registry.Connection × Registry.Secret} {db db' : Db} {rt : Registry.Runtime}
    (h : Registry.secretForUse rt keys p id db = .ok (found, db')) : RegistryChange db db' := by
  simp only [Registry.secretForUse, bind_eq_ok] at h
  obtain ⟨row, -, ⟨⟩, -, secret, -, db₁, haudit, hend⟩ := h
  cases hend
  exact insertAudit_change haudit

/-! ## The log store -/

theorem createSession_logs {newID name scope teamID : Text} {now : Nat} {p : Principal} {db db' : Db}
    (h : Logs.createSession newID now p name scope teamID db = .ok (some db')) : SameLogs db db' := by
  obtain ⟨-, row, rfl⟩ := Logs.createSession_ok h
  exact ⟨rfl, rfl⟩

/-- The new entries of a state are of one session and one file of it. -/
structure Adds (sessionID fileID : Text) (a b : Db) : Prop where
  logFiles : b.logFiles = a.logFiles
  entries : ∀ id e, b.logEntries.lookup id = some e → a.logEntries.lookup id = some e ∨
    e.sessionID = sessionID ∧ e.sourceFileID = fileID

theorem Adds.refl {sessionID fileID : Text} (db : Db) : Adds sessionID fileID db db :=
  ⟨rfl, fun _ _ h => Or.inl h⟩

theorem Adds.trans {sessionID fileID : Text} {a b c : Db} (h : Adds sessionID fileID a b)
    (h' : Adds sessionID fileID b c) : Adds sessionID fileID a c := by
  refine ⟨h'.logFiles.trans h.logFiles, fun id e he => ?_⟩
  rcases h'.entries id e he with hold | hnew
  · exact h.entries id e hold
  · exact Or.inr hnew

theorem SameLogs.adds {sessionID fileID : Text} {a b : Db} (h : SameLogs a b) :
    Adds sessionID fileID a b :=
  ⟨h.logFiles, fun id e he => Or.inl (by rwa [h.logEntries] at he)⟩

theorem insertEntry_adds {sessionID fileID serviceName nodeName : Text} {line : Logs.ParsedLine}
    (db : Db) : Adds sessionID fileID db
      (Logs.insertEntry sessionID fileID serviceName nodeName line db) := by
  refine ⟨rfl, fun id e he => ?_⟩
  rw [Logs.insertEntry] at he
  by_cases hid : id = nextID db.logEntries
  · rw [hid, AList.lookup_insert] at he
    cases he
    exact Or.inr ⟨rfl, rfl⟩
  · rw [AList.lookup_insert_ne hid] at he
    exact Or.inl he

theorem insertEntries_adds {sessionID fileID : Text} (serviceName nodeName : Text)
    (lines : List Logs.ParsedLine) : ∀ db : Db, Adds sessionID fileID db
      (lines.foldl (fun db line => Logs.insertEntry sessionID fileID serviceName nodeName line db)
        db) := by
  induction lines with
  | nil => exact Adds.refl
  | cons line rest ih =>
    intro db
    exact (insertEntry_adds db).trans (ih _)

theorem addTimeBuckets_logs (sessionID : Text) (lines : List Logs.ParsedLine) : ∀ db : Db,
    SameLogs db (lines.foldl (fun db line => Logs.addTimeBucket sessionID line db) db) := by
  induction lines with
  | nil => exact fun _ => ⟨rfl, rfl⟩
  | cons line rest ih =>
    intro db
    have hline : SameLogs db (Logs.addTimeBucket sessionID line db) := by
      rw [Logs.addTimeBucket]
      split
      · exact ⟨rfl, rfl⟩
      · exact ⟨rfl, rfl⟩
    rw [List.foldl_cons]
    exact ⟨(ih _).logFiles.trans hline.logFiles, (ih _).logEntries.trans hline.logEntries⟩

theorem insertBatch_adds {sessionID fileID serviceName nodeName : Text}
    {lines : List Logs.ParsedLine} {db db' : Db}
    (h : Logs.insertBatch sessionID fileID serviceName nodeName lines db = some db') :
    Adds sessionID fileID db db' ∧ (lines = [] ∧ db' = db ∨ (db.logFiles.lookup fileID).isSome) := by
  rw [Logs.insertBatch] at h
  split at h
  · next hempty =>
      cases h
      exact ⟨Adds.refl db, Or.inl ⟨hempty, rfl⟩⟩
  · split at h
    · cases h
    · next hkeys =>
        rw [not_or] at hkeys
        cases h
        refine ⟨?_, Or.inr (Option.isSome_iff_ne_none.2 hkeys.2)⟩
        refine (insertEntries_adds serviceName nodeName lines db).trans (SameLogs.adds ?_)
        have hbuckets := addTimeBuckets_logs sessionID lines (Logs.addScopeStats sessionID
          serviceName nodeName lines.length (lines.foldl
            (fun db line => Logs.insertEntry sessionID fileID serviceName nodeName line db) db))
        exact ⟨hbuckets.logFiles, hbuckets.logEntries⟩

theorem Consistent.adds {sessionID fileID : Text} {f : LogFileRow} (h : w.Consistent)
    (hadds : Adds sessionID fileID w.db db) (hfile : w.db.logFiles.lookup fileID = some f)
    (hsession : f.sessionID = sessionID) : Consistent { w with db := db } := by
  constructor
  · intro id g hg
    rw [hadds.logFiles] at hg
    exact h.files id g hg
  · intro id e he
    rw [hadds.logFiles]
    rcases hadds.entries id e he with hold | ⟨rfl, rfl⟩
    · exact h.entries id e hold
    · exact ⟨f, hfile, hsession⟩

theorem Consistent.markFile (h : w.Consistent) (fileID parseStatus : Text) (totalLines : Nat → Nat) :
    Consistent { w with db := Logs.markFile fileID parseStatus totalLines w.db } := by
  have hlookup : ∀ id, (Logs.markFile fileID parseStatus totalLines w.db).logFiles.lookup id =
      (w.db.logFiles.lookup id).map fun f => if id = fileID then
        { f with parseStatus := parseStatus, totalLines := totalLines f.totalLines } else f := by
    intro id
    rw [Logs.markFile, Table.lookup_alter]
    by_cases hid : id = fileID <;> simp [hid, Option.map_eq_bind]
  constructor
  · intro id f hf
    rw [hlookup, Option.map_eq_some_iff] at hf
    obtain ⟨f', hf', rfl⟩ := hf
    rw [h.files id f' hf']
    split
    · rfl
    · rfl
  · intro id e he
    obtain ⟨f, hf, hsession⟩ := h.entries id e he
    rw [hlookup, hf]
    refine ⟨_, rfl, ?_⟩
    split
    · exact hsession
    · exact hsession

theorem Consistent.startFile {sessionID fileID : Text} (h : w.Consistent)
    (hnew : w.uploads.lookup fileID = none) :
    Consistent { w with uploads := w.uploads.insert fileID sessionID } := by
  refine ⟨fun id f hf => ?_, h.entries⟩
  have hold := h.files id f hf
  have hne : id ≠ fileID := by
    rintro rfl
    rw [hnew] at hold
    cases hold
  exact (AList.lookup_insert_ne hne).trans hold

theorem Consistent.insertFile {fileID : Text} {row : LogFileRow} (h : w.Consistent)
    (hupload : w.uploads.lookup fileID = some row.sessionID)
    (hexec : Logs.insertFile fileID row w.db = some db) : Consistent { w with db := db } := by
  obtain ⟨hfree, rfl⟩ := Logs.insertFile_ok hexec
  constructor
  · intro id f hf
    by_cases hid : id = fileID
    · subst hid
      rw [AList.lookup_insert] at hf
      cases hf
      exact hupload
    · rw [AList.lookup_insert_ne hid] at hf
      exact h.files id f hf
  · intro id e he
    obtain ⟨f, hf, hsession⟩ := h.entries id e he
    have hne : e.sourceFileID ≠ fileID := by
      intro heq
      rw [heq, hfree] at hf
      cases hf
    exact ⟨f, (AList.lookup_insert_ne hne).trans hf, hsession⟩

theorem Consistent.insertBatch {sessionID fileID serviceName nodeName : Text}
    {lines : List Logs.ParsedLine} (h : w.Consistent)
    (hfile : ∀ f, w.db.logFiles.lookup fileID = some f → f.sessionID = sessionID)
    (hexec : Logs.insertBatch sessionID fileID serviceName nodeName lines w.db = some db) :
    Consistent { w with db := db } := by
  obtain ⟨hadds, ⟨-, rfl⟩ | hsome⟩ := insertBatch_adds hexec
  · exact h
  · obtain ⟨f, hf⟩ := Option.isSome_iff_exists.1 hsome
    exact h.adds hadds hf (hfile f hf)

theorem Consistent.appendTailLine {sessionID fileID : Text} {line : Logs.ParsedLine} {now : Nat}
    (h : w.Consistent) (hexec : Logs.appendTailLine sessionID fileID line now w.db = .ok db) :
    Consistent { w with db := db } := by
  obtain ⟨file, mid, hf, hsession, hbatch, rfl⟩ := Logs.appendTailLine_ok hexec
  have hfile : ∀ f, w.db.logFiles.lookup fileID = some f → f.sessionID = sessionID := by
    intro f hf'
    rw [← Option.some.inj (hf.symm.trans hf')]
    exact hsession
  have hmarked := (h.insertBatch hfile hbatch).markFile fileID "done".toList (· + 1)
  exact hmarked.same ⟨rfl, rfl⟩

/-! ## Steps and runs -/

theorem Step.consistent {w' : World} (hstep : Step env w w') (h : w.Consistent) : w'.Consistent := by
  cases hstep with
  | identity _ =>
    rw [Db.withIdentity]
    apply h.cascade
    exact ⟨rfl, rfl⟩
  | createConnection hexec => exact h.same (create_change hexec).logs
  | updateConnection hexec => exact h.same (update_change hexec).logs
  | deleteConnection hexec => exact h.same (delete_change hexec).logs
  | useSecret hexec => exact h.same (secretForUse_change hexec).logs
  | createSession hexec => exact h.same (createSession_logs hexec)
  | startFile _ hnew => exact h.startFile hnew
  | insertFile hupload hexec => exact h.insertFile hupload hexec
  | insertBatch hupload hexec =>
    refine h.insertBatch (fun f hf => ?_) hexec
    exact Option.some.inj ((h.files _ f hf).symm.trans hupload)
  | markFile _ => exact h.markFile _ _ _
  | markSession _ => exact h.same ⟨rfl, rfl⟩
  | appendTailLine _ hexec => exact h.appendTailLine hexec
  | deleteSession hexec =>
    obtain ⟨session, after, -, rfl, rfl⟩ := Logs.deleteSession_ok hexec
    apply h.cascade
    exact ⟨rfl, rfl⟩

theorem Reachable.consistent (h : Reachable env w) : w.Consistent := by
  induction h with
  | refl => exact ⟨fun _ _ hf => (by cases hf), fun _ _ he => (by cases he)⟩
  | tail _ hlast ih => exact hlast.consistent ih

end World

end Workbench.Storage
