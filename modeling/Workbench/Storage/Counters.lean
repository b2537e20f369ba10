import Workbench.Lib.Tallies
import Workbench.Logs.Search
import Workbench.Storage.Deletion

/-!
# What the counters of the log store count

`log_scope_stats` and `log_time_buckets` are kept up line by line and batch by batch, beside the entries
that they count.
-/

set_option autoImplicit false

namespace Workbench.Storage

open Workbench.Lib
open Workbench.Identity (Principal)
open Workbench.Logs (ParsedLine bucketStart defaultBucketSizeMs)

/-- The row of `log_scope_stats` that counts an entry. -/
def entryScope (e : LogEntryRow) : Option (Text × Text × Text) :=
  some (e.sessionID, e.serviceName, e.nodeName)

/-- The row of `log_time_buckets` that counts an entry. -/
def entryBucket (e : LogEntryRow) : Option (Text × Int × Int) :=
  e.timestampMs.map fun t => (e.sessionID, bucketStart t, defaultBucketSizeMs)

def isError (e : LogEntryRow) : Bool := e.level = "ERROR".toList

namespace Db

/-- A bucket that is stored is the one of an instant. -/
def BucketKey (key : Text × Int × Int) : Prop :=
  ∃ sessionID t, key = (sessionID, bucketStart t, defaultBucketSizeMs)

/-- The counters agree with the entries. -/
structure Counted (db : Db) : Prop where
  keys : ∀ key row, db.logTimeBuckets.lookup key = some row → BucketKey key
  scopes : Tallies entryScope (fun _ => true) id db.logEntries.rows db.logScopeStats
  counts : Tallies entryBucket (fun _ => true) TimeBucketRow.count db.logEntries.rows db.logTimeBuckets
  errors : Tallies entryBucket isError TimeBucketRow.errorCount db.logEntries.rows db.logTimeBuckets

variable {db db' : Db}

theorem Counted.same (h : db.Counted) (hentries : db'.logEntries = db.logEntries)
    (hstats : db'.logScopeStats = db.logScopeStats) (hbuckets : db'.logTimeBuckets = db.logTimeBuckets) :
    db'.Counted := by
  constructor
  · rw [hbuckets]
    exact h.keys
  · rw [hentries, hstats]
    exact h.scopes
  · rw [hentries, hbuckets]
    exact h.counts
  · rw [hentries, hbuckets]
    exact h.errors

theorem counted_empty : Db.empty.Counted :=
  ⟨fun _ _ h => (nomatch h), fun _ => rfl, fun _ => rfl, fun _ => rfl⟩

end Db

/-! ## Batches -/

/-- The entry of a line. -/
def lineEntry (sessionID fileID serviceName nodeName : Text) (line : ParsedLine) : LogEntryRow :=
  ⟨sessionID, fileID, line.timestampMs, line.level, serviceName, nodeName, line.message, line.raw,
    line.lineNumber⟩

section

variable (sessionID fileID serviceName nodeName : Text)

theorem insertEntries_eq (lines : List ParsedLine) : ∀ db : Db, ∃ entries : Table Nat LogEntryRow,
    lines.foldl (fun db line => Logs.insertEntry sessionID fileID serviceName nodeName line db) db =
        { db with logEntries := entries } ∧
      entries.rows = (lines.map (lineEntry sessionID fileID serviceName nodeName)).reverse ++
        db.logEntries.rows := by
  induction lines with
  | nil =>
    intro db
    exact ⟨db.logEntries, rfl, rfl⟩
  | cons line rest ih =>
    intro db
    obtain ⟨entries, hfold, hrows⟩ :=
      ih (Logs.insertEntry sessionID fileID serviceName nodeName line db)
    refine ⟨entries, ?_, ?_⟩
    · rw [List.foldl_cons, hfold]
      rfl
    · -- the first line has become the entry next to the old ones
      have hfirst : (Logs.insertEntry sessionID fileID serviceName nodeName line db).logEntries.rows =
          lineEntry sessionID fileID serviceName nodeName line :: db.logEntries.rows :=
        Table.rows_insert_new (lookup_nextID db.logEntries)
      rw [hrows, hfirst, List.map_cons, List.reverse_cons, List.append_assoc]
      rfl

theorem addTimeBuckets_eq (lines : List ParsedLine) : ∀ db : Db, ∃ buckets,
    lines.foldl (fun db line => Logs.addTimeBucket sessionID line db) db =
      { db with logTimeBuckets := buckets } := by
  induction lines with
  | nil =>
    intro db
    exact ⟨db.logTimeBuckets, rfl⟩
  | cons line rest ih =>
    intro db
    obtain ⟨buckets, hfold⟩ := ih (Logs.addTimeBucket sessionID line db)
    refine ⟨buckets, ?_⟩
    rw [List.foldl_cons, hfold, Logs.addTimeBucket]
    cases line.timestampMs with
    | none => rfl
    | some timestamp => rfl

theorem keys_addTimeBuckets (lines : List ParsedLine) : ∀ db : Db,
    (∀ key row, db.logTimeBuckets.lookup key = some row → Db.BucketKey key) → ∀ key row,
    (lines.foldl (fun db line => Logs.addTimeBucket sessionID line db) db).logTimeBuckets.lookup key =
      some row → Db.BucketKey key := by
  induction lines with
  | nil => exact fun _ h => h
  | cons line rest ih =>
    intro db h
    apply ih
    intro key row
      (hlookup : (Logs.addTimeBucket sessionID line db).logTimeBuckets.lookup key = some row)
    rw [Logs.addTimeBucket] at hlookup
    cases ht : line.timestampMs with
    | none =>
      rw [ht] at hlookup
      exact h key row hlookup
    | some timestamp =>
      rw [ht] at hlookup
      by_cases hkey : key = (sessionID, bucketStart timestamp, defaultBucketSizeMs)
      · exact ⟨sessionID, timestamp, hkey⟩
      · rw [AList.lookup_insert_ne hkey] at hlookup
        exact h key row hlookup

/-- What the upserts of a column of the buckets count, one line after the other. -/
theorem tallies_addTimeBuckets {p : LogEntryRow → Bool} {f : TimeBucketRow → Nat}
    (hzero : f ⟨0, 0⟩ = 0)
    (hline : ∀ (line : ParsedLine) (old : TimeBucketRow),
      f ⟨old.count + 1, old.errorCount + if line.level = "ERROR".toList then 1 else 0⟩ =
        f old + [lineEntry sessionID fileID serviceName nodeName line].countP p)
    (lines : List ParsedLine) : ∀ (db : Db) (rows : List LogEntryRow),
      Tallies entryBucket p f rows db.logTimeBuckets →
      Tallies entryBucket p f
        ((lines.map (lineEntry sessionID fileID serviceName nodeName)).reverse ++ rows)
        (lines.foldl (fun db line => Logs.addTimeBucket sessionID line db) db).logTimeBuckets := by
  induction lines with
  | nil => exact fun _ _ h => h
  -- By induction over the lines; the rows grow at the front as they are inserted.
  | cons line rest ih =>
    intro db rows h
    rw [List.map_cons, List.reverse_cons, List.append_assoc, List.foldl_cons]
    apply ih
    rw [Logs.addTimeBucket]
    cases ht : line.timestampMs with
    | none =>
      -- A line without a time is in no bucket.
      apply h.skip
      rw [entryBucket, lineEntry, ht]
      rfl
    | some timestamp =>
      have hclass : entryBucket (lineEntry sessionID fileID serviceName nodeName line) =
          some (sessionID, bucketStart timestamp, defaultBucketSizeMs) := by
        rw [entryBucket, lineEntry, ht]
        rfl
      refine h.add (fun v hv => ?_) rfl ?_
      · rw [List.mem_singleton.1 hv]
        exact hclass
      · rw [hline, countOf]
        cases db.logTimeBuckets.lookup (sessionID, bucketStart timestamp, defaultBucketSizeMs) with
        | none =>
          rw [Option.getD_none, hzero]
          rfl
        | some old => rfl

end

theorem Db.Counted.insertBatch {sessionID fileID serviceName nodeName : Text} {lines : List ParsedLine}
    {db db' : Db} (h : db.Counted)
    (hexec : Logs.insertBatch sessionID fileID serviceName nodeName lines db = some db') :
    db'.Counted := by
  rw [Logs.insertBatch] at hexec
  split at hexec
  · cases hexec
    exact h
  · split at hexec
    · cases hexec
    · obtain ⟨entries, hentries, hrows⟩ :=
        insertEntries_eq sessionID fileID serviceName nodeName lines db
      rw [hentries] at hexec
      dsimp only at hexec
      -- the three statements of a batch touch three tables, one each
      obtain ⟨buckets, hbuckets⟩ := addTimeBuckets_eq sessionID lines
        (Logs.addScopeStats sessionID serviceName nodeName lines.length
          { db with logEntries := entries })
      have hcounts := tallies_addTimeBuckets sessionID fileID serviceName nodeName
        (p := fun _ => true) (f := TimeBucketRow.count) rfl (fun _ _ => rfl) lines
        (Logs.addScopeStats sessionID serviceName nodeName lines.length
          { db with logEntries := entries }) _ h.counts
      have herrors := tallies_addTimeBuckets sessionID fileID serviceName nodeName
        (p := isError) (f := TimeBucketRow.errorCount) rfl
        (fun line old => by
          rw [List.countP_singleton, isError, lineEntry]
          simp only [decide_eq_true_eq]) lines
        (Logs.addScopeStats sessionID serviceName nodeName lines.length
          { db with logEntries := entries }) _ h.errors
      have hkeys := keys_addTimeBuckets sessionID lines
        (Logs.addScopeStats sessionID serviceName nodeName lines.length
          { db with logEntries := entries }) h.keys
      rw [hbuckets] at hexec hcounts herrors hkeys
      cases hexec
      refine ⟨hkeys, ?_, ?_, ?_⟩
      · show Tallies entryScope (fun _ => true) id entries.rows (db.logScopeStats.insert _ _)
        rw [hrows]
        -- all lines of a batch are of one service and one node
        refine h.scopes.add (n := lines.length) (fun e he => ?_) ?_ ?_
        · obtain ⟨line, -, rfl⟩ := List.mem_map.1 (List.mem_reverse.1 he)
          rfl
        · rw [List.countP_true, List.length_reverse, List.length_map]
        · rw [countOf, Option.map_id]
          rfl
      · show Tallies entryBucket (fun _ => true) TimeBucketRow.count entries.rows buckets
        rw [hrows]
        exact hcounts
      · show Tallies entryBucket isError TimeBucketRow.errorCount entries.rows buckets
        rw [hrows]
        exact herrors

/-! ## Cascades -/

/-- The entries that a cascade leaves. -/
theorem rows_cascade (gone : Text → Bool) (db : Db) :
    (db.cascadeLogSessions gone).logEntries.rows =
      db.logEntries.rows.filter fun e => !(gone e.sessionID || db.goneFile gone e.sourceFileID) := by
  rw [← Table.rows_alter_delete, Db.cascadeLogSessions]
  dsimp only
  simp only [Bool.or_eq_true]

/-- An entry of a session that stays is in a file that stays. -/
theorem World.Consistent.goneFile {db : Db} {uploads : Table Text Text}
    (h : World.Consistent ⟨db, uploads⟩) (gone : Text → Bool) {e : LogEntryRow}
    (he : e ∈ db.logEntries.rows) : db.goneFile gone e.sourceFileID = gone e.sessionID := by
  obtain ⟨id, hlookup⟩ := Table.mem_rows.1 he
  obtain ⟨f, hfile, hsession⟩ := h.entries id e hlookup
  rw [Db.goneFile, hfile, ← hsession]

theorem Db.Counted.cascade {db : Db} {uploads : Table Text Text} (h : db.Counted)
    (hlogs : World.Consistent ⟨db, uploads⟩) (gone : Text → Bool) :
    (db.cascadeLogSessions gone).Counted := by
  -- with a session go its files, and with them no entry of another session
  have hkeep : ∀ e ∈ db.logEntries.rows,
      (!(gone e.sessionID || db.goneFile gone e.sourceFileID)) = !gone e.sessionID := by
    intro e he
    rw [hlogs.goneFile gone he, Bool.or_self]
  have hbucket : ∀ e ∈ db.logEntries.rows, ∀ key, entryBucket e = some key →
      (!(gone e.sessionID || db.goneFile gone e.sourceFileID)) = !gone key.1 := by
    intro e he key hkey
    obtain ⟨t, -, rfl⟩ := Option.map_eq_some_iff.1 hkey
    exact hkeep e he
  constructor
  · intro key row hlookup
    rw [Db.cascadeLogSessions, Table.lookup_alter] at hlookup
    -- a bucket that is left was there before
    cases hgone : gone key.1 with
    | true =>
      rw [hgone, if_pos rfl, Option.bind_eq_some_iff] at hlookup
      obtain ⟨old, -, hnone⟩ := hlookup
      cases hnone
    | false =>
      rw [hgone, if_neg Bool.false_ne_true] at hlookup
      exact h.keys key row hlookup
  · rw [rows_cascade]
    apply h.scopes.delete
    rintro e he key ⟨⟩
    exact hkeep e he
  · rw [rows_cascade]
    exact h.counts.delete hbucket
  · rw [rows_cascade]
    exact h.errors.delete hbucket

/-! ## Steps and runs -/

namespace World

variable {env : Env} {w w' : World}

theorem appendTailLine_counted {sessionID fileID : Text} {line : ParsedLine} {now : Nat} {db db' : Db}
    (h : db.Counted) (hexec : Logs.appendTailLine sessionID fileID line now db = .ok db') :
    db'.Counted := by
  obtain ⟨file, mid, -, -, hbatch, rfl⟩ := Logs.appendTailLine_ok hexec
  exact (h.insertBatch hbatch).same rfl rfl rfl

theorem RegistryChange.counted {a b : Db} (hchange : RegistryChange a b) (h : a.Counted) : b.Counted := by
  rw [hchange.eq]
  exact h.same rfl rfl rfl

theorem Step.counted (hstep : Step env w w') (hlogs : w.Consistent) (h : w.db.Counted) :
    w'.db.Counted := by
  cases hstep with
  | identity _ =>
    rw [Db.withIdentity]
    -- the teams and users that go take their log sessions with them
    apply Db.Counted.cascade
    · exact h.same rfl rfl rfl
    · exact hlogs.same ⟨rfl, rfl⟩
  | createConnection hexec => exact (create_change hexec).counted h
  | updateConnection hexec => exact (update_change hexec).counted h
  | deleteConnection hexec => exact (delete_change hexec).counted h
  | useSecret hexec => exact (secretForUse_change hexec).counted h
  | createSession hexec =>
    obtain ⟨-, row, rfl⟩ := Logs.createSession_ok hexec
    exact h.same rfl rfl rfl
  | startFile _ _ => exact h
  | insertFile _ hexec =>
    obtain ⟨-, rfl⟩ := Logs.insertFile_ok hexec
    exact h.same rfl rfl rfl
  | insertBatch _ hexec => exact h.insertBatch hexec
  | markFile _ => exact h.same rfl rfl rfl
  | markSession _ => exact h.same rfl rfl rfl
  | appendTailLine _ hexec => exact appendTailLine_counted h hexec
  | deleteSession hexec =>
    obtain ⟨session, after, -, rfl, rfl⟩ := Logs.deleteSession_ok hexec
    apply Db.Counted.cascade
    · exact h.same rfl rfl rfl
    · exact hlogs.same ⟨rfl, rfl⟩

theorem Reachable.counted (h : Reachable env w) : w.db.Counted := by
  induction h with
  | refl => exact Db.counted_empty
  | tail hrun hlast ih => exact hlast.counted (Reachable.consistent hrun) ih

end World

/-! ## Scopes -/

/-- The number of the entries of a session with a service and a node. -/
def Db.linesOf (db : Db) (sessionID serviceName nodeName : Text) : Nat :=
  db.logEntries.rows.countP fun e =>
    e.sessionID = sessionID && e.serviceName = serviceName && e.nodeName = nodeName

section

variable {db : Db}

theorem Db.Counted.countOf_scope (h : db.Counted) (sessionID serviceName nodeName : Text) :
    countOf id db.logScopeStats (sessionID, serviceName, nodeName) =
      db.linesOf sessionID serviceName nodeName := by
  rw [h.scopes, Db.linesOf]
  apply List.countP_congr
  intro e _
  simp only [inClass, entryScope, Option.some.injEq, Prod.mk.injEq, Bool.and_true, Bool.and_eq_true,
    decide_eq_true_eq, and_assoc]

/-- The rows of a session add up to its entries. -/
theorem Db.Counted.total (h : db.Counted) (sessionID : Text) :
    ((Logs.scopeRows sessionID db).map Logs.ScopeRow.lineCount).sum =
      db.logEntries.rows.countP fun e => e.sessionID = sessionID := by
  have htotal := h.scopes.total fun key => decide (key.1 = sessionID)
  rw [Logs.scopeRows, List.map_map]
  refine htotal.trans ?_
  apply List.countP_congr
  intro e _
  rw [entryScope, Option.any_some, Bool.and_true]

/-- A search without filters finds the entries of the session. -/
theorem length_matching (rt : Logs.Runtime) (sessionID : Text) :
    (Logs.matching rt [.session sessionID] db).length =
      db.logEntries.rows.countP fun e => e.sessionID = sessionID := by
  rw [Logs.matching, List.length_map, Table.rows, List.countP_map, List.countP_eq_length_filter]
  apply congrArg List.length
  apply List.filter_congr
  intro e _
  simp only [List.all_cons, List.all_nil, Bool.and_true, Logs.Condition.holds, Function.comp_apply]

end

/-- In every state that the stores reach, a row of `log_scope_stats` counts the entries of its scope and no
other scope has any; `Tree` shows exactly these rows, each service with the sum of its nodes, and all of them
with the total of a search without filters. -/
theorem scopes_exact (env : World.Env) (w : World) (hreach : World.Reachable env w) (sessionID : Text) :
    (∀ serviceName nodeName,
      match w.db.logScopeStats.lookup (sessionID, serviceName, nodeName) with
      | some lineCount => lineCount = w.db.linesOf sessionID serviceName nodeName
      | none => w.db.linesOf sessionID serviceName nodeName = 0) ∧
    ∀ (rt : Logs.Runtime) (actor : Principal) (scopes : List Logs.ServiceScope),
      Logs.tree rt actor sessionID w.db = .ok scopes →
      (Logs.shown scopes).Perm (Logs.scopeRows sessionID w.db) ∧ Logs.Grouped scopes ∧
      ∀ (input : Logs.SearchInput) (result : Logs.SearchResult), input.Unfiltered →
        Logs.search rt actor sessionID input w.db = .ok result →
          result.tree = scopes ∧ Logs.grandTotal scopes = result.total := by
  have hcounted := World.Reachable.counted hreach
  constructor
  · intro serviceName nodeName
    have hcount := hcounted.countOf_scope sessionID serviceName nodeName
    rw [countOf] at hcount
    cases hlookup : w.db.logScopeStats.lookup (sessionID, serviceName, nodeName) with
    | none =>
      rw [hlookup] at hcount
      exact hcount.symm
    | some lineCount =>
      rw [hlookup] at hcount
      exact hcount
  · -- The tree shows the scope rows once each, so its total is the total of the counters.
    intro rt actor scopes htree
    obtain ⟨hgrouped, hperm⟩ := Logs.tree_ok htree
    refine ⟨hperm, hgrouped, ?_⟩
    intro input result hunfiltered hsearch
    obtain ⟨htree', htotal⟩ := Logs.search_ok hsearch
    rw [htree, Except.ok.injEq] at htree'
    refine ⟨htree'.symm, ?_⟩
    calc Logs.grandTotal scopes
        = ((Logs.shown scopes).map Logs.ScopeRow.lineCount).sum := hgrouped.grandTotal_eq
      _ = ((Logs.scopeRows sessionID w.db).map Logs.ScopeRow.lineCount).sum :=
        (hperm.map _).sum_eq
      _ = w.db.logEntries.rows.countP (fun e => e.sessionID = sessionID) := hcounted.total sessionID
      _ = (Logs.matching rt [.session sessionID] w.db).length := (length_matching rt sessionID).symm
      _ = result.total := by rw [htotal, Logs.buildSearchWhere_unfiltered hunfiltered]

/-! ## A file with lines -/

namespace World

def shopFile : LogFileRow :=
  ⟨"logs_a".toList, "shop".toList, "n1".toList, "shop-n1.log".toList, "/uploads/a".toList, 0,
    "pending".toList, "local".toList⟩

/-- A file has come into the log session. -/
def oneFile : World :=
  ⟨{ oneSession.db with logFiles := oneSession.db.logFiles.insert "logfile_a".toList shopFile },
    oneSession.uploads.insert "logfile_a".toList "logs_a".toList⟩

theorem reachable_oneFile : Reachable ⟨default, default⟩ oneFile := by
  have hauthorize : Logs.authorize bobPrincipal "logs_a".toList true oneSession.db =
      .ok (Logs.sessionOf "logs_a".toList bobSession 0 0) := rfl
  have hnew : oneSession.uploads.lookup "logfile_a".toList = none := rfl
  have hinsert : Logs.insertFile "logfile_a".toList shopFile oneSession.db = some oneFile.db := rfl
  exact (reachable_oneSession.tail (.startFile hauthorize hnew)).tail (.insertFile rfl hinsert)

/-- A batch of lines has come into the file. -/
def withLines (lines : List ParsedLine) : World :=
  { oneFile with
    db := (Logs.insertBatch "logs_a".toList "logfile_a".toList "shop".toList "n1".toList lines
      oneFile.db).getD oneFile.db }

theorem reachable_withLines (lines : List ParsedLine) :
    Reachable ⟨default, default⟩ (withLines lines) := by
  have hbatch : Logs.insertBatch "logs_a".toList "logfile_a".toList "shop".toList "n1".toList lines
      oneFile.db = some (withLines lines).db := by
    rw [withLines]
    cases lines with
    | nil => rfl
    | cons line rest => rfl
  exact reachable_oneFile.tail (.insertBatch rfl hbatch)

end World

theorem scopes_exact_shop :
    ∃ result, Logs.search default World.bobPrincipal "logs_a".toList ⟨[], [], [], [], none, none, 0⟩
        (World.withLines [⟨some 5, "ERROR".toList, "a".toList, "a".toList, 1⟩,
          ⟨none, "INFO".toList, "b".toList, "b".toList, 2⟩]).db = .ok result ∧
      result.total = 2 ∧ Logs.grandTotal result.tree = 2 := by
  have hexact := scopes_exact ⟨default, default⟩ _ (World.reachable_withLines
    [⟨some 5, "ERROR".toList, "a".toList, "a".toList, 1⟩,
      ⟨none, "INFO".toList, "b".toList, "b".toList, 2⟩]) "logs_a".toList
  have hunfiltered : Logs.SearchInput.Unfiltered ⟨[], [], [], [], none, none, 0⟩ :=
    ⟨rfl, Logs.normalizeList_nil, Logs.normalizeList_nil, Logs.normalizeList_nil, rfl, rfl⟩
  cases hsearch : Logs.search default World.bobPrincipal "logs_a".toList
    ⟨[], [], [], [], none, none, 0⟩ (World.withLines [⟨some 5, "ERROR".toList, "a".toList, "a".toList, 1⟩,
      ⟨none, "INFO".toList, "b".toList, "b".toList, 2⟩]).db with
  | error e => cases hsearch
  | ok result =>
    obtain ⟨htree, hlength⟩ := Logs.search_ok hsearch
    have htotal : result.total = 2 := by
      rw [hlength, Logs.buildSearchWhere_unfiltered hunfiltered]
      rfl
    obtain ⟨-, hgrand⟩ := (hexact.2 default World.bobPrincipal result.tree htree).2.2 _ result
      hunfiltered hsearch
    exact ⟨result, rfl, htotal, hgrand.trans htotal⟩

end Workbench.Storage
