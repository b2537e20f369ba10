import Workbench.Identity.Validity
import Workbench.Storage.Counters
import Workbench.Logs.Import

/-!
# Filtering by service and node

`buildSearchWhere` and `normalizeList` of `api/internal/logs/store.go` with services and node keys as the tree
of a session shows them. A node key is a service and a node with a NUL between them; the database compares
the two joined by a slash.
-/

set_option autoImplicit false

namespace Workbench.Storage

open Workbench.Lib
open Workbench.Identity (Principal)
open Workbench.Logs (Entry SearchInput ServiceScope buildSearchWhere matching normalizeList)

/-! ## Every scope has a line -/

/-- No row of `log_scope_stats` counts nothing. -/
def Db.ScopesNonempty (db : Db) : Prop := ∀ key lineCount, db.logScopeStats.lookup key = some lineCount → lineCount ≠ 0

section

variable {db db' : Db}

theorem Db.ScopesNonempty.same (h : db.ScopesNonempty) (hstats : db'.logScopeStats = db.logScopeStats) :
    db'.ScopesNonempty := by
  rw [Db.ScopesNonempty, hstats]
  exact h

theorem Db.ScopesNonempty.cascade (h : db.ScopesNonempty) (gone : Text → Bool) :
    (db.cascadeLogSessions gone).ScopesNonempty := by
  intro key lineCount hlookup
  rw [Db.cascadeLogSessions, Table.lookup_alter] at hlookup
  split at hlookup
  · obtain ⟨old, -, hnone⟩ := Option.bind_eq_some_iff.1 hlookup
    cases hnone
  · exact h key lineCount hlookup

theorem Db.ScopesNonempty.insertBatch {sessionID fileID serviceName nodeName : Text} {lines : List Logs.ParsedLine}
    (h : db.ScopesNonempty)
    (hexec : Logs.insertBatch sessionID fileID serviceName nodeName lines db = some db') : db'.ScopesNonempty := by
  rw [Logs.insertBatch] at hexec
  split at hexec
  · cases hexec
    exact h
  · next hlines =>
      split at hexec
      · cases hexec
      · obtain ⟨entries, hentries, -⟩ := insertEntries_eq sessionID fileID serviceName nodeName lines db
        rw [hentries] at hexec
        dsimp only at hexec
        obtain ⟨buckets, hbuckets⟩ := addTimeBuckets_eq sessionID lines
          (Logs.addScopeStats sessionID serviceName nodeName lines.length { db with logEntries := entries })
        rw [hbuckets] at hexec
        cases hexec
        intro key lineCount hlookup
        have hpos := List.length_pos_iff.2 hlines
        dsimp only [Logs.addScopeStats] at hlookup
        by_cases hkey : key = (sessionID, serviceName, nodeName)
        · rw [hkey, AList.lookup_insert, Option.some.injEq] at hlookup
          omega
        · rw [AList.lookup_insert_ne hkey] at hlookup
          exact h key lineCount hlookup

end

namespace World

variable {env : Env} {w w' : World}

theorem RegistryChange.scopesNonempty {a b : Db} (hchange : RegistryChange a b) (h : a.ScopesNonempty) :
    b.ScopesNonempty := by
  rw [hchange.eq]
  exact h.same rfl

theorem Step.scopesNonempty (hstep : Step env w w') (h : w.db.ScopesNonempty) : w'.db.ScopesNonempty := by
  cases hstep with
  | identity _ =>
    rw [Db.withIdentity]
    apply Db.ScopesNonempty.cascade
    exact h.same rfl
  | createConnection hexec => exact (create_change hexec).scopesNonempty h
  | updateConnection hexec => exact (update_change hexec).scopesNonempty h
  | deleteConnection hexec => exact (delete_change hexec).scopesNonempty h
  | useSecret hexec => exact (secretForUse_change hexec).scopesNonempty h
  | createSession hexec =>
    obtain ⟨-, row, rfl⟩ := Logs.createSession_ok hexec
    exact h.same rfl
  | startFile _ _ => exact h
  | insertFile _ hexec =>
    obtain ⟨-, rfl⟩ := Logs.insertFile_ok hexec
    exact h.same rfl
  -- Only the batches of lines write scope rows.
  | insertBatch _ hexec => exact h.insertBatch hexec
  | markFile _ => exact h.same rfl
  | markSession _ => exact h.same rfl
  | appendTailLine _ hexec =>
    obtain ⟨file, mid, -, -, hbatch, rfl⟩ := Logs.appendTailLine_ok hexec
    exact (h.insertBatch hbatch).same rfl
  | deleteSession hexec =>
    obtain ⟨session, after, -, rfl, rfl⟩ := Logs.deleteSession_ok hexec
    apply Db.ScopesNonempty.cascade
    exact h.same rfl

theorem Reachable.scopesNonempty (h : Reachable env w) : w.db.ScopesNonempty := by
  induction h with
  | refl => exact fun _ _ h => nomatch h
  | tail _ hlast ih => exact hlast.scopesNonempty ih

end World

/-! ## The pairs of a tree -/

/-- The services of a tree, and its services with their nodes. -/
def servicesOf (scopes : List ServiceScope) : List Text := scopes.map ServiceScope.serviceName

def pairsOf (scopes : List ServiceScope) : List (Text × Text) :=
  (Logs.shown scopes).map fun row => (row.serviceName, row.nodeName)

/-- The service and the node of an entry. -/
def pairOf (e : LogEntryRow) : Text × Text := (e.serviceName, e.nodeName)

theorem mem_servicesOf_foldl {name : Text} (rows : List Logs.ScopeRow) : ∀ services : List ServiceScope,
    name ∈ servicesOf (rows.foldl (fun services row => Logs.addScope row services) services) ↔
      name ∈ rows.map Logs.ScopeRow.serviceName ∨ name ∈ servicesOf services := by
  induction rows with
  | nil => simp
  | cons row rest ih =>
    intro services
    rw [List.foldl_cons, ih, servicesOf, Logs.mem_names_addScope, servicesOf, List.map_cons, List.mem_cons]
    tauto

section

variable {rt : Logs.Runtime} {actor : Principal} {sessionID : Text} {db : Db} {scopes : List ServiceScope}

theorem mem_scopeRows {row : Logs.ScopeRow} : row ∈ Logs.scopeRows sessionID db ↔
    db.logScopeStats.lookup (sessionID, row.serviceName, row.nodeName) = some row.lineCount := by
  rw [Logs.scopeRows, List.mem_map]
  constructor
  · rintro ⟨⟨⟨session, service, node⟩, lineCount⟩, hmem, rfl⟩
    obtain ⟨hentry, hsession⟩ := List.mem_filter.1 hmem
    rw [decide_eq_true_eq] at hsession
    dsimp only at hsession
    subst hsession
    exact Table.mem_entries.1 hentry
  · intro hlookup
    exact ⟨_, List.mem_filter.2 ⟨Table.mem_entries.2 hlookup, decide_eq_true rfl⟩, rfl⟩

/-- The pairs of a tree are those of the entries. -/
theorem mem_pairsOf (hcounted : db.Counted) (hnonempty : db.ScopesNonempty)
    (htree : Logs.tree rt actor sessionID db = .ok scopes) {p : Text × Text} :
    p ∈ pairsOf scopes ↔ ∃ e ∈ db.logEntries.rows, e.sessionID = sessionID ∧ pairOf e = p := by
  have hlines := hcounted.countOf_scope sessionID p.1 p.2
  have hentries : 0 < db.linesOf sessionID p.1 p.2 ↔
      ∃ e ∈ db.logEntries.rows, e.sessionID = sessionID ∧ pairOf e = p := by
    rw [Db.linesOf, List.countP_pos_iff]
    simp only [Bool.and_eq_true, decide_eq_true_eq, and_assoc, pairOf, Prod.ext_iff]
  have hrow : p ∈ pairsOf scopes ↔
      ∃ lineCount, db.logScopeStats.lookup (sessionID, p.1, p.2) = some lineCount := by
    rw [pairsOf, ((Logs.tree_ok htree).2.map _).mem_iff, List.mem_map]
    constructor
    · rintro ⟨row, hmem, rfl⟩
      exact ⟨row.lineCount, mem_scopeRows.1 hmem⟩
    · rintro ⟨lineCount, hlookup⟩
      exact ⟨⟨p.1, p.2, lineCount⟩, mem_scopeRows.2 hlookup, rfl⟩
  rw [hrow, ← hentries, ← hlines, countOf]
  cases hlookup : db.logScopeStats.lookup (sessionID, p.1, p.2) with
  | none => simp
  | some lineCount =>
    have hpos := hnonempty _ _ hlookup
    simp only [Option.some.injEq, exists_eq', Option.map_some, Option.getD_some, true_iff]
    exact Nat.pos_of_ne_zero hpos

theorem mem_servicesOf (htree : Logs.tree rt actor sessionID db = .ok scopes) {service : Text} :
    service ∈ servicesOf scopes ↔ ∃ p ∈ pairsOf scopes, p.1 = service := by
  have hperm := (Logs.tree_ok htree).2
  rw [Logs.tree, bind_eq_ok] at htree
  obtain ⟨session, -, hend⟩ := htree
  have hrows : service ∈ servicesOf scopes ↔
      service ∈ (Logs.scopeRows sessionID db).map Logs.ScopeRow.serviceName := by
    rw [← Except.ok.inj hend, Logs.groupScopes, mem_servicesOf_foldl]
    simp [servicesOf]
  rw [hrows, ← (hperm.map _).mem_iff, pairsOf]
  simp

end

/-! ## What the filters compare -/

/-- A node key of the tree. -/
def nodeKey (p : Text × Text) : Text := p.1 ++ Char.ofNat 0 :: p.2

/-- What the database compares for an entry. -/
def joinedPair (p : Text × Text) : Text := p.1 ++ '/' :: p.2

/-- What a node key is compared as. -/
def sentPair (p : Text × Text) : Text :=
  (trimSpace (nodeKey p)).map fun c => if c = Char.ofNat 0 then '/' else c

/-- A search by node keys and services. -/
def byScopes (keys : List (Text × Text)) (services : List Text) (limit : Int) : SearchInput :=
  ⟨[], [], services, keys.map nodeKey, none, none, limit⟩

/-- The entries of a session of some kind. -/
def entriesWhere (sessionID : Text) (p : LogEntryRow → Bool) (db : Db) : List Entry :=
  (db.logEntries.entries.filter fun e => e.2.sessionID = sessionID && p e.2).map fun e => ⟨e.1, e.2⟩

theorem entriesWhere_eq_iff {sessionID : Text} {p q : LogEntryRow → Bool} {db : Db} :
    entriesWhere sessionID p db = entriesWhere sessionID q db ↔
      ∀ e ∈ db.logEntries.rows, e.sessionID = sessionID → p e = q e := by
  have hinjective : Function.Injective
      fun e : Sigma fun _ : Nat => LogEntryRow => (⟨e.1, e.2⟩ : Entry) := by
    rintro ⟨id, row⟩ ⟨id', row'⟩ h
    cases h
    rfl
  rw [entriesWhere, entriesWhere, hinjective.list_map.eq_iff]
  constructor
  · intro hsame row hrow hsession
    obtain ⟨e, he, rfl⟩ := List.mem_map.1 hrow
    have hmem : e ∈ db.logEntries.entries.filter (fun e => e.2.sessionID = sessionID && p e.2) ↔
        e ∈ db.logEntries.entries.filter (fun e => e.2.sessionID = sessionID && q e.2) := by rw [hsame]
    rw [List.mem_filter, List.mem_filter, hsession] at hmem
    rw [Bool.eq_iff_iff]
    simpa [he] using hmem
  · intro hsame
    apply List.filter_congr
    intro e he
    by_cases hsession : e.2.sessionID = sessionID
    · rw [hsame e.2 (List.mem_map.2 ⟨e, he, rfl⟩) hsession]
    · simp [hsession]

theorem mem_normalizeList {values : List Text} {value : Text} :
    value ∈ normalizeList values ↔ value ≠ [] ∧ ∃ v ∈ values, trimSpace v = value := by
  rw [normalizeList, (List.mergeSort_perm _ _).mem_iff, List.mem_eraseDups, List.mem_filter, List.mem_map,
    decide_eq_true_eq]
  exact and_comm

/-- No node key is blank: it has a NUL. -/
theorem nodeKey_not_blank (p : Text × Text) : trimSpace (nodeKey p) ≠ [] := by
  intro hblank
  have hnul := trimSpace_eq_nil.1 hblank (Char.ofNat 0) (by simp [nodeKey])
  exact absurd hnul (by decide)

theorem normalizeList_nodeKeys (keys : List (Text × Text)) :
    normalizeList (keys.map nodeKey) = [] ↔ keys = [] := by
  constructor
  · intro hnone
    cases keys with
    | nil => rfl
    | cons p rest =>
      have hmem : trimSpace (nodeKey p) ∈ normalizeList ((p :: rest).map nodeKey) :=
        mem_normalizeList.2 ⟨nodeKey_not_blank p, _, List.mem_cons_self, rfl⟩
      rw [hnone] at hmem
      cases hmem
  · rintro rfl
    exact Logs.normalizeList_nil

theorem mem_sentPairs {keys : List (Text × Text)} {pair : Text} :
    pair ∈ (normalizeList (keys.map nodeKey)).map (fun key =>
      key.map fun c => if c = Char.ofNat 0 then '/' else c) ↔ pair ∈ keys.map sentPair := by
  constructor
  · intro hmem
    obtain ⟨key, hkey, rfl⟩ := List.mem_map.1 hmem
    obtain ⟨-, value, hvalue, rfl⟩ := mem_normalizeList.1 hkey
    obtain ⟨p, hp, rfl⟩ := List.mem_map.1 hvalue
    exact List.mem_map.2 ⟨p, hp, rfl⟩
  · intro hmem
    obtain ⟨p, hp, rfl⟩ := List.mem_map.1 hmem
    refine List.mem_map.2 ⟨trimSpace (nodeKey p), ?_, rfl⟩
    exact mem_normalizeList.2 ⟨nodeKey_not_blank p, _, List.mem_map.2 ⟨p, hp, rfl⟩, rfl⟩

/-- What the two filters compare. -/
theorem matching_byScopes (rt : Logs.Runtime) (sessionID : Text) (keys : List (Text × Text))
    (services : List Text) (limit : Int) (db : Db) :
    matching rt (buildSearchWhere sessionID (byScopes keys services limit)) db =
      entriesWhere sessionID (fun e => (keys = [] || joinedPair (pairOf e) ∈ keys.map sentPair) &&
        (normalizeList services = [] || e.serviceName ∈ normalizeList services)) db := by
  have hquery : trimSpace [] = [] := rfl
  rw [matching, entriesWhere]
  congr 1
  apply List.filter_congr
  intro e _
  rw [Bool.eq_iff_iff, List.all_eq_true]
  simp only [buildSearchWhere, byScopes, hquery, Logs.normalizeList_nil, ne_eq, not_true_eq_false, if_false,
    normalizeList_nodeKeys]
  have hnodes : Logs.Condition.holds rt e.2 (.nodes ((normalizeList (keys.map nodeKey)).map fun key =>
      key.map fun c => if c = Char.ofNat 0 then '/' else c)) = true ↔ joinedPair (pairOf e.2) ∈ keys.map sentPair := by
    rw [Logs.Condition.holds, decide_eq_true_eq, mem_sentPairs]
    rfl
  have hsession : Logs.Condition.holds rt e.2 (.session sessionID) = true ↔ e.2.sessionID = sessionID := by
    rw [Logs.Condition.holds, decide_eq_true_eq]
  have hnames : Logs.Condition.holds rt e.2 (.services (normalizeList services)) = true ↔
      e.2.serviceName ∈ normalizeList services := by
    rw [Logs.Condition.holds, decide_eq_true_eq]
  by_cases hkeys : keys = [] <;> by_cases hservices : normalizeList services = []
  · simp [hkeys, hservices, hsession]
  · simp [hkeys, hservices, hsession, hnames]
  · simp [hkeys, hservices, hsession, hnodes, -List.mem_map]
  · simp [hkeys, hservices, hsession, hnames, hnodes, and_comm, -List.mem_map]

/-! ## Names that come through -/

/-- The pairs that `AddFile` and `CreateTailFile` store: PostgreSQL has no NUL in a text. -/
def StoredNames (p : Text × Text) : Prop :=
  (∃ serviceName nodeName originalName, Logs.serviceNode serviceName nodeName originalName = p) ∧
    Char.ofNat 0 ∉ p.1 ∧ Char.ofNat 0 ∉ p.2

theorem inferServiceNode_ne_nil (fileName : Text) :
    (Logs.inferServiceNode fileName).1 ≠ [] ∧ (Logs.inferServiceNode fileName).2 ≠ [] := by
  rw [Logs.inferServiceNode]
  split
  · split
    · next hboth => exact hboth
    · split
      · simp
      · next hstem => exact ⟨hstem, by simp⟩
  · split
    · simp
    · next hstem => exact ⟨hstem, by simp⟩

theorem StoredNames.service_ne_nil {p : Text × Text} (h : StoredNames p) : p.1 ≠ [] := by
  obtain ⟨⟨serviceName, nodeName, originalName, rfl⟩, -⟩ := h
  have hinferred := (inferServiceNode_ne_nil originalName).1
  rw [Logs.serviceNode]
  dsimp only
  split
  · by_cases hservice : trimSpace serviceName = []
    · simpa only [hservice, if_true] using hinferred
    · simp [hservice]
  · next hgiven => exact fun hservice => hgiven (Or.inl hservice)

/-- A pair is sent as it is compared if the trimming finds no white space at its ends. -/
theorem sentPair_eq_joinedPair {p : Text × Text} (h : StoredNames p) : sentPair p = joinedPair p ↔
    (∀ c ∈ p.1.head?, isGoSpace c = false) ∧ ∀ c ∈ p.2.getLast?, isGoSpace c = false := by
  have hslash : (nodeKey p).map (fun c => if c = Char.ofNat 0 then '/' else c) = joinedPair p := by
    have hkeep : ∀ s : Text, Char.ofNat 0 ∉ s → s.map (fun c => if c = Char.ofNat 0 then '/' else c) = s := by
      intro s hs
      have hsame : ∀ c ∈ s, (if c = Char.ofNat 0 then '/' else c) = id c := by
        intro c hc
        apply if_neg
        rintro rfl
        exact hs hc
      rw [List.map_congr_left hsame, List.map_id]
    rw [nodeKey, List.map_append, List.map_cons, hkeep _ h.2.1, hkeep _ h.2.2, if_pos rfl, joinedPair]
  have hends : trimSpace (nodeKey p) = nodeKey p ↔
      (∀ c ∈ p.1.head?, isGoSpace c = false) ∧ ∀ c ∈ p.2.getLast?, isGoSpace c = false := by
    rw [trimSpace_eq_self, nodeKey, List.head?_append_of_ne_nil _ h.service_ne_nil]
    apply and_congr_right
    intro _
    cases hnode : p.2 with
    | nil => simp [isGoSpace]
    | cons c rest => simp [List.getLast?_append, List.getLast?_cons_cons]
  rw [← hends, ← hslash, sentPair]
  constructor
  · intro hsent
    -- trimming takes a part of the key away, and the whole of it is still there
    have hpart : trimSpace (nodeKey p) <:+: nodeKey p :=
      (List.dropWhile_suffix _).isInfix.trans (List.rdropWhile_prefix _ _).isInfix
    apply hpart.eq_of_length
    simpa using congrArg List.length hsent
  · intro hkept
    rw [hkept]

/-- No two of the pairs are joined to one text, no service has white space at its ends, and no node has any at
its end. -/
structure TellsApart (pairs : List (Text × Text)) : Prop where
  joined_injective : ∀ p ∈ pairs, ∀ q ∈ pairs, joinedPair p = joinedPair q → p = q
  services : ∀ p ∈ pairs, trimSpace p.1 = p.1
  nodes : ∀ p ∈ pairs, ∀ c ∈ p.2.getLast?, isGoSpace c = false

/-- The filters select exactly the entries of the listed pairs and services; an empty list is no filter. -/
def ScopeFiltersExact (rt : Logs.Runtime) (sessionID : Text) (scopes : List ServiceScope) (db : Db) : Prop :=
  ∀ (keys : List (Text × Text)) (services : List Text) (limit : Int),
    keys ⊆ pairsOf scopes → services ⊆ servicesOf scopes →
      matching rt (buildSearchWhere sessionID (byScopes keys services limit)) db =
        entriesWhere sessionID
          (fun e => (keys = [] || pairOf e ∈ keys) && (services = [] || e.serviceName ∈ services)) db

section

variable {rt : Logs.Runtime} {sessionID : Text} {scopes : List ServiceScope} {db : Db}

theorem TellsApart.nodes_exact (h : TellsApart (pairsOf scopes)) (hstored : ∀ p ∈ pairsOf scopes, StoredNames p)
    {keys : List (Text × Text)} (hkeys : keys ⊆ pairsOf scopes) {p : Text × Text} (hp : p ∈ pairsOf scopes) :
    joinedPair p ∈ keys.map sentPair ↔ p ∈ keys := by
  have hsent : ∀ q ∈ pairsOf scopes, sentPair q = joinedPair q := fun q hq =>
    (sentPair_eq_joinedPair (hstored q hq)).2 ⟨(trimSpace_eq_self.1 (h.services q hq)).1, h.nodes q hq⟩
  rw [List.mem_map]
  constructor
  · rintro ⟨q, hq, hjoined⟩
    rw [hsent q (hkeys hq)] at hjoined
    rw [← h.joined_injective q (hkeys hq) p hp hjoined]
    exact hq
  · intro hmem
    exact ⟨p, hmem, hsent p hp⟩

theorem mem_normalizeList_services {services : List Text} (htrimmed : ∀ s ∈ services, trimSpace s = s ∧ s ≠ [])
    {service : Text} : service ∈ normalizeList services ↔ service ∈ services := by
  rw [mem_normalizeList]
  constructor
  · rintro ⟨-, s, hs, rfl⟩
    rw [(htrimmed s hs).1]
    exact hs
  · intro hmem
    exact ⟨(htrimmed service hmem).2, service, hmem, (htrimmed service hmem).1⟩

/-- The filter with one key finds the entries of one pair just if it is the pair of the key. -/
theorem joined_eq_sent_of_exact (hexact : ScopeFiltersExact rt sessionID scopes db)
    (hentries : ∀ p ∈ pairsOf scopes, ∃ e ∈ db.logEntries.rows, e.sessionID = sessionID ∧ pairOf e = p)
    {p q : Text × Text} (hp : p ∈ pairsOf scopes) (hq : q ∈ pairsOf scopes) : joinedPair p = sentPair q ↔ p = q := by
  obtain ⟨e, he, hsession, rfl⟩ := hentries p hp
  have hone := hexact [q] [] 0 (by simpa using hq) (List.nil_subset _)
  rw [matching_byScopes, entriesWhere_eq_iff] at hone
  have hfound := hone e he hsession
  simp only [Logs.normalizeList_nil, List.cons_ne_nil, decide_false, decide_true, Bool.false_or, Bool.true_or,
    Bool.and_true, List.map_cons, List.map_nil, List.mem_singleton, decide_eq_decide] at hfound
  exact hfound

/-- The filter with the service of an entry finds the entry only if the name has nothing to trim. -/
theorem trimmed_of_exact (hexact : ScopeFiltersExact rt sessionID scopes db) {e : LogEntryRow}
    (he : e ∈ db.logEntries.rows) (hsession : e.sessionID = sessionID) (hlisted : e.serviceName ∈ servicesOf scopes)
    (hblank : trimSpace e.serviceName ≠ []) : trimSpace e.serviceName = e.serviceName := by
  have hone := hexact [] [e.serviceName] 0 (List.nil_subset _) (List.cons_subset.2 ⟨hlisted, List.nil_subset _⟩)
  rw [matching_byScopes, entriesWhere_eq_iff] at hone
  have hfound := hone e he hsession
  simp only [decide_true, Bool.true_or, Bool.true_and, List.mem_singleton, Bool.or_true] at hfound
  have hkept : trimSpace e.serviceName ∈ normalizeList [e.serviceName] :=
    mem_normalizeList.2 ⟨hblank, _, List.mem_singleton_self _, rfl⟩
  rw [decide_eq_false (List.ne_nil_of_mem hkept), Bool.false_or, decide_eq_true_eq, mem_normalizeList] at hfound
  obtain ⟨-, s, hs, htrim⟩ := hfound
  rw [List.mem_singleton.1 hs] at htrim
  exact htrim

/-- What the filters tell of one pair. -/
theorem TellsApart.of_exact (hexact : ScopeFiltersExact rt sessionID scopes db)
    (hservices : ∀ p ∈ pairsOf scopes, p.1 ∈ servicesOf scopes)
    (hentries : ∀ p ∈ pairsOf scopes, ∃ e ∈ db.logEntries.rows, e.sessionID = sessionID ∧ pairOf e = p)
    (hstored : ∀ p ∈ pairsOf scopes, StoredNames p) : TellsApart (pairsOf scopes) := by
  have hsent : ∀ p ∈ pairsOf scopes, sentPair p = joinedPair p := fun p hp =>
    ((joined_eq_sent_of_exact hexact hentries hp hp).2 rfl).symm
  have hends := fun p hp => (sentPair_eq_joinedPair (hstored p hp)).1 (hsent p hp)
  constructor
  · intro p hp q hq hjoined
    rw [← hsent q hq] at hjoined
    exact (joined_eq_sent_of_exact hexact hentries hp hq).1 hjoined
  · intro p hp
    obtain ⟨e, he, hsession, rfl⟩ := hentries p hp
    apply trimmed_of_exact hexact he hsession (hservices _ hp)
    -- the service does not begin with white space, so the filter is not dropped
    intro hblank
    obtain ⟨c, rest, hname⟩ := List.exists_cons_of_ne_nil (hstored _ hp).service_ne_nil
    have hspace := trimSpace_eq_nil.1 hblank
    dsimp only [pairOf] at hname
    have hfirst := (hends _ hp).1 c (by simp [pairOf, hname])
    rw [hspace c (by simp [hname])] at hfirst
    cases hfirst
  · exact fun p hp => (hends p hp).2

theorem TellsApart.exact (h : TellsApart (pairsOf scopes))
    (hservices : ∀ s, s ∈ servicesOf scopes ↔ ∃ p ∈ pairsOf scopes, p.1 = s)
    (hentries : ∀ e ∈ db.logEntries.rows, e.sessionID = sessionID → pairOf e ∈ pairsOf scopes)
    (hstored : ∀ p ∈ pairsOf scopes, StoredNames p) : ScopeFiltersExact rt sessionID scopes db := by
  intro keys services limit hkeys hlisted
  have htrimmed : ∀ s ∈ services, trimSpace s = s ∧ s ≠ [] := by
    intro s hs
    obtain ⟨p, hp, rfl⟩ := (hservices s).1 (hlisted hs)
    exact ⟨h.services p hp, (hstored p hp).service_ne_nil⟩
  have hnone : normalizeList services = [] ↔ services = [] := by
    rw [List.eq_nil_iff_forall_not_mem, List.eq_nil_iff_forall_not_mem]
    simp only [mem_normalizeList_services htrimmed]
  rw [matching_byScopes, entriesWhere_eq_iff]
  intro e he hsession
  simp only [hnone, mem_normalizeList_services htrimmed,
    h.nodes_exact hstored hkeys (hentries e he hsession)]

end

/-- In every state and for every tree of a session the filters are exact just if the pairs of the tree are
told apart. -/
theorem scope_filters_exact_iff (env : World.Env) (w : World) (hreach : World.Reachable env w) (rt : Logs.Runtime)
    (actor : Principal) (sessionID : Text) (scopes : List ServiceScope)
    (hstored : ∀ e ∈ w.db.logEntries.rows, e.sessionID = sessionID → StoredNames (pairOf e))
    (htree : Logs.tree rt actor sessionID w.db = .ok scopes) :
    ScopeFiltersExact rt sessionID scopes w.db ↔ TellsApart (pairsOf scopes) := by
  have hpairs : ∀ p, p ∈ pairsOf scopes ↔ ∃ e ∈ w.db.logEntries.rows, e.sessionID = sessionID ∧ pairOf e = p :=
    fun p => mem_pairsOf hreach.counted hreach.scopesNonempty htree
  have hstoredPairs : ∀ p ∈ pairsOf scopes, StoredNames p := by
    intro p hp
    obtain ⟨e, he, hsession, rfl⟩ := (hpairs p).1 hp
    exact hstored e he hsession
  constructor
  · intro hexact
    exact .of_exact hexact (fun p hp => (mem_servicesOf htree).2 ⟨p, hp, rfl⟩) (fun p hp => (hpairs p).1 hp)
      hstoredPairs
  · intro happart
    exact happart.exact (fun s => mem_servicesOf htree)
      (fun e he hsession => (hpairs _).2 ⟨e, he, hsession, rfl⟩) hstoredPairs

/-! ## Files with names, with and without slashes -/

namespace World

/-- The row of a file, and the line that it has. -/
def namedFile (serviceName nodeName : Text) : LogFileRow :=
  { shopFile with serviceName := serviceName, nodeName := nodeName }

def upLine : Logs.ParsedLine := ⟨none, "INFO".toList, "up".toList, "up".toList, 1⟩

/-- A file of the log session with one line. -/
def withNamed (w : World) (fileID serviceName nodeName : Text) : World :=
  let db := { w.db with logFiles := w.db.logFiles.insert fileID (namedFile serviceName nodeName) }
  ⟨(Logs.insertBatch "logs_a".toList fileID serviceName nodeName [upLine] db).getD db,
    w.uploads.insert fileID "logs_a".toList⟩

theorem reachable_withNamed {env : Env} {w : World} {fileID serviceName nodeName : Text} {row : LogSessionRow}
    {files services : Nat} {db db' : Db} (h : Reachable env w)
    (hadmitted : Logs.authorize bobPrincipal "logs_a".toList true w.db =
      .ok (Logs.sessionOf "logs_a".toList row files services))
    (hnew : w.uploads.lookup fileID = none)
    (hinsert : Logs.insertFile fileID (namedFile serviceName nodeName) w.db = some db)
    (hbatch : Logs.insertBatch "logs_a".toList fileID serviceName nodeName [upLine] db = some db')
    (hend : w.withNamed fileID serviceName nodeName = ⟨db', w.uploads.insert fileID "logs_a".toList⟩) :
    Reachable env (w.withNamed fileID serviceName nodeName) := by
  have hupload : (w.uploads.insert fileID "logs_a".toList).lookup fileID = some "logs_a".toList :=
    AList.lookup_insert _
  rw [hend]
  exact ((h.tail (.startFile hadmitted hnew)).tail (.insertFile hupload hinsert)).tail
    (.insertBatch hupload hbatch)

/-- Two services with two nodes each. -/
def shopAndBilling : World :=
  (((oneSession.withNamed "logfile_a".toList "shop".toList "n1".toList).withNamed "logfile_b".toList "shop".toList
    "n2".toList).withNamed "logfile_c".toList "billing".toList "n1".toList).withNamed "logfile_d".toList
      "billing".toList "n3".toList

theorem reachable_shopAndBilling : Reachable ⟨default, default⟩ shopAndBilling := by
  have hfirst : Logs.authorize bobPrincipal "logs_a".toList true oneSession.db =
      .ok (Logs.sessionOf "logs_a".toList bobSession 0 0) := rfl
  have hsecond : Logs.authorize bobPrincipal "logs_a".toList true
      (oneSession.withNamed "logfile_a".toList "shop".toList "n1".toList).db =
        .ok (Logs.sessionOf "logs_a".toList bobSession 1 1) := rfl
  have hthird : Logs.authorize bobPrincipal "logs_a".toList true
      ((oneSession.withNamed "logfile_a".toList "shop".toList "n1".toList).withNamed "logfile_b".toList "shop".toList
        "n2".toList).db = .ok (Logs.sessionOf "logs_a".toList bobSession 2 1) := rfl
  have hfourth : Logs.authorize bobPrincipal "logs_a".toList true
      (((oneSession.withNamed "logfile_a".toList "shop".toList "n1".toList).withNamed "logfile_b".toList "shop".toList
        "n2".toList).withNamed "logfile_c".toList "billing".toList "n1".toList).db =
          .ok (Logs.sessionOf "logs_a".toList bobSession 3 2) := rfl
  exact reachable_withNamed (reachable_withNamed (reachable_withNamed (reachable_withNamed reachable_oneSession hfirst
    rfl rfl rfl rfl) hsecond rfl rfl rfl rfl) hthird rfl rfl rfl rfl) hfourth rfl rfl rfl rfl

/-- Service `a/b` with node `c`, and service `a` with node `b/c`. -/
def slashes : World :=
  (oneSession.withNamed "logfile_a".toList "a/b".toList "c".toList).withNamed "logfile_b".toList "a".toList
    "b/c".toList

theorem reachable_slashes : Reachable ⟨default, default⟩ slashes := by
  have hfirst : Logs.authorize bobPrincipal "logs_a".toList true oneSession.db =
      .ok (Logs.sessionOf "logs_a".toList bobSession 0 0) := rfl
  have hsecond : Logs.authorize bobPrincipal "logs_a".toList true
      (oneSession.withNamed "logfile_a".toList "a/b".toList "c".toList).db =
        .ok (Logs.sessionOf "logs_a".toList bobSession 1 1) := rfl
  exact reachable_withNamed (reachable_withNamed reachable_oneSession hfirst rfl rfl rfl rfl) hsecond rfl rfl rfl rfl

end World

def shopPairs : List (Text × Text) :=
  [("billing".toList, "n3".toList), ("billing".toList, "n1".toList), ("shop".toList, "n2".toList),
    ("shop".toList, "n1".toList)]

theorem pairs_shopAndBilling : World.shopAndBilling.db.logEntries.rows.map pairOf = shopPairs := rfl

theorem scope_filters_exact_shop : ∃ scopes,
    Logs.tree default World.bobPrincipal "logs_a".toList World.shopAndBilling.db = .ok scopes ∧
      shopPairs ⊆ pairsOf scopes ∧ ScopeFiltersExact default "logs_a".toList scopes World.shopAndBilling.db := by
  have hreach := World.reachable_shopAndBilling
  obtain ⟨scopes, htree⟩ : ∃ scopes, Logs.tree default World.bobPrincipal "logs_a".toList World.shopAndBilling.db =
    .ok scopes := ⟨_, rfl⟩
  have hpairs : ∀ p, p ∈ pairsOf scopes ↔
      ∃ e ∈ World.shopAndBilling.db.logEntries.rows, e.sessionID = "logs_a".toList ∧ pairOf e = p :=
    fun p => mem_pairsOf hreach.counted hreach.scopesNonempty htree
  have hsession : ∀ e ∈ World.shopAndBilling.db.logEntries.rows, e.sessionID = "logs_a".toList := by decide
  have hrow : ∀ e ∈ World.shopAndBilling.db.logEntries.rows, pairOf e ∈ shopPairs := by
    intro e he
    rw [← pairs_shopAndBilling]
    exact List.mem_map_of_mem he
  have hstored : ∀ p ∈ shopPairs, StoredNames p := by
    have hnames : ∀ p ∈ shopPairs, Logs.serviceNode p.1 p.2 [] = p ∧ Char.ofNat 0 ∉ p.1 ∧ Char.ofNat 0 ∉ p.2 := by
      decide
    intro p hp
    obtain ⟨hname, hnul⟩ := hnames p hp
    exact ⟨⟨p.1, p.2, [], hname⟩, hnul⟩
  have honly : ∀ p ∈ pairsOf scopes, p ∈ shopPairs := by
    intro p hp
    obtain ⟨e, he, -, rfl⟩ := (hpairs p).1 hp
    exact hrow e he
  refine ⟨scopes, htree, ?_, (scope_filters_exact_iff _ _ hreach default World.bobPrincipal _ scopes
    (fun e he _ => hstored _ (hrow e he)) htree).2 ⟨?_, ?_, ?_⟩⟩
  · intro p hp
    rw [← pairs_shopAndBilling] at hp
    obtain ⟨e, he, rfl⟩ := List.mem_map.1 hp
    exact (hpairs _).2 ⟨e, he, hsession e he, rfl⟩
  · have happart : ∀ p ∈ shopPairs, ∀ q ∈ shopPairs, joinedPair p = joinedPair q → p = q := by decide
    exact fun p hp q hq => happart p (honly p hp) q (honly q hq)
  · have hservices : ∀ p ∈ shopPairs, trimSpace p.1 = p.1 := by decide
    exact fun p hp => hservices p (honly p hp)
  · have hnodes : ∀ p ∈ shopPairs, p.2.getLast?.all (fun c => !isGoSpace c) = true := by decide
    intro p hp c hc
    rw [← Bool.not_eq_true']
    exact (Option.all_eq_true _ _).1 (hnodes p (honly p hp)) c hc

theorem rows_slashes : World.slashes.db.logEntries.rows =
    [lineEntry "logs_a".toList "logfile_b".toList "a".toList "b/c".toList World.upLine,
      lineEntry "logs_a".toList "logfile_a".toList "a/b".toList "c".toList World.upLine] := by
  rfl

theorem storedNames_slashes : ∀ e ∈ World.slashes.db.logEntries.rows, StoredNames (pairOf e) := by
  intro e he
  rw [rows_slashes] at he
  rcases List.mem_cons.1 he with rfl | he
  · exact ⟨⟨"a".toList, "b/c".toList, [], by decide⟩, by decide, by decide⟩
  · rw [List.mem_singleton.1 he]
    exact ⟨⟨"a/b".toList, "c".toList, [], by decide⟩, by decide, by decide⟩

/-- The key of service `a/b` and node `c` finds the line of service `a` and node `b/c` too. -/
theorem node_key_finds_other_pair : World.Reachable ⟨default, default⟩ World.slashes ∧
    (∀ e ∈ World.slashes.db.logEntries.rows, StoredNames (pairOf e)) ∧
    ∃ scopes, Logs.tree default World.bobPrincipal "logs_a".toList World.slashes.db = .ok scopes ∧
      ("a/b".toList, "c".toList) ∈ pairsOf scopes ∧
      ((matching default (buildSearchWhere "logs_a".toList (byScopes [("a/b".toList, "c".toList)] [] 0))
        World.slashes.db).map fun e => pairOf e.row) =
          [("a".toList, "b/c".toList), ("a/b".toList, "c".toList)] ∧
      ¬ScopeFiltersExact default "logs_a".toList scopes World.slashes.db := by
  have hreach := World.reachable_slashes
  refine ⟨hreach, storedNames_slashes, ?_⟩
  obtain ⟨scopes, htree⟩ : ∃ scopes, Logs.tree default World.bobPrincipal "logs_a".toList World.slashes.db =
      .ok scopes := ⟨_, rfl⟩
  have hpairs : ∀ p, p ∈ pairsOf scopes ↔
      ∃ e ∈ World.slashes.db.logEntries.rows, e.sessionID = "logs_a".toList ∧ pairOf e = p :=
    fun p => mem_pairsOf hreach.counted hreach.scopesNonempty htree
  have hpair : ∀ e ∈ World.slashes.db.logEntries.rows, e.sessionID = "logs_a".toList → pairOf e ∈ pairsOf scopes :=
    fun e he hsession => (hpairs _).2 ⟨e, he, hsession, rfl⟩
  simp only [rows_slashes, List.forall_mem_cons] at hpair
  have hfirst : ("a".toList, "b/c".toList) ∈ pairsOf scopes := hpair.1 rfl
  have hsecond : ("a/b".toList, "c".toList) ∈ pairsOf scopes := hpair.2.1 rfl
  refine ⟨scopes, htree, hsecond, ?_, ?_⟩
  · rw [matching_byScopes, Logs.normalizeList_nil]
    rfl
  · intro hexact
    have hstored : ∀ p ∈ pairsOf scopes, StoredNames p := by
      intro p hp
      obtain ⟨e, he, -, rfl⟩ := (hpairs p).1 hp
      exact storedNames_slashes e he
    have happart := TellsApart.of_exact hexact (fun p hp => (mem_servicesOf htree).2 ⟨p, hp, rfl⟩)
      (fun p hp => (hpairs p).1 hp) hstored
    have hsame := happart.joined_injective _ hfirst _ hsecond (by decide)
    exact absurd hsame (by decide)

end Workbench.Storage
