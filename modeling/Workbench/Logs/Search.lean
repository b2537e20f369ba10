import Mathlib.Data.Char
import Mathlib.Data.List.Lex
import Workbench.Logs.Store

/-!
# Searching the log store

`Search` and `Tree` of `api/internal/logs/store.go`.
-/

set_option autoImplicit false

namespace Workbench.Logs

open Workbench.Lib Workbench.Storage
open Workbench.Identity (Principal)

/-- What the queries take from PostgreSQL: its case mapping, its collation, and `value ILIKE pattern`. -/
structure Runtime where
  lowerText : Text → Text
  collate : Text → Text → Bool
  ilike : (value pattern : Text) → Bool

/-- A runtime without wildcards, for the runs on fixed inputs. -/
instance : Inhabited Runtime where
  default := ⟨toLower, fun _ _ => true, fun value pattern => value = pattern⟩

structure SearchInput where
  query : Text
  levels : List Text
  services : List Text
  nodeKeys : List Text
  timeFromMs : Option Int
  timeToMs : Option Int
  limit : Int

/-- Trimmed, once each, in the order of `sort.Strings`. -/
def normalizeList (values : List Text) : List Text :=
  ((values.map trimSpace).filter fun value => value ≠ []).eraseDups.mergeSort

theorem normalizeList_nil : normalizeList [] = [] := by
  rw [normalizeList, List.map_nil, List.filter_nil, List.eraseDups_nil, List.mergeSort_nil]

/-- One condition of a `WHERE`, with its argument. -/
inductive Condition where
  | session (id : Text)
  | text (query : Text)
  | levels (values : List Text)
  | services (values : List Text)
  | nodes (pairs : List Text)
  | timeFrom (ms : Int)
  | timeTo (ms : Int)
  deriving DecidableEq, Repr

def buildSearchWhere (sessionID : Text) (input : SearchInput) : List Condition :=
  let query := trimSpace input.query
  let levels := normalizeList input.levels
  let services := normalizeList input.services
  let nodeKeys := normalizeList input.nodeKeys
  [.session sessionID] ++
    (if query ≠ [] then [.text query] else []) ++
    (if levels ≠ [] then [.levels levels] else []) ++
    (if services ≠ [] then [.services services] else []) ++
    (if nodeKeys ≠ [] then
      [.nodes (nodeKeys.map fun key => key.map fun c => if c = Char.ofNat 0 then '/' else c)] else []) ++
    (input.timeFromMs.map Condition.timeFrom).toList ++
    (input.timeToMs.map Condition.timeTo).toList

/-- Whether a row satisfies a condition; no comparison with `NULL` does. -/
def Condition.holds (rt : Runtime) (e : LogEntryRow) : Condition → Bool
  | .session id => e.sessionID = id
  | .text query =>
    rt.ilike e.message ('%' :: query ++ ['%']) || rt.ilike e.raw ('%' :: query ++ ['%'])
  | .levels values => e.level ∈ values
  | .services values => e.serviceName ∈ values
  | .nodes pairs => e.serviceName ++ '/' :: e.nodeName ∈ pairs
  | .timeFrom ms => e.timestampMs.any fun t => ms ≤ t
  | .timeTo ms => e.timestampMs.any fun t => t ≤ ms

structure NodeScope where
  nodeName : Text
  lineCount : Nat
  deriving DecidableEq, Repr

structure ServiceScope where
  serviceName : Text
  lineCount : Nat
  nodes : List NodeScope
  deriving DecidableEq, Repr

/-- A row of `log_scope_stats` without its session. -/
structure ScopeRow where
  serviceName : Text
  nodeName : Text
  lineCount : Nat
  deriving DecidableEq, Repr

/-- The rows that `Tree` selects. -/
def scopeRows (sessionID : Text) (db : Db) : List ScopeRow :=
  (db.logScopeStats.entries.filter fun e => e.1.1 = sessionID).map fun e => ⟨e.1.2.1, e.1.2.2, e.2⟩

/-- `ORDER BY lower(service_name), lower(node_name)`. -/
def scopeOrder (rt : Runtime) (a b : ScopeRow) : Bool :=
  if rt.lowerText a.serviceName = rt.lowerText b.serviceName then
    rt.collate (rt.lowerText a.nodeName) (rt.lowerText b.nodeName)
  else rt.collate (rt.lowerText a.serviceName) (rt.lowerText b.serviceName)

/-- One row added to its service; a service that is new comes last. -/
def addScope (row : ScopeRow) : List ServiceScope → List ServiceScope
  | [] => [⟨row.serviceName, row.lineCount, [⟨row.nodeName, row.lineCount⟩]⟩]
  | service :: rest =>
    if service.serviceName = row.serviceName then
      { service with
        lineCount := service.lineCount + row.lineCount
        nodes := service.nodes ++ [⟨row.nodeName, row.lineCount⟩] } :: rest
    else service :: addScope row rest

/-- The loop over the rows. -/
def groupScopes (rows : List ScopeRow) : List ServiceScope :=
  rows.foldl (fun services row => addScope row services) []

def tree (rt : Runtime) (actor : Principal) (sessionID : Text) (db : Db) :
    Except Err (List ServiceScope) := do
  let _ ← authorize actor sessionID false db
  .ok (groupScopes ((scopeRows sessionID db).mergeSort (scopeOrder rt)))

structure Entry where
  id : Nat
  row : LogEntryRow
  deriving DecidableEq, Repr

structure SearchResult where
  entries : List Entry
  total : Nat
  countExact : Bool
  tree : List ServiceScope
  deriving DecidableEq, Repr

/-- The entries that satisfy every condition. -/
def matching (rt : Runtime) (conditions : List Condition) (db : Db) : List Entry :=
  (db.logEntries.entries.filter fun e => conditions.all fun c => c.holds rt e.2).map fun e =>
    ⟨e.1, e.2⟩

/-- `ORDER BY timestamp_ms NULLS LAST, id`. -/
def entryOrder (a b : Entry) : Bool :=
  match a.row.timestampMs, b.row.timestampMs with
  | some s, some t => if s = t then a.id ≤ b.id else s ≤ t
  | some _, none => true
  | none, some _ => false
  | none, none => a.id ≤ b.id

def search (rt : Runtime) (actor : Principal) (sessionID : Text) (input : SearchInput) (db : Db) :
    Except Err SearchResult := do
  let _ ← authorize actor sessionID false db
  let found := matching rt (buildSearchWhere sessionID input) db
  let limit := if input.limit ≤ 0 ∨ 500 < input.limit then 200 else input.limit
  let scopes ← tree rt actor sessionID db
  .ok ⟨(found.mergeSort entryOrder).take limit.toNat, found.length, true, scopes⟩

/-! ## The grouping of the tree -/

/-- The rows that a tree shows. -/
def shown (services : List ServiceScope) : List ScopeRow :=
  services.flatMap fun service =>
    service.nodes.map fun node => ⟨service.serviceName, node.nodeName, node.lineCount⟩

/-- A tree has each service once, with the sum of its nodes. -/
structure Grouped (services : List ServiceScope) : Prop where
  names : (services.map ServiceScope.serviceName).Nodup
  sums : ∀ service ∈ services, service.lineCount = (service.nodes.map NodeScope.lineCount).sum

/-- The total of a tree. -/
def grandTotal (services : List ServiceScope) : Nat := (services.map ServiceScope.lineCount).sum

section

variable {row : ScopeRow} {services : List ServiceScope}

theorem shown_addScope (row : ScopeRow) (services : List ServiceScope) :
    (shown (addScope row services)).Perm (row :: shown services) := by
  induction services with
  | nil => exact List.Perm.refl _
  | cons service rest ih =>
    rw [addScope]
    by_cases hname : service.serviceName = row.serviceName
    · rw [if_pos hname]
      simp only [shown, List.flatMap_cons, List.map_append, List.map_cons, List.map_nil,
        List.append_assoc, List.singleton_append, hname]
      -- the row goes to the end of its service, behind the nodes that are there
      exact List.perm_middle
    · rw [if_neg hname]
      -- by induction it is behind the rows of the first service
      have hrest := ih.append_left
        (service.nodes.map fun node => (⟨service.serviceName, node.nodeName, node.lineCount⟩ : ScopeRow))
      exact hrest.trans List.perm_middle

theorem mem_names_addScope {name : Text} :
    name ∈ (addScope row services).map ServiceScope.serviceName ↔
      name = row.serviceName ∨ name ∈ services.map ServiceScope.serviceName := by
  induction services with
  | nil =>
    rw [addScope, List.map_cons, List.mem_cons]
  | cons service rest ih =>
    rw [addScope]
    by_cases hname : service.serviceName = row.serviceName
    · rw [if_pos hname]
      simp only [List.map_cons, List.mem_cons, hname]
      tauto
    · rw [if_neg hname, List.map_cons, List.mem_cons, ih, List.map_cons, List.mem_cons]
      tauto

theorem Grouped.addScope (h : Grouped services) : Grouped (addScope row services) := by
  induction services with
  | nil =>
    refine ⟨List.nodup_singleton _, ?_⟩
    intro service hservice
    rw [List.mem_singleton.1 hservice]
    rfl
  | cons service rest ih =>
    obtain ⟨hnot, hnodup⟩ := List.nodup_cons.1 h.names
    -- the rest of the tree is one itself
    have hrest := ih ⟨hnodup, fun s hs => h.sums s (List.mem_cons_of_mem _ hs)⟩
    have hsum := h.sums service List.mem_cons_self
    rw [Logs.addScope]
    by_cases hname : service.serviceName = row.serviceName
    · rw [if_pos hname]
      refine ⟨h.names, ?_⟩
      intro s hs
      rcases List.mem_cons.1 hs with rfl | hs
      · rw [List.map_append, List.sum_append, ← hsum]
        rfl
      · exact h.sums s (List.mem_cons_of_mem _ hs)
    · rw [if_neg hname]
      constructor
      · apply List.nodup_cons.2
        refine ⟨?_, hrest.names⟩
        rw [mem_names_addScope]
        rintro (heq | hmem)
        · exact hname heq
        · exact hnot hmem
      · intro s hs
        rcases List.mem_cons.1 hs with rfl | hs
        · exact hsum
        · exact hrest.sums s hs

theorem foldl_addScope (rows : List ScopeRow) (h : Grouped services) :
    Grouped (rows.foldl (fun services row => Logs.addScope row services) services) ∧
      (shown (rows.foldl (fun services row => Logs.addScope row services) services)).Perm
        (rows ++ shown services) := by
  induction rows generalizing services with
  | nil => exact ⟨h, List.Perm.refl _⟩
  | cons row rest ih =>
    obtain ⟨hgrouped, hperm⟩ := ih h.addScope
    refine ⟨hgrouped, hperm.trans ?_⟩
    exact ((shown_addScope row services).append_left rest).trans List.perm_middle

/-- The tree shows exactly the rows, each under its service. -/
theorem groupScopes_spec (rows : List ScopeRow) :
    Grouped (groupScopes rows) ∧ (shown (groupScopes rows)).Perm rows := by
  have hempty : Grouped [] := ⟨List.nodup_nil, fun _ h => (nomatch h)⟩
  obtain ⟨hgrouped, hperm⟩ := foldl_addScope rows hempty
  refine ⟨hgrouped, ?_⟩
  rw [show shown [] = [] from rfl, List.append_nil] at hperm
  exact hperm

/-- The total of a tree is the sum of the rows that it shows. -/
theorem Grouped.grandTotal_eq (h : Grouped services) :
    grandTotal services = ((shown services).map ScopeRow.lineCount).sum := by
  have hsums := h.sums
  clear h
  induction services with
  | nil => rfl
  | cons service rest ih =>
    have hrest := ih fun s hs => hsums s (List.mem_cons_of_mem _ hs)
    rw [grandTotal] at hrest
    rw [grandTotal, List.map_cons, List.sum_cons, hrest, hsums service List.mem_cons_self, shown, shown,
      List.flatMap_cons, List.map_append, List.sum_append, List.map_map]
    rfl

end

/-! ## Searches without filters -/

/-- No field of the input restricts the entries. -/
structure SearchInput.Unfiltered (input : SearchInput) : Prop where
  query : trimSpace input.query = []
  levels : normalizeList input.levels = []
  services : normalizeList input.services = []
  nodeKeys : normalizeList input.nodeKeys = []
  timeFromMs : input.timeFromMs = none
  timeToMs : input.timeToMs = none

theorem buildSearchWhere_unfiltered {input : SearchInput} (h : input.Unfiltered) (sessionID : Text) :
    buildSearchWhere sessionID input = [.session sessionID] := by
  rw [buildSearchWhere, h.query, h.levels, h.services, h.nodeKeys, h.timeFromMs, h.timeToMs]
  rfl

theorem search_ok {rt : Runtime} {actor : Principal} {sessionID : Text} {input : SearchInput} {db : Db}
    {result : SearchResult} (h : search rt actor sessionID input db = .ok result) :
    tree rt actor sessionID db = .ok result.tree ∧
      result.total = (matching rt (buildSearchWhere sessionID input) db).length := by
  rw [search, bind_eq_ok] at h
  obtain ⟨session, -, hrest⟩ := h
  dsimp only at hrest
  rw [bind_eq_ok] at hrest
  obtain ⟨scopes, htree, hend⟩ := hrest
  cases hend
  exact ⟨htree, rfl⟩

theorem tree_ok {rt : Runtime} {actor : Principal} {sessionID : Text} {db : Db}
    {scopes : List ServiceScope} (h : tree rt actor sessionID db = .ok scopes) :
    Grouped scopes ∧ (shown scopes).Perm (scopeRows sessionID db) := by
  rw [tree, bind_eq_ok] at h
  obtain ⟨session, -, hend⟩ := h
  cases hend
  obtain ⟨hgrouped, hperm⟩ := groupScopes_spec ((scopeRows sessionID db).mergeSort (scopeOrder rt))
  exact ⟨hgrouped, hperm.trans (List.mergeSort_perm _ _)⟩

end Workbench.Logs
