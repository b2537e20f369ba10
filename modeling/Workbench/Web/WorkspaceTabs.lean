import Workbench.Base.Text
import Workbench.Lib.Infixes
import Workbench.Lib.Runs

/-!
# The tabs of the workbench

`DatabaseWorkbench.tsx` keeps the tabs and the id of the active one apart, and every handler sets both. React commits
what one part of a handler sets before the next part runs, so each part finds the tabs as they are, in `tabsRef` too;
what a handler read before it waited for the server is as old as its call. A table that is deleted takes its tab along
without a look at the others, unlike `closeTab`: `visible_iff` says in which runs a tab stays visible.
-/

set_option autoImplicit false

namespace Workbench.Web.Tabs

open Workbench.Lib

/-! ## Tabs -/

/-- The driver of the active connection, if there is one. -/
inductive Driver where
  | mysql
  | postgres
  | mongodb
  | redis
  | unconnected
  deriving DecidableEq

/-- A table; a catalog or schema that it has not is empty. -/
structure DatabaseObject where
  catalog : Text
  schema : Text
  name : Text
  deriving DecidableEq

inductive Section where
  | documents
  | query
  | schema
  deriving DecidableEq

inductive Kind where
  | table
  | query
  | mongoDocument
  | redisKey
  | redisConsole
  | driverHome
  deriving DecidableEq

/-- A tab, with what its id is made of. -/
inductive WorkspaceTab where
  | table (table : DatabaseObject)
  | query (created : Text)
  | mongoDocument (collection : DatabaseObject) (shown : Section)
  | redisKey (key : Text)
  | redisConsole (counter : Nat)
  | driverHome (driver : Text)
  deriving DecidableEq

def tableTabId (table : DatabaseObject) : Text :=
  "table:".toList ++ (table.catalog ++ '/' :: (table.schema ++ '/' :: table.name))

def mongoTabId (table : DatabaseObject) : Text := "mongo:".toList ++ (table.schema ++ '/' :: table.name)

namespace WorkspaceTab

def kind : WorkspaceTab → Kind
  | table _ => .table
  | query _ => .query
  | mongoDocument _ _ => .mongoDocument
  | redisKey _ => .redisKey
  | redisConsole _ => .redisConsole
  | driverHome _ => .driverHome

def id : WorkspaceTab → Text
  | .table source => tableTabId source
  | .query text => "query:".toList ++ text
  | .mongoDocument collection _ => mongoTabId collection
  | .redisKey key => "redis-key:".toList ++ key
  | .redisConsole counter => "redis-console:".toList ++ Nat.toDigits 10 counter
  | .driverHome driver => "home:".toList ++ driver

/-- A tab of a collection on another section. -/
def withSection (shown : Section) : WorkspaceTab → WorkspaceTab
  | mongoDocument collection _ => .mongoDocument collection shown
  | tab => tab

end WorkspaceTab

/-! ## The workbench -/

/-- `createId`, of which no call returns what another one did. -/
structure Ids where
  createId : Nat → Text
  different : Function.Injective createId

/-- A deletion that waits for the server, with the active tab of the render that it was started in. -/
structure Deletion where
  table : DatabaseObject
  activeTabId : Text

/-- A connection that is waited for, with the counter of the render that it was selected in. -/
structure Selection where
  driver : Driver
  redisConsoleCounter : Nat

structure DatabaseWorkbench where
  tabs : List WorkspaceTab
  tabsRef : List WorkspaceTab
  activeTabId : Text
  redisConsoleCounter : Nat
  created : Nat
  deleting : List Deletion
  selecting : List Selection

def createDefaultWorkspaceTab (driver : Driver) (created : Text) (redisConsoleCounter : Nat) : WorkspaceTab × Nat :=
  match driver with
  | .redis => (.redisConsole redisConsoleCounter, redisConsoleCounter + 1)
  | .mongodb => (.driverHome "mongodb".toList, redisConsoleCounter)
  | _ => (.query created, redisConsoleCounter)

/-- `prepareTableTabReload`, as far as the tabs go: the snapshot is a tab of the same table. -/
def prepareTableTabReload (current : List WorkspaceTab) (id : Text) (table : Option DatabaseObject) :
    Option (List WorkspaceTab) :=
  match current.find? fun tab => decide (tab.id = id ∧ tab.kind = .table) with
  | some base => some (current.map fun tab => if tab.id = id then base else tab)
  | none => table.map fun table =>
    let base := WorkspaceTab.table table
    (current ++ [base]).map fun tab => if tab.id = id then base else tab

namespace DatabaseWorkbench

variable (ids : Ids) (w : DatabaseWorkbench)

/-- `resetWorkspace`, of a render with this counter. -/
def resetWorkspace (driver : Driver) (redisConsoleCounter : Nat) : DatabaseWorkbench :=
  let (tab, nextRedisConsoleCounter) := createDefaultWorkspaceTab driver (ids.createId w.created) redisConsoleCounter
  { w with
    tabs := [tab], activeTabId := tab.id, redisConsoleCounter := nextRedisConsoleCounter, created := w.created + 1 }

def reloadTableTab (id : Text) (table : Option DatabaseObject) : DatabaseWorkbench :=
  match prepareTableTabReload w.tabsRef id table with
  | none => w
  | some nextTabs => { w with tabs := nextTabs, tabsRef := nextTabs }

/-- What `openQueryForTable` and `openTableStructure` do for a collection. -/
def openSection (table : DatabaseObject) (shown : Section) : DatabaseWorkbench :=
  let id := mongoTabId table
  let tabs :=
    if w.tabs.any fun tab => tab.id = id ∧ tab.kind = .mongoDocument then
      w.tabs.map fun tab => if tab.id = id then tab.withSection shown else tab
    else w.tabs ++ [.mongoDocument table shown]
  { w with tabs := tabs, activeTabId := id }

def loadTableData (driver : Driver) (table : DatabaseObject) : DatabaseWorkbench :=
  if driver = .mongodb then
    let id := mongoTabId table
    let tabs := if w.tabs.any fun tab => tab.id = id then w.tabs else w.tabs ++ [.mongoDocument table .documents]
    { w with tabs := tabs, activeTabId := id }
  else { w with activeTabId := tableTabId table }.reloadTableTab (tableTabId table) (some table)

def openQueryTab : DatabaseWorkbench :=
  let tab := WorkspaceTab.query (ids.createId w.created)
  { w with tabs := w.tabs ++ [tab], activeTabId := tab.id, created := w.created + 1 }

def openQueryForTable (driver : Driver) (table : DatabaseObject) : DatabaseWorkbench :=
  if driver = .mongodb then w.openSection table .query else w.openQueryTab ids

def openTableStructure (driver : Driver) (table : DatabaseObject) : DatabaseWorkbench :=
  if driver = .mongodb then w.openSection table .schema
  else
    let id := tableTabId table
    let tabs := if w.tabs.any fun tab => tab.id = id then w.tabs else w.tabs ++ [.table table]
    { w with tabs := tabs, activeTabId := id }

def openRedisKey (key : Text) : DatabaseWorkbench :=
  let tab := WorkspaceTab.redisKey key
  let tabs := if w.tabs.any fun item => item.id = tab.id then w.tabs else w.tabs ++ [tab]
  { w with tabs := tabs, activeTabId := tab.id }

def openRedisConsole : DatabaseWorkbench :=
  let tab := WorkspaceTab.redisConsole w.redisConsoleCounter
  { w with
    tabs := w.tabs ++ [tab], activeTabId := tab.id, redisConsoleCounter := w.redisConsoleCounter + 1 }

/-- A tab of the bar is clicked; a table that is neither loaded nor being loaded is loaded again. -/
def activate (tab : WorkspaceTab) (unloaded : Bool) : DatabaseWorkbench :=
  let w := { w with activeTabId := tab.id }
  match tab with
  | .table table => if unloaded then w.reloadTableTab tab.id (some table) else w
  | _ => w

/-- `closeTab`; `keep` is the answer that the changes of the structure are not thrown away. -/
def closeTab (tabId : Text) (keep : Bool) : DatabaseWorkbench :=
  if keep ∨ w.tabs.length = 1 then w
  else
    let next := w.tabs.filter fun tab => tab.id ≠ tabId
    let index := w.tabs.findIdx fun tab => tab.id = tabId
    let fallback := next[index - 1]? <|> next.head?
    { w with
      tabs := next
      activeTabId := if w.activeTabId = tabId then fallback.elim w.activeTabId WorkspaceTab.id else w.activeTabId }

/-- The end of `handleDeleteTable`, behind the answer of the server. -/
def tableDeleted (deletion : Deletion) : DatabaseWorkbench :=
  let tabId := tableTabId deletion.table
  let remaining := w.tabsRef.filter fun tab => tab.id ≠ tabId
  { w with
    tabs := w.tabs.filter fun tab => tab.id ≠ tabId
    activeTabId :=
      if deletion.activeTabId = tabId then remaining.head?.elim deletion.activeTabId WorkspaceTab.id
      else w.activeTabId }

end DatabaseWorkbench

/-- What the component reacts to: the user, and the answers that it waits for. -/
inductive Event where
  | loadTableData (driver : Driver) (table : DatabaseObject)
  | openQueryTab
  | openQueryForTable (driver : Driver) (table : DatabaseObject)
  | openTableStructure (driver : Driver) (table : DatabaseObject)
  | openRedisKey (key : Text)
  | openRedisConsole
  | activate (index : Nat) (unloaded : Bool)
  | closeTab (index : Nat) (keep : Bool)
  | reloadTableTab (id : Text)
  | switchDatabase (driver : Driver)
  | deleteTable (table : DatabaseObject)
  | deletionAnswered (index : Nat) (ok : Bool)
  | selectConnection (driver : Driver)
  | selectionAnswered (index : Nat) (ok : Bool)

def handle (ids : Ids) (w : DatabaseWorkbench) : Event → DatabaseWorkbench
  | .loadTableData driver table => w.loadTableData driver table
  | .openQueryTab => w.openQueryTab ids
  | .openQueryForTable driver table => w.openQueryForTable ids driver table
  | .openTableStructure driver table => w.openTableStructure driver table
  | .openRedisKey key => w.openRedisKey key
  | .openRedisConsole => w.openRedisConsole
  | .activate index unloaded => w.tabs[index]?.elim w fun tab => w.activate tab unloaded
  | .closeTab index keep => w.tabs[index]?.elim w fun tab => w.closeTab tab.id keep
  | .reloadTableTab id => w.reloadTableTab id none
  | .switchDatabase driver => w.resetWorkspace ids driver w.redisConsoleCounter
  | .deleteTable table => { w with deleting := w.deleting ++ [⟨table, w.activeTabId⟩] }
  | .deletionAnswered index ok =>
    match w.deleting[index]? with
    | none => w
    | some deletion =>
      let w := { w with deleting := w.deleting.eraseIdx index }
      if ok then w.tableDeleted deletion else w
  | .selectConnection driver => { w with selecting := w.selecting ++ [⟨driver, w.redisConsoleCounter⟩] }
  | .selectionAnswered index ok =>
    match w.selecting[index]? with
    | none => w
    | some selection =>
      let w := { w with selecting := w.selecting.eraseIdx index }
      if ok then w.resetWorkspace ids selection.driver selection.redisConsoleCounter else w

/-- A part of a handler, and the render behind it. -/
def step (ids : Ids) (w : DatabaseWorkbench) (event : Event) : DatabaseWorkbench :=
  let w := handle ids w event
  { w with tabsRef := w.tabs }

def init (ids : Ids) : DatabaseWorkbench :=
  let tab := WorkspaceTab.query (ids.createId 0)
  ⟨[tab], [tab], tab.id, 2, 1, [], []⟩

/-! ## A visible tab -/

structure Shows (tabs : List WorkspaceTab) (activeTabId : Text) : Prop where
  nonempty : tabs ≠ []
  distinct : (tabs.map WorkspaceTab.id).Nodup
  active : ∃ tab ∈ tabs, tab.id = activeTabId

def DatabaseWorkbench.Visible (w : DatabaseWorkbench) : Prop := Shows w.tabs w.activeTabId

/-- A deletion that is answered leaves another tab open, and finds the tab of its table active only if this tab was
active when it was started. -/
def Harmless (w : DatabaseWorkbench) : Event → Prop
  | .deletionAnswered index true => ∀ deletion ∈ w.deleting[index]?,
      (∃ tab ∈ w.tabs, tab.id ≠ tableTabId deletion.table) ∧
        (w.activeTabId = tableTabId deletion.table → deletion.activeTabId = tableTabId deletion.table)
  | _ => True

/-! ## Ids -/

/-- What an id has in front of its first colon. -/
def Kind.text : Kind → Text
  | .table => "table".toList
  | .query => "query".toList
  | .mongoDocument => "mongo".toList
  | .redisKey => "redis-key".toList
  | .redisConsole => "redis-console".toList
  | .driverHome => "home".toList

theorem Kind.text_injective : Function.Injective Kind.text := by
  intro a b
  cases a <;> cases b <;> first | exact fun _ => rfl | exact fun h => absurd h (by decide)

theorem Kind.colon_not_mem (kind : Kind) : ':' ∉ kind.text := by
  cases kind <;> decide

theorem id_eq (tab : WorkspaceTab) : ∃ rest, tab.id = tab.kind.text ++ ':' :: rest := by
  cases tab <;> exact ⟨_, rfl⟩

/-- The id of a tab says what kind it is of. -/
theorem kind_eq_of_id {a b : WorkspaceTab} (h : a.id = b.id) : a.kind = b.kind := by
  obtain ⟨rest, ha⟩ := id_eq a
  obtain ⟨rest', hb⟩ := id_eq b
  rw [ha, hb] at h
  exact Kind.text_injective (append_mark_inj a.kind.colon_not_mem b.kind.colon_not_mem h).1

theorem toDigits_injective : Function.Injective (Nat.toDigits 10) := fun a b h => by
  rw [← Nat.ofDigitChars_ten_toDigits (n := a), h, Nat.ofDigitChars_ten_toDigits]

theorem redisConsole_of_id {tab : WorkspaceTab} {n : Nat} (h : tab.id = (WorkspaceTab.redisConsole n).id) :
    tab = .redisConsole n := by
  have hkind := kind_eq_of_id h
  cases tab with
  | redisConsole m => rw [toDigits_injective (List.append_cancel_left h)]
  | _ => cases hkind

theorem query_of_id {tab : WorkspaceTab} {text : Text} (h : tab.id = (WorkspaceTab.query text).id) :
    tab = .query text := by
  have hkind := kind_eq_of_id h
  cases tab with
  | query other => rw [List.append_cancel_left h]
  | _ => cases hkind

/-! ## Lists of tabs -/

namespace Shows

variable {tabs : List WorkspaceTab} {activeTabId : Text} {tab : WorkspaceTab}

theorem single (tab : WorkspaceTab) : Shows [tab] tab.id where
  nonempty := List.cons_ne_nil _ _
  distinct := List.nodup_singleton _
  active := ⟨tab, List.mem_singleton_self tab, rfl⟩

theorem select (h : Shows tabs activeTabId) (hmem : tab ∈ tabs) : Shows tabs tab.id where
  nonempty := h.nonempty
  distinct := h.distinct
  active := ⟨tab, hmem, rfl⟩

theorem append (h : Shows tabs activeTabId) (hnew : ∀ other ∈ tabs, other.id ≠ tab.id) :
    Shows (tabs ++ [tab]) tab.id where
  nonempty := List.concat_ne_nil _ _
  distinct := by
    rw [List.map_append, List.map_singleton]
    refine h.distinct.append (List.nodup_singleton _) ?_
    intro id hold hnew'
    obtain ⟨other, hother, rfl⟩ := List.mem_map.1 hold
    exact hnew other hother (List.mem_singleton.1 hnew')
  active := ⟨tab, List.mem_append_right _ (List.mem_singleton_self tab), rfl⟩

/-- A tab is opened, or is there. -/
theorem opened (h : Shows tabs activeTabId) (tab : WorkspaceTab) :
    Shows (if tabs.any fun other => other.id = tab.id then tabs else tabs ++ [tab]) tab.id := by
  split_ifs with hany
  · obtain ⟨other, hother, hid⟩ := List.any_eq_true.1 hany
    exact of_decide_eq_true hid ▸ h.select hother
  · refine h.append fun other hother hid => hany ?_
    exact List.any_eq_true.2 ⟨other, hother, decide_eq_true hid⟩

theorem map {f : WorkspaceTab → WorkspaceTab} (h : Shows tabs activeTabId) (hid : ∀ tab ∈ tabs, (f tab).id = tab.id) :
    Shows (tabs.map f) activeTabId where
  nonempty := fun hnone => h.nonempty (List.map_eq_nil_iff.1 hnone)
  distinct := by
    have hids : (tabs.map f).map WorkspaceTab.id = tabs.map WorkspaceTab.id := by
      rw [List.map_map]
      exact List.map_congr_left hid
    rw [hids]
    exact h.distinct
  active := by
    obtain ⟨tab, hmem, hactive⟩ := h.active
    exact ⟨f tab, List.mem_map_of_mem hmem, (hid tab hmem).trans hactive⟩

/-- The tabs without one of them, with an active one among the others. -/
theorem filter (h : Shows tabs activeTabId) {id : Text} (hmem : tab ∈ tabs) (hother : tab.id ≠ id) :
    Shows (tabs.filter fun tab => tab.id ≠ id) tab.id := by
  have hleft : tab ∈ tabs.filter fun tab => tab.id ≠ id := List.mem_filter.2 ⟨hmem, decide_eq_true hother⟩
  exact ⟨List.ne_nil_of_mem hleft, h.distinct.sublist (List.filter_sublist.map _), tab, hleft, rfl⟩

/-- Of several tabs one has another id. -/
theorem exists_other (h : Shows tabs activeTabId) (hseveral : tabs.length ≠ 1) (id : Text) :
    ∃ tab ∈ tabs, tab.id ≠ id := by
  match tabs, h with
  | [], h => exact absurd rfl h.nonempty
  | [_], _ => exact absurd rfl hseveral
  | first :: second :: rest, h =>
    have hdistinct := h.distinct
    rw [List.map_cons, List.map_cons, List.nodup_cons, List.mem_cons, not_or] at hdistinct
    by_cases hfirst : first.id = id
    · exact ⟨second, List.mem_cons_of_mem _ List.mem_cons_self, fun hsecond =>
        hdistinct.1.1 (hfirst.trans hsecond.symm)⟩
    · exact ⟨first, List.mem_cons_self, hfirst⟩

end Shows

/-! ## Handlers that keep a tab visible -/

/-- A tab whose id will not be made again. -/
def Made (ids : Ids) (redisConsoleCounter created : Nat) : WorkspaceTab → Prop
  | .redisConsole counter => counter < redisConsoleCounter
  | .query text => ∃ k < created, text = ids.createId k
  | _ => True

structure Good (ids : Ids) (w : DatabaseWorkbench) : Prop where
  visible : w.Visible
  made : ∀ tab ∈ w.tabs, Made ids w.redisConsoleCounter w.created tab

namespace Good

variable {ids : Ids} {w : DatabaseWorkbench}

theorem new_query (h : Good ids w) : ∀ tab ∈ w.tabs, tab.id ≠ (WorkspaceTab.query (ids.createId w.created)).id := by
  intro tab htab hid
  obtain rfl := query_of_id hid
  obtain ⟨k, hk, hsame⟩ := h.made _ htab
  exact absurd (ids.different hsame) (Nat.ne_of_gt hk)

theorem new_console (h : Good ids w) :
    ∀ tab ∈ w.tabs, tab.id ≠ (WorkspaceTab.redisConsole w.redisConsoleCounter).id := by
  intro tab htab hid
  obtain rfl := redisConsole_of_id hid
  exact absurd (h.made _ htab) (Nat.lt_irrefl _)

theorem made_created (h : Good ids w) :
    ∀ tab ∈ w.tabs, Made ids w.redisConsoleCounter (w.created + 1) tab := by
  intro tab htab
  have hmade := h.made tab htab
  cases tab with
  | query text =>
    obtain ⟨k, hk, hsame⟩ := hmade
    exact ⟨k, Nat.lt_succ_of_lt hk, hsame⟩
  | _ => exact hmade

/-- A tab is opened whose id is not made of a counter. -/
theorem opened (h : Good ids w) (tab : WorkspaceTab) (hmade : Made ids w.redisConsoleCounter w.created tab) :
    Good ids { w with
      tabs := if w.tabs.any fun other => other.id = tab.id then w.tabs else w.tabs ++ [tab]
      activeTabId := tab.id } where
  visible := h.visible.opened tab
  made other hother := by
    dsimp only at hother
    split_ifs at hother
    · exact h.made other hother
    · rcases List.mem_append.1 hother with hold | hnew
      · exact h.made other hold
      · rw [List.mem_singleton.1 hnew]
        exact hmade

theorem openQueryTab (h : Good ids w) : Good ids (w.openQueryTab ids) where
  visible := h.visible.append h.new_query
  made tab htab := by
    rcases List.mem_append.1 htab with hold | hnew
    · exact h.made_created tab hold
    · rw [List.mem_singleton.1 hnew]
      exact ⟨w.created, Nat.lt_succ_self _, rfl⟩

theorem openRedisConsole (h : Good ids w) : Good ids w.openRedisConsole where
  visible := h.visible.append h.new_console
  made tab htab := by
    rcases List.mem_append.1 htab with hold | hnew
    · have hmade := h.made tab hold
      cases tab with
      | redisConsole counter => exact Nat.lt_succ_of_lt hmade
      | _ => exact hmade
    · rw [List.mem_singleton.1 hnew]
      exact Nat.lt_succ_self _

theorem openSection (h : Good ids w) (table : DatabaseObject) (shown : Section) :
    Good ids (w.openSection table shown) := by
  have hsection : ∀ tab : WorkspaceTab, (tab.withSection shown).id = tab.id := by
    intro tab
    cases tab <;> rfl
  unfold DatabaseWorkbench.openSection
  dsimp only
  split_ifs with hany
  · -- The tab is there: it is shown, and only its section changes.
    obtain ⟨tab, htab, hfound⟩ := List.any_eq_true.1 hany
    obtain ⟨hid, -⟩ := of_decide_eq_true hfound
    refine ⟨?_, ?_⟩
    · refine (hid ▸ h.visible.select htab).map fun other _ => ?_
      split_ifs
      · exact hsection other
      · rfl
    · intro other hother
      obtain ⟨old, hold, rfl⟩ := List.mem_map.1 hother
      have hmade := h.made old hold
      split_ifs
      · cases old <;> exact hmade
      · exact hmade
  · -- A new tab, whose id no other has.
    have hnew : ∀ tab ∈ w.tabs, tab.id ≠ (WorkspaceTab.mongoDocument table shown).id := by
      intro tab htab hid
      exact hany (List.any_eq_true.2 ⟨tab, htab, decide_eq_true ⟨hid, kind_eq_of_id hid⟩⟩)
    refine ⟨h.visible.append hnew, fun tab htab => ?_⟩
    rcases List.mem_append.1 htab with hold | hlast
    · exact h.made tab hold
    · rw [List.mem_singleton.1 hlast]
      trivial

theorem resetWorkspace (w : DatabaseWorkbench) (driver : Driver) (redisConsoleCounter : Nat) :
    Good ids (w.resetWorkspace ids driver redisConsoleCounter) where
  visible := Shows.single _
  made tab htab := by
    rw [List.mem_singleton.1 htab]
    cases driver with
    | redis => exact Nat.lt_succ_self _
    | mongodb => trivial
    | _ => exact ⟨w.created, Nat.lt_succ_self _, rfl⟩

/-- A table that has a tab is loaded again, which leaves the tabs. -/
theorem reloadTableTab_of_mem (h : Good ids w) (href : w.tabsRef = w.tabs) {id : Text} {table : Option DatabaseObject}
    {base : WorkspaceTab} (hbase : (w.tabs.find? fun tab => decide (tab.id = id ∧ tab.kind = .table)) = some base) :
    Good ids (w.reloadTableTab id table) := by
  have hsome := List.find?_some hbase
  have hfound := of_decide_eq_true hsome
  have hmem := List.mem_of_find?_eq_some hbase
  rw [DatabaseWorkbench.reloadTableTab, prepareTableTabReload, href, hbase]
  refine ⟨h.visible.map fun tab _ => ?_, fun tab htab => ?_⟩
  · split_ifs with hid
    · exact hfound.1.trans hid.symm
    · rfl
  · obtain ⟨old, hold, rfl⟩ := List.mem_map.1 htab
    split_ifs
    · exact h.made base hmem
    · exact h.made old hold

theorem reloadTableTab (h : Good ids w) (href : w.tabsRef = w.tabs) (id : Text) :
    Good ids (w.reloadTableTab id none) := by
  cases hbase : w.tabs.find? fun tab => decide (tab.id = id ∧ tab.kind = .table) with
  | some base => exact h.reloadTableTab_of_mem href hbase
  | none =>
    rw [DatabaseWorkbench.reloadTableTab, prepareTableTabReload, href, hbase]
    exact h

/-- A table is opened, and loaded. -/
theorem loadTable (h : Good ids w) (href : w.tabsRef = w.tabs) (table : DatabaseObject) :
    Good ids ({ w with activeTabId := tableTabId table }.reloadTableTab (tableTabId table) (some table)) := by
  cases hbase : w.tabs.find? fun tab => decide (tab.id = tableTabId table ∧ tab.kind = .table) with
  | some base =>
    have hsome := List.find?_some hbase
    have hid := (of_decide_eq_true hsome).1
    have hactive : Good ids { w with activeTabId := tableTabId table } :=
      ⟨hid ▸ h.visible.select (List.mem_of_find?_eq_some hbase), h.made⟩
    exact hactive.reloadTableTab_of_mem href hbase
  | none =>
    -- The tab is made first, and then it is reloaded.
    have hnew : ∀ tab ∈ w.tabs, tab.id ≠ (WorkspaceTab.table table).id := fun tab htab hid =>
      List.find?_eq_none.1 hbase tab htab (decide_eq_true ⟨hid, kind_eq_of_id hid⟩)
    rw [DatabaseWorkbench.reloadTableTab, prepareTableTabReload, href, hbase]
    refine ⟨(h.visible.append hnew).map fun tab _ => ?_, fun tab htab => ?_⟩
    · split_ifs with hid
      · exact hid.symm
      · rfl
    · obtain ⟨old, hold, rfl⟩ := List.mem_map.1 htab
      split_ifs
      · trivial
      · rcases List.mem_append.1 hold with hmem | hlast
        · exact h.made old hmem
        · rw [List.mem_singleton.1 hlast]
          trivial

theorem activate (h : Good ids w) (href : w.tabsRef = w.tabs) {tab : WorkspaceTab} (htab : tab ∈ w.tabs)
    (unloaded : Bool) : Good ids (w.activate tab unloaded) := by
  have hactive : Good ids { w with activeTabId := tab.id } := ⟨h.visible.select htab, h.made⟩
  cases tab with
  | table table =>
    rw [DatabaseWorkbench.activate]
    split_ifs
    · exact h.loadTable href table
    · exact hactive
  | _ => exact hactive

theorem filtered (h : Good ids w) {id activeTabId : Text} {tab : WorkspaceTab} (hmem : tab ∈ w.tabs)
    (hother : tab.id ≠ id) (hactive : tab.id = activeTabId) :
    Good ids { w with tabs := w.tabs.filter fun tab => tab.id ≠ id, activeTabId := activeTabId } where
  visible := hactive ▸ h.visible.filter hmem hother
  made other hmem' := h.made other (List.mem_filter.1 hmem').1

/-- Whatever the place of a closed tab is, one of those that are left takes it. -/
theorem exists_fallback {next : List WorkspaceTab} (hne : next ≠ []) (place : Nat) :
    ∃ fallback ∈ next, (next[place]? <|> next.head?) = some fallback := by
  cases hplace : next[place]? with
  | some fallback => exact ⟨fallback, List.mem_of_getElem? hplace, rfl⟩
  | none =>
    obtain ⟨fallback, rest, rfl⟩ := List.exists_cons_of_ne_nil hne
    exact ⟨fallback, List.mem_cons_self, rfl⟩

/-- One tab of several is closed. -/
theorem closeTab (h : Good ids w) (id : Text) (keep : Bool) : Good ids (w.closeTab id keep) := by
  rw [DatabaseWorkbench.closeTab]
  by_cases hstays : keep = true ∨ w.tabs.length = 1
  · rw [if_pos hstays]
    exact h
  · rw [if_neg hstays]
    dsimp only
    by_cases hclosed : w.activeTabId = id
    · rw [if_pos hclosed]
      -- The tab that is shown is closed, and one of the others takes its place.
      obtain ⟨other, hother, hne⟩ := h.visible.exists_other (not_or.1 hstays).2 id
      have hleft : other ∈ w.tabs.filter fun tab => tab.id ≠ id := List.mem_filter.2 ⟨hother, decide_eq_true hne⟩
      obtain ⟨fallback, hmem, hsome⟩ :=
        exists_fallback (List.ne_nil_of_mem hleft) ((w.tabs.findIdx fun tab => tab.id = id) - 1)
      obtain ⟨htab, hkept⟩ := List.mem_filter.1 hmem
      rw [hsome]
      exact h.filtered htab (of_decide_eq_true hkept) rfl
    · rw [if_neg hclosed]
      -- Another tab is closed, and the one that is shown stays.
      obtain ⟨tab, htab, hactive⟩ := h.visible.active
      exact h.filtered htab (fun hid => hclosed (hactive.symm.trans hid)) hactive

end Good

/-! ## Deletions -/

/-- Behind a deletion a tab is visible just if the deletion is harmless. -/
theorem visible_tableDeleted_iff {w : DatabaseWorkbench} (h : w.Visible) (href : w.tabsRef = w.tabs)
    (deletion : Deletion) : (w.tableDeleted deletion).Visible ↔
      (∃ tab ∈ w.tabs, tab.id ≠ tableTabId deletion.table) ∧
        (w.activeTabId = tableTabId deletion.table → deletion.activeTabId = tableTabId deletion.table) := by
  have hleft : ∀ tab, tab ∈ w.tabs.filter (fun tab => tab.id ≠ tableTabId deletion.table) ↔
      tab ∈ w.tabs ∧ tab.id ≠ tableTabId deletion.table := fun tab => by rw [List.mem_filter, decide_eq_true_iff]
  constructor
  · intro hvisible
    obtain ⟨tab, htab, hactive⟩ := hvisible.active
    obtain ⟨hmem, hne⟩ := (hleft tab).1 htab
    refine ⟨⟨tab, hmem, hne⟩, fun hshown => ?_⟩
    by_contra hcaptured
    rw [DatabaseWorkbench.tableDeleted, if_neg hcaptured] at hactive
    exact hne (hactive.trans hshown)
  · rintro ⟨⟨other, hother, hne⟩, hshown⟩
    by_cases hcaptured : deletion.activeTabId = tableTabId deletion.table
    · -- the first of the others becomes the active one
      obtain ⟨first, rest, hremaining⟩ :=
        List.exists_cons_of_ne_nil (List.ne_nil_of_mem ((hleft other).2 ⟨hother, hne⟩))
      have hfirst := (hleft first).1 (hremaining ▸ List.mem_cons_self)
      have hvisible := h.filter hfirst.1 hfirst.2
      rw [DatabaseWorkbench.Visible, DatabaseWorkbench.tableDeleted, if_pos hcaptured, href, hremaining]
      rw [hremaining] at hvisible
      exact hvisible
    · obtain ⟨tab, htab, hactive⟩ := h.active
      have hkept : tab.id ≠ tableTabId deletion.table := fun hid => hcaptured (hshown (hactive.symm.trans hid))
      rw [DatabaseWorkbench.Visible, DatabaseWorkbench.tableDeleted, if_neg hcaptured, ← hactive]
      exact h.filter htab hkept

/-! ## Runs -/

/-- What holds between the parts of the handlers. -/
structure Committed (ids : Ids) (w : DatabaseWorkbench) : Prop where
  good : Good ids w
  ref : w.tabsRef = w.tabs

variable {ids : Ids} {w : DatabaseWorkbench}

theorem committed_init (ids : Ids) : Committed ids (init ids) where
  good := ⟨Shows.single _, fun tab htab => by
    rw [List.mem_singleton.1 htab]
    exact ⟨0, Nat.one_pos, rfl⟩⟩
  ref := rfl

theorem Committed.of_good {event : Event} (h : Good ids (handle ids w event)) : Committed ids (step ids w event) :=
  ⟨⟨h.visible, h.made⟩, rfl⟩

theorem visible_deletionAnswered_iff (h : Committed ids w) {index : Nat} {deletion : Deletion}
    (hdeletion : w.deleting[index]? = some deletion) :
    (handle ids w (.deletionAnswered index true)).Visible ↔ Harmless w (.deletionAnswered index true) := by
  have hhandle : handle ids w (.deletionAnswered index true) =
      { w with deleting := w.deleting.eraseIdx index }.tableDeleted deletion := by
    rw [handle, hdeletion]
    rfl
  rw [hhandle, Harmless, hdeletion]
  refine (visible_tableDeleted_iff (w := { w with deleting := w.deleting.eraseIdx index }) h.good.visible h.ref
    deletion).trans ?_
  exact ⟨fun hthis other hother => Option.some.inj hother ▸ hthis, fun hall => hall deletion rfl⟩

/-- Only a deletion can be harmful, and then no tab is visible behind it. -/
theorem harmless_of_visible (h : Committed ids w) {event : Event} (hvisible : (step ids w event).Visible) :
    Harmless w event := by
  cases event with
  | deletionAnswered index ok =>
    cases ok with
    | false => trivial
    | true =>
      cases hdeletion : w.deleting[index]? with
      | none =>
        rw [Harmless, hdeletion]
        exact fun deletion hnone => by cases hnone
      | some deletion => exact (visible_deletionAnswered_iff h hdeletion).1 hvisible
  | _ => trivial

/-- A harmless answer keeps a tab visible. -/
theorem good_deletionAnswered (h : Committed ids w) {index : Nat} {ok : Bool}
    (hharmless : Harmless w (.deletionAnswered index ok)) : Good ids (handle ids w (.deletionAnswered index ok)) := by
  cases hdeletion : w.deleting[index]? with
  | none =>
    rw [handle, hdeletion]
    exact h.good
  | some deletion =>
    cases ok with
    | true =>
      refine ⟨(visible_deletionAnswered_iff h hdeletion).2 hharmless, ?_⟩
      rw [handle, hdeletion]
      exact fun tab htab => h.good.made tab (List.mem_filter.1 htab).1
    | false =>
      rw [handle, hdeletion]
      exact ⟨h.good.visible, h.good.made⟩

/-- A harmless step keeps a tab visible. -/
theorem good_handle (h : Committed ids w) {event : Event} (hharmless : Harmless w event) :
    Good ids (handle ids w event) := by
  -- One case for each event; the answers of the server are the two that could do harm.
  cases event with
  | loadTableData driver table =>
    rw [handle, DatabaseWorkbench.loadTableData]
    split_ifs
    · exact h.good.opened (.mongoDocument table .documents) trivial
    · exact h.good.loadTable h.ref table
  | openQueryTab => exact h.good.openQueryTab
  | openQueryForTable driver table =>
    rw [handle, DatabaseWorkbench.openQueryForTable]
    split_ifs
    · exact h.good.openSection table .query
    · exact h.good.openQueryTab
  | openTableStructure driver table =>
    rw [handle, DatabaseWorkbench.openTableStructure]
    split_ifs
    · exact h.good.openSection table .schema
    · exact h.good.opened (.table table) trivial
  | openRedisKey key => exact h.good.opened (.redisKey key) trivial
  | openRedisConsole => exact h.good.openRedisConsole
  | activate index unloaded =>
    rw [handle]
    cases htab : w.tabs[index]? with
    | none => exact h.good
    | some tab => exact h.good.activate h.ref (List.mem_of_getElem? htab) unloaded
  | closeTab index keep =>
    rw [handle]
    cases w.tabs[index]? with
    | none => exact h.good
    | some tab => exact h.good.closeTab tab.id keep
  | reloadTableTab id => exact h.good.reloadTableTab h.ref id
  | switchDatabase driver => exact Good.resetWorkspace w driver w.redisConsoleCounter
  | deleteTable table => exact ⟨h.good.visible, h.good.made⟩
  | deletionAnswered index ok => exact good_deletionAnswered h hharmless
  | selectConnection driver => exact ⟨h.good.visible, h.good.made⟩
  | selectionAnswered index ok =>
    rw [handle]
    cases w.selecting[index]? with
    | none => exact h.good
    | some selection =>
      cases ok with
      | true => exact Good.resetWorkspace _ selection.driver selection.redisConsoleCounter
      | false => exact ⟨h.good.visible, h.good.made⟩

theorem committed_step_iff (h : Committed ids w) (event : Event) :
    Committed ids (step ids w event) ↔ Harmless w event :=
  ⟨fun hcommitted => harmless_of_visible h hcommitted.good.visible,
    fun hharmless => Committed.of_good (good_handle h hharmless)⟩

theorem committed_of_visible {events : List Event} (h : Committed ids w)
    (hvisible : ∀ front, front <+: events → (front.foldl (step ids) w).Visible) :
    Committed ids (events.foldl (step ids) w) := by
  induction events generalizing w with
  | nil => exact h
  | cons event rest ih =>
    have hfirst : (step ids w event).Visible := hvisible [event] (List.cons_prefix_cons.2 ⟨rfl, List.nil_prefix⟩)
    exact ih ((committed_step_iff h event).2 (harmless_of_visible h hfirst)) fun front hfront =>
      hvisible (event :: front) (List.cons_prefix_cons.2 ⟨rfl, hfront⟩)

/-- **A tab stays visible through a run just if every deletion of the run is harmless.** -/
theorem visible_iff (ids : Ids) (events : List Event) :
    (∀ front, front <+: events → (front.foldl (step ids) (init ids)).Visible) ↔
      Runs.Meets (step ids) Harmless (init ids) events := by
  rw [Runs.meets_iff_always (P := Committed ids) (fun w event h => committed_step_iff h event) events
    (committed_init ids)]
  constructor
  · exact fun hvisible front hfront => committed_of_visible (committed_init ids) fun part hpart =>
      hvisible part (hpart.trans hfront)
  · exact fun hcommitted front hfront => (hcommitted front hfront).good.visible

def counted : Ids := ⟨Nat.toDigits 10, toDigits_injective⟩

def users : DatabaseObject := ⟨[], "public".toList, "users".toList⟩

/-- A table is opened, the tab beside it is closed, and the table is deleted. -/
def deletedAlone : List Event :=
  [.loadTableData .postgres users, .closeTab 0 false, .deleteTable users, .deletionAnswered 0 true]

theorem not_always_visible : ¬ ∀ (ids : Ids) (events : List Event), (events.foldl (step ids) (init ids)).Visible := by
  intro h
  have hnone : (deletedAlone.foldl (step counted) (init counted)).tabs = [] := by decide +kernel
  exact (h counted deletedAlone).nonempty hnone

-- the table becomes the active one while its deletion is waited for
example :
    let w := [Event.loadTableData .postgres users, .activate 0 false, .deleteTable users, .activate 1 false,
      .deletionAnswered 0 true].foldl (step counted) (init counted)
    w.tabs = [.query ['0']] ∧ w.activeTabId = tableTabId users := by decide +kernel

end Workbench.Web.Tabs
