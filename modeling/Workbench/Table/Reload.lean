import Workbench.Lib.Runs
import Workbench.Table.Select

/-!
# Reloading a table tab

One table tab of `DatabaseWorkbench.tsx` under overlapping reloads. `reloadTableTab` takes a snapshot with
`prepareTableTabReload`, sends its query, and writes the result into the tab whenever it comes, without a
look at the reloads that were started since and at the draft (`updateTab`). Requests are numbered in the
order of the reloads. Rows and drafts are of any type.
-/

set_option autoImplicit false

namespace Workbench.Table

open Workbench.Lib Workbench.Query

variable {R D : Type}

inductive TabStatus where
  | idle
  | running
  | error
  deriving DecidableEq, Repr

/-- The columns of a result are the names; what the tab shows are the rows. -/
structure QueryResult (R : Type) where
  columns : List Text
  rows : List R
  truncated : Bool
  deriving DecidableEq, Repr

structure TableTab (R D : Type) where
  table : DatabaseObject
  result : Option (QueryResult R)
  status : TabStatus
  sql : Text
  page : Nat
  pageSize : Nat
  filterRules : List TableFilterRule
  sort : Option TableSort
  showFilter : Bool
  selectedRow : Option Nat
  draft : Option D
  deriving DecidableEq, Repr

namespace TableTab

def options (tab : TableTab R D) : TableQueryOptions := ⟨tab.filterRules, tab.sort, tab.page, tab.pageSize⟩

/-- The rows that `TableView` gets: `result?.rows ?? []`. -/
def rows (tab : TableTab R D) : List R := (tab.result.map QueryResult.rows).getD []

end TableTab

/-- The overrides of a reload, each present or not. -/
structure Overrides (D : Type) where
  page : Option Nat
  pageSize : Option Nat
  filterRules : Option (List TableFilterRule)
  sort : Option (Option TableSort)
  showFilter : Option Bool
  selectedRow : Option (Option Nat)
  draft : Option D
  deriving DecidableEq, Repr

structure ReloadOptions (D : Type) where
  table : Option DatabaseObject
  overrides : Overrides D
  resetDraft : Bool
  deriving DecidableEq, Repr

def createTableTab (table : DatabaseObject) (driver : Dialect) : TableTab R D :=
  ⟨table, none, .idle, buildTableSelectSQL table driver ⟨[], none, 1, 200⟩, 1, 200, [], none, false, none,
    none⟩

/-- `{...base.result, rows: []}`: the columns stay. -/
def clearedResult (result : Option (QueryResult R)) : Option (QueryResult R) :=
  result.bind fun r => if r.columns = [] then none else some ⟨r.columns, [], false⟩

/-- The draft behind the preparation of a reload. -/
def keptDraft (options : ReloadOptions D) (draft : Option D) : Option D :=
  if options.resetDraft then none else options.overrides.draft.or draft

/-- `prepareTableTabReload`, with the tab that is there under the id. -/
def prepareTableTabReload (current : Option (TableTab R D)) (driver : Dialect)
    (options : ReloadOptions D) : Option (TableTab R D) :=
  let base := current.or (options.table.map fun table => createTableTab table driver)
  base.map fun base =>
    let o := options.overrides
    let snapshot : TableTab R D :=
      { base with
        page := o.page.getD base.page
        pageSize := o.pageSize.getD base.pageSize
        filterRules := o.filterRules.getD base.filterRules
        sort := o.sort.getD base.sort
        showFilter := o.showFilter.getD base.showFilter
        selectedRow := o.selectedRow.getD base.selectedRow
        draft := keptDraft options base.draft
        status := .running
        result := clearedResult base.result }
    { snapshot with sql := buildTableSelectSQL snapshot.table driver snapshot.options }

/-- `preserveResultColumns`. -/
def preserveResultColumns (previous : Option (QueryResult R)) (next : QueryResult R) : QueryResult R :=
  if next.columns ≠ [] then next
  else
    match previous with
    | none => next
    | some p => if p.columns = [] then next else { next with columns := p.columns }

/-- The tab, the requests that are not answered yet, and what has happened so far: the options of each
request, and the rows its answer brought, none when it failed. -/
structure TabState (R D : Type) where
  driver : Dialect
  tab : Option (TableTab R D)
  pending : List Nat
  issued : Nat
  requests : List (Nat × TableQueryOptions)
  answers : List (Nat × List R)

inductive TabEvent (R D : Type) where
  | reload (options : ReloadOptions D)
  | answer (request : Nat) (result : QueryResult R)
  | failure (request : Nat)
  | changeDraft (draft : Option D)
  | discard
  | saveError
  | selectRow (row : Option Nat)
  | toggleFilter
  | close

namespace TabState

def start (driver : Dialect) : TabState R D := ⟨driver, none, [], 0, [], []⟩

/-- `updateTab`. -/
def updateTab (s : TabState R D) (f : TableTab R D → TableTab R D) : TabState R D :=
  { s with tab := s.tab.map f }

/-- `reloadTableTab` up to its request. -/
def reload (s : TabState R D) (options : ReloadOptions D) : TabState R D :=
  match prepareTableTabReload s.tab s.driver options with
  | none => s.updateTab fun tab => { tab with status := .error }
  | some snapshot =>
    { s with
      tab := some snapshot
      pending := s.pending ++ [s.issued + 1]
      issued := s.issued + 1
      requests := s.requests ++ [(s.issued + 1, snapshot.options)] }

def settle (s : TabState R D) (request : Nat) (rows : List R) : TabState R D :=
  { s with
    pending := s.pending.filter fun n => n ≠ request
    answers := s.answers ++ [(request, rows)] }

def step (s : TabState R D) : TabEvent R D → TabState R D
  | .reload options => s.reload options
  | .answer request result =>
    if request ∈ s.pending then
      (s.settle request result.rows).updateTab fun tab =>
        { tab with result := some (preserveResultColumns tab.result result), status := .idle }
    else s
  | .failure request =>
    if request ∈ s.pending then
      (s.settle request []).updateTab fun tab => { tab with status := .error }
    else s
  | .changeDraft draft => s.updateTab fun tab => { tab with draft := draft }
  | .discard => s.updateTab fun tab => { tab with draft := none, selectedRow := none }
  | .saveError => s.updateTab fun tab => { tab with status := .error }
  | .selectRow row => s.updateTab fun tab => { tab with selectedRow := row }
  | .toggleFilter => s.updateTab fun tab => { tab with showFilter := !tab.showFilter }
  | .close => { s with tab := none }

/-! ## What the tab shows -/

/-- Once every request is answered, the tab is at the page, sort and filters of the last one and shows
the rows of its answer. -/
def ShowsLast (s : TabState R D) : Prop :=
  ∀ tab, s.tab = some tab → s.pending = [] →
    (s.issued, tab.options) ∈ s.requests ∧ (s.issued, tab.rows) ∈ s.answers

/-- The rows stay as they are while there is a draft. -/
def KeepsRows (s : TabState R D) (e : TabEvent R D) : Prop :=
  ∀ tab tab', s.tab = some tab → (s.step e).tab = some tab' →
    tab.draft.isSome = true → tab'.draft.isSome = true → tab'.rows = tab.rows

/-- An answer is that of the last request, or the last request is still out; the last request fails
only over an empty tab; and rows come and go only while there is no draft. -/
def Orderly (s : TabState R D) : TabEvent R D → Prop
  | .reload options =>
    ∀ tab, s.tab = some tab → tab.draft.isSome = true →
      (keptDraft options tab.draft).isSome = true → tab.rows = []
  | .answer request result =>
    request ∈ s.pending →
      (request = s.issued ∨ s.issued ∈ s.pending) ∧
        ∀ tab, s.tab = some tab → tab.draft.isSome = true → result.rows = tab.rows
  | .failure request =>
    request ∈ s.pending → request = s.issued → ∀ tab, s.tab = some tab → tab.rows = []
  | _ => True

/-- The last request is out, or the tab shows what it brought. -/
def Inv (s : TabState R D) : Prop :=
  ∀ tab, s.tab = some tab →
    (s.issued, tab.options) ∈ s.requests ∧
      (s.issued ∈ s.pending ∨ (s.issued, tab.rows) ∈ s.answers)

theorem Inv.showsLast {s : TabState R D} (h : s.Inv) : s.ShowsLast := by
  intro tab htab hpending
  obtain ⟨hrequest, hout | hshown⟩ := h tab htab
  · rw [hpending] at hout
    cases hout
  · exact ⟨hrequest, hshown⟩

theorem rows_preserveResultColumns (previous : Option (QueryResult R)) (next : QueryResult R) :
    (preserveResultColumns previous next).rows = next.rows := by
  unfold preserveResultColumns
  split
  · rfl
  · split
    · rfl
    · split <;> rfl

/-- A change of the tab that leaves the query and the rows alone. -/
theorem Inv.updateTab {s : TabState R D} (h : s.Inv) {f : TableTab R D → TableTab R D}
    (hoptions : ∀ tab, (f tab).options = tab.options) (hrows : ∀ tab, (f tab).rows = tab.rows) :
    (s.updateTab f).Inv := by
  intro tab' htab'
  obtain ⟨tab, htab, rfl⟩ := Option.map_eq_some_iff.1 htab'
  rw [hoptions, hrows]
  exact h tab htab

theorem inv_reload {s : TabState R D} (h : s.Inv) (options : ReloadOptions D) :
    (s.reload options).Inv := by
  unfold reload
  cases hprepared : prepareTableTabReload s.tab s.driver options with
  | none =>
    apply h.updateTab
    · intro tab
      rfl
    · intro tab
      rfl
  | some snapshot =>
    intro tab htab
    cases htab
    exact ⟨List.mem_append_right _ (List.mem_singleton_self _),
      Or.inl (List.mem_append_right _ (List.mem_singleton_self _))⟩

/-- Another request is answered: the last one is still out. -/
theorem mem_settle_pending {s : TabState R D} {request : Nat} (hne : request ≠ s.issued)
    (hout : s.issued ∈ s.pending) (rows : List R) : s.issued ∈ (s.settle request rows).pending := by
  apply List.mem_filter.2
  exact ⟨hout, decide_eq_true (Ne.symm hne)⟩

theorem inv_answer {s : TabState R D} (h : s.Inv) {request : Nat} {result : QueryResult R}
    (hcond : s.Orderly (.answer request result)) : (s.step (.answer request result)).Inv := by
  show (if request ∈ s.pending then _ else _ : TabState R D).Inv
  split
  · next hpending =>
      intro tab' htab'
      obtain ⟨tab, htab, rfl⟩ := Option.map_eq_some_iff.1 htab'
      refine ⟨(h tab htab).1, ?_⟩
      by_cases hlast : request = s.issued
      · right
        apply List.mem_append_right
        rw [List.mem_singleton, hlast]
        exact congrArg (Prod.mk s.issued) (rows_preserveResultColumns tab.result result)
      · left
        rcases (hcond hpending).1 with hsame | hout
        · exact absurd hsame hlast
        · exact mem_settle_pending hlast hout result.rows
  · exact h

theorem inv_failure {s : TabState R D} (h : s.Inv) {request : Nat}
    (hcond : s.Orderly (.failure request)) : (s.step (.failure request)).Inv := by
  show (if request ∈ s.pending then _ else _ : TabState R D).Inv
  split
  · next hpending =>
      intro tab' htab'
      obtain ⟨tab, htab, rfl⟩ := Option.map_eq_some_iff.1 htab'
      refine ⟨(h tab htab).1, ?_⟩
      by_cases hlast : request = s.issued
      · -- The tab was cleared by the reload, and nothing has come since.
        right
        apply List.mem_append_right
        rw [List.mem_singleton, hlast]
        exact congrArg (Prod.mk s.issued) (hcond hpending hlast tab htab)
      · rcases (h tab htab).2 with hout | hshown
        · exact Or.inl (mem_settle_pending hlast hout [])
        · exact Or.inr (List.mem_append_left _ hshown)
  · exact h

theorem inv_step (s : TabState R D) (e : TabEvent R D) (hcond : s.Orderly e) (h : s.Inv) :
    (s.step e).Inv := by
  cases e with
  | reload options => exact inv_reload h options
  | answer request result => exact inv_answer h hcond
  | failure request => exact inv_failure h hcond
  | changeDraft draft => exact h.updateTab (fun _ => rfl) (fun _ => rfl)
  | discard => exact h.updateTab (fun _ => rfl) (fun _ => rfl)
  | saveError => exact h.updateTab (fun _ => rfl) (fun _ => rfl)
  | selectRow row => exact h.updateTab (fun _ => rfl) (fun _ => rfl)
  | toggleFilter => exact h.updateTab (fun _ => rfl) (fun _ => rfl)
  | close =>
    intro tab htab
    cases htab

/-! ## Drafts -/

theorem rows_clearedResult (tab : TableTab R D) (options : ReloadOptions D) (driver : Dialect)
    {snapshot : TableTab R D} (h : prepareTableTabReload (some tab) driver options = some snapshot) :
    snapshot.rows = [] ∧ snapshot.draft = keptDraft options tab.draft := by
  cases h
  refine ⟨?_, rfl⟩
  show ((clearedResult tab.result).map QueryResult.rows).getD [] = []
  unfold clearedResult
  cases tab.result with
  | none => rfl
  | some r =>
    show ((if r.columns = [] then none else some _).map QueryResult.rows).getD [] = []
    split <;> rfl

theorem rows_updateTab {s : TabState R D} {f : TableTab R D → TableTab R D} {tab tab' : TableTab R D}
    (htab : s.tab = some tab) (htab' : s.tab.map f = some tab')
    (hrows : ∀ tab, (f tab).rows = tab.rows) : tab'.rows = tab.rows := by
  rw [htab] at htab'
  cases htab'
  exact hrows tab

theorem keepsRows {s : TabState R D} {e : TabEvent R D} (hcond : s.Orderly e) : s.KeepsRows e := by
  intro tab tab' htab htab' hdraft hdraft'
  cases e with
  | reload options =>
    have hstep : (s.reload options).tab = some tab' := htab'
    unfold reload at hstep
    cases hprepared : prepareTableTabReload s.tab s.driver options with
    | none =>
      rw [htab] at hprepared
      cases hprepared
    | some snapshot =>
      rw [hprepared] at hstep
      cases hstep
      rw [htab] at hprepared
      -- The reload empties the tab, which was empty if its draft is kept.
      obtain ⟨hrows, hkept⟩ := rows_clearedResult tab options s.driver hprepared
      rw [hkept] at hdraft'
      rw [hrows, hcond tab htab hdraft hdraft']
  | answer request result =>
    have hstep : (if request ∈ s.pending then _ else s : TabState R D).tab = some tab' := htab'
    split at hstep
    · next hpending =>
        obtain ⟨base, hbase, rfl⟩ := Option.map_eq_some_iff.1 hstep
        have hsame : base = tab := Option.some.inj (hbase.symm.trans htab)
        subst hsame
        have hrows := rows_preserveResultColumns base.result result
        exact hrows.trans ((hcond hpending).2 base htab hdraft)
    · rw [htab] at hstep
      cases hstep
      rfl
  | failure request =>
    have hstep : (if request ∈ s.pending then _ else s : TabState R D).tab = some tab' := htab'
    split at hstep
    · have hmap : s.tab.map (fun tab => { tab with status := TabStatus.error }) = some tab' := hstep
      exact rows_updateTab htab hmap fun _ => rfl
    · rw [htab] at hstep
      cases hstep
      rfl
  | changeDraft draft =>
    have hmap : s.tab.map (fun tab => { tab with draft := draft }) = some tab' := htab'
    exact rows_updateTab htab hmap fun _ => rfl
  | discard =>
    have hmap : s.tab.map (fun tab => { tab with draft := none, selectedRow := none }) = some tab' := htab'
    exact rows_updateTab htab hmap fun _ => rfl
  | saveError =>
    have hmap : s.tab.map (fun tab => { tab with status := TabStatus.error }) = some tab' := htab'
    exact rows_updateTab htab hmap fun _ => rfl
  | selectRow row =>
    have hmap : s.tab.map (fun tab => { tab with selectedRow := row }) = some tab' := htab'
    exact rows_updateTab htab hmap fun _ => rfl
  | toggleFilter =>
    have hmap : s.tab.map (fun tab => { tab with showFilter := !tab.showFilter }) = some tab' := htab'
    exact rows_updateTab htab hmap fun _ => rfl
  | close => cases htab'

/-! ## Runs -/

/-- In every orderly run the tab shows the rows of the last request once all are answered, and no step
changes the rows under a draft. -/
theorem tab_shows_last {driver : Dialect} {s : TabState R D}
    (h : Runs step Orderly (start driver) s) : s.ShowsLast ∧ ∀ e, s.Orderly e → s.KeepsRows e := by
  have hstart : (start driver : TabState R D).Inv := by
    intro tab htab
    cases htab
  exact ⟨(Runs.invariant inv_step h hstart).showsLast, fun e he => keepsRows he⟩

def openTable : ReloadOptions D :=
  ⟨some ⟨"public".toList, "t".toList⟩, ⟨none, none, none, none, none, none, none⟩, true⟩

def toPage (page : Nat) : ReloadOptions D :=
  ⟨none, ⟨some page, none, none, none, none, some none, none⟩, true⟩

def resultOf (rows : List R) : QueryResult R := ⟨["id".toList], rows, false⟩

/-- Two overlapping reloads answered in their order. -/
theorem inOrder_shows_last :
    let s : TabState Nat Unit :=
      [.reload openTable, .reload (toPage 2), .answer 1 (resultOf [1]), .answer 2 (resultOf [2])].foldl step
        (start .postgres)
    s.ShowsLast ∧ s.tab.map TableTab.rows = some [2] := by
  refine ⟨(tab_shows_last (Runs.of_meets _ ?_)).1, by decide⟩
  refine ⟨?_, ?_, ?_, ?_, trivial⟩
  · intro tab htab
    cases htab
  · intro tab htab hdraft
    cases htab
    cases hdraft
  · intro _
    refine ⟨Or.inr (by decide), ?_⟩
    intro tab htab hdraft
    cases htab
    cases hdraft
  · intro _
    refine ⟨Or.inl (by decide), ?_⟩
    intro tab htab hdraft
    cases htab
    cases hdraft

/-- The answer to the first of two reloads comes last and stays; and the rows come under a draft that
was begun while they were loading. -/
theorem late_answer_stays :
    ¬([.reload openTable, .reload (toPage 2), .answer 2 (resultOf [2]), .answer 1 (resultOf [1])].foldl step
        (start .postgres) : TabState Nat Unit).ShowsLast ∧
      ¬([.reload openTable, .changeDraft (some ())].foldl step (start .postgres) :
        TabState Nat Unit).KeepsRows (.answer 1 (resultOf [1])) := by
  constructor
  · intro hshows
    obtain ⟨tab, htab⟩ : ∃ tab, ([.reload openTable, .reload (toPage 2), .answer 2 (resultOf [2]),
        .answer 1 (resultOf [1])].foldl step (start .postgres) : TabState Nat Unit).tab = some tab :=
      ⟨_, rfl⟩
    have hrows : tab.rows = [1] := by
      cases htab
      rfl
    have hshown := (hshows tab htab (by decide)).2
    rw [hrows] at hshown
    exact absurd hshown (by decide)
  · intro hkeeps
    have hsame := hkeeps _ _ rfl rfl rfl rfl
    exact absurd hsame (by decide)

end TabState

end Workbench.Table
