import Workbench.Table.Select
import Workbench.Query.Results

/-!
# Browsing a table page by page

A page of a table tab is cut out twice: by the `LIMIT` of its query, and by the server, which keeps a
limited number of rows and hands out the first result page of them. `TableView` offers the next page by
looking at what is left of both cuts, and the next query starts where the `LIMIT` ended
(`DatabaseWorkbench.tsx`, `pollQuery` and `reloadTableTab`; `TableView.tsx`, `canGoNext`).
-/

set_option autoImplicit false

namespace Workbench.Table

open Workbench.Query

variable {R : Type}

/-- A table tab on its way through the pages: everything but the page stays. -/
structure Browser where
  limits : Limits
  driver : Dialect
  table : DatabaseObject
  filterRules : List TableFilterRule
  sort : Option TableSort
  pageSize : Nat
  scope : Text
  queryId : Text
  columns : List Query.Column

namespace Browser

def options (b : Browser) (page : Nat) : TableQueryOptions := ⟨b.filterRules, b.sort, page, b.pageSize⟩

def select (b : Browser) (page : Nat) : Select := tableSelect b.table b.driver (b.options page)

/-- The server when the query of a page is through, over a table whose rows stand in `rows`. -/
def server (b : Browser) (rows : List R) (page : Nat) : Service R :=
  (newService b.limits).start b.queryId b.scope
    (buildTableSelectSQL b.table b.driver (b.options page))
    (.rows b.columns ((b.select page).answer rows))

/-- `pollQuery`: once the query is through, the page at cursor zero. -/
def pollQuery (b : Browser) (rows : List R) (page : Nat) : Except (PageError Unit) (ResultPage R) :=
  (b.server rows page).result b.scope b.queryId 0

/-- The rows a tab shows and whether it calls them truncated; a failed query shows none. -/
def shown (b : Browser) (rows : List R) (page : Nat) : List R × Bool :=
  match b.pollQuery rows page with
  | .ok result => (result.rows, result.truncated)
  | .error _ => ([], false)

/-- `canGoNext`. -/
def canGoNext (b : Browser) (view : List R × Bool) : Bool :=
  0 < b.pageSize && (view.1.length ≥ b.pageSize || view.2)

/-- From a page on, as long as there is a next one: all the rows shown. `none` when the pages have not
come to an end after that many. -/
def browseFrom (b : Browser) (rows : List R) : Nat → Nat → Option (List R)
  | 0, _ => none
  | pages + 1, page =>
    let view := b.shown rows page
    if b.canGoNext view then (b.browseFrom rows pages (page + 1)).map (view.1 ++ ·) else some view.1

/-- All the rows shown from the first page on; one page more than there are rows is enough. -/
def browse (b : Browser) (rows : List R) : Option (List R) := b.browseFrom rows (rows.length + 1) 1

/-- How many rows of a query the server lets through. -/
def served (b : Browser) : Nat :=
  min b.limits.orDefault.pageSize.toNat b.limits.orDefault.maxRows.toNat

def maxRows (b : Browser) : Nat := b.limits.orDefault.maxRows.toNat

/-! ## One page -/

theorem shown_eq (b : Browser) (rows : List R) (page : Nat) :
    b.shown rows page =
      (((b.select page).answer rows).take (b.served),
        decide (b.maxRows < ((b.select page).answer rows).length)) := by
  obtain ⟨hpage, hmax⟩ := b.limits.orDefault_pos
  have hresult := result_finish (s := newService b.limits)
    (Int.toNat_of_nonneg (Int.le_of_lt hpage)).symm (Int.toNat_of_nonneg (Int.le_of_lt hmax)).symm
    b.queryId b.scope (buildTableSelectSQL b.table b.driver (b.options page)) b.columns
    ((b.select page).answer rows) (returnsRows_select _ _)
  show (match (b.server rows page).result b.scope b.queryId 0 with
    | .ok result => (result.rows, result.truncated)
    | .error _ => ([], false)) = _
  rw [server, hresult]
  rfl

theorem served_le_maxRows (b : Browser) : b.served ≤ b.maxRows := Nat.min_le_right _ _

/-- The answer to the query of a page. -/
theorem answer_page (b : Browser) (h : 0 < b.pageSize) (rows : List R) (page : Nat) :
    (b.select page).answer rows = (rows.drop ((page - 1) * b.pageSize)).take b.pageSize := by
  rw [Select.answer, select, tableSelect_limit b.table b.driver (b.options page) h]
  rfl

theorem answer_all (b : Browser) (h : b.pageSize = 0) (rows : List R) (page : Nat) :
    (b.select page).answer rows = rows := by
  have hlimit : (b.select page).limit = none := by
    show (if b.pageSize > 0 then some _ else none) = none
    rw [if_neg (by omega)]
  rw [Select.answer, hlimit]

theorem shown_page (b : Browser) (h : 0 < b.pageSize) (rows : List R) (page : Nat) :
    b.shown rows page =
      ((rows.drop ((page - 1) * b.pageSize)).take (min (b.served) b.pageSize),
        decide (b.maxRows < min b.pageSize (rows.length - (page - 1) * b.pageSize))) := by
  rw [shown_eq, answer_page b h, List.take_take, List.length_take, List.length_drop]

/-- A next page is offered only where the query of this one has answered with rows. -/
theorem lt_length_of_canGoNext {b : Browser} {rows : List R} {page : Nat}
    (h : b.canGoNext (b.shown rows page) = true) :
    0 < b.pageSize ∧ (page - 1) * b.pageSize < rows.length := by
  obtain ⟨hsize, hrest⟩ : 0 < b.pageSize ∧ _ := by
    simpa [canGoNext, -Prod.mk.eta] using h
  refine ⟨hsize, ?_⟩
  rw [shown_page b hsize] at hrest
  rcases hrest with hfull | htruncated
  · rw [List.length_take, List.length_drop] at hfull
    omega
  · have := of_decide_eq_true htruncated
    omega

/-! ## All pages -/

theorem page_offset {page size : Nat} (h : 1 ≤ page) :
    (page + 1 - 1) * size = (page - 1) * size + size := by
  obtain ⟨k, rfl⟩ := Nat.exists_eq_add_of_le' h
  rw [Nat.add_sub_cancel, Nat.add_sub_cancel, Nat.add_one_mul]

/-- The pages come to an end. -/
theorem browseFrom_isSome (b : Browser) (rows : List R) (pages : Nat) :
    ∀ page, 1 ≤ page → rows.length - (page - 1) * b.pageSize < pages →
      (b.browseFrom rows pages page).isSome = true := by
  -- The rows behind the offset of a page become fewer with each page that is offered.
  induction pages with
  | zero =>
    intro page _ hfew
    exact absurd hfew (Nat.not_lt_zero _)
  | succ pages ih =>
    intro page hpage hfew
    rw [browseFrom]
    by_cases hnext : b.canGoNext (b.shown rows page) = true
    · obtain ⟨hsize, hlt⟩ := lt_length_of_canGoNext hnext
      rw [if_pos hnext, Option.isSome_map]
      apply ih (page + 1) (by omega)
      rw [page_offset hpage]
      omega
    · rw [if_neg hnext]
      rfl

theorem browse_isSome (b : Browser) (rows : List R) : (b.browse rows).isSome = true := by
  apply browseFrom_isSome b rows (rows.length + 1) 1 (Nat.le_refl 1)
  rw [Nat.sub_self, Nat.zero_mul]
  omega

/-- While the server lets a whole page through, the pages from one on are the rows from its offset
on. -/
theorem browseFrom_eq (b : Browser) (rows : List R) (hpos : 0 < b.pageSize)
    (hfits : b.pageSize ≤ b.served) (pages : Nat) :
    ∀ page, 1 ≤ page → rows.length - (page - 1) * b.pageSize < pages →
      b.browseFrom rows pages page = some (rows.drop ((page - 1) * b.pageSize)) := by
  have hmax := served_le_maxRows b
  induction pages with
  | zero =>
    intro page _ hfew
    exact absurd hfew (Nat.not_lt_zero _)
  | succ pages ih =>
    intro page hpage hfew
    have hmin : min (b.served) b.pageSize = b.pageSize := by omega
    have hwhole : decide (b.maxRows <
        min b.pageSize (rows.length - (page - 1) * b.pageSize)) = false := by
      apply decide_eq_false
      omega
    rw [browseFrom, shown_page b hpos, hmin, hwhole]
    by_cases hnext : b.pageSize ≤ rows.length - (page - 1) * b.pageSize
    · have hgo : b.canGoNext ((rows.drop ((page - 1) * b.pageSize)).take b.pageSize, false) = true := by
        simp [canGoNext, hpos, hnext]
      show (if _ = true then _ else _) = _
      rw [if_pos hgo, ih (page + 1) (by omega) (by rw [page_offset hpage]; omega), page_offset hpage,
        Option.map_some, ← List.drop_drop, List.take_append_drop]
    · have hstay : ¬b.canGoNext ((rows.drop ((page - 1) * b.pageSize)).take b.pageSize, false) = true := by
        simp [canGoNext, hnext]
      show (if _ = true then _ else _) = _
      rw [if_neg hstay, List.take_of_length_le (by rw [List.length_drop]; omega)]

/-- The server lets a whole page through, so the pages show everything. -/
theorem browse_of_fits (b : Browser) (rows : List R) (hpos : 0 < b.pageSize)
    (hfits : b.pageSize ≤ b.served) : b.browse rows = some rows := by
  have hfrom := browseFrom_eq b rows hpos hfits (rows.length + 1) 1 (Nat.le_refl 1)
    (by rw [Nat.sub_self, Nat.zero_mul]; omega)
  rwa [Nat.sub_self, Nat.zero_mul, List.drop_zero] at hfrom

/-- From a page on, no more rows are shown than there are behind its offset. -/
theorem length_browseFrom_le (b : Browser) (rows : List R) (hpos : 0 < b.pageSize) (pages : Nat) :
    ∀ page, 1 ≤ page → ∀ all, b.browseFrom rows pages page = some all →
      all.length ≤ rows.length - (page - 1) * b.pageSize := by
  induction pages with
  | zero =>
    intro page _ all h
    cases h
  | succ pages ih =>
    intro page hpage all h
    have hview : (b.shown rows page).1.length ≤
        min b.pageSize (rows.length - (page - 1) * b.pageSize) := by
      rw [shown_page b hpos, List.length_take, List.length_drop]
      omega
    rw [browseFrom] at h
    by_cases hnext : b.canGoNext (b.shown rows page) = true
    · rw [if_pos hnext] at h
      obtain ⟨rest, hrest, rfl⟩ := Option.map_eq_some_iff.1 h
      have hlen := ih (page + 1) (by omega) rest hrest
      rw [page_offset hpage] at hlen
      rw [List.length_append]
      omega
    · rw [if_neg hnext] at h
      cases h
      omega

/-- Where the server cuts off rows of the first page, some row is never shown. -/
theorem browse_ne (b : Browser) (rows : List R) (hmany : b.served < rows.length)
    (hcut : b.pageSize = 0 ∨ b.served < b.pageSize) : b.browse rows ≠ some rows := by
  intro h
  rw [browse, browseFrom] at h
  rcases hcut with hall | hlarge
  · -- Without pages there is no next one.
    have hstay : ¬b.canGoNext (b.shown rows 1) = true := by
      simp [canGoNext, hall]
    rw [if_neg hstay, shown_eq, answer_all b hall] at h
    have hlen := congrArg List.length (Option.some.inj h)
    rw [List.length_take] at hlen
    omega
  · -- The next page starts behind the whole page, not behind the rows that were served.
    have hpos : 0 < b.pageSize := by omega
    have hfirst : (b.shown rows 1).1.length = b.served := by
      rw [shown_page b hpos, List.length_take, List.length_drop, Nat.sub_self, Nat.zero_mul]
      omega
    by_cases hnext : b.canGoNext (b.shown rows 1) = true
    · rw [if_pos hnext] at h
      obtain ⟨rest, hrest, hrows⟩ := Option.map_eq_some_iff.1 h
      have hlen := length_browseFrom_le b rows hpos _ 2 (by omega) rest hrest
      have htotal := congrArg List.length hrows
      rw [List.length_append, hfirst] at htotal
      omega
    · rw [if_neg hnext] at h
      have hlen := congrArg List.length (Option.some.inj h)
      omega

/-- The pages show the whole table, every row once and in order, exactly when the server lets through
the whole table or a whole page. -/
theorem browse_whole_iff (b : Browser) (rows : List R) :
    b.browse rows = some rows ↔
      rows.length ≤ b.served ∨ (0 < b.pageSize ∧ b.pageSize ≤ b.served) := by
  constructor
  · intro h
    by_contra hcut
    exact browse_ne b rows (by omega) (by omega) h
  · rintro (hfew | ⟨hpos, hfits⟩)
    · rcases Nat.eq_zero_or_pos b.pageSize with hall | hpos
      · have hstay : ¬b.canGoNext (b.shown rows 1) = true := by
          simp [canGoNext, hall]
        rw [browse, browseFrom, if_neg hstay, shown_eq, answer_all b hall, List.take_of_length_le hfew]
      · by_cases hfits : b.pageSize ≤ b.served
        · exact browse_of_fits b rows hpos hfits
        · -- The table is smaller than the page: it is shown at once, and nothing is offered behind it.
          have hmax := served_le_maxRows b
          have hwhole : ¬b.maxRows < min b.pageSize (rows.length - 0) := by omega
          have hshown : b.shown rows 1 = (rows, false) := by
            rw [shown_page b hpos, Nat.sub_self, Nat.zero_mul, List.drop_zero, decide_eq_false hwhole,
              List.take_of_length_le (by omega)]
          have hstay : ¬b.canGoNext (rows, false) = true := by
            simp [canGoNext]
            omega
          show (if _ = true then _ else _) = _
          rw [hshown, if_neg hstay]
    · exact browse_of_fits b rows hpos hfits

/-- With the default limits and 500 rows a page, a table of 201 rows ends after the first 200. -/
def halfShown : Browser :=
  ⟨⟨200, 10000⟩, .postgres, ⟨"public".toList, "t".toList⟩, [], none, 500, [], [], []⟩

theorem halfShown_not_whole : halfShown.browse (List.replicate 201 ()) ≠ some (List.replicate 201 ()) := by
  apply browse_ne
  · decide +kernel
  · exact Or.inr (by decide)

end Browser

end Workbench.Table
