import Workbench.Schema.EditScript

/-!
# When the script is right

The operations of `diffColumns` turn the table into the one of the draft exactly if no new column keeps a
dropped one, every name that a column takes was given up by an earlier column, and the primary key is one
that `set_primary` can set (`diffColumns_correct_iff`).
-/

set_option autoImplicit false

namespace Workbench.Schema.EditScript

/-! ## The drafts that come out right -/

/-- The drafts that the script is for: names differ, and the columns that stay stand for different ones. -/
structure Editable (before : List Column) (after : List DraftColumn) : Prop where
  distinct : (names before).Nodup
  distinct_draft : (after.map fun item => item.name).Nodup
  key_mem : ∀ item ∈ after, item.isNew = false → item.key ∈ names before
  injective : (retained after).Nodup

/-- The column is the one of the draft; the case of a type does not count. -/
def Same (lowerCase : Text → Text) (c : Column) (item : DraftColumn) : Prop :=
  lowerCase c.type = lowerCase item.type ∧ c.nullable = item.nullable ∧ c.default = item.default ∧
    c.comment = item.comment ∧ c.primary = item.primary

/-- The table has the columns of the draft. -/
def Matches (lowerCase : Text → Text) (t : List Column) (after : List DraftColumn) : Prop :=
  (names t).Perm (after.map fun item => item.name) ∧
    ∀ c ∈ t, ∀ item ∈ after, c.name = item.name → Same lowerCase c item

/-- No new column keeps a column from being dropped. -/
def NoReuse (before : List Column) (after : List DraftColumn) : Prop :=
  ∀ item ∈ after, item.isNew = true → item.key ∈ names before → item.key ∈ retained after

/-- No column carries the name of one that stays and stands behind it. -/
def InOrder (after : List DraftColumn) : Prop :=
  after.Pairwise fun item later => later.isNew = false → item.name ≠ later.key

/-- The column stands for one of the primary key. -/
def carried (before : List Column) (item : DraftColumn) : Bool :=
  !item.isNew && before.any fun c => c.name = item.key && c.primary

/-- A primary key whose first column keeps its name stays as it is; another one is a single column. -/
def PrimaryKept (before : List Column) (after : List DraftColumn) : Prop :=
  let beforePrimary := firstPrimary before
  let afterPrimary := firstPrimary (after.map DraftColumn.toColumn)
  if beforePrimary = afterPrimary ∨ (beforePrimary = some [] ∧ afterPrimary = none) then
    ∀ item ∈ after, item.primary = carried before item
  else afterPrimary ≠ some [] ∧ ∀ item ∈ after, item.primary = true → some item.name = afterPrimary

section

variable {lowerCase : Text → Text} {before : List Column} {after : List DraftColumn}

theorem pairwise_iff_split {α : Type} {r : α → α → Prop} {l : List α} :
    l.Pairwise r ↔ ∀ front a back, l = front ++ a :: back → ∀ b ∈ back, r a b := by
  induction l with
  | nil =>
    refine iff_of_true List.Pairwise.nil ?_
    intro front a back h
    exact (List.append_ne_nil_of_right_ne_nil front (List.cons_ne_nil a back) h.symm).elim
  | cons first rest ih =>
    rw [List.pairwise_cons, ih]
    constructor
    · rintro ⟨hfirst, hrest⟩ front a back h
      cases front with
      | nil =>
        obtain ⟨rfl, rfl⟩ := List.cons_eq_cons.1 h
        exact hfirst
      | cons b front => exact hrest front a back (List.cons_eq_cons.1 h).2
    · intro h
      refine ⟨h [] first rest rfl, ?_⟩
      intro front a back hrest
      exact h (first :: front) a back (congrArg (List.cons first) hrest)

theorem mem_kept {n : Text} : n ∈ names (kept before after) ↔
    n ∈ names before ∧ ∃ item ∈ after, item.key = n := by
  simp only [names, kept, List.mem_map, List.mem_filter, List.any_eq_true, decide_eq_true_iff]
  constructor
  · rintro ⟨c, ⟨hc, item, hitem, hkey⟩, rfl⟩
    exact ⟨⟨c, hc, rfl⟩, item, hitem, hkey⟩
  · rintro ⟨⟨c, hc, rfl⟩, item, hitem, hkey⟩
    exact ⟨c, ⟨hc, item, hitem, hkey⟩, rfl⟩

theorem mem_kept_of_mem_retained (h : Editable before after) {n : Text} (hn : n ∈ retained after) :
    n ∈ names (kept before after) := by
  obtain ⟨item, hitem, hold, rfl⟩ := mem_retained.1 hn
  exact mem_kept.2 ⟨h.key_mem item hitem hold, item, hitem, rfl⟩

/-- Every kept column is one that stays. -/
theorem noReuse_iff : NoReuse before after ↔ ∀ n ∈ names (kept before after), n ∈ retained after := by
  constructor
  · intro h n hn
    obtain ⟨hbefore, item, hitem, rfl⟩ := mem_kept.1 hn
    cases hnew : item.isNew with
    | true => exact h item hitem hnew hbefore
    | false => exact mem_retained.2 ⟨item, hitem, hnew, rfl⟩
  · intro h item hitem _ hbefore
    exact h item.key (mem_kept.2 ⟨hbefore, item, hitem, rfl⟩)

theorem retained_append {front back : List DraftColumn} :
    retained (front ++ back) = retained front ++ retained back := by
  rw [retained, List.filter_append, List.map_append]
  rfl

/-- The names in use in the middle of the loop. -/
theorem mem_names_stage_front (h : Editable before after) {front back : List DraftColumn}
    (hsplit : after = front ++ back) {n : Text} :
    n ∈ names (stage lowerCase (kept before after) front) ↔
      (∃ item ∈ front, item.name = n) ∨ (n ∈ names (kept before after) ∧ n ∉ retained front) := by
  have hinjective := h.injective
  rw [hsplit] at hinjective
  apply mem_names_stage (nodup_retained_left hinjective)
  intro item hitem hold
  apply mem_kept_of_mem_retained h
  rw [hsplit]
  exact mem_retained.2 ⟨item, List.mem_append_left back hitem, hold, rfl⟩

/-- The names differ, so only a column that is yet to be renamed can be in the way. -/
theorem free_iff (h : Editable before after) {front back : List DraftColumn} {item : DraftColumn}
    (hsplit : after = front ++ item :: back) :
    item.name ∉ names (stage lowerCase (kept before after) front) ↔
      (item.name ∈ names (kept before after) → item.name ∈ retained front) := by
  have hother : ¬∃ first ∈ front, first.name = item.name := by
    rintro ⟨first, hfirst, hname⟩
    have hdistinct := h.distinct_draft
    rw [hsplit, List.map_append] at hdistinct
    apply List.disjoint_of_nodup_append hdistinct (List.mem_map.2 ⟨first, hfirst, hname⟩)
    exact List.mem_cons_self
  rw [mem_names_stage_front h hsplit, or_iff_right hother, not_and, not_not]

/-- A column that stays is not yet renamed while the columns before it are at work. -/
theorem not_mem_retained_front (h : Editable before after) {front back : List DraftColumn}
    {later : DraftColumn} (hsplit : after = front ++ back) (hlater : later ∈ back)
    (hold : later.isNew = false) : later.key ∉ retained front := by
  intro hmem
  have hinjective := h.injective
  rw [hsplit, retained_append] at hinjective
  exact List.disjoint_of_nodup_append hinjective hmem (mem_retained.2 ⟨later, hlater, hold, rfl⟩)

/-- Every column finds the name free that it takes. -/
def Free (lowerCase : Text → Text) (before : List Column) (after : List DraftColumn) : Prop :=
  ∀ front item back, after = front ++ item :: back → Takes item →
    item.name ∉ names (stage lowerCase (kept before after) front)

theorem inOrder_iff (h : Editable before after) (hreuse : NoReuse before after) :
    Free lowerCase before after ↔ InOrder after := by
  rw [InOrder, pairwise_iff_split]
  constructor
  · intro hfree front item back hsplit later hlater hold hname
    have hmem : later ∈ item :: back := List.mem_cons_of_mem item hlater
    have hretained : later.key ∈ retained after := by
      rw [hsplit]
      exact mem_retained.2 ⟨later, List.mem_append_right front hmem, hold, rfl⟩
    have hfront := not_mem_retained_front h hsplit hmem hold
    by_cases htakes : Takes item
    · have hgiven := (free_iff h hsplit).1 (hfree front item back hsplit htakes)
      rw [hname] at hgiven
      exact hfront (hgiven (mem_kept_of_mem_retained h hretained))
    · -- A column that keeps its name stands for the same column as `later`.
      rw [Takes, not_or, not_not, Bool.not_eq_true] at htakes
      have hsplit' : after = (front ++ [item]) ++ back := by
        rw [hsplit, List.append_assoc, List.singleton_append]
      apply not_mem_retained_front h hsplit' hlater hold
      rw [retained_append_old htakes.1, htakes.2, hname]
      exact List.mem_append_right _ List.mem_cons_self
  · intro horder front item back hsplit htakes
    rw [free_iff h hsplit]
    intro hkept
    have hretained := noReuse_iff.1 hreuse item.name hkept
    obtain ⟨other, hmem, hold, hkey⟩ := mem_retained.1 hretained
    rw [hsplit] at hmem
    rcases List.mem_append.1 hmem with hfront | hcons
    · rw [← hkey]
      exact mem_retained.2 ⟨other, hfront, hold, rfl⟩
    · rcases List.mem_cons.1 hcons with rfl | hback
      · rcases htakes with hnew | hne
        · rw [hold] at hnew
          cases hnew
        · exact (hne hkey).elim
      · exact (horder front item back hsplit other hback hold hkey.symm).elim

/-- A table with the names of the draft has dropped every column that no column of the draft keeps. -/
theorem noReuse_of_names (h : Editable before after)
    (hfree : Free lowerCase before after)
    (hnames : names (stage lowerCase (kept before after) after) ⊆ after.map fun item => item.name) :
    NoReuse before after := by
  rw [noReuse_iff]
  intro n hkept
  by_contra hn
  have hend : n ∈ names (stage lowerCase (kept before after) after) :=
    (mem_names_stage_front h (List.append_nil after).symm).2 (Or.inr ⟨hkept, hn⟩)
  obtain ⟨item, hitem, rfl⟩ := List.mem_map.1 (hnames hend)
  obtain ⟨front, back, hsplit⟩ := List.append_of_mem hitem
  by_cases htakes : Takes item
  · have hfront := (free_iff h hsplit).1 (hfree front item back hsplit htakes) hkept
    apply hn
    rw [hsplit, retained_append]
    exact List.mem_append_left _ hfront
  · rw [Takes, not_or, not_not, Bool.not_eq_true] at htakes
    exact hn (mem_retained.2 ⟨item, hitem, htakes.1, htakes.2⟩)

/-- With nothing in the way and nothing left over the loop ends with the names of the draft. -/
theorem mem_names_end (h : Editable before after) (hreuse : NoReuse before after) {n : Text} :
    n ∈ names (stage lowerCase (kept before after) after) ↔ ∃ item ∈ after, item.name = n := by
  rw [mem_names_stage_front h (List.append_nil after).symm, or_iff_left]
  rintro ⟨hkept, hn⟩
  exact hn (noReuse_iff.1 hreuse n hkept)

/-- At the end of the loop every column is the one of the draft, but for the primary key. -/
theorem end_column (h : Editable before after) (hreuse : NoReuse before after) {c : Column}
    {item : DraftColumn} (hc : c ∈ stage lowerCase (kept before after) after) (hitem : item ∈ after)
    (hname : c.name = item.name) :
    Same lowerCase { c with primary := item.primary } item ∧ c.primary = carried before item := by
  have hsame : ∀ other ∈ after, other.name = item.name → other = item := by
    intro other hother heq
    exact List.inj_on_of_nodup_map h.distinct_draft hother hitem heq
  rcases List.mem_append.1 hc with hmoved | hadded
  · obtain ⟨original, horiginal, rfl⟩ := List.mem_map.1 hmoved
    obtain ⟨other, hother, hold, hkey⟩ :=
      mem_retained.1 (noReuse_iff.1 hreuse original.name (List.mem_map_of_mem horiginal))
    rw [moved_of_mem h.injective hother hold hkey] at hname ⊢
    obtain rfl := hsame other hother hname
    have hbefore : original ∈ before := (List.mem_filter.1 horiginal).1
    refine ⟨⟨?_, rfl, rfl, rfl, rfl⟩, ?_⟩
    · rw [edited]
      by_cases halter : Altered lowerCase original other
      · rw [if_pos halter]
      · rw [if_neg halter]
        rw [Altered, not_or, not_not] at halter
        exact halter.1
    · rw [carried, hold, Bool.not_false, Bool.true_and, edited, Bool.eq_iff_iff, List.any_eq_true]
      constructor
      · intro hprimary
        refine ⟨original, hbefore, ?_⟩
        rw [Bool.and_eq_true, decide_eq_true_iff]
        exact ⟨hkey.symm, hprimary⟩
      · rintro ⟨c, hc, hfound⟩
        rw [Bool.and_eq_true, decide_eq_true_iff, hkey] at hfound
        obtain rfl := eq_of_name h.distinct hc hbefore hfound.1
        exact hfound.2
  · obtain ⟨other, hother, rfl⟩ := List.mem_map.1 hadded
    obtain ⟨hmem, hnew⟩ := List.mem_filter.1 hother
    obtain rfl := hsame other hmem hname
    refine ⟨⟨rfl, rfl, rfl, rfl, rfl⟩, ?_⟩
    rw [carried, hnew]
    rfl

/-! ## The primary key -/

/-- Whether `c` is in the primary key once the operations on it are done. -/
def keyed (before : List Column) (after : List DraftColumn) (c : Column) : Bool :=
  let beforePrimary := firstPrimary before
  let afterPrimary := firstPrimary (after.map DraftColumn.toColumn)
  if beforePrimary = afterPrimary then c.primary
  else
    match afterPrimary.filter (· ≠ []) with
    | some name => c.name = name
    | none => if (beforePrimary.filter (· ≠ [])).isSome then false else c.primary

/-- Nothing else of the column counts. -/
theorem keyed_congr {c c' : Column} (hname : c.name = c'.name) (hprimary : c.primary = c'.primary) :
    keyed before after c = keyed before after c' := by
  simp only [keyed, hname, hprimary]

theorem mem_of_firstPrimary {n : Text} (h : firstPrimary (after.map DraftColumn.toColumn) = some n) :
    ∃ item ∈ after, item.name = n ∧ item.primary = true := by
  obtain ⟨c, hfind, rfl⟩ := Option.map_eq_some_iff.1 h
  obtain ⟨item, hitem, rfl⟩ := List.mem_map.1 (List.mem_of_find?_eq_some hfind)
  exact ⟨item, hitem, rfl, List.find?_some hfind⟩

theorem run_diffPrimary {t : List Column} (hnames : ∀ item ∈ after, item.name ∈ names t) :
    run (diffPrimary before after) t = some (t.map fun c => setPrimary (keyed before after c) c) := by
  have hkeep : t.map (fun c => setPrimary c.primary c) = t := List.map_id t
  rw [diffPrimary]
  simp only [keyed]
  by_cases hsame : firstPrimary before = firstPrimary (after.map DraftColumn.toColumn)
  · rw [if_neg (not_not.2 hsame), run_nil]
    simp only [if_pos hsame, hkeep]
  · rw [if_pos hsame]
    simp only [if_neg hsame]
    cases hname : (firstPrimary (after.map DraftColumn.toColumn)).filter (· ≠ []) with
    | some n =>
      obtain ⟨item, hitem, rfl, -⟩ := mem_of_firstPrimary (Option.filter_eq_some_iff.1 hname).1
      have hstep : applyKind (Operation.setPrimary item.name) t .setPrimary =
          some (t.map fun c => setPrimary (c.name = item.name) c) := if_pos (hnames item hitem)
      rw [run_cons, apply_kind .setPrimary rfl, hstep]
      rfl
    | none =>
      cases (firstPrimary before).filter (· ≠ []) with
      | none => exact congrArg some hkeep.symm
      | some n =>
        rw [Option.isSome_some, if_pos rfl, run_cons, apply_kind .dropPrimary rfl]
        rfl

/-- Without a primary column none is carried. -/
theorem carried_of_firstPrimary (h : firstPrimary before = none) (item : DraftColumn) :
    carried before item = false := by
  rw [carried, Bool.and_eq_false_iff]
  right
  rw [List.any_eq_false]
  intro c hc hfound
  rw [Bool.and_eq_true] at hfound
  exact List.find?_eq_none.1 (Option.map_eq_none_iff.1 h) c hc hfound.2

theorem primaryKept_iff (h : Editable before after) : PrimaryKept before after ↔ ∀ item ∈ after,
    item.primary = keyed before after { item.toColumn with primary := carried before item } := by
  rw [PrimaryKept]
  simp only [keyed]
  by_cases hsame : firstPrimary before = firstPrimary (after.map DraftColumn.toColumn)
  · rw [if_pos (Or.inl hsame)]
    simp only [if_pos hsame]
  -- an empty name counts as no name
  have hnamed : ∀ n : Text, n ≠ [] → (some n).filter (· ≠ []) = some n := by
    intro n hn
    exact Option.filter_eq_some_iff.2 ⟨rfl, decide_eq_true hn⟩
  simp only [if_neg hsame]
  cases hafter : firstPrimary (after.map DraftColumn.toColumn) with
  -- the draft has no primary column
  | none =>
    cases hbefore : firstPrimary before with
    | none => exact (hsame (hbefore.trans hafter.symm)).elim
    | some n =>
      by_cases hn : n = []
      · rw [hn, if_pos (Or.inr ⟨rfl, rfl⟩)]
        exact Iff.rfl
      · have hkey : ¬(some n = none ∨ some n = some [] ∧ (none : Option Text) = none) := by
          rintro (h' | ⟨h', -⟩)
          · cases h'
          · exact hn (Option.some_inj.1 h')
        rw [if_neg hkey, hnamed n hn]
        constructor
        · rintro ⟨-, hnone⟩ item hitem
          exact Bool.eq_false_iff.2 fun hprimary => Option.some_ne_none _ (hnone item hitem hprimary)
        · intro hall
          refine ⟨Option.some_ne_none _ ∘ Eq.symm, ?_⟩
          intro item hitem hprimary
          rw [hall item hitem] at hprimary
          cases hprimary
  | some n =>
    -- the primary key is replaced by the first primary column of the draft
    obtain ⟨first, hfirst, hname, hprimary⟩ := mem_of_firstPrimary hafter
    have hkey : ¬(firstPrimary before = some n ∨
        firstPrimary before = some [] ∧ some n = (none : Option Text)) := by
      rintro (h' | ⟨-, h'⟩)
      · exact hsame (h'.trans hafter.symm)
      · cases h'
    rw [if_neg hkey]
    by_cases hn : n = []
    · -- An empty name is taken for no primary key, and no column is left in it.
      refine iff_of_false (fun h' => h'.1 (congrArg some hn)) ?_
      intro hall
      have hkeyed := hall first hfirst
      rw [hprimary, hn] at hkeyed
      cases hbefore : firstPrimary before with
      | none =>
        rw [hbefore] at hkeyed
        exact Bool.false_ne_true ((carried_of_firstPrimary hbefore first).symm.trans hkeyed.symm)
      | some m =>
        have hm : m ≠ [] := by
          rintro rfl
          rw [hn] at hafter
          exact hsame (hbefore.trans hafter.symm)
        rw [hbefore, hnamed m hm] at hkeyed
        cases hkeyed
    · rw [hnamed n hn]
      constructor
      · rintro ⟨-, hsingle⟩ item hitem
        rw [Bool.eq_iff_iff, decide_eq_true_iff]
        constructor
        · intro hitem'
          exact Option.some_inj.1 (hsingle item hitem hitem')
        · intro hname'
          -- no two columns share a name
          obtain rfl := List.inj_on_of_nodup_map h.distinct_draft hitem hfirst (hname'.trans hname.symm)
          exact hprimary
      · intro hall
        refine ⟨fun h' => hn (Option.some_inj.1 h'), ?_⟩
        intro item hitem hitem'
        rw [hall item hitem, decide_eq_true_iff] at hitem'
        exact congrArg some hitem'

/-! ## The whole script -/

/-- The filter at the end of `diffColumns` is about the dropped columns only. -/
theorem not_dropsCarried {op : Operation} (h : op.kind ≠ OperationKind.dropColumn.text) :
    dropsCarried after op = false := by
  rw [dropsCarried, decide_eq_false h, Bool.false_and]

theorem filter_rounds : (after.flatMap (diffCurrent lowerCase before)).filter
    (fun op => !dropsCarried after op) = after.flatMap (diffCurrent lowerCase before) := by
  rw [List.filter_eq_self]
  intro op hop
  obtain ⟨item, -, hround⟩ := List.mem_flatMap.1 hop
  rw [Bool.not_eq_true']
  rw [diffCurrent] at hround
  split at hround
  · rw [List.mem_singleton.1 hround]
    exact not_dropsCarried (by decide : OperationKind.addColumn.text ≠ OperationKind.dropColumn.text)
  · split at hround
    · cases hround
    · exact not_dropsCarried_of_mem hround

theorem filter_primary : (diffPrimary before after).filter (fun op => !dropsCarried after op) =
    diffPrimary before after := by
  rw [List.filter_eq_self]
  intro op hop
  rw [Bool.not_eq_true']
  apply not_dropsCarried
  simp only [diffPrimary] at hop
  split at hop
  · split at hop
    · rw [List.mem_singleton.1 hop]
      exact (by decide : OperationKind.setPrimary.text ≠ OperationKind.dropColumn.text)
    · split at hop
      · rw [List.mem_singleton.1 hop]
        exact (by decide : OperationKind.dropPrimary.text ≠ OperationKind.dropColumn.text)
      · cases hop
  · cases hop

/-- The filter leaves the drop operations of the names that no column of the draft has for its key. -/
theorem filter_dropped : (diffDropped before after).filter (fun op => !dropsCarried after op) =
    (names (before.filter fun c => !after.any fun item => item.key = c.name)).map
      Operation.dropColumn := by
  rw [diffDropped, List.filter_map, List.filter_filter, names, List.map_map]
  congr 1
  apply List.filter_congr
  intro c _
  have hcarried : dropsCarried after (Operation.dropColumn c.name) =
      after.any fun item => item.key = c.name := by
    rw [dropsCarried]
    exact Bool.true_and _
  rw [Function.comp_apply, hcarried, Bool.and_eq_left_iff_imp, Bool.not_eq_true', List.any_eq_false,
    Bool.not_eq_true', List.contains_eq_mem, decide_eq_false_iff_not]
  intro hnone hmem
  obtain ⟨item, hitem, -, hkey⟩ := mem_retained.1 hmem
  exact hnone item hitem (decide_eq_true hkey)

theorem run_dropped (h : (names before).Nodup) :
    run ((diffDropped before after).filter fun op => !dropsCarried after op) before =
      some (kept before after) := by
  have hsub : (names (before.filter fun c => !after.any fun item => item.key = c.name)).Sublist
      (names before) := List.filter_sublist.map Column.name
  rw [filter_dropped, run_dropColumns (h.sublist hsub) hsub.subset, kept]
  congr 1
  apply List.filter_congr
  intro c hc
  rw [decide_not, Bool.not_eq_eq_eq_not, Bool.eq_iff_iff, decide_eq_true_iff]
  constructor
  · intro hname
    obtain ⟨c', hc', hsame⟩ := List.mem_map.1 hname
    obtain rfl := eq_of_name h (List.mem_filter.1 hc').1 hc hsame
    exact (List.mem_filter.1 hc').2
  · intro hnone
    exact List.mem_map_of_mem (List.mem_filter.2 ⟨hc, hnone⟩)

/-- The three parts of the script. -/
theorem run_diffColumns (h : (names before).Nodup) :
    run (diffColumns lowerCase before after) before =
      (run (after.flatMap (diffCurrent lowerCase before)) (kept before after)).bind
        (run (diffPrimary before after)) := by
  rw [diffColumns, List.filter_append, List.filter_append, filter_rounds, filter_primary, run_append,
    run_append, run_dropped h, Option.bind_some]

theorem run_rounds (h : Editable before after) {t : List Column} :
    run (after.flatMap (diffCurrent lowerCase before)) (kept before after) = some t ↔
      Free lowerCase before after ∧ t = stage lowerCase (kept before after) after := by
  have hstart : stage lowerCase (kept before after) [] = kept before after := by
    rw [stage, List.filter_nil, List.map_nil, List.append_nil]
    exact List.map_id _
  have hsub : (kept before after).Sublist before := List.filter_sublist
  have hkept : (names (stage lowerCase (kept before after) [])).Nodup := by
    rw [hstart]
    exact h.distinct.sublist (hsub.map Column.name)
  have hloop := run_loop (t := t) hsub h.distinct hkept h.injective
    fun item hitem hold => mem_kept_of_mem_retained h (mem_retained.2 ⟨item, hitem, hold, rfl⟩)
  rwa [hstart] at hloop

/-- At the end of the script only the primary key can differ from the draft. -/
theorem matches_iff (h : Editable before after) (hfree : Free lowerCase before after)
    (hreuse : NoReuse before after) :
    Matches lowerCase ((stage lowerCase (kept before after) after).map fun c =>
      setPrimary (keyed before after c) c) after ↔ PrimaryKept before after := by
  have hnames : names ((stage lowerCase (kept before after) after).map fun c =>
      setPrimary (keyed before after c) c) = names (stage lowerCase (kept before after) after) := by
    rw [names, List.map_map]
    rfl
  -- Where a column of the table meets the one of the draft, `keyed` says the same of both.
  have hkeyed : ∀ c ∈ stage lowerCase (kept before after) after, ∀ item ∈ after, c.name = item.name →
      keyed before after c =
        keyed before after { item.toColumn with primary := carried before item } := by
    intro c hc item hitem hname
    exact keyed_congr hname (end_column h hreuse hc hitem hname).2
  rw [primaryKept_iff h, Matches, hnames]
  constructor
  · rintro ⟨-, hsame⟩ item hitem
    have hmem : item.name ∈ names (stage lowerCase (kept before after) after) :=
      (mem_names_end h hreuse).2 ⟨item, hitem, rfl⟩
    obtain ⟨c, hc, hname⟩ := List.mem_map.1 hmem
    rw [← hkeyed c hc item hitem hname]
    exact (hsame _ (List.mem_map_of_mem hc) item hitem hname).2.2.2.2.symm
  · intro hprimary
    constructor
    · have hdistinct : (names (stage lowerCase (kept before after) after)).Nodup := by
        have hsub : (kept before after).Sublist before := List.filter_sublist
        apply run_nodup (h.distinct.sublist (hsub.map Column.name))
        exact (run_rounds h).2 ⟨hfree, rfl⟩
      rw [List.perm_ext_iff_of_nodup hdistinct h.distinct_draft]
      intro n
      rw [mem_names_end h hreuse, List.mem_map]
    · intro c' hc' item hitem hname
      obtain ⟨c, hc, rfl⟩ := List.mem_map.1 hc'
      obtain ⟨⟨htype, hnullable, hdefault, hcomment, -⟩, -⟩ := end_column h hreuse hc hitem hname
      refine ⟨htype, hnullable, hdefault, hcomment, ?_⟩
      exact (hkeyed c hc item hitem hname).trans (hprimary item hitem).symm

/-- **The script ends in the table of the draft exactly if no new column keeps a dropped one, every name
that is taken was given up before, and the primary key is one that can be set.** -/
theorem diffColumns_correct_iff (h : Editable before after) :
    (∃ t, run (diffColumns lowerCase before after) before = some t ∧ Matches lowerCase t after) ↔
      NoReuse before after ∧ InOrder after ∧ PrimaryKept before after := by
  have hpresent : ∀ item ∈ after, item.name ∈ names (stage lowerCase (kept before after) after) := by
    intro item hitem
    exact (mem_names_stage_front h (List.append_nil after).symm).2 (Or.inl ⟨item, hitem, rfl⟩)
  rw [run_diffColumns h.distinct]
  constructor
  · rintro ⟨t, hrun, hmatches⟩
    obtain ⟨middle, hrounds, hprimary⟩ := Option.bind_eq_some_iff.1 hrun
    obtain ⟨hfree, rfl⟩ := (run_rounds h).1 hrounds
    rw [run_diffPrimary hpresent, Option.some_inj] at hprimary
    subst hprimary
    have hreuse : NoReuse before after := by
      apply noReuse_of_names h hfree
      have hsubset := hmatches.1.subset
      rwa [names, List.map_map] at hsubset
    exact ⟨hreuse, (inOrder_iff h hreuse).1 hfree, (matches_iff h hfree hreuse).1 hmatches⟩
  · rintro ⟨hreuse, horder, hkept⟩
    have hfree : Free lowerCase before after := (inOrder_iff h hreuse).2 horder
    refine ⟨_, ?_, (matches_iff h hfree hreuse).2 hkept⟩
    rw [(run_rounds h).2 ⟨hfree, rfl⟩, Option.bind_some, run_diffPrimary hpresent]

theorem diffColumns_correct_rename :
    (∃ t, run (diffColumns id [⟨['a'], ['t'], false, none, [], true⟩]
          [⟨⟨['b'], ['t'], true, none, ['x'], true⟩, some ['a'], false⟩])
        [⟨['a'], ['t'], false, none, [], true⟩] = some t ∧
      Matches id t [⟨⟨['b'], ['t'], true, none, ['x'], true⟩, some ['a'], false⟩]) ↔
    NoReuse [⟨['a'], ['t'], false, none, [], true⟩]
        [⟨⟨['b'], ['t'], true, none, ['x'], true⟩, some ['a'], false⟩] ∧
      InOrder [⟨⟨['b'], ['t'], true, none, ['x'], true⟩, some ['a'], false⟩] ∧
      PrimaryKept [⟨['a'], ['t'], false, none, [], true⟩]
        [⟨⟨['b'], ['t'], true, none, ['x'], true⟩, some ['a'], false⟩] :=
  diffColumns_correct_iff ⟨by decide, by decide, by decide, by decide⟩

/-- A column is taken out of the draft and a new one put in under its name: its drop operation is filtered
away, and the addition finds the name in use. -/
theorem diffColumns_replaced :
    Editable [⟨['a'], ['t'], false, none, [], false⟩]
      [⟨⟨['a'], ['u'], false, none, [], false⟩, none, true⟩] ∧
    run (diffColumns id [⟨['a'], ['t'], false, none, [], false⟩]
      [⟨⟨['a'], ['u'], false, none, [], false⟩, none, true⟩])
      [⟨['a'], ['t'], false, none, [], false⟩] = none :=
  ⟨⟨by decide, by decide, by decide, by decide⟩, by decide +kernel⟩

end

end Workbench.Schema.EditScript
