import Workbench.Table.Draft

/-!
# Applying a draft

`applyDraft` of `web/src/features/table/TableView.tsx` sends one request for each deletion, each edited row
that has changes outside the key, and each new row, in this order. It throws at a row that is not shown
(any more). `Workbench.Table.ShownTable.issued` are the requests that it sends when each one succeeds.

`sendsEdits_iff` says for which drafts every edit reaches the server.
-/

set_option autoImplicit false

namespace Workbench.Table

open Workbench.Lib

inductive RowOperation where
  | insert
  | update
  | delete
  deriving DecidableEq, Repr

/-- The entry of the draft that a request is for. -/
inductive DraftEntry where
  | deleted (index : Nat)
  | edited (index : Nat)
  | added (position : Nat)
  deriving DecidableEq, Repr

structure RowRequest where
  entry : DraftEntry
  operation : RowOperation
  mutation : Mutation Cell

/-- What the table view shows. -/
structure ShownTable where
  schema : Text
  table : Text
  columns : List Column
  rows : List (List Cell)
  uniqueKey : List Text
  draft : Option TableDraft

/-- The columns of a table have names of their own. -/
structure TableView extends ShownTable where
  distinct : (columns.map Column.name).Nodup

/-- The requests before the first step that throws. -/
def beforeThrow : List (Option RowRequest) → List RowRequest
  | [] => []
  | none :: _ => []
  | some r :: rest => r :: beforeThrow rest

namespace ShownTable

def editable (v : ShownTable) : Bool :=
  !v.uniqueKey.isEmpty && v.uniqueKey.all fun key => v.columns.any fun column => column.name == key

def draftState (v : ShownTable) : TableDraft := v.draft.getD emptyDraft

def dirty (v : ShownTable) : Bool := hasEffectiveDraftChanges v.columns v.rows v.draft

/-- `buildRowKey` throws when the row is missing. -/
def deletion (v : ShownTable) (index : Nat) : Option RowRequest :=
  (v.rows[index]?).map fun row =>
    ⟨.deleted index, .delete, ⟨v.schema, v.table, ∅, buildRowKey v.columns row v.uniqueKey⟩⟩

/-- An edited row without a payload is passed over. -/
def update (v : ShownTable) (e : Nat × Record) : List (Option RowRequest) :=
  match v.rows[e.1]? with
  | none => [none]
  | some row =>
    match buildRowUpdate v.columns row e.2 v.uniqueKey with
    | none => []
    | some payload =>
      [some ⟨.edited e.1, .update, ⟨v.schema, v.table, payload.values, payload.key⟩⟩]

def insertion (v : ShownTable) (position : Nat) (newRow : Record) : Option RowRequest :=
  some ⟨.added position, .insert, ⟨v.schema, v.table, buildInsertValues v.columns newRow, ∅⟩⟩

/-- The steps of the loops; `none` is a step that throws. -/
def draftSteps (v : ShownTable) : List (Option RowRequest) :=
  v.draftState.deletedRowIndexes.map v.deletion ++
    (v.draftState.edited.flatMap v.update ++ v.draftState.newRows.mapIdx v.insertion)

def issued (v : ShownTable) : List RowRequest :=
  if v.editable && v.dirty then beforeThrow v.draftSteps else []

end ShownTable

namespace TableView

open ShownTable

/-! ## The statement -/

/-- The coerced value of an edited cell is another typed value than the one in the row. -/
def Differs (v : TableView) (row : List Cell) (record : Record) (column : Column) : Prop :=
  (nextValue record column).sameTyped (previousValue v.columns row column) = false

/-- A request carries the edited cell. -/
def Carries (e : Nat × Record) (column : Column) (r : RowRequest) : Prop :=
  r.entry = .edited e.1 ∧ r.mutation.values.lookup column.name = some (nextValue e.2 column)

/-- Every cell that differs is carried by a request, and a draft is dirty when a request is sent. -/
def SendsEdits (v : TableView) : Prop :=
  (∀ e ∈ v.draftState.edited, ∀ row, v.rows[e.1]? = some row → ∀ column ∈ v.columns,
    v.Differs row e.2 column → ∃ r ∈ v.issued, Carries e column r) ∧
  (v.dirty = true ↔ v.issued ≠ [])

/-- Some cell of an edited row that is shown differs. -/
def HasDifference (v : TableView) : Prop :=
  ∃ e ∈ v.draftState.edited, ∃ row, v.rows[e.1]? = some row ∧ ∃ column ∈ v.columns,
    v.Differs row e.2 column

/-- The column can be updated, and the new value has another text than the old one. -/
def Sendable (v : TableView) (row : List Cell) (record : Record) (column : Column) : Prop :=
  column.name ∉ v.uniqueKey ∧ column.name ≠ prototypeName ∧
    (nextValue record column).text ≠ (previousValue v.columns row column).text

def Shown (v : TableView) (index : Nat) : Prop := index < v.rows.length

/-- The drafts of an editable table that are sent whole. -/
structure Reaches (v : TableView) : Prop where
  cells : ∀ e ∈ v.draftState.edited, ∀ row, v.rows[e.1]? = some row → ∀ column ∈ v.columns,
    v.Differs row e.2 column → v.Sendable row e.2 column
  behind_deletions : v.HasDifference → ∀ index ∈ v.draftState.deletedRowIndexes, v.Shown index
  first_deletion : ∀ index ∈ v.draftState.deletedRowIndexes.head?, v.Shown index
  insertions : v.draftState.deletedRowIndexes = [] → v.draftState.newRows ≠ [] → ¬v.HasDifference →
    ∀ e ∈ v.draftState.edited, v.Shown e.1

/-- A draft that changes nothing. -/
def ChangesNothing (v : TableView) : Prop :=
  ¬v.HasDifference ∧ v.draftState.deletedRowIndexes = [] ∧ v.draftState.newRows = []

end TableView

/-! ## The steps -/

theorem mem_beforeThrow {r : RowRequest} {steps : List (Option RowRequest)} :
    r ∈ beforeThrow steps ↔ ∃ before after, steps = before ++ some r :: after ∧ none ∉ before := by
  induction steps with
  | nil =>
    refine iff_of_false List.not_mem_nil ?_
    rintro ⟨before, after, heq, -⟩
    cases before <;> cases heq
  | cons step rest ih =>
    cases step with
    | none =>
      refine iff_of_false List.not_mem_nil ?_
      rintro ⟨before, after, heq, hnone⟩
      cases before with
      | nil => cases heq
      | cons b before =>
        injection heq with hb
        exact hnone (hb ▸ List.mem_cons_self)
    | some q =>
      show r ∈ q :: beforeThrow rest ↔ _
      rw [List.mem_cons, ih]
      constructor
      · rintro (rfl | ⟨before, after, rfl, hnone⟩)
        · exact ⟨[], rest, rfl, List.not_mem_nil⟩
        · exact ⟨some q :: before, after, rfl, by simpa using hnone⟩
      · rintro ⟨before, after, heq, hnone⟩
        cases before with
        | nil =>
          injection heq with hq
          exact Or.inl (Option.some.inj hq).symm
        | cons b before =>
          injection heq with hq hrest
          exact Or.inr ⟨before, after, hrest, fun h => hnone (List.mem_cons_of_mem b h)⟩

theorem beforeThrow_ne_nil {steps : List (Option RowRequest)} :
    beforeThrow steps ≠ [] ↔ ∃ r after, steps = some r :: after := by
  cases steps with
  | nil => simp [beforeThrow]
  | cons step rest =>
    cases step with
    | none => simp [beforeThrow]
    | some r => simp [beforeThrow]

/-- A request behind a list of other steps is sent only when none of them throws. -/
theorem none_not_mem_of_behind {r : RowRequest} {front rest : List (Option RowRequest)}
    (hfront : some r ∉ front) (hmem : r ∈ beforeThrow (front ++ rest)) : none ∉ front := by
  obtain ⟨before, after, heq, hnone⟩ := mem_beforeThrow.1 hmem
  rcases List.append_eq_append_iff.1 heq with ⟨c, rfl, -⟩ | ⟨c, hc, hrest⟩
  · exact fun h => hnone (List.mem_append_left c h)
  · cases c with
    | nil =>
      rw [hc, List.append_nil]
      exact hnone
    | cons x c =>
      injection hrest with hx
      exact absurd (hc ▸ List.mem_append_right before (hx ▸ List.mem_cons_self)) hfront

namespace TableView

open ShownTable

variable {v : TableView}

theorem dirty_iff : v.dirty = true ↔
    v.draftState.deletedRowIndexes ≠ [] ∨ v.draftState.newRows ≠ [] ∨
      ∃ e ∈ v.draftState.edited, keepsRow v.columns v.rows e = true := by
  unfold dirty draftState
  cases v.draft with
  | none =>
    refine iff_of_false Bool.false_ne_true ?_
    rintro (h | h | ⟨e, he, -⟩)
    · exact h rfl
    · exact h rfl
    · cases mem_edited.1 he
  | some draft => exact isSome_compactDraft

theorem isChanged_iff {row : List Cell} {record : Record} {column : Column} {uniqueKey : List Text} :
    isChanged v.columns row record uniqueKey column = true ↔
      column.name ∉ uniqueKey ∧ v.Differs row record column ∧
        (nextValue record column).text ≠ (previousValue v.columns row column).text := by
  unfold isChanged Differs
  rw [valuesEqual_eq, Bool.and_eq_true, Bool.not_eq_true', Bool.not_eq_true', Bool.or_eq_false_iff,
    beq_eq_false_iff_ne, List.contains_eq_mem, decide_eq_false_iff_not]

/-- A cell that can be sent is among the changes of its row. -/
theorem changed_of_sendable {row : List Cell} {record : Record} {column : Column}
    (hdiffers : v.Differs row record column) (hsendable : v.Sendable row record column) :
    isChanged v.columns row record v.uniqueKey column = true :=
  isChanged_iff.2 ⟨hsendable.1, hdiffers, hsendable.2.2⟩

/-- A row with a change that the dirty check sees has a cell that differs. -/
theorem hasDifference_of_keepsRow {e : Nat × Record} (he : e ∈ v.draftState.edited)
    (hkeeps : keepsRow v.columns v.rows e = true) : v.HasDifference := by
  obtain ⟨row, hrow, hsome⟩ := keepsRow_iff.1 hkeeps
  obtain ⟨column, hmem, -, hchanged⟩ := isSome_buildRowUpdate.1 hsome
  exact ⟨e, he, row, hrow, column, hmem, (isChanged_iff.1 hchanged).2.1⟩

theorem keepsRow_of_sendable {e : Nat × Record} {row : List Cell} (hrow : v.rows[e.1]? = some row)
    {column : Column} (hmem : column ∈ v.columns) (hdiffers : v.Differs row e.2 column)
    (hsendable : v.Sendable row e.2 column) : keepsRow v.columns v.rows e = true :=
  keepsRow_iff.2 ⟨row, hrow, isSome_buildRowUpdate.2
    ⟨column, hmem, hsendable.2.1, isChanged_iff.2 ⟨List.not_mem_nil, hdiffers, hsendable.2.2⟩⟩⟩

/-! ## Which steps throw -/

theorem none_mem_deletions : none ∉ v.draftState.deletedRowIndexes.map v.deletion ↔
    ∀ index ∈ v.draftState.deletedRowIndexes, v.Shown index := by
  rw [List.mem_map]
  constructor
  · intro h index hmem
    by_contra hshown
    exact h ⟨index, hmem, by rw [deletion, List.getElem?_eq_none (Nat.not_lt.1 hshown)]; rfl⟩
  · rintro h ⟨index, hmem, hnone⟩
    rw [deletion, List.getElem?_eq_getElem (h index hmem)] at hnone
    cases hnone

theorem none_not_mem_update {e : Nat × Record} (hshown : v.Shown e.1) : none ∉ v.update e := by
  unfold update
  rw [List.getElem?_eq_getElem hshown]
  dsimp only
  split <;> simp

theorem update_eq {e : Nat × Record} {row : List Cell} (hrow : v.rows[e.1]? = some row)
    {payload : RowUpdate} (hpayload : buildRowUpdate v.columns row e.2 v.uniqueKey = some payload) :
    v.update e = [some ⟨.edited e.1, .update, ⟨v.schema, v.table, payload.values, payload.key⟩⟩] := by
  unfold update
  rw [hrow]
  dsimp only
  rw [hpayload]

theorem mem_update {e : Nat × Record} {r : RowRequest} (hmem : some r ∈ v.update e) :
    ∃ row payload, v.rows[e.1]? = some row ∧
      buildRowUpdate v.columns row e.2 v.uniqueKey = some payload ∧
      r = ⟨.edited e.1, .update, ⟨v.schema, v.table, payload.values, payload.key⟩⟩ := by
  unfold update at hmem
  split at hmem
  · simp at hmem
  · rename_i row hrow
    split at hmem
    · cases hmem
    · rename_i payload hpayload
      exact ⟨row, payload, hrow, hpayload, Option.some.inj (List.mem_singleton.1 hmem)⟩

theorem entry_of_deletion {index : Nat} {r : RowRequest} (h : v.deletion index = some r) :
    r.entry = .deleted index := by
  obtain ⟨row, -, rfl⟩ := Option.map_eq_some_iff.1 h
  rfl

theorem edited_not_mem_deletions {r : RowRequest} {index : Nat} (hentry : r.entry = .edited index) :
    some r ∉ v.draftState.deletedRowIndexes.map v.deletion := by
  rw [List.mem_map]
  rintro ⟨i, -, hdeletion⟩
  rw [entry_of_deletion hdeletion] at hentry
  cases hentry

theorem edited_not_mem_insertions {r : RowRequest} {index : Nat} (hentry : r.entry = .edited index) :
    some r ∉ v.draftState.newRows.mapIdx v.insertion := by
  rw [List.mem_mapIdx]
  rintro ⟨i, hi, hinsertion⟩
  cases hinsertion
  cases hentry

/-! ## Edited cells and requests -/

/-- The request of an edited row is sent when nothing before it throws: the edited rows before it come
earlier in the page, and so they are shown. -/
theorem request_issued (heditable : v.editable = true) (hdirty : v.dirty = true)
    (hdeleted : ∀ index ∈ v.draftState.deletedRowIndexes, v.Shown index) {e : Nat × Record}
    (he : e ∈ v.draftState.edited) {row : List Cell} (hrow : v.rows[e.1]? = some row) {payload : RowUpdate}
    (hpayload : buildRowUpdate v.columns row e.2 v.uniqueKey = some payload) :
    ⟨.edited e.1, .update, ⟨v.schema, v.table, payload.values, payload.key⟩⟩ ∈ v.issued := by
  obtain ⟨front, back, hsplit⟩ := List.append_of_mem he
  have hbefore : ∀ e' ∈ front, v.Shown e'.1 := by
    intro e' he'
    have hsorted := edited_sorted v.draftState
    rw [hsplit, List.pairwise_append] at hsorted
    have hshown : e.1 < v.rows.length := (List.getElem?_eq_some_iff.1 hrow).1
    exact Nat.lt_of_le_of_lt (hsorted.2.2 e' he' e List.mem_cons_self) hshown
  rw [issued, heditable, hdirty, Bool.and_self, if_pos rfl, mem_beforeThrow]
  refine ⟨v.draftState.deletedRowIndexes.map v.deletion ++ front.flatMap v.update,
    back.flatMap v.update ++ v.draftState.newRows.mapIdx v.insertion, ?_, ?_⟩
  · unfold draftSteps
    rw [hsplit, List.flatMap_append, List.flatMap_cons, update_eq hrow hpayload]
    simp only [List.append_assoc, List.cons_append, List.nil_append]
  · rw [List.mem_append, not_or, List.mem_flatMap]
    refine ⟨none_mem_deletions.2 hdeleted, ?_⟩
    rintro ⟨e', he', hnone⟩
    exact none_not_mem_update (hbefore e' he') hnone

/-- A request that carries a cell is the one of its row. -/
theorem carried {e : Nat × Record} (he : e ∈ v.draftState.edited) {row : List Cell}
    (hrow : v.rows[e.1]? = some row) {column : Column} (hmem : column ∈ v.columns) {r : RowRequest}
    (hr : r ∈ v.issued) (hcarries : Carries e column r) :
    v.Sendable row e.2 column ∧ ∀ index ∈ v.draftState.deletedRowIndexes, v.Shown index := by
  unfold issued at hr
  split at hr
  swap
  · cases hr
  have hdeletions := none_not_mem_of_behind (edited_not_mem_deletions hcarries.1) hr
  refine ⟨?_, none_mem_deletions.1 hdeletions⟩
  obtain ⟨before, after, hsteps, -⟩ := mem_beforeThrow.1 hr
  have hin : some r ∈ v.draftSteps := hsteps ▸ List.mem_append_right before List.mem_cons_self
  rw [draftSteps, List.mem_append, List.mem_append] at hin
  have hupdate := (hin.resolve_left (edited_not_mem_deletions hcarries.1)).resolve_right
    (edited_not_mem_insertions hcarries.1)
  obtain ⟨e', he', hupdate⟩ := List.mem_flatMap.1 hupdate
  obtain ⟨row', payload, hrow', hpayload, rfl⟩ := mem_update hupdate
  obtain rfl : e' = e := edited_unique he' he (DraftEntry.edited.inj hcarries.1)
  rw [hrow] at hrow'
  cases hrow'
  obtain ⟨-, rfl⟩ := buildRowUpdate_eq_some.1 hpayload
  have hkeys : column.name ∈ (rowChanges v.columns row e'.2 v.uniqueKey).keys := by
    rw [← AList.mem_keys, ← AList.lookup_isSome, hcarries.2]
    rfl
  obtain ⟨column', hmem', hname, hproto, hchanged⟩ := mem_rowChanges.1 hkeys
  obtain rfl := eq_of_name v.distinct hmem' hmem hname
  obtain ⟨hkey, -, htext⟩ := isChanged_iff.1 hchanged
  exact ⟨hkey, hproto, htext⟩

/-- Without a difference no edited row sends a request. -/
theorem eq_none_of_no_difference (hnone : ¬v.HasDifference) {e : Nat × Record}
    (he : e ∈ v.draftState.edited) {step : Option RowRequest} (hstep : step ∈ v.update e) : step = none := by
  cases step with
  | none => rfl
  | some r =>
    obtain ⟨row, payload, hrow, hpayload, -⟩ := mem_update hstep
    obtain ⟨column, hmem, -, hchanged⟩ := isSome_buildRowUpdate.1 (Option.isSome_of_eq_some hpayload)
    exact absurd ⟨e, he, row, hrow, column, hmem, (isChanged_iff.1 hchanged).2.1⟩ hnone

theorem update_of_missing {e : Nat × Record} (hmissing : ¬v.Shown e.1) : v.update e = [none] := by
  unfold update
  rw [List.getElem?_eq_none (Nat.not_lt.1 hmissing)]

/-- With nothing deleted and no difference the insertions are reached when each edited row is shown. -/
theorem insertions_reached (hdeleted : v.draftState.deletedRowIndexes = []) (hnone : ¬v.HasDifference)
    (hnew : v.draftState.newRows ≠ []) :
    beforeThrow v.draftSteps ≠ [] ↔ ∀ e ∈ v.draftState.edited, v.Shown e.1 := by
  have hsteps : v.draftSteps =
      v.draftState.edited.flatMap v.update ++ v.draftState.newRows.mapIdx v.insertion := by
    rw [draftSteps, hdeleted, List.map_nil, List.nil_append]
  rw [beforeThrow_ne_nil, hsteps]
  constructor
  · rintro ⟨r, after, heq⟩ e he
    by_contra hmissing
    have hin : none ∈ v.draftState.edited.flatMap v.update :=
      List.mem_flatMap.2 ⟨e, he, by rw [update_of_missing hmissing]; exact List.mem_cons_self⟩
    obtain ⟨step, rest, hcons⟩ := List.exists_cons_of_ne_nil (List.ne_nil_of_mem hin)
    -- the first step belongs to an edited row, and so it throws
    obtain ⟨e', he', hstep⟩ := List.mem_flatMap.1 (hcons ▸ List.mem_cons_self)
    rw [hcons, eq_none_of_no_difference hnone he' hstep] at heq
    cases heq
  · intro hshown
    have hnil : v.draftState.edited.flatMap v.update = [] := by
      rw [List.eq_nil_iff_forall_not_mem]
      intro step hmem
      obtain ⟨e, he, hstep⟩ := List.mem_flatMap.1 hmem
      rw [eq_none_of_no_difference hnone he hstep] at hstep
      exact none_not_mem_update (hshown e he) hstep
    obtain ⟨newRow, more, hmore⟩ := List.exists_cons_of_ne_nil hnew
    rw [hnil, List.nil_append, hmore, List.mapIdx_cons]
    exact ⟨_, _, rfl⟩

theorem first_deletion_reached {index : Nat} {rest : List Nat}
    (hdeleted : v.draftState.deletedRowIndexes = index :: rest) :
    beforeThrow v.draftSteps ≠ [] ↔ v.Shown index := by
  have hsteps : ∃ more, v.draftSteps = v.deletion index :: more := by
    rw [draftSteps, hdeleted]
    exact ⟨_, rfl⟩
  obtain ⟨more, hmore⟩ := hsteps
  rw [beforeThrow_ne_nil, hmore]
  constructor
  · rintro ⟨r, after, heq⟩
    obtain ⟨hhead, -⟩ := List.cons.inj heq
    obtain ⟨row, hrow, -⟩ := Option.map_eq_some_iff.1 hhead
    exact (List.getElem?_eq_some_iff.1 hrow).1
  · intro hshown
    obtain ⟨r, hr⟩ : ∃ r, v.deletion index = some r := by
      rw [deletion, List.getElem?_eq_getElem hshown]
      exact ⟨_, rfl⟩
    exact ⟨r, more, by rw [hr]⟩

theorem issued_of_editable (heditable : v.editable = true) (hdirty : v.dirty = true) :
    v.issued = beforeThrow v.draftSteps := by
  rw [issued, heditable, hdirty, Bool.and_self, if_pos rfl]

theorem dirty_of_issued (h : v.issued ≠ []) : v.dirty = true := by
  unfold issued at h
  split at h
  · rename_i hboth
    exact (Bool.and_eq_true_iff.1 hboth).2
  · exact absurd rfl h

theorem reaches_of_sendsEdits (heditable : v.editable = true) (hsends : v.SendsEdits) : v.Reaches := by
  obtain ⟨hcells, hdirty⟩ := hsends
  constructor
  · intro e he row hrow column hmem hdiffers
    obtain ⟨r, hr, hcarries⟩ := hcells e he row hrow column hmem hdiffers
    exact (carried he hrow hmem hr hcarries).1
  · rintro ⟨e, he, row, hrow, column, hmem, hdiffers⟩
    obtain ⟨r, hr, hcarries⟩ := hcells e he row hrow column hmem hdiffers
    exact (carried he hrow hmem hr hcarries).2
  · intro index hindex
    obtain ⟨rest, hdeleted⟩ := List.head?_eq_some_iff.1 hindex
    have hd : v.dirty = true := dirty_iff.2 (Or.inl (by rw [hdeleted]; exact List.cons_ne_nil _ _))
    have hissued := hdirty.1 hd
    rw [issued_of_editable heditable hd] at hissued
    exact (first_deletion_reached hdeleted).1 hissued
  · intro hdeleted hnew hnone
    have hd : v.dirty = true := dirty_iff.2 (Or.inr (Or.inl hnew))
    have hissued := hdirty.1 hd
    rw [issued_of_editable heditable hd] at hissued
    exact (insertions_reached hdeleted hnone hnew).1 hissued

/-- A difference in a draft that reaches the server is sent. -/
theorem carried_of_reaches (heditable : v.editable = true) (hreaches : v.Reaches) {e : Nat × Record}
    (he : e ∈ v.draftState.edited) {row : List Cell} (hrow : v.rows[e.1]? = some row) {column : Column}
    (hmem : column ∈ v.columns) (hdiffers : v.Differs row e.2 column) :
    ∃ r ∈ v.issued, Carries e column r := by
  have hsendable := hreaches.cells e he row hrow column hmem hdiffers
  have hchanged := changed_of_sendable hdiffers hsendable
  have hdirty : v.dirty = true :=
    dirty_iff.2 (Or.inr (Or.inr ⟨e, he, keepsRow_of_sendable hrow hmem hdiffers hsendable⟩))
  have hdeleted := hreaches.behind_deletions ⟨e, he, row, hrow, column, hmem, hdiffers⟩
  obtain ⟨payload, hpayload⟩ := Option.isSome_iff_exists.1
    (isSome_buildRowUpdate.2 ⟨column, hmem, hsendable.2.1, hchanged⟩)
  obtain ⟨-, rfl⟩ := buildRowUpdate_eq_some.1 hpayload
  exact ⟨_, request_issued heditable hdirty hdeleted he hrow hpayload, rfl,
    lookup_rowChanges v.distinct hmem hsendable.2.1 hchanged⟩

theorem sendsEdits_of_reaches (heditable : v.editable = true) (hreaches : v.Reaches) : v.SendsEdits := by
  refine ⟨fun e he row hrow column hmem => carried_of_reaches heditable hreaches he hrow hmem, ?_,
    dirty_of_issued⟩
  intro hdirty
  by_cases hdiff : v.HasDifference
  · obtain ⟨e, he, row, hrow, column, hmem, hdiffers⟩ := hdiff
    obtain ⟨r, hr, -⟩ := carried_of_reaches heditable hreaches he hrow hmem hdiffers
    exact List.ne_nil_of_mem hr
  rw [issued_of_editable heditable hdirty]
  cases hdeleted : v.draftState.deletedRowIndexes with
  | cons index rest =>
    apply (first_deletion_reached hdeleted).2
    exact hreaches.first_deletion index (by rw [hdeleted]; rfl)
  | nil =>
    have hnew : v.draftState.newRows ≠ [] := by
      rcases dirty_iff.1 hdirty with h | h | ⟨e, he, hkeeps⟩
      · exact absurd hdeleted h
      · exact h
      · exact absurd (hasDifference_of_keepsRow he hkeeps) hdiff
    exact (insertions_reached hdeleted hdiff hnew).2 (hreaches.insertions hdeleted hnew hdiff)

theorem sendsEdits_iff_of_not_editable (heditable : v.editable = false) :
    v.SendsEdits ↔ v.ChangesNothing := by
  have hissued : v.issued = [] := by
    rw [issued, heditable, Bool.false_and, if_neg Bool.false_ne_true]
  unfold SendsEdits
  rw [hissued]
  constructor
  · rintro ⟨hcells, hdirty⟩
    refine ⟨?_, ?_, ?_⟩
    · rintro ⟨e, he, row, hrow, column, hmem, hdiffers⟩
      obtain ⟨r, hr, -⟩ := hcells e he row hrow column hmem hdiffers
      cases hr
    · by_contra hdeleted
      exact hdirty.1 (dirty_iff.2 (Or.inl hdeleted)) rfl
    · by_contra hnew
      exact hdirty.1 (dirty_iff.2 (Or.inr (Or.inl hnew))) rfl
  · rintro ⟨hnone, hdeleted, hnew⟩
    refine ⟨fun e he row hrow column hmem hdiffers =>
      absurd ⟨e, he, row, hrow, column, hmem, hdiffers⟩ hnone, ?_, fun h => absurd rfl h⟩
    intro hdirty
    rcases dirty_iff.1 hdirty with h | h | ⟨e, he, hkeeps⟩
    · exact absurd hdeleted h
    · exact absurd hnew h
    · exact absurd (hasDifference_of_keepsRow he hkeeps) hnone

/-- Every edit is sent exactly for the drafts of an editable table whose steps reach the server. -/
theorem sendsEdits_iff (v : TableView) :
    v.SendsEdits ↔ (v.editable = true ∧ v.Reaches) ∨ (v.editable = false ∧ v.ChangesNothing) := by
  cases heditable : v.editable with
  | true =>
    refine ⟨fun h => Or.inl ⟨rfl, reaches_of_sendsEdits heditable h⟩, ?_⟩
    rintro (⟨-, hreaches⟩ | ⟨h, -⟩)
    · exact sendsEdits_of_reaches heditable hreaches
    · cases h
  | false =>
    rw [sendsEdits_iff_of_not_editable heditable]
    refine ⟨fun h => Or.inr ⟨rfl, h⟩, ?_⟩
    rintro (⟨h, -⟩ | ⟨-, hnothing⟩)
    · cases h
    · exact hnothing

/-- The one row with another key in its record. -/
def otherKey : Record := override (rowToRecord people (ada "pilot".toList)) [("id".toList, .string "a2".toList)]

/-- A page of one row, with a record for it in the draft. -/
def onePage (record : Record) : TableView where
  schema := "public".toList
  table := "people".toList
  columns := people
  rows := [ada "pilot".toList]
  uniqueKey := ["id".toList]
  draft := some ⟨(∅ : Lib.Table Nat Record).insert 0 record, [], []⟩
  distinct := people_distinct

/-- The edit of a key is sent by no request. -/
theorem key_edit_is_dropped : ¬(onePage otherKey).SendsEdits := by
  intro hsends
  have hedited : (0, otherKey) ∈ (onePage otherKey).draftState.edited :=
    mem_edited.2 (AList.lookup_insert _)
  have hsendable := (reaches_of_sendsEdits (by decide) hsends).cells (0, otherKey) hedited
    (ada "pilot".toList) rfl ⟨"id".toList, some "bigint".toList⟩ List.mem_cons_self
  have hdiffers : (onePage otherKey).Differs (ada "pilot".toList) otherKey
      ⟨"id".toList, some "bigint".toList⟩ := by
    unfold Differs
    decide
  exact (hsendable hdiffers).1 (List.mem_singleton_self _)

end TableView

end Workbench.Table
