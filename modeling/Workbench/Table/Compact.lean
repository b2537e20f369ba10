import Workbench.Table.Apply

/-!
# Compacting a draft

`compactDraft` drops the edited rows without a change. It decides so with an empty key, and `applyDraft` with the key
of the table: a row that is dropped has no change outside any key, and so applying passes it over as well. What is
sent from the compacted draft is what is sent from the draft itself (`compactDraft_preserves`).
-/

set_option autoImplicit false

namespace Workbench.Table

open Workbench.Lib

variable {columns : List Column} {rows : List (List Cell)}

/-! ## The rows that are kept -/

theorem edited_nodup (draft : TableDraft) : (draft.edited.map Prod.fst).Nodup := by
  have hkeys : (draft.editedRows.entries.map fun e => (e.1, e.2)).map Prod.fst = draft.editedRows.keys := by
    rw [List.map_map]
    rfl
  have hperm : (draft.edited.map Prod.fst).Perm draft.editedRows.keys := by
    rw [← hkeys]
    exact (List.mergeSort_perm _ _).map Prod.fst
  exact hperm.nodup_iff.2 draft.editedRows.nodupKeys

theorem lookup_effectiveRows {draft : TableDraft} {e : Nat × Record} :
    (effectiveRows columns rows draft).lookup e.1 = some e.2 ↔
      e ∈ draft.edited ∧ keepsRow columns rows e = true := by
  rw [effectiveRows_eq]
  constructor
  · intro hlookup
    have hmem : e.1 ∈ (Lib.Table.fill (keepsRow columns rows) Prod.fst Prod.snd draft.edited ∅).keys := by
      rw [← AList.mem_keys, ← AList.lookup_isSome, hlookup]
      rfl
    obtain ⟨e', he', hkeeps, hindex⟩ := Lib.Table.mem_keys_fill_empty.1 hmem
    have hvalue : (Lib.Table.fill (keepsRow columns rows) Prod.fst Prod.snd draft.edited ∅).lookup e'.1 =
        some e'.2 := Lib.Table.lookup_fill (edited_nodup draft) he' hkeeps ∅
    rw [hindex, hlookup] at hvalue
    obtain rfl : e' = e := Prod.ext hindex (Option.some.inj hvalue).symm
    exact ⟨he', hkeeps⟩
  · rintro ⟨he, hkeeps⟩
    exact Lib.Table.lookup_fill (edited_nodup draft) he hkeeps ∅

/-- The compacted draft, unless nothing is left of it. -/
def compacted (columns : List Column) (rows : List (List Cell)) (draft : TableDraft) : TableDraft :=
  ⟨effectiveRows columns rows draft, draft.newRows, draft.deletedRowIndexes⟩

theorem nodup_of_nodup_indexes {entries : List (Nat × Record)} (h : (entries.map Prod.fst).Nodup) :
    entries.Nodup := List.Nodup.of_map Prod.fst h

/-- The entries of the compacted draft are those of the draft that are kept, in their order. -/
theorem edited_compacted (draft : TableDraft) :
    (compacted columns rows draft).edited = draft.edited.filter (keepsRow columns rows) := by
  have hmem : ∀ e, e ∈ (compacted columns rows draft).edited ↔ e ∈ draft.edited.filter (keepsRow columns rows) := by
    intro e
    rw [mem_edited, List.mem_filter]
    exact lookup_effectiveRows
  have hperm : (compacted columns rows draft).edited.Perm (draft.edited.filter (keepsRow columns rows)) :=
    (List.perm_ext_iff_of_nodup (nodup_of_nodup_indexes (edited_nodup _))
      ((nodup_of_nodup_indexes (edited_nodup _)).filter _)).2 hmem
  -- both lists are sorted by the index, which tells the entries apart
  refine hperm.eq_of_pairwise (fun a b ha hb hab hba => ?_) (edited_sorted _) ((edited_sorted draft).filter _)
  exact edited_unique ha ((hmem b).2 hb) (Nat.le_antisymm hab hba)

theorem fill_filter (selected : Nat × Record → Bool) (entries : List (Nat × Record)) (t : Lib.Table Nat Record) :
    Lib.Table.fill selected Prod.fst Prod.snd (entries.filter selected) t =
      Lib.Table.fill selected Prod.fst Prod.snd entries t := by
  induction entries generalizing t with
  | nil => rfl
  | cons e rest ih =>
    rw [List.filter_cons]
    split
    · exact ih _
    · rename_i hdropped
      rw [ih]
      show _ = Lib.Table.fill selected Prod.fst Prod.snd rest (if selected e then t.insert e.1 e.2 else t)
      rw [if_neg hdropped]

theorem compacted_compacted (draft : TableDraft) :
    compacted columns rows (compacted columns rows draft) = compacted columns rows draft := by
  have hrows : effectiveRows columns rows (compacted columns rows draft) = effectiveRows columns rows draft := by
    rw [effectiveRows_eq, effectiveRows_eq, edited_compacted, fill_filter]
  rw [compacted, hrows]
  rfl

/-- Nothing is left of a draft. -/
def TableDraft.isBlank (draft : TableDraft) : Prop :=
  draft.deletedRowIndexes = [] ∧ draft.newRows = [] ∧ draft.editedRows.keys = []

theorem compactDraft_of_blank {draft : TableDraft} (h : (compacted columns rows draft).isBlank) :
    compactDraft columns rows draft = none := if_pos h

theorem compactDraft_of_not_blank {draft : TableDraft} (h : ¬(compacted columns rows draft).isBlank) :
    compactDraft columns rows draft = some (compacted columns rows draft) := if_neg h

theorem compactDraft_idempotent (draft : TableDraft) :
    (compactDraft columns rows draft).bind (compactDraft columns rows) = compactDraft columns rows draft := by
  by_cases hblank : (compacted columns rows draft).isBlank
  · rw [compactDraft_of_blank hblank]
    rfl
  · have hagain : ¬(compacted columns rows (compacted columns rows draft)).isBlank := by
      rw [compacted_compacted]
      exact hblank
    rw [compactDraft_of_not_blank hblank, Option.bind_some, compactDraft_of_not_blank hagain, compacted_compacted]

/-! ## What is sent -/

/-- A change outside the key is one outside the empty key. -/
theorem isChanged_nil {row : List Cell} {record : Record} {uniqueKey : List Text} {column : Column}
    (h : isChanged columns row record uniqueKey column = true) :
    isChanged columns row record [] column = true := by
  unfold isChanged at h ⊢
  rw [Bool.and_eq_true] at h
  rw [Bool.and_eq_true]
  exact ⟨rfl, h.2⟩

theorem buildRowUpdate_nil {row : List Cell} {record : Record} {uniqueKey : List Text}
    (h : (buildRowUpdate columns row record uniqueKey).isSome = true) :
    (buildRowUpdate columns row record []).isSome = true := by
  obtain ⟨column, hmem, hproto, hchanged⟩ := isSome_buildRowUpdate.1 h
  exact isSome_buildRowUpdate.2 ⟨column, hmem, hproto, isChanged_nil hchanged⟩

namespace ShownTable

variable {v : ShownTable}

def withDraft (v : ShownTable) (draft : Option TableDraft) : ShownTable := { v with draft := draft }

/-- A row that is dropped sends nothing, whatever the key is. -/
theorem update_of_dropped {e : Nat × Record} (hshown : e.1 < v.rows.length)
    (hdropped : keepsRow v.columns v.rows e = false) : v.update e = [] := by
  have hrow : v.rows[e.1]? = some v.rows[e.1] := List.getElem?_eq_getElem hshown
  have hnone : buildRowUpdate v.columns v.rows[e.1] e.2 v.uniqueKey = none := by
    rw [← Option.not_isSome_iff_eq_none]
    intro hsome
    have hkeeps : keepsRow v.columns v.rows e = true := keepsRow_iff.2 ⟨_, hrow, buildRowUpdate_nil hsome⟩
    rw [hdropped] at hkeeps
    cases hkeeps
  unfold update
  rw [hrow]
  dsimp only
  rw [hnone]

theorem flatMap_update_filter {entries : List (Nat × Record)} (hrange : ∀ e ∈ entries, e.1 < v.rows.length) :
    (entries.filter (keepsRow v.columns v.rows)).flatMap v.update = entries.flatMap v.update := by
  induction entries with
  | nil => rfl
  | cons e rest ih =>
    have hrest := ih fun e' he' => hrange e' (List.mem_cons_of_mem e he')
    rw [List.filter_cons, List.flatMap_cons]
    split
    · rw [List.flatMap_cons, hrest]
    · rename_i hdropped
      rw [update_of_dropped (hrange e List.mem_cons_self) (Bool.eq_false_iff.2 hdropped), List.nil_append, hrest]

/-- The steps of the loops are the same ones. -/
theorem draftSteps_compacted {draft : TableDraft} (hrange : ∀ e ∈ draft.edited, e.1 < v.rows.length) :
    (v.withDraft (some (compacted v.columns v.rows draft))).draftSteps = (v.withDraft (some draft)).draftSteps := by
  have hedited : (compacted v.columns v.rows draft).edited.flatMap v.update = draft.edited.flatMap v.update := by
    rw [edited_compacted]
    exact flatMap_update_filter hrange
  show draft.deletedRowIndexes.map v.deletion ++
      ((compacted v.columns v.rows draft).edited.flatMap v.update ++ draft.newRows.mapIdx v.insertion) = _
  rw [hedited]
  rfl

theorem issued_withDraft (draft : TableDraft) :
    (v.withDraft (some draft)).issued =
      if v.editable && (compactDraft v.columns v.rows draft).isSome then (v.withDraft (some draft)).draftSteps |>
        beforeThrow else [] := rfl

/-- **The compacted draft sends what the draft sends, and nothing when nothing is left of it; compacting it again
changes nothing.** -/
theorem compactDraft_preserves (v : ShownTable) (draft : TableDraft)
    (hrange : ∀ e ∈ draft.edited, e.1 < v.rows.length) :
    (v.withDraft (compactDraft v.columns v.rows draft)).issued = (v.withDraft (some draft)).issued ∧
      (compactDraft v.columns v.rows draft = none → (v.withDraft (some draft)).issued = []) ∧
      (compactDraft v.columns v.rows draft).bind (compactDraft v.columns v.rows) =
        compactDraft v.columns v.rows draft := by
  have hnull : ∀ w : ShownTable, (w.withDraft none).issued = [] := by
    intro w
    show (if w.editable && false then _ else []) = []
    rw [Bool.and_false, if_neg Bool.false_ne_true]
  have hidem : (compactDraft v.columns v.rows draft).bind (compactDraft v.columns v.rows) =
      compactDraft v.columns v.rows draft := compactDraft_idempotent draft
  by_cases hblank : (compacted v.columns v.rows draft).isBlank
  · have hnone := compactDraft_of_blank hblank
    have hissued : (v.withDraft (some draft)).issued = [] := by
      rw [issued_withDraft, hnone, Option.isSome_none, Bool.and_false, if_neg Bool.false_ne_true]
    refine ⟨?_, fun _ => hissued, hidem⟩
    rw [hnone, hissued]
    exact hnull v
  · have hsome := compactDraft_of_not_blank hblank
    refine ⟨?_, fun hnone => absurd (hsome.symm.trans hnone) (by simp), hidem⟩
    rw [hsome, Option.bind_some] at hidem
    rw [hsome, issued_withDraft, issued_withDraft, hidem, hsome, draftSteps_compacted hrange]

/-- A draft in which the key of the one row is edited. -/
def keyDraft : TableDraft := ⟨(∅ : Lib.Table Nat Record).insert 0 TableView.otherKey, [], []⟩

def keyTable : ShownTable := (TableView.onePage TableView.otherKey).toShownTable

theorem compactDraft_preserves_keyDraft :
    (keyTable.withDraft (compactDraft keyTable.columns keyTable.rows keyDraft)).issued =
        (keyTable.withDraft (some keyDraft)).issued ∧
      (compactDraft keyTable.columns keyTable.rows keyDraft = none →
        (keyTable.withDraft (some keyDraft)).issued = []) ∧
      (compactDraft keyTable.columns keyTable.rows keyDraft).bind (compactDraft keyTable.columns keyTable.rows) =
        compactDraft keyTable.columns keyTable.rows keyDraft := by
  refine compactDraft_preserves keyTable keyDraft fun e he => ?_
  rw [mem_edited] at he
  have hindex : e.1 = 0 := by
    by_contra hne
    rw [keyDraft, AList.lookup_insert_ne hne, AList.lookup_empty] at he
    cases he
  rw [hindex]
  exact Nat.one_pos

end ShownTable

end Workbench.Table
