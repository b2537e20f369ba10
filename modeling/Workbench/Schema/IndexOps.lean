import Mathlib.Data.List.Nodup
import Workbench.Lib.Keyed
import Workbench.Schema.Draft

/-!
# Pending index operations

`web/src/features/schema/indexOps.ts`: the list of operations that the index editor keeps until the structure is
saved, and the indexes that it shows for them. `localeCompare` is a parameter: the order of the list is for the eye.

A database drops an index only if there is one of the name, and adds one only if the name is free. `appendAddIndex`
does not look at the indexes of the database, so that the list shows a replacement where the database finds the name
in use (`pending_faithful_iff`).
-/

set_option autoImplicit false

namespace Workbench.Schema

open Workbench.Lib.Keyed

namespace Operation

def addIndex (index : Index) : Operation :=
  { (default : Operation) with kind := OperationKind.addIndex.text, index := index }

def dropIndex (name : Text) : Operation :=
  { (default : Operation) with kind := OperationKind.dropIndex.text, name := name }

/-- `op.kind === 'add_index' && op.index?.name === name`. -/
def addsIndex (name : Text) (op : Operation) : Bool := op.kind = OperationKind.addIndex.text && op.index.name = name

/-- `op.kind === 'drop_index' && op.name === name`. -/
def dropsIndex (name : Text) (op : Operation) : Bool := op.kind = OperationKind.dropIndex.text && op.name = name

/-- The name that an operation on indexes is about. -/
def indexName (op : Operation) : Text := if op.kind = OperationKind.dropIndex.text then op.name else op.index.name

variable (name other : Text) (index : Index)

@[simp] theorem addsIndex_addIndex : addsIndex name (addIndex index) = decide (index.name = name) := rfl

@[simp] theorem addsIndex_dropIndex : addsIndex name (dropIndex other) = false := rfl

@[simp] theorem dropsIndex_addIndex : dropsIndex name (addIndex index) = false := rfl

@[simp] theorem dropsIndex_dropIndex : dropsIndex name (dropIndex other) = decide (other = name) := rfl

@[simp] theorem indexName_addIndex : (addIndex index).indexName = index.name := rfl

@[simp] theorem indexName_dropIndex : (dropIndex name).indexName = name := rfl

end Operation

/-! ## The editor -/

/-- A round of the loop of `resolveIndexes`; the empty name drops nothing. -/
def resolveStep (list : List Index) (op : Operation) : List Index :=
  let list :=
    if op.kind = OperationKind.dropIndex.text ∧ op.name ≠ [] then list.filter fun item => item.name ≠ op.name
    else list
  if op.kind = OperationKind.addIndex.text then (list.filter fun item => item.name ≠ op.index.name) ++ [op.index]
  else list

def resolveIndexes (localeCompare : Text → Text → Int) (base : List Index) (extra : List Operation) : List Index :=
  (extra.foldl resolveStep base).mergeSort fun a b => localeCompare a.name b.name ≤ 0

def appendAddIndex (extra : List Operation) (index : Index) : List Operation :=
  (extra.filter fun op => !op.addsIndex index.name) ++ [.addIndex index]

def replaceIndex (extra : List Operation) (base : List Index) (originalName : Text) (index : Index) :
    List Operation :=
  let next := extra.filter fun op =>
    !op.dropsIndex originalName && !op.addsIndex originalName && !op.addsIndex index.name
  let next :=
    if base.any fun item => item.name = originalName then next ++ [.dropIndex originalName] else next
  next ++ [.addIndex index]

def dropIndexOps (extra : List Operation) (base : List Index) (name : Text) : List Operation :=
  let next := extra.filter fun op => !op.addsIndex name && !op.dropsIndex name
  if base.any fun item => item.name = name then next ++ [.dropIndex name] else next

/-- What the index editor calls. -/
inductive IndexCall where
  | append (index : Index)
  | replace (originalName : Text) (index : Index)
  | drop (name : Text)
  deriving DecidableEq, Repr

def IndexCall.run (base : List Index) (extra : List Operation) : IndexCall → List Operation
  | .append index => appendAddIndex extra index
  | .replace originalName index => replaceIndex extra base originalName index
  | .drop name => dropIndexOps extra base name

/-- The pending operations behind a sequence of calls. -/
def pending (base : List Index) (calls : List IndexCall) : List Operation := calls.foldl (IndexCall.run base) []

/-! ## The database -/

def indexNames (indexes : List Index) : List Text := indexes.map Index.name

@[simp] theorem indexNames_nil : indexNames [] = [] := rfl

@[simp] theorem indexNames_cons (index : Index) (rest : List Index) :
    indexNames (index :: rest) = index.name :: indexNames rest := rfl

/-- One operation on the indexes of a table. -/
def executeKind (op : Operation) (indexes : List Index) : OperationKind → Option (List Index)
  | .addIndex => if op.index.name ∈ indexNames indexes then none else some (indexes ++ [op.index])
  | .dropIndex =>
    if op.name ∈ indexNames indexes then some (indexes.filter fun item => item.name ≠ op.name) else none
  | _ => some indexes

def executeOp (indexes : List Index) (op : Operation) : Option (List Index) :=
  (OperationKind.parse op.kind).bind (executeKind op indexes)

def executeOps (indexes : List Index) (ops : List Operation) : Option (List Index) := ops.foldlM executeOp indexes

/-- The operations can be carried out, and they leave the indexes that the list shows. -/
def Faithful (localeCompare : Text → Text → Int) (base : List Index) (extra : List Operation) : Prop :=
  ∃ done, executeOps base extra = some done ∧ ∀ index, index ∈ done ↔ index ∈ resolveIndexes localeCompare base extra

/-- The calls that keep to the indexes of the database: an index that is added under the name of one of them comes
with its drop, and the empty name, which the list does not drop, is not dropped for good. -/
def Ready (base : List Index) (extra : List Operation) : IndexCall → Prop
  | .append index => index.name ∈ indexNames base → Operation.dropIndex index.name ∈ extra
  | .replace originalName index =>
    (index.name ∈ indexNames base → index.name = originalName ∨ Operation.dropIndex index.name ∈ extra) ∧
      (originalName ∈ indexNames base → originalName = [] → index.name = [])
  | .drop name => ¬(name ∈ indexNames base ∧ name = [])

/-! ## One name at a time -/

theorem mem_indexNames_filter {indexes : List Index} {name : Text} :
    name ∈ indexNames (indexes.filter fun i => i.name = name) ↔ name ∈ indexNames indexes := by
  simp [indexNames]

theorem filter_filter_name (indexes : List Index) {name key : Text} (h : key ≠ name) :
    ((indexes.filter fun item => item.name ≠ name).filter fun i => i.name = key) =
      indexes.filter fun i => i.name = key := by
  rw [List.filter_filter]
  apply List.filter_congr
  intro i _
  by_cases hi : i.name = key
  · simp [hi, h]
  · simp [hi]

theorem filter_name_filter (indexes : List Index) (name : Text) :
    ((indexes.filter fun i => i.name = name).filter fun item => item.name ≠ name) =
      (indexes.filter fun item => item.name ≠ name).filter fun i => i.name = name := by
  rw [List.filter_filter, List.filter_filter]
  apply List.filter_congr
  intro i _
  exact Bool.and_comm _ _

theorem filter_singleton_name {index : Index} {key : Text} (h : key ≠ index.name) :
    ([index].filter fun i => i.name = key) = [] := by
  simp [Ne.symm h]

section

variable {op : Operation} {kind : OperationKind}

theorem kind_of_parse (h : OperationKind.parse op.kind = some kind) : op.kind = kind.text :=
  (of_decide_eq_true (List.find?_some (p := fun k : OperationKind => decide (k.text = op.kind)) h)).symm

theorem indexName_of_addIndex (h : OperationKind.parse op.kind = some .addIndex) : op.indexName = op.index.name := by
  rw [Operation.indexName, kind_of_parse h]
  exact if_neg (by decide)

theorem indexName_of_dropIndex (h : OperationKind.parse op.kind = some .dropIndex) : op.indexName = op.name := by
  rw [Operation.indexName, kind_of_parse h]
  exact if_pos rfl

end

theorem executeOp_local : Local Index.name Operation.indexName executeOp := by
  constructor
  · intro items op
    rw [executeOp, executeOp]
    cases hkind : OperationKind.parse op.kind with
    | none => rfl
    | some kind =>
      rw [Option.bind_some, Option.bind_some]
      cases kind with
      | addIndex =>
        have hname := indexName_of_addIndex hkind
        rw [hname, executeKind, executeKind]
        simp only [mem_indexNames_filter]
        split
        · rfl
        · simp
      | dropIndex =>
        have hname := indexName_of_dropIndex hkind
        rw [hname, executeKind, executeKind]
        simp only [mem_indexNames_filter]
        split
        · rw [filter_name_filter]
          rfl
        · rfl
      | _ => rfl
  · intro items op done h key hkey
    obtain ⟨kind, hkind, hdone⟩ := Option.bind_eq_some_iff.1 h
    cases kind with
    | addIndex =>
      have hname := indexName_of_addIndex hkind
      rw [executeKind] at hdone
      split at hdone
      · cases hdone
      · cases hdone
        rw [List.filter_append, filter_singleton_name (hname ▸ hkey), List.append_nil]
    | dropIndex =>
      have hname := indexName_of_dropIndex hkind
      rw [executeKind] at hdone
      split at hdone
      · cases hdone
        exact filter_filter_name _ (hname ▸ hkey)
      · cases hdone
    | _ =>
      cases hdone
      rfl

theorem mem_resolveIndexes {localeCompare : Text → Text → Int} {base : List Index} {extra : List Operation}
    {index : Index} : index ∈ resolveIndexes localeCompare base extra ↔ index ∈ extra.foldl resolveStep base :=
  List.mem_mergeSort

/-- `resolveStep` as a step that always goes through. -/
def resolveOp (list : List Index) (op : Operation) : Option (List Index) := some (resolveStep list op)

theorem foldlM_resolveOp (extra : List Operation) (list : List Index) :
    extra.foldlM resolveOp list = some (extra.foldl resolveStep list) := by
  induction extra generalizing list with
  | nil => rfl
  | cons op extra ih => exact ih (resolveStep list op)

/-- An operation drops, adds, or is none of the two. -/
theorem resolveStep_cases (op : Operation) :
    (op.indexName = op.name ∧ ∀ list, resolveStep list op = list.filter fun item => item.name ≠ op.name) ∨
      (op.indexName = op.index.name ∧
        ∀ list, resolveStep list op = (list.filter fun item => item.name ≠ op.index.name) ++ [op.index]) ∨
      ∀ list, resolveStep list op = list := by
  have hkinds : OperationKind.dropIndex.text ≠ OperationKind.addIndex.text := by decide
  by_cases hdrop : op.kind = OperationKind.dropIndex.text
  · have hadd : op.kind ≠ OperationKind.addIndex.text := hdrop ▸ hkinds
    by_cases hname : op.name = []
    · refine Or.inr (Or.inr ?_)
      intro list
      simp [resolveStep, hname, hadd]
    · refine Or.inl ⟨if_pos hdrop, ?_⟩
      intro list
      simp [resolveStep, hname, hdrop, hkinds]
  · by_cases hadd : op.kind = OperationKind.addIndex.text
    · refine Or.inr (Or.inl ⟨if_neg hdrop, ?_⟩)
      intro list
      simp [resolveStep, hadd, Ne.symm hkinds]
    · refine Or.inr (Or.inr ?_)
      intro list
      simp [resolveStep, hadd, hdrop]

theorem resolveOp_local : Local Index.name Operation.indexName resolveOp := by
  constructor
  · intro items op
    rcases resolveStep_cases op with ⟨hname, hstep⟩ | ⟨hname, hstep⟩ | hstep
    · rw [resolveOp, resolveOp, hstep, hstep, hname, filter_name_filter]
      rfl
    · rw [resolveOp, resolveOp, hstep, hstep, hname, filter_name_filter, Option.map_some, List.filter_append]
      simp
    · rw [resolveOp, resolveOp, hstep, hstep]
      rfl
  · intro items op done h key hkey
    cases h
    rcases resolveStep_cases op with ⟨hname, hstep⟩ | ⟨hname, hstep⟩ | hstep
    · rw [hstep, filter_filter_name _ (hname ▸ hkey)]
    · rw [hstep, List.filter_append, filter_filter_name _ (hname ▸ hkey), filter_singleton_name (hname ▸ hkey),
        List.append_nil]
    · rw [hstep]

/-- The indexes with a name. -/
def indexesAt (name : Text) (indexes : List Index) : List Index := indexes.filter fun i => i.name = name

/-- The operations about a name. -/
def opsAt (name : Text) (ops : List Operation) : List Operation := ops.filter fun op => op.indexName = name

theorem resolve_at (name : Text) (base : List Index) (extra : List Operation) :
    (opsAt name extra).foldl resolveStep (indexesAt name base) = indexesAt name (extra.foldl resolveStep base) := by
  have hkey := resolveOp_local.run_key name extra (foldlM_resolveOp extra base)
  exact Option.some.inj ((foldlM_resolveOp _ _).symm.trans hkey)

/-- The operations about a name can be carried out on the indexes with the name, and leave what the list shows. -/
def FaithfulAt (base : List Index) (extra : List Operation) : Prop :=
  ∃ done, executeOps base extra = some done ∧ ∀ index, index ∈ done ↔ index ∈ extra.foldl resolveStep base

theorem faithful_iff {localeCompare : Text → Text → Int} {base : List Index} {extra : List Operation} :
    Faithful localeCompare base extra ↔ ∀ name, FaithfulAt (indexesAt name base) (opsAt name extra) := by
  constructor
  · rintro ⟨done, hdone, hsame⟩ name
    refine ⟨indexesAt name done, executeOp_local.run_key name extra hdone, ?_⟩
    intro index
    rw [resolve_at, indexesAt, indexesAt, List.mem_filter, List.mem_filter, hsame, mem_resolveIndexes]
  · intro hat
    have hruns : ∀ name, ∃ done, executeOps (indexesAt name base) (opsAt name extra) = some done :=
      fun name => (hat name).imp fun done h => h.1
    obtain ⟨done, hdone⟩ := executeOp_local.run_of_key extra hruns
    refine ⟨done, hdone, ?_⟩
    intro index
    rw [mem_resolveIndexes]
    -- an index is looked for under its own name
    obtain ⟨own, hown, hsame⟩ := hat index.name
    have hkey := executeOp_local.run_key index.name extra hdone
    cases hown.symm.trans hkey
    have hindex := hsame index
    rw [resolve_at, indexesAt, List.mem_filter, List.mem_filter] at hindex
    simpa using hindex

/-! ## What is pending for a name -/

/-- A drop, an index that is added, both in this order, or neither. -/
structure Slot where
  dropped : Bool
  added : Option Index

namespace Slot

def ops (name : Text) (slot : Slot) : List Operation :=
  (if slot.dropped then [.dropIndex name] else []) ++ slot.added.toList.map .addIndex

/-- What is added under a name in use comes with a drop, and the empty name is dropped only to be added again. -/
def Fine (used : Prop) (name : Text) (slot : Slot) : Prop :=
  (used → slot.added ≠ none → slot.dropped = true) ∧ (name = [] → slot.dropped = true → slot.added ≠ none)

end Slot

/-- The pending operations are those of the slots. -/
structure Represents (base : List Index) (extra : List Operation) (slots : Text → Slot) : Prop where
  ops : ∀ name, opsAt name extra = (slots name).ops name
  named : ∀ name index, (slots name).added = some index → index.name = name
  stored : ∀ name, (slots name).dropped = true → name ∈ indexNames base

theorem indexesAt_unused {base : List Index} {name : Text} (h : name ∉ indexNames base) : indexesAt name base = [] := by
  rw [indexesAt, List.filter_eq_nil_iff]
  intro index hindex
  have hne : index.name ≠ name := fun heq => h (heq ▸ List.mem_map_of_mem hindex)
  simp [hne]

/-- With distinct names there is one index of a name in use. -/
theorem indexesAt_used {base : List Index} (hdistinct : (indexNames base).Nodup) {name : Text}
    (h : name ∈ indexNames base) : ∃ index, index.name = name ∧ indexesAt name base = [index] := by
  induction base with
  | nil => cases h
  | cons head rest ih =>
    obtain ⟨hhead, hrest⟩ := List.nodup_cons.1 hdistinct
    by_cases hname : head.name = name
    · refine ⟨head, hname, ?_⟩
      have hunused : name ∉ indexNames rest := hname ▸ hhead
      rw [indexesAt, List.filter_cons_of_pos (by simp [hname])]
      exact congrArg _ (indexesAt_unused hunused)
    · obtain ⟨index, hindex, hat⟩ := ih hrest ((List.mem_cons.1 h).resolve_left (Ne.symm hname))
      refine ⟨index, hindex, ?_⟩
      rw [indexesAt, List.filter_cons_of_neg (by simp [hname])]
      exact hat

section

variable (list : List Index) (index : Index) (name : Text)

theorem executeOp_addIndex : executeOp list (.addIndex index) =
    if index.name ∈ indexNames list then none else some (list ++ [index]) := by
  have hparse : OperationKind.parse (Operation.addIndex index).kind = some .addIndex :=
    OperationKind.parse_text .addIndex
  rw [executeOp, hparse]
  rfl

theorem executeOp_dropIndex : executeOp list (.dropIndex name) =
    if name ∈ indexNames list then some (list.filter fun item => item.name ≠ name) else none := by
  have hparse : OperationKind.parse (Operation.dropIndex name).kind = some .dropIndex :=
    OperationKind.parse_text .dropIndex
  rw [executeOp, hparse]
  rfl

theorem resolveStep_addIndex :
    resolveStep list (.addIndex index) = (list.filter fun item => item.name ≠ index.name) ++ [index] := by
  have hkinds : OperationKind.addIndex.text ≠ OperationKind.dropIndex.text := by decide
  simp only [resolveStep, Operation.addIndex, hkinds, false_and, if_false, if_true]
  rfl

theorem resolveStep_dropIndex : resolveStep list (.dropIndex name) =
    if name = [] then list else list.filter fun item => item.name ≠ name := by
  have hkinds : OperationKind.dropIndex.text ≠ OperationKind.addIndex.text := by decide
  rw [resolveStep, if_neg (show (Operation.dropIndex name).kind ≠ OperationKind.addIndex.text from hkinds)]
  by_cases hname : name = []
  · rw [if_pos hname, if_neg]
    exact fun h => h.2 hname
  · rw [if_neg hname, if_pos]
    · rfl
    · exact ⟨rfl, hname⟩

end

theorem faithfulAt_slot {base : List Index} (hdistinct : (indexNames base).Nodup) {name : Text} {slot : Slot}
    (hnamed : ∀ index, slot.added = some index → index.name = name)
    (hstored : slot.dropped = true → name ∈ indexNames base) :
    FaithfulAt (indexesAt name base) (slot.ops name) ↔ slot.Fine (name ∈ indexNames base) name := by
  obtain ⟨dropped, added⟩ := slot
  by_cases hused : name ∈ indexNames base
  · obtain ⟨stored, hname, hat⟩ := indexesAt_used hdistinct hused
    rw [hat, FaithfulAt, Slot.Fine]
    cases dropped with
    | false =>
      cases added with
      | none => simp [Slot.ops, executeOps]
      | some index =>
        -- the name of the added index is in use
        have hindex := hnamed index rfl
        simp [Slot.ops, executeOps, executeOp_addIndex, hindex, hname, hused]
    | true =>
      cases added with
      | none =>
        -- the drop goes through, and the list shows it for a name that is not empty
        simp [Slot.ops, executeOps, executeOp_dropIndex, resolveStep_dropIndex, hname]
      | some index =>
        have hindex := hnamed index rfl
        simp [Slot.ops, executeOps, executeOp_dropIndex, executeOp_addIndex, resolveStep_dropIndex,
          resolveStep_addIndex, hindex, hname]
  · have hkept : dropped = false := by
      cases dropped with
      | false => rfl
      | true => exact absurd (hstored rfl) hused
    rw [hkept, indexesAt_unused hused, FaithfulAt, Slot.Fine]
    cases added with
    | none => simp [Slot.ops, executeOps]
    | some index =>
      simp [Slot.ops, executeOps, executeOp_addIndex, resolveStep_addIndex, hused]

/-- The pending operations are faithful just if those of each name are fine. -/
theorem Represents.faithful_iff {localeCompare : Text → Text → Int} {base : List Index}
    (hdistinct : (indexNames base).Nodup) {extra : List Operation} {slots : Text → Slot}
    (h : Represents base extra slots) :
    Faithful localeCompare base extra ↔ ∀ name, (slots name).Fine (name ∈ indexNames base) name := by
  rw [Schema.faithful_iff]
  apply forall_congr'
  intro name
  rw [h.ops, faithfulAt_slot hdistinct (h.named name) (h.stored name)]

/-! ## The calls on the slots -/

abbrev Slots := Text → Slot

namespace Slots

variable (slots : Slots)

def clearAdd (name : Text) : Slots := Function.update slots name ⟨(slots name).dropped, none⟩

def clearDrop (name : Text) : Slots := Function.update slots name ⟨false, (slots name).added⟩

def putAdd (index : Index) : Slots := Function.update slots index.name ⟨(slots index.name).dropped, some index⟩

def putDrop (name : Text) : Slots := Function.update slots name ⟨true, (slots name).added⟩

end Slots

namespace Operation

variable {name : Text} {op : Operation}

theorem indexName_of_addsIndex (h : op.addsIndex name = true) : op.indexName = name := by
  simp only [addsIndex, Bool.and_eq_true, decide_eq_true_eq] at h
  rw [indexName, h.1, if_neg (by decide), h.2]

theorem indexName_of_dropsIndex (h : op.dropsIndex name = true) : op.indexName = name := by
  simp only [dropsIndex, Bool.and_eq_true, decide_eq_true_eq] at h
  rw [indexName, h.1, if_pos rfl, h.2]

end Operation

theorem opsAt_filter (name : Text) (keep : Operation → Bool) (extra : List Operation) :
    opsAt name (extra.filter keep) = (opsAt name extra).filter keep := by
  rw [opsAt, opsAt, List.filter_filter, List.filter_filter]
  apply List.filter_congr
  intro op _
  exact Bool.and_comm _ _

/-- A filter that only looks for operations about a name leaves those about the others. -/
theorem opsAt_filter_other {name key : Text} (hkey : key ≠ name) {gone : Operation → Bool}
    (hgone : ∀ op, gone op = true → op.indexName = name) (extra : List Operation) :
    opsAt key (extra.filter fun op => !gone op) = opsAt key extra := by
  rw [opsAt_filter, List.filter_eq_self]
  intro op hop
  have hname : op.indexName = key := of_decide_eq_true (List.mem_filter.1 hop).2
  cases hop : gone op with
  | false => rfl
  | true => exact absurd (hname.symm.trans (hgone op hop)) hkey

theorem opsAt_concat (name : Text) (extra : List Operation) (op : Operation) :
    opsAt name (extra ++ [op]) = opsAt name extra ++ if op.indexName = name then [op] else [] := by
  rw [opsAt, List.filter_append]
  by_cases hop : op.indexName = name
  · simp [opsAt, hop]
  · simp [opsAt, hop]

theorem opsAt_concat_other {key : Text} {op : Operation} (hkey : key ≠ op.indexName) (extra : List Operation) :
    opsAt key (extra ++ [op]) = opsAt key extra := by
  rw [opsAt_concat, if_neg (Ne.symm hkey), List.append_nil]

namespace Represents

variable {base : List Index} {extra : List Operation} {slots : Slots} (h : Represents base extra slots)

include h

/-- Only the operations about one name are changed. -/
theorem update {extra' : List Operation} (name : Text) (slot : Slot) (hops : opsAt name extra' = slot.ops name)
    (hother : ∀ key, key ≠ name → opsAt key extra' = opsAt key extra)
    (hnamed : ∀ index, slot.added = some index → index.name = name)
    (hstored : slot.dropped = true → name ∈ indexNames base) :
    Represents base extra' (Function.update slots name slot) := by
  constructor
  · intro key
    by_cases hkey : key = name
    · rw [hkey, Function.update_self, hops]
    · rw [Function.update_of_ne hkey, hother key hkey, h.ops]
  · intro key index
    by_cases hkey : key = name
    · rw [hkey, Function.update_self]
      exact hnamed index
    · rw [Function.update_of_ne hkey]
      exact h.named key index
  · intro key
    by_cases hkey : key = name
    · rw [hkey, Function.update_self]
      exact hstored
    · rw [Function.update_of_ne hkey]
      exact h.stored key

theorem clearAdd (name : Text) :
    Represents base (extra.filter fun op => !op.addsIndex name) (slots.clearAdd name) := by
  refine h.update name _ ?_ ?_ ?_ (h.stored name)
  · rw [opsAt_filter, h.ops]
    cases hadded : (slots name).added with
    | none => cases hdropped : (slots name).dropped <;> simp [Slot.ops, hadded, hdropped]
    | some index =>
      have hindex := h.named name index hadded
      cases hdropped : (slots name).dropped <;> simp [Slot.ops, hadded, hdropped, hindex]
  · intro key hkey
    exact opsAt_filter_other hkey (fun op => Operation.indexName_of_addsIndex) extra
  · intro index hindex
    cases hindex

theorem clearDrop (name : Text) :
    Represents base (extra.filter fun op => !op.dropsIndex name) (slots.clearDrop name) := by
  refine h.update name _ ?_ ?_ (h.named name) ?_
  · rw [opsAt_filter, h.ops]
    cases hadded : (slots name).added with
    | none => cases hdropped : (slots name).dropped <;> simp [Slot.ops, hadded, hdropped]
    | some index => cases hdropped : (slots name).dropped <;> simp [Slot.ops, hadded, hdropped]
  · intro key hkey
    exact opsAt_filter_other hkey (fun op => Operation.indexName_of_dropsIndex) extra
  · intro hdropped
    cases hdropped

/-- An index is added where none is. -/
theorem putAdd (index : Index) (hfree : (slots index.name).added = none) :
    Represents base (extra ++ [.addIndex index]) (slots.putAdd index) := by
  refine h.update index.name _ ?_ ?_ ?_ (h.stored index.name)
  · rw [opsAt_concat, h.ops]
    simp [Slot.ops, hfree]
  · intro key hkey
    exact opsAt_concat_other hkey extra
  · intro added hadded
    cases hadded
    rfl

/-- An index of the database is dropped where nothing is pending. -/
theorem putDrop (name : Text) (hfree : slots name = ⟨false, none⟩) (hstored : name ∈ indexNames base) :
    Represents base (extra ++ [.dropIndex name]) (slots.putDrop name) := by
  refine h.update name _ ?_ ?_ ?_ fun _ => hstored
  · rw [opsAt_concat, h.ops]
    simp [Slot.ops, hfree]
  · intro key hkey
    exact opsAt_concat_other hkey extra
  · intro index hindex
    rw [hfree] at hindex
    cases hindex

end Represents

/-! ## The calls on the slots -/

/-- What a call makes of the slots. -/
def IndexCall.onSlots (base : List Index) (slots : Slots) : IndexCall → Slots
  | .append index => (slots.clearAdd index.name).putAdd index
  | .replace originalName index =>
    let next := ((slots.clearAdd index.name).clearAdd originalName).clearDrop originalName
    (if originalName ∈ indexNames base then next.putDrop originalName else next).putAdd index
  | .drop name =>
    let next := (slots.clearDrop name).clearAdd name
    if name ∈ indexNames base then next.putDrop name else next

theorem any_name {base : List Index} {name : Text} :
    (base.any fun item => item.name = name) = true ↔ name ∈ indexNames base := by
  simp [indexNames]

section

variable {base : List Index} {extra : List Operation} {slots : Slots}

/-- An index of the database is dropped where nothing is pending for the name. -/
theorem Represents.dropUsed (h : Represents base extra slots) (name : Text) (hfree : slots name = ⟨false, none⟩) :
    Represents base (if base.any fun item => item.name = name then extra ++ [.dropIndex name] else extra)
      (if name ∈ indexNames base then slots.putDrop name else slots) := by
  by_cases hused : name ∈ indexNames base
  · rw [if_pos (any_name.2 hused), if_pos hused]
    exact h.putDrop name hfree hused
  · rw [if_neg (any_name.not.2 hused), if_neg hused]
    exact h

/-- The name that is added under is free after the filters, dropped or not. -/
theorem added_cleared {originalName : Text} {index : Index} :
    let next := ((slots.clearAdd index.name).clearAdd originalName).clearDrop originalName
    ((if originalName ∈ indexNames base then next.putDrop originalName else next) index.name).added = none := by
  by_cases hsame : index.name = originalName
  · split_ifs <;> simp [Slots.putDrop, Slots.clearAdd, Slots.clearDrop, hsame]
  · split_ifs <;> simp [Slots.putDrop, Slots.clearAdd, Slots.clearDrop, hsame]

theorem Represents.run (h : Represents base extra slots) (call : IndexCall) :
    Represents base (call.run base extra) (call.onSlots base slots) := by
  cases call with
  | append index =>
    refine (h.clearAdd index.name).putAdd index ?_
    simp [Slots.clearAdd]
  | replace originalName index =>
    have hclear := ((h.clearAdd index.name).clearAdd originalName).clearDrop originalName
    rw [List.filter_filter, List.filter_filter] at hclear
    refine (hclear.dropUsed originalName ?_).putAdd index ?_
    · simp [Slots.clearAdd, Slots.clearDrop]
    · exact added_cleared
  | drop name =>
    have hclear := (h.clearDrop name).clearAdd name
    rw [List.filter_filter] at hclear
    refine hclear.dropUsed name ?_
    simp [Slots.clearAdd, Slots.clearDrop]

/-- The slots behind a sequence of calls. -/
def slotsOf (base : List Index) (calls : List IndexCall) : Slots :=
  calls.foldl (IndexCall.onSlots base) fun _ => ⟨false, none⟩

theorem represents_pending (base : List Index) (calls : List IndexCall) :
    Represents base (pending base calls) (slotsOf base calls) := by
  induction calls using List.reverseRecOn with
  | nil =>
    constructor
    · intro name
      rfl
    · intro name index hindex
      cases hindex
    · intro name hdropped
      cases hdropped
  | append_singleton calls call ih =>
    rw [pending, slotsOf, List.foldl_concat, List.foldl_concat]
    exact ih.run call

theorem Represents.mem_dropIndex (h : Represents base extra slots) (name : Text) :
    Operation.dropIndex name ∈ extra ↔ (slots name).dropped = true := by
  have hat : Operation.dropIndex name ∈ extra ↔ Operation.dropIndex name ∈ opsAt name extra := by
    simp [opsAt]
  have hkinds : OperationKind.addIndex.text ≠ OperationKind.dropIndex.text := by decide
  have hadd : ∀ index, Operation.addIndex index ≠ Operation.dropIndex name :=
    fun index heq => hkinds (congrArg Operation.kind heq)
  rw [hat, h.ops, Slot.ops]
  simp [hadd]

theorem onSlots_append (index : Index) : (IndexCall.append index).onSlots base slots =
    Function.update slots index.name ⟨(slots index.name).dropped, some index⟩ := by
  simp [IndexCall.onSlots, Slots.putAdd, Slots.clearAdd]

theorem onSlots_drop (name : Text) : (IndexCall.drop name).onSlots base slots =
    Function.update slots name ⟨decide (name ∈ indexNames base), none⟩ := by
  rw [IndexCall.onSlots]
  by_cases hused : name ∈ indexNames base
  · simp [Slots.putDrop, Slots.clearAdd, Slots.clearDrop, hused]
  · simp [Slots.clearAdd, Slots.clearDrop, hused]

/-- An index that is edited under its name. -/
theorem onSlots_replace_self (index : Index) : (IndexCall.replace index.name index).onSlots base slots =
    Function.update slots index.name ⟨decide (index.name ∈ indexNames base), some index⟩ := by
  rw [IndexCall.onSlots]
  by_cases hused : index.name ∈ indexNames base
  · simp [Slots.putDrop, Slots.putAdd, Slots.clearAdd, Slots.clearDrop, hused]
  · simp [Slots.putAdd, Slots.clearAdd, Slots.clearDrop, hused]

/-- An index that gets another name. -/
theorem onSlots_replace_rename {originalName : Text} {index : Index} (hname : index.name ≠ originalName) :
    (IndexCall.replace originalName index).onSlots base slots =
      Function.update (Function.update slots originalName ⟨decide (originalName ∈ indexNames base), none⟩) index.name
        ⟨(slots index.name).dropped, some index⟩ := by
  rw [IndexCall.onSlots]
  funext key
  by_cases hkey : key = index.name
  · by_cases hused : originalName ∈ indexNames base
    · simp [Slots.putDrop, Slots.putAdd, Slots.clearAdd, Slots.clearDrop, hused, hkey, hname]
    · simp [Slots.putAdd, Slots.clearAdd, Slots.clearDrop, hused, hkey, hname]
  · by_cases hkeyo : key = originalName
    · by_cases hused : originalName ∈ indexNames base
      · simp [Slots.putDrop, Slots.putAdd, Slots.clearAdd, Slots.clearDrop, hused, hkeyo, Ne.symm hname]
      · simp [Slots.putAdd, Slots.clearAdd, Slots.clearDrop, hused, hkeyo, Ne.symm hname]
    · by_cases hused : originalName ∈ indexNames base
      · simp [Slots.putDrop, Slots.putAdd, Slots.clearAdd, Slots.clearDrop, hused, hkey, hkeyo]
      · simp [Slots.putAdd, Slots.clearAdd, Slots.clearDrop, hused, hkey, hkeyo]

/-- All the slots are fine. -/
def AllFine (base : List Index) (slots : Slots) : Prop := ∀ name, (slots name).Fine (name ∈ indexNames base) name

theorem allFine_update (name : Text) (slot : Slot) (hothers : ∀ key, key ≠ name →
    (slots key).Fine (key ∈ indexNames base) key) :
    AllFine base (Function.update slots name slot) ↔ slot.Fine (name ∈ indexNames base) name := by
  constructor
  · intro hall
    have hname := hall name
    rwa [Function.update_self] at hname
  · intro hslot key
    by_cases hkey : key = name
    · rw [hkey, Function.update_self]
      exact hslot
    · rw [Function.update_of_ne hkey]
      exact hothers key hkey

theorem AllFine.update_update (hfine : AllFine base slots) {old new : Text} (hne : new ≠ old) {slot slot' : Slot} :
    AllFine base (Function.update (Function.update slots old slot) new slot') ↔
      slot.Fine (old ∈ indexNames base) old ∧ slot'.Fine (new ∈ indexNames base) new := by
  constructor
  · intro hall
    have hold := hall old
    have hnew := hall new
    rw [Function.update_of_ne (Ne.symm hne), Function.update_self] at hold
    rw [Function.update_self] at hnew
    exact ⟨hold, hnew⟩
  · rintro ⟨hold, hnew⟩
    have hfirst := (allFine_update old slot fun key _ => hfine key).2 hold
    exact (allFine_update new slot' fun key _ => hfirst key).2 hnew

/-- From fine slots, a call leads to fine ones just if it is ready. -/
theorem Represents.fine_run (h : Represents base extra slots) (hfine : AllFine base slots) (call : IndexCall) :
    AllFine base (call.onSlots base slots) ↔ Ready base extra call := by
  cases call with
  | append index =>
    rw [Ready, h.mem_dropIndex, onSlots_append, allFine_update _ _ fun key _ => hfine key]
    simp [Slot.Fine]
  | replace originalName index =>
    rw [Ready, h.mem_dropIndex]
    by_cases hname : index.name = originalName
    · rw [← hname, onSlots_replace_self, allFine_update _ _ fun key _ => hfine key]
      simp [Slot.Fine]
    · rw [onSlots_replace_rename hname, hfine.update_update hname]
      -- the two slots: what is dropped under the old name, and what is added under the new one
      have hold : (Slot.mk (decide (originalName ∈ indexNames base)) none).Fine (originalName ∈ indexNames base)
          originalName ↔ (originalName ∈ indexNames base → originalName = [] → index.name = []) := by
        constructor
        · intro hslot hused hempty
          exact absurd rfl (hslot.2 hempty (decide_eq_true hused))
        · intro hempty
          refine ⟨fun _ hadded => absurd rfl hadded, ?_⟩
          intro hnil hdropped
          exact absurd ((hempty (of_decide_eq_true hdropped) hnil).trans hnil.symm) hname
      rw [hold, and_comm]
      simp [Slot.Fine, hname]
  | drop name =>
    rw [Ready, onSlots_drop, allFine_update _ _ fun key _ => hfine key]
    simp only [Slot.Fine, ne_eq, not_true_eq_false, false_implies, implies_true, true_and, decide_eq_true_eq,
      imp_false, not_and']

end

/-! ## Runs -/

theorem pending_concat (base : List Index) (calls : List IndexCall) (call : IndexCall) :
    pending base (calls ++ [call]) = call.run base (pending base calls) := List.foldl_concat ..

/-- From a faithful list, a call leads to a faithful one just if it is ready. -/
theorem faithful_concat_iff (localeCompare : Text → Text → Int) {base : List Index}
    (hdistinct : (indexNames base).Nodup) (calls : List IndexCall) (call : IndexCall)
    (h : Faithful localeCompare base (pending base calls)) :
    Faithful localeCompare base (pending base (calls ++ [call])) ↔ Ready base (pending base calls) call := by
  have hslots := represents_pending base calls
  have hfine := (hslots.faithful_iff hdistinct).1 h
  rw [pending_concat, (hslots.run call).faithful_iff hdistinct]
  exact hslots.fine_run hfine call

/-- **In a run of the index editor, the pending operations can be carried out at every moment and lead to the indexes
that the list shows, just if every call is ready.** -/
theorem pending_faithful_iff (localeCompare : Text → Text → Int) {base : List Index}
    (hdistinct : (indexNames base).Nodup) (calls : List IndexCall) :
    (∀ made, made <+: calls → Faithful localeCompare base (pending base made)) ↔
      ∀ made call, made ++ [call] <+: calls → Ready base (pending base made) call := by
  induction calls using List.reverseRecOn with
  | nil =>
    refine iff_of_true ?_ ?_
    · intro made hmade
      rw [List.prefix_nil.1 hmade]
      refine ⟨base, rfl, ?_⟩
      intro index
      rw [mem_resolveIndexes]
      rfl
    · intro made call hmade
      simp at hmade
  | append_singleton calls call ih =>
    constructor
    · intro hall made next hmade
      rcases List.prefix_concat_iff.1 hmade with hlast | hbefore
      · obtain ⟨rfl, hcall⟩ := List.append_inj' hlast rfl
        cases hcall
        have hfaithful := hall made (List.prefix_append _ _)
        exact (faithful_concat_iff localeCompare hdistinct made call hfaithful).1 (hall _ (List.prefix_refl _))
      · exact ih.1 (fun made' hmade' => hall made' (hmade'.trans (List.prefix_append _ _))) made next hbefore
    · intro hready made hmade
      have hcalls := ih.2 fun made' next hmade' => hready made' next (hmade'.trans (List.prefix_append _ _))
      rcases List.prefix_concat_iff.1 hmade with rfl | hbefore
      · have hlast := hcalls calls (List.prefix_refl _)
        exact (faithful_concat_iff localeCompare hdistinct calls call hlast).2 (hready calls call (List.prefix_refl _))
      · exact hcalls made hbefore

/-- Texts compared by their characters. -/
def compareText (a b : Text) : Int := if a < b then -1 else if a = b then 0 else 1

/-- The index of a database that is edited under another name. -/
theorem pending_faithful_rename :
    Faithful compareText [⟨"idx_old".toList, ["a".toList], false⟩]
      (pending [⟨"idx_old".toList, ["a".toList], false⟩]
        [.replace "idx_old".toList ⟨"idx_new".toList, ["a".toList], true⟩]) := by
  refine (pending_faithful_iff compareText (by decide) _).2 ?_ _ (List.prefix_refl _)
  intro made call hmade
  have hnone : made = [] := by
    have hlength := hmade.length_le
    rw [List.length_append] at hlength
    exact List.length_eq_zero_iff.1 (Nat.le_zero.1 (Nat.le_of_add_le_add_right hlength))
  rw [hnone] at hmade ⊢
  obtain ⟨rest, hrest⟩ := hmade
  cases hrest
  rw [Ready]
  decide

/-- An index that is added under the name of one of the database: the name is in use. -/
theorem pending_append_used :
    ¬Faithful compareText [⟨"idx_old".toList, ["a".toList], false⟩]
      (pending [⟨"idx_old".toList, ["a".toList], false⟩]
        [.append ⟨"idx_old".toList, ["c".toList], false⟩]) := by
  rintro ⟨done, hdone, -⟩
  have hfails : executeOps [⟨"idx_old".toList, ["a".toList], false⟩]
      (pending [⟨"idx_old".toList, ["a".toList], false⟩] [.append ⟨"idx_old".toList, ["c".toList], false⟩]) = none := by
    decide
  rw [hfails] at hdone
  cases hdone

end Workbench.Schema
