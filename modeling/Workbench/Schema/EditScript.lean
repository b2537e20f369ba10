import Workbench.Schema.Draft

/-!
# The draft as an edit script

The operations of `diffColumns`, applied one after the other to a table that refuses to touch a column it
does not have and to give a name twice. Each round of the loop does what the draft says of its column, or
it fails because the name that the column takes is still in use (`run_loop`).
-/

set_option autoImplicit false

namespace Workbench.Schema.EditScript

/-! ## The table -/

def names (t : List Column) : List Text := t.map Column.name

/-- Only the columns with a name are changed. -/
def atName (name : Text) (f : Column → Column) (c : Column) : Column := if c.name = name then f c else c

def rename (newName : Text) (c : Column) : Column := { c with name := newName }

def alter (target : Column) (c : Column) : Column :=
  { c with type := target.type, nullable := target.nullable, default := target.default }

def comment (target : Column) (c : Column) : Column := { c with comment := target.comment }

def setPrimary (primary : Bool) (c : Column) : Column := { c with primary := primary }

/-- One operation on the columns; indexes and foreign keys leave them alone. -/
def applyKind (op : Operation) (t : List Column) : OperationKind → Option (List Column)
  | .addColumn =>
    if op.column.name ∈ names t then none else some (t ++ [setPrimary false op.column])
  | .dropColumn => if op.name ∈ names t then some (t.filter fun c => c.name ≠ op.name) else none
  | .renameColumn =>
    if op.name ∈ names t ∧ op.newName ∉ names t then some (t.map (atName op.name (rename op.newName)))
    else none
  | .alterColumn =>
    if op.column.name ∈ names t then some (t.map (atName op.column.name (alter op.column))) else none
  | .setColumnComment =>
    if op.column.name ∈ names t then some (t.map (atName op.column.name (comment op.column))) else none
  | .setPrimary =>
    if op.name ∈ names t then some (t.map fun c => setPrimary (c.name = op.name) c) else none
  | .dropPrimary => some (t.map (setPrimary false))
  | _ => some t

def apply (t : List Column) (op : Operation) : Option (List Column) :=
  (OperationKind.parse op.kind).bind (applyKind op t)

def run (ops : List Operation) (t : List Column) : Option (List Column) := ops.foldlM apply t

@[simp] theorem run_nil (t : List Column) : run [] t = some t := rfl

@[simp]
theorem run_cons (op : Operation) (ops : List Operation) (t : List Column) :
    run (op :: ops) t = (apply t op).bind (run ops) := rfl

theorem run_append (ops ops' : List Operation) (t : List Column) :
    run (ops ++ ops') t = (run ops t).bind (run ops') := by
  rw [run, List.foldlM_append]
  rfl

theorem apply_kind {op : Operation} (kind : OperationKind) (h : op.kind = kind.text) (t : List Column) :
    apply t op = applyKind op t kind := by
  rw [apply, h, OperationKind.parse_text, Option.bind_some]

section

variable {t : List Column} {n : Text}

theorem atName_pos {f : Column → Column} {c : Column} (h : c.name = n) : atName n f c = f c := if_pos h

theorem atName_neg {f : Column → Column} {c : Column} (h : c.name ≠ n) : atName n f c = c := if_neg h

theorem names_atName (f : Column → Column) (hf : ∀ c, (f c).name = c.name) :
    names (t.map (atName n f)) = names t := by
  rw [names, List.map_map]
  apply List.map_congr_left
  intro c _
  rw [Function.comp_apply, atName]
  split
  · exact hf c
  · rfl

/-- A column is found under its name. -/
theorem eq_of_name (hdistinct : (names t).Nodup) {c c' : Column} (hc : c ∈ t) (hc' : c' ∈ t)
    (hname : c.name = c'.name) : c = c' :=
  List.inj_on_of_nodup_map hdistinct hc hc' hname

/-- A name that is free can be taken by the columns of one other name. -/
theorem nodup_rename {newName : Text} (hdistinct : (names t).Nodup) (hfree : newName ∉ names t) :
    (names (t.map (atName n (rename newName)))).Nodup := by
  rw [names, List.map_map]
  apply hdistinct.of_map.map_on
  intro c hc c' hc' hsame
  apply eq_of_name hdistinct hc hc'
  rw [Function.comp_apply, Function.comp_apply] at hsame
  by_cases h : c.name = n
  · by_cases h' : c'.name = n
    · exact h.trans h'.symm
    · rw [atName_pos h, atName_neg h'] at hsame
      exact (hfree (List.mem_map.2 ⟨c', hc', hsame.symm⟩)).elim
  · by_cases h' : c'.name = n
    · rw [atName_neg h, atName_pos h'] at hsame
      exact (hfree (List.mem_map.2 ⟨c, hc, hsame⟩)).elim
    · rw [atName_neg h, atName_neg h'] at hsame
      exact hsame

/-- No operation gives a name twice. -/
theorem apply_nodup {op : Operation} {t' : List Column} (hdistinct : (names t).Nodup)
    (h : apply t op = some t') : (names t').Nodup := by
  obtain ⟨kind, -, hkind⟩ := Option.bind_eq_some_iff.1 h
  cases kind with
  | addColumn =>
    rw [applyKind] at hkind
    split at hkind
    · cases hkind
    · next hfree =>
        cases hkind
        rw [names, List.map_append, List.map_singleton]
        apply List.Nodup.append hdistinct (List.nodup_singleton _)
        intro m hm hsingle
        rw [List.mem_singleton.1 hsingle] at hm
        exact hfree hm
  | dropColumn =>
    rw [applyKind] at hkind
    split at hkind
    · cases hkind
      exact hdistinct.sublist (List.filter_sublist.map _)
    · cases hkind
  | renameColumn =>
    rw [applyKind] at hkind
    split at hkind
    · next hnames =>
        cases hkind
        exact nodup_rename hdistinct hnames.2
    · cases hkind
  | alterColumn =>
    rw [applyKind] at hkind
    split at hkind
    · cases hkind
      rwa [names_atName (alter op.column) fun _ => rfl]
    · cases hkind
  | setColumnComment =>
    rw [applyKind] at hkind
    split at hkind
    · cases hkind
      rwa [names_atName (comment op.column) fun _ => rfl]
    · cases hkind
  | setPrimary =>
    rw [applyKind] at hkind
    split at hkind
    · cases hkind
      rwa [names, List.map_map]
    · cases hkind
  | dropPrimary =>
    cases hkind
    rwa [names, List.map_map]
  | _ =>
    cases hkind
    exact hdistinct

theorem run_nodup {ops : List Operation} {t' : List Column} (hdistinct : (names t).Nodup)
    (h : run ops t = some t') : (names t').Nodup := by
  induction ops generalizing t with
  | nil =>
    cases h
    exact hdistinct
  | cons op ops ih =>
    obtain ⟨t₁, hstep, hrest⟩ := Option.bind_eq_some_iff.1 h
    exact ih (apply_nodup hdistinct hstep) hrest

end

/-! ## The dropped columns -/

theorem run_dropColumns {dropped : List Text} {t : List Column} (hdistinct : dropped.Nodup)
    (hnames : dropped ⊆ names t) :
    run (dropped.map Operation.dropColumn) t = some (t.filter fun c => c.name ∉ dropped) := by
  induction dropped generalizing t with
  | nil =>
    rw [List.map_nil, run_nil, List.filter_eq_self.2]
    intro c _
    exact decide_eq_true List.not_mem_nil
  | cons n dropped ih =>
    rw [List.nodup_cons] at hdistinct
    have hstep : apply t (Operation.dropColumn n) = some (t.filter fun c => c.name ≠ n) := by
      rw [apply_kind .dropColumn rfl]
      exact if_pos (hnames List.mem_cons_self)
    have hrest : dropped ⊆ names (t.filter fun c => c.name ≠ n) := by
      intro m hm
      obtain ⟨c, hc, rfl⟩ := List.mem_map.1 (hnames (List.mem_cons_of_mem _ hm))
      apply List.mem_map_of_mem
      apply List.mem_filter.2
      refine ⟨hc, decide_eq_true ?_⟩
      rintro rfl
      exact hdistinct.1 hm
    rw [List.map_cons, run_cons, hstep, Option.bind_some, ih hdistinct.2 hrest, List.filter_filter]
    congr 1
    apply List.filter_congr
    intro c _
    rw [← Bool.decide_and]
    apply decide_eq_decide.2
    rw [List.mem_cons, not_or, and_comm]

/-! ## One column -/

section

variable (lowerCase : Text → Text)

/-- Whether `diffColumns` alters a column. -/
def Altered (original : Column) (current : DraftColumn) : Prop :=
  lowerCase original.type ≠ lowerCase current.type ∨ original.nullable ≠ current.nullable ∨
    original.default ≠ current.default

instance (original : Column) (current : DraftColumn) : Decidable (Altered lowerCase original current) :=
  inferInstanceAs (Decidable (_ ∨ _))

/-- What `diffColumn` makes of a column. -/
def edited (original : Column) (current : DraftColumn) : Column :=
  { name := current.name
    type := if Altered lowerCase original current then current.type else original.type
    nullable := current.nullable
    default := current.default
    comment := current.comment
    primary := original.primary }

end

/-- A column takes a name that it did not have. -/
def Takes (item : DraftColumn) : Prop := item.isNew = true ∨ item.key ≠ item.name

instance (item : DraftColumn) : Decidable (Takes item) := inferInstanceAs (Decidable (_ ∨ _))

section

variable {lowerCase : Text → Text} {original : Column} {current : DraftColumn} {t : List Column}

/-- An operation that is issued only where something differs. -/
theorem run_ite {p : Prop} [Decidable p] {op : Operation} {f : Column → Column}
    (h : apply t op = some (t.map (atName current.name f))) :
    run (if p then [op] else []) t = some (t.map (atName current.name (if p then f else id))) := by
  by_cases hp : p
  · rw [if_pos hp, if_pos hp, run_cons, h]
    rfl
  · have hid : atName current.name id = id := by
      funext c
      exact ite_self c
    rw [if_neg hp, if_neg hp, run_nil, hid, List.map_id]

theorem run_rename (hc : original ∈ t) (hkey : original.name = current.key) :
    run (if current.key ≠ current.name then [Operation.renameColumn current.key current.name] else []) t =
      if current.key ≠ current.name ∧ current.name ∈ names t then none
      else some (t.map (atName current.key (rename current.name))) := by
  have hmem : current.key ∈ names t := List.mem_map.2 ⟨original, hc, hkey⟩
  by_cases hne : current.key ≠ current.name
  · have hstep : run [Operation.renameColumn current.key current.name] t =
        applyKind (Operation.renameColumn current.key current.name) t .renameColumn := by
      rw [run_cons, apply_kind .renameColumn rfl]
      exact Option.bind_fun_some _
    rw [if_pos hne, hstep]
    by_cases hfree : current.name ∈ names t
    · rw [if_pos ⟨hne, hfree⟩]
      exact if_neg fun h => h.2 hfree
    · rw [if_neg fun h => hfree h.2]
      exact if_pos ⟨hmem, hfree⟩
  · have hid : t.map (atName current.key (rename current.name)) = t := by
      apply List.map_id''
      intro c
      rw [atName]
      split
      · next hname =>
          rw [rename, ← not_not.1 hne, ← hname]
      · rfl
    rw [if_neg hne, if_neg fun h => hne h.1, hid, run_nil]

/-- The edits of a column, one after the other. -/
theorem edited_eq : (if original.comment ≠ current.comment then comment current.columnPayload else id)
    ((if Altered lowerCase original current then alter current.columnPayload else id)
      (rename current.name original)) = edited lowerCase original current := by
  have halter : (if Altered lowerCase original current then alter current.columnPayload else id)
      (rename current.name original) =
        { edited lowerCase original current with comment := original.comment } := by
    by_cases h : Altered lowerCase original current
    · rw [if_pos h, edited, if_pos h]
      rfl
    · -- What `Altered` does not find different is the same.
      rw [if_neg h, edited, if_neg h]
      rw [Altered, not_or, not_or, not_not, not_not, not_not] at h
      rw [← h.2.1, ← h.2.2]
      rfl
  rw [halter]
  by_cases h : original.comment ≠ current.comment
  · rw [if_pos h]
    rfl
  · rw [if_neg h, not_not.1 h]
    rfl

/-- The edits of one column leave the others alone. -/
theorem atName_edits {f g : Column → Column} {c : Column} (hc : c ∈ t) (hc' : c.name ≠ current.key)
    (hfree : ¬(current.key ≠ current.name ∧ current.name ∈ names t)) :
    atName current.name g (atName current.name f (atName current.key (rename current.name) c)) = c := by
  have hname : c.name ≠ current.name := by
    intro hname
    apply hfree
    refine ⟨fun hsame => hc' (hname.trans hsame.symm), ?_⟩
    exact List.mem_map.2 ⟨c, hc, hname⟩
  rw [atName_neg hc', atName_neg hname, atName_neg hname]

/-- **The operations on a column that stays make what the draft says of it, unless its new name is in use.** -/
theorem run_diffColumn (hdistinct : (names t).Nodup) (hc : original ∈ t)
    (hkey : original.name = current.key) :
    run (diffColumn lowerCase original current) t =
      if current.key ≠ current.name ∧ current.name ∈ names t then none
      else some (t.map (atName current.key fun _ => edited lowerCase original current)) := by
  rw [diffColumn, run_append, run_append, run_rename hc hkey]
  split
  · rfl
  · next hfree =>
      have hmem : current.name ∈ names (t.map (atName current.key (rename current.name))) := by
        apply List.mem_map.2
        refine ⟨rename current.name original, List.mem_map.2 ⟨original, hc, if_pos hkey⟩, rfl⟩
      have halter : apply (t.map (atName current.key (rename current.name)))
          (Operation.alterColumn current.columnPayload) =
            some ((t.map (atName current.key (rename current.name))).map
              (atName current.name (alter current.columnPayload))) := by
        rw [apply_kind .alterColumn rfl]
        exact if_pos hmem
      rw [Option.bind_some, run_ite halter, Option.bind_some]
      have hmem' : current.name ∈ names ((t.map (atName current.key (rename current.name))).map
          (atName current.name (if Altered lowerCase original current then
            alter current.columnPayload else id))) := by
        rwa [names_atName]
        intro c
        split <;> rfl
      have hcomment : apply ((t.map (atName current.key (rename current.name))).map
          (atName current.name (if Altered lowerCase original current then
            alter current.columnPayload else id))) (Operation.setColumnComment current.columnPayload) =
            some (((t.map (atName current.key (rename current.name))).map
              (atName current.name (if Altered lowerCase original current then
                alter current.columnPayload else id))).map
                  (atName current.name (comment current.columnPayload))) := by
        rw [apply_kind .setColumnComment rfl]
        exact if_pos hmem'
      refine (run_ite hcomment).trans ?_
      rw [List.map_map, List.map_map]
      congr 1
      apply List.map_congr_left
      intro c hmem
      rw [Function.comp_apply, Function.comp_apply]
      by_cases hname : c.name = current.key
      · obtain rfl := eq_of_name hdistinct hmem hc (hname.trans hkey.symm)
        have hafter : ((if Altered lowerCase c current then alter current.columnPayload else id)
            (rename current.name c)).name = current.name := by
          split <;> rfl
        have hrenamed : (rename current.name c).name = current.name := rfl
        rw [atName_pos hkey, atName_pos hkey, atName_pos hrenamed, atName_pos hafter, edited_eq]
      · rw [atName_edits hmem hname hfree, atName_neg hname]

end

/-! ## The loop -/

/-- The columns that are not dropped: a draft column, also a new one, stands for each. -/
def kept (before : List Column) (after : List DraftColumn) : List Column :=
  before.filter fun c => after.any fun item => item.key = c.name

def added (item : DraftColumn) : Column := setPrimary false item.columnPayload

section

variable (lowerCase : Text → Text)

/-- A column that was there, after the draft columns `done`. -/
def moved (done : List DraftColumn) (c : Column) : Column :=
  match done.find? fun item => !item.isNew && item.key = c.name with
  | none => c
  | some item => edited lowerCase c item

/-- The table after the draft columns `done`. -/
def stage (columns : List Column) (done : List DraftColumn) : List Column :=
  columns.map (moved lowerCase done) ++ (done.filter DraftColumn.isNew).map added

end

section

variable {lowerCase : Text → Text} {columns : List Column} {done : List DraftColumn}

theorem mem_retained {n : Text} {after : List DraftColumn} :
    n ∈ retained after ↔ ∃ item ∈ after, item.isNew = false ∧ item.key = n := by
  simp only [retained, List.mem_map, List.mem_filter, Bool.not_eq_true', and_assoc]

theorem nodup_retained_left {rest : List DraftColumn} (h : (retained (done ++ rest)).Nodup) :
    (retained done).Nodup :=
  h.sublist (((List.sublist_append_left done rest).filter _).map _)

/-- What `moved` looks for. -/
theorem stands_iff {c : Column} {item : DraftColumn} :
    (!item.isNew && item.key = c.name) = true ↔ item.isNew = false ∧ item.key = c.name := by
  rw [Bool.and_eq_true, Bool.not_eq_true', decide_eq_true_iff]

theorem moved_of_not_mem {c : Column} (h : c.name ∉ retained done) : moved lowerCase done c = c := by
  have hnone : (done.find? fun item => !item.isNew && item.key = c.name) = none := by
    apply List.find?_eq_none.2
    intro item hitem hfound
    obtain ⟨hold, hkey⟩ := stands_iff.1 hfound
    exact h (mem_retained.2 ⟨item, hitem, hold, hkey⟩)
  rw [moved, hnone]

theorem moved_of_mem (hdistinct : (retained done).Nodup) {c : Column} {item : DraftColumn}
    (hitem : item ∈ done) (hold : item.isNew = false) (hkey : item.key = c.name) :
    moved lowerCase done c = edited lowerCase c item := by
  cases hfind : done.find? fun item => !item.isNew && item.key = c.name with
  | none => exact (List.find?_eq_none.1 hfind item hitem (stands_iff.2 ⟨hold, hkey⟩)).elim
  | some found =>
    have hstands : (!found.isNew && found.key = c.name) = true :=
      List.find?_some (p := fun item : DraftColumn => !item.isNew && item.key = c.name) hfind
    obtain ⟨hold', hkey'⟩ := stands_iff.1 hstands
    have hmem : found ∈ done.filter fun item => !item.isNew :=
      List.mem_filter.2 ⟨List.mem_of_find?_eq_some hfind, (Bool.not_eq_true' _).mpr hold'⟩
    have hmem' : item ∈ done.filter fun item => !item.isNew :=
      List.mem_filter.2 ⟨hitem, (Bool.not_eq_true' _).mpr hold⟩
    obtain rfl := List.inj_on_of_nodup_map hdistinct hmem hmem' (hkey'.trans hkey.symm)
    rw [moved, hfind]

/-- What is done later to other columns does not count. -/
theorem moved_append {c : Column} {item : DraftColumn}
    (h : item.isNew = false → item.key ≠ c.name) :
    moved lowerCase (done ++ [item]) c = moved lowerCase done c := by
  have hitem : (!item.isNew && item.key = c.name) = false := by
    apply Bool.eq_false_iff.2
    intro hstands
    obtain ⟨hold, hkey⟩ := stands_iff.1 hstands
    exact h hold hkey
  rw [moved, moved, List.find?_append, List.find?_singleton, hitem, if_neg Bool.false_ne_true,
    Option.or_none]

theorem stage_append (item : DraftColumn) :
    stage lowerCase columns (done ++ [item]) = columns.map (moved lowerCase (done ++ [item])) ++
      (done.filter DraftColumn.isNew).map added ++ if item.isNew then [added item] else [] := by
  rw [stage, List.filter_append, List.map_append, List.append_assoc, List.filter_singleton]
  cases item.isNew <;> rfl

theorem retained_append_old {item : DraftColumn} (hold : item.isNew = false) :
    retained (done ++ [item]) = retained done ++ [item.key] := by
  rw [retained, List.filter_append, List.map_append, List.filter_singleton, hold]
  rfl

theorem stage_append_new {item : DraftColumn} (hnew : item.isNew = true) :
    stage lowerCase columns (done ++ [item]) = stage lowerCase columns done ++ [added item] := by
  have hmoved : columns.map (moved lowerCase (done ++ [item])) = columns.map (moved lowerCase done) := by
    apply List.map_congr_left
    intro c _
    apply moved_append
    intro hold
    rw [hnew] at hold
    cases hold
  rw [stage_append, hmoved, if_pos hnew]
  rfl

/-- Until its turn comes a column is what it was. -/
theorem moved_fresh {item : DraftColumn} {original : Column} (hretained : (retained (done ++ [item])).Nodup)
    (hold : item.isNew = false) (hkey : original.name = item.key) :
    moved lowerCase done original = original := by
  rw [retained_append_old hold] at hretained
  apply moved_of_not_mem
  rw [hkey]
  intro hmem
  exact List.disjoint_of_nodup_append hretained hmem List.mem_cons_self

theorem stage_append_old {item : DraftColumn} {original : Column} (hcolumns : (names columns).Nodup)
    (hdistinct : (names (stage lowerCase columns done)).Nodup)
    (hretained : (retained (done ++ [item])).Nodup) (hold : item.isNew = false)
    (hmem : original ∈ columns) (hkey : original.name = item.key) :
    stage lowerCase columns (done ++ [item]) =
      (stage lowerCase columns done).map (atName item.key fun _ => edited lowerCase original item) := by
  have hstill : moved lowerCase done original = original := moved_fresh hretained hold hkey
  rw [stage, names, List.map_append] at hdistinct
  have hfront : ((columns.map (moved lowerCase done)).map Column.name).Nodup := hdistinct.of_append_left
  rw [List.map_map] at hfront
  rw [stage_append, hold, if_neg Bool.false_ne_true, List.append_nil, stage, List.map_append, List.map_map]
  congr 1
  · apply List.map_congr_left
    intro c hc
    rw [Function.comp_apply]
    by_cases hname : c.name = item.key
    · obtain rfl := eq_of_name hcolumns hc hmem (hname.trans hkey.symm)
      rw [hstill, atName_pos hname]
      exact moved_of_mem hretained (List.mem_append_right _ List.mem_cons_self) hold hkey.symm
    · have hmoved : (moved lowerCase done c).name ≠ item.key := by
        intro hsame
        have hboth : (moved lowerCase done c).name = (moved lowerCase done original).name := by
          rw [hsame, hstill, hkey]
        obtain rfl := List.inj_on_of_nodup_map hfront hc hmem hboth
        exact hname hkey
      rw [atName_neg hmoved]
      exact moved_append fun _ h => hname h.symm
  · -- A new column does not carry the name of one that is still there.
    symm
    refine (List.map_congr_left ?_).trans (List.map_id _)
    intro c hc
    apply atName_neg
    intro hname
    have hin : original.name ∈ (columns.map (moved lowerCase done)).map Column.name := by
      refine List.mem_map_of_mem (List.mem_map.2 ⟨original, hmem, hstill⟩)
    apply List.disjoint_of_nodup_append hdistinct hin
    exact List.mem_map.2 ⟨c, hc, hname.trans hkey.symm⟩

/-- One round of the loop fails exactly if the column takes a name that is in use. -/
theorem run_diffCurrent (lowerCase : Text → Text) {before : List Column} {item : DraftColumn} (hsub : columns.Sublist before)
    (hbefore : (names before).Nodup) (hdistinct : (names (stage lowerCase columns done)).Nodup)
    (hretained : (retained (done ++ [item])).Nodup)
    (hkey : item.isNew = false → item.key ∈ names columns) :
    run (diffCurrent lowerCase before item) (stage lowerCase columns done) =
      if Takes item ∧ item.name ∈ names (stage lowerCase columns done) then none
      else some (stage lowerCase columns (done ++ [item])) := by
  cases hnew : item.isNew with
  | true =>
    have htakes : Takes item := Or.inl hnew
    have hadd : run [Operation.addColumn item.columnPayload] (stage lowerCase columns done) =
        applyKind (Operation.addColumn item.columnPayload) (stage lowerCase columns done) .addColumn := by
      rw [run_cons, apply_kind .addColumn rfl]
      exact Option.bind_fun_some _
    rw [diffCurrent, if_pos hnew, hadd, stage_append_new hnew]
    by_cases hname : item.name ∈ names (stage lowerCase columns done)
    · rw [if_pos ⟨htakes, hname⟩]
      exact if_pos hname
    · rw [if_neg fun h => hname h.2]
      exact if_neg hname
  | false =>
    obtain ⟨original, hmem, hname⟩ := List.mem_map.1 (hkey hnew)
    have hfind : before.find? (fun c => c.name = item.key) = some original := by
      rw [← hname]
      exact find?_name hbefore (hsub.subset hmem)
    have hstage : original ∈ stage lowerCase columns done := by
      apply List.mem_append_left
      exact List.mem_map.2 ⟨original, hmem, moved_fresh hretained hnew hname⟩
    have htakes : Takes item ↔ item.key ≠ item.name := by
      rw [Takes, hnew]
      exact or_iff_right Bool.false_ne_true
    rw [diffCurrent, hnew, if_neg Bool.false_ne_true, hfind,
      stage_append_old (hbefore.sublist (hsub.map Column.name)) hdistinct hretained hnew hmem hname]
    refine (run_diffColumn hdistinct hstage hname).trans ?_
    by_cases h : item.key ≠ item.name ∧ item.name ∈ names (stage lowerCase columns done)
    · rw [if_pos h, if_pos ⟨htakes.2 h.1, h.2⟩]
    · rw [if_neg h, if_neg fun h' => h ⟨htakes.1 h'.1, h'.2⟩]

/-- The names in use: those of the columns that are done, and those not yet given up. -/
theorem mem_names_stage (hretained : (retained done).Nodup)
    (hkey : ∀ item ∈ done, item.isNew = false → item.key ∈ names columns) {n : Text} :
    n ∈ names (stage lowerCase columns done) ↔
      (∃ item ∈ done, item.name = n) ∨ (n ∈ names columns ∧ n ∉ retained done) := by
  rw [names, stage, List.map_append, List.mem_append]
  constructor
  · rintro (hmoved | hadded)
    · rw [List.map_map] at hmoved
      obtain ⟨c, hc, rfl⟩ := List.mem_map.1 hmoved
      rw [Function.comp_apply]
      by_cases hmem : c.name ∈ retained done
      · obtain ⟨item, hitem, hold, hname⟩ := mem_retained.1 hmem
        rw [moved_of_mem hretained hitem hold hname]
        exact Or.inl ⟨item, hitem, rfl⟩
      · rw [moved_of_not_mem hmem]
        exact Or.inr ⟨List.mem_map_of_mem hc, hmem⟩
    · rw [List.map_map] at hadded
      obtain ⟨item, hitem, rfl⟩ := List.mem_map.1 hadded
      exact Or.inl ⟨item, (List.mem_filter.1 hitem).1, rfl⟩
  · rintro (⟨item, hitem, rfl⟩ | ⟨hname, hmem⟩)
    · cases hnew : item.isNew with
      | true =>
        refine Or.inr (List.mem_map.2 ⟨added item, ?_, rfl⟩)
        exact List.mem_map_of_mem (List.mem_filter.2 ⟨hitem, hnew⟩)
      | false =>
        obtain ⟨c, hc, hname⟩ := List.mem_map.1 (hkey item hitem hnew)
        refine Or.inl (List.mem_map.2 ⟨_, List.mem_map_of_mem hc, ?_⟩)
        rw [moved_of_mem hretained hitem hnew hname.symm]
        rfl
    · obtain ⟨c, hc, rfl⟩ := List.mem_map.1 hname
      refine Or.inl (List.mem_map.2 ⟨_, List.mem_map_of_mem hc, ?_⟩)
      rw [moved_of_not_mem hmem]

/-- **The loop succeeds exactly if each column finds the name free that it takes.** -/
theorem run_loop {before : List Column} {rest : List DraftColumn} {t : List Column}
    (hsub : columns.Sublist before) (hbefore : (names before).Nodup)
    (hdistinct : (names (stage lowerCase columns done)).Nodup)
    (hretained : (retained (done ++ rest)).Nodup)
    (hkey : ∀ item ∈ rest, item.isNew = false → item.key ∈ names columns) :
    run (rest.flatMap (diffCurrent lowerCase before)) (stage lowerCase columns done) = some t ↔
      (∀ front item back, rest = front ++ item :: back → Takes item →
        item.name ∉ names (stage lowerCase columns (done ++ front))) ∧
      t = stage lowerCase columns (done ++ rest) := by
  induction rest generalizing done with
  | nil =>
    rw [List.flatMap_nil, run_nil, List.append_nil, Option.some_inj, eq_comm]
    refine (and_iff_right ?_).symm
    intro front item back hsplit
    exact (List.append_ne_nil_of_right_ne_nil front (List.cons_ne_nil item back) hsplit.symm).elim
  | cons item rest ih =>
    have hsplit : done ++ item :: rest = done ++ [item] ++ rest := by
      rw [List.append_assoc, List.singleton_append]
    rw [hsplit] at hretained ⊢
    have hround := run_diffCurrent lowerCase hsub hbefore hdistinct
      (nodup_retained_left hretained) (hkey item List.mem_cons_self)
    rw [List.flatMap_cons, run_append, hround]
    by_cases htaken : Takes item ∧ item.name ∈ names (stage lowerCase columns done)
    · rw [if_pos htaken, Option.bind_none]
      constructor
      · intro h
        cases h
      · rintro ⟨hfree, -⟩
        have hname := hfree [] item rest rfl htaken.1
        rw [List.append_nil] at hname
        exact (hname htaken.2).elim
    · have hnext : (names (stage lowerCase columns (done ++ [item]))).Nodup := by
        apply run_nodup hdistinct
        rw [hround, if_neg htaken]
      rw [if_neg htaken, Option.bind_some,
        ih hnext hretained fun other hother => hkey other (List.mem_cons_of_mem _ hother)]
      apply and_congr_left
      intro _
      constructor
      · intro hfree front other back hrest htakes
        cases front with
        | nil =>
          obtain ⟨rfl, -⟩ := List.cons_eq_cons.1 hrest
          rw [List.append_nil]
          exact fun hname => htaken ⟨htakes, hname⟩
        | cons first front =>
          obtain ⟨rfl, hback⟩ := List.cons_eq_cons.1 hrest
          have hother := hfree front other back hback htakes
          rwa [List.append_assoc, List.singleton_append] at hother
      · intro hfree front other back hrest htakes
        have hother := hfree (item :: front) other back (congrArg (List.cons item) hrest) htakes
        rwa [List.append_assoc, List.singleton_append]

end

end Workbench.Schema.EditScript
