import Mathlib.Data.List.AList

/-!
# Tables with a primary key

A table is an association list without duplicate keys, so that no two rows of it have one primary key.
What the statements of a database do to a table is either to insert a row, or to change or remove the
rows whose key satisfies a condition (`Table.alter`).
-/

set_option autoImplicit false

namespace Workbench.Lib

/-- The rows of a table by their primary key. -/
abbrev Table (K V : Type) : Type := AList fun _ : K => V

namespace Table

variable {K V : Type}

/-- The keys of the rows that satisfy `p`. -/
def keysWhere (t : Table K V) (p : K → V → Bool) : List K :=
  (t.entries.filter fun e => p e.1 e.2).map Sigma.fst

/-- `SELECT EXISTS`. -/
def any (t : Table K V) (p : K → V → Bool) : Bool := t.entries.any fun e => p e.1 e.2

theorem keysWhere_nodup (t : Table K V) (p : K → V → Bool) : (t.keysWhere p).Nodup :=
  (t.keys_nodup.sublist (List.filter_sublist.map Sigma.fst))

/-! ## Changing and removing rows -/

/-- One row behind an `UPDATE` or a `DELETE`. -/
def alterRow (p : K → Bool) (f : V → Option V) (e : Sigma fun _ : K => V) :
    Option (Sigma fun _ : K => V) :=
  if p e.1 then (f e.2).map (Sigma.mk e.1) else some e

theorem fst_of_alterRow {p : K → Bool} {f : V → Option V} {e e' : Sigma fun _ : K => V}
    (h : alterRow p f e = some e') : e'.1 = e.1 := by
  unfold alterRow at h
  split at h
  · obtain ⟨v, -, rfl⟩ := Option.map_eq_some_iff.1 h
    rfl
  · rw [Option.some.injEq] at h
    rw [h]

/-- What keeps each row under its key leaves no key twice. -/
theorem keys_filterMap_sublist {W : Type}
    {g : (Sigma fun _ : K => V) → Option (Sigma fun _ : K => W)}
    (hg : ∀ e e', g e = some e' → e'.1 = e.1) (l : List (Sigma fun _ : K => V)) :
    ((l.filterMap g).map Sigma.fst).Sublist (l.map Sigma.fst) := by
  induction l with
  | nil => exact List.Sublist.refl _
  | cons e l ih =>
    rw [List.filterMap_cons]
    cases h : g e with
    | none => exact ih.cons _
    | some e' =>
      simp only [List.map_cons, hg e e' h]
      exact ih.cons_cons _

/-- The rows whose key satisfies `p` changed by `f`, or removed where it gives nothing. -/
def alter (p : K → Bool) (f : V → Option V) (t : Table K V) : Table K V where
  entries := t.entries.filterMap (alterRow p f)
  nodupKeys := t.keys_nodup.sublist (keys_filterMap_sublist (fun _ _ => fst_of_alterRow) t.entries)

/-! ## Other columns of the same rows -/

variable {W : Type}

/-- The rows with other columns. -/
def mapValues (f : V → W) (t : Table K V) : Table K W where
  entries := t.entries.map fun e => ⟨e.1, f e.2⟩
  nodupKeys := by
    show ((t.entries.map _).map Sigma.fst).Nodup
    rw [List.map_map]
    exact t.keys_nodup

/-- One row with what another table says of it. -/
def followRow [DecidableEq K] (f : V → W → V) (guide : Table K W) (e : Sigma fun _ : K => V) :
    Option (Sigma fun _ : K => V) :=
  (guide.lookup e.1).map fun w => ⟨e.1, f e.2 w⟩

theorem fst_of_followRow [DecidableEq K] {f : V → W → V} {guide : Table K W}
    {e e' : Sigma fun _ : K => V} (h : followRow f guide e = some e') : e'.1 = e.1 := by
  obtain ⟨w, -, rfl⟩ := Option.map_eq_some_iff.1 h
  rfl

/-- The rows that another table has under the same keys, with what it says of them. -/
def follow [DecidableEq K] (f : V → W → V) (t : Table K V) (guide : Table K W) : Table K V where
  entries := t.entries.filterMap (followRow f guide)
  nodupKeys :=
    t.keys_nodup.sublist (keys_filterMap_sublist (fun _ _ => fst_of_followRow) t.entries)

section

variable [DecidableEq K]

theorem mem_entries {t : Table K V} {k : K} {v : V} :
    (⟨k, v⟩ : Sigma fun _ : K => V) ∈ t.entries ↔ t.lookup k = some v :=
  (AList.mem_lookup_iff (s := t)).symm

theorem mem_keysWhere {t : Table K V} {p : K → V → Bool} {k : K} :
    k ∈ t.keysWhere p ↔ ∃ v, t.lookup k = some v ∧ p k v = true := by
  simp only [keysWhere, List.mem_map, List.mem_filter]
  constructor
  · rintro ⟨⟨k', v⟩, ⟨hmem, hp⟩, rfl⟩
    exact ⟨v, mem_entries.1 hmem, hp⟩
  · rintro ⟨v, hlookup, hp⟩
    exact ⟨⟨k, v⟩, ⟨mem_entries.2 hlookup, hp⟩, rfl⟩

theorem any_iff {t : Table K V} {p : K → V → Bool} :
    t.any p = true ↔ ∃ k v, t.lookup k = some v ∧ p k v = true := by
  simp only [any, List.any_eq_true]
  constructor
  · rintro ⟨⟨k, v⟩, hmem, hp⟩
    exact ⟨k, v, mem_entries.1 hmem, hp⟩
  · rintro ⟨k, v, hlookup, hp⟩
    exact ⟨⟨k, v⟩, mem_entries.2 hlookup, hp⟩

@[simp]
theorem lookup_alter (p : K → Bool) (f : V → Option V) (t : Table K V) (k : K) :
    (t.alter p f).lookup k = if p k then (t.lookup k).bind f else t.lookup k := by
  apply Option.ext
  intro v
  rw [← mem_entries (t := t.alter p f)]
  simp only [alter, List.mem_filterMap]
  constructor
  · rintro ⟨⟨k', w⟩, hmem, halter⟩
    have hlookup := mem_entries.1 hmem
    have hkey : k = k' := fst_of_alterRow halter
    subst hkey
    unfold alterRow at halter
    split at halter
    · next hp =>
        obtain ⟨v', hv', heq⟩ := Option.map_eq_some_iff.1 halter
        rw [if_pos hp, hlookup]
        cases heq
        exact hv'
    · next hp =>
        rw [if_neg hp, hlookup]
        cases halter
        rfl
  · intro h
    split at h
    · next hp =>
        obtain ⟨w, hw, hfw⟩ := Option.bind_eq_some_iff.1 h
        refine ⟨⟨k, w⟩, mem_entries.2 hw, ?_⟩
        simp [alterRow, hp, hfw]
    · next hp =>
        refine ⟨⟨k, v⟩, mem_entries.2 h, ?_⟩
        simp [alterRow, hp]

theorem lookup_alter_of_not {p : K → Bool} {f : V → Option V} {t : Table K V} {k : K}
    (h : p k = false) : (t.alter p f).lookup k = t.lookup k := by
  simp [h]

/-- An update that gives each row the values it has. -/
theorem alter_eq_self {p : K → Bool} {f : V → Option V} {t : Table K V}
    (h : ∀ k v, t.lookup k = some v → p k = true → f v = some v) : t.alter p f = t := by
  apply AList.ext
  show t.entries.filterMap (alterRow p f) = t.entries
  have hrow : ∀ e ∈ t.entries, alterRow p f e = some e := by
    rintro ⟨k, v⟩ hmem
    rw [alterRow]
    split
    · next hp => rw [h k v (mem_entries.1 hmem) hp, Option.map_some]
    · rfl
  rw [List.filterMap_congr hrow]
  exact List.filterMap_some

/-- An update takes no row away. -/
theorem isSome_lookup_update {p : K → Bool} {f : V → V} {t : Table K V} {k : K} :
    ((t.alter p fun v => some (f v)).lookup k).isSome = (t.lookup k).isSome := by
  rw [lookup_alter]
  split
  · cases t.lookup k <;> rfl
  · rfl

/-- What is not in a table is not put there by a change. -/
theorem lookup_alter_eq_none {p : K → Bool} {f : V → Option V} {t : Table K V} {k : K}
    (h : t.lookup k = none) : (t.alter p f).lookup k = none := by
  simp [h]

@[simp]
theorem lookup_mapValues (f : V → W) (t : Table K V) (k : K) :
    (t.mapValues f).lookup k = (t.lookup k).map f := by
  apply Option.ext
  intro w
  rw [← mem_entries (t := t.mapValues f), Option.map_eq_some_iff]
  simp only [mapValues, List.mem_map]
  constructor
  · rintro ⟨⟨k', v⟩, hmem, heq⟩
    cases heq
    exact ⟨v, mem_entries.1 hmem, rfl⟩
  · rintro ⟨v, hlookup, rfl⟩
    exact ⟨⟨k, v⟩, mem_entries.2 hlookup, rfl⟩

@[simp]
theorem lookup_follow (f : V → W → V) (t : Table K V) (guide : Table K W) (k : K) :
    (t.follow f guide).lookup k = (t.lookup k).bind fun v => (guide.lookup k).map (f v) := by
  apply Option.ext
  intro v'
  rw [← mem_entries (t := t.follow f guide), Option.bind_eq_some_iff]
  simp only [follow, followRow, List.mem_filterMap]
  constructor
  · rintro ⟨⟨k', v⟩, hmem, heq⟩
    obtain ⟨w, hw, heq⟩ := Option.map_eq_some_iff.1 heq
    cases heq
    exact ⟨v, mem_entries.1 hmem, Option.map_eq_some_iff.2 ⟨w, hw, rfl⟩⟩
  · rintro ⟨v, hlookup, hmap⟩
    obtain ⟨w, hw, rfl⟩ := Option.map_eq_some_iff.1 hmap
    exact ⟨⟨k, v⟩, mem_entries.2 hlookup, Option.map_eq_some_iff.2 ⟨w, hw, rfl⟩⟩

/-! ## Filling a table in a loop -/

variable {A : Type}

/-- The loop that puts the selected items of a list into a table; a later item replaces an earlier one. -/
def fill (selected : A → Bool) (key : A → K) (value : A → V) (items : List A) (t : Table K V) :
    Table K V :=
  items.foldl (fun t a => if selected a then t.insert (key a) (value a) else t) t

variable {selected : A → Bool} {key : A → K} {value : A → V}

theorem mem_keys_fill {k : K} (items : List A) :
    ∀ t : Table K V, k ∈ (fill selected key value items t).keys ↔
      (∃ a ∈ items, selected a = true ∧ key a = k) ∨ k ∈ t.keys := by
  induction items with
  | nil => simp [fill]
  | cons a rest ih =>
    intro t
    rw [fill, List.foldl_cons, ← fill, ih]
    by_cases ha : selected a = true
    · rw [if_pos ha, AList.keys_insert, List.mem_cons]
      by_cases hk : k = key a
      · simp [hk, ha]
      · simp [hk, ha, Ne.symm hk]
    · rw [if_neg ha]
      simp [ha]

theorem mem_keys_fill_empty {k : K} {items : List A} :
    k ∈ (fill selected key value items ∅).keys ↔ ∃ a ∈ items, selected a = true ∧ key a = k := by
  rw [mem_keys_fill, AList.keys_empty, or_iff_left List.not_mem_nil]

theorem lookup_fill_of_not_mem {k : K} (items : List A) (hk : ∀ a ∈ items, k ≠ key a) :
    ∀ t : Table K V, (fill selected key value items t).lookup k = t.lookup k := by
  induction items with
  | nil => exact fun _ => rfl
  | cons a rest ih =>
    intro t
    rw [fill, List.foldl_cons, ← fill, ih fun b hb => hk b (List.mem_cons_of_mem a hb)]
    split
    · exact AList.lookup_insert_ne (hk a List.mem_cons_self)
    · rfl

/-- With distinct keys every selected item is found under its key. -/
theorem lookup_fill {items : List A} (hdistinct : (items.map key).Nodup) {a : A} (hmem : a ∈ items)
    (ha : selected a = true) :
    ∀ t : Table K V, (fill selected key value items t).lookup (key a) = some (value a) := by
  induction items with
  | nil => cases hmem
  | cons b rest ih =>
    intro t
    obtain ⟨hhead, hrest⟩ := List.nodup_cons.1 hdistinct
    rw [fill, List.foldl_cons, ← fill]
    rcases List.mem_cons.1 hmem with rfl | hmem
    · -- no later item has this key
      rw [if_pos ha, lookup_fill_of_not_mem rest, AList.lookup_insert]
      exact fun c hc heq => hhead (heq ▸ List.mem_map_of_mem hc)
    · exact ih hrest hmem _

end

end Table

end Workbench.Lib

/-!
## The rows of a table as a list

What the changes of a table do to the list of its rows, up to the order, for whatever is counted or summed
over the rows.
-/

namespace Workbench.Lib.Table

variable {K V : Type}

/-- The values of the rows. -/
def rows (t : Table K V) : List V := t.entries.map fun e => e.2

section

variable [DecidableEq K] {t : Table K V} {k : K} {v : V}

theorem mem_rows : v ∈ t.rows ↔ ∃ k, t.lookup k = some v := by
  rw [rows, List.mem_map]
  constructor
  · rintro ⟨⟨k, w⟩, hmem, rfl⟩
    exact ⟨k, mem_entries.1 hmem⟩
  · rintro ⟨k, hlookup⟩
    exact ⟨⟨k, v⟩, mem_entries.2 hlookup, rfl⟩

/-- A row under a new key. -/
theorem rows_insert_new (hnew : t.lookup k = none) : rows (t.insert k v) = v :: t.rows := by
  have hmem : k ∉ t := AList.lookup_eq_none.1 hnew
  rw [rows, AList.entries_insert_of_notMem hmem]
  rfl

/-- A row that is taken out. -/
theorem rows_erase_perm (hlookup : t.lookup k = some v) : t.rows.Perm (v :: rows (t.erase k)) := by
  have hkeys : k ∈ t.entries.keys := by
    apply List.mem_keys.2
    exact ⟨v, mem_entries.2 hlookup⟩
  obtain ⟨w, front, back, hfront, hentries, herase⟩ := List.exists_of_kerase hkeys
  have hw : w = v := by
    have hmem : (⟨k, w⟩ : Sigma fun _ : K => V) ∈ t.entries := by
      rw [hentries]
      exact List.mem_append_right _ List.mem_cons_self
    have hlookup' := mem_entries.1 hmem
    rw [hlookup] at hlookup'
    exact (Option.some_inj.1 hlookup').symm
  have herased : (t.erase k).entries = front ++ back := herase
  rw [rows, rows, hentries, herased, hw, List.map_append, List.map_append, List.map_cons]
  exact List.perm_middle

end

/-- The rows that are deleted are left out. -/
theorem rows_alter_delete (t : Table K V) (p : V → Bool) :
    (t.alter (fun _ => true) fun v => if p v then none else some v).rows =
      t.rows.filter fun v => !p v := by
  rw [rows, rows, alter, List.filter_map]
  dsimp only
  induction t.entries with
  | nil => rfl
  | cons e rest ih =>
    rw [List.filterMap_cons, List.filter_cons, alterRow, if_pos rfl, Function.comp_apply]
    cases p e.2 with
    | true =>
      rw [if_pos rfl]
      exact ih
    | false =>
      rw [if_neg Bool.false_ne_true]
      exact congrArg (List.cons e.2) ih

/-- Rows that are changed in a part that does not count. -/
theorem map_rows_alter {W : Type} (t : Table K V) (p : K → Bool) {f : V → V} {g : V → W}
    (hf : ∀ v, g (f v) = g v) : (t.alter p fun v => some (f v)).rows.map g = t.rows.map g := by
  rw [rows, rows, alter]
  dsimp only
  induction t.entries with
  | nil => rfl
  | cons e rest ih =>
    rw [List.filterMap_cons, alterRow]
    cases p e.1 with
    | true =>
      rw [if_pos rfl, Option.map_some]
      dsimp only
      rw [List.map_cons, List.map_cons, List.map_cons, List.map_cons, hf, ih]
    | false =>
      rw [if_neg Bool.false_ne_true]
      dsimp only
      rw [List.map_cons, List.map_cons, List.map_cons, List.map_cons, ih]

end Workbench.Lib.Table
