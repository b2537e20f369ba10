import Mathlib.Data.List.Sort
import Workbench.Lib.Table

/-!
# Orders in which maps are visited

A loop over a hash map comes to its entries in an order that the program does not choose and that may be another one in
the next run. Here such an order is a linear order on the keys: the entries of a map are visited as it sorts them. Every
order of finitely many keys is one of these (`exists_mapOrder`).
-/

set_option autoImplicit false

namespace Workbench.Lib

structure MapOrder (K : Type) where
  before : K → K → Bool
  total : ∀ a b, before a b = true ∨ before b a = true
  trans : ∀ a b c, before a b = true → before b c = true → before a c = true
  antisymm : ∀ a b, before a b = true → before b a = true → a = b

namespace MapOrder

variable {K V : Type}

/-- The order of the keys themselves. -/
def byKey [LinearOrder K] : MapOrder K where
  before a b := decide (a ≤ b)
  total a b := by simpa only [decide_eq_true_eq] using le_total a b
  trans a b c hab hbc := by
    rw [decide_eq_true_eq] at hab hbc ⊢
    exact hab.trans hbc
  antisymm a b hab hba := le_antisymm (of_decide_eq_true hab) (of_decide_eq_true hba)

/-- The other way around. -/
def reverse (order : MapOrder K) : MapOrder K where
  before a b := order.before b a
  total a b := order.total b a
  trans a b c hab hbc := order.trans c b a hbc hab
  antisymm a b hab hba := order.antisymm a b hba hab

/-- One key in front of all the others. -/
def withFirst [DecidableEq K] (order : MapOrder K) (key : K) : MapOrder K where
  before a b := a = key || b ≠ key && order.before a b
  total a b := by
    have htotal := order.total a b
    grind
  trans a b c := by
    have htrans := order.trans a b c
    grind
  antisymm a b := by
    have hantisymm := order.antisymm a b
    grind

/-- Entry for entry in this order. -/
def Before (order : MapOrder K) (a b : K × V) : Prop := order.before a.1 b.1 = true

instance (order : MapOrder K) : DecidableRel (order.Before (V := V)) :=
  fun a b => inferInstanceAs (Decidable (order.before a.1 b.1 = true))

/-- The entries as they are visited. -/
def arranged (order : MapOrder K) (entries : List (K × V)) : List (K × V) := entries.insertionSort order.Before

section

variable (order : MapOrder K)

theorem arranged_perm (entries : List (K × V)) : (order.arranged entries).Perm entries :=
  List.perm_insertionSort _ _

theorem mem_arranged {entries : List (K × V)} {e : K × V} : e ∈ order.arranged entries ↔ e ∈ entries :=
  (order.arranged_perm entries).mem_iff

theorem names_arranged_perm (entries : List (K × V)) :
    ((order.arranged entries).map Prod.fst).Perm (entries.map Prod.fst) := (order.arranged_perm entries).map Prod.fst

theorem nodup_arranged {entries : List (K × V)} (h : (entries.map Prod.fst).Nodup) :
    ((order.arranged entries).map Prod.fst).Nodup := (order.names_arranged_perm entries).nodup_iff.2 h

theorem pairwise_arranged (entries : List (K × V)) : (order.arranged entries).Pairwise order.Before := by
  have htotal : Std.Total (order.Before (V := V)) := ⟨fun a b => order.total a.1 b.1⟩
  have htrans : IsTrans (K × V) order.Before := ⟨fun a b c => order.trans a.1 b.1 c.1⟩
  exact List.pairwise_insertionSort _ _

/-- Entries in the order of a run are the ones that it comes to, if no key is there twice. -/
theorem arranged_eq_iff {entries visited : List (K × V)} (hnodup : (entries.map Prod.fst).Nodup) :
    order.arranged entries = visited ↔ entries.Perm visited ∧ visited.Pairwise order.Before := by
  constructor
  · rintro rfl
    exact ⟨(order.arranged_perm entries).symm, order.pairwise_arranged entries⟩
  · rintro ⟨hperm, hpairwise⟩
    refine List.Perm.eq_of_pairwise ?_ (order.pairwise_arranged entries) hpairwise
      ((order.arranged_perm entries).trans hperm)
    intro a b ha hb hab hba
    have hmem : b ∈ entries := hperm.mem_iff.2 hb
    exact List.inj_on_of_nodup_map hnodup (order.mem_arranged.1 ha) hmem (order.antisymm a.1 b.1 hab hba)

/-- The same entries under the same keys, that stand in the order of the run. -/
theorem arranged_eq_of_subset {entries visited : List (K × V)} (hsubset : entries ⊆ visited)
    (hkeys : (entries.map Prod.fst).Perm (visited.map Prod.fst)) (hnodup : (visited.map Prod.fst).Nodup)
    (hpairwise : visited.Pairwise order.Before) : order.arranged entries = visited := by
  have hentries := hkeys.nodup_iff.2 hnodup
  refine (order.arranged_eq_iff hentries).2 ⟨?_, hpairwise⟩
  refine (List.subperm_of_subset (List.Nodup.of_map Prod.fst hentries) hsubset).perm_of_length_le ?_
  have hlengths := hkeys.length_eq
  rw [List.length_map, List.length_map] at hlengths
  exact hlengths.ge

/-- The entries of a map as they are visited. -/
def entries (m : Table K V) : List (K × V) := order.arranged (m.entries.map fun e => (e.1, e.2))

theorem entries_perm (m : Table K V) : (order.entries m).Perm (m.entries.map fun e => (e.1, e.2)) :=
  order.arranged_perm _

theorem nodup_entries (m : Table K V) : ((order.entries m).map Prod.fst).Nodup := by
  refine order.nodup_arranged ?_
  rw [List.map_map]
  exact m.nodupKeys

/-- A map whose entries stand as they are visited. -/
def table [DecidableEq K] (m : Table K V) : Table K V :=
  ⟨(order.entries m).map fun e => ⟨e.1, e.2⟩, by
    rw [List.NodupKeys, List.keys, List.map_map]
    exact order.nodup_entries m⟩

theorem entries_table [DecidableEq K] (m : Table K V) :
    ((order.table m).entries.map fun e => (e.1, e.2)) = order.entries m := by
  rw [table, List.map_map]
  exact List.map_id _

theorem lookup_table [DecidableEq K] (m : Table K V) (key : K) : (order.table m).lookup key = m.lookup key := by
  refine AList.perm_lookup ?_
  refine ((order.entries_perm m).map _).trans ?_
  rw [List.map_map]
  exact List.Perm.of_eq (List.map_id _)

end

/-- Keys that stand in a list are visited as they stand there. -/
def ofList [LinearOrder K] (keys : List K) : MapOrder K where
  before a b := decide (keys.idxOf a < keys.idxOf b ∨ keys.idxOf a = keys.idxOf b ∧ a ≤ b)
  total a b := by
    simp only [decide_eq_true_eq]
    have hkeys := le_total a b
    rcases Nat.lt_trichotomy (keys.idxOf a) (keys.idxOf b) with h | h | h
    · exact Or.inl (Or.inl h)
    · exact hkeys.imp (fun hle => Or.inr ⟨h, hle⟩) fun hle => Or.inr ⟨h.symm, hle⟩
    · exact Or.inr (Or.inl h)
  trans a b c hab hbc := by
    simp only [decide_eq_true_eq] at hab hbc ⊢
    rcases hab with hab | ⟨hab, hle⟩ <;> rcases hbc with hbc | ⟨hbc, hle'⟩
    · exact Or.inl (by omega)
    · exact Or.inl (by omega)
    · exact Or.inl (by omega)
    · exact Or.inr ⟨by omega, hle.trans hle'⟩
  antisymm a b hab hba := by
    simp only [decide_eq_true_eq] at hab hba
    rcases hab with hab | ⟨hab, hle⟩ <;> rcases hba with hba | ⟨hba, hle'⟩
    · omega
    · omega
    · omega
    · exact le_antisymm hle hle'

/-- **Every order of the entries of a map is one in which a run can come to them.** -/
theorem exists_mapOrder [LinearOrder K] {entries visited : List (K × V)} (hnodup : (entries.map Prod.fst).Nodup)
    (hperm : entries.Perm visited) : ∃ order : MapOrder K, order.arranged entries = visited := by
  refine ⟨ofList (visited.map Prod.fst), (arranged_eq_iff _ hnodup).2 ⟨hperm, ?_⟩⟩
  have hvisited : (visited.map Prod.fst).Nodup := (hperm.map Prod.fst).nodup_iff.1 hnodup
  rw [List.pairwise_iff_getElem]
  intro i j hi hj hij
  refine decide_eq_true (Or.inl ?_)
  have hindex : ∀ k (hk : k < visited.length), (visited.map Prod.fst).idxOf visited[k].1 = k := by
    intro k hk
    have hkeys : k < (visited.map Prod.fst).length := by rwa [List.length_map]
    have hget : (visited.map Prod.fst)[k] = visited[k].1 := List.getElem_map ..
    rw [← hget]
    exact hvisited.idxOf_getElem k hkeys
  rw [hindex i hi, hindex j hj]
  exact hij

end MapOrder

end Workbench.Lib
