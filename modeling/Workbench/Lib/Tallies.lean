import Mathlib.Algebra.GroupWithZero.Nat
import Workbench.Lib.Table

/-!
# Counters beside the rows that they count

A row belongs to one class or to none. A table of counters is exact where it has under each class the
number of the rows of this class, and a class without a counter has no rows.
-/

set_option autoImplicit false

namespace Workbench.Lib

variable {K V W : Type} [DecidableEq K]

/-- A row of the class that counts. -/
def inClass (key : V → Option K) (p : V → Bool) (k : K) (v : V) : Bool := (key v = some k) && p v

/-- What the counter of a class says; it is zero where there is none. -/
def countOf (f : W → Nat) (t : Table K W) (k : K) : Nat := ((t.lookup k).map f).getD 0

/-- The counters say how many rows of each class there are. -/
def Tallies (key : V → Option K) (p : V → Bool) (f : W → Nat) (rows : List V) (t : Table K W) : Prop :=
  ∀ k, countOf f t k = rows.countP (inClass key p k)

variable {key : V → Option K} {p : V → Bool} {f : W → Nat} {rows : List V} {t : Table K W} {k : K}
  {v : V} {w : W}

theorem countOf_lookup (hlookup : t.lookup k = some w) : countOf f t k = f w := by
  rw [countOf, hlookup]
  rfl

theorem countOf_insert (k k' : K) (w : W) (t : Table K W) :
    countOf f (t.insert k w) k' = if k' = k then f w else countOf f t k' := by
  by_cases hk : k' = k
  · rw [if_pos hk, hk, countOf, AList.lookup_insert]
    rfl
  · rw [if_neg hk, countOf, AList.lookup_insert_ne hk]
    rfl

theorem countOf_delete (gone : K → Bool) (t : Table K W) (k : K) :
    countOf f (t.alter gone fun _ => none) k = if gone k then 0 else countOf f t k := by
  rw [countOf, countOf, Table.lookup_alter]
  cases gone k with
  | false => rfl
  | true => cases t.lookup k <;> rfl

theorem inClass_of_key {k' : K} (hkey : key v = some k') :
    inClass key p k v = (decide (k = k') && p v) := by
  have hiff : key v = some k ↔ k = k' := by
    rw [hkey, Option.some.injEq]
    exact eq_comm
  rw [inClass, decide_eq_decide.2 hiff]

theorem inClass_of_none (hkey : key v = none) : inClass key p k v = false := by
  rw [inClass, hkey]
  rfl

namespace Tallies

/-- New rows of one class, of which `n` count. -/
theorem add {new : List V} {n : Nat} (h : Tallies key p f rows t) (hnew : ∀ v ∈ new, key v = some k)
    (hn : new.countP p = n) (hw : f w = countOf f t k + n) :
    Tallies key p f (new ++ rows) (t.insert k w) := by
  intro k'
  rw [countOf_insert, List.countP_append]
  by_cases hk : k' = k
  · -- the class of the new rows
    have hall : new.countP (inClass key p k') = n := by
      rw [← hn]
      apply List.countP_congr
      intro v hv
      rw [inClass_of_key (hnew v hv), decide_eq_true hk, Bool.true_and]
    rw [if_pos hk, hall, hw, h k, hk, Nat.add_comm]
  · -- none of the new rows is of another class
    have hnone : new.countP (inClass key p k') = 0 := by
      apply List.countP_eq_zero.2
      intro v hv
      rw [inClass_of_key (hnew v hv), decide_eq_false hk, Bool.false_and]
      exact Bool.false_ne_true
    rw [if_neg hk, hnone, h k', Nat.zero_add]

/-- A new row of no class. -/
theorem skip (h : Tallies key p f rows t) (hnew : key v = none) : Tallies key p f (v :: rows) t := by
  intro k
  rw [List.countP_cons, inClass_of_none hnew]
  exact h k

/-- Whole classes that are deleted with their counters. -/
theorem delete {gone : K → Bool} {keep : V → Bool} (h : Tallies key p f rows t)
    (hkeep : ∀ v ∈ rows, ∀ k, key v = some k → keep v = !gone k) :
    Tallies key p f (rows.filter keep) (t.alter gone fun _ => none) := by
  intro k
  rw [countOf_delete, List.countP_filter, h k]
  -- a row stays exactly if its class does
  have hrow : ∀ v ∈ rows, inClass key p k v = true → keep v = !gone k := by
    intro v hv hclass
    rw [inClass, Bool.and_eq_true, decide_eq_true_eq] at hclass
    exact hkeep v hv k hclass.1
  cases hgone : gone k with
  | true =>
    rw [if_pos rfl]
    symm
    apply List.countP_eq_zero.2
    intro v hv hboth
    rw [Bool.and_eq_true] at hboth
    have hnot := hrow v hv hboth.1
    rw [hgone, hboth.2] at hnot
    cases hnot
  | false =>
    rw [if_neg Bool.false_ne_true]
    apply List.countP_congr
    intro v hv
    rw [Bool.and_eq_true]
    constructor
    · intro hclass
      have hkept := hrow v hv hclass
      rw [hgone] at hkept
      exact ⟨hclass, hkept⟩
    · exact And.left

end Tallies

/-! ## Sums of counters -/

theorem countP_disjoint {a b c : V → Bool} (hor : ∀ v ∈ rows, c v = (a v || b v))
    (hand : ∀ v ∈ rows, (a v && b v) = false) : rows.countP c = rows.countP a + rows.countP b := by
  induction rows with
  | nil => rfl
  | cons v rest ih =>
    have hv := hor v List.mem_cons_self
    have hv' := hand v List.mem_cons_self
    have hrest := ih (fun u hu => hor u (List.mem_cons_of_mem _ hu))
      (fun u hu => hand u (List.mem_cons_of_mem _ hu))
    rw [List.countP_cons, List.countP_cons, List.countP_cons, hrest, hv]
    cases ha : a v with
    | false => cases b v <;> simp [Nat.add_assoc]
    | true =>
      rw [ha, Bool.true_and] at hv'
      rw [hv']
      simp only [Bool.or_false, if_true, Bool.false_eq_true, if_false]
      omega

/-- Rows of a kind that are all of another kind, as many as there are of this one. -/
theorem of_countP_eq {a c : V → Bool} (hsub : ∀ v ∈ rows, a v = true → c v = true)
    (hcount : rows.countP c = rows.countP a) (hv : v ∈ rows) (hc : c v = true) : a v = true := by
  -- the rows of the kind `c` that are not of the kind `a` would come on top
  have hsplit : rows.countP c = rows.countP a + rows.countP fun u => c u && !a u := by
    apply countP_disjoint
    · intro u hu
      cases ha : a u with
      | false => simp
      | true => simp [hsub u hu ha]
    · intro u _
      cases a u <;> simp
  have hzero : (rows.countP fun u => c u && !a u) = 0 := by omega
  have hnot := List.countP_eq_zero.1 hzero v hv
  rw [hc, Bool.true_and, Bool.not_eq_true, Bool.not_eq_false'] at hnot
  exact hnot

/-- The rows of several classes. -/
theorem sum_classes (key : V → Option K) (p : V → Bool) (rows : List V) {ks : List K}
    (hnodup : ks.Nodup) :
    (ks.map fun k => rows.countP (inClass key p k)).sum =
      rows.countP fun v => (key v).any (fun k => k ∈ ks) && p v := by
  induction ks with
  | nil =>
    symm
    apply List.countP_eq_zero.2
    intro v _
    cases key v <;> simp
  | cons k rest ih =>
    obtain ⟨hk, hrest⟩ := List.nodup_cons.1 hnodup
    rw [List.map_cons, List.sum_cons, ih hrest]
    symm
    apply countP_disjoint
    · intro v _
      cases hkey : key v with
      | none => simp [inClass_of_none hkey]
      | some k' =>
        rw [inClass_of_key hkey, ← Bool.and_or_distrib_right]
        simp [List.mem_cons, eq_comm]
    · intro v _
      cases hkey : key v with
      | none => simp
      | some k' =>
        rw [inClass_of_key hkey]
        by_cases heq : k = k'
        · subst heq
          simp [hk]
        · simp [heq]

/-- The counters of the classes in `q` add up to the rows of these classes. -/
theorem Tallies.total (h : Tallies key p f rows t) (q : K → Bool) :
    ((t.entries.filter fun e => q e.1).map fun e => f e.2).sum =
      rows.countP fun v => (key v).any q && p v := by
  have hmap : ((t.entries.filter fun e => q e.1).map fun e => f e.2) =
      ((t.entries.filter fun e => q e.1).map Sigma.fst).map
        fun k => rows.countP (inClass key p k) := by
    rw [List.map_map]
    apply List.map_congr_left
    intro e he
    have hlookup := Table.mem_entries.1 (List.mem_of_mem_filter he)
    rw [Function.comp_apply, ← h e.1, countOf_lookup hlookup]
  -- no key comes twice, so that no row is counted by two counters
  have hnodup : ((t.entries.filter fun e => q e.1).map Sigma.fst).Nodup :=
    t.keys_nodup.sublist (List.filter_sublist.map Sigma.fst)
  rw [hmap, sum_classes key p rows hnodup]
  apply List.countP_congr
  intro v hv
  rw [Bool.and_eq_true, Bool.and_eq_true, Option.any_eq_true, Option.any_eq_true]
  constructor
  · rintro ⟨⟨k, hkey, hmem⟩, hp⟩
    obtain ⟨e, he, rfl⟩ := List.mem_map.1 (of_decide_eq_true hmem)
    exact ⟨⟨e.1, hkey, (List.mem_filter.1 he).2⟩, hp⟩
  · rintro ⟨⟨k, hkey, hq⟩, hp⟩
    -- the row itself is counted, so its class has a counter
    have hclass : inClass key p k v = true := by
      rw [inClass_of_key hkey, hp]
      simp
    have hpos : 0 < countOf f t k := by
      rw [h k]
      exact List.countP_pos_iff.2 ⟨v, hv, hclass⟩
    cases hlookup : t.lookup k with
    | none => simp [countOf, hlookup] at hpos
    | some w =>
      refine ⟨⟨k, hkey, decide_eq_true ?_⟩, hp⟩
      apply List.mem_map.2
      exact ⟨⟨k, w⟩, List.mem_filter.2 ⟨Table.mem_entries.2 hlookup, hq⟩, rfl⟩

end Workbench.Lib
