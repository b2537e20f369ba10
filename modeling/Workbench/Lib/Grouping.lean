import Mathlib.Data.List.Induction
import Mathlib.Data.List.Nodup

/-!
# Rows gathered by their key

A loop over rows that keeps one value for each key in a map, and the keys in the order in which they turn up. What it
has for a key depends on the rows of this key only.
-/

set_option autoImplicit false

namespace Workbench.Lib

universe u v w

variable {ρ : Type u} {κ : Type v} {γ : Type w}

/-- A map and the order of its keys. -/
structure Groups (κ : Type v) (γ : Type w) where
  found : κ → Option γ
  order : List κ

namespace Groups

def empty : Groups κ γ := ⟨fun _ => none, []⟩

/-- How a row starts the value of its key, and how it is put into a value. -/
structure Gathering (ρ : Type u) (κ : Type v) (γ : Type w) where
  key : ρ → κ
  fresh : ρ → γ
  put : γ → ρ → γ

variable (g : Gathering ρ κ γ)

/-- One pass of the loop. -/
def add [DecidableEq κ] (groups : Groups κ γ) (row : ρ) : Groups κ γ :=
  let old := (groups.found (g.key row)).getD (g.fresh row)
  ⟨Function.update groups.found (g.key row) (some (g.put old row)),
    if (groups.found (g.key row)).isNone then groups.order ++ [g.key row] else groups.order⟩

def run [DecidableEq κ] (rows : List ρ) : Groups κ γ := rows.foldl (add g) empty

/-- The values in the order of their keys. -/
def values (groups : Groups κ γ) : List γ := groups.order.filterMap groups.found

/-- The value that the rows of one key make. -/
def gathered : List ρ → Option γ
  | [] => none
  | row :: rest => some ((row :: rest).foldl g.put (g.fresh row))

theorem gathered_append (rows : List ρ) (row : ρ) :
    gathered g (rows ++ [row]) = some (g.put ((gathered g rows).getD (g.fresh row)) row) := by
  cases rows with
  | nil => rfl
  | cons first rest =>
    rw [List.cons_append, gathered, ← List.cons_append, List.foldl_append]
    rfl

theorem gathered_eq_none {rows : List ρ} : gathered g rows = none ↔ rows = [] := by
  cases rows with
  | nil => exact ⟨fun _ => rfl, fun _ => rfl⟩
  | cons row rest => exact ⟨fun h => absurd h (Option.some_ne_none _), fun h => absurd h (List.cons_ne_nil _ _)⟩

variable [DecidableEq κ]

theorem run_append (rows : List ρ) (row : ρ) : run g (rows ++ [row]) = add g (run g rows) row := by
  rw [run, List.foldl_append]
  rfl

/-- What the loop has for a key. -/
theorem found_run (rows : List ρ) (k : κ) :
    (run g rows).found k = gathered g (rows.filter fun row => g.key row = k) := by
  induction rows using List.reverseRecOn with
  | nil => rfl
  | append_singleton rows row ih =>
    rw [run_append, add, List.filter_append]
    by_cases hk : g.key row = k
    · rw [← hk] at ih ⊢
      dsimp only
      rw [Function.update_self, List.filter_cons_of_pos (by simp), List.filter_nil, gathered_append, ih]
    · dsimp only
      rw [Function.update_of_ne (Ne.symm hk), List.filter_cons_of_neg (by simpa using hk), List.filter_nil,
        List.append_nil, ih]

/-- The keys in order are those that have a value. -/
theorem mem_order_run (rows : List ρ) (k : κ) : k ∈ (run g rows).order ↔ ((run g rows).found k).isSome := by
  induction rows using List.reverseRecOn with
  | nil => simp [run, empty]
  | append_singleton rows row ih =>
    rw [run_append, add]
    dsimp only
    by_cases hk : k = g.key row
    · subst hk
      rw [Function.update_self, Option.isSome_some]
      cases hfound : (run g rows).found (g.key row) with
      | none => simp
      | some value => simp [ih, hfound]
    · rw [Function.update_of_ne hk, ← ih]
      cases hfound : (run g rows).found (g.key row) with
      | none => simp [hk]
      | some value => simp

/-- The values are those that the rows of each key make. -/
theorem mem_values_run {rows : List ρ} {value : γ} :
    value ∈ (run g rows).values ↔ ∃ k, gathered g (rows.filter fun row => g.key row = k) = some value := by
  rw [values, List.mem_filterMap]
  constructor
  · rintro ⟨k, -, hfound⟩
    exact ⟨k, (found_run g rows k).symm.trans hfound⟩
  · rintro ⟨k, hgathered⟩
    have hfound : (run g rows).found k = some value := (found_run g rows k).trans hgathered
    refine ⟨k, ?_, hfound⟩
    rw [mem_order_run, hfound]
    rfl

end Groups

/-! ## One among many -/

section

variable {α : Type u} {β : Type v} {f : α → List β} {l : List α} {a b : α}

theorem exists_split_of_nodup (hl : l.Nodup) (ha : a ∈ l) :
    ∃ front back, l = front ++ a :: back ∧ ∀ x ∈ front ++ back, x ∈ l ∧ x ≠ a := by
  obtain ⟨front, back, rfl⟩ := List.append_of_mem ha
  refine ⟨front, back, rfl, ?_⟩
  intro x hx
  have hnot : a ∉ front ++ back := (List.nodup_cons.1 (List.perm_middle.nodup_iff.1 hl)).1
  refine ⟨List.perm_middle.mem_iff.2 (List.mem_cons_of_mem a hx), ?_⟩
  rintro rfl
  exact hnot hx

/-- What a flat map has if one element alone gives something. -/
theorem flatMap_alone (hl : l.Nodup) (ha : a ∈ l) (h : ∀ x ∈ l, x ≠ a → f x = []) : l.flatMap f = f a := by
  obtain ⟨front, back, heq, hothers⟩ := exists_split_of_nodup hl ha
  have hnone : ∀ part : List α, part ⊆ front ++ back → part.flatMap f = [] := by
    intro part hpart
    rw [List.flatMap_eq_nil_iff]
    intro x hx
    exact h x (hothers x (hpart hx)).1 (hothers x (hpart hx)).2
  rw [heq, List.flatMap_append, List.flatMap_cons, hnone front (List.subset_append_left _ _),
    hnone back (List.subset_append_right _ _), List.nil_append, List.append_nil]

/-- What a filter leaves that one element alone passes. -/
theorem filter_alone {p : α → Bool} (hl : l.Nodup) (ha : a ∈ l) (h : ∀ x ∈ l, p x = true ↔ x = a) :
    l.filter p = [a] := by
  obtain ⟨front, back, heq, hothers⟩ := exists_split_of_nodup hl ha
  have hnone : ∀ part : List α, part ⊆ front ++ back → part.filter p = [] := by
    intro part hpart
    rw [List.filter_eq_nil_iff]
    intro x hx hp
    exact (hothers x (hpart hx)).2 ((h x (hothers x (hpart hx)).1).1 hp)
  rw [heq, List.filter_append, List.filter_cons_of_pos ((h a ha).2 rfl), hnone front (List.subset_append_left _ _),
    hnone back (List.subset_append_right _ _), List.nil_append]

/-- Two elements give at most what all give. -/
theorem length_flatMap_two (ha : a ∈ l) (hb : b ∈ l) (hne : b ≠ a) :
    (f a).length + (f b).length ≤ (l.flatMap f).length := by
  obtain ⟨front, back, rfl⟩ := List.append_of_mem ha
  have hpart : ∀ part : List α, b ∈ part → (f b).length ≤ (part.flatMap f).length := fun part hmem =>
    (List.sublist_flatten_of_mem (List.mem_map_of_mem hmem)).length_le
  rw [List.flatMap_append, List.flatMap_cons, List.length_append, List.length_append]
  rcases List.mem_append.1 hb with hfront | hback
  · have hle := hpart front hfront
    omega
  · have hle := hpart back ((List.mem_cons.1 hback).resolve_left hne)
    omega

/-- A filter that decides by the element that gave the item. -/
theorem filter_flatMap_of_eq {p : α → Bool} {q : β → Bool} (h : ∀ x ∈ l, ∀ y ∈ f x, q y = p x) :
    (l.flatMap f).filter q = (l.filter p).flatMap f := by
  induction l with
  | nil => rfl
  | cons x rest ih =>
    rw [List.flatMap_cons, List.filter_append, ih fun z hz => h z (List.mem_cons_of_mem x hz)]
    cases hp : p x with
    | true =>
      have hall : ∀ y ∈ f x, q y = true := fun y hy => (h x List.mem_cons_self y hy).trans hp
      rw [List.filter_cons_of_pos hp, List.flatMap_cons, List.filter_eq_self.2 hall]
    | false =>
      have hnone : ∀ y ∈ f x, ¬q y = true := by
        intro y hy
        rw [h x List.mem_cons_self y hy, hp]
        exact Bool.false_ne_true
      rw [List.filter_cons_of_neg (by rw [hp]; exact Bool.false_ne_true), List.filter_eq_nil_iff.2 hnone,
        List.nil_append]

/-- Positions that increase are different. -/
theorem eq_of_pairwise_lt {items : List β} {position : β → Nat}
    (h : items.Pairwise fun x y => position x < position y) {x y : β} (hx : x ∈ items) (hy : y ∈ items)
    (hsame : position x = position y) : x = y := by
  have hnodup : (items.map position).Nodup := List.pairwise_map.2 (h.imp Nat.ne_of_lt)
  exact List.inj_on_of_nodup_map hnodup hx hy hsame

/-- The items of one element, where the elements are told apart by a name that their items have. -/
theorem filter_flatMap_name {κ : Type w} [DecidableEq κ] {name : α → κ} {key : β → κ} (hl : (l.map name).Nodup)
    (hkey : ∀ x ∈ l, ∀ y ∈ f x, key y = name x) (ha : a ∈ l) :
    (l.flatMap f).filter (fun y => key y = name a) = f a := by
  have hsame : ∀ x ∈ l, ∀ y ∈ f x, decide (key y = name a) = decide (name x = name a) := by
    intro x hx y hy
    rw [hkey x hx y hy]
  have halone : l.filter (fun x => name x = name a) = [a] := by
    refine filter_alone hl.of_map ha fun x hx => ?_
    rw [decide_eq_true_iff]
    exact ⟨fun h => List.inj_on_of_nodup_map hl hx ha h, fun h => h ▸ rfl⟩
  rw [filter_flatMap_of_eq hsame, halone, List.flatMap_singleton]

/-- Items that come in any order are, filtered, in the one order that their positions have. -/
theorem filter_eq_of_positions (position : β → Nat) {stream all items : List β} {p : β → Bool}
    (hperm : stream.Perm all) (hitems : all.filter p = items)
    (hincreasing : items.Pairwise fun x y => position x < position y)
    (hordered : (stream.filter p).Pairwise fun x y => position x ≤ position y) : stream.filter p = items := by
  have hsame : (stream.filter p).Perm items := hitems ▸ hperm.filter p
  have hitems : items.Pairwise fun x y => position x ≤ position y := hincreasing.imp Nat.le_of_lt
  refine hsame.eq_of_pairwise ?_ hordered hitems
  intro x y hx hy hle hle'
  exact eq_of_pairwise_lt hincreasing (hsame.mem_iff.1 hx) hy (Nat.le_antisymm hle hle')

end

end Workbench.Lib
