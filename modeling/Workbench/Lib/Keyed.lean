import Mathlib.Data.List.Basic

/-!
# Operations on the items of one key

A step that reads and changes the items of one key only. A run of such steps is the runs for each key on their own:
it goes through just if each of them does, and it leaves for each key what that run leaves.
-/

set_option autoImplicit false

namespace Workbench.Lib.Keyed

universe u v w

variable {ι : Type u} {o : Type v} {κ : Type w} [DecidableEq κ]

/-- The step of an operation reads and changes the items of its own key. -/
structure Local (itemKey : ι → κ) (opKey : o → κ) (step : List ι → o → Option (List ι)) : Prop where
  own : ∀ items op, step (items.filter fun i => itemKey i = opKey op) op =
    (step items op).map fun done => done.filter fun i => itemKey i = opKey op
  other : ∀ items op done, step items op = some done → ∀ key, key ≠ opKey op →
    (done.filter fun i => itemKey i = key) = items.filter fun i => itemKey i = key

variable {itemKey : ι → κ} {opKey : o → κ} {step : List ι → o → Option (List ι)}

namespace Local

variable (hlocal : Local itemKey opKey step)

include hlocal

theorem step_key {items done : List ι} {op : o} (h : step items op = some done) :
    step (items.filter fun i => itemKey i = opKey op) op = some (done.filter fun i => itemKey i = opKey op) := by
  rw [hlocal.own, h]
  rfl

/-- What a run leaves for a key is what the operations of the key leave of its items. -/
theorem run_key (key : κ) (ops : List o) {items done : List ι} (h : ops.foldlM step items = some done) :
    (ops.filter fun op => opKey op = key).foldlM step (items.filter fun i => itemKey i = key) =
      some (done.filter fun i => itemKey i = key) := by
  induction ops generalizing items with
  | nil =>
    cases h
    rfl
  | cons op ops ih =>
    obtain ⟨next, hnext, hrest⟩ := Option.bind_eq_some_iff.1 h
    by_cases hkey : opKey op = key
    · rw [List.filter_cons_of_pos (by simp [hkey]), List.foldlM_cons]
      have hstep := hlocal.step_key hnext
      rw [hkey] at hstep
      rw [hstep]
      exact ih hrest
    · -- the items of the key are as before
      rw [List.filter_cons_of_neg (by simp [hkey]), ← hlocal.other items op next hnext key (Ne.symm hkey)]
      exact ih hrest

/-- A run goes through if the runs for each key do. -/
theorem run_of_key (ops : List o) {items : List ι}
    (h : ∀ key, ∃ done, (ops.filter fun op => opKey op = key).foldlM step (items.filter fun i => itemKey i = key) =
      some done) :
    ∃ done, ops.foldlM step items = some done := by
  induction ops generalizing items with
  | nil => exact ⟨items, rfl⟩
  | cons op ops ih =>
    -- the first operation is the first of those of its key
    obtain ⟨last, hlast⟩ := h (opKey op)
    rw [List.filter_cons_of_pos (by simp), List.foldlM_cons] at hlast
    obtain ⟨own, hown, -⟩ := Option.bind_eq_some_iff.1 hlast
    rw [hlocal.own] at hown
    obtain ⟨next, hnext, -⟩ := Option.map_eq_some_iff.1 hown
    rw [List.foldlM_cons, hnext]
    apply ih
    intro key
    obtain ⟨done, hdone⟩ := h key
    by_cases hkey : opKey op = key
    · rw [List.filter_cons_of_pos (by simp [hkey]), List.foldlM_cons] at hdone
      have hstep := hlocal.step_key hnext
      rw [hkey] at hstep
      rw [hstep] at hdone
      exact ⟨done, hdone⟩
    · rw [List.filter_cons_of_neg (by simp [hkey])] at hdone
      rw [hlocal.other items op next hnext key (Ne.symm hkey)]
      exact ⟨done, hdone⟩

end Local

end Workbench.Lib.Keyed
