import Mathlib.Logic.Basic

/-!
# Three-valued conditions

The truth values of SQL, and a conjunction of comparisons as a `WHERE` clause has it: a row is selected
when the condition is true of it, and an unknown comparison selects nothing.
-/

set_option autoImplicit false

namespace Workbench.Lib

/-- `true`, `false`, or unknown. -/
abbrev Truth : Type := Option Bool

namespace Truth

def and : Truth → Truth → Truth
  | some false, _ => some false
  | _, some false => some false
  | some true, some true => some true
  | _, _ => none

def all : List Truth → Truth
  | [] => some true
  | t :: rest => t.and (all rest)

theorem and_eq_true {s t : Truth} : s.and t = some true ↔ s = some true ∧ t = some true := by
  cases s with
  | none =>
    cases t with
    | none => simp [and]
    | some b => cases b <;> simp [and]
  | some a =>
    cases t with
    | none => cases a <;> simp [and]
    | some b => cases a <;> cases b <;> simp [and]

/-- A conjunction selects what every one of its parts selects. -/
theorem all_eq_true {ts : List Truth} : all ts = some true ↔ ∀ t ∈ ts, t = some true := by
  induction ts with
  | nil => simp [all]
  | cons t rest ih => rw [all, and_eq_true, ih, List.forall_mem_cons]

end Truth

end Workbench.Lib
