import Mathlib.Algebra.GroupWithZero.Nat
import Mathlib.Data.List.Induction

/-!
# Paths with dots

A path is walked segment by segment from a root: a name goes down, an up goes back where there is something to go
back from. `resolve` gives the names that are left, the last one in front; `lastName` finds them from the end of the
path, where each up takes one name away (`getElem?_resolve`).
-/

set_option autoImplicit false

namespace Workbench.Lib

variable {α : Type}

inductive Step (α : Type) where
  | stay
  | up
  | down (name : α)
  deriving DecidableEq, Repr

namespace Step

/-- One segment behind the names that are left so far. -/
def walk (front : List α) : Step α → List α
  | stay => front
  | up => front.tail
  | down name => name :: front

/-- The names that are left of a path, in reverse. -/
def resolve (steps : List (Step α)) : List α := steps.foldl walk []

/-- Of a path in reverse: the name in front of the last `n` ones that are left. -/
def lastName : Nat → List (Step α) → Option α
  | _, [] => none
  | n, stay :: rest => lastName n rest
  | n, up :: rest => lastName (n + 1) rest
  | 0, down name :: _ => some name
  | n + 1, down _ :: rest => lastName n rest

theorem resolve_append_singleton (steps : List (Step α)) (s : Step α) :
    resolve (steps ++ [s]) = walk (resolve steps) s := by
  rw [resolve, List.foldl_append]
  rfl

/-- Both find the same names. -/
theorem getElem?_resolve (steps : List (Step α)) (n : Nat) :
    (resolve steps)[n]? = lastName n steps.reverse := by
  induction steps using List.reverseRecOn generalizing n with
  | nil => rfl
  | append_singleton steps s ih =>
    rw [resolve_append_singleton, List.reverse_append, List.reverse_singleton, List.singleton_append]
    cases s with
    | stay => exact ih n
    | up =>
      show (resolve steps).tail[n]? = lastName (n + 1) steps.reverse
      rw [List.getElem?_tail]
      exact ih (n + 1)
    | down name =>
      cases n with
      | zero => rfl
      | succ n =>
        show (name :: resolve steps)[n + 1]? = lastName n steps.reverse
        rw [List.getElem?_cons_succ]
        exact ih n

theorem head?_resolve (steps : List (Step α)) : (resolve steps).head? = lastName 0 steps.reverse := by
  rw [← getElem?_resolve, List.head?_eq_getElem?]

/-- What is left stood in the path. -/
theorem mem_of_mem_foldl_walk {steps : List (Step α)} {front : List α} {name : α}
    (h : name ∈ steps.foldl walk front) : name ∈ front ∨ down name ∈ steps := by
  induction steps generalizing front with
  | nil => exact Or.inl h
  | cons s rest ih =>
    rw [List.foldl_cons] at h
    rcases ih h with hfront | hrest
    · cases s with
      | stay => exact Or.inl hfront
      | up => exact Or.inl (List.mem_of_mem_tail hfront)
      | down other =>
        rcases List.mem_cons.1 hfront with rfl | hmem
        · exact Or.inr List.mem_cons_self
        · exact Or.inl hmem
    · exact Or.inr (List.mem_cons_of_mem _ hrest)

theorem mem_of_mem_resolve {steps : List (Step α)} {name : α} (h : name ∈ resolve steps) : down name ∈ steps :=
  (mem_of_mem_foldl_walk h).resolve_left List.not_mem_nil

/-- The size of what a segment adds. -/
def size (sizeOf : α → Nat) : Step α → Nat
  | stay => 0
  | up => 0
  | down name => sizeOf name

/-- What is left is no larger than the path. -/
theorem sum_foldl_walk_le (sizeOf : α → Nat) (steps : List (Step α)) (front : List α) :
    ((steps.foldl walk front).map sizeOf).sum ≤ (front.map sizeOf).sum + (steps.map (size sizeOf)).sum := by
  induction steps generalizing front with
  | nil => exact Nat.le_add_right _ _
  | cons s rest ih =>
    have hwalk : ((walk front s).map sizeOf).sum ≤ (front.map sizeOf).sum + size sizeOf s := by
      cases s with
      | stay => exact Nat.le_add_right _ _
      | up =>
        have htail : (front.tail.map sizeOf).sum ≤ (front.map sizeOf).sum := by
          cases front with
          | nil => exact Nat.le_refl _
          | cons name more => exact Nat.le_add_left _ _
        exact Nat.le_trans htail (Nat.le_add_right _ _)
      | down name => exact Nat.le_of_eq (Nat.add_comm _ _)
    have hrest := ih (walk front s)
    rw [List.foldl_cons, List.map_cons, List.sum_cons]
    omega

theorem sum_resolve_le (sizeOf : α → Nat) (steps : List (Step α)) :
    ((resolve steps).map sizeOf).sum ≤ (steps.map (size sizeOf)).sum := by
  have h := sum_foldl_walk_le sizeOf steps []
  rwa [List.map_nil, List.sum_nil, Nat.zero_add] at h

end Step

end Workbench.Lib
