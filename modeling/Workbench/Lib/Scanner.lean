import Mathlib.Tactic

/-!
# Left-to-right scanners

A scanner reads a list one symbol at a time, emits output on the way and flushes its pending
output at the end of the input. This file holds the composition rules of such machines: a run over
a concatenation is the run over the first part followed by the run over the second from the state
reached (`scan_append`), a segment relation `Run` that composes (`Run.append`), the segments that
leave no trace (`Skips`), and the invariant rule (`inv_of_step`).
-/

set_option autoImplicit false

namespace Workbench.Lib

universe u v w

/-- A scanner with states `σ`, input symbols `α` and output symbols `τ`. -/
structure Scanner (σ : Type u) (α : Type v) (τ : Type w) where
  step : σ → α → σ × List τ
  flush : σ → List τ

namespace Scanner

variable {σ : Type u} {α : Type v} {τ : Type w} (M : Scanner σ α τ)

/-- The state after reading a list. -/
def reach : σ → List α → σ
  | s, [] => s
  | s, a :: xs => reach (M.step s a).1 xs

/-- The output emitted while reading a list, the pending output not included. -/
def emits : σ → List α → List τ
  | _, [] => []
  | s, a :: xs => (M.step s a).2 ++ emits (M.step s a).1 xs

/-- The whole output on a list that ends there. -/
def scan (s : σ) (xs : List α) : List τ := M.emits s xs ++ M.flush (M.reach s xs)

@[simp] theorem reach_nil (s : σ) : M.reach s [] = s := rfl

@[simp] theorem emits_nil (s : σ) : M.emits s [] = [] := rfl

@[simp] theorem scan_nil (s : σ) : M.scan s [] = M.flush s := rfl

theorem reach_cons (s : σ) (a : α) (xs : List α) :
    M.reach s (a :: xs) = M.reach (M.step s a).1 xs := rfl

theorem emits_cons (s : σ) (a : α) (xs : List α) :
    M.emits s (a :: xs) = (M.step s a).2 ++ M.emits (M.step s a).1 xs := rfl

theorem scan_cons (s : σ) (a : α) (xs : List α) :
    M.scan s (a :: xs) = (M.step s a).2 ++ M.scan (M.step s a).1 xs := by
  simp [scan, reach_cons, emits_cons]

theorem reach_append (s : σ) (xs ys : List α) :
    M.reach s (xs ++ ys) = M.reach (M.reach s xs) ys := by
  induction xs generalizing s with
  | nil => rfl
  | cons a xs ih => exact ih _

theorem emits_append (s : σ) (xs ys : List α) :
    M.emits s (xs ++ ys) = M.emits s xs ++ M.emits (M.reach s xs) ys := by
  induction xs generalizing s with
  | nil => rfl
  | cons a xs ih =>
    simp only [List.cons_append, emits_cons, reach_cons, ih, List.append_assoc]

theorem scan_append (s : σ) (xs ys : List α) :
    M.scan s (xs ++ ys) = M.emits s xs ++ M.scan (M.reach s xs) ys := by
  simp only [scan, emits_append, reach_append, List.append_assoc]

/-! ## Segments -/

/-- Reading `xs` from `s` emits `out` and ends in `t`. -/
def Run (s : σ) (xs : List α) (out : List τ) (t : σ) : Prop :=
  M.reach s xs = t ∧ M.emits s xs = out

variable {M}

theorem Run.nil (s : σ) : M.Run s [] [] s := ⟨rfl, rfl⟩

theorem Run.append {s t r : σ} {xs ys : List α} {out out' : List τ}
    (h : M.Run s xs out t) (h' : M.Run t ys out' r) : M.Run s (xs ++ ys) (out ++ out') r := by
  obtain ⟨rfl, rfl⟩ := h
  obtain ⟨rfl, rfl⟩ := h'
  exact ⟨M.reach_append s xs ys, M.emits_append s xs ys⟩

theorem Run.cons {s t : σ} {a : α} {xs : List α} {out : List τ}
    (h : M.Run (M.step s a).1 xs out t) : M.Run s (a :: xs) ((M.step s a).2 ++ out) t :=
  ⟨h.1, by rw [emits_cons, h.2]⟩

theorem Run.single (s : σ) (a : α) : M.Run s [a] (M.step s a).2 (M.step s a).1 :=
  ⟨rfl, by simp [emits_cons]⟩

theorem Run.of_step {s t : σ} {a : α} {out : List τ} (h : M.step s a = (t, out)) :
    M.Run s [a] out t := by
  have hrun := Run.single (M := M) s a
  rw [h] at hrun
  exact hrun

/-- A segment at the front of the input is replaced by its output. -/
theorem Run.scan {s t : σ} {xs : List α} {out : List τ} (h : M.Run s xs out t) (ys : List α) :
    M.scan s (xs ++ ys) = out ++ M.scan t ys := by
  rw [scan_append, h.1, h.2]

theorem Run.reach_append {s t : σ} {xs : List α} {out : List τ} (h : M.Run s xs out t)
    (ys : List α) : M.reach s (xs ++ ys) = M.reach t ys := by
  rw [M.reach_append, h.1]

variable (M)

theorem run_reach (s : σ) (xs : List α) : M.Run s xs (M.emits s xs) (M.reach s xs) := ⟨rfl, rfl⟩

/-- Reading `xs` from `s` leaves no trace: nothing is emitted and the state is unchanged. -/
def Skips (s : σ) (xs : List α) : Prop := M.Run s xs [] s

variable {M}

theorem Skips.scan {s : σ} {xs : List α} (h : M.Skips s xs) (ys : List α) :
    M.scan s (xs ++ ys) = M.scan s ys := by
  rw [Run.scan h, List.nil_append]

/-! ## Invariants -/

/-- A state invariant kept by every step, with a property of every emitted symbol, holds along
every run. -/
theorem inv_of_step {I : σ → Prop} {P : τ → Prop}
    (hstep : ∀ s a, I s → I (M.step s a).1 ∧ ∀ x ∈ (M.step s a).2, P x) {s : σ} (hs : I s)
    (xs : List α) : I (M.reach s xs) ∧ ∀ x ∈ M.emits s xs, P x := by
  induction xs generalizing s with
  | nil => exact ⟨hs, by simp⟩
  | cons a xs ih =>
    obtain ⟨hi, hp⟩ := hstep s a hs
    obtain ⟨hi', hp'⟩ := ih hi
    refine ⟨hi', fun x hx => ?_⟩
    rw [emits_cons, List.mem_append] at hx
    exact hx.elim (hp x) (hp' x)

/-- The invariant rule for a whole scan: the flushed output has the property as well. -/
theorem scan_of_step {I : σ → Prop} {P : τ → Prop}
    (hstep : ∀ s a, I s → I (M.step s a).1 ∧ ∀ x ∈ (M.step s a).2, P x)
    (hflush : ∀ s, I s → ∀ x ∈ M.flush s, P x) {s : σ} (hs : I s) (xs : List α) :
    ∀ x ∈ M.scan s xs, P x := by
  obtain ⟨hi, hp⟩ := inv_of_step hstep hs xs
  intro x hx
  rw [Scanner.scan, List.mem_append] at hx
  exact hx.elim (hp x) (hflush _ hi x)

/-! ## Cascades -/

section Pipe

variable {ρ : Type*} {υ : Type*} (M) (N : Scanner ρ τ υ)

/-- The second scanner reads what the first one emits. -/
def pipe : Scanner (σ × ρ) α υ where
  step s a :=
    (((M.step s.1 a).1, N.reach s.2 (M.step s.1 a).2), N.emits s.2 (M.step s.1 a).2)
  flush s := N.scan s.2 (M.flush s.1)

theorem reach_pipe (s : σ) (r : ρ) (xs : List α) :
    (M.pipe N).reach (s, r) xs = (M.reach s xs, N.reach r (M.emits s xs)) := by
  induction xs generalizing s r with
  | nil => rfl
  | cons a xs ih =>
    rw [reach_cons, reach_cons, emits_cons, N.reach_append]
    exact ih _ _

theorem emits_pipe (s : σ) (r : ρ) (xs : List α) :
    (M.pipe N).emits (s, r) xs = N.emits r (M.emits s xs) := by
  induction xs generalizing s r with
  | nil => rfl
  | cons a xs ih =>
    rw [emits_cons, emits_cons, N.emits_append]
    exact congrArg (N.emits r (M.step s a).2 ++ ·) (ih _ _)

/-- **A cascade reads the output of the first scanner.** -/
theorem scan_pipe (s : σ) (r : ρ) (xs : List α) :
    (M.pipe N).scan (s, r) xs = N.scan r (M.scan s xs) := by
  have h := N.scan_append r (M.emits s xs) (M.flush (M.reach s xs))
  rw [scan, reach_pipe, emits_pipe]
  exact h.symm

variable {M} {N}

theorem Run.pipe {s t : σ} {r q : ρ} {xs : List α} {out : List τ} {out' : List υ}
    (h : M.Run s xs out t) (h' : N.Run r out out' q) : (M.pipe N).Run (s, r) xs out' (t, q) := by
  obtain ⟨rfl, rfl⟩ := h
  obtain ⟨rfl, rfl⟩ := h'
  exact ⟨reach_pipe M N s r xs, emits_pipe M N s r xs⟩

end Pipe

end Scanner

end Workbench.Lib
