import Workbench.Table.Apply

/-!
# Applying a draft again

`applyDraft` stops at the first request that fails and keeps the whole draft; it is cleared when all have
succeeded. What the server does with a request is a parameter: it may perform it and say so, refuse it, or
perform it and fail to say so. Requests are counted by their positions in the draft.
-/

set_option autoImplicit false

namespace Workbench.Table

inductive Outcome where
  /-- performed, and answered with success -/
  | done
  /-- not performed, and answered with an error -/
  | refused
  /-- performed, and answered with an error or not at all -/
  | lost
  deriving DecidableEq, Repr

/-- The loops of `applyDraft`: the positions of the requests that were performed, and whether the end was
reached. -/
def attempt (answer : Nat → Outcome) : Nat → List (Option RowRequest) → List Nat × Bool
  | _, [] => ([], true)
  | _, none :: _ => ([], false)
  | position, some _ :: rest =>
    match answer position with
    | .done =>
      let behind := attempt answer (position + 1) rest
      (position :: behind.1, behind.2)
    | .refused => ([], false)
    | .lost => ([position], false)

/-- An attempt that ends performed every step. -/
theorem attempt_finished {answer : Nat → Outcome} (steps : List (Option RowRequest)) :
    ∀ position, (attempt answer position steps).2 = true →
      (attempt answer position steps).1 = List.range' position steps.length := by
  induction steps with
  | nil => exact fun _ _ => rfl
  | cons step rest ih =>
    intro position hend
    cases step with
    | none => cases hend
    | some r =>
      unfold attempt at hend ⊢
      split at hend
      · -- the request was performed, and so were those behind it
        rw [List.length_cons, List.range'_succ]
        exact congrArg (position :: ·) (ih (position + 1) hend)
      · cases hend
      · cases hend

/-- An attempt performs its first request, unless it is refused. -/
theorem attempt_first (answer : Nat → Outcome) (r : RowRequest) (rest : List (Option RowRequest))
    (position : Nat) :
    (answer position = .refused ∧ (attempt answer position (some r :: rest)).1 = []) ∨
      (answer position ≠ .refused ∧ position ∈ (attempt answer position (some r :: rest)).1) := by
  unfold attempt
  cases hanswer : answer position with
  | done => exact Or.inr ⟨fun h => (nomatch h), List.mem_cons_self⟩
  | refused => exact Or.inl ⟨rfl, rfl⟩
  | lost => exact Or.inr ⟨fun h => (nomatch h), List.mem_singleton_self _⟩

namespace TableView

open ShownTable

/-- One click on the button that applies the draft. -/
def applyDraft (v : TableView) (answer : Nat → Outcome) : List Nat × Bool :=
  if v.editable && v.dirty then attempt answer 0 v.draftSteps else ([], false)

/-- Attempts that failed, and one that reached the end. -/
structure Resumption (v : TableView) where
  failed : List (Nat → Outcome)
  last : Nat → Outcome
  fails : ∀ answer ∈ failed, (v.applyDraft answer).2 = false
  succeeds : (v.applyDraft last).2 = true

namespace Resumption

variable {v : TableView}

/-- The positions of all requests that were performed, in order. -/
def performed (r : Resumption v) : List Nat :=
  r.failed.flatMap (fun answer => (v.applyDraft answer).1) ++ (v.applyDraft r.last).1

/-- Each request of the draft is performed once. -/
def ExactlyOnce (r : Resumption v) : Prop :=
  ∀ position < v.draftSteps.length, r.performed.count position = 1

/-- Each attempt that failed had its first request refused. -/
def RefusedFirst (r : Resumption v) : Prop := ∀ answer ∈ r.failed, answer 0 = .refused

theorem applyDraft_eq (r : Resumption v) (answer : Nat → Outcome) :
    v.applyDraft answer = attempt answer 0 v.draftSteps := by
  have hend := r.succeeds
  unfold applyDraft at hend ⊢
  split at hend
  · rename_i h
    rw [if_pos h]
  · cases hend

theorem last_performed (r : Resumption v) :
    (v.applyDraft r.last).1 = List.range' 0 v.draftSteps.length := by
  have hend := r.succeeds
  rw [r.applyDraft_eq] at hend ⊢
  exact attempt_finished v.draftSteps 0 hend

theorem last_count (r : Resumption v) {position : Nat} (hposition : position < v.draftSteps.length) :
    (v.applyDraft r.last).1.count position = 1 := by
  rw [r.last_performed]
  apply List.count_eq_one_of_mem List.nodup_range'
  simpa using hposition

/-- The first step of a failed attempt is a request: an attempt without steps, or with a first one that
throws, has no last attempt that ends. -/
theorem failed_cases (r : Resumption v) {answer : Nat → Outcome} (hfailed : answer ∈ r.failed) :
    0 < v.draftSteps.length ∧
      ((answer 0 = .refused ∧ (v.applyDraft answer).1 = []) ∨
        (answer 0 ≠ .refused ∧ 0 ∈ (v.applyDraft answer).1)) := by
  have hfails := r.fails answer hfailed
  have hend := r.succeeds
  rw [r.applyDraft_eq] at hfails hend ⊢
  cases hsteps : v.draftSteps with
  | nil =>
    rw [hsteps] at hfails
    cases hfails
  | cons step rest =>
    rw [hsteps] at hfails hend
    cases step with
    | none => cases hend
    | some q => exact ⟨Nat.succ_pos _, attempt_first answer q rest 0⟩

/-- Applying a draft until it succeeds performs each request once exactly when nothing was performed
before. -/
theorem exactlyOnce_iff (r : Resumption v) : r.ExactlyOnce ↔ r.RefusedFirst := by
  constructor
  · intro honce answer hfailed
    obtain ⟨hpos, hcases⟩ := r.failed_cases hfailed
    rcases hcases with ⟨hrefused, -⟩ | ⟨-, hmem⟩
    · exact hrefused
    -- the first request was performed here and once more at the end
    have hcount := honce 0 hpos
    rw [performed, List.count_append, r.last_count hpos] at hcount
    have hbefore : 0 < (r.failed.flatMap fun answer => (v.applyDraft answer).1).count 0 :=
      List.count_pos_iff.2 (List.mem_flatMap.2 ⟨answer, hfailed, hmem⟩)
    omega
  · intro hrefused position hposition
    have hnil : (r.failed.flatMap fun answer => (v.applyDraft answer).1) = [] := by
      rw [List.flatMap_eq_nil_iff]
      intro answer hfailed
      rcases (r.failed_cases hfailed).2 with ⟨-, hnil⟩ | ⟨hne, -⟩
      · exact hnil
      · exact absurd (hrefused answer hfailed) hne
    rw [performed, hnil, List.nil_append, r.last_count hposition]

end Resumption

/-- Two new rows in a draft. -/
def twoRows : TableView where
  schema := "public".toList
  table := "people".toList
  columns := people
  rows := []
  uniqueKey := ["id".toList]
  draft := some ⟨∅, [fun _ => .string "x".toList, fun _ => .string "y".toList], []⟩
  distinct := people_distinct

theorem twoRows_steps : ∃ r q, twoRows.draftSteps = [some r, some q] := by
  have hedited : twoRows.draftState.edited = [] := List.mergeSort_nil
  unfold draftSteps
  rw [hedited]
  exact ⟨_, _, rfl⟩

theorem twoRows_applyDraft (answer : Nat → Outcome) :
    twoRows.applyDraft answer = attempt answer 0 twoRows.draftSteps := by
  have hdirty : twoRows.dirty = true := dirty_iff.2 (Or.inr (Or.inl (List.cons_ne_nil _ _)))
  have heditable : twoRows.editable = true := by decide
  rw [applyDraft, hdirty, heditable, Bool.and_self, if_pos rfl]

/-- The second insertion is refused, and both are sent again. -/
def secondRefused : Resumption twoRows where
  failed := [fun position => if position = 1 then .refused else .done]
  last := fun _ => .done
  fails := by
    obtain ⟨r, q, hsteps⟩ := twoRows_steps
    intro answer hanswer
    rw [List.mem_singleton.1 hanswer, twoRows_applyDraft, hsteps]
    rfl
  succeeds := by
    obtain ⟨r, q, hsteps⟩ := twoRows_steps
    rw [twoRows_applyDraft, hsteps]
    rfl

/-- The first row is inserted twice. -/
theorem retry_duplicates_row : ¬secondRefused.ExactlyOnce := by
  obtain ⟨r, q, hsteps⟩ := twoRows_steps
  intro honce
  have hcount := honce 0 (by rw [hsteps]; exact Nat.succ_pos 1)
  have hperformed : secondRefused.performed = [0, 0, 1] := by
    show ([fun position => if position = 1 then Outcome.refused else .done].flatMap fun answer =>
      (twoRows.applyDraft answer).1) ++ (twoRows.applyDraft fun _ => .done).1 = _
    simp only [List.flatMap_cons, List.flatMap_nil, twoRows_applyDraft, hsteps]
    rfl
  rw [hperformed] at hcount
  exact absurd hcount (by decide)

end TableView

end Workbench.Table
