import Workbench.Query.Paging

/-!
# Slices of results

`Result` of `api/internal/query/service.go` with the integers of the machine: the cursor of the request and the page
size of the configuration have 64 bits, their sum wraps around, and slicing with an end in front of the beginning is a
panic. `result_eq_exact_iff` says when the answer is that of the unbounded integers.
-/

set_option autoImplicit false

namespace Workbench.Query

open Workbench.Lib

variable {S E : Type}

/-- `rows[low:high]`, or a panic. -/
def slice (rows : List S) (low high : Int64) : Option (List S) :=
  if 0 ≤ low ∧ low ≤ high ∧ high ≤ Int64.ofNat rows.length then
    some ((rows.take high.toInt.toNat).drop low.toInt.toNat)
  else none

/-- `positiveInt` and `NewService` let no other page size through, and the length of a slice is an `int`. -/
structure MachineService (S E : Type) where
  pageSize : Int64
  maxRows : Int64
  jobs : Table Text (StreamJob S E)
  pageSize_pos : 0 < pageSize
  length_lt : ∀ id item, jobs.lookup id = some item → item.rows.length < 2 ^ 63

namespace MachineService

/-- The end of the page that begins at the cursor. -/
def stopAt (s : MachineService S E) (cursor length : Int64) : Int64 :=
  if cursor + s.pageSize > length then length else cursor + s.pageSize

/-- `Result`; nothing is a panic. -/
def result (s : MachineService S E) (scope id : Text) (cursor : Int64) :
    Option (Except (PageError E) (ResultPage S)) :=
  match s.jobs.lookup id with
  | none => some (.error (.result .queryNotFound))
  | some item =>
    if item.scope ≠ scope then some (.error (.result .queryNotFound))
    else if !item.done then some (.error (.result .queryPending))
    else
      match item.err with
      | some e => some (.error (.query e))
      | none =>
        let length := Int64.ofNat item.rows.length
        if cursor < 0 ∨ cursor > length then some (.error (.result .invalidCursor))
        else
          let stop := s.stopAt cursor length
          (slice item.rows cursor stop).map fun rows =>
            .ok ⟨id, item.columns, rows, if stop < length then stop.toInt.toNat else 0, item.truncated⟩

/-- The same service with unbounded integers. -/
def exact (s : MachineService S E) : StreamService S E := ⟨⟨s.pageSize.toInt, s.maxRows.toInt⟩, s.jobs⟩

/-- Where the rows are there and the cursor is one of them or their end, it and the page size add up. -/
def SumFits (s : MachineService S E) (scope id : Text) (cursor : Int64) : Prop :=
  ∀ item, s.jobs.lookup id = some item → item.scope = scope → item.done = true → item.err = none →
    0 ≤ cursor.toInt → cursor.toInt ≤ item.rows.length → cursor.toInt + s.pageSize.toInt < 2 ^ 63

/-! ## Sums that wrap around -/

theorem toInt_sum {a b : Int64} (hb : 0 < b.toInt) (h : a.toInt + b.toInt < 2 ^ 63) :
    (a + b).toInt = a.toInt + b.toInt := by
  have hlow := a.le_toInt
  rw [Int64.toInt_add, Int.bmod_eq_of_le] <;> omega

/-- A sum of two numbers that are not negative is negative if it wraps around. -/
theorem toInt_sum_neg {a b : Int64} (ha : 0 ≤ a.toInt) (h : 2 ^ 63 ≤ a.toInt + b.toInt) : (a + b).toInt < 0 := by
  have halt := a.toInt_lt
  have hblt := b.toInt_lt
  have hwrap : (a.toInt + b.toInt).bmod (2 ^ 64) = a.toInt + b.toInt - 2 ^ 64 := by
    rw [← Int.sub_bmod_right, Int.bmod_eq_of_le] <;> omega
  rw [Int64.toInt_add, hwrap]
  omega

theorem slice_of_le {rows : List S} {low high : Int64} (hrows : rows.length < 2 ^ 63) (hlow : 0 ≤ low.toInt)
    (hle : low.toInt ≤ high.toInt) (hhigh : high.toInt ≤ rows.length) :
    slice rows low high = some ((rows.take high.toInt.toNat).drop low.toInt.toNat) := by
  refine if_pos ⟨Int64.le_iff_toInt_le.2 hlow, Int64.le_iff_toInt_le.2 hle, Int64.le_iff_toInt_le.2 ?_⟩
  rw [Int64.toInt_ofNat_of_lt hrows]
  exact hhigh

theorem slice_of_lt {rows : List S} {low high : Int64} (h : high.toInt < low.toInt) : slice rows low high = none := by
  refine if_neg fun hall => ?_
  have hle := Int64.le_iff_toInt_le.1 hall.2.1
  omega

/-! ## Answers -/

section

variable {s : MachineService S E} {scope id : Text} {cursor : Int64} {item : StreamJob S E}

theorem stopAt_of_fits (length : Int64) (h : cursor.toInt + s.pageSize.toInt < 2 ^ 63) :
    (s.stopAt cursor length).toInt = min (cursor.toInt + s.pageSize.toInt) length.toInt := by
  have hpos : 0 < s.pageSize.toInt := Int64.lt_iff_toInt_lt.1 s.pageSize_pos
  have hsum := toInt_sum hpos h
  rw [stopAt]
  split_ifs with hover
  · have hlt := Int64.lt_iff_toInt_lt.1 hover
    omega
  · have hle := not_lt.1 fun hlt => hover (Int64.lt_iff_toInt_lt.2 hlt)
    omega

/-- The sum that wraps around is not behind the rows, so it is taken as it is. -/
theorem stopAt_of_wraps (length : Int64) (hlow : 0 ≤ cursor.toInt) (hlength : 0 ≤ length.toInt)
    (h : ¬cursor.toInt + s.pageSize.toInt < 2 ^ 63) : (s.stopAt cursor length).toInt < 0 := by
  have hneg := toInt_sum_neg hlow (not_lt.1 h)
  rw [stopAt, if_neg]
  · exact hneg
  · intro hover
    have hlt := Int64.lt_iff_toInt_lt.1 hover
    omega

/-- A job with rows, and a cursor of these or at their end: the sum decides. -/
theorem result_of_rows (hjob : s.jobs.lookup id = some item) (hscope : item.scope = scope) (hdone : item.done = true)
    (herr : item.err = none) (hlow : 0 ≤ cursor.toInt) (hhigh : cursor.toInt ≤ item.rows.length) :
    s.result scope id cursor =
      if cursor.toInt + s.pageSize.toInt < 2 ^ 63 then some (s.exact.result scope id cursor.toInt) else none := by
  have hrows := s.length_lt id item hjob
  have hpos : 0 < s.pageSize.toInt := Int64.lt_iff_toInt_lt.1 s.pageSize_pos
  have hlength : (Int64.ofNat item.rows.length).toInt = item.rows.length := Int64.toInt_ofNat_of_lt hrows
  have hinside : ¬(cursor < 0 ∨ cursor > Int64.ofNat item.rows.length) := by
    rw [not_or, gt_iff_lt, Int64.lt_iff_toInt_lt, Int64.lt_iff_toInt_lt, hlength]
    exact ⟨not_lt.2 hlow, not_lt.2 hhigh⟩
  -- The checks are passed, and what is left is the slice.
  have hanswer : s.result scope id cursor =
      (slice item.rows cursor (s.stopAt cursor (Int64.ofNat item.rows.length))).map fun rows =>
        .ok ⟨id, item.columns, rows,
          if s.stopAt cursor (Int64.ofNat item.rows.length) < Int64.ofNat item.rows.length then
            (s.stopAt cursor (Int64.ofNat item.rows.length)).toInt.toNat
          else 0, item.truncated⟩ := by
    rw [result, hjob]
    dsimp only
    rw [if_neg (not_not.2 hscope), if_neg (by rw [hdone]; decide), herr]
    exact if_neg hinside
  rw [hanswer]
  -- Where the sum fits, the end of the page is that of unbounded integers; else it is negative.
  by_cases hfits : cursor.toInt + s.pageSize.toInt < 2 ^ 63
  · have hstop := stopAt_of_fits (Int64.ofNat item.rows.length) hfits
    rw [hlength] at hstop
    have hexact : s.exact.result scope id cursor.toInt =
        .ok ⟨id, item.columns,
          (item.rows.take (min (cursor.toInt + s.pageSize.toInt) item.rows.length).toNat).drop cursor.toInt.toNat,
          if min (cursor.toInt + s.pageSize.toInt) item.rows.length < item.rows.length then
            (min (cursor.toInt + s.pageSize.toInt) item.rows.length).toNat
          else 0, item.truncated⟩ := by
      rw [exact, StreamService.result, hjob]
      dsimp only
      rw [if_neg (not_not.2 hscope), if_neg (by rw [hdone]; decide), herr]
      exact if_neg (by omega)
    rw [if_pos hfits, hexact, slice_of_le hrows hlow (by omega) (by omega), Option.map_some]
    simp only [Int64.lt_iff_toInt_lt, hstop, hlength]
  · have hneg := stopAt_of_wraps (Int64.ofNat item.rows.length) hlow (by omega) hfits
    rw [if_neg hfits, slice_of_lt (by omega), Option.map_none]

/-- Everything that is checked in front of the sum is the same with unbounded integers. -/
theorem result_of_no_rows (h : ∀ item, s.jobs.lookup id = some item → item.scope = scope → item.done = true →
    item.err = none → ¬(0 ≤ cursor.toInt ∧ cursor.toInt ≤ item.rows.length)) :
    s.result scope id cursor = some (s.exact.result scope id cursor.toInt) := by
  have hthrough : ¬(!true) = true := by decide
  rw [result, exact, StreamService.result]
  -- The checks are the same on both sides, one after the other.
  cases hjob : s.jobs.lookup id with
  | none => rfl
  | some item =>
    dsimp only
    by_cases hscope : item.scope = scope
    · rw [if_neg (not_not.2 hscope), if_neg (not_not.2 hscope)]
      cases hdone : item.done with
      | false => rfl
      | true =>
        rw [if_neg hthrough, if_neg hthrough]
        cases herr : item.err with
        | some e => rfl
        | none =>
          have hrows : (Int64.ofNat item.rows.length).toInt = item.rows.length :=
            Int64.toInt_ofNat_of_lt (s.length_lt id item hjob)
          have houtside := h item hjob hscope hdone herr
          -- The comparison with the length is exact, as the length is one of 64 bits.
          have hmachine : cursor < 0 ∨ cursor > Int64.ofNat item.rows.length := by
            rw [gt_iff_lt, Int64.lt_iff_toInt_lt, Int64.lt_iff_toInt_lt, hrows, Int64.toInt_zero]
            omega
          have hexact : cursor.toInt < 0 ∨ cursor.toInt > item.rows.length := by omega
          dsimp only
          rw [if_pos hmachine, if_pos hexact]
    · rw [if_pos hscope, if_pos hscope]

end

/-- **The answer is the exact one, without a panic, just if the cursor and the page size add up.** -/
theorem result_eq_exact_iff (s : MachineService S E) (scope id : Text) (cursor : Int64) :
    s.result scope id cursor = some (s.exact.result scope id cursor.toInt) ↔ s.SumFits scope id cursor := by
  by_cases hrows : ∃ item, s.jobs.lookup id = some item ∧ item.scope = scope ∧ item.done = true ∧ item.err = none ∧
      0 ≤ cursor.toInt ∧ cursor.toInt ≤ item.rows.length
  · obtain ⟨item, hjob, hscope, hdone, herr, hlow, hhigh⟩ := hrows
    rw [result_of_rows hjob hscope hdone herr hlow hhigh]
    constructor
    · intro heq other hother _ _ _ _ _
      by_contra hwraps
      rw [if_neg hwraps] at heq
      cases heq
    · intro hfits
      exact if_pos (hfits item hjob hscope hdone herr hlow hhigh)
  · -- Where no page is cut out, no sum is made.
    refine iff_of_true (result_of_no_rows fun item hjob hscope hdone herr hinside => ?_) ?_
    · exact hrows ⟨item, hjob, hscope, hdone, herr, hinside⟩
    · intro item hjob hscope hdone herr hlow hhigh
      exact absurd ⟨item, hjob, hscope, hdone, herr, hlow, hhigh⟩ hrows

/-- Two rows, and the largest page size there is. -/
def largestPages : MachineService Nat Text where
  pageSize := Int64.maxValue
  maxRows := 10000
  jobs := (∅ : Table Text (StreamJob Nat Text)).insert ['q'] ⟨['s'], true, [], [1, 2], false, none⟩
  pageSize_pos := by decide
  length_lt id item hjob := by
    by_cases hid : id = ['q']
    · rw [hid, AList.lookup_insert] at hjob
      cases hjob
      decide
    · rw [AList.lookup_insert_ne hid, AList.lookup_empty] at hjob
      cases hjob

/-- The cursor of the second row. -/
theorem result_largestPages : ¬(largestPages.result ['s'] ['q'] 1).isSome = true := by
  decide

end MachineService

end Workbench.Query
