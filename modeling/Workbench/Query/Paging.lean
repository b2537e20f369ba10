import Workbench.Query.Results

/-!
# Paging through a result

The cells of a result, and the client that follows `NextCursor`. The pages of a query put together are the rows that
it kept (`follow_complete`).
-/

set_option autoImplicit false

namespace Workbench.Query

open Workbench.Lib

/-! ## Cells -/

/-- A value that the driver scans: bytes, a time, a text, or anything else. -/
inductive Cell (T O : Type) where
  | bytes (value : List UInt8)
  | time (value : T)
  | text (value : List UInt8)
  | other (value : O)
  deriving DecidableEq, Repr

/-- `normalizeCell`; `formatTime` is the format `RFC3339Nano` in UTC. -/
def normalizeCell {T O : Type} (formatTime : T → List UInt8) : Cell T O → Cell T O
  | .bytes value => .text value
  | .time value => .text (formatTime value)
  | value => value

/-! ## Following the cursor -/

variable {S E : Type}

namespace StreamService

/-- The client: it asks for one page after the other, up to the one without a next cursor. -/
def follow (s : StreamService S E) (scope id : Text) : Nat → Int → Option (List (ResultPage S))
  | 0, _ => none
  | fuel + 1, cursor =>
    match s.result scope id cursor with
    | .error _ => none
    | .ok page =>
      if page.nextCursor = 0 then some [page]
      else (s.follow scope id fuel page.nextCursor).map fun pages => page :: pages

variable {s : StreamService S E} {scope id : Text} {job : StreamJob S E}

/-- A page of a query that is through, without an error. -/
theorem result_of_ok (hjob : s.jobs.lookup id = some job) (hscope : job.scope = scope)
    (hdone : job.done = true) (herr : job.err = none) {size : Nat} (hsize : s.limits.pageSize = size)
    {cursor : Nat} (hcursor : cursor ≤ job.rows.length) :
    ∃ page, s.result scope id cursor = .ok page ∧
      page.rows = (job.rows.take (min (cursor + size) job.rows.length)).drop cursor ∧
      page.nextCursor =
        (if cursor + size < job.rows.length then cursor + size else 0) ∧
      page.truncated = job.truncated := by
  have hvalid : ¬((cursor : Int) < 0 ∨ (cursor : Int) > job.rows.length) := by omega
  have hstop : min ((cursor : Int) + size) job.rows.length =
      ((min (cursor + size) job.rows.length : Nat) : Int) := by omega
  refine ⟨⟨id, job.columns, (job.rows.take (min (cursor + size) job.rows.length)).drop cursor,
    if cursor + size < job.rows.length then cursor + size else 0, job.truncated⟩, ?_, rfl, rfl, rfl⟩
  rw [result, hjob]
  simp only [hscope, hdone, herr, hsize, ne_eq, not_true_eq_false, if_false, Bool.not_true,
    Bool.false_eq_true]
  rw [if_neg hvalid, hstop]
  simp only [Int.toNat_natCast, Nat.cast_lt]
  congr 2
  split_ifs <;> omega

/-- **From any cursor the pages that follow are the rows that follow.** -/
theorem follow_eq (hjob : s.jobs.lookup id = some job) (hscope : job.scope = scope)
    (hdone : job.done = true) (herr : job.err = none) {size : Nat} (hsize : s.limits.pageSize = size)
    (hpos : 0 < size) :
    ∀ (fuel cursor : Nat), cursor ≤ job.rows.length → job.rows.length - cursor < fuel →
      ∃ pages, s.follow scope id fuel cursor = some pages ∧
        pages.flatMap ResultPage.rows = job.rows.drop cursor ∧
          ∀ page ∈ pages, page.truncated = job.truncated := by
  intro fuel
  induction fuel with
  | zero =>
    intro cursor _ hfuel
    exact absurd hfuel (Nat.not_lt_zero _)
  | succ fuel ih =>
    intro cursor hcursor hfuel
    obtain ⟨first, hfirst, hrows, hnext, htruncated⟩ :=
      result_of_ok hjob hscope hdone herr hsize hcursor
    rw [follow, hfirst]
    dsimp only
    rw [hnext]
    by_cases hmore : cursor + size < job.rows.length
    · -- A whole page, and more behind it.
      have hstop : min (cursor + size) job.rows.length = cursor + size := by omega
      obtain ⟨pages, hfollow, hrest, hall⟩ := ih (cursor + size) (by omega) (by omega)
      refine ⟨first :: pages, ?_, ?_, ?_⟩
      · rw [if_pos hmore, if_neg (by omega), hfollow]
        rfl
      · rw [List.flatMap_cons, hrest, hrows, hstop, List.drop_take, Nat.add_sub_cancel_left,
          ← List.drop_drop, List.take_append_drop]
      · intro page hpage
        rcases List.mem_cons.1 hpage with rfl | hpage
        · exact htruncated
        · exact hall page hpage
    · have hstop : min (cursor + size) job.rows.length = job.rows.length := by omega
      refine ⟨[first], ?_, ?_, ?_⟩
      · rw [if_neg hmore, if_pos rfl]
      · rw [List.flatMap_singleton, hrows, hstop, List.take_length]
      · intro page hpage
        rw [List.mem_singleton.1 hpage]
        exact htruncated

end StreamService

/-- **The pages of a query are its first rows, in order and once each, or its error.** -/
theorem follow_complete {T O : Type} (formatTime : T → List UInt8)
    (s : StreamService (List (Cell T O)) E) (hpage : 1 ≤ s.limits.pageSize)
    (hmax : 1 ≤ s.limits.maxRows) (ctxErr : Option E) (scope id : Text) (columns : List Column)
    (stream : RowStream (List (Cell T O)) E) :
    let done := s.finish id (runStream s.limits ctxErr (List.map (normalizeCell formatTime)) scope
      (.rows columns stream))
    match stream.errorWithin (queryError ctxErr) s.limits.maxRows.toNat with
    | some e => ∀ cursor, done.result scope id cursor = .error (.query e)
    | none => ∃ fuel pages, done.follow scope id fuel 0 = some pages ∧
        pages.flatMap ResultPage.rows =
          (stream.values.take s.limits.maxRows.toNat).map (List.map (normalizeCell formatTime)) ∧
        ∀ page ∈ pages, page.truncated = true ↔ s.limits.maxRows.toNat < stream.length := by
  intro done
  obtain ⟨max, hmaxRows⟩ : ∃ max : Nat, s.limits.maxRows = max := Int.eq_ofNat_of_zero_le (by omega)
  obtain ⟨size, hsize⟩ : ∃ size : Nat, s.limits.pageSize = size :=
    Int.eq_ofNat_of_zero_le (by omega)
  have hjob : done.jobs.lookup id = some (runStream s.limits ctxErr (List.map (normalizeCell formatTime))
      scope (.rows columns stream)) := AList.lookup_insert _
  -- The error within the first rows is the one the fetch returns.
  have herr := fetchStream_err (queryError ctxErr) (List.map (normalizeCell formatTime)) hmaxRows stream [] (Nat.zero_le _)
  rw [List.length_nil, Nat.sub_zero] at herr
  rw [hmaxRows, Int.toNat_natCast]
  cases hwithin : stream.errorWithin (queryError ctxErr) max with
  | some e =>
    intro cursor
    rw [hwithin] at herr
    rw [StreamService.result, hjob, runStream]
    dsimp only
    rw [if_neg (not_not.2 rfl), herr]
    rfl
  | none =>
    have hfetch := fetchStream_eq (queryError ctxErr) (List.map (normalizeCell formatTime)) hmaxRows stream [] (Nat.zero_le _)
    rw [List.length_nil, Nat.sub_zero, List.nil_append, Nat.zero_add] at hfetch
    rw [runStream] at hjob
    dsimp only at hjob
    rw [hfetch hwithin] at hjob
    -- The pages cover the kept rows from the first one on.
    obtain ⟨pages, hfollow, hrows, htruncated⟩ := StreamService.follow_eq hjob rfl rfl rfl hsize
      (by omega) _ 0 (Nat.zero_le _) (Nat.lt_succ_self _)
    refine ⟨_, pages, hfollow, hrows, ?_⟩
    intro page hpage
    rw [htruncated page hpage, decide_eq_true_iff]

theorem follow_complete_three :
    ∃ fuel pages,
      ((⟨⟨2, 3⟩, ∅⟩ : StreamService (List (Cell Unit Nat)) Unit).finish ['q']
        (runStream ⟨2, 3⟩ none (List.map (normalizeCell fun _ => [])) ['s']
          (.rows [] (.row (.ok [.other 1]) (.row (.ok [.bytes [97]]) (.row (.ok [.other 3])
            (.row (.ok [.other 4]) .ended))))))).follow ['s'] ['q'] fuel 0 = some pages ∧
      pages.flatMap ResultPage.rows = [[.other 1], [.text [97]], [.other 3]] ∧
      ∀ page ∈ pages, page.truncated = true ↔ 3 < 4 :=
  follow_complete (fun _ => []) ⟨⟨2, 3⟩, ∅⟩ (by decide) (by decide) none ['s'] ['q'] []
    (.row (.ok [.other 1]) (.row (.ok [.bytes [97]]) (.row (.ok [.other 3])
      (.row (.ok [.other 4]) .ended))))

end Workbench.Query
