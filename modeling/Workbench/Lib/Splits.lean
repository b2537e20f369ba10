import Mathlib.Data.List.Basic

/-!
# Splitting at a separator

The pieces between the places where a separator stands, found from the left and without overlaps. A list
that comes in parts is split part by part: only its last piece can still grow.
-/

set_option autoImplicit false

namespace Workbench.Lib

variable {α : Type}

/-- An element in front of the first piece. -/
def consPiece (a : α) : List (List α) → List (List α)
  | [] => [[a]]
  | piece :: rest => (a :: piece) :: rest

section

variable [DecidableEq α]

/-- The pieces behind the next `skip` elements, which are the rest of a separator. -/
def splitFrom (separator : List α) : (skip : Nat) → List α → List (List α)
  | _, [] => [[]]
  | skip + 1, _ :: rest => splitFrom separator skip rest
  | 0, a :: rest =>
    if separator <+: a :: rest then [] :: splitFrom separator (separator.length - 1) rest
    else consPiece a (splitFrom separator 0 rest)

/-- The pieces of a list; with no separator in it the list is the only piece. -/
def splitAtAll (separator xs : List α) : List (List α) := splitFrom separator 0 xs

/-- The last piece, which nothing ends. -/
def lastPiece (pieces : List (List α)) : List α := pieces.getLast?.getD []

end

theorem consPiece_ne_nil (a : α) (pieces : List (List α)) : consPiece a pieces ≠ [] := by
  cases pieces <;> simp [consPiece]

theorem dropLast_append_lastPiece {pieces : List (List α)} (h : pieces ≠ []) :
    pieces.dropLast ++ [lastPiece pieces] = pieces := by
  rw [lastPiece, List.getLast?_eq_some_getLast h, Option.getD_some]
  exact List.dropLast_concat_getLast h

/-- With several pieces the last one stays what it is. -/
theorem consPiece_append {a : α} {piece : List α} {rest more : List (List α)} (hrest : rest ≠ []) :
    consPiece a ((piece :: rest).dropLast ++ more) =
      (consPiece a (piece :: rest)).dropLast ++ more := by
  obtain ⟨next, others, rfl⟩ := List.exists_cons_of_ne_nil hrest
  rfl

section

variable [DecidableEq α] {separator : List α}

theorem splitFrom_ne_nil (separator xs : List α) : ∀ skip, splitFrom separator skip xs ≠ [] := by
  induction xs with
  | nil => simp [splitFrom]
  | cons a rest ih =>
    intro skip
    cases skip with
    | zero =>
      rw [splitFrom]
      split
      · simp
      · exact consPiece_ne_nil _ _
    | succ skip => exact ih skip

/-- A list with one piece is this piece. -/
theorem eq_of_splitFrom_singleton (xs : List α) : ∀ piece, splitFrom separator 0 xs = [piece] → piece = xs := by
  induction xs with
  | nil =>
    intro piece h
    simpa [splitFrom] using h.symm
  | cons a rest ih =>
    intro piece h
    rw [splitFrom] at h
    split at h
    · -- a separator ends a first piece, and there is a second one
      exact absurd (List.cons.inj h).2 (splitFrom_ne_nil _ _ _)
    · obtain ⟨first, others, hsplit⟩ := List.exists_cons_of_ne_nil (splitFrom_ne_nil separator rest 0)
      rw [hsplit, consPiece] at h
      obtain ⟨rfl, rfl⟩ := List.cons.inj h
      rw [ih first hsplit]

/-- A list shorter than the separator is one piece. -/
theorem splitFrom_short (xs : List α) (h : xs.length < separator.length) : splitFrom separator 0 xs = [xs] := by
  induction xs with
  | nil => rfl
  | cons a rest ih =>
    rw [splitFrom, if_neg, ih (Nat.lt_trans (Nat.lt_succ_self _) h)]
    · rfl
    · exact fun hprefix => absurd hprefix.length_le (Nat.not_le.2 h)

/-- A list that is one piece is joined before anything is found. -/
theorem splitFrom_append_of_whole {a : List α} (h : splitFrom separator 0 a = [a]) (b : List α) :
    splitFrom separator 0 (a ++ b) = (splitFrom separator 0 a).dropLast ++
      splitFrom separator 0 (lastPiece (splitFrom separator 0 a) ++ b) := by
  rw [h]
  rfl

/-- **The pieces of two parts: those of the first are there already, and its last piece goes on into the
second.** -/
theorem splitFrom_append (hne : separator ≠ []) (a b : List α) : ∀ skip, skip ≤ a.length →
    splitFrom separator skip (a ++ b) = (splitFrom separator skip a).dropLast ++
      splitFrom separator 0 (lastPiece (splitFrom separator skip a) ++ b) := by
  induction a with
  | nil =>
    intro skip hskip
    obtain rfl : skip = 0 := Nat.le_zero.1 hskip
    rfl
  | cons c rest ih =>
    intro skip hskip
    cases skip with
    | succ skip => exact ih skip (Nat.le_of_succ_le_succ hskip)
    | zero =>
      by_cases hfound : separator <+: c :: rest
      · have hlength := hfound.length_le
        rw [List.length_cons] at hlength
        have hpos := List.length_pos_iff.2 hne
        have hfound' : separator <+: c :: (rest ++ b) := hfound.trans (List.prefix_append (c :: rest) b)
        obtain ⟨first, others, hsplit⟩ :=
          List.exists_cons_of_ne_nil (splitFrom_ne_nil separator rest (separator.length - 1))
        rw [List.cons_append, splitFrom, if_pos hfound', splitFrom, if_pos hfound,
          ih _ (by omega), hsplit]
        simp [lastPiece]
      · by_cases hacross : separator <+: c :: (rest ++ b)
        · -- the separator ends in the second part, so that the first part is too short for one
          apply splitFrom_append_of_whole
          apply splitFrom_short
          by_contra hlong
          exact hfound (List.prefix_of_prefix_length_le hacross (List.prefix_append (c :: rest) b)
            (Nat.le_of_not_lt hlong))
        · obtain ⟨first, others, hsplit⟩ :=
            List.exists_cons_of_ne_nil (splitFrom_ne_nil separator rest 0)
          cases others with
          | nil =>
            apply splitFrom_append_of_whole
            rw [splitFrom, if_neg hfound, hsplit, eq_of_splitFrom_singleton rest first hsplit]
            rfl
          | cons second others =>
            rw [List.cons_append, splitFrom, if_neg hacross, ih 0 (Nat.zero_le _), splitFrom,
              if_neg hfound, hsplit, consPiece_append (by simp)]
            simp [lastPiece, consPiece]

theorem splitAtAll_append (hne : separator ≠ []) (a b : List α) :
    splitAtAll separator (a ++ b) = (splitAtAll separator a).dropLast ++
      splitAtAll separator (lastPiece (splitAtAll separator a) ++ b) :=
  splitFrom_append hne a b 0 (Nat.zero_le _)

theorem splitAtAll_ne_nil (separator xs : List α) : splitAtAll separator xs ≠ [] := splitFrom_ne_nil separator xs 0

/-- No separator ends in the last piece. -/
theorem splitAtAll_lastPiece (hne : separator ≠ []) (xs : List α) :
    splitAtAll separator (lastPiece (splitAtAll separator xs)) =
      [lastPiece (splitAtAll separator xs)] := by
  have happend := splitAtAll_append hne xs []
  rw [List.append_nil, List.append_nil] at happend
  have hlast := dropLast_append_lastPiece (splitAtAll_ne_nil separator xs)
  exact List.append_cancel_left (happend.symm.trans hlast.symm)

/-- A list without the first element of the separator is one piece. -/
theorem splitAtAll_absent {a : α} {rest xs : List α} (h : a ∉ xs) : splitAtAll (a :: rest) xs = [xs] := by
  induction xs with
  | nil => rfl
  | cons c xs ih =>
    rw [List.mem_cons, not_or] at h
    obtain ⟨hne, habsent⟩ := h
    rw [splitAtAll] at ih
    rw [splitAtAll, splitFrom, if_neg fun hprefix => hne (List.cons_prefix_cons.1 hprefix).1, ih habsent]
    rfl

/-- The rest of a separator is passed over. -/
theorem splitFrom_skip (xs more : List α) :
    splitFrom separator xs.length (xs ++ more) = splitFrom separator 0 more := by
  induction xs with
  | nil => rfl
  | cons a rest ih => exact ih

/-- A piece without the first element of the separator, and the separator behind it. -/
theorem splitAtAll_piece {a : α} {rest piece : List α} (more : List α) (hpiece : a ∉ piece) :
    splitAtAll (a :: rest) (piece ++ a :: rest ++ more) = piece :: splitAtAll (a :: rest) more := by
  induction piece with
  | nil =>
    have hfound : a :: rest <+: a :: (rest ++ more) := List.prefix_append (a :: rest) more
    rw [List.nil_append, List.cons_append, splitAtAll, splitFrom, if_pos hfound, List.length_cons,
      Nat.add_sub_cancel, splitFrom_skip]
    rfl
  | cons c piece ih =>
    rw [List.mem_cons, not_or] at hpiece
    obtain ⟨hne, hpiece⟩ := hpiece
    have hnot : ¬(a :: rest <+: c :: (piece ++ a :: rest ++ more)) :=
      fun h => hne (List.cons_prefix_cons.1 h).1
    rw [splitAtAll] at ih
    rw [List.cons_append, List.cons_append, splitAtAll, splitFrom, if_neg hnot, ih hpiece]
    rfl

/-- Pieces that the separator ends, one after the other. -/
theorem splitAtAll_flatMap {a : α} {rest : List α} (pieces : List (List α)) (h : ∀ piece ∈ pieces, a ∉ piece) :
    splitAtAll (a :: rest) (pieces.flatMap fun piece => piece ++ a :: rest) = pieces ++ [[]] := by
  induction pieces with
  | nil => rfl
  | cons piece others ih =>
    rw [List.flatMap_cons, splitAtAll_piece _ (h piece List.mem_cons_self),
      ih fun other hother => h other (List.mem_cons_of_mem _ hother)]
    rfl

end

end Workbench.Lib

/-!
## The lines of a stream

Lines as a scanner of lines takes them from its buffer: up to a line feed, which is left out together with
one carriage return in front of it.
-/

namespace Workbench.Lib

section

variable {α : Type} [DecidableEq α]

/-- A line without the carriage return at its end. -/
def dropCR (cr : α) (line : List α) : List α := if line.getLast? = some cr then line.dropLast else line

/-- The first line of a buffer and what is behind its line feed. -/
def nextLine (lf : α) : List α → Option (List α × List α)
  | [] => none
  | a :: rest =>
    if a = lf then some ([], rest) else (nextLine lf rest).map fun (line, more) => (a :: line, more)

variable {lf : α}

theorem nextLine_eq_none {buffer : List α} : nextLine lf buffer = none ↔ lf ∉ buffer := by
  induction buffer with
  | nil => simp [nextLine]
  | cons a rest ih =>
    rw [nextLine, List.mem_cons, not_or, ← ih]
    rcases eq_or_ne a lf with rfl | hne
    · simp
    · simp [hne, hne.symm]

/-- What a scanner takes is a line of its buffer. -/
theorem nextLine_eq_some {buffer line more : List α} (h : nextLine lf buffer = some (line, more)) :
    buffer = line ++ lf :: more ∧ lf ∉ line := by
  induction buffer generalizing line with
  | nil => cases h
  | cons a rest ih =>
    rw [nextLine] at h
    split at h
    · next hlf =>
        obtain ⟨rfl, rfl⟩ := Prod.mk.inj (Option.some.inj h)
        simp [hlf]
    · next hne =>
        obtain ⟨⟨first, behind⟩, hrest, hpair⟩ := Option.map_eq_some_iff.1 h
        obtain ⟨rfl, rfl⟩ := Prod.mk.inj hpair
        obtain ⟨rfl, hfirst⟩ := ih hrest
        exact ⟨rfl, by simp [hfirst, Ne.symm hne]⟩

/-- The lines of a list that a line feed ends, and what is left of them. -/
def EndsLines (lf : α) (xs : List α) (lines : List (List α)) : Prop := splitAtAll [lf] xs = lines ++ [[]]

theorem endsLines_flatMap {lines : List (List α)} (h : ∀ line ∈ lines, lf ∉ line) :
    EndsLines lf (lines.flatMap fun line => line ++ [lf]) lines :=
  splitAtAll_flatMap lines h

/-- A first line that is taken away. -/
theorem EndsLines.next {line more : List α} {lines : List (List α)} (h : EndsLines lf (line ++ lf :: more) lines)
    (hline : lf ∉ line) : ∃ rest, lines = line :: rest ∧ EndsLines lf more rest := by
  have hsplit : splitAtAll [lf] (line ++ lf :: more) = line :: splitAtAll [lf] more := by
    have hpiece : splitAtAll [lf] (line ++ [lf] ++ more) = line :: splitAtAll [lf] more :=
      splitAtAll_piece more hline
    rwa [List.append_assoc] at hpiece
  rw [EndsLines, hsplit] at h
  cases lines with
  | nil => exact absurd (List.cons.inj h).2 (splitAtAll_ne_nil _ _)
  | cons first rest =>
    obtain ⟨rfl, hrest⟩ := List.cons.inj h
    exact ⟨rest, rfl, hrest⟩

/-- Nothing is left where no line is left. -/
theorem EndsLines.eq_nil {xs : List α} (h : EndsLines lf xs []) : xs = [] :=
  (eq_of_splitFrom_singleton xs [] h).symm

/-- What has no line feed in it ends no line. -/
theorem EndsLines.of_absent {xs : List α} {lines : List (List α)} (h : EndsLines lf xs lines) (habsent : lf ∉ xs) :
    xs = [] := by
  rw [EndsLines, splitAtAll_absent habsent] at h
  cases lines with
  | nil => exact (List.cons.inj h).1
  | cons first rest =>
    have hlength := congrArg List.length h
    simp at hlength

end

end Workbench.Lib
