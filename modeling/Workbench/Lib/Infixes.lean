import Mathlib.Algebra.GroupWithZero.Nat
import Mathlib.Data.List.DropRight
import Mathlib.Data.List.Infix

/-!
# Where a text contains another

A pattern that stands in two texts put together stands in one of them, if it has no element that one of them has at the
place where they meet. What a list that is joined and cut contains, and how often.
-/

set_option autoImplicit false

namespace Workbench.Lib

variable {α : Type}

/-! ## Edges -/

section

variable {pattern x y : List α}

/-- A pattern in two texts put together. -/
theorem infix_append_cases (h : pattern <:+: x ++ y) :
    pattern <:+: x ∨ pattern <:+: y ∨ ∃ front back, pattern = front ++ back ∧ front <:+ x ∧ back <+: y := by
  obtain ⟨before, behind, heq⟩ := h
  rw [List.append_assoc] at heq
  rcases List.append_eq_append_iff.1 heq with ⟨rest, rfl, hrest⟩ | ⟨rest, rfl, hrest⟩
  · rcases List.append_eq_append_iff.1 hrest with ⟨more, rfl, rfl⟩ | ⟨more, rfl, rfl⟩
    · exact Or.inl ⟨before, more, List.append_assoc _ _ _⟩
    · exact Or.inr (Or.inr ⟨rest, more, rfl, List.suffix_append _ _, List.prefix_append _ _⟩)
  · exact Or.inr (Or.inl ⟨rest, behind, by rw [hrest, List.append_assoc]⟩)

theorem infix_append_of_or (h : pattern <:+: x ∨ pattern <:+: y) : pattern <:+: x ++ y := by
  rcases h with hx | hy
  · exact hx.trans List.infix_append_left
  · exact hy.trans List.infix_append_right

/-- The first text ends with no element of the pattern. -/
theorem infix_append_of_getLast (h : ∀ a ∈ x.getLast?, a ∉ pattern) :
    pattern <:+: x ++ y ↔ pattern <:+: x ∨ pattern <:+: y := by
  refine ⟨fun hinfix => ?_, infix_append_of_or⟩
  rcases infix_append_cases hinfix with hx | hy | ⟨front, back, rfl, hfront, hback⟩
  · exact Or.inl hx
  · exact Or.inr hy
  · cases hlast : front.getLast? with
    | none =>
      rw [List.getLast?_eq_none_iff.1 hlast]
      exact Or.inr hback.isInfix
    | some a =>
      have hmem : a ∈ front := List.mem_of_getLast? hlast
      have hne : front ≠ [] := List.ne_nil_of_mem hmem
      have hsame : x.getLast? = some a := by
        obtain ⟨start, rfl⟩ := hfront
        rw [List.getLast?_append_of_ne_nil _ hne, hlast]
      exact absurd (List.mem_append_left back hmem) (h a hsame)

/-- The second text begins with no element of the pattern. -/
theorem infix_append_of_head (h : ∀ a ∈ y.head?, a ∉ pattern) :
    pattern <:+: x ++ y ↔ pattern <:+: x ∨ pattern <:+: y := by
  refine ⟨fun hinfix => ?_, infix_append_of_or⟩
  rcases infix_append_cases hinfix with hx | hy | ⟨front, back, rfl, hfront, hback⟩
  · exact Or.inl hx
  · exact Or.inr hy
  · cases back with
    | nil =>
      rw [List.append_nil]
      exact Or.inl hfront.isInfix
    | cons a rest =>
      obtain ⟨more, rfl⟩ := hback
      exact absurd (List.mem_append_right front List.mem_cons_self) (h a rfl)

end

/-! ## Cutting at the first and the last mark -/

theorem exists_first {a : α} {x : List α} (h : a ∈ x) : ∃ front back, x = front ++ a :: back ∧ a ∉ front :=
  List.eq_append_cons_of_mem h

theorem exists_last {a : α} {x : List α} (h : a ∈ x) : ∃ front back, x = front ++ a :: back ∧ a ∉ back := by
  obtain ⟨front, back, heq, hnot⟩ := List.eq_append_cons_of_mem (List.mem_reverse.2 h)
  refine ⟨back.reverse, front.reverse, ?_, fun hmem => hnot (List.mem_reverse.1 hmem)⟩
  rw [← List.reverse_reverse x, heq]
  simp

section

variable [DecidableEq α] {a : α} {x y : List α}

/-- What is in front of the first mark and behind it. -/
def cutFirst (a : α) : List α → Option (List α × List α)
  | [] => none
  | b :: rest => if b = a then some ([], rest) else (cutFirst a rest).map fun cut => (b :: cut.1, cut.2)

/-- What is in front of the last mark and behind it. -/
def cutLast (a : α) (x : List α) : Option (List α × List α) :=
  (cutFirst a x.reverse).map fun cut => (cut.2.reverse, cut.1.reverse)

theorem cutFirst_append (h : a ∉ x) : cutFirst a (x ++ a :: y) = some (x, y) := by
  induction x with
  | nil => exact if_pos rfl
  | cons b rest ih =>
    rw [List.mem_cons, not_or] at h
    rw [List.cons_append, cutFirst, if_neg (Ne.symm h.1), ih h.2]
    rfl

/-- A mark ends a piece without it. -/
theorem append_mark_inj {x' y' : List α} (h : a ∉ x) (h' : a ∉ x') (hsame : x ++ a :: y = x' ++ a :: y') :
    x = x' ∧ y = y' := by
  have hcut := @cutFirst_append _ _ a x y h
  rw [hsame, cutFirst_append h'] at hcut
  exact ⟨(congrArg Prod.fst (Option.some.inj hcut)).symm, (congrArg Prod.snd (Option.some.inj hcut)).symm⟩

theorem cutFirst_eq_none : cutFirst a x = none ↔ a ∉ x := by
  constructor
  · intro hnone hmem
    obtain ⟨front, back, rfl, hnot⟩ := exists_first hmem
    rw [cutFirst_append hnot] at hnone
    cases hnone
  · intro h
    induction x with
    | nil => rfl
    | cons b rest ih =>
      rw [List.mem_cons, not_or] at h
      rw [cutFirst, if_neg (Ne.symm h.1), ih h.2]
      rfl

theorem cutFirst_eq_some {front back : List α} (h : cutFirst a x = some (front, back)) :
    x = front ++ a :: back ∧ a ∉ front := by
  have hmem : a ∈ x := by
    by_contra hnot
    rw [cutFirst_eq_none.2 hnot] at h
    cases h
  obtain ⟨first, rest, rfl, hnot⟩ := exists_first hmem
  rw [cutFirst_append hnot] at h
  cases h
  exact ⟨rfl, hnot⟩

theorem cutLast_append (h : a ∉ y) : cutLast a (x ++ a :: y) = some (x, y) := by
  have hreverse : (x ++ a :: y).reverse = y.reverse ++ a :: x.reverse := by simp
  rw [cutLast, hreverse, cutFirst_append fun hmem => h (List.mem_reverse.1 hmem), Option.map_some,
    List.reverse_reverse, List.reverse_reverse]

theorem cutLast_eq_none : cutLast a x = none ↔ a ∉ x := by
  rw [cutLast, Option.map_eq_none_iff, cutFirst_eq_none, List.mem_reverse]

theorem cutLast_eq_some {front back : List α} (h : cutLast a x = some (front, back)) :
    x = front ++ a :: back ∧ a ∉ back := by
  have hmem : a ∈ x := by
    by_contra hnot
    rw [cutLast_eq_none.2 hnot] at h
    cases h
  obtain ⟨first, rest, rfl, hnot⟩ := exists_last hmem
  rw [cutLast_append hnot] at h
  cases h
  exact ⟨rfl, hnot⟩

end

/-! ## Cutting at every mark -/

section

variable [DecidableEq α] {mark : α}

/-- No part holds the mark that the text was cut at. -/
theorem not_mem_of_mem_splitOn {text part : List α} (h : part ∈ text.splitOn mark) : mark ∉ part := by
  induction text generalizing part with
  | nil =>
    obtain rfl := List.mem_singleton.1 h
    exact List.not_mem_nil
  | cons c rest ih =>
    rw [List.splitOn_cons_eq_if_modifyHead] at h
    split at h
    · rcases List.mem_cons.1 h with rfl | hmem
      · exact List.not_mem_nil
      · exact ih hmem
    · next hc =>
        obtain ⟨first, more, hparts⟩ := List.exists_cons_of_ne_nil (List.splitOn_ne_nil mark rest)
        rw [hparts, List.modifyHead_cons] at h
        rcases List.mem_cons.1 h with rfl | hmem
        · intro hmark
          rcases List.mem_cons.1 hmark with rfl | hfirst
          · exact hc (beq_self_eq_true _)
          · exact ih (hparts ▸ List.mem_cons_self) hfirst
        · exact ih (hparts ▸ List.mem_cons_of_mem _ hmem)

variable (mark) in
/-- An element of a text is the mark that it is cut at or stands in a part. -/
theorem mem_cut {a : α} {text : List α} (h : a ∈ text) :
    a = mark ∨ ∃ part ∈ text.splitOn mark, a ∈ part := by
  have hjoin : ∀ {parts : List (List α)}, a ∈ [mark].intercalate parts →
      a = mark ∨ ∃ part ∈ parts, a ∈ part := by
    intro parts hmem
    induction parts with
    | nil => cases hmem
    | cons first rest ih =>
      cases rest with
      | nil => exact Or.inr ⟨first, List.mem_cons_self, by simpa using hmem⟩
      | cons next more =>
        rw [List.intercalate_cons_cons, List.mem_append, List.mem_append, List.mem_singleton] at hmem
        rcases hmem with (hfirst | hmark) | hrest
        · exact Or.inr ⟨first, List.mem_cons_self, hfirst⟩
        · exact Or.inl hmark
        · rcases ih hrest with hmark | ⟨part, hpart, ha⟩
          · exact Or.inl hmark
          · exact Or.inr ⟨part, List.mem_cons_of_mem _ hpart, ha⟩
  have hsame : [mark].intercalate (text.splitOn mark) = text := List.intercalate_splitOn mark
  rw [← hsame] at h
  exact hjoin h

omit [DecidableEq α] in
/-- One part more behind the others. -/
theorem intercalate_concat {front : List (List α)} (hne : front ≠ []) (part : List α) :
    [mark].intercalate (front ++ [part]) = [mark].intercalate front ++ mark :: part := by
  induction front with
  | nil => exact absurd rfl hne
  | cons first rest ih =>
    cases rest with
    | nil => simp [List.intercalate_cons_cons]
    | cons next more =>
      have hrest := ih (List.cons_ne_nil _ _)
      rw [List.cons_append] at hrest
      rw [List.cons_append, List.cons_append, List.intercalate_cons_cons, hrest, List.intercalate_cons_cons,
        List.append_assoc, List.append_assoc, List.append_assoc]

end

/-! ## Counting -/

section

variable (p : α → Bool)

/-- A joined list counts what its pieces and the separators between them count. -/
theorem countP_intercalate (separator : List α) {pieces : List (List α)} (hne : pieces ≠ []) :
    (separator.intercalate pieces).countP p + separator.countP p =
      pieces.length * separator.countP p + (pieces.map (List.countP p)).sum := by
  induction pieces with
  | nil => exact absurd rfl hne
  | cons piece rest ih =>
    cases rest with
    | nil => simp [Nat.add_comm]
    | cons next more =>
      have hrest := ih (List.cons_ne_nil _ _)
      rw [List.intercalate_cons_cons, List.countP_append, List.countP_append, List.map_cons, List.sum_cons,
        List.length_cons, Nat.succ_mul]
      omega

theorem countP_dropWhile {q : α → Bool} (h : ∀ a, q a = true → p a = false) (x : List α) :
    (x.dropWhile q).countP p = x.countP p := by
  have hsplit := congrArg (List.countP p) (List.takeWhile_append_dropWhile (p := q) (l := x))
  rw [List.countP_append] at hsplit
  have hnone : (x.takeWhile q).countP p = 0 := by
    rw [List.countP_eq_zero]
    intro a ha
    rw [h a (List.mem_takeWhile_imp ha)]
    exact Bool.false_ne_true
  omega

theorem countP_rdropWhile {q : α → Bool} (h : ∀ a, q a = true → p a = false) (x : List α) :
    (x.rdropWhile q).countP p = x.countP p := by
  rw [List.rdropWhile, List.countP_reverse, countP_dropWhile p h, List.countP_reverse]

end

section

variable [DecidableEq α]

/-- The separators of a list are one less than its pieces. -/
theorem length_splitOn (a : α) (x : List α) : (x.splitOn a).length = x.count a + 1 := by
  induction x with
  | nil => rfl
  | cons b rest ih =>
    rw [List.splitOn_cons_eq_if_modifyHead, List.count_cons]
    by_cases hb : b = a
    · rw [if_pos (beq_iff_eq.2 hb), if_pos (beq_iff_eq.2 hb), List.length_cons, ih]
    · rw [if_neg (by simpa using hb), if_neg (by simpa using hb), List.length_modifyHead, ih]

end

end Workbench.Lib
