import Workbench.Base.Text
import Workbench.Lib.DotPaths
import Workbench.Lib.Infixes

/-!
# Cleaning paths

`path.Clean` and `filepath.Clean`, which read a path alike on the systems of the server. Of a rooted path the
cleaning leaves the names that `Step.resolve` leaves of its segments (`clean_rooted`).
-/

set_option autoImplicit false

namespace Workbench.Logs

open Workbench.Lib

/-- One element of a path behind those in front of it, which stand in reverse. -/
def cleanStep (rooted : Bool) (front : List Text) (part : Text) : List Text :=
  if part = [] ∨ part = ['.'] then front
  else if part = ['.', '.'] then
    match front with
    | [] => if rooted then [] else [part]
    | last :: rest => if last = ['.', '.'] then part :: front else rest
  else part :: front

/-- `filepath.Clean`. -/
def clean (path : Text) : Text :=
  let rooted := path.head? = some '/'
  let body := List.intercalate ['/'] ((path.splitOn '/').foldl (cleanStep rooted) []).reverse
  if rooted then '/' :: body else if body = [] then ['.'] else body

/-- `filepath.Join` of two elements that are not empty. -/
def join (dir name : Text) : Text := clean (dir ++ '/' :: name)

/-! ## Rooted paths -/

/-- A segment of a rooted path. -/
def stepOf (part : Text) : Step Text :=
  if part = [] ∨ part = ['.'] then .stay else if part = ['.', '.'] then .up else .down part

/-- A segment that stays where a path is cleaned. -/
structure IsName (part : Text) : Prop where
  nonempty : part ≠ []
  not_dot : part ≠ ['.']
  not_dots : part ≠ ['.', '.']
  whole : '/' ∉ part

theorem stepOf_eq_down {part name : Text} (h : stepOf part = .down name) :
    name = part ∧ part ≠ [] ∧ part ≠ ['.'] ∧ part ≠ ['.', '.'] := by
  unfold stepOf at h
  split at h
  · cases h
  · next hstay =>
      split at h
      · cases h
      · next hup =>
          cases h
          exact ⟨rfl, (not_or.1 hstay).1, (not_or.1 hstay).2, hup⟩

/-- Behind a root no two dots are left, so the two dots of a path always go up. -/
theorem foldl_cleanStep (parts front : List Text) (h : ['.', '.'] ∉ front) :
    parts.foldl (cleanStep true) front = (parts.map stepOf).foldl Step.walk front := by
  induction parts generalizing front with
  | nil => rfl
  | cons part rest ih =>
    rw [List.map_cons, List.foldl_cons, List.foldl_cons]
    have hstep : cleanStep true front part = Step.walk front (stepOf part) := by
      unfold cleanStep stepOf
      split
      · rfl
      · split
        · cases front with
          | nil => rfl
          | cons last more =>
            refine if_neg ?_
            rintro rfl
            exact h List.mem_cons_self
        · rfl
    rw [hstep]
    apply ih
    intro hdots
    have hsingle : ['.', '.'] ∈ [stepOf part].foldl Step.walk front := hdots
    rcases Step.mem_of_mem_foldl_walk hsingle with hfront | hpart
    · exact h hfront
    · rw [List.mem_singleton] at hpart
      obtain ⟨rfl, -, -, hne⟩ := stepOf_eq_down hpart.symm
      exact hne rfl

/-- The names that cleaning leaves of a path behind its root. -/
def namesOf (rest : Text) : List Text := (Step.resolve ((rest.splitOn '/').map stepOf)).reverse

theorem splitOn_rooted (rest : Text) : ('/' :: rest).splitOn '/' = [] :: rest.splitOn '/' := by
  rw [List.splitOn_cons_eq_if_modifyHead, beq_self_eq_true, if_pos rfl]

theorem clean_rooted (rest : Text) : clean ('/' :: rest) = '/' :: List.intercalate ['/'] (namesOf rest) := by
  have hsegments : (('/' :: rest).splitOn '/').foldl (cleanStep true) [] =
      Step.resolve ((rest.splitOn '/').map stepOf) := by
    rw [splitOn_rooted, List.foldl_cons]
    exact foldl_cleanStep _ _ List.not_mem_nil
  show '/' :: List.intercalate ['/'] ((('/' :: rest).splitOn '/').foldl (cleanStep true) []).reverse = _
  rw [hsegments]
  rfl

theorem isName_of_mem_namesOf {rest name : Text} (h : name ∈ namesOf rest) : IsName name := by
  rw [namesOf, List.mem_reverse] at h
  obtain ⟨part, hpart, hdown⟩ := List.mem_map.1 (Step.mem_of_mem_resolve h)
  obtain ⟨rfl, hne, hdot, hdots⟩ := stepOf_eq_down hdown
  exact ⟨hne, hdot, hdots, not_mem_of_mem_splitOn hpart⟩

/-! ## Clean paths -/

section

variable {names : List Text}

theorem splitOn_names (h : ∀ name ∈ names, IsName name) (hne : names ≠ []) :
    (List.intercalate ['/'] names).splitOn '/' = names :=
  List.splitOn_intercalate '/' (fun name hname => (h name hname).whole) hne

/-- A clean path has no dots for segments. -/
theorem undotted_clean (rest : Text) {part : Text} (h : part ∈ (clean ('/' :: rest)).splitOn '/') :
    part ≠ ['.'] ∧ part ≠ ['.', '.'] := by
  rw [clean_rooted, splitOn_rooted] at h
  rcases List.mem_cons.1 h with rfl | hpart
  · exact ⟨List.cons_ne_nil _ _ ∘ Eq.symm, List.cons_ne_nil _ _ ∘ Eq.symm⟩
  · by_cases hne : namesOf rest = []
    · rw [hne] at hpart
      obtain rfl := List.mem_singleton.1 hpart
      exact ⟨List.cons_ne_nil _ _ ∘ Eq.symm, List.cons_ne_nil _ _ ∘ Eq.symm⟩
    · rw [splitOn_names (fun _ hname => isName_of_mem_namesOf hname) hne] at hpart
      have hname := isName_of_mem_namesOf hpart
      exact ⟨hname.not_dot, hname.not_dots⟩

/-- Joined parts behind a root are the parts, each behind a slash of its own. -/
theorem cons_intercalate (hne : names ≠ []) : '/' :: List.intercalate ['/'] names = names.flatMap ('/' :: ·) := by
  induction names with
  | nil => exact absurd rfl hne
  | cons name rest ih =>
    by_cases hrest : rest = []
    · rw [hrest, List.intercalate_singleton, List.flatMap_singleton]
    · rw [List.intercalate_cons_of_ne_nil hrest, List.flatMap_cons, ← ih hrest, List.append_assoc]
      rfl

theorem cons_eq_flatMap (rest : Text) : '/' :: rest = (rest.splitOn '/').flatMap ('/' :: ·) := by
  rw [← cons_intercalate (List.splitOn_ne_nil '/' rest), List.intercalate_splitOn]

end

section

variable {rest : Text}

theorem clean_eq_flatMap (h : namesOf rest ≠ []) : clean ('/' :: rest) = (namesOf rest).flatMap ('/' :: ·) := by
  rw [clean_rooted, cons_intercalate h]

theorem clean_root (h : namesOf rest = []) : clean ('/' :: rest) = ['/'] := by
  rw [clean_rooted, h]
  rfl

theorem part_of_mem_namesOf {name : Text} (h : name ∈ namesOf rest) : name ∈ rest.splitOn '/' := by
  rw [namesOf, List.mem_reverse] at h
  obtain ⟨part, hpart, hdown⟩ := List.mem_map.1 (Step.mem_of_mem_resolve h)
  obtain ⟨rfl, -⟩ := stepOf_eq_down hdown
  exact hpart

/-- Cleaning adds no character. -/
theorem mem_of_mem_clean {c : Char} (h : c ∈ clean ('/' :: rest)) : c ∈ '/' :: rest := by
  by_cases hne : namesOf rest = []
  · rw [clean_root hne] at h
    rw [List.mem_singleton.1 h]
    exact List.mem_cons_self
  · rw [clean_eq_flatMap hne, List.mem_flatMap] at h
    obtain ⟨name, hname, hc⟩ := h
    rw [cons_eq_flatMap, List.mem_flatMap]
    exact ⟨name, part_of_mem_namesOf hname, hc⟩

theorem length_clean_le (rest : Text) : (clean ('/' :: rest)).length ≤ ('/' :: rest).length := by
  by_cases hne : namesOf rest = []
  · rw [clean_root hne]
    exact Nat.le_add_left _ _
  · have hsize : ∀ part, (stepOf part).size (fun name => name.length + 1) ≤ part.length + 1 := by
      intro part
      cases hstep : stepOf part with
      | stay => exact Nat.zero_le _
      | up => exact Nat.zero_le _
      | down name =>
        obtain ⟨rfl, -⟩ := stepOf_eq_down hstep
        exact Nat.le_refl _
    have hnames : ((namesOf rest).map fun name => name.length + 1).sum ≤
        (((rest.splitOn '/').map stepOf).map (Step.size fun name => name.length + 1)).sum := by
      rw [namesOf, List.map_reverse, List.sum_reverse]
      exact Step.sum_resolve_le _ _
    rw [clean_eq_flatMap hne, cons_eq_flatMap, List.length_flatMap, List.length_flatMap]
    refine Nat.le_trans hnames ?_
    rw [List.map_map]
    exact List.sum_le_sum fun part _ => hsize part

/-- A clean path ends as the last name does, which `Step.lastName` finds in the path itself. -/
theorem getLast?_clean {name : Text}
    (h : Step.lastName 0 ((('/' :: rest).splitOn '/').map stepOf).reverse = some name) :
    (clean ('/' :: rest)).getLast? = name.getLast? := by
  rw [← Step.head?_resolve, splitOn_rooted, List.map_cons] at h
  have hhead : (Step.resolve ((rest.splitOn '/').map stepOf)).head? = some name := h
  obtain ⟨more, hresolve⟩ := List.head?_eq_some_iff.1 hhead
  have hnames : namesOf rest = more.reverse ++ [name] := by
    rw [namesOf, hresolve, List.reverse_cons]
  have hmem : name ∈ namesOf rest := by
    rw [hnames]
    exact List.mem_concat_self
  rw [clean_eq_flatMap (List.ne_nil_of_mem hmem), hnames, List.flatMap_append, List.flatMap_singleton]
  rw [List.getLast?_append_of_ne_nil _ (List.cons_ne_nil _ _),
    List.getLast?_cons_of_ne_nil (isName_of_mem_namesOf hmem).nonempty]

theorem clean_of_lastName_none (h : Step.lastName 0 ((('/' :: rest).splitOn '/').map stepOf).reverse = none) :
    clean ('/' :: rest) = ['/'] := by
  rw [← Step.head?_resolve, splitOn_rooted, List.map_cons] at h
  have hnone : (Step.resolve ((rest.splitOn '/').map stepOf)).head? = none := h
  apply clean_root
  rw [namesOf, List.head?_eq_none_iff.1 hnone]
  rfl

end

/-! ## Any path -/

/-- A segment that `clean` keeps. -/
structure IsKept (part : Text) : Prop where
  nonempty : part ≠ []
  not_dot : part ≠ ['.']
  whole : '/' ∉ part

/-- What a segment does: it stays, it goes on, also by two dots where nothing can be left, or it leaves one. -/
theorem cleanStep_cases (rooted : Bool) (front : List Text) (part : Text) :
    cleanStep rooted front part = front ∨
      (cleanStep rooted front part = part :: front ∧ part ≠ [] ∧ part ≠ ['.'] ∧
        (part = ['.', '.'] → rooted = false ∧ front = [] ∨ ∃ rest, front = part :: rest)) ∨
      ∃ last rest, front = last :: rest ∧ cleanStep rooted front part = rest := by
  rw [cleanStep.eq_def]
  by_cases hstay : part = [] ∨ part = ['.']
  · exact Or.inl (if_pos hstay)
  · obtain ⟨hne, hdot⟩ := not_or.1 hstay
    rw [if_neg hstay]
    by_cases hup : part = ['.', '.']
    · rw [if_pos hup]
      cases front with
      | nil =>
        cases rooted with
        | true => exact Or.inl rfl
        | false => exact Or.inr (Or.inl ⟨rfl, hne, hdot, fun _ => Or.inl ⟨rfl, rfl⟩⟩)
      | cons last rest =>
        by_cases hlast : last = ['.', '.']
        · refine Or.inr (Or.inl ⟨if_pos hlast, hne, hdot, fun _ => Or.inr ⟨rest, ?_⟩⟩)
          rw [hlast, hup]
        · exact Or.inr (Or.inr ⟨last, rest, rfl, if_neg hlast⟩)
    · exact Or.inr (Or.inl ⟨if_neg hup, hne, hdot, fun h => absurd h hup⟩)

/-- Kept segments with slashes between are no dot alone and no slash alone. -/
theorem intercalate_kept {parts : List Text} (hne : parts ≠ []) (hkept : ∀ part ∈ parts, IsKept part) :
    List.intercalate ['/'] parts ≠ [] ∧ List.intercalate ['/'] parts ≠ ['.'] ∧
      List.intercalate ['/'] parts ≠ ['/'] := by
  cases parts with
  | nil => exact absurd rfl hne
  | cons part rest =>
    have hpart := hkept part List.mem_cons_self
    cases rest with
    | nil =>
      rw [List.intercalate_singleton]
      refine ⟨hpart.nonempty, hpart.not_dot, fun h => hpart.whole ?_⟩
      rw [h]
      exact List.mem_singleton_self _
    | cons next more =>
      have hlong : 2 ≤ (List.intercalate ['/'] (part :: next :: more)).length := by
        have hlength : 0 < part.length := List.length_pos_of_ne_nil hpart.nonempty
        rw [List.intercalate_cons_cons, List.length_append, List.length_append, List.length_singleton]
        omega
      refine ⟨?_, ?_, ?_⟩
      all_goals
        intro h
        rw [h] at hlong
        exact absurd hlong (by decide)

/-- What `clean` has of a path while it reads it: behind two dots there are only two dots in front, and behind a root
there are none. -/
structure Resolved (rooted : Bool) (front : List Text) : Prop where
  kept : ∀ part ∈ front, IsKept part
  dots : front.Pairwise fun last before => last = ['.', '.'] → before = ['.', '.']
  rooted : rooted = true → ['.', '.'] ∉ front

namespace Resolved

variable {rooted : Bool} {front : List Text}

theorem nil (rooted : Bool) : Resolved rooted [] where
  kept _ h := absurd h List.not_mem_nil
  dots := List.Pairwise.nil
  rooted _ := List.not_mem_nil

theorem tail {last : Text} (h : Resolved rooted (last :: front)) : Resolved rooted front where
  kept part hpart := h.kept part (List.mem_cons_of_mem _ hpart)
  dots := h.dots.of_cons
  rooted hrooted hmem := h.rooted hrooted (List.mem_cons_of_mem _ hmem)

theorem step (h : Resolved rooted front) {part : Text} (hpart : '/' ∉ part) :
    Resolved rooted (cleanStep rooted front part) := by
  rcases cleanStep_cases rooted front part with hsame | ⟨hpush, hne, hdot, hup⟩ | ⟨last, rest, rfl, hpop⟩
  · rw [hsame]
    exact h
  · rw [hpush]
    constructor
    · intro p hp
      rcases List.mem_cons.1 hp with rfl | hmem
      · exact ⟨hne, hdot, hpart⟩
      · exact h.kept p hmem
    · refine List.pairwise_cons.2 ⟨fun before hbefore hdots => ?_, h.dots⟩
      rcases hup hdots with ⟨-, rfl⟩ | ⟨rest, rfl⟩
      · exact absurd hbefore List.not_mem_nil
      · rcases List.mem_cons.1 hbefore with rfl | hmem
        · exact hdots
        · exact (List.pairwise_cons.1 h.dots).1 before hmem hdots
    · intro hrooted hmem
      rcases List.mem_cons.1 hmem with hdots | hmem
      · rcases hup hdots.symm with ⟨hrelative, -⟩ | ⟨rest, rfl⟩
        · rw [hrooted] at hrelative
          cases hrelative
        · exact h.rooted hrooted (hdots ▸ List.mem_cons_self)
      · exact h.rooted hrooted hmem
  · rw [hpop]
    exact h.tail

theorem foldl (h : Resolved rooted front) {parts : List Text} (hparts : ∀ part ∈ parts, '/' ∉ part) :
    Resolved rooted (parts.foldl (cleanStep rooted) front) := by
  induction parts generalizing front with
  | nil => exact h
  | cons part rest ih =>
    exact ih (h.step (hparts part List.mem_cons_self)) fun p hp => hparts p (List.mem_cons_of_mem _ hp)

/-- Reading what has been kept keeps it. -/
theorem foldl_reverse (h : Resolved rooted front) : front.reverse.foldl (cleanStep rooted) [] = front := by
  induction front with
  | nil => rfl
  | cons part rest ih =>
    have hpart := h.kept part List.mem_cons_self
    have hstay : ¬(part = [] ∨ part = ['.']) := not_or.2 ⟨hpart.nonempty, hpart.not_dot⟩
    rw [List.reverse_cons, List.foldl_append, ih h.tail, List.foldl_cons, List.foldl_nil, cleanStep.eq_def,
      if_neg hstay]
    by_cases hup : part = ['.', '.']
    · rw [if_pos hup]
      cases rest with
      | nil =>
        have hrelative : rooted = false := by
          cases rooted with
          | true => exact absurd (hup ▸ List.mem_cons_self) (h.rooted rfl)
          | false => rfl
        rw [hrelative]
        rfl
      | cons last more =>
        have hlast := (List.pairwise_cons.1 h.dots).1 last List.mem_cons_self hup
        exact if_pos hlast
    · exact if_neg hup

end Resolved

/-- The segments that are left of a path, the last one in front. -/
def segments (path : Text) : List Text := (path.splitOn '/').foldl (cleanStep (decide (path.head? = some '/'))) []

theorem resolved_segments (path : Text) : Resolved (decide (path.head? = some '/')) (segments path) :=
  (Resolved.nil _).foldl fun _ => not_mem_of_mem_splitOn

theorem clean_eq (path : Text) : clean path =
    if path.head? = some '/' then '/' :: List.intercalate ['/'] (segments path).reverse
    else if segments path = [] then ['.'] else List.intercalate ['/'] (segments path).reverse := by
  have hempty : List.intercalate ['/'] (segments path).reverse = [] ↔ segments path = [] := by
    constructor
    · intro hnone
      by_contra hne
      exact (intercalate_kept (fun h => hne (List.reverse_eq_nil_iff.1 h)) fun part hpart =>
        (resolved_segments path).kept part (List.mem_reverse.1 hpart)).1 hnone
    · intro hnone
      rw [hnone]
      rfl
  rw [clean, ← segments]
  simp only [hempty]

theorem segments_cleaned {rooted : Bool} {front : List Text} (h : Resolved rooted front) (hne : front ≠ []) :
    ((List.intercalate ['/'] front.reverse).splitOn '/').foldl (cleanStep rooted) [] = front := by
  rw [List.splitOn_intercalate, h.foldl_reverse]
  · exact fun part hpart => (h.kept part (List.mem_reverse.1 hpart)).whole
  · exact fun hnone => hne (List.reverse_eq_nil_iff.1 hnone)

/-- Kept segments with slashes between do not begin with one. -/
theorem head?_intercalate {parts : List Text} (hkept : ∀ part ∈ parts, IsKept part) :
    (List.intercalate ['/'] parts).head? ≠ some '/' := by
  cases parts with
  | nil => exact fun h => by cases h
  | cons part rest =>
    have hpart := hkept part List.mem_cons_self
    have hhead : (List.intercalate ['/'] (part :: rest)).head? = part.head? := by
      cases rest with
      | nil => rw [List.intercalate_singleton]
      | cons next more =>
        rw [List.intercalate_cons_cons, List.append_assoc, List.head?_append_of_ne_nil _ hpart.nonempty]
    rw [hhead]
    exact fun h => hpart.whole (List.mem_of_head? h)

/-- **Cleaning twice is cleaning.** -/
theorem clean_idempotent (path : Text) : clean (clean path) = clean path := by
  have hresolved := resolved_segments path
  rw [clean_eq path]
  by_cases hrooted : path.head? = some '/'
  · rw [if_pos hrooted]
    rw [decide_eq_true hrooted] at hresolved
    have hsame : segments ('/' :: List.intercalate ['/'] (segments path).reverse) = segments path := by
      rw [segments, splitOn_rooted]
      by_cases hempty : segments path = []
      · rw [hempty]
        rfl
      · exact segments_cleaned hresolved hempty
    rw [clean_eq, if_pos List.head?_cons, hsame]
  · rw [if_neg hrooted]
    rw [decide_eq_false hrooted] at hresolved
    by_cases hempty : segments path = []
    · rw [if_pos hempty]
      rfl
    · have hrelative := head?_intercalate fun part hpart => hresolved.kept part (List.mem_reverse.1 hpart)
      have hsame : segments (List.intercalate ['/'] (segments path).reverse) = segments path := by
        rw [segments, decide_eq_false hrelative]
        exact segments_cleaned hresolved hempty
      rw [if_neg hempty, clean_eq, if_neg hrelative, hsame, if_neg hempty]

/-! ## Entries of a directory -/

/-- The path of a directory in front of the names of its entries. -/
def inside (dir : Text) : Text := if dir = ['.'] then [] else if dir = ['/'] then ['/'] else dir ++ ['/']

/-- The path of an entry of a directory. -/
def child (dir name : Text) : Text := inside dir ++ name

/-- A name is joined to a directory as an entry of the cleaned one. -/
theorem join_name {dir name : Text} (hdir : dir ≠ []) (hname : IsName name) :
    join dir name = child (clean dir) name := by
  have hsplit : (dir ++ '/' :: name).splitOn '/' = dir.splitOn '/' ++ [name] := by
    rw [List.splitOn_append_cons_self, List.splitOn_eq_singleton hname.whole]
  have hhead : (dir ++ '/' :: name).head? = dir.head? := by
    rw [List.head?_append_of_ne_nil _ hdir]
  have hstep : ∀ rooted front, cleanStep rooted front name = name :: front := by
    intro rooted front
    unfold cleanStep
    rw [if_neg (not_or.2 ⟨hname.nonempty, hname.not_dot⟩), if_neg hname.not_dots]
  have hsegments : segments (dir ++ '/' :: name) = name :: segments dir := by
    rw [segments, hsplit, hhead, List.foldl_append, List.foldl_cons, List.foldl_nil, hstep]
    rfl
  rw [join, child, inside, clean_eq, clean_eq, hsegments, hhead, List.reverse_cons]
  by_cases hempty : segments dir = []
  · rw [hempty, List.reverse_nil, List.nil_append, List.intercalate_singleton, List.intercalate_nil, if_pos rfl]
    by_cases hrooted : dir.head? = some '/'
    · rw [if_pos hrooted, if_pos hrooted, if_neg (by decide), if_pos rfl, List.singleton_append]
    · rw [if_neg hrooted, if_neg hrooted, if_neg (List.cons_ne_nil _ _), if_pos rfl, List.nil_append]
  · have hback : (segments dir).reverse ≠ [] := fun h => hempty (List.reverse_eq_nil_iff.1 h)
    obtain ⟨hne, hdot, hslash⟩ := intercalate_kept hback fun part hpart =>
      (resolved_segments dir).kept part (List.mem_reverse.1 hpart)
    rw [intercalate_concat hback, if_neg hempty]
    by_cases hrooted : dir.head? = some '/'
    · have hlong : ¬ '/' :: List.intercalate ['/'] (segments dir).reverse = ['/'] := fun h => hne (List.cons.inj h).2
      have hfirst : ¬ '/' :: List.intercalate ['/'] (segments dir).reverse = ['.'] := fun h =>
        absurd (List.cons.inj h).1 (by decide)
      rw [if_pos hrooted, if_pos hrooted, if_neg hfirst, if_neg hlong, List.append_assoc, List.singleton_append,
        List.cons_append]
    · rw [if_neg hrooted, if_neg hrooted, if_neg (List.cons_ne_nil _ _), if_neg hdot, if_neg hslash,
        List.append_assoc, List.singleton_append]

/-- An entry of an entry. -/
theorem child_child (dir : Text) {name : Text} (hname : IsName name) (entry : Text) :
    child (child dir name) entry = inside dir ++ (name ++ '/' :: entry) := by
  have hsingle : ∀ c, child dir name = [c] → name = [c] := by
    intro c h
    rcases List.append_eq_singleton_iff.1 h with ⟨-, hsame⟩ | ⟨-, hnone⟩
    · exact hsame
    · exact absurd hnone hname.nonempty
  have hdot : child dir name ≠ ['.'] := fun h => hname.not_dot (hsingle _ h)
  have hslash : child dir name ≠ ['/'] := fun h => hname.whole (hsingle _ h ▸ List.mem_singleton_self _)
  rw [child, inside, if_neg hdot, if_neg hslash, child, List.append_assoc, List.append_assoc, List.singleton_append]

end Workbench.Logs
