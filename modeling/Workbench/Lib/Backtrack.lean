import Mathlib.Tactic

/-!
# Backtracking matchers

A matcher maps a text to the rests it may leave, in the order in which a backtracking engine tries
them; the first rest of a sequence of matchers is the match the engine reports. The lemmas say that a
greedy repetition is as good as its longest match when what comes next cannot start with a symbol of
the repetition.
-/

set_option autoImplicit false

namespace Workbench.Lib

universe u v

variable {α : Type u} {β : Type v}

/-- The rests of a text, the preferred one first. -/
abbrev Matcher (α : Type u) := List α → List (List α)

namespace Matcher

/-- A word, compared after `fold`. -/
def word [DecidableEq α] (fold : α → α) (w : List α) : Matcher α := fun s =>
  if (s.take w.length).map fold = w then [s.drop w.length] else []

/-- One symbol of the class. -/
def one (p : α → Bool) : Matcher α
  | [] => []
  | a :: s => if p a then [s] else []

/-- Any number of symbols of the class, as many as possible first. -/
def many (p : α → Bool) : Matcher α
  | [] => [[]]
  | a :: s => if p a then many p s ++ [a :: s] else [a :: s]

/-- At least one symbol of the class. -/
def many1 (p : α → Bool) : Matcher α
  | [] => []
  | a :: s => if p a then many p s else []

/-- One matcher after the other. -/
def seq (m n : Matcher α) : Matcher α := fun s => (m s).flatMap n

/-- The matcher if it succeeds, or nothing. -/
def opt (m : Matcher α) : Matcher α := fun s => m s ++ [s]

/-- The first alternative that matches. -/
def oneOf (ms : List (Matcher α)) : Matcher α := fun s => ms.flatMap fun m => m s

/-- The matchers of a list one after the other. -/
def inTurn (ms : List (Matcher α)) : Matcher α := ms.foldr seq fun s => [s]

/-- The matcher a number of times. -/
def times (n : Nat) (m : Matcher α) : Matcher α := inTurn (List.replicate n m)

/-- At most `n` symbols of the class, as many as possible first. -/
def upTo (p : α → Bool) : Nat → Matcher α
  | 0, s => [s]
  | _ + 1, [] => [[]]
  | n + 1, a :: s => if p a then upTo p n s ++ [a :: s] else [a :: s]

/-- The whole text can be matched. -/
def fullMatch (m : Matcher α) (s : List α) : Bool := (m s).any List.isEmpty

/-! ## Greedy repetitions -/

/-- All rests of a repetition but the first start with a symbol of the class. -/
theorem many_eq (p : α → Bool) (s : List α) :
    ∃ more, many p s = s.dropWhile p :: more ∧ ∀ r ∈ more, ∃ a t, r = a :: t ∧ p a = true ∧
      r.dropWhile p = s.dropWhile p := by
  induction s with
  | nil => exact ⟨[], rfl, by simp⟩
  | cons a s ih =>
    obtain ⟨more, hmore, hall⟩ := ih
    rw [many]
    by_cases ha : p a = true
    · rw [if_pos ha, hmore, List.dropWhile_cons_of_pos ha]
      refine ⟨more ++ [a :: s], rfl, fun r hr => ?_⟩
      rcases List.mem_append.1 hr with hr | hr
      · exact hall r hr
      · rw [List.mem_singleton.1 hr]
        exact ⟨a, s, rfl, ha, List.dropWhile_cons_of_pos ha⟩
    · rw [if_neg ha, List.dropWhile_cons_of_neg ha]
      exact ⟨[], rfl, by simp⟩

/-- The same for a repetition of at least one symbol. -/
theorem many1_eq {p : α → Bool} {a : α} {s : List α} (ha : p a = true) :
    ∃ more, many1 p (a :: s) = (a :: s).dropWhile p :: more ∧
      ∀ r ∈ more, ∃ b t, r = b :: t ∧ p b = true ∧ r.dropWhile p = (a :: s).dropWhile p := by
  obtain ⟨more, hmore, hall⟩ := many_eq p s
  rw [many1, if_pos ha, List.dropWhile_cons_of_pos ha]
  exact ⟨more, hmore, hall⟩

/-- What cannot start with a symbol of the class only sees the longest match. -/
theorem many_flatMap {p : α → Bool} {f : List α → List β}
    (hf : ∀ a t, p a = true → f (a :: t) = []) (s : List α) :
    (many p s).flatMap f = f (s.dropWhile p) := by
  obtain ⟨more, hmore, hall⟩ := many_eq p s
  have hnil : more.flatMap f = [] := by
    rw [List.flatMap_eq_nil_iff]
    intro r hr
    obtain ⟨a, t, rfl, ha, -⟩ := hall r hr
    exact hf a t ha
  rw [hmore, List.flatMap_cons, hnil, List.append_nil]

theorem many1_flatMap {p : α → Bool} {f : List α → List β}
    (hf : ∀ a t, p a = true → f (a :: t) = []) {a : α} {s : List α} (ha : p a = true) :
    (many1 p (a :: s)).flatMap f = f ((a :: s).dropWhile p) := by
  rw [many1, if_pos ha, many_flatMap hf, List.dropWhile_cons_of_pos ha]

/-! ## Words -/

theorem word_append [DecidableEq α] {fold : α → α} {w x : List α} (h : x.map fold = w)
    (s : List α) : word fold w (x ++ s) = [s] := by
  have hlen : w.length = x.length := by rw [← h, List.length_map]
  rw [word, hlen, List.take_left, if_pos h, List.drop_left]

theorem word_eq_nil [DecidableEq α] {fold : α → α} {w s : List α}
    (h : ¬ w <+: s.map fold) : word fold w s = [] := by
  rw [word, if_neg]
  intro heq
  apply h
  rw [← heq, List.map_take]
  exact List.take_prefix _ _

/-- Of words that start differently at most one matches. -/
theorem flatMap_word [DecidableEq α] {fold : α → α} {words : List (List α)}
    (hnodup : words.Nodup) (hne : ∀ w ∈ words, w ≠ [])
    (hheads : ∀ v ∈ words, ∀ w ∈ words, v.head? = w.head? → v = w)
    {w x : List α} (hw : w ∈ words) (h : x.map fold = w) (s : List α)
    (f : List α → List α → List β) :
    (words.flatMap fun v => (word fold v (x ++ s)).flatMap (f v)) = f w s := by
  have hother : ∀ v ∈ words, v ≠ w → word fold v (x ++ s) = [] := by
    intro v hv hvw
    apply word_eq_nil
    rintro ⟨more, hmore⟩
    apply hvw
    apply hheads v hv w hw
    have hfirst := congrArg List.head? hmore
    rwa [List.map_append, h, List.head?_append_of_ne_nil _ (hne v hv),
      List.head?_append_of_ne_nil _ (hne w hw)] at hfirst
  -- the words in front of `w` and behind it find nothing
  obtain ⟨front, back, rfl⟩ := List.append_of_mem hw
  have hnone : ∀ part : List (List α), (∀ v ∈ part, v ∈ front ++ w :: back ∧ v ≠ w) →
      (part.flatMap fun v => (word fold v (x ++ s)).flatMap (f v)) = [] := by
    intro part hpart
    rw [List.flatMap_eq_nil_iff]
    intro v hv
    rw [hother v (hpart v hv).1 (hpart v hv).2, List.flatMap_nil]
  rw [List.nodup_append, List.nodup_cons] at hnodup
  obtain ⟨-, ⟨hback, -⟩, hfront⟩ := hnodup
  rw [List.flatMap_append, List.flatMap_cons, hnone front, hnone back, word_append h,
    List.flatMap_singleton, List.nil_append, List.append_nil]
  · intro v hv
    refine ⟨List.mem_append_right _ (List.mem_cons_of_mem _ hv), ?_⟩
    rintro rfl
    exact hback hv
  · intro v hv
    refine ⟨List.mem_append_left _ hv, ?_⟩
    rintro rfl
    exact hfront v hv v List.mem_cons_self rfl

/-! ## Matchers read from the front -/

/-- What is read in front of each rest consists of symbols of the class. -/
def Consumes (p : α → Bool) (m : Matcher α) : Prop :=
  ∀ s, ∀ r ∈ m s, ∃ x, s = x ++ r ∧ x.all p = true

theorem consumes_word [DecidableEq α] {p : α → Bool} {fold : α → α} {w : List α}
    (h : ∀ x : List α, x.map fold = w → x.all p = true) : Consumes p (word fold w) := by
  intro s r hr
  rw [word] at hr
  split_ifs at hr with heq
  · rw [List.mem_singleton.1 hr]
    exact ⟨s.take w.length, (List.take_append_drop _ s).symm, h _ heq⟩
  · exact absurd hr List.not_mem_nil

theorem consumes_one {p q : α → Bool} (h : ∀ a, q a = true → p a = true) :
    Consumes p (one q) := by
  intro s r hr
  cases s with
  | nil => exact absurd hr List.not_mem_nil
  | cons a s =>
    rw [one] at hr
    split_ifs at hr with ha
    · rw [List.mem_singleton.1 hr]
      exact ⟨[a], rfl, by simp [h a ha]⟩
    · exact absurd hr List.not_mem_nil

theorem consumes_many {p q : α → Bool} (h : ∀ a, q a = true → p a = true) :
    Consumes p (many q) := by
  intro s
  induction s with
  | nil =>
    intro r hr
    exact ⟨[], by rw [List.mem_singleton.1 hr, List.nil_append], rfl⟩
  | cons a s ih =>
    intro r hr
    have hself : ∃ x, a :: s = x ++ (a :: s) ∧ x.all p = true := ⟨[], rfl, rfl⟩
    rw [many] at hr
    split_ifs at hr with ha
    · rcases List.mem_append.1 hr with hr | hr
      · obtain ⟨x, rfl, hx⟩ := ih r hr
        exact ⟨a :: x, rfl, by rw [List.all_cons, h a ha, hx, Bool.true_and]⟩
      · rw [List.mem_singleton.1 hr]
        exact hself
    · rw [List.mem_singleton.1 hr]
      exact hself

theorem consumes_many1 {p q : α → Bool} (h : ∀ a, q a = true → p a = true) :
    Consumes p (many1 q) := by
  intro s r hr
  cases s with
  | nil => exact absurd hr List.not_mem_nil
  | cons a s =>
    rw [many1] at hr
    split_ifs at hr with ha
    · obtain ⟨x, rfl, hx⟩ := consumes_many h s r hr
      exact ⟨a :: x, rfl, by rw [List.all_cons, h a ha, hx, Bool.true_and]⟩
    · exact absurd hr List.not_mem_nil

theorem Consumes.seq {p : α → Bool} {m n : Matcher α} (hm : Consumes p m) (hn : Consumes p n) :
    Consumes p (m.seq n) := by
  intro s r hr
  obtain ⟨t, ht, hrest⟩ := List.mem_flatMap.1 hr
  obtain ⟨x, rfl, hx⟩ := hm s t ht
  obtain ⟨y, rfl, hy⟩ := hn t r hrest
  exact ⟨x ++ y, (List.append_assoc x y r).symm, by rw [List.all_append, hx, hy, Bool.true_and]⟩

theorem Consumes.opt {p : α → Bool} {m : Matcher α} (hm : Consumes p m) : Consumes p m.opt := by
  intro s r hr
  rcases List.mem_append.1 hr with hr | hr
  · exact hm s r hr
  · exact ⟨[], by rw [List.mem_singleton.1 hr, List.nil_append], rfl⟩

theorem consumes_oneOf {p : α → Bool} {ms : List (Matcher α)} (h : ∀ m ∈ ms, Consumes p m) :
    Consumes p (oneOf ms) := by
  intro s r hr
  obtain ⟨m, hm, hr⟩ := List.mem_flatMap.1 hr
  exact h m hm s r hr

/-- A text that is matched as a whole consists of symbols of the class. -/
theorem Consumes.all_of_fullMatch {p : α → Bool} {m : Matcher α} (hm : Consumes p m) {s : List α}
    (h : m.fullMatch s = true) : s.all p = true := by
  rw [fullMatch, List.any_eq_true] at h
  obtain ⟨r, hr, hempty⟩ := h
  obtain ⟨x, rfl, hx⟩ := hm s r hr
  rw [List.isEmpty_iff.1 hempty, List.append_nil]
  exact hx

/-! ## Properties of what is read -/

/-- What is read in front of each rest has the property. -/
def Yields (P : List α → Prop) (m : Matcher α) : Prop :=
  ∀ s, ∀ r ∈ m s, ∃ x, s = x ++ r ∧ P x

theorem yields_one {P : List α → Prop} {q : α → Bool} (h : ∀ a, q a = true → P [a]) :
    Yields P (one q) := by
  intro s r hr
  cases s with
  | nil => exact absurd hr List.not_mem_nil
  | cons a s =>
    rw [one] at hr
    split_ifs at hr with ha
    · rw [List.mem_singleton.1 hr]
      exact ⟨[a], rfl, h a ha⟩
    · exact absurd hr List.not_mem_nil

theorem yields_many {P : List α → Prop} {q : α → Bool} (h : ∀ x, x.all q = true → P x) :
    Yields P (many q) := by
  intro s r hr
  obtain ⟨x, hx, hall⟩ := consumes_many (fun _ ha => ha) s r hr
  exact ⟨x, hx, h x hall⟩

theorem yields_many1 {P : List α → Prop} {q : α → Bool} (h : ∀ x, x.all q = true → P x) :
    Yields P (many1 q) := by
  intro s r hr
  obtain ⟨x, hx, hall⟩ := consumes_many1 (fun _ ha => ha) s r hr
  exact ⟨x, hx, h x hall⟩

theorem Yields.seq {P Q S : List α → Prop} {m n : Matcher α} (hm : Yields P m) (hn : Yields Q n)
    (h : ∀ x y, P x → Q y → S (x ++ y)) : Yields S (m.seq n) := by
  intro s r hr
  obtain ⟨t, ht, hrest⟩ := List.mem_flatMap.1 hr
  obtain ⟨x, rfl, hx⟩ := hm s t ht
  obtain ⟨y, rfl, hy⟩ := hn t r hrest
  exact ⟨x ++ y, (List.append_assoc x y r).symm, h x y hx hy⟩

theorem Yields.opt {P : List α → Prop} {m : Matcher α} (hm : Yields P m) (h : P []) :
    Yields P m.opt := by
  intro s r hr
  rcases List.mem_append.1 hr with hr | hr
  · exact hm s r hr
  · exact ⟨[], by rw [List.mem_singleton.1 hr, List.nil_append], h⟩

/-- A text that is matched as a whole has the property. -/
theorem Yields.of_fullMatch {P : List α → Prop} {m : Matcher α} (hm : Yields P m) {s : List α}
    (h : m.fullMatch s = true) : P s := by
  rw [fullMatch, List.any_eq_true] at h
  obtain ⟨r, hr, hempty⟩ := h
  obtain ⟨x, rfl, hx⟩ := hm s r hr
  rw [List.isEmpty_iff.1 hempty, List.append_nil]
  exact hx

end Matcher

end Workbench.Lib
