import Mathlib.Data.List.Infix

/-!
# Matching with LIKE

`value LIKE pattern`: a percent sign stands for any text, an underscore for one character, and a backslash
takes the character behind it literally. A pattern that ends inside an escape matches nothing here; it is an
error where it is matched.
-/

set_option autoImplicit false

namespace Workbench.Lib

/-- The characters with a meaning of their own in a pattern. -/
def isLikeSpecial (c : Char) : Bool := c = '%' || c = '_' || c = '\\'

/-- `value LIKE pattern`. -/
def like : (pattern value : List Char) → Bool
  | [], value => value.isEmpty
  | '%' :: rest, value => value.tails.any (like rest)
  | '_' :: rest, value =>
    match value with
    | [] => false
    | _ :: value => like rest value
  | '\\' :: [], _ => false
  | '\\' :: c :: rest, value =>
    match value with
    | [] => false
    | d :: value => d = c && like rest value
  | c :: rest, value =>
    match value with
    | [] => false
    | d :: value => d = c && like rest value

section

attribute [local simp] like

theorem like_percent (rest value : List Char) :
    like ('%' :: rest) value = value.tails.any (like rest) := by
  rw [like]

theorem like_underscore (rest value : List Char) (c : Char) : like ('_' :: rest) (c :: value) = like rest value := by
  rw [like]

theorem like_escaped (c : Char) (rest value : List Char) :
    like ('\\' :: c :: rest) (c :: value) = like rest value := by
  simp

theorem like_plain {c : Char} (h : isLikeSpecial c = false) (rest : List Char) (d : Char) (value : List Char) :
    like (c :: rest) (d :: value) = (d = c && like rest value) := by
  simp only [isLikeSpecial, Bool.or_eq_false_iff, decide_eq_false_iff_not] at h
  rw [like]
  · exact h.1.1
  · exact h.1.2
  · exact fun hc _ => h.2 hc
  · exact fun _ _ hc _ => h.2 hc

theorem like_plain_nil {c : Char} (h : isLikeSpecial c = false) (rest : List Char) :
    like (c :: rest) [] = false := by
  simp only [isLikeSpecial, Bool.or_eq_false_iff, decide_eq_false_iff_not] at h
  rw [like]
  · exact h.1.1
  · exact h.1.2
  · exact fun hc _ => h.2 hc
  · exact fun _ _ hc _ => h.2 hc

end

/-! ## Searching with percent signs -/

theorem like_percent_end (value : List Char) : like ['%'] value = true := by
  rw [like_percent, List.any_eq_true]
  exact ⟨[], (List.mem_tails _ _).2 List.nil_suffix, rfl⟩

/-- A plain text with a percent sign behind it matches what begins with it. -/
theorem like_front {query : List Char} (h : ∀ c ∈ query, isLikeSpecial c = false) (value : List Char) :
    like (query ++ ['%']) value = true ↔ query <+: value := by
  induction query generalizing value with
  | nil => simp [like_percent_end]
  | cons c rest ih =>
    have hc := h c List.mem_cons_self
    cases value with
    | nil => simp [like_plain_nil hc]
    | cons d value =>
      rw [List.cons_append, like_plain hc, Bool.and_eq_true, decide_eq_true_eq,
        ih fun c hc => h c (List.mem_cons_of_mem _ hc), List.cons_prefix_cons]
      exact and_congr_left' eq_comm

/-- **Between percent signs a plain text matches what contains it.** -/
theorem like_contains {query : List Char} (h : ∀ c ∈ query, isLikeSpecial c = false) (value : List Char) :
    like ('%' :: query ++ ['%']) value = true ↔ query <:+: value := by
  rw [List.cons_append, like_percent, List.any_eq_true]
  simp only [like_front h, List.mem_tails]
  constructor
  · rintro ⟨tail, ⟨front, rfl⟩, ⟨back, rfl⟩⟩
    exact ⟨front, back, by simp⟩
  · rintro ⟨front, back, rfl⟩
    exact ⟨query ++ back, ⟨front, by simp⟩, List.prefix_append query back⟩

/-! ## What a pattern matches apart from itself -/

/-- The shortest text for a pattern that a percent sign follows, with one character for every underscore; the
percent sign behind it stands for itself if the pattern ends with an escape. -/
def likeInstance (filler : Char) : List Char → List Char
  | [] => []
  | '%' :: rest => likeInstance filler rest
  | '_' :: rest => filler :: likeInstance filler rest
  | '\\' :: [] => ['%']
  | '\\' :: c :: rest => c :: likeInstance filler rest
  | c :: rest => c :: likeInstance filler rest

section

attribute [local simp] likeInstance

theorem likeInstance_plain {filler c : Char} (h : isLikeSpecial c = false) (rest : List Char) :
    likeInstance filler (c :: rest) = c :: likeInstance filler rest := by
  simp only [isLikeSpecial, Bool.or_eq_false_iff, decide_eq_false_iff_not] at h
  rw [likeInstance]
  · exact h.1.1
  · exact h.1.2
  · exact fun hc _ => h.2 hc
  · exact fun _ _ hc _ => h.2 hc

theorem isLikeSpecial_cases {c : Char} (h : isLikeSpecial c = true) : c = '%' ∨ c = '_' ∨ c = '\\' := by
  simpa [isLikeSpecial, or_assoc] using h

/-- A character that begins none of the other cases of a pattern. -/
theorem isLikeSpecial_eq_false {c : Char} {rest : List Char} (hpercent : c ≠ '%') (hunderscore : c ≠ '_')
    (hend : c = '\\' → rest ≠ []) (hescape : ∀ d more, c = '\\' → rest ≠ d :: more) :
    isLikeSpecial c = false := by
  have hbackslash : c ≠ '\\' := by
    cases rest with
    | nil => exact fun hc => hend hc rfl
    | cons d rest => exact fun hc => hescape d rest hc rfl
  simp [isLikeSpecial, hpercent, hunderscore, hbackslash]

/-- A pattern with a percent sign behind it matches its instance. -/
theorem like_instance (filler : Char) (query : List Char) :
    like (query ++ ['%']) (likeInstance filler query) = true := by
  fun_induction likeInstance filler query with
  | case1 => exact like_percent_end []
  | case2 rest ih =>
    rw [List.cons_append, like_percent, List.any_eq_true]
    exact ⟨_, (List.mem_tails _ _).2 (List.suffix_refl _), ih⟩
  | case3 rest ih =>
    rw [List.cons_append, like_underscore]
    exact ih
  | case4 => decide
  | case5 c rest ih =>
    rw [List.cons_append, List.cons_append, like_escaped]
    exact ih
  | case6 c rest hpercent hunderscore hend hescape ih =>
    have hc := isLikeSpecial_eq_false hpercent hunderscore hend hescape
    rw [List.cons_append, like_plain hc, ih]
    simp

theorem length_likeInstance (filler : Char) (query : List Char) :
    (likeInstance filler query).length ≤ query.length := by
  fun_induction likeInstance filler query <;> simp only [List.length_cons, List.length_nil] <;> omega

/-- A pattern that is its own instance has nothing special in it. -/
theorem plain_of_likeInstance {filler : Char} (hfiller : filler ≠ '_') {query : List Char}
    (h : likeInstance filler query = query) : ∀ c ∈ query, isLikeSpecial c = false := by
  induction query with
  | nil => simp
  | cons c rest ih =>
    have hlength := length_likeInstance filler rest
    cases hc : isLikeSpecial c with
    | false =>
      rw [likeInstance_plain hc] at h
      intro d hd
      rcases List.mem_cons.1 hd with rfl | hd
      · exact hc
      · exact ih (List.cons.inj h).2 d hd
    | true =>
      -- with one of the special characters the instance is shorter or another text
      exfalso
      rcases isLikeSpecial_cases hc with rfl | rfl | rfl
      · rw [likeInstance] at h
        rw [h, List.length_cons] at hlength
        omega
      · rw [likeInstance] at h
        exact hfiller (List.cons.inj h).1
      · cases rest with
        | nil => simp at h
        | cons d rest =>
          rw [likeInstance] at h
          have hshort := length_likeInstance filler rest
          have hlengths := congrArg List.length h
          simp only [List.length_cons] at hlengths
          omega

end

/-- No pattern with a special character is contained in its instance. -/
theorem not_infix_likeInstance {filler : Char} (hfiller : filler ≠ '_') {query : List Char}
    (h : ¬∀ c ∈ query, isLikeSpecial c = false) : ¬query <:+: likeInstance filler query := by
  intro hinfix
  have hsame := hinfix.eq_of_length_le (length_likeInstance filler query)
  exact h (plain_of_likeInstance hfiller hsame.symm)

end Workbench.Lib
