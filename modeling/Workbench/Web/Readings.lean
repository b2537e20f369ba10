import Workbench.Query.DropTarget
import Workbench.Web.Ddl

/-!
# The gate and the client at one place of a text

The tokenizer of the gate reads the text as it is, the client what its regular expressions have left
of it. Both are looked at from a place that lies outside quoted texts and comments: what stands there
(`Head`), what the gate reads of it, and what the client reads of what it has `kept`.
-/

set_option autoImplicit false

namespace Workbench.Web

open Workbench.Lib Workbench.Query

/-- No keyword of the target search of the client. -/
def isScriptFree (text : Text) : Bool := !targetKeywords.contains (scriptUpper text)

theorem isScriptFree_iff {text : Text} :
    isScriptFree text = true ↔ scriptUpper text ∉ targetKeywords := by
  rw [isScriptFree, Bool.not_eq_true', Bool.eq_false_iff, Ne, List.contains_iff_mem]

/-! ## Upper case on both sides -/

/-- A character that the server maps into ASCII is mapped alike by the client. -/
theorem scriptUpperChar_of_ascii {c : Char} (h : (runeToUpper c).toNat < 128) :
    scriptUpperChar c = [runeToUpper c] := by
  -- no ligature: the server leaves them, and they are outside of ASCII
  have hne : ∀ x : Char, runeToUpper x = x ∧ 128 ≤ x.toNat → c ≠ x := by
    rintro x ⟨hx, hbound⟩ rfl
    rw [hx] at h
    omega
  by_cases h1 : c = 'ı'
  · subst h1
    rfl
  by_cases h2 : c = 'ſ'
  · subst h2
    rfl
  rw [scriptUpperChar, if_neg h1, if_neg h2, if_neg (hne 'ß' (by decide)), if_neg (hne '\ufb00' (by decide)),
    if_neg (hne '\ufb01' (by decide)), if_neg (hne '\ufb02' (by decide)), if_neg (hne '\ufb03' (by decide)),
    if_neg (hne '\ufb04' (by decide)), if_neg (hne '\ufb05' (by decide)), if_neg (hne '\ufb06' (by decide)),
    runeToUpper, if_neg h1, if_neg h2]

/-- Only `I` and `S` are the upper case of a letter outside ASCII. -/
theorem map_asciiUpper_of_plain {text : Text}
    (h : (toUpper text).all (fun c => c ≠ 'I' && c ≠ 'S') = true) :
    text.map asciiUpper = toUpper text := by
  apply List.map_congr_left
  intro c hc
  have hplain := List.all_eq_true.1 h _ (List.mem_map_of_mem hc)
  rw [runeToUpper] at hplain ⊢
  split_ifs at hplain ⊢ with h1 h2
  · exact absurd hplain (by decide)
  · exact absurd hplain (by decide)
  · rfl

theorem scriptUpper_eq_toUpper {text : Text} (h : ∀ c ∈ toUpper text, c.toNat < 128) :
    scriptUpper text = toUpper text := by
  induction text with
  | nil => rfl
  | cons c rest ih =>
    rw [toUpper, List.map_cons, List.forall_mem_cons] at h
    rw [scriptUpper, List.flatMap_cons, scriptUpperChar_of_ascii h.1, toUpper, List.map_cons]
    exact congrArg (runeToUpper c :: ·) (ih h.2)

theorem keyword_ascii {text : Text} (h : text ∈ targetKeywords) : ∀ c ∈ text, c.toNat < 128 := by
  have hall : ∀ k ∈ targetKeywords, k.all (fun c => c.toNat < 128) = true := by decide
  intro c hc
  simpa using List.all_eq_true.1 (hall text h) c hc

theorem isFree_iff {text : Text} : isFree text = true ↔ toUpper text ∉ targetKeywords := by
  rw [isFree, Bool.not_eq_true', Bool.eq_false_iff, Ne, List.contains_iff_mem]

/-- A keyword of the server is one of the client. -/
theorem isFree_of_scriptFree {text : Text} (h : isScriptFree text = true) : isFree text = true := by
  refine isFree_iff.2 fun hmem => ?_
  rw [isScriptFree_iff, scriptUpper_eq_toUpper (keyword_ascii hmem)] at h
  exact h hmem

/-- A character with an upper-case letter for its upper case is no white space. -/
theorem not_scriptSpace_of_upper {c : Char} (h : isUpper (runeToUpper c) = true) :
    isScriptSpace c = false := by
  by_contra hspace
  rw [Bool.not_eq_false] at hspace
  have hlower : isLower c = false ∧ isUpper c = false ∧ c ≠ 'ı' ∧ c ≠ 'ſ' := by
    simp only [isScriptSpace, Bool.or_eq_true, decide_eq_true_eq, Bool.and_eq_true] at hspace
    rcases hspace with (((((((((((((rfl | rfl) | rfl) | rfl) | rfl) | rfl) | rfl) | rfl) | hr) |
      rfl) | rfl) | rfl) | rfl) | rfl) | rfl
    all_goals first
      | decide
      | skip
    -- the range of the general punctuation block lies above the Latin letters
    have hnat : 8192 ≤ c.toNat := (char_le_iff _ _).1 hr.1
    refine ⟨?_, ?_, ?_, ?_⟩
    · rw [isLower, Bool.and_eq_false_iff, decide_eq_false_iff_not, decide_eq_false_iff_not]
      exact Or.inr fun hz => absurd (hnat.trans ((char_le_iff _ _).1 hz)) (by decide)
    · rw [isUpper, Bool.and_eq_false_iff, decide_eq_false_iff_not, decide_eq_false_iff_not]
      exact Or.inr fun hz => absurd (hnat.trans ((char_le_iff _ _).1 hz)) (by decide)
    · rintro rfl
      exact absurd hnat (by decide)
    · rintro rfl
      exact absurd hnat (by decide)
  rw [runeToUpper, if_neg hlower.2.2.1, if_neg hlower.2.2.2, asciiUpper, hlower.1,
    if_neg Bool.false_ne_true, hlower.2.1] at h
  exact Bool.false_ne_true h

/-! ## Places -/

/-- The word that the gate reads at the front of a text, and what follows it. -/
structure GateWord (word tail : Text) : Prop where
  ne_nil : word ≠ []
  chars : word.all isWordChar = true
  no_line : ¬ "--".toList <+: word
  no_block : ¬ "/*".toList <+: word
  stops : StopsWord tail

theorem GateWord.length_lt {word tail : Text} (h : GateWord word tail) : tail.length < (word ++ tail).length := by
  rw [List.length_append]
  exact Nat.lt_add_of_pos_left (List.length_pos_iff.2 h.ne_nil)

/-- What a text begins with. -/
inductive Head : Text → Prop where
  | nil : Head []
  | blank {c : Char} (rest : Text) (is_space : isSpace c = true) : Head (c :: rest)
  | line (rest : Text) : Head ('-' :: '-' :: rest)
  | block (rest : Text) : Head ('/' :: '*' :: rest)
  | quote {c : Char} (rest : Text) (is_quote : isQuote c = true) : Head (c :: rest)
  | opening (rest : Text) : Head ('(' :: rest)
  | closing (rest : Text) : Head (')' :: rest)
  | separator {c : Char} (rest : Text) (is_separator : c = ',' ∨ c = ';') : Head (c :: rest)
  | word {word rest : Text} (is_word : GateWord word rest) : Head (word ++ rest)

theorem stopsWord_dropWhile (text : Text) : StopsWord (text.dropWhile isWordChar) := by
  intro c hc
  have hnot := List.head?_dropWhile_not isWordChar text
  rw [hc] at hnot
  simpa using hnot

/-- Every text begins with one of them. -/
theorem head_of (text : Text) : Head text := by
  cases text with
  | nil => exact Head.nil
  | cons c rest =>
    by_cases hline : c = '-' ∧ rest.head? = some '-'
    · obtain ⟨rfl, hhead⟩ := hline
      obtain ⟨tail, rfl⟩ := List.head?_eq_some_iff.1 hhead
      exact Head.line tail
    by_cases hblock : c = '/' ∧ rest.head? = some '*'
    · obtain ⟨rfl, hhead⟩ := hblock
      obtain ⟨tail, rfl⟩ := List.head?_eq_some_iff.1 hhead
      exact Head.block tail
    cases hk : charKind c with
    | space => exact Head.blank rest ((charKind_space_iff c).1 hk)
    | quote => exact Head.quote rest ((isQuote_iff c).2 ((charKind_quote_iff c).1 hk))
    | opening =>
      obtain rfl : c = '(' := by
        unfold charKind at hk
        split_ifs at hk with h1 h2 h3
        exact h3
      exact Head.opening rest
    | closing =>
      obtain rfl := (charKind_closing_iff c).1 hk
      exact Head.closing rest
    | separator =>
      refine Head.separator rest ?_
      unfold charKind at hk
      split_ifs at hk with h1 h2 h3 h4 h5
      exact h5
    | word =>
      have hc := (isWordChar_iff c).2 hk
      have hsplit := List.takeWhile_append_dropWhile (p := isWordChar) (l := c :: rest)
      rw [List.takeWhile_cons_of_pos hc, List.dropWhile_cons_of_pos hc] at hsplit
      rw [← hsplit]
      -- a word begins with an opener only if the text does
      have hopen : ∀ x y : Char, ¬ (c = x ∧ rest.head? = some y) →
          ¬ [x, y] <+: c :: rest.takeWhile isWordChar := by
        rintro x y hno ⟨more, hmore⟩
        obtain ⟨rfl, hrest⟩ : x = c ∧ y :: more = rest.takeWhile isWordChar := by
          simpa using hmore
        apply hno
        refine ⟨rfl, ?_⟩
        have hprefix := List.takeWhile_prefix isWordChar (l := rest)
        rw [← hrest] at hprefix
        obtain ⟨tail, htail⟩ := hprefix
        rw [← htail]
        rfl
      exact Head.word
        { ne_nil := List.cons_ne_nil _ _
          chars := by rw [List.all_cons, hc, List.all_takeWhile]; rfl
          no_line := hopen '-' '-' hline
          no_block := hopen '/' '*' hblock
          stops := stopsWord_dropWhile rest }

/-! ### The gate -/

theorem GateWord.scan {word tail : Text} (h : GateWord word tail) (d : Nat) :
    gate.scan (betweenAt d) (word ++ tail) = ⟨word, d⟩ :: gate.scan (betweenAt d) tail :=
  scan_bareWord d h.ne_nil h.chars h.no_line h.no_block h.stops

theorem scan_opening (d : Nat) (rest : Text) :
    gate.scan (betweenAt d) ('(' :: rest) = gate.scan (betweenAt (d + 1)) rest := rfl

theorem scan_closing (d : Nat) (rest : Text) :
    gate.scan (betweenAt d) (')' :: rest) = gate.scan (betweenAt (d - 1)) rest := rfl

theorem scan_separator (d : Nat) {c : Char} (h : c = ',' ∨ c = ';') (rest : Text) :
    gate.scan (betweenAt d) (c :: rest) = gate.scan (betweenAt d) rest := by
  rcases h with rfl | rfl <;> rfl

theorem scan_quote (d : Nat) {c : Char} (h : isQuote c = true) (rest : Text) :
    gate.scan (betweenAt d) (c :: rest) = gate.scan (betweenAt d) (skipQuoted c rest) := by
  have hk : charKind c = .quote := (charKind_quote_iff c).2 ((isQuote_iff c).1 h)
  rw [Scanner.scan_cons, gate_step, gateStep_between, enter_quote d hk, List.nil_append,
    scan_quoted hk]

/-! ### The client -/

theorem kept_opening (rest : Text) : kept ('(' :: rest) = '(' :: kept rest :=
  kept_cons (by decide) (by decide) (by decide) rest

theorem kept_closing (rest : Text) : kept (')' :: rest) = ')' :: kept rest :=
  kept_cons (by decide) (by decide) (by decide) rest

theorem kept_separator {c : Char} (h : c = ',' ∨ c = ';') (rest : Text) :
    kept (c :: rest) = c :: kept rest := by
  rcases h with rfl | rfl <;> exact kept_cons (by decide) (by decide) (by decide) rest

theorem plain_of_quote {c : Char} (h : isQuote c = true) :
    c ≠ '/' ∧ c ≠ '-' ∧ isScriptSpace c = false ∧ isWordChar c = false := by
  rcases (isQuote_iff c).1 h with rfl | rfl | rfl <;> decide

theorem kept_quote {c : Char} (h : isQuote c = true) (rest : Text) :
    kept (c :: rest) = c :: kept rest :=
  kept_cons (plain_of_quote h).1 (plain_of_quote h).2.1 (plain_of_quote h).2.2.1 rest

theorem sqlTokens_opening (d : Nat) (rest : Text) :
    sqlTokens d ('(' :: rest) = sqlTokens (d + 1) rest := by
  rw [sqlTokens, List.length_cons]
  rfl

theorem sqlTokens_closing (d : Nat) (rest : Text) :
    sqlTokens d (')' :: rest) = sqlTokens (d - 1) rest := by
  have hd : (if d > 0 then d - 1 else d) = d - 1 := by
    split_ifs <;> omega
  rw [← hd, sqlTokens, List.length_cons]
  rfl

theorem script_of_word {word : Text} (hchars : word.all isWordChar = true)
    (hspace : ∀ c ∈ word, isScriptSpace c = false) : word.all isScriptWordChar = true := by
  rw [List.all_eq_true] at hchars ⊢
  intro c hc
  have hword := hchars c hc
  simp only [isWordChar, Bool.and_eq_true] at hword
  rw [isScriptWordChar, hspace c hc, hword.2]
  rfl

/-- A word that neither holds a comment nor white space is read alike. -/
theorem GateWord.kept {word tail : Text} (h : GateWord word tail) (hwhole : Whole word tail)
    (hspace : ∀ c ∈ word, isScriptSpace c = false) (d : Nat) :
    sqlTokens d (kept (word ++ tail)) = ⟨word, d⟩ :: sqlTokens d (Web.kept tail) := by
  rw [kept_append_of_stops hwhole h.stops hspace]
  exact sqlTokens_word d h.ne_nil (script_of_word h.chars hspace) h.no_line h.no_block
    (stopsScript_of_stopsWord (stopsWord_kept h.stops))

/-- The client reads a word without `--` as a whole, or up to a comment that is closed behind it. -/
theorem whole_or_cut (rest : Text) {word : Text} (hline : ¬ "--".toList <:+: word) :
    Whole word rest ∨ ∃ front body after, splitOpener word = some (front, body) ∧
      afterBlock (body ++ rest) = some after := by
  by_cases hblock : ∀ before after, splitOpener word = some (before, after) →
      ¬ "*/".toList <:+: after ++ rest
  · exact Or.inl ⟨hline, hblock⟩
  · push Not at hblock
    obtain ⟨front, body, hsplit, hclosed⟩ := hblock
    cases hafter : afterBlock (body ++ rest) with
    | none => exact absurd hclosed ((afterBlock_eq_none_iff _).1 hafter)
    | some after => exact Or.inr ⟨front, body, after, hsplit, hafter⟩

theorem GateWord.front {word rest front body : Text} (his : GateWord word rest)
    (hsplit : splitOpener word = some (front, body)) :
    front ≠ [] ∧ front <+: word ∧ front.length < word.length ∧ front.all isWordChar = true := by
  obtain ⟨hword, -⟩ := splitOpener_some hsplit
  have hpre : front <+: word := ⟨_, hword.symm⟩
  refine ⟨?_, hpre, ?_, List.all_eq_true.2 fun c hc =>
    List.all_eq_true.1 his.chars c (hpre.subset hc)⟩
  · rintro rfl
    exact his.no_block ⟨body, hword.symm⟩
  · have hlength := congrArg List.length hword
    rw [List.length_append, List.length_cons] at hlength
    omega

/-- In front of the opener of a comment the word of the gate is cut for the client. -/
theorem kept_glued {word rest front body after : Text}
    (hspace : ∀ c ∈ front, isScriptSpace c = false) (hline : ¬ "--".toList <:+: front)
    (hsplit : splitOpener word = some (front, body)) (hafter : afterBlock (body ++ rest) = some after) :
    ∃ more, StopsWord more ∧ more.dropWhile isScriptSpace = (kept after).dropWhile isScriptSpace ∧
      kept (word ++ rest) = front ++ more := by
  obtain ⟨hword, hno⟩ := splitOpener_some hsplit
  have htext : word ++ rest = front ++ '/' :: '*' :: (body ++ rest) := by
    rw [hword]
    simp
  rw [htext]
  exact kept_cut hno hline hspace hafter

theorem Gap.sqlTokens {text rest : Text} (h : Gap text rest) (d : Nat) :
    sqlTokens d (Web.kept text) = Web.sqlTokens d (Web.kept rest) := by
  rw [← sqlTokens_dropWhile, h.kept, sqlTokens_dropWhile]

/-! ### Keywords -/

/-- A word whose upper case is made of letters holds no comment and no white space. -/
theorem plain_of_upper {word tail : Text} (h : (toUpper word).all isUpper = true) :
    Whole word tail ∧ ∀ c ∈ word, isScriptSpace c = false := by
  have hupper : ∀ c ∈ word, isUpper (runeToUpper c) = true := fun c hc =>
    List.all_eq_true.1 h _ (List.mem_map_of_mem hc)
  have hno : ∀ x : Char, isUpper (runeToUpper x) = false → x ∉ word := by
    intro x hx hmem
    rw [hupper x hmem] at hx
    exact Bool.false_ne_true hx.symm
  refine ⟨⟨?_, ?_⟩, fun c hc => not_scriptSpace_of_upper (hupper c hc)⟩
  · intro hin
    exact hno '-' (by decide) (hin.subset (by decide))
  · intro before after hsplit
    obtain ⟨rfl, -⟩ := splitOpener_some hsplit
    exact absurd (by simp) (hno '/' (by decide))

theorem keyword_spec : ∀ k ∈ targetKeywords, k.all isUpper = true ∧ k ≠ [] := by decide

/-- A keyword of the client is made of letters too. -/
theorem plain_of_not_scriptFree {word : Text} (h : isScriptFree word = false) :
    ∀ c ∈ word, isScriptSpace c = false ∧ c ≠ '-' := by
  intro c hc
  rw [isScriptFree, Bool.not_eq_false', List.contains_iff_mem] at h
  have hupper := (keyword_spec _ h).1
  have hchars : ∀ x ∈ scriptUpperChar c, isUpper x = true := fun x hx =>
    List.all_eq_true.1 hupper x (List.mem_flatMap.2 ⟨c, hc, hx⟩)
  rw [scriptUpperChar] at hchars
  split_ifs at hchars with h1 h2 h3 h4 h5 h6 h7 h8 h9 h10
  -- the characters with an upper case of their own, and then the rest
  all_goals first
    | subst_vars; decide
    | skip
  have hc' := hchars _ (List.mem_singleton_self _)
  have hrune : isUpper (runeToUpper c) = true := by
    rw [runeToUpper, if_neg h1, if_neg h2]
    exact hc'
  refine ⟨not_scriptSpace_of_upper hrune, ?_⟩
  rintro rfl
  exact absurd hc' (by decide)

theorem keyword_upper {word : Text} (h : toUpper word ∈ targetKeywords) :
    (toUpper word).all isUpper = true := (keyword_spec _ h).1

theorem verb_upper {word : Text} (h : toUpper word ∈ dropVerbs) :
    (toUpper word).all isUpper = true ∧ word.map asciiUpper = toUpper word := by
  have hall : ∀ k ∈ dropVerbs, k.all isUpper = true ∧
      k.all (fun c => c ≠ 'I' && c ≠ 'S') = true := by decide
  exact ⟨(hall _ h).1, map_asciiUpper_of_plain (hall _ h).2⟩

end Workbench.Web
