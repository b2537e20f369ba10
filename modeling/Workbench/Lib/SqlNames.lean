import Workbench.Lib.SqlTokens

/-!
# The names in an SQL text

How a dialect reads a name: from a quoted text the text itself, from a word the word with its letters
folded, if the word can stand as a name at all. A path is a chain of names with dots between them.

A name that a program writes into its text as it is comes back only if it is one word that the folding
leaves alone (`firstName_eq_some_iff`), whatever stands in it and whatever quoted texts follow.
-/

set_option autoImplicit false

namespace Workbench.Lib

/-! ## Where a word ends -/

theorem not_blank_of_ident {c : Char} (h : isIdentChar c = true) : isBlank c = false := by
  rw [← Bool.not_eq_true]
  intro hblank
  simp only [isBlank, Bool.or_eq_true, decide_eq_true_eq] at hblank
  rcases hblank with ((((rfl | rfl) | rfl) | rfl) | rfl) | rfl <;> cases h

/-- The modes in which characters are held back. -/
def LexMode.holds : LexMode → Bool
  | .dash => true
  | .dashes => true
  | .slash => true
  | .opened => true
  | .tag _ => true
  | _ => false

/-- The events of such characters: none of them belongs to a word or to a quoted name. -/
def LexEvent.isDull : LexEvent → Bool
  | .symbol _ => true
  | .comment _ => true
  | .executable => true
  | .openDollar _ => true
  | _ => false

namespace LexRules

variable {R : LexRules}

theorem isDull_tagEvents (text : List Char) : ∃ e events, tagEvents text = e :: events ∧ e.isDull = true := by
  cases text with
  | nil => exact ⟨_, _, rfl, rfl⟩
  | cons c rest => exact ⟨_, _, rfl, rfl⟩

/-- A character behind others that are held back: they go on being held, or the first event is one of
them. -/
theorem step_of_holds {m : LexMode} (h : m.holds = true) (c : Char) :
    ((R.step m c).2 = [] ∧ (R.step m c).1.holds = true) ∨
      ∃ e events, (R.step m c).2 = e :: events ∧ e.isDull = true := by
  cases m with
  | dash =>
    simp only [step]
    split_ifs
    · exact Or.inl ⟨rfl, rfl⟩
    · exact Or.inr ⟨_, _, rfl, rfl⟩
    · exact Or.inr ⟨_, _, rfl, rfl⟩
  | dashes =>
    simp only [step]
    split_ifs
    · exact Or.inr ⟨_, _, rfl, rfl⟩
    · refine Or.inr ?_
      unfold lineStep
      split_ifs
      · exact ⟨_, _, rfl, rfl⟩
      · exact ⟨_, _, rfl, rfl⟩
    · exact Or.inr ⟨_, _, rfl, rfl⟩
  | slash =>
    simp only [step]
    split_ifs
    · exact Or.inl ⟨rfl, rfl⟩
    · exact Or.inr ⟨_, _, rfl, rfl⟩
    · exact Or.inr ⟨_, _, rfl, rfl⟩
  | opened =>
    simp only [step]
    split_ifs
    · exact Or.inr ⟨_, _, rfl, rfl⟩
    · exact Or.inr ⟨_, _, rfl, rfl⟩
  | tag text =>
    simp only [step]
    split_ifs
    · exact Or.inr ⟨_, _, rfl, rfl⟩
    · exact Or.inl ⟨rfl, rfl⟩
    · obtain ⟨e, events, htag, hdull⟩ := isDull_tagEvents text
      exact Or.inr ⟨e, events ++ (R.enter c).2, by rw [enterAfter, htag, List.cons_append], hdull⟩
  | _ => cases h

theorem scan_of_holds {m : LexMode} (h : m.holds = true) (text : List Char) :
    ∃ e events, R.lexer.scan m text = e :: events ∧ e.isDull = true := by
  induction text generalizing m with
  | nil =>
    cases m with
    | tag text => exact isDull_tagEvents text
    | dash => exact ⟨_, _, rfl, rfl⟩
    | dashes => exact ⟨_, _, rfl, rfl⟩
    | slash => exact ⟨_, _, rfl, rfl⟩
    | opened => exact ⟨_, _, rfl, rfl⟩
    | _ => cases h
  | cons c rest ih =>
    rw [Scanner.scan_cons, lexer_step]
    rcases step_of_holds (R := R) h c with ⟨hnil, hholds⟩ | ⟨e, events, hevents, hdull⟩
    · rw [hnil, List.nil_append]
      exact ih hholds
    · exact ⟨e, _, by rw [hevents, List.cons_append], hdull⟩

/-- What is read from outside begins with the event of its first character, or with those of what is held
back. -/
theorem enter_events (c : Char) (text : List Char) :
    ∃ e events, (R.enter c).2 ++ R.lexer.scan (R.enter c).1 text = e :: events ∧ ∀ p, e ≠ .wordPart p := by
  have hdull {e : LexEvent} (he : e.isDull = true) : ∀ p, e ≠ .wordPart p := by
    rintro p rfl
    cases he
  unfold enter
  split_ifs with h1 h2 h3 h4 h5 h6
  · exact ⟨_, _, rfl, fun p hp => by cases hp⟩
  · exact ⟨_, _, rfl, fun p hp => by cases hp⟩
  · obtain ⟨e, events, hscan, he⟩ := scan_of_holds (R := R) (m := .dash) rfl text
    exact ⟨e, events, by rw [List.nil_append, hscan], hdull he⟩
  · obtain ⟨e, events, hscan, he⟩ := scan_of_holds (R := R) (m := .slash) rfl text
    exact ⟨e, events, by rw [List.nil_append, hscan], hdull he⟩
  · exact ⟨_, _, rfl, fun p hp => by cases hp⟩
  · obtain ⟨e, events, hscan, he⟩ := scan_of_holds (R := R) (m := .tag []) rfl text
    exact ⟨e, events, by rw [List.nil_append, hscan], hdull he⟩
  · exact ⟨_, _, rfl, fun p hp => by cases hp⟩
  · exact ⟨_, _, rfl, fun p hp => by cases hp⟩

/-- **A word goes up to the first character that belongs to none.** -/
theorem first_word (escapePrefix : Bool) (word text : List Char) :
    ∃ tokens, R.reader.scan (.word escapePrefix, .word word) text =
      .word (word ++ text.takeWhile isIdentChar) :: tokens := by
  have hpending {e : LexEvent} (he : ∀ p, e ≠ .wordPart p) (w : List Char) :
      ∃ s tokens, tokenStep (.word w) e = (s, .word w :: tokens) := by
    cases e with
    | wordPart p => exact absurd rfl (he p)
    | _ => exact ⟨_, _, rfl⟩
  induction text generalizing escapePrefix word with
  | nil => exact ⟨[], by rw [List.takeWhile_nil, List.append_nil]; rfl⟩
  | cons c rest ih =>
    by_cases hc : isIdentChar c = true
    · have hstep : R.step (.word escapePrefix) c = (.word false, [.wordPart c]) := by
        rw [step, if_pos hc]
      have hrun : R.reader.Run (.word escapePrefix, .word word) [c] [] (.word false, .word (word ++ [c])) :=
        (run_step hstep).pipe ⟨rfl, rfl⟩
      obtain ⟨tokens, h⟩ := ih false (word ++ [c])
      refine ⟨tokens, (hrun.scan rest).trans ?_⟩
      rw [List.takeWhile_cons_of_pos hc, List.nil_append, h, List.append_assoc, List.singleton_append]
    · have hevents : ∃ e events, R.lexer.scan (.word escapePrefix) (c :: rest) = e :: events ∧
          ∀ p, e ≠ .wordPart p := by
        rw [Scanner.scan_cons, lexer_step, step, if_neg hc]
        split_ifs
        · exact ⟨_, _, rfl, fun p hp => by cases hp⟩
        · exact enter_events c rest
      obtain ⟨e, events, hscan, he⟩ := hevents
      obtain ⟨s, tokens, htoken⟩ := hpending he word
      rw [List.takeWhile_cons_of_neg hc, List.append_nil, reader, Scanner.scan_pipe, hscan,
        Scanner.scan_cons]
      refine ⟨tokens ++ tokenizer.scan s events, ?_⟩
      show (tokenStep (.word word) e).2 ++ tokenizer.scan (tokenStep (.word word) e).1 events = _
      rw [htoken, List.cons_append]

end LexRules

/-! ## Names and paths -/

/-- How a dialect reads the names in its texts. -/
structure NameRules where
  lex : LexRules
  /-- What an unquoted name makes of a character. -/
  fold : Char → Char
  /-- The words that can stand as a name, in front or, with `true`, behind a dot: others are reserved, or
  are numbers. -/
  bare : Bool → List Char → Bool
  fold_ident : ∀ c, isIdentChar c = true → isIdentChar (fold c) = true
  mark_plain : ∀ c, lex.isMark c = true →
    isBlank c = false ∧ isIdentChar c = false ∧ c ≠ '.' ∧ c ≠ ';'
  nameMark_mark : ∀ c, lex.isNameMark c = true → lex.isMark c = true ∧ lex.escapes c = false

namespace NameRules

variable (N : NameRules)

/-- The name that a token stands for; the flag says that it stands behind a dot. -/
def readName (behindDot : Bool) : SqlToken → Option (List Char)
  | .word text => if text ≠ [] ∧ N.bare behindDot text = true then some (text.map N.fold) else none
  | .quoted mark value => if value ≠ [] ∧ N.lex.isNameMark mark = true then some value else none
  | _ => none

/-- The path at the front of the tokens, and the tokens behind it. -/
def readPath : Bool → List SqlToken → Option (List (List Char) × List SqlToken)
  | _, [] => none
  | behindDot, [t] => (N.readName behindDot t).map fun name => ([name], [])
  | behindDot, t :: u :: rest =>
    if u = .symbol '.' then
      (N.readName behindDot t).bind fun name =>
        (readPath true rest).map fun path => (name :: path.1, path.2)
    else (N.readName behindDot t).map fun name => ([name], u :: rest)

/-- The name that the first token of a text stands for. -/
def firstName (behindDot : Bool) (s : LexMode × TokenState) (text : List Char) : Option (List Char) :=
  (N.lex.reader.scan s text).head?.bind (N.readName behindDot)

/-- A word that stands for itself. -/
structure Plain (behindDot : Bool) (name : List Char) : Prop where
  ne_nil : name ≠ []
  ident : ∀ c ∈ name, isIdentChar c = true
  no_dollar : N.lex.dollar = true → name.head? ≠ some '$'
  bare : N.bare behindDot name = true
  folded : name.map N.fold = name

end NameRules

/-- What can follow a name that is written as it is. -/
inductive NameStop : List Char → Prop where
  | dot (rest : List Char) : NameStop ('.' :: rest)
  | semicolon (rest : List Char) : NameStop (';' :: rest)
  | line (c : Char) (rest : List Char) (h : c.isAlphanum = true) : NameStop ('\n' :: c :: rest)

namespace NameRules

variable {N : NameRules} {behindDot : Bool}

theorem not_mark_of_ident {c : Char} (h : isIdentChar c = true) : N.lex.isMark c = false := by
  rw [← Bool.not_eq_true]
  intro hmark
  have hident := (N.mark_plain c hmark).2.1
  rw [h] at hident
  cases hident

/-- A letter at the front of a word. -/
theorem enter_word {c : Char} (h : isIdentChar c = true) (hdollar : N.lex.dollar = true → c ≠ '$') :
    ∃ escapePrefix, N.lex.enter c = (.word escapePrefix, [.wordStart c]) := by
  have hne {x : Char} (hx : isIdentChar x = false) : c ≠ x := by
    rintro rfl
    rw [h] at hx
    cases hx
  refine ⟨N.lex.escapePrefix && (c = 'E' || c = 'e'), ?_⟩
  rw [LexRules.enter, if_neg (by rw [not_blank_of_ident h]; decide),
    if_neg (by rw [not_mark_of_ident h]; decide), if_neg (hne (by decide)), if_neg (hne (by decide)),
    if_neg fun hc => hne (by decide) hc.2, if_neg fun hc => hdollar hc.1 hc.2, if_pos h]

theorem enter_symbol {c : Char} (h : c = '.' ∨ c = ';') : N.lex.enter c = (.start, [.symbol c]) := by
  have hmark : N.lex.isMark c = false := by
    rw [← Bool.not_eq_true]
    intro hmark
    obtain ⟨-, -, hdot, hsemicolon⟩ := N.mark_plain c hmark
    rcases h with rfl | rfl
    · exact hdot rfl
    · exact hsemicolon rfl
  rcases h with rfl | rfl
  · rw [LexRules.enter, if_neg (by decide), if_neg (by rw [hmark]; decide), if_neg (by decide),
      if_neg (by decide), if_neg fun hc => absurd hc.2 (by decide), if_neg fun hc => absurd hc.2 (by decide),
      if_neg (by decide)]
  · rw [LexRules.enter, if_neg (by decide), if_neg (by rw [hmark]; decide), if_neg (by decide),
      if_neg (by decide), if_neg fun hc => absurd hc.2 (by decide), if_neg fun hc => absurd hc.2 (by decide),
      if_neg (by decide)]

/-! ### What ends a name -/

theorem scan_word_stop (escapePrefix : Bool) (word : List Char) {stop : List Char} (h : NameStop stop) :
    N.lex.reader.scan (.word escapePrefix, .word word) stop = .word word :: N.lex.tokens stop := by
  cases h with
  | dot rest =>
    refine LexRules.scan_word (by decide) (by decide) ?_ escapePrefix word rest
    rw [enter_symbol (Or.inl rfl)]
    exact ⟨_, _, rfl, fun p hp => by cases hp⟩
  | semicolon rest =>
    refine LexRules.scan_word (by decide) (by decide) ?_ escapePrefix word rest
    rw [enter_symbol (Or.inr rfl)]
    exact ⟨_, _, rfl, fun p hp => by cases hp⟩
  | line c rest hc =>
    exact LexRules.scan_word (by decide) (by decide) ⟨_, _, rfl, fun p hp => by cases hp⟩ escapePrefix word
      (c :: rest)

theorem takeWhile_stop {stop : List Char} (h : NameStop stop) (text : List Char) :
    (text ++ stop).takeWhile isIdentChar = text.takeWhile isIdentChar := by
  induction text with
  | nil => cases h <;> rfl
  | cons c rest ih => rw [List.cons_append, List.takeWhile_cons, List.takeWhile_cons, ih]

/-! ### What the first token can be

Neither white space nor a mark: what of a text is counted against the name that is read. -/

def solid (N : NameRules) (c : Char) : Bool := !isBlank c && !N.lex.isMark c

theorem solid_of_ident {c : Char} (h : isIdentChar c = true) : N.solid c = true := by
  rw [solid, not_blank_of_ident h, not_mark_of_ident h]
  rfl

/-- Behind the mark of a name comes a character that is counted, before any mark. -/
theorem first_solid {stop : List Char} (h : NameStop stop) :
    ∃ lead c rest, stop = lead ++ c :: rest ∧ (∀ x ∈ lead ++ [c], N.lex.isMark x = false) ∧ N.solid c = true := by
  have hmark {c : Char} (hc : isBlank c = true ∨ isIdentChar c = true ∨ c = '.' ∨ c = ';') :
      N.lex.isMark c = false := by
    rw [← Bool.not_eq_true]
    intro hmark
    obtain ⟨hblank, hident, hdot, hsemicolon⟩ := N.mark_plain c hmark
    rcases hc with hc | hc | hc | hc
    · rw [hblank] at hc
      cases hc
    · rw [hident] at hc
      cases hc
    · exact hdot hc
    · exact hsemicolon hc
  have hsolid {c : Char} (hblank : isBlank c = false) (hc : N.lex.isMark c = false) : N.solid c = true := by
    rw [solid, hblank, hc]
    rfl
  cases h with
  | dot rest =>
    have hdot := hmark (c := '.') (Or.inr (Or.inr (Or.inl rfl)))
    exact ⟨[], '.', rest, rfl, by simpa using hdot, hsolid rfl hdot⟩
  | semicolon rest =>
    have hsemicolon := hmark (c := ';') (Or.inr (Or.inr (Or.inr rfl)))
    exact ⟨[], ';', rest, rfl, by simpa using hsemicolon, hsolid rfl hsemicolon⟩
  | line c rest hc =>
    have hident : isIdentChar c = true := by
      rw [isIdentChar, hc]
      rfl
    refine ⟨['\n'], c, rest, rfl, ?_, solid_of_ident hident⟩
    simpa using ⟨hmark (c := '\n') (Or.inl rfl), not_mark_of_ident hident⟩

theorem firstName_run {s t : LexMode × TokenState} {text : List Char} (h : N.lex.reader.Run s text [] t)
    (rest : List Char) : N.firstName behindDot s (text ++ rest) = N.firstName behindDot t rest := by
  rw [firstName, h.scan rest]
  rfl

/-- A quoted text is the first token once its mark is read. -/
theorem firstName_quoted {m : LexMode} {mark : Char} {value text target : List Char}
    (h : N.firstName behindDot (m, .quoted mark value) text = some target) :
    value <+: target ∧ N.lex.isNameMark mark = true := by
  rw [firstName, LexRules.reader, Scanner.scan_pipe] at h
  obtain ⟨more, rest, hfirst⟩ := first_quoted mark (N.lex.lexer.scan m text) value
  rw [hfirst, List.head?_cons, Option.bind_some, readName] at h
  split_ifs at h with hname
  cases h
  exact ⟨List.prefix_append value more, hname.2⟩

theorem firstName_closed {mark : Char} {escapes : Bool} {value text target : List Char}
    (htext : text.head? ≠ some mark)
    (h : N.firstName behindDot (.closed mark escapes, .quoted mark value) text = some target) :
    target = value := by
  rw [firstName, LexRules.scan_closed escapes value htext, List.head?_cons, Option.bind_some, readName] at h
  split_ifs at h with hname
  cases h
  rfl

theorem mark_not_solid {mark : Char} (h : N.lex.isMark mark = true) : N.solid mark = false := by
  rw [solid, h, Bool.not_true, Bool.and_false]

/-- A quoted name that is no longer than what is written of it, or one that has swallowed a character
from behind. The induction is on what is written, in the two modes of the reader. -/
theorem quoted_bound {mark : Char} (hmark : N.lex.isNameMark mark = true) {stop : List Char}
    (hstop : NameStop stop) {target : List Char} (body : List Char) : ∀ value : List Char,
    (N.firstName behindDot (.quoted mark false, .quoted mark value) (body ++ stop) = some target →
      target.length ≤ value.length + body.length ∨
        value.countP N.solid + body.countP N.solid < target.countP N.solid) ∧
    (N.firstName behindDot (.closed mark false, .quoted mark value) (body ++ stop) = some target →
      target.length ≤ value.length + body.length ∨
        value.countP N.solid + body.countP N.solid < target.countP N.solid) := by
  have hmarks := (N.nameMark_mark mark hmark).1
  -- By induction over the body, with the mark open or just closed.
  induction body with
  | nil =>
    intro value
    obtain ⟨lead, c, rest, rfl, hplain, hsolid⟩ := first_solid (N := N) hstop
    have hne : mark ∉ lead ++ [c] := fun hmem => by
      have hx := hplain mark hmem
      rw [hmarks] at hx
      cases hx
    constructor
    · intro h
      right
      -- The mark is still open, so the name goes on into the text behind the body.
      have hrun := LexRules.run_doubled (R := N.lex) mark (lead ++ [c]) value
      rw [doubled_eq_self hne] at hrun
      have hsplit : [] ++ (lead ++ c :: rest) = (lead ++ [c]) ++ rest := by simp
      rw [hsplit, firstName_run hrun] at h
      have hcount : (value ++ (lead ++ [c])).countP N.solid ≤ target.countP N.solid :=
        (firstName_quoted h).1.sublist.countP_le
      rw [List.countP_append, List.countP_append, List.countP_singleton, if_pos hsolid] at hcount
      rw [List.countP_nil]
      omega
    · intro h
      have hhead : (lead ++ c :: rest).head? ≠ some mark := by
        intro hhead
        cases lead with
        | nil => exact hne (by simpa using Option.some.inj hhead.symm)
        | cons d more => exact hne (by simp [← Option.some.inj hhead])
      left
      -- The mark is closed, and the name is the value.
      rw [firstName_closed hhead h]
      exact Nat.le_refl _
  | cons c rest ih =>
    intro value
    by_cases hc : c = mark
    · subst hc
      have hcount : (c :: rest).countP N.solid = rest.countP N.solid := by
        rw [List.countP_cons_of_neg (by rw [mark_not_solid hmarks]; decide)]
      constructor
      · intro h
        -- The mark closes the name, or a second one follows.
        have hclose : N.lex.reader.Run (.quoted c false, .quoted c value) [c] []
            (.closed c false, .quoted c value) := LexRules.run_close c false value
        rw [List.cons_append, ← List.singleton_append, firstName_run hclose] at h
        rcases (ih value).2 h with hlength | hmore
        · left
          rw [List.length_cons]
          omega
        · right
          rwa [hcount]
      · intro h
        -- Two marks stand for one in the name.
        have hsecond : N.lex.step (.closed c false) c = (.quoted c false, [.part c false [c, c] [c]]) := by
          rw [LexRules.step, if_pos rfl]
        have hpair : N.lex.reader.Run (.closed c false, .quoted c value) [c] []
            (.quoted c false, .quoted c (value ++ [c])) := (LexRules.run_step hsecond).pipe ⟨rfl, rfl⟩
        rw [List.cons_append, ← List.singleton_append, firstName_run hpair] at h
        rcases (ih (value ++ [c])).1 h with hlength | hmore
        · left
          rw [List.length_append, List.length_singleton] at hlength
          rw [List.length_cons]
          omega
        · right
          rw [List.countP_append, List.countP_singleton, if_neg (by rw [mark_not_solid hmarks]; decide)] at hmore
          rw [hcount]
          omega
    · constructor
      · intro h
        -- Any other character goes into the name.
        have hpart : N.lex.reader.Run (.quoted mark false, .quoted mark value) [c] []
            (.quoted mark false, .quoted mark (value ++ [c])) :=
          LexRules.run_part hc (fun hescapes => absurd hescapes (by decide)) value
        rw [List.cons_append, ← List.singleton_append, firstName_run hpart] at h
        rcases (ih (value ++ [c])).1 h with hlength | hmore
        · left
          rw [List.length_append, List.length_singleton] at hlength
          rw [List.length_cons]
          omega
        · right
          rw [List.countP_append] at hmore
          rw [← List.singleton_append, List.countP_append]
          omega
      · intro h
        have hhead : (c :: rest ++ stop).head? ≠ some mark := by simpa using hc
        left
        rw [firstName_closed hhead h]
        exact Nat.le_add_right _ _

/-- Behind characters that are held back no name comes. -/
theorem firstName_of_holds {m : LexMode} (h : m.holds = true) (text : List Char) :
    N.firstName behindDot (m, .idle) text = none := by
  obtain ⟨e, events, hscan, hdull⟩ := LexRules.scan_of_holds (R := N.lex) h text
  rw [firstName, LexRules.reader, Scanner.scan_pipe, hscan, Scanner.scan_cons]
  cases e with
  | symbol c => rfl
  | comment c => rfl
  | executable => rfl
  | openDollar tag =>
    -- a dollar sign quotes no name
    obtain ⟨more, rest, hfirst⟩ := first_quoted '$' events []
    show ((tokenizer.scan (.quoted '$' []) events).head?).bind _ = none
    rw [hfirst, List.head?_cons, Option.bind_some, readName]
    refine if_neg fun hname => ?_
    have hident := (N.mark_plain '$' (N.nameMark_mark '$' hname.2).1).2.1
    cases hident
  | _ => cases hdull

/-- What the first character says about the first name. -/
theorem firstName_cons {c : Char} {text target : List Char}
    (h : N.firstName behindDot (.start, .idle) (c :: text) = some target) :
    (isBlank c = true ∧ N.firstName behindDot (.start, .idle) text = some target) ∨
      (N.lex.isNameMark c = true ∧
        N.firstName behindDot (.quoted c false, .quoted c []) text = some target) ∨
      (isIdentChar c = true ∧ (N.lex.dollar = true → c ≠ '$') ∧
        N.bare behindDot (c :: text.takeWhile isIdentChar) = true ∧
        target = (c :: text.takeWhile isIdentChar).map N.fold) := by
  have hnext (s : LexMode × TokenState) (hstep : N.lex.reader.step (.start, .idle) c = (s, [])) :
      N.firstName behindDot s text = some target := by
    rw [← h, firstName, firstName, Scanner.scan_cons, hstep]
    rfl
  have hheld {m : LexMode} (hm : m.holds = true) (henter : N.lex.enter c = (m, [])) : False := by
    have hstep : N.lex.reader.step (.start, .idle) c = ((m, .idle), []) := by
      show (((N.lex.enter c).1, tokenizer.reach .idle (N.lex.enter c).2),
        tokenizer.emits .idle (N.lex.enter c).2) = _
      rw [henter]
      rfl
    have hnone := hnext _ hstep
    rw [firstName_of_holds hm text] at hnone
    cases hnone
  have hfirst {m : LexMode} {e : LexEvent} (henter : N.lex.enter c = (m, [e])) :
      N.lex.reader.step (.start, .idle) c = ((m, (tokenStep .idle e).1), (tokenStep .idle e).2) := by
    show (((N.lex.enter c).1, tokenizer.reach .idle (N.lex.enter c).2),
      tokenizer.emits .idle (N.lex.enter c).2) = _
    rw [henter]
    show ((m, (tokenStep .idle e).1), (tokenStep .idle e).2 ++ []) = _
    rw [List.append_nil]
  have hnone {m : LexMode} {e : LexEvent} {t : SqlToken} (henter : N.lex.enter c = (m, [e]))
      (htoken : tokenStep .idle e = (.idle, [t])) (ht : N.readName behindDot t = none) : False := by
    have hstep := hfirst henter
    rw [htoken] at hstep
    rw [firstName, Scanner.scan_cons, hstep, List.singleton_append, List.head?_cons, Option.bind_some, ht] at h
    cases h
  by_cases h1 : isBlank c = true
  · have henter : N.lex.enter c = (.start, [.blank c]) := by
      rw [LexRules.enter, if_pos h1]
    exact Or.inl ⟨h1, hnext _ (hfirst henter)⟩
  by_cases h2 : N.lex.isMark c = true
  · have henter : N.lex.enter c = (.quoted c (N.lex.escapes c), [.openQuote c (N.lex.escapes c)]) := by
      rw [LexRules.enter, if_neg h1, if_pos h2]
    have hread := hnext _ (hfirst henter)
    have hname := (firstName_quoted hread).2
    rw [(N.nameMark_mark c hname).2] at hread
    exact Or.inr (Or.inl ⟨hname, hread⟩)
  by_cases h3 : c = '-'
  · exact (hheld (m := .dash) rfl (by rw [LexRules.enter, if_neg h1, if_neg h2, if_pos h3])).elim
  by_cases h4 : c = '/'
  · exact (hheld (m := .slash) rfl (by rw [LexRules.enter, if_neg h1, if_neg h2, if_neg h3, if_pos h4])).elim
  by_cases h5 : N.lex.hash = true ∧ c = '#'
  · have henter : N.lex.enter c = (.line, [.comment c]) := by
      rw [LexRules.enter, if_neg h1, if_neg h2, if_neg h3, if_neg h4, if_pos h5]
    exact (hnone henter rfl rfl).elim
  by_cases h6 : N.lex.dollar = true ∧ c = '$'
  · have henter : N.lex.enter c = (.tag [], []) := by
      rw [LexRules.enter, if_neg h1, if_neg h2, if_neg h3, if_neg h4, if_neg h5, if_pos h6]
    exact (hheld rfl henter).elim
  by_cases h7 : isIdentChar c = true
  · obtain ⟨escapePrefix, henter⟩ := enter_word (N := N) h7 fun hd hc => h6 ⟨hd, hc⟩
    have hread := hnext _ (hfirst henter)
    obtain ⟨tokens, hword⟩ := LexRules.first_word (R := N.lex) escapePrefix [c] text
    have hscan : N.firstName behindDot (.word escapePrefix, .word [c]) text = some target := hread
    rw [firstName, hword, List.head?_cons, Option.bind_some, readName] at hscan
    split_ifs at hscan with hbare
    cases hscan
    exact Or.inr (Or.inr ⟨h7, fun hd hc => h6 ⟨hd, hc⟩, hbare.2, rfl⟩)
  · have henter : N.lex.enter c = (.start, [.symbol c]) := by
      rw [LexRules.enter, if_neg h1, if_neg h2, if_neg h3, if_neg h4, if_neg h5, if_neg h6, if_neg h7]
    exact (hnone henter rfl rfl).elim

/-- From outside: a first name is no longer than what is written before the stop, or it has swallowed a
character from behind it. -/
theorem firstName_bound {stop : List Char} (hstop : NameStop stop) {target : List Char} (text : List Char) :
    N.firstName behindDot (.start, .idle) (text ++ stop) = some target →
      target.length ≤ text.length ∨ text.countP N.solid < target.countP N.solid := by
  have hfold {c : Char} (hc : isIdentChar c = true) (more : List Char) :
      0 < (((c :: more).map N.fold).countP N.solid) := by
    rw [List.map_cons, List.countP_cons_of_pos (solid_of_ident (N.fold_ident c hc))]
    exact Nat.succ_pos _
  induction text with
  | nil =>
    intro h
    right
    cases hstop with
    | dot rest =>
      rcases firstName_cons h with ⟨hc, -⟩ | ⟨hc, -⟩ | ⟨hc, -⟩
      · cases hc
      · exact absurd rfl (N.mark_plain '.' (N.nameMark_mark '.' hc).1).2.2.1
      · cases hc
    | semicolon rest =>
      rcases firstName_cons h with ⟨hc, -⟩ | ⟨hc, -⟩ | ⟨hc, -⟩
      · cases hc
      · exact absurd rfl (N.mark_plain ';' (N.nameMark_mark ';' hc).1).2.2.2
      · cases hc
    | line c rest hc =>
      have hident : isIdentChar c = true := by
        rw [isIdentChar, hc]
        rfl
      rcases firstName_cons h with ⟨-, hrest⟩ | ⟨hmark, -⟩ | ⟨hnl, -⟩
      · rcases firstName_cons hrest with ⟨hblank, -⟩ | ⟨hmark, -⟩ | ⟨-, -, -, htarget⟩
        · rw [not_blank_of_ident hident] at hblank
          cases hblank
        · have hnot := (N.mark_plain c (N.nameMark_mark c hmark).1).2.1
          rw [hident] at hnot
          cases hnot
        · rw [htarget]
          exact hfold hident _
      · have hblank := (N.mark_plain '\n' (N.nameMark_mark '\n' hmark).1).1
        cases hblank
      · cases hnl
  | cons c rest ih =>
    intro h
    rw [List.cons_append] at h
    rcases firstName_cons h with ⟨hblank, hrest⟩ | ⟨hmark, hrest⟩ | ⟨-, -, -, htarget⟩
    · have hsolid : ¬N.solid c = true := by
        rw [solid, hblank]
        exact Bool.false_ne_true
      rw [List.countP_cons_of_neg hsolid, List.length_cons]
      rcases ih hrest with hlength | hmore
      · left
        omega
      · exact Or.inr hmore
    · have hsolid : ¬N.solid c = true := by
        rw [mark_not_solid (N.nameMark_mark c hmark).1]
        exact Bool.false_ne_true
      rw [List.countP_cons_of_neg hsolid, List.length_cons]
      rcases (quoted_bound hmark hstop rest []).1 hrest with hlength | hmore
      · left
        rw [List.length_nil] at hlength
        omega
      · right
        rw [List.countP_nil] at hmore
        omega
    · left
      rw [htarget, List.length_map, List.length_cons, List.length_cons, takeWhile_stop hstop]
      exact Nat.succ_le_succ (List.takeWhile_prefix isIdentChar).length_le

theorem firstName_ne_nil {s : LexMode × TokenState} {text target : List Char}
    (h : N.firstName behindDot s text = some target) : target ≠ [] := by
  obtain ⟨t, -, ht⟩ := Option.bind_eq_some_iff.1 h
  cases t with
  | word text =>
    rw [readName] at ht
    split_ifs at ht with hword
    cases ht
    exact fun hnil => hword.1 (List.map_eq_nil_iff.1 hnil)
  | quoted mark value =>
    rw [readName] at ht
    split_ifs at ht with hquoted
    cases ht
    exact hquoted.1
  | _ => cases ht

/-- Characters of a word are collected in it. -/
theorem run_wordParts {text : List Char} (h : ∀ c ∈ text, isIdentChar c = true) (escapePrefix : Bool)
    (word : List Char) :
    ∃ escapePrefix', N.lex.reader.Run (.word escapePrefix, .word word) text []
      (.word escapePrefix', .word (word ++ text)) := by
  induction text generalizing escapePrefix word with
  | nil =>
    rw [List.append_nil]
    exact ⟨escapePrefix, Scanner.Run.nil _⟩
  | cons c rest ih =>
    rw [List.forall_mem_cons] at h
    have hstep : N.lex.step (.word escapePrefix) c = (.word false, [.wordPart c]) := by
      rw [LexRules.step, if_pos h.1]
    have hrun : N.lex.reader.Run (.word escapePrefix, .word word) [c] [] (.word false, .word (word ++ [c])) :=
      (LexRules.run_step hstep).pipe ⟨rfl, rfl⟩
    obtain ⟨escapePrefix', hrest⟩ := ih h.2 false (word ++ [c])
    refine ⟨escapePrefix', ?_⟩
    rw [List.append_assoc, List.singleton_append] at hrest
    exact hrun.append hrest

theorem run_word {word : List Char} (hne : word ≠ []) (hident : ∀ c ∈ word, isIdentChar c = true)
    (hdollar : N.lex.dollar = true → word.head? ≠ some '$') :
    ∃ escapePrefix, N.lex.reader.Run (.start, .idle) word [] (.word escapePrefix, .word word) := by
  cases word with
  | nil => exact absurd rfl hne
  | cons c rest =>
    rw [List.forall_mem_cons] at hident
    obtain ⟨escapePrefix, henter⟩ := enter_word (N := N) hident.1
      fun hd hc => hdollar hd (by rw [hc]; rfl)
    have hrun : N.lex.reader.Run (.start, .idle) [c] [] (.word escapePrefix, .word [c]) :=
      (LexRules.run_step (R := N.lex) (m := .start) henter).pipe ⟨rfl, rfl⟩
    obtain ⟨escapePrefix', hrest⟩ := run_wordParts (N := N) hident.2 escapePrefix [c]
    exact ⟨escapePrefix', hrun.append hrest⟩

/-- The digits of a number are a word. -/
theorem run_digits (n : Nat) :
    ∃ escapePrefix, N.lex.reader.Run (.start, .idle) (Nat.toDigits 10 n) []
      (.word escapePrefix, .word (Nat.toDigits 10 n)) := by
  have hdigit {c : Char} (hc : c ∈ Nat.toDigits 10 n) : c.isDigit = true :=
    Nat.isDigit_of_mem_toDigits (by omega) (by omega) hc
  refine run_word Nat.toDigits_ne_nil (fun c hc => ?_) fun _ hhead => ?_
  · rw [isIdentChar, Char.isAlphanum, hdigit hc, Bool.or_true]
    rfl
  · have hdollar := hdigit (List.mem_of_mem_head? hhead)
    cases hdollar

/-- A plain name is a word of its own. -/
theorem tokens_plain {name : List Char} (h : N.Plain behindDot name) {stop : List Char} (hstop : NameStop stop) :
    N.lex.tokens (name ++ stop) = .word name :: N.lex.tokens stop := by
  obtain ⟨escapePrefix, hrun⟩ := run_word (N := N) h.ne_nil h.ident h.no_dollar
  exact (hrun.scan stop).trans (scan_word_stop escapePrefix name hstop)

/-- **A name that is written as it is comes back exactly when it is plain.** -/
theorem firstName_eq_some_iff {stop : List Char} (hstop : NameStop stop) (name : List Char) :
    N.firstName behindDot (.start, .idle) (name ++ stop) = some name ↔ N.Plain behindDot name := by
  constructor
  · intro h
    have hne := firstName_ne_nil h
    cases name with
    | nil => exact absurd rfl hne
    | cons c rest =>
      rw [List.cons_append] at h
      rcases firstName_cons h with ⟨hblank, hrest⟩ | ⟨hmark, hrest⟩ | ⟨hident, hdollar, hbare, htarget⟩
      · -- nothing that is read behind white space begins with it
        have hsolid : ¬N.solid c = true := by
          rw [solid, hblank]
          exact Bool.false_ne_true
        rcases firstName_bound hstop rest hrest with hlength | hmore
        · rw [List.length_cons] at hlength
          omega
        · rw [List.countP_cons_of_neg hsolid] at hmore
          omega
      · have hsolid : ¬N.solid c = true := by
          rw [mark_not_solid (N.nameMark_mark c hmark).1]
          exact Bool.false_ne_true
        rcases (quoted_bound hmark hstop rest []).1 hrest with hlength | hmore
        · rw [List.length_nil, List.length_cons] at hlength
          omega
        · rw [List.countP_cons_of_neg hsolid, List.countP_nil] at hmore
          omega
      · rw [takeWhile_stop hstop] at hbare htarget
        have hlength : (rest.takeWhile isIdentChar).length = rest.length := by
          have hlengths := congrArg List.length htarget
          rw [List.length_map, List.length_cons, List.length_cons] at hlengths
          omega
        have hwhole : rest.takeWhile isIdentChar = rest :=
          (List.takeWhile_prefix isIdentChar).eq_of_length hlength
        rw [hwhole] at hbare htarget
        refine ⟨hne, ?_, fun hd hc => hdollar hd (Option.some.inj hc), hbare, htarget.symm⟩
        rw [List.forall_mem_cons]
        have hall : (rest.takeWhile isIdentChar).all isIdentChar = true := List.all_takeWhile
        rw [hwhole, List.all_eq_true] at hall
        exact ⟨hident, hall⟩
  · intro h
    have htokens := tokens_plain h hstop
    rw [firstName, ← LexRules.tokens, htokens, List.head?_cons, Option.bind_some, readName,
      if_pos ⟨h.ne_nil, h.bare⟩, h.folded]

/-! ### Paths -/

theorem readPath_cons (t : SqlToken) (rest : List SqlToken) (h : rest.head? ≠ some (.symbol '.')) :
    N.readPath behindDot (t :: rest) = (N.readName behindDot t).map fun name => ([name], rest) := by
  cases rest with
  | nil => rfl
  | cons u more =>
    rw [readPath, if_neg]
    rintro rfl
    exact h rfl

theorem readPath_dot (t : SqlToken) (rest : List SqlToken) :
    N.readPath behindDot (t :: .symbol '.' :: rest) = (N.readName behindDot t).bind fun name =>
      (N.readPath true rest).map fun path => (name :: path.1, path.2) := by
  rw [readPath, if_pos rfl]

/-- The first part of a path is the first name. -/
theorem readPath_first {tokens after : List SqlToken} {name : List Char} {path : List (List Char)}
    (h : N.readPath behindDot tokens = some (name :: path, after)) :
    tokens.head?.bind (N.readName behindDot) = some name := by
  cases tokens with
  | nil => cases h
  | cons t rest =>
    cases rest with
    | nil =>
      obtain ⟨n, hn, hpath⟩ := Option.map_eq_some_iff.1 h
      cases hpath
      exact hn
    | cons u rest =>
      rw [readPath] at h
      split_ifs at h with hu
      · obtain ⟨n, hn, hpath⟩ := Option.bind_eq_some_iff.1 h
        obtain ⟨p, -, hpath⟩ := Option.map_eq_some_iff.1 hpath
        cases hpath
        exact hn
      · obtain ⟨n, hn, hpath⟩ := Option.map_eq_some_iff.1 h
        cases hpath
        exact hn

theorem tokens_symbol {c : Char} (h : c = '.' ∨ c = ';') (text : List Char) :
    N.lex.tokens (c :: text) = .symbol c :: N.lex.tokens text := by
  have hrun : N.lex.reader.Run (.start, .idle) [c] [.symbol c] (.start, .idle) :=
    (LexRules.run_step (R := N.lex) (m := .start) (enter_symbol h)).pipe ⟨rfl, rfl⟩
  exact hrun.scan text

/-- A stop other than a dot goes on with no dot. -/
theorem head?_stop {stop : List Char} (h : NameStop stop) (hdot : stop.head? ≠ some '.') :
    (N.lex.tokens stop).head? ≠ some (.symbol '.') := by
  cases h with
  | dot rest => exact absurd rfl hdot
  | semicolon rest =>
    rw [tokens_symbol (Or.inr rfl), List.head?_cons]
    simp
  | line c rest hc =>
    intro hhead
    have hident : isIdentChar c = true := by
      rw [isIdentChar, hc]
      rfl
    have hdollar : c ≠ '$' := by
      rintro rfl
      cases hc
    obtain ⟨escapePrefix, henter⟩ := enter_word (N := N) hident fun _ => hdollar
    have hblank : N.lex.reader.Run (.start, .idle) ['\n'] [] (.start, .idle) := by
      have hstep : N.lex.step .start '\n' = (.start, [.blank '\n']) := rfl
      exact (LexRules.run_step hstep).pipe ⟨rfl, rfl⟩
    have hword : N.lex.reader.Run (.start, .idle) [c] [] (.word escapePrefix, .word [c]) :=
      (LexRules.run_step (R := N.lex) (m := .start) henter).pipe ⟨rfl, rfl⟩
    obtain ⟨tokens, hfirst⟩ := LexRules.first_word (R := N.lex) escapePrefix [c] rest
    have hscan : N.lex.tokens ('\n' :: c :: rest) =
        .word ([c] ++ rest.takeWhile isIdentChar) :: tokens :=
      ((hblank.append hword).scan rest).trans hfirst
    rw [hscan] at hhead
    cases hhead

/-- **Two names with a dot between them name the two exactly when both are plain.** -/
theorem readPath_pair_iff {stop : List Char} (hstop : NameStop stop) (hdot : stop.head? ≠ some '.')
    (first second : List Char) :
    (∃ after, N.readPath behindDot (N.lex.tokens (first ++ '.' :: (second ++ stop))) =
      some ([first, second], after)) ↔ N.Plain behindDot first ∧ N.Plain true second := by
  have hfirst (h : N.Plain behindDot first) :
      N.lex.tokens (first ++ '.' :: (second ++ stop)) =
        .word first :: .symbol '.' :: N.lex.tokens (second ++ stop) := by
    rw [tokens_plain h (.dot _), tokens_symbol (Or.inl rfl)]
  have hname {q : Bool} {name : List Char} (h : N.Plain q name) : N.readName q (.word name) = some name := by
    rw [readName, if_pos ⟨h.ne_nil, h.bare⟩, h.folded]
  constructor
  · rintro ⟨after, h⟩
    have hplain : N.Plain behindDot first :=
      (firstName_eq_some_iff (.dot _) first).1 (readPath_first h)
    rw [hfirst hplain, readPath_dot, hname hplain, Option.bind_some] at h
    obtain ⟨⟨path, rest⟩, hpath, heq⟩ := Option.map_eq_some_iff.1 h
    cases heq
    exact ⟨hplain, (firstName_eq_some_iff hstop second).1 (readPath_first hpath)⟩
  · rintro ⟨hplain, hsecond⟩
    refine ⟨N.lex.tokens stop, ?_⟩
    rw [hfirst hplain, readPath_dot, hname hplain, Option.bind_some, tokens_plain hsecond hstop,
      readPath_cons _ _ (head?_stop hstop hdot), hname hsecond]
    rfl

end NameRules

end Workbench.Lib
