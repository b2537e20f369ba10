import Workbench.Lib.Lexis

/-!
# The tokens of an SQL text

The events of the lexer, put together to words, symbols and quoted texts with the value they stand
for. Comments, executable comments and the end of the input inside a quote or a comment leave a token
of their own, so that a text without them is one of which no token is `harmful`. A quoted text whose
marks are doubled reads back to the text itself (`run_doubled`); where a backslash escapes, the text
that is read back is the one `slashDecode` computes.
-/

set_option autoImplicit false

namespace Workbench.Lib

inductive SqlToken where
  | word (text : List Char)
  | symbol (c : Char)
  | quoted (mark : Char) (value : List Char)
  | comment
  | executable
  | unclosed
  deriving DecidableEq, Repr

/-- What the tokenizer is collecting. -/
inductive TokenState where
  | idle
  | word (text : List Char)
  | quoted (mark : Char) (value : List Char)
  deriving DecidableEq, Repr

def TokenState.pending : TokenState → List SqlToken
  | .idle => []
  | .word text => [.word text]
  | .quoted mark value => [.quoted mark value]

def tokenStep : TokenState → LexEvent → TokenState × List SqlToken
  | .word text, .wordPart c => (.word (text ++ [c]), [])
  | s, .wordPart c => (.word [c], s.pending)
  | s, .wordStart c => (.word [c], s.pending)
  | s, .symbol c => (.idle, s.pending ++ [.symbol c])
  | s, .openQuote mark _ => (.quoted mark [], s.pending)
  | .quoted mark value, .part _ _ _ more => (.quoted mark (value ++ more), [])
  | s, .openDollar _ => (.quoted '$' [], s.pending)
  | .quoted mark value, .dollarPart c => (.quoted mark (value ++ [c]), [])
  | s, .comment _ => (.idle, s.pending ++ [.comment])
  | s, .executable => (.idle, s.pending ++ [.executable])
  | s, .unclosed => (.idle, s.pending ++ [.unclosed])
  | s, .blank _ => (.idle, s.pending)
  | s, .part _ _ _ _ => (.idle, s.pending)
  | s, .closeQuote _ => (.idle, s.pending)
  | s, .dollarPart _ => (.idle, s.pending)
  | s, .closeDollar => (.idle, s.pending)

def tokenizer : Scanner TokenState LexEvent SqlToken := ⟨tokenStep, TokenState.pending⟩

/-- A token that one statement must not hold. -/
def SqlToken.harmful : SqlToken → Bool
  | .symbol c => c = ';'
  | .comment => true
  | .executable => true
  | .unclosed => true
  | .word _ => false
  | .quoted _ _ => false

/-- An event that leaves such a token. -/
def LexEvent.harmful : LexEvent → Bool
  | .symbol c => c = ';'
  | .comment _ => true
  | .executable => true
  | .unclosed => true
  | .blank _ => false
  | .wordStart _ => false
  | .wordPart _ => false
  | .openQuote _ _ => false
  | .part _ _ _ _ => false
  | .closeQuote _ => false
  | .openDollar _ => false
  | .dollarPart _ => false
  | .closeDollar => false

theorem not_harmful_pending (s : TokenState) : s.pending.any SqlToken.harmful = false := by
  cases s <;> rfl

theorem any_harmful_tokenStep (s : TokenState) (e : LexEvent) :
    (tokenStep s e).2.any SqlToken.harmful = e.harmful := by
  have hpending := not_harmful_pending s
  cases e <;> cases s <;>
    simp_all [tokenStep, TokenState.pending, SqlToken.harmful, LexEvent.harmful]

/-- The harm is in the events. -/
theorem any_harmful_scan (s : TokenState) (events : List LexEvent) :
    (tokenizer.scan s events).any SqlToken.harmful = events.any LexEvent.harmful := by
  induction events generalizing s with
  | nil => exact not_harmful_pending s
  | cons e rest ih =>
    rw [Scanner.scan_cons, List.any_append, ih, List.any_cons]
    exact congrArg (· || rest.any LexEvent.harmful) (any_harmful_tokenStep s e)

namespace LexRules

variable (R : LexRules)

/-- The lexer and the tokenizer behind it. -/
def reader : Scanner (LexMode × TokenState) Char SqlToken := R.lexer.pipe tokenizer

def tokens (text : List Char) : List SqlToken := R.reader.scan (.start, .idle) text

theorem tokens_eq (text : List Char) : R.tokens text = tokenizer.scan .idle (R.lex text) :=
  R.lexer.scan_pipe tokenizer .start .idle text

/-- Harm is seen by the lexer alone. -/
theorem any_harmful_reader (s : LexMode × TokenState) (text : List Char) :
    (R.reader.scan s text).any SqlToken.harmful =
      (R.lexer.scan s.1 text).any LexEvent.harmful := by
  rw [reader, ← Prod.mk.eta (p := s), Scanner.scan_pipe, any_harmful_scan]

end LexRules

/-! ## Doubled marks -/

/-- A text as it is written between two marks. -/
def doubled (mark : Char) (text : List Char) : List Char :=
  text.flatMap fun c => if c = mark then [mark, mark] else [c]

theorem doubled_cons_mark (mark : Char) (text : List Char) :
    doubled mark (mark :: text) = mark :: mark :: doubled mark text := by
  rw [doubled, List.flatMap_cons, if_pos rfl]
  rfl

theorem doubled_cons_ne {mark c : Char} (h : c ≠ mark) (text : List Char) :
    doubled mark (c :: text) = c :: doubled mark text := by
  rw [doubled, List.flatMap_cons, if_neg h]
  rfl

theorem doubled_eq_self {mark : Char} {text : List Char} (h : mark ∉ text) :
    doubled mark text = text := by
  induction text with
  | nil => rfl
  | cons c rest ih =>
    rw [List.mem_cons, not_or] at h
    rw [doubled_cons_ne (Ne.symm h.1), ih h.2]

namespace LexRules

variable {R : LexRules}

theorem run_step {m t : LexMode} {c : Char} {events : List LexEvent}
    (h : R.step m c = (t, events)) : R.lexer.Run m [c] events t :=
  Scanner.Run.of_step (M := R.lexer) (s := m) (a := c) h

/-- The opening mark of a quoted text. -/
theorem run_mark {mark : Char} (hblank : isBlank mark = false) (hmark : R.isMark mark = true) :
    R.reader.Run (.start, .idle) [mark] [] (.quoted mark (R.escapes mark), .quoted mark []) := by
  have hstep : R.step .start mark =
      (.quoted mark (R.escapes mark), [.openQuote mark (R.escapes mark)]) := by
    simp [step, enter, hblank, hmark]
  exact (run_step hstep).pipe ⟨rfl, rfl⟩

/-- A character of a quoted text that is neither its mark nor an escape. -/
theorem run_part {mark c : Char} {escapes : Bool} (hc : c ≠ mark) (hslash : escapes = true → c ≠ '\\')
    (value : List Char) :
    R.reader.Run (.quoted mark escapes, .quoted mark value) [c] []
      (.quoted mark escapes, .quoted mark (value ++ [c])) := by
  have hstep : R.step (.quoted mark escapes) c =
      (.quoted mark escapes, [.part mark escapes [c] [c]]) := by
    rw [step, if_neg hc, if_neg fun h => hslash h.1 h.2]
  exact (run_step hstep).pipe ⟨rfl, rfl⟩

/-- A doubled mark of a quoted text. -/
theorem run_pair (mark : Char) (escapes : Bool) (value : List Char) :
    R.reader.Run (.quoted mark escapes, .quoted mark value) [mark, mark] []
      (.quoted mark escapes, .quoted mark (value ++ [mark])) := by
  have hfirst : R.step (.quoted mark escapes) mark = (.closed mark escapes, []) := by
    rw [step, if_pos rfl]
  have hsecond : R.step (.closed mark escapes) mark =
      (.quoted mark escapes, [.part mark escapes [mark, mark] [mark]]) := by
    rw [step, if_pos rfl]
  have hrun := (run_step hfirst).append (run_step hsecond)
  exact hrun.pipe ⟨rfl, rfl⟩

/-- The closing mark of a quoted text. -/
theorem run_close (mark : Char) (escapes : Bool) (value : List Char) :
    R.reader.Run (.quoted mark escapes, .quoted mark value) [mark] []
      (.closed mark escapes, .quoted mark value) := by
  have hstep : R.step (.quoted mark escapes) mark = (.closed mark escapes, []) := by
    rw [step, if_pos rfl]
  exact (run_step hstep).pipe ⟨rfl, rfl⟩

/-- Without escapes a text with doubled marks is read back. -/
theorem run_doubled (mark : Char) (text value : List Char) :
    R.reader.Run (.quoted mark false, .quoted mark value) (doubled mark text) []
      (.quoted mark false, .quoted mark (value ++ text)) := by
  induction text generalizing value with
  | nil =>
    rw [List.append_nil]
    exact Scanner.Run.nil _
  | cons c rest ih =>
    have hvalue : value ++ c :: rest = value ++ [c] ++ rest := by simp
    rw [hvalue]
    by_cases hc : c = mark
    · subst hc
      rw [doubled_cons_mark]
      exact (run_pair c false value).append (ih _)
    · rw [doubled_cons_ne hc]
      have hpart : R.reader.Run (.quoted mark false, .quoted mark value) [c] []
          (.quoted mark false, .quoted mark (value ++ [c])) :=
        run_part hc (fun h => absurd h (by decide)) value
      exact hpart.append (ih _)

/-- **A quoted text with doubled marks reads back to the text.** -/
theorem run_quoted {mark : Char} (hblank : isBlank mark = false) (hmark : R.isMark mark = true)
    (hescapes : R.escapes mark = false) (text : List Char) :
    R.reader.Run (.start, .idle) (mark :: (doubled mark text ++ [mark])) []
      (.closed mark false, .quoted mark text) := by
  have hopen := run_mark hblank hmark
  rw [hescapes] at hopen
  have hbody := run_doubled (R := R) mark text []
  exact hopen.append (hbody.append (run_close mark false _))

end LexRules

/-! ## The token of a quoted text -/

/-- Whatever follows, the first token is the quoted text, with what is still read of it. -/
theorem first_quoted (mark : Char) (events : List LexEvent) : ∀ value : List Char,
    ∃ more rest, tokenizer.scan (.quoted mark value) events = .quoted mark (value ++ more) :: rest := by
  induction events with
  | nil => exact fun value => ⟨[], [], by rw [List.append_nil]; rfl⟩
  | cons e rest ih =>
    intro value
    rw [Scanner.scan_cons]
    cases e with
    | part m escapes raw read =>
      obtain ⟨more, tokens, h⟩ := ih (value ++ read)
      exact ⟨read ++ more, tokens, by rw [← List.append_assoc]; exact h⟩
    | dollarPart c =>
      obtain ⟨more, tokens, h⟩ := ih (value ++ [c])
      exact ⟨[c] ++ more, tokens, by rw [← List.append_assoc]; exact h⟩
    -- every other event ends the quoted text
    | _ => exact ⟨[], _, by rw [List.append_nil]; rfl⟩

namespace LexRules

variable {R : LexRules}

/-- The text that the first token has begins with what has been read of it. -/
theorem prefix_of_first_quoted {m : LexMode} {mark : Char} {value target text : List Char}
    {tokens : List SqlToken} (h : R.reader.scan (m, .quoted mark value) text = .quoted mark target :: tokens) :
    value <+: target := by
  rw [reader, Scanner.scan_pipe] at h
  obtain ⟨more, rest, hfirst⟩ := first_quoted mark (R.lexer.scan m text) value
  rw [hfirst] at h
  obtain ⟨hhead, -⟩ := List.cons.inj h
  injection hhead with _ htarget
  exact ⟨more, htarget⟩

/-- Behind a closing mark that no other one follows the quoted text is a token, and what follows is read
from outside. -/
theorem scan_closed {mark : Char} (escapes : Bool) (value : List Char) {text : List Char}
    (h : text.head? ≠ some mark) :
    R.reader.scan (.closed mark escapes, .quoted mark value) text = .quoted mark value :: R.tokens text := by
  cases text with
  | nil => rfl
  | cons c rest =>
    have hc : ¬ c = mark := fun heq => h (by rw [heq]; rfl)
    have hstep : R.step (.closed mark escapes) c = ((R.enter c).1, .closeQuote mark :: (R.enter c).2) := by
      rw [step, if_neg hc]
      rfl
    have hread : R.reader.step (.closed mark escapes, .quoted mark value) c =
        ((R.reader.step (.start, .idle) c).1, .quoted mark value :: (R.reader.step (.start, .idle) c).2) := by
      show (((R.step (.closed mark escapes) c).1,
        tokenizer.reach (.quoted mark value) (R.step (.closed mark escapes) c).2),
          tokenizer.emits (.quoted mark value) (R.step (.closed mark escapes) c).2) = _
      rw [hstep]
      rfl
    rw [tokens, Scanner.scan_cons, Scanner.scan_cons, hread]
    rfl

/-- The same for a word: what ends it is read from outside. -/
theorem scan_word {c : Char} (hident : isIdentChar c = false) (hmark : c ≠ '\'')
    (hevents : ∃ e rest, (R.enter c).2 = e :: rest ∧ ∀ p, e ≠ .wordPart p) (escapePrefix : Bool)
    (word text : List Char) :
    R.reader.scan (.word escapePrefix, .word word) (c :: text) = .word word :: R.tokens (c :: text) := by
  obtain ⟨e, rest, hevents, hpart⟩ := hevents
  have hstep : R.step (.word escapePrefix) c = R.enter c := by
    rw [step, hident, if_neg Bool.false_ne_true, if_neg fun h => hmark h.2]
  have htoken : tokenStep (.word word) e = ((tokenStep .idle e).1, .word word :: (tokenStep .idle e).2) := by
    cases e with
    | wordPart p => exact absurd rfl (hpart p)
    | _ => rfl
  have hread : R.reader.step (.word escapePrefix, .word word) c =
      ((R.reader.step (.start, .idle) c).1, .word word :: (R.reader.step (.start, .idle) c).2) := by
    show (((R.step (.word escapePrefix) c).1, tokenizer.reach (.word word) (R.step (.word escapePrefix) c).2),
      tokenizer.emits (.word word) (R.step (.word escapePrefix) c).2) =
        (((R.enter c).1, tokenizer.reach .idle (R.enter c).2),
          .word word :: tokenizer.emits .idle (R.enter c).2)
    rw [hstep, hevents, Scanner.reach_cons, Scanner.reach_cons, Scanner.emits_cons, Scanner.emits_cons]
    show ((_, tokenizer.reach (tokenStep (.word word) e).1 rest),
      (tokenStep (.word word) e).2 ++ tokenizer.emits (tokenStep (.word word) e).1 rest) = _
    rw [htoken]
    rfl
  rw [tokens, Scanner.scan_cons, Scanner.scan_cons, hread]
  rfl

end LexRules

/-! ## Backslashes -/

/-- The text that is read back from a text with doubled marks when a backslash escapes; `none` when
an escape takes a mark or the end of the text. The flag says that the last character was a backslash
that escapes. -/
def slashDecode (unescape : Char → List Char) (mark : Char) : Bool → List Char → Option (List Char)
  | false, [] => some []
  | true, [] => none
  | false, c :: rest =>
    if c = '\\' then slashDecode unescape mark true rest
    else (slashDecode unescape mark false rest).map (c :: ·)
  | true, c :: rest =>
    if c = mark then none else (slashDecode unescape mark false rest).map (unescape c ++ ·)

/-- The mode inside a quoted text with escapes. -/
def slashMode (mark : Char) (slashed : Bool) : LexMode :=
  if slashed then .slashed mark else .quoted mark true

namespace LexRules

variable {R : LexRules}

/-- A backslash that escapes. -/
theorem run_slash {mark : Char} (hmark : mark ≠ '\\') (value : List Char) :
    R.reader.Run (.quoted mark true, .quoted mark value) ['\\'] []
      (.slashed mark, .quoted mark value) := by
  have hstep : R.step (.quoted mark true) '\\' = (.slashed mark, []) := by
    rw [step, if_neg (Ne.symm hmark), if_pos ⟨rfl, rfl⟩]
  exact (run_step hstep).pipe ⟨rfl, rfl⟩

/-- The character behind a backslash. -/
theorem run_escaped (mark c : Char) (value : List Char) :
    R.reader.Run (.slashed mark, .quoted mark value) [c] []
      (.quoted mark true, .quoted mark (value ++ R.unescape c)) := by
  have hstep : R.step (.slashed mark) c =
      (.quoted mark true, [.part mark true ['\\', c] (R.unescape c)]) := rfl
  exact (run_step hstep).pipe ⟨rfl, rfl⟩

/-- What `slashDecode` says is what the reader reads. -/
theorem run_slashDecode {mark : Char} (hmark : mark ≠ '\\') {slashed : Bool}
    {text out : List Char} (h : slashDecode R.unescape mark slashed text = some out)
    (value : List Char) :
    R.reader.Run (slashMode mark slashed, .quoted mark value) (doubled mark text) []
      (.quoted mark true, .quoted mark (value ++ out)) := by
  induction text generalizing slashed out value with
  | nil =>
    cases slashed with
    | false =>
      rw [← Option.some.inj h, List.append_nil]
      exact Scanner.Run.nil _
    | true => exact absurd h (by simp [slashDecode])
  | cons c rest ih =>
    cases slashed with
    | false =>
      rw [slashDecode] at h
      split_ifs at h with hc
      · subst hc
        rw [doubled_cons_ne (Ne.symm hmark)]
        exact (run_slash hmark value).append (ih h value)
      · obtain ⟨more, hmore, rfl⟩ := Option.map_eq_some_iff.1 h
        have hvalue : value ++ c :: more = value ++ [c] ++ more := by simp
        rw [hvalue]
        by_cases hcm : c = mark
        · subst hcm
          rw [doubled_cons_mark]
          exact (run_pair c true value).append (ih hmore _)
        · rw [doubled_cons_ne hcm]
          exact (run_part hcm (fun _ => hc) value).append (ih hmore _)
    | true =>
      rw [slashDecode] at h
      split_ifs at h with hc
      obtain ⟨more, hmore, rfl⟩ := Option.map_eq_some_iff.1 h
      rw [doubled_cons_ne hc, ← List.append_assoc]
      exact (run_escaped mark c value).append (ih hmore _)

end LexRules

end Workbench.Lib
