import Workbench.Lib.Scanner

/-!
# The lexical rules of the two SQL dialects

One scanner reads the text of either dialect; a record of `LexRules` says how the dialects differ:
which marks quote, where a backslash escapes, which comments there are. The output is a list of
events, about one for each character, so that a text is known by its events: the raw texts of the
events put together give the text back (`raw_lex`).

`postgres` has `standard_conforming_strings` on: a backslash is an ordinary character except in
`E'…'`. It nests block comments and knows dollar quotes. `mysql` has the default SQL mode: the
backslash escapes in `'…'` and `"…"`, which both quote strings, `#` starts a comment, `--` starts one
only in front of white space, and an executable comment is code. The characters of an operator are
symbols of their own, and a quote that continues the last one on a new line is a quote of its own, in which no backslash
escapes. A name is as long as it is written: the cut at 63 bytes is not part of the rules.
-/

set_option autoImplicit false

namespace Workbench.Lib

/-- How a dialect reads its texts. -/
structure LexRules where
  /-- The marks that open quoted text. -/
  isMark : Char → Bool
  /-- The marks that quote a name; the others quote a string. -/
  isNameMark : Char → Bool
  /-- The marks inside which a backslash escapes. -/
  escapes : Char → Bool
  /-- What a backslash and a character stand for. -/
  unescape : Char → List Char
  /-- A `#` starts a comment. -/
  hash : Bool
  /-- A `--` starts a comment only in front of white space or a control character. -/
  dashNeedsBlank : Bool
  /-- The characters that end a line comment. -/
  endsLine : Char → Bool
  /-- Block comments nest. -/
  nested : Bool
  /-- A block comment that starts with an exclamation mark is code. -/
  executable : Bool
  /-- There are dollar quotes. -/
  dollar : Bool
  /-- A backslash escapes in `E'…'`. -/
  escapePrefix : Bool

/-- White space in both dialects. -/
def isBlank (c : Char) : Bool :=
  c = ' ' || c = '\t' || c = '\n' || c = '\r' || c = '\x0b' || c = '\x0c'

/-- A character of a word: a keyword, a name or a number. -/
def isIdentChar (c : Char) : Bool := c.isAlphanum || c = '_' || c = '$' || 128 ≤ c.toNat

/-- A character that continues the tag of a dollar quote. -/
def isTagChar (tag : List Char) (c : Char) : Bool :=
  isIdentChar c && c ≠ '$' && !(tag.isEmpty && c.isDigit)

inductive LexMode where
  | start
  /-- In a word; `true` when the word is a single E that may turn out to be a prefix. -/
  | word (escapePrefix : Bool)
  | dash
  | dashes
  | slash
  | opened
  | line
  | block (depth : Nat) (last : Option Char)
  | quoted (mark : Char) (escapes : Bool)
  | slashed (mark : Char)
  | closed (mark : Char) (escapes : Bool)
  | tag (text : List Char)
  | dollar (tag : List Char) (tail : Option (List Char))
  deriving DecidableEq, Repr

inductive LexEvent where
  | blank (c : Char)
  | comment (c : Char)
  | wordStart (c : Char)
  | wordPart (c : Char)
  | symbol (c : Char)
  | openQuote (mark : Char) (escapes : Bool)
  | part (mark : Char) (escapes : Bool) (raw value : List Char)
  | closeQuote (mark : Char)
  | openDollar (tag : List Char)
  | dollarPart (c : Char)
  | closeDollar
  | executable
  | unclosed
  deriving DecidableEq, Repr

namespace LexRules

variable (R : LexRules)

/-- A character read outside everything. -/
def enter (c : Char) : LexMode × List LexEvent :=
  if isBlank c then (.start, [.blank c])
  else if R.isMark c then (.quoted c (R.escapes c), [.openQuote c (R.escapes c)])
  else if c = '-' then (.dash, [])
  else if c = '/' then (.slash, [])
  else if R.hash ∧ c = '#' then (.line, [.comment c])
  else if R.dollar ∧ c = '$' then (.tag [], [])
  else if isIdentChar c then
    (.word (R.escapePrefix && (c = 'E' || c = 'e')), [.wordStart c])
  else (.start, [.symbol c])

/-- A character read outside everything, behind events that were held back. -/
def enterAfter (events : List LexEvent) (c : Char) : LexMode × List LexEvent :=
  ((R.enter c).1, events ++ (R.enter c).2)

/-- A character of a line comment. -/
def lineStep (events : List LexEvent) (c : Char) : LexMode × List LexEvent :=
  if R.endsLine c then (.start, events ++ [.blank c]) else (.line, events ++ [.comment c])

/-- A dollar sign and a tag that turn out not to open a quote. -/
def tagEvents : List Char → List LexEvent
  | [] => [.symbol '$']
  | a :: rest => .symbol '$' :: .wordStart a :: rest.map .wordPart

def step : LexMode → Char → LexMode × List LexEvent
  | .start, c => R.enter c
  | .word escapePrefix, c =>
    if isIdentChar c then (.word false, [.wordPart c])
    else if escapePrefix ∧ c = '\'' then (.quoted c true, [.openQuote c true])
    else R.enter c
  | .dash, c =>
    if c = '-' then
      if R.dashNeedsBlank then (.dashes, []) else (.line, [.comment '-', .comment '-'])
    else R.enterAfter [.symbol '-'] c
  | .dashes, c =>
    if c = '-' then (.dashes, [.symbol '-'])
    else if isBlank c || c.toNat < 32 || c.toNat = 127 then
      R.lineStep [.comment '-', .comment '-'] c
    else R.enterAfter [.symbol '-', .symbol '-'] c
  | .slash, c =>
    if c = '*' then
      if R.executable then (.opened, []) else (.block 0 none, [.comment '/', .comment '*'])
    else R.enterAfter [.symbol '/'] c
  | .opened, c =>
    if c = '!' then (.start, [.executable])
    else (.block 0 (some c), [.comment '/', .comment '*', .comment c])
  | .line, c => R.lineStep [] c
  | .block depth last, c =>
    if R.nested ∧ last = some '/' ∧ c = '*' then (.block (depth + 1) none, [.comment c])
    else if last = some '*' ∧ c = '/' then
      (if depth = 0 then .start else .block (depth - 1) none, [.comment c])
    else (.block depth (some c), [.comment c])
  | .quoted mark escapes, c =>
    if c = mark then (.closed mark escapes, [])
    else if escapes ∧ c = '\\' then (.slashed mark, [])
    else (.quoted mark escapes, [.part mark escapes [c] [c]])
  | .slashed mark, c => (.quoted mark true, [.part mark true ['\\', c] (R.unescape c)])
  | .closed mark escapes, c =>
    if c = mark then (.quoted mark escapes, [.part mark escapes [mark, mark] [mark]])
    else R.enterAfter [.closeQuote mark] c
  | .tag text, c =>
    if c = '$' then (.dollar text none, [.openDollar text])
    else if isTagChar text c then (.tag (text ++ [c]), [])
    else R.enterAfter (tagEvents text) c
  | .dollar tag tail, c =>
    if c = '$' then
      if tail = some tag then (.start, [.closeDollar])
      else (.dollar tag (some []), [.dollarPart c])
    else (.dollar tag (tail.map (· ++ [c])), [.dollarPart c])

def flush : LexMode → List LexEvent
  | .start => []
  | .word _ => []
  | .dash => [.symbol '-']
  | .dashes => [.comment '-', .comment '-']
  | .slash => [.symbol '/']
  | .opened => [.comment '/', .comment '*', .unclosed]
  | .line => []
  | .block _ _ => [.unclosed]
  | .quoted _ _ => [.unclosed]
  | .slashed mark => [.part mark true ['\\'] [], .unclosed]
  | .closed mark _ => [.closeQuote mark]
  | .tag text => tagEvents text
  | .dollar _ _ => [.unclosed]

/-- The lexer of a dialect. -/
def lexer : Scanner LexMode Char LexEvent := ⟨R.step, flush⟩

/-- The events of a text. -/
def lex (text : List Char) : List LexEvent := R.lexer.scan .start text

@[simp] theorem lexer_step (m : LexMode) (c : Char) : R.lexer.step m c = R.step m c := rfl

@[simp] theorem lexer_flush (m : LexMode) : R.lexer.flush m = flush m := rfl

/-! ## The dialects -/

/-- The backslash sequences of MySQL. The two wildcards keep their backslash. -/
def mysqlUnescape (c : Char) : List Char :=
  if c = '0' then ['\x00']
  else if c = 'b' then ['\x08']
  else if c = 'n' then ['\n']
  else if c = 'r' then ['\r']
  else if c = 't' then ['\t']
  else if c = 'Z' then ['\x1a']
  else if c = '%' ∨ c = '_' then ['\\', c]
  else [c]

/-- The backquote. -/
def backquote : Char := Char.ofNat 96

def mysql : LexRules where
  isMark c := c = '\'' || c = '"' || c = backquote
  isNameMark c := c = backquote
  escapes c := c = '\'' || c = '"'
  unescape := mysqlUnescape
  hash := true
  dashNeedsBlank := true
  endsLine c := c = '\n'
  nested := false
  executable := true
  dollar := false
  escapePrefix := false

def postgres : LexRules where
  isMark c := c = '\'' || c = '"'
  isNameMark c := c = '"'
  escapes _ := false
  unescape c := ['\\', c]
  hash := false
  dashNeedsBlank := false
  endsLine c := c = '\n' || c = '\r'
  nested := true
  executable := false
  dollar := true
  escapePrefix := true

end LexRules

/-! ## The text of the events -/

namespace LexEvent

/-- The characters an event was read from. -/
def raw : LexEvent → List Char
  | .blank c => [c]
  | .comment c => [c]
  | .wordStart c => [c]
  | .wordPart c => [c]
  | .symbol c => [c]
  | .openQuote mark _ => [mark]
  | .part _ _ raw _ => raw
  | .closeQuote mark => [mark]
  | .openDollar tag => '$' :: (tag ++ ['$'])
  | .dollarPart c => [c]
  | .closeDollar => ['$']
  | .executable => "/*!".toList
  | .unclosed => []

/-- White space and comments. -/
def isTrivia : LexEvent → Bool
  | .blank _ => true
  | .comment _ => true
  | _ => false

end LexEvent

/-- The characters a mode has read and not yet accounted for in an event. -/
def LexMode.held : LexMode → List Char
  | .dash => ['-']
  | .dashes => ['-', '-']
  | .slash => ['/']
  | .opened => ['/', '*']
  | .slashed _ => ['\\']
  | .closed mark _ => [mark]
  | .tag text => '$' :: text
  | _ => []

namespace LexRules

variable (R : LexRules)

theorem raw_tagEvents (text : List Char) : (tagEvents text).flatMap LexEvent.raw = '$' :: text := by
  cases text with
  | nil => rfl
  | cons a rest =>
    have hrest : (rest.map LexEvent.wordPart).flatMap LexEvent.raw = rest := by
      induction rest with
      | nil => rfl
      | cons b rest ih => simpa [LexEvent.raw] using ih
    simpa [tagEvents, LexEvent.raw] using hrest

theorem raw_enter (c : Char) :
    (R.enter c).2.flatMap LexEvent.raw ++ (R.enter c).1.held = [c] := by
  unfold enter
  split_ifs with h1 h2 h3 h4 h5 h6 h7
  · rfl
  · rfl
  · rw [h3]
    rfl
  · rw [h4]
    rfl
  · rfl
  · rw [h6.2]
    rfl
  · rfl
  · rfl

theorem raw_enterAfter (events : List LexEvent) (c : Char) :
    (R.enterAfter events c).2.flatMap LexEvent.raw ++ (R.enterAfter events c).1.held =
      events.flatMap LexEvent.raw ++ [c] := by
  rw [enterAfter, List.flatMap_append, List.append_assoc, raw_enter]

theorem raw_lineStep (events : List LexEvent) (c : Char) :
    (R.lineStep events c).2.flatMap LexEvent.raw ++ (R.lineStep events c).1.held =
      events.flatMap LexEvent.raw ++ [c] := by
  unfold lineStep
  split_ifs <;> simp [LexEvent.raw, LexMode.held]

/-- One character more is held or accounted for. -/
theorem raw_step (m : LexMode) (c : Char) :
    (R.step m c).2.flatMap LexEvent.raw ++ (R.step m c).1.held = m.held ++ [c] := by
  cases m with
  | start => exact R.raw_enter c
  | word escapePrefix =>
    simp only [step]
    split_ifs
    · rfl
    · rfl
    · exact R.raw_enter c
  | dash =>
    simp only [step]
    split_ifs with h1 h2
    · subst h1
      rfl
    · subst h1
      rfl
    · exact R.raw_enterAfter _ c
  | dashes =>
    simp only [step]
    split_ifs with h1 h2
    · subst h1
      rfl
    · exact R.raw_lineStep _ c
    · exact R.raw_enterAfter _ c
  | slash =>
    simp only [step]
    split_ifs with h1 h2
    · subst h1
      rfl
    · subst h1
      rfl
    · exact R.raw_enterAfter _ c
  | opened =>
    simp only [step]
    split_ifs with h1
    · subst h1
      rfl
    · rfl
  | line => exact R.raw_lineStep [] c
  | block depth last =>
    simp only [step]
    split_ifs <;> rfl
  | quoted mark escapes =>
    simp only [step]
    split_ifs with h1 h2
    · subst h1
      rfl
    · rw [h2.2]
      rfl
    · rfl
  | slashed mark => rfl
  | closed mark escapes =>
    simp only [step]
    split_ifs with h1
    · subst h1
      rfl
    · exact R.raw_enterAfter _ c
  | tag text =>
    simp only [step]
    split_ifs with h1 h2
    · subst h1
      simp [LexEvent.raw, LexMode.held]
    · simp [LexMode.held]
    · -- what looked like a tag is none, and its characters are given out one by one
      rw [raw_enterAfter, raw_tagEvents]
      rfl
  | dollar tag tail =>
    simp only [step]
    split_ifs with h1 h2
    · subst h1
      rfl
    · rfl
    · rfl

theorem raw_flush (m : LexMode) : (flush m).flatMap LexEvent.raw = m.held := by
  cases m with
  | tag text => exact raw_tagEvents text
  | _ => rfl

/-- Along a run the events and the characters held back give the text. -/
theorem raw_emits (m : LexMode) (text : List Char) :
    (R.lexer.emits m text).flatMap LexEvent.raw ++ (R.lexer.reach m text).held = m.held ++ text := by
  induction text generalizing m with
  | nil => simp
  | cons c text ih =>
    rw [Scanner.emits_cons, Scanner.reach_cons, lexer_step, List.flatMap_append,
      List.append_assoc, ih, ← List.append_assoc, raw_step, List.append_assoc,
      List.singleton_append]

/-- **A text is the raw text of its events.** -/
theorem raw_lex (text : List Char) : (R.lex text).flatMap LexEvent.raw = text := by
  have h := R.raw_emits .start text
  rw [lex, Scanner.scan, List.flatMap_append, lexer_flush, raw_flush, h]
  rfl

/-- Texts with the same events are the same. -/
theorem lex_injective : Function.Injective R.lex := by
  intro s t h
  rw [← R.raw_lex s, h, R.raw_lex]

end LexRules

/-! ## Comments -/

/-- The text behind the opener of a block comment ends the comment with its last character. The two
first arguments are the nesting depth and the character read last. -/
def blockEnds (nested : Bool) : Nat → Option Char → List Char → Bool
  | _, _, [] => false
  | depth, last, c :: rest =>
    if nested ∧ last = some '/' ∧ c = '*' then blockEnds nested (depth + 1) none rest
    else if last = some '*' ∧ c = '/' then
      if depth = 0 then rest.isEmpty else blockEnds nested (depth - 1) none rest
    else blockEnds nested depth (some c) rest

end Workbench.Lib
