import Workbench.Schema.Reading

/-!
# The tokens of the clauses of a statement

A text is read whole when a blank behind it ends its last token and leaves nothing open: the tokens of
such texts with blanks between them are the tokens of each. Names, types, the fixed words and string
literals are read whole; the default of a column, which is free text, need not be.
-/

set_option autoImplicit false

namespace Workbench.Schema

open Workbench.Lib

variable {d : Dialect}

/-- A blank behind the text ends its last token and leaves nothing open. -/
def Whole (d : Dialect) (text : Text) : Prop :=
  d.rules.reader.step (d.rules.reader.reach start text) ' ' =
    (start, d.rules.reader.flush (d.rules.reader.reach start text))

instance (d : Dialect) (text : Text) : Decidable (Whole d text) :=
  inferInstanceAs (Decidable (_ = _))

theorem Whole.run {text : Text} (h : Whole d text) :
    d.rules.reader.Run start (text ++ [' ']) (d.rules.tokens text) start := by
  have hblank : d.rules.reader.Run (d.rules.reader.reach start text) [' ']
      (d.rules.reader.flush (d.rules.reader.reach start text)) start := Scanner.Run.of_step h
  exact (d.rules.reader.run_reach start text).append hblank

/-- **The tokens of a text that is read whole and of the text behind the blank.** -/
theorem Whole.tokens {text : Text} (h : Whole d text) (rest : Text) :
    d.rules.tokens (text ++ ' ' :: rest) = d.rules.tokens text ++ d.rules.tokens rest := by
  rw [← List.singleton_append, ← List.append_assoc]
  exact h.run.scan rest

/-- The blank in front of a text is no part of it. -/
theorem tokens_blank (text : Text) : d.rules.tokens (' ' :: text) = d.rules.tokens text := by
  have hblank := (run_blank (d := d) calm_start).scan text
  exact hblank

theorem flush_calm {s : ReadState} (h : Calm s) : d.rules.reader.flush s = s.2.pending := by
  obtain ⟨m, ts⟩ := s
  rcases h with hm | ⟨escapePrefix, hm⟩
  · simp only at hm
    rw [hm]
    rfl
  · simp only at hm
    rw [hm]
    rfl

/-- Outside everything a text is read whole. -/
theorem whole_of_calm {text : Text} (h : Calm (d.rules.reader.reach start text)) : Whole d text := by
  obtain ⟨hreach, hemits⟩ := run_blank (d := d) h
  rw [Scanner.emits_cons, Scanner.emits_nil, List.append_nil] at hemits
  rw [Whole, flush_calm h]
  exact Prod.ext hreach hemits

/-- A fixed word and the blank behind it. -/
theorem word_blank {word front : Text} (h : word = front ++ [' ']) (rest : Text) :
    word ++ rest = front ++ ' ' :: rest := by
  rw [h, List.append_assoc, List.singleton_append]

theorem alterTable_eq (table : Text) (action : List Text) :
    alterTable table action = "ALTER TABLE".toList ++ ' ' :: (table ++ ' ' :: action.flatten) :=
  word_blank (by decide +kernel) _

/-! ## Quoted texts -/

/-- The state behind a quoted text. -/
theorem Whole.of_quoted {text value : Text} {mark : Char} {escapes : Bool}
    (h : d.rules.reader.reach start text = (.closed mark escapes, .quoted mark value))
    (hmark : mark ≠ ' ') : Whole d text := by
  have hclosed : d.rules.step (.closed mark escapes) ' ' = (.start, [.closeQuote mark, .blank ' ']) := by
    rw [LexRules.step, if_neg (Ne.symm hmark)]
    cases d <;> rfl
  have htoken : tokenizer.Run (.quoted mark value) [.closeQuote mark, .blank ' '] [.quoted mark value]
      .idle := ⟨rfl, rfl⟩
  have hrun : d.rules.reader.Run (.closed mark escapes, .quoted mark value) [' '] [.quoted mark value]
      start := (LexRules.run_step hclosed).pipe htoken
  rw [Whole, h]
  obtain ⟨hreach, hemits⟩ := hrun
  rw [Scanner.emits_cons, Scanner.emits_nil, List.append_nil] at hemits
  exact Prod.ext hreach hemits

theorem tokens_of_quoted {text value : Text} {mark : Char} {escapes : Bool}
    (h : d.rules.reader.Run start text [] (.closed mark escapes, .quoted mark value)) :
    d.rules.tokens text = [.quoted mark value] := by
  have hscan := h.scan []
  rw [List.append_nil] at hscan
  exact hscan

theorem nameMark_ne_blank (d : Dialect) : nameMark d ≠ ' ' := by
  cases d
  · decide
  · decide

theorem whole_named {name : Text} (h : ValidName name) : Whole d (named d name) :=
  Whole.of_quoted (run_named h).1 (nameMark_ne_blank d)

theorem tokens_named {name : Text} (h : ValidName name) :
    d.rules.tokens (named d name) = [.quoted (nameMark d) name] :=
  tokens_of_quoted (run_named h)

/-- A name, the dot and what is behind it. -/
theorem run_qualifier {name : Text} (h : ValidName name) :
    d.rules.reader.Run start (named d name ++ ['.']) [.quoted (nameMark d) name, .symbol '.'] start := by
  have hdot : d.rules.reader.Run (behindName d name) ['.'] [.quoted (nameMark d) name, .symbol '.']
      start := by
    cases d
    · exact ⟨rfl, rfl⟩
    · exact ⟨rfl, rfl⟩
  exact (run_named h).append hdot

theorem tokens_qualifier {name : Text} (h : ValidName name) (rest : Text) :
    d.rules.tokens (named d name ++ '.' :: rest) =
      .quoted (nameMark d) name :: .symbol '.' :: d.rules.tokens rest := by
  rw [← List.singleton_append, ← List.append_assoc]
  exact (run_qualifier h).scan rest

theorem whole_qualifier {name rest : Text} (h : ValidName name) (hrest : Whole d rest) :
    Whole d (named d name ++ '.' :: rest) := by
  have hreach : d.rules.reader.reach start (named d name ++ '.' :: rest) =
      d.rules.reader.reach start rest := by
    rw [← List.singleton_append, ← List.append_assoc]
    exact (run_qualifier h).reach_append rest
  unfold Whole at hrest ⊢
  rw [hreach, hrest]

theorem whole_namedTable {schema table : Text} (hs : ValidName schema) (ht : ValidName table) :
    Whole d (namedTable d schema table) := whole_qualifier hs (whole_named ht)

theorem tokens_namedTable {schema table : Text} (hs : ValidName schema) (ht : ValidName table) :
    d.rules.tokens (namedTable d schema table) =
      [.quoted (nameMark d) schema, .symbol '.', .quoted (nameMark d) table] := by
  rw [namedTable, tokens_qualifier hs, tokens_named ht]

/-! ## Types and literals -/

theorem calm_type {type : Text} (h : ValidType type) :
    Calm (d.rules.reader.reach start (toUpper type)) := by
  obtain ⟨s, hs, tokens, hrun, -, -⟩ := readsCalmly_type d h start calm_start
  rw [hrun.1]
  exact hs

theorem whole_type {type : Text} (h : ValidType type) : Whole d (toUpper type) :=
  whole_of_calm (calm_type h)

/-- A comma behind a text that leaves nothing open. -/
theorem tokens_comma {text : Text} (h : Calm (d.rules.reader.reach start text)) (rest : Text) :
    d.rules.tokens (text ++ ',' :: rest) =
      d.rules.tokens text ++ .symbol ',' :: d.rules.tokens rest := by
  have hcomma := run_symbol (d := d) h (c := ',') (by decide)
  have hrun := (d.rules.reader.run_reach start text).append hcomma
  rw [← List.singleton_append, ← List.append_assoc]
  refine (hrun.scan rest).trans ?_
  have htokens : d.rules.tokens text =
      d.rules.reader.emits start text ++ (d.rules.reader.reach start text).2.pending := by
    rw [← flush_calm h]
    rfl
  rw [htokens]
  simp only [List.append_assoc, List.singleton_append]
  rfl

/-- In PostgreSQL a string literal is read back as it was. -/
theorem tokens_literal_postgres (value : Text) :
    Dialect.postgres.rules.tokens (sqlStringLiteral value) = [.quoted '\'' value] := by
  rw [sqlStringLiteral_eq]
  exact tokens_of_quoted (d := .postgres) (LexRules.run_quoted rfl rfl rfl value)

/-- What MySQL reads in a string literal; `none` when a backslash takes one of its marks. -/
def decoded (value : Text) : Option Text := slashDecode LexRules.mysqlUnescape '\'' false value

theorem tokens_literal_mysql {value out : Text} (h : decoded value = some out) :
    Dialect.mysql.rules.tokens (sqlStringLiteral value) = [.quoted '\'' out] := by
  have hopen : LexRules.mysql.reader.Run start ['\''] [] (.quoted '\'' true, .quoted '\'' []) :=
    LexRules.run_mark rfl rfl
  have hbody := LexRules.run_slashDecode (R := LexRules.mysql) (by decide) h []
  have hclose := LexRules.run_close (R := LexRules.mysql) '\'' true out
  rw [sqlStringLiteral_eq]
  exact tokens_of_quoted (d := .mysql) (hopen.append (hbody.append hclose))

end Workbench.Schema
