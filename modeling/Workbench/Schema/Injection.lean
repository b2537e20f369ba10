import Workbench.Lib.SqlLiterals
import Workbench.Schema.Operations

/-!
# One statement for each text, and the comments as given

The identifiers and types that the generator writes cannot leave their place. The default of a column
and, in MySQL, its comment are written as they are: the emitted texts are single statements with the
comments as given exactly when each default closes its own quotes and each backslash of a MySQL
comment stands in front of a wildcard (`injection_free_iff`).
-/

set_option autoImplicit false

namespace Workbench.Schema

open Workbench.Lib

/-! ## What is asked of a preview -/

/-- The last statement of an operation ends with a literal that reads back to its comment. -/
def CommentIntact (d : Dialect) (op : Operation) (statements : List Statement) : Prop :=
  ∀ c, emittedComment d op = some c →
    ∃ st, statements.getLast? = some st ∧ (d.rules.tokens st.sql).getLast? = some (.quoted '\'' c)

/-- Every emitted text is one statement, and the comment of every operation is read as given. -/
structure InjectionFree (d : Dialect) (schema table : Text) (ops : List Operation) (p : Preview) :
    Prop where
  one_statement : ∀ st ∈ p.statements, IsOneStatement d st.sql
  comments : ∀ op ∈ ops, ∀ name out, qualified d schema table = .ok name →
    generateOperation d name table op = .ok out → CommentIntact d op out.statements

/-- The default closes its own quotes and holds no semicolon and no opener of a comment outside them.
In MySQL a blank follows the default. -/
def DefaultCloses (d : Dialect) (c : Column) : Prop :=
  ∀ text, c.default = some text →
    match d with
    | .mysql => (Dialect.mysql.rules.tokens (text ++ [' '])).any SqlToken.harmful = false
    | .postgres => (Dialect.postgres.rules.tokens text).any SqlToken.harmful = false

/-- The default closes itself, and in MySQL each backslash of the comment stands in front of a
wildcard. -/
def WellQuoted (d : Dialect) (c : Column) : Prop :=
  DefaultCloses d c ∧ (d = .mysql → keepsSlashes false c.comment = true)

/-! ## The literal of a comment in MySQL -/

theorem harmful_append (d : Dialect) {words : Text} {tokens : List SqlToken}
    (h : d.rules.reader.Run start words tokens start)
    (hharm : tokens.any SqlToken.harmful = false) (rest : Text) :
    (d.rules.tokens (words ++ rest)).any SqlToken.harmful =
      (d.rules.tokens rest).any SqlToken.harmful := by
  have hscan : d.rules.tokens (words ++ rest) = tokens ++ d.rules.tokens rest := h.scan rest
  rw [hscan, List.any_append, hharm, Bool.false_or]

theorem run_default (d : Dialect) :
    d.rules.reader.Run start " DEFAULT ".toList [.word "DEFAULT".toList] start := by
  cases d <;> exact ⟨rfl, rfl⟩

theorem run_comment :
    Dialect.mysql.rules.reader.Run start "COMMENT ".toList [.word "COMMENT".toList] start :=
  ⟨rfl, rfl⟩

/-- The literal is read to its end when no escape takes a mark or the end. -/
theorem tokens_literal {comment value : Text}
    (h : slashDecode LexRules.mysqlUnescape '\'' false comment = some value) :
    Dialect.mysql.rules.tokens (sqlStringLiteral comment) = [.quoted '\'' value] := by
  have hopen : LexRules.mysql.reader.Run start ['\''] [] (.quoted '\'' true, .quoted '\'' []) :=
    LexRules.run_mark rfl rfl
  have hmark : '\'' ≠ '\\' := by decide
  have hbody := LexRules.run_slashDecode (R := LexRules.mysql) hmark h []
  have hclose := LexRules.run_close (R := LexRules.mysql) '\'' true value
  have hrun := (hopen.append (hbody.append hclose)).scan []
  rw [List.append_nil] at hrun
  rw [sqlStringLiteral_eq]
  exact hrun

theorem harmful_literal {comment : Text}
    (h : slashDecode LexRules.mysqlUnescape '\'' false comment = none) :
    (Dialect.mysql.rules.tokens (sqlStringLiteral comment)).any SqlToken.harmful = true := by
  have hscan := LexRules.harmful_of_slashDecode_eq_none h
  rw [LexRules.tokens, LexRules.any_harmful_reader, sqlStringLiteral_eq]
  refine (LexRules.harmful_scan_cons .start '\'' _).trans ?_
  rw [Bool.or_eq_true]
  exact Or.inr hscan

/-- Inside a quoted text that is not closed the literal comes out on the wrong side. -/
theorem harmful_behind_quote {mark : Char} (hmark : LexRules.mysql.isMark mark = true)
    (escapes : Bool) (comment : Text) :
    (LexRules.mysql.lexer.scan (.quoted mark escapes)
      ("COMMENT ".toList ++ sqlStringLiteral comment)).any LexEvent.harmful = true := by
  have hastray : LexRules.Astray '\''
      (LexRules.mysql.lexer.reach (.quoted mark escapes) "COMMENT '".toList) := by
    rcases LexRules.mysql_mark_cases hmark with rfl | rfl | rfl <;> cases escapes <;> exact ⟨rfl, rfl⟩
  have hsplit : "COMMENT ".toList ++ sqlStringLiteral comment =
      "COMMENT '".toList ++ (doubled '\'' comment ++ ['\'']) := rfl
  rw [hsplit, Scanner.scan_append, List.any_append, LexRules.harmful_of_astray hastray,
    Bool.or_true]

/-- **A literal behind a free text: the free text closes itself and the literal is read to its
end.** -/
theorem harmless_literal_iff (text comment : Text) :
    (Dialect.mysql.rules.tokens (text ++ " COMMENT ".toList ++ sqlStringLiteral comment)).any
        SqlToken.harmful = false ↔
      (Dialect.mysql.rules.tokens (text ++ [' '])).any SqlToken.harmful = false ∧
        (slashDecode LexRules.mysqlUnescape '\'' false comment).isSome = true := by
  have hsplit : text ++ " COMMENT ".toList ++ sqlStringLiteral comment =
      (text ++ [' ']) ++ ("COMMENT ".toList ++ sqlStringLiteral comment) := by
    have hblank : " COMMENT ".toList = [' '] ++ "COMMENT ".toList := rfl
    rw [hblank, List.append_assoc, List.append_assoc, List.append_assoc]
  have hliteral : (LexRules.mysql.lexer.scan .start
      ("COMMENT ".toList ++ sqlStringLiteral comment)).any LexEvent.harmful = false ↔
        (slashDecode LexRules.mysqlUnescape '\'' false comment).isSome = true := by
    have hread := harmful_append .mysql run_comment rfl (sqlStringLiteral comment)
    rw [LexRules.tokens, LexRules.any_harmful_reader] at hread
    cases hdecode : slashDecode LexRules.mysqlUnescape '\'' false comment with
    | none =>
      rw [harmful_literal hdecode] at hread
      exact ⟨fun h => absurd (hread.symm.trans h) (by decide), fun h => absurd h (by decide)⟩
    | some value =>
      rw [tokens_literal hdecode] at hread
      exact ⟨fun _ => rfl, fun _ => hread⟩
  have hwhole : (Dialect.mysql.rules.tokens ((text ++ [' ']) ++
      ("COMMENT ".toList ++ sqlStringLiteral comment))).any SqlToken.harmful =
      ((LexRules.mysql.lexer.emits .start (text ++ [' '])).any LexEvent.harmful ||
        (LexRules.mysql.lexer.scan (LexRules.mysql.lexer.reach .start (text ++ [' ']))
          ("COMMENT ".toList ++ sqlStringLiteral comment)).any LexEvent.harmful) := by
    rw [LexRules.tokens, LexRules.any_harmful_reader, ← List.any_append, ← Scanner.scan_append]
    rfl
  have hfront : (Dialect.mysql.rules.tokens (text ++ [' '])).any SqlToken.harmful =
      ((LexRules.mysql.lexer.emits .start (text ++ [' '])).any LexEvent.harmful ||
        (LexRules.flush (LexRules.mysql.lexer.reach .start (text ++ [' ']))).any
          LexEvent.harmful) := by
    rw [LexRules.tokens, LexRules.any_harmful_reader, ← List.any_append]
    rfl
  rw [hsplit, hwhole, hfront, ← hliteral]
  rcases LexRules.mysql_reach_blank text with hharm | hstart | ⟨mark, escapes, hquoted, hmark⟩
  · rw [hharm, Bool.true_or, Bool.true_or]
    exact ⟨fun h => absurd h (by decide), fun h => absurd h.1 (by decide)⟩
  · have hflush : (LexRules.flush .start).any LexEvent.harmful = false := rfl
    rw [hstart, hflush, Bool.or_false, Bool.or_eq_false_iff]
  · have hflush : (LexRules.flush (.quoted mark escapes)).any LexEvent.harmful = true := rfl
    rw [hquoted, harmful_behind_quote hmark, hflush, Bool.or_true]
    exact ⟨fun h => absurd h (by decide), fun h => absurd h.1 (by decide)⟩

/-! ## The free text -/

theorem freeHarmless_postgres (c : Column) :
    FreeHarmless .postgres c ↔ DefaultCloses .postgres c := by
  unfold FreeHarmless DefaultCloses freeText
  cases c.default with
  | none => exact ⟨fun _ text h => absurd h (by simp), fun _ => rfl⟩
  | some text =>
    dsimp only
    rw [List.append_nil, harmful_append .postgres (run_default .postgres) rfl]
    exact ⟨fun h text' htext => by rw [← Option.some.inj htext]; exact h, fun h => h text rfl⟩

theorem freeHarmless_mysql (c : Column) :
    FreeHarmless .mysql c ↔ DefaultCloses .mysql c ∧
      (slashDecode LexRules.mysqlUnescape '\'' false c.comment).isSome = true := by
  unfold FreeHarmless DefaultCloses freeText
  cases c.default with
  | none =>
    dsimp only
    have hiff := harmless_literal_iff [] c.comment
    rw [List.nil_append] at hiff
    refine hiff.trans ⟨fun h => ⟨fun text htext => absurd htext (by simp), h.2⟩,
      fun h => ⟨rfl, h.2⟩⟩
  | some text =>
    dsimp only
    have hiff := harmless_literal_iff text c.comment
    rw [List.append_assoc] at hiff
    rw [List.append_assoc, harmful_append .mysql (run_default .mysql) rfl]
    refine hiff.trans ⟨fun h => ⟨fun text' htext => ?_, h.2⟩, fun h => ⟨h.1 text rfl, h.2⟩⟩
    rw [← Option.some.inj htext]
    exact h.1

/-- Behind a default that closes itself the lexer is outside everything. -/
theorem reach_closed {text : Text}
    (h : (Dialect.mysql.rules.tokens (text ++ [' '])).any SqlToken.harmful = false) :
    LexRules.mysql.lexer.reach .start (text ++ [' ']) = .start := by
  rw [LexRules.tokens, LexRules.any_harmful_reader] at h
  have hscan : (LexRules.mysql.lexer.emits .start (text ++ [' '])).any LexEvent.harmful = false ∧
      (LexRules.flush (LexRules.mysql.lexer.reach .start (text ++ [' ']))).any
        LexEvent.harmful = false := by
    rw [← Bool.or_eq_false_iff, ← List.any_append]
    exact h
  rcases LexRules.mysql_reach_blank text with hharm | hstart | ⟨mark, escapes, hquoted, -⟩
  · exact absurd (hharm.symm.trans hscan.1) (by decide)
  · exact hstart
  · rw [hquoted] at hscan
    exact absurd hscan.2 (by simp [LexRules.flush, LexEvent.harmful])

/-- A text that ends with the literal of a comment, from outside everything. -/
theorem getLast?_literal {ts : TokenState} {comment value : Text}
    (h : slashDecode LexRules.mysqlUnescape '\'' false comment = some value)
    {front : Text} {tokens : List SqlToken}
    (hfront : Dialect.mysql.rules.reader.Run start front tokens (.start, ts)) :
    (Dialect.mysql.rules.tokens (front ++ ("COMMENT ".toList ++ sqlStringLiteral comment))).getLast? =
      some (.quoted '\'' value) := by
  have hword : Dialect.mysql.rules.reader.Run (.start, ts) "COMMENT ".toList
      (ts.pending ++ [.word "COMMENT".toList]) start := by
    cases ts <;> exact ⟨rfl, rfl⟩
  have hscan : Dialect.mysql.rules.tokens
      (front ++ ("COMMENT ".toList ++ sqlStringLiteral comment)) =
        tokens ++ ((ts.pending ++ [.word "COMMENT".toList]) ++ [.quoted '\'' value]) := by
    rw [LexRules.tokens]
    refine (hfront.scan _).trans (congrArg (tokens ++ ·) ?_)
    refine (hword.scan _).trans (congrArg _ ?_)
    exact tokens_literal h
  rw [hscan, ← List.append_assoc, List.getLast?_append]
  rfl

/-- In MySQL the free text ends with the comment as it is read. -/
theorem getLast?_freeText {c : Column} (h : DefaultCloses .mysql c) {value : Text}
    (hvalue : slashDecode LexRules.mysqlUnescape '\'' false c.comment = some value) :
    (Dialect.mysql.rules.tokens (freeText .mysql c)).getLast? = some (.quoted '\'' value) := by
  have hblank : " COMMENT ".toList ++ sqlStringLiteral c.comment =
      [' '] ++ ("COMMENT ".toList ++ sqlStringLiteral c.comment) := rfl
  unfold DefaultCloses at h
  unfold freeText
  cases hdefault : c.default with
  | none =>
    dsimp only
    rw [List.nil_append, hblank]
    exact getLast?_literal hvalue (run_blank calm_start)
  | some text =>
    dsimp only
    have hreach := reach_closed (h text hdefault)
    have htext : Dialect.mysql.rules.reader.reach start (text ++ [' ']) =
        (.start, (Dialect.mysql.rules.reader.reach start (text ++ [' '])).2) := by
      have hpipe := Scanner.reach_pipe LexRules.mysql.lexer tokenizer .start .idle (text ++ [' '])
      have hmode := congrArg Prod.fst hpipe
      exact Prod.ext (hmode.trans hreach) rfl
    have hrun := (run_default .mysql).append
      (⟨htext, rfl⟩ : Dialect.mysql.rules.reader.Run start (text ++ [' ']) _ _)
    have hsplit : " DEFAULT ".toList ++ text ++ (" COMMENT ".toList ++ sqlStringLiteral c.comment) =
        (" DEFAULT ".toList ++ (text ++ [' '])) ++
          ("COMMENT ".toList ++ sqlStringLiteral c.comment) := by
      rw [hblank, List.append_assoc, List.append_assoc, List.append_assoc]
    rw [hsplit]
    exact getLast?_literal hvalue hrun

/-! ## One operation -/

/-- A column definition in MySQL: the default closes itself and the comment is read as given. -/
theorem defines_mysql_iff {sql : Text} {c : Column} (h : Defines .mysql sql c) :
    (IsOneStatement .mysql sql ∧
        (Dialect.mysql.rules.tokens sql).getLast? = some (.quoted '\'' c.comment)) ↔
      WellQuoted .mysql c := by
  rw [h.one_iff, freeHarmless_mysql, WellQuoted]
  have hlast {value : Text} (hdefault : DefaultCloses .mysql c)
      (hvalue : slashDecode LexRules.mysqlUnescape '\'' false c.comment = some value) :
      (Dialect.mysql.rules.tokens sql).getLast? = some (.quoted '\'' value) := by
    have hfree := getLast?_freeText hdefault hvalue
    rw [← hfree]
    apply h.getLast?
    intro hnil
    rw [hnil] at hfree
    exact absurd hfree (by simp)
  constructor
  · rintro ⟨⟨hdefault, hsome⟩, hcomment⟩
    refine ⟨hdefault, fun _ => ?_⟩
    obtain ⟨value, hvalue⟩ := Option.isSome_iff_exists.1 hsome
    rw [hlast hdefault hvalue] at hcomment
    have heq : value = c.comment := by simpa using hcomment
    rw [← LexRules.slashDecode_eq_self_iff, hvalue, heq]
  · rintro ⟨hdefault, hkeeps⟩
    have hvalue := (LexRules.slashDecode_eq_self_iff c.comment).2 (hkeeps rfl)
    exact ⟨⟨hdefault, by rw [hvalue]; rfl⟩, hlast hdefault hvalue⟩

theorem defines_postgres_iff {sql : Text} {c : Column} (h : Defines .postgres sql c) :
    IsOneStatement .postgres sql ↔ WellQuoted .postgres c := by
  rw [h.one_iff, freeHarmless_postgres, WellQuoted]
  exact ⟨fun hdefault => ⟨hdefault, fun hd => absurd hd (by decide)⟩, fun hwell => hwell.1⟩

/-- An operation is free of injections exactly when its column definition, if it writes one, is well
quoted. -/
theorem OutputForm.injection_iff {d : Dialect} {op : Operation} {statements : List Statement}
    (h : OutputForm d op statements) :
    ((∀ st ∈ statements, IsOneStatement d st.sql) ∧ CommentIntact d op statements) ↔
      (writesDefinition d op = true → WellQuoted d op.column) := by
  cases h with
  -- no definition is written, so that both sides hold
  | fixed hdefinition hcomment hprimary hfixed =>
    constructor
    · intro _ hwrites
      exact absurd (hdefinition.symm.trans hwrites) (by decide)
    · intro _
      refine ⟨fun st hst => (hfixed st hst).one_statement, fun c hc => ?_⟩
      exact absurd (hcomment.symm.trans hc) (by simp)
  | primary hdefinition hcomment hprimary hfixed =>
    constructor
    · intro _ hwrites
      exact absurd (hdefinition.symm.trans hwrites) (by decide)
    · intro _
      refine ⟨fun st hst => ?_, fun c hc => absurd (hcomment.symm.trans hc) (by simp)⟩
      rw [List.mem_singleton.1 hst]
      exact hfixed.one_statement
  | comment hdefinition hcomment hprimary hfixed hlast =>
    constructor
    · intro _ hwrites
      exact absurd (hdefinition.symm.trans hwrites) (by decide)
    · intro _
      refine ⟨fun st hst => ?_, fun c hc => ⟨_, rfl, ?_⟩⟩
      · rw [List.mem_singleton.1 hst]
        exact hfixed.one_statement
      · rw [← Option.some.inj (hcomment.symm.trans hc)]
        exact hlast
  -- MySQL writes the comment into the definition, PostgreSQL none
  | definition hdefinition hcomment hprimary hdefines =>
    rw [hdefinition]
    simp only [List.forall_mem_singleton, forall_const]
    cases d with
    | mysql =>
      rw [if_pos rfl] at hcomment
      rw [← defines_mysql_iff hdefines]
      apply and_congr_right
      intro _
      constructor
      · intro hintact
        obtain ⟨st, hst, hlast⟩ := hintact _ hcomment
        rw [← Option.some.inj hst] at hlast
        exact hlast
      · intro hlast c hc
        refine ⟨_, rfl, ?_⟩
        rw [← Option.some.inj (hcomment.symm.trans hc)]
        exact hlast
    | postgres =>
      rw [if_neg (by decide)] at hcomment
      rw [← defines_postgres_iff hdefines]
      refine ⟨fun hone => hone.1, fun hone => ⟨hone, fun c hc => ?_⟩⟩
      exact absurd (hcomment.symm.trans hc) (by simp)
  -- PostgreSQL writes the comment as a statement of its own
  | definitionAndComment hd hdefinition hcomment hprimary hdefines hfixed hlast =>
    subst hd
    rw [hdefinition]
    simp only [forall_const]
    rw [← defines_postgres_iff hdefines]
    constructor
    · rintro ⟨hone, -⟩
      exact hone _ List.mem_cons_self
    · intro hone
      refine ⟨fun st hst => ?_, fun c hc => ⟨_, rfl, ?_⟩⟩
      · rcases List.mem_cons.1 hst with rfl | hst
        · exact hone
        · rw [List.mem_singleton.1 hst]
          exact hfixed.one_statement
      · rw [← Option.some.inj (hcomment.symm.trans hc)]
        exact hlast

/-! ## Whole requests -/

/-- A property of the statements and one of each operation, put together over a request. -/
theorem forall₂_statements {R : Operation → Output → Prop} {Q : Statement → Prop}
    {C : Operation → Output → Prop} {W : Operation → Prop}
    (hfun : ∀ op a b, R op a → R op b → a = b)
    (hone : ∀ op out, R op out → (((∀ st ∈ out.statements, Q st) ∧ C op out) ↔ W op))
    {ops : List Operation} {outs : List Output} (h : List.Forall₂ R ops outs) :
    ((∀ st ∈ outs.flatMap Output.statements, Q st) ∧
        (∀ op ∈ ops, ∀ out, R op out → C op out)) ↔ ∀ op ∈ ops, W op := by
  induction h with
  | nil => simp
  | @cons op out rest outs hhead _ ih =>
    rw [List.flatMap_cons, List.forall_mem_append, List.forall_mem_cons, List.forall_mem_cons,
      ← ih, ← hone op out hhead]
    constructor
    · rintro ⟨⟨hq, hqs⟩, hc, hcs⟩
      exact ⟨⟨hq, hc out hhead⟩, hqs, hcs⟩
    · rintro ⟨⟨hq, hc⟩, hqs, hcs⟩
      refine ⟨⟨hq, hqs⟩, fun o ho => ?_, hcs⟩
      rw [hfun op o out ho hhead]
      exact hc

/-- **The emitted texts are single statements with the comments as given exactly when every column
definition is well quoted.** -/
theorem injection_free_iff {d : Dialect} {schema table : Text} {ops : List Operation} {p : Preview}
    (h : generate d.name schema table ops = .ok p) :
    InjectionFree d schema table ops p ↔
      ∀ op ∈ ops, writesDefinition d op = true → WellQuoted d op.column := by
  obtain ⟨hs, ht, outs, hall, hstatements, -⟩ := generate_ok h
  have hname : qualified d schema table = .ok (namedTable d schema table) := by
    simp only [qualified, quote_of_valid hs, quote_of_valid ht]
    rfl
  have hrequest := forall₂_statements (Q := fun st => IsOneStatement d st.sql)
    (C := fun op out => CommentIntact d op out.statements)
    (fun op a b ha hb => Except.ok.inj (ha.symm.trans hb))
    (fun op out hout => (generateOperation_form hs ht hout).injection_iff) hall
  rw [← hrequest, ← hstatements]
  constructor
  · rintro ⟨hone, hcomments⟩
    exact ⟨hone, fun op hop out hout => hcomments op hop _ out hname hout⟩
  · rintro ⟨hone, hcomments⟩
    refine ⟨hone, fun op hop name out hqualified hout => ?_⟩
    rw [← Except.ok.inj (hname.symm.trans hqualified)] at hout
    exact hcomments op hop out hout

/-- A default that PostgreSQL reads as a statement of its own: only `columnDef` looks for a
semicolon, and `alter_column` does not call it there. -/
theorem alter_column_default_injects :
    ¬ ∀ (d : Dialect) (schema table : Text) (ops : List Operation) (p : Preview),
      generate d.name schema table ops = .ok p → InjectionFree d schema table ops p := by
  intro hclaim
  let op : Operation := { (default : Operation) with
    kind := "alter_column".toList
    column := { (default : Column) with
      name := "age".toList, type := "int".toList, nullable := true,
      default := some "0; DROP TABLE users".toList } }
  let sql : Text := ("ALTER TABLE \"public\".\"users\" ALTER COLUMN \"age\" TYPE INT, " ++
    "ALTER COLUMN \"age\" DROP NOT NULL, " ++
    "ALTER COLUMN \"age\" SET DEFAULT 0; DROP TABLE users").toList
  have hgenerate : (generate Dialect.postgres.name "public".toList "users".toList [op]).toOption.map
      Preview.statements = some [⟨sql, false⟩] := by decide +kernel
  cases hp : generate Dialect.postgres.name "public".toList "users".toList [op] with
  | error e =>
    rw [hp] at hgenerate
    exact absurd hgenerate (by simp [Except.toOption])
  | ok p =>
    rw [hp] at hgenerate
    have hstatements : p.statements = [⟨sql, false⟩] := by simpa [Except.toOption] using hgenerate
    have hfree := hclaim .postgres _ _ [op] p hp
    have hone := (hfree.one_statement ⟨sql, false⟩ (by rw [hstatements]; simp)).2
    exact absurd hone (by decide +kernel)

/-- The commented column of the generator's own test is well quoted. -/
theorem injection_free_iff_note :
    ∃ p, generate Dialect.mysql.name "app".toList "articles".toList
        [{ (default : Operation) with
            kind := "add_column".toList
            column := { (default : Column) with
              name := "note".toList, type := "varchar(50)".toList, nullable := true,
              comment := "备注".toList } }] = .ok p ∧
      InjectionFree .mysql "app".toList "articles".toList
        [{ (default : Operation) with
            kind := "add_column".toList
            column := { (default : Column) with
              name := "note".toList, type := "varchar(50)".toList, nullable := true,
              comment := "备注".toList } }] p := by
  refine ⟨_, rfl, (injection_free_iff rfl).2 ?_⟩
  intro op hop _
  rw [List.mem_singleton.1 hop]
  refine ⟨fun text htext => ?_, fun _ => by decide +kernel⟩
  have hnone : (none : Option Text) = some text := htext
  exact absurd hnone (by simp)

end Workbench.Schema
