import Workbench.Schema.Attributes

/-!
# When the other attributes are kept

The statements that the generator writes for an edit, what the servers read in them, and the exact
condition under which they leave the other attributes of the column alone.
-/

set_option autoImplicit false

namespace Workbench.Schema

open Workbench.Lib

/-! ## MySQL -/

namespace MySQL

/-- The checks of `columnDef` and of the names in front of it. -/
structure Accepted (schema table : Text) (c : Column) : Prop where
  schema : ValidName schema
  table : ValidName table
  name : ValidName c.name
  type : ValidType c.type
  default : ∀ text, c.default = some text → hasForbidden text = false
  comment : hasForbidden c.comment = false

/-- The statement that writes a column again. -/
def modifyText (schema table : Text) (c : Column) : Text :=
  alterTable (namedTable .mysql schema table)
    ["MODIFY COLUMN ".toList, definitionHead .mysql c ++ freeText .mysql c]

theorem columnDef_of_accepted {schema table : Text} {c : Column} (h : Accepted schema table c) :
    columnDef .mysql c = .ok (definitionHead .mysql c ++ freeText .mysql c) := by
  have htype : Matcher.fullMatch typeRE c.type = true := h.type
  have hcomment := h.comment
  rw [columnDef, quote_of_valid h.name]
  cases hdefault : c.default with
  | none =>
    cases hnull : c.nullable <;>
      simp [bind, Except.bind, htype, hcomment, definitionHead, nullText, freeText, hdefault, hnull]
  | some text =>
    have htext := h.default text hdefault
    cases hnull : c.nullable <;>
      simp [bind, Except.bind, htype, htext, hcomment, definitionHead, nullText, freeText, hdefault,
        hnull]

theorem clean_of_columnDef {c : Column} {v : Text} (h : columnDef .mysql c = .ok v) :
    (∀ text, c.default = some text → hasForbidden text = false) ∧ hasForbidden c.comment = false := by
  simp only [columnDef, bind_eq_ok, guard_eq_ok] at h
  obtain ⟨n, -, -, hv⟩ := h
  cases hdefault : c.default with
  | none =>
    rw [hdefault] at hv
    have hcomment := (guard_eq_ok.1 hv).1
    exact ⟨by simp, by simpa using hcomment⟩
  | some text =>
    rw [hdefault] at hv
    dsimp only at hv
    by_cases hforbidden : hasForbidden text = true
    · rw [if_pos hforbidden] at hv
      exact absurd hv (by simp [bind, Except.bind])
    · rw [if_neg hforbidden] at hv
      refine ⟨fun other hother => ?_, ?_⟩
      · cases hother
        simpa using hforbidden
      · have hcomment := (guard_eq_ok.1 hv).1
        simpa using hcomment

/-- Both edits write the column again. -/
theorem generateOperation_edit {schema table : Text} (c : Column) (edit : Edit) {out : Output} :
    generateOperation .mysql (namedTable .mysql schema table) table (edit.operation c) = .ok out →
      ∃ v, columnDef .mysql (edit.column c) = .ok v ∧
        out.statements = [⟨alterTable (namedTable .mysql schema table) ["MODIFY COLUMN ".toList, v],
          false⟩] := by
  intro h
  cases edit with
  | comment text =>
    have hcomment : setColumnComment .mysql (namedTable .mysql schema table)
        (Edit.column c (.comment text)) = .ok out := h
    simp only [setColumnComment, bind_eq_ok] at hcomment
    obtain ⟨n, -, v, hv, hout⟩ := hcomment
    cases hout
    exact ⟨v, hv, rfl⟩
  | nullable value =>
    have halter : alterColumn .mysql (namedTable .mysql schema table)
        (Edit.column c (.nullable value)) = .ok out := h
    simp only [alterColumn, bind_eq_ok, guard_eq_ok] at halter
    obtain ⟨n, -, -, v, hv, sql, hsql, hout⟩ := halter
    cases hout
    cases hsql
    exact ⟨v, hv, rfl⟩

/-- **An accepted edit is one statement.** -/
theorem generate_edit {schema table : Text} {c : Column} {edit : Edit} {p : Preview}
    (h : generate Dialect.mysql.name schema table [edit.operation c] = .ok p) :
    Accepted schema table (edit.column c) ∧
      p.statements = [⟨modifyText schema table (edit.column c), false⟩] := by
  obtain ⟨hschema, htable, out, hop, hstatements⟩ := generate_one_ok h
  obtain ⟨v, hv, hout⟩ := generateOperation_edit c edit hop
  obtain ⟨hname, htype, rfl⟩ := columnDef_ok hv
  obtain ⟨hdefault, hcomment⟩ := clean_of_columnDef hv
  refine ⟨⟨hschema, htable, hname, htype, hdefault, hcomment⟩, ?_⟩
  rw [hstatements, hout]
  rfl

theorem exists_generate {schema table : Text} {c : Column} {edit : Edit}
    (h : Accepted schema table (edit.column c)) :
    ∃ p, generate Dialect.mysql.name schema table [edit.operation c] = .ok p := by
  have hdefinition := columnDef_of_accepted h
  have hop : ∃ out, generateOperation .mysql (namedTable .mysql schema table) table
      (edit.operation c) = .ok out := by
    cases edit with
    | comment text =>
      show ∃ out, setColumnComment .mysql _ (Edit.column c (.comment text)) = .ok out
      rw [setColumnComment, quote_of_valid h.name]
      simp only [hdefinition]
      exact ⟨_, rfl⟩
    | nullable value =>
      have htype : Matcher.fullMatch typeRE (Edit.column c (.nullable value)).type = true := h.type
      show ∃ out, alterColumn .mysql _ (Edit.column c (.nullable value)) = .ok out
      rw [alterColumn, quote_of_valid h.name]
      simp only [hdefinition, htype]
      exact ⟨_, rfl⟩
  obtain ⟨out, hout⟩ := hop
  exact exists_generate_one h.schema h.table hout

/-! ### What the server reads -/

def nullTokens (c : Column) : List SqlToken :=
  if c.nullable then [] else [.word "NOT".toList, .word "NULL".toList]

/-- The tokens of a definition behind its type. -/
def tailTokens (c : Column) : List SqlToken := nullTokens c ++ LexRules.mysql.tokens (freeText .mysql c)

/-- The free text starts with the keyword of one of its two clauses. -/
theorem tokens_freeText (c : Column) :
    LexRules.mysql.tokens (freeText .mysql c) =
      match c.default with
      | none => .word "COMMENT".toList :: LexRules.mysql.tokens (sqlStringLiteral c.comment)
      | some text => .word "DEFAULT".toList ::
          LexRules.mysql.tokens (text ++ (" COMMENT ".toList ++ sqlStringLiteral c.comment)) := by
  have hcomment : Whole .mysql "COMMENT".toList := by decide +kernel
  have hdefaultWord : Whole .mysql "DEFAULT".toList := by decide +kernel
  cases hdefault : c.default with
  | none =>
    have htext : freeText .mysql c =
        ' ' :: ("COMMENT".toList ++ ' ' :: sqlStringLiteral c.comment) := by
      rw [freeText, hdefault]
      rfl
    rw [htext]
    exact (tokens_blank (d := .mysql) _).trans (hcomment.tokens _)
  | some text =>
    have htext : freeText .mysql c = ' ' :: ("DEFAULT".toList ++ ' ' ::
        (text ++ (" COMMENT ".toList ++ sqlStringLiteral c.comment))) := by
      rw [freeText, hdefault]
      simp
    rw [htext]
    exact (tokens_blank (d := .mysql) _).trans (hdefaultWord.tokens _)

theorem tailTokens_eq_cons (c : Column) :
    ∃ w rest, tailTokens c = .word w :: rest ∧ startsAttributes w := by
  rw [tailTokens, nullTokens]
  split_ifs
  · rw [tokens_freeText]
    cases c.default with
    | none => exact ⟨_, _, rfl, Or.inr (Or.inr rfl)⟩
    | some text => exact ⟨_, _, rfl, Or.inr (Or.inl rfl)⟩
  · exact ⟨_, _, rfl, Or.inl rfl⟩

/-- The tokens of the definition behind the name. -/
theorem tokens_definition {c : Column} (htype : ValidType c.type) :
    LexRules.mysql.tokens (toUpper c.type ++ (nullText c ++ freeText .mysql c)) =
      LexRules.mysql.tokens (toUpper c.type) ++ tailTokens c := by
  have hwhole : Whole .mysql (toUpper c.type) := whole_type htype
  have hnull : Whole .mysql "NOT NULL".toList := by decide +kernel
  obtain ⟨rest, hrest⟩ : ∃ rest, freeText .mysql c = ' ' :: rest := by
    rcases freeText_cases .mysql c with hnil | hcons
    · cases hdefault : c.default <;> simp [freeText, hdefault] at hnil
    · exact hcons
  have hblank : LexRules.mysql.tokens (' ' :: rest) = LexRules.mysql.tokens rest :=
    tokens_blank (d := .mysql) rest
  rw [tailTokens, nullTokens, nullText, hrest]
  split_ifs
  · exact (hwhole.tokens rest).trans (by rw [List.nil_append, hblank]; rfl)
  · have htext : toUpper c.type ++ (" NOT NULL".toList ++ ' ' :: rest) =
        toUpper c.type ++ ' ' :: ("NOT NULL".toList ++ ' ' :: rest) := rfl
    rw [htext]
    refine (hwhole.tokens _).trans ?_
    apply congrArg
    rw [hblank]
    exact hnull.tokens rest

theorem modifyText_eq (schema table : Text) (c : Column) :
    modifyText schema table c = "ALTER TABLE".toList ++ ' ' ::
      (namedTable .mysql schema table ++ ' ' :: ("MODIFY COLUMN".toList ++ ' ' ::
        (named .mysql c.name ++ ' ' :: (toUpper c.type ++ (nullText c ++ freeText .mysql c))))) := by
  rw [modifyText, alterTable_eq, List.flatten_cons, List.flatten_cons, List.flatten_nil,
    List.append_nil, definitionHead, List.append_assoc, List.cons_append, List.append_assoc]
  apply congrArg fun action : Text => "ALTER TABLE".toList ++ ' ' ::
    (namedTable .mysql schema table ++ ' ' :: action)
  exact word_blank (by decide +kernel) _

/-- **The tokens of the statement.** -/
theorem tokens_modifyText {schema table : Text} {c : Column} (hs : ValidName schema)
    (ht : ValidName table) (hname : ValidName c.name) (htype : ValidType c.type) :
    LexRules.mysql.tokens (modifyText schema table c) =
      [.word "ALTER".toList, .word "TABLE".toList, .quoted backtick schema, .symbol '.',
        .quoted backtick table, .word "MODIFY".toList, .word "COLUMN".toList,
        .quoted backtick c.name] ++ (LexRules.mysql.tokens (toUpper c.type) ++ tailTokens c) := by
  have halter : Whole .mysql "ALTER TABLE".toList := by decide +kernel
  have hmodify : Whole .mysql "MODIFY COLUMN".toList := by decide +kernel
  have htable : Whole .mysql (namedTable .mysql schema table) := whole_namedTable hs ht
  have hcolumn : Whole .mysql (named .mysql c.name) := whole_named hname
  have halterTokens : Dialect.mysql.rules.tokens "ALTER TABLE".toList =
      [.word "ALTER".toList, .word "TABLE".toList] := by decide +kernel
  have hmodifyTokens : Dialect.mysql.rules.tokens "MODIFY COLUMN".toList =
      [.word "MODIFY".toList, .word "COLUMN".toList] := by decide +kernel
  have hdefinition : Dialect.mysql.rules.tokens (toUpper c.type ++ (nullText c ++ freeText .mysql c)) =
      LexRules.mysql.tokens (toUpper c.type) ++ tailTokens c := tokens_definition htype
  rw [modifyText_eq]
  refine (halter.tokens _).trans ?_
  rw [htable.tokens, hmodify.tokens, hcolumn.tokens, halterTokens, hmodifyTokens,
    tokens_namedTable hs ht, tokens_named hname, hdefinition]
  rfl

/-- **The statement is a `MODIFY COLUMN` of the column.** -/
theorem read_modifyText (srv : Server) {schema table : Text} {c : Column} (hs : ValidName schema)
    (ht : ValidName table) (hname : ValidName c.name) (htype : ValidType c.type) :
    srv.read (modifyText schema table c) = some ⟨schema, table, c.name,
      srv.modify (LexRules.mysql.tokens (toUpper c.type) ++ tailTokens c)⟩ := by
  rw [Server.read, tokens_modifyText hs ht hname htype]
  rfl

theorem modify_eq (srv : Server) {c : Column} {e : Entry} (hheld : srv.IsType c.type)
    (htype : ValidType c.type) :
    srv.modify (LexRules.mysql.tokens (toUpper c.type) ++ tailTokens c) e =
      (srv.define c.type (tailTokens c)).bind fun a =>
        if srv.Allows e (redefine e c.type a) then some (redefine e c.type a) else none := by
  obtain ⟨w, rest, htail, hw⟩ := tailTokens_eq_cons c
  rw [Server.modify, htail, srv.dataType_tokens c.type hheld htype w rest hw]
  rfl

/-! ### Definitions whose parts are read one by one -/

/-- The default is one complete value and no backslash of the comment takes a mark of its literal. -/
structure Regular (c : Column) : Prop where
  default : ∀ text, c.default = some text →
    Whole .mysql text ∧ isValue (LexRules.mysql.tokens text) = true
  comment : (decoded c.comment).isSome = true

/-- The default that the text of the catalog stands for, written without quotes. -/
def Server.defaultOf (srv : Server) (c : Column) : Option (Option Default) :=
  match c.default with
  | none => some none
  | some text => srv.value c.type (LexRules.mysql.tokens text)

theorem readComment_append (front : List SqlToken) (comment : Text) :
    readComment (front ++ [.word "COMMENT".toList, .quoted '\'' comment]) = some (front, comment) := by
  have hkeyword : isKeyword "COMMENT" "COMMENT".toList = true := by decide +kernel
  have hreverse : (front ++ [SqlToken.word "COMMENT".toList, .quoted '\'' comment]).reverse =
      .quoted '\'' comment :: .word "COMMENT".toList :: front.reverse :=
    List.reverse_append
  rw [readComment, hreverse]
  refine (if_pos ⟨rfl, hkeyword⟩).trans ?_
  rw [List.reverse_reverse]

/-- The tokens of the free text of a regular definition. -/
theorem tokens_freeText_of_regular {c : Column} (h : Regular c) {comment : Text}
    (hcomment : decoded c.comment = some comment) :
    LexRules.mysql.tokens (freeText .mysql c) =
      (match c.default with
        | none => []
        | some text => .word "DEFAULT".toList :: LexRules.mysql.tokens text) ++
      [.word "COMMENT".toList, .quoted '\'' comment] := by
  have hliteral : LexRules.mysql.tokens (sqlStringLiteral c.comment) = [.quoted '\'' comment] :=
    tokens_literal_mysql hcomment
  rw [tokens_freeText]
  cases hdefault : c.default with
  | none => exact congrArg (SqlToken.word "COMMENT".toList :: ·) hliteral
  | some text =>
    have htext : Whole .mysql text := (h.default text hdefault).1
    have hword : Whole .mysql "COMMENT".toList := by decide +kernel
    have hparts : " COMMENT ".toList ++ sqlStringLiteral c.comment =
        ' ' :: ("COMMENT".toList ++ ' ' :: sqlStringLiteral c.comment) :=
      congrArg (' ' :: ·) (word_blank (by decide +kernel) (sqlStringLiteral c.comment))
    have hbehind := hword.tokens (sqlStringLiteral c.comment)
    have hcommentWord : Dialect.mysql.rules.tokens "COMMENT".toList = [.word "COMMENT".toList] := by
      decide +kernel
    rw [hcommentWord] at hbehind
    simp only [List.cons_append]
    apply congrArg
    rw [hparts]
    refine (htext.tokens _).trans ?_
    rw [hbehind]
    apply congrArg
    exact congrArg (SqlToken.word "COMMENT".toList :: ·) hliteral

theorem readNull_tailTokens (c : Column) :
    readNull (tailTokens c) = (c.nullable, LexRules.mysql.tokens (freeText .mysql c)) := by
  rw [tailTokens, nullTokens]
  cases hnull : c.nullable with
  | false => rfl
  | true =>
    have hdefault : isKeyword "NOT" "DEFAULT".toList = false := by decide +kernel
    have hcomment : isKeyword "NOT" "COMMENT".toList = false := by decide +kernel
    rw [if_pos rfl, List.nil_append, tokens_freeText]
    cases c.default with
    | none =>
      rw [readNull, dropKeyword_other hcomment]
      rfl
    | some text =>
      rw [readNull, dropKeyword_other hdefault]
      rfl

theorem readClauses_of_regular {c : Column} (h : Regular c) {comment : Text}
    (hcomment : decoded c.comment = some comment) :
    readClauses (tailTokens c) = some ⟨c.nullable, c.default.map LexRules.mysql.tokens, comment⟩ := by
  have hdefault : readDefault (match c.default with
      | none => []
      | some text => .word "DEFAULT".toList :: LexRules.mysql.tokens text) =
        some (c.default.map LexRules.mysql.tokens) := by
    cases hdefault : c.default with
    | none => rfl
    | some text =>
      have hkeyword : isKeyword "DEFAULT" "DEFAULT".toList = true := by decide +kernel
      simp only [readDefault, dropKeyword_word hkeyword]
      exact if_pos (h.default text hdefault).2
  rw [readClauses, readNull_tailTokens, tokens_freeText_of_regular h hcomment]
  simp only [readComment_append, hdefault, Option.bind_eq_bind, Option.bind_some]

/-- **What a regular definition says.** -/
theorem define_of_regular (srv : Server) {c : Column} (h : Regular c) {comment : Text}
    (hcomment : decoded c.comment = some comment) :
    srv.define c.type (tailTokens c) =
      (srv.defaultOf c).map fun default => ⟨c.nullable, default, comment, Extra.plain⟩ := by
  have hvalue : ∀ value : Option (Option Default),
      (value >>= fun default => some (⟨c.nullable, default, comment, Extra.plain⟩ : Attributes)) =
        value.map fun default => ⟨c.nullable, default, comment, Extra.plain⟩ := by
    intro value
    cases value with
    | none => rfl
    | some default => rfl
  rw [Server.define, readClauses_of_regular h hcomment, Server.defaultOf]
  cases c.default with
  | none => rfl
  | some text => exact hvalue _

/-! ### When the attributes are kept -/

/-- The attributes are those of the column, but for the one that is edited. -/
def Restates (e : Entry) (a : Attributes) : Edit → Prop
  | .comment _ => a = { attributesOf e with comment := a.comment }
  | .nullable _ => a = { attributesOf e with nullable := a.nullable }

theorem keeps_redefine {e : Entry} {a : Attributes} {edit : Edit} :
    edit.Keeps e (redefine e e.type a) ↔ Restates e a edit := by
  obtain ⟨name, type, nullable, default, comment, extra⟩ := e
  obtain ⟨nullable', default', comment', extra'⟩ := a
  cases edit with
  | comment text => simp [Edit.Keeps, Restates, redefine, attributesOf]
  | nullable value => simp [Edit.Keeps, Restates, redefine, attributesOf]

/-- The comment that is written again is read back; a comment that is edited need not be. -/
def KeepsComment (e : Entry) (comment : Text) : Edit → Prop
  | .comment _ => True
  | .nullable _ => comment = e.comment

theorem restates_plain {srv : Server} {t : Loaded srv.engine} {edit : Edit}
    {default : Option Default} {comment : Text} :
    Restates t.column ⟨(edit.column t.loaded).nullable, default, comment, Extra.plain⟩ edit ↔
      t.column.extra = Extra.plain ∧ default = t.column.default ∧ KeepsComment t.column comment edit := by
  have hextra : Extra.plain = t.column.extra ↔ t.column.extra = Extra.plain := eq_comm
  cases edit with
  | comment text =>
    have hnull : (Edit.column t.loaded (.comment text)).nullable = t.column.nullable := rfl
    simp only [Restates, attributesOf, KeepsComment, Attributes.mk.injEq, hnull, hextra]
    tauto
  | nullable value =>
    simp only [Restates, attributesOf, KeepsComment, Attributes.mk.injEq, hextra]
    tauto

/-- **The condition**: where the definition is written and the server takes it, the column has no
attribute that a definition does not name, the text of its default, written without quotes, is that
default again, and so is the comment when it is written again. When the default is no complete value,
or backslashes break the literal of the comment, what the server then reads must be all that. -/
def Harmless (srv : Server) (t : Loaded srv.engine) (edit : Edit) : Prop :=
  edit.Changes t.loaded → Accepted t.schema t.table (edit.column t.loaded) →
    (Regular (edit.column t.loaded) → ∀ default comment,
      srv.defaultOf (edit.column t.loaded) = some default →
      decoded (edit.column t.loaded).comment = some comment →
      srv.Allows t.column (redefine t.column t.column.type
        ⟨(edit.column t.loaded).nullable, default, comment, Extra.plain⟩) = true →
      t.column.extra = Extra.plain ∧ default = t.column.default ∧
        KeepsComment t.column comment edit) ∧
    (¬Regular (edit.column t.loaded) → ∀ a,
      srv.define t.column.type (tailTokens (edit.column t.loaded)) = some a →
      srv.Allows t.column (redefine t.column t.column.type a) = true → Restates t.column a edit)

/-- The server takes the definition and the attributes are kept. -/
theorem harmless_iff {srv : Server} {t : Loaded srv.engine} {edit : Edit} :
    Harmless srv t edit ↔
      (edit.Changes t.loaded → Accepted t.schema t.table (edit.column t.loaded) →
        ∀ a, srv.define t.column.type (tailTokens (edit.column t.loaded)) = some a →
          srv.Allows t.column (redefine t.column t.column.type a) = true →
          Restates t.column a edit) := by
  have htype : (edit.column t.loaded).type = t.column.type := by
    cases edit with
    | comment text => rfl
    | nullable value => rfl
  constructor
  · intro h hchanges haccepted a ha hallows
    obtain ⟨hregular, hother⟩ := h hchanges haccepted
    by_cases hr : Regular (edit.column t.loaded)
    · obtain ⟨comment, hcomment⟩ := Option.isSome_iff_exists.1 hr.comment
      have hdefine := define_of_regular srv hr hcomment
      rw [htype, ha] at hdefine
      obtain ⟨default, hdefault, rfl⟩ := Option.map_eq_some_iff.1 hdefine.symm
      exact restates_plain.2 (hregular hr default comment hdefault hcomment hallows)
    · exact hother hr a ha hallows
  · intro h hchanges haccepted
    refine ⟨fun hr default comment hdefault hcomment hallows => ?_,
      fun _ => h hchanges haccepted⟩
    have hdefine := define_of_regular srv hr hcomment
    rw [htype, hdefault] at hdefine
    exact restates_plain.1 (h hchanges haccepted _ hdefine hallows)

/-- **In MySQL.** -/
theorem keepsOthers_iff_harmless (srv : Server) (t : Loaded srv.engine) (lowerCase : Text → Text)
    (edit : Edit) : t.KeepsOthers lowerCase edit ↔ Harmless srv t edit := by
  have hname : (edit.column t.loaded).name = t.column.name := by
    cases edit with
    | comment text => rfl
    | nullable value => rfl
  have htype : (edit.column t.loaded).type = t.column.type := by
    cases edit with
    | comment text => rfl
    | nullable value => rfl
  -- What the accepted statement makes of the column.
  have hrun : ∀ haccepted : Accepted t.schema t.table (edit.column t.loaded),
      srv.engine.run t.schema t.table [⟨modifyText t.schema t.table (edit.column t.loaded), false⟩]
          t.entries =
        t.front ++ (((srv.define t.column.type (tailTokens (edit.column t.loaded))).bind fun a =>
          if srv.Allows t.column (redefine t.column t.column.type a) then
            some (redefine t.column t.column.type a) else none).getD t.column) :: t.back := by
    intro haccepted
    have hheld : srv.IsType (edit.column t.loaded).type := by
      rw [htype]
      exact t.holds
    have hread := read_modifyText srv haccepted.schema haccepted.table haccepted.name haccepted.type
    have hmodify := modify_eq srv (e := t.column) hheld haccepted.type
    rw [hname] at hread
    rw [htype] at hmodify
    have hsingle : srv.engine.run t.schema t.table
        [⟨modifyText t.schema t.table (edit.column t.loaded), false⟩]
        (t.front ++ t.column :: t.back) = _ := Engine.run_single hread Loaded.name_not_mem_front
    rw [htype] at hsingle
    rw [← hmodify]
    exact hsingle
  rw [Loaded.keepsOthers_iff, harmless_iff]
  constructor
  · intro h hchanges haccepted a ha hallows
    obtain ⟨p, hp⟩ := exists_generate haccepted
    obtain ⟨e', he', hkeeps⟩ := h hchanges p hp
    rw [(generate_edit hp).2, hrun haccepted, ha] at he'
    have hsame := (List.cons.inj (List.append_cancel_left he')).1
    rw [Option.bind_some, if_pos hallows, Option.getD_some] at hsame
    rw [← hsame] at hkeeps
    exact keeps_redefine.1 hkeeps
  · intro h hchanges p hp
    obtain ⟨haccepted, hstatements⟩ := generate_edit hp
    refine ⟨_, by rw [hstatements]; exact hrun haccepted, ?_⟩
    cases hdefine : srv.define t.column.type (tailTokens (edit.column t.loaded)) with
    | none => exact edit.keeps_self _
    | some a =>
      rw [Option.bind_some]
      split_ifs with hallows
      · exact keeps_redefine.2 (h hchanges haccepted a hdefine hallows)
      · exact edit.keeps_self _

end MySQL

end Workbench.Schema
