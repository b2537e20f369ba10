import Workbench.Schema.Forms
import Workbench.Schema.Redefine

/-!
# The edits in PostgreSQL, and in both

`COMMENT ON COLUMN` changes the comment alone. A new nullability is one of three actions: the type, which
is written again and brings its own collation, storage and compression, the nullability, and the
default, which is written as the catalog shows it and so stays as it was.
-/

set_option autoImplicit false

namespace Workbench.Schema

open Workbench.Lib

namespace PostgreSQL

/-- The statement with the three actions. -/
def alterText (schema table : Text) (c : Column) : Text :=
  alterTable (namedTable .postgres schema table) [joinComma (alterActions (named .postgres c.name) c)]

/-- What `COMMENT ON COLUMN` writes behind `IS`. -/
def commentValue (comment : Text) : Text :=
  if isBlankText comment then "NULL".toList else sqlStringLiteral comment

def commentText (schema table : Text) (c : Column) : Text :=
  commentOn (namedTable .postgres schema table) (named .postgres c.name) (commentValue c.comment)

/-! ### What the generator writes -/

theorem generate_comment {schema table : Text} {c : Column} {text : Text} {p : Preview}
    (h : generate Dialect.postgres.name schema table [Edit.operation c (.comment text)] = .ok p) :
    (ValidName schema ∧ ValidName table ∧ ValidName c.name) ∧
      p.statements = [⟨commentText schema table (Edit.column c (.comment text)), false⟩] := by
  obtain ⟨hschema, htable, out, hop, hstatements⟩ := generate_one_ok h
  have hcomment : setColumnComment .postgres (namedTable .postgres schema table)
      (Edit.column c (.comment text)) = .ok out := hop
  simp only [setColumnComment, bind_eq_ok] at hcomment
  obtain ⟨n, hn, hout⟩ := hcomment
  obtain ⟨hname, rfl⟩ := quote_ok hn
  cases hout
  exact ⟨⟨hschema, htable, hname⟩, hstatements⟩

theorem generate_nullable {schema table : Text} {c : Column} {value : Bool} {p : Preview}
    (h : generate Dialect.postgres.name schema table [Edit.operation c (.nullable value)] = .ok p) :
    (ValidName schema ∧ ValidName table ∧ ValidName c.name ∧ ValidType c.type) ∧
      p.statements = [⟨alterText schema table (Edit.column c (.nullable value)), false⟩] := by
  obtain ⟨hschema, htable, out, hop, hstatements⟩ := generate_one_ok h
  have halter : alterColumn .postgres (namedTable .postgres schema table)
      (Edit.column c (.nullable value)) = .ok out := hop
  simp only [alterColumn, bind_eq_ok, guard_eq_ok] at halter
  obtain ⟨n, hn, htype, sql, hsql, hout⟩ := halter
  obtain ⟨hname, rfl⟩ := quote_ok hn
  cases hout
  cases hsql
  exact ⟨⟨hschema, htable, hname, by simpa [ValidType, Edit.column] using htype⟩, hstatements⟩

theorem exists_generate {schema table : Text} {c : Column} {value : Bool} (hs : ValidName schema)
    (ht : ValidName table) (hname : ValidName c.name) (htype : ValidType c.type) :
    ∃ p, generate Dialect.postgres.name schema table [Edit.operation c (.nullable value)] = .ok p := by
  have hop : ∃ out, generateOperation .postgres (namedTable .postgres schema table) table
      (Edit.operation c (.nullable value)) = .ok out := by
    have hmatch : Matcher.fullMatch typeRE (Edit.column c (.nullable value)).type = true := htype
    have hquote : quote .postgres (Edit.column c (.nullable value)).name =
        .ok (named .postgres c.name) := quote_of_valid hname
    show ∃ out, alterColumn .postgres _ (Edit.column c (.nullable value)) = .ok out
    rw [alterColumn, hquote]
    simp only [hmatch]
    exact ⟨_, rfl⟩
  obtain ⟨out, hout⟩ := hop
  exact exists_generate_one hs ht hout

/-! ### The tokens of the actions -/

/-- The words of the second action behind the name. -/
def nullWords (nullable : Bool) : Text :=
  if nullable then "DROP NOT NULL".toList else "SET NOT NULL".toList

/-- The words of the third. -/
def defaultWords : Option Text → Text
  | none => "DROP DEFAULT".toList
  | some text => "SET DEFAULT".toList ++ ' ' :: text

/-- An action: its first two words, the name and the rest. -/
def actionText (name rest : Text) : Text :=
  "ALTER COLUMN".toList ++ ' ' :: (named .postgres name ++ ' ' :: rest)

theorem alterActions_eq (c : Column) :
    alterActions (named .postgres c.name) c =
      [actionText c.name ("TYPE".toList ++ ' ' :: toUpper c.type),
        actionText c.name (nullWords c.nullable), actionText c.name (defaultWords c.default)] := by
  have hfront : ∀ rest : Text, "ALTER COLUMN ".toList ++ rest = "ALTER COLUMN".toList ++ ' ' :: rest :=
    word_blank (by decide +kernel)
  have htype : ∀ rest : Text, " TYPE ".toList ++ rest = ' ' :: ("TYPE".toList ++ ' ' :: rest) :=
    fun rest => congrArg (' ' :: ·) (word_blank (by decide +kernel) rest)
  have hset : ∀ rest : Text, " SET DEFAULT ".toList ++ rest = ' ' :: ("SET DEFAULT".toList ++ ' ' :: rest) :=
    fun rest => congrArg (' ' :: ·) (word_blank (by decide +kernel) rest)
  have hnull : (if c.nullable then " DROP NOT NULL".toList else " SET NOT NULL".toList) =
      ' ' :: nullWords c.nullable := by
    rw [nullWords]
    split_ifs
    · rfl
    · rfl
  have hdefault : ∀ value : Option Text, (match value with
      | none => ["ALTER COLUMN ".toList, named .postgres c.name, " DROP DEFAULT".toList].flatten
      | some text => ["ALTER COLUMN ".toList, named .postgres c.name, " SET DEFAULT ".toList,
          text].flatten) = actionText c.name (defaultWords value) := by
    intro value
    cases value with
    | none =>
      simp only [List.flatten_cons, List.flatten_nil, List.append_nil]
      exact hfront _
    | some text =>
      simp only [List.flatten_cons, List.flatten_nil, List.append_nil]
      rw [hset]
      exact hfront _
  have hfirst : ["ALTER COLUMN ".toList, named .postgres c.name, " TYPE ".toList,
      toUpper c.type].flatten = actionText c.name ("TYPE".toList ++ ' ' :: toUpper c.type) := by
    simp only [List.flatten_cons, List.flatten_nil, List.append_nil]
    rw [htype]
    exact hfront _
  have hsecond : ["ALTER COLUMN ".toList, named .postgres c.name,
      if c.nullable then " DROP NOT NULL".toList else " SET NOT NULL".toList].flatten =
        actionText c.name (nullWords c.nullable) := by
    rw [hnull]
    simp only [List.flatten_cons, List.flatten_nil, List.append_nil]
    exact hfront _
  have hthird := hdefault c.default
  unfold alterActions
  exact congr (congrArg List.cons hfirst) (congr (congrArg List.cons hsecond)
    (congrArg (fun action => [action]) hthird))

theorem joinComma_three (x y z : Text) :
    joinComma [x, y, z] = x ++ ',' :: ' ' :: (y ++ ',' :: ' ' :: z) := by
  simp [joinComma, List.intercalate]

theorem actionText_append (name words rest : Text) :
    actionText name words ++ rest = actionText name (words ++ rest) := by
  unfold actionText
  generalize "ALTER COLUMN".toList = front
  simp

theorem alterText_eq (schema table : Text) (c : Column) :
    alterText schema table c = "ALTER TABLE".toList ++ ' ' :: (namedTable .postgres schema table ++
      ' ' :: actionText c.name ("TYPE".toList ++ ' ' :: (toUpper c.type ++ ',' :: ' ' ::
        actionText c.name (nullWords c.nullable ++ ',' :: ' ' ::
          actionText c.name (defaultWords c.default))))) := by
  have htype : ∀ rest : Text, actionText c.name ("TYPE".toList ++ ' ' :: toUpper c.type) ++ rest =
      actionText c.name ("TYPE".toList ++ ' ' :: (toUpper c.type ++ rest)) := by
    intro rest
    refine (actionText_append _ _ _).trans ?_
    exact congrArg (actionText c.name) (List.append_assoc _ _ _)
  have hjoin : joinComma (alterActions (named .postgres c.name) c) =
      actionText c.name ("TYPE".toList ++ ' ' :: (toUpper c.type ++ ',' :: ' ' ::
        actionText c.name (nullWords c.nullable ++ ',' :: ' ' ::
          actionText c.name (defaultWords c.default)))) := by
    rw [alterActions_eq, joinComma_three]
    refine (htype _).trans ?_
    apply congrArg fun rest : Text => actionText c.name
      ("TYPE".toList ++ ' ' :: (toUpper c.type ++ ',' :: ' ' :: rest))
    exact actionText_append _ _ _
  rw [alterText, alterTable_eq, List.flatten_cons, List.flatten_nil, List.append_nil, hjoin]

theorem tokens_actionText {name : Text} (h : ValidName name) (rest : Text) :
    Dialect.postgres.rules.tokens (actionText name rest) =
      .word "ALTER".toList :: .word "COLUMN".toList :: .quoted '"' name ::
        Dialect.postgres.rules.tokens rest := by
  have hfront : Whole .postgres "ALTER COLUMN".toList := by decide +kernel
  have hname : Whole .postgres (named .postgres name) := whole_named h
  have hwords : Dialect.postgres.rules.tokens "ALTER COLUMN".toList =
      [.word "ALTER".toList, .word "COLUMN".toList] := by decide +kernel
  refine (hfront.tokens _).trans ?_
  rw [hname.tokens, hwords, tokens_named h]
  rfl

/-- The tokens of the nullability. -/
def nullTokens (nullable : Bool) : List SqlToken :=
  [.word (if nullable then "DROP" else "SET").toList, .word "NOT".toList, .word "NULL".toList]

theorem tokens_nullWords (nullable : Bool) (rest : Text) :
    Dialect.postgres.rules.tokens (nullWords nullable ++ ',' :: rest) =
      nullTokens nullable ++ .symbol ',' :: Dialect.postgres.rules.tokens rest := by
  have hdrop : Dialect.postgres.rules.tokens "DROP NOT NULL".toList =
      [.word "DROP".toList, .word "NOT".toList, .word "NULL".toList] := by decide +kernel
  have hset : Dialect.postgres.rules.tokens "SET NOT NULL".toList =
      [.word "SET".toList, .word "NOT".toList, .word "NULL".toList] := by decide +kernel
  have hcalmDrop : (Dialect.postgres.rules.reader.reach start "DROP NOT NULL".toList).1 = .word false := by
    decide +kernel
  have hcalmSet : (Dialect.postgres.rules.reader.reach start "SET NOT NULL".toList).1 = .word false := by
    decide +kernel
  cases nullable with
  | true =>
    refine (tokens_comma (Or.inr ⟨_, hcalmDrop⟩) rest).trans ?_
    rw [hdrop]
    rfl
  | false =>
    refine (tokens_comma (Or.inr ⟨_, hcalmSet⟩) rest).trans ?_
    rw [hset]
    rfl

/-- The tokens of the default. -/
def defaultTokens : Option Text → List SqlToken
  | none => [.word "DROP".toList, .word "DEFAULT".toList]
  | some text => .word "SET".toList :: .word "DEFAULT".toList :: LexRules.postgres.tokens text

theorem tokens_defaultWords (default : Option Text) :
    Dialect.postgres.rules.tokens (defaultWords default) = defaultTokens default := by
  cases default with
  | none =>
    show Dialect.postgres.rules.tokens "DROP DEFAULT".toList =
      [.word "DROP".toList, .word "DEFAULT".toList]
    decide +kernel
  | some text =>
    have hfront : Whole .postgres "SET DEFAULT".toList := by decide +kernel
    have hwords : Dialect.postgres.rules.tokens "SET DEFAULT".toList =
        [.word "SET".toList, .word "DEFAULT".toList] := by decide +kernel
    refine (hfront.tokens text).trans ?_
    rw [hwords]
    rfl

/-- An action in the middle of a statement. -/
def actionTokens (name : Text) (rest : List SqlToken) : List SqlToken :=
  .symbol ',' :: .word "ALTER".toList :: .word "COLUMN".toList :: .quoted '"' name :: rest

/-- **The tokens of the statement with the three actions.** -/
theorem tokens_alterText {schema table : Text} {c : Column} (hs : ValidName schema)
    (ht : ValidName table) (hname : ValidName c.name) (htype : ValidType c.type) :
    LexRules.postgres.tokens (alterText schema table c) =
      [.word "ALTER".toList, .word "TABLE".toList, .quoted '"' schema, .symbol '.', .quoted '"' table,
        .word "ALTER".toList, .word "COLUMN".toList, .quoted '"' c.name, .word "TYPE".toList] ++
      (LexRules.postgres.tokens (toUpper c.type) ++ actionTokens c.name (nullTokens c.nullable ++
        actionTokens c.name (defaultTokens c.default))) := by
  have halter : Whole .postgres "ALTER TABLE".toList := by decide +kernel
  have htable : Whole .postgres (namedTable .postgres schema table) := whole_namedTable hs ht
  have htypeWord : Whole .postgres "TYPE".toList := by decide +kernel
  have halterTokens : Dialect.postgres.rules.tokens "ALTER TABLE".toList =
      [.word "ALTER".toList, .word "TABLE".toList] := by decide +kernel
  have htypeTokens : Dialect.postgres.rules.tokens "TYPE".toList = [.word "TYPE".toList] := by
    decide +kernel
  have hthird : Dialect.postgres.rules.tokens (' ' :: actionText c.name (defaultWords c.default)) = _ :=
    (tokens_blank _).trans (tokens_actionText hname _)
  have hsecond : Dialect.postgres.rules.tokens (' ' :: actionText c.name (nullWords c.nullable ++
      ',' :: ' ' :: actionText c.name (defaultWords c.default))) = _ :=
    (tokens_blank _).trans (tokens_actionText hname _)
  have hsizes := tokens_comma (calm_type (d := .postgres) htype) (' ' :: actionText c.name
    (nullWords c.nullable ++ ',' :: ' ' :: actionText c.name (defaultWords c.default)))
  rw [alterText_eq]
  refine (halter.tokens _).trans ?_
  rw [htable.tokens, tokens_actionText hname, htypeWord.tokens, hsizes, hsecond, tokens_nullWords, hthird,
    tokens_defaultWords, halterTokens, htypeTokens, tokens_namedTable hs ht]
  rfl

/-! ### What the server reads -/

theorem takeSameColumn_action (name : Text) (rest : List SqlToken) :
    takeSameColumn name (actionTokens name rest) = some rest := by
  have hfront : takeColumn (.word "ALTER".toList :: .word "COLUMN".toList :: .quoted '"' name :: rest) =
      some (name, rest) := rfl
  show (takeColumn (.word "ALTER".toList :: .word "COLUMN".toList :: .quoted '"' name :: rest) >>=
    fun front => if front.1 = name then some front.2 else none) = some rest
  rw [hfront]
  exact if_pos rfl

theorem readNotNull_nullTokens (nullable : Bool) (rest : List SqlToken) :
    readNotNull (nullTokens nullable ++ rest) = some (nullable, rest) := by
  cases nullable with
  | true => rfl
  | false => rfl

theorem readDefault_defaultTokens (srv : Server) {default : Option Text}
    (h : ∀ text, default = some text → srv.IsExpression text) :
    srv.readDefault (defaultTokens default) = some default := by
  cases default with
  | none => rfl
  | some text =>
    have htext := srv.expression_tokens text (h text rfl)
    show (srv.expression (LexRules.postgres.tokens text) >>= fun text => some (some text)) = _
    rw [htext]
    rfl

/-- **The statement is read as its three actions.** -/
theorem read_alterText (srv : Server) {schema table : Text} {c : Column} (hs : ValidName schema)
    (ht : ValidName table) (hname : ValidName c.name) (htype : ValidType c.type)
    (hheld : srv.IsType c.type) (hdefault : ∀ text, c.default = some text → srv.IsExpression text) :
    srv.read (alterText schema table c) =
      some ⟨schema, table, c.name, srv.alter c.type c.nullable c.default⟩ := by
  have hsizes := srv.dataType_tokens c.type hheld htype
  have hread : srv.readAlter (LexRules.postgres.tokens (alterText schema table c)) =
      some ⟨schema, table, c.name, srv.alter c.type c.nullable c.default⟩ := by
    rw [tokens_alterText hs ht hname htype]
    show (srv.dataType (LexRules.postgres.tokens (toUpper c.type) ++ actionTokens c.name
      (nullTokens c.nullable ++ actionTokens c.name (defaultTokens c.default))) >>= _) = _
    rw [actionTokens, hsizes]
    show (takeSameColumn c.name (actionTokens c.name (nullTokens c.nullable ++ actionTokens c.name
      (defaultTokens c.default))) >>= _) = _
    rw [takeSameColumn_action]
    show (readNotNull (nullTokens c.nullable ++ actionTokens c.name (defaultTokens c.default)) >>=
      _) = _
    rw [readNotNull_nullTokens]
    show (takeSameColumn c.name (actionTokens c.name (defaultTokens c.default)) >>= _) = _
    rw [takeSameColumn_action]
    show (srv.readDefault (defaultTokens c.default) >>= _) = _
    rw [readDefault_defaultTokens srv hdefault]
    rfl
  rw [Server.read, hread]

theorem commentOn_eq (table col value : Text) :
    commentOn table col value = "COMMENT ON COLUMN ".toList ++ (table ++ (".".toList ++ (col ++
      (" IS ".toList ++ value)))) := by
  unfold commentOn
  simp only [List.flatten_cons, List.flatten_nil, List.append_nil]

theorem commentText_eq (schema table : Text) (c : Column) :
    commentText schema table c = "COMMENT ON COLUMN".toList ++ ' ' ::
      (named .postgres schema ++ '.' :: (named .postgres table ++ '.' :: (named .postgres c.name ++
        ' ' :: ("IS".toList ++ ' ' :: commentValue c.comment)))) := by
  have his : ∀ rest : Text, " IS ".toList ++ rest = ' ' :: ("IS".toList ++ ' ' :: rest) :=
    fun rest => congrArg (' ' :: ·) (word_blank (by decide +kernel) rest)
  have hdot : ∀ rest : Text, ".".toList ++ rest = '.' :: rest := fun _ => rfl
  have hbehind : namedTable .postgres schema table ++ (".".toList ++ (named .postgres c.name ++
      (" IS ".toList ++ commentValue c.comment))) =
      named .postgres schema ++ '.' :: (named .postgres table ++ '.' :: (named .postgres c.name ++
        ' ' :: ("IS".toList ++ ' ' :: commentValue c.comment))) := by
    rw [hdot, his]
    exact List.append_assoc _ _ _
  rw [commentText, commentOn_eq, hbehind]
  exact word_blank (by decide +kernel) _

/-- **The other statement changes the comment.** -/
theorem read_commentText (srv : Server) {schema table : Text} {c : Column} (hs : ValidName schema)
    (ht : ValidName table) (hname : ValidName c.name) :
    ∃ comment, srv.read (commentText schema table c) =
      some ⟨schema, table, c.name, fun e => some { e with comment := comment }⟩ := by
  have hfront : Whole .postgres "COMMENT ON COLUMN".toList := by decide +kernel
  have hcolumn : Whole .postgres (named .postgres c.name) := whole_named hname
  have his : Whole .postgres "IS".toList := by decide +kernel
  have hfrontTokens : Dialect.postgres.rules.tokens "COMMENT ON COLUMN".toList =
      [.word "COMMENT".toList, .word "ON".toList, .word "COLUMN".toList] := by decide +kernel
  have hisTokens : Dialect.postgres.rules.tokens "IS".toList = [.word "IS".toList] := by decide +kernel
  have hnullTokens : Dialect.postgres.rules.tokens "NULL".toList = [.word "NULL".toList] := by
    decide +kernel
  obtain ⟨comment, hvalue⟩ : ∃ comment,
      Server.readCommentValue (Dialect.postgres.rules.tokens (commentValue c.comment)) = some comment := by
    rw [commentValue]
    split_ifs
    · rw [hnullTokens]
      exact ⟨[], rfl⟩
    · rw [tokens_literal_postgres]
      exact ⟨c.comment, rfl⟩
  refine ⟨comment, ?_⟩
  have htokens : LexRules.postgres.tokens (commentText schema table c) =
      [.word "COMMENT".toList, .word "ON".toList, .word "COLUMN".toList, .quoted '"' schema, .symbol '.',
        .quoted '"' table, .symbol '.', .quoted '"' c.name, .word "IS".toList] ++
        Dialect.postgres.rules.tokens (commentValue c.comment) := by
    rw [commentText_eq]
    refine (hfront.tokens _).trans ?_
    rw [tokens_qualifier hs, tokens_qualifier ht, hcolumn.tokens, his.tokens, hfrontTokens, hisTokens,
      tokens_named hname]
    rfl
  have hread : Server.readComment (LexRules.postgres.tokens (commentText schema table c)) =
      some ⟨schema, table, c.name, fun e => some { e with comment := comment }⟩ := by
    rw [htokens]
    show (Server.readCommentValue (Dialect.postgres.rules.tokens (commentValue c.comment)) >>= _) = _
    rw [hvalue]
    rfl
  have hnone : srv.readAlter (LexRules.postgres.tokens (commentText schema table c)) = none := by
    rw [htokens]
    rfl
  rw [Server.read, hnone, hread]

/-! ### When the attributes are kept -/

/-- The column under the three actions. -/
def retyped (srv : Server) (e : Entry) (nullable : Bool) : Entry :=
  { e with nullable := nullable, extra := { e.extra with properties := srv.properties e.type } }

/-- **The condition**: a comment keeps the rest in any case; a nullability, where the generator writes
it and the server takes it, keeps the rest when the column has the properties of its type. -/
def Harmless (srv : Server) (t : Loaded srv.engine) : Edit → Prop
  | .comment _ => True
  | .nullable value =>
    t.column.nullable ≠ value → ValidName t.schema → ValidName t.table → ValidName t.column.name →
      ValidType t.column.type → t.column.extra.identity = false → t.column.extra.generated = false →
      srv.Allows t.column (retyped srv t.column value) = true →
      t.column.extra.properties = srv.properties t.column.type

theorem alter_eq (srv : Server) (e : Entry) (value : Bool) :
    srv.alter e.type value e.default e =
      if e.extra.identity || e.extra.generated then none
      else if srv.Allows e (retyped srv e value) then some (retyped srv e value) else none := rfl

theorem keeps_retyped {srv : Server} {e : Entry} {value : Bool} :
    Edit.Keeps e (retyped srv e value) (.nullable value) ↔
      e.extra.properties = srv.properties e.type := by
  obtain ⟨name, type, nullable, default, comment, identity, generated, properties⟩ := e
  simp only [Edit.Keeps, retyped, CatalogColumn.mk.injEq, Extra.mk.injEq, true_and]
  exact eq_comm

/-- **In PostgreSQL.** -/
theorem keepsOthers_iff_harmless (srv : Server) (t : Loaded srv.engine) (lowerCase : Text → Text)
    (edit : Edit) : t.KeepsOthers lowerCase edit ↔ Harmless srv t edit := by
  have hloaded : t.loaded.default = t.column.default := by
    show t.column.default.map id = t.column.default
    rw [Option.map_id]
    rfl
  rw [Loaded.keepsOthers_iff]
  cases edit with
  | comment text =>
    refine ⟨fun _ => trivial, fun _ _ p hp => ?_⟩
    obtain ⟨⟨hs, ht, hname⟩, hstatements⟩ := generate_comment hp
    obtain ⟨comment, hread⟩ := read_commentText srv hs ht
      (c := Edit.column t.loaded (.comment text)) hname
    have hsingle : srv.engine.run t.schema t.table
        [⟨commentText t.schema t.table (Edit.column t.loaded (.comment text)), false⟩]
        (t.front ++ t.column :: t.back) = _ := Engine.run_single hread Loaded.name_not_mem_front
    refine ⟨{ t.column with comment := comment }, ?_, rfl⟩
    rw [hstatements]
    exact hsingle
  | nullable value =>
    -- What the three actions make of the column.
    have hrun : ValidName t.schema → ValidName t.table → ValidName t.column.name →
        ValidType t.column.type →
        srv.engine.run t.schema t.table
            [⟨alterText t.schema t.table (Edit.column t.loaded (.nullable value)), false⟩] t.entries =
          t.front ++ ((srv.alter t.column.type value t.column.default t.column).getD t.column) ::
            t.back := by
      intro hs ht hname htype
      have hdefault : ∀ text, (Edit.column t.loaded (.nullable value)).default = some text →
          srv.IsExpression text := by
        intro text htext
        exact t.holds.2 text (hloaded.symm.trans htext)
      have hread := read_alterText srv hs ht (c := Edit.column t.loaded (.nullable value)) hname htype
        t.holds.1 hdefault
      have hsame : (Edit.column t.loaded (.nullable value)).default = t.column.default := hloaded
      rw [hsame] at hread
      have hsingle : srv.engine.run t.schema t.table
          [⟨alterText t.schema t.table (Edit.column t.loaded (.nullable value)), false⟩]
          (t.front ++ t.column :: t.back) = _ := Engine.run_single hread Loaded.name_not_mem_front
      exact hsingle
    constructor
    · intro h hchanges hs ht hname htype hidentity hgenerated hallows
      obtain ⟨p, hp⟩ : ∃ p, generate Dialect.postgres.name t.schema t.table
          [Edit.operation t.loaded (.nullable value)] = .ok p := exists_generate hs ht hname htype
      obtain ⟨e', he', hkeeps⟩ := h hchanges p hp
      rw [(generate_nullable hp).2, hrun hs ht hname htype, alter_eq, hidentity, hgenerated] at he'
      have hentry := (List.cons.inj (List.append_cancel_left he')).1
      rw [if_neg (by decide), if_pos hallows, Option.getD_some] at hentry
      rw [← hentry] at hkeeps
      exact keeps_retyped.1 hkeeps
    · intro h hchanges p hp
      obtain ⟨⟨hs, ht, hname, htype⟩, hstatements⟩ := generate_nullable hp
      refine ⟨_, by rw [hstatements]; exact hrun hs ht hname htype, ?_⟩
      rw [alter_eq]
      split_ifs with hfixed hallows
      · exact Edit.keeps_self _ _
      · have hplain : t.column.extra.identity = false ∧ t.column.extra.generated = false := by
          simpa using hfixed
        exact keeps_retyped.2 (h hchanges hs ht hname htype hplain.1 hplain.2 hallows)
      · exact Edit.keeps_self _ _

end PostgreSQL

/-- **An edit of one attribute leaves the others as they were exactly under the conditions of the two
dialects.** -/
theorem edit_keeps_others_iff (lowerCase : Text → Text) :
    (∀ (srv : MySQL.Server) (t : Loaded srv.engine) (edit : Edit),
      t.KeepsOthers lowerCase edit ↔ MySQL.Harmless srv t edit) ∧
    (∀ (srv : PostgreSQL.Server) (t : Loaded srv.engine) (edit : Edit),
      t.KeepsOthers lowerCase edit ↔ PostgreSQL.Harmless srv t edit) :=
  ⟨fun srv t edit => MySQL.keepsOthers_iff_harmless srv t lowerCase edit,
    fun srv t edit => PostgreSQL.keepsOthers_iff_harmless srv t lowerCase edit⟩

/-! ## An identifier that stops counting -/

namespace MySQL

def integerType : List SqlToken → Option (Text × List SqlToken)
  | .word w :: rest => if isKeyword "INT" w then some ("int".toList, rest) else none
  | _ => none

theorem integerType_tokens (rest : List SqlToken) :
    integerType (LexRules.mysql.tokens (toUpper "int".toList) ++ rest) = some ("int".toList, rest) := by
  have htokens : LexRules.mysql.tokens (toUpper "int".toList) = [.word "INT".toList] := by
    decide +kernel
  have hkeyword : isKeyword "INT" "INT".toList = true := by decide +kernel
  rw [htokens]
  show (if isKeyword "INT" "INT".toList then some ("int".toList, rest) else none) = _
  rw [if_pos hkeyword]

theorem integerType_spec (type : Text) (htype : type = "int".toList) (_ : ValidType type) (w : Text)
    (rest : List SqlToken) (_ : startsAttributes w) :
    integerType (LexRules.mysql.tokens (toUpper type) ++ .word w :: rest) = some (type, .word w :: rest) := by
  rw [htype]
  exact integerType_tokens _

/-- A server with integers, which takes every definition. -/
def integerServer : Server where
  IsType type := type = "int".toList
  dataType := integerType
  dataType_tokens := integerType_spec
  value _ _ := none
  other _ _ := none
  Allows _ _ := true

/-- `id INT NOT NULL AUTO_INCREMENT`. -/
def orders : Loaded integerServer.engine where
  schema := "shop".toList
  table := "orders".toList
  front := []
  column := ⟨"id".toList, "int".toList, false, none, [], { Extra.plain with autoIncrement := true }⟩
  back := []
  keyRows := [("id".toList, primaryKey)]
  distinct := by simp
  holds := rfl

/-- The comment is edited, and the column no longer counts up by itself. -/
theorem comment_drops_autoIncrement :
    ¬orders.KeepsOthers id (.comment "number".toList) := by
  intro hkeeps
  have hharmless := (keepsOthers_iff_harmless integerServer orders id _).1 hkeeps
  have hchanges : Edit.Changes orders.loaded (.comment "number".toList) := by decide +kernel
  have haccepted : Accepted orders.schema orders.table
      (Edit.column orders.loaded (.comment "number".toList)) := by
    refine ⟨?_, ?_, ?_, ?_, ?_, ?_⟩
    · show Matcher.fullMatch identRE "shop".toList = true
      decide +kernel
    · show Matcher.fullMatch identRE "orders".toList = true
      decide +kernel
    · show Matcher.fullMatch identRE "id".toList = true
      decide +kernel
    · show Matcher.fullMatch typeRE "int".toList = true
      decide +kernel
    · intro text htext
      cases htext
    · show hasForbidden "number".toList = false
      decide +kernel
  have hdecoded : decoded "number".toList = some "number".toList := by decide +kernel
  have hregular : Regular (Edit.column orders.loaded (.comment "number".toList)) := by
    refine ⟨?_, ?_⟩
    · intro text htext
      cases htext
    · show (decoded "number".toList).isSome = true
      rw [hdecoded]
      rfl
  obtain ⟨hextra, -, -⟩ := (hharmless hchanges haccepted).1 hregular none _ rfl hdecoded rfl
  exact absurd (congrArg Extra.autoIncrement hextra) (by decide)

end MySQL

end Workbench.Schema
