import Workbench.Schema.Reading
import Workbench.Web.Databases

/-!
# The objects that the DDL of the front end names

A name that looks like an identifier is written as it is (`identRef`), any other is quoted. Read back by
the database, the four builders of `ddl.ts` name their object exactly when each name that is written as it
is stands for itself, no name is empty and, in MySQL, the current database is the one that was meant
(`ddl_designates_iff`).
-/

set_option autoImplicit false

namespace Workbench.Web

open Workbench.Lib

variable (bare : Dialect → Bool → Text → Bool)

/-! ## What a statement names -/

/-- The path behind the words of the statement, and what stands behind the path. -/
def namedBehind (driver : Dialect) (words : List Text) (sql : Text) : Option (List Text × List Lib.SqlToken) :=
  let tokens := driver.rules.tokens sql
  if words.map Lib.SqlToken.word <+: tokens then
    (driver.names bare).readPath false (tokens.drop words.length)
  else none

/-- The schema and the name of the table of a path. A name alone is looked up in the current database;
PostgreSQL has a search path instead, which says nothing about one schema. -/
def resolveTable (driver : Dialect) (current : Text) : List Text → Option (Text × Text)
  | [name] => if driver = .mysql then some (current, name) else none
  | [schema, name] => some (schema, name)
  | _ => none

/-- The statement is about the table, and a token of its own follows the name. -/
def DesignatesTable (driver : Dialect) (current : Text) (words : List Text) (stop : Char) (schema name sql : Text) :
    Prop :=
  ∃ path after, namedBehind bare driver words sql = some (path, after) ∧
    after.head? = some (.symbol stop) ∧ resolveTable driver current path = some (schema, name)

/-- The statement is about the database and nothing else. -/
def DesignatesDatabase (driver : Dialect) (words : List Text) (name sql : Text) : Prop :=
  namedBehind bare driver words sql = some ([name], [.symbol ';'])

/-- Written with `identRef` the name stands for itself. -/
def Stands (driver : Dialect) (behindDot : Bool) (name : Text) : Prop :=
  name ≠ [] ∧ (isValidSqlIdent name = true → bare driver behindDot name = true ∧ name.map driver.fold = name)

/-- The condition on the names of a table. -/
def StandsTable (driver : Dialect) (current schema name : Text) : Prop :=
  match driver with
  | .postgres => Stands bare driver false schema ∧ Stands bare driver true name
  | .mysql => Stands bare driver false name ∧ current = schema

/-! ## The token of a reference -/

/-- What the database reads of a reference. -/
def identToken (driver : Dialect) (name : Text) : Lib.SqlToken :=
  if isValidSqlIdent name then .word name else .quoted (nameMark driver) name

/-- What can follow a reference. -/
def isStop (c : Char) : Bool := c = ' ' || c = '.' || c = ';'

variable {bare} {driver : Dialect}

theorem isIdentChar_of_isIdentPart {c : Char} (h : isIdentPart c = true) : isIdentChar c = true :=
  Schema.isIdentChar_of_isWordChar h

theorem tokens_identRef (name : Text) {c : Char} (hc : isStop c = true) (rest : Text) :
    driver.rules.tokens (identRef driver name ++ c :: rest) =
      identToken driver name :: driver.rules.tokens (c :: rest) := by
  have hcases : c = ' ' ∨ c = '.' ∨ c = ';' := by simpa [isStop, or_assoc] using hc
  rw [identRef, identToken]
  split_ifs with hvalid
  · have hne : name ≠ [] := by
      rintro rfl
      cases hvalid
    have hident : ∀ x ∈ name, isIdentChar x = true := by
      cases name with
      | nil => exact absurd rfl hne
      | cons x more =>
        rw [isValidSqlIdent, Bool.and_eq_true, List.all_eq_true] at hvalid
        have hfirst : isIdentPart x = true := by
          rw [isIdentStart, Bool.or_eq_true] at hvalid
          rw [isIdentPart]
          rcases hvalid.1 with hletter | hline
          · rw [hletter]
            rfl
          · rw [hline, Bool.or_true]
        intro y hy
        rcases List.mem_cons.1 hy with rfl | hy
        · exact isIdentChar_of_isIdentPart hfirst
        · exact isIdentChar_of_isIdentPart (hvalid.2 y hy)
    have hdollar : name.head? ≠ some '$' := by
      cases name with
      | nil => simp
      | cons x more =>
        rw [isValidSqlIdent, Bool.and_eq_true] at hvalid
        intro hhead
        obtain rfl : x = '$' := Option.some.inj hhead
        exact absurd hvalid.1 (by decide)
    obtain ⟨escapePrefix, hrun⟩ := NameRules.run_word (N := driver.names anyWord) hne hident fun _ => hdollar
    refine (hrun.scan (c :: rest)).trans ?_
    rcases hcases with rfl | rfl | rfl
    · exact LexRules.scan_word (by decide) (by decide) ⟨_, _, rfl, fun p hp => by cases hp⟩ escapePrefix name rest
    · exact NameRules.scan_word_stop (N := driver.names anyWord) escapePrefix name (.dot rest)
    · exact NameRules.scan_word_stop (N := driver.names anyWord) escapePrefix name (.semicolon rest)
  · have hrun : driver.rules.reader.Run (.start, .idle) (quoteIdent driver name) []
        (.closed (nameMark driver) false, .quoted (nameMark driver) name) := by
      cases driver with
      | mysql => exact LexRules.run_quoted (R := LexRules.mysql) rfl rfl rfl name
      | postgres => exact LexRules.run_quoted (R := LexRules.postgres) rfl rfl rfl name
    have hmark : (c :: rest).head? ≠ some (nameMark driver) := by
      rcases hcases with rfl | rfl | rfl <;> cases driver <;> simp [nameMark, backtick]
    exact (hrun.scan (c :: rest)).trans (LexRules.scan_closed false name hmark)

/-- The reference is read as its name exactly when the name stands for itself. -/
theorem readName_identToken (behindDot : Bool) (name : Text) :
    (driver.names bare).readName behindDot (identToken driver name) = some name ↔ Stands bare driver behindDot name := by
  have hmark : (driver.names bare).lex.isNameMark (nameMark driver) = true := by
    cases driver <;> rfl
  rw [identToken, Stands]
  split_ifs with hvalid
  · rw [NameRules.readName]
    split_ifs with hbare
    · have hname : name.map driver.fold = name ↔ some (name.map driver.fold) = some name :=
        ⟨fun h => congrArg some h, fun h => Option.some.inj h⟩
      exact ⟨fun h => ⟨hbare.1, fun _ => ⟨hbare.2, Option.some.inj h⟩⟩, fun h => congrArg some (h.2 hvalid).2⟩
    · exact ⟨fun h => (by cases h), fun h => absurd ⟨h.1, (h.2 hvalid).1⟩ hbare⟩
  · rw [NameRules.readName]
    split_ifs with hquoted
    · exact ⟨fun _ => ⟨hquoted.1, fun h => absurd h hvalid⟩, fun _ => rfl⟩
    · exact ⟨fun h => (by cases h), fun h => absurd ⟨h.1, hmark⟩ hquoted⟩

/-! ## The statements -/

def buildCreateDatabaseSQL (driver : Dialect) (name : Text) : Text :=
  "CREATE DATABASE ".toList ++ (identRef driver name ++ [';'])

/-- Behind its words a statement names what stands there. -/
theorem namedBehind_front {words : List Text} {front : Text}
    (h : driver.rules.reader.Run (.start, .idle) front (words.map Lib.SqlToken.word) (.start, .idle)) (text : Text) :
    namedBehind bare driver words (front ++ text) =
      (driver.names bare).readPath false (driver.rules.tokens text) := by
  have htokens : driver.rules.tokens (front ++ text) = words.map Lib.SqlToken.word ++ driver.rules.tokens text :=
    h.scan text
  have hlength : words.length = (words.map Lib.SqlToken.word).length := List.length_map _ |>.symm
  rw [namedBehind, htokens, if_pos (List.prefix_append _ _), hlength, List.drop_left]

/-- What stands behind the reference of a table. -/
structure Behind (driver : Dialect) (stop : Char) (behind : Text) : Prop where
  head : ∃ c rest, behind = c :: rest ∧ isStop c = true
  tokens : ∃ more, driver.rules.tokens behind = .symbol stop :: more
  no_dot : stop ≠ '.'

theorem behind_semicolon : Behind driver ';' [';'] := by
  refine ⟨⟨_, _, rfl, rfl⟩, ⟨[], ?_⟩, by decide⟩
  cases driver <;> rfl

/-- The parentheses of a new table. -/
theorem behind_columns (rest : Text) : Behind driver '(' (" (\n  ".toList ++ rest) := by
  have hrun : driver.rules.reader.Run (.start, .idle) " (\n  ".toList [.symbol '('] (.start, .idle) := by
    cases driver <;> exact ⟨rfl, rfl⟩
  exact ⟨⟨_, _, rfl, rfl⟩, ⟨_, hrun.scan rest⟩, by decide⟩

theorem designatesTable_iff {words : List Text} {front behind : Text} {stop : Char}
    (hfront : driver.rules.reader.Run (.start, .idle) front (words.map Lib.SqlToken.word) (.start, .idle))
    (hbehind : Behind driver stop behind) (current schema name : Text) :
    DesignatesTable bare driver current words stop schema name (front ++ (tableRef driver schema name ++ behind)) ↔
      StandsTable bare driver current schema name := by
  obtain ⟨⟨c, rest, rfl, hc⟩, ⟨more, hmore⟩, hdot⟩ := hbehind
  have hend : (Lib.SqlToken.symbol stop :: more).head? ≠ some (.symbol '.') := by
    simpa using hdot
  rw [DesignatesTable, namedBehind_front hfront]
  cases driver with
  | postgres =>
    show _ ↔ Stands bare .postgres false schema ∧ Stands bare .postgres true name
    have hread : (Dialect.postgres.names bare).readPath false
        (Dialect.postgres.rules.tokens (tableRef .postgres schema name ++ c :: rest)) =
          ((Dialect.postgres.names bare).readName false (identToken .postgres schema)).bind fun first =>
            ((Dialect.postgres.names bare).readName true (identToken .postgres name)).map fun second =>
              ([first, second], .symbol stop :: more) := by
      have hpoint := NameRules.tokens_symbol (N := Dialect.postgres.names bare) (Or.inl rfl)
        (identRef .postgres name ++ c :: rest)
      have htext : tableRef .postgres schema name ++ c :: rest =
          identRef .postgres schema ++ '.' :: (identRef .postgres name ++ c :: rest) := by
        show (_ ++ (_ :: _)) ++ _ = _
        rw [List.append_assoc, List.cons_append]
      have htokens : Dialect.postgres.rules.tokens ('.' :: (identRef .postgres name ++ c :: rest)) =
          .symbol '.' :: identToken .postgres name :: .symbol stop :: more :=
        hpoint.trans (congrArg (_ :: ·) ((tokens_identRef name hc rest).trans (congrArg (_ :: ·) hmore)))
      rw [htext, tokens_identRef schema rfl, htokens, NameRules.readPath_dot,
        NameRules.readPath_cons _ _ hend]
      simp only [Option.map_map]
      rfl
    rw [hread, ← readName_identToken, ← readName_identToken]
    constructor
    · rintro ⟨path, after, hpath, -, hresolve⟩
      obtain ⟨first, hfirst, hpath⟩ := Option.bind_eq_some_iff.1 hpath
      obtain ⟨second, hsecond, hpath⟩ := Option.map_eq_some_iff.1 hpath
      cases hpath
      cases hresolve
      exact ⟨hfirst, hsecond⟩
    · rintro ⟨hfirst, hsecond⟩
      rw [hfirst, hsecond]
      exact ⟨_, _, rfl, rfl, rfl⟩
  | mysql =>
    show _ ↔ Stands bare .mysql false name ∧ current = schema
    have hread : (Dialect.mysql.names bare).readPath false
        (Dialect.mysql.rules.tokens (tableRef .mysql schema name ++ c :: rest)) =
          ((Dialect.mysql.names bare).readName false (identToken .mysql name)).map fun only =>
            ([only], .symbol stop :: more) := by
      show (Dialect.mysql.names bare).readPath false
        (Dialect.mysql.rules.tokens (identRef .mysql name ++ c :: rest)) = _
      rw [tokens_identRef name hc rest, hmore, NameRules.readPath_cons _ _ hend]
    rw [hread, ← readName_identToken]
    constructor
    · rintro ⟨path, after, hpath, -, hresolve⟩
      obtain ⟨only, honly, hpath⟩ := Option.map_eq_some_iff.1 hpath
      cases hpath
      cases hresolve
      exact ⟨honly, rfl⟩
    · rintro ⟨honly, rfl⟩
      rw [honly]
      exact ⟨_, _, rfl, rfl, rfl⟩

theorem designatesDatabase_iff {words : List Text} {front : Text}
    (hfront : driver.rules.reader.Run (.start, .idle) front (words.map Lib.SqlToken.word) (.start, .idle))
    (name : Text) :
    DesignatesDatabase bare driver words name (front ++ (identRef driver name ++ [';'])) ↔
      Stands bare driver false name := by
  have hsemicolon : driver.rules.tokens [';'] = [.symbol ';'] := by
    cases driver <;> rfl
  have hend : ([.symbol ';'] : List Lib.SqlToken).head? ≠ some (.symbol '.') := by simp
  rw [DesignatesDatabase, namedBehind_front hfront, tokens_identRef name rfl, hsemicolon,
    NameRules.readPath_cons _ _ hend, ← readName_identToken]
  constructor
  · intro h
    obtain ⟨only, honly, hpath⟩ := Option.map_eq_some_iff.1 h
    cases hpath
    exact honly
  · intro h
    rw [h]
    rfl

theorem buildDropTableSQL_eq (driver : Dialect) (schema name : Text) :
    buildDropTableSQL driver schema name = "DROP TABLE ".toList ++ (tableRef driver schema name ++ [';']) := by
  cases driver with
  | mysql => rfl
  | postgres =>
    show "DROP TABLE ".toList ++ (identRef .postgres schema ++ ('.' :: (identRef .postgres name ++ [';']))) =
      "DROP TABLE ".toList ++ ((identRef .postgres schema ++ ('.' :: identRef .postgres name)) ++ [';'])
    rw [List.append_assoc, List.cons_append]

/-- Whatever the columns are, the text begins with the reference of the table and a parenthesis. -/
theorem buildCreateTableSQL_eq (driver : Dialect) (schema name : Text) (columns : List CreateTableColumn) :
    ∃ rest, buildCreateTableSQL driver schema name columns =
      "CREATE TABLE ".toList ++ (tableRef driver schema name ++ (" (\n  ".toList ++ rest)) := by
  have hjoin (defs : Text) (comments : List Text) : ∃ rest, joinWith ['\n']
      (("CREATE TABLE ".toList ++ (tableRef driver schema name ++ (" (\n  ".toList ++ defs))) :: comments) =
        "CREATE TABLE ".toList ++ (tableRef driver schema name ++ (" (\n  ".toList ++ rest)) := by
    cases comments with
    | nil => exact ⟨defs, List.intercalate_singleton⟩
    | cons comment more =>
      refine ⟨defs ++ (['\n'] ++ joinWith ['\n'] (comment :: more)), ?_⟩
      rw [joinWith, List.intercalate_cons_cons]
      simp only [List.append_assoc]
      rfl
  exact hjoin _ _

/-- **The DDL names the object that the user sees exactly when its names stand for themselves and, for a
table in MySQL, the current database is the one meant.** -/
theorem ddl_designates_iff (bare : Dialect → Bool → Text → Bool) (driver : Dialect) (current schema name : Text)
    (columns : List CreateTableColumn) :
    (DesignatesTable bare driver current ["DROP".toList, "TABLE".toList] ';' schema name
        (buildDropTableSQL driver schema name) ↔ StandsTable bare driver current schema name) ∧
      (DesignatesTable bare driver current ["CREATE".toList, "TABLE".toList] '(' schema name
        (buildCreateTableSQL driver schema name columns) ↔ StandsTable bare driver current schema name) ∧
      (DesignatesDatabase bare driver ["DROP".toList, "DATABASE".toList] name (buildDropDatabaseSQL driver name) ↔
        Stands bare driver false name) ∧
      (DesignatesDatabase bare driver ["CREATE".toList, "DATABASE".toList] name
        (buildCreateDatabaseSQL driver name) ↔ Stands bare driver false name) := by
  obtain ⟨rest, hcreate⟩ := buildCreateTableSQL_eq driver schema name columns
  have hdropTable : driver.rules.reader.Run (.start, .idle) "DROP TABLE ".toList
      (["DROP".toList, "TABLE".toList].map Lib.SqlToken.word) (.start, .idle) := by
    cases driver <;> exact ⟨rfl, rfl⟩
  have hcreateTable : driver.rules.reader.Run (.start, .idle) "CREATE TABLE ".toList
      (["CREATE".toList, "TABLE".toList].map Lib.SqlToken.word) (.start, .idle) := by
    cases driver <;> exact ⟨rfl, rfl⟩
  have hdropDatabase : driver.rules.reader.Run (.start, .idle) "DROP DATABASE ".toList
      (["DROP".toList, "DATABASE".toList].map Lib.SqlToken.word) (.start, .idle) := by
    cases driver <;> exact ⟨rfl, rfl⟩
  have hcreateDatabase : driver.rules.reader.Run (.start, .idle) "CREATE DATABASE ".toList
      (["CREATE".toList, "DATABASE".toList].map Lib.SqlToken.word) (.start, .idle) := by
    cases driver <;> exact ⟨rfl, rfl⟩
  refine ⟨?_, ?_, ?_, ?_⟩
  · rw [buildDropTableSQL_eq]
    exact designatesTable_iff hdropTable behind_semicolon current schema name
  · rw [hcreate]
    exact designatesTable_iff hcreateTable (behind_columns rest) current schema name
  · exact designatesDatabase_iff hdropDatabase name
  · exact designatesDatabase_iff hcreateDatabase name

/-- `public."Users"` is dropped as `public.users`. -/
theorem buildDropTableSQL_folds :
    DesignatesTable anyWord .postgres "app".toList ["DROP".toList, "TABLE".toList] ';' "public".toList
        "users".toList (buildDropTableSQL .postgres "public".toList "Users".toList) ∧
      ¬DesignatesTable anyWord .postgres "app".toList ["DROP".toList, "TABLE".toList] ';' "public".toList
        "Users".toList (buildDropTableSQL .postgres "public".toList "Users".toList) := by
  have hread : namedBehind anyWord .postgres ["DROP".toList, "TABLE".toList]
      (buildDropTableSQL .postgres "public".toList "Users".toList) =
        some (["public".toList, "users".toList], [.symbol ';']) := by
    decide +kernel
  refine ⟨⟨_, _, hread, rfl, rfl⟩, ?_⟩
  rintro ⟨path, after, hpath, -, hresolve⟩
  obtain ⟨rfl, rfl⟩ := Prod.mk.inj (Option.some.inj (hread.symm.trans hpath))
  exact absurd hresolve (by decide)

end Workbench.Web
