import Workbench.Schema.Catalog
import Workbench.Schema.Clauses

/-!
# What the servers do to a column

The meaning of the statements that redefine a column: `MODIFY COLUMN` of MySQL, which carries no
attribute over that the definition does not name, and the actions of `ALTER COLUMN` and the statement
`COMMENT ON COLUMN` of PostgreSQL, which change what they name; a new type takes its own collation,
storage and compression along. A statement that a server refuses changes nothing.

What is particular to a server, its types, the constants it stores for a default and the rows it holds,
is a parameter. In MySQL `explicit_defaults_for_timestamp` is on, as it is unless it is turned off.
-/

set_option autoImplicit false

namespace Workbench.Schema

open Workbench.Lib

/-- What a statement does to a column; `none` when the server refuses it. -/
structure ColumnChange (δ ε : Type) where
  schema : Text
  table : Text
  column : Text
  change : CatalogColumn δ ε → Option (CatalogColumn δ ε)

/-- A server, as far as statements about columns go. -/
structure Engine where
  dialect : Dialect
  /-- Its defaults. -/
  Default : Type
  /-- The attributes that its catalog does not show. -/
  Extra : Type
  /-- What the catalog shows of a default. -/
  text : Default → Text
  /-- The column is one that the server can hold. -/
  Holds : CatalogColumn Default Extra → Prop
  /-- The change that a statement asks for. -/
  read : Text → Option (ColumnChange Default Extra)

namespace Engine

variable (E : Engine)

abbrev Entry : Type := CatalogColumn E.Default E.Extra

/-- Change the column with the name. -/
def change (name : Text) (f : E.Entry → Option E.Entry) : List E.Entry → Option (List E.Entry)
  | [] => none
  | e :: rest => if e.name = name then (f e).map (· :: rest) else (change name f rest).map (e :: ·)

/-- One statement on the columns of a table. -/
def exec (schema table : Text) (sql : Text) (entries : List E.Entry) : Option (List E.Entry) := do
  let c ← E.read sql
  if c.schema = schema ∧ c.table = table then E.change c.column c.change entries else none

/-- The statements of a preview, up to the first that is refused. -/
def run (schema table : Text) : List Statement → List E.Entry → List E.Entry
  | [], entries => entries
  | s :: rest, entries =>
    match E.exec schema table s.sql entries with
    | none => entries
    | some entries' => run schema table rest entries'

variable {E}

theorem change_append {front back : List E.Entry} {e : E.Entry}
    (hfront : e.name ∉ front.map CatalogColumn.name) (f : E.Entry → Option E.Entry) :
    E.change e.name f (front ++ e :: back) = (f e).map fun e' => front ++ e' :: back := by
  induction front with
  | nil =>
    rw [List.nil_append, change, if_pos rfl]
    rfl
  | cons first rest ih =>
    rw [List.map_cons, List.mem_cons, not_or] at hfront
    rw [List.cons_append, change, if_neg (Ne.symm hfront.1), ih hfront.2, Option.map_map]
    rfl

/-- **One statement about one column: it is changed in its place, or nothing is.** -/
theorem run_single {schema table : Text} {s : Statement} {front back : List E.Entry} {e : E.Entry}
    {f : E.Entry → Option E.Entry} (hread : E.read s.sql = some ⟨schema, table, e.name, f⟩)
    (hfront : e.name ∉ front.map CatalogColumn.name) :
    E.run schema table [s] (front ++ e :: back) = front ++ (f e).getD e :: back := by
  have hexec : E.exec schema table s.sql (front ++ e :: back) =
      (f e).map fun e' => front ++ e' :: back := by
    rw [exec, hread]
    exact (if_pos ⟨rfl, rfl⟩).trans (change_append hfront f)
  rw [run, hexec]
  cases f e with
  | none => rfl
  | some e' => rfl

end Engine

/-! ## Tokens of statements -/

def isKeyword (keyword : String) (word : Text) : Bool := Place.isKeyword keyword word

/-- A keyword is the next token. -/
def dropKeyword (keyword : String) : List SqlToken → Option (List SqlToken)
  | .word w :: rest => if isKeyword keyword w then some rest else none
  | _ => none

theorem dropKeyword_word {keyword : String} {w : Text} (h : isKeyword keyword w = true)
    (rest : List SqlToken) : dropKeyword keyword (.word w :: rest) = some rest := if_pos h

theorem dropKeyword_other {keyword : String} {w : Text} (h : isKeyword keyword w = false)
    (rest : List SqlToken) : dropKeyword keyword (.word w :: rest) = none := by
  rw [dropKeyword, h, if_neg Bool.false_ne_true]

/-- A quoted text is the next token. -/
def takeQuoted : List SqlToken → Option (Char × Text × List SqlToken)
  | .quoted mark value :: rest => some (mark, value, rest)
  | _ => none

def dropSymbol (c : Char) : List SqlToken → Option (List SqlToken)
  | .symbol x :: rest => if x = c then some rest else none
  | _ => none

/-- A table with its schema and the tokens behind it. -/
def takeTable (tokens : List SqlToken) : Option (Text × Text × List SqlToken) := do
  let (_, schema, rest) ← takeQuoted tokens
  let rest ← dropSymbol '.' rest
  let (_, table, rest) ← takeQuoted rest
  some (schema, table, rest)

/-- The table of an `ALTER TABLE` and its actions. -/
def takeAlter (tokens : List SqlToken) : Option (Text × Text × List SqlToken) := do
  let rest ← dropKeyword "ALTER" tokens
  let rest ← dropKeyword "TABLE" rest
  takeTable rest

/-! ## MySQL -/

namespace MySQL

/-- A default: what `COLUMN_DEFAULT` shows of it, and whether it is an expression or a constant. -/
structure Default where
  text : Text
  expression : Bool
  deriving DecidableEq, Repr

/-- What a definition can say of a column apart from its type, nullability, default and comment. -/
structure Extra where
  autoIncrement : Bool
  onUpdate : Option Text
  generated : Option Text
  invisible : Bool
  collation : Option Text
  others : List Text
  deriving DecidableEq, Repr

/-- A definition says none of it. -/
def Extra.plain : Extra := ⟨false, none, none, false, none, []⟩

abbrev Entry := CatalogColumn Default Extra

/-- The part of a definition behind the type. -/
structure Attributes where
  nullable : Bool
  default : Option Default
  comment : Text
  extra : Extra
  deriving DecidableEq, Repr

/-- The attributes of a column. -/
def attributesOf (e : Entry) : Attributes := ⟨e.nullable, e.default, e.comment, e.extra⟩

/-- A column under a new definition. -/
def redefine (e : Entry) (type : Text) (a : Attributes) : Entry :=
  ⟨e.name, type, a.nullable, a.default, a.comment, a.extra⟩

/-- The keywords that may start an attribute, and those that end a definition. -/
def attributeKeywords : List String :=
  ["NOT", "NULL", "DEFAULT", "VISIBLE", "INVISIBLE", "AUTO_INCREMENT", "UNIQUE", "PRIMARY", "KEY",
    "COMMENT", "COLLATE", "COLUMN_FORMAT", "ENGINE_ATTRIBUTE", "SECONDARY_ENGINE_ATTRIBUTE", "STORAGE",
    "ON", "GENERATED", "AS", "VIRTUAL", "STORED", "SRID", "SERIAL", "REFERENCES", "CONSTRAINT", "CHECK",
    "FIRST", "AFTER"]

/-- A token that may stand in a default behind its first. -/
def inValue : SqlToken → Bool
  | .word w => !attributeKeywords.any fun keyword => isKeyword keyword w
  | .quoted _ _ => true
  | .symbol c => c ≠ ',' && c ≠ ';'
  | .comment => false
  | .executable => false
  | .unclosed => false

/-- The tokens of one default. -/
def isValue : List SqlToken → Bool
  | [] => false
  | _ :: rest => rest.all inValue

/-- `[NOT NULL] [DEFAULT …] COMMENT '…'`. -/
structure Clauses where
  nullable : Bool
  value : Option (List SqlToken)
  comment : Text
  deriving DecidableEq, Repr

def readNull (tokens : List SqlToken) : Bool × List SqlToken :=
  match dropKeyword "NOT" tokens >>= dropKeyword "NULL" with
  | some rest => (false, rest)
  | none => (true, tokens)

/-- The comment at the end of a definition and the tokens in front of it. -/
def readComment (tokens : List SqlToken) : Option (List SqlToken × Text) :=
  match tokens.reverse with
  | .quoted mark comment :: .word w :: front =>
    if mark = '\'' ∧ isKeyword "COMMENT" w then some (front.reverse, comment) else none
  | _ => none

/-- The default; the outer `none` is another list of attributes. -/
def readDefault (tokens : List SqlToken) : Option (Option (List SqlToken)) :=
  match tokens with
  | [] => some none
  | _ :: _ => do
    let value ← dropKeyword "DEFAULT" tokens
    if isValue value then some (some value) else none

def readClauses (tokens : List SqlToken) : Option Clauses := do
  let (nullable, rest) := readNull tokens
  let (front, comment) ← readComment rest
  let value ← readDefault front
  some ⟨nullable, value, comment⟩

/-- The words that the generator writes behind a type. -/
def startsAttributes (w : Text) : Prop :=
  w = "NOT".toList ∨ w = "DEFAULT".toList ∨ w = "COMMENT".toList

/-- A server of MySQL. -/
structure Server where
  /-- The texts that `COLUMN_TYPE` shows. -/
  IsType : Text → Prop
  /-- The type that a definition starts with, as `COLUMN_TYPE` shows it, and the rest. -/
  dataType : List SqlToken → Option (Text × List SqlToken)
  /-- A type that is shown can be written, in capitals, in front of an attribute. -/
  dataType_tokens : ∀ type, IsType type → ValidType type → ∀ w rest, startsAttributes w →
    dataType (LexRules.mysql.tokens (toUpper type) ++ .word w :: rest) = some (type, .word w :: rest)
  /-- What a default is for a column of the type: `none` when it is refused, and no default for NULL. -/
  value : Text → List SqlToken → Option (Option Default)
  /-- What another list of attributes says. -/
  other : Text → List SqlToken → Option Attributes
  /-- The rows and the keys of the table let the column change. -/
  Allows : Entry → Entry → Bool

namespace Server

variable (srv : Server)

/-- The attributes that a definition gives a column of the type. -/
def define (type : Text) (tokens : List SqlToken) : Option Attributes :=
  match readClauses tokens with
  | none => srv.other type tokens
  | some clauses => do
    let default ← match clauses.value with
      | none => some none
      | some tokens => srv.value type tokens
    some ⟨clauses.nullable, default, clauses.comment, Extra.plain⟩

/-- `MODIFY COLUMN`. -/
def modify (definition : List SqlToken) (e : Entry) : Option Entry := do
  let (type, rest) ← srv.dataType definition
  let a ← srv.define type rest
  if srv.Allows e (redefine e type a) then some (redefine e type a) else none

def read (sql : Text) : Option (ColumnChange Default Extra) := do
  let (schema, table, rest) ← takeAlter (LexRules.mysql.tokens sql)
  let rest ← dropKeyword "MODIFY" rest
  let rest ← dropKeyword "COLUMN" rest
  let (_, column, definition) ← takeQuoted rest
  some ⟨schema, table, column, srv.modify definition⟩

abbrev engine : Engine where
  dialect := .mysql
  Default := Default
  Extra := Extra
  text := Default.text
  Holds e := srv.IsType e.type
  read := srv.read

end Server

end MySQL

/-! ## PostgreSQL -/

namespace PostgreSQL

/-- What a column takes from its type unless it is given its own. -/
structure Properties where
  collation : Text
  storage : Text
  compression : Text
  deriving DecidableEq, Repr

structure Extra where
  identity : Bool
  generated : Bool
  properties : Properties
  deriving DecidableEq, Repr

/-- A default is the expression that `pg_get_expr` shows. -/
abbrev Entry := CatalogColumn Text Extra

/-- A server of PostgreSQL. -/
structure Server where
  /-- The texts that `format_type` shows. -/
  IsType : Text → Prop
  /-- The type that the tokens start with, as `format_type` shows it, and the rest. -/
  dataType : List SqlToken → Option (Text × List SqlToken)
  /-- A type that is shown can be written, in capitals unless it is quoted, in front of a comma. -/
  dataType_tokens : ∀ type, IsType type → ValidType type → ∀ rest,
    dataType (LexRules.postgres.tokens (toUpper type) ++ .symbol ',' :: rest) =
      some (type, .symbol ',' :: rest)
  /-- The texts that `pg_get_expr` shows. -/
  IsExpression : Text → Prop
  /-- The expression that the tokens are, as `pg_get_expr` shows it. -/
  expression : List SqlToken → Option Text
  /-- An expression that is shown can be written. -/
  expression_tokens : ∀ text, IsExpression text →
    expression (LexRules.postgres.tokens text) = some text
  properties : Text → Properties
  /-- The rows and the keys of the table let the column change. -/
  Allows : Entry → Entry → Bool

/-- `SET NOT NULL` and `DROP NOT NULL`. -/
def readNotNull (tokens : List SqlToken) : Option (Bool × List SqlToken) := do
  let (nullable, rest) ← match dropKeyword "DROP" tokens with
    | some rest => some (true, rest)
    | none => (dropKeyword "SET" tokens).map fun rest => (false, rest)
  let rest ← dropKeyword "NOT" rest
  let rest ← dropKeyword "NULL" rest
  some (nullable, rest)

/-- The front of an action: `ALTER COLUMN` and the name. -/
def takeColumn (tokens : List SqlToken) : Option (Text × List SqlToken) := do
  let rest ← dropKeyword "ALTER" tokens
  let rest ← dropKeyword "COLUMN" rest
  let (_, column, rest) ← takeQuoted rest
  some (column, rest)

/-- The front of an action about a column that has been named before. -/
def takeSameColumn (column : Text) (tokens : List SqlToken) : Option (List SqlToken) := do
  let rest ← dropSymbol ',' tokens
  let (again, rest) ← takeColumn rest
  if again = column then some rest else none

namespace Server

variable (srv : Server)

/-- `DROP DEFAULT` and `SET DEFAULT`, the last of the actions. -/
def readDefault (tokens : List SqlToken) : Option (Option Text) :=
  match dropKeyword "DROP" tokens with
  | some rest => (dropKeyword "DEFAULT" rest).map fun _ => none
  | none => do
    let rest ← dropKeyword "SET" tokens
    let rest ← dropKeyword "DEFAULT" rest
    let text ← srv.expression rest
    some (some text)

/-- The three actions in a row. A default cannot be set where values are generated. -/
def alter (type : Text) (nullable : Bool) (default : Option Text) (e : Entry) : Option Entry :=
  let e' : Entry := ⟨e.name, type, nullable, default, e.comment,
    { e.extra with properties := srv.properties type }⟩
  if e.extra.identity || e.extra.generated then none
  else if srv.Allows e e' then some e' else none

def readAlter (tokens : List SqlToken) : Option (ColumnChange Text Extra) := do
  let (schema, table, rest) ← takeAlter tokens
  let (column, rest) ← takeColumn rest
  let rest ← dropKeyword "TYPE" rest
  let (type, rest) ← srv.dataType rest
  let rest ← takeSameColumn column rest
  let (nullable, rest) ← readNotNull rest
  let rest ← takeSameColumn column rest
  let default ← srv.readDefault rest
  some ⟨schema, table, column, srv.alter type nullable default⟩

/-- `NULL`, or a comment in quotes. -/
def readCommentValue : List SqlToken → Option Text
  | [.word w] => if isKeyword "NULL" w then some [] else none
  | [.quoted _ comment] => some comment
  | _ => none

/-- `COMMENT ON COLUMN`. -/
def readComment (tokens : List SqlToken) : Option (ColumnChange Text Extra) := do
  let rest ← dropKeyword "COMMENT" tokens
  let rest ← dropKeyword "ON" rest
  let rest ← dropKeyword "COLUMN" rest
  let (schema, table, rest) ← takeTable rest
  let rest ← dropSymbol '.' rest
  let (_, column, rest) ← takeQuoted rest
  let rest ← dropKeyword "IS" rest
  let comment ← readCommentValue rest
  some ⟨schema, table, column, fun e => some { e with comment := comment }⟩

def read (sql : Text) : Option (ColumnChange Text Extra) :=
  match srv.readAlter (LexRules.postgres.tokens sql) with
  | some c => some c
  | none => readComment (LexRules.postgres.tokens sql)

abbrev engine : Engine where
  dialect := .postgres
  Default := Text
  Extra := Extra
  text := id
  Holds e := srv.IsType e.type ∧ ∀ text, e.default = some text → srv.IsExpression text
  read := srv.read

end Server

end PostgreSQL

end Workbench.Schema
