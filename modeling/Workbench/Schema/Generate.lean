import Workbench.Lib.Backtrack
import Workbench.Schema.Model

/-!
# The generator of schema changes

`Generate` of `api/internal/schema/generate.go` and the functions it calls. The two regular
expressions are matchers; both are anchored at the start and at the end of the text. A formatted text
is the concatenation of its parts.
-/

set_option autoImplicit false

namespace Workbench.Schema

open Workbench.Lib

/-! ## The regular expressions -/

def isIdentStart (c : Char) : Bool := isLetter c || c = '_'

def isIdentPart (c : Char) : Bool := isLetter c || isDigit c || c = '_' || c = '$'

/-- `identRE`. -/
def identRE : Matcher Char := Matcher.seq (Matcher.one isIdentStart) (Matcher.many isIdentPart)

/-- A character behind the first of the name of a type. -/
def isTypePart (c : Char) : Bool := isLetter c || isDigit c || c = '_' || c = ' '

def char (c : Char) : Matcher Char := Matcher.one fun x => x = c

/-- The sizes of a type in their parentheses. -/
def typeSizes : Matcher Char :=
  Matcher.seq (char '(') (Matcher.seq (Matcher.many1 isDigit)
    (Matcher.seq (Matcher.opt (Matcher.seq (char ',') (Matcher.many1 isDigit))) (char ')')))

/-- `typeRE`. -/
def typeRE : Matcher Char :=
  Matcher.seq (Matcher.one isLetter) (Matcher.seq (Matcher.many isTypePart)
    (Matcher.seq (Matcher.opt typeSizes) (Matcher.opt (Matcher.seq (char '[') (char ']')))))

/-! ## Strings -/

/-- `strings.TrimSpace(text) == ""`. -/
def isBlankText (text : Text) : Bool := text.all isGoSpace

/-- `strings.ContainsAny(text, ";\x00")`. -/
def hasForbidden (text : Text) : Bool := text.any fun c => c = ';' || c = '\x00'

/-- `strings.Join(items, ", ")`. -/
def joinComma (items : List Text) : Text := List.intercalate ", ".toList items

def sqlStringLiteral (value : Text) : Text :=
  '\'' :: (value.flatMap (fun c => if c = '\'' then ['\'', '\''] else [c]) ++ ['\''])

/-! ## Names -/

/-- The mark that quotes a name. -/
def nameMark : Dialect → Char
  | .mysql => backtick
  | .postgres => '"'

/-- The function that `quoter` returns. -/
def quote (d : Dialect) (name : Text) : Except GenerateError Text :=
  if Matcher.fullMatch identRE name then .ok (nameMark d :: (name ++ [nameMark d]))
  else .error (.invalidIdentifier name)

def qualified (d : Dialect) (schema table : Text) : Except GenerateError Text := do
  let a ← quote d schema
  let b ← quote d table
  .ok (a ++ '.' :: b)

/-- The loop over a list of columns. -/
def quoteAll (d : Dialect) : List Text → Except GenerateError (List Text)
  | [] => .ok []
  | name :: rest => do
    let quoted ← quote d name
    let more ← quoteAll d rest
    .ok (quoted :: more)

/-! ## Parts of statements -/

/-- What `columnDef` writes behind the type, or its error. -/
def columnDef (d : Dialect) (c : Column) : Except GenerateError Text := do
  let n ← quote d c.name
  if !Matcher.fullMatch typeRE c.type then .error .invalidColumnType
  else
    let v := n ++ ' ' :: toUpper c.type
    let v := if !c.nullable then v ++ " NOT NULL".toList else v
    let v ← match c.default with
      | none => .ok v
      | some text =>
        if hasForbidden text then .error .invalidDefault
        else .ok (v ++ " DEFAULT ".toList ++ text)
    match d with
    | .postgres => .ok v
    | .mysql =>
      if hasForbidden c.comment then .error .invalidComment
      else .ok (v ++ " COMMENT ".toList ++ sqlStringLiteral c.comment)

def addIndexSQL (d : Dialect) (table : Text) (i : Index) : Except GenerateError Text := do
  let n ← quote d i.name
  let cols ← quoteAll d i.columns
  let u := if i.unique then "UNIQUE ".toList else []
  match d with
  | .postgres =>
    .ok ["CREATE ".toList, u, "INDEX ".toList, n, " ON ".toList, table, " (".toList,
      joinComma cols, ")".toList].flatten
  | .mysql =>
    .ok ["ALTER TABLE ".toList, table, " ADD ".toList, u, "INDEX ".toList, n, " (".toList,
      joinComma cols, ")".toList].flatten

def referentialActions : List Text :=
  ["CASCADE", "RESTRICT", "SET NULL", "NO ACTION"].map String.toList

/-- One round of the loop over `ON DELETE` and `ON UPDATE`. -/
def referentialAction (keyword value : Text) : Except GenerateError Text :=
  if value = [] then .ok []
  else if referentialActions.contains (toUpper value) then
    .ok (' ' :: (keyword ++ ' ' :: toUpper value))
  else .error .invalidForeignKeyAction

def foreignKeySQL (d : Dialect) (table : Text) (f : ForeignKey) : Except GenerateError Text := do
  let n ← quote d f.name
  let ref ← qualified d f.refSchema f.refTable
  let cols ← quoteAll d f.columns
  let refs ← quoteAll d f.refColumns
  if cols.length = 0 ∨ cols.length ≠ refs.length then .error .foreignKeyColumnsMismatch
  else
    let onDelete ← referentialAction "ON DELETE".toList f.onDelete
    let onUpdate ← referentialAction "ON UPDATE".toList f.onUpdate
    .ok ["ALTER TABLE ".toList, table, " ADD CONSTRAINT ".toList, n, " FOREIGN KEY (".toList,
      joinComma cols, ") REFERENCES ".toList, ref, " (".toList, joinComma refs, ")".toList,
      onDelete, onUpdate].flatten

/-! ## The cases of the switch -/

/-- What one operation appends to the preview. -/
structure Output where
  statements : List Statement
  risks : List Risk
  deriving DecidableEq, Repr

def Output.append (a b : Output) : Output := ⟨a.statements ++ b.statements, a.risks ++ b.risks⟩

/-- The shared append behind the switch. -/
def Output.one (sql : Text) (destructive : Bool) (risks : List Risk) : Output :=
  ⟨[⟨sql, destructive⟩], risks⟩

def commentOn (table col : Text) (value : Text) : Text :=
  ["COMMENT ON COLUMN ".toList, table, ".".toList, col, " IS ".toList, value].flatten

def alterTable (table : Text) (action : List Text) : Text :=
  "ALTER TABLE ".toList ++ (table ++ ' ' :: action.flatten)

def addColumn (d : Dialect) (table : Text) (c : Column) : Except GenerateError Output := do
  let definition ← columnDef d c
  let added : Statement := ⟨alterTable table ["ADD COLUMN ".toList, definition], false⟩
  if d = .postgres ∧ !isBlankText c.comment then
    let col ← quote d c.name
    .ok ⟨[added, ⟨commentOn table col (sqlStringLiteral c.comment), false⟩], []⟩
  else .ok ⟨[added], []⟩

def dropColumn (d : Dialect) (table name : Text) : Except GenerateError Output := do
  let n ← quote d name
  .ok (.one (alterTable table ["DROP COLUMN ".toList, n]) true
    [⟨.danger, .dropColumn, name, "删除字段会永久丢失该列数据".toList⟩])

def renameColumn (d : Dialect) (table name newName : Text) : Except GenerateError Output := do
  let a ← quote d name
  let b ← quote d newName
  .ok (.one (alterTable table ["RENAME COLUMN ".toList, a, " TO ".toList, b]) false [])

/-- The actions of a PostgreSQL `ALTER TABLE` that redefines a column. -/
def alterActions (n : Text) (c : Column) : List Text :=
  [["ALTER COLUMN ".toList, n, " TYPE ".toList, toUpper c.type].flatten,
    ["ALTER COLUMN ".toList, n,
      if c.nullable then " DROP NOT NULL".toList else " SET NOT NULL".toList].flatten,
    match c.default with
    | none => ["ALTER COLUMN ".toList, n, " DROP DEFAULT".toList].flatten
    | some text => ["ALTER COLUMN ".toList, n, " SET DEFAULT ".toList, text].flatten]

def alterColumn (d : Dialect) (table : Text) (c : Column) : Except GenerateError Output := do
  let n ← quote d c.name
  if !Matcher.fullMatch typeRE c.type then .error .invalidColumnType
  else
    let sql ← match d with
      | .postgres => .ok (alterTable table [joinComma (alterActions n c)])
      | .mysql => do
        let definition ← columnDef d c
        .ok (alterTable table ["MODIFY COLUMN ".toList, definition])
    .ok (.one sql false
      [⟨.warning, .alterColumn, c.name, "修改字段类型可能导致数据转换失败".toList⟩])

def setColumnComment (d : Dialect) (table : Text) (c : Column) : Except GenerateError Output := do
  let col ← quote d c.name
  match d with
  | .postgres =>
    let value := if isBlankText c.comment then "NULL".toList else sqlStringLiteral c.comment
    .ok (.one (commentOn table col value) false [])
  | .mysql => do
    let definition ← columnDef d c
    .ok (.one (alterTable table ["MODIFY COLUMN ".toList, definition]) false [])

def setPrimary (d : Dialect) (table tableName name : Text) : Except GenerateError Output := do
  let col ← quote d name
  let risks : List Risk :=
    [⟨.warning, .setPrimary, name, "修改主键可能影响关联表与查询性能".toList⟩]
  match d with
  | .mysql =>
    .ok (.one (alterTable table ["DROP PRIMARY KEY, ADD PRIMARY KEY (".toList, col, ")".toList])
      false risks)
  | .postgres => do
    let constraint ← quote d (tableName ++ "_pkey".toList)
    .ok ⟨[⟨alterTable table ["DROP CONSTRAINT IF EXISTS ".toList, constraint], true⟩,
      ⟨alterTable table ["ADD PRIMARY KEY (".toList, col, ")".toList], false⟩], risks⟩

def dropPrimary (d : Dialect) (table tableName : Text) : Except GenerateError Output := do
  let sql ← match d with
    | .mysql => .ok (alterTable table ["DROP PRIMARY KEY".toList])
    | .postgres => do
      let constraint ← quote d (tableName ++ "_pkey".toList)
      .ok (alterTable table ["DROP CONSTRAINT IF EXISTS ".toList, constraint])
  .ok (.one sql true
    [⟨.danger, .dropPrimary, tableName, "删除主键后表数据编辑能力会受限".toList⟩])

def addIndex (d : Dialect) (table : Text) (i : Index) : Except GenerateError Output := do
  let sql ← addIndexSQL d table i
  .ok (.one sql false [])

def dropIndex (d : Dialect) (table name : Text) : Except GenerateError Output := do
  let n ← quote d name
  let sql := match d with
    | .postgres => "DROP INDEX ".toList ++ n
    | .mysql => alterTable table ["DROP INDEX ".toList, n]
  .ok (.one sql true [⟨.warning, .dropIndex, name, "删除索引可能影响查询性能".toList⟩])

def addForeignKey (d : Dialect) (table : Text) (f : ForeignKey) : Except GenerateError Output := do
  let sql ← foreignKeySQL d table f
  .ok (.one sql false [])

def dropForeignKey (d : Dialect) (table name : Text) : Except GenerateError Output := do
  let n ← quote d name
  let keyword := match d with
    | .mysql => "FOREIGN KEY".toList
    | .postgres => "CONSTRAINT".toList
  .ok (.one (alterTable table ["DROP ".toList, keyword, " ".toList, n]) true
    [⟨.warning, .dropForeignKey, name, "删除外键会移除引用完整性保护".toList⟩])

/-- One round of the loop over the operations. -/
def generateOperation (d : Dialect) (table tableName : Text) (op : Operation) :
    Except GenerateError Output :=
  match OperationKind.parse op.kind with
  | some .addColumn => addColumn d table op.column
  | some .dropColumn => dropColumn d table op.name
  | some .renameColumn => renameColumn d table op.name op.newName
  | some .alterColumn => alterColumn d table op.column
  | some .setColumnComment => setColumnComment d table op.column
  | some .setPrimary => setPrimary d table tableName op.name
  | some .dropPrimary => dropPrimary d table tableName
  | some .addIndex => addIndex d table op.index
  | some .dropIndex => dropIndex d table op.name
  | some .addForeignKey => addForeignKey d table op.foreignKey
  | some .dropForeignKey => dropForeignKey d table op.name
  | none => .error (.unsupportedOperation op.kind)

def generateOperations (d : Dialect) (table tableName : Text) :
    List Operation → Except GenerateError Output
  | [] => .ok ⟨[], []⟩
  | op :: rest => do
    let out ← generateOperation d table tableName op
    let more ← generateOperations d table tableName rest
    .ok (out.append more)

def mysqlWarning : Text := "MySQL DDL 可能隐式提交，多条语句无法保证原子回滚".toList

/-- `Generate`. -/
def generate (dialect schemaName tableName : Text) (ops : List Operation) :
    Except GenerateError Preview :=
  match Dialect.parse dialect with
  | none => .error .unsupportedDialect
  | some d => do
    let table ← qualified d schemaName tableName
    let out ← generateOperations d table tableName ops
    let warnings := if d = .mysql ∧ out.statements.length > 1 then [mysqlWarning] else []
    .ok ⟨out.statements, out.risks, warnings, [], [], 0⟩

end Workbench.Schema
