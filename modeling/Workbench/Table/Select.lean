import Workbench.Web.Ddl

/-!
# The queries of table tabs

`web/src/features/table/tableQuery.ts`. A tab reads its table with one `SELECT`, built from the filter
rules, the sort, the page and the page size. `Select` keeps the parts of that statement, `Select.text` is
the text that is sent, and `Select.answer` is what the database answers while its rows have a fixed order.
-/

set_option autoImplicit false

namespace Workbench.Table

open Workbench.Query Workbench.Web

inductive FilterOperator where
  | eq
  | ne
  | gt
  | lt
  | ge
  | le
  | like
  | isNull
  | isNotNull
  deriving DecidableEq, Repr

/-- The operator in the text of a condition. -/
def FilterOperator.text : FilterOperator → Text
  | eq => "=".toList
  | ne => "!=".toList
  | gt => ">".toList
  | lt => "<".toList
  | ge => ">=".toList
  | le => "<=".toList
  | like => "like".toList
  | isNull => "is_null".toList
  | isNotNull => "is_not_null".toList

inductive FilterJoin where
  | and
  | or
  deriving DecidableEq, Repr

/-- `join.toUpperCase()`. -/
def FilterJoin.text : FilterJoin → Text
  | and => "AND".toList
  | or => "OR".toList

structure TableFilterRule where
  enabled : Bool
  column : Text
  operator : FilterOperator
  value : Text
  join : FilterJoin
  deriving DecidableEq, Repr

inductive SortDirection where
  | asc
  | desc
  deriving DecidableEq, Repr

/-- `direction.toUpperCase()`. -/
def SortDirection.text : SortDirection → Text
  | asc => "ASC".toList
  | desc => "DESC".toList

structure TableSort where
  column : Text
  direction : SortDirection
  deriving DecidableEq, Repr

/-- The table a tab shows; an absent schema is empty. -/
structure DatabaseObject where
  schema : Text
  name : Text
  deriving DecidableEq, Repr

def qualifiedTableName (table : DatabaseObject) : Text :=
  if table.schema = [] then table.name else table.schema ++ ('.' :: table.name)

def escapeLiteral (value : Text) : Text :=
  '\'' :: (value.flatMap (fun c => if c = '\'' then ['\'', '\''] else [c]) ++ ['\''])

def buildFilterClause (driver : Dialect) (rule : TableFilterRule) : Text :=
  let column := quoteIdent driver rule.column
  match rule.operator with
  | .isNull => column ++ " IS NULL".toList
  | .isNotNull => column ++ " IS NOT NULL".toList
  | .like =>
    column ++ (" LIKE ".toList ++ escapeLiteral (if rule.value = [] then ['%'] else rule.value))
  | operator => column ++ (' ' :: (operator.text ++ (' ' :: escapeLiteral rule.value)))

def isFilterRuleReady (rule : TableFilterRule) : Bool :=
  if !rule.enabled || rule.column = [] then false
  else if rule.operator = .isNull || rule.operator = .isNotNull then true
  else trim rule.value ≠ []

/-- The rules behind the first: each is joined with the word of the rule before it. -/
def joinClauses (driver : Dialect) : TableFilterRule → List TableFilterRule → Text
  | _, [] => []
  | before, rule :: rest =>
    "\n  ".toList ++ (before.join.text ++ (' ' :: (buildFilterClause driver rule ++
      joinClauses driver rule rest)))

def buildWhereClause (driver : Dialect) (rules : List TableFilterRule) : Text :=
  match rules.filter isFilterRuleReady with
  | [] => []
  | first :: rest => buildFilterClause driver first ++ joinClauses driver first rest

structure TableQueryOptions where
  filterRules : List TableFilterRule
  sort : Option TableSort
  page : Nat
  pageSize : Nat
  deriving DecidableEq, Repr

/-- The rows a `LIMIT` clause lets through. -/
structure Window where
  offset : Nat
  count : Nat
  deriving DecidableEq, Repr

structure Select where
  table : Text
  condition : Text
  order : Option TableSort
  limit : Option Window
  deriving DecidableEq, Repr

/-- What `buildTableSelectSQL` puts together. A page size of zero reads the table without a limit. -/
def tableSelect (table : DatabaseObject) (driver : Dialect) (options : TableQueryOptions) : Select :=
  let page := max 1 options.page
  let offset := (page - 1) * max 1 options.pageSize
  ⟨qualifiedTableName table, buildWhereClause driver options.filterRules, options.sort,
    if options.pageSize > 0 then some ⟨offset, options.pageSize⟩ else none⟩

def number (n : Nat) : Text := (toString n).toList

/-- The two spellings of a window. -/
def Window.text (w : Window) : Dialect → Text
  | .mysql => "\nLIMIT ".toList ++ (number w.offset ++ (", ".toList ++ number w.count))
  | .postgres => "\nLIMIT ".toList ++ (number w.count ++ (" OFFSET ".toList ++ number w.offset))

def TableSort.text (s : TableSort) (driver : Dialect) : Text :=
  "\nORDER BY ".toList ++ (quoteIdent driver s.column ++ (' ' :: s.direction.text))

def Select.text (s : Select) (driver : Dialect) : Text :=
  "SELECT".toList ++ (" *\nFROM ".toList ++ (s.table ++
    ((if s.condition = [] then [] else "\nWHERE ".toList ++ s.condition) ++
      (((s.order.map fun o => o.text driver).getD []) ++
        (((s.limit.map fun w => w.text driver).getD []) ++ [';'])))))

def buildTableSelectSQL (table : DatabaseObject) (driver : Dialect) (options : TableQueryOptions) :
    Text :=
  (tableSelect table driver options).text driver

/-- What comes back from a table whose rows under the condition stand, in query order, in `rows`. -/
def Select.answer {R : Type} (s : Select) (rows : List R) : List R :=
  match s.limit with
  | none => rows
  | some w => (rows.drop w.offset).take w.count

/-- The server sends the statement to `QueryContext`: its first word is `SELECT`. -/
theorem returnsRows_select (s : Select) (driver : Dialect) : returnsRows (s.text driver) = true := by
  have hw : gate.scan (betweenAt 0) (s.text driver) =
      gate.scan ⟨.word ['S'], 0⟩ (("ELECT".toList ++ " *\nFROM ".toList) ++ (s.text driver).drop 14) := rfl
  rw [returnsRows, tokenize_eq_scan, hw, scan_word 0 ['S'] _ (by simp) (fun h => absurd h.1 (by decide))
    (fun h => absurd h.1 (by decide))]
  rfl

/-- The window of a page, for a page size that is not `all`. -/
theorem tableSelect_limit (table : DatabaseObject) (driver : Dialect) (options : TableQueryOptions)
    (h : 0 < options.pageSize) :
    (tableSelect table driver options).limit =
      some ⟨(options.page - 1) * options.pageSize, options.pageSize⟩ := by
  have hpage : max 1 options.page - 1 = options.page - 1 := by omega
  have hsize : max 1 options.pageSize = options.pageSize := by omega
  show (if options.pageSize > 0 then some _ else none) = _
  rw [if_pos h, hpage, hsize]

end Workbench.Table
