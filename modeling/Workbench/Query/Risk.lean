import Workbench.Base.Text

/-!
# The risk classifier and the query gate

`api/internal/query/risk.go`, `returnsRows` of `api/internal/query/service.go`, and the checks that
`POST /api/connections/{id}/queries` makes before it starts a query.
-/

set_option autoImplicit false

namespace Workbench.Query

/-- `RiskLevel`, from the least to the most severe. -/
inductive RiskLevel where
  | safe
  | confirm
  | typeTarget
  deriving DecidableEq, Repr

/-- `Risk`; an absent field is empty. -/
structure Risk where
  level : RiskLevel
  kind : Text
  target : Text
  reason : Text
  deriving DecidableEq, Repr

/-- `Risk{Level: Safe}`. -/
def Risk.none : Risk := ⟨.safe, [], [], []⟩

/-- `token`. -/
structure Token where
  text : Text
  depth : Nat
  deriving DecidableEq, Repr

def isSpace (value : Char) : Bool :=
  value = ' ' || value = '\t' || value = '\n' || value = '\r'

def isQuote (c : Char) : Bool := "'\"`".toList.contains c

/-- A character of the default branch: no white space and none of the delimiters. -/
def isWordChar (c : Char) : Bool := !isSpace c && !"(),;'\"`".toList.contains c

/-- A `--` comment runs up to the line feed, which stays in the input. -/
def skipLine : Text → Text
  | [] => []
  | c :: rest => if c = '\n' then c :: rest else skipLine rest

/-- The rest after a block comment. The loop needs two characters to look at: the last character of
an unterminated comment stays in the input. -/
def skipBlock : Text → Text
  | [] => []
  | [c] => [c]
  | c :: d :: rest => if c = '*' ∧ d = '/' then rest else skipBlock (d :: rest)

/-- The rest after quoted text: the quote is doubled, and a backslash takes the next character with
it, in all three kinds of quotes. -/
def skipQuoted (quote : Char) : Text → Text
  | [] => []
  | [_] => []
  | c :: d :: rest =>
    if c = quote then
      if d = quote then skipQuoted quote rest else d :: rest
    else if c = '\\' then skipQuoted quote rest
    else skipQuoted quote (d :: rest)

/-- The main loop of `tokenize`, from the nesting depth and the input that are left. Every round
reads a character, so the length of the input is enough fuel. -/
def tokenizeFrom : Nat → Nat → Text → List Token
  | 0, _, _ => []
  | _ + 1, _, [] => []
  | fuel + 1, depth, c :: rest =>
    if isSpace c then tokenizeFrom fuel depth rest
    else if c = '-' ∧ rest.head? = some '-' then tokenizeFrom fuel depth (skipLine rest.tail)
    else if c = '/' ∧ rest.head? = some '*' then tokenizeFrom fuel depth (skipBlock rest.tail)
    else if isQuote c then tokenizeFrom fuel depth (skipQuoted c rest)
    else if c = '(' then tokenizeFrom fuel (depth + 1) rest
    else if c = ')' then tokenizeFrom fuel (if depth > 0 then depth - 1 else depth) rest
    else
      let text := (c :: rest).takeWhile isWordChar
      if text ≠ [] then
        ⟨text, depth⟩ :: tokenizeFrom fuel depth ((c :: rest).dropWhile isWordChar)
      else tokenizeFrom fuel depth rest

def tokenize (sql : Text) : List Token := tokenizeFrom sql.length 0 sql

/-- The keywords that `Classify` skips on its way to the target. -/
def targetKeywords : List Text :=
  ["TABLE", "DATABASE", "SCHEMA", "VIEW", "IF", "EXISTS"].map String.toList

/-- A token the `WHERE` search of `Classify` stops at. -/
def isTopLevelWhere (item : Token) : Bool :=
  item.depth = 0 && equalFold item.text "WHERE".toList

/-- A token the target search of `Classify` stops at. -/
def isTargetToken (item : Token) : Bool :=
  item.depth = 0 && !targetKeywords.contains (toUpper item.text)

def writeVerbs : List Text := ["UPDATE", "DELETE"].map String.toList

def dropVerbs : List Text := ["DROP", "TRUNCATE"].map String.toList

/-- `Classify` on the tokens of the statement. -/
def classifyTokens : List Token → Risk
  | [] => Risk.none
  | head :: rest =>
    let first := toUpper head.text
    if writeVerbs.contains first then
      if rest.any isTopLevelWhere then Risk.none
      else ⟨.confirm, toLower first ++ "_without_where".toList, [], "语句缺少顶层 WHERE 条件".toList⟩
    else if dropVerbs.contains first then
      let target := ((rest.find? isTargetToken).map Token.text).getD []
      ⟨.typeTarget, toLower first, target, "操作将删除数据库对象".toList⟩
    else Risk.none

def classify (statement : Text) : Risk := classifyTokens (tokenize statement)

/-- The first keywords `returnsRows` sends to `QueryContext`. -/
def rowVerbs : List Text :=
  ["SELECT", "WITH", "SHOW", "DESCRIBE", "DESC", "EXPLAIN", "VALUES"].map String.toList

/-- `returnsRows` on the tokens of the statement. -/
def returnsRowsTokens : List Token → Bool
  | [] => false
  | head :: _ => rowVerbs.contains (toUpper head.text)

def returnsRows (statement : Text) : Bool := returnsRowsTokens (tokenize statement)

/-! ## The query gate -/

/-- The fields of the query request that the gate reads. -/
structure QueryInput where
  sql : Text
  confirmed : Bool
  confirmationTarget : Text
  deriving DecidableEq, Repr

/-- The answers of the gate: the three error codes, or the statement goes on to the driver. -/
inductive GateAnswer where
  | sqlRequired
  | confirmationRequired (risk : Risk)
  | targetConfirmationRequired (risk : Risk)
  | start (sql : Text)
  deriving DecidableEq, Repr

/-- The checks of the query handler between decoding the request and starting the query. -/
def queryGate (input : QueryInput) : GateAnswer :=
  if input.sql = [] then .sqlRequired
  else
    let risk := classify input.sql
    if risk.level = .confirm ∧ !input.confirmed then .confirmationRequired risk
    else if risk.level = .typeTarget ∧
        (!input.confirmed ∨ input.confirmationTarget ≠ risk.target) then
      .targetConfirmationRequired risk
    else .start input.sql

/-- The request passes the gate. -/
def QueryInput.passes (input : QueryInput) : Prop := queryGate input = .start input.sql

instance (input : QueryInput) : Decidable input.passes :=
  inferInstanceAs (Decidable (_ = _))

end Workbench.Query
