import Workbench.Base.Dialect

/-!
# The data of schema changes

`api/internal/schema/model.go`, the kinds of operations that `Generate` switches over, and its errors.
-/

set_option autoImplicit false

namespace Workbench.Schema

structure Column where
  name : Text
  type : Text
  nullable : Bool
  default : Option Text
  comment : Text
  primary : Bool
  deriving DecidableEq, Repr, Inhabited

structure Index where
  name : Text
  columns : List Text
  unique : Bool
  deriving DecidableEq, Repr, Inhabited

structure ForeignKey where
  name : Text
  columns : List Text
  refSchema : Text
  refTable : Text
  refColumns : List Text
  onDelete : Text
  onUpdate : Text
  deriving DecidableEq, Repr, Inhabited

structure Table where
  schema : Text
  name : Text
  columns : List Column
  indexes : List Index
  foreignKeys : List ForeignKey
  deriving DecidableEq, Repr, Inhabited

/-- The cases of the switch in `Generate`. -/
inductive OperationKind where
  | addColumn
  | dropColumn
  | renameColumn
  | alterColumn
  | setColumnComment
  | setPrimary
  | dropPrimary
  | addIndex
  | dropIndex
  | addForeignKey
  | dropForeignKey
  deriving DecidableEq, Repr

namespace OperationKind

/-- The name of the kind in requests and risks. -/
def text : OperationKind → Text
  | addColumn => "add_column".toList
  | dropColumn => "drop_column".toList
  | renameColumn => "rename_column".toList
  | alterColumn => "alter_column".toList
  | setColumnComment => "set_column_comment".toList
  | setPrimary => "set_primary".toList
  | dropPrimary => "drop_primary".toList
  | addIndex => "add_index".toList
  | dropIndex => "drop_index".toList
  | addForeignKey => "add_foreign_key".toList
  | dropForeignKey => "drop_foreign_key".toList

def all : List OperationKind :=
  [addColumn, dropColumn, renameColumn, alterColumn, setColumnComment, setPrimary, dropPrimary,
    addIndex, dropIndex, addForeignKey, dropForeignKey]

/-- The case that the switch takes; `none` is its default. -/
def parse (text : Text) : Option OperationKind := all.find? fun kind => kind.text = text

end OperationKind

/-- `Operation`; an absent field has its zero value. -/
structure Operation where
  kind : Text
  name : Text
  newName : Text
  column : Column
  index : Index
  foreignKey : ForeignKey
  deriving DecidableEq, Repr, Inhabited

structure Statement where
  sql : Text
  destructive : Bool
  deriving DecidableEq, Repr

inductive RiskLevel where
  | warning
  | danger
  deriving DecidableEq, Repr

structure Risk where
  level : RiskLevel
  kind : OperationKind
  target : Text
  message : Text
  deriving DecidableEq, Repr

structure Preview where
  statements : List Statement
  risks : List Risk
  warnings : List Text
  fingerprint : Text
  token : Text
  expiresAt : Int
  deriving DecidableEq, Repr

/-- The errors of `Generate`, with the texts they quote. -/
inductive GenerateError where
  | unsupportedDialect
  | invalidIdentifier (name : Text)
  | invalidColumnType
  | invalidDefault
  | invalidComment
  | foreignKeyColumnsMismatch
  | invalidForeignKeyAction
  | unsupportedOperation (kind : Text)
  deriving DecidableEq, Repr

/-- Every kind is found by its name. -/
theorem OperationKind.parse_text (kind : OperationKind) : parse kind.text = some kind := by
  cases kind <;> decide

end Workbench.Schema
