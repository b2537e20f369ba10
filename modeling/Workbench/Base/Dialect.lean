import Workbench.Base.Text
import Workbench.Lib.SqlNames

/-!
# The dialects

The server speaks to two databases and names them with the strings `mysql` and `postgres`.
-/

set_option autoImplicit false

namespace Workbench

open Workbench.Lib

inductive Dialect where
  | mysql
  | postgres
  deriving DecidableEq, Repr

namespace Dialect

/-- The name of the dialect in the code and in the tokens it signs. -/
def name : Dialect → Text
  | mysql => "mysql".toList
  | postgres => "postgres".toList

/-- The dialect with the name. -/
def parse (text : Text) : Option Dialect :=
  if text = postgres.name then some postgres
  else if text = mysql.name then some mysql
  else none

theorem parse_name (d : Dialect) : parse d.name = some d := by
  cases d <;> decide

/-- How the database lexes its texts. -/
def rules : Dialect → LexRules
  | mysql => LexRules.mysql
  | postgres => LexRules.postgres

end Dialect

end Workbench

/-!
## How the two databases read names

PostgreSQL folds the ASCII letters of an unquoted name to lower case, MySQL leaves them. Which words can
stand unquoted is up to the database and its version: reserved words cannot, nor can numbers, and behind a
dot more of them can. That is the parameter `bare`.
-/

namespace Workbench

open Workbench.Lib

theorem isIdentChar_asciiLower {c : Char} (h : isIdentChar c = true) : isIdentChar (asciiLower c) = true := by
  rw [asciiLower]
  split_ifs with hupper
  · have hbounds : 65 ≤ c.toNat ∧ c.toNat ≤ 90 := by
      simpa [isUpper, char_le_iff] using hupper
    have hletters : ∀ n ∈ List.range 26, isIdentChar (Char.ofNat (n + 97)) = true := by decide
    have hletter := hletters (c.toNat - 65) (List.mem_range.2 (by omega))
    have hcode : c.toNat - 65 + 97 = c.toNat + 32 := by omega
    rwa [hcode] at hletter
  · exact h

/-- Every word can stand as a name. -/
def anyWord : Dialect → Bool → Text → Bool := fun _ _ _ => true

namespace Dialect

/-- What an unquoted name makes of a character. -/
def fold : Dialect → Char → Char
  | mysql => id
  | postgres => asciiLower

theorem isIdentChar_fold (d : Dialect) (c : Char) (h : isIdentChar c = true) : isIdentChar (d.fold c) = true := by
  cases d with
  | mysql => exact h
  | postgres => exact isIdentChar_asciiLower h

theorem mark_plain (d : Dialect) (c : Char) (h : d.rules.isMark c = true) :
    isBlank c = false ∧ isIdentChar c = false ∧ c ≠ '.' ∧ c ≠ ';' := by
  cases d with
  | mysql =>
    have hmarks : (c = '\'' ∨ c = '"') ∨ c = LexRules.backquote := by
      simpa [rules, LexRules.mysql] using h
    rcases hmarks with (rfl | rfl) | rfl <;> decide
  | postgres =>
    have hmarks : c = '\'' ∨ c = '"' := by
      simpa [rules, LexRules.postgres] using h
    rcases hmarks with rfl | rfl <;> decide

theorem nameMark_mark (d : Dialect) (c : Char) (h : d.rules.isNameMark c = true) :
    d.rules.isMark c = true ∧ d.rules.escapes c = false := by
  cases d with
  | mysql =>
    obtain rfl : c = LexRules.backquote := by simpa [rules, LexRules.mysql] using h
    exact ⟨rfl, rfl⟩
  | postgres =>
    obtain rfl : c = '"' := by simpa [rules, LexRules.postgres] using h
    exact ⟨rfl, rfl⟩

/-- How the database reads the names in its texts. -/
def names (bare : Dialect → Bool → Text → Bool) (d : Dialect) : NameRules where
  lex := d.rules
  fold := d.fold
  bare := bare d
  fold_ident := d.isIdentChar_fold
  mark_plain := d.mark_plain
  nameMark_mark := d.nameMark_mark

end Dialect

end Workbench
