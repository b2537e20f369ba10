import Workbench.Lib.SqlLiterals
import Workbench.Table.Select

/-!
# What the conditions of a table tab say

`buildWhereClause` writes a chain of conditions. Read back by its database it is to be the chain of the
ready rules (`chainTokens`): each with its own column, operator and value, joined by the word of the
rule before it. In PostgreSQL it always is. MySQL reads backslashes in a value, and the chain comes back
exactly when none of them escapes (`buildWhereClause_iff`).
-/

set_option autoImplicit false

namespace Workbench.Table

open Workbench.Lib Workbench.Web

/-! ## The chain of the rules -/

def FilterOperator.tokens : FilterOperator → List Lib.SqlToken
  | eq => [.symbol '=']
  | ne => [.symbol '!', .symbol '=']
  | gt => [.symbol '>']
  | lt => [.symbol '<']
  | ge => [.symbol '>', .symbol '=']
  | le => [.symbol '<', .symbol '=']
  | like => [.word "LIKE".toList]
  | isNull => [.word "IS".toList, .word "NULL".toList]
  | isNotNull => [.word "IS".toList, .word "NOT".toList, .word "NULL".toList]

/-- The operator compares with the value of the rule. -/
def FilterOperator.takesValue : FilterOperator → Bool
  | isNull => false
  | isNotNull => false
  | _ => true

/-- A rule as the database is to read it: its column, its operator, its value. -/
def ruleTokens (driver : Dialect) (rule : TableFilterRule) : List Lib.SqlToken :=
  .quoted (nameMark driver) rule.column :: (rule.operator.tokens ++
    if rule.operator.takesValue then [.quoted '\'' rule.value] else [])

/-- The rules behind the first, each joined with the word of the rule before it. -/
def joinTokens (driver : Dialect) : TableFilterRule → List TableFilterRule → List Lib.SqlToken
  | _, [] => []
  | before, rule :: rest =>
    .word before.join.text :: (ruleTokens driver rule ++ joinTokens driver rule rest)

def chainTokens (driver : Dialect) : List TableFilterRule → List Lib.SqlToken
  | [] => []
  | first :: rest => ruleTokens driver first ++ joinTokens driver first rest

/-- The rule is read with its own value: in MySQL each backslash of it stands in front of a wildcard. -/
def Faithful (driver : Dialect) (rule : TableFilterRule) : Prop :=
  driver = .mysql → rule.operator.takesValue = true → keepsSlashes false rule.value = true

/-! ## Reading a condition -/

/-- Outside everything. -/
abbrev outside : LexMode × TokenState := (.start, .idle)

/-- What follows a condition: nothing, or the next line. -/
def Ends (tail : Text) : Prop := tail = [] ∨ ∃ rest, tail = '\n' :: rest

theorem Ends.head?_ne {tail : Text} (h : Ends tail) : tail.head? ≠ some '\'' := by
  rcases h with rfl | ⟨rest, rfl⟩ <;> simp

theorem run_name (driver : Dialect) (name : Text) :
    driver.rules.reader.Run outside (quoteIdent driver name) []
      (.closed (nameMark driver) false, .quoted (nameMark driver) name) := by
  cases driver with
  | mysql => exact LexRules.run_quoted (R := LexRules.mysql) rfl rfl rfl name
  | postgres => exact LexRules.run_quoted (R := LexRules.postgres) rfl rfl rfl name

/-- The text of a word behind which the line ends. -/
theorem scan_word_ends {driver : Dialect} (escapePrefix : Bool) (word : Text) {tail : Text} (h : Ends tail) :
    driver.rules.reader.scan (.word escapePrefix, .word word) tail = .word word :: driver.rules.tokens tail := by
  rcases h with rfl | ⟨rest, rfl⟩
  · cases driver <;> rfl
  · exact LexRules.scan_word (by decide) (by decide) ⟨.blank '\n', [], rfl, fun p h => by cases h⟩ escapePrefix
      word rest

/-- Behind its opening mark a value whose backslashes stay is read with the marks of the dialect. -/
theorem run_value {driver : Dialect} {value : Text}
    (h : driver = .mysql → keepsSlashes false value = true) :
    driver.rules.reader.Run (.quoted '\'' (driver.rules.escapes '\''), .quoted '\'' [])
      (doubled '\'' value ++ ['\'']) []
      (.closed '\'' (driver.rules.escapes '\''), .quoted '\'' value) := by
  cases driver with
  | mysql => exact LexRules.run_literal (h rfl) []
  | postgres => exact (LexRules.run_doubled '\'' value []).append (LexRules.run_close '\'' false value)

/-- The value comes back, and the rest of the chain is read from outside, exactly when no backslash of
the value escapes. -/
theorem scan_value_iff (driver : Dialect) (value : Text) {tail : Text} (h : Ends tail)
    (more : List Lib.SqlToken) :
    driver.rules.reader.scan (.quoted '\'' (driver.rules.escapes '\''), .quoted '\'' [])
        (doubled '\'' value ++ '\'' :: tail) = .quoted '\'' value :: more ↔
      (driver = .mysql → keepsSlashes false value = true) ∧ driver.rules.tokens tail = more := by
  have hread (hkeeps : driver = .mysql → keepsSlashes false value = true) :
      driver.rules.reader.scan (.quoted '\'' (driver.rules.escapes '\''), .quoted '\'' [])
        (doubled '\'' value ++ '\'' :: tail) = .quoted '\'' value :: driver.rules.tokens tail := by
    have hscan := ((run_value hkeeps).scan tail).trans (LexRules.scan_closed _ value h.head?_ne)
    rw [List.append_assoc] at hscan
    exact hscan
  constructor
  · intro hscan
    have hkeeps : driver = .mysql → keepsSlashes false value = true := by
      rintro rfl
      exact LexRules.keepsSlashes_of_first h.head?_ne value [] more hscan
    exact ⟨hkeeps, (List.cons.inj ((hread hkeeps).symm.trans hscan)).2⟩
  · rintro ⟨hkeeps, rfl⟩
    exact hread hkeeps

/-! ## Reading a rule -/

/-- What stands between the column and the value, with its opening mark. -/
def FilterOperator.middle : FilterOperator → Text
  | eq => " = '".toList
  | ne => " != '".toList
  | gt => " > '".toList
  | lt => " < '".toList
  | ge => " >= '".toList
  | le => " <= '".toList
  | like => " LIKE '".toList
  | isNull => []
  | isNotNull => []

theorem buildFilterClause_value {driver : Dialect} {rule : TableFilterRule}
    (hop : rule.operator.takesValue = true) (hvalue : rule.value ≠ []) :
    buildFilterClause driver rule = quoteIdent driver rule.column ++
      (rule.operator.middle ++ (doubled '\'' rule.value ++ ['\''])) := by
  obtain ⟨enabled, column, operator, value, join⟩ := rule
  cases operator with
  | isNull => cases hop
  | isNotNull => cases hop
  | like =>
    show quoteIdent driver column ++ (" LIKE ".toList ++ escapeLiteral (if value = [] then ['%'] else value)) = _
    rw [if_neg hvalue]
    rfl
  | _ => rfl

theorem run_middle (driver : Dialect) {op : FilterOperator} (hop : op.takesValue = true) (column : Text) :
    driver.rules.reader.Run (.closed (nameMark driver) false, .quoted (nameMark driver) column) op.middle
      (.quoted (nameMark driver) column :: op.tokens)
      (.quoted '\'' (driver.rules.escapes '\''), .quoted '\'' []) := by
  cases op with
  | isNull => cases hop
  | isNotNull => cases hop
  | _ => cases driver <;> exact ⟨rfl, rfl⟩

theorem run_null (driver : Dialect) (column : Text) :
    driver.rules.reader.Run (.closed (nameMark driver) false, .quoted (nameMark driver) column)
      " IS NULL".toList [.quoted (nameMark driver) column, .word "IS".toList] (.word false, .word "NULL".toList) := by
  cases driver <;> exact ⟨rfl, rfl⟩

theorem run_notNull (driver : Dialect) (column : Text) :
    driver.rules.reader.Run (.closed (nameMark driver) false, .quoted (nameMark driver) column)
      " IS NOT NULL".toList
      [.quoted (nameMark driver) column, .word "IS".toList, .word "NOT".toList]
      (.word false, .word "NULL".toList) := by
  cases driver <;> exact ⟨rfl, rfl⟩

/-- A condition with a value, up to the opening mark of the value. -/
theorem tokens_clause_value {driver : Dialect} {rule : TableFilterRule} (hop : rule.operator.takesValue = true)
    (hvalue : rule.value ≠ []) (tail : Text) :
    driver.rules.tokens (buildFilterClause driver rule ++ tail) =
      ([] ++ .quoted (nameMark driver) rule.column :: rule.operator.tokens) ++
        driver.rules.reader.scan (.quoted '\'' (driver.rules.escapes '\''), .quoted '\'' [])
          (doubled '\'' rule.value ++ '\'' :: tail) := by
  have hrun := (run_name driver rule.column).append (run_middle driver hop rule.column)
  have htext : buildFilterClause driver rule ++ tail =
      (quoteIdent driver rule.column ++ rule.operator.middle) ++ (doubled '\'' rule.value ++ '\'' :: tail) := by
    rw [buildFilterClause_value hop hvalue]
    simp only [List.append_assoc, List.singleton_append]
  rw [htext]
  exact hrun.scan (doubled '\'' rule.value ++ '\'' :: tail)

/-- A condition at the front of a chain: it is read as its rule, and the rest from outside, exactly when
its value is faithful. -/
theorem tokens_clause_iff {driver : Dialect} {rule : TableFilterRule}
    (hvalue : rule.operator.takesValue = true → rule.value ≠ []) {tail : Text} (h : Ends tail)
    (more : List Lib.SqlToken) :
    driver.rules.tokens (buildFilterClause driver rule ++ tail) = ruleTokens driver rule ++ more ↔
      Faithful driver rule ∧ driver.rules.tokens tail = more := by
  by_cases hop : rule.operator.takesValue = true
  · have hrule : ruleTokens driver rule ++ more =
        ([] ++ .quoted (nameMark driver) rule.column :: rule.operator.tokens) ++
          .quoted '\'' rule.value :: more := by
      rw [ruleTokens, if_pos hop]
      simp
    rw [tokens_clause_value hop (hvalue hop) tail, hrule, List.append_cancel_left_eq,
      scan_value_iff driver rule.value h]
    exact and_congr_left fun _ => ⟨fun hkeeps hd _ => hkeeps hd, fun hkeeps hd => hkeeps hd hop⟩
  · have hfaithful : Faithful driver rule := fun _ hv => absurd hv hop
    have hread : driver.rules.tokens (buildFilterClause driver rule ++ tail) =
        ruleTokens driver rule ++ driver.rules.tokens tail := by
      obtain ⟨enabled, column, operator, value, join⟩ := rule
      cases operator with
      | isNull =>
        have hrun := (run_name driver column).append (run_null driver column)
        exact (hrun.scan tail).trans (congrArg (_ ++ ·) (scan_word_ends false "NULL".toList h))
      | isNotNull =>
        have hrun := (run_name driver column).append (run_notNull driver column)
        exact (hrun.scan tail).trans (congrArg (_ ++ ·) (scan_word_ends false "NULL".toList h))
      | _ => exact absurd rfl hop
    rw [hread, List.append_cancel_left_eq]
    exact ⟨fun hmore => ⟨hfaithful, hmore⟩, fun hmore => hmore.2⟩

/-! ## The chain -/

theorem value_ne_of_ready {rule : TableFilterRule} (h : isFilterRuleReady rule = true)
    (hop : rule.operator.takesValue = true) : rule.value ≠ [] := by
  intro hnil
  rw [isFilterRuleReady] at h
  split_ifs at h with h1 h2
  · simp only [Bool.or_eq_true, decide_eq_true_eq] at h2
    rcases h2 with hnull | hnull <;> rw [hnull] at hop <;> cases hop
  · rw [hnil] at h
    exact absurd h (by decide)

theorem ends_joinClauses (driver : Dialect) (before : TableFilterRule) (rules : List TableFilterRule) :
    Ends (joinClauses driver before rules) := by
  cases rules with
  | nil => exact Or.inl rfl
  | cons rule rest => exact Or.inr ⟨_, rfl⟩

/-- The word that joins a rule to the one before it. -/
theorem tokens_join (driver : Dialect) (join : FilterJoin) (text : Text) :
    driver.rules.tokens ("\n  ".toList ++ (join.text ++ (' ' :: text))) =
      .word join.text :: driver.rules.tokens text := by
  have hrun : driver.rules.reader.Run outside ("\n  ".toList ++ (join.text ++ [' '])) [.word join.text]
      outside := by
    cases join <;> cases driver <;> exact ⟨rfl, rfl⟩
  have hscan := hrun.scan text
  rw [List.append_assoc, List.append_assoc, List.singleton_append] at hscan
  exact hscan

/-- Behind a rule the chain comes back exactly when the rules that follow are faithful. -/
theorem tokens_joinClauses_iff {driver : Dialect} {rules : List TableFilterRule}
    (hready : ∀ rule ∈ rules, isFilterRuleReady rule = true) (before : TableFilterRule) :
    driver.rules.tokens (joinClauses driver before rules) = joinTokens driver before rules ↔
      ∀ rule ∈ rules, Faithful driver rule := by
  induction rules generalizing before with
  | nil =>
    have hnil : driver.rules.tokens [] = [] := by
      cases driver <;> rfl
    exact ⟨fun _ rule hrule => absurd hrule (by simp), fun _ => hnil⟩
  | cons rule rest ih =>
    rw [List.forall_mem_cons] at hready
    rw [joinClauses, tokens_join, joinTokens, List.cons.injEq, eq_self, true_and,
      tokens_clause_iff (value_ne_of_ready hready.1) (ends_joinClauses driver rule rest), ih hready.2,
      List.forall_mem_cons]

/-- **The conditions come back as the chain of the ready rules exactly when the driver is PostgreSQL, or
each backslash of their values stands in front of a wildcard.** -/
theorem buildWhereClause_iff (driver : Dialect) (rules : List TableFilterRule) :
    driver.rules.tokens (buildWhereClause driver rules) = chainTokens driver (rules.filter isFilterRuleReady) ↔
      (driver = .mysql → ∀ rule ∈ rules, isFilterRuleReady rule = true →
        rule.operator.takesValue = true → keepsSlashes false rule.value = true) := by
  have hready : ∀ rule ∈ rules.filter isFilterRuleReady, isFilterRuleReady rule = true := by
    intro rule hrule
    exact (List.mem_filter.1 hrule).2
  have hfaithful : (driver = .mysql → ∀ rule ∈ rules, isFilterRuleReady rule = true →
      rule.operator.takesValue = true → keepsSlashes false rule.value = true) ↔
        ∀ rule ∈ rules.filter isFilterRuleReady, Faithful driver rule := by
    simp only [List.mem_filter, Faithful]
    exact ⟨fun h rule hrule hd => h hd rule hrule.1 hrule.2, fun h hd rule hmem hr => h rule ⟨hmem, hr⟩ hd⟩
  rw [hfaithful, buildWhereClause]
  cases hrules : rules.filter isFilterRuleReady with
  | nil =>
    have hnil : driver.rules.tokens [] = [] := by
      cases driver <;> rfl
    exact ⟨fun _ rule hrule => absurd hrule (by simp), fun _ => hnil⟩
  | cons first rest =>
    rw [hrules, List.forall_mem_cons] at hready
    show driver.rules.tokens (buildFilterClause driver first ++ joinClauses driver first rest) =
      ruleTokens driver first ++ joinTokens driver first rest ↔ _
    rw [tokens_clause_iff (value_ne_of_ready hready.1) (ends_joinClauses driver first rest),
      tokens_joinClauses_iff hready.2, List.forall_mem_cons]

/-- A single backslash, and a second value that becomes a condition. -/
def strayRules : List TableFilterRule :=
  [⟨true, "a".toList, .eq, "\\".toList, .and⟩, ⟨true, "b".toList, .eq, " OR 1=1 -- ".toList, .and⟩]

theorem buildWhereClause_strays :
    Dialect.mysql.rules.tokens (buildWhereClause .mysql strayRules) ≠
      chainTokens .mysql (strayRules.filter isFilterRuleReady) := by
  decide +kernel

end Workbench.Table
