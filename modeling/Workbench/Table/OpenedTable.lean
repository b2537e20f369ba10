import Workbench.Schema.Reading
import Workbench.Table.Filters

/-!
# The table that a tab reads

The reference of the table is put together from the schema, a dot and the name as they are
(`qualifiedTableName`), while every other name of the statement is quoted. The database reads the table
of the tab, in one statement, exactly when schema and name are plain words that stand for themselves and,
in MySQL, no literal of a condition comes open (`buildTableSelectSQL_reads_iff`).
-/

set_option autoImplicit false

namespace Workbench.Table

open Workbench.Lib Workbench.Web
open Workbench.Schema (IsOneStatement)

/-! ## What is asked of the statement -/

/-- The path that the `FROM` of a `SELECT *` names. -/
def fromPath (bare : Dialect → Bool → Text → Bool) (driver : Dialect) (sql : Text) : Option (List Text) :=
  match driver.rules.tokens sql with
  | .word select :: .symbol '*' :: .word source :: rest =>
    if select = "SELECT".toList ∧ source = "FROM".toList then
      ((driver.names bare).readPath false rest).map Prod.fst
    else none
  | _ => none

/-- One statement and the semicolon that ends it. -/
def EndsOneStatement (driver : Dialect) (sql : Text) : Prop :=
  ∃ body, sql = body ++ [';'] ∧ IsOneStatement driver body

/-- The literal of a condition is read to its end. -/
def Closes (driver : Dialect) (rule : TableFilterRule) : Prop :=
  driver = .mysql → rule.operator.takesValue = true →
    (slashDecode LexRules.mysqlUnescape '\'' false rule.value).isSome = true

/-! ## Texts that are read from inside a quoted text -/

/-- A text that does not lead out of a quoted text unharmed. -/
def KeepsLost (text : Text) : Prop := ∀ m, LexRules.Lost m → LexRules.Strays m text

theorem KeepsLost.append {x y : Text} (hx : KeepsLost x) (hy : KeepsLost y) : KeepsLost (x ++ y) :=
  fun m hm => (hx m hm).append hy

theorem keepsLost_nil : KeepsLost [] := fun _ hm => LexRules.strays_nil hm

/-- No marks and no backslashes. -/
def isUnmarked (text : Text) : Bool := text.all fun c => !LexRules.mysql.isMark c && c ≠ '\\'

theorem keepsLost_unmarked {text : Text} (h : isUnmarked text = true) : KeepsLost text := by
  intro m hm
  refine LexRules.strays_plain hm fun c hc => ?_
  have hplain := List.all_eq_true.1 h c hc
  simpa using hplain

theorem keepsLost_name (name : Text) : KeepsLost (quoteIdent .mysql name) :=
  fun _ hm => LexRules.strays_quoted rfl hm name

theorem keepsLost_value (value : Text) : KeepsLost (escapeLiteral value) :=
  fun _ hm => LexRules.strays_quoted rfl hm value

theorem isUnmarked_operator (op : FilterOperator) : isUnmarked op.text = true := by
  cases op <;> rfl

theorem keepsLost_compare (op : FilterOperator) (column value : Text) :
    KeepsLost (quoteIdent .mysql column ++ (' ' :: (op.text ++ (' ' :: escapeLiteral value)))) := by
  have hblank : KeepsLost [' '] := keepsLost_unmarked rfl
  have hvalue := hblank.append (keepsLost_value value)
  have hop := (keepsLost_unmarked (isUnmarked_operator op)).append hvalue
  exact (keepsLost_name column).append (hblank.append hop)

theorem keepsLost_clause (rule : TableFilterRule) : KeepsLost (buildFilterClause .mysql rule) := by
  obtain ⟨enabled, column, operator, value, join⟩ := rule
  have hname := keepsLost_name column
  cases operator with
  | isNull => exact hname.append (keepsLost_unmarked rfl)
  | isNotNull => exact hname.append (keepsLost_unmarked rfl)
  | like => exact hname.append ((keepsLost_unmarked rfl).append (keepsLost_value _))
  | eq => exact keepsLost_compare .eq column value
  | ne => exact keepsLost_compare .ne column value
  | gt => exact keepsLost_compare .gt column value
  | lt => exact keepsLost_compare .lt column value
  | ge => exact keepsLost_compare .ge column value
  | le => exact keepsLost_compare .le column value

theorem keepsLost_joinClauses (before : TableFilterRule) (rules : List TableFilterRule) :
    KeepsLost (joinClauses .mysql before rules) := by
  induction rules generalizing before with
  | nil => exact keepsLost_nil
  | cons rule rest ih =>
    have hword : isUnmarked before.join.text = true := by
      cases before.join <;> rfl
    have hline : KeepsLost "\n  ".toList := keepsLost_unmarked rfl
    refine hline.append ((keepsLost_unmarked hword).append ?_)
    exact KeepsLost.append (x := [' ']) (keepsLost_unmarked rfl) ((keepsLost_clause rule).append (ih rule))

/-! ## Harm in the conditions -/

variable {driver : Dialect}

theorem not_harmful_ruleTokens (rule : TableFilterRule) :
    (ruleTokens driver rule).any Lib.SqlToken.harmful = false := by
  obtain ⟨enabled, column, operator, value, join⟩ := rule
  cases operator <;> rfl

/-- The literal of a condition that closes. -/
theorem run_closing {rule : TableFilterRule} (hop : rule.operator.takesValue = true) (h : Closes driver rule) :
    ∃ value, driver.rules.reader.Run (.quoted '\'' (driver.rules.escapes '\''), .quoted '\'' [])
      (doubled '\'' rule.value ++ ['\'']) []
      (.closed '\'' (driver.rules.escapes '\''), .quoted '\'' value) := by
  cases driver with
  | mysql =>
    obtain ⟨value, hvalue⟩ := Option.isSome_iff_exists.1 (h rfl hop)
    have hbody := LexRules.run_slashDecode (R := LexRules.mysql) (by decide) hvalue []
    exact ⟨value, hbody.append (LexRules.run_close '\'' true value)⟩
  | postgres =>
    exact ⟨rule.value, (LexRules.run_doubled '\'' rule.value []).append
      (LexRules.run_close '\'' false rule.value)⟩

/-- A condition does no harm exactly when its literal is read to its end. -/
theorem harmless_clause_iff {rule : TableFilterRule} (hvalue : rule.operator.takesValue = true → rule.value ≠ [])
    {tail : Text} (h : Ends tail) (hkeeps : driver = .mysql → KeepsLost tail) :
    (driver.rules.tokens (buildFilterClause driver rule ++ tail)).any Lib.SqlToken.harmful = false ↔
      Closes driver rule ∧ (driver.rules.tokens tail).any Lib.SqlToken.harmful = false := by
  by_cases hop : rule.operator.takesValue = true
  · have hfront : (([] : List Lib.SqlToken) ++
        .quoted (nameMark driver) rule.column :: rule.operator.tokens).any Lib.SqlToken.harmful = false := by
      cases rule.operator <;> rfl
    rw [tokens_clause_value hop (hvalue hop) tail, List.any_append, hfront, Bool.false_or]
    constructor
    · intro hharm
      have hcloses : Closes driver rule := by
        rintro rfl -
        by_contra hopen
        have hnone := Option.not_isSome_iff_eq_none.1 hopen
        have hstrays := (LexRules.strays_of_slashDecode_eq_none hnone).append (hkeeps rfl)
        rw [List.append_assoc] at hstrays
        rw [LexRules.any_harmful_reader] at hharm
        exact absurd (hstrays.harmful.symm.trans hharm) (by decide)
      obtain ⟨value, hrun⟩ := run_closing hop hcloses
      have hscan := (hrun.scan tail).trans (LexRules.scan_closed _ value h.head?_ne)
      rw [List.append_assoc, List.singleton_append] at hscan
      rw [hscan] at hharm
      exact ⟨hcloses, hharm⟩
    · rintro ⟨hcloses, hharm⟩
      obtain ⟨value, hrun⟩ := run_closing hop hcloses
      have hscan := (hrun.scan tail).trans (LexRules.scan_closed _ value h.head?_ne)
      rw [List.append_assoc, List.singleton_append] at hscan
      rw [hscan]
      exact hharm
  · have hfaithful : Faithful driver rule := fun _ hv => absurd hv hop
    have hread := (tokens_clause_iff hvalue h _).2 ⟨hfaithful, rfl⟩
    rw [hread, List.any_append, not_harmful_ruleTokens, Bool.false_or]
    exact ⟨fun hharm => ⟨fun _ hv => absurd hv hop, hharm⟩, fun hharm => hharm.2⟩

/-- What follows the conditions, and the line it begins. -/
structure Follows (driver : Dialect) (tail : Text) : Prop where
  ends : Ends tail
  keeps : driver = .mysql → KeepsLost tail

theorem Follows.joinClauses {tail : Text} (h : Follows driver tail) (before : TableFilterRule)
    (rules : List TableFilterRule) : Follows driver (joinClauses driver before rules ++ tail) := by
  cases rules with
  | nil => exact h
  | cons rule rest =>
    refine ⟨Or.inr ⟨_, rfl⟩, ?_⟩
    rintro rfl
    exact (keepsLost_joinClauses before (rule :: rest)).append (h.keeps rfl)

theorem harmless_joinClauses_iff {rules : List TableFilterRule}
    (hready : ∀ rule ∈ rules, isFilterRuleReady rule = true) (before : TableFilterRule) {tail : Text}
    (h : Follows driver tail) :
    (driver.rules.tokens (joinClauses driver before rules ++ tail)).any Lib.SqlToken.harmful = false ↔
      (∀ rule ∈ rules, Closes driver rule) ∧ (driver.rules.tokens tail).any Lib.SqlToken.harmful = false := by
  induction rules generalizing before with
  | nil => simp [joinClauses]
  | cons rule rest ih =>
    rw [List.forall_mem_cons] at hready
    have hnext := h.joinClauses rule rest
    have htext : joinClauses driver before (rule :: rest) ++ tail =
        "\n  ".toList ++ (before.join.text ++ (' ' :: (buildFilterClause driver rule ++
          (joinClauses driver rule rest ++ tail)))) := by
      rw [joinClauses]
      simp only [List.append_assoc, List.cons_append]
    have hword : Lib.SqlToken.harmful (.word before.join.text) = false := rfl
    rw [htext, tokens_join, List.any_cons, hword, Bool.false_or,
      harmless_clause_iff (value_ne_of_ready hready.1) hnext.ends hnext.keeps, ih hready.2,
      List.forall_mem_cons, and_assoc]

/-- The conditions of all the rules together. -/
theorem harmless_where_iff (rules : List TableFilterRule) {tail : Text} (h : Follows driver tail) :
    (driver.rules.tokens (buildWhereClause driver rules ++ tail)).any Lib.SqlToken.harmful = false ↔
      (∀ rule ∈ rules.filter isFilterRuleReady, Closes driver rule) ∧
        (driver.rules.tokens tail).any Lib.SqlToken.harmful = false := by
  have hready : ∀ rule ∈ rules.filter isFilterRuleReady, isFilterRuleReady rule = true := by
    intro rule hrule
    exact (List.mem_filter.1 hrule).2
  rw [buildWhereClause]
  cases hrules : rules.filter isFilterRuleReady with
  | nil => simp
  | cons first rest =>
    rw [hrules, List.forall_mem_cons] at hready
    have hnext := h.joinClauses first rest
    dsimp only
    rw [List.append_assoc, harmless_clause_iff (value_ne_of_ready hready.1) hnext.ends hnext.keeps,
      harmless_joinClauses_iff hready.2 first h, List.forall_mem_cons, and_assoc]

/-! ## Order and limit -/

theorem number_eq (n : Nat) : number n = Nat.toDigits 10 n := Nat.toList_repr

theorem keepsLost_number (n : Nat) : KeepsLost (number n) := by
  refine keepsLost_unmarked (List.all_eq_true.2 fun c hc => ?_)
  rw [number_eq] at hc
  have hdigit : c.isDigit = true := Nat.isDigit_of_mem_toDigits (by omega) (by omega) hc
  have hne {x : Char} (hx : x.isDigit = false) : c ≠ x := by
    rintro rfl
    rw [hdigit] at hx
    cases hx
  simp [LexRules.mysql, hne (x := '\'') rfl, hne (x := '"') rfl, hne (x := LexRules.backquote) rfl,
    hne (x := '\\') rfl]

/-- The digits of a number, read as a word. -/
theorem run_number (driver : Dialect) (n : Nat) :
    ∃ escapePrefix, driver.rules.reader.Run outside (number n) [] (.word escapePrefix, .word (number n)) := by
  rw [number_eq]
  exact NameRules.run_digits (N := driver.names anyWord) n

theorem text_order (o : TableSort) : o.text driver =
    "\nORDER BY ".toList ++ (quoteIdent driver o.column ++ (' ' :: o.direction.text)) := rfl

theorem text_mysql (w : Window) : w.text .mysql =
    "\nLIMIT ".toList ++ (number w.offset ++ (", ".toList ++ number w.count)) := rfl

theorem text_postgres (w : Window) : w.text .postgres =
    "\nLIMIT ".toList ++ (number w.count ++ (" OFFSET ".toList ++ number w.offset)) := rfl

theorem run_direction (driver : Dialect) (direction : SortDirection) (column : Text) :
    driver.rules.reader.Run (.closed (nameMark driver) false, .quoted (nameMark driver) column)
      (' ' :: direction.text) [.quoted (nameMark driver) column] (.word false, .word direction.text) := by
  cases direction <;> cases driver <;> exact ⟨rfl, rfl⟩

theorem run_comma (escapePrefix : Bool) (word : Text) :
    Dialect.mysql.rules.reader.Run (.word escapePrefix, .word word) ", ".toList [.word word, .symbol ','] outside := by
  cases escapePrefix <;> exact ⟨rfl, rfl⟩

theorem run_offset (escapePrefix : Bool) (word : Text) :
    Dialect.postgres.rules.reader.Run (.word escapePrefix, .word word) " OFFSET ".toList
      [.word word, .word "OFFSET".toList] outside := by
  cases escapePrefix <;> exact ⟨rfl, rfl⟩

theorem follows_order (o : TableSort) {tail : Text} (h : Follows driver tail) :
    Follows driver (o.text driver ++ tail) := by
  refine ⟨Or.inr ⟨_, rfl⟩, ?_⟩
  rintro rfl
  have hdirection : isUnmarked (' ' :: o.direction.text) = true := by
    cases o.direction <;> rfl
  have hline : KeepsLost "\nORDER BY ".toList := keepsLost_unmarked rfl
  have htext := hline.append ((keepsLost_name o.column).append (keepsLost_unmarked hdirection))
  exact htext.append (h.keeps rfl)

theorem harmless_order (o : TableSort) {tail : Text} (h : Ends tail) :
    (driver.rules.tokens (o.text driver ++ tail)).any Lib.SqlToken.harmful =
      (driver.rules.tokens tail).any Lib.SqlToken.harmful := by
  have hwords : driver.rules.reader.Run outside "\nORDER BY ".toList [.word "ORDER".toList, .word "BY".toList]
      outside := by
    cases driver <;> exact ⟨rfl, rfl⟩
  have hrun := hwords.append ((run_name driver o.column).append (run_direction driver o.direction o.column))
  have hscan : driver.rules.tokens (o.text driver ++ tail) =
      ([.word "ORDER".toList, .word "BY".toList] ++ ([] ++ [.quoted (nameMark driver) o.column])) ++
        (.word o.direction.text :: driver.rules.tokens tail) := by
    rw [LexRules.tokens, text_order, hrun.scan tail, scan_word_ends false o.direction.text h]
  have hword : Lib.SqlToken.harmful (.word o.direction.text) = false := rfl
  have hfront : List.any ([.word "ORDER".toList, .word "BY".toList] ++
      ([] ++ [.quoted (nameMark driver) o.column])) Lib.SqlToken.harmful = false := rfl
  rw [hscan, List.any_append, hfront, List.any_cons, hword, Bool.false_or, Bool.false_or]

theorem follows_limit (w : Window) : Follows driver (w.text driver) := by
  cases driver with
  | mysql =>
    refine ⟨Or.inr ⟨_, rfl⟩, fun _ => ?_⟩
    have hline : KeepsLost "\nLIMIT ".toList := keepsLost_unmarked rfl
    have hcomma : KeepsLost ", ".toList := keepsLost_unmarked rfl
    exact hline.append ((keepsLost_number w.offset).append (hcomma.append (keepsLost_number w.count)))
  | postgres => exact ⟨Or.inr ⟨_, rfl⟩, fun hd => by cases hd⟩

theorem harmless_limit (w : Window) :
    (driver.rules.tokens (w.text driver)).any Lib.SqlToken.harmful = false := by
  obtain ⟨e, hoffset⟩ := run_number driver w.offset
  obtain ⟨e', hcount⟩ := run_number driver w.count
  have hlimit : driver.rules.reader.Run outside "\nLIMIT ".toList [.word "LIMIT".toList] outside := by
    cases driver <;> exact ⟨rfl, rfl⟩
  cases driver with
  | mysql =>
    have hrun := hlimit.append (hoffset.append ((run_comma e (number w.offset)).append hcount))
    rw [LexRules.tokens, text_mysql, Scanner.scan, hrun.1, hrun.2]
    rfl
  | postgres =>
    have hrun := hlimit.append (hcount.append ((run_offset e' (number w.count)).append hoffset))
    rw [LexRules.tokens, text_postgres, Scanner.scan, hrun.1, hrun.2]
    rfl

/-! ## What follows the table -/

/-- Order and limit. -/
def Select.ending (s : Select) (driver : Dialect) : Text :=
  ((s.order.map fun o => o.text driver).getD []) ++ ((s.limit.map fun w => w.text driver).getD [])

theorem follows_ending (s : Select) : Follows driver (s.ending driver) := by
  have hlimit : Follows driver ((s.limit.map fun w => w.text driver).getD []) := by
    cases s.limit with
    | none => exact ⟨Or.inl rfl, fun _ => keepsLost_nil⟩
    | some w => exact follows_limit w
  rw [Select.ending]
  cases s.order with
  | none => exact hlimit
  | some o => exact follows_order o hlimit

theorem harmless_ending (driver : Dialect) (s : Select) : (driver.rules.tokens (s.ending driver)).any Lib.SqlToken.harmful = false := by
  have hlimit : (driver.rules.tokens ((s.limit.map fun w => w.text driver).getD [])).any
      Lib.SqlToken.harmful = false := by
    cases s.limit with
    | none => cases driver <;> rfl
    | some w => exact harmless_limit w
  have hends : Ends ((s.limit.map fun w => w.text driver).getD []) := by
    cases s.limit with
    | none => exact Or.inl rfl
    | some w => exact (follows_limit w).ends
  rw [Select.ending]
  cases s.order with
  | none => exact hlimit
  | some o => exact (harmless_order o hends).trans hlimit

/-- All that stands behind the table. -/
def Select.behind (s : Select) (driver : Dialect) : Text :=
  (if s.condition = [] then [] else "\nWHERE ".toList ++ s.condition) ++ s.ending driver

theorem Select.text_eq (s : Select) :
    s.text driver = "SELECT *\nFROM ".toList ++ (s.table ++ (s.behind driver ++ [';'])) := by
  have hbehind : s.behind driver ++ [';'] =
      (if s.condition = [] then [] else "\nWHERE ".toList ++ s.condition) ++
        (((s.order.map fun o => o.text driver).getD []) ++
          (((s.limit.map fun w => w.text driver).getD []) ++ [';'])) := by
    show (_ ++ (_ ++ _)) ++ [';'] = _
    rw [List.append_assoc, List.append_assoc]
  rw [hbehind]
  rfl

/-- The statement without its semicolon. -/
def Select.body (s : Select) (driver : Dialect) : Text :=
  "SELECT *\nFROM ".toList ++ (s.table ++ s.behind driver)

theorem Select.text_eq_body (s : Select) : s.text driver = s.body driver ++ [';'] := by
  show _ = ("SELECT *\nFROM ".toList ++ (s.table ++ s.behind driver)) ++ [';']
  rw [text_eq, List.append_assoc, List.append_assoc]

section

variable (table : DatabaseObject) (options : TableQueryOptions)

/-- The statement of a tab. -/
abbrev opened (driver : Dialect) (table : DatabaseObject) (options : TableQueryOptions) : Select :=
  tableSelect table driver options

theorem condition_cases :
    (opened driver table options).behind driver =
        (if options.filterRules.filter isFilterRuleReady = [] then []
          else "\nWHERE ".toList ++ buildWhereClause driver options.filterRules) ++
            (opened driver table options).ending driver := by
  have hcondition : buildWhereClause driver options.filterRules = [] ↔
      options.filterRules.filter isFilterRuleReady = [] := by
    rw [buildWhereClause]
    cases options.filterRules.filter isFilterRuleReady with
    | nil => simp
    | cons first rest =>
      have hclause : ∃ more, buildFilterClause driver first = nameMark driver :: more := by
        obtain ⟨enabled, column, operator, value, join⟩ := first
        cases operator <;> exact ⟨_, rfl⟩
      obtain ⟨more, hmore⟩ := hclause
      simp [hmore]
  show (if buildWhereClause driver options.filterRules = [] then _ else _) ++ _ = _
  by_cases hnil : options.filterRules.filter isFilterRuleReady = []
  · rw [if_pos hnil, if_pos (hcondition.2 hnil)]
  · rw [if_neg hnil, if_neg fun h => hnil (hcondition.1 h)]
    rfl

theorem ends_behind : Ends ((opened driver table options).behind driver) := by
  rw [condition_cases]
  split_ifs
  · exact (follows_ending _).ends
  · exact Or.inr ⟨_, rfl⟩

/-- Behind the table there is no harm exactly when every literal is read to its end. -/
theorem harmless_behind_iff :
    (driver.rules.tokens ((opened driver table options).behind driver)).any Lib.SqlToken.harmful = false ↔
      ∀ rule ∈ options.filterRules.filter isFilterRuleReady, Closes driver rule := by
  have hending := harmless_ending driver (opened driver table options)
  rw [condition_cases]
  split_ifs with hnil
  · rw [hnil, List.nil_append, hending]
    simp
  · have hword : driver.rules.reader.Run outside "\nWHERE ".toList [.word "WHERE".toList] outside := by
      cases driver <;> exact ⟨rfl, rfl⟩
    have hscan := hword.scan (buildWhereClause driver options.filterRules ++
      (opened driver table options).ending driver)
    have hharm : Lib.SqlToken.harmful (.word "WHERE".toList) = false := rfl
    rw [List.append_assoc, LexRules.tokens, hscan, List.singleton_append, List.any_cons, hharm, Bool.false_or,
      ← LexRules.tokens, harmless_where_iff _ (follows_ending _), hending]
    simp

theorem stop_behind (driver : Dialect) (table : DatabaseObject) (options : TableQueryOptions) :
    NameStop ((opened driver table options).behind driver ++ [';']) ∧
      ((opened driver table options).behind driver ++ [';']).head? ≠ some '.' := by
  have hline (c : Char) (rest : Text) (hc : c.isAlphanum = true) :
      NameStop ('\n' :: c :: rest ++ [';']) ∧ ('\n' :: c :: rest ++ [';']).head? ≠ some '.' :=
    ⟨.line c (rest ++ [';']) hc, by simp⟩
  rw [condition_cases]
  split_ifs
  · rw [List.nil_append, Select.ending]
    cases (opened driver table options).order with
    | some o => exact hline 'O' _ rfl
    | none =>
      cases (opened driver table options).limit with
      | some w => cases driver <;> exact hline 'L' _ rfl
      | none => exact ⟨.semicolon [], by simp⟩
  · exact hline 'W' _ rfl

/-! ## The table -/

variable {bare : Dialect → Bool → Text → Bool}

theorem tokens_front (driver : Dialect) (text : Text) :
    driver.rules.tokens ("SELECT *\nFROM ".toList ++ text) =
      .word "SELECT".toList :: .symbol '*' :: .word "FROM".toList :: driver.rules.tokens text := by
  have hrun : driver.rules.reader.Run outside "SELECT *\nFROM ".toList
      [.word "SELECT".toList, .symbol '*', .word "FROM".toList] outside := by
    cases driver <;> exact ⟨rfl, rfl⟩
  exact hrun.scan text

theorem fromPath_front (text : Text) :
    fromPath bare driver ("SELECT *\nFROM ".toList ++ text) =
      ((driver.names bare).readPath false (driver.rules.tokens text)).map Prod.fst := by
  rw [fromPath, tokens_front]
  exact if_pos ⟨rfl, rfl⟩

/-- The reference names the table exactly when its two parts are plain. -/
theorem fromPath_iff :
    fromPath bare driver (buildTableSelectSQL table driver options) = some [table.schema, table.name] ↔
      (driver.names bare).Plain false table.schema ∧ (driver.names bare).Plain true table.name := by
  obtain ⟨hstop, hdot⟩ := stop_behind driver table options
  rw [buildTableSelectSQL, Select.text_eq, fromPath_front]
  by_cases hschema : table.schema = []
  · constructor
    · intro h
      obtain ⟨⟨path, after⟩, hpath, heq⟩ := Option.map_eq_some_iff.1 h
      cases heq
      exact absurd hschema (NameRules.firstName_ne_nil (NameRules.readPath_first hpath))
    · rintro ⟨hplain, -⟩
      exact absurd hschema hplain.ne_nil
  · have htable : (opened driver table options).table = table.schema ++ '.' :: table.name := if_neg hschema
    rw [htable, List.append_assoc, List.cons_append,
      ← NameRules.readPath_pair_iff (N := driver.names bare) hstop hdot]
    constructor
    · intro h
      obtain ⟨⟨path, after⟩, hpath, heq⟩ := Option.map_eq_some_iff.1 h
      cases heq
      exact ⟨after, hpath⟩
    · rintro ⟨after, hpath⟩
      exact Option.map_eq_some_iff.2 ⟨_, hpath, rfl⟩

/-- Behind a plain reference the statement is one exactly when every literal is read to its end. -/
theorem endsOneStatement_iff (hschema : (driver.names bare).Plain false table.schema)
    (hname : (driver.names bare).Plain true table.name) :
    EndsOneStatement driver (buildTableSelectSQL table driver options) ↔
      ∀ rule ∈ options.filterRules.filter isFilterRuleReady, Closes driver rule := by
  have htable : (opened driver table options).table = table.schema ++ '.' :: table.name := if_neg hschema.ne_nil
  obtain ⟨e, hrun⟩ := NameRules.run_word (N := driver.names bare) hname.ne_nil hname.ident hname.no_dollar
  have hbody : driver.rules.tokens ((opened driver table options).body driver) =
      [.word "SELECT".toList, .symbol '*', .word "FROM".toList, .word table.schema, .symbol '.',
        .word table.name] ++ driver.rules.tokens ((opened driver table options).behind driver) := by
    have hread : driver.rules.tokens (table.name ++ (opened driver table options).behind driver) =
        .word table.name :: driver.rules.tokens ((opened driver table options).behind driver) :=
      (hrun.scan _).trans (scan_word_ends e table.name (ends_behind table options))
    have hfirst := NameRules.tokens_plain (N := driver.names bare) hschema
      (.dot (table.name ++ (opened driver table options).behind driver))
    have hdot := NameRules.tokens_symbol (N := driver.names bare) (Or.inl rfl)
      (table.name ++ (opened driver table options).behind driver)
    show driver.rules.tokens ("SELECT *\nFROM ".toList ++ (_ ++ _)) = _
    rw [tokens_front, htable, List.append_assoc, List.cons_append]
    refine congrArg (_ :: _ :: _ :: ·) (hfirst.trans (congrArg (_ :: ·) (hdot.trans ?_)))
    exact congrArg (_ :: ·) hread
  have hone : IsOneStatement driver ((opened driver table options).body driver) ↔
      (driver.rules.tokens ((opened driver table options).behind driver)).any Lib.SqlToken.harmful = false := by
    rw [IsOneStatement, hbody, List.any_append]
    exact ⟨fun h => h.2, fun h => ⟨List.cons_ne_nil _ _, h⟩⟩
  rw [← harmless_behind_iff table options, ← hone, buildTableSelectSQL, Select.text_eq_body]
  constructor
  · rintro ⟨body, htext, hstatement⟩
    rw [List.append_cancel_right htext]
    exact hstatement
  · intro h
    exact ⟨_, rfl, h⟩

/-- **A tab reads its table, in one statement, exactly when schema and name are plain words and, in MySQL,
each literal of its conditions is read to its end.** -/
theorem buildTableSelectSQL_reads_iff (bare : Dialect → Bool → Text → Bool) (driver : Dialect)
    (table : DatabaseObject) (options : TableQueryOptions) :
    (fromPath bare driver (buildTableSelectSQL table driver options) = some [table.schema, table.name] ∧
        EndsOneStatement driver (buildTableSelectSQL table driver options)) ↔
      ((driver.names bare).Plain false table.schema ∧ (driver.names bare).Plain true table.name) ∧
        (driver = .mysql → ∀ rule ∈ options.filterRules, isFilterRuleReady rule = true →
          rule.operator.takesValue = true →
            (slashDecode LexRules.mysqlUnescape '\'' false rule.value).isSome = true) := by
  have hcloses : (driver = .mysql → ∀ rule ∈ options.filterRules, isFilterRuleReady rule = true →
      rule.operator.takesValue = true →
        (slashDecode LexRules.mysqlUnescape '\'' false rule.value).isSome = true) ↔
          ∀ rule ∈ options.filterRules.filter isFilterRuleReady, Closes driver rule := by
    simp only [List.mem_filter, Closes]
    exact ⟨fun h rule hrule hd => h hd rule hrule.1 hrule.2, fun h hd rule hmem hr => h rule ⟨hmem, hr⟩ hd⟩
  rw [hcloses, fromPath_iff]
  exact and_congr_right fun h => endsOneStatement_iff table options h.1 h.2

end

def defaultSelectSQL (table : DatabaseObject) (driver : Dialect) : Text :=
  buildTableSelectSQL table driver ⟨[], none, 1, 200⟩

/-- A name with a capital letter. -/
def usersTable : DatabaseObject := ⟨"public".toList, "Users".toList⟩

theorem defaultSelectSQL_folds :
    fromPath anyWord .postgres (defaultSelectSQL usersTable .postgres) = some ["public".toList, "users".toList] ∧
      ¬(fromPath anyWord .postgres (defaultSelectSQL usersTable .postgres) =
          some [usersTable.schema, usersTable.name] ∧
        EndsOneStatement .postgres (defaultSelectSQL usersTable .postgres)) := by
  have hread : fromPath anyWord .postgres (defaultSelectSQL usersTable .postgres) =
      some ["public".toList, "users".toList] := by
    decide +kernel
  refine ⟨hread, fun h => ?_⟩
  have hsame := hread.symm.trans h.1
  exact absurd hsame (by decide)

end Workbench.Table
