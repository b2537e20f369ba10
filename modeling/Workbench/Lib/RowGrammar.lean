import Workbench.Lib.SqlNames

/-!
# Statements on single rows, as a database reads them

A reader for `INSERT`, `UPDATE` and `DELETE` with one placeholder for each column, over the tokens of the
text. A placeholder is a question mark, which takes the next argument, or a dollar sign with the number of
its argument; `RowStatement` says which argument goes to which column.
-/

set_option autoImplicit false

namespace Workbench.Lib

/-- A column and the number of the argument that is bound to it. -/
structure Binding where
  column : List Char
  argument : Nat
  deriving DecidableEq, Repr

inductive RowAction where
  | insert (columns : List Binding)
  | update (sets wheres : List Binding)
  | delete (wheres : List Binding)
  deriving DecidableEq, Repr

structure RowStatement where
  path : List (List Char)
  action : RowAction
  deriving DecidableEq, Repr

/-! ## Reading -/

/-- The token at the front. -/
def expect (t : SqlToken) : List SqlToken → Option (List SqlToken)
  | [] => none
  | u :: rest => if u = t then some rest else none

/-- Items with a separator between them, up to a token that is none. The state goes from one item to the
next. -/
def readItems {A : Type} (item : Nat → List SqlToken → Option (A × Nat × List SqlToken)) (sep : SqlToken) :
    Nat → Nat → List SqlToken → Option (List A × Nat × List SqlToken)
  | 0, _, _ => none
  | fuel + 1, n, tokens =>
    (item n tokens).bind fun (a, n', rest) =>
      match expect sep rest with
      | none => some ([a], n', rest)
      | some more => (readItems item sep fuel n' more).map fun (items, m, after) => (a :: items, m, after)

def readNumber (word : List Char) : Option Nat :=
  if word ≠ [] ∧ word.all Char.isDigit = true then some (Nat.ofDigitChars 10 word 0) else none

/-- How a dialect writes its row statements: its names, and whether it numbers its placeholders. -/
structure RowRules where
  names : NameRules
  numbered : Bool

namespace RowRules

variable (R : RowRules)

/-- A placeholder behind `n` others. -/
def readPlaceholder (n : Nat) : List SqlToken → Option (Nat × Nat × List SqlToken)
  | .symbol c :: .word word :: rest =>
    if R.numbered then
      if c = '$' then (readNumber word).map fun k => (k, n + 1, rest) else none
    else if c = '?' then some (n + 1, n + 1, .word word :: rest) else none
  | .symbol c :: rest => if !R.numbered && c = '?' then some (n + 1, n + 1, rest) else none
  | _ => none

/-- The name of a column. -/
def readColumn (n : Nat) : List SqlToken → Option (List Char × Nat × List SqlToken)
  | [] => none
  | t :: rest => (R.names.readName false t).map fun name => (name, n, rest)

/-- A column, an equals sign and a placeholder. -/
def readEquality (n : Nat) (tokens : List SqlToken) : Option (Binding × Nat × List SqlToken) :=
  (R.readColumn n tokens).bind fun (column, n, rest) =>
    (expect (.symbol '=') rest).bind fun rest =>
      (R.readPlaceholder n rest).map fun (argument, n, rest) => (⟨column, argument⟩, n, rest)

/-- Columns and as many placeholders, each list in its parentheses. -/
def readValues (tokens : List SqlToken) : Option (List Binding × List SqlToken) :=
  (expect (.symbol '(') tokens).bind fun rest =>
    (readItems R.readColumn (.symbol ',') rest.length 0 rest).bind fun (columns, n, rest) =>
      (expect (.symbol ')') rest).bind fun rest =>
        (expect (.word "VALUES".toList) rest).bind fun rest =>
          (expect (.symbol '(') rest).bind fun rest =>
            (readItems R.readPlaceholder (.symbol ',') rest.length n rest).bind fun (arguments, _, rest) =>
              (expect (.symbol ')') rest).bind fun rest =>
                if columns.length = arguments.length then some (columns.zipWith Binding.mk arguments, rest)
                else none

/-- The conditions of a `WHERE`. -/
def readWhere (n : Nat) (tokens : List SqlToken) : Option (List Binding × List SqlToken) :=
  (expect (.word "WHERE".toList) tokens).bind fun rest =>
    (readItems R.readEquality (.word "AND".toList) rest.length n rest).map fun (wheres, _, rest) =>
      (wheres, rest)

def readUpdate (tokens : List SqlToken) : Option (RowAction × List SqlToken) :=
  (expect (.word "SET".toList) tokens).bind fun rest =>
    (readItems R.readEquality (.symbol ',') rest.length 0 rest).bind fun (sets, n, rest) =>
      (R.readWhere n rest).map fun (wheres, rest) => (.update sets wheres, rest)

def readDelete (tokens : List SqlToken) : Option (RowAction × List SqlToken) :=
  (R.readWhere 0 tokens).map fun (wheres, rest) => (.delete wheres, rest)

def readInsert (tokens : List SqlToken) : Option (RowAction × List SqlToken) :=
  (R.readValues tokens).map fun (columns, rest) => (.insert columns, rest)

/-- A statement whose path stands in front of the tokens. -/
def readOn (tokens : List SqlToken) (action : List SqlToken → Option (RowAction × List SqlToken)) :
    Option RowStatement :=
  (R.names.readPath false tokens).bind fun (path, rest) =>
    (action rest).bind fun (action, rest) => if rest = [] then some ⟨path, action⟩ else none

/-- **The statement of a text.** -/
def readRow : List SqlToken → Option RowStatement
  | [] => none
  | verb :: rest =>
    if verb = .word "UPDATE".toList then R.readOn rest R.readUpdate
    else if verb = .word "DELETE".toList then
      (expect (.word "FROM".toList) rest).bind fun rest => R.readOn rest R.readDelete
    else if verb = .word "INSERT".toList then
      (expect (.word "INTO".toList) rest).bind fun rest => R.readOn rest R.readInsert
    else none

end RowRules

/-! ## What the reader reads -/

theorem expect_cons (t : SqlToken) (rest : List SqlToken) : expect t (t :: rest) = some rest := if_pos rfl

/-- The tokens of items with separators between them. -/
def separated (sep : SqlToken) : List (List SqlToken) → List SqlToken
  | [] => []
  | [x] => x
  | x :: y :: rest => x ++ sep :: separated sep (y :: rest)

/-- Each item suits the state that the ones before it leave. -/
def InTurn {B : Type} (next : Nat → Nat) (suits : Nat → B → Prop) : Nat → List B → Prop
  | _, [] => True
  | n, b :: rest => suits n b ∧ InTurn next suits (next n) rest

theorem InTurn.and {B : Type} {next : Nat → Nat} {suits : Nat → B → Prop} {p : B → Prop} {items : List B} {n : Nat}
    (h : InTurn next suits n items) (hp : ∀ b ∈ items, p b) :
    InTurn next (fun k b => suits k b ∧ p b) n items := by
  induction items generalizing n with
  | nil => trivial
  | cons b rest ih =>
    rw [List.forall_mem_cons] at hp
    exact ⟨⟨h.1, hp.1⟩, ih h.2 hp.2⟩

theorem inTurn_of_forall {B : Type} {next : Nat → Nat} {p : B → Prop} {items : List B} (hp : ∀ b ∈ items, p b)
    (n : Nat) : InTurn next (fun _ b => p b) n items := by
  induction items generalizing n with
  | nil => trivial
  | cons b rest ih =>
    rw [List.forall_mem_cons] at hp
    exact ⟨hp.1, ih hp.2 _⟩

/-- **Items that are read one by one are read as a list.** -/
theorem readItems_separated {A B : Type} {item : Nat → List SqlToken → Option (A × Nat × List SqlToken)}
    {sep : SqlToken} {text : B → List SqlToken} {value : B → A} {next : Nat → Nat} {suits : Nat → B → Prop}
    (h : ∀ n b rest, suits n b → item n (text b ++ rest) = some (value b, next n, rest)) {after : List SqlToken}
    (hafter : after.head? ≠ some sep) (b : B) (items : List B) :
    ∀ n fuel, InTurn next suits n (b :: items) → items.length < fuel →
      readItems item sep fuel n (separated sep ((b :: items).map text) ++ after) =
        some ((b :: items).map value, next^[items.length + 1] n, after) := by
  induction items generalizing b with
  | nil =>
    intro n fuel hsuits hfuel
    obtain ⟨fuel, rfl⟩ := Nat.exists_eq_add_of_lt hfuel
    have hend : expect sep after = none := by
      cases after with
      | nil => rfl
      | cons t rest => exact if_neg fun ht => hafter (by rw [ht]; rfl)
    rw [List.length_nil, Nat.zero_add, readItems, List.map_singleton, separated, h n b after hsuits.1,
      Option.bind_some]
    show (match expect sep after with
      | none => some ([value b], next n, after)
      | some more => _) = _
    rw [hend]
    rfl
  | cons c items ih =>
    intro n fuel hsuits hfuel
    obtain ⟨fuel, rfl⟩ : ∃ k, fuel = k + 1 := Nat.exists_eq_succ_of_ne_zero (by omega)
    have hrest := ih c (next n) fuel hsuits.2 (by rw [List.length_cons] at hfuel; omega)
    have htext : separated sep ((b :: c :: items).map text) ++ after =
        text b ++ sep :: (separated sep ((c :: items).map text) ++ after) := by
      rw [List.map_cons, List.map_cons, separated, List.append_assoc, List.cons_append]
    rw [readItems, htext, h n b _ hsuits.1, Option.bind_some]
    show (match expect sep (sep :: _) with
      | none => _
      | some more => (readItems item sep fuel (next n) more).map _) = _
    rw [expect_cons]
    show (readItems item sep fuel (next n) _).map _ = _
    rw [hrest]
    rfl

theorem readNumber_toDigits (n : Nat) : readNumber (Nat.toDigits 10 n) = some n := by
  have hdigits : (Nat.toDigits 10 n).all Char.isDigit = true :=
    List.all_eq_true.2 fun c hc => Nat.isDigit_of_mem_toDigits (by omega) (by omega) hc
  rw [readNumber, if_pos ⟨Nat.toDigits_ne_nil, hdigits⟩, Nat.ofDigitChars_ten_toDigits]

theorem length_separated (sep : SqlToken) {B : Type} {text : B → List SqlToken} (b : B) (items : List B)
    (h : ∀ c ∈ b :: items, text c ≠ []) : items.length < (separated sep ((b :: items).map text)).length := by
  induction items generalizing b with
  | nil => exact List.length_pos_iff.2 (h b List.mem_cons_self)
  | cons c rest ih =>
    have hrest := ih c fun d hd => h d (List.mem_cons_of_mem b hd)
    rw [List.map_cons, List.map_cons, separated, List.length_append, List.length_cons, List.length_cons]
    rw [List.map_cons] at hrest
    omega

namespace RowRules

variable {R : RowRules}

/-- A placeholder as the dialect writes it. -/
def placeholderTokens (R : RowRules) (argument : Nat) : List SqlToken :=
  if R.numbered then [.symbol '$', .word (Nat.toDigits 10 argument)] else [.symbol '?']

/-- A quoted name of a column. -/
def columnTokens (mark : Char) (column : List Char) : List SqlToken := [.quoted mark column]

def equalityTokens (R : RowRules) (mark : Char) (b : Binding) : List SqlToken :=
  .quoted mark b.column :: .symbol '=' :: R.placeholderTokens b.argument

theorem readPlaceholder_tokens (n argument : Nat) (rest : List SqlToken) (h : argument = n + 1) :
    R.readPlaceholder n (R.placeholderTokens argument ++ rest) = some (argument, n + 1, rest) := by
  subst h
  rw [placeholderTokens]
  split_ifs with hnumbered
  · rw [List.cons_append, List.cons_append, List.nil_append, readPlaceholder, if_pos hnumbered, if_pos rfl,
      readNumber_toDigits]
    rfl
  · have hplain : R.numbered = false := Bool.eq_false_of_not_eq_true hnumbered
    rw [List.cons_append, List.nil_append]
    cases rest with
    | nil => simp [readPlaceholder, hplain]
    | cons t more => cases t <;> simp [readPlaceholder, hplain]

theorem readColumn_tokens {mark : Char} (hmark : R.names.lex.isNameMark mark = true) {column : List Char}
    (hcolumn : column ≠ []) (n : Nat) (rest : List SqlToken) :
    R.readColumn n (columnTokens mark column ++ rest) = some (column, n, rest) := by
  rw [columnTokens, List.singleton_append, readColumn, NameRules.readName, if_pos ⟨hcolumn, hmark⟩]
  rfl

theorem readEquality_tokens {mark : Char} (hmark : R.names.lex.isNameMark mark = true) {b : Binding}
    (hcolumn : b.column ≠ []) (n : Nat) (rest : List SqlToken) (h : b.argument = n + 1) :
    R.readEquality n (R.equalityTokens mark b ++ rest) = some (b, n + 1, rest) := by
  have hread := readColumn_tokens (R := R) hmark hcolumn n (.symbol '=' :: (R.placeholderTokens b.argument ++ rest))
  rw [columnTokens, List.singleton_append] at hread
  rw [equalityTokens, List.cons_append, List.cons_append, readEquality, hread, Option.bind_some]
  show (expect (.symbol '=') (.symbol '=' :: _)).bind _ = _
  rw [expect_cons, Option.bind_some, readPlaceholder_tokens n b.argument rest h]
  rfl

/-! ### Lists of bindings -/

/-- The bindings take the arguments behind the first `n`, in their order. -/
abbrev Numbered (n : Nat) (bindings : List Binding) : Prop :=
  InTurn (· + 1) (fun k (b : Binding) => b.argument = k + 1) n bindings

theorem iterate_succ (n k : Nat) : (· + 1)^[k] n = n + k := by
  induction k generalizing n with
  | zero => rfl
  | succ k ih => rw [Function.iterate_succ_apply, ih, Nat.add_assoc, Nat.add_comm 1 k]

variable {mark : Char}

/-- A list of items with a token at least each, read with as much fuel as there are tokens. -/
theorem readItems_tokens {A : Type} (item : Nat → List SqlToken → Option (A × Nat × List SqlToken))
    (sep : SqlToken) (text : Binding → List SqlToken) (value : Binding → A) (next : Nat → Nat)
    {suits : Nat → Binding → Prop}
    (h : ∀ n b rest, suits n b → item n (text b ++ rest) = some (value b, next n, rest))
    (htext : ∀ b, text b ≠ []) {bindings : List Binding} (hne : bindings ≠ []) {n : Nat}
    (hsuits : InTurn next suits n bindings) (after : List SqlToken) (hafter : after.head? ≠ some sep) :
    readItems item sep (separated sep (bindings.map text) ++ after).length n
        (separated sep (bindings.map text) ++ after) =
      some (bindings.map value, next^[bindings.length] n, after) := by
  cases bindings with
  | nil => exact absurd rfl hne
  | cons b rest =>
    have hlength := length_separated sep b rest fun c _ => htext c
    refine readItems_separated h hafter b rest n _ hsuits ?_
    rw [List.length_append]
    omega

theorem equalityTokens_ne_nil (b : Binding) : R.equalityTokens mark b ≠ [] := List.cons_ne_nil _ _

theorem placeholderTokens_ne_nil (argument : Nat) : R.placeholderTokens argument ≠ [] := by
  rw [placeholderTokens]
  split_ifs
  · exact List.cons_ne_nil _ _
  · exact List.cons_ne_nil _ _

theorem readEqualities_tokens (hmark : R.names.lex.isNameMark mark = true) {sep : SqlToken}
    {bindings : List Binding} (hne : bindings ≠ []) (hcolumns : ∀ b ∈ bindings, b.column ≠ []) {n : Nat}
    (hnumbered : Numbered n bindings) (after : List SqlToken) (hafter : after.head? ≠ some sep) :
    readItems R.readEquality sep (separated sep (bindings.map (R.equalityTokens mark)) ++ after).length n
        (separated sep (bindings.map (R.equalityTokens mark)) ++ after) =
      some (bindings, n + bindings.length, after) := by
  have hread := readItems_tokens R.readEquality sep (R.equalityTokens mark) id (· + 1)
    (fun n b rest hb => readEquality_tokens hmark hb.2 n rest hb.1) equalityTokens_ne_nil hne
    (hnumbered.and hcolumns) after hafter
  rw [List.map_id, iterate_succ] at hread
  exact hread

theorem zipWith_bindings (bindings : List Binding) :
    (bindings.map Binding.column).zipWith Binding.mk (bindings.map Binding.argument) = bindings := by
  induction bindings with
  | nil => rfl
  | cons b rest ih => rw [List.map_cons, List.map_cons, List.zipWith_cons_cons, ih]

/-! ### Statements -/

/-- The conditions as the dialect writes them. -/
def whereTokens (R : RowRules) (mark : Char) (wheres : List Binding) : List SqlToken :=
  .word "WHERE".toList :: separated (.word "AND".toList) (wheres.map (R.equalityTokens mark))

theorem readWhere_tokens (hmark : R.names.lex.isNameMark mark = true) {wheres : List Binding} (hne : wheres ≠ [])
    (hcolumns : ∀ b ∈ wheres, b.column ≠ []) {n : Nat} (hnumbered : Numbered n wheres) :
    R.readWhere n (R.whereTokens mark wheres) = some (wheres, []) := by
  have hend : ([] : List SqlToken).head? ≠ some (.word "AND".toList) := by simp
  have hread := readEqualities_tokens (R := R) hmark hne hcolumns hnumbered [] hend
  rw [List.append_nil] at hread
  rw [readWhere, whereTokens, expect_cons, Option.bind_some, hread]
  rfl

/-- Columns and placeholders as the dialect writes them. -/
def valuesTokens (R : RowRules) (mark : Char) (bindings : List Binding) : List SqlToken :=
  .symbol '(' :: (separated (.symbol ',') (bindings.map fun b => columnTokens mark b.column) ++
    .symbol ')' :: .word "VALUES".toList :: .symbol '(' ::
      (separated (.symbol ',') (bindings.map fun b => R.placeholderTokens b.argument) ++ [.symbol ')']))

theorem readValues_tokens (hmark : R.names.lex.isNameMark mark = true) {bindings : List Binding}
    (hne : bindings ≠ []) (hcolumns : ∀ b ∈ bindings, b.column ≠ []) (hnumbered : Numbered 0 bindings) :
    R.readValues (R.valuesTokens mark bindings) = some (bindings, []) := by
  have hclose (rest : List SqlToken) : (SqlToken.symbol ')' :: rest).head? ≠ some (.symbol ',') := by simp
  have hread := readItems_tokens R.readColumn (.symbol ',') (fun b => columnTokens mark b.column) Binding.column id
    (fun n b rest hb => readColumn_tokens hmark hb n rest) (fun _ => List.cons_ne_nil _ _) hne
    (inTurn_of_forall hcolumns 0)
    (.symbol ')' :: .word "VALUES".toList :: .symbol '(' ::
      (separated (.symbol ',') (bindings.map fun b => R.placeholderTokens b.argument) ++ [.symbol ')']))
    (hclose _)
  have harguments := readItems_tokens R.readPlaceholder (.symbol ',') (fun b => R.placeholderTokens b.argument)
    Binding.argument (· + 1) (fun n b rest hb => readPlaceholder_tokens n b.argument rest hb)
    (fun b => placeholderTokens_ne_nil b.argument) hne hnumbered [.symbol ')'] (hclose [])
  rw [readValues, valuesTokens, expect_cons, Option.bind_some, hread, Option.bind_some]
  show (expect _ (_ :: _)).bind _ = _
  rw [expect_cons, Option.bind_some, expect_cons, Option.bind_some, expect_cons, Option.bind_some,
    Function.iterate_id, id, harguments, Option.bind_some]
  show (expect _ [_]).bind _ = _
  rw [expect_cons, Option.bind_some, if_pos (by rw [List.length_map, List.length_map]), zipWith_bindings]

/-- The path of a table as the dialect writes it. -/
def pathTokens (mark : Char) (schema table : List Char) : List SqlToken :=
  if schema = [] then [.quoted mark table] else [.quoted mark schema, .symbol '.', .quoted mark table]

def pathOf (schema table : List Char) : List (List Char) := if schema = [] then [table] else [schema, table]

theorem readPath_tokens (hmark : R.names.lex.isNameMark mark = true) {schema table : List Char} (htable : table ≠ [])
    {rest : List SqlToken} (hrest : rest.head? ≠ some (.symbol '.')) :
    R.names.readPath false (pathTokens mark schema table ++ rest) = some (pathOf schema table, rest) := by
  have hname {q : Bool} {name : List Char} (hne : name ≠ []) :
      R.names.readName q (.quoted mark name) = some name := if_pos ⟨hne, hmark⟩
  rw [pathTokens, pathOf]
  split_ifs with hschema
  · rw [List.singleton_append, NameRules.readPath_cons _ _ hrest, hname htable]
    rfl
  · rw [List.cons_append, List.cons_append, List.singleton_append, NameRules.readPath_dot, hname hschema,
      Option.bind_some, NameRules.readPath_cons _ _ hrest, hname htable]
    rfl

theorem readOn_tokens (hmark : R.names.lex.isNameMark mark = true) {schema table : List Char} (htable : table ≠ [])
    {rest : List SqlToken} (hrest : rest.head? ≠ some (.symbol '.'))
    {action : List SqlToken → Option (RowAction × List SqlToken)} {a : RowAction} (h : action rest = some (a, [])) :
    R.readOn (pathTokens mark schema table ++ rest) action = some ⟨pathOf schema table, a⟩ := by
  rw [readOn, readPath_tokens hmark htable hrest, Option.bind_some]
  show (action rest).bind _ = _
  rw [h, Option.bind_some]
  exact if_pos rfl

variable {schema table : List Char}

theorem readRow_update (hmark : R.names.lex.isNameMark mark = true) (htable : table ≠ []) {sets wheres : List Binding}
    (hsets : sets ≠ []) (hwheres : wheres ≠ []) (hcolumns : ∀ b ∈ sets ++ wheres, b.column ≠ [])
    (hfirst : Numbered 0 sets) (hsecond : Numbered sets.length wheres) :
    R.readRow (.word "UPDATE".toList :: (pathTokens mark schema table ++ .word "SET".toList ::
      (separated (.symbol ',') (sets.map (R.equalityTokens mark)) ++ R.whereTokens mark wheres))) =
      some ⟨pathOf schema table, .update sets wheres⟩ := by
  have hcomma : (R.whereTokens mark wheres).head? ≠ some (.symbol ',') := by simp [whereTokens]
  have hread := readEqualities_tokens (R := R) hmark hsets (fun b hb => hcolumns b (List.mem_append_left _ hb))
    hfirst _ hcomma
  have hwhere := readWhere_tokens (R := R) hmark hwheres (fun b hb => hcolumns b (List.mem_append_right _ hb)) hsecond
  have hset (rest : List SqlToken) : (SqlToken.word "SET".toList :: rest).head? ≠ some (.symbol '.') := by simp
  rw [readRow, if_pos rfl]
  refine readOn_tokens hmark htable (hset _) ?_
  rw [readUpdate, expect_cons, Option.bind_some, hread, Option.bind_some]
  show (R.readWhere (0 + sets.length) _).map _ = _
  rw [Nat.zero_add, hwhere]
  rfl

theorem readRow_delete (hmark : R.names.lex.isNameMark mark = true) (htable : table ≠ []) {wheres : List Binding}
    (hwheres : wheres ≠ []) (hcolumns : ∀ b ∈ wheres, b.column ≠ []) (hnumbered : Numbered 0 wheres) :
    R.readRow (.word "DELETE".toList :: .word "FROM".toList ::
      (pathTokens mark schema table ++ R.whereTokens mark wheres)) =
      some ⟨pathOf schema table, .delete wheres⟩ := by
  have hwhere := readWhere_tokens (R := R) hmark hwheres hcolumns hnumbered
  have hdot : (R.whereTokens mark wheres).head? ≠ some (.symbol '.') := by simp [whereTokens]
  rw [readRow, if_neg (by decide), if_pos rfl, expect_cons, Option.bind_some]
  refine readOn_tokens hmark htable hdot ?_
  rw [readDelete, hwhere]
  rfl

theorem readRow_insert (hmark : R.names.lex.isNameMark mark = true) (htable : table ≠ []) {bindings : List Binding}
    (hne : bindings ≠ []) (hcolumns : ∀ b ∈ bindings, b.column ≠ []) (hnumbered : Numbered 0 bindings) :
    R.readRow (.word "INSERT".toList :: .word "INTO".toList ::
      (pathTokens mark schema table ++ R.valuesTokens mark bindings)) =
      some ⟨pathOf schema table, .insert bindings⟩ := by
  have hvalues := readValues_tokens (R := R) hmark hne hcolumns hnumbered
  have hdot : (R.valuesTokens mark bindings).head? ≠ some (.symbol '.') := by simp [valuesTokens]
  rw [readRow, if_neg (by decide), if_neg (by decide), if_pos rfl, expect_cons, Option.bind_some]
  refine readOn_tokens hmark htable hdot ?_
  rw [readInsert, hvalues]
  rfl

end RowRules

end Workbench.Lib
