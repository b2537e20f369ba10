import Workbench.Lib.RowGrammar
import Workbench.Schema.Reading
import Workbench.Table.Mutation

/-!
# What the statements of a mutation say

The texts of the three builders, read back by their database: one statement on the table of the mutation,
with every column under its own name and every argument at its own column. PostgreSQL numbers its
placeholders and the numbers go on from `SET` to `WHERE`; MySQL takes the arguments in order.
-/

set_option autoImplicit false

namespace Workbench.Table

open Workbench.Lib
open Workbench.Schema (IsOneStatement)

variable {V : Type}

/-- How the database reads row statements. -/
def rowRules (bare : Dialect → Bool → Text → Bool) (d : Dialect) : RowRules where
  names := d.names bare
  numbered := d = .postgres

def Part.binding (p : Part) : Binding := ⟨p.column, p.position⟩

/-! ## The texts, piece by piece -/

/-- A character that can follow a name or a placeholder. -/
def isBreak (c : Char) : Bool := c = ' ' || c = ',' || c = ')' || c = '.'

/-- What can follow a name or a placeholder. -/
def Breaks (tail : Text) : Prop := ∀ c, tail.head? = some c → isBreak c = true

theorem breaks_nil : Breaks [] := by
  intro c h
  cases h

theorem breaks_front {front : Text} (h : front.head?.map isBreak = some true) (tail : Text) :
    Breaks (front ++ tail) := by
  intro c hc
  cases front with
  | nil => cases h
  | cons x rest =>
    rw [← Option.some.inj hc]
    exact Option.some.inj h

theorem isBreak_cases {c : Char} (h : isBreak c = true) : c = ' ' ∨ c = ',' ∨ c = ')' ∨ c = '.' := by
  simpa [isBreak, or_assoc] using h

variable {d : Dialect} (bare : Dialect → Bool → Text → Bool)

theorem tokens_name (name : Text) {tail : Text} (h : Breaks tail) :
    d.rules.tokens (quoteIdentifier d name ++ tail) = .quoted (quoteMark d) name :: d.rules.tokens tail := by
  have hrun : d.rules.reader.Run (.start, .idle) (quoteIdentifier d name) []
      (.closed (quoteMark d) false, .quoted (quoteMark d) name) := by
    cases d with
    | mysql => exact LexRules.run_quoted (R := LexRules.mysql) rfl rfl rfl name
    | postgres => exact LexRules.run_quoted (R := LexRules.postgres) rfl rfl rfl name
  have hmark : tail.head? ≠ some (quoteMark d) := by
    intro hhead
    have hbreak := h _ hhead
    cases d <;> cases hbreak
  exact (hrun.scan tail).trans (LexRules.scan_closed false name hmark)

/-- A word in front of such a tail. -/
theorem scan_word_breaks (escapePrefix : Bool) (word : Text) {tail : Text} (h : Breaks tail) :
    Dialect.postgres.rules.reader.scan (.word escapePrefix, .word word) tail =
      .word word :: Dialect.postgres.rules.tokens tail := by
  cases tail with
  | nil => rfl
  | cons c rest =>
    rcases isBreak_cases (h c rfl) with rfl | rfl | rfl | rfl
    · exact LexRules.scan_word (by decide) (by decide) ⟨_, _, rfl, fun p hp => by cases hp⟩ escapePrefix word rest
    · exact LexRules.scan_word (by decide) (by decide) ⟨_, _, rfl, fun p hp => by cases hp⟩ escapePrefix word rest
    · exact LexRules.scan_word (by decide) (by decide) ⟨_, _, rfl, fun p hp => by cases hp⟩ escapePrefix word rest
    · exact LexRules.scan_word (by decide) (by decide) ⟨_, _, rfl, fun p hp => by cases hp⟩ escapePrefix word rest

/-- A dollar sign in front of digits opens no quote. -/
theorem run_dollar (n : Nat) :
    ∃ escapePrefix, Dialect.postgres.rules.reader.Run (.start, .idle) ('$' :: Nat.toDigits 10 n) [.symbol '$']
      (.word escapePrefix, .word (Nat.toDigits 10 n)) := by
  have hdigit {c : Char} (hc : c ∈ Nat.toDigits 10 n) : c.isDigit = true :=
    Nat.isDigit_of_mem_toDigits (by omega) (by omega) hc
  have hident {c : Char} (hc : c ∈ Nat.toDigits 10 n) : isIdentChar c = true := by
    rw [isIdentChar, Char.isAlphanum, hdigit hc, Bool.or_true]
    rfl
  cases hdigits : Nat.toDigits 10 n with
  | nil => exact absurd hdigits Nat.toDigits_ne_nil
  | cons c rest =>
    rw [hdigits] at hdigit hident
    have hc := hdigit List.mem_cons_self
    have hdollar : ¬c = '$' := by
      rintro rfl
      cases hc
    obtain ⟨escapePrefix, henter⟩ := NameRules.enter_word (N := Dialect.postgres.names anyWord)
      (hident List.mem_cons_self) fun _ => hdollar
    have htag : isTagChar [] c = false := by
      rw [isTagChar, hc]
      simp
    have hopen : Dialect.postgres.rules.reader.Run (.start, .idle) ['$'] [] (.tag [], .idle) := ⟨rfl, rfl⟩
    have hstep : Dialect.postgres.rules.step (.tag []) c = (.word escapePrefix, [.symbol '$', .wordStart c]) := by
      have henter' : Dialect.postgres.rules.enter c = (.word escapePrefix, [.wordStart c]) := henter
      rw [LexRules.step, if_neg hdollar, htag, if_neg Bool.false_ne_true, LexRules.enterAfter, henter']
      rfl
    have hfirst : Dialect.postgres.rules.reader.Run (.tag [], .idle) [c] [.symbol '$']
        (.word escapePrefix, .word [c]) := (LexRules.run_step hstep).pipe ⟨rfl, rfl⟩
    obtain ⟨escapePrefix', hrest⟩ := NameRules.run_wordParts (N := Dialect.postgres.names anyWord)
      (fun x hx => hident (List.mem_cons_of_mem c hx)) escapePrefix [c]
    exact ⟨escapePrefix', hopen.append (hfirst.append hrest)⟩

theorem tokens_placeholder (position : Nat) {tail : Text} (h : Breaks tail) :
    d.rules.tokens (placeholder d position ++ tail) =
      (rowRules bare d).placeholderTokens position ++ d.rules.tokens tail := by
  cases d with
  | mysql =>
    have hrun : Dialect.mysql.rules.reader.Run (.start, .idle) ['?'] [.symbol '?'] (.start, .idle) := ⟨rfl, rfl⟩
    exact hrun.scan tail
  | postgres =>
    obtain ⟨escapePrefix, hrun⟩ := run_dollar position
    have hdigits : placeholder .postgres position = '$' :: Nat.toDigits 10 position :=
      congrArg ('$' :: ·) Nat.toList_repr
    rw [hdigits]
    refine (hrun.scan tail).trans ?_
    rw [scan_word_breaks escapePrefix _ h]
    rfl

/-- Parts with a text between them that is read as one token. -/
theorem tokens_joined {sep : Text} {t : Lib.SqlToken} (text : Part → Text) (toks : Part → List Lib.SqlToken)
    (hsep : ∀ tail, Breaks (sep ++ tail) ∧ d.rules.tokens (sep ++ tail) = t :: d.rules.tokens tail)
    (htext : ∀ p tail, Breaks tail → d.rules.tokens (text p ++ tail) = toks p ++ d.rules.tokens tail)
    {parts : List Part} (hne : parts ≠ []) {tail : Text} (h : Breaks tail) :
    d.rules.tokens (joinWith sep (parts.map text) ++ tail) =
      separated t (parts.map toks) ++ d.rules.tokens tail := by
  cases parts with
  | nil => exact absurd rfl hne
  | cons p rest =>
    clear hne
    induction rest generalizing p with
    | nil =>
      rw [List.map_singleton, List.map_singleton, joinWith, List.intercalate_singleton, separated]
      exact htext p tail h
    | cons q rest ih =>
      have hrest := ih q
      have hjoin : joinWith sep ((p :: q :: rest).map text) ++ tail =
          text p ++ (sep ++ (joinWith sep ((q :: rest).map text) ++ tail)) := by
        rw [List.map_cons, List.map_cons, joinWith, List.intercalate_cons_cons]
        simp only [List.append_assoc]
        rfl
      have htokens : separated t ((p :: q :: rest).map toks) =
          toks p ++ t :: separated t ((q :: rest).map toks) := rfl
      rw [hjoin, htext p _ (hsep _).1, (hsep _).2, hrest, htokens, List.append_assoc, List.cons_append]

theorem tokens_part (p : Part) {tail : Text} (h : Breaks tail) :
    d.rules.tokens (p.text d ++ tail) =
      (rowRules bare d).equalityTokens (quoteMark d) p.binding ++ d.rules.tokens tail := by
  have hequals : d.rules.reader.Run (.start, .idle) " = ".toList [.symbol '='] (.start, .idle) := by
    cases d <;> exact ⟨rfl, rfl⟩
  have hscan := hequals.scan (placeholder d p.position ++ tail)
  have htext : p.text d ++ tail = quoteIdentifier d p.column ++ (" = ".toList ++ (placeholder d p.position ++ tail)) := by
    show (_ ++ (_ ++ _)) ++ _ = _
    rw [List.append_assoc, List.append_assoc]
  have hbreaks : Breaks (" = ".toList ++ (placeholder d p.position ++ tail)) := breaks_front rfl _
  rw [htext, tokens_name p.column hbreaks, LexRules.tokens, hscan, ← LexRules.tokens,
    tokens_placeholder bare p.position h]
  rfl

/-- The fixed texts of the statements. -/
theorem tokens_fixed {text : Text} {tokens : List Lib.SqlToken}
    (h : d.rules.reader.Run (.start, .idle) text tokens (.start, .idle)) (tail : Text) :
    d.rules.tokens (text ++ tail) = tokens ++ d.rules.tokens tail := h.scan tail

theorem tokens_table (schema table : Text) {tail : Text} (h : Breaks tail) :
    d.rules.tokens (tableName d schema table ++ tail) =
      RowRules.pathTokens (quoteMark d) schema table ++ d.rules.tokens tail := by
  rw [tableName, RowRules.pathTokens]
  split_ifs with hschema
  · exact tokens_name table h
  · have hdot : d.rules.reader.Run (.start, .idle) ['.'] [.symbol '.'] (.start, .idle) := by
      cases d <;> exact ⟨rfl, rfl⟩
    have hscan := tokens_fixed hdot (quoteIdentifier d table ++ tail)
    have hbreaks : Breaks (['.'] ++ (quoteIdentifier d table ++ tail)) := breaks_front rfl _
    rw [List.append_assoc, List.cons_append, ← List.singleton_append, tokens_name schema hbreaks, hscan]
    rw [tokens_name table h]
    rfl

theorem tokens_parts {sep : Text} {t : Lib.SqlToken}
    (hsep : ∀ tail, Breaks (sep ++ tail) ∧ d.rules.tokens (sep ++ tail) = t :: d.rules.tokens tail)
    {parts : List Part} (hne : parts ≠ []) {tail : Text} (h : Breaks tail) :
    d.rules.tokens (joinWith sep (parts.map (Part.text d)) ++ tail) =
      separated t ((parts.map Part.binding).map ((rowRules bare d).equalityTokens (quoteMark d))) ++
        d.rules.tokens tail := by
  rw [List.map_map]
  exact tokens_joined (Part.text d) _ hsep (fun p tail => tokens_part bare p) hne h

theorem tokens_comma (tail : Text) :
    Breaks (", ".toList ++ tail) ∧ d.rules.tokens (", ".toList ++ tail) = .symbol ',' :: d.rules.tokens tail := by
  have hcomma : d.rules.reader.Run (.start, .idle) ", ".toList [.symbol ','] (.start, .idle) := by
    cases d <;> exact ⟨rfl, rfl⟩
  exact ⟨breaks_front rfl _, tokens_fixed hcomma tail⟩

theorem tokens_and (tail : Text) :
    Breaks (" AND ".toList ++ tail) ∧
      d.rules.tokens (" AND ".toList ++ tail) = .word "AND".toList :: d.rules.tokens tail := by
  have hand : d.rules.reader.Run (.start, .idle) " AND ".toList [.word "AND".toList] (.start, .idle) := by
    cases d <;> exact ⟨rfl, rfl⟩
  exact ⟨breaks_front rfl _, tokens_fixed hand tail⟩

/-- The conditions at the end of a text. -/
theorem tokens_wheres {wheres : List Part} (hne : wheres ≠ []) :
    d.rules.tokens (" WHERE ".toList ++ joinWith " AND ".toList (wheres.map (Part.text d))) =
      (rowRules bare d).whereTokens (quoteMark d) (wheres.map Part.binding) := by
  have hword : d.rules.reader.Run (.start, .idle) " WHERE ".toList [.word "WHERE".toList] (.start, .idle) := by
    cases d <;> exact ⟨rfl, rfl⟩
  have hnil : d.rules.tokens [] = [] := by
    cases d <;> rfl
  have hparts := tokens_parts (d := d) bare tokens_and hne breaks_nil
  rw [List.append_nil, hnil, List.append_nil] at hparts
  rw [tokens_fixed hword, hparts]
  rfl

section

variable (schema table : Text) (args : List V)

theorem tokens_update {sets wheres : List Part} (hsets : sets ≠ []) (hwheres : wheres ≠ []) :
    d.rules.tokens (Statement.sql ⟨d, schema, table, .update sets wheres, args⟩) =
      .word "UPDATE".toList :: (RowRules.pathTokens (quoteMark d) schema table ++ .word "SET".toList ::
        (separated (.symbol ',') ((sets.map Part.binding).map ((rowRules bare d).equalityTokens (quoteMark d))) ++
          (rowRules bare d).whereTokens (quoteMark d) (wheres.map Part.binding))) := by
  have hverb : d.rules.reader.Run (.start, .idle) "UPDATE ".toList [.word "UPDATE".toList] (.start, .idle) := by
    cases d <;> exact ⟨rfl, rfl⟩
  have hset : d.rules.reader.Run (.start, .idle) " SET ".toList [.word "SET".toList] (.start, .idle) := by
    cases d <;> exact ⟨rfl, rfl⟩
  show d.rules.tokens ("UPDATE ".toList ++ (tableName d schema table ++ (" SET ".toList ++
    (joinWith ", ".toList (sets.map (Part.text d)) ++ (" WHERE ".toList ++
      joinWith " AND ".toList (wheres.map (Part.text d))))))) = _
  rw [tokens_fixed hverb, tokens_table schema table (breaks_front rfl _), tokens_fixed hset,
    tokens_parts bare tokens_comma hsets (breaks_front rfl _), tokens_wheres bare hwheres]
  rfl

theorem tokens_delete {wheres : List Part} (hwheres : wheres ≠ []) :
    d.rules.tokens (Statement.sql ⟨d, schema, table, .delete wheres, args⟩) =
      .word "DELETE".toList :: .word "FROM".toList :: (RowRules.pathTokens (quoteMark d) schema table ++
        (rowRules bare d).whereTokens (quoteMark d) (wheres.map Part.binding)) := by
  have hverb : d.rules.reader.Run (.start, .idle) "DELETE FROM ".toList
      [.word "DELETE".toList, .word "FROM".toList] (.start, .idle) := by
    cases d <;> exact ⟨rfl, rfl⟩
  show d.rules.tokens ("DELETE FROM ".toList ++ (tableName d schema table ++ (" WHERE ".toList ++
    joinWith " AND ".toList (wheres.map (Part.text d))))) = _
  rw [tokens_fixed hverb, tokens_table schema table (breaks_front rfl _), tokens_wheres bare hwheres]
  rfl

theorem tokens_insert {columns : List Part} (hcolumns : columns ≠ []) :
    d.rules.tokens (Statement.sql ⟨d, schema, table, .insert columns, args⟩) =
      .word "INSERT".toList :: .word "INTO".toList :: (RowRules.pathTokens (quoteMark d) schema table ++
        (rowRules bare d).valuesTokens (quoteMark d) (columns.map Part.binding)) := by
  have hverb : d.rules.reader.Run (.start, .idle) "INSERT INTO ".toList
      [.word "INSERT".toList, .word "INTO".toList] (.start, .idle) := by
    cases d <;> exact ⟨rfl, rfl⟩
  have hopen : d.rules.reader.Run (.start, .idle) " (".toList [.symbol '('] (.start, .idle) := by
    cases d <;> exact ⟨rfl, rfl⟩
  have hvalues : d.rules.reader.Run (.start, .idle) ") VALUES (".toList
      [.symbol ')', .word "VALUES".toList, .symbol '('] (.start, .idle) := by
    cases d <;> exact ⟨rfl, rfl⟩
  have hclose : d.rules.tokens [')'] = [.symbol ')'] := by
    cases d <;> rfl
  have hnames (tail : Text) (h : Breaks tail) :=
    tokens_joined (d := d) (fun p => quoteIdentifier d p.column)
      (fun p => RowRules.columnTokens (quoteMark d) p.column) tokens_comma (fun p tail => tokens_name p.column)
      hcolumns h
  have hplaceholders (tail : Text) (h : Breaks tail) :=
    tokens_joined (d := d) (fun p => placeholder d p.position)
      (fun p => (rowRules bare d).placeholderTokens p.position) tokens_comma
      (fun p tail => tokens_placeholder bare p.position) hcolumns h
  have hend : Breaks [')'] := by
    intro c hc
    rw [← Option.some.inj hc]
    rfl
  show d.rules.tokens ("INSERT INTO ".toList ++ (tableName d schema table ++ (" (".toList ++
    (joinWith ", ".toList (columns.map fun p => quoteIdentifier d p.column) ++
      (") VALUES (".toList ++
        (joinWith ", ".toList (columns.map fun p => placeholder d p.position) ++ [')'])))))) = _
  rw [tokens_fixed hverb, tokens_table schema table (breaks_front rfl _), tokens_fixed hopen,
    hnames _ (breaks_front rfl _), tokens_fixed hvalues, hplaceholders _ hend, hclose,
    RowRules.valuesTokens, List.map_map, List.map_map]
  rfl

end

/-! ## No harm -/

theorem not_harmful_separated {t : Lib.SqlToken} (ht : t.harmful = false) {pieces : List (List Lib.SqlToken)}
    (h : ∀ x ∈ pieces, x.any Lib.SqlToken.harmful = false) :
    (separated t pieces).any Lib.SqlToken.harmful = false := by
  induction pieces with
  | nil => rfl
  | cons x rest ih =>
    rw [List.forall_mem_cons] at h
    cases rest with
    | nil => exact h.1
    | cons y more => rw [separated, List.any_append, List.any_cons, h.1, ht, ih h.2, Bool.or_self, Bool.or_self]

theorem not_harmful_equalities {t : Lib.SqlToken} (ht : t.harmful = false) (R : RowRules) (mark : Char)
    (bindings : List Binding) :
    (separated t (bindings.map (R.equalityTokens mark))).any Lib.SqlToken.harmful = false := by
  refine not_harmful_separated ht fun x hx => ?_
  obtain ⟨b, -, rfl⟩ := List.mem_map.1 hx
  rw [RowRules.equalityTokens, RowRules.placeholderTokens]
  split_ifs
  · rfl
  · rfl

theorem not_harmful_wheres (R : RowRules) (mark : Char) (bindings : List Binding) :
    (R.whereTokens mark bindings).any Lib.SqlToken.harmful = false := by
  have hword : Lib.SqlToken.harmful (.word "WHERE".toList) = false := rfl
  rw [RowRules.whereTokens, List.any_cons, hword, not_harmful_equalities rfl, Bool.or_self]

theorem not_harmful_path (mark : Char) (schema table : Text) :
    (RowRules.pathTokens mark schema table).any Lib.SqlToken.harmful = false := by
  rw [RowRules.pathTokens]
  split_ifs
  · rfl
  · rfl

theorem not_harmful_values (R : RowRules) (mark : Char) (bindings : List Binding) :
    (R.valuesTokens mark bindings).any Lib.SqlToken.harmful = false := by
  have hcolumns : (separated (.symbol ',') (bindings.map fun b => RowRules.columnTokens mark b.column)).any
      Lib.SqlToken.harmful = false := by
    refine not_harmful_separated rfl fun x hx => ?_
    obtain ⟨b, -, rfl⟩ := List.mem_map.1 hx
    rfl
  have hplaceholders : (separated (.symbol ',') (bindings.map fun b => R.placeholderTokens b.argument)).any
      Lib.SqlToken.harmful = false := by
    refine not_harmful_separated rfl fun x hx => ?_
    obtain ⟨b, -, rfl⟩ := List.mem_map.1 hx
    rw [RowRules.placeholderTokens]
    split_ifs
    · rfl
    · rfl
  simp [RowRules.valuesTokens, hcolumns, hplaceholders, Lib.SqlToken.harmful]

/-! ## The parts and their arguments -/

theorem predicateParts_numbered {driver : Option Dialect} {values : Lib.Table Text V} (names : List Text)
    (hnames : ∀ name ∈ names, ∃ value, values.lookup name = some value) :
    ∀ {n parts args}, predicateParts driver values n names = .ok (parts, args) →
      RowRules.Numbered n (parts.map Part.binding) ∧ args.length = parts.length := by
  induction names with
  | nil =>
    intro n parts args h
    cases h
    exact ⟨trivial, rfl⟩
  | cons name rest ih =>
    intro n parts args h
    obtain ⟨value, hvalue⟩ := hnames name List.mem_cons_self
    rw [predicateParts, bind_eq_ok] at h
    obtain ⟨d, -, h⟩ := h
    rw [hvalue] at h
    simp only [bind_eq_ok] at h
    obtain ⟨⟨more, moreArgs⟩, hmore, h⟩ := h
    cases h
    obtain ⟨hnumbered, hlength⟩ := ih (fun m hm => hnames m (List.mem_cons_of_mem name hm)) hmore
    exact ⟨⟨rfl, hnumbered⟩, by rw [List.length_cons, List.length_cons, hlength]⟩

theorem predicates_numbered {driver : Option Dialect} {values : Lib.Table Text V} {before args : List V}
    {parts : List Part} (h : predicates driver values before = .ok (parts, args)) :
    RowRules.Numbered before.length (parts.map Part.binding) ∧
      ∃ more, args = before ++ more ∧ more.length = parts.length := by
  rw [predicates, bind_eq_ok] at h
  obtain ⟨⟨parts', more⟩, hparts, h⟩ := h
  cases h
  obtain ⟨hnumbered, hlength⟩ := predicateParts_numbered (sortedKeys values) (fun name hname => mem_sortedKeys.1 hname)
    hparts
  exact ⟨hnumbered, more, rfl, hlength⟩

theorem arguments_numbered {bindings : List Binding} {n : Nat} (h : RowRules.Numbered n bindings) :
    bindings.map Binding.argument = List.range' (n + 1) bindings.length := by
  induction bindings generalizing n with
  | nil => rfl
  | cons b rest ih => rw [List.map_cons, List.length_cons, List.range'_succ, h.1, ih h.2]

/-- Each column of the map is bound once, to an argument that is its value. -/
structure Bound (bindings : List Binding) (args : List V) (values : Lib.Table Text V) : Prop where
  columns : (bindings.map Binding.column).Perm values.keys
  arguments : ∀ b ∈ bindings, args[b.argument - 1]? = values.lookup b.column

theorem bound_of_predicates {driver : Option Dialect} {values : Lib.Table Text V} {before args : List V}
    {parts : List Part} (h : predicates driver values before = .ok (parts, args)) (more : List V) :
    Bound (parts.map Part.binding) (args ++ more) values := by
  obtain ⟨hcolumns, hargs⟩ := predicates_ok h
  constructor
  · rw [List.map_map]
    have hsame : parts.map (Binding.column ∘ Part.binding) = sortedKeys values := hcolumns
    rw [hsame, sortedKeys]
    exact List.mergeSort_perm _ _
  · intro b hb
    obtain ⟨p, hp, rfl⟩ := List.mem_map.1 hb
    have hmem : p.column ∈ sortedKeys values := hcolumns ▸ List.mem_map_of_mem hp
    obtain ⟨value, hvalue⟩ := mem_sortedKeys.1 hmem
    have harg : args[p.position - 1]? = some value := (hargs p hp).trans hvalue
    have hlt : p.position - 1 < args.length := (List.getElem?_eq_some_iff.1 harg).1
    show (args ++ more)[p.position - 1]? = values.lookup p.column
    rw [List.getElem?_append_left hlt, hargs p hp]

/-! ## The statements -/

/-- A name that `QuoteIdentifier` accepts. -/
def IsName (name : Text) : Prop := name ≠ [] ∧ '\x00' ∉ name

structure Mutation.Named (mutation : Mutation V) : Prop where
  schema : IsName mutation.schema
  table : IsName mutation.table
  values : ∀ name ∈ mutation.values.keys, IsName name
  key : ∀ name ∈ mutation.key.keys, IsName name

/-- The text is one statement, and the database reads it so. -/
structure Says (bare : Dialect → Bool → Text → Bool) (d : Dialect) (s : Statement V) (said : RowStatement) :
    Prop where
  one : IsOneStatement d s.sql
  read : (rowRules bare d).readRow (d.rules.tokens s.sql) = some said

theorem quotable_of_isName {name : Text} (h : IsName name) : quotable (some d) name = .ok d := by
  rw [quotable, if_neg (not_or.2 h)]

theorem qualifiedName_of_isName {schema table : Text} (hschema : IsName schema) (htable : IsName table) :
    qualifiedName (some d) schema table = .ok d := by
  rw [qualifiedName, quotable_of_isName htable]
  show (if schema = [] then _ else _) = _
  rw [if_neg hschema.1, quotable_of_isName hschema]

theorem predicateParts_isOk {values : Lib.Table Text V} (names : List Text) (h : ∀ name ∈ names, IsName name) (n : Nat) :
    ∃ out, predicateParts (some d) values n names = .ok out := by
  induction names generalizing n with
  | nil => exact ⟨_, rfl⟩
  | cons name rest ih =>
    rw [List.forall_mem_cons] at h
    rw [predicateParts, quotable_of_isName h.1]
    cases hvalue : values.lookup name with
    | none => exact ih h.2 n
    | some value =>
      obtain ⟨out, hout⟩ := ih h.2 (n + 1)
      exact ⟨(⟨name, n + 1⟩ :: out.1, value :: out.2), by
        show (predicateParts (some d) values (n + 1) rest >>= fun more => _) = _
        rw [hout]
        rfl⟩

theorem predicates_isOk {values : Lib.Table Text V} (h : ∀ name ∈ values.keys, IsName name) (before : List V) :
    ∃ out, predicates (some d) values before = .ok out := by
  have hnames : ∀ name ∈ sortedKeys values, IsName name := by
    intro name hname
    exact h name (List.mem_mergeSort.1 hname)
  obtain ⟨out, hout⟩ := predicateParts_isOk (sortedKeys values) hnames before.length
  refine ⟨(out.1, before ++ out.2), ?_⟩
  rw [predicates, hout]
  rfl

theorem parts_ne_nil {driver : Option Dialect} {values : Lib.Table Text V} {before args : List V} {parts : List Part}
    (h : predicates driver values before = .ok (parts, args)) (hne : values.keys ≠ []) : parts ≠ [] := by
  rintro rfl
  have hcolumns := (predicates_ok h).1
  have hperm : (sortedKeys values).Perm values.keys := List.mergeSort_perm _ _
  rw [← hcolumns] at hperm
  exact hne hperm.nil_eq.symm

theorem columns_ne_nil {driver : Option Dialect} {values : Lib.Table Text V} {before args : List V} {parts : List Part}
    (h : predicates driver values before = .ok (parts, args)) (hnames : ∀ name ∈ values.keys, IsName name) :
    ∀ b ∈ parts.map Part.binding, b.column ≠ [] := by
  intro b hb
  have hmem := (bound_of_predicates h []).columns.mem_iff.1 (List.mem_map_of_mem hb)
  exact (hnames _ hmem).1

/-- The parts of a statement that has one map. -/
theorem only_predicates {driver : Option Dialect} {values : Lib.Table Text V} {args : List V} {parts : List Part}
    (h : predicates driver values [] = .ok (parts, args)) :
    RowRules.Numbered 0 (parts.map Part.binding) ∧ Bound (parts.map Part.binding) args values ∧
      (parts.map Part.binding).map Binding.argument = List.range' 1 args.length := by
  obtain ⟨hnumbered, _, rfl, hlength⟩ := predicates_numbered h
  have hbound := bound_of_predicates h []
  rw [List.append_nil] at hbound
  refine ⟨hnumbered, hbound, ?_⟩
  rw [arguments_numbered hnumbered, List.length_map, hlength]
  rfl

theorem mem_changedValues {mutation : Mutation V} {name : Text} (h : name ∈ (changedValues mutation).keys) :
    name ∈ mutation.values.keys ∧ name ∉ mutation.key.keys := by
  rw [← AList.mem_keys, ← AList.lookup_isSome, changedValues, Lib.Table.lookup_alter] at h
  split_ifs at h with hkey
  · cases hvalue : mutation.values.lookup name with
    | none => rw [hvalue] at h; cases h
    | some value => rw [hvalue] at h; cases h
  · refine ⟨AList.mem_keys.1 (AList.lookup_isSome.1 h), fun hmem => hkey ?_⟩
    exact AList.lookup_isSome.2 (AList.mem_keys.2 hmem)

theorem nameMark_quoteMark (bare : Dialect → Bool → Text → Bool) (d : Dialect) :
    (rowRules bare d).names.lex.isNameMark (quoteMark d) = true := by
  cases d <;> rfl

section

variable {mutation : Mutation V} (h : mutation.Named) {s : Statement V}

include h

theorem pathOf_named :
    RowRules.pathOf mutation.schema mutation.table = [mutation.schema, mutation.table] :=
  if_neg h.schema.1

theorem buildInsert_says (hs : buildInsert (some d) mutation = .ok s) :
    ∃ columns, Says bare d s ⟨[mutation.schema, mutation.table], .insert columns⟩ ∧
      Bound columns s.args mutation.values ∧
      columns.map Binding.argument = List.range' 1 s.args.length := by
  unfold buildInsert at hs
  split_ifs at hs with hvalues
  obtain ⟨d', hd, hs⟩ := bind_eq_ok.1 hs
  obtain ⟨⟨columns, args⟩, hcolumns, hs⟩ := bind_eq_ok.1 hs
  cases hs
  obtain rfl : d = d' := Option.some.inj (qualifiedName_ok hd)
  have hne := parts_ne_nil hcolumns hvalues
  obtain ⟨hnumbered, hbound, harguments⟩ := only_predicates hcolumns
  have htokens := tokens_insert bare mutation.schema mutation.table args (d := d) hne
  refine ⟨columns.map Part.binding, ⟨⟨?_, ?_⟩, ?_⟩, ?_, ?_⟩
  · rw [htokens]
    exact List.cons_ne_nil _ _
  · rw [htokens, List.any_cons, List.any_cons, List.any_append, not_harmful_path, not_harmful_values]
    rfl
  · rw [htokens, RowRules.readRow_insert (nameMark_quoteMark bare d) h.table.1
      (fun hnil => hne (List.map_eq_nil_iff.1 hnil)) (columns_ne_nil hcolumns h.values) hnumbered, pathOf_named h]
  · exact hbound
  · exact harguments

theorem buildDelete_says (hs : buildDelete (some d) mutation = .ok s) :
    ∃ wheres, Says bare d s ⟨[mutation.schema, mutation.table], .delete wheres⟩ ∧
      Bound wheres s.args mutation.key ∧
      wheres.map Binding.argument = List.range' 1 s.args.length := by
  unfold buildDelete at hs
  split_ifs at hs with hkey
  obtain ⟨d', hd, hs⟩ := bind_eq_ok.1 hs
  obtain ⟨⟨wheres, args⟩, hwheres, hs⟩ := bind_eq_ok.1 hs
  cases hs
  obtain rfl : d = d' := Option.some.inj (qualifiedName_ok hd)
  have hne := parts_ne_nil hwheres hkey
  obtain ⟨hnumbered, hbound, harguments⟩ := only_predicates hwheres
  have htokens := tokens_delete bare mutation.schema mutation.table args (d := d) hne
  refine ⟨wheres.map Part.binding, ⟨⟨?_, ?_⟩, ?_⟩, ?_, ?_⟩
  · rw [htokens]
    exact List.cons_ne_nil _ _
  · rw [htokens, List.any_cons, List.any_cons, List.any_append, not_harmful_path, not_harmful_wheres]
    rfl
  · rw [htokens, RowRules.readRow_delete (nameMark_quoteMark bare d) h.table.1
      (fun hnil => hne (List.map_eq_nil_iff.1 hnil)) (columns_ne_nil hwheres h.key) hnumbered, pathOf_named h]
  · exact hbound
  · exact harguments

theorem buildUpdate_says (hs : buildUpdate (some d) mutation = .ok s) :
    ∃ sets wheres, Says bare d s ⟨[mutation.schema, mutation.table], .update sets wheres⟩ ∧
      Bound sets s.args (changedValues mutation) ∧ Bound wheres s.args mutation.key ∧
      (sets ++ wheres).map Binding.argument = List.range' 1 s.args.length ∧
      ∀ b ∈ sets, b.column ∉ mutation.key.keys := by
  unfold buildUpdate at hs
  dsimp only at hs
  split_ifs at hs with hkey hvalues
  obtain ⟨d', hd, hs⟩ := bind_eq_ok.1 hs
  obtain ⟨⟨sets, setArgs⟩, hsets, hs⟩ := bind_eq_ok.1 hs
  obtain ⟨⟨wheres, args⟩, hwheres, hs⟩ := bind_eq_ok.1 hs
  cases hs
  obtain rfl : d = d' := Option.some.inj (qualifiedName_ok hd)
  have hsetsNe := parts_ne_nil hsets hvalues
  have hwheresNe := parts_ne_nil hwheres hkey
  obtain ⟨hfirst, _, rfl, hfirstLength⟩ := predicates_numbered hsets
  obtain ⟨hsecond, second, rfl, hsecondLength⟩ := predicates_numbered hwheres
  have hnames : ∀ name ∈ (changedValues mutation).keys, IsName name := fun name hname =>
    h.values name (mem_changedValues hname).1
  have hcolumns : ∀ b ∈ sets.map Part.binding ++ wheres.map Part.binding, b.column ≠ [] := by
    intro b hb
    rcases List.mem_append.1 hb with hb | hb
    · exact columns_ne_nil hsets hnames b hb
    · exact columns_ne_nil hwheres h.key b hb
  have htokens := tokens_update bare mutation.schema mutation.table (setArgs ++ second) (d := d) hsetsNe hwheresNe
  have hnumbered : RowRules.Numbered (sets.map Part.binding).length (wheres.map Part.binding) := by
    rw [List.length_map, ← hfirstLength]
    exact hsecond
  refine ⟨sets.map Part.binding, wheres.map Part.binding, ⟨⟨?_, ?_⟩, ?_⟩, ?_, ?_, ?_, ?_⟩
  · rw [htokens]
    exact List.cons_ne_nil _ _
  · rw [htokens, List.any_cons, List.any_append, List.any_cons, List.any_append, not_harmful_path,
      not_harmful_equalities rfl, not_harmful_wheres]
    rfl
  · rw [htokens, RowRules.readRow_update (nameMark_quoteMark bare d) h.table.1
      (fun hnil => hsetsNe (List.map_eq_nil_iff.1 hnil)) (fun hnil => hwheresNe (List.map_eq_nil_iff.1 hnil))
      hcolumns hfirst hnumbered, pathOf_named h]
  · exact bound_of_predicates hsets second
  · have hbound := bound_of_predicates hwheres []
    rw [List.append_nil] at hbound
    exact hbound
  · rw [List.map_append, arguments_numbered hfirst, arguments_numbered hnumbered, List.length_map, List.length_map,
      List.length_nil, List.length_append, hfirstLength, hsecondLength, Nat.add_comm sets.length 1,
      List.range'_append_1]
  · intro b hb
    have hmem := (bound_of_predicates hsets []).columns.mem_iff.1 (List.mem_map_of_mem hb)
    exact (mem_changedValues hmem).2

omit h in
/-- With names that are accepted the builders refuse only what has no values or no key. -/
theorem builders_isOk (h : mutation.Named) :
    ((∃ s, buildInsert (some d) mutation = .ok s) ↔ mutation.values.keys ≠ []) ∧
      ((∃ s, buildUpdate (some d) mutation = .ok s) ↔
        mutation.key.keys ≠ [] ∧ (changedValues mutation).keys ≠ []) ∧
      ((∃ s, buildDelete (some d) mutation = .ok s) ↔ mutation.key.keys ≠ []) := by
  have hname := qualifiedName_of_isName (d := d) h.schema h.table
  refine ⟨⟨?_, fun hvalues => ?_⟩, ⟨?_, ?_⟩, ⟨?_, fun hkey => ?_⟩⟩
  · rintro ⟨s, hs⟩ hvalues
    rw [buildInsert, if_pos hvalues] at hs
    cases hs
  · obtain ⟨⟨parts, args⟩, hparts⟩ := predicates_isOk (d := d) h.values []
    rw [buildInsert, if_neg hvalues, hname]
    exact ⟨_, by
      show (predicates (some d) mutation.values [] >>= fun out => _) = _
      rw [hparts]
      rfl⟩
  · rintro ⟨s, hs⟩
    rw [buildUpdate] at hs
    refine ⟨fun hkey => ?_, fun hvalues => ?_⟩
    · rw [if_pos hkey] at hs
      cases hs
    · rw [if_pos hvalues] at hs
      split_ifs at hs
  · rintro ⟨hkey, hvalues⟩
    have hnames : ∀ name ∈ (changedValues mutation).keys, IsName name := fun name hmem =>
      h.values name (mem_changedValues hmem).1
    obtain ⟨⟨sets, setArgs⟩, hsets⟩ := predicates_isOk (d := d) hnames []
    obtain ⟨⟨wheres, args⟩, hwheres⟩ := predicates_isOk (d := d) h.key setArgs
    rw [buildUpdate, if_neg hkey, if_neg hvalues, hname]
    exact ⟨_, by
      show (predicates (some d) (changedValues mutation) [] >>= fun out => _) = _
      rw [hsets]
      show (predicates (some d) mutation.key setArgs >>= fun out => _) = _
      rw [hwheres]
      rfl⟩
  · rintro ⟨s, hs⟩ hkey
    rw [buildDelete, if_pos hkey] at hs
    cases hs
  · obtain ⟨⟨parts, args⟩, hparts⟩ := predicates_isOk (d := d) h.key []
    rw [buildDelete, if_neg hkey, hname]
    exact ⟨_, by
      show (predicates (some d) mutation.key [] >>= fun out => _) = _
      rw [hparts]
      rfl⟩

end

/-- **The statements mean the mutation**: one statement on its table, with each column under its own name
and each argument at its own column, and a `WHERE` with the whole key behind every change. -/
theorem row_statements_say (bare : Dialect → Bool → Text → Bool) (d : Dialect) (mutation : Mutation V)
    (h : mutation.Named) :
    (((∃ s, buildInsert (some d) mutation = .ok s) ↔ mutation.values.keys ≠ []) ∧
      ((∃ s, buildUpdate (some d) mutation = .ok s) ↔
        mutation.key.keys ≠ [] ∧ (changedValues mutation).keys ≠ []) ∧
      ((∃ s, buildDelete (some d) mutation = .ok s) ↔ mutation.key.keys ≠ [])) ∧
    (∀ s, buildInsert (some d) mutation = .ok s →
      ∃ columns, Says bare d s ⟨[mutation.schema, mutation.table], .insert columns⟩ ∧
        Bound columns s.args mutation.values ∧
        columns.map Binding.argument = List.range' 1 s.args.length) ∧
    (∀ s, buildUpdate (some d) mutation = .ok s →
      ∃ sets wheres, Says bare d s ⟨[mutation.schema, mutation.table], .update sets wheres⟩ ∧
        Bound sets s.args (changedValues mutation) ∧ Bound wheres s.args mutation.key ∧
        (sets ++ wheres).map Binding.argument = List.range' 1 s.args.length ∧
        ∀ b ∈ sets, b.column ∉ mutation.key.keys) ∧
    (∀ s, buildDelete (some d) mutation = .ok s →
      ∃ wheres, Says bare d s ⟨[mutation.schema, mutation.table], .delete wheres⟩ ∧
        Bound wheres s.args mutation.key ∧
        wheres.map Binding.argument = List.range' 1 s.args.length) :=
  ⟨builders_isOk h, fun _ hs => buildInsert_says bare h hs, fun _ hs => buildUpdate_says bare h hs,
    fun _ hs => buildDelete_says bare h hs⟩

/-- A mutation of one row. -/
def renameRow : Mutation Nat :=
  ⟨"app".toList, "user\"s".toList, AList.insert "na`me".toList 7 ∅, AList.insert "id".toList 1 ∅⟩

theorem renameRow_named : renameRow.Named := by
  have hmem {name column : Text} {v : Nat} (h : name ∈ (AList.insert column v (∅ : Lib.Table Text Nat)).keys) :
      name = column := by simpa using h
  refine ⟨⟨by decide, by decide⟩, ⟨by decide, by decide⟩, fun name hname => ?_, fun name hname => ?_⟩
  · rw [hmem hname]
    exact ⟨by decide, by decide⟩
  · rw [hmem hname]
    exact ⟨by decide, by decide⟩

theorem row_statements_say_renameRow :
    (∃ s, buildUpdate (some .postgres) renameRow = .ok s) ∧
      ∀ s, buildUpdate (some .postgres) renameRow = .ok s →
        ∃ sets wheres, Says (fun _ _ _ => false) .postgres s ⟨["app".toList, "user\"s".toList], .update sets wheres⟩ ∧
          Bound sets s.args (changedValues renameRow) ∧ Bound wheres s.args renameRow.key ∧
          (sets ++ wheres).map Binding.argument = List.range' 1 s.args.length ∧
          ∀ b ∈ sets, b.column ∉ renameRow.key.keys := by
  obtain ⟨⟨-, hupdate, -⟩, -, hsays, -⟩ :=
    row_statements_say (fun _ _ _ => false) .postgres renameRow renameRow_named
  exact ⟨hupdate.2 ⟨by decide, by decide⟩, hsays⟩

end Workbench.Table
