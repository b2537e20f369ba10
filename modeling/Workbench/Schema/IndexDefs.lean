import Workbench.Lib.Infixes
import Workbench.Schema.Model

/-!
# The indexes of a table as they are loaded

`loadPostgresObjects` of `api/internal/db/catalog.go` over the texts of `pg_get_indexdef`. The loader takes what is
between the first opening and the last closing parenthesis for the list of the key columns, and it finds by the text
`_pkey` whether an index backs the primary key, so it depends on what else the text has (`loadPostgresIndexes_iff`).
-/

set_option autoImplicit false

namespace Workbench.Schema

open Workbench.Lib
open scoped Workbench.Characters

/-! ## The loader -/

/-- A row of `pg_indexes`. -/
structure IndexRow where
  name : Text
  definition : Text
  deriving DecidableEq

/-- `strings.LastIndex` with one character. -/
def lastIndexOf (c : Char) (s : Text) : Option Nat := (s.reverse.idxOf? c).map fun i => s.length - 1 - i

/-- `strings.Trim` with the double quote. -/
def trimQuotes (s : Text) : Text := (s.rdropWhile fun c => c = '"').dropWhile fun c => c = '"'

def indexColumns (definition : Text) : List Text :=
  match definition.idxOf? '(', lastIndexOf ')' definition with
  | some start, some stop =>
    if start < stop then
      (((definition.take stop).drop (start + 1)).splitOn ',').map fun c => trimQuotes (trimSpace c)
    else []
  | _, _ => []

def loadIndex (row : IndexRow) : Option Index :=
  if "_pkey".toList <:+: row.definition then none
  else some ⟨row.name, indexColumns row.definition, " UNIQUE INDEX ".toList <:+: row.definition⟩

/-- The indexes that `loadPostgresObjects` appends. -/
def loadPostgresIndexes (rows : List IndexRow) : List Index := rows.filterMap loadIndex

/-! ## What the server prints -/

/-- How the server prints a name; it also quotes its keywords. -/
def quoteIdentifier (keyword : Text → Bool) (name : Text) : Text :=
  let safe := name.head?.any (fun c => isLower c || c = '_') && name.all fun c => isLower c || isDigit c || c = '_'
  if safe && !keyword name then name
  else '"' :: (name.flatMap fun c => if c = '"' then ['"', '"'] else [c]) ++ ['"']

inductive SortOrder where
  | plain
  | nullsFirst
  | desc
  | descNullsLast
  deriving DecidableEq

def SortOrder.text : SortOrder → Text
  | plain => []
  | nullsFirst => " NULLS FIRST".toList
  | desc => " DESC".toList
  | descNullsLast => " DESC NULLS LAST".toList

/-- A key column with what is printed behind it: a collation and an operator class, and the order. -/
structure IndexKey where
  column : Text
  qualifier : Text
  order : SortOrder
  qualifier_blank : ∀ c ∈ qualifier.head?, c = ' '
  qualifier_end : ∀ c ∈ qualifier.getLast?, isGoSpace c = false
  deriving DecidableEq

/-- An index on columns. -/
structure IndexEntry where
  name : Text
  schema : Text
  table : Text
  method : Text
  only : Bool
  unique : Bool
  primary : Bool
  keys : List IndexKey
  included : List Text
  nullsNotDistinct : Bool
  options : Option Text
  predicate : Option Text
  keys_nonempty : keys ≠ []
  deriving DecidableEq

section

variable (keyword : Text → Bool)

def IndexKey.decoration (key : IndexKey) : Text := key.qualifier ++ key.order.text

def IndexKey.text (key : IndexKey) : Text := quoteIdentifier keyword key.column ++ key.decoration

namespace IndexEntry

variable (index : IndexEntry)

def createWords : Text := if index.unique then "CREATE UNIQUE INDEX ".toList else "CREATE INDEX ".toList

def onWords : Text := if index.only then " ON ONLY ".toList else " ON ".toList

/-- Up to the list of the keys. -/
def head : Text :=
  index.createWords ++ (quoteIdentifier keyword index.name ++ (index.onWords ++
    (quoteIdentifier keyword index.schema ++ (".".toList ++ (quoteIdentifier keyword index.table ++
      (" USING ".toList ++ (quoteIdentifier keyword index.method ++ " ".toList)))))))

def keysText : Text := ", ".toList.intercalate (index.keys.map (IndexKey.text keyword))

def includedText : Text :=
  if index.included = [] then []
  else " INCLUDE (".toList ++ (", ".toList.intercalate (index.included.map (quoteIdentifier keyword)) ++ [')'])

def optionsText : Text := index.options.elim [] fun options => " WITH (".toList ++ (options ++ [')'])

def predicateText : Text := index.predicate.elim [] fun predicate => " WHERE".toList ++ ' ' :: predicate

/-- Behind the list of the keys. -/
def tail : Text :=
  index.includedText keyword ++ ((if index.nullsNotDistinct then " NULLS NOT DISTINCT".toList else []) ++
    (index.optionsText ++ index.predicateText))

/-- `pg_get_indexdef`. -/
def definition : Text := index.head keyword ++ '(' :: (index.keysText keyword ++ ')' :: index.tail keyword)

def row : IndexRow := ⟨index.name, index.definition keyword⟩

/-- What the table view is to show of the index. -/
def shown : Option Index :=
  if index.primary then none else some ⟨index.name, index.keys.map IndexKey.column, index.unique⟩

/-- The names and the texts that the definition is made of. -/
def parts : List Text :=
  [index.name, index.schema, index.table, index.method] ++ index.keys.map IndexKey.column ++
    index.keys.map IndexKey.qualifier ++ index.included ++ index.options.toList ++
    index.predicate.toList.map (List.cons ' ')

end IndexEntry

end

/-! ## The parentheses -/

theorem idxOf_first {front back : Text} {c : Char} (h : c ∉ front) :
    (front ++ c :: back).idxOf? c = some front.length := by
  induction front with
  | nil => simp [List.idxOf?_cons]
  | cons d rest ih =>
    rw [List.mem_cons, not_or] at h
    rw [List.cons_append, List.idxOf?_cons, if_neg (by simpa using Ne.symm h.1), ih h.2]
    rfl

theorem lastIndexOf_last {front back : Text} {c : Char} (h : c ∉ back) :
    lastIndexOf c (front ++ c :: back) = some front.length := by
  have hreverse : (front ++ c :: back).reverse = back.reverse ++ c :: front.reverse := by simp
  rw [lastIndexOf, hreverse, idxOf_first fun hmem => h (List.mem_reverse.1 hmem)]
  simp only [Option.map_some, List.length_append, List.length_cons, List.length_reverse, Option.some.injEq]
  omega

/-- The columns come from between the first opening and the last closing parenthesis. -/
theorem indexColumns_between {front middle back : Text} (hfront : '(' ∉ front) (hback : ')' ∉ back) :
    indexColumns (front ++ '(' :: (middle ++ ')' :: back)) =
      (middle.splitOn ',').map fun c => trimQuotes (trimSpace c) := by
  have hlast : front ++ '(' :: (middle ++ ')' :: back) = (front ++ '(' :: middle) ++ ')' :: back := by simp
  have hstop : (front ++ '(' :: middle).length = front.length + 1 + middle.length := by
    simp only [List.length_append, List.length_cons]
    omega
  have hdrop : (front ++ '(' :: middle).drop (front.length + 1) = middle := by
    rw [← List.singleton_append, ← List.append_assoc]
    exact List.drop_left' (by simp)
  rw [indexColumns, idxOf_first hfront, hlast, lastIndexOf_last hback]
  dsimp only
  rw [if_pos (by omega), List.take_left, hdrop]

/-- Both parentheses, with what is between them and the keys. -/
theorem exists_between (head keys tail : Text) : ∃ before front back behind,
    head ++ '(' :: (keys ++ ')' :: tail) = before ++ '(' :: ((front ++ (keys ++ back)) ++ ')' :: behind) ∧
      '(' ∉ before ∧ ')' ∉ behind ∧ (if '(' ∈ head then '(' ∈ front else front = []) ∧
      (if ')' ∈ tail then ')' ∈ back else back = []) := by
  have hhead : ∃ before front, head ++ ['('] = before ++ '(' :: front ∧ '(' ∉ before ∧
      (if '(' ∈ head then '(' ∈ front else front = []) := by
    by_cases hopen : '(' ∈ head
    · obtain ⟨before, front, rfl, hnot⟩ := exists_first hopen
      refine ⟨before, front ++ ['('], by simp, hnot, ?_⟩
      rw [if_pos hopen]
      simp
    · refine ⟨head, [], rfl, hopen, ?_⟩
      rw [if_neg hopen]
  have htail : ∃ back behind, ')' :: tail = back ++ ')' :: behind ∧ ')' ∉ behind ∧
      (if ')' ∈ tail then ')' ∈ back else back = []) := by
    by_cases hclose : ')' ∈ tail
    · obtain ⟨back, behind, rfl, hnot⟩ := exists_last hclose
      refine ⟨')' :: back, behind, rfl, hnot, ?_⟩
      rw [if_pos hclose]
      exact List.mem_cons_self
    · refine ⟨[], tail, rfl, hclose, ?_⟩
      rw [if_neg hclose]
  obtain ⟨before, front, hfront, hbefore, hopen⟩ := hhead
  obtain ⟨back, behind, hback, hbehind, hclose⟩ := htail
  refine ⟨before, front, back, behind, ?_, hbefore, hbehind, hopen, hclose⟩
  calc head ++ '(' :: (keys ++ ')' :: tail) = (head ++ ['(']) ++ (keys ++ ')' :: tail) := by simp
    _ = before ++ '(' :: ((front ++ (keys ++ back)) ++ ')' :: behind) := by rw [hfront, hback]; simp

/-! ## Printed names -/

def isNameChar (c : Char) : Bool := isLower c || isDigit c || c = '_'

/-- The characters of a name in quotes, a quote twice. -/
def quotesTwice (name : Text) : Text := name.flatMap fun c => if c = '"' then ['"', '"'] else [c]

theorem isGoSpace_of_isNameChar {c : Char} (h : isNameChar c = true) : isGoSpace c = false := by
  simp only [isNameChar, isLower, isDigit, Bool.or_eq_true, Bool.and_eq_true, decide_eq_true_eq, char_le_iff] at h
  rcases h with (⟨hlow, hhigh⟩ | ⟨hlow, hhigh⟩) | rfl
  · exact isGoSpace_of_printable (lt_of_lt_of_le (by decide) hlow) (lt_of_le_of_lt hhigh (by decide))
  · exact isGoSpace_of_printable (lt_of_lt_of_le (by decide) hlow) (lt_of_le_of_lt hhigh (by decide))
  · exact isGoSpace_of_printable (by decide) (by decide)

theorem quote_of_isNameChar {c : Char} (h : isNameChar c = true) : c ≠ '"' := by
  rintro rfl
  cases h

/-- A name is printed as it is, and then it has name characters only, or in quotes. -/
theorem quoteIdentifier_cases (keyword : Text → Bool) (name : Text) :
    (quoteIdentifier keyword name = name ∧ name ≠ [] ∧ ∀ c ∈ name, isNameChar c = true) ∨
      quoteIdentifier keyword name = '"' :: (quotesTwice name ++ ['"']) := by
  rw [quoteIdentifier]
  split_ifs with hsafe
  · left
    simp only [Bool.and_eq_true, List.all_eq_true] at hsafe
    refine ⟨rfl, ?_, hsafe.1.2⟩
    rintro rfl
    cases hsafe.1.1
  · right
    rfl

section

variable (keyword : Text → Bool) (name : Text)

/-- A printed name begins and ends with a quote or a name character. -/
theorem head_quoteIdentifier :
    ∃ c rest, quoteIdentifier keyword name = c :: rest ∧ (c = '"' ∨ isNameChar c = true) := by
  rcases quoteIdentifier_cases keyword name with ⟨heq, hne, hchars⟩ | heq
  · obtain ⟨c, rest, rfl⟩ := List.exists_cons_of_ne_nil hne
    exact ⟨c, rest, heq, Or.inr (hchars c List.mem_cons_self)⟩
  · exact ⟨_, _, heq, Or.inl rfl⟩

theorem getLast_quoteIdentifier :
    ∀ c ∈ (quoteIdentifier keyword name).getLast?, c = '"' ∨ isNameChar c = true := by
  intro c hc
  rcases quoteIdentifier_cases keyword name with ⟨heq, hne, hchars⟩ | heq
  · rw [heq] at hc
    exact Or.inr (hchars c (List.mem_of_getLast? hc))
  · rw [heq, ← List.cons_append, List.getLast?_concat] at hc
    cases hc
    exact Or.inl rfl

variable {keyword name}

theorem mem_quotesTwice {c : Char} : c ∈ quotesTwice name ↔ c ∈ name := by
  rw [quotesTwice, List.mem_flatMap]
  constructor
  · rintro ⟨d, hd, hc⟩
    split_ifs at hc with hquote
    · have hcq : c = '"' := by simpa using hc
      rw [hcq, ← hquote]
      exact hd
    · rw [List.mem_singleton.1 hc]
      exact hd
  · intro hc
    refine ⟨c, hc, ?_⟩
    split_ifs with hquote
    · rw [hquote]
      exact List.mem_cons_self
    · exact List.mem_singleton_self c

/-- Quoting adds quotes only. -/
theorem mem_quoteIdentifier {c : Char} (hc : c ≠ '"') : c ∈ quoteIdentifier keyword name ↔ c ∈ name := by
  rcases quoteIdentifier_cases keyword name with ⟨heq, -, -⟩ | heq
  · rw [heq]
  · rw [heq, List.mem_cons, List.mem_append, List.mem_singleton, mem_quotesTwice]
    simp [hc]

theorem countP_quotesTwice {p : Char → Bool} (hp : p '"' = false) : (quotesTwice name).countP p = name.countP p := by
  induction name with
  | nil => rfl
  | cons c rest ih =>
    rw [quotesTwice, List.flatMap_cons, List.countP_append, ← quotesTwice, ih, List.countP_cons, Nat.add_comm]
    by_cases hc : c = '"'
    · rw [if_pos hc, hc, hp]
      simp [hp]
    · rw [if_neg hc, List.countP_singleton]

theorem countP_quoteIdentifier {p : Char → Bool} (hp : p '"' = false) :
    (quoteIdentifier keyword name).countP p = name.countP p := by
  rcases quoteIdentifier_cases keyword name with ⟨heq, -, -⟩ | heq
  · rw [heq]
  · rw [heq, List.countP_cons, List.countP_append, countP_quotesTwice hp, List.countP_singleton, hp]
    simp

end

/-! ## One key -/

theorem countP_trimSpace {p : Char → Bool} (hp : ∀ c, isGoSpace c = true → p c = false) (s : Text) :
    (trimSpace s).countP p = s.countP p := by
  rw [trimSpace, countP_dropWhile p hp, countP_rdropWhile p hp]

theorem countP_trimQuotes {p : Char → Bool} (hp : p '"' = false) (s : Text) : (trimQuotes s).countP p = s.countP p := by
  have hquote : ∀ c, decide (c = '"') = true → p c = false := by
    intro c hc
    rwa [of_decide_eq_true hc]
  rw [trimQuotes, countP_dropWhile p hquote, countP_rdropWhile p hquote]

/-- A blank in front is trimmed. -/
theorem trimSpace_blank (s : Text) : trimSpace (' ' :: s) = trimSpace s := by
  have hreverse : (' ' :: s).rdropWhile isGoSpace =
      if s.rdropWhile isGoSpace = [] then [] else ' ' :: s.rdropWhile isGoSpace := by
    rw [List.rdropWhile, List.reverse_cons, List.dropWhile_append]
    by_cases hnone : s.reverse.dropWhile isGoSpace = []
    · have hback : s.rdropWhile isGoSpace = [] := by rw [List.rdropWhile, hnone, List.reverse_nil]
      rw [if_pos (List.isEmpty_iff.2 hnone), if_pos hback]
      rfl
    · have hback : s.rdropWhile isGoSpace ≠ [] := fun h => hnone (List.reverse_eq_nil_iff.1 h)
      rw [if_neg (fun h => hnone (List.isEmpty_iff.1 h)), if_neg hback]
      simp [List.rdropWhile]
  rw [trimSpace, trimSpace, hreverse]
  split_ifs with hnone
  · rw [hnone]
  · exact List.dropWhile_cons_of_pos (by decide)

/-- In quotes, a text that has none at its ends comes back. -/
theorem trimQuotes_quoted {x : Text} (hhead : ∀ c ∈ x.head?, c ≠ '"') (hlast : ∀ c ∈ x.getLast?, c ≠ '"') :
    trimQuotes ('"' :: (x ++ ['"'])) = x := by
  have hback : ('"' :: (x ++ ['"'])).rdropWhile (fun c => c = '"') = if x = [] then [] else '"' :: x := by
    rw [← List.cons_append, List.rdropWhile_concat_pos _ _ _ (by simp)]
    split_ifs with hnone
    · rw [hnone]
      rfl
    · rw [List.rdropWhile_eq_self_iff]
      intro hne hquote
      rw [List.getLast_cons hnone, decide_eq_true_eq] at hquote
      exact hlast _ (List.getLast?_eq_some_getLast hnone) hquote
  rw [trimQuotes, hback]
  split_ifs with hnone
  · rw [hnone]
    rfl
  · cases x with
    | nil => exact absurd rfl hnone
    | cons c rest =>
      rw [List.dropWhile_cons_of_pos (by simp), List.dropWhile_cons_of_neg]
      simpa using hhead c rfl

theorem trimQuotes_ends (s : Text) :
    (∀ c ∈ (trimQuotes s).head?, c ≠ '"') ∧ ∀ c ∈ (trimQuotes s).getLast?, c ≠ '"' := by
  constructor
  · intro c hc hquote
    obtain ⟨rest, hrest⟩ := List.head?_eq_some_iff.1 hc
    have hne : trimQuotes s ≠ [] := by
      rw [hrest]
      exact List.cons_ne_nil _ _
    have hnot := List.head_dropWhile_not (fun c => decide (c = '"')) hne
    have hhead : (trimQuotes s).head hne = c := by
      simp only [hrest, List.head_cons]
    rw [show (List.dropWhile (fun c => decide (c = '"')) _).head hne = c from hhead, hquote] at hnot
    simp at hnot
  · intro c hc hquote
    have hsuffix : trimQuotes s <:+ s.rdropWhile fun c => c = '"' := List.dropWhile_suffix _
    have hne : trimQuotes s ≠ [] := List.ne_nil_of_mem (List.mem_of_getLast? hc)
    have hlast : (trimQuotes s).getLast hne = c := by
      rw [List.getLast?_eq_some_getLast hne] at hc
      exact Option.some.inj hc
    rw [hsuffix.getLast hne] at hlast
    have hnot := List.rdropWhile_last_not (fun c => decide (c = '"')) s (hsuffix.ne_nil hne)
    rw [hlast, hquote] at hnot
    simp at hnot

theorem length_quotesTwice (name : Text) : (quotesTwice name).length = name.length + name.count '"' := by
  induction name with
  | nil => rfl
  | cons c rest ih =>
    rw [quotesTwice, List.flatMap_cons, List.length_append, ← quotesTwice, ih, List.length_cons, List.count_cons]
    by_cases hc : c = '"'
    · rw [if_pos hc, if_pos (beq_iff_eq.2 hc)]
      simp only [List.length_cons, List.length_nil]
      omega
    · rw [if_neg hc, if_neg (by simpa using hc)]
      simp only [List.length_singleton]
      omega

/-- The ends of a text without quotes there stay what they are. -/
theorem doubled_ends {name : Text} (hhead : ∀ c ∈ name.head?, c ≠ '"') (hlast : ∀ c ∈ name.getLast?, c ≠ '"') :
    (∀ c ∈ (quotesTwice name).head?, c ≠ '"') ∧ ∀ c ∈ (quotesTwice name).getLast?, c ≠ '"' := by
  constructor
  · cases name with
    | nil => exact hhead
    | cons d rest =>
      have hd := hhead d rfl
      intro c hc
      rw [quotesTwice, List.flatMap_cons, if_neg hd] at hc
      cases hc
      exact hd
  · rcases List.eq_nil_or_concat' name with rfl | ⟨front, d, rfl⟩
    · exact hlast
    · have hd := hlast d List.getLast?_concat
      intro c hc
      rw [quotesTwice, List.flatMap_append, List.flatMap_singleton, if_neg hd, List.getLast?_concat] at hc
      cases hc
      exact hd

theorem trimQuotes_of_not_mem {x : Text} (h : '"' ∉ x) : trimQuotes x = x := by
  have hback : x.rdropWhile (fun c => c = '"') = x := by
    rw [List.rdropWhile_eq_self_iff]
    intro hne hquote
    have hlast := List.getLast_mem hne
    rw [of_decide_eq_true hquote] at hlast
    exact h hlast
  rw [trimQuotes, hback, List.dropWhile_eq_self_iff]
  intro hlength hquote
  have hfirst := List.getElem_mem hlength
  rw [of_decide_eq_true hquote] at hfirst
  exact h hfirst

theorem quotesTwice_of_not_mem {x : Text} (h : '"' ∉ x) : quotesTwice x = x := by
  have heach : ∀ c ∈ x, (if c = '"' then ['"', '"'] else [c]) = [c] := by
    intro c hc
    apply if_neg
    rintro rfl
    exact h hc
  rw [quotesTwice, List.flatMap_congr heach]
  exact List.flatMap_singleton' x

/-- A printed name without its quotes is the name, if it has none in it. -/
theorem trimQuotes_quoteIdentifier {keyword : Text → Bool} {name : Text} :
    trimQuotes (quoteIdentifier keyword name) = name ↔ '"' ∉ name := by
  rcases quoteIdentifier_cases keyword name with ⟨heq, -, hchars⟩ | heq
  · have hnone : '"' ∉ name := fun hmem => quote_of_isNameChar (hchars _ hmem) rfl
    refine iff_of_true ?_ hnone
    rw [heq]
    exact trimQuotes_of_not_mem hnone
  · rw [heq]
    constructor
    · intro htrim hquote
      have hends := trimQuotes_ends ('"' :: (quotesTwice name ++ ['"']))
      rw [htrim] at hends
      obtain ⟨hhead, hlast⟩ := doubled_ends hends.1 hends.2
      rw [trimQuotes_quoted hhead hlast] at htrim
      have hlength := length_quotesTwice name
      have hcount : 0 < name.count '"' := List.count_pos_iff.2 hquote
      rw [htrim] at hlength
      omega
    · intro hnone
      rw [quotesTwice_of_not_mem hnone]
      exact trimQuotes_quoted (fun c hc hquote => hnone (hquote ▸ List.mem_of_head? hc))
        fun c hc hquote => hnone (hquote ▸ List.mem_of_getLast? hc)

section

variable {keyword : Text → Bool} {key : IndexKey}

/-- An order that is printed begins with a blank and ends with a letter. -/
theorem text_order (order : SortOrder) : order = .plain ∨
    (order.text ≠ [] ∧ order.text.head? = some ' ' ∧ ∀ c ∈ order.text.getLast?, isGoSpace c = false) := by
  cases order with
  | plain => exact Or.inl rfl
  | _ => exact Or.inr ⟨by decide, by decide, by decide⟩

theorem decoration_blank : ∀ c ∈ key.decoration.head?, c = ' ' := by
  intro c hc
  by_cases hqualifier : key.qualifier = []
  · rw [IndexKey.decoration, hqualifier, List.nil_append] at hc
    rcases text_order key.order with hplain | ⟨-, hhead, -⟩
    · rw [hplain] at hc
      cases hc
    · rw [hhead] at hc
      exact (Option.some.inj hc).symm
  · rw [IndexKey.decoration, List.head?_append_of_ne_nil _ hqualifier] at hc
    exact key.qualifier_blank c hc

theorem decoration_end : ∀ c ∈ key.decoration.getLast?, isGoSpace c = false := by
  intro c hc
  rcases text_order key.order with hplain | ⟨hne, -, hlast⟩
  · rw [IndexKey.decoration, hplain, show SortOrder.plain.text = [] from rfl, List.append_nil] at hc
    exact key.qualifier_end c hc
  · rw [IndexKey.decoration, List.getLast?_append_of_ne_nil _ hne] at hc
    exact hlast c hc

theorem decoration_eq_nil : key.decoration = [] ↔ key.qualifier = [] ∧ key.order = .plain := by
  rw [IndexKey.decoration, List.append_eq_nil_iff]
  rcases text_order key.order with hplain | ⟨hne, -, -⟩
  · rw [hplain]
    exact and_congr_right fun _ => iff_of_true rfl rfl
  · refine and_congr_right fun _ => iff_of_false hne ?_
    intro hplain
    rw [hplain] at hne
    exact hne rfl

/-- Nothing is to be trimmed of a key. -/
theorem trimSpace_keyText : trimSpace (key.text keyword) = key.text keyword := by
  have hedge : ∀ c, c = '"' ∨ isNameChar c = true → isGoSpace c = false := by
    rintro c (rfl | hc)
    · decide
    · exact isGoSpace_of_isNameChar hc
  obtain ⟨d, rest, heq, hd⟩ := head_quoteIdentifier keyword key.column
  rw [trimSpace_eq_self, IndexKey.text]
  constructor
  · intro c hc
    rw [heq] at hc
    cases hc
    exact hedge d hd
  · intro c hc
    by_cases hnone : key.decoration = []
    · rw [hnone, List.append_nil] at hc
      exact hedge c (getLast_quoteIdentifier keyword key.column c hc)
    · rw [List.getLast?_append_of_ne_nil _ hnone] at hc
      exact decoration_end c hc

/-- A key comes out as its column if nothing is printed behind the name and no quote is in it. -/
theorem trim_keyText : trimQuotes (trimSpace (key.text keyword)) = key.column ↔
    key.decoration = [] ∧ '"' ∉ key.column := by
  rw [trimSpace_keyText]
  constructor
  · intro htrim
    have hnone : key.decoration = [] := by
      -- the blank in front of what is printed behind the name is not trimmed
      have hcount := congrArg (List.countP fun c => c ≠ '"') htrim
      rw [countP_trimQuotes (by simp), IndexKey.text, List.countP_append, countP_quoteIdentifier (by simp)] at hcount
      cases hdecoration : key.decoration with
      | nil => rfl
      | cons c rest =>
        have hblank : c = ' ' := decoration_blank c (by rw [hdecoration]; rfl)
        rw [hdecoration, hblank, List.countP_cons_of_pos (by decide)] at hcount
        omega
    rw [IndexKey.text, hnone, List.append_nil] at htrim
    exact ⟨hnone, trimQuotes_quoteIdentifier.1 htrim⟩
  · rintro ⟨hnone, hquote⟩
    rw [IndexKey.text, hnone, List.append_nil]
    exact trimQuotes_quoteIdentifier.2 hquote

end

/-! ## The list of the keys -/

/-- The pieces of a list that is joined with a comma and a blank. -/
theorem map_splitOn_intercalate {β : Type} {f : Text → β} (hf : ∀ x, f (' ' :: x) = f x) {pieces : List Text}
    (hne : pieces ≠ []) (h : ∀ piece ∈ pieces, ',' ∉ piece) :
    ((", ".toList.intercalate pieces).splitOn ',').map f = pieces.map f := by
  induction pieces with
  | nil => exact absurd rfl hne
  | cons piece rest ih =>
    have hpiece := h piece List.mem_cons_self
    cases rest with
    | nil => rw [List.intercalate_singleton, List.splitOn_eq_singleton hpiece]
    | cons next more =>
      have hrest := ih (List.cons_ne_nil _ _) fun x hx => h x (List.mem_cons_of_mem _ hx)
      have hjoin : ", ".toList.intercalate (piece :: next :: more) =
          piece ++ ',' :: (' ' :: ", ".toList.intercalate (next :: more)) := by
        rw [List.intercalate_cons_cons, List.append_assoc]
        rfl
      have hblank : ∀ x : Text, ((' ' :: x).splitOn ',').map f = (x.splitOn ',').map f := by
        intro x
        rw [List.splitOn_cons_eq_if_modifyHead, if_neg (by decide)]
        obtain ⟨first, others, hx⟩ := List.exists_cons_of_ne_nil (List.splitOn_ne_nil ',' x)
        rw [hx, List.modifyHead_cons, List.map_cons, List.map_cons, hf]
      rw [hjoin, List.splitOn_append_cons_self_of_not_mem hpiece, List.map_cons, hblank, hrest]
      rfl

section

variable {keyword : Text → Bool} {index : IndexEntry}

/-- What the loader neither trims nor splits at. -/
def isSolid (c : Char) : Bool := !(isGoSpace c || c = '"' || c = ',')

/-- The pieces have all the solid characters. -/
theorem countP_columns (s : Text) :
    (((s.splitOn ',').map fun c => trimQuotes (trimSpace c)).map (List.countP isSolid)).sum = s.countP isSolid := by
  have hspace : ∀ c, isGoSpace c = true → isSolid c = false := by
    intro c hc
    rw [isSolid, hc]
    rfl
  have heach : ∀ piece : Text, (trimQuotes (trimSpace piece)).countP isSolid = piece.countP isSolid := by
    intro piece
    rw [countP_trimQuotes (by decide), countP_trimSpace hspace]
  have hjoin := countP_intercalate isSolid [','] (List.splitOn_ne_nil ',' s)
  rw [List.intercalate_splitOn, show List.countP isSolid [','] = 0 by decide, Nat.mul_zero, Nat.add_zero,
    Nat.zero_add] at hjoin
  rw [hjoin, List.map_map]
  exact congrArg List.sum (List.map_congr_left fun piece _ => heach piece)

theorem countP_keysText (keyword : Text → Bool) (index : IndexEntry) :
    (index.keys.map fun key => key.column.countP isSolid).sum ≤ (index.keysText keyword).countP isSolid := by
  have hne : index.keys.map (IndexKey.text keyword) ≠ [] := by
    rw [Ne, List.map_eq_nil_iff]
    exact index.keys_nonempty
  have hjoin := countP_intercalate isSolid ", ".toList hne
  rw [show List.countP isSolid ", ".toList = 0 by decide, Nat.mul_zero, Nat.add_zero, Nat.zero_add,
    List.map_map] at hjoin
  rw [IndexEntry.keysText, hjoin]
  apply List.sum_le_sum
  intro key _
  rw [Function.comp_apply, IndexKey.text, List.countP_append, countP_quoteIdentifier (by decide)]
  exact Nat.le_add_right _ _

theorem texts_ne_nil (keyword : Text → Bool) (index : IndexEntry) : index.keys.map (IndexKey.text keyword) ≠ [] := by
  rw [Ne, List.map_eq_nil_iff]
  exact index.keys_nonempty

/-- With as many pieces as keys no key has a comma in its text. -/
theorem comma_of_length (h : ((index.keysText keyword).splitOn ',').length = index.keys.length) :
    ∀ key ∈ index.keys, ',' ∉ key.text keyword := by
  have hjoin := countP_intercalate (fun c => c == ',') ", ".toList (texts_ne_nil keyword index)
  rw [show List.countP (fun c => c == ',') ", ".toList = 1 by decide, List.length_map, Nat.mul_one] at hjoin
  rw [length_splitOn, List.count, IndexEntry.keysText, hjoin, Nat.add_eq_left] at h
  intro key hkey hcomma
  have hnone := List.sum_eq_zero_iff.1 h _ (List.mem_map_of_mem (List.mem_map_of_mem hkey))
  rw [List.countP_eq_zero] at hnone
  exact hnone ',' hcomma (by decide)

/-- The parentheses around the keys are the ones that the loader finds. -/
theorem between_eq (hopen : '(' ∉ index.head keyword) (hclose : ')' ∉ index.tail keyword) :
    indexColumns (index.definition keyword) =
      ((index.keysText keyword).splitOn ',').map fun c => trimQuotes (trimSpace c) :=
  indexColumns_between hopen hclose

/-- Columns that are the right ones come from between the parentheses of the keys. -/
theorem not_mem_of_columns (h : indexColumns (index.definition keyword) = index.keys.map IndexKey.column) :
    '(' ∉ index.head keyword ∧ ')' ∉ index.tail keyword := by
  obtain ⟨before, front, back, behind, heq, hbefore, hbehind, hopen, hclose⟩ :=
    exists_between (index.head keyword) (index.keysText keyword) (index.tail keyword)
  rw [IndexEntry.definition, heq, indexColumns_between hbefore hbehind] at h
  -- more than the keys has more solid characters than the columns
  have hcount := countP_columns (front ++ (index.keysText keyword ++ back))
  rw [h, List.map_map, List.countP_append, List.countP_append] at hcount
  have hkeys := countP_keysText keyword index
  have hsum : (index.keys.map (List.countP isSolid ∘ IndexKey.column)).sum =
      (index.keys.map fun key => key.column.countP isSolid).sum := rfl
  have hfront : front.countP isSolid = 0 := by omega
  have hback : back.countP isSolid = 0 := by omega
  rw [List.countP_eq_zero] at hfront hback
  constructor
  · intro hmem
    rw [if_pos hmem] at hopen
    exact hfront _ hopen (by decide)
  · intro hmem
    rw [if_pos hmem] at hclose
    exact hback _ hclose (by decide)

/-- The columns are right exactly if the parentheses are those of the keys and each key is a name without comma and
quote, with nothing behind it. -/
theorem columns_iff : indexColumns (index.definition keyword) = index.keys.map IndexKey.column ↔
    '(' ∉ index.head keyword ∧ ')' ∉ index.tail keyword ∧
      ∀ key ∈ index.keys, key.decoration = [] ∧ ',' ∉ key.column ∧ '"' ∉ key.column := by
  have hsplit : (∀ key ∈ index.keys, ',' ∉ key.text keyword) →
      ((index.keysText keyword).splitOn ',').map (fun c => trimQuotes (trimSpace c)) =
        index.keys.map fun key => trimQuotes (trimSpace (key.text keyword)) := by
    intro hcomma
    have hblank : ∀ x : Text, trimQuotes (trimSpace (' ' :: x)) = trimQuotes (trimSpace x) :=
      fun x => congrArg trimQuotes (trimSpace_blank x)
    rw [IndexEntry.keysText, map_splitOn_intercalate hblank (texts_ne_nil keyword index), List.map_map]
    · rfl
    · intro piece hpiece
      obtain ⟨key, hkey, rfl⟩ := List.mem_map.1 hpiece
      exact hcomma key hkey
  constructor
  · intro h
    obtain ⟨hopen, hclose⟩ := not_mem_of_columns h
    rw [between_eq hopen hclose] at h
    have hlength := congrArg List.length h
    rw [List.length_map, List.length_map] at hlength
    have hcomma := comma_of_length hlength
    rw [hsplit hcomma] at h
    refine ⟨hopen, hclose, fun key hkey => ?_⟩
    obtain ⟨hnone, hquote⟩ := trim_keyText.1 (List.map_inj_left.1 h key hkey)
    refine ⟨hnone, ?_, hquote⟩
    have htext := hcomma key hkey
    rw [IndexKey.text, hnone, List.append_nil, mem_quoteIdentifier (by decide)] at htext
    exact htext
  · rintro ⟨hopen, hclose, hkeys⟩
    rw [between_eq hopen hclose, hsplit]
    · exact List.map_congr_left fun key hkey => trim_keyText.2 ⟨(hkeys key hkey).1, (hkeys key hkey).2.2⟩
    · intro key hkey
      rw [IndexKey.text, (hkeys key hkey).1, List.append_nil, mem_quoteIdentifier (by decide)]
      exact (hkeys key hkey).2.1

end

end Workbench.Schema
