import Workbench.Lib.Grouping
import Workbench.Schema.IndexDefs

/-!
# Which indexes are loaded as they are

The loader looks for two texts in the definition of an index. Each is in the definition just if it is in one of the
names and texts that the definition is made of (`infix_definition`): the server's own words have neither, and no piece
of one can be put together with a name. `loadPostgresIndexes_iff` says for which indexes the loader is right.
-/

set_option autoImplicit false

namespace Workbench.Schema

open Workbench.Lib
open scoped Workbench.Characters

/-! ## Texts that are looked for -/

/-- The characters at the ends of the server's words. -/
def marks : Text := " .,()".toList

/-- The server's words behind the first name. -/
def words : List Text :=
  [" ON ", " ON ONLY ", ".", " USING ", " (", ", ", ")", " INCLUDE (", " NULLS NOT DISTINCT", " WITH (", " WHER",
    " NULLS FIRST", " DESC", " DESC NULLS LAST"].map String.toList

/-- A text that the words do not have, and that has no character of one side where a word meets a name. -/
structure Findable (pattern : Text) : Prop where
  nonempty : pattern ≠ []
  absent : ∀ c ∈ ['"', '(', ')', 'T', 'R'], c ∉ pattern
  edge : (∀ c ∈ marks, c ∉ pattern) ∨ ∀ c, isNameChar c = true → c ∉ pattern
  noWord : ∀ word ∈ words, ¬pattern <:+: word
  start : pattern.head? ≠ some 'E'

section

variable {pattern : Text}

theorem infix_word {word y : Text} (hword : ¬pattern <:+: word) (hend : ∀ c ∈ word.getLast?, c ∉ pattern) :
    pattern <:+: word ++ y ↔ pattern <:+: y := by
  rw [infix_append_of_getLast hend, or_iff_right hword]

theorem prefix_quotesTwice : ∀ {front : Text}, '"' ∉ front → ∀ name, front <+: quotesTwice name ↔ front <+: name := by
  intro front
  induction front with
  | nil => exact fun _ _ => iff_of_true List.nil_prefix List.nil_prefix
  | cons d rest ih =>
    intro hquote name
    rw [List.mem_cons, not_or] at hquote
    cases name with
    | nil => exact Iff.rfl
    | cons c more =>
      rw [quotesTwice, List.flatMap_cons, ← quotesTwice]
      by_cases hc : c = '"'
      · rw [if_pos hc, List.cons_append, List.cons_prefix_cons, List.cons_prefix_cons, hc]
        exact iff_of_false (fun h => hquote.1 h.1.symm) fun h => hquote.1 h.1.symm
      · rw [if_neg hc, List.singleton_append, List.cons_prefix_cons, List.cons_prefix_cons, ih hquote.2]

/-- Items between words, of which each is found where its own text is. -/
theorem infix_items {β : Type} {text : β → Text} {hit : β → Prop} {items : List β} (hne : items ≠ [])
    (hbetween : ¬pattern <:+: ", ".toList)
    (hitem : ∀ item ∈ items, ∀ word y : Text, ¬pattern <:+: word → (∀ c ∈ word.getLast?, c ∈ marks) →
      (∀ c ∈ y.head?, c ∈ marks) → (pattern <:+: word ++ (text item ++ y) ↔ hit item ∨ pattern <:+: y))
    {word y : Text} (hword : ¬pattern <:+: word) (hend : ∀ c ∈ word.getLast?, c ∈ marks)
    (hstart : ∀ c ∈ y.head?, c ∈ marks) :
    pattern <:+: word ++ (", ".toList.intercalate (items.map text) ++ y) ↔
      (∃ item ∈ items, hit item) ∨ pattern <:+: y := by
  induction items generalizing word with
  | nil => exact absurd rfl hne
  | cons item rest ih =>
    have hfirst := hitem item List.mem_cons_self word
    cases rest with
    | nil =>
      rw [List.map_cons, List.map_nil, List.intercalate_singleton, hfirst y hword hend hstart]
      simp
    | cons next more =>
      have hcomma : ∀ c ∈ (", ".toList ++ (", ".toList.intercalate ((next :: more).map text) ++ y)).head?,
          c ∈ marks := by
        intro c hc
        cases hc
        decide
      have hrest := ih (List.cons_ne_nil _ _) (fun x hx => hitem x (List.mem_cons_of_mem _ hx)) hbetween (by decide)
      rw [List.map_cons, List.map_cons, List.intercalate_cons_cons, List.append_assoc, List.append_assoc,
        ← List.map_cons, hfirst _ hword hend hcomma, hrest]
      simp only [List.exists_mem_cons_iff, or_assoc]

variable {keyword : Text → Bool} {index : IndexEntry}

/-- The texts of the parts. -/
theorem exists_parts : (∃ part ∈ index.parts, pattern <:+: part) ↔
    pattern <:+: index.name ∨ pattern <:+: index.schema ∨ pattern <:+: index.table ∨ pattern <:+: index.method ∨
      (∃ key ∈ index.keys, pattern <:+: key.column ∨ pattern <:+: key.qualifier) ∨
      (∃ name ∈ index.included, pattern <:+: name) ∨ (∃ options ∈ index.options, pattern <:+: options) ∨
      ∃ predicate ∈ index.predicate, pattern <:+: ' ' :: predicate := by
  simp only [IndexEntry.parts, List.mem_append, List.mem_cons, List.not_mem_nil, or_false, List.mem_map,
    Option.mem_toList, Option.mem_def, or_and_right, exists_or, exists_eq_left, and_or_left, exists_exists_and_eq_and,
    or_assoc]

theorem onWords_mem : index.onWords ∈ words := by
  simp only [IndexEntry.onWords]
  split_ifs <;> decide

theorem onWords_ends (index : IndexEntry) : index.onWords ≠ [] ∧ (∀ c ∈ index.onWords.head?, c ∈ marks) ∧
    ∀ c ∈ index.onWords.getLast?, c ∈ marks := by
  simp only [IndexEntry.onWords]
  split_ifs <;> decide

theorem createWords_end : ∀ c ∈ index.createWords.getLast?, c ∈ marks := by
  simp only [IndexEntry.createWords]
  split_ifs <;> decide

theorem definition_eq : index.definition keyword = index.createWords ++ (quoteIdentifier keyword index.name ++
    (index.onWords ++ (quoteIdentifier keyword index.schema ++ (".".toList ++ (quoteIdentifier keyword index.table ++
      (" USING ".toList ++ (quoteIdentifier keyword index.method ++ (" (".toList ++
        (index.keysText keyword ++ ')' :: index.tail keyword))))))))) := by
  have hparen : ∀ x : Text, " ".toList ++ '(' :: x = " (".toList ++ x := fun _ => rfl
  rw [← hparen, IndexEntry.definition, IndexEntry.head]
  simp only [List.append_assoc]

variable (hp : Findable pattern)

include hp

/-- A character that the pattern does not have. -/
theorem infix_mark {c : Char} {y : Text} (hc : c ∉ pattern) : pattern <:+: c :: y ↔ pattern <:+: y := by
  rw [← List.singleton_append]
  apply infix_word
  · intro hinside
    obtain ⟨d, rest, hpattern⟩ := List.exists_cons_of_ne_nil hp.nonempty
    have hd : d ∈ pattern := by
      rw [hpattern]
      exact List.mem_cons_self
    rw [List.mem_singleton.1 (hinside.subset hd)] at hd
    exact hc hd
  · intro d hd
    cases hd
    exact hc

/-- Doubling the quotes changes nothing for a pattern without one. -/
theorem infix_quotesTwice (name : Text) : pattern <:+: quotesTwice name ↔ pattern <:+: name := by
  have hquote := hp.absent '"' (by decide)
  induction name with
  | nil => exact Iff.rfl
  | cons c rest ih =>
    rw [quotesTwice, List.flatMap_cons, ← quotesTwice]
    by_cases hc : c = '"'
    · rw [if_pos hc, List.cons_append, infix_mark hp hquote, List.singleton_append, infix_mark hp hquote, hc,
        infix_mark hp hquote]
      exact ih
    · have hprefix := prefix_quotesTwice hquote (c :: rest)
      rw [quotesTwice, List.flatMap_cons, ← quotesTwice, if_neg hc, List.singleton_append] at hprefix
      rw [if_neg hc, List.singleton_append, List.infix_cons_iff, List.infix_cons_iff]
      exact or_congr hprefix ih

theorem infix_quoteIdentifier (keyword : Text → Bool) (name : Text) :
    pattern <:+: quoteIdentifier keyword name ↔ pattern <:+: name := by
  have hquote := hp.absent '"' (by decide)
  rcases quoteIdentifier_cases keyword name with ⟨heq, -, -⟩ | heq
  · rw [heq]
  · have hlast : ∀ c ∈ ['"'].head?, c ∉ pattern := by
      intro c hc
      cases hc
      exact hquote
    have hnone : ¬pattern <:+: ['"'] := by
      rw [infix_mark hp hquote, List.infix_nil]
      exact hp.nonempty
    rw [heq, infix_mark hp hquote, infix_append_of_head hlast, or_iff_left hnone, infix_quotesTwice hp]

/-- A name between two words. -/
theorem infix_name (keyword : Text → Bool) (name : Text) {word y : Text} (hword : ¬pattern <:+: word)
    (hend : ∀ c ∈ word.getLast?, c ∈ marks) (hstart : ∀ c ∈ y.head?, c ∈ marks) :
    pattern <:+: word ++ (quoteIdentifier keyword name ++ y) ↔ pattern <:+: name ∨ pattern <:+: y := by
  have hquote := hp.absent '"' (by decide)
  rcases hp.edge with hmarks | hchars
  · rw [infix_word hword fun c hc => hmarks c (hend c hc),
      infix_append_of_head fun c hc => hmarks c (hstart c hc), infix_quoteIdentifier hp]
  · have hname : ∀ c, c = '"' ∨ isNameChar c = true → c ∉ pattern := by
      rintro c (rfl | hc)
      · exact hquote
      · exact hchars c hc
    have hfirst : ∀ c ∈ (quoteIdentifier keyword name ++ y).head?, c ∉ pattern := by
      intro c hc
      obtain ⟨d, rest, heq, hd⟩ := head_quoteIdentifier keyword name
      rw [heq] at hc
      have hsame : d = c := Option.some.inj hc
      rw [← hsame]
      exact hname d hd
    rw [infix_append_of_head hfirst, or_iff_right hword,
      infix_append_of_getLast fun c hc => hname c (getLast_quoteIdentifier keyword name c hc),
      infix_quoteIdentifier hp]

/-- A key between two words; where something is printed behind its name, that has to begin with no character of the
pattern. -/
theorem infix_key (keyword : Text → Bool) {key : IndexKey}
    (hdecoration : (∀ c ∈ marks, c ∉ pattern) ∨ key.decoration = []) {word y : Text} (hword : ¬pattern <:+: word)
    (hend : ∀ c ∈ word.getLast?, c ∈ marks) (hstart : ∀ c ∈ y.head?, c ∈ marks) :
    pattern <:+: word ++ (key.text keyword ++ y) ↔
      (pattern <:+: key.column ∨ pattern <:+: key.qualifier) ∨ pattern <:+: y := by
  have hnil : ¬pattern <:+: ([] : Text) := fun h => hp.nonempty (List.infix_nil.1 h)
  by_cases hplain : key.decoration = []
  · rw [IndexKey.text, hplain, List.append_nil, infix_name hp keyword key.column hword hend hstart,
      (decoration_eq_nil.1 hplain).1, or_iff_left hnil]
  · have hmarks := hdecoration.resolve_right hplain
    have hblank : ∀ c ∈ (key.decoration ++ y).head?, c ∈ marks := by
      intro c hc
      rw [List.head?_append_of_ne_nil _ hplain] at hc
      rw [decoration_blank c hc]
      decide
    have horder : ∀ c ∈ (key.order.text ++ y).head?, c ∉ pattern := by
      intro c hc
      rcases text_order key.order with heq | ⟨hne, hhead, -⟩
      · rw [heq] at hc
        exact hmarks c (hstart c hc)
      · rw [List.head?_append_of_ne_nil _ hne, hhead] at hc
        rw [← Option.some.inj hc]
        exact hmarks ' ' (by decide)
    have hnone : ¬pattern <:+: key.order.text := by
      cases key.order with
      | plain => exact hnil
      | nullsFirst => exact hp.noWord _ (by decide)
      | desc => exact hp.noWord _ (by decide)
      | descNullsLast => exact hp.noWord _ (by decide)
    rw [IndexKey.text, List.append_assoc, infix_name hp keyword key.column hword hend hblank, IndexKey.decoration,
      List.append_assoc, infix_append_of_head horder, infix_append_of_head fun c hc => hmarks c (hstart c hc),
      or_iff_right hnone, or_assoc]

/-! ## The definition of an index -/

theorem infix_predicateText : pattern <:+: index.predicateText ↔
    ∃ predicate ∈ index.predicate, pattern <:+: ' ' :: predicate := by
  rw [IndexEntry.predicateText]
  cases index.predicate with
  | none =>
    refine iff_of_false (fun h => hp.nonempty (List.infix_nil.1 h)) ?_
    rintro ⟨predicate, hmem, -⟩
    cases hmem
  | some predicate =>
    have hsplit : " WHERE".toList ++ ' ' :: predicate = " WHER".toList ++ 'E' :: ' ' :: predicate := rfl
    have hstart : ¬pattern <+: 'E' :: ' ' :: predicate := by
      intro hprefix
      obtain ⟨rest, hrest⟩ := hprefix
      have hhead := congrArg List.head? hrest
      rw [List.head?_append_of_ne_nil _ hp.nonempty] at hhead
      exact hp.start hhead
    have hend : ∀ c ∈ " WHER".toList.getLast?, c ∉ pattern := by
      intro c hc
      have hsame : 'R' = c := Option.some.inj hc
      rw [← hsame]
      exact hp.absent 'R' (by decide)
    rw [Option.elim_some, hsplit, infix_word (hp.noWord _ (by decide)) hend, List.infix_cons_iff,
      or_iff_right hstart]
    simp

theorem infix_optionsText (y : Text) : pattern <:+: index.optionsText ++ y ↔
    (∃ options ∈ index.options, pattern <:+: options) ∨ pattern <:+: y := by
  rw [IndexEntry.optionsText]
  cases index.options with
  | none => simp
  | some options =>
    have hopen : ∀ c ∈ " WITH (".toList.getLast?, c ∉ pattern := by
      intro c hc
      have hsame : '(' = c := Option.some.inj hc
      rw [← hsame]
      exact hp.absent '(' (by decide)
    have hclose := hp.absent ')' (by decide)
    have hhead : ∀ c ∈ (')' :: y).head?, c ∉ pattern := by
      intro c hc
      cases hc
      exact hclose
    rw [Option.elim_some, List.append_assoc, List.append_assoc, infix_word (hp.noWord _ (by decide)) hopen,
      List.singleton_append, infix_append_of_head hhead, infix_mark hp hclose]
    simp

theorem infix_includedText (y : Text) : pattern <:+: index.includedText keyword ++ y ↔
    (∃ name ∈ index.included, pattern <:+: name) ∨ pattern <:+: y := by
  rw [IndexEntry.includedText]
  split_ifs with hnone
  · simp [hnone]
  · have hclose : ∀ c ∈ ([')'] ++ y).head?, c ∈ marks := by
      intro c hc
      cases hc
      decide
    have hname : ∀ name ∈ index.included, ∀ word y : Text, ¬pattern <:+: word → (∀ c ∈ word.getLast?, c ∈ marks) →
        (∀ c ∈ y.head?, c ∈ marks) →
        (pattern <:+: word ++ (quoteIdentifier keyword name ++ y) ↔ pattern <:+: name ∨ pattern <:+: y) :=
      fun name _ _ _ hword hend hstart => infix_name hp keyword name hword hend hstart
    rw [List.append_assoc, List.append_assoc,
      infix_items hnone (hp.noWord _ (by decide)) hname (hp.noWord _ (by decide)) (by decide) hclose,
      List.singleton_append, infix_mark hp (hp.absent ')' (by decide))]

theorem infix_tail : pattern <:+: index.tail keyword ↔ (∃ name ∈ index.included, pattern <:+: name) ∨
    (∃ options ∈ index.options, pattern <:+: options) ∨
      ∃ predicate ∈ index.predicate, pattern <:+: ' ' :: predicate := by
  have hend : ∀ c ∈ " NULLS NOT DISTINCT".toList.getLast?, c ∉ pattern := by
    intro c hc
    have hsame : 'T' = c := Option.some.inj hc
    rw [← hsame]
    exact hp.absent 'T' (by decide)
  rw [IndexEntry.tail, infix_includedText hp]
  split_ifs
  · rw [infix_word (hp.noWord _ (by decide)) hend, infix_optionsText hp, infix_predicateText hp]
  · rw [List.nil_append, infix_optionsText hp, infix_predicateText hp]

/-- **A pattern is in the definition just if it is in one of its parts.** -/
theorem infix_definition (hcreate : ¬pattern <:+: index.createWords)
    (hkeys : (∀ c ∈ marks, c ∉ pattern) ∨ ∀ key ∈ index.keys, key.decoration = []) :
    pattern <:+: index.definition keyword ↔ ∃ part ∈ index.parts, pattern <:+: part := by
  have hmarks : ∀ word y : Text, word ≠ [] → (∀ c ∈ word.head?, c ∈ marks) → ∀ c ∈ (word ++ y).head?, c ∈ marks := by
    intro word y hne hword
    rw [List.head?_append_of_ne_nil _ hne]
    exact hword
  have hkey : ∀ key ∈ index.keys, (∀ c ∈ marks, c ∉ pattern) ∨ key.decoration = [] := by
    intro key hmem
    exact hkeys.imp_right fun hplain => hplain key hmem
  have hclose : ∀ c ∈ (')' :: index.tail keyword).head?, c ∈ marks := by
    intro c hc
    cases hc
    decide
  obtain ⟨honNonempty, honHead, honLast⟩ := onWords_ends index
  rw [definition_eq, exists_parts,
    infix_name hp keyword index.name hcreate createWords_end (hmarks _ _ honNonempty honHead),
    infix_name hp keyword index.schema (hp.noWord _ onWords_mem) honLast (hmarks _ _ (by decide) (by decide)),
    infix_name hp keyword index.table (hp.noWord _ (by decide)) (by decide) (hmarks _ _ (by decide) (by decide)),
    infix_name hp keyword index.method (hp.noWord _ (by decide)) (by decide) (hmarks _ _ (by decide) (by decide)),
    IndexEntry.keysText,
    infix_items index.keys_nonempty (hp.noWord _ (by decide)) (fun key hmem word y hword hend hstart =>
      infix_key hp keyword (hkey key hmem) hword hend hstart) (hp.noWord _ (by decide)) (by decide) hclose,
    infix_mark hp (hp.absent ')' (by decide)), infix_tail hp]

end

theorem findable_pkey : Findable "_pkey".toList where
  nonempty := by decide
  absent := by decide
  edge := Or.inl (by decide)
  noWord := by decide
  start := by decide

theorem findable_unique : Findable " UNIQUE INDEX ".toList where
  nonempty := by decide
  absent := by decide
  edge := by
    right
    have hchars : ∀ c ∈ " UNIQUE INDEX ".toList, isNameChar c = false := by decide
    intro c hc hmem
    rw [hchars c hmem] at hc
    cases hc
  noWord := by decide
  start := by decide

/-! ## When the loader is right -/

section

variable {keyword : Text → Bool} {index : IndexEntry}

theorem not_mem_words (index : IndexEntry) {c : Char} (hc : c ∉ "CREATE UNIQUE INDEX ON ONLY . USING".toList) :
    c ∉ index.createWords ∧ c ∉ index.onWords ∧ c ∉ ".".toList ∧ c ∉ " USING ".toList ∧ c ∉ " ".toList := by
  have hsubset : ∀ word ∈ ["CREATE UNIQUE INDEX ", "CREATE INDEX ", " ON ONLY ", " ON ", ".", " USING ", " "].map
      String.toList, word ⊆ "CREATE UNIQUE INDEX ON ONLY . USING".toList := by decide
  have hword : ∀ word ∈ ["CREATE UNIQUE INDEX ", "CREATE INDEX ", " ON ONLY ", " ON ", ".", " USING ", " "].map
      String.toList, c ∉ word := fun word hmem h => hc (hsubset word hmem h)
  refine ⟨?_, ?_, hword _ (by decide), hword _ (by decide), hword _ (by decide)⟩
  · rw [IndexEntry.createWords]
    split_ifs
    · exact hword _ (by decide)
    · exact hword _ (by decide)
  · rw [IndexEntry.onWords]
    split_ifs
    · exact hword _ (by decide)
    · exact hword _ (by decide)

/-- A parenthesis in front of the keys is one of a name. -/
theorem mem_head : '(' ∈ index.head keyword ↔
    ∃ name ∈ [index.name, index.schema, index.table, index.method], '(' ∈ name := by
  obtain ⟨hcreate, hon, hpoint, husing, hblank⟩ := not_mem_words index (show '(' ∉ _ by decide)
  have hparen : '(' ≠ '"' := by decide
  simp only [IndexEntry.head, List.mem_append, mem_quoteIdentifier hparen, hcreate, hon, hpoint, husing, hblank,
    false_or, or_false, List.exists_mem_cons_iff, List.not_mem_nil, false_and, exists_false]

/-- There is a closing parenthesis behind the keys if anything in parentheses is. -/
theorem mem_tail : ')' ∈ index.tail keyword ↔ index.included ≠ [] ∨ index.options ≠ none ∨
    ∃ predicate ∈ index.predicate, ')' ∈ predicate := by
  have hincluded : ')' ∈ index.includedText keyword ↔ index.included ≠ [] := by
    rw [IndexEntry.includedText]
    split_ifs with hnone
    · simp [hnone]
    · exact iff_of_true (List.mem_append_right _ (List.mem_append_right _ (List.mem_singleton_self _))) hnone
  have hdistinct : ')' ∉ (if index.nullsNotDistinct then " NULLS NOT DISTINCT".toList else []) := by
    split_ifs <;> decide
  have hoptions : ')' ∈ index.optionsText ↔ index.options ≠ none := by
    rw [IndexEntry.optionsText]
    cases index.options with
    | none => simp
    | some options =>
      exact iff_of_true (List.mem_append_right _ (List.mem_append_right _ (List.mem_singleton_self _)))
        (Option.some_ne_none _)
  have hpredicate : ')' ∈ index.predicateText ↔ ∃ predicate ∈ index.predicate, ')' ∈ predicate := by
    rw [IndexEntry.predicateText]
    cases index.predicate with
    | none => simp
    | some predicate =>
      have hwhere : ')' ∉ " WHERE".toList := by decide
      rw [Option.elim_some, List.mem_append, or_iff_right hwhere, List.mem_cons]
      simp
  rw [IndexEntry.tail, List.mem_append, List.mem_append, List.mem_append, hincluded, hoptions, hpredicate,
    or_iff_right hdistinct]

/-- The text that the loader takes for the mark of a primary key is in one of the parts just if the index backs the
primary key. Any other index has names without an opening parenthesis, plain keys without comma and quote, nothing in
parentheses behind them, and it is unique if the text that the loader takes for the mark of that is in a part. -/
structure Readable (index : IndexEntry) : Prop where
  primary : index.primary = true ↔ ∃ part ∈ index.parts, "_pkey".toList <:+: part
  names : index.primary = false → ∀ name ∈ [index.name, index.schema, index.table, index.method], '(' ∉ name
  keys : index.primary = false → ∀ key ∈ index.keys,
    (key.qualifier = [] ∧ key.order = .plain) ∧ ',' ∉ key.column ∧ '"' ∉ key.column
  tail : index.primary = false → index.included = [] ∧ index.options = none ∧
    ∀ predicate ∈ index.predicate, ')' ∉ predicate
  unique : index.primary = false → index.unique = true ∨ ∀ part ∈ index.parts, ¬ " UNIQUE INDEX ".toList <:+: part

theorem infix_pkey : "_pkey".toList <:+: index.definition keyword ↔ ∃ part ∈ index.parts, "_pkey".toList <:+: part := by
  refine infix_definition findable_pkey ?_ (Or.inl (by decide))
  intro hinside
  have hmark : '_' ∉ "CREATE UNIQUE INDEX ON ONLY . USING".toList := by decide
  exact (not_mem_words index hmark).1 (hinside.subset (by decide))

theorem infix_unique (keyword : Text → Bool) (hplain : ∀ key ∈ index.keys, key.decoration = []) :
    " UNIQUE INDEX ".toList <:+: index.definition keyword ↔
      index.unique = true ∨ ∃ part ∈ index.parts, " UNIQUE INDEX ".toList <:+: part := by
  cases hunique : index.unique with
  | true =>
    refine iff_of_true ?_ (Or.inl rfl)
    have hcreate : " UNIQUE INDEX ".toList <:+: index.createWords := by
      rw [IndexEntry.createWords, if_pos hunique]
      decide
    rw [definition_eq]
    exact hcreate.trans List.infix_append_left
  | false =>
    rw [or_iff_right Bool.false_ne_true]
    refine infix_definition findable_unique ?_ (Or.inr hplain)
    rw [IndexEntry.createWords, if_neg (by rw [hunique]; exact Bool.false_ne_true)]
    decide

/-- The columns are right just if the index is readable as far as they go. -/
theorem columns_readable (keyword : Text → Bool) (index : IndexEntry) :
    indexColumns (index.definition keyword) = index.keys.map IndexKey.column ↔
    (∀ name ∈ [index.name, index.schema, index.table, index.method], '(' ∉ name) ∧
      (∀ key ∈ index.keys, (key.qualifier = [] ∧ key.order = .plain) ∧ ',' ∉ key.column ∧ '"' ∉ key.column) ∧
      index.included = [] ∧ index.options = none ∧ ∀ predicate ∈ index.predicate, ')' ∉ predicate := by
  rw [columns_iff, mem_head, mem_tail]
  simp only [decoration_eq_nil, not_or, not_exists, not_and, ne_eq, not_not]
  constructor
  · rintro ⟨hnames, htail, hkeys⟩
    exact ⟨hnames, hkeys, htail⟩
  · rintro ⟨hnames, hkeys, htail⟩
    exact ⟨hnames, htail, hkeys⟩

theorem loadIndex_some {row : IndexRow} (h : ¬ "_pkey".toList <:+: row.definition) : loadIndex row =
    some ⟨row.name, indexColumns row.definition, " UNIQUE INDEX ".toList <:+: row.definition⟩ := if_neg h

theorem loadIndex_none {row : IndexRow} : loadIndex row = none ↔ "_pkey".toList <:+: row.definition := by
  refine ⟨fun hnone => ?_, fun hfound => if_pos hfound⟩
  by_contra hnot
  rw [loadIndex_some hnot] at hnone
  cases hnone

/-- An index that does not back the primary key. -/
theorem loadIndex_secondary (keyword : Text → Bool) (hprimary : index.primary = false)
    (hpkey : ¬ "_pkey".toList <:+: index.definition keyword) :
    loadIndex (index.row keyword) = index.shown ↔ Readable index := by
  have hshown : index.shown = some ⟨index.name, index.keys.map IndexKey.column, index.unique⟩ :=
    if_neg (by rw [hprimary]; exact Bool.false_ne_true)
  rw [loadIndex_some hpkey, hshown, Option.some.injEq, Index.mk.injEq]
  constructor
  · rintro ⟨-, hcolumns, hunique⟩
    obtain ⟨hnames, hkeys, htail⟩ := (columns_readable keyword index).1 hcolumns
    have hplain : ∀ key ∈ index.keys, key.decoration = [] := fun key hkey => decoration_eq_nil.2 (hkeys key hkey).1
    refine ⟨iff_of_false (by rw [hprimary]; exact Bool.false_ne_true) (mt infix_pkey.2 hpkey), fun _ => hnames,
      fun _ => hkeys, fun _ => htail, fun _ => ?_⟩
    cases hflag : index.unique with
    | true => exact Or.inl rfl
    | false =>
      right
      intro part hpart hinside
      have hfound := (infix_unique keyword hplain).2 (Or.inr ⟨part, hpart, hinside⟩)
      rw [hflag, decide_eq_false_iff_not] at hunique
      exact hunique hfound
  · intro h
    have hkeys := h.keys hprimary
    have hplain : ∀ key ∈ index.keys, key.decoration = [] := fun key hkey => decoration_eq_nil.2 (hkeys key hkey).1
    refine ⟨rfl, (columns_readable keyword index).2 ⟨h.names hprimary, hkeys, h.tail hprimary⟩, ?_⟩
    rw [Bool.eq_iff_iff, decide_eq_true_eq]
    refine (infix_unique keyword hplain).trans ⟨?_, Or.inl⟩
    rintro (hflag | ⟨part, hpart, hinside⟩)
    · exact hflag
    · exact (h.unique hprimary).resolve_right fun hnone => hnone part hpart hinside

theorem loadIndex_iff (keyword : Text → Bool) (index : IndexEntry) :
    loadIndex (index.row keyword) = index.shown ↔ Readable index := by
  cases hprimary : index.primary with
  | true =>
    have hshown : index.shown = none := if_pos hprimary
    rw [hshown, loadIndex_none]
    constructor
    · intro hpkey
      exact ⟨iff_of_true hprimary (infix_pkey.1 hpkey), by simp [hprimary], by simp [hprimary], by simp [hprimary],
        by simp [hprimary]⟩
    · intro h
      exact infix_pkey.2 (h.primary.1 hprimary)
  | false =>
    by_cases hpkey : "_pkey".toList <:+: index.definition keyword
    · -- the index is left out
      have hshown : index.shown ≠ none := by
        rw [IndexEntry.shown, if_neg (by rw [hprimary]; exact Bool.false_ne_true)]
        exact Option.some_ne_none _
      rw [loadIndex_none.2 hpkey]
      refine iff_of_false hshown.symm fun h => ?_
      have hbacks := h.primary.2 (infix_pkey.1 hpkey)
      rw [hprimary] at hbacks
      cases hbacks
    · exact loadIndex_secondary keyword hprimary hpkey

end

/-! ## The indexes of a table -/

/-- The indexes of a table; their names are unique. -/
structure TableIndexes where
  indexes : List IndexEntry
  distinct : (indexes.map IndexEntry.name).Nodup

/-- The rows that `pg_indexes` has for the table, in some order. -/
def TableIndexes.Answers (keyword : Text → Bool) (t : TableIndexes) (rows : List IndexRow) : Prop :=
  rows.Perm (t.indexes.map (IndexEntry.row keyword))

section

variable {keyword : Text → Bool} {t : TableIndexes} {index : IndexEntry} {rows : List IndexRow}

theorem name_loadIndex {row : IndexRow} {shown : Index} (h : loadIndex row = some shown) : shown.name = row.name := by
  by_cases hfound : "_pkey".toList <:+: row.definition
  · rw [loadIndex_none.2 hfound] at h
    cases h
  · rw [loadIndex_some hfound] at h
    cases h
    rfl

/-- What is loaded under a name comes from the row of this name. -/
theorem filter_loadPostgresIndexes (rows : List IndexRow) (name : Text) :
    (loadPostgresIndexes rows).filter (fun shown => shown.name = name) =
      (rows.filter fun row => row.name = name).filterMap loadIndex := by
  rw [loadPostgresIndexes, List.filter_filterMap, List.filterMap_filter]
  apply List.filterMap_congr
  intro row _
  cases hload : loadIndex row with
  | none => simp
  | some shown => simp [Option.filter, name_loadIndex hload]

theorem TableIndexes.Answers.filter_name (h : t.Answers keyword rows) (hindex : index ∈ t.indexes) :
    (rows.filter fun row => row.name = index.name) = [index.row keyword] := by
  have hperm := List.Perm.filter (fun row : IndexRow => decide (row.name = index.name)) h
  have halone : t.indexes.filter (fun other => other.name = index.name) = [index] := by
    refine filter_alone (List.Nodup.of_map _ t.distinct) hindex ?_
    intro other hother
    rw [decide_eq_true_eq]
    exact ⟨fun hname => List.inj_on_of_nodup_map t.distinct hother hindex hname, fun heq => congrArg _ heq⟩
  rw [List.filter_map] at hperm
  have hsame : (fun row : IndexRow => decide (row.name = index.name)) ∘ IndexEntry.row keyword =
      fun other => decide (other.name = index.name) := rfl
  rw [hsame, halone, List.map_singleton, List.perm_singleton] at hperm
  exact hperm

/-- **An index of a table is shown as it is exactly if it is readable.** -/
theorem loadPostgresIndexes_iff (hindex : index ∈ t.indexes) (hrows : t.Answers keyword rows) :
    (loadPostgresIndexes rows).filter (fun shown => shown.name = index.name) = index.shown.toList ↔ Readable index := by
  rw [filter_loadPostgresIndexes, hrows.filter_name hindex, ← loadIndex_iff keyword index]
  cases hload : loadIndex (index.row keyword) with
  | none =>
    cases index.shown with
    | none => simp [hload]
    | some shown => simp [hload]
  | some loaded =>
    cases index.shown with
    | none => simp [hload]
    | some shown => simp [hload]

end

/-- A key without collation and operator class. -/
def plainKey (column : Text) (order : SortOrder) : IndexKey where
  column := column
  qualifier := []
  order := order
  qualifier_blank := by simp
  qualifier_end := by simp

/-- An index of the table s.t with one key. -/
def oneKeyIndex (order : SortOrder) : IndexEntry where
  name := ['i']
  schema := ['s']
  table := ['t']
  method := "btree".toList
  only := false
  unique := false
  primary := false
  keys := [plainKey ['a'] order]
  included := []
  nullsNotDistinct := false
  options := none
  predicate := none
  keys_nonempty := List.cons_ne_nil _ _

def oneIndex (order : SortOrder) : TableIndexes := ⟨[oneKeyIndex order], List.nodup_singleton _⟩

theorem loadPostgresIndexes_plain :
    (loadPostgresIndexes [(oneKeyIndex .plain).row fun _ => false]).filter (fun shown => shown.name = ['i']) =
      (oneKeyIndex .plain).shown.toList ↔ Readable (oneKeyIndex .plain) := by
  have hindex : oneKeyIndex .plain ∈ (oneIndex .plain).indexes := List.mem_singleton_self _
  have hrows : (oneIndex .plain).Answers (fun _ => false) [(oneKeyIndex .plain).row fun _ => false] := List.Perm.refl _
  exact loadPostgresIndexes_iff hindex hrows

/-- A key in descending order is taken for a column of another name. -/
theorem loadPostgresIndexes_desc :
    (oneIndex .desc).Answers (fun _ => false) [⟨['i'], "CREATE INDEX i ON s.t USING btree (a DESC)".toList⟩] ∧
      loadPostgresIndexes [⟨['i'], "CREATE INDEX i ON s.t USING btree (a DESC)".toList⟩] =
        [⟨['i'], ["a DESC".toList], false⟩] ∧
      (oneKeyIndex .desc).shown = some ⟨['i'], [['a']], false⟩ := by
  have hrow : (oneKeyIndex .desc).row (fun _ => false) =
      ⟨['i'], "CREATE INDEX i ON s.t USING btree (a DESC)".toList⟩ := by decide
  exact ⟨List.Perm.of_eq (congrArg (fun row => [row]) hrow.symm), by decide, rfl⟩

end Workbench.Schema
