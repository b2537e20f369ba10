import Workbench.Schema.Reading

/-!
# The statements of the generator

What the database reads in each kind of statement: most are fixed but for names and types, some end
with the free text of a column definition, and in PostgreSQL a comment is a statement of its own.
-/

set_option autoImplicit false

namespace Workbench.Schema

open Workbench.Lib

/-! ## Kinds of statements -/

/-- A statement of the generator's own words. -/
structure Fixed (d : Dialect) (sql : Text) (drops : Bool) : Prop where
  one_statement : IsOneStatement d sql
  drops_iff : Drops d sql ↔ drops = true

/-- A statement that ends with the free text of a column. -/
structure Defines (d : Dialect) (sql : Text) (c : Column) : Prop where
  one_iff : IsOneStatement d sql ↔ FreeHarmless d c
  drops_iff : Drops d sql ↔ FreeDrops d c
  getLast? : d.rules.tokens (freeText d c) ≠ [] →
    (d.rules.tokens sql).getLast? = (d.rules.tokens (freeText d c)).getLast?

/-! ## Reading the parts -/

theorem place_inside (depth : Nat) :
    Place.inside depth = .other ∨ ∃ k, Place.inside depth = .inside k := Or.inr ⟨depth, rfl⟩

theorem place_other : Place.other = .other ∨ ∃ depth, Place.other = .inside depth := Or.inl rfl

section

variable {d : Dialect} {schema table : Text}

/-- The front of an `ALTER TABLE`, up to its first action. -/
theorem reads_alterTable (hs : ValidName schema) (ht : ValidName table) {action : List Text}
    {drops : List Place.Drop} {s : ReadState} {p : Place}
    (h : Reads d start .named action.flatten drops s p) :
    Reads d start .statement (alterTable (namedTable d schema table) action) drops s p := by
  have hfront : Reads d start .statement "ALTER TABLE ".toList [] start .table := by
    cases d <;> exact reads_of_readsTo rfl
  have hblank : Reads d (behindName d table) .table [' '] [] start .named :=
    reads_behindName rfl (Reads.nil start .named)
  exact hfront.append ((reads_namedTable hs ht).append (hblank.append h))

theorem alterTable_head (table : Text) (action : List Text) :
    ∃ c rest, alterTable table action = c :: rest ∧ isWordChar c = true :=
  ⟨'A', _, rfl, rfl⟩

/-- A statement of another kind. -/
theorem reads_other {s t : ReadState} {text : Text} {tokens : List SqlToken}
    (h : d.rules.reader.Run s text tokens t) (hharm : tokens.any SqlToken.harmful = false) :
    Reads d s .other text [] t .other :=
  ⟨tokens, h, hharm, places_other hharm⟩

theorem reads_namedTable_other (hs : ValidName schema) (ht : ValidName table) :
    Reads d start .other (namedTable d schema table) [] (behindName d table) .other := by
  have hdot : Reads d (behindName d schema) .other ['.'] [] start .other := by
    cases d <;> exact ⟨_, ⟨rfl, rfl⟩, rfl, ⟨rfl, rfl⟩⟩
  exact (reads_named hs .other).append (hdot.append (reads_named ht .other))

/-- Words of the generator outside quotes. -/
theorem reads_words {s : ReadState} (hs : Calm s) {text : Text}
    (h : text.all isTypePart = true) (hupper : toUpper text = text) :
    ∃ t, Calm t ∧ Reads d s (.inside 0) text [] t (.inside 0) := by
  have hcalm : ReadsCalmly d 0 0 text := by
    apply readsCalmly_of_all d _ 0 h
    intro c hc
    simp only [isTypePart, Bool.or_eq_true, decide_eq_true_eq] at hc
    rcases hc with hc | hc
    · exact Or.inl (by simpa [isWordChar] using hc)
    · exact Or.inr hc
  obtain ⟨t, ht, hread⟩ := hcalm s hs
  rw [hupper] at hread
  exact ⟨t, ht, hread⟩

/-- A column definition up to its free text. -/
theorem reads_definitionHead {c : Column} (hname : ValidName c.name) (htype : ValidType c.type) :
    ∃ t, Calm t ∧ Reads d start (.inside 0) (definitionHead d c) [] t (.inside 0) := by
  have hblank : Reads d (behindName d c.name) (.inside 0) [' '] [] start (.inside 0) :=
    reads_behindName rfl (Reads.nil start _)
  obtain ⟨s, hs, hread⟩ := readsCalmly_type d htype start calm_start
  have hnull : ∃ t, Calm t ∧ Reads d s (.inside 0) (nullText c) [] t (.inside 0) := by
    unfold nullText
    split_ifs
    · exact ⟨s, hs, Reads.nil s _⟩
    · exact reads_words hs rfl rfl
  obtain ⟨t, ht, hread'⟩ := hnull
  exact ⟨t, ht, (reads_named hname _).append (hblank.append (hread.append hread'))⟩

/-- The state behind a list of names, which may be empty. -/
def BehindNames (d : Dialect) (s : ReadState) : Prop := s = start ∨ ∃ name, s = behindName d name

theorem joinComma_cons_cons (x y : Text) (rest : List Text) :
    joinComma (x :: y :: rest) = x ++ (", ".toList ++ joinComma (y :: rest)) := by
  simp [joinComma, List.intercalate]

theorem reads_names (p : Place) (hcomma : ∀ name, Reads d (behindName d name) p ", ".toList [] start p)
    {names : List Text} (h : ∀ name ∈ names, ValidName name) :
    ∃ s, BehindNames d s ∧ Reads d start p (joinComma (names.map (named d))) [] s p := by
  induction names with
  | nil => exact ⟨start, Or.inl rfl, Reads.nil start p⟩
  | cons name rest ih =>
    have hname := reads_named (d := d) (h name List.mem_cons_self) p
    cases rest with
    | nil =>
      refine ⟨behindName d name, Or.inr ⟨name, rfl⟩, ?_⟩
      have hjoin : joinComma ([name].map (named d)) = named d name := by
        simp [joinComma, List.intercalate]
      rw [hjoin]
      exact hname
    | cons next rest =>
      obtain ⟨s, hs, hread⟩ := ih fun n hn => h n (List.mem_cons_of_mem _ hn)
      refine ⟨s, hs, ?_⟩
      rw [List.map_cons, List.map_cons, joinComma_cons_cons]
      exact hname.append ((hcomma name).append hread)

/-- A list of names in parentheses inside an action. -/
theorem reads_nameList {names : List Text} (h : ∀ name ∈ names, ValidName name) :
    ∃ s, BehindNames d s ∧
      Reads d start (.inside 1) (joinComma (names.map (named d))) [] s (.inside 1) := by
  apply reads_names _ _ h
  intro name
  cases d <;> exact ⟨_, ⟨rfl, rfl⟩, rfl, ⟨rfl, rfl⟩⟩

/-- The parenthesis behind it. -/
theorem reads_closing {s : ReadState} (hs : BehindNames d s) :
    Reads d s (.inside 1) ")".toList [] start (.inside 0) := by
  rcases hs with rfl | ⟨name, rfl⟩
  · cases d <;> exact ⟨_, ⟨rfl, rfl⟩, rfl, ⟨rfl, rfl⟩⟩
  · cases d <;> exact ⟨_, ⟨rfl, rfl⟩, rfl, ⟨rfl, rfl⟩⟩

/-! ## Fixed statements -/

/-- An `ALTER TABLE` whose action is read to its end. -/
theorem fixed_alterTable (hs : ValidName schema) (ht : ValidName table) {action : List Text}
    {drops : List Place.Drop} {s : ReadState} {p : Place}
    (h : Reads d start .named action.flatten drops s p) (hend : Ends d s p) {flag : Bool}
    (hflag : drops ≠ [] ↔ flag = true) :
    Fixed d (alterTable (namedTable d schema table) action) flag := by
  obtain ⟨hone, hdrops⟩ := (reads_alterTable hs ht h).finish hend (alterTable_head _ _)
  exact ⟨hone, hdrops.trans hflag⟩

/-- An action of fixed words and one name. -/
theorem fixed_action (hs : ValidName schema) (ht : ValidName table) {words : Text} {depth : Nat}
    {drops : List Place.Drop} (hwords : Reads d start .named words drops start (.inside depth))
    {name : Text} (hname : ValidName name) {flag : Bool} (hflag : drops ≠ [] ↔ flag = true) :
    Fixed d (alterTable (namedTable d schema table) [words, named d name]) flag := by
  have hread := hwords.consDrops (reads_named hname _).last
  exact fixed_alterTable hs ht hread (ends_behindName d name (place_inside depth)) hflag

theorem fixed_renameColumn (hs : ValidName schema) (ht : ValidName table) {name newName : Text}
    (hname : ValidName name) (hnew : ValidName newName) :
    Fixed d (alterTable (namedTable d schema table)
      ["RENAME COLUMN ".toList, named d name, " TO ".toList, named d newName]) false := by
  have hfront : Reads d start .named "RENAME COLUMN ".toList [] start (.inside 0) := by
    cases d <;> exact reads_of_readsTo rfl
  have hto : Reads d (behindName d name) (.inside 0) " TO ".toList [] start (.inside 0) := by
    cases d <;> exact reads_behindName rfl (reads_of_readsTo rfl)
  have hread := hfront.cons ((reads_named hname _).cons (hto.cons (reads_named hnew _).last))
  exact fixed_alterTable hs ht hread (ends_behindName d newName (place_inside 0)) (by simp)

theorem fixed_addPrimary (hs : ValidName schema) (ht : ValidName table) {name : Text}
    (hname : ValidName name) {words : Text} {drops : List Place.Drop}
    (hwords : Reads d start .named words drops start (.inside 1)) {flag : Bool}
    (hflag : drops ≠ [] ↔ flag = true) :
    Fixed d (alterTable (namedTable d schema table) [words, named d name, ")".toList]) flag := by
  have hclose : Reads d (behindName d name) (.inside 1) ")".toList [] start (.inside 0) :=
    reads_closing (Or.inr ⟨name, rfl⟩)
  have hread := hwords.consDrops ((reads_named hname _).cons hclose.last)
  exact fixed_alterTable hs ht hread (ends_calm calm_start (place_inside 0)) hflag

/-- The statement that adds an index in PostgreSQL. -/
theorem fixed_createIndex {i : Index} (hs : ValidName schema) (ht : ValidName table)
    (hname : ValidName i.name) (hcolumns : ∀ name ∈ i.columns, ValidName name) :
    Fixed .postgres ["CREATE ".toList, (if i.unique then "UNIQUE ".toList else []),
      "INDEX ".toList, named .postgres i.name, " ON ".toList, namedTable .postgres schema table,
      " (".toList, joinComma (i.columns.map (named .postgres)), ")".toList].flatten false := by
  have hcreate : Reads .postgres start .statement "CREATE ".toList [] start .other :=
    reads_of_readsTo rfl
  have hunique : Reads .postgres start .other (if i.unique then "UNIQUE ".toList else []) [] start
      .other := by
    cases i.unique
    · exact Reads.nil start .other
    · exact ⟨_, ⟨rfl, rfl⟩, rfl, ⟨rfl, rfl⟩⟩
  have hindex : Reads .postgres start .other "INDEX ".toList [] start .other :=
    reads_of_readsTo rfl
  have hon : Reads .postgres (behindName .postgres i.name) .other " ON ".toList [] start
      .other := reads_behindName rfl (reads_of_readsTo rfl)
  have hopen : Reads .postgres (behindName .postgres table) .other " (".toList [] start
      .other := reads_behindName rfl (reads_of_readsTo rfl)
  have hcomma : ∀ name, Reads .postgres (behindName .postgres name) .other ", ".toList [] start
      .other := fun name => ⟨_, ⟨rfl, rfl⟩, rfl, ⟨rfl, rfl⟩⟩
  obtain ⟨s, hs', hnames⟩ := reads_names .other hcomma hcolumns
  have hclose : Reads .postgres s .other ")".toList [] start .other := by
    rcases hs' with rfl | ⟨name, rfl⟩ <;> exact ⟨_, ⟨rfl, rfl⟩, rfl, ⟨rfl, rfl⟩⟩
  have hread := hcreate.cons (hunique.cons (hindex.cons ((reads_named hname _).cons (hon.cons
    ((reads_namedTable_other hs ht).cons (hopen.cons (hnames.cons hclose.last)))))))
  obtain ⟨hone, hdrops⟩ := hread.finish (ends_calm calm_start place_other) ⟨'C', _, rfl, rfl⟩
  exact ⟨hone, hdrops.trans (by simp)⟩

/-- The front of a statement that is written in one piece. -/
theorem reads_alterTable_list (hs : ValidName schema) (ht : ValidName table) {rest : List Text}
    {s : ReadState} {p : Place} (h : Reads d (behindName d table) .table rest.flatten [] s p) :
    Reads d start .statement ("ALTER TABLE ".toList :: namedTable d schema table :: rest).flatten
      [] s p := by
  have hfront : Reads d start .statement "ALTER TABLE ".toList [] start .table := by
    cases d <;> exact reads_of_readsTo rfl
  exact hfront.cons ((reads_namedTable hs ht).cons h)

/-- The statement that adds an index in MySQL. -/
theorem fixed_alterAddIndex {i : Index} (hs : ValidName schema) (ht : ValidName table)
    (hname : ValidName i.name) (hcolumns : ∀ name ∈ i.columns, ValidName name) :
    Fixed .mysql ["ALTER TABLE ".toList, namedTable .mysql schema table, " ADD ".toList,
      (if i.unique then "UNIQUE ".toList else []), "INDEX ".toList, named .mysql i.name,
      " (".toList, joinComma (i.columns.map (named .mysql)), ")".toList].flatten false := by
  have hadd : Reads .mysql (behindName .mysql table) .table " ADD ".toList [] start (.inside 0) :=
    reads_behindName rfl (reads_of_readsTo rfl)
  have hunique : Reads .mysql start (.inside 0) (if i.unique then "UNIQUE ".toList else []) []
      start (.inside 0) := by
    cases i.unique
    · exact Reads.nil start _
    · exact ⟨_, ⟨rfl, rfl⟩, rfl, ⟨rfl, rfl⟩⟩
  have hindex : Reads .mysql start (.inside 0) "INDEX ".toList [] start (.inside 0) :=
    reads_of_readsTo rfl
  have hopen : Reads .mysql (behindName .mysql i.name) (.inside 0) " (".toList [] start
      (.inside 1) := reads_behindName rfl (reads_of_readsTo rfl)
  obtain ⟨s, hs', hnames⟩ := reads_nameList (d := .mysql) hcolumns
  have hread := reads_alterTable_list hs ht (hadd.cons (hunique.cons (hindex.cons
    ((reads_named hname _).cons (hopen.cons (hnames.cons (reads_closing hs').last))))))
  obtain ⟨hone, hdrops⟩ := hread.finish (ends_calm calm_start (place_inside 0))
    ⟨'A', _, rfl, rfl⟩
  exact ⟨hone, hdrops.trans (by simp)⟩

theorem fixed_addIndex (hs : ValidName schema) (ht : ValidName table) {i : Index} {sql : Text}
    (h : addIndexSQL d (namedTable d schema table) i = .ok sql) : Fixed d sql false := by
  obtain ⟨hname, hcolumns, rfl⟩ := addIndexSQL_ok h
  cases d with
  | postgres => exact fixed_createIndex hs ht hname hcolumns
  | mysql => exact fixed_alterAddIndex hs ht hname hcolumns

/-- A referential action behind the columns or behind another one. -/
theorem reads_referentialAction {keyword value text : Text}
    (hkeyword : keyword = "ON DELETE".toList ∨ keyword = "ON UPDATE".toList)
    (h : referentialAction keyword value = .ok text) {s : ReadState} (hs : Calm s) :
    ∃ t, Calm t ∧ Reads d s (.inside 0) text [] t (.inside 0) := by
  rcases referentialAction_ok h with rfl | ⟨action, haction, rfl⟩
  · exact ⟨s, hs, Reads.nil s _⟩
  · have hactions : action = "CASCADE".toList ∨ action = "RESTRICT".toList ∨
        action = "SET NULL".toList ∨ action = "NO ACTION".toList := by
      simp only [referentialActions, List.map_cons, List.map_nil, List.mem_cons,
        List.not_mem_nil, or_false] at haction
      exact haction
    rcases hkeyword with rfl | rfl
    · rcases hactions with rfl | rfl | rfl | rfl <;> exact reads_words hs rfl rfl
    · rcases hactions with rfl | rfl | rfl | rfl <;> exact reads_words hs rfl rfl

/-- The statement that adds a foreign key. -/
theorem fixed_addForeignKey (hs : ValidName schema) (ht : ValidName table) {f : ForeignKey}
    {sql : Text} (h : foreignKeySQL d (namedTable d schema table) f = .ok sql) :
    Fixed d sql false := by
  obtain ⟨hname, hrefSchema, hrefTable, hcolumns, hrefs, onDelete, onUpdate, hdelete, hupdate,
    rfl⟩ := foreignKeySQL_ok h
  have hadd : Reads d (behindName d table) .table " ADD CONSTRAINT ".toList [] start
      (.inside 0) := by
    cases d <;> exact reads_behindName rfl (reads_of_readsTo rfl)
  have hkey : Reads d (behindName d f.name) (.inside 0) " FOREIGN KEY (".toList [] start
      (.inside 1) := by
    cases d <;> exact reads_behindName rfl (reads_of_readsTo rfl)
  obtain ⟨s, hs', hnames⟩ := reads_nameList (d := d) hcolumns
  have hreferences : Reads d s (.inside 1) ") REFERENCES ".toList [] start (.inside 0) := by
    have hword : Reads d start (.inside 0) " REFERENCES ".toList [] start (.inside 0) := by
      cases d <;> exact reads_of_readsTo rfl
    exact (reads_closing hs').append hword
  have hdot : Reads d (behindName d f.refSchema) (.inside 0) ['.'] [] start (.inside 0) := by
    cases d <;> exact ⟨_, ⟨rfl, rfl⟩, rfl, ⟨rfl, rfl⟩⟩
  have href : Reads d start (.inside 0) (namedTable d f.refSchema f.refTable) []
      (behindName d f.refTable) (.inside 0) :=
    (reads_named hrefSchema _).append (hdot.append (reads_named hrefTable _))
  have hopen : Reads d (behindName d f.refTable) (.inside 0) " (".toList [] start (.inside 1) := by
    cases d <;> exact reads_behindName rfl (reads_of_readsTo rfl)
  obtain ⟨r, hr, hrefNames⟩ := reads_nameList (d := d) hrefs
  obtain ⟨t, ht', hreadDelete⟩ := reads_referentialAction (d := d) (Or.inl rfl) hdelete calm_start
  obtain ⟨u, hu, hreadUpdate⟩ := reads_referentialAction (d := d) (Or.inr rfl) hupdate ht'
  have hactions := hrefNames.cons ((reads_closing hr).cons (hreadDelete.cons hreadUpdate.last))
  have hread := reads_alterTable_list hs ht (hadd.cons ((reads_named hname _).cons (hkey.cons
    (hnames.cons (hreferences.cons (href.cons (hopen.cons hactions)))))))
  obtain ⟨hone, hdrops⟩ := hread.finish (ends_calm hu (place_inside 0)) ⟨'A', _, rfl, rfl⟩
  exact ⟨hone, hdrops.trans (by simp)⟩

/-! ## Comments in PostgreSQL -/

/-- The front of a `COMMENT ON COLUMN`, up to the value. -/
theorem reads_commentOn (hs : ValidName schema) (ht : ValidName table) {name value : Text}
    (hname : ValidName name) {s : ReadState}
    (h : Reads d start .other value [] s .other) :
    Reads d start .statement (commentOn (namedTable d schema table) (named d name) value) [] s
      .other := by
  have hfront : Reads d start .statement "COMMENT ON COLUMN ".toList [] start .other := by
    cases d <;> exact reads_of_readsTo rfl
  have hdot : Reads d (behindName d table) .other ".".toList [] start .other := by
    cases d <;> exact ⟨_, ⟨rfl, rfl⟩, rfl, ⟨rfl, rfl⟩⟩
  have his : Reads d (behindName d name) .other " IS ".toList [] start .other := by
    cases d <;> exact reads_behindName rfl (reads_of_readsTo rfl)
  exact hfront.cons ((reads_namedTable_other hs ht).cons (hdot.cons
    ((reads_named hname _).cons (his.cons h.last))))

/-- In PostgreSQL the literal reads back to the comment. -/
theorem reads_literal (value : Text) :
    Reads .postgres start .other (sqlStringLiteral value) []
      (.closed '\'' false, .quoted '\'' value) .other := by
  rw [sqlStringLiteral_eq]
  exact reads_other (LexRules.run_quoted rfl rfl rfl value) rfl

theorem fixed_comment (hs : ValidName schema) (ht : ValidName table) {name : Text}
    (hname : ValidName name) (value : Text) :
    Fixed .postgres (commentOn (namedTable .postgres schema table) (named .postgres name)
        (sqlStringLiteral value)) false ∧
      ((Dialect.postgres.rules.tokens (commentOn (namedTable .postgres schema table)
        (named .postgres name) (sqlStringLiteral value))).getLast? =
          some (.quoted '\'' value)) := by
  have hread := reads_commentOn hs ht hname (reads_literal value)
  obtain ⟨hone, hdrops⟩ := hread.finish ⟨rfl, place_other⟩ ⟨'C', _, rfl, rfl⟩
  exact ⟨⟨hone, hdrops.trans (by simp)⟩, getLast?_tokens hread⟩

theorem fixed_noComment (hs : ValidName schema) (ht : ValidName table) {name : Text}
    (hname : ValidName name) :
    Fixed .postgres (commentOn (namedTable .postgres schema table) (named .postgres name)
      "NULL".toList) false := by
  have hvalue : Reads .postgres start .other "NULL".toList [] (.word false, .word "NULL".toList)
      .other := reads_of_readsTo rfl
  have hread := reads_commentOn hs ht hname hvalue
  obtain ⟨hone, hdrops⟩ := hread.finish ⟨rfl, place_other⟩ ⟨'C', _, rfl, rfl⟩
  exact ⟨hone, hdrops.trans (by simp)⟩

/-! ## Column definitions -/

theorem alterTable_append (name action rest : Text) :
    alterTable name [action ++ rest] = alterTable name [action] ++ rest := by
  unfold alterTable
  generalize "ALTER TABLE ".toList = front
  simp

theorem alterTable_pair (name action rest : Text) :
    alterTable name [action, rest] = alterTable name [action ++ rest] := by
  unfold alterTable
  generalize "ALTER TABLE ".toList = front
  simp

/-- An action that ends with the free text of a column. -/
theorem defines_alterTable (hs : ValidName schema) (ht : ValidName table) {head : Text}
    {s : ReadState} (hhead : Reads d start .named head [] s (.inside 0)) (hcalm : Calm s)
    (c : Column) :
    Defines d (alterTable (namedTable d schema table) [head ++ freeText d c]) c := by
  have hread := reads_alterTable hs ht hhead.last
  have hword := alterTable_head (namedTable d schema table) [head]
  have hfree := hread.free (c := c) hcalm hword
  rw [alterTable_append]
  exact ⟨hfree.1, hfree.2.1, hfree.2.2⟩

theorem defines_definition (hs : ValidName schema) (ht : ValidName table) {words : Text}
    (hwords : Reads d start .named words [] start (.inside 0)) {c : Column} {v : Text}
    (hv : columnDef d c = .ok v) :
    Defines d (alterTable (namedTable d schema table) [words, v]) c := by
  obtain ⟨hname, htype, rfl⟩ := columnDef_ok hv
  obtain ⟨s, hs', hhead⟩ := reads_definitionHead (d := d) hname htype
  have hdefines := defines_alterTable hs ht (hwords.append hhead) hs' c
  rw [List.append_assoc] at hdefines
  rw [alterTable_pair]
  exact hdefines

/-! ## The actions of an altered column in PostgreSQL -/

/-- The comma between two actions. -/
theorem reads_comma {s : ReadState} (hs : Calm s) :
    Reads d s (.inside 0) ", ".toList [] start .action := by
  have hcomma : Reads d s (.inside 0) [','] [] start .action := by
    refine ⟨_, run_symbol hs (by decide), ?_, ?_⟩
    · rw [List.any_append, not_harmful_of_staysInside (pending_staysInside s.2)]
      rfl
    · have hplace : (places d.dropsPartitions).Run (.inside 0) [.symbol ','] [] .action :=
        Scanner.Run.of_step rfl
      exact (places_inside (pending_staysInside s.2) 0).append hplace
  have hblank : Reads d start .action [' '] [] start .action :=
    ⟨_, run_blank calm_start, rfl, Scanner.Run.nil _⟩
  exact hcomma.append hblank

/-- An action on a column, with its words behind the name. -/
theorem reads_alterColumnAction {p : Place} (hp : p = .named ∨ p = .action) {name : Text}
    (hname : ValidName name) (words : Text) (hwords : words.all isTypePart = true)
    (hupper : toUpper words = words) :
    ∃ t, Calm t ∧
      Reads d start p ["ALTER COLUMN ".toList, named d name, ' ' :: words].flatten [] t
        (.inside 0) := by
  have hfront : Reads d start p "ALTER COLUMN ".toList [] start (.inside 0) := by
    rcases hp with rfl | rfl
    · cases d <;> exact reads_of_readsTo rfl
    · cases d <;> exact reads_of_readsTo rfl
  obtain ⟨t, ht, hread⟩ := reads_words (d := d) calm_start hwords hupper
  have hbehind : Reads d (behindName d name) (.inside 0) (' ' :: words) [] t (.inside 0) :=
    reads_behindName rfl hread
  exact ⟨t, ht, hfront.cons ((reads_named hname _).cons hbehind.last)⟩

theorem joinComma_three (x y z : Text) :
    joinComma [x, y, z] = x ++ (", ".toList ++ (y ++ (", ".toList ++ z))) := by
  have hlast : joinComma [z] = z := by simp [joinComma, List.intercalate]
  rw [joinComma_cons_cons, joinComma_cons_cons, hlast]

/-- What the actions write in front of the free text. -/
def actionsHead (n : Text) (c : Column) : Text :=
  ["ALTER COLUMN ".toList, n, " TYPE ".toList, toUpper c.type].flatten ++ (", ".toList ++
    (["ALTER COLUMN ".toList, n,
        if c.nullable then " DROP NOT NULL".toList else " SET NOT NULL".toList].flatten ++
      (", ".toList ++ ["ALTER COLUMN ".toList, n,
        if c.default.isNone then " DROP DEFAULT".toList else " SET".toList].flatten)))

theorem flatten_setDefault (n text : Text) :
    ["ALTER COLUMN ".toList, n, " SET DEFAULT ".toList, text].flatten =
      ["ALTER COLUMN ".toList, n, " SET".toList].flatten ++ (" DEFAULT ".toList ++ text) := by
  have hsplit : " SET DEFAULT ".toList = " SET".toList ++ " DEFAULT ".toList := by decide
  rw [hsplit]
  generalize "ALTER COLUMN ".toList = front
  generalize " SET".toList = set
  generalize " DEFAULT ".toList = default
  simp

theorem joinComma_alterActions (n : Text) (c : Column) :
    joinComma (alterActions n c) = actionsHead n c ++ freeText .postgres c := by
  unfold alterActions actionsHead freeText
  rw [joinComma_three]
  cases c.default with
  | none =>
    dsimp only
    rw [List.append_nil, List.append_nil]
    rfl
  | some text =>
    dsimp only
    rw [flatten_setDefault, List.append_nil, List.append_assoc, List.append_assoc,
      List.append_assoc, List.append_assoc]
    rfl

theorem reads_actionsHead {c : Column} (hname : ValidName c.name) (htype : ValidType c.type) :
    ∃ t, Calm t ∧
      Reads d start .named (actionsHead (named d c.name) c) [] t (.inside 0) := by
  have hfront : Reads d start .named "ALTER COLUMN ".toList [] start (.inside 0) := by
    cases d <;> exact reads_of_readsTo rfl
  have htypeWord : Reads d (behindName d c.name) (.inside 0) " TYPE ".toList [] start
      (.inside 0) := by
    cases d <;> exact reads_behindName rfl (reads_of_readsTo rfl)
  obtain ⟨s, hs, hread⟩ := readsCalmly_type d htype start calm_start
  have hfirst := hfront.cons ((reads_named hname _).cons (htypeWord.cons hread.last))
  obtain ⟨r, hr, hsecond⟩ : ∃ r, Calm r ∧ Reads d start .action
      ["ALTER COLUMN ".toList, named d c.name,
        if c.nullable then " DROP NOT NULL".toList else " SET NOT NULL".toList].flatten [] r
      (.inside 0) := by
    split_ifs
    · exact reads_alterColumnAction (Or.inr rfl) hname "DROP NOT NULL".toList rfl rfl
    · exact reads_alterColumnAction (Or.inr rfl) hname "SET NOT NULL".toList rfl rfl
  obtain ⟨t, ht, hthird⟩ : ∃ t, Calm t ∧ Reads d start .action
      ["ALTER COLUMN ".toList, named d c.name,
        if c.default.isNone then " DROP DEFAULT".toList else " SET".toList].flatten [] t
      (.inside 0) := by
    split_ifs
    · exact reads_alterColumnAction (Or.inr rfl) hname "DROP DEFAULT".toList rfl rfl
    · exact reads_alterColumnAction (Or.inr rfl) hname "SET".toList rfl rfl
  exact ⟨t, ht, hfirst.append ((reads_comma hs).append (hsecond.append
    ((reads_comma hr).append hthird)))⟩

/-- The statement that alters a column in PostgreSQL. -/
theorem defines_actions (hs : ValidName schema) (ht : ValidName table) {c : Column}
    (hname : ValidName c.name) (htype : ValidType c.type) :
    Defines .postgres (alterTable (namedTable .postgres schema table)
      [joinComma (alterActions (named .postgres c.name) c)]) c := by
  rw [joinComma_alterActions]
  obtain ⟨t, ht', hread⟩ := reads_actionsHead (d := .postgres) hname htype
  exact defines_alterTable hs ht hread ht' c

end

end Workbench.Schema
