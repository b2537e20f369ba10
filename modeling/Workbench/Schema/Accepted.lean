import Workbench.Schema.Generate

/-!
# What an accepted request says

Inversion lemmas: from a successful answer of a function of the generator, the checks that its
arguments passed and the text it wrote.
-/

set_option autoImplicit false

namespace Workbench.Schema

open Workbench.Lib

/-! ## Names -/

/-- The name passes `identRE`. -/
def ValidName (name : Text) : Prop := Matcher.fullMatch identRE name = true

/-- The type passes `typeRE`. -/
def ValidType (type : Text) : Prop := Matcher.fullMatch typeRE type = true

/-- A name between its marks. -/
def named (d : Dialect) (name : Text) : Text := nameMark d :: (name ++ [nameMark d])

/-- A table with its schema. -/
def namedTable (d : Dialect) (schema table : Text) : Text := named d schema ++ '.' :: named d table

theorem quote_ok {d : Dialect} {name quoted : Text} (h : quote d name = .ok quoted) :
    ValidName name ∧ quoted = named d name := by
  unfold quote at h
  split_ifs at h with hname
  exact ⟨hname, (Except.ok.inj h).symm⟩

theorem quote_of_valid {d : Dialect} {name : Text} (h : ValidName name) :
    quote d name = .ok (named d name) := by
  unfold ValidName at h
  rw [quote, if_pos h]
  rfl

theorem qualified_ok {d : Dialect} {schema table text : Text}
    (h : qualified d schema table = .ok text) :
    ValidName schema ∧ ValidName table ∧ text = namedTable d schema table := by
  simp only [qualified, bind_eq_ok] at h
  obtain ⟨a, ha, b, hb, heq⟩ := h
  obtain ⟨hschema, rfl⟩ := quote_ok ha
  obtain ⟨htable, rfl⟩ := quote_ok hb
  exact ⟨hschema, htable, (Except.ok.inj heq).symm⟩

theorem quoteAll_ok {d : Dialect} {names quoted : List Text} (h : quoteAll d names = .ok quoted) :
    (∀ name ∈ names, ValidName name) ∧ quoted = names.map (named d) := by
  induction names generalizing quoted with
  | nil =>
    rw [← Except.ok.inj h]
    exact ⟨by simp, rfl⟩
  | cons name rest ih =>
    simp only [quoteAll, bind_eq_ok] at h
    obtain ⟨a, ha, more, hmore, heq⟩ := h
    obtain ⟨hname, rfl⟩ := quote_ok ha
    obtain ⟨hrest, rfl⟩ := ih hmore
    rw [← Except.ok.inj heq]
    refine ⟨fun n hn => ?_, rfl⟩
    rcases List.mem_cons.1 hn with rfl | hn
    · exact hname
    · exact hrest n hn

/-! ## Definitions of columns -/

/-- The text that a column definition takes over as it is: the default, and in MySQL the comment
behind it. -/
def freeText (d : Dialect) (c : Column) : Text :=
  (match c.default with
    | none => []
    | some text => " DEFAULT ".toList ++ text) ++
  (match d with
    | .postgres => []
    | .mysql => " COMMENT ".toList ++ sqlStringLiteral c.comment)

def nullText (c : Column) : Text := if c.nullable then [] else " NOT NULL".toList

/-- What a column definition writes in front of the free text. -/
def definitionHead (d : Dialect) (c : Column) : Text :=
  named d c.name ++ ' ' :: (toUpper c.type ++ nullText c)

theorem columnDef_ok {d : Dialect} {c : Column} {v : Text} (h : columnDef d c = .ok v) :
    ValidName c.name ∧ ValidType c.type ∧ v = definitionHead d c ++ freeText d c := by
  simp only [columnDef, bind_eq_ok, guard_eq_ok] at h
  obtain ⟨n, hn, htype, hv⟩ := h
  obtain ⟨hname, rfl⟩ := quote_ok hn
  refine ⟨hname, by simpa [ValidType] using htype, ?_⟩
  have hhead : (if (!c.nullable) = true then named d c.name ++ ' ' :: toUpper c.type ++
      " NOT NULL".toList else named d c.name ++ ' ' :: toUpper c.type) = definitionHead d c := by
    cases hnull : c.nullable <;> simp [definitionHead, nullText, hnull]
  rw [hhead] at hv
  -- the error of a rejected default ends the function, so the text behind it is `w`
  have hbehind : ∃ w, w = definitionHead d c ++ (match c.default with
      | none => []
      | some text => " DEFAULT ".toList ++ text) ∧
      (match d with
        | .postgres => (Except.ok w : Except GenerateError Text)
        | .mysql =>
          if hasForbidden c.comment then .error .invalidComment
          else .ok (w ++ " COMMENT ".toList ++ sqlStringLiteral c.comment)) = .ok v := by
    cases hdefault : c.default with
    | none =>
      rw [hdefault] at hv
      exact ⟨_, (List.append_nil _).symm, hv⟩
    | some text =>
      rw [hdefault] at hv
      dsimp only at hv
      by_cases hforbidden : hasForbidden text = true
      · rw [if_pos hforbidden] at hv
        exact absurd hv (by simp [bind, Except.bind])
      · rw [if_neg hforbidden] at hv
        exact ⟨_, List.append_assoc _ _ _, hv⟩
  obtain ⟨w, hw, hv⟩ := hbehind
  cases d with
  | postgres => rw [← Except.ok.inj hv, hw, freeText, List.append_nil]
  | mysql =>
    simp only [guard_eq_ok] at hv
    rw [← Except.ok.inj hv.2, hw, freeText]
    simp only [List.append_assoc]

/-! ## Indexes and foreign keys -/

/-- The statement that adds an index. -/
def indexText (d : Dialect) (table : Text) (i : Index) : Text :=
  match d with
  | .postgres =>
    ["CREATE ".toList, (if i.unique then "UNIQUE ".toList else []), "INDEX ".toList,
      named .postgres i.name, " ON ".toList, table, " (".toList,
      joinComma (i.columns.map (named .postgres)), ")".toList].flatten
  | .mysql =>
    ["ALTER TABLE ".toList, table, " ADD ".toList, (if i.unique then "UNIQUE ".toList else []),
      "INDEX ".toList, named .mysql i.name, " (".toList,
      joinComma (i.columns.map (named .mysql)), ")".toList].flatten

theorem addIndexSQL_ok {d : Dialect} {table sql : Text} {i : Index}
    (h : addIndexSQL d table i = .ok sql) :
    ValidName i.name ∧ (∀ name ∈ i.columns, ValidName name) ∧ sql = indexText d table i := by
  simp only [addIndexSQL, bind_eq_ok] at h
  obtain ⟨n, hn, cols, hcols, hsql⟩ := h
  obtain ⟨hname, rfl⟩ := quote_ok hn
  obtain ⟨hcolumns, rfl⟩ := quoteAll_ok hcols
  refine ⟨hname, hcolumns, ?_⟩
  cases d with
  | postgres => exact (Except.ok.inj hsql).symm
  | mysql => exact (Except.ok.inj hsql).symm

theorem referentialAction_ok {keyword value text : Text}
    (h : referentialAction keyword value = .ok text) :
    text = [] ∨ ∃ action ∈ referentialActions, text = ' ' :: (keyword ++ ' ' :: action) := by
  unfold referentialAction at h
  split_ifs at h with hempty hmem
  · exact Or.inl (Except.ok.inj h).symm
  · exact Or.inr ⟨_, by simpa using hmem, (Except.ok.inj h).symm⟩

theorem foreignKeySQL_ok {d : Dialect} {table sql : Text} {f : ForeignKey}
    (h : foreignKeySQL d table f = .ok sql) :
    ValidName f.name ∧ ValidName f.refSchema ∧ ValidName f.refTable ∧
      (∀ name ∈ f.columns, ValidName name) ∧ (∀ name ∈ f.refColumns, ValidName name) ∧
      ∃ onDelete onUpdate, referentialAction "ON DELETE".toList f.onDelete = .ok onDelete ∧
        referentialAction "ON UPDATE".toList f.onUpdate = .ok onUpdate ∧
        sql = ["ALTER TABLE ".toList, table, " ADD CONSTRAINT ".toList, named d f.name,
          " FOREIGN KEY (".toList, joinComma (f.columns.map (named d)), ") REFERENCES ".toList,
          namedTable d f.refSchema f.refTable, " (".toList,
          joinComma (f.refColumns.map (named d)), ")".toList, onDelete, onUpdate].flatten := by
  simp only [foreignKeySQL, bind_eq_ok, guard_eq_ok] at h
  obtain ⟨n, hn, ref, href, cols, hcols, refs, hrefs, -, onDelete, hdelete, onUpdate, hupdate,
    hsql⟩ := h
  obtain ⟨hname, rfl⟩ := quote_ok hn
  obtain ⟨hschema, htable, rfl⟩ := qualified_ok href
  obtain ⟨hcolumns, rfl⟩ := quoteAll_ok hcols
  obtain ⟨hreferences, rfl⟩ := quoteAll_ok hrefs
  exact ⟨hname, hschema, htable, hcolumns, hreferences, onDelete, onUpdate, hdelete, hupdate,
    (Except.ok.inj hsql).symm⟩

/-! ## Whole requests -/

/-- The operations and what each of them appended. -/
theorem generateOperations_ok {d : Dialect} {table tableName : Text} {ops : List Operation}
    {out : Output} (h : generateOperations d table tableName ops = .ok out) :
    ∃ outs, List.Forall₂ (fun op o => generateOperation d table tableName op = .ok o) ops outs ∧
      out.statements = outs.flatMap Output.statements ∧ out.risks = outs.flatMap Output.risks := by
  induction ops generalizing out with
  | nil =>
    rw [← Except.ok.inj h]
    exact ⟨[], List.Forall₂.nil, rfl, rfl⟩
  | cons op rest ih =>
    simp only [generateOperations, bind_eq_ok] at h
    obtain ⟨o, ho, more, hmore, heq⟩ := h
    obtain ⟨outs, hall, hstatements, hrisks⟩ := ih hmore
    rw [← Except.ok.inj heq]
    refine ⟨o :: outs, List.Forall₂.cons ho hall, ?_, ?_⟩
    · rw [Output.append, hstatements, List.flatMap_cons]
    · rw [Output.append, hrisks, List.flatMap_cons]

/-- **An accepted request: its names are valid and each operation appended its output.** -/
theorem generate_ok {d : Dialect} {schema table : Text} {ops : List Operation} {p : Preview}
    (h : generate d.name schema table ops = .ok p) :
    ValidName schema ∧ ValidName table ∧
      ∃ outs, List.Forall₂
          (fun op o => generateOperation d (namedTable d schema table) table op = .ok o) ops outs ∧
        p.statements = outs.flatMap Output.statements ∧ p.risks = outs.flatMap Output.risks := by
  rw [generate, Dialect.parse_name] at h
  simp only [bind_eq_ok] at h
  obtain ⟨text, htext, out, hout, heq⟩ := h
  obtain ⟨hschema, htable, rfl⟩ := qualified_ok htext
  obtain ⟨outs, hall, hstatements, hrisks⟩ := generateOperations_ok hout
  rw [← Except.ok.inj heq]
  exact ⟨hschema, htable, outs, hall, hstatements, hrisks⟩

/-! ### Requests of one operation -/

section

variable {d : Dialect} {schema table : Text} {op : Operation}

theorem generate_one_ok {p : Preview} (h : generate d.name schema table [op] = .ok p) :
    ValidName schema ∧ ValidName table ∧
      ∃ out, generateOperation d (namedTable d schema table) table op = .ok out ∧ p.statements = out.statements := by
  obtain ⟨hschema, htable, outs, houts, hstatements, -⟩ := generate_ok h
  cases houts with
  | cons hop hrest =>
    cases hrest
    refine ⟨hschema, htable, _, hop, ?_⟩
    rw [hstatements, List.flatMap_singleton]

theorem exists_generate_one {out : Output} (hschema : ValidName schema) (htable : ValidName table)
    (hout : generateOperation d (namedTable d schema table) table op = .ok out) :
    ∃ p, generate d.name schema table [op] = .ok p := by
  have hqualified : qualified d schema table = .ok (namedTable d schema table) := by
    rw [qualified, quote_of_valid hschema, quote_of_valid htable]
    rfl
  have hops : generateOperations d (namedTable d schema table) table [op] = .ok (out.append ⟨[], []⟩) := by
    rw [generateOperations, hout]
    rfl
  rw [generate, Dialect.parse_name]
  simp only [hqualified]
  show ∃ p, (generateOperations d (namedTable d schema table) table [op] >>= _) = Except.ok p
  rw [hops]
  exact ⟨_, rfl⟩

end

end Workbench.Schema
