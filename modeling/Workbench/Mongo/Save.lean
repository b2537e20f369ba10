import Workbench.Mongo.Mutation

/-!
# Saving a document as it is shown

`Find` of `api/internal/mongo/service.go` shows a page of documents as rows of cells. `MongoDocumentView.tsx` puts
the cells of the selected row together again and sends them, unless they are edited, back with the key `_id` as the
filter.
-/

set_option autoImplicit false

namespace Workbench.Mongo

open Workbench.Lib

structure FindResult where
  columns : List Text
  rows : List (List Bson)

section

variable (codec : Codec)

/-- `Find`, from the documents of the page. A document without a column shows nil there. -/
def find (page : List Doc) : FindResult :=
  let flatDocs := flattenDocuments codec page
  let columns := collectColumns codec flatDocs
  ⟨columns, flatDocs.map fun doc => columns.map (cellOf doc)⟩

/-- The rows that arrive at the browser, if the response can be written. -/
def shownRows (result : FindResult) : Option (List (List Json)) := result.rows.mapM (elementsToJson codec)

/-- `Object.fromEntries` of the columns and a row. -/
def selectedDoc (columns : List Text) (row : List Json) : List (Text × Json) := columns.zip row

/-- `{_id: selectedDoc._id}` as `JSON.stringify` writes it, which leaves out what is `undefined`. -/
def idFilter (selected : List (Text × Json)) : Json :=
  .object ((selected.lookup "_id".toList).toList.map fun j => ("_id".toList, j))

/-- The request of the save button, with the text of the document as it was shown. -/
def saveRequest (collection : Text) (selected : List (Text × Json)) : DocumentMutation where
  collection := collection
  operation := "replace".toList
  filter := some (idFilter selected)
  document := some (.object selected)

/-- The collection after a save. -/
def save (server : Server) (collection : Text) (selected : List (Text × Json)) (docs : List Doc) : List Doc :=
  (mutateDocument codec server (saveRequest collection selected) docs).2

end

/-! ## Documents that stay -/

/-- The order in which the fields of a document that is written stand: the server puts `_id` in front. -/
def documentOrder (codec : Codec) : MapOrder Text :=
  (codec.writeOrder [.field "document".toList]).withFirst "_id".toList

/-- What is stored for the field `name` when the value `v` was shown for it. -/
def storedField (codec : Codec) (name : Text) (v : Bson) : Option Bson :=
  stored codec ((codec.writeOrder.below (.field "document".toList)).below (.field name)) v

section

variable {codec : Codec}

theorem mem_fieldsOf {doc : Doc} {name : Text} {v : Bson} : (name, v) ∈ fieldsOf doc ↔ doc.lookup name = some v := by
  have hmem : (⟨name, v⟩ : Sigma fun _ : Text => Bson) ∈ doc.entries ↔ doc.lookup name = some v :=
    AList.mem_lookup_iff.symm
  rw [← hmem, fieldsOf, List.mem_map]
  constructor
  · rintro ⟨e, he, heq⟩
    obtain ⟨rfl, rfl⟩ := Prod.mk.inj heq
    exact he
  · intro he
    exact ⟨_, he, rfl⟩

theorem nodup_fieldsOf (doc : Doc) : ((fieldsOf doc).map Prod.fst).Nodup := by
  rw [fieldsOf, List.map_map]
  exact doc.keys_nodup

/-- Two documents whose fields stand in one order are the same if they have the same fields. -/
theorem eq_of_lookup {order : MapOrder Text} {a b : Doc} (ha : (fieldsOf a).Pairwise order.Before)
    (hb : (fieldsOf b).Pairwise order.Before) (h : ∀ name, a.lookup name = b.lookup name) : a = b := by
  have hperm : (fieldsOf a).Perm (fieldsOf b) := by
    refine (List.perm_ext_iff_of_nodup (nodup_fieldsOf a).of_map (nodup_fieldsOf b).of_map).2 ?_
    rintro ⟨name, v⟩
    rw [mem_fieldsOf, mem_fieldsOf, h]
  have hsame : fieldsOf a = fieldsOf b :=
    ((order.arranged_eq_iff (nodup_fieldsOf a)).2 ⟨List.Perm.refl _, ha⟩).symm.trans
      ((order.arranged_eq_iff (nodup_fieldsOf a)).2 ⟨hperm, hb⟩)
  refine AList.ext (List.map_injective_iff.2 ?_ hsame)
  rintro ⟨name, v⟩ ⟨name', v'⟩ heq
  obtain ⟨rfl, rfl⟩ := Prod.mk.inj heq
  rfl

theorem lookup_sent (orders : Orders) (doc : Doc) (name : Text) :
    (sent orders doc).lookup name = (doc.lookup name).map (written (orders.below (.field name))) := by
  have hnodup : ((writtenFields orders (fieldsOf doc)).map Prod.fst).Nodup := by
    rw [writtenFields_of_nodup orders (nodup_fieldsOf doc), List.map_map]
    exact nodup_fieldsOf doc
  refine Option.ext fun v => ?_
  rw [sent, MapOrder.lookup_table, lookup_docOf hnodup, writtenFields_of_nodup orders (nodup_fieldsOf doc), List.mem_map,
    Option.map_eq_some_iff]
  constructor
  · rintro ⟨⟨key, w⟩, hw, heq⟩
    obtain ⟨rfl, rfl⟩ := Prod.mk.inj heq
    exact ⟨w, mem_fieldsOf.1 hw, rfl⟩
  · rintro ⟨w, hw, rfl⟩
    exact ⟨(name, w), mem_fieldsOf.2 hw, rfl⟩

theorem lookup_withId (replacement doc : Doc) (key : Text) : (withId replacement doc).lookup key =
    (replacement.lookup key).or (if key = "_id".toList then doc.lookup key else none) := by
  by_cases hkey : key = "_id".toList
  · subst hkey
    rw [if_pos rfl, withId]
    cases hid : (replacement.lookup "_id".toList).or (doc.lookup "_id".toList) with
    | none => exact (Option.or_eq_none_iff.1 hid).1
    | some id => exact AList.lookup_insert replacement
  · rw [if_neg hkey, Option.or_none, withId]
    split
    · exact AList.lookup_insert_ne hkey
    · rfl

/-- The fields of a replacement stand as the run comes to them, behind `_id`. -/
theorem pairwise_withId (replacement doc : Doc) :
    (fieldsOf (withId (sentDocument codec replacement) doc)).Pairwise (documentOrder codec).Before := by
  have hsent : (fieldsOf (sentDocument codec replacement)).Pairwise
      (codec.writeOrder [.field "document".toList]).Before := by
    rw [fieldsOf, sentDocument, sent, MapOrder.entries_table]
    exact MapOrder.pairwise_arranged _ _
  -- Without `_id` the order is that of the run.
  have hrest : ∀ fields : List (Text × Bson), fields.Sublist (fieldsOf (sentDocument codec replacement)) →
      (∀ field ∈ fields, field.1 ≠ "_id".toList) → fields.Pairwise (documentOrder codec).Before := by
    intro fields hsub hnames
    refine (hsent.sublist hsub).imp_of_mem ?_
    intro a b _ hb hab
    refine Bool.or_eq_true_iff.2 (Or.inr (Bool.and_eq_true_iff.2 ⟨?_, hab⟩))
    exact decide_eq_true (hnames b hb)
  rw [withId]
  split
  next id =>
    rw [fieldsOf, AList.entries_insert, List.map_cons, List.pairwise_cons]
    refine ⟨fun field _ => by simp [MapOrder.Before, documentOrder, MapOrder.withFirst], hrest _ ?_ ?_⟩
    · exact (List.kerase_sublist _ _).map _
    · intro field hfield heq
      obtain ⟨e, he, rfl⟩ := List.mem_map.1 hfield
      exact List.notMem_keys_kerase _ (sentDocument codec replacement).nodupKeys
        (heq ▸ List.mem_keys_of_mem he)
  next hnone =>
    refine hrest _ (List.Sublist.refl _) fun field hfield heq => ?_
    have hlookup := mem_fieldsOf.1 hfield
    rw [heq] at hlookup
    rw [hlookup, Option.some_or] at hnone
    cases hnone

/-- A replacement leaves a document as it is if all of its fields are stored as they were, in the order they had. -/
theorem withId_eq_iff (replacement found : Doc) : withId (sentDocument codec replacement) found = found ↔
    (∀ name, (withId (sentDocument codec replacement) found).lookup name = found.lookup name) ∧
      (fieldsOf found).Pairwise (documentOrder codec).Before := by
  constructor
  · intro h
    refine ⟨fun name => by rw [h], ?_⟩
    have hpairwise := @pairwise_withId codec replacement found
    rwa [h] at hpairwise
  · rintro ⟨hlookup, hordered⟩
    exact eq_of_lookup (pairwise_withId replacement found) hordered hlookup

end

/-! ## The replacement -/

section

variable {codec : Codec} {server : Server}

theorem replaceOne_none {filter replacement : Doc} {docs : List Doc}
    (hfind : docs.find? (server.matching filter) = none) :
    replaceOne server filter replacement docs = .ok (docs, none) := changeFirst_none hfind

theorem replaceOne_refused {filter replacement found : Doc} {docs : List Doc} {e : Text}
    (hfind : docs.find? (server.matching filter) = some found)
    (hrefused : server.refused replacement found = some e) :
    replaceOne server filter replacement docs = .error e := by
  obtain ⟨front, back, -, hchange⟩ := changeFirst_some hfind
  rw [replaceOne, hchange, hrefused]
  rfl

theorem replaceOne_accepted (replacement : Doc) {filter found : Doc} {docs : List Doc}
    (hfind : docs.find? (server.matching filter) = some found)
    (hrefused : server.refused replacement found = none) : ∃ front back, docs = front ++ found :: back ∧
      replaceOne server filter replacement docs = .ok (front ++ ([withId replacement found] ++ back), some ()) := by
  obtain ⟨front, back, hdocs, hchange⟩ := changeFirst_some hfind
  refine ⟨front, back, hdocs, ?_⟩
  rw [replaceOne, hchange, hrefused]
  rfl

/-- What a replace leaves: the first document that matches is the one that changes. -/
theorem unchanged_replace_iff (req : DocumentMutation) (hcollection : req.collection ≠ [])
    (hreplace : req.operation = "replace".toList) (docs : List Doc) :
    (mutateDocument codec server req docs).2 = docs ↔
      ∀ filter, rawToBSON codec req.filter = .ok filter →
        ∀ replacement, rawToBSON codec req.document = .ok replacement → ∀ found,
          docs.find? (server.matching (sentFilter codec filter)) = some found →
          server.refused (sentDocument codec replacement) found = none →
          withId (sentDocument codec replacement) found = found := by
  have hinsert : "replace".toList ≠ "insert".toList := by decide
  have hupdate : "replace".toList ≠ "update".toList := by decide
  rw [mutateDocument, if_neg hcollection, hreplace, if_neg hinsert, if_neg hupdate, if_pos rfl]
  cases hfilter : rawToBSON codec req.filter with
  | error e => simp
  | ok filter =>
    cases hdocument : rawToBSON codec req.document with
    | error e => simp
    | ok replacement =>
      simp only [Except.ok.injEq, forall_eq']
      cases hfind : docs.find? (server.matching (sentFilter codec filter)) with
      | none => simp [replaceOne_none hfind]
      | some found =>
        simp only [Option.some.injEq, forall_eq']
        cases hrefused : server.refused (sentDocument codec replacement) found with
        | some e => simp [replaceOne_refused hfind hrefused]
        | none =>
          obtain ⟨front, back, hdocs, hresult⟩ := replaceOne_accepted _ hfind hrefused
          rw [hresult, hdocs]
          simp

end

/-! ## What a row comes back as -/

section

variable {codec : Codec}

theorem length_elementsToJson {elements : List Bson} {js : List Json} (h : elementsToJson codec elements = some js) :
    js.length = elements.length := by
  induction elements generalizing js with
  | nil =>
    cases h
    rfl
  | cons v rest ih =>
    rw [elementsToJson] at h
    obtain ⟨j, -, hrest⟩ := Option.bind_eq_some_iff.1 h
    obtain ⟨more, hmore, rfl⟩ := Option.map_eq_some_iff.1 hrest
    rw [List.length_cons, List.length_cons, ih hmore]

/-- The row of the page that shows a document. -/
theorem row_of_shownRows {l : List (List Bson)} {rows : List (List Json)}
    (hshown : l.mapM (elementsToJson codec) = some rows) {i : Nat} {cells : List Bson} {row : List Json}
    (hcells : l[i]? = some cells) (hrow : rows[i]? = some row) : elementsToJson codec cells = some row := by
  induction l generalizing rows i with
  | nil => cases hcells
  | cons first rest ih =>
    rw [List.mapM_cons] at hshown
    obtain ⟨js, hjs, hrest⟩ := Option.bind_eq_some_iff.1 hshown
    obtain ⟨more, hmore, hrows⟩ := Option.bind_eq_some_iff.1 hrest
    cases hrows
    cases i with
    | zero =>
      cases hcells
      cases hrow
      exact hjs
    | succ i => exact ih hmore hcells hrow

/-- The fields of a row that is read back have the names of the columns and the values of the cells. -/
theorem fields_of_row {names : List Text} {cell : Text → Bson} {row : List Json} {fields : List (Text × Bson)}
    (hrow : elementsToJson codec (names.map cell) = some row)
    (hfields : fieldsFromJson codec (names.zip row) = some fields) :
    fields.map Prod.fst = names ∧ ∀ field ∈ fields, back codec (cell field.1) = some field.2 := by
  induction names generalizing row fields with
  | nil =>
    cases hrow
    cases hfields
    exact ⟨rfl, fun field hfield => absurd hfield List.not_mem_nil⟩
  | cons name rest ih =>
    rw [List.map_cons, elementsToJson] at hrow
    obtain ⟨j, hj, hrest⟩ := Option.bind_eq_some_iff.1 hrow
    obtain ⟨more, hmore, rfl⟩ := Option.map_eq_some_iff.1 hrest
    rw [List.zip_cons_cons, fieldsFromJson] at hfields
    obtain ⟨v, hv, hrest⟩ := Option.bind_eq_some_iff.1 hfields
    obtain ⟨others, hothers, rfl⟩ := Option.map_eq_some_iff.1 hrest
    obtain ⟨hnames, hback⟩ := ih hmore hothers
    refine ⟨by rw [List.map_cons, hnames], ?_⟩
    rw [List.forall_mem_cons]
    refine ⟨?_, hback⟩
    rw [back, hj, Option.bind_some, hv]

/-- The fields of the document that a row is sent back as. -/
theorem lookup_of_row {names : List Text} (hnodup : names.Nodup) {cell : Text → Bson} {row : List Json}
    {fields : List (Text × Bson)} (hrow : elementsToJson codec (names.map cell) = some row)
    (hfields : fieldsFromJson codec (names.zip row) = some fields) {name : Text} {v : Bson} :
    (sentDocument codec (docOf fields)).lookup name = some v ↔
      name ∈ names ∧ storedField codec name (cell name) = some v := by
  obtain ⟨hnames, hback⟩ := fields_of_row hrow hfields
  rw [← hnames] at hnodup
  rw [sentDocument, lookup_sent, ← hnames, storedField, stored, Option.map_eq_some_iff, Option.map_eq_some_iff]
  simp only [lookup_docOf hnodup]
  constructor
  · rintro ⟨w, hmem, hw⟩
    exact ⟨List.mem_map.2 ⟨_, hmem, rfl⟩, w, hback _ hmem, hw⟩
  · rintro ⟨hname, w, hv, hw⟩
    obtain ⟨field, hmem, rfl⟩ := List.mem_map.1 hname
    have hsame := (hback field hmem).symm.trans hv
    rw [Option.some.injEq] at hsame
    exact ⟨w, hsame ▸ hmem, hw⟩

/-- Each column of a row that is sent back has a value. -/
theorem stored_of_row {names : List Text} {cell : Text → Bson} {row : List Json} {fields : List (Text × Bson)}
    (hrow : elementsToJson codec (names.map cell) = some row)
    (hfields : fieldsFromJson codec (names.zip row) = some fields) {name : Text} (hname : name ∈ names) :
    ∃ v, storedField codec name (cell name) = some v := by
  obtain ⟨hnames, hback⟩ := fields_of_row hrow hfields
  rw [← hnames] at hname
  obtain ⟨field, hmem, rfl⟩ := List.mem_map.1 hname
  refine ⟨_, Option.map_eq_some_iff.2 ⟨field.2, hback field hmem, rfl⟩⟩

end

/-! ## When nothing is lost -/

/-- What the page shows for the document at `i` in a column. -/
def shownCell (codec : Codec) (i : Nat) (sel : Doc) (name : Text) : Bson := cellOf (flattenDocument codec i sel) name

/-- The cells of `sel` are stored as the fields of the document `found`, all of them up to `_id`, and these stand in the
order of the run. -/
structure Shows (codec : Codec) (page : List Doc) (i : Nat) (sel found : Doc) : Prop where
  cells : ∀ name ∈ (find codec page).columns, ∃ v, found.lookup name = some v ∧
    storedField codec name (shownCell codec i sel name) = some v
  complete : ∀ name v, found.lookup name = some v → name ∈ (find codec page).columns ∨ name = "_id".toList
  ordered : (fieldsOf found).Pairwise (documentOrder codec).Before

/-- The document `sel` is shown without a loss: it is flat, its values come back and are stored as they were, it has
every field that a document of the page shows, and its fields stand in the order of the run. -/
structure Lossless (codec : Codec) (page : List Doc) (sel : Doc) : Prop where
  named : ∀ field ∈ fieldsOf sel, field.1 ≠ []
  flat : ∀ field ∈ fieldsOf sel, ¬field.2.IsDocument
  kept : ∀ field ∈ fieldsOf sel,
    Kept codec ((codec.writeOrder.below (.field "document".toList)).below (.field field.1)) field.2
  filled : ∀ name ∈ (find codec page).columns, name ∈ (fieldsOf sel).map Prod.fst
  ordered : (fieldsOf sel).Pairwise (documentOrder codec).Before

section

variable {codec : Codec} {page : List Doc} {i : Nat} {sel : Doc}

theorem mem_columns {name : Text} : name ∈ (find codec page).columns ↔
    ∃ i doc, page[i]? = some doc ∧ name ∈ (flattenDocument codec i doc).map Prod.fst := by
  rw [find, mem_collectColumns, flattenDocuments]
  simp only [List.mem_mapIdx, List.getElem?_eq_some_iff]
  constructor
  · rintro ⟨flat, ⟨i, hi, rfl⟩, hname⟩
    exact ⟨i, _, ⟨hi, rfl⟩, hname⟩
  · rintro ⟨i, doc, ⟨hi, rfl⟩, hname⟩
    exact ⟨_, ⟨i, hi, rfl⟩, hname⟩

theorem nodup_columns (codec : Codec) (page : List Doc) : (find codec page).columns.Nodup := nodup_collectColumns _

/-- No column has an empty name. -/
theorem ne_nil_of_mem_columns {name : Text} (h : name ∈ (find codec page).columns) : name ≠ [] := by
  obtain ⟨i, doc, -, hname⟩ := mem_columns.1 h
  obtain ⟨entry, hentry, rfl⟩ := List.mem_map.1 hname
  exact ne_nil_of_mem_flattenFields [] _ entry hentry

/-- The map that a document of the page is read into, as the loop comes to it. -/
def mapAt (codec : Codec) (i : Nat) (doc : Doc) : List (Text × Bson) :=
  ((codec.readOrder.below (.element i)) []).arranged (visitedFields (codec.readOrder.below (.element i)) (fieldsOf doc))

theorem isDocument_visited (orders : Orders) (v : Bson) : (visited orders v).IsDocument ↔ v.IsDocument := by
  cases v with
  | document fields => exact iff_of_true ⟨_, rfl⟩ ⟨_, rfl⟩
  | _ => exact Iff.rfl

theorem visited_leaf {orders : Orders} {v : Bson} (h : ¬v.IsDocument) : visited orders v = v := by
  cases v with
  | document fields => exact absurd ⟨fields, rfl⟩ h
  | _ => rfl

/-- The fields of the map are those of the document, each as the loop comes to it. -/
theorem mem_mapAt {name : Text} {v : Bson} : (name, v) ∈ mapAt codec i sel ↔
    ∃ w, (name, w) ∈ fieldsOf sel ∧
      visited ((codec.readOrder.below (.element i)).below (.field name)) w = v := by
  rw [mapAt, MapOrder.mem_arranged, visitedFields_of_nodup _ (nodup_fieldsOf sel), List.mem_map]
  constructor
  · rintro ⟨⟨key, w⟩, hw, heq⟩
    obtain ⟨rfl, rfl⟩ := Prod.mk.inj heq
    exact ⟨w, hw, rfl⟩
  · rintro ⟨w, hw, rfl⟩
    exact ⟨(name, w), hw, rfl⟩

theorem nodup_mapAt (codec : Codec) (i : Nat) (sel : Doc) : ((mapAt codec i sel).map Prod.fst).Nodup := by
  refine MapOrder.nodup_arranged _ ?_
  rw [visitedFields_of_nodup _ (nodup_fieldsOf sel), List.map_map]
  exact nodup_fieldsOf sel

/-- The cells of a document without embedded ones. -/
theorem shownCell_of_flat (hnamed : ∀ field ∈ fieldsOf sel, field.1 ≠ [])
    (hflat : ∀ field ∈ fieldsOf sel, ¬field.2.IsDocument) {field : Text × Bson} (hfield : field ∈ fieldsOf sel) :
    (field.1, formatScalar codec field.2) ∈ flattenDocument codec i sel ∧
      shownCell codec i sel field.1 = formatScalar codec field.2 := by
  have hflatten : flattenDocument codec i sel =
      (mapAt codec i sel).map fun field => (field.1, formatScalar codec field.2) := by
    refine flattenFields_leaves ?_ ?_
    · rintro ⟨name, v⟩ hv
      obtain ⟨w, hw, -⟩ := mem_mapAt.1 hv
      exact hnamed (name, w) hw
    · rintro ⟨name, v⟩ hv
      obtain ⟨w, hw, rfl⟩ := mem_mapAt.1 hv
      rw [isDocument_visited]
      exact hflat _ hw
  have hmem : (field.1, formatScalar codec field.2) ∈ flattenDocument codec i sel := by
    rw [hflatten]
    exact List.mem_map.2 ⟨field, mem_mapAt.2 ⟨field.2, hfield, visited_leaf (hflat field hfield)⟩, rfl⟩
  refine ⟨hmem, cellOf_eq ?_ hmem⟩
  rw [hflatten, List.map_map]
  exact nodup_mapAt codec i sel

theorem Lossless.shows (h : Lossless codec page sel) (hsel : page[i]? = some sel) : Shows codec page i sel sel where
  cells := by
    intro name hname
    obtain ⟨field, hfield, rfl⟩ := List.mem_map.1 (h.filled name hname)
    refine ⟨field.2, mem_fieldsOf.1 hfield, ?_⟩
    rw [(shownCell_of_flat h.named h.flat hfield).2, storedField, stored_formatScalar_iff]
    exact h.kept field hfield
  complete := by
    intro name v hlookup
    have hcell := (@shownCell_of_flat codec i _ h.named h.flat _ (mem_fieldsOf.2 hlookup)).1
    exact Or.inl (mem_columns.2 ⟨i, sel, hsel, List.mem_map.2 ⟨_, hcell, rfl⟩⟩)
  ordered := h.ordered

/-- A row that is stored as its own document shows it without a loss. -/
theorem Shows.lossless (h : Shows codec page i sel sel) (hid : "_id".toList ∈ (find codec page).columns) :
    Lossless codec page sel := by
  have hcolumn : ∀ field ∈ fieldsOf sel, field.1 ∈ (find codec page).columns := by
    intro field hfield
    rcases h.complete field.1 field.2 (mem_fieldsOf.1 hfield) with hmem | heq
    · exact hmem
    · exact heq ▸ hid
  have hnamed : ∀ field ∈ fieldsOf sel, field.1 ≠ [] := fun field hfield => ne_nil_of_mem_columns (hcolumn field hfield)
  have hstored : ∀ field ∈ fieldsOf sel, storedField codec field.1 (shownCell codec i sel field.1) = some field.2 := by
    intro field hfield
    obtain ⟨v, hlookup, hv⟩ := h.cells field.1 (hcolumn field hfield)
    have hsame := (mem_fieldsOf.1 hfield).symm.trans hlookup
    rw [hv, hsame]
  -- A missing value would be stored as a null, so no embedded document is shown as one.
  have hmap : ∀ field ∈ mapAt codec i sel, ¬field.2.IsDocument := by
    refine @leaves_of_back codec _ ?_ (nodup_mapAt codec i sel) ?_
    · rintro ⟨name, v⟩ hv
      obtain ⟨w, hw, -⟩ := mem_mapAt.1 hv
      exact hnamed (name, w) hw
    · rintro ⟨name, v⟩ hv hdocument hnull
      obtain ⟨w, hw, rfl⟩ := mem_mapAt.1 hv
      obtain ⟨inner, hinner⟩ := (isDocument_visited _ _).1 hdocument
      have hwritten := hstored _ hw
      have hcell : back codec (shownCell codec i sel name) = some .null := hnull
      rw [storedField, stored, hcell, hinner] at hwritten
      cases hwritten
  have hflat : ∀ field ∈ fieldsOf sel, ¬field.2.IsDocument := by
    intro field hfield hdocument
    exact hmap _ (mem_mapAt.2 ⟨field.2, hfield, rfl⟩) ((isDocument_visited _ _).2 hdocument)
  refine ⟨hnamed, hflat, ?_, ?_, h.ordered⟩
  · intro field hfield
    rw [← stored_formatScalar_iff, ← (shownCell_of_flat (i := i) hnamed hflat hfield).2]
    exact hstored field hfield
  · intro name hname
    obtain ⟨v, hlookup, -⟩ := h.cells name hname
    exact List.mem_map.2 ⟨_, mem_fieldsOf.2 hlookup, rfl⟩

/-- A document that is replaced by what a row of plain columns comes back as stays the same if the row shows it. -/
theorem withId_row_iff {row : List Json} {fields : List (Text × Bson)}
    (hrow : elementsToJson codec ((find codec page).columns.map (shownCell codec i sel)) = some row)
    (hfields : fieldsFromJson codec (selectedDoc (find codec page).columns row) = some fields) (found : Doc) :
    withId (sentDocument codec (docOf fields)) found = found ↔ Shows codec page i sel found := by
  have hlookup : ∀ {name v}, (sentDocument codec (docOf fields)).lookup name = some v ↔
      name ∈ (find codec page).columns ∧ storedField codec name (shownCell codec i sel name) = some v :=
    lookup_of_row (nodup_columns codec page) hrow hfields
  have hshown : ∀ {name v}, (sentDocument codec (docOf fields)).lookup name = some v →
      (withId (sentDocument codec (docOf fields)) found).lookup name = some v := by
    intro name v hv
    rw [lookup_withId, hv, Option.some_or]
  rw [withId_eq_iff]
  constructor
  · rintro ⟨hsame, hordered⟩
    refine ⟨?_, ?_, hordered⟩
    · -- each cell has come back, and what it came back as is stored now
      intro name hname
      obtain ⟨v, hv⟩ := stored_of_row hrow hfields hname
      exact ⟨v, (hsame name).symm.trans (hshown (hlookup.2 ⟨hname, hv⟩)), hv⟩
    · -- a field without a column is gone, unless the server keeps it
      intro name v hv
      by_contra hneither
      rw [not_or] at hneither
      have habsent : (sentDocument codec (docOf fields)).lookup name = none :=
        Option.eq_none_iff_forall_ne_some.2 fun w hw => hneither.1 (hlookup.1 hw).1
      rw [← hsame name, lookup_withId, habsent, if_neg hneither.2] at hv
      cases hv
  · intro hshows
    refine ⟨fun name => ?_, hshows.ordered⟩
    by_cases hname : name ∈ (find codec page).columns
    · obtain ⟨v, hv, hback⟩ := hshows.cells name hname
      rw [hv, hshown (hlookup.2 ⟨hname, hback⟩)]
    · have habsent : (sentDocument codec (docOf fields)).lookup name = none :=
        Option.eq_none_iff_forall_ne_some.2 fun w hw => hname (hlookup.1 hw).1
      rw [lookup_withId, habsent, Option.none_or]
      split
      · rfl
      · rename_i hid
        refine (Option.eq_none_iff_forall_ne_some.2 fun v hv => ?_).symm
        rcases hshows.complete name v hv with hcolumn | heq
        · exact hname hcolumn
        · exact hid heq

end

/-! ## Saves that change nothing -/

/-- A save replaces the document `found`: the displayed `_id` and the displayed document are read, `found` is the
first document that matches, and the server accepts the replacement. -/
def Replaces (codec : Codec) (server : Server) (selected : List (Text × Json)) (docs : List Doc) (found : Doc) : Prop :=
  ∃ filter replacement, rawToBSON codec (some (idFilter selected)) = .ok filter ∧
    rawToBSON codec (some (.object selected)) = .ok replacement ∧
    docs.find? (server.matching (sentFilter codec filter)) = some found ∧
    server.refused (sentDocument codec replacement) found = none

/-- The columns have a key of extended JSON among them. -/
def HasOperator (columns : List Text) : Prop := ∃ name ∈ columns, name.head? = some '$'

/-- It does no harm if the document `found` is replaced by the row of `sel`. A row with a key of extended JSON is
read as `unmarshalSpecial` decides. -/
structure Harmless (codec : Codec) (page : List Doc) (i : Nat) (sel : Doc) (selected : List (Text × Json))
    (found : Doc) : Prop where
  operator : HasOperator (find codec page).columns → ∀ fields,
    codec.unmarshalSpecial selected = some (.document fields) →
      withId (sentDocument codec (docOf fields)) found = found
  itself : ¬HasOperator (find codec page).columns → found = sel → "_id".toList ∈ (find codec page).columns →
    Lossless codec page sel
  another : ¬HasOperator (find codec page).columns → ¬(found = sel ∧ "_id".toList ∈ (find codec page).columns) →
    Shows codec page i sel found

section

variable {codec : Codec} {server : Server}

theorem isSpecial_selectedDoc {columns : List Text} {row : List Json} (hlength : row.length = columns.length) :
    isSpecial (selectedDoc columns row) = true ↔ HasOperator columns := by
  have hnames : (selectedDoc columns row).map Prod.fst = columns := List.map_fst_zip hlength.ge
  have hany : isSpecial (selectedDoc columns row) =
      ((selectedDoc columns row).map Prod.fst).any fun name => name.head? = some '$' := by
    rw [isSpecial, List.any_map]
    rfl
  rw [hany, hnames, HasOperator, List.any_eq_true]
  simp only [decide_eq_true_eq]

theorem rawToBSON_object {fields : List (Text × Json)} {doc : Doc} :
    rawToBSON codec (some (.object fields)) = .ok doc ↔ ∃ read, docOf read = doc ∧
      (if isSpecial fields then codec.unmarshalSpecial fields = some (.document read)
      else fieldsFromJson codec fields = some read) := by
  simp only [rawToBSON, unmarshalExtJSON, fromJson]
  cases isSpecial fields with
  | true =>
    simp only [if_true]
    cases codec.unmarshalSpecial fields with
    | none => simp
    | some v => cases v <;> simp
  | false =>
    simp only [Bool.false_eq_true, if_false]
    cases fieldsFromJson codec fields <;> simp

/-- What a replacement by a row does to a document. -/
theorem withId_eq_iff_harmless {page : List Doc} {i : Nat} {sel : Doc} (hsel : page[i]? = some sel) {row : List Json}
    (hrow : elementsToJson codec ((find codec page).columns.map (shownCell codec i sel)) = some row)
    {replacement : Doc} (hreplacement :
      rawToBSON codec (some (.object (selectedDoc (find codec page).columns row))) = .ok replacement) (found : Doc) :
    withId (sentDocument codec replacement) found = found ↔
      Harmless codec page i sel (selectedDoc (find codec page).columns row) found := by
  have hlength : row.length = (find codec page).columns.length := by
    rw [length_elementsToJson hrow, List.length_map]
  obtain ⟨fields, rfl, hread⟩ := rawToBSON_object.1 hreplacement
  have hoperator := isSpecial_selectedDoc hlength
  by_cases hspecial : HasOperator (find codec page).columns
  · rw [if_pos (hoperator.2 hspecial)] at hread
    constructor
    · intro hsame
      refine ⟨?_, fun hplain => absurd hspecial hplain, fun hplain => absurd hspecial hplain⟩
      intro _ fields' hread'
      have heq := hread.symm.trans hread'
      rw [Option.some.injEq, Bson.document.injEq] at heq
      rw [← heq]
      exact hsame
    · intro hharmless
      exact hharmless.operator hspecial fields hread
  · rw [if_neg fun h => hspecial (hoperator.1 h)] at hread
    rw [withId_row_iff hrow hread found]
    constructor
    · intro hshows
      refine ⟨fun h => absurd h hspecial, ?_, fun _ _ => hshows⟩
      rintro - rfl hid
      exact hshows.lossless hid
    · intro hharmless
      by_cases hself : found = sel ∧ "_id".toList ∈ (find codec page).columns
      · obtain ⟨rfl, hid⟩ := hself
        exact (hharmless.itself hspecial rfl hid).shows hsel
      · exact hharmless.another hspecial hself

end

/-! ## Two shipments -/

/-- A shipment whose values all come back, and whose names stand in alphabetical order. -/
def parcel : Doc :=
  ⟨[⟨"_id".toList, .string "s1".toList⟩, ⟨"lines".toList, .array [.document [("bin".toList, .string "b4".toList),
    ("sku".toList, .string "bolt".toList)]]⟩, ⟨"note".toList, .null⟩], by
    rw [List.NodupKeys]
    decide⟩

/-- What the page shows of it. -/
def parcelRow : List Json :=
  [.string "s1".toList, .array [.object [("bin".toList, .string "b4".toList), ("sku".toList, .string "bolt".toList)]],
    .null]

/-- A shipment with the ObjectID of its customer. -/
def pallet : Doc :=
  ⟨[⟨"_id".toList, .string "s2".toList⟩, ⟨"customer".toList, .objectID "65f0c0ffee65f0c0ffee65f0".toList⟩], by
    rw [List.NodupKeys]
    decide⟩

theorem parcel_lossless : Lossless default [parcel] parcel where
  named := by decide
  flat := by
    rintro field hfield ⟨inner, hinner⟩
    simp only [fieldsOf, parcel, List.map_cons, List.map_nil, List.mem_cons, List.not_mem_nil, or_false] at hfield
    rcases hfield with rfl | rfl | rfl <;> cases hinner
  kept := by
    intro field hfield
    simp only [fieldsOf, parcel, List.map_cons, List.map_nil, List.mem_cons, List.not_mem_nil, or_false] at hfield
    rcases hfield with rfl | rfl | rfl
    · trivial
    · refine ⟨?_, trivial⟩
      rw [Kept, if_neg (by decide)]
      exact ⟨by decide, by decide, trivial, trivial, trivial⟩
    · trivial
  filled := by decide
  ordered := by decide

end Workbench.Mongo
