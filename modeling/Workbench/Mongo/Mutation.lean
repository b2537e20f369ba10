import Workbench.Mongo.Documents

/-!
# Changing a document

`MutateDocument` of `api/internal/mongo/service.go`. The server takes the first document, in an order of its own,
that matches the filter.
-/

set_option autoImplicit false

namespace Workbench.Mongo

open Workbench.Lib

/-- What the server decides: which documents match, what is inserted (with the `_id` that the driver reports, nothing for a
null), what `$set` makes of a document and how many documents this modifies, and whether it accepts a replacement. An
error has the text of the driver. -/
structure Server where
  matching : (filter doc : Doc) → Bool
  inserted : (doc : Doc) → Except Text (Doc × Option Bson)
  updated : (fields doc : Doc) → Except Text (Doc × Nat)
  refused : (replacement doc : Doc) → Option Text

structure DocumentMutation where
  collection : Text
  operation : Text
  filter : Option Json
  document : Option Json

/-- The first document that satisfies `p` is changed, and what comes with the change is returned. -/
def changeFirst {β : Type} (p : Doc → Bool) (f : Doc → Except Text (List Doc × β)) :
    List Doc → Except Text (List Doc × Option β)
  | [] => .ok ([], none)
  | doc :: rest =>
    if p doc then do
      let (docs, result) ← f doc
      .ok (docs ++ rest, some result)
    else do
      let (docs, result) ← changeFirst p f rest
      .ok (doc :: docs, result)

/-- A replacement keeps the `_id` of the document if it has none. The server puts it in front of the other fields. -/
def withId (replacement doc : Doc) : Doc :=
  match (replacement.lookup "_id".toList).or (doc.lookup "_id".toList) with
  | some id => replacement.insert "_id".toList id
  | none => replacement

section

variable (codec : Codec) (server : Server)

/-- The maps of a request, as the driver sends them. -/
def sentFilter (filter : Doc) : Doc := sent (codec.writeOrder.below (.field "filter".toList)) filter

def sentDocument (doc : Doc) : Doc := sent (codec.writeOrder.below (.field "document".toList)) doc

/-- `UpdateOne`, with the number of modified documents if one matched. -/
def updateOne (filter fields : Doc) (docs : List Doc) : Except Text (List Doc × Option Nat) :=
  changeFirst (server.matching filter) (fun doc => do
    let (changed, modified) ← server.updated fields doc
    .ok ([changed], modified)) docs

/-- `ReplaceOne`. -/
def replaceOne (filter replacement : Doc) (docs : List Doc) : Except Text (List Doc × Option Unit) :=
  changeFirst (server.matching filter) (fun doc =>
    match server.refused replacement doc with
    | some e => .error e
    | none => .ok ([withId replacement doc], ())) docs

/-- `DeleteOne`. -/
def deleteOne (filter : Doc) (docs : List Doc) : Except Text (List Doc × Option Unit) :=
  changeFirst (server.matching filter) (fun _ => .ok ([], ())) docs

/-- `MutateDocument`, with the collection behind it. -/
def mutateDocument (req : DocumentMutation) (docs : List Doc) : Except Text Nat × List Doc :=
  if req.collection = [] then (.error "collection is required".toList, docs)
  else if req.operation = "insert".toList then
    match rawToBSON codec req.document with
    | .error e => (.error e, docs)
    | .ok doc =>
      match server.inserted (sentDocument codec doc) with
      | .error e => (.error e, docs)
      | .ok (doc, none) => (.error "insert failed".toList, docs ++ [doc])
      | .ok (doc, some _) => (.ok 1, docs ++ [doc])
  else if req.operation = "update".toList then
    match rawToBSON codec req.filter with
    | .error e => (.error e, docs)
    | .ok filter =>
      if filter.entries = [] then (.error "filter is required for update".toList, docs)
      else
        match rawToBSON codec req.document with
        | .error e => (.error e, docs)
        | .ok fields =>
          match updateOne server (sentFilter codec filter) (sentDocument codec fields) docs with
          | .error e => (.error e, docs)
          | .ok (docs, none) => (.error "update matched 0 documents, expected 1".toList, docs)
          | .ok (docs, some modified) => (.ok modified, docs)
  else if req.operation = "replace".toList then
    match rawToBSON codec req.filter with
    | .error e => (.error e, docs)
    | .ok filter =>
      match rawToBSON codec req.document with
      | .error e => (.error e, docs)
      | .ok replacement =>
        match replaceOne server (sentFilter codec filter) (sentDocument codec replacement) docs with
        | .error e => (.error e, docs)
        | .ok (docs, none) => (.error "replace matched 0 documents, expected 1".toList, docs)
        | .ok (docs, some _) => (.ok 1, docs)
  else if req.operation = "delete".toList then
    match rawToBSON codec req.filter with
    | .error e => (.error e, docs)
    | .ok filter =>
      match deleteOne server (sentFilter codec filter) docs with
      | .error e => (.error e, docs)
      | .ok (docs, none) => (.error "delete removed 0 documents, expected 1".toList, docs)
      | .ok (docs, some _) => (.ok 1, docs)
  else (.error ("unsupported document operation ".toList ++ '"' :: req.operation ++ ['"']), docs)

end

/-! ## The document that is changed -/

section

variable {β : Type} {p : Doc → Bool} {f : Doc → Except Text (List Doc × β)} {docs : List Doc}

theorem changeFirst_none (h : docs.find? p = none) : changeFirst p f docs = .ok (docs, none) := by
  induction docs with
  | nil => rfl
  | cons doc rest ih =>
    rw [List.find?_cons] at h
    cases hp : p doc with
    | true => rw [hp] at h; cases h
    | false =>
      rw [hp] at h
      rw [changeFirst, hp, if_neg Bool.false_ne_true, ih h]
      rfl

/-- What is in front of the first document and behind it stays. -/
theorem changeFirst_some {doc : Doc} (h : docs.find? p = some doc) : ∃ front back, docs = front ++ doc :: back ∧
    changeFirst p f docs = (f doc).map fun (changed, result) => (front ++ (changed ++ back), some result) := by
  induction docs with
  | nil => cases h
  | cons first rest ih =>
    rw [List.find?_cons] at h
    rw [changeFirst]
    cases hp : p first with
    | true =>
      rw [hp] at h
      cases h
      refine ⟨[], rest, rfl, ?_⟩
      rw [if_pos rfl]
      cases f doc <;> rfl
    | false =>
      rw [hp] at h
      obtain ⟨front, back, rfl, hchange⟩ := ih h
      refine ⟨first :: front, back, rfl, ?_⟩
      rw [if_neg Bool.false_ne_true, hchange]
      cases f doc <;> rfl

end

/-! ## Requests without a selector -/

/-- The filter selects nothing in particular: it is absent, `null`, or an object without fields. -/
def Selectorless (codec : Codec) (filter : Option Json) : Prop := rawToBSON codec filter = .ok ∅

/-- A filter without fields is sent as one. -/
theorem sentFilter_empty (codec : Codec) : sentFilter codec ∅ = ∅ := rfl

/-- What `JSON.stringify` makes of an `_id` that is `undefined`. -/
theorem selectorless_empty (codec : Codec) : Selectorless codec (some (.object [])) := rfl

/-- The call returns an error, and the collection is as it was. -/
def Refused (codec : Codec) (server : Server) (req : DocumentMutation) (docs : List Doc) : Prop :=
  (∃ e, (mutateDocument codec server req docs).1 = .error e) ∧ (mutateDocument codec server req docs).2 = docs

/-- The document of a replace cannot be read, or is not accepted for the first document of the collection. -/
def ReplacementFails (codec : Codec) (server : Server) (document : Option Json) (docs : List Doc) : Prop :=
  ∀ replacement, rawToBSON codec document = .ok replacement →
    ∃ first, docs.head? = some first ∧ (server.refused (sentDocument codec replacement) first).isSome

section

variable {codec : Codec} {server : Server} {req : DocumentMutation} {docs : List Doc}

theorem refused_update (hcollection : req.collection ≠ []) (hupdate : req.operation = "update".toList)
    (hfilter : Selectorless codec req.filter) : Refused codec server req docs := by
  have hupdateName : "update".toList ≠ "insert".toList := by decide
  have hresult : mutateDocument codec server req docs =
      (.error "filter is required for update".toList, docs) := by
    rw [mutateDocument, if_neg hcollection, hupdate, if_neg hupdateName, if_pos rfl, hfilter]
    rfl
  rw [Refused, hresult]
  exact ⟨⟨_, rfl⟩, rfl⟩

theorem refused_delete_iff (hempty : ∀ doc, server.matching ∅ doc = true) (hcollection : req.collection ≠ [])
    (hdelete : req.operation = "delete".toList) (hfilter : Selectorless codec req.filter) :
    Refused codec server req docs ↔ docs = [] := by
  have hinsert : "delete".toList ≠ "insert".toList := by decide
  have hupdate : "delete".toList ≠ "update".toList := by decide
  have hreplace : "delete".toList ≠ "replace".toList := by decide
  rw [Refused, mutateDocument, if_neg hcollection, hdelete, if_neg hinsert, if_neg hupdate, if_neg hreplace, if_pos rfl,
    hfilter]
  dsimp only
  rw [deleteOne, sentFilter_empty]
  cases docs with
  | nil => simp [changeFirst]
  | cons first rest => simp [changeFirst, hempty, bind, Except.bind]

theorem refused_replace_iff (hempty : ∀ doc, server.matching ∅ doc = true) (hcollection : req.collection ≠ [])
    (hreplace : req.operation = "replace".toList) (hfilter : Selectorless codec req.filter) :
    Refused codec server req docs ↔ docs = [] ∨ ReplacementFails codec server req.document docs := by
  have hinsert : "replace".toList ≠ "insert".toList := by decide
  have hupdate : "replace".toList ≠ "update".toList := by decide
  rw [Refused, mutateDocument, if_neg hcollection, hreplace, if_neg hinsert, if_neg hupdate, if_pos rfl, hfilter]
  dsimp only
  cases hdocument : rawToBSON codec req.document with
  | error e => simp [ReplacementFails, hdocument]
  | ok replacement =>
    dsimp only
    rw [replaceOne, sentFilter_empty]
    cases docs with
    | nil => simp [changeFirst]
    | cons first rest =>
      cases hrefused : server.refused (sentDocument codec replacement) first with
      | some e => simp [changeFirst, hempty, hrefused, ReplacementFails, hdocument, bind, Except.bind]
      | none => simp [changeFirst, hempty, hrefused, ReplacementFails, hdocument, bind, Except.bind]

end

/-! ## A collection with one document -/

/-- Equality of values that are compared as numbers or as texts, and of nulls. -/
def sameScalar : Bson → Bson → Bool
  | .null, .null => true
  | .int32 a, .int32 b => a = b
  | .int32 a, .int64 b => a = b
  | .int64 a, .int32 b => a = b
  | .int64 a, .int64 b => a = b
  | .string a, .string b => a = b
  | _, _ => false

/-- A server that compares the fields of a filter with those of the document and accepts every change. -/
def plainServer : Server where
  matching filter doc := (fieldsOf filter).all fun field => sameScalar field.2 ((doc.lookup field.1).getD .null)
  inserted doc := .ok (doc, (doc.lookup "_id".toList).or (some (.objectID [])))
  updated fields doc := .ok ((fieldsOf fields).foldl (fun doc field => doc.insert field.1 field.2) doc, 1)
  refused _ _ := none

/-- Document 1 of the orders. -/
def order : Doc := docOf [("_id".toList, .int32 1), ("status".toList, .string "paid".toList)]

end Workbench.Mongo
