import Mathlib.Data.Char
import Mathlib.Data.List.Lex
import Workbench.Redis.Service
import Workbench.Web.JsonText

/-!
# The key view

`load` and `save` of `web/src/features/redis/RedisKeyView.tsx`, with the handlers of
`api/internal/httpapi/router_mongo_redis.go` between the view and the service: a value goes to the browser as a JSON
text and comes back as another one.
-/

set_option autoImplicit false

namespace Workbench.Redis

open Workbench.Lib Workbench.Web

/-! ## Maps and objects -/

/-- An order in which a loop comes to the entries of a map or to the properties of an object. -/
structure EntryOrder where
  order : {V : Type} → List (Text × V) → List (Text × V)
  perm : ∀ {V : Type} (l : List (Text × V)), (order l).Perm l

/-- Of one name the last entry counts. -/
def lastWins {V : Type} : List (Text × V) → List (Text × V)
  | [] => []
  | field :: rest => if field.1 ∈ rest.map Prod.fst then lastWins rest else field :: lastWins rest

/-- What comes from the libraries and the browser: the text of a `float64`, the loops over maps and objects, and
what `JSON.stringify` prints for a number that was read. -/
structure Runtime where
  libs : Libraries
  formatFloat : Number → Text
  parseInt : Text → Option Int
  goOrder : EntryOrder
  jsOrder : EntryOrder
  reprint : Text → Text
  reprint_number : ∀ w, isJsonNumber w = true → isJsonNumber (reprint w) = true

instance : Inhabited Runtime where
  default :=
    { libs := default
      formatFloat := Number.text
      parseInt := fun w => some (Schema.readInt w).1
      goOrder := ⟨id, fun _ => List.Perm.refl _⟩
      jsOrder := ⟨id, fun _ => List.Perm.refl _⟩
      reprint := id
      reprint_number := fun _ h => h }

section

variable (rt : Runtime)

/-! ## Go -/

mutual

/-- `json.Marshal`, which refuses an infinite number. -/
def marshal : GoAny → Option Json
  | .null => some .null
  | .bool value => some (.bool value)
  | .float64 literal => if isJsonNumber literal then some (.number literal) else none
  | .string text => some (.string text)
  | .slice items => (marshalItems items).map Json.array
  | .map fields => (marshalFields fields).map fun l => .object (l.mergeSort fun a b => decide (a.1 ≤ b.1))
  | .maps items => (marshalMaps items).map Json.array

def marshalItems : List GoAny → Option (List Json)
  | [] => some []
  | v :: rest => (marshal v).bind fun j => (marshalItems rest).map (j :: ·)

def marshalFields : List (Text × GoAny) → Option (List (Text × Json))
  | [] => some []
  | (key, v) :: rest => (marshal v).bind fun j => (marshalFields rest).map ((key, j) :: ·)

def marshalMaps : List (List (Text × GoAny)) → Option (List Json)
  | [] => some []
  | fields :: rest =>
    (marshalFields fields).bind fun l =>
      (marshalMaps rest).map (.object (l.mergeSort fun a b => decide (a.1 ≤ b.1)) :: ·)

end

mutual

/-- A value of type `any`. -/
def unmarshal : Json → GoAny
  | .null => .null
  | .bool value => .bool value
  | .number literal => .float64 literal
  | .string text => .string text
  | .array elements => .slice (unmarshalItems elements)
  | .object fields => .map (rt.goOrder.order (lastWins (unmarshalFields fields)))

def unmarshalItems : List Json → List GoAny
  | [] => []
  | v :: rest => unmarshal v :: unmarshalItems rest

def unmarshalFields : List (Text × Json) → List (Text × GoAny)
  | [] => []
  | (key, v) :: rest => (key, unmarshal v) :: unmarshalFields rest

end

def decodeTTL : Json → Option (Option Int)
  | .number literal => (rt.parseInt literal).map some
  | .null => some none
  | _ => none

def updateFields : StructFields KeyUpdate :=
  [textField "type".toList KeyUpdate.type fun s text => { s with type := text },
    ("value".toList, fun s v => some { s with value := unmarshal rt v }),
    ("ttl".toList, fun s v => (decodeTTL rt v).map fun ttl => { s with ttl := ttl })]

/-- The body of a `PUT`. -/
structure SaveInput where
  key : Text
  value : KeyUpdate

def inputFields : StructFields SaveInput :=
  [textField "key".toList SaveInput.key fun s text => { s with key := text },
    ("value".toList, fun s v =>
      (decodeObject true (updateFields rt) s.value v).map fun update => { s with value := update })]

def bodyLimit : Nat := 2 ^ 20

/-- `decodeJSON`. -/
def decodeJSON (body : Text) : Option SaveInput :=
  if bodyLimit < byteLength body then none
  else (readJson body).bind (decodeObject true (inputFields rt) ⟨[], [], .null, none⟩)

/-- The answer to a `GET`, where a value that `json.Marshal` refuses leaves it empty. -/
def writeDetail (detail : KeyDetail) (durationMs : Int) : Text :=
  match marshal detail.value with
  | none => []
  | some value =>
    writeJson .server [] [] (.object
      [("key".toList, .string detail.key), ("type".toList, .string detail.type),
        ("ttl".toList, .number (Schema.jsonInt detail.ttl)), ("value".toList, value),
        ("durationMs".toList, .number (Schema.jsonInt durationMs))])

/-! ## The browser -/

mutual

/-- The value that `JSON.parse` makes. -/
def toBrowser : Json → Json
  | .number literal => .number (rt.reprint literal)
  | .array elements => .array (elementsToBrowser elements)
  | .object fields => .object (rt.jsOrder.order (lastWins (fieldsToBrowser fields)))
  | .null => .null
  | .bool value => .bool value
  | .string text => .string text

def elementsToBrowser : List Json → List Json
  | [] => []
  | v :: rest => toBrowser v :: elementsToBrowser rest

def fieldsToBrowser : List (Text × Json) → List (Text × Json)
  | [] => []
  | (key, v) :: rest => (key, toBrowser v) :: fieldsToBrowser rest

end

def parseJson (text : Text) : Option Json := (readJson text).map (toBrowser rt)

/-- A property of an object; of anything else it is not looked at. -/
def property (name : Text) : Json → Option Json
  | .object fields => (fields.find? fun f => f.1 = name).map Prod.snd
  | _ => none

/-- What the view knows of a key: the type, and the text that it shows. -/
structure Shown where
  type : Text
  valueJson : Text

/-- `load`. -/
def load (response : Text) : Option Shown :=
  (parseJson rt response).bind fun data =>
    match property "type".toList data, property "value".toList data with
    | some (.string type), some (.string text) => some ⟨type, text⟩
    | some (.string type), some value => some ⟨type, writeJson .browser [' ', ' '] [] value⟩
    | _, _ => none

/-- The body that `redisSaveKey` sends. -/
def requestBody (key type : Text) (value : Json) : Text :=
  writeJson .browser [] [] (.object
    [("key".toList, .string key),
      ("value".toList, .object [("type".toList, .string type), ("value".toList, value)])])

/-- `save`, with the request that it sends. -/
def save (key : Text) (shown : Shown) : Option Text :=
  if shown.type ≠ "string".toList then
    (parseJson rt shown.valueJson).map fun parsed => requestBody key shown.type parsed
  else some (requestBody key shown.type (.string shown.valueJson))

/-- A key that is shown and saved as it is shown. There is no result if the browser or a handler gives up before
`SaveKey` is called. -/
def saveUnedited (now durationMs : Int) (ks : Keyspace) (key : Text) : Option (Keyspace × Option Err) :=
  match getKey rt.libs rt.formatFloat now ks key with
  | .error _ => none
  | .ok detail =>
    (load rt (writeDetail detail durationMs)).bind fun shown =>
      (save rt key shown).bind fun body =>
        (decodeJSON rt body).map fun input => saveKey rt.libs now ks input.key input.value

end

/-- Two values that Redis does not tell apart. -/
def Value.Same : Value → Value → Prop
  | .string s, .string t => s = t
  | .hash f, .hash g => f.entries.Perm g.entries
  | .list a, .list b => a = b
  | .set a, .set b => a.entries.Perm b.entries
  | .zset a, .zset b => a.entries.Perm b.entries
  | .other s, .other t => s = t
  | _, _ => False

/-- The save succeeds and leaves the value as it was. -/
def SavesUnchanged (rt : Runtime) (now durationMs : Int) (ks : Keyspace) (key : Text) (value : Value) : Prop :=
  ∃ ks' entry, saveUnedited rt now durationMs ks key = some (ks', none) ∧ ks' key = some entry ∧
    entry.value.Same value

/-! ## Validity -/

theorem validFields_iff (fs : List (Text × Json)) : ValidFields fs ↔ ∀ f ∈ fs, f.2.Valid := by
  induction fs with
  | nil => exact iff_of_true trivial fun _ hf => absurd hf List.not_mem_nil
  | cons f rest ih => rw [ValidFields, ih, List.forall_mem_cons]

theorem validFields_perm {fs gs : List (Text × Json)} (h : fs.Perm gs) : ValidFields fs ↔ ValidFields gs := by
  rw [validFields_iff, validFields_iff]
  exact forall_congr' fun f => by rw [h.mem_iff]

mutual

/-- What is marshalled is valid JSON. -/
theorem marshal_valid (v : GoAny) {j : Json} (h : marshal v = some j) : j.Valid := by
  match v with
  | .null =>
    cases h
    trivial
  | .bool b =>
    cases h
    trivial
  | .float64 literal =>
    rw [marshal] at h
    split at h
    · next hnumber =>
        cases h
        exact hnumber
    · cases h
  | .string text =>
    cases h
    trivial
  | .slice items =>
    obtain ⟨es, hes, rfl⟩ := Option.map_eq_some_iff.1 h
    exact marshalItems_valid items hes
  | .map fields =>
    obtain ⟨l, hl, rfl⟩ := Option.map_eq_some_iff.1 h
    exact (validFields_perm (List.mergeSort_perm _ _)).2 (marshalFields_valid fields hl)
  | .maps items =>
    obtain ⟨es, hes, rfl⟩ := Option.map_eq_some_iff.1 h
    exact marshalMaps_valid items hes

theorem marshalItems_valid (vs : List GoAny) {js : List Json} (h : marshalItems vs = some js) : ValidElements js := by
  match vs with
  | [] =>
    cases h
    trivial
  | v :: rest =>
    obtain ⟨j, hj, hrest⟩ := Option.bind_eq_some_iff.1 h
    obtain ⟨js, hjs, rfl⟩ := Option.map_eq_some_iff.1 hrest
    exact ⟨marshal_valid v hj, marshalItems_valid rest hjs⟩

theorem marshalFields_valid (fs : List (Text × GoAny)) {js : List (Text × Json)} (h : marshalFields fs = some js) :
    ValidFields js := by
  match fs with
  | [] =>
    cases h
    trivial
  | (key, v) :: rest =>
    obtain ⟨j, hj, hrest⟩ := Option.bind_eq_some_iff.1 h
    obtain ⟨js, hjs, rfl⟩ := Option.map_eq_some_iff.1 hrest
    exact ⟨marshal_valid v hj, marshalFields_valid rest hjs⟩

theorem marshalMaps_valid (vs : List (List (Text × GoAny))) {js : List Json} (h : marshalMaps vs = some js) :
    ValidElements js := by
  match vs with
  | [] =>
    cases h
    trivial
  | fields :: rest =>
    obtain ⟨l, hl, hrest⟩ := Option.bind_eq_some_iff.1 h
    obtain ⟨js, hjs, rfl⟩ := Option.map_eq_some_iff.1 hrest
    exact ⟨(validFields_perm (List.mergeSort_perm _ _)).2 (marshalFields_valid fields hl),
      marshalMaps_valid rest hjs⟩

end

theorem lastWins_sublist {V : Type} (fs : List (Text × V)) : (lastWins fs).Sublist fs := by
  induction fs with
  | nil => exact List.Sublist.refl _
  | cons f rest ih =>
    rw [lastWins]
    split
    · exact ih.cons f
    · exact ih.cons_cons f

theorem lastWins_of_nodup {V : Type} {fs : List (Text × V)} (h : (fs.map Prod.fst).Nodup) : lastWins fs = fs := by
  induction fs with
  | nil => rfl
  | cons f rest ih =>
    rw [List.map_cons, List.nodup_cons] at h
    rw [lastWins, if_neg h.1, ih h.2]

section

variable {rt : Runtime}

mutual

/-- The browser makes no other numbers than there are. -/
theorem toBrowser_valid (j : Json) (h : j.Valid) : (toBrowser rt j).Valid := by
  match j with
  | .null => trivial
  | .bool b => trivial
  | .number literal => exact rt.reprint_number literal h
  | .string text => trivial
  | .array elements => exact elementsToBrowser_valid elements h
  | .object fields =>
    have hall := (validFields_iff _).1 (fieldsToBrowser_valid fields h)
    refine (validFields_perm (rt.jsOrder.perm _)).2 ((validFields_iff _).2 fun f hf => hall f ?_)
    exact (lastWins_sublist _).subset hf

theorem elementsToBrowser_valid (js : List Json) (h : ValidElements js) :
    ValidElements (elementsToBrowser rt js) := by
  match js with
  | [] => trivial
  | j :: rest => exact ⟨toBrowser_valid j h.1, elementsToBrowser_valid rest h.2⟩

theorem fieldsToBrowser_valid (fs : List (Text × Json)) (h : ValidFields fs) : ValidFields (fieldsToBrowser rt fs) := by
  match fs with
  | [] => trivial
  | (key, j) :: rest => exact ⟨toBrowser_valid j h.1, fieldsToBrowser_valid rest h.2⟩

end

theorem parseJson_writeJson {q : JsonEscapes} {gap : Text} (hgap : ∀ c ∈ gap, isJsonSpace c = true) {j : Json}
    (h : j.Valid) : parseJson rt (writeJson q gap [] j) = some (toBrowser rt j) := by
  rw [parseJson, readJson_writeJson hgap h]
  rfl

/-! ## Properties -/

/-- Where no name comes twice, the entry of a name is the one that there is. -/
theorem find_eq_some_iff {V : Type} {fs : List (Text × V)} (hnodup : (fs.map Prod.fst).Nodup) {name : Text}
    {f : Text × V} : (fs.find? fun f => f.1 = name) = some f ↔ f ∈ fs ∧ f.1 = name := by
  constructor
  · intro h
    exact ⟨List.mem_of_find?_eq_some h, by simpa using List.find?_some h⟩
  · rintro ⟨hmem, hname⟩
    have hfound : (fs.find? fun f => f.1 = name).isSome :=
      List.find?_isSome.2 ⟨f, hmem, decide_eq_true hname⟩
    obtain ⟨g, hg⟩ := Option.isSome_iff_exists.1 hfound
    have hgname : g.1 = name := by simpa using List.find?_some hg
    have hgf : g = f := List.inj_on_of_nodup_map hnodup (List.mem_of_find?_eq_some hg) hmem (hgname.trans hname.symm)
    rw [hg, hgf]

theorem find_perm {V : Type} {fs gs : List (Text × V)} (h : fs.Perm gs) (hnodup : (gs.map Prod.fst).Nodup)
    (name : Text) : (fs.find? fun f => f.1 = name) = gs.find? fun f => f.1 = name := by
  have hnodup' : (fs.map Prod.fst).Nodup := (h.map Prod.fst).nodup_iff.2 hnodup
  ext f
  rw [find_eq_some_iff hnodup, find_eq_some_iff hnodup', h.mem_iff]

theorem fieldsToBrowser_eq (fs : List (Text × Json)) :
    fieldsToBrowser rt fs = fs.map fun f => (f.1, toBrowser rt f.2) := by
  induction fs with
  | nil => rfl
  | cons f rest ih =>
    rw [List.map_cons, ← ih]
    rfl

theorem nodup_fieldsToBrowser {fs : List (Text × Json)} (h : (fs.map Prod.fst).Nodup) :
    ((fieldsToBrowser rt fs).map Prod.fst).Nodup := by
  rw [fieldsToBrowser_eq, List.map_map]
  exact h

/-- An object in the browser has the properties of its text, in some order. -/
theorem toBrowser_object {fs : List (Text × Json)} (h : (fs.map Prod.fst).Nodup) :
    toBrowser rt (.object fs) = .object (rt.jsOrder.order (fieldsToBrowser rt fs)) := by
  rw [toBrowser, lastWins_of_nodup (nodup_fieldsToBrowser h)]

theorem property_toBrowser {fs : List (Text × Json)} (h : (fs.map Prod.fst).Nodup) (name : Text) :
    property name (toBrowser rt (.object fs)) = ((fieldsToBrowser rt fs).find? fun f => f.1 = name).map Prod.snd := by
  rw [toBrowser_object h, property, find_perm (rt.jsOrder.perm _) (nodup_fieldsToBrowser h)]

/-! ## The requests -/

/-- The fields of the answer to a `GET`. -/
def detailFields (detail : KeyDetail) (durationMs : Int) (value : Json) : List (Text × Json) :=
  [("key".toList, .string detail.key), ("type".toList, .string detail.type),
    ("ttl".toList, .number (Schema.jsonInt detail.ttl)), ("value".toList, value),
    ("durationMs".toList, .number (Schema.jsonInt durationMs))]

/-- The view shows the type and the value that the answer has. -/
theorem load_writeDetail {detail : KeyDetail} {durationMs : Int} {value : Json}
    (hvalue : marshal detail.value = some value) :
    load rt (writeDetail detail durationMs) =
      match toBrowser rt value with
      | .string text => some ⟨detail.type, text⟩
      | shown => some ⟨detail.type, writeJson .browser [' ', ' '] [] shown⟩ := by
  have hwritten : writeDetail detail durationMs =
      writeJson .server [] [] (.object (detailFields detail durationMs value)) := by rw [writeDetail, hvalue]; rfl
  have hvalid : (Json.object (detailFields detail durationMs value)).Valid :=
    ⟨trivial, trivial, isJsonNumber_jsonInt _, marshal_valid _ hvalue, isJsonNumber_jsonInt _, trivial⟩
  have hnames : ((detailFields detail durationMs value).map Prod.fst).Nodup := by
    show ["key".toList, "type".toList, "ttl".toList, "value".toList, "durationMs".toList].Nodup
    decide
  have htype : property "type".toList (toBrowser rt (.object (detailFields detail durationMs value))) =
      some (.string detail.type) := property_toBrowser hnames _
  have hshown : property "value".toList (toBrowser rt (.object (detailFields detail durationMs value))) =
      some (toBrowser rt value) := property_toBrowser hnames _
  rw [hwritten, load, parseJson_writeJson (by simp) hvalid, Option.bind_some, htype, hshown]
  cases toBrowser rt value <;> rfl

theorem decodeJSON_requestBody {key type : Text} {value : Json} (hvalid : value.Valid) :
    decodeJSON rt (requestBody key type value) =
      if bodyLimit < byteLength (requestBody key type value) then none
      else some ⟨key, type, unmarshal rt value, none⟩ := by
  have hread : readJson (requestBody key type value) = some (.object [("key".toList, .string key),
      ("value".toList, .object [("type".toList, .string type), ("value".toList, value)])]) :=
    readJson_writeJson (by simp) ⟨trivial, ⟨trivial, hvalid, trivial⟩, trivial⟩
  rw [decodeJSON, hread]
  rfl

end

/-! ## What arrives -/

def textFields (l : List (Text × Text)) : List (Text × Json) := l.map fun f => (f.1, .string f.2)

/-- A JSON value that stands for the value of a key: of a hash the order of the fields is open. -/
def Arrives : Value → Json → Prop
  | .string text, j => j = .string text
  | .hash fields, j => ∃ l, j = .object (textFields l) ∧ l.Perm (fields.entries.map fun e => (e.1, e.2))
  | .list items, j => j = .array (items.map .string)
  | .set members, j => j = .array (members.entries.map fun e => .string e.1)
  | .zset _, _ | .other _, _ => False

/-- What is a permutation of images is the image of a permutation. -/
theorem exists_map_of_perm {A B : Type} {f : A → B} {m : List B} {l : List A} (h : m.Perm (l.map f)) :
    ∃ l' : List A, m = l'.map f ∧ l'.Perm l :=
  cast (congrFun (congrFun (List.eq_map_comp_perm f) m) l).symm h

theorem marshalItems_texts (items : List Text) : marshalItems (items.map .string) = some (items.map .string) := by
  induction items with
  | nil => rfl
  | cons item rest ih =>
    rw [List.map_cons, marshalItems, ih]
    rfl

theorem marshalFields_texts (l : List (Text × Text)) :
    marshalFields (l.map fun f => (f.1, .string f.2)) = some (textFields l) := by
  induction l with
  | nil => rfl
  | cons f rest ih =>
    rw [List.map_cons, marshalFields, ih]
    rfl

/-- The answer to a `GET` stands for the value. -/
theorem arrives_marshal (literal : Number → Text) {value : Value} (hzset : ∀ scores, value ≠ .zset scores)
    (hother : ∀ type, value ≠ .other type) :
    ∃ v j, readValue literal value = .ok v ∧ marshal v = some j ∧ Arrives value j := by
  cases value with
  | string text => exact ⟨_, _, rfl, rfl, rfl⟩
  | hash fields =>
    have hfields := marshalFields_texts (fields.entries.map fun e => (e.1, e.2))
    rw [List.map_map] at hfields
    obtain ⟨l, hl, hperm⟩ := exists_map_of_perm
      (List.mergeSort_perm (textFields (fields.entries.map fun e => (e.1, e.2))) fun a b => decide (a.1 ≤ b.1))
    refine ⟨_, .object (textFields l), rfl, ?_, l, rfl, hperm⟩
    rw [marshal, textFields, ← hl]
    exact congrArg (Option.map _) hfields
  | list items => exact ⟨_, _, rfl, congrArg (Option.map _) (marshalItems_texts items), rfl⟩
  | set members =>
    have hitems := marshalItems_texts (members.entries.map fun e => e.1)
    rw [List.map_map] at hitems
    exact ⟨_, _, rfl, congrArg (Option.map Json.array) hitems, by rw [Arrives, List.map_map]; rfl⟩
  | zset scores => exact absurd rfl (hzset scores)
  | other type => exact absurd rfl (hother type)

theorem nodup_of_arrives {fields : Table Text Text} {l : List (Text × Text)}
    (h : l.Perm (fields.entries.map fun e => (e.1, e.2))) : (l.map Prod.fst).Nodup := by
  rw [(h.map Prod.fst).nodup_iff, List.map_map]
  exact fields.keys_nodup

theorem names_textFields (l : List (Text × Text)) : (textFields l).map Prod.fst = l.map Prod.fst := by
  rw [textFields, List.map_map]
  rfl

section

variable {rt : Runtime}

theorem elementsToBrowser_texts (rt : Runtime) (items : List Text) :
    elementsToBrowser rt (items.map .string) = items.map .string := by
  induction items with
  | nil => rfl
  | cons item rest ih =>
    rw [List.map_cons, elementsToBrowser, ih]
    rfl

theorem fieldsToBrowser_texts (l : List (Text × Text)) : fieldsToBrowser rt (textFields l) = textFields l := by
  rw [fieldsToBrowser_eq, textFields, List.map_map]
  rfl

theorem Arrives.toBrowser {value : Value} {j : Json} (h : Arrives value j) : Arrives value (toBrowser rt j) := by
  cases value with
  | string text =>
    obtain rfl : j = .string text := h
    rfl
  | hash fields =>
    obtain ⟨l, rfl, hl⟩ := h
    have hnames : ((textFields l).map Prod.fst).Nodup := by
      rw [names_textFields]
      exact nodup_of_arrives hl
    rw [toBrowser_object hnames, fieldsToBrowser_texts]
    obtain ⟨l', hl', hperm⟩ := exists_map_of_perm (rt.jsOrder.perm (textFields l))
    exact ⟨l', congrArg Json.object hl', hperm.trans hl⟩
  | list items =>
    obtain rfl : j = .array (items.map .string) := h
    exact congrArg Json.array (elementsToBrowser_texts rt items)
  | set members =>
    obtain rfl : j = .array (members.entries.map fun e => .string e.1) := h
    have hitems := elementsToBrowser_texts rt (members.entries.map fun e => e.1)
    rw [List.map_map] at hitems
    exact congrArg Json.array hitems
  | zset scores => exact h.elim
  | other type => exact h.elim

theorem unmarshalItems_texts (rt : Runtime) (items : List Text) :
    unmarshalItems rt (items.map .string) = items.map .string := by
  induction items with
  | nil => rfl
  | cons item rest ih =>
    rw [List.map_cons, unmarshalItems, ih]
    rfl

theorem unmarshalFields_texts (l : List (Text × Text)) :
    unmarshalFields rt (textFields l) = l.map fun f => (f.1, .string f.2) := by
  induction l with
  | nil => rfl
  | cons f rest ih =>
    show (f.1, GoAny.string f.2) :: unmarshalFields rt (textFields rest) = _
    rw [ih]
    rfl

/-- A loop over the decoded map comes to the fields in an order of its own. -/
theorem unmarshal_textFields (rt : Runtime) {l : List (Text × Text)} (hnodup : (l.map Prod.fst).Nodup) :
    ∃ l' : List (Text × Text), unmarshal rt (.object (textFields l)) = .map (l'.map fun f => (f.1, .string f.2)) ∧
      l'.Perm l := by
  have hnames : ((l.map fun f => (f.1, GoAny.string f.2)).map Prod.fst).Nodup := by
    rw [List.map_map]
    exact hnodup
  obtain ⟨l', hl', hperm⟩ := exists_map_of_perm (rt.goOrder.perm (l.map fun f => (f.1, GoAny.string f.2)))
  refine ⟨l', ?_, hperm⟩
  rw [unmarshal, unmarshalFields_texts, lastWins_of_nodup hnames, hl']

end

/-! ## What is saved -/

section

variable {rt : Runtime} {now : Int} {ks : Keyspace} {key : Text}

theorem sprint_texts (libs : Libraries) (items : List Text) : (items.map GoAny.string).map libs.sprint = items := by
  rw [List.map_map]
  conv_rhs => rw [← List.map_id items]
  exact List.map_congr_left fun text _ => libs.sprint_string text

theorem saveValue_list (libs : Libraries) {items : List Text} (hne : items ≠ []) :
    saveValue libs now ks key ⟨"list".toList, .slice (items.map .string), none⟩ =
      (ks.store key (.list items) none, none) := by
  have hmap : items.map GoAny.string ≠ [] := fun hnil => hne (List.map_eq_nil_iff.1 hnil)
  have hargs : (Command.rpush key items).hasArguments = true := by simpa [Command.hasArguments] using hne
  show pipeline now ks (.del key :: if items.map GoAny.string = [] then [] else _) = _
  rw [if_neg hmap, sprint_texts, pipeline, exec_amend hargs (fun _ => rfl) rfl]
  rfl

theorem saveValue_set (libs : Libraries) {items : List Text} (hne : items ≠ []) :
    saveValue libs now ks key ⟨"set".toList, .slice (items.map .string), none⟩ =
      (ks.store key (.set (insertAll (items.map fun m => (m, ())) ∅)) none, none) := by
  have hmap : items.map GoAny.string ≠ [] := fun hnil => hne (List.map_eq_nil_iff.1 hnil)
  have hargs : (Command.sadd key items).hasArguments = true := by simpa [Command.hasArguments] using hne
  show pipeline now ks (.del key :: if items.map GoAny.string = [] then [] else _) = _
  rw [if_neg hmap, sprint_texts, pipeline, exec_amend hargs (fun _ => rfl) rfl]
  rfl

theorem saveValue_hash (libs : Libraries) {l : List (Text × Text)} (hne : l ≠ []) :
    saveValue libs now ks key ⟨"hash".toList, .map (l.map fun f => (f.1, .string f.2)), none⟩ =
      (ks.store key (.hash (insertAll l ∅)) none, none) := by
  have hfields : ((l.map fun f => (f.1, GoAny.string f.2)).map fun f => (f.1, libs.sprint f.2)) = l := by
    rw [List.map_map]
    conv_rhs => rw [← List.map_id l]
    exact List.map_congr_left fun f _ => Prod.ext rfl (libs.sprint_string f.2)
  have hargs : (Command.hset key l).hasArguments = true := by simpa [Command.hasArguments] using hne
  show pipeline now ks [.del key, .hset key _] = _
  rw [hfields, pipeline, exec_amend hargs (fun _ => rfl) rfl]
  rfl

/-- The entries that come into an empty table. -/
theorem insertAll_empty_perm {V : Type} {l : List (Text × V)} (hnodup : (l.map Prod.fst).Nodup) :
    (insertAll l ∅).entries.Perm (l.map fun f => ⟨f.1, f.2⟩) := by
  have hadded := insertAll_perm l ∅ hnodup fun f _ => AList.notMem_empty f.1
  rwa [AList.empty_entries, List.append_nil] at hadded

/-- A value that is written anew is found. -/
theorem saved_of_store {update : KeyUpdate} {v value : Value}
    (hsave : saveValue rt.libs now ks key update = (ks.store key v none, none)) (hne : v.isEmpty = false)
    (hsame : v.Same value) :
    ∃ ks' e, saveValue rt.libs now ks key update = (ks', none) ∧ ks' key = some e ∧ e.value.Same value :=
  ⟨_, ⟨v, none, hne⟩, hsave, Keyspace.store_self hne, hsame⟩

/-- What stands for a value of a key is saved as this value. -/
theorem Arrives.saved (rt : Runtime) (now : Int) (ks : Keyspace) (key : Text) {value : Value} {j : Json}
    (h : Arrives value j) (hnonempty : value.isEmpty = false) :
    ∃ ks' e, saveValue rt.libs now ks key ⟨value.type, unmarshal rt j, none⟩ = (ks', none) ∧
      ks' key = some e ∧ e.value.Same value := by
  cases value with
  | string text =>
    obtain rfl : j = .string text := h
    exact saved_of_store rfl rfl rfl
  | hash fields =>
    obtain ⟨l, rfl, hl⟩ := h
    obtain ⟨l', hmap, hperm⟩ := unmarshal_textFields rt (nodup_of_arrives hl)
    have hentries : (insertAll l' ∅).entries.Perm fields.entries := by
      have hadded := insertAll_empty_perm ((hperm.map Prod.fst).nodup_iff.2 (nodup_of_arrives hl))
      have hpairs : (fields.entries.map fun e => (e.1, e.2)).map
          (fun f => (⟨f.1, f.2⟩ : Sigma fun _ : Text => Text)) = fields.entries := by
        rw [List.map_map]
        exact List.map_id fields.entries
      rw [← hpairs]
      exact hadded.trans ((hperm.trans hl).map _)
    have hne : l' ≠ [] := by
      rintro rfl
      have hnil : fields.entries = [] := hentries.symm.eq_nil
      rw [Value.isEmpty, hnil] at hnonempty
      cases hnonempty
    rw [hmap]
    exact saved_of_store (saveValue_hash rt.libs hne) (insertAll_ne_nil hne _) hentries
  | list items =>
    obtain rfl : j = .array (items.map .string) := h
    rw [unmarshal, unmarshalItems_texts]
    exact saved_of_store (saveValue_list rt.libs (List.isEmpty_eq_false_iff.1 hnonempty)) hnonempty rfl
  | set members =>
    obtain rfl : j = .array (members.entries.map fun e => .string e.1) := h
    have hitems := unmarshalItems_texts rt members.keys
    have hkeys : (members.entries.map fun e => Json.string e.1) = members.keys.map .string := by
      rw [AList.keys, List.keys, List.map_map]
      rfl
    have hne : members.keys ≠ [] := by
      intro hnil
      have hentries : members.entries = [] := List.map_eq_nil_iff.1 hnil
      rw [Value.isEmpty, hentries] at hnonempty
      cases hnonempty
    have hnodup : ((members.keys.map fun m => (m, ())).map Prod.fst).Nodup := by
      rw [List.map_map]
      exact (List.map_id members.keys).symm ▸ members.keys_nodup
    have hadded := insertAll_empty_perm hnodup
    have hback : (members.keys.map fun m => (m, ())).map (fun f => (⟨f.1, f.2⟩ : Sigma fun _ : Text => Unit)) =
        members.entries := by
      rw [AList.keys, List.keys, List.map_map, List.map_map]
      exact List.map_id members.entries
    rw [hback] at hadded
    rw [unmarshal, hkeys, hitems]
    refine saved_of_store (saveValue_set rt.libs hne) (insertAll_ne_nil ?_ _) hadded
    exact fun hnil => hne (List.map_eq_nil_iff.1 hnil)
  | zset scores => exact h.elim
  | other type => exact h.elim

end

/-! ## The size of the request -/

def quotedSize (text : Text) : Nat := byteLength (JsonEscapes.browser.quote text)

/-- The marks and the commas around and between at least one value. -/
def listSize (sizes : List Nat) : Nat := sizes.sum + sizes.length + 1

def valueSize : Value → Nat
  | .string text => quotedSize text
  | .hash fields => listSize (fields.entries.map fun e => quotedSize e.1 + 1 + quotedSize e.2)
  | .list items => listSize (items.map quotedSize)
  | .set members => listSize (members.entries.map fun e => quotedSize e.1)
  | .zset _ | .other _ => 0

/-- The bytes of the body with which the view saves a key. -/
def requestSize (key : Text) (value : Value) : Nat :=
  quotedSize key + quotedSize value.type + valueSize value + 35

theorem byteLength_append (a b : Text) : byteLength (a ++ b) = byteLength a + byteLength b := by
  rw [byteLength, List.map_append, List.sum_append]
  rfl

theorem byteLength_cons (c : Char) (rest : Text) : byteLength (c :: rest) = c.utf8Size + byteLength rest := rfl

theorem listSize_perm {a b : List Nat} (h : a.Perm b) : listSize a = listSize b := by
  rw [listSize, listSize, h.sum_eq, h.length_eq]

theorem byteLength_elements (items : List Text) :
    byteLength (writeElements .browser [] [] (items.map .string)) = (items.map quotedSize).sum + items.length + 1 := by
  induction items with
  | nil => rfl
  | cons item rest ih =>
    show byteLength (',' :: (JsonEscapes.browser.quote item ++ writeElements .browser [] [] (rest.map .string))) = _
    rw [byteLength_cons, byteLength_append, ih, List.map_cons, List.sum_cons, List.length_cons, quotedSize]
    show 1 + _ = _
    omega

theorem byteLength_array {items : List Text} (hne : items ≠ []) :
    byteLength (writeJson .browser [] [] (.array (items.map .string))) = listSize (items.map quotedSize) := by
  cases items with
  | nil => exact absurd rfl hne
  | cons item rest =>
    -- the bracket is as long as the comma in front of the first item
    have helements := byteLength_elements (item :: rest)
    rw [listSize, List.length_map]
    exact helements

theorem byteLength_fields (l : List (Text × Text)) :
    byteLength (writeFields .browser [] [] (textFields l)) =
      (l.map fun f => quotedSize f.1 + 1 + quotedSize f.2).sum + l.length + 1 := by
  induction l with
  | nil => rfl
  | cons f rest ih =>
    show byteLength (',' :: (JsonEscapes.browser.quote f.1 ++ [':'] ++ JsonEscapes.browser.quote f.2 ++
      writeFields .browser [] [] (textFields rest))) = _
    rw [byteLength_cons, byteLength_append, byteLength_append, byteLength_append, ih, List.map_cons, List.sum_cons,
      List.length_cons, quotedSize, quotedSize]
    show 1 + (_ + 1 + _ + _) = _
    omega

theorem byteLength_object {l : List (Text × Text)} (hne : l ≠ []) :
    byteLength (writeJson .browser [] [] (.object (textFields l))) =
      listSize (l.map fun f => quotedSize f.1 + 1 + quotedSize f.2) := by
  cases l with
  | nil => exact absurd rfl hne
  | cons f rest =>
    have hfields := byteLength_fields (f :: rest)
    rw [listSize, List.length_map]
    exact hfields

theorem Arrives.size {value : Value} {j : Json} (h : Arrives value j) (hnonempty : value.isEmpty = false) :
    byteLength (writeJson .browser [] [] j) = valueSize value := by
  cases value with
  | string text =>
    obtain rfl : j = .string text := h
    rfl
  | hash fields =>
    obtain ⟨l, rfl, hl⟩ := h
    have hne : l ≠ [] := by
      rintro rfl
      have hnil : fields.entries = [] := List.map_eq_nil_iff.1 hl.symm.eq_nil
      rw [Value.isEmpty, hnil] at hnonempty
      cases hnonempty
    rw [byteLength_object hne, valueSize]
    refine listSize_perm ((hl.map _).trans ?_)
    rw [List.map_map]
    exact List.Perm.refl _
  | list items =>
    obtain rfl : j = .array (items.map .string) := h
    exact byteLength_array (List.isEmpty_eq_false_iff.1 hnonempty)
  | set members =>
    obtain rfl : j = .array (members.entries.map fun e => .string e.1) := h
    have hne : (members.entries.map fun e => e.1) ≠ [] := by
      intro hnil
      rw [Value.isEmpty, List.map_eq_nil_iff.1 hnil] at hnonempty
      cases hnonempty
    have harray := byteLength_array hne
    rw [List.map_map, List.map_map] at harray
    exact harray
  | zset scores => exact h.elim
  | other type => exact h.elim

theorem byteLength_requestBody (key type : Text) (j : Json) :
    byteLength (requestBody key type j) =
      quotedSize key + quotedSize type + byteLength (writeJson .browser [] [] j) + 35 := by
  have hkey : JsonEscapes.browser.quote "key".toList = "\"key\"".toList := rfl
  have htype : JsonEscapes.browser.quote "type".toList = "\"type\"".toList := rfl
  have hvalue : JsonEscapes.browser.quote "value".toList = "\"value\"".toList := rfl
  have hbody : requestBody key type j =
      "\x7b\"key\":".toList ++ JsonEscapes.browser.quote key ++ ",\"value\":\x7b\"type\":".toList ++
        JsonEscapes.browser.quote type ++ ",\"value\":".toList ++ writeJson .browser [] [] j ++
          "\x7d\x7d".toList := by
    simp only [requestBody, writeJson, writeFields, newline, colon, hkey, htype, hvalue, if_true, List.append_nil]
    simp
  rw [hbody]
  simp only [byteLength_append, quotedSize]
  show 7 + _ + 17 + _ + 9 + _ + 2 = _
  omega

/-! ## There and back -/

section

variable {rt : Runtime} {now durationMs : Int} {ks : Keyspace} {key : Text} {entry : Entry}

theorem getKey_ok (hkey : key ≠ []) (hentry : ks key = some entry) {literal : Number → Text} {libs : Libraries}
    {v : GoAny} (hv : readValue literal entry.value = .ok v) :
    getKey libs literal now ks key = .ok ⟨key, entry.value.type, ttlSeconds now entry.expiry, v⟩ := by
  rw [getKey, if_neg hkey, hentry]
  dsimp only
  rw [hv]

/-- The body with which a value is saved as it is shown. -/
theorem save_load (rt : Runtime) (durationMs : Int) (key : Text) (detail : KeyDetail) {j : Json}
    (hmarshal : marshal detail.value = some j)
    (hstring : detail.type = "string".toList ↔ ∃ text, j = .string text) :
    ∃ j', ((load rt (writeDetail detail durationMs)).bind fun shown => save rt key shown) =
        some (requestBody key detail.type j') ∧
      (j' = toBrowser rt (toBrowser rt j) ∨ j' = j ∧ ∃ text, j = .string text) := by
  have hvalid : (toBrowser rt j).Valid := toBrowser_valid j (marshal_valid _ hmarshal)
  rw [load_writeDetail hmarshal]
  by_cases htext : ∃ text, j = .string text
  · obtain ⟨text, rfl⟩ := htext
    refine ⟨.string text, ?_, Or.inr ⟨rfl, text, rfl⟩⟩
    show save rt key ⟨detail.type, text⟩ = _
    rw [save, if_neg (not_not.2 (hstring.2 ⟨text, rfl⟩))]
  · refine ⟨toBrowser rt (toBrowser rt j), ?_, Or.inl rfl⟩
    have hshown : (match toBrowser rt j with
        | .string text => some ⟨detail.type, text⟩
        | shown => some (⟨detail.type, writeJson .browser [' ', ' '] [] shown⟩ : Shown)) =
          some ⟨detail.type, writeJson .browser [' ', ' '] [] (toBrowser rt j)⟩ := by
      cases j with
      | string text => exact absurd ⟨text, rfl⟩ htext
      | _ => rfl
    rw [hshown, Option.bind_some, save, if_pos (fun heq => htext (hstring.1 heq)),
      parseJson_writeJson (by simp [isJsonSpace]) hvalid]
    rfl

/-- What the request brings to the service. -/
theorem saveUnedited_eq (rt : Runtime) (now durationMs : Int) (hkey : key ≠ []) (hentry : ks key = some entry)
    {v : GoAny} {j : Json}
    (hv : readValue rt.formatFloat entry.value = .ok v) (hmarshal : marshal v = some j)
    (hstring : entry.value.type = "string".toList ↔ ∃ text, j = .string text) :
    ∃ j', (j' = toBrowser rt (toBrowser rt j) ∨ j' = j ∧ ∃ text, j = .string text) ∧
      saveUnedited rt now durationMs ks key =
        if bodyLimit < byteLength (requestBody key entry.value.type j') then none
        else some (saveKey rt.libs now ks key ⟨entry.value.type, unmarshal rt j', none⟩) := by
  obtain ⟨j', hbody, hj'⟩ := save_load rt durationMs key
    ⟨key, entry.value.type, ttlSeconds now entry.expiry, v⟩ hmarshal hstring
  have hvalid : j'.Valid := by
    rcases hj' with rfl | ⟨rfl, -⟩
    · exact toBrowser_valid _ (toBrowser_valid j (marshal_valid v hmarshal))
    · exact marshal_valid v hmarshal
  refine ⟨j', hj', ?_⟩
  rw [saveUnedited, getKey_ok hkey hentry hv]
  dsimp only
  rw [← Option.bind_assoc, hbody, Option.bind_some, decodeJSON_requestBody hvalid]
  split <;> rfl

/-- A sorted set comes back as a slice, which is not the slice of maps that `SaveKey` asks for. -/
theorem not_savesUnchanged_zset (entry : Entry) {scores : Table Text Number} (hkey : key ≠ [])
    (hentry : ks key = some entry) (hzset : entry.value = .zset scores) :
    ¬ SavesUnchanged rt now durationMs ks key entry.value := by
  rintro ⟨ks', e, hsaved, -, -⟩
  have hv : readValue rt.formatFloat entry.value = .ok (.maps (scores.entries.map fun e =>
      [("member".toList, .string e.1), ("score".toList, .float64 (rt.formatFloat e.2))])) := by rw [hzset]; rfl
  have htype : entry.value.type = "zset".toList := by rw [hzset]; rfl
  cases hmarshal : marshal (.maps (scores.entries.map fun e =>
      [("member".toList, .string e.1), ("score".toList, .float64 (rt.formatFloat e.2))])) with
  | none =>
    -- a score that is infinite: the answer is empty
    rw [saveUnedited, getKey_ok hkey hentry hv] at hsaved
    dsimp only at hsaved
    rw [writeDetail, hmarshal] at hsaved
    cases hsaved
  | some j =>
    obtain ⟨js, -, rfl⟩ := Option.map_eq_some_iff.1 hmarshal
    have hstring : entry.value.type = "string".toList ↔ ∃ text, Json.array js = .string text := by
      rw [htype]
      exact iff_of_false (by decide) (by simp)
    obtain ⟨j', hj', heq⟩ := saveUnedited_eq rt now durationMs hkey hentry hv hmarshal hstring
    obtain rfl : j' = toBrowser rt (toBrowser rt (.array js)) := hj'.resolve_right (by simp)
    rw [heq, htype] at hsaved
    split at hsaved
    · cases hsaved
    · have hrefused : saveKey rt.libs now ks key
          ⟨"zset".toList, unmarshal rt (toBrowser rt (toBrowser rt (.array js))), none⟩ = refuse ks "zset value must be an array of \x7bmember, score\x7d" := by
        rw [saveKey, if_neg hkey]
        rfl
      rw [hrefused] at hsaved
      cases hsaved

theorem type_eq_string {value : Value} {j : Json} (h : Arrives value j) :
    value.type = "string".toList ↔ ∃ text, j = .string text := by
  cases value with
  | string text => exact iff_of_true rfl ⟨text, h⟩
  | hash fields =>
    obtain ⟨l, rfl, -⟩ := h
    exact iff_of_false (show "hash".toList ≠ "string".toList by decide) (by simp)
  | list items =>
    obtain rfl : j = _ := h
    exact iff_of_false (show "list".toList ≠ "string".toList by decide) (by simp)
  | set members =>
    obtain rfl : j = _ := h
    exact iff_of_false (show "set".toList ≠ "string".toList by decide) (by simp)
  | zset scores => exact h.elim
  | other type => exact h.elim

/-- A key that is saved as it is shown keeps its value if and only if it has a name, it is no sorted set, and the
request has no more bytes than a body may have. -/
theorem saveUnedited_iff (rt : Runtime) (now durationMs : Int) (ks : Keyspace) (key : Text) (entry : Entry)
    (hentry : ks key = some entry) (hknown : ∀ type, entry.value ≠ .other type) :
    SavesUnchanged rt now durationMs ks key entry.value ↔
      key ≠ [] ∧ (∀ scores, entry.value ≠ .zset scores) ∧ requestSize key entry.value ≤ bodyLimit := by
  by_cases hkey : key = []
  · refine iff_of_false ?_ fun h => h.1 hkey
    rintro ⟨ks', e, hsaved, -⟩
    rw [saveUnedited, getKey, if_pos hkey] at hsaved
    cases hsaved
  by_cases hzset : ∃ scores, entry.value = .zset scores
  · obtain ⟨scores, hscores⟩ := hzset
    exact iff_of_false (not_savesUnchanged_zset entry hkey hentry hscores) fun h => h.2.1 scores hscores
  have hnot : ∀ scores, entry.value ≠ .zset scores := fun scores heq => hzset ⟨scores, heq⟩
  obtain ⟨v, j, hv, hmarshal, harrives⟩ := arrives_marshal rt.formatFloat hnot hknown
  obtain ⟨j', hj', heq⟩ := saveUnedited_eq rt now durationMs hkey hentry hv hmarshal (type_eq_string harrives)
  have harrives' : Arrives entry.value j' := by
    rcases hj' with rfl | ⟨rfl, -⟩
    · exact harrives.toBrowser.toBrowser
    · exact harrives
  have hsize : byteLength (requestBody key entry.value.type j') = requestSize key entry.value := by
    rw [byteLength_requestBody, harrives'.size entry.nonempty, requestSize]
  rw [SavesUnchanged, heq, hsize]
  by_cases hlarge : bodyLimit < requestSize key entry.value
  · rw [if_pos hlarge]
    refine iff_of_false ?_ fun h => absurd h.2.2 (by omega)
    rintro ⟨ks', e, ⟨⟩, -⟩
  · rw [if_neg hlarge]
    refine iff_of_true ?_ ⟨hkey, hnot, by omega⟩
    obtain ⟨ks', e, hsave, he, hsame⟩ := harrives'.saved rt now ks key entry.nonempty
    refine ⟨ks', e, ?_, he, hsame⟩
    rw [saveKey, if_neg hkey, hsave]

end

/-- A list of two texts. -/
def inbox : Keyspace := Keyspace.store (fun _ => none) "inbox".toList (.list ["a".toList, "b".toList]) none

theorem saveUnedited_iff_inbox :
    SavesUnchanged default 0 0 inbox "inbox".toList (.list ["a".toList, "b".toList]) :=
  (saveUnedited_iff default 0 0 inbox "inbox".toList ⟨.list ["a".toList, "b".toList], none, rfl⟩
    (Keyspace.store_self rfl) (by simp)).2 ⟨by decide, by simp, by decide⟩

def ranking : Value := .zset (AList.singleton "a".toList (Number.ofInt 1))

/-- No sorted set can be saved as it is shown. -/
theorem saveUnedited_refuses_zset :
    ¬ SavesUnchanged default 0 0 (Keyspace.store (fun _ => none) "ranking".toList ranking none) "ranking".toList
      ranking :=
  not_savesUnchanged_zset ⟨ranking, none, rfl⟩ (by decide) (Keyspace.store_self rfl) rfl

end Workbench.Redis
