import Mathlib.Data.Char
import Mathlib.Data.List.Lex
import Workbench.Lib.Double
import Workbench.Lib.MapOrder

/-!
# Documents and their JSON

What `api/internal/mongo/service.go` makes of documents on their way to the browser and back. `encoding/json`,
`JSON.parse`, `JSON.stringify` and `bson.UnmarshalExtJSON` are taken together: a JSON text is its value, and a
number is a double once the browser has read it.

A document of the database has its fields in an order. The program reads it, with the documents inside it, into maps:
of one name the last value counts, and each loop over a map has an order of its own.
-/

set_option autoImplicit false

namespace Workbench.Mongo

open Workbench.Lib

/-! ## Values -/

inductive Bson where
  | null
  | bool (value : Bool)
  | int32 (value : Int)
  | int64 (value : Int)
  | double (value : Number)
  | nan
  | string (value : Text)
  | objectID (hex : Text)
  | dateTime (ms : Int)
  | array (elements : List Bson)
  | document (fields : List (Text × Bson))
  /-- Any other type of BSON. -/
  | other (kind content : Text)

inductive Json where
  | null
  | bool (value : Bool)
  | number (value : Double)
  | string (value : Text)
  | array (elements : List Json)
  | object (fields : List (Text × Json))

/-- A document with its fields in their order, no two of one name. The program's own documents are `bson.M`, where the
order says nothing. -/
abbrev Doc := Table Text Bson

def fieldsOf (doc : Doc) : List (Text × Bson) := doc.entries.map fun e => (e.1, e.2)

/-- Where in a value something stands. -/
inductive Place where
  | field (name : Text)
  | element (i : Nat)
  deriving DecidableEq, Repr

/-- The order of a run for each map of a value, by the way that leads to it. -/
abbrev Orders := List Place → MapOrder Text

def Orders.below (orders : Orders) (p : Place) : Orders := fun way => orders (p :: way)

/-- What the libraries do with times, with the other types, and with objects that have a key beginning with a
dollar sign, in whatever order the browser sends its keys; `unmarshalError` is the text of an error of
`UnmarshalExtJSON`. With them come the orders of a run: those of the maps of the page that is read, of its flat
documents, and of the maps that are written. -/
structure Codec where
  formatTime : Int → Text
  marshalTime : Int → Option Text
  marshalOther : (kind content : Text) → Option Json
  unmarshalSpecial : List (Text × Json) → Option Bson
  unmarshalError : Json → Text
  readOrder : Orders
  columnOrder : Nat → MapOrder Text
  writeOrder : Orders

/-- A codec without special objects, for the runs on fixed inputs. -/
instance : Inhabited Codec where
  default := ⟨fun ms => (toString ms).toList, fun ms => some (toString ms).toList, fun _ _ => none, fun _ => none,
    fun _ => [], fun _ => .byKey, fun _ => .byKey, fun _ => .byKey⟩

section

variable (codec : Codec)

/-! ## To the browser -/

/-- The double that the browser reads for a whole number. -/
def wholeNumber (n : Int) : Option Double :=
  match Number.ofRatio (n < 0) n.natAbs 1 with
  | .finite x => some x
  | .infinite _ => none

mutual

/-- `json.Marshal`, which knows no infinite number and sorts the keys of a map, and `JSON.parse`. -/
def toJson : Bson → Option Json
  | .null => some .null
  | .bool value => some (.bool value)
  | .int32 value => (wholeNumber value).map Json.number
  | .int64 value => (wholeNumber value).map Json.number
  | .double (.finite x) => some (.number x)
  | .double (.infinite _) => none
  | .nan => none
  | .string value => some (.string value)
  | .objectID hex => some (.string hex)
  | .dateTime ms => (codec.marshalTime ms).map Json.string
  | .array elements => (elementsToJson elements).map Json.array
  | .document fields => (fieldsToJson fields).map fun js => .object (MapOrder.byKey.arranged js)
  | .other kind content => codec.marshalOther kind content

def elementsToJson : List Bson → Option (List Json)
  | [] => some []
  | v :: rest => (toJson v).bind fun j => (elementsToJson rest).map (j :: ·)

/-- A field whose name comes again is not in the map. -/
def fieldsToJson : List (Text × Bson) → Option (List (Text × Json))
  | [] => some []
  | (key, v) :: rest =>
    if key ∈ rest.map Prod.fst then fieldsToJson rest
    else (toJson v).bind fun j => (fieldsToJson rest).map ((key, j) :: ·)

end

mutual

/-- A value as `flattenValue` comes to it, map by map. The maps inside arrays are left to `json.Marshal`. -/
def visited (orders : Orders) : Bson → Bson
  | .document fields => .document ((orders []).arranged (visitedFields orders fields))
  | v => v

def visitedFields (orders : Orders) : List (Text × Bson) → List (Text × Bson)
  | [] => []
  | (key, v) :: rest =>
    if key ∈ rest.map Prod.fst then visitedFields orders rest
    else (key, visited (orders.below (.field key)) v) :: visitedFields orders rest

end

def formatScalar : Bson → Bson
  | .objectID hex => .string hex
  | .dateTime ms => .string (codec.formatTime ms)
  | v => v

mutual

/-- The assignments to `out`, in their order. -/
def flattenValue (p : Text) : Bson → List (Text × Bson)
  | .document fields => flattenFields p fields
  | .array elements => if p ≠ [] then [(p, .array elements)] else []
  | v => if p ≠ [] then [(p, formatScalar codec v)] else []

def flattenFields (p : Text) : List (Text × Bson) → List (Text × Bson)
  | [] => []
  | (key, v) :: rest =>
    flattenValue (if p ≠ [] then p ++ '.' :: key else key) v ++ flattenFields p rest

end

/-- A flat document, from the map that is at `i` in the page: of the assignments to one key the last one counts. -/
def flattenDocument (i : Nat) (doc : Doc) : List (Text × Bson) :=
  let orders := codec.readOrder.below (.element i)
  flattenFields codec [] ((orders []).arranged (visitedFields orders (fieldsOf doc)))

def flattenDocuments (docs : List Doc) : List (List (Text × Bson)) := docs.mapIdx (flattenDocument codec)

/-- `doc[name]` of a flat document. -/
def cellOf (flat : List (Text × Bson)) (name : Text) : Bson :=
  ((flat.reverse.find? fun entry => entry.1 = name).map Prod.snd).getD .null

/-- The body of the loop of `collectColumns`. -/
def addColumn (columns : List Text) (name : Text) : List Text :=
  if name ∈ columns then columns else columns ++ [name]

/-- The keys of flat documents, each once. -/
def collectColumns (flats : List (List (Text × Bson))) : List Text :=
  (flats.mapIdx fun i flat => ((codec.columnOrder i).arranged flat).map Prod.fst).flatten.foldl addColumn []

/-! ## From the browser -/

/-- A number as `JSON.stringify` writes it and `UnmarshalExtJSON` reads it. -/
def fromNumber (x : Double) : Option Bson :=
  let written := (Number.finite x).text
  if '.' ∈ written ∨ 'e' ∈ written then some (.double (.finite x))
  else
    -- neither a point nor an exponent: a whole number, which must be in the range of `int64`
    let n : Int := if x.negative then -(Nat.ofDigitChars 10 written.tail 0 : Nat) else Nat.ofDigitChars 10 written 0
    if -2 ^ 31 ≤ n ∧ n < 2 ^ 31 then some (.int32 n)
    else if -2 ^ 63 ≤ n ∧ n < 2 ^ 63 then some (.int64 n)
    else none

def isSpecial (fields : List (Text × Json)) : Bool := fields.any fun field => field.1.head? = some '$'

mutual

/-- `JSON.stringify` and `bson.UnmarshalExtJSON`. -/
def fromJson : Json → Option Bson
  | .null => some .null
  | .bool value => some (.bool value)
  | .number x => fromNumber x
  | .string value => some (.string value)
  | .array elements => (elementsFromJson elements).map Bson.array
  | .object fields =>
    if isSpecial fields then codec.unmarshalSpecial fields else (fieldsFromJson fields).map Bson.document

def elementsFromJson : List Json → Option (List Bson)
  | [] => some []
  | j :: rest => (fromJson j).bind fun v => (elementsFromJson rest).map (v :: ·)

def fieldsFromJson : List (Text × Json) → Option (List (Text × Bson))
  | [] => some []
  | (key, j) :: rest => (fromJson j).bind fun v => (fieldsFromJson rest).map ((key, v) :: ·)

end

/-- The map of fields; of one key the last one counts. -/
def docOf (fields : List (Text × Bson)) : Doc := fields.foldl (fun doc field => doc.insert field.1 field.2) ∅

mutual

/-- A value as the driver writes it, map by map. -/
def written (orders : Orders) : Bson → Bson
  | .array elements => .array (writtenElements orders 0 elements)
  | .document fields => .document ((orders []).arranged (writtenFields orders fields))
  | v => v

def writtenElements (orders : Orders) (i : Nat) : List Bson → List Bson
  | [] => []
  | v :: rest => written (orders.below (.element i)) v :: writtenElements orders (i + 1) rest

def writtenFields (orders : Orders) : List (Text × Bson) → List (Text × Bson)
  | [] => []
  | (key, v) :: rest =>
    if key ∈ rest.map Prod.fst then writtenFields orders rest
    else (key, written (orders.below (.field key)) v) :: writtenFields orders rest

end

/-- A map as the driver sends it. -/
def sent (orders : Orders) (doc : Doc) : Doc := (orders []).table (docOf (writtenFields orders (fieldsOf doc)))

/-- `bson.UnmarshalExtJSON` into a `bson.M`. -/
def unmarshalExtJSON (raw : Json) : Option Doc :=
  match fromJson codec raw with
  | some (.document fields) => some (docOf fields)
  | _ => none

/-- `rawToBSON`; a `json.RawMessage` may be absent. -/
def rawToBSON (raw : Option Json) : Except Text Doc :=
  match raw with
  | none => .ok ∅
  | some .null => .ok ∅
  | some j =>
    match unmarshalExtJSON codec j with
    | some doc => .ok doc
    | none => .error ("invalid JSON/BSON: ".toList ++ codec.unmarshalError j)

/-! ## There and back -/

/-- A value behind its way to the browser and back. -/
def back (v : Bson) : Option Bson := (toJson codec v).bind (fromJson codec)

/-- What is stored for a value that was shown and is sent back. -/
def stored (orders : Orders) (v : Bson) : Option Bson := (back codec v).map (written orders)

variable {codec}

theorem back_null : back codec .null = some .null := rfl

theorem back_string (text : Text) : back codec (.string text) = some (.string text) := rfl

/-! ## Fields there and back -/

/-- Neither a list nor a map, so that there is nothing to arrange in it. -/
def Bson.IsScalar : Bson → Prop
  | .array _ => False
  | .document _ => False
  | _ => True

/-- What is written as a scalar is one. -/
theorem written_eq_scalar_iff {orders : Orders} (v w : Bson) (hv : v.IsScalar) : written orders w = v ↔ w = v := by
  cases w with
  | array elements =>
    rw [written]
    refine iff_of_false ?_ ?_ <;> rintro rfl <;> exact hv
  | document fields =>
    rw [written]
    refine iff_of_false ?_ ?_ <;> rintro rfl <;> exact hv
  | _ => exact Iff.rfl

theorem map_written_scalar_iff {orders : Orders} {x : Option Bson} (v : Bson) (hv : v.IsScalar) :
    x.map (written orders) = some v ↔ x = some v := by
  cases x with
  | none => simp
  | some w => rw [Option.map_some, Option.some.injEq, Option.some.injEq, written_eq_scalar_iff v w hv]

theorem writtenFields_of_nodup (orders : Orders) {fields : List (Text × Bson)} (h : (fields.map Prod.fst).Nodup) :
    writtenFields orders fields =
      fields.map fun field => (field.1, written (orders.below (.field field.1)) field.2) := by
  induction fields with
  | nil => rfl
  | cons field rest ih =>
    obtain ⟨hnot, hrest⟩ := List.nodup_cons.1 h
    rw [writtenFields, if_neg hnot, ih hrest]
    rfl

theorem visitedFields_of_nodup (orders : Orders) {fields : List (Text × Bson)} (h : (fields.map Prod.fst).Nodup) :
    visitedFields orders fields =
      fields.map fun field => (field.1, visited (orders.below (.field field.1)) field.2) := by
  induction fields with
  | nil => rfl
  | cons field rest ih =>
    obtain ⟨hnot, hrest⟩ := List.nodup_cons.1 h
    rw [visitedFields, if_neg hnot, ih hrest]
    rfl

/-- An object has the names of the fields, each once. -/
theorem names_fieldsToJson {fields : List (Text × Bson)} {js : List (Text × Json)}
    (h : fieldsToJson codec fields = some js) :
    (js.map Prod.fst).Nodup ∧ ∀ name, name ∈ js.map Prod.fst ↔ name ∈ fields.map Prod.fst := by
  induction fields generalizing js with
  | nil =>
    cases h
    exact ⟨List.nodup_nil, fun name => Iff.rfl⟩
  | cons field rest ih =>
    obtain ⟨key, v⟩ := field
    rw [fieldsToJson] at h
    split at h
    next hagain =>
      obtain ⟨hnodup, hnames⟩ := ih h
      refine ⟨hnodup, fun name => ?_⟩
      rw [hnames, List.map_cons, List.mem_cons]
      exact ⟨Or.inr, fun hname => hname.elim (fun heq => heq ▸ hagain) id⟩
    next hlast =>
      obtain ⟨j, -, hrest⟩ := Option.bind_eq_some_iff.1 h
      obtain ⟨more, hmore, rfl⟩ := Option.map_eq_some_iff.1 hrest
      obtain ⟨hnodup, hnames⟩ := ih hmore
      rw [← hnames] at hlast
      refine ⟨List.nodup_cons.2 ⟨hlast, hnodup⟩, fun name => ?_⟩
      rw [List.map_cons, List.map_cons, List.mem_cons, List.mem_cons, hnames]

/-- Each member of an object comes from a field. -/
theorem mem_fieldsToJson {fields : List (Text × Bson)} {js : List (Text × Json)}
    (h : fieldsToJson codec fields = some js) {name : Text} {j : Json} (hj : (name, j) ∈ js) :
    ∃ v, (name, v) ∈ fields ∧ toJson codec v = some j := by
  induction fields generalizing js with
  | nil =>
    cases h
    cases hj
  | cons field rest ih =>
    obtain ⟨key, v⟩ := field
    rw [fieldsToJson] at h
    split at h
    · obtain ⟨w, hw, hjson⟩ := ih h hj
      exact ⟨w, List.mem_cons_of_mem _ hw, hjson⟩
    · obtain ⟨first, hfirst, hrest⟩ := Option.bind_eq_some_iff.1 h
      obtain ⟨more, hmore, rfl⟩ := Option.map_eq_some_iff.1 hrest
      rcases List.mem_cons.1 hj with heq | hmem
      · obtain ⟨rfl, rfl⟩ := Prod.mk.inj heq
        exact ⟨v, List.mem_cons_self, hfirst⟩
      · obtain ⟨w, hw, hjson⟩ := ih hmore hmem
        exact ⟨w, List.mem_cons_of_mem _ hw, hjson⟩

/-- Fields of different names whose values all have a JSON text. -/
theorem exists_fieldsToJson {fields : List (Text × Bson)} (hnodup : (fields.map Prod.fst).Nodup)
    (h : ∀ field ∈ fields, ∃ j, toJson codec field.2 = some j) : ∃ js, fieldsToJson codec fields = some js := by
  induction fields with
  | nil => exact ⟨[], rfl⟩
  | cons field rest ih =>
    obtain ⟨hnot, hrest⟩ := List.nodup_cons.1 hnodup
    rw [List.forall_mem_cons] at h
    obtain ⟨⟨j, hj⟩, hall⟩ := h
    obtain ⟨js, hjs⟩ := ih hrest hall
    refine ⟨(field.1, j) :: js, ?_⟩
    rw [fieldsToJson, if_neg hnot, hj, hjs]
    rfl

theorem names_fieldsFromJson {js : List (Text × Json)} {fields : List (Text × Bson)}
    (h : fieldsFromJson codec js = some fields) : fields.map Prod.fst = js.map Prod.fst := by
  induction js generalizing fields with
  | nil =>
    cases h
    rfl
  | cons first rest ih =>
    obtain ⟨key, j⟩ := first
    rw [fieldsFromJson] at h
    obtain ⟨v, -, hrest⟩ := Option.bind_eq_some_iff.1 h
    obtain ⟨more, hmore, rfl⟩ := Option.map_eq_some_iff.1 hrest
    rw [List.map_cons, List.map_cons, ih hmore]

/-- Each field that is read comes from a member. -/
theorem mem_fieldsFromJson {js : List (Text × Json)} {fields : List (Text × Bson)}
    (h : fieldsFromJson codec js = some fields) {name : Text} {v : Bson} (hv : (name, v) ∈ fields) :
    ∃ j, (name, j) ∈ js ∧ fromJson codec j = some v := by
  induction js generalizing fields with
  | nil =>
    cases h
    cases hv
  | cons first rest ih =>
    obtain ⟨key, j⟩ := first
    rw [fieldsFromJson] at h
    obtain ⟨w, hw, hrest⟩ := Option.bind_eq_some_iff.1 h
    obtain ⟨more, hmore, rfl⟩ := Option.map_eq_some_iff.1 hrest
    rcases List.mem_cons.1 hv with heq | hmem
    · obtain ⟨rfl, rfl⟩ := Prod.mk.inj heq
      exact ⟨j, List.mem_cons_self, hw⟩
    · obtain ⟨i, hi, hjson⟩ := ih hmore hmem
      exact ⟨i, List.mem_cons_of_mem _ hi, hjson⟩

theorem exists_fieldsFromJson {js : List (Text × Json)}
    (h : ∀ member ∈ js, ∃ v, fromJson codec member.2 = some v) : ∃ fields, fieldsFromJson codec js = some fields := by
  induction js with
  | nil => exact ⟨[], rfl⟩
  | cons member rest ih =>
    rw [List.forall_mem_cons] at h
    obtain ⟨⟨v, hv⟩, hall⟩ := h
    obtain ⟨fields, hfields⟩ := ih hall
    refine ⟨(member.1, v) :: fields, ?_⟩
    rw [fieldsFromJson, hv, hfields]
    rfl

/-- Whether an object has a key with a dollar sign is seen on the fields. -/
theorem isSpecial_of_fieldsToJson {fields : List (Text × Bson)} {js : List (Text × Json)}
    (h : fieldsToJson codec fields = some js) :
    isSpecial (MapOrder.byKey.arranged js) = fields.any fun field => field.1.head? = some '$' := by
  have hnames := (names_fieldsToJson h).2
  rw [Bool.eq_iff_iff, isSpecial, List.any_eq_true, List.any_eq_true]
  constructor
  · rintro ⟨member, hmember, hkey⟩
    have hname := (hnames member.1).1 (List.mem_map.2 ⟨member, (MapOrder.mem_arranged _).1 hmember, rfl⟩)
    obtain ⟨field, hfield, heq⟩ := List.mem_map.1 hname
    exact ⟨field, hfield, heq ▸ hkey⟩
  · rintro ⟨field, hfield, hkey⟩
    have hname := (hnames field.1).2 (List.mem_map.2 ⟨field, hfield, rfl⟩)
    obtain ⟨member, hmember, heq⟩ := List.mem_map.1 hname
    exact ⟨member, (MapOrder.mem_arranged _).2 hmember, heq ▸ hkey⟩

/-! ## Values that are kept -/

mutual

/-- The value is one that comes back and is written as it was: it has no ObjectID, no time and no number of another
type than the one that its text is read as, and in each map of it the names are different and come in the order of the
run. -/
def Kept (codec : Codec) (orders : Orders) : Bson → Prop
  | .null => True
  | .bool _ => True
  | .int32 value => (wholeNumber value).bind fromNumber = some (.int32 value)
  | .int64 value => (wholeNumber value).bind fromNumber = some (.int64 value)
  | .double (.finite x) => fromNumber x = some (.double (.finite x))
  | .double (.infinite _) => False
  | .nan => False
  | .string _ => True
  | .objectID _ => False
  | .dateTime _ => False
  | .array elements => ElementsKept codec orders 0 elements
  | .document fields =>
    if fields.any fun field => field.1.head? = some '$' then
      ((fieldsToJson codec fields).bind fun js => codec.unmarshalSpecial (MapOrder.byKey.arranged js)).map
        (written orders) = some (.document fields)
    else
      (fields.map Prod.fst).Nodup ∧ fields.Pairwise (orders []).Before ∧ FieldsKept codec orders fields
  | .other kind content => (codec.marshalOther kind content).bind (fromJson codec) = some (.other kind content)

def ElementsKept (codec : Codec) (orders : Orders) (i : Nat) : List Bson → Prop
  | [] => True
  | v :: rest => Kept codec (orders.below (.element i)) v ∧ ElementsKept codec orders (i + 1) rest

def FieldsKept (codec : Codec) (orders : Orders) : List (Text × Bson) → Prop
  | [] => True
  | (key, v) :: rest => Kept codec (orders.below (.field key)) v ∧ FieldsKept codec orders rest

end

/-- A map comes back and is written as it was just if each of its values is and the run comes to its fields in their
order. -/
theorem fields_back_iff (orders : Orders) (fields : List (Text × Bson)) :
    (((fieldsToJson codec fields).map fun js => MapOrder.byKey.arranged js).bind (fieldsFromJson codec)).map
        (fun fields => (orders []).arranged (writtenFields orders fields)) = some fields ↔
      (fields.map Prod.fst).Nodup ∧ fields.Pairwise (orders []).Before ∧
        ∀ field ∈ fields, stored codec (orders.below (.field field.1)) field.2 = some field.2 := by
  constructor
  · intro h
    obtain ⟨read, hread, hwritten⟩ := Option.map_eq_some_iff.1 h
    obtain ⟨js', hjs', hfields⟩ := Option.bind_eq_some_iff.1 hread
    obtain ⟨js, hjs, rfl⟩ := Option.map_eq_some_iff.1 hjs'
    have hread : (read.map Prod.fst).Nodup := by
      rw [names_fieldsFromJson hfields]
      exact MapOrder.nodup_arranged _ (names_fieldsToJson hjs).1
    rw [writtenFields_of_nodup _ hread] at hwritten
    have hnodup : (fields.map Prod.fst).Nodup := by
      rw [← hwritten]
      refine MapOrder.nodup_arranged _ ?_
      rw [List.map_map]
      exact hread
    refine ⟨hnodup, hwritten ▸ MapOrder.pairwise_arranged _ _, ?_⟩
    -- A field of the map is the written one of its name.
    intro field hfield
    rw [← hwritten, MapOrder.mem_arranged] at hfield
    obtain ⟨⟨name, v⟩, hmem, rfl⟩ := List.mem_map.1 hfield
    obtain ⟨j, hj, hv⟩ := mem_fieldsFromJson hfields hmem
    obtain ⟨old, hold, htext⟩ := mem_fieldsToJson hjs ((MapOrder.mem_arranged _).1 hj)
    have hsame : (name, written (orders.below (.field name)) v) = (name, old) := by
      refine List.inj_on_of_nodup_map hnodup ?_ hold rfl
      rw [← hwritten, MapOrder.mem_arranged]
      exact hfield
    obtain ⟨-, heq⟩ := Prod.mk.inj hsame
    dsimp only
    rw [heq, stored, back, htext, Option.bind_some, hv, Option.map_some, heq]
  · rintro ⟨hnodup, hpairwise, hback⟩
    have htext : ∀ field ∈ fields, ∃ j, toJson codec field.2 = some j := by
      intro field hfield
      obtain ⟨w, hw, -⟩ := Option.map_eq_some_iff.1 (hback field hfield)
      obtain ⟨j, hj, -⟩ := Option.bind_eq_some_iff.1 hw
      exact ⟨j, hj⟩
    obtain ⟨js, hjs⟩ := exists_fieldsToJson hnodup htext
    -- What a member is read as is written as the field of its name.
    have hmember : ∀ member ∈ MapOrder.byKey.arranged js, ∃ v, fromJson codec member.2 = some v ∧
        (member.1, written (orders.below (.field member.1)) v) ∈ fields := by
      rintro ⟨name, j⟩ hmember
      obtain ⟨old, hold, hj⟩ := mem_fieldsToJson hjs ((MapOrder.mem_arranged _).1 hmember)
      obtain ⟨w, hw, hwritten⟩ := Option.map_eq_some_iff.1 (hback _ hold)
      rw [back, hj, Option.bind_some] at hw
      exact ⟨w, hw, hwritten ▸ hold⟩
    obtain ⟨read, hread⟩ := exists_fieldsFromJson fun member hm => (hmember member hm).imp fun v hv => hv.1
    have hnames : (read.map Prod.fst).Perm (fields.map Prod.fst) := by
      rw [names_fieldsFromJson hread]
      refine (MapOrder.names_arranged_perm _ _).trans ?_
      exact (List.perm_ext_iff_of_nodup (names_fieldsToJson hjs).1 hnodup).2 (names_fieldsToJson hjs).2
    rw [hjs, Option.map_some, Option.bind_some, hread, Option.map_some,
      writtenFields_of_nodup _ (hnames.nodup_iff.2 hnodup), Option.some.injEq]
    refine MapOrder.arranged_eq_of_subset _ ?_ (by rwa [List.map_map]) hnodup hpairwise
    intro field hfield
    obtain ⟨⟨name, v⟩, hmem, rfl⟩ := List.mem_map.1 hfield
    obtain ⟨j, hj, hv⟩ := mem_fieldsFromJson hread hmem
    obtain ⟨w, hw, hold⟩ := hmember _ hj
    rw [hv, Option.some.injEq] at hw
    rw [← hw] at hold
    exact hold

mutual

/-- The values that come back and are written as they were are the kept ones. -/
theorem stored_eq_iff : ∀ (v : Bson) (orders : Orders), stored codec orders v = some v ↔ Kept codec orders v
  | .null, orders => by
    rw [stored, map_written_scalar_iff (.null) trivial]
    simp [back, toJson, fromJson, Kept]
  | .bool value, orders => by
    rw [stored, map_written_scalar_iff (.bool value) trivial]
    simp [back, toJson, fromJson, Kept]
  | .int32 value, orders => by
    rw [stored, map_written_scalar_iff (.int32 value) trivial, back, toJson, Kept]
    cases wholeNumber value <;> simp [fromJson]
  | .int64 value, orders => by
    rw [stored, map_written_scalar_iff (.int64 value) trivial, back, toJson, Kept]
    cases wholeNumber value <;> simp [fromJson]
  | .double (.finite x), orders => by
    rw [stored, map_written_scalar_iff (.double (.finite x)) trivial]
    simp [back, toJson, fromJson, Kept]
  | .double (.infinite _), orders => by simp [stored, back, toJson, Kept]
  | .nan, orders => by simp [stored, back, toJson, Kept]
  | .string text, orders => by
    rw [stored, map_written_scalar_iff (.string text) trivial]
    simp [back, toJson, fromJson, Kept]
  | .objectID hex, orders => by
    rw [stored, map_written_scalar_iff (.objectID hex) trivial]
    simp [back, toJson, fromJson, Kept]
  | .dateTime ms, orders => by
    rw [stored, map_written_scalar_iff (.dateTime ms) trivial, back, toJson, Kept]
    cases codec.marshalTime ms <;> simp [fromJson]
  | .array elements, orders => by
    rw [Kept, ← elements_back_iff elements orders 0, stored, back, toJson]
    cases elementsToJson codec elements with
    | none => simp
    | some js =>
      simp only [Option.map_some, Option.bind_some, fromJson]
      cases elementsFromJson codec js <;> simp [written]
  | .document fields, orders => by
    rw [Kept, ← fieldsKept_iff fields orders, ← fields_back_iff orders fields, stored, back, toJson]
    cases hjs : fieldsToJson codec fields with
    | none => simp
    | some js =>
      rw [← isSpecial_of_fieldsToJson hjs, Option.map_some, Option.bind_some, Option.bind_some, fromJson]
      cases isSpecial (MapOrder.byKey.arranged js) with
      | true => simp
      | false =>
        simp only [Bool.false_eq_true, if_false, Option.map_some, Option.bind_some]
        cases fieldsFromJson codec (MapOrder.byKey.arranged js) <;> simp [written]
  | .other kind content, orders => by
    rw [stored, map_written_scalar_iff (.other kind content) trivial, back, toJson, Kept]

theorem elements_back_iff : ∀ (elements : List Bson) (orders : Orders) (i : Nat),
    ((elementsToJson codec elements).bind (elementsFromJson codec)).map (writtenElements orders i) = some elements ↔
      ElementsKept codec orders i elements
  | [], orders, i => by simp [elementsToJson, elementsFromJson, writtenElements, ElementsKept]
  | v :: rest, orders, i => by
    rw [ElementsKept, ← stored_eq_iff v, ← elements_back_iff rest, elementsToJson, stored, back]
    cases toJson codec v with
    | none => simp
    | some j =>
      cases elementsToJson codec rest with
      | none => simp
      | some js =>
        simp only [Option.bind_some, Option.map_some, elementsFromJson]
        cases fromJson codec j <;> cases elementsFromJson codec js <;> simp [writtenElements]

theorem fieldsKept_iff : ∀ (fields : List (Text × Bson)) (orders : Orders),
    (∀ field ∈ fields, stored codec (orders.below (.field field.1)) field.2 = some field.2) ↔
      FieldsKept codec orders fields
  | [], orders => by simp [FieldsKept]
  | (key, v) :: rest, orders => by
    rw [List.forall_mem_cons, FieldsKept, stored_eq_iff v, fieldsKept_iff rest]

end

/-- A cell is stored as the value it shows if the value is a kept one; an ObjectID and a time are shown as texts. -/
theorem stored_formatScalar_iff (v : Bson) (orders : Orders) :
    stored codec orders (formatScalar codec v) = some v ↔ Kept codec orders v := by
  cases v with
  | objectID hex => simp [formatScalar, stored, back_string, Kept, written]
  | dateTime ms => simp [formatScalar, stored, back_string, Kept, written]
  | _ => exact stored_eq_iff _ orders

/-- Fields with different keys, put into a document one after the other. -/
theorem lookup_insertFields {fields : List (Text × Bson)} (hnodup : (fields.map Prod.fst).Nodup) {key : Text}
    {v : Bson} : ∀ doc : Doc, (fields.foldl (fun doc field => doc.insert field.1 field.2) doc).lookup key = some v ↔
      (key, v) ∈ fields ∨ key ∉ fields.map Prod.fst ∧ doc.lookup key = some v := by
  induction fields with
  | nil => simp
  | cons field rest ih =>
    intro doc
    obtain ⟨hnot, hrest⟩ := List.nodup_cons.1 hnodup
    rw [List.foldl_cons, ih hrest, List.map_cons, List.mem_cons, List.mem_cons]
    rcases eq_or_ne key field.1 with rfl | hkey
    · have habsent : (field.1, v) ∉ rest := fun hmem => hnot (List.mem_map.2 ⟨_, hmem, rfl⟩)
      have hhead : (field.1, v) = field ↔ field.2 = v := by
        obtain ⟨k, w⟩ := field
        simp [eq_comm]
      rw [AList.lookup_insert]
      simp [habsent, hnot, hhead]
    · have hhead : (key, v) ≠ field := fun h => hkey (h ▸ rfl)
      rw [AList.lookup_insert_ne hkey]
      simp [hkey, hhead]

/-- Of fields with different keys each one can be looked up. -/
theorem lookup_docOf {fields : List (Text × Bson)} (hnodup : (fields.map Prod.fst).Nodup) {key : Text} {v : Bson} :
    (docOf fields).lookup key = some v ↔ (key, v) ∈ fields := by
  rw [docOf, lookup_insertFields hnodup]
  simp

/-! ## Flat documents -/

mutual

/-- The keys that a value assigns begin with its own key. -/
theorem prefix_of_mem_flattenValue {p : Text} (hp : p ≠ []) : ∀ (v : Bson) (entry : Text × Bson),
    entry ∈ flattenValue codec p v → p <+: entry.1
  | .document fields, entry, h => by
    rw [flattenValue] at h
    exact (List.prefix_append p ['.']).trans (prefix_of_mem_flattenFields hp fields entry h)
  | .array elements, entry, h => by
    rw [flattenValue, if_pos hp] at h
    rw [List.mem_singleton.1 h]
  | .null, entry, h | .bool _, entry, h | .int32 _, entry, h | .int64 _, entry, h | .double _, entry, h
  | .nan, entry, h | .string _, entry, h | .objectID _, entry, h | .dateTime _, entry, h
  | .other _ _, entry, h => by
    -- a scalar assigns itself
    simp_all [flattenValue]

theorem prefix_of_mem_flattenFields {p : Text} (hp : p ≠ []) : ∀ (fields : List (Text × Bson)) (entry : Text × Bson),
    entry ∈ flattenFields codec p fields → p ++ ['.'] <+: entry.1
  | [], entry, h => by
    rw [flattenFields] at h
    cases h
  | (key, v) :: rest, entry, h => by
    rw [flattenFields, if_pos hp, List.mem_append] at h
    rcases h with hfirst | hrest
    · have hkey : p ++ '.' :: key ≠ [] := by simp
      have hprefix := prefix_of_mem_flattenValue hkey v entry hfirst
      rw [← List.singleton_append (l := key), ← List.append_assoc] at hprefix
      exact (List.prefix_append _ key).trans hprefix
    · exact prefix_of_mem_flattenFields hp rest entry hrest

end

mutual

theorem ne_nil_of_mem_flattenValue : ∀ (p : Text) (v : Bson) (entry : Text × Bson),
    entry ∈ flattenValue codec p v → entry.1 ≠ []
  | p, .document fields, entry, h => by
    rw [flattenValue] at h
    exact ne_nil_of_mem_flattenFields p fields entry h
  | p, .array _, entry, h | p, .null, entry, h | p, .bool _, entry, h | p, .int32 _, entry, h
  | p, .int64 _, entry, h | p, .double _, entry, h | p, .nan, entry, h | p, .string _, entry, h
  | p, .objectID _, entry, h | p, .dateTime _, entry, h | p, .other _ _, entry, h => by
    -- without a key nothing is assigned
    simp_all [flattenValue]

/-- No key of a flat document is empty. -/
theorem ne_nil_of_mem_flattenFields : ∀ (p : Text) (fields : List (Text × Bson)) (entry : Text × Bson),
    entry ∈ flattenFields codec p fields → entry.1 ≠ []
  | _, [], entry, h => by
    rw [flattenFields] at h
    cases h
  | p, (key, v) :: rest, entry, h => by
    rw [flattenFields, List.mem_append] at h
    rcases h with hfirst | hrest
    · exact ne_nil_of_mem_flattenValue _ v entry hfirst
    · exact ne_nil_of_mem_flattenFields p rest entry hrest

end

/-- The value is an embedded document. -/
def Bson.IsDocument (v : Bson) : Prop := ∃ fields, v = .document fields

/-- A value that is no document assigns itself. -/
theorem flattenValue_leaf {p : Text} (hp : p ≠ []) {v : Bson} (hv : ¬v.IsDocument) :
    flattenValue codec p v = [(p, formatScalar codec v)] := by
  cases v with
  | document fields => exact absurd ⟨fields, rfl⟩ hv
  | array elements => simp [flattenValue, hp, formatScalar]
  | _ => simp [flattenValue, hp]

theorem flattenFields_nil_eq (fields : List (Text × Bson)) :
    flattenFields codec [] fields = fields.flatMap fun field => flattenValue codec field.1 field.2 := by
  induction fields with
  | nil => rfl
  | cons field rest ih =>
    obtain ⟨key, v⟩ := field
    rw [flattenFields, ih]
    rfl

/-- Where an assignment of a flat document comes from. -/
theorem mem_flattenFields {fields : List (Text × Bson)} (hnames : ∀ field ∈ fields, field.1 ≠ [])
    {entry : Text × Bson} (h : entry ∈ flattenFields codec [] fields) : ∃ field ∈ fields,
      ¬field.2.IsDocument ∧ entry = (field.1, formatScalar codec field.2) ∨
        field.2.IsDocument ∧ field.1.length < entry.1.length := by
  rw [flattenFields_nil_eq, List.mem_flatMap] at h
  obtain ⟨field, hfield, hentry⟩ := h
  refine ⟨field, hfield, ?_⟩
  by_cases hdocument : field.2.IsDocument
  · obtain ⟨inner, hinner⟩ := hdocument
    rw [hinner, flattenValue] at hentry
    have hlength := (prefix_of_mem_flattenFields (hnames field hfield) inner entry hentry).length_le
    rw [List.length_append, List.length_singleton] at hlength
    exact Or.inr ⟨⟨inner, hinner⟩, hlength⟩
  · rw [flattenValue_leaf (hnames field hfield) hdocument] at hentry
    exact Or.inl ⟨hdocument, List.mem_singleton.1 hentry⟩

/-- A document without embedded ones is as flat as it can be. -/
theorem flattenFields_leaves {fields : List (Text × Bson)} (hnames : ∀ field ∈ fields, field.1 ≠ [])
    (hleaves : ∀ field ∈ fields, ¬field.2.IsDocument) :
    flattenFields codec [] fields = fields.map fun field => (field.1, formatScalar codec field.2) := by
  rw [flattenFields_nil_eq]
  induction fields with
  | nil => rfl
  | cons field rest ih =>
    rw [List.forall_mem_cons] at hnames hleaves
    rw [List.flatMap_cons, List.map_cons, flattenValue_leaf hnames.1 hleaves.1, ih hnames.2 hleaves.2]
    rfl

/-- What a cell shows was assigned, if anything was. -/
theorem cellOf_cases (flat : List (Text × Bson)) (name : Text) :
    (name, cellOf flat name) ∈ flat ∨ cellOf flat name = .null ∧ name ∉ flat.map Prod.fst := by
  rw [cellOf]
  cases hfind : flat.reverse.find? (fun entry => entry.1 = name) with
  | none =>
    refine Or.inr ⟨rfl, ?_⟩
    rw [List.find?_eq_none] at hfind
    intro hmem
    obtain ⟨entry, hentry, hname⟩ := List.mem_map.1 hmem
    exact hfind entry (List.mem_reverse.2 hentry) (decide_eq_true hname)
  | some entry =>
    have hname : entry.1 = name := by simpa using List.find?_some hfind
    have hmem := List.mem_reverse.1 (List.mem_of_find?_eq_some hfind)
    refine Or.inl ?_
    rw [← hname]
    exact hmem

theorem cellOf_eq {flat : List (Text × Bson)} (hnodup : (flat.map Prod.fst).Nodup) {name : Text} {v : Bson}
    (h : (name, v) ∈ flat) : cellOf flat name = v := by
  rcases cellOf_cases flat name with hmem | ⟨-, habsent⟩
  · have hsame := List.inj_on_of_nodup_map hnodup hmem h rfl
    exact (Prod.mk.inj hsame).2
  · exact absurd (List.mem_map.2 ⟨_, h, rfl⟩) habsent

/-- If no embedded document is shown as a missing value, there is none: the one with the shortest name could not be shown
in another way. -/
theorem leaves_of_back {fields : List (Text × Bson)} (hnames : ∀ field ∈ fields, field.1 ≠ [])
    (hnodup : (fields.map Prod.fst).Nodup)
    (hback : ∀ field ∈ fields, field.2.IsDocument →
      back codec (cellOf (flattenFields codec [] fields) field.1) ≠ some .null) :
    ∀ field ∈ fields, ¬field.2.IsDocument := by
  have hshort : ∀ n, ∀ field ∈ fields, field.1.length = n → ¬field.2.IsDocument := by
    intro n
    induction n using Nat.strong_induction_on with
    | _ n ih =>
      rintro field hfield rfl hdocument
      rcases cellOf_cases (flattenFields codec [] fields) field.1 with hmem | ⟨hnull, -⟩
      · obtain ⟨source, hsource, ⟨hleaf, heq⟩ | ⟨hinside, hlength⟩⟩ := mem_flattenFields hnames hmem
        · have hsame := List.inj_on_of_nodup_map hnodup hfield hsource (Prod.mk.inj heq).1
          rw [← hsame] at hleaf
          exact hleaf hdocument
        · exact ih _ hlength source hsource rfl hinside
      · refine hback field hfield hdocument ?_
        rw [hnull, back_null]
  exact fun field hfield => hshort _ field hfield rfl

theorem mem_foldl_addColumn {names : List Text} {name : Text} : ∀ columns : List Text,
    name ∈ names.foldl addColumn columns ↔ name ∈ columns ∨ name ∈ names := by
  induction names with
  | nil => simp
  | cons first rest ih =>
    intro columns
    rw [List.foldl_cons, ih, addColumn, List.mem_cons]
    split_ifs with hseen
    · constructor
      · exact Or.imp_right Or.inr
      · rintro (hmem | rfl | hmem)
        · exact Or.inl hmem
        · exact Or.inl hseen
        · exact Or.inr hmem
    · rw [List.mem_append, List.mem_singleton, or_assoc]

theorem nodup_foldl_addColumn (names : List Text) : ∀ columns : List Text, columns.Nodup →
    (names.foldl addColumn columns).Nodup := by
  induction names with
  | nil => exact fun columns h => h
  | cons first rest ih =>
    intro columns h
    rw [List.foldl_cons]
    refine ih _ ?_
    rw [addColumn]
    split_ifs with hseen
    · exact h
    · exact List.nodup_append.2 ⟨h, List.nodup_singleton first, by
        rintro a ha b hb rfl
        exact hseen (List.mem_singleton.1 hb ▸ ha)⟩

/-- The columns are the keys of the flat documents. -/
theorem mem_collectColumns {flats : List (List (Text × Bson))} {name : Text} :
    name ∈ collectColumns codec flats ↔ ∃ flat ∈ flats, name ∈ flat.map Prod.fst := by
  rw [collectColumns, mem_foldl_addColumn, or_iff_right List.not_mem_nil, List.mem_flatten]
  simp only [List.mem_mapIdx, List.mem_iff_getElem (l := flats)]
  constructor
  · rintro ⟨names, ⟨i, hi, rfl⟩, hname⟩
    exact ⟨flats[i], ⟨i, hi, rfl⟩, ((codec.columnOrder i).names_arranged_perm _).mem_iff.1 hname⟩
  · rintro ⟨flat, ⟨i, hi, rfl⟩, hname⟩
    exact ⟨_, ⟨i, hi, rfl⟩, ((codec.columnOrder i).names_arranged_perm _).mem_iff.2 hname⟩

theorem nodup_collectColumns (flats : List (List (Text × Bson))) : (collectColumns codec flats).Nodup :=
  nodup_foldl_addColumn _ [] List.nodup_nil

end

end Workbench.Mongo
