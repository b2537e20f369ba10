import Workbench.Lib.ServeMux
import Workbench.Lib.ThreeValued
import Workbench.Lib.Utf8
import Workbench.Query.Paging
import Workbench.Table.Draft
import Workbench.Table.Keys

/-!
# The rows that a key selects

A displayed row goes through `normalizeCell` and JSON to the front end, its key comes back as the arguments
of a statement, and the database compares them with the stored values. Texts are equal when the collation of
their column makes them equal. A byte string comes back as the text that its bytes were read as, and a point
in time as its RFC 3339 text.

`key_selects_iff` says when the `WHERE` clause of an update or a deletion selects the displayed row and no
other one.
-/

set_option autoImplicit false

namespace Workbench.Table

open Workbench.Lib

/-! ## Stored values -/

/-- A stored value that is not NULL. The points in time are in `T`, and in `O` the values of the further
types: decimals, numbers of single precision, bits, intervals and so on. -/
inductive Value (T O : Type) where
  | int (n : Int)
  | double (x : Number)
  | bool (b : Bool)
  | text (s : Text)
  | bytes (b : List UInt8)
  | time (t : T)
  | other (o : O)

/-- A row of a table: the values of its columns, `none` for NULL. -/
abbrev Row (T O : Type) : Type := Text → Option (Value T O)

/-- A scanned value that is neither text nor bytes nor a time. -/
inductive Scalar where
  | number (x : Number)
  | bool (b : Bool)
  deriving DecidableEq

/-- What Go, the driver and the database bring along. -/
structure Server (T O : Type) where
  driver : Dialect
  /-- The key by which a collation compares. -/
  collate : Text → Text
  /-- `UTC().Format(time.RFC3339Nano)` of the time that is scanned. -/
  formatTime : T → List UInt8
  /-- The point in time that the database reads in an argument. -/
  readTime : Text → Option T
  /-- What a value of a further type is scanned as. -/
  scan : O → Query.Cell T Scalar
  /-- `=` between two stored values of such a type. -/
  same : O → O → Bool
  /-- `=` between a stored value of such a type and an argument. -/
  finds : O → Cell → Bool

namespace Value

variable {T O : Type}

/-- The type of the column that a value is in. -/
inductive Kind where
  | int
  | double
  | bool
  | text
  | bytes
  | time
  | other
  deriving DecidableEq

def kind : Value T O → Kind
  | int _ => .int
  | double _ => .double
  | bool _ => .bool
  | text _ => .text
  | bytes _ => .bytes
  | time _ => .time
  | other _ => .other

/-- What the driver scans. The MySQL driver has the bytes of a text. -/
def scan (db : Server T O) : Value T O → Query.Cell T Scalar
  | int n => .other (.number (Number.ofInt n))
  | double x => .other (.number x)
  | bool b => .other (.bool b)
  | text s =>
    match db.driver with
    | .mysql => .bytes (utf8Encode s)
    | .postgres => .text (utf8Encode s)
  | bytes b => .bytes b
  | time t => .time t
  | other o => db.scan o

end Value

/-- What `JSON.parse` makes of the JSON of a normalized value, in which no bytes and no times are left. -/
def jsonValue {T : Type} : Query.Cell T Scalar → Cell
  | .text bytes => .string (runes bytes)
  | .other (.number x) => .number x
  | .other (.bool b) => .bool b
  | .bytes _ => .undefined
  | .time _ => .undefined

section

variable {T O : Type} (db : Server T O)

/-- What the front end shows for a value. -/
def Value.shown (v : Value T O) : Cell := jsonValue (Query.normalizeCell db.formatTime (v.scan db))

def shownCell : Option (Value T O) → Cell
  | none => .null
  | some value => value.shown db

/-- The row of a result that a page shows. -/
def shownRow (columns : List Column) (row : Row T O) : List Cell :=
  columns.map fun column => shownCell db (row column.name)

end

/-- `JSON.stringify` writes an infinite number as null. -/
def jsonCell : Cell → Cell
  | .number (.infinite _) => .null
  | value => value

/-- `JSON.stringify` leaves an undefined property out. -/
def property : Cell → Option Cell
  | .undefined => none
  | value => some (jsonCell value)

def stringify (values : Lib.Table Text Cell) : Lib.Table Text Cell := values.alter (fun _ => true) property

/-! ## Byte strings in arguments -/

/-- The escape format of `bytea`. The first argument is what has been read of an escape: its octal digits
so far, behind the backslash. -/
def escapeIn : Option (List Nat) → Text → Option (List UInt8)
  | none, [] => some []
  | some _, [] => none
  | none, c :: rest =>
    if c = '\\' then escapeIn (some []) rest
    else (escapeIn none rest).map (String.utf8EncodeChar c ++ ·)
  | some digits, c :: rest =>
    if digits = [] ∧ c = '\\' then (escapeIn none rest).map (0x5C :: ·)
    else if '0' ≤ c ∧ c ≤ (if digits = [] then '3' else '7') then
      if digits.length = 2 then
        (escapeIn none rest).map
          (UInt8.ofNat ((digits ++ [c.toNat - 48]).foldl (fun n digit => 8 * n + digit) 0) :: ·)
      else escapeIn (some (digits ++ [c.toNat - 48])) rest
    else none

/-- The hex format of `bytea`, behind its prefix. The first argument is the first digit of a byte. -/
def hexIn : Option Nat → Text → Option (List UInt8)
  | none, [] => some []
  | some _, [] => none
  | none, c :: rest =>
    if c = ' ' ∨ c = '\t' ∨ c = '\n' ∨ c = '\r' then hexIn none rest
    else (hexDigit c).bind fun high => hexIn (some high) rest
  | some high, c :: rest =>
    (hexDigit c).bind fun low => (hexIn none rest).map (UInt8.ofNat (16 * high + low) :: ·)

/-- The bytes that a database reads in an argument. PostgreSQL refuses the character zero. -/
def readBytes : Dialect → Text → Option (List UInt8)
  | .mysql, t => some (utf8Encode t)
  | .postgres, t =>
    if '\x00' ∈ t then none
    else if "\\x".toList.isPrefixOf t then hexIn none (t.drop 2)
    else escapeIn none t

/-! ## Comparing -/

section

variable {T O : Type} [DecidableEq T] (db : Server T O)

/-- `=` of the database between two stored values of one column. -/
def Value.same : Value T O → Value T O → Bool
  | int m, int n => m == n
  | double x, double y => x.same y
  | bool a, bool b => a == b
  | text s, text t => db.collate s == db.collate t
  | bytes a, bytes b => a == b
  | time x, time y => x == y
  | other o, other p => db.same o p
  | _, _ => false

/-- `column = argument`. PostgreSQL takes the argument for a whole number column as a whole number, MySQL
compares both as doubles. A text that cannot be read selects nothing. -/
def equals (stored : Option (Value T O)) (argument : Cell) : Truth :=
  match stored, argument with
  | none, _ => none
  | _, .null => none
  | _, .undefined => none
  | some (.int n), .number x =>
    some (match db.driver with
      | .postgres => x.toInt? == some n
      | .mysql => (Number.ofInt n).same x)
  | some (.double x), .number y => some (x.same y)
  | some (.bool a), .bool b => some (a == b)
  | some (.text s), .string t => some (db.collate s == db.collate t)
  | some (.bytes b), .string t => some (readBytes db.driver t == some b)
  | some (.time x), .string t => some (db.readTime t == some x)
  | some (.other o), argument => some (db.finds o argument)
  | _, _ => some false

/-- The `WHERE` clause of a statement on a row; an argument that is missing compares as NULL. -/
def whereHolds (s : Statement Cell) (row : Row T O) : Truth :=
  Truth.all (s.wheres.map fun p => equals db (row p.1) (p.2.getD .null))

/-- Contents of a table that satisfy its types and constraints: a unique constraint lets rows with a NULL
in one of its columns pass. -/
structure Content (t : TableEntry) where
  rows : List (Row T O)
  keeps_types : ∀ a ∈ rows, ∀ b ∈ rows, ∀ name, ∀ v ∈ a name, ∀ w ∈ b name, v.kind = w.kind
  keeps_unique : ∀ c ∈ t.constraints, ∀ (i j : Nat) (a b : Row T O), rows[i]? = some a → rows[j]? = some b →
    i ≠ j → ∃ name ∈ c.columns, ∀ v ∈ a name, ∀ w ∈ b name, Value.same db v w = false
  keeps_primary : ∀ c ∈ t.constraints, c.primary = true → ∀ a ∈ rows, ∀ name ∈ c.columns, a name ≠ none

/-- The front end's mutation for a displayed row. -/
def rowMutation (t : TableEntry) (key : List Text) (row : Row T O) (values : Lib.Table Text Cell) :
    Mutation Cell :=
  ⟨t.schema, t.name, values, stringify (buildRowKey t.columns (shownRow db t.columns row) key)⟩

/-- An argument that was sent for a value of a further type is found equal to a stored one. -/
def foundOther (o : O) (sent : Cell) : Bool :=
  match sent with
  | .null => false
  | sent => db.finds o sent

/-- The key value comes back to the database as it went. -/
def ComesBack : Value T O → Prop
  | .int n =>
    match db.driver with
    | .postgres => (Number.ofInt n).toInt? = some n
    | .mysql => (Number.ofInt n).isFinite = true
  | .double x => x.isFinite = true
  | .bytes b => readBytes db.driver (runes b) = some b
  | .time t => db.readTime (runes (db.formatTime t)) = some t
  | .other o => foundOther db o (jsonCell ((Value.other o).shown db)) = true
  | _ => True

/-- Two stored values that the database does not tell apart by an argument: MySQL compares the whole
numbers as doubles. -/
def alike : Value T O → Value T O → Bool
  | .int m, .int n =>
    match db.driver with
    | .postgres => m == n
    | .mysql => (Number.ofInt m).same (Number.ofInt n)
  | .other o, .other p => foundOther db o (jsonCell ((Value.other p).shown db))
  | v, w => Value.same db v w

/-- An argument for the value finds what a unique constraint takes for equal to it. -/
def comparedExactly : Value T O → Bool
  | .int _ => db.driver = .postgres
  | .other _ => false
  | _ => true

/-- The key that the workbench uses for a table. -/
def Catalog.keyOf (c : Catalog) (t : TableEntry) : List Text :=
  uniqueKey (loadKeyMetadata c.keyRows) t.schema t.name

variable {db}

/-- The clause holds for the row at `i` and for no other one. -/
def SelectsOnly {t : TableEntry} (content : Content db t) (s : Statement Cell) (i : Nat) : Prop :=
  ∀ j row, content.rows[j]? = some row → (whereHolds db s row = some true ↔ j = i)

/-- The key columns of the row are not null and come back; and with a whole number of MySQL or a value of
a further type among them, no other row has a key that the database does not tell from it. -/
def KeyIsSafe {t : TableEntry} (content : Content db t) (key : List Text) (i : Nat) (row : Row T O) : Prop :=
  (∀ name ∈ key, ∃ v, row name = some v ∧ ComesBack db v) ∧
    ((∃ name ∈ key, ∃ v ∈ row name, comparedExactly db v = false) →
      ∀ j other, content.rows[j]? = some other → j ≠ i →
        ∃ name ∈ key, ∀ v ∈ row name, ∀ w ∈ other name, alike db w v = false)

end

/-! ## The key of a displayed row -/

theorem lookup_buildRowKey (columns : List Column) (row : List Cell) (key : List Text) (name : Text) :
    (buildRowKey columns row key).lookup name =
      if name ∈ key then some (rowToRecord columns row name) else none := by
  have hloop : ∀ t : Lib.Table Text Cell,
      (key.foldl (fun key name => key.insert name (rowToRecord columns row name)) t).lookup name =
        if name ∈ key then some (rowToRecord columns row name) else t.lookup name := by
    induction key with
    | nil => exact fun _ => rfl
    | cons first rest ih =>
      intro t
      rw [List.foldl_cons, ih]
      by_cases hrest : name ∈ rest
      · rw [if_pos hrest, if_pos (List.mem_cons_of_mem first hrest)]
      · rw [if_neg hrest]
        by_cases hfirst : name = first
        · rw [hfirst, AList.lookup_insert, if_pos List.mem_cons_self]
        · rw [AList.lookup_insert_ne hfirst, if_neg (by simp [hfirst, hrest])]
  exact hloop ∅

section

variable {T O : Type} {db : Server T O}

@[simp] theorem shown_text (s : Text) : (Value.text s).shown db = .string s := by
  rw [Value.shown, Value.scan]
  cases db.driver with
  | mysql => exact congrArg Cell.string (runes_utf8Encode s)
  | postgres => exact congrArg Cell.string (runes_utf8Encode s)

/-- Nothing is shown as undefined: `normalizeCell` leaves no bytes and no times. -/
theorem shown_ne_undefined (v : Value T O) : v.shown db ≠ .undefined := by
  rw [Value.shown]
  generalize v.scan db = scanned
  cases scanned with
  | bytes b => exact fun h => nomatch h
  | time t => exact fun h => nomatch h
  | text b => exact fun h => nomatch h
  | other value => cases value <;> exact fun h => nomatch h

theorem rowToRecord_shownRow (t : TableEntry) (row : Row T O) {name : Text}
    (hname : name ∈ t.columns.map Column.name) :
    rowToRecord t.columns (shownRow db t.columns row) name = shownCell db (row name) := by
  obtain ⟨column, hmem, rfl⟩ := List.mem_map.1 hname
  rw [rowToRecord_name t.columns_distinct _ hmem, previousValue]
  have hfind : t.columns.findIdx (fun item => item.name == column.name) < t.columns.length :=
    List.findIdx_lt_length_of_exists ⟨column, hmem, beq_self_eq_true _⟩
  have hsame : t.columns[t.columns.findIdx fun item => item.name == column.name].name = column.name :=
    eq_of_beq (List.findIdx_getElem (w := hfind))
  rw [cellAt, shownRow, List.getElem?_map, List.getElem?_eq_getElem hfind, Option.map_some, hsame]
  rfl

theorem property_shownCell (stored : Option (Value T O)) :
    property (shownCell db stored) = some (jsonCell (shownCell db stored)) := by
  have hdefined : shownCell db stored ≠ .undefined := by
    cases stored with
    | none => exact fun h => nomatch h
    | some v => exact shown_ne_undefined v
  cases hcell : shownCell db stored with
  | undefined => exact absurd hcell hdefined
  | _ => rfl

/-- The key has what was shown for its columns, and nothing else. -/
theorem lookup_rowMutation (t : TableEntry) {key : List Text}
    (hkey : ∀ name ∈ key, name ∈ t.columns.map Column.name) (row : Row T O)
    (values : Lib.Table Text Cell) (name : Text) :
    (rowMutation db t key row values).key.lookup name =
      if name ∈ key then some (jsonCell (shownCell db (row name))) else none := by
  show (stringify _).lookup name = _
  rw [stringify, Lib.Table.lookup_alter, if_pos rfl, lookup_buildRowKey]
  by_cases hname : name ∈ key
  · rw [if_pos hname, if_pos hname, rowToRecord_shownRow t row (hkey name hname), Option.bind_some,
      property_shownCell]
  · rw [if_neg hname, if_neg hname, Option.bind_none]

/-! ## What an argument finds -/

variable [DecidableEq T]

variable (db) in
/-- An argument that was sent for a value is found equal to a stored one. -/
def found : Value T O → Value T O → Bool
  | .int m, .int n =>
    match db.driver with
    | .postgres => (Number.ofInt n).toInt? == some m
    | .mysql => (Number.ofInt n).isFinite && (Number.ofInt m).same (Number.ofInt n)
  | .double x, .double y => y.isFinite && x.same y
  | .bool a, .bool b => a == b
  | .text s, .text t => db.collate s == db.collate t
  | .bytes a, .bytes b => readBytes db.driver (runes b) == some a
  | .time x, .time y => db.readTime (runes (db.formatTime y)) == some x
  | .other o, .other p => foundOther db o (jsonCell ((Value.other p).shown db))
  | _, _ => false

theorem equals_null (stored : Option (Value T O)) : equals db stored .null = none := by
  cases stored <;> rfl

/-- Comparing with a number that is sent for one. -/
theorem equals_number {w : Value T O} {y : Number} :
    equals db (some w) (jsonCell (.number y)) = some true ↔
      y.isFinite = true ∧ equals db (some w) (.number y) = some true := by
  cases y with
  | finite y => exact ⟨fun h => ⟨rfl, h⟩, fun h => h.2⟩
  | infinite b =>
    refine iff_of_false ?_ fun h => nomatch h.1
    show ¬equals db (some w) .null = some true
    rw [equals_null]
    exact fun h => nomatch h

theorem toInt?_isFinite {x : Number} {n : Int} (h : x.toInt? = some n) : x.isFinite = true := by
  cases x with
  | finite x => rfl
  | infinite b => cases h

/-- The clause finds a value of the column equal to the argument that was sent for another one. -/
theorem equals_sent {v w : Value T O} (hkind : v.kind = w.kind) :
    equals db (some w) (jsonCell (v.shown db)) = some true ↔ found db w v = true := by
  cases v with
  | int n =>
    rw [show Value.shown db (.int n) = .number (Number.ofInt n) from rfl, equals_number]
    generalize hx : Number.ofInt n = x
    cases w with
    | int m =>
      simp only [equals, found, hx, Option.some.injEq]
      cases db.driver with
      | postgres => exact ⟨fun h => h.2, fun h => ⟨toInt?_isFinite (eq_of_beq h), h⟩⟩
      | mysql => simp only [Bool.and_eq_true]
    | _ => cases hkind
  | double x =>
    rw [show Value.shown db (.double x) = .number x from rfl, equals_number]
    cases w with
    | double y => simp only [equals, found, Option.some.injEq, Bool.and_eq_true]
    | _ => cases hkind
  | bool b =>
    rw [show Value.shown db (.bool b) = .bool b from rfl]
    cases w with
    | bool a => simp [equals, found, jsonCell]
    | _ => cases hkind
  | text t =>
    rw [shown_text]
    cases w with
    | text s => simp [equals, found, jsonCell]
    | _ => cases hkind
  | bytes b =>
    rw [show Value.shown db (.bytes b) = .string (runes b) from rfl]
    cases w with
    | bytes a => simp [equals, found, jsonCell]
    | _ => cases hkind
  | time t =>
    rw [show Value.shown db (.time t) = .string (runes (db.formatTime t)) from rfl]
    cases w with
    | time x => simp [equals, found, jsonCell]
    | _ => cases hkind
  | other o =>
    cases w with
    | other p =>
      have hdefined : (Value.other o : Value T O).shown db ≠ .undefined := shown_ne_undefined _
      rw [found]
      generalize hsent : jsonCell ((Value.other o : Value T O).shown db) = sent
      cases sent with
      | null => exact iff_of_false (by rw [equals_null]; exact fun h => nomatch h) fun h => nomatch h
      | undefined =>
        cases hcell : (Value.other o : Value T O).shown db with
        | undefined => exact absurd hcell hdefined
        | number x => cases x <;> simp [hcell, jsonCell] at hsent
        | _ => simp [hcell, jsonCell] at hsent
      | _ => simp [equals, foundOther]
    | _ => cases hkind

/-- A value is found by its own argument when it comes back. -/
theorem found_self {v : Value T O} : found db v v = true ↔ ComesBack db v := by
  cases v with
  | int n =>
    simp only [found, ComesBack]
    cases db.driver with
    | postgres => exact beq_iff_eq
    | mysql =>
      show ((Number.ofInt n).isFinite && (Number.ofInt n).same (Number.ofInt n)) = true ↔ _
      rw [Number.same_self, Bool.and_true]
  | double x =>
    show (x.isFinite && x.same x) = true ↔ _
    rw [Number.same_self, Bool.and_true]
    exact Iff.rfl
  | bool b => exact iff_of_true (beq_self_eq_true b) trivial
  | text s => exact iff_of_true (beq_self_eq_true _) trivial
  | bytes b => exact beq_iff_eq
  | time t => exact beq_iff_eq
  | other o => exact Iff.rfl

/-- What an argument that comes back finds is what the database does not tell apart from its value. -/
theorem found_eq_alike {v w : Value T O} (hback : ComesBack db v) : found db w v = alike db w v := by
  cases v with
  | int n =>
    cases w with
    | int m =>
      simp only [ComesBack] at hback
      simp only [found, alike]
      cases hdriver : db.driver with
      | postgres =>
        rw [hdriver] at hback
        have hint : (Number.ofInt n).toInt? = some n := hback
        show ((Number.ofInt n).toInt? == some m) = (m == n)
        rw [hint, Bool.eq_iff_iff, beq_iff_eq, beq_iff_eq, Option.some.injEq, eq_comm]
      | mysql =>
        rw [hdriver] at hback
        have hfinite : (Number.ofInt n).isFinite = true := hback
        show ((Number.ofInt n).isFinite && (Number.ofInt m).same (Number.ofInt n)) =
          (Number.ofInt m).same (Number.ofInt n)
        rw [hfinite, Bool.true_and]
    | _ => rfl
  | double x =>
    cases w with
    | double y =>
      have hfinite : x.isFinite = true := hback
      show (x.isFinite && y.same x) = y.same x
      rw [hfinite, Bool.true_and]
    | _ => rfl
  | bool b => cases w <;> rfl
  | text s => cases w <;> rfl
  | bytes b =>
    cases w with
    | bytes a =>
      have hread : readBytes db.driver (runes b) = some b := hback
      show (readBytes db.driver (runes b) == some a) = (a == b)
      rw [hread, Bool.eq_iff_iff, beq_iff_eq, beq_iff_eq, Option.some.injEq, eq_comm]
    | _ => rfl
  | time t =>
    cases w with
    | time x =>
      have hread : db.readTime (runes (db.formatTime t)) = some t := hback
      show (db.readTime (runes (db.formatTime t)) == some x) = (x == t)
      rw [hread, Bool.eq_iff_iff, beq_iff_eq, beq_iff_eq, Option.some.injEq, eq_comm]
    | _ => rfl
  | other o => cases w <;> rfl

/-- Such a value is told from the others as a unique constraint tells it. -/
theorem alike_of_exact {v w : Value T O} (hexact : comparedExactly db v = true) :
    alike db w v = Value.same db w v := by
  cases v with
  | int n =>
    have hdriver : db.driver = .postgres := by simpa [comparedExactly] using hexact
    cases w with
    | int m =>
      simp only [alike, hdriver]
      rfl
    | _ => rfl
  | other o => exact absurd hexact Bool.false_ne_true
  | _ => cases w <;> rfl

/-! ## The clause on the rows of a table -/

variable {t : TableEntry} {content : Content db t} {key : List Text} {values : Lib.Table Text Cell}
  {s : Statement Cell} {row other : Row T O}

/-- The clause of a statement holds for a row when each key value of the displayed row is found there. -/
theorem whereHolds_iff (hkey : ∀ name ∈ key, name ∈ t.columns.map Column.name)
    (hwheres : WheresKey s (rowMutation db t key row values).key) (hrow : row ∈ content.rows)
    (hother : other ∈ content.rows) :
    whereHolds db s other = some true ↔
      ∀ name ∈ key, ∃ v w, row name = some v ∧ other name = some w ∧ found db w v = true := by
  have hparts : whereHolds db s other = some true ↔
      ∀ name ∈ key, equals db (other name) (jsonCell (shownCell db (row name))) = some true := by
    rw [whereHolds, Truth.all_eq_true, List.forall_mem_map]
    constructor
    · intro h name hname
      refine h (name, some (jsonCell (shownCell db (row name)))) ((hwheres _ _).2 ⟨_, ?_, rfl⟩)
      rw [lookup_rowMutation t hkey, if_pos hname]
    · rintro h ⟨column, argument⟩ hp
      obtain ⟨value, hlookup, rfl⟩ := (hwheres _ _).1 hp
      rw [lookup_rowMutation t hkey] at hlookup
      split at hlookup
      · rename_i hname
        cases hlookup
        exact h column hname
      · cases hlookup
  rw [hparts]
  constructor
  · intro h name hname
    have hequals := h name hname
    cases hv : row name with
    | none =>
      rw [hv, shownCell, jsonCell, equals_null] at hequals
      · cases hequals
      · exact fun _ h => nomatch h
    | some v =>
      cases hw : other name with
      | none =>
        rw [hw] at hequals
        cases hequals
      | some w =>
        have hkind := content.keeps_types row hrow other hother name v hv w hw
        rw [hv, hw] at hequals
        exact ⟨v, w, rfl, rfl, (equals_sent hkind).1 hequals⟩
  · intro h name hname
    obtain ⟨v, w, hv, hw, hfound⟩ := h name hname
    have hkind := content.keeps_types row hrow other hother name v hv w hw
    rw [hv, hw]
    exact (equals_sent hkind).2 hfound

/-- The row that was displayed is selected when its key comes back. -/
theorem selects_self_iff (hkey : ∀ name ∈ key, name ∈ t.columns.map Column.name)
    (hwheres : WheresKey s (rowMutation db t key row values).key) (hrow : row ∈ content.rows) :
    whereHolds db s row = some true ↔ ∀ name ∈ key, ∃ v, row name = some v ∧ ComesBack db v := by
  rw [whereHolds_iff hkey hwheres hrow hrow]
  constructor
  · intro h name hname
    obtain ⟨v, w, hv, hw, hfound⟩ := h name hname
    rw [hv] at hw
    cases hw
    exact ⟨v, hv, found_self.1 hfound⟩
  · intro h name hname
    obtain ⟨v, hv, hback⟩ := h name hname
    exact ⟨v, v, hv, hv, found_self.2 hback⟩

/-- The clause of a displayed row selects it alone exactly when its key is safe. -/
theorem selectsOnly_iff {constraint : Constraint} (hconstraint : constraint ∈ t.constraints) {i : Nat}
    (hrow : content.rows[i]? = some row)
    (hwheres : WheresKey s (rowMutation db t constraint.columns row values).key) :
    SelectsOnly content s i ↔ KeyIsSafe content constraint.columns i row := by
  have hkey := t.of_table constraint hconstraint
  have hmem : row ∈ content.rows := List.mem_of_getElem? hrow
  constructor
  · intro honly
    have hback := (selects_self_iff hkey hwheres hmem).1 ((honly i row hrow).2 rfl)
    refine ⟨hback, ?_⟩
    intro _ j other hother hne
    by_contra hnone
    -- every key value of the other row is alike, so that the clause holds for it too
    refine hne ((honly j other hother).1 ((whereHolds_iff hkey hwheres hmem
      (List.mem_of_getElem? hother)).2 ?_))
    intro name hname
    obtain ⟨v, hv, hb⟩ := hback name hname
    by_contra hdistinct
    refine hnone ⟨name, hname, ?_⟩
    intro v' hv' w hw
    rw [hv] at hv'
    cases hv'
    rw [← found_eq_alike hb]
    exact Bool.eq_false_iff.2 fun hfound => hdistinct ⟨v, w, hv, hw, hfound⟩
  · rintro ⟨hback, hothers⟩ j other hother
    constructor
    · intro hholds
      by_contra hne
      have hfound := (whereHolds_iff hkey hwheres hmem (List.mem_of_getElem? hother)).1 hholds
      have hdistinct : ∃ name ∈ constraint.columns, ∀ v ∈ row name, ∀ w ∈ other name,
          alike db w v = false := by
        by_cases hinexact : ∃ name ∈ constraint.columns, ∃ v ∈ row name, comparedExactly db v = false
        · exact hothers hinexact j other hother hne
        · -- the constraint itself tells the rows apart
          obtain ⟨name, hname, hunique⟩ :=
            content.keeps_unique constraint hconstraint j i other row hother hrow hne
          refine ⟨name, hname, fun v hv w hw => ?_⟩
          have hexact : comparedExactly db v = true := by
            rw [← Bool.not_eq_false]
            exact fun hfalse => hinexact ⟨name, hname, v, hv, hfalse⟩
          rw [alike_of_exact hexact]
          exact hunique w hw v hv
      obtain ⟨name, hname, hdistinct⟩ := hdistinct
      obtain ⟨v, w, hv, hw, hf⟩ := hfound name hname
      obtain ⟨v', hv', hb⟩ := hback name hname
      rw [hv] at hv'
      cases hv'
      rw [found_eq_alike hb, hdistinct v hv w hw] at hf
      cases hf
    · rintro rfl
      rw [hrow] at hother
      cases hother
      exact (selects_self_iff hkey hwheres hmem).2 hback

end

/-- The builders of an update and of a deletion. -/
def buildsRow (driver : Option Dialect) (mutation : Mutation Cell) (s : Statement Cell) : Prop :=
  buildUpdate driver mutation = .ok s ∨ buildDelete driver mutation = .ok s

theorem key_ne_nil {T O : Type} {db : Server T O} {t : TableEntry} {key : List Text} {row : Row T O}
    {values : Lib.Table Text Cell} {driver : Option Dialect} {s : Statement Cell}
    (hbuilt : buildsRow driver (rowMutation db t key row values) s) : key ≠ [] := by
  rintro rfl
  have hkeys : (rowMutation db t [] row values).key.keys = [] := rfl
  rcases hbuilt with h | h
  · rw [buildUpdate, if_pos hkeys] at h
    cases h
  · rw [buildDelete, if_pos hkeys] at h
    cases h

theorem statement_of_builds {driver : Option Dialect} {mutation : Mutation Cell} {s : Statement Cell}
    (hbuilt : buildsRow driver mutation s) : driver = some s.driver ∧ WheresKey s mutation.key := by
  rcases hbuilt with h | h
  · exact buildUpdate_ok h
  · exact buildDelete_ok h

/-- The clause of an update or a deletion selects the displayed row and no other one exactly when the key
of the row is safe. -/
theorem key_selects_iff {T O : Type} [DecidableEq T] (db : Server T O) (catalog : Catalog) (t : TableEntry)
    (ht : t ∈ catalog.tables) (content : Content db t) (i : Nat) (row : Row T O)
    (hrow : content.rows[i]? = some row) (values : Lib.Table Text Cell) (s : Statement Cell)
    (hbuilt : buildsRow (some db.driver) (rowMutation db t (catalog.keyOf t) row values) s) :
    SelectsOnly content s i ↔ KeyIsSafe content (catalog.keyOf t) i row := by
  obtain ⟨constraint, hconstraint, hkey⟩ := constraint_of_uniqueKey catalog ht (key_ne_nil hbuilt)
  obtain ⟨-, hwheres⟩ := statement_of_builds hbuilt
  have hcolumns : catalog.keyOf t = constraint.columns := hkey
  rw [hcolumns] at hwheres ⊢
  exact selectsOnly_iff hconstraint hrow hwheres

/-! ## Byte strings that come back -/

theorem escapeIn_plain {t : Text} (h : '\\' ∉ t) : escapeIn none t = some (utf8Encode t) := by
  induction t with
  | nil => rfl
  | cons c rest ih =>
    rw [List.mem_cons, not_or] at h
    rw [escapeIn, if_neg (Ne.symm h.1), ih h.2]
    rfl

/-- **The bytes of a text come back; in PostgreSQL if it has no character zero and no backslash.** -/
theorem comesBack_utf8Encode {T O : Type} (db : Server T O) (t : Text)
    (h : db.driver = .postgres → '\x00' ∉ t ∧ '\\' ∉ t) : ComesBack db (.bytes (utf8Encode t)) := by
  show readBytes db.driver (runes (utf8Encode t)) = some (utf8Encode t)
  rw [runes_utf8Encode]
  cases hdriver : db.driver with
  | mysql => rfl
  | postgres =>
    obtain ⟨hzero, hslash⟩ := h hdriver
    have hhex : ¬"\\x".toList.isPrefixOf t = true := by
      intro hprefix
      exact hslash ((List.isPrefixOf_iff_prefix.1 hprefix).subset (by decide))
    rw [readBytes, if_neg hzero, if_neg hhex, escapeIn_plain hslash]

/-- Bytes that are those of no text do not come back: the replacement character takes their place. -/
theorem utf8_of_comesBack {T O : Type} (db : Server T O) {b : List UInt8}
    (hslash : db.driver = .postgres → '\\' ∉ runes b) (h : ComesBack db (.bytes b)) :
    ∃ t, b = utf8Encode t := by
  have hread : readBytes db.driver (runes b) = some b := h
  refine ⟨runes b, Eq.symm ?_⟩
  cases hdriver : db.driver with
  | mysql =>
    rw [hdriver] at hread
    exact Option.some_inj.1 hread
  | postgres =>
    have hno := hslash hdriver
    have hhex : ¬"\\x".toList.isPrefixOf (runes b) = true := by
      intro hprefix
      exact hno ((List.isPrefixOf_iff_prefix.1 hprefix).subset (by decide))
    rw [hdriver, readBytes, if_neg hhex, escapeIn_plain hno] at hread
    split_ifs at hread
    exact Option.some_inj.1 hread

/-- A table without a primary key, and a unique constraint on a column that may be NULL. -/
def members : TableEntry where
  schema := "public".toList
  name := "members".toList
  columns := [⟨"email".toList, some "text".toList⟩, ⟨"note".toList, some "text".toList⟩]
  constraints := [⟨"members_email_key".toList, false, ["email".toList]⟩]
  columns_distinct := by decide
  constraints_distinct := by decide
  nonempty := by decide
  of_table := by decide

def memberCatalog : Catalog := ⟨"app".toList, [members], by decide⟩

/-- PostgreSQL with no columns of times and of further types. -/
def plainServer : Server Empty Empty where
  driver := .postgres
  collate := id
  formatTime := nofun
  readTime _ := none
  scan := nofun
  same := nofun
  finds := nofun

/-- A member with or without an address. -/
def member (email : Option (Value Empty Empty)) : Row Empty Empty :=
  fun name => if name = "email".toList then email else none

/-- One member. -/
def oneMember (email : Option (Value Empty Empty)) : Content plainServer members where
  rows := [member email]
  keeps_types := by
    intro a ha b hb name v hv w hw
    rw [List.mem_singleton.1 ha] at hv
    rw [List.mem_singleton.1 hb, hv] at hw
    cases hw
    rfl
  keeps_unique := by
    intro c _ i j a b ha hb hne
    have hi := (List.getElem?_eq_some_iff.1 ha).1
    have hj := (List.getElem?_eq_some_iff.1 hb).1
    simp only [List.length_singleton] at hi hj
    omega
  keeps_primary := by
    intro c hc hprimary
    rw [List.mem_singleton.1 hc] at hprimary
    cases hprimary

theorem keyOf_members : memberCatalog.keyOf members = ["email".toList] := by
  have hsorted : members.sortedConstraints = [⟨"members_email_key".toList, false, ["email".toList]⟩] :=
    List.mergeSort_singleton _
  rw [Catalog.keyOf, uniqueKey_eq memberCatalog List.mem_cons_self, hsorted]
  rfl

theorem delete_member (email : Option (Value Empty Empty)) :
    ∃ s, buildsRow (some plainServer.driver)
      (rowMutation plainServer members (memberCatalog.keyOf members) (member email) ∅) s := by
  rw [keyOf_members]
  have hkey : ∀ name ∈ ["email".toList], name ∈ members.columns.map Column.name := by decide
  have hlookup := @lookup_rowMutation _ _ plainServer members _ hkey (member email) ∅
  have hfound : (rowMutation plainServer members ["email".toList] (member email) ∅).key.lookup
      "email".toList = some (jsonCell (shownCell plainServer (member email "email".toList))) := by
    rw [hlookup, if_pos (List.mem_singleton_self _)]
  have hkeys : (rowMutation plainServer members ["email".toList] (member email) ∅).key.keys =
      ["email".toList] := by
    apply List.perm_singleton.1
    rw [List.perm_ext_iff_of_nodup (AList.keys_nodup _) (List.nodup_singleton _)]
    intro name
    rw [← AList.mem_keys, ← AList.lookup_isSome, hlookup]
    by_cases hname : name ∈ ["email".toList]
    · rw [if_pos hname]
      exact iff_of_true rfl hname
    · rw [if_neg hname]
      exact iff_of_false Bool.false_ne_true hname
  have hsorted : sortedKeys (rowMutation plainServer members ["email".toList] (member email) ∅).key =
      ["email".toList] := by
    rw [sortedKeys, hkeys]
    exact List.mergeSort_singleton _
  have hpredicates : ∃ parts, predicates (some .postgres)
      (rowMutation plainServer members ["email".toList] (member email) ∅).key [] = .ok parts := by
    rw [predicates, hsorted, predicateParts, hfound]
    exact ⟨_, rfl⟩
  obtain ⟨parts, hparts⟩ := hpredicates
  refine ⟨⟨.postgres, "public".toList, "members".toList, .delete parts.1, parts.2⟩, Or.inr ?_⟩
  have hdriver : plainServer.driver = .postgres := rfl
  rw [hdriver, buildDelete, if_neg (by rw [hkeys]; exact List.cons_ne_nil _ _), hparts]
  rfl

/-- The key of a member without an address selects nothing. -/
theorem null_key_selects_nothing :
    ∃ s, buildsRow (some plainServer.driver)
        (rowMutation plainServer members (memberCatalog.keyOf members) (member none) ∅) s ∧
      ¬SelectsOnly (oneMember none) s 0 := by
  obtain ⟨s, hs⟩ := delete_member none
  refine ⟨s, hs, ?_⟩
  intro honly
  obtain ⟨-, hwheres⟩ := statement_of_builds hs
  rw [keyOf_members] at hwheres
  have hconstraint : ⟨"members_email_key".toList, false, ["email".toList]⟩ ∈ members.constraints :=
    List.mem_cons_self
  have hsafe := (selectsOnly_iff hconstraint rfl hwheres).1 honly
  obtain ⟨v, hv, -⟩ := hsafe.1 "email".toList (List.mem_singleton_self _)
  cases hv

theorem address_selects_member :
    ∃ s, buildsRow (some plainServer.driver) (rowMutation plainServer members (memberCatalog.keyOf members)
        (member (some (.text "a@b.c".toList))) ∅) s ∧
      SelectsOnly (oneMember (some (.text "a@b.c".toList))) s 0 := by
  obtain ⟨s, hs⟩ := delete_member (some (.text "a@b.c".toList))
  refine ⟨s, hs, ?_⟩
  apply (key_selects_iff plainServer memberCatalog members List.mem_cons_self
    (oneMember (some (.text "a@b.c".toList))) 0 _ rfl ∅ s hs).2
  rw [keyOf_members]
  constructor
  · intro name hname
    rw [List.mem_singleton.1 hname]
    exact ⟨_, rfl, trivial⟩
  · rintro ⟨name, hname, v, hv, hinexact⟩
    rw [List.mem_singleton.1 hname] at hv
    obtain rfl : Value.text "a@b.c".toList = v := Option.some_inj.1 hv
    exact absurd hinexact (by decide)

end Workbench.Table
