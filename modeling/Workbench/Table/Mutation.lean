import Mathlib.Data.Char
import Mathlib.Data.List.Lex
import Mathlib.Data.List.Sort
import Workbench.Base.Dialect
import Workbench.Lib.Table

/-!
# Mutations of single rows

`api/internal/table/service.go`. A mutation comes in as JSON maps of column names to values; the builders
turn it into a statement with placeholders. `Statement` keeps the parts that the source writes into the
text, and `Statement.sql` is the text. The values are of any type.
-/

set_option autoImplicit false

namespace Workbench.Table

open Workbench.Lib

variable {V : Type}

/-- The errors of the builders, with the texts they have in the source. -/
inductive BuildError where
  | uniqueKeyRequired
  | changedValueRequired
  | valueRequired
  | invalidIdentifier
  | unsupportedDriver
  deriving DecidableEq, Repr

namespace BuildError

def text : BuildError → Text
  | uniqueKeyRequired => "a primary or unique key is required".toList
  | changedValueRequired => "at least one changed value is required".toList
  | valueRequired => "at least one value is required".toList
  | invalidIdentifier => "invalid empty identifier".toList
  | unsupportedDriver => "unsupported driver".toList

end BuildError

structure Mutation (V : Type) where
  schema : Text
  table : Text
  values : Lib.Table Text V
  key : Lib.Table Text V

/-- A column with the position of its placeholder. -/
structure Part where
  column : Text
  position : Nat
  deriving DecidableEq, Repr

inductive Action where
  | insert (columns : List Part)
  | update (sets wheres : List Part)
  | delete (wheres : List Part)
  deriving DecidableEq, Repr

/-- `Statement`: the parts of its text, and the arguments of the placeholders. -/
structure Statement (V : Type) where
  driver : Dialect
  schema : Text
  table : Text
  action : Action
  args : List V

/-- `QuoteIdentifier` checks the name; a driver without SQL is not supported. -/
def quotable (driver : Option Dialect) (identifier : Text) : Except BuildError Dialect :=
  if identifier = [] ∨ '\x00' ∈ identifier then .error .invalidIdentifier
  else
    match driver with
    | some d => .ok d
    | none => .error .unsupportedDriver

def quoteMark : Dialect → Char
  | .mysql => backtick
  | .postgres => '"'

/-- `QuoteIdentifier` on a name that it accepts. -/
def quoteIdentifier (driver : Dialect) (identifier : Text) : Text :=
  let mark := quoteMark driver
  mark :: (identifier.flatMap (fun c => if c = mark then [mark, mark] else [c]) ++ [mark])

/-- The checks of `qualifiedName`. -/
def qualifiedName (driver : Option Dialect) (schema table : Text) : Except BuildError Dialect := do
  let d ← quotable driver table
  if schema = [] then .ok d else quotable driver schema

def sortedKeys (values : Lib.Table Text V) : List Text :=
  values.keys.mergeSort fun a b => decide (a ≤ b)

/-- The loop of `predicates` over the sorted names, behind `start` arguments. -/
def predicateParts (driver : Option Dialect) (values : Lib.Table Text V) :
    Nat → List Text → Except BuildError (List Part × List V)
  | _, [] => .ok ([], [])
  | start, name :: rest => do
    let _ ← quotable driver name
    match values.lookup name with
    | none => predicateParts driver values start rest
    | some value =>
      let (parts, args) ← predicateParts driver values (start + 1) rest
      .ok (⟨name, start + 1⟩ :: parts, value :: args)

/-- `predicates`: the parts, and the arguments it appends to those that are there. -/
def predicates (driver : Option Dialect) (values : Lib.Table Text V) (args : List V) :
    Except BuildError (List Part × List V) := do
  let (parts, more) ← predicateParts driver values args.length (sortedKeys values)
  .ok (parts, args ++ more)

/-- The values of an update without those of key columns. -/
def changedValues (mutation : Mutation V) : Lib.Table Text V :=
  mutation.values.alter (fun name => (mutation.key.lookup name).isSome) fun _ => none

def buildUpdate (driver : Option Dialect) (mutation : Mutation V) : Except BuildError (Statement V) :=
  if mutation.key.keys = [] then .error .uniqueKeyRequired
  else
    let values := changedValues mutation
    if values.keys = [] then .error .changedValueRequired
    else do
      let d ← qualifiedName driver mutation.schema mutation.table
      let (sets, args) ← predicates driver values []
      let (wheres, args) ← predicates driver mutation.key args
      .ok ⟨d, mutation.schema, mutation.table, .update sets wheres, args⟩

def buildDelete (driver : Option Dialect) (mutation : Mutation V) : Except BuildError (Statement V) :=
  if mutation.key.keys = [] then .error .uniqueKeyRequired
  else do
    let d ← qualifiedName driver mutation.schema mutation.table
    let (wheres, args) ← predicates driver mutation.key []
    .ok ⟨d, mutation.schema, mutation.table, .delete wheres, args⟩

def buildInsert (driver : Option Dialect) (mutation : Mutation V) : Except BuildError (Statement V) :=
  if mutation.values.keys = [] then .error .valueRequired
  else do
    let d ← qualifiedName driver mutation.schema mutation.table
    let (columns, args) ← predicates driver mutation.values []
    .ok ⟨d, mutation.schema, mutation.table, .insert columns, args⟩

/-! ## The text -/

def placeholder (driver : Dialect) (position : Nat) : Text :=
  match driver with
  | .postgres => '$' :: (toString position).toList
  | .mysql => ['?']

def joinWith (separator : Text) (items : List Text) : Text := List.intercalate separator items

def Part.text (driver : Dialect) (p : Part) : Text :=
  quoteIdentifier driver p.column ++ (" = ".toList ++ placeholder driver p.position)

def tableName (driver : Dialect) (schema table : Text) : Text :=
  if schema = [] then quoteIdentifier driver table
  else quoteIdentifier driver schema ++ ('.' :: quoteIdentifier driver table)

def Statement.sql (s : Statement V) : Text :=
  let table := tableName s.driver s.schema s.table
  match s.action with
  | .update sets wheres =>
    "UPDATE ".toList ++ (table ++ (" SET ".toList ++
      (joinWith ", ".toList (sets.map (Part.text s.driver)) ++ (" WHERE ".toList ++
        joinWith " AND ".toList (wheres.map (Part.text s.driver))))))
  | .delete wheres =>
    "DELETE FROM ".toList ++ (table ++ (" WHERE ".toList ++
      joinWith " AND ".toList (wheres.map (Part.text s.driver))))
  | .insert columns =>
    "INSERT INTO ".toList ++ (table ++ (" (".toList ++
      (joinWith ", ".toList (columns.map fun p => quoteIdentifier s.driver p.column) ++
        (") VALUES (".toList ++
          (joinWith ", ".toList (columns.map fun p => placeholder s.driver p.position) ++ [')'])))))

/-- The arguments of the `WHERE` clause by their columns; an insert has none. -/
def Statement.wheres (s : Statement V) : List (Text × Option V) :=
  let parts := match s.action with
    | .update _ wheres => wheres
    | .delete wheres => wheres
    | .insert _ => []
  parts.map fun p => (p.column, s.args[p.position - 1]?)

/-! ## What the builders put together -/

theorem mem_sortedKeys {values : Lib.Table Text V} {name : Text} :
    name ∈ sortedKeys values ↔ ∃ value, values.lookup name = some value := by
  rw [sortedKeys, List.mem_mergeSort, ← AList.mem_keys, ← AList.lookup_isSome, Option.isSome_iff_exists]

/-- The parts are the names in order, each with its value at its position. -/
theorem predicateParts_ok {driver : Option Dialect} {values : Lib.Table Text V} (names : List Text)
    (hnames : ∀ name ∈ names, ∃ value, values.lookup name = some value) :
    ∀ {before parts args}, predicateParts driver values (List.length before) names = .ok (parts, args) →
      parts.map Part.column = names ∧
        ∀ p ∈ parts, (before ++ args)[p.position - 1]? = values.lookup p.column := by
  induction names with
  | nil =>
    intro before parts args h
    cases h
    exact ⟨rfl, fun p hp => nomatch hp⟩
  | cons name rest ih =>
    intro before parts args h
    obtain ⟨value, hvalue⟩ := hnames name List.mem_cons_self
    rw [predicateParts, bind_eq_ok] at h
    obtain ⟨d, -, h⟩ := h
    rw [hvalue] at h
    simp only [bind_eq_ok] at h
    obtain ⟨⟨more, moreArgs⟩, hmore, h⟩ := h
    cases h
    have hlen : before.length + 1 = (before ++ [value]).length := by
      rw [List.length_append, List.length_singleton]
    rw [hlen] at hmore
    obtain ⟨hcolumns, hparts⟩ := ih (fun n hn => hnames n (List.mem_cons_of_mem name hn)) hmore
    refine ⟨by rw [List.map_cons, hcolumns], ?_⟩
    intro p hp
    rcases List.mem_cons.1 hp with rfl | hp
    · show (before ++ value :: moreArgs)[before.length + 1 - 1]? = values.lookup name
      rw [Nat.add_sub_cancel, List.getElem?_append_right (Nat.le_refl _), Nat.sub_self, hvalue]
      rfl
    · have harg := hparts p hp
      rwa [List.append_assoc, List.singleton_append] at harg

theorem predicates_ok {driver : Option Dialect} {values : Lib.Table Text V} {before args : List V}
    {parts : List Part} (h : predicates driver values before = .ok (parts, args)) :
    parts.map Part.column = sortedKeys values ∧
      ∀ p ∈ parts, args[p.position - 1]? = values.lookup p.column := by
  rw [predicates, bind_eq_ok] at h
  obtain ⟨⟨parts', more⟩, hparts, h⟩ := h
  cases h
  exact predicateParts_ok (sortedKeys values) (fun name hname => mem_sortedKeys.1 hname) hparts

/-- The clause compares each key column with the value the key has for it, and nothing else. -/
def WheresKey (s : Statement V) (key : Lib.Table Text V) : Prop :=
  ∀ column arg, (column, arg) ∈ s.wheres ↔ ∃ value, key.lookup column = some value ∧ arg = some value

theorem wheresKey_of_parts {s : Statement V} {key : Lib.Table Text V} {parts : List Part}
    (hwheres : s.wheres = parts.map fun p => (p.column, s.args[p.position - 1]?))
    (hcolumns : parts.map Part.column = sortedKeys key)
    (hargs : ∀ p ∈ parts, s.args[p.position - 1]? = key.lookup p.column) : WheresKey s key := by
  intro column arg
  rw [hwheres, List.mem_map]
  constructor
  · rintro ⟨p, hp, heq⟩
    cases heq
    have hmem : p.column ∈ sortedKeys key := hcolumns ▸ List.mem_map_of_mem hp
    obtain ⟨value, hvalue⟩ := mem_sortedKeys.1 hmem
    exact ⟨value, hvalue, (hargs p hp).trans hvalue⟩
  · rintro ⟨value, hvalue, rfl⟩
    have hmem : column ∈ parts.map Part.column := by
      rw [hcolumns]
      exact mem_sortedKeys.2 ⟨value, hvalue⟩
    obtain ⟨p, hp, rfl⟩ := List.mem_map.1 hmem
    exact ⟨p, hp, by rw [hargs p hp, hvalue]⟩

theorem quotable_ok {driver : Option Dialect} {identifier : Text} {d : Dialect}
    (h : quotable driver identifier = .ok d) : driver = some d := by
  unfold quotable at h
  split at h
  · cases h
  · cases driver with
    | none => cases h
    | some d' =>
      cases h
      rfl

theorem qualifiedName_ok {driver : Option Dialect} {schema table : Text} {d : Dialect}
    (h : qualifiedName driver schema table = .ok d) : driver = some d := by
  rw [qualifiedName, bind_eq_ok] at h
  obtain ⟨d', htable, h⟩ := h
  split at h
  · cases h
    exact quotable_ok htable
  · exact quotable_ok h

theorem buildDelete_ok {driver : Option Dialect} {mutation : Mutation V} {s : Statement V}
    (h : buildDelete driver mutation = .ok s) : driver = some s.driver ∧ WheresKey s mutation.key := by
  unfold buildDelete at h
  split at h
  · cases h
  · obtain ⟨d, hd, h⟩ := bind_eq_ok.1 h
    obtain ⟨⟨parts, args⟩, hparts, h⟩ := bind_eq_ok.1 h
    cases h
    obtain ⟨hcolumns, hargs⟩ := predicates_ok hparts
    exact ⟨qualifiedName_ok hd, wheresKey_of_parts rfl hcolumns hargs⟩

theorem buildUpdate_ok {driver : Option Dialect} {mutation : Mutation V} {s : Statement V}
    (h : buildUpdate driver mutation = .ok s) : driver = some s.driver ∧ WheresKey s mutation.key := by
  unfold buildUpdate at h
  split at h
  · cases h
  dsimp only at h
  split at h
  · cases h
  · obtain ⟨d, hd, h⟩ := bind_eq_ok.1 h
    obtain ⟨⟨sets, setArgs⟩, -, h⟩ := bind_eq_ok.1 h
    -- the key's arguments come behind those of the SET clause
    obtain ⟨⟨wheres, args⟩, hwheres, h⟩ := bind_eq_ok.1 h
    cases h
    obtain ⟨hcolumns, hargs⟩ := predicates_ok hwheres
    exact ⟨qualifiedName_ok hd, wheresKey_of_parts rfl hcolumns hargs⟩

end Workbench.Table
