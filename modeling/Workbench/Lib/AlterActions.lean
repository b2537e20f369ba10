import Workbench.Lib.SqlTokens

/-!
# What a text drops

A scanner over the tokens of a text that marks each place where a column, a constraint, a key or an
index is dropped:

* an action of `ALTER TABLE`, `ALTER FOREIGN TABLE`, `ALTER DOMAIN` or `ALTER TYPE` whose first word is
  `DROP`; an action ends at a comma outside parentheses. Partitions (MySQL), defaults and `NOT NULL` are
  none of the four;
* a `DROP` statement of an index, or of an object that takes columns and indexes with it: a table, a
  materialized view, a schema, a database, an extension, what a role owns;
* a `DROP` statement of any other object with `CASCADE`, which drops what depends on it.

Code that a statement runs, as `DO`, `CALL` and `EXECUTE` do, is not read. A number in front of a
statement, a name or an action is the version of an executable comment.
-/

set_option autoImplicit false

namespace Workbench.Lib

/-- Where the next token stands. -/
inductive Place where
  /-- In front of a statement. -/
  | statement
  /-- Behind the `DROP` of a statement. -/
  | dropped
  /-- In a `DROP` statement of another kind of object. -/
  | removing
  /-- Behind the `ALTER` of a statement. -/
  | altered
  /-- In front of the name of the table or of another altered object, or of a part of it. -/
  | table
  /-- Behind a part of the name. -/
  | named
  /-- In front of an action. -/
  | action
  /-- Behind the `DROP` of an action. -/
  | dropping
  /-- In an action, inside that many parentheses. -/
  | inside (depth : Nat)
  /-- In a statement of another kind. -/
  | other
  deriving DecidableEq, Repr

namespace Place

/-- The mark that something is dropped. -/
abbrev Drop := Unit

def isKeyword (keyword : String) (word : List Char) : Bool :=
  word.map Char.toUpper = keyword.toList

def isOneOf (keywords : List String) (word : List Char) : Bool :=
  keywords.any fun keyword => isKeyword keyword word

def isNumber (word : List Char) : Bool := word.all Char.isDigit

def atAction (word : List Char) : Place :=
  if isNumber word then .action
  else if isKeyword "DROP" word then .dropping
  else .inside 0

/-- A word. `partitions` says that the dialect drops partitions. -/
def onWord (partitions : Bool) (p : Place) (word : List Char) : Place × List Drop :=
  match p with
  | .statement =>
    if isNumber word then (.statement, [])
    else if isKeyword "ALTER" word then (.altered, [])
    else if isKeyword "DROP" word then (.dropped, [])
    else (.other, [])
  | .dropped =>
    if isNumber word || isOneOf ["FOREIGN", "TEMPORARY"] word then (.dropped, [])
    else if isOneOf ["INDEX", "TABLE", "TABLES", "MATERIALIZED", "SCHEMA", "DATABASE", "EXTENSION",
        "OWNED"] word then
      (.other, [()])
    else (.removing, [])
  | .removing => if isKeyword "CASCADE" word then (.other, [()]) else (.removing, [])
  | .altered =>
    if isNumber word || isOneOf ["FOREIGN", "IGNORE"] word then (.altered, [])
    else if isOneOf ["TABLE", "DOMAIN", "TYPE"] word then (.table, [])
    else (.other, [])
  | .table =>
    if isNumber word || isOneOf ["IF", "EXISTS", "ONLY"] word then (.table, [])
    else (.named, [])
  | .named => (atAction word, [])
  | .action => (atAction word, [])
  | .dropping =>
    if isNumber word then (.dropping, [])
    else if partitions && isKeyword "PARTITION" word || isOneOf ["DEFAULT", "NOT"] word then
      (.inside 0, [])
    else (.inside 0, [()])
  | .inside depth => (.inside depth, [])
  | .other => (.other, [])

def onQuoted : Place → Place × List Drop
  | .removing => (.removing, [])
  | .table => (.named, [])
  | .named => (.inside 0, [])
  | .action => (.inside 0, [])
  | .dropping => (.inside 0, [()])
  | .inside depth => (.inside depth, [])
  | _ => (.other, [])

/-- The front of an action that is no word. -/
def atSymbol (c : Char) : Place :=
  if c = ',' then .action else if c = '(' then .inside 1 else .inside 0

def onSymbol (p : Place) (c : Char) : Place :=
  if c = ';' then .statement
  else match p with
  | .removing => .removing
  | .named => if c = '.' then .table else if c = '*' then .named else .other
  | .action => atSymbol c
  | .dropping => atSymbol c
  | .inside depth =>
    if c = '(' then .inside (depth + 1)
    else if c = ')' then .inside (depth - 1)
    else if c = ',' ∧ depth = 0 then .action
    else .inside depth
  | _ => .other

def step (partitions : Bool) (p : Place) : SqlToken → Place × List Drop
  | .word text => p.onWord partitions text
  | .symbol c => (p.onSymbol c, [])
  | .quoted _ _ => p.onQuoted
  | .comment => (p, [])
  | .executable => (p, [])
  | .unclosed => (p, [])

end Place

/-- The scanner of the places. -/
def places (partitions : Bool) : Scanner Place SqlToken Place.Drop := ⟨Place.step partitions, fun _ => []⟩

/-- Words, quoted texts and symbols other than the comma and the parentheses stay inside an action. -/
def SqlToken.staysInside : SqlToken → Bool
  | .word _ => true
  | .quoted _ _ => true
  | .symbol c => c ≠ ';' && c ≠ ',' && c ≠ '(' && c ≠ ')'
  | .comment => false
  | .executable => false
  | .unclosed => false

theorem places_inside {partitions : Bool} {tokens : List SqlToken}
    (h : tokens.all SqlToken.staysInside = true) (depth : Nat) :
    (places partitions).Run (.inside depth) tokens [] (.inside depth) := by
  induction tokens with
  | nil => exact Scanner.Run.nil _
  | cons t rest ih =>
    rw [List.all_cons, Bool.and_eq_true] at h
    have hstep : (places partitions).step (.inside depth) t = (.inside depth, []) := by
      cases t with
      | word text => rfl
      | quoted mark value => rfl
      | symbol c =>
        have hc := h.1
        simp only [SqlToken.staysInside, Bool.and_eq_true, decide_eq_true_eq, ne_eq] at hc
        obtain ⟨⟨⟨h1, h2⟩, h3⟩, h4⟩ := hc
        simp [places, Place.step, Place.onSymbol, h1, h2, h3, h4]
      | comment => exact absurd h.1 (by decide)
      | executable => exact absurd h.1 (by decide)
      | unclosed => exact absurd h.1 (by decide)
    exact (Scanner.Run.of_step hstep).append (ih h.2)

/-- A statement of another kind lasts until a semicolon. -/
theorem places_other {partitions : Bool} {tokens : List SqlToken}
    (h : tokens.any SqlToken.harmful = false) :
    (places partitions).Run .other tokens [] .other := by
  induction tokens with
  | nil => exact Scanner.Run.nil _
  | cons t rest ih =>
    rw [List.any_cons, Bool.or_eq_false_iff] at h
    have hstep : (places partitions).step .other t = (.other, []) := by
      cases t with
      | symbol c =>
        have hc : c ≠ ';' := by simpa [SqlToken.harmful] using h.1
        simp [places, Place.step, Place.onSymbol, hc]
      | _ => rfl
    exact (Scanner.Run.of_step hstep).append (ih h.2)

end Workbench.Lib
