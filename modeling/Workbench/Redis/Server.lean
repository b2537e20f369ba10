import Mathlib.Logic.Function.Basic
import Workbench.Lib.Double
import Workbench.Lib.Table

/-!
# Redis

The keys of a Redis server and the commands that the workbench sends to change them, as the server documents
them: a key is gone once its value is empty or its time is over, `SET` and `DEL` forget the expiry, the commands
that add to a value keep it, and a transaction goes on behind a command that fails.
-/

set_option autoImplicit false

namespace Workbench.Redis

open Workbench.Lib

/-! ## Keys -/

/-- The value of a key. Of a type that the workbench does not know there is only the name. -/
inductive Value where
  | string (text : Text)
  | hash (fields : Table Text Text)
  | list (items : List Text)
  | set (members : Table Text Unit)
  | zset (scores : Table Text Number)
  | other (type : Text)

def Value.isEmpty : Value → Bool
  | .hash fields => fields.entries.isEmpty
  | .list items => items.isEmpty
  | .set members => members.entries.isEmpty
  | .zset scores => scores.entries.isEmpty
  | .string _ | .other _ => false

/-- What `TYPE` answers. -/
def Value.type : Value → Text
  | .string _ => "string".toList
  | .hash _ => "hash".toList
  | .list _ => "list".toList
  | .set _ => "set".toList
  | .zset _ => "zset".toList
  | .other type => type

/-- A key with the time at which it expires, in Unix milliseconds. -/
structure Entry where
  value : Value
  expiry : Option Int
  nonempty : value.isEmpty = false

abbrev Keyspace : Type := Text → Option Entry

namespace Keyspace

/-- An empty value is no value. -/
def store (ks : Keyspace) (key : Text) (value : Value) (expiry : Option Int) : Keyspace :=
  Function.update ks key (if h : value.isEmpty = false then some ⟨value, expiry, h⟩ else none)

def remove (ks : Keyspace) (key : Text) : Keyspace := Function.update ks key none

def expiryOf (ks : Keyspace) (key : Text) : Option Int := (ks key).bind Entry.expiry

@[simp] theorem remove_self (ks : Keyspace) (key : Text) : ks.remove key key = none := Function.update_self ..

theorem store_self {ks : Keyspace} {key : Text} {value : Value} {expiry : Option Int} (h : value.isEmpty = false) :
    ks.store key value expiry key = some ⟨value, expiry, h⟩ := by
  rw [store, Function.update_self, dif_pos h]

theorem store_remove (ks : Keyspace) (key : Text) (v : Value) (a : Option Int) :
    (ks.remove key).store key v a = ks.store key v a := Function.update_idem ..

end Keyspace

/-! ## Commands -/

/-- The score of `ZADD` may be no number. -/
inductive Command where
  | set (key text : Text)
  | del (key : Text)
  | hset (key : Text) (fields : List (Text × Text))
  | rpush (key : Text) (items : List Text)
  | sadd (key : Text) (members : List Text)
  | zadd (key : Text) (score : Option Number) (member : Text)
  | expire (key : Text) (seconds : Int)
  | persist (key : Text)

inductive Failure where
  | wrongType
  | notFloat
  | execAbort
  deriving DecidableEq, Repr

def insertAll {V : Type} (fields : List (Text × V)) (t : Table Text V) : Table Text V :=
  fields.foldl (fun t field => t.insert field.1 field.2) t

/-- A value that is put for the one of a key, if that one has the type that the command is for. -/
def amend (ks : Keyspace) (key : Text) (f : Option Value → Option Value) : Except Failure Keyspace :=
  match f ((ks key).map Entry.value) with
  | none => .error .wrongType
  | some value => .ok (ks.store key value (ks.expiryOf key))

namespace Command

/-- The command has the arguments that it needs: the server refuses the others before it runs anything. -/
def hasArguments : Command → Bool
  | .hset _ fields => !fields.isEmpty
  | .rpush _ items => !items.isEmpty
  | .sadd _ members => !members.isEmpty
  | _ => true

def hashWith (fields : List (Text × Text)) : Option Value → Option Value
  | none => some (.hash (insertAll fields ∅))
  | some (.hash old) => some (.hash (insertAll fields old))
  | some _ => none

def listWith (items : List Text) : Option Value → Option Value
  | none => some (.list items)
  | some (.list old) => some (.list (old ++ items))
  | some _ => none

def setWith (members : List Text) : Option Value → Option Value
  | none => some (.set (insertAll (members.map fun m => (m, ())) ∅))
  | some (.set old) => some (.set (insertAll (members.map fun m => (m, ())) old))
  | some _ => none

def zsetWith (score : Number) (member : Text) : Option Value → Option Value
  | none => some (.zset (AList.insert member score ∅))
  | some (.zset old) => some (.zset (old.insert member score))
  | some _ => none

/-- What a command does at the time `now`. -/
def run (now : Int) (ks : Keyspace) : Command → Except Failure Keyspace
  | .set key text => .ok (ks.store key (.string text) none)
  | .del key => .ok (ks.remove key)
  | .hset key fields => amend ks key (hashWith fields)
  | .rpush key items => amend ks key (listWith items)
  | .sadd key members => amend ks key (setWith members)
  | .zadd key score member =>
    match score with
    | none => .error .notFloat
    | some score => amend ks key (zsetWith score member)
  | .expire key seconds =>
    match ks key with
    | none => .ok ks
    | some entry =>
      -- a time that is not ahead of now deletes the key
      if seconds ≤ 0 then .ok (ks.remove key)
      else .ok (ks.store key entry.value (some (now + seconds * 1000)))
  | .persist key =>
    match ks key with
    | none => .ok ks
    | some entry => .ok (ks.store key entry.value none)

/-- The commands one after another, with the first failure. -/
def runAll (now : Int) : List Command → Keyspace → Keyspace × Option Failure
  | [], ks => (ks, none)
  | c :: rest, ks =>
    match c.run now ks with
    | .ok ks' => runAll now rest ks'
    | .error e => ((runAll now rest ks).1, some e)

/-- `MULTI` and `EXEC`. -/
def exec (now : Int) (commands : List Command) (ks : Keyspace) : Keyspace × Option Failure :=
  if commands.all hasArguments then runAll now commands ks else (ks, some .execAbort)

/-- The command adds to the value of the key. -/
def Adds (key : Text) : Command → Prop
  | .hset k fields => k = key ∧ fields ≠ []
  | .rpush k items => k = key ∧ items ≠ []
  | .sadd k members => k = key ∧ members ≠ []
  | .zadd k _ _ => k = key
  | _ => False

end Command

/-! ## What is added -/

theorem insertAll_ne_nil {V : Type} {fields : List (Text × V)} (hne : fields ≠ []) (t : Table Text V) :
    (insertAll fields t).entries.isEmpty = false := by
  have hkept : ∀ (fields : List (Text × V)) (t : Table Text V), t.entries ≠ [] →
      (insertAll fields t).entries ≠ [] := by
    intro fields
    induction fields with
    | nil => exact fun _ h => h
    | cons field rest ih => exact fun t _ => ih _ (List.cons_ne_nil _ _)
  cases fields with
  | nil => exact absurd rfl hne
  | cons field rest => exact List.isEmpty_eq_false_iff.2 (hkept rest _ (List.cons_ne_nil _ _))

section

variable {now : Int} {key : Text} {ks ks' : Keyspace}

theorem amend_eq_ok {f : Option Value → Option Value} (h : amend ks key f = .ok ks') :
    ∃ value, f ((ks key).map Entry.value) = some value ∧ ks' = ks.store key value (ks.expiryOf key) := by
  rw [amend] at h
  cases hvalue : f ((ks key).map Entry.value) with
  | none =>
    rw [hvalue] at h
    cases h
  | some value =>
    rw [hvalue] at h
    exact ⟨value, rfl, (Except.ok.inj h).symm⟩

theorem nonempty_hashWith {fields : List (Text × Text)} (hne : fields ≠ []) {old : Option Value} {value : Value}
    (h : Command.hashWith fields old = some value) : value.isEmpty = false := by
  cases old with
  | none =>
    cases h
    exact insertAll_ne_nil hne _
  | some old =>
    cases old with
    | hash fields =>
      cases h
      exact insertAll_ne_nil hne _
    | _ => cases h

theorem nonempty_listWith {items : List Text} (hne : items ≠ []) {old : Option Value} {value : Value}
    (h : Command.listWith items old = some value) : value.isEmpty = false := by
  cases old with
  | none =>
    cases h
    exact List.isEmpty_eq_false_iff.2 hne
  | some old =>
    cases old with
    | list old =>
      cases h
      exact List.isEmpty_eq_false_iff.2 (List.append_ne_nil_of_right_ne_nil _ hne)
    | _ => cases h

theorem nonempty_setWith {members : List Text} (hne : members ≠ []) {old : Option Value} {value : Value}
    (h : Command.setWith members old = some value) : value.isEmpty = false := by
  have hmap : (members.map fun m => (m, ())) ≠ [] := fun hnil => hne (List.map_eq_nil_iff.1 hnil)
  cases old with
  | none =>
    cases h
    exact insertAll_ne_nil hmap _
  | some old =>
    cases old with
    | set old =>
      cases h
      exact insertAll_ne_nil hmap _
    | _ => cases h

theorem nonempty_zsetWith {score : Number} {member : Text} {old : Option Value} {value : Value}
    (h : Command.zsetWith score member old = some value) : value.isEmpty = false := by
  cases old with
  | none =>
    cases h
    rfl
  | some old =>
    cases old with
    | zset old =>
      cases h
      rfl
    | _ => cases h

/-- A command that adds to a value leaves one, with the expiry that there was. -/
theorem run_of_adds {c : Command} (hadds : c.Adds key) (h : c.run now ks = .ok ks') :
    ∃ value, ∃ hne : Value.isEmpty value = false,
      ks' = ks.store key value (ks.expiryOf key) ∧ ks' key = some ⟨value, ks.expiryOf key, hne⟩ := by
  have hamend : ∀ {f : Option Value → Option Value},
      (∀ value, f ((ks key).map Entry.value) = some value → value.isEmpty = false) → amend ks key f = .ok ks' →
      ∃ value, ∃ hne : Value.isEmpty value = false,
        ks' = ks.store key value (ks.expiryOf key) ∧ ks' key = some ⟨value, ks.expiryOf key, hne⟩ := by
    intro f hf hok
    obtain ⟨value, hvalue, rfl⟩ := amend_eq_ok hok
    exact ⟨value, hf value hvalue, rfl, Keyspace.store_self (hf value hvalue)⟩
  cases c with
  | hset k fields =>
    obtain ⟨rfl, hne⟩ := hadds
    exact hamend (fun _ hvalue => nonempty_hashWith hne hvalue) h
  | rpush k items =>
    obtain ⟨rfl, hne⟩ := hadds
    exact hamend (fun _ hvalue => nonempty_listWith hne hvalue) h
  | sadd k members =>
    obtain ⟨rfl, hne⟩ := hadds
    exact hamend (fun _ hvalue => nonempty_setWith hne hvalue) h
  | zadd k score member =>
    obtain rfl : k = key := hadds
    cases score with
    | none => cases h
    | some score => exact hamend (fun _ hvalue => nonempty_zsetWith hvalue) h
  | _ => exact hadds.elim

/-- What is deleted and then written with one command has the value of this command alone. -/
theorem exec_amend {c : Command} {f : Option Value → Option Value} {value : Value} (hargs : c.hasArguments = true)
    (hrun : ∀ ks : Keyspace, c.run now ks = amend ks key f) (hf : f none = some value) (ks : Keyspace) :
    Command.exec now [.del key, c] ks = (ks.store key value none, none) := by
  have hall : [Command.del key, c].all Command.hasArguments = true := by
    rw [List.all_cons, List.all_cons, hargs]
    rfl
  have hamend : amend (ks.remove key) key f = .ok (ks.store key value none) := by
    rw [amend, Keyspace.remove_self, Option.map_none, hf, Keyspace.expiryOf, Keyspace.remove_self]
    exact congrArg Except.ok (Keyspace.store_remove ks key value none)
  rw [Command.exec, if_pos hall]
  show Command.runAll now [c] (ks.remove key) = _
  rw [Command.runAll, hrun, hamend]
  rfl

end

/-! ## Tables of what is added -/

/-- Entries with new keys are added as they are. -/
theorem insertAll_perm {V : Type} (fields : List (Text × V)) (t : Table Text V) (hnodup : (fields.map Prod.fst).Nodup)
    (hnew : ∀ f ∈ fields, f.1 ∉ t) :
    (insertAll fields t).entries.Perm (fields.map (fun f => ⟨f.1, f.2⟩) ++ t.entries) := by
  induction fields generalizing t with
  | nil => exact List.Perm.refl _
  | cons f rest ih =>
    rw [List.map_cons, List.nodup_cons] at hnodup
    rw [List.forall_mem_cons] at hnew
    have hentries : (t.insert f.1 f.2).entries = ⟨f.1, f.2⟩ :: t.entries := AList.entries_insert_of_notMem hnew.1
    refine (ih (t.insert f.1 f.2) hnodup.2 fun g hg => ?_).trans ?_
    · rw [AList.mem_insert, not_or]
      refine ⟨fun heq => hnodup.1 ?_, hnew.2 g hg⟩
      rw [← heq]
      exact List.mem_map_of_mem hg
    · rw [hentries]
      exact List.perm_middle

end Workbench.Redis
