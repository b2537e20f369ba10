import Workbench.Redis.Server

/-!
# The Redis service

`GetKey`, `SaveKey` and `SetTTL` of `api/internal/redisdb/service.go`. A value of type `any` is one of those that
a JSON text is decoded to, or the slice of maps that `readValue` makes and `SaveKey` asks for.
-/

set_option autoImplicit false

namespace Workbench.Redis

open Workbench.Lib

/-! ## Values of Go -/

/-- A number is kept by the literal that it was read from, and a map as a loop over it comes to its entries. -/
inductive GoAny where
  | null
  | bool (value : Bool)
  | float64 (literal : Text)
  | string (text : Text)
  | slice (items : List GoAny)
  | map (fields : List (Text × GoAny))
  | maps (items : List (List (Text × GoAny)))

/-- What comes from the libraries: `fmt.Sprint`, the verb `%q`, `strconv.ParseFloat` without its error, where a
score that is no number is `none`, and the seconds that the client sends for a `time.Duration`. -/
structure Libraries where
  sprint : GoAny → Text
  sprint_string : ∀ text, sprint (.string text) = text
  quote : Text → Text
  parseFloat : Text → Option Number
  formatSec : Int → Int

/-- Libraries that print nothing but texts, for the runs on fixed inputs. -/
def Libraries.plain : Libraries where
  sprint
    | .string text => text
    | _ => []
  sprint_string _ := rfl
  quote text := '"' :: text ++ ['"']
  parseFloat text := some (Number.read text)
  formatSec d := d.tdiv 1000000000

instance : Inhabited Libraries := ⟨Libraries.plain⟩

inductive Err where
  | message (text : Text)
  | redis (failure : Failure)
  deriving DecidableEq, Repr

structure KeyUpdate where
  type : Text
  value : GoAny
  ttl : Option Int

/-- `item[name]` of a map. -/
def mapGet (fields : List (Text × GoAny)) (name : Text) : GoAny :=
  ((fields.find? fun f => f.1 = name).map Prod.snd).getD .null

section

variable (libs : Libraries) (now : Int)

/-! ## Saving -/

/-- The answer of the server to one command, or to a pipeline. -/
def reply (r : Keyspace × Option Failure) : Keyspace × Option Err := (r.1, r.2.map Err.redis)

def send (ks : Keyspace) (c : Command) : Keyspace × Option Err := reply (Command.runAll now [c] ks)

/-- `TxPipeline`. -/
def pipeline (ks : Keyspace) (commands : List Command) : Keyspace × Option Err := reply (Command.exec now commands ks)

def refuse (ks : Keyspace) (text : String) : Keyspace × Option Err := (ks, some (.message text.toList))

/-- The command for one item of a sorted set. -/
def zaddItem (key : Text) (item : List (Text × GoAny)) : Command :=
  .zadd key (libs.parseFloat (libs.sprint (mapGet item "score".toList))) (libs.sprint (mapGet item "member".toList))

/-- The `switch` of `SaveKey`. -/
def saveValue (ks : Keyspace) (key : Text) (update : KeyUpdate) : Keyspace × Option Err :=
  let type := update.type.map runeToLower
  if type = "string".toList then
    match update.value with
    | .string text => send now ks (.set key text)
    | _ => refuse ks "string value required"
  else if type = "hash".toList then
    match update.value with
    | .map fields => pipeline now ks [.del key, .hset key (fields.map fun f => (f.1, libs.sprint f.2))]
    | _ => refuse ks "hash value must be an object"
  else if type = "list".toList then
    match update.value with
    | .slice items =>
      pipeline now ks (.del key :: if items = [] then [] else [.rpush key (items.map libs.sprint)])
    | _ => refuse ks "list value must be an array"
  else if type = "set".toList then
    match update.value with
    | .slice items =>
      pipeline now ks (.del key :: if items = [] then [] else [.sadd key (items.map libs.sprint)])
    | _ => refuse ks "set value must be an array"
  else if type = "zset".toList then
    match update.value with
    | .maps items => pipeline now ks (.del key :: items.map (zaddItem libs key))
    | _ => refuse ks "zset value must be an array of \x7bmember, score\x7d"
  else (ks, some (.message ("unsupported redis type ".toList ++ libs.quote update.type)))

/-- `time.Duration(seconds) * time.Second`, which is an `int64`. -/
def duration (seconds : Int) : Int := (seconds * 1000000000).bmod (2 ^ 64)

def expire (ks : Keyspace) (key : Text) (seconds : Int) : Keyspace × Option Err :=
  send now ks (.expire key (libs.formatSec (duration seconds)))

def saveKey (ks : Keyspace) (key : Text) (update : KeyUpdate) : Keyspace × Option Err :=
  if key = [] then refuse ks "key is required"
  else
    match saveValue libs now ks key update with
    | (ks', some e) => (ks', some e)
    | (ks', none) =>
      match update.ttl with
      | some ttl => expire libs now ks' key ttl
      | none => (ks', none)

def setTTL (ks : Keyspace) (key : Text) (ttlSeconds : Int) : Keyspace × Option Err :=
  if ttlSeconds ≤ 0 then send now ks (.persist key) else expire libs now ks key ttlSeconds

end

/-! ## Reading -/

/-- `readValue`, where the server answers in the order in which it keeps the value, and a score is kept by the
literal that `literal` gives. The slices and maps of texts that the client answers with are those of `any` here: they
only go into a JSON text. -/
def readValue (literal : Number → Text) : Value → Except Err GoAny
  | .string text => .ok (.string text)
  | .hash fields => .ok (.map (fields.entries.map fun e => (e.1, .string e.2)))
  | .list items => .ok (.slice (items.map .string))
  | .set members => .ok (.slice (members.entries.map fun e => .string e.1))
  | .zset scores =>
    .ok (.maps (scores.entries.map fun e =>
      [("member".toList, .string e.1), ("score".toList, .float64 (literal e.2))]))
  | .other _ => .error (.redis .wrongType)

structure KeyDetail where
  key : Text
  type : Text
  ttl : Int
  value : GoAny

/-- The seconds that the client makes of the answer of `TTL`: a key without an expiry has the answer -1, which is
that many nanoseconds. -/
def ttlSeconds (now : Int) : Option Int → Int
  | none => 0
  | some expiry => (expiry - now + 500) / 1000

def getKey (libs : Libraries) (literal : Number → Text) (now : Int) (ks : Keyspace) (key : Text) :
    Except Err KeyDetail :=
  if key = [] then .error (.message "key is required".toList)
  else
    match ks key with
    | none => .error (.message ("key ".toList ++ libs.quote key ++ " not found".toList))
    | some entry =>
      match readValue literal entry.value with
      | .error e => .error e
      | .ok value => .ok ⟨key, entry.value.type, ttlSeconds now entry.expiry, value⟩

end Workbench.Redis
