import Workbench.Mongo.Cursors

/-!
# The order of keys

The way of index keys and sort keys from the JSON of a request to the server: `CreateIndex`, the sort of `Find` and the
handler in `api/internal/httpapi/router_mongo_redis.go`. On the way the keys are a Go map, and a run of the program
comes to the entries of a map in some order (`key_order_kept_iff`).
-/

set_option autoImplicit false

namespace Workbench.Mongo

open Workbench.Lib

/-! ## Index keys -/

/-- `json.Decode` into a `map[string]int`: of one key the last member counts. -/
def decodeKeys (members : List (Text × Int)) : Table Text Int :=
  members.foldl (fun keys member => keys.insert member.1 member.2) ∅

structure IndexModel where
  keys : List (Text × Int)
  unique : Bool
  name : Option Text
  deriving DecidableEq

/-- `CreateIndex`: the loop over the map appends one key after the other. -/
def createIndex (order : MapOrder Text) (keys : Table Text Int) (unique : Bool) (name : Text) : IndexModel where
  keys := (order.entries keys).foldl (fun indexKeys e => indexKeys ++ [e]) []
  unique := unique
  name := if name ≠ [] then some name else none

/-! ## Sort keys -/

/-- What the driver makes of a map that it gets as a sort, in the order in which it comes to its entries: it may refuse
one with several keys. -/
structure SortDriver where
  marshal : List (Text × Bson) → Except Text (List (Text × Bson))
  one : ∀ fields, fields.length ≤ 1 → marshal fields = .ok fields
  several : ∀ fields, marshal fields = .ok fields ∨ ∃ e, marshal fields = .error e

/-- The sort that `Find` sends. -/
def sortOf (codec : Codec) (driver : SortDriver) (order : MapOrder Text) (sort : Option Json) :
    Except Text (List (Text × Bson)) := do
  let fields ← rawToBSON codec sort
  if fields.entries = [] then .ok [] else driver.marshal (order.entries fields)

/-! ## Lists that are their own reverse -/

theorem length_le_one_of_reverse {α : Type} {x : List α} (hnodup : x.Nodup) (h : x.reverse = x) : x.length ≤ 1 := by
  by_contra hlong
  have hfirst : 0 < x.length := by omega
  have hsame : x[0] = x[x.length - 1] := by
    have hget : x.reverse[0]? = x[0]? := by rw [h]
    rw [List.getElem?_reverse hfirst, List.getElem?_eq_getElem hfirst, List.getElem?_eq_getElem (by omega)] at hget
    exact (Option.some.inj hget).symm
  have hindex := (List.Nodup.getElem_inj_iff hnodup).1 hsame
  omega

/-- A list that a map gives in every order has at most one entry: one of the orders is the other way around. -/
theorem length_le_one_of_orders {V : Type} {m : Table Text V} {l : List (Text × V)}
    (h : ∀ order : MapOrder Text, order.entries m = l) : l.length ≤ 1 := by
  have hkeys := MapOrder.byKey.nodup_entries m
  have hperm := MapOrder.byKey.entries_perm m
  rw [h] at hkeys hperm
  obtain ⟨order, hreverse⟩ := MapOrder.exists_mapOrder ((hperm.map Prod.fst).nodup_iff.1 hkeys)
    (hperm.symm.trans (List.reverse_perm l).symm)
  exact length_le_one_of_reverse hkeys.of_map (hreverse.symm.trans (h order))

/-- A map of no entry or one comes in one order. -/
theorem entries_foldl_insert {V : Type} {members : List (Text × V)} (h : members.length ≤ 1) (order : MapOrder Text) :
    order.entries (members.foldl (fun m e => m.insert e.1 e.2) (∅ : Table Text V)) = members := by
  have hperm := order.entries_perm (members.foldl (fun m e => m.insert e.1 e.2) (∅ : Table Text V))
  cases members with
  | nil => exact List.perm_nil.1 hperm
  | cons e rest =>
    cases rest with
    | nil => exact List.perm_singleton.1 hperm
    | cons next more =>
      rw [List.length_cons, List.length_cons] at h
      omega

/-! ## Orders that are kept -/

theorem keys_createIndex (order : MapOrder Text) (keys : Table Text Int) (unique : Bool) (name : Text) :
    (createIndex order keys unique name).keys = order.entries keys := by
  have hloop : ∀ l front : List (Text × Int), l.foldl (fun indexKeys e => indexKeys ++ [e]) front = front ++ l := by
    intro l
    induction l with
    | nil => exact fun front => (List.append_nil front).symm
    | cons e rest ih =>
      intro front
      rw [List.foldl_cons, ih, List.append_assoc, List.singleton_append]
  rw [createIndex, hloop, List.nil_append]

/-- The index keys in the order of the members, whatever the order of the map, and the same in any two runs. -/
def IndexOrderKept (members : List (Text × Int)) (unique : Bool) (name : Text) : Prop :=
  (∀ order, (createIndex order (decodeKeys members) unique name).keys = members) ∧
    ∀ order order', createIndex order (decodeKeys members) unique name =
      createIndex order' (decodeKeys members) unique name

/-- The same for the fields of a sort. -/
def SortOrderKept (codec : Codec) (driver : SortDriver) (sort : Json) (fields : List (Text × Bson)) : Prop :=
  (∀ order, sortOf codec driver order (some sort) = .ok fields) ∧
    ∀ order order', sortOf codec driver order (some sort) = sortOf codec driver order' (some sort)

theorem indexOrderKept_iff {members : List (Text × Int)} {unique : Bool} {name : Text} :
    IndexOrderKept members unique name ↔ members.length ≤ 1 := by
  constructor
  · rintro ⟨h, -⟩
    refine length_le_one_of_orders (m := decodeKeys members) fun order => ?_
    rw [← keys_createIndex order _ unique name]
    exact h order
  · intro h
    have hkept : ∀ order : MapOrder Text, order.entries (decodeKeys members) = members := entries_foldl_insert h
    constructor
    · intro order
      rw [keys_createIndex, hkept]
    · intro order order'
      rw [createIndex, createIndex, hkept, hkept]

section

variable {codec : Codec} {driver : SortDriver} {sort : Json} {fields : List (Text × Bson)}

theorem sortOf_document (hsort : fromJson codec sort = some (.document fields)) (order : MapOrder Text) :
    sortOf codec driver order (some sort) =
      if (docOf fields).entries = [] then .ok [] else driver.marshal (order.entries (docOf fields)) := by
  have hraw : rawToBSON codec (some sort) = .ok (docOf fields) := by
    have hread : unmarshalExtJSON codec sort = some (docOf fields) := by rw [unmarshalExtJSON, hsort]
    have hnull : sort ≠ .null := by
      rintro rfl
      cases hsort
    rw [rawToBSON, hread]
    exact hnull
  rw [sortOf, hraw]
  rfl

theorem sortOrderKept_iff (hsort : fromJson codec sort = some (.document fields)) :
    SortOrderKept codec driver sort fields ↔ fields.length ≤ 1 := by
  constructor
  · rintro ⟨h, -⟩
    by_cases hnone : (docOf fields).entries = []
    · have hempty := h MapOrder.byKey
      rw [sortOf_document hsort, if_pos hnone] at hempty
      cases hempty
      exact Nat.zero_le _
    · -- Every order of the map is sent as it is, so two fields would come in both orders.
      refine length_le_one_of_orders (m := docOf fields) fun order => ?_
      have hsent := h order
      rw [sortOf_document hsort, if_neg hnone] at hsent
      rcases driver.several (order.entries (docOf fields)) with hsame | ⟨e, herror⟩
      · rw [hsame] at hsent
        exact Except.ok.inj hsent
      · rw [herror] at hsent
        cases hsent
  · intro h
    -- A single field has one order.
    have hkept : ∀ order : MapOrder Text, order.entries (docOf fields) = fields := entries_foldl_insert h
    have hsent : ∀ order, sortOf codec driver order (some sort) = .ok fields := by
      intro order
      rw [sortOf_document hsort]
      split_ifs with hnone
      · have hempty := (order.entries_perm (docOf fields)).length_eq
        rw [hkept, hnone] at hempty
        rw [List.length_eq_zero_iff.1 hempty]
      · rw [hkept]
        exact driver.one fields h
    refine ⟨hsent, fun order order' => ?_⟩
    rw [hsent, hsent]

end

/-- **The order of keys is the client's just if there is at most one.** -/
theorem key_order_kept_iff (codec : Codec) (driver : SortDriver) :
    (∀ members unique name, IndexOrderKept members unique name ↔ members.length ≤ 1) ∧
      ∀ sort fields, fromJson codec sort = some (.document fields) →
        (SortOrderKept codec driver sort fields ↔ fields.length ≤ 1) :=
  ⟨fun _ _ _ => indexOrderKept_iff, fun _ _ => sortOrderKept_iff⟩

/-- `{"tenant": 1, "createdAt": -1}`. -/
def tenantKeys : List (Text × Int) := [("tenant".toList, 1), ("createdAt".toList, -1)]

/-- Two runs create two different indexes. -/
theorem tenantKeys_not_kept : ¬IndexOrderKept tenantKeys false [] ∧
    createIndex MapOrder.byKey (decodeKeys tenantKeys) false [] ≠
      createIndex MapOrder.byKey.reverse (decodeKeys tenantKeys) false [] := by
  have hdiffer : createIndex MapOrder.byKey (decodeKeys tenantKeys) false [] ≠
      createIndex MapOrder.byKey.reverse (decodeKeys tenantKeys) false [] := by decide
  exact ⟨fun h => hdiffer (h.2 _ _), hdiffer⟩

/-- The driver: a map with several keys is no sort. -/
def mapRefusing : SortDriver where
  marshal fields :=
    if fields.length ≤ 1 then .ok fields else .error "multi-key map passed in for ordered parameter sort".toList
  one fields h := if_pos h
  several fields := by
    by_cases h : fields.length ≤ 1
    · exact Or.inl (if_pos h)
    · exact Or.inr ⟨_, if_neg h⟩

/-- A sort by two keys arrives in no run. -/
theorem tenantSort_not_kept : ¬SortOrderKept default mapRefusing
      (.object [("tenant".toList, .string "asc".toList), ("createdAt".toList, .string "desc".toList)])
      [("tenant".toList, .string "asc".toList), ("createdAt".toList, .string "desc".toList)] := by
  rintro ⟨h, -⟩
  cases h MapOrder.byKey

end Workbench.Mongo
