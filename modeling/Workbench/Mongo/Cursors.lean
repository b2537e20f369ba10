import Workbench.Mongo.Save

/-!
# Reading cursors

The loops of `Find` and `Aggregate` of `api/internal/mongo/service.go` over what a cursor gives. `Find` sends its limit
with the request and asks for the error of the cursor behind the loop; `Aggregate` counts the documents itself and does
not ask (`reads_honest_iff`).
-/

set_option autoImplicit false

namespace Workbench.Mongo

open Workbench.Lib

def maxDocuments : Nat := 10000

/-! ## What the server has -/

/-- The documents that a request selects, as the driver decodes them, and after how many of them reading fails. -/
structure Answer where
  selected : List (Except Text Doc)
  failsAfter : Option (Nat × Text)

/-- What `Next` gives in turn, and what `Err` says behind it. -/
structure Cursor where
  documents : List (Except Text Doc)
  failure : Option Text

/-- The cursor of a request that goes for so many documents. -/
def Answer.cursor (answer : Answer) (goal : Nat) : Cursor :=
  match answer.failsAfter with
  | some (k, e) =>
    if k ≤ (answer.selected.take goal).length then ⟨answer.selected.take k, some e⟩
    else ⟨answer.selected.take goal, none⟩
  | none => ⟨answer.selected.take goal, none⟩

/-- What the server answers to the requests: the documents that `skip` is over with, or those of the pipeline. -/
structure ReadServer where
  count : (filter : Doc) → Except Text Int
  find : (filter sort projection : Doc) → (skip : Int) → Except Text Answer
  aggregate : (pipeline : List (List (Text × Bson))) → Except Text Answer

/-! ## Requests -/

structure FindRequest where
  collection : Text
  filter : Option Json
  sort : Option Json
  limit : Int
  skip : Int
  projection : Option Json

structure AggregateRequest where
  collection : Text
  pipeline : List Json

/-- The columns and rows with the total, and whether there may be more. -/
structure ReadResult where
  page : FindResult
  total : Int
  truncated : Bool

section

variable (codec : Codec) (server : ReadServer)

/-- The limit that `Find` goes by. -/
def FindRequest.limitFor (req : FindRequest) (pageSize : ℕ+) : Nat :=
  let limit : Int := if req.limit ≤ 0 then pageSize else req.limit
  if limit > maxDocuments then maxDocuments else limit.toNat

/-- `Find` up to its cursor, with the total. -/
def openFind (req : FindRequest) : Except Text (Int × Answer) := do
  if req.collection = [] then .error "collection is required".toList
  else
    let filter ← rawToBSON codec req.filter
    let sort ← rawToBSON codec req.sort
    let projection ← rawToBSON codec req.projection
    let total := match server.count filter with
      | .ok n => n
      | .error _ => 0
    match server.find filter sort projection req.skip with
    | .ok answer => .ok (total, answer)
    | .error e => .error ("mongo find: ".toList ++ e)

/-- A stage is a document whose fields keep their order. -/
def stageOf (stage : Json) : Except Text (List (Text × Bson)) :=
  match fromJson codec stage with
  | some (.document fields) => .ok fields
  | _ => .error ("invalid pipeline stage: ".toList ++ codec.unmarshalError stage)

/-- `Aggregate` up to its cursor. -/
def openAggregate (req : AggregateRequest) : Except Text Answer := do
  if req.collection = [] then .error "collection is required".toList
  else if req.pipeline = [] then .error "pipeline is required".toList
  else
    let stages ← req.pipeline.mapM (stageOf codec)
    match server.aggregate stages with
    | .ok answer => .ok answer
    | .error e => .error ("mongo aggregate: ".toList ++ e)

end

/-! ## Loops -/

/-- The loop of `Find`: every document is decoded. -/
def readAll (docs : List Doc) : List (Except Text Doc) → Except Text (List Doc)
  | [] => .ok docs
  | .error e :: _ => .error e
  | .ok doc :: rest => readAll (docs ++ [doc]) rest

/-- The loop of `Aggregate`, which looks at the number of documents behind `Next`. -/
def readSome (docs : List Doc) : List (Except Text Doc) → Except Text (List Doc)
  | [] => .ok docs
  | next :: rest =>
    if docs.length < maxDocuments then
      match next with
      | .error e => .error e
      | .ok doc => readSome (docs ++ [doc]) rest
    else .ok docs

section

variable (codec : Codec) (server : ReadServer)

/-- `Find`. -/
def findDocuments (req : FindRequest) (pageSize : ℕ+) : Except Text ReadResult := do
  let (total, answer) ← openFind codec server req
  let cursor := answer.cursor (req.limitFor pageSize)
  let docs ← readAll [] cursor.documents
  match cursor.failure with
  | some e => .error e
  | none => .ok ⟨find codec docs, total, req.limitFor pageSize ≤ docs.length⟩

/-- `Aggregate`. -/
def aggregate (req : AggregateRequest) : Except Text ReadResult := do
  let answer ← openAggregate codec server req
  let docs ← readSome [] (answer.cursor answer.selected.length).documents
  .ok ⟨find codec docs, 0, maxDocuments ≤ docs.length⟩

end

/-! ## What the loops read -/

/-- The documents of a list that can all be decoded. -/
def Decoded (documents : List (Except Text Doc)) (docs : List Doc) : Prop := documents = docs.map Except.ok

theorem readAll_eq_ok {documents : List (Except Text Doc)} {front docs : List Doc} :
    readAll front documents = .ok docs ↔ ∃ found, Decoded documents found ∧ docs = front ++ found := by
  -- By induction over the documents: one that cannot be decoded ends it with an error.
  induction documents generalizing front with
  | nil =>
    rw [readAll, Except.ok.injEq]
    constructor
    · rintro rfl
      exact ⟨[], rfl, (List.append_nil _).symm⟩
    · rintro ⟨found, hfound, rfl⟩
      rw [List.map_eq_nil_iff.1 hfound.symm, List.append_nil]
  | cons next rest ih =>
    cases next with
    | error e =>
      rw [readAll]
      refine iff_of_false (fun h => by cases h) ?_
      rintro ⟨found, hfound, -⟩
      cases found with
      | nil => cases hfound
      | cons doc more => cases (List.cons.inj hfound).1
    | ok doc =>
      rw [readAll, ih]
      constructor
      · rintro ⟨found, hfound, rfl⟩
        exact ⟨doc :: found, congrArg (Except.ok doc :: ·) hfound, List.append_assoc _ _ _⟩
      · rintro ⟨found, hfound, rfl⟩
        cases found with
        | nil => cases hfound
        | cons first more =>
          obtain ⟨hfirst, hmore⟩ := List.cons.inj hfound
          cases hfirst
          refine ⟨more, hmore, ?_⟩
          rw [List.append_assoc, List.singleton_append]

/-- `Aggregate` decodes as many documents as it returns at most. -/
theorem readSome_eq_readAll {documents : List (Except Text Doc)} {front : List Doc} (h : front.length ≤ maxDocuments) :
    readSome front documents = readAll front (documents.take (maxDocuments - front.length)) := by
  induction documents generalizing front with
  | nil => rw [List.take_nil, readSome, readAll]
  | cons next rest ih =>
    -- The check of the loop stands in front of the decoding, so it is the same for both kinds of documents.
    have hround : readSome front (next :: rest) =
        if front.length < maxDocuments then next.bind fun doc => readSome (front ++ [doc]) rest else .ok front := by
      cases next with
      | error e => rfl
      | ok doc => rfl
    rw [hround]
    by_cases hroom : front.length < maxDocuments
    · have hlength : maxDocuments - front.length = (maxDocuments - (front.length + 1)) + 1 := by omega
      rw [if_pos hroom, hlength, List.take_succ_cons]
      cases next with
      | error e => rfl
      | ok doc =>
        have hnext : (front ++ [doc]).length ≤ maxDocuments := by
          rw [List.length_append]
          exact hroom
        have hrest := ih hnext
        rw [List.length_append, List.length_singleton] at hrest
        exact hrest
    · -- There is no room left, and nothing more is looked at.
      have hzero : maxDocuments - front.length = 0 := by omega
      rw [if_neg hroom, hzero, List.take_zero, readAll]

/-! ## What a cursor reads -/

theorem Decoded.length_eq {documents : List (Except Text Doc)} {docs : List Doc} (h : Decoded documents docs) :
    docs.length = documents.length := by
  rw [h, List.length_map]

theorem length_find (codec : Codec) (docs : List Doc) : (find codec docs).rows.length = docs.length := by
  rw [find, List.length_map, flattenDocuments, List.length_mapIdx]

namespace Answer

variable (answer : Answer)

/-- Reading fails behind at most so many documents. -/
def FailsWithin (goal : Nat) : Prop := ∃ k e, answer.failsAfter = some (k, e) ∧ k ≤ min goal answer.selected.length

/-- Reading goes through for so many documents. -/
def ReadsThrough (goal : Nat) : Prop := ¬answer.FailsWithin goal ∧ ∃ docs, Decoded (answer.selected.take goal) docs

variable {answer} {goal : Nat}

theorem cursor_of_fails {k : Nat} {e : Text} (h : answer.failsAfter = some (k, e))
    (hk : k ≤ min goal answer.selected.length) : answer.cursor goal = ⟨answer.selected.take k, some e⟩ := by
  rw [cursor, h]
  dsimp only
  rw [if_pos (by rw [List.length_take]; exact hk)]

theorem cursor_of_not_fails (h : ¬answer.FailsWithin goal) :
    answer.cursor goal = ⟨answer.selected.take goal, none⟩ := by
  rw [cursor]
  cases hfails : answer.failsAfter with
  | none => rfl
  | some failure =>
    refine if_neg fun hk => h ⟨failure.1, failure.2, hfails, ?_⟩
    rw [List.length_take] at hk
    exact hk

theorem failure_eq_none_iff : (answer.cursor goal).failure = none ↔ ¬answer.FailsWithin goal := by
  constructor
  · rintro hnone ⟨k, e, hfails, hk⟩
    rw [cursor_of_fails hfails hk] at hnone
    cases hnone
  · intro h
    rw [cursor_of_not_fails h]

end Answer

/-! ## Honest reads -/

/-- The cursor has ended without an error or at the limit, and nothing is said to be missing just if nothing is. -/
structure Honest (codec : Codec) (answer : Answer) (goal limit : Nat) (result : ReadResult) : Prop where
  ended : (answer.cursor goal).failure = none ∨ result.page.rows.length = limit
  complete : result.truncated = false ↔ ∃ docs, Decoded answer.selected docs ∧ result.page = find codec docs

section

variable {codec : Codec} {server : ReadServer}

/-- The first documents, of which there are so many: they are all just if there are no more. -/
theorem complete_iff {answer : Answer} {m : Nat} {docs : List Doc} (h : Decoded (answer.selected.take m) docs) :
    (∃ all, Decoded answer.selected all ∧ find codec docs = find codec all) ↔ answer.selected.length ≤ m := by
  constructor
  · rintro ⟨all, hall, hsame⟩
    have hlength := congrArg (fun page => page.rows.length) hsame
    rw [length_find, length_find, h.length_eq, hall.length_eq, List.length_take] at hlength
    omega
  · intro hle
    rw [List.take_of_length_le hle] at h
    exact ⟨docs, h, rfl⟩

section

variable {req : FindRequest} {pageSize : ℕ+} {total : Int} {answer : Answer}

theorem findDocuments_eq_ok (hopen : openFind codec server req = .ok (total, answer)) {result : ReadResult} :
    findDocuments codec server req pageSize = .ok result ↔ ¬answer.FailsWithin (req.limitFor pageSize) ∧
      ∃ docs, Decoded (answer.selected.take (req.limitFor pageSize)) docs ∧
        result = ⟨find codec docs, total, req.limitFor pageSize ≤ docs.length⟩ := by
  rw [findDocuments, bind_eq_ok]
  constructor
  · rintro ⟨opened, hopened, hread⟩
    rw [hopen, Except.ok.injEq] at hopened
    subst hopened
    obtain ⟨docs, hdocs, hend⟩ := bind_eq_ok.1 hread
    -- A cursor that fails within the limit ends the call with its error.
    by_cases hfails : answer.FailsWithin (req.limitFor pageSize)
    · obtain ⟨k, e, hafter, hk⟩ := hfails
      rw [Answer.cursor_of_fails hafter hk] at hend
      cases hend
    · rw [Answer.cursor_of_not_fails hfails] at hdocs hend
      obtain ⟨_, hdecoded, rfl⟩ := readAll_eq_ok.1 hdocs
      exact ⟨hfails, docs, hdecoded, (Except.ok.inj hend).symm⟩
  · rintro ⟨hfails, docs, hdecoded, rfl⟩
    refine ⟨(total, answer), hopen, ?_⟩
    rw [bind_eq_ok, Answer.cursor_of_not_fails hfails]
    exact ⟨docs, readAll_eq_ok.2 ⟨docs, hdecoded, (List.nil_append docs).symm⟩, rfl⟩

/-- What `Find` reads up to its limit is honest just if the limit is not hit exactly. -/
theorem honest_find_iff {docs : List Doc} (hfails : ¬answer.FailsWithin (req.limitFor pageSize))
    (hdocs : Decoded (answer.selected.take (req.limitFor pageSize)) docs) :
    Honest codec answer (req.limitFor pageSize) (req.limitFor pageSize)
        ⟨find codec docs, total, req.limitFor pageSize ≤ docs.length⟩ ↔
      answer.selected.length ≠ req.limitFor pageSize := by
  have hlength := hdocs.length_eq
  rw [List.length_take] at hlength
  -- The page says that there is more just if it is full, and nothing is left out just if all fit.
  have hcomplete : (decide (req.limitFor pageSize ≤ docs.length) = false ↔
      ∃ all, Decoded answer.selected all ∧ find codec docs = find codec all) ↔
      answer.selected.length ≠ req.limitFor pageSize := by
    rw [complete_iff hdocs, decide_eq_false_iff_not]
    omega
  constructor
  · intro h
    exact hcomplete.1 h.complete
  · intro h
    exact ⟨Or.inl (Answer.failure_eq_none_iff.2 hfails), hcomplete.2 h⟩

end

section

variable {req : AggregateRequest} {answer : Answer}

theorem aggregate_eq_ok (hopen : openAggregate codec server req = .ok answer) {result : ReadResult} :
    aggregate codec server req = .ok result ↔
      ∃ docs, Decoded ((answer.cursor answer.selected.length).documents.take maxDocuments) docs ∧
        result = ⟨find codec docs, 0, maxDocuments ≤ docs.length⟩ := by
  rw [aggregate, hopen]
  show (readSome [] _ >>= _) = _ ↔ _
  rw [bind_eq_ok, readSome_eq_readAll (Nat.zero_le _), List.length_nil, Nat.sub_zero]
  constructor
  · rintro ⟨docs, hdocs, hend⟩
    obtain ⟨_, hdecoded, rfl⟩ := readAll_eq_ok.1 hdocs
    exact ⟨docs, hdecoded, (Except.ok.inj hend).symm⟩
  · rintro ⟨docs, hdecoded, rfl⟩
    exact ⟨docs, readAll_eq_ok.2 ⟨docs, hdecoded, (List.nil_append docs).symm⟩, rfl⟩

/-- The pipeline does not give just as many documents as `Aggregate` returns at most, and its cursor does not fail in
front of these. -/
def Answer.Clear (answer : Answer) : Prop :=
  (∀ k e, answer.failsAfter = some (k, e) → k ≤ answer.selected.length → maxDocuments ≤ k) ∧
    answer.selected.length ≠ maxDocuments

/-- What `Aggregate` reads is honest just if the answer is clear: it does not see the error of its cursor. -/
theorem honest_aggregate_iff {docs : List Doc}
    (hdocs : Decoded ((answer.cursor answer.selected.length).documents.take maxDocuments) docs) :
    Honest codec answer answer.selected.length maxDocuments ⟨find codec docs, 0, maxDocuments ≤ docs.length⟩ ↔
      answer.Clear := by
  -- The loop stops at the maximum, so a failure behind it is never seen.
  by_cases hfails : answer.FailsWithin answer.selected.length
  · obtain ⟨k, e, hafter, hk⟩ := hfails
    rw [Answer.cursor_of_fails hafter hk, List.take_take] at hdocs
    rw [min_self] at hk
    have hlength := hdocs.length_eq
    rw [List.length_take] at hlength
    have hcomplete : (decide (maxDocuments ≤ docs.length) = false ↔
        ∃ all, Decoded answer.selected all ∧ find codec docs = find codec all) ↔
        (maxDocuments ≤ k → answer.selected.length ≠ maxDocuments) ∧ (k < maxDocuments → answer.selected.length = k) := by
      rw [complete_iff hdocs, decide_eq_false_iff_not]
      omega
    constructor
    · intro h
      -- The failure is seen or the maximum was read before it.
      have hcut : maxDocuments ≤ k := by
        rcases h.ended with hnone | hrows
        · exact absurd ⟨k, e, hafter, (min_self answer.selected.length).symm ▸ hk⟩ (Answer.failure_eq_none_iff.1 hnone)
        · rw [length_find] at hrows
          omega
      refine ⟨fun k' e' hafter' _ => ?_, (hcomplete.1 h.complete).1 hcut⟩
      rw [hafter] at hafter'
      cases hafter'
      exact hcut
    · rintro ⟨hall, hne⟩
      have hcut := hall k e hafter hk
      refine ⟨Or.inr ?_, hcomplete.2 ⟨fun _ => hne, fun hlt => by omega⟩⟩
      rw [length_find]
      omega
  · rw [Answer.cursor_of_not_fails hfails, List.take_take] at hdocs
    have hlength := hdocs.length_eq
    rw [List.length_take] at hlength
    have hcomplete : (decide (maxDocuments ≤ docs.length) = false ↔
        ∃ all, Decoded answer.selected all ∧ find codec docs = find codec all) ↔
        answer.selected.length ≠ maxDocuments := by
      rw [complete_iff hdocs, decide_eq_false_iff_not]
      omega
    constructor
    · intro h
      refine ⟨fun k e hafter hk => absurd ⟨k, e, hafter, ?_⟩ hfails, hcomplete.1 h.complete⟩
      rw [min_self]
      exact hk
    · rintro ⟨-, hne⟩
      exact ⟨Or.inl (Answer.failure_eq_none_iff.2 hfails), hcomplete.2 hne⟩

end

/-- **Reads are honest just if no limit is hit exactly, and no cursor of `Aggregate` fails in front of its limit.** -/
theorem reads_honest_iff (codec : Codec) (server : ReadServer) (pageSize : ℕ+) (find : FindRequest)
    (aggregation : AggregateRequest) :
    ((∀ total answer result, openFind codec server find = .ok (total, answer) →
        findDocuments codec server find pageSize = .ok result →
        Honest codec answer (find.limitFor pageSize) (find.limitFor pageSize) result) ↔
      ∀ total answer, openFind codec server find = .ok (total, answer) →
        answer.ReadsThrough (find.limitFor pageSize) → answer.selected.length ≠ find.limitFor pageSize) ∧
    ((∀ answer result, openAggregate codec server aggregation = .ok answer →
        aggregate codec server aggregation = .ok result →
        Honest codec answer answer.selected.length maxDocuments result) ↔
      ∀ answer docs, openAggregate codec server aggregation = .ok answer →
        Decoded ((answer.cursor answer.selected.length).documents.take maxDocuments) docs → answer.Clear) := by
  constructor
  · constructor
    · -- A call that reads through has one result only, and it is honest just in this case.
      rintro h total answer hopen ⟨hfails, docs, hdocs⟩
      have hhonest := h total answer _ hopen ((findDocuments_eq_ok hopen).2 ⟨hfails, docs, hdocs, rfl⟩)
      exact (honest_find_iff hfails hdocs).1 hhonest
    · intro h total answer result hopen hresult
      obtain ⟨hfails, docs, hdocs, rfl⟩ := (findDocuments_eq_ok hopen).1 hresult
      exact (honest_find_iff hfails hdocs).2 (h total answer hopen ⟨hfails, docs, hdocs⟩)
  · constructor
    · intro h answer docs hopen hdocs
      have hhonest := h answer _ hopen ((aggregate_eq_ok hopen).2 ⟨docs, hdocs, rfl⟩)
      exact (honest_aggregate_iff hdocs).1 hhonest
    · intro h answer result hopen hresult
      obtain ⟨docs, hdocs, rfl⟩ := (aggregate_eq_ok hopen).1 hresult
      exact (honest_aggregate_iff hdocs).2 (h answer docs hopen hdocs)

end

/-- Two documents, of which the second cannot be read. -/
def brokenServer : ReadServer where
  count _ := .ok 2
  find _ _ _ _ := .ok ⟨[.ok ∅, .ok ∅], some (1, "connection closed".toList)⟩
  aggregate _ := .ok ⟨[.ok ∅, .ok ∅], some (1, "connection closed".toList)⟩

def everything : AggregateRequest := ⟨"shipments".toList, [.object []]⟩

/-- `Aggregate` gives one of them, and says that this is all. -/
theorem aggregate_broken : ∃ answer result, openAggregate default brokenServer everything = .ok answer ∧
    aggregate default brokenServer everything = .ok result ∧ result.truncated = false ∧
    ¬Honest default answer answer.selected.length maxDocuments result := by
  refine ⟨⟨[.ok ∅, .ok ∅], some (1, "connection closed".toList)⟩, ⟨find default [∅], 0, false⟩, rfl, rfl, rfl, ?_⟩
  intro h
  rcases h.ended with hnone | hrows
  · cases hnone
  · exact absurd hrows (by decide)

end Workbench.Mongo
