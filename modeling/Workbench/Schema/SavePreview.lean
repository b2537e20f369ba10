import Workbench.Lib.Runs
import Workbench.Schema.Confirmation

/-!
# What the save button executes

`SchemaWorkspace.tsx`: edits, the timer that delays the preview, the numbered preview requests and the save
button. An edit restarts the timer and leaves the preview of the operations before it in place, and the
button does not look at the timer. The events come in any order; the answers are those of `Preview`.
-/

set_option autoImplicit false

namespace Workbench.Schema

open Workbench.Lib

/-- A request to execute, with the operations on screen at the click. -/
structure ExecuteRequest where
  token : Text
  confirmed : Bool
  operations : List Operation
  deriving DecidableEq, Repr

/-- The state of the component. `previewed` are the operations of the request that brought the preview;
a pending timer is always that of the current operations. -/
structure Workspace where
  loaded : Bool
  operations : List Operation
  preview : Option Preview
  previewed : List Operation
  busy : Bool
  previewBusy : Bool
  editing : Bool
  timer : Bool
  previewRequest : Nat
  inFlight : List (Nat × List Operation)
  executed : List ExecuteRequest
  deriving DecidableEq, Repr

inductive WorkspaceEvent where
  | loadStarts
  | loaded
  | loadFails
  | startEditing
  | edit (operations : List Operation)
  | timerFires
  | respond (id : Nat) (now : Int) (before : Table)
  | lost (id : Nat)
  | save (answer : Bool)
  | saveEnds
  | saveFails
  | discard
  deriving DecidableEq, Repr

namespace Workspace

def start : Workspace := ⟨false, [], none, [], false, false, false, false, 0, [], []⟩

/-- The effect behind a change of the operations. -/
def schedule (w : Workspace) : Workspace :=
  if !w.loaded then { w with timer := false }
  else if w.operations = [] then { w with timer := false, preview := none }
  else { w with timer := true }

/-- `refreshPreview`, up to its request. -/
def refreshPreview (w : Workspace) : Workspace :=
  if !w.loaded ∨ w.operations = [] then { w with preview := none }
  else
    { w with
      previewRequest := w.previewRequest + 1
      inFlight := w.inFlight ++ [(w.previewRequest + 1, w.operations)]
      previewBusy := true }

/-- The rest of `refreshPreview`: an answer counts only if it is that of the last request. -/
def receive (w : Workspace) (id : Nat) (answer : List Operation → Option Preview) : Workspace :=
  match w.inFlight.find? fun q => q.1 = id with
  | none => w
  | some q =>
    let w := { w with inFlight := w.inFlight.filter fun q => q.1 ≠ id }
    if w.previewRequest ≠ id then w
    else { w with preview := answer q.2, previewed := q.2, previewBusy := false }

/-- The button is there and not disabled. -/
def canSave (w : Workspace) : Bool :=
  w.loaded && w.editing && w.operations ≠ [] && w.preview.isSome && !w.busy && !w.previewBusy

/-- `execute`, up to its request; `answer` is what the user answers about a danger. -/
def save (w : Workspace) (answer : Bool) : Workspace :=
  match w.preview with
  | none => w
  | some p =>
    match saveFlag w.operations p answer with
    | none => w
    | some dangerous =>
      { w with busy := true, executed := w.executed ++ [⟨p.token, dangerous, w.operations⟩] }

section

variable (rt : Runtime) (s : Service) (dialect scope : Text)

/-- What the server answers to a preview request. -/
def answerOf (now : Int) (before : Table) (ops : List Operation) : Option Preview :=
  (Schema.preview rt s now dialect scope before ops).toOption

def step (w : Workspace) : WorkspaceEvent → Workspace
  | .loadStarts => { w with busy := true }
  | .loaded => schedule { w with loaded := true, operations := [], preview := none, busy := false }
  | .loadFails => { w with busy := false }
  | .startEditing => { w with editing := true }
  | .edit operations => if w.loaded then schedule { w with operations := operations } else w
  | .timerFires => if w.timer then refreshPreview { w with timer := false } else w
  | .respond id now before => w.receive id (answerOf rt s dialect scope now before)
  | .lost id => w.receive id fun _ => none
  | .save answer => if w.canSave then w.save answer else w
  | .saveEnds => { w with editing := false, busy := false }
  | .saveFails => { w with busy := false }
  | .discard =>
    if w.loaded then schedule { w with operations := [], preview := none, editing := false } else w

/-- The token is that of a preview of the operations. -/
def IsTokenOf (token : Text) (ops : List Operation) : Prop :=
  ∃ now before p, Schema.preview rt s now dialect scope before ops = .ok p ∧ p.token = token

/-- Every token that was executed is that of a preview of the operations on screen at the click. -/
def SavesWhatIsShown (w : Workspace) : Prop :=
  ∀ r ∈ w.executed, IsTokenOf rt s dialect scope r.token r.operations

end

/-- A click that goes through finds no timer running, or the operations back at those of the preview. -/
def Settled (w : Workspace) : WorkspaceEvent → Prop
  | .save _ => w.canSave = true → w.timer = false ∨ w.previewed = w.operations
  | _ => True

instance (w : Workspace) (e : WorkspaceEvent) : Decidable (w.Settled e) := by
  cases e <;> unfold Settled <;> infer_instance

section

variable {rt : Runtime} {s : Service} {dialect scope : Text}

/-- Once the timer has fired, the last request is that of the operations on screen. -/
structure Inv (rt : Runtime) (s : Service) (dialect scope : Text) (w : Workspace) : Prop where
  armed : w.timer = true → w.loaded = true
  numbered : ∀ q ∈ w.inFlight, q.1 ≤ w.previewRequest
  waits : w.previewBusy = false → ∀ q ∈ w.inFlight, q.1 ≠ w.previewRequest
  current : w.timer = false → w.operations ≠ [] →
    ∀ q ∈ w.inFlight, q.1 = w.previewRequest → q.2 = w.operations
  shown : w.timer = false → w.operations ≠ [] → w.previewBusy = false → w.preview.isSome = true →
    w.previewed = w.operations
  preview : ∀ p, w.preview = some p →
    ∃ now before, Schema.preview rt s now dialect scope before w.previewed = .ok p
  executed : w.SavesWhatIsShown rt s dialect scope

/-- The effect starts the timer, or there is nothing to preview. -/
theorem schedule_cases (w : Workspace) :
    schedule w = { w with timer := true } ∨
      (schedule w = { w with timer := false, preview := none } ∧ w.operations = []) ∨
        (schedule w = { w with timer := false } ∧ w.loaded = false) := by
  unfold schedule
  cases hloaded : w.loaded with
  | false => exact Or.inr (Or.inr ⟨rfl, rfl⟩)
  | true =>
    by_cases hops : w.operations = []
    · exact Or.inr (Or.inl ⟨by simp [hops], hops⟩)
    · exact Or.inl (by simp [hops])

/-- New operations under the effect that follows them. -/
theorem Inv.schedule {w : Workspace} (h : w.Inv rt s dialect scope) {w' : Workspace}
    (hloaded : w'.loaded = true) (hrequest : w'.previewRequest = w.previewRequest)
    (hflight : w'.inFlight = w.inFlight) (hbusy : w'.previewBusy = w.previewBusy)
    (hpreviewed : w'.previewed = w.previewed)
    (hpreview : w'.preview = w.preview ∨ w'.preview = none) (hexecuted : w'.executed = w.executed) :
    (Workspace.schedule w').Inv rt s dialect scope := by
  have hkept : ∀ p, w'.preview = some p →
      ∃ now before, Schema.preview rt s now dialect scope before w'.previewed = .ok p := by
    intro p hp
    rcases hpreview with hsame | hnone
    · rw [hpreviewed]
      exact h.preview p (hsame.symm.trans hp)
    · rw [hnone] at hp
      cases hp
  have hnumbered : ∀ q ∈ w'.inFlight, q.1 ≤ w'.previewRequest := by
    rw [hflight, hrequest]
    exact h.numbered
  have hwaits : w'.previewBusy = false → ∀ q ∈ w'.inFlight, q.1 ≠ w'.previewRequest := by
    rw [hbusy, hflight, hrequest]
    exact h.waits
  have hsaves : ∀ r ∈ w'.executed, IsTokenOf rt s dialect scope r.token r.operations := by
    rw [hexecuted]
    exact h.executed
  rcases schedule_cases w' with htimer | ⟨hempty, hops⟩ | ⟨_, hfalse⟩
  · rw [htimer]
    exact ⟨fun _ => hloaded, hnumbered, hwaits, fun hf => Bool.noConfusion hf,
      fun hf => Bool.noConfusion hf, hkept, hsaves⟩
  · rw [hempty]
    refine ⟨fun _ => hloaded, hnumbered, hwaits, fun _ hne => absurd hops hne,
      fun _ hne => absurd hops hne, ?_, hsaves⟩
    intro p hp
    cases hp
  · rw [hloaded] at hfalse
    cases hfalse

/-- Only flags that no request looks at change. -/
theorem Inv.flags {w : Workspace} (h : w.Inv rt s dialect scope) (busy editing : Bool) :
    ({ w with busy := busy, editing := editing } : Workspace).Inv rt s dialect scope :=
  ⟨h.armed, h.numbered, h.waits, h.current, h.shown, h.preview, h.executed⟩

theorem inv_timerFires {w : Workspace} (h : w.Inv rt s dialect scope) :
    (w.step rt s dialect scope .timerFires).Inv rt s dialect scope := by
  show (if w.timer then refreshPreview { w with timer := false } else w).Inv rt s dialect scope
  split
  · next htimer =>
      unfold refreshPreview
      split
      · next hnone =>
          -- The timer of a table that is there runs out, so the operations are gone.
          have hops : w.operations = [] := by
            rcases hnone with hloaded | hops
            · simp [h.armed htimer] at hloaded
            · exact hops
          refine ⟨fun hf => Bool.noConfusion hf, h.numbered, h.waits, fun _ hne => absurd hops hne,
            fun _ hne => absurd hops hne, ?_, h.executed⟩
          intro p hp
          cases hp
      · refine ⟨fun hf => Bool.noConfusion hf, ?_, ?_, ?_, ?_, h.preview, h.executed⟩
        · intro q hq
          rcases List.mem_append.1 hq with hold | hnew
          · exact Nat.le_succ_of_le (h.numbered q hold)
          · rw [List.mem_singleton.1 hnew]
        · intro hbusy
          cases hbusy
        · intro _ _ q hq hid
          rcases List.mem_append.1 hq with hold | hnew
          · have hle : q.1 ≤ w.previewRequest := h.numbered q hold
            have heq : q.1 = w.previewRequest + 1 := hid
            omega
          · rw [List.mem_singleton.1 hnew]
        · intro _ _ hbusy
          cases hbusy
  · exact h

theorem inv_receive {w : Workspace} (h : w.Inv rt s dialect scope) (id : Nat)
    {answer : List Operation → Option Preview}
    (hanswer : ∀ ops p, answer ops = some p →
      ∃ now before, Schema.preview rt s now dialect scope before ops = .ok p) :
    (w.receive id answer).Inv rt s dialect scope := by
  unfold receive
  split
  · exact h
  · next q hq =>
      have hmem : q ∈ w.inFlight := List.mem_of_find?_eq_some hq
      have hid : q.1 = id := by simpa using List.find?_some hq
      have hsub : ∀ r ∈ w.inFlight.filter (fun r => r.1 ≠ id), r ∈ w.inFlight ∧ r.1 ≠ id := by
        intro r hr
        exact ⟨(List.mem_filter.1 hr).1, of_decide_eq_true (List.mem_filter.1 hr).2⟩
      simp only
      split
      · exact ⟨h.armed, fun r hr => h.numbered r (hsub r hr).1, fun hb r hr => h.waits hb r (hsub r hr).1,
          fun ht hops r hr => h.current ht hops r (hsub r hr).1, h.shown, h.preview, h.executed⟩
      · next hlast =>
          have hlast : w.previewRequest = id := not_not.1 hlast
          refine ⟨h.armed, fun r hr => h.numbered r (hsub r hr).1, ?_, ?_, ?_, ?_, h.executed⟩
          · intro _ r hr hsame
            exact (hsub r hr).2 (hsame.trans hlast)
          · intro _ _ r hr hsame
            exact absurd (hsame.trans hlast) (hsub r hr).2
          · -- The answer is that of the last request, so it is about the operations on screen.
            intro htimer hops _ _
            exact h.current htimer hops q hmem (hid.trans hlast.symm)
          · intro p hp
            exact hanswer q.2 p hp

theorem inv_save {w : Workspace} (h : w.Inv rt s dialect scope) {answer : Bool}
    (hcond : w.Settled (.save answer)) :
    (w.step rt s dialect scope (.save answer)).Inv rt s dialect scope := by
  show (if w.canSave then w.save answer else w).Inv rt s dialect scope
  split
  · next hcan =>
      unfold save
      split
      · exact h
      · next p hp =>
          split
          · exact h
          · refine ⟨h.armed, h.numbered, h.waits, h.current, h.shown, h.preview, ?_⟩
            intro r hr
            rcases List.mem_append.1 hr with hold | hnew
            · exact h.executed r hold
            · rw [List.mem_singleton.1 hnew]
              obtain ⟨hops, hbusy⟩ : w.operations ≠ [] ∧ w.previewBusy = false := by
                simp [canSave] at hcan
                exact ⟨hcan.1.1.1.2, hcan.2⟩
              have hsame : w.previewed = w.operations := by
                rcases hcond hcan with htimer | hsame
                · exact h.shown htimer hops hbusy (by rw [hp]; rfl)
                · exact hsame
              obtain ⟨now, before, hpreview⟩ := h.preview p hp
              rw [hsame] at hpreview
              exact ⟨now, before, p, hpreview, rfl⟩
  · exact h

theorem inv_step (w : Workspace) (e : WorkspaceEvent) (hcond : w.Settled e)
    (h : w.Inv rt s dialect scope) : (w.step rt s dialect scope e).Inv rt s dialect scope := by
  cases e with
  | loadStarts => exact h.flags true w.editing
  | loaded => exact h.schedule rfl rfl rfl rfl rfl (Or.inr rfl) rfl
  | loadFails => exact h.flags false w.editing
  | startEditing => exact h.flags w.busy true
  | edit operations =>
    show (if w.loaded then Workspace.schedule { w with operations := operations } else w).Inv rt s
      dialect scope
    split
    · next hloaded => exact h.schedule hloaded rfl rfl rfl rfl (Or.inl rfl) rfl
    · exact h
  | timerFires => exact inv_timerFires h
  | respond id now before =>
    apply inv_receive h
    intro ops p hp
    refine ⟨now, before, ?_⟩
    cases hpreview : Schema.preview rt s now dialect scope before ops with
    | error e =>
      rw [answerOf, hpreview] at hp
      cases hp
    | ok p' =>
      rw [answerOf, hpreview] at hp
      cases hp
      rfl
  | lost id =>
    show (w.receive id fun _ => none).Inv rt s dialect scope
    apply inv_receive h
    intro ops p hp
    cases hp
  | save answer => exact inv_save h hcond
  | saveEnds => exact h.flags false false
  | saveFails => exact h.flags false w.editing
  | discard =>
    show (if w.loaded then Workspace.schedule { w with
      operations := [], preview := none, editing := false } else w).Inv rt s dialect scope
    split
    · next hloaded => exact h.schedule hloaded rfl rfl rfl rfl (Or.inr rfl) rfl
    · exact h

theorem inv_start : start.Inv rt s dialect scope where
  armed := by
    intro htimer
    cases htimer
  numbered := by
    intro q hq
    cases hq
  waits := by
    intro _ q hq
    cases hq
  current := by
    intro _ hops
    exact absurd rfl hops
  shown := by
    intro _ hops
    exact absurd rfl hops
  preview := by
    intro p hp
    cases hp
  executed := by
    intro r hr
    cases hr

/-- In every run whose clicks find no timer running, or the operations back at those of the preview,
what is executed is what is on screen. -/
theorem saves_what_is_shown {w : Workspace}
    (h : Runs (fun w e => w.step rt s dialect scope e) Settled start w) :
    w.SavesWhatIsShown rt s dialect scope :=
  (Runs.invariant inv_step h inv_start).executed

end

/-! ## The timer that is still running -/

/-- The preview of one operation, and the click behind a second one before the timer has fired. -/
def clickBeforeTimer (first second : Operation) (before : Table) : List WorkspaceEvent :=
  [.loaded, .startEditing, .edit [first], .timerFires, .respond 1 0 before, .edit [first, second],
    .save true]

/-- The click comes once the preview of both operations is there. -/
def clickBehindPreview (first second : Operation) (before : Table) : List WorkspaceEvent :=
  [.loaded, .startEditing, .edit [first], .timerFires, .respond 1 0 before, .edit [first, second],
    .timerFires, .respond 2 1 before, .save true]

def dropOf (name : Text) : Operation :=
  { (default : Operation) with kind := "drop_column".toList, name := name }

def articles : Table := { (default : Table) with schema := "public".toList, name := "articles".toList }

/-- Equal tokens carry the same statements. -/
theorem statements_of_token {rt : Runtime} {s : Service} {dialect scope : Text} {now now' : Int}
    {before before' : Table} {ops ops' : List Operation} {p p' : Preview}
    (h : Schema.preview rt s now dialect scope before ops = .ok p)
    (h' : Schema.preview rt s now' dialect scope before' ops' = .ok p') (htoken : p.token = p'.token) :
    p.statements = p'.statements := by
  obtain ⟨-, -, -, -, -, hsign⟩ := preview_ok rt h
  obtain ⟨-, -, -, -, -, hsign'⟩ := preview_ok rt h'
  -- Both are verified at a time before either expires.
  let early := min now now'
  have hlive : ∀ t : Int, early ≤ t → ¬unix early > unix (t + s.ttl) := by
    intro t ht
    have hpos := s.ttl_pos
    unfold unix second
    omega
  have hdata := verify_sign rt (s := s) (t := s) rfl early
    ⟨dialect, scope, p.fingerprint, unix (now + s.ttl), p.statements⟩
  rw [← hsign, htoken, hsign', verify_sign rt rfl, if_neg (hlive now' (Int.min_le_right _ _)),
    if_neg (hlive now (Int.min_le_left _ _)), Except.ok.injEq, TokenData.mk.injEq] at hdata
  exact hdata.2.2.2.2.symm

theorem generateOperation_dropOf {d : Dialect} {table tableName name : Text} {out : Output}
    (h : generateOperation d table tableName (dropOf name) = .ok out) : out.statements.length = 1 := by
  have hdrop : dropColumn d table name = .ok out := h
  simp only [dropColumn, bind_eq_ok] at hdrop
  obtain ⟨n, -, hout⟩ := hdrop
  cases hout
  rfl

/-- Every column that is dropped takes a statement of its own. -/
theorem generateOperations_dropOf {d : Dialect} {table tableName : Text} (names : List Text) :
    ∀ {out : Output}, generateOperations d table tableName (names.map dropOf) = .ok out →
      out.statements.length = names.length := by
  induction names with
  | nil =>
    intro out h
    cases h
    rfl
  | cons name rest ih =>
    intro out h
    simp only [List.map_cons, generateOperations, bind_eq_ok] at h
    obtain ⟨first, hfirst, more, hmore, hout⟩ := h
    cases hout
    show (first.statements ++ more.statements).length = _
    rw [List.length_append, generateOperation_dropOf hfirst, ih hmore, List.length_cons, Nat.add_comm]

theorem generate_dropOf {dialect schema table : Text} (names : List Text) {p : Preview}
    (h : generate dialect schema table (names.map dropOf) = .ok p) :
    p.statements.length = names.length := by
  unfold generate at h
  split at h
  · cases h
  · simp only [bind_eq_ok] at h
    obtain ⟨text, -, out, hout, hp⟩ := h
    cases hp
    exact generateOperations_dropOf names hout

/-- The service that the runs below ask. -/
def testRuntime : Runtime := jsonRuntime (fun _ _ => []) fun _ => []

def runOf (events : List WorkspaceEvent) : Workspace :=
  events.foldl (fun w e => w.step testRuntime (newService "secret".toList 0) Dialect.postgres.name [] e) start

theorem clickBehindPreview_saves :
    (runOf (clickBehindPreview (dropOf "a".toList) (dropOf "b".toList) articles)).SavesWhatIsShown
      testRuntime (newService "secret".toList 0) Dialect.postgres.name [] ∧
      (runOf (clickBehindPreview (dropOf "a".toList) (dropOf "b".toList) articles)).executed.length = 1 :=
  ⟨saves_what_is_shown (Runs.of_meets _ (by decide +kernel)), by decide +kernel⟩

/-- The second column is dropped on screen; the token that is executed drops the first alone. -/
theorem clickBeforeTimer_saves_stale :
    ¬(runOf (clickBeforeTimer (dropOf "a".toList) (dropOf "b".toList) articles)).SavesWhatIsShown
      testRuntime (newService "secret".toList 0) Dialect.postgres.name [] := by
  intro hsaves
  obtain ⟨p, hp⟩ : ∃ p, Schema.preview testRuntime (newService "secret".toList 0) 0 Dialect.postgres.name []
      articles [dropOf "a".toList] = .ok p := ⟨_, rfl⟩
  have hmem : (⟨p.token, true, [dropOf "a".toList, dropOf "b".toList]⟩ : ExecuteRequest) ∈
      (runOf (clickBeforeTimer (dropOf "a".toList) (dropOf "b".toList) articles)).executed := by
    cases hp
    decide +kernel
  obtain ⟨now, before, p', hp', htoken⟩ := hsaves _ hmem
  have hstatements := statements_of_token hp' hp htoken
  obtain ⟨q, hq, hone, -⟩ := preview_ok _ hp
  obtain ⟨q', hq', htwo, -⟩ := preview_ok _ hp'
  have hfew : q.statements.length = 1 := generate_dropOf ["a".toList] hq
  have hmany : q'.statements.length = 2 := generate_dropOf ["a".toList, "b".toList] hq'
  rw [← htwo, hstatements, hone, hfew] at hmany
  cases hmany

end Workspace

end Workbench.Schema
