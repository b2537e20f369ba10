import Mathlib.Logic.Function.Basic
import Workbench.Base.Text

/-!
# The session of the API client

`web/src/api/client.ts`: `APIClient` and the calls that share its session. A call goes on where its promise is
settled; which call goes on next, and when the server answers, is open.
-/

set_option autoImplicit false

namespace Workbench.Web.ApiClient

/-- A session that is being created, from its first request to the `finally` of its promise. -/
inductive Creation where
  | fetching (attempt : Nat)
  | delayed (attempt : Nat)
  | settled (created : Bool)
  | finished (created : Bool)
  deriving DecidableEq, Repr

/-- Its requests are not over. -/
def Creation.inFlight : Creation → Bool
  | .fetching _ => true
  | .delayed _ => true
  | _ => false

/-- Its promise is not settled. -/
def Creation.pending : Creation → Bool
  | .finished _ => false
  | _ => true

inductive Call where
  | createSession
  | request (authenticated : Bool)
  | exportCSV
  deriving DecidableEq, Repr

def Call.authenticated : Call → Bool
  | .request authenticated => authenticated
  | _ => true

/-- Where a call is: it waits for the promise of a creation, it has the session and goes on in a moment, or it
has sent its request with the session id that was there, if any. -/
inductive Phase where
  | idle
  | waiting (promise : Nat)
  | resuming
  | sent (sessionId : Option Nat)
  | done
  deriving DecidableEq, Repr

/-- A call, and the session id of the request behind which it is tried again. -/
structure Task where
  call : Call
  phase : Phase
  retried : Option (Option Nat)
  deriving DecidableEq, Repr

def Task.sessionRetried (t : Task) : Bool := t.retried.isSome

section

variable {ι : Type}

/-- The session ids are numbered in the order in which they come; an empty one is `none`. A promise is the
number of its creation. -/
structure Client (ι : Type) where
  sessionId : Option Nat
  sessionReady : Option Nat
  creations : List Creation
  issued : Nat
  tasks : ι → Task

inductive Answer where
  | ok
  | error (status : Nat) (code : Text)
  | thrown
  deriving DecidableEq, Repr

def invalidSession : Answer := .error 401 "invalid_session".toList

inductive Event (ι : Type) where
  | call (i : ι)
  /-- A call goes on. -/
  | resume (i : ι)
  | answer (i : ι) (answer : Answer)
  /-- The server creates a session. -/
  | created (promise : Nat)
  /-- An attempt fails, with the status 0 where it is not an answer. -/
  | failed (promise status : Nat)
  | retry (promise : Nat)
  /-- The `finally` of a promise. -/
  | settle (promise : Nat)

def init (calls : ι → Call) : Client ι := ⟨none, none, [], 0, fun i => ⟨calls i, .idle, none⟩⟩

/-- `createSession`, up to where its caller waits. -/
def createSession (c : Client ι) : Phase × Client ι :=
  match c.sessionId with
  | some _ => (.resuming, c)
  | none =>
    match c.sessionReady with
    | some promise => (.waiting promise, c)
    | none =>
      (.waiting c.creations.length,
        { c with sessionReady := some c.creations.length, creations := c.creations ++ [.fetching 0] })

def invalidateSession (c : Client ι) : Client ι := { c with sessionId := none, sessionReady := none }

/-- A failure that another attempt can mend. -/
def transient (status : Nat) : Bool := status = 0 || status = 408 || status = 429 || 500 ≤ status

variable [DecidableEq ι]

def Client.setTask (c : Client ι) (i : ι) (t : Task) : Client ι := { c with tasks := Function.update c.tasks i t }

/-- `request` and `exportCSVWithRetry` up to their first `await`. -/
def request (c : Client ι) (i : ι) (retried : Option (Option Nat)) : Client ι :=
  let t := c.tasks i
  if t.call.authenticated then (createSession c).2.setTask i ⟨t.call, (createSession c).1, retried⟩
  else c.setTask i ⟨t.call, .sent none, retried⟩

/-- Behind `await this.createSession()`. -/
def send (c : Client ι) (i : ι) : Client ι :=
  let t := c.tasks i
  match t.call with
  | .createSession => c.setTask i { t with phase := .done }
  | _ => c.setTask i { t with phase := .sent c.sessionId }

def step (c : Client ι) : Event ι → Option (Client ι)
  | .call i => if (c.tasks i).phase = .idle then some (request c i none) else none
  | .resume i =>
    match (c.tasks i).phase with
    | .resuming => some (send c i)
    | .waiting promise =>
      match c.creations[promise]? with
      | some (.finished true) => some (send c i)
      | some (.finished false) => some (c.setTask i { c.tasks i with phase := .done })
      | _ => none
    | _ => none
  | .answer i answer =>
    let t := c.tasks i
    match t.phase with
    | .sent sessionId =>
      if t.call.authenticated && !t.sessionRetried && answer = invalidSession then
        some (request (invalidateSession c) i (some sessionId))
      else some (c.setTask i { t with phase := .done })
    | _ => none
  | .created promise =>
    match c.creations[promise]? with
    | some (.fetching _) =>
      some { c with
        sessionId := some c.issued
        issued := c.issued + 1
        creations := c.creations.set promise (.settled true) }
    | _ => none
  | .failed promise status =>
    match c.creations[promise]? with
    | some (.fetching attempt) =>
      let next := if !transient status || attempt = 2 then .settled false else .delayed attempt
      some { c with creations := c.creations.set promise next }
    | _ => none
  | .retry promise =>
    match c.creations[promise]? with
    | some (.delayed attempt) =>
      some { c with creations := c.creations.set promise (.fetching (attempt + 1)) }
    | _ => none
  | .settle promise =>
    match c.creations[promise]? with
    | some (.settled created) =>
      some { c with sessionReady := none, creations := c.creations.set promise (.finished created) }
    | _ => none

/-- The states that a client reaches by steps that meet a condition. -/
inductive Reaches (Meets : Client ι → Event ι → Prop) (calls : ι → Call) : Client ι → Prop where
  | init : Reaches Meets calls (init calls)
  | step {c c' : Client ι} {e : Event ι} (before : Reaches Meets calls c) (meets : Meets c e)
      (next : step c e = some c') : Reaches Meets calls c'

/-- The run of these events. -/
def follow (c : Client ι) : List (Event ι) → Option (Client ι)
  | [] => some c
  | e :: es => (step c e).bind fun c' => follow c' es

theorem Reaches.follow {calls : ι → Call} {c c' : Client ι}
    (h : Reaches (fun _ _ => True) calls c) (es : List (Event ι)) (hrun : follow c es = some c') :
    Reaches (fun _ _ => True) calls c' := by
  induction es generalizing c with
  | nil =>
    cases hrun
    exact h
  | cons e es ih =>
    obtain ⟨c₁, hstep, hrest⟩ := Option.bind_eq_some_iff.1 hrun
    exact ih (h.step trivial hstep) hrest

def InFlight (c : Client ι) (promise : Nat) : Prop :=
  ∃ creation, c.creations[promise]? = some creation ∧ creation.inFlight = true

/-- A session id that was there before the other one; a request without one is older than any. -/
def Older : Option Nat → Nat → Prop
  | none, _ => True
  | some old, new => old < new

/-- The answer to a request with an old session id takes a newer one away. -/
def Discards (c : Client ι) (e : Event ι) (c' : Client ι) : Prop :=
  ∃ i answer old new, e = .answer i answer ∧ (c.tasks i).phase = .sent old ∧ c.sessionId = some new ∧
    Older old new ∧ c'.sessionId ≠ some new

/-- The answer behind which a call is tried again comes when no promise is pending, and it is the first one of
its kind for the session id, unless the client has none. -/
def FirstRefusal (c : Client ι) (e : Event ι) : Prop :=
  ∀ i sessionId, e = .answer i invalidSession → (c.tasks i).phase = .sent sessionId →
    (c.tasks i).call.authenticated = true → (c.tasks i).retried = none →
      c.sessionReady = none ∧
        (c.sessionId = none ∨
          ∃ id, sessionId = some id ∧ ∀ j, (c.tasks j).retried ≠ some (some id))

end

/-! ## One creation at a time -/

/-- A promise that is not settled is the one the client knows, and while a creation is in flight there is no
session id. -/
structure Single (sessionId sessionReady : Option Nat) (creations : List Creation) : Prop where
  pending : ∀ (k : Nat) (creation : Creation), creations[k]? = some creation → creation.pending = true → sessionReady = some k
  ready : ∀ k : Nat, sessionReady = some k → ∃ creation, creations[k]? = some creation ∧ creation.pending = true
  fresh : ∀ (k : Nat) (creation : Creation), creations[k]? = some creation → creation.inFlight = true → sessionId = none

theorem Creation.pending_of_inFlight {creation : Creation} (h : creation.inFlight = true) :
    creation.pending = true := by
  cases creation with
  | settled created => cases h
  | finished created => cases h
  | _ => rfl

section

variable {sessionId sessionReady : Option Nat} {creations : List Creation} {k : Nat} {creation : Creation}

/-- A creation goes on; no other one is pending. -/
theorem Single.advance (h : Single sessionId sessionReady creations) (hk : creations[k]? = some creation)
    (hpending : creation.pending = true) (creation' : Creation) (sessionId' : Option Nat)
    (hfresh : creation'.inFlight = true → sessionId' = none) :
    Single sessionId' (if creation'.pending then some k else none) (creations.set k creation') := by
  have hlt : k < creations.length := (List.getElem?_eq_some_iff.1 hk).1
  have hself : (creations.set k creation')[k]? = some creation' := List.getElem?_set_self hlt
  -- the client knows one promise only, and that is the one of `k`
  have hother : ∀ {j other}, (creations.set k creation')[j]? = some other → other.pending = true → j = k := by
    intro j other hj hother
    by_contra hne
    rw [List.getElem?_set_ne (Ne.symm hne)] at hj
    have hready := h.pending j other hj hother
    rw [h.pending k creation hk hpending] at hready
    exact hne (Option.some.inj hready).symm
  refine ⟨fun j other hj hpend => ?_, fun j hj => ?_, fun j other hj hflight => ?_⟩
  · cases hother hj hpend
    rw [hself] at hj
    cases hj
    rw [if_pos hpend]
  · split at hj
    · next hpend =>
        cases hj
        exact ⟨creation', hself, hpend⟩
    · cases hj
  · cases hother hj (Creation.pending_of_inFlight hflight)
    rw [hself] at hj
    cases hj
    exact hfresh hflight

theorem Single.first (h : Single none none creations) :
    Single none (some creations.length) (creations ++ [.fetching 0]) := by
  have hlast : (creations ++ [Creation.fetching 0])[creations.length]? = some (.fetching 0) := by simp
  refine ⟨fun j other hj hpend => ?_, fun j hj => ?_, fun _ _ _ _ => rfl⟩
  · by_cases hlt : j < creations.length
    · rw [List.getElem?_append_left hlt] at hj
      cases h.pending j other hj hpend
    · -- behind the old ones there is only the new one
      have hle := (List.getElem?_eq_some_iff.1 hj).1
      rw [List.length_append, List.length_singleton] at hle
      rw [show j = creations.length by omega]
  · cases hj
    exact ⟨_, hlast, rfl⟩

end

/-! ## The ids -/

section

variable {ι : Type}

/-- An id that a request was sent with is the one of the client, unless it was refused before. -/
structure Ids (sessionId : Option Nat) (issued : Nat) (tasks : ι → Task) : Prop where
  idle : ∀ i, (tasks i).phase = .idle → (tasks i).retried = none
  current : ∀ i id, (tasks i).phase = .sent (some id) → (∀ j, (tasks j).retried ≠ some (some id)) →
    sessionId = some id
  last : ∀ id, sessionId = some id → id + 1 = issued
  sent : ∀ i id, (tasks i).phase = .sent (some id) → id < issued
  refused : ∀ i id, (tasks i).retried = some (some id) → id < issued ∧ sessionId ≠ some id

section

variable {sessionId : Option Nat} {issued : Nat} {tasks : ι → Task} {i : ι} {t : Task}

/-- A new session; no request is under way with an id that is not refused. -/
theorem Ids.created (h : Ids none issued tasks) : Ids (some issued) (issued + 1) tasks := by
  refine ⟨h.idle, fun j id hj hnew => ?_, fun id hid => ?_, fun j id hj => ?_, fun j id hj => ?_⟩
  · cases h.current j id hj hnew
  · cases hid
    rfl
  · exact Nat.lt_succ_of_lt (h.sent j id hj)
  · obtain ⟨hlt, -⟩ := h.refused j id hj
    refine ⟨Nat.lt_succ_of_lt hlt, fun heq => ?_⟩
    cases heq
    exact Nat.lt_irrefl _ hlt

variable [DecidableEq ι]

/-- A task that goes on without an answer to refuse. -/
theorem Ids.update (h : Ids sessionId issued tasks) (hidle : t.phase ≠ .idle)
    (hretried : t.retried = (tasks i).retried)
    (hsent : ∀ id, t.phase = .sent (some id) → sessionId = some id) :
    Ids sessionId issued (Function.update tasks i t) := by
  -- what was refused is the same as before
  have hsame : ∀ j, (Function.update tasks i t j).retried = (tasks j).retried := by
    intro j
    by_cases hj : j = i
    · rw [hj, Function.update_self, hretried]
    · rw [Function.update_of_ne hj]
  refine ⟨fun j hj => ?_, fun j id hj hnew => ?_, h.last, fun j id hj => ?_, fun j id hj => ?_⟩
  · by_cases hji : j = i
    · rw [hji, Function.update_self] at hj
      exact absurd hj hidle
    · rw [hsame]
      rw [Function.update_of_ne hji] at hj
      exact h.idle j hj
  · by_cases hji : j = i
    · rw [hji, Function.update_self] at hj
      exact hsent id hj
    · rw [Function.update_of_ne hji] at hj
      apply h.current j id hj
      intro j'
      rw [← hsame]
      exact hnew j'
  · by_cases hji : j = i
    · rw [hji, Function.update_self] at hj
      -- the id of the client is the last one that was issued
      have hlast := h.last id (hsent id hj)
      omega
    · rw [Function.update_of_ne hji] at hj
      exact h.sent j id hj
  · rw [hsame] at hj
    exact h.refused j id hj

/-- The first refusal of the id of the client, or any when it has none. -/
theorem Ids.refuse (h : Ids sessionId issued tasks) {old : Option Nat}
    (hphase : (tasks i).phase = .sent old)
    (hfirst : sessionId = none ∨ ∃ id, old = some id ∧ ∀ j, (tasks j).retried ≠ some (some id))
    (hnone : (tasks i).retried = none) (hidle : t.phase ≠ .idle) (hsent : ∀ id, t.phase ≠ .sent id)
    (hretried : t.retried = some old) : Ids none issued (Function.update tasks i t) := by
  -- what was refused before still is
  have hkeeps : ∀ {j id}, (tasks j).retried = some (some id) →
      (Function.update tasks i t j).retried = some (some id) := by
    intro j id hj
    by_cases hji : j = i
    · rw [hji, hnone] at hj
      cases hj
    · rw [Function.update_of_ne hji]
      exact hj
  refine ⟨fun j hj => ?_, fun j id hj hnew => ?_, fun _ hid => (nomatch hid), fun j id hj => ?_,
    fun j id hj => ⟨?_, Option.some_ne_none id ∘ Eq.symm⟩⟩
  · by_cases hji : j = i
    · rw [hji, Function.update_self] at hj
      exact absurd hj hidle
    · rw [Function.update_of_ne hji] at hj ⊢
      exact h.idle j hj
  · -- no request is left whose id is not refused
    by_cases hji : j = i
    · rw [hji, Function.update_self] at hj
      exact absurd hj (hsent _)
    · rw [Function.update_of_ne hji] at hj
      have hid := h.current j id hj fun j' hj' => hnew j' (hkeeps hj')
      rcases hfirst with hfirst | ⟨id', rfl, hfirst⟩
      · rw [hfirst] at hid
        cases hid
      · -- the id of the client is the refused one, which the request itself now counts
        have hid' := h.current i id' hphase hfirst
        rw [hid] at hid'
        cases hid'
        refine absurd ?_ (hnew i)
        rw [Function.update_self, hretried]
  · by_cases hji : j = i
    · rw [hji, Function.update_self] at hj
      exact absurd hj (hsent _)
    · rw [Function.update_of_ne hji] at hj
      exact h.sent j id hj
  · by_cases hji : j = i
    · rw [hji, Function.update_self, hretried] at hj
      cases hj
      exact h.sent i id hphase
    · rw [Function.update_of_ne hji] at hj
      exact (h.refused j id hj).1

end

/-! ## Steps and runs -/

structure Sound (c : Client ι) : Prop where
  single : Single c.sessionId c.sessionReady c.creations
  ids : Ids c.sessionId c.issued c.tasks

/-- What `createSession` does, in any state. -/
theorem createSession_spec (c : Client ι) (h : Single c.sessionId c.sessionReady c.creations) :
    Single (createSession c).2.sessionId (createSession c).2.sessionReady (createSession c).2.creations ∧
      (createSession c).2.sessionId = c.sessionId ∧ (createSession c).2.issued = c.issued ∧
        (createSession c).2.tasks = c.tasks ∧
          ((createSession c).1 = .resuming ∨ ∃ k, (createSession c).1 = .waiting k) := by
  obtain ⟨sessionId, sessionReady, creations, issued, tasks⟩ := c
  cases sessionId with
  | some id => exact ⟨h, rfl, rfl, rfl, Or.inl rfl⟩
  | none =>
    cases sessionReady with
    | some k => exact ⟨h, rfl, rfl, rfl, Or.inr ⟨k, rfl⟩⟩
    | none => exact ⟨h.first, rfl, rfl, rfl, Or.inr ⟨_, rfl⟩⟩

theorem Single.unique {c : Client ι} (h : Single c.sessionId c.sessionReady c.creations) {k k' : Nat}
    (hk : InFlight c k) (hk' : InFlight c k') : k = k' := by
  obtain ⟨creation, hcreation, hflight⟩ := hk
  obtain ⟨creation', hcreation', hflight'⟩ := hk'
  have hready := h.pending k creation hcreation (Creation.pending_of_inFlight hflight)
  rw [h.pending k' creation' hcreation' (Creation.pending_of_inFlight hflight')] at hready
  exact (Option.some.inj hready).symm

theorem FirstRefusal.of_ne {c : Client ι} {e : Event ι} (h : ∀ i, e ≠ .answer i invalidSession) : FirstRefusal c e := by
  rintro i sessionId rfl
  exact absurd rfl (h i)

variable [DecidableEq ι] {c c' : Client ι} {e : Event ι} {i : ι}

theorem Sound.setTask (h : Sound c) {t : Task} (hidle : t.phase ≠ .idle)
    (hretried : t.retried = (c.tasks i).retried)
    (hsent : ∀ id, t.phase = .sent (some id) → c.sessionId = some id) : Sound (c.setTask i t) :=
  ⟨h.single, h.ids.update hidle hretried hsent⟩

theorem Sound.resumed (h : Sound c) (i : ι) : Sound (send c i) := by
  rw [send]
  split
  · exact h.setTask (fun hphase => (nomatch hphase)) rfl fun _ hphase => (nomatch hphase)
  · refine h.setTask (fun hphase => (nomatch hphase)) rfl fun id hphase => ?_
    exact Phase.sent.inj hphase

/-- A call that has not begun. -/
theorem Sound.called (h : Sound c) (hphase : (c.tasks i).phase = .idle) : Sound (request c i none) := by
  obtain ⟨hsingle, hid, hissued, htasks, hnext⟩ := createSession_spec c h.single
  have hretried := (h.ids.idle i hphase).symm
  rw [request]
  split
  · refine ⟨hsingle, ?_⟩
    show Ids (createSession c).2.sessionId (createSession c).2.issued
      (Function.update (createSession c).2.tasks i _)
    rw [hid, hissued, htasks]
    apply h.ids.update
    · rcases hnext with hnext | ⟨k, hnext⟩ <;> simp [hnext]
    · exact hretried
    · rcases hnext with hnext | ⟨k, hnext⟩ <;> simp [hnext]
  · exact h.setTask (fun hphase => (nomatch hphase)) hretried fun _ hphase => (nomatch hphase)

/-- A call that is tried again. -/
theorem Sound.refuse (h : Sound c) {old : Option Nat} (hphase : (c.tasks i).phase = .sent old)
    (hauthenticated : (c.tasks i).call.authenticated = true) (hnone : (c.tasks i).retried = none)
    (hready : c.sessionReady = none)
    (hfirst : c.sessionId = none ∨ ∃ id, old = some id ∧ ∀ j, (c.tasks j).retried ≠ some (some id)) :
    Sound (request (invalidateSession c) i (some old)) := by
  -- no promise is pending, so none is in flight either
  have hsingle : Single none none c.creations := by
    have hpending := h.single.pending
    have hready' := h.single.ready
    rw [hready] at hpending hready'
    exact ⟨hpending, hready', fun _ _ _ _ => rfl⟩
  obtain ⟨hsingle', hid, hissued, htasks, hnext⟩ := createSession_spec (invalidateSession c) hsingle
  have hagain : request (invalidateSession c) i (some old) =
      (createSession (invalidateSession c)).2.setTask i
        ⟨(c.tasks i).call, (createSession (invalidateSession c)).1, some old⟩ := if_pos hauthenticated
  rw [hagain]
  refine ⟨hsingle', ?_⟩
  show Ids (createSession (invalidateSession c)).2.sessionId (createSession (invalidateSession c)).2.issued
    (Function.update (createSession (invalidateSession c)).2.tasks i _)
  rw [hid, hissued, htasks]
  apply h.ids.refuse hphase hfirst hnone
  · rcases hnext with hnext | ⟨k, hnext⟩ <;> simp [hnext]
  · rcases hnext with hnext | ⟨k, hnext⟩ <;> simp [hnext]
  · rfl

theorem Sound.step (h : Sound c) (hmeets : FirstRefusal c e) (hstep : step c e = some c') :
    Sound c' := by
  cases e with
  | call i =>
    rw [ApiClient.step] at hstep
    split at hstep
    · next hphase =>
        cases hstep
        exact h.called hphase
    · cases hstep
  | resume i =>
    rw [ApiClient.step] at hstep
    split at hstep
    · cases hstep
      exact h.resumed i
    · split at hstep
      · cases hstep
        exact h.resumed i
      · cases hstep
        exact h.setTask (fun hphase => (nomatch hphase)) rfl fun _ hphase => (nomatch hphase)
      · cases hstep
    · cases hstep
  | answer i answer =>
    rw [ApiClient.step] at hstep
    split at hstep
    · next old hphase =>
        split at hstep
        · next hretry =>
            cases hstep
            simp only [Bool.and_eq_true, Bool.not_eq_true', decide_eq_true_eq] at hretry
            obtain ⟨⟨hauthenticated, hretried⟩, rfl⟩ := hretry
            have hnone := Option.isSome_eq_false_iff.1 hretried
            rw [Option.isNone_iff_eq_none] at hnone
            -- the only place where the condition is used
            obtain ⟨hready, hfirst⟩ := hmeets i old rfl hphase hauthenticated hnone
            exact h.refuse hphase hauthenticated hnone hready hfirst
        · cases hstep
          exact h.setTask (fun hphase => (nomatch hphase)) rfl fun _ hphase => (nomatch hphase)
    · cases hstep
  | created k =>
    rw [ApiClient.step] at hstep
    split at hstep
    · next attempt hk =>
        cases hstep
        have hids := h.ids
        -- while it is in flight the client has no session id
        rw [h.single.fresh k _ hk rfl] at hids
        refine ⟨?_, hids.created⟩
        have hsingle := h.single.advance hk rfl (.settled true) (some c.issued)
          (fun hflight => (nomatch hflight))
        rw [← h.single.pending k _ hk rfl] at hsingle
        exact hsingle
    · cases hstep
  | failed k status =>
    rw [ApiClient.step] at hstep
    split at hstep
    · next attempt hk =>
        cases hstep
        refine ⟨?_, h.ids⟩
        have hsingle := h.single.advance hk rfl
          (if !transient status || attempt = 2 then .settled false else .delayed attempt) c.sessionId
          (fun _ => h.single.fresh k _ hk rfl)
        -- tried again or not, the promise is pending until its `finally` has run
        have hpending : (if !transient status || attempt = 2 then Creation.settled false
          else .delayed attempt).pending = true := by
          split <;> rfl
        rw [if_pos hpending, ← h.single.pending k _ hk rfl] at hsingle
        exact hsingle
    · cases hstep
  | retry k =>
    rw [ApiClient.step] at hstep
    split at hstep
    · next attempt hk =>
        cases hstep
        refine ⟨?_, h.ids⟩
        have hsingle := h.single.advance hk rfl (.fetching (attempt + 1)) c.sessionId
          (fun _ => h.single.fresh k _ hk rfl)
        rw [← h.single.pending k _ hk rfl] at hsingle
        exact hsingle
    · cases hstep
  | settle k =>
    rw [ApiClient.step] at hstep
    split at hstep
    · next created hk =>
        cases hstep
        refine ⟨?_, h.ids⟩
        exact h.single.advance hk rfl (.finished created) c.sessionId (fun hflight => (nomatch hflight))
    · cases hstep

theorem Reaches.sound {calls : ι → Call} (h : Reaches FirstRefusal calls c) : Sound c := by
  induction h with
  | init =>
    refine ⟨⟨fun k creation hk => ?_, fun _ hk => (nomatch hk), fun _ _ _ _ => rfl⟩,
      ⟨fun _ _ => rfl, fun _ _ hphase => (nomatch hphase), fun _ hid => (nomatch hid),
        fun _ _ hphase => (nomatch hphase), fun _ _ hretried => (nomatch hretried)⟩⟩
    rw [ApiClient.init, List.getElem?_nil] at hk
    cases hk
  | step _ hmeets hstep ih => exact ih.step hmeets hstep

/-- A session id goes only where an answer takes it away, and such an answer is a refusal. -/
theorem not_discards (h : Sound c) (hmeets : FirstRefusal c e) (hstep : step c e = some c') :
    ¬ Discards c e c' := by
  rintro ⟨i, answer, old, new, rfl, hphase, hnew, holder, hgone⟩
  rw [step] at hstep
  simp only [hphase] at hstep
  split at hstep
  · next hretry =>
      simp only [Bool.and_eq_true, Bool.not_eq_true', decide_eq_true_eq] at hretry
      obtain ⟨⟨hauthenticated, hretried⟩, rfl⟩ := hretry
      rw [Task.sessionRetried, Option.isSome_eq_false_iff, Option.isNone_iff_eq_none] at hretried
      obtain ⟨-, hnone | ⟨id, rfl, hfirst⟩⟩ := hmeets i old rfl hphase hauthenticated hretried
      · rw [hnone] at hnew
        cases hnew
      · have hid := h.ids.current i id hphase hfirst
        rw [hid] at hnew
        cases hnew
        exact Nat.lt_irrefl _ holder
  · cases hstep
    exact hgone hnew

/-- The first answer that does not meet the condition. -/
theorem first_unmet (h : Sound c) (hmeets : ¬ FirstRefusal c e) (hstep : step c e = some c') :
    Discards c e c' ∨ (∃ k k', InFlight c' k ∧ InFlight c' k' ∧ k ≠ k') ∨
      ∃ k k' c'', step c' (.settle k) = some c'' ∧ c''.sessionReady = none ∧ InFlight c'' k' := by
  simp only [FirstRefusal, not_forall] at hmeets
  obtain ⟨i, old, rfl, hphase, hauthenticated, hretried, hbad⟩ := hmeets
  have hagain : c' = request (invalidateSession c) i (some old) := by
    simp [step, hphase, hauthenticated, Task.sessionRetried, hretried] at hstep
    exact hstep.symm
  have hrequest : c' = Client.setTask
      { c with
        sessionId := none, sessionReady := some c.creations.length
        creations := c.creations ++ [.fetching 0] } i
      ⟨(c.tasks i).call, .waiting c.creations.length, some old⟩ := by
    rw [hagain]
    exact if_pos hauthenticated
  have hlast : c'.creations[c.creations.length]? = some (.fetching 0) := by
    rw [hrequest]
    exact List.getElem?_concat_length
  cases hready : c.sessionReady with
  | some k =>
    obtain ⟨creation, hcreation, hpending⟩ := h.single.ready k hready
    have hlt : k < c.creations.length := (List.getElem?_eq_some_iff.1 hcreation).1
    have hk : c'.creations[k]? = some creation := by
      rw [hrequest]
      exact (List.getElem?_append_left hlt).trans hcreation
    right
    by_cases hflight : creation.inFlight = true
    · exact Or.inl ⟨k, _, ⟨creation, hk, hflight⟩, ⟨_, hlast, rfl⟩, Nat.ne_of_lt hlt⟩
    · -- the `finally` of the old promise makes the client forget the new one
      obtain ⟨created, rfl⟩ : ∃ created, creation = .settled created := by
        cases creation with
        | settled created => exact ⟨created, rfl⟩
        | finished created => cases hpending
        | _ => exact absurd rfl hflight
      refine Or.inr ⟨k, c.creations.length, _, by rw [step, hk], rfl, .fetching 0, ?_, rfl⟩
      exact (List.getElem?_set_ne (Nat.ne_of_lt hlt)).trans hlast
  | none =>
    left
    rw [not_and, not_or] at hbad
    obtain ⟨hid, hnot⟩ := hbad hready
    obtain ⟨new, hnew⟩ := Option.ne_none_iff_exists'.1 hid
    refine ⟨i, _, old, new, rfl, hphase, hnew, ?_, ?_⟩
    · cases old with
      | none => trivial
      | some id =>
        simp only [Option.some.injEq, exists_eq_left', not_forall, not_not] at hnot
        obtain ⟨j, hj⟩ := hnot
        obtain ⟨hissued, hne⟩ := h.ids.refused j id hj
        have hlast := h.ids.last new hnew
        have hneq : id ≠ new := by
          rintro rfl
          exact hne hnew
        show id < new
        omega
    · rw [hrequest]
      exact Option.some_ne_none new ∘ Eq.symm

/-- In a run whose refusals all come first, no answer takes a newer session id away and one creation at most is
in flight; the first one that does not takes a newer id away, brings a second creation or makes the client
forget one in flight. -/
theorem session_kept (calls : ι → Call) (h : Reaches FirstRefusal calls c) :
    (∀ k k', InFlight c k → InFlight c k' → k = k') ∧
      ∀ e c', step c e = some c' →
        (FirstRefusal c e → ¬ Discards c e c') ∧
          (¬ FirstRefusal c e → Discards c e c' ∨ (∃ k k', InFlight c' k ∧ InFlight c' k' ∧ k ≠ k') ∨
            ∃ k k' c'', step c' (.settle k) = some c'' ∧ c''.sessionReady = none ∧ InFlight c'' k') := by
  have hsound := h.sound
  refine ⟨fun k k' hk hk' => hsound.single.unique hk hk', fun e c' hstep => ⟨?_, ?_⟩⟩
  · exact fun hmeets => not_discards hsound hmeets hstep
  · exact fun hmeets => first_unmet hsound hmeets hstep

/-- Two requests that are under way with one session id are refused, the second one behind a creation that has failed. -/
theorem session_kept_twice :
    ∃ c : Client (Fin 2), c.sessionId = none ∧ InFlight c 2 ∧ (∀ i, (c.tasks i).retried = some (some 0)) ∧
      ∀ k k', InFlight c k → InFlight c k' → k = k' := by
  have hstart : Reaches FirstRefusal (fun _ : Fin 2 => Call.request true) (init fun _ => .request true) :=
    .init
  have hcall := hstart.step (e := .call 0) (FirstRefusal.of_ne fun _ he => (nomatch he)) rfl
  have hother := hcall.step (e := .call 1) (FirstRefusal.of_ne fun _ he => (nomatch he)) rfl
  have hcreated := hother.step (e := .created 0) (FirstRefusal.of_ne fun _ he => (nomatch he)) rfl
  have hsettle := hcreated.step (e := .settle 0) (FirstRefusal.of_ne fun _ he => (nomatch he)) rfl
  have hresume := hsettle.step (e := .resume 0) (FirstRefusal.of_ne fun _ he => (nomatch he)) rfl
  have hboth := hresume.step (e := .resume 1) (FirstRefusal.of_ne fun _ he => (nomatch he)) rfl
  have hanswer := hboth.step (e := .answer 0 invalidSession) (by
    rintro i sessionId ⟨⟩ hphase - -
    cases hphase
    exact ⟨rfl, Or.inr ⟨0, rfl, by decide⟩⟩) rfl
  have hfailed := hanswer.step (e := .failed 1 403) (FirstRefusal.of_ne fun _ he => (nomatch he)) rfl
  have hover := hfailed.step (e := .settle 1) (FirstRefusal.of_ne fun _ he => (nomatch he)) rfl
  have hsecond := hover.step (e := .answer 1 invalidSession) (by
    rintro i sessionId ⟨⟩ - - -
    exact ⟨rfl, Or.inl rfl⟩) rfl
  exact ⟨_, rfl, ⟨.fetching 0, rfl, rfl⟩, by decide, (session_kept _ hsecond).1⟩

/-- Two requests are under way with one session id when the server forgets it. -/
theorem session_lost : ∃ calls : Fin 2 → Call,
    (∃ c e c', Reaches (fun _ _ => True) calls c ∧ step c e = some c' ∧ Discards c e c') ∧
      ∃ c, Reaches (fun _ _ => True) calls c ∧ ∃ k k', InFlight c k ∧ InFlight c k' ∧ k ≠ k' := by
  have hstart : Reaches (fun _ _ => True) (fun _ : Fin 2 => Call.request true) (init fun _ => .request true) :=
    .init
  refine ⟨fun _ => .request true, ?_, ?_⟩
  · have hrun := hstart.follow [.call 0, .created 0, .settle 0, .resume 0, .call 1, .resume 1,
      .answer 0 invalidSession, .created 1, .settle 1] rfl
    exact ⟨_, .answer 1 invalidSession, _, hrun, rfl, 1, invalidSession, some 0, 1, rfl, rfl, rfl,
      Nat.zero_lt_one, by decide⟩
  · have hrun := hstart.follow [.call 0, .created 0, .settle 0, .resume 0, .call 1, .resume 1,
      .answer 0 invalidSession, .answer 1 invalidSession] rfl
    exact ⟨_, hrun, 1, 2, ⟨.fetching 0, rfl, rfl⟩, ⟨.fetching 0, rfl, rfl⟩, by decide⟩

end

end Workbench.Web.ApiClient
