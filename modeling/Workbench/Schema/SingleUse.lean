import Workbench.Lib.Runs
import Workbench.Schema.Confirmation

/-!
# How often a preview is executed

The service remembers the text of a token and judges its bytes. As long as every signature is spelled the
way `sign` spells it, a preview is executed at most once (`ran_at_most_once`); the decoder takes other
spellings of the same bytes as well, and then it can be executed again.
-/

set_option autoImplicit false

namespace Workbench.Schema

open Workbench.Lib

/-- The calls of the service, in the order in which they take the lock. -/
inductive ServiceCall where
  | preview (now : Int) (dialect scope : Text) (before : Table) (ops : List Operation)
  | execute (now : Int) (scope currentFingerprint token : Text) (confirmed : Bool)

/-- The service and its database, the tokens of the previews so far, and of those whose statements were
run. -/
structure History (δ : Type) where
  service : Service
  database : δ
  signed : List TokenData
  ran : List TokenData

section

variable (rt : Runtime)

/-- The token whose statements `Execute` runs. -/
def passing (s : Service) (now : Int) (scope currentFingerprint token : Text) (confirmed : Bool) :
    Option TokenData :=
  match verify rt s now token with
  | .error _ => none
  | .ok d =>
    if d.scope = scope ∧ d.fingerprint = currentFingerprint ∧
        d.ddl.any (fun st => st.destructive && !confirmed) = false ∧ s.used.contains token = false then
      some d
    else none

/-- The token of a preview. -/
def previewed (dialect scope : Text) (p : Preview) : TokenData :=
  ⟨dialect, scope, p.fingerprint, p.expiresAt, p.statements⟩

variable {δ τ : Type} (db : Database δ τ)

namespace History

def start (secret : Text) (ttl : Int) (x : δ) : History δ := ⟨newService secret ttl, x, [], []⟩

def step (h : History δ) : ServiceCall → History δ
  | .preview now dialect scope before ops =>
    match preview rt h.service now dialect scope before ops with
    | .error _ => h
    | .ok p => { h with signed := previewed dialect scope p :: h.signed }
  | .execute now scope currentFingerprint token confirmed =>
    let after := execute rt db h.service h.database now scope currentFingerprint token confirmed
    { h with
      service := after.1
      database := after.2.1
      ran := (passing rt h.service now scope currentFingerprint token confirmed).toList ++ h.ran }

/-- An execution signs nothing. -/
theorem signed_execute (h : History δ) (now : Int) (scope currentFingerprint token : Text) (confirmed : Bool) :
    (h.step rt db (.execute now scope currentFingerprint token confirmed)).signed = h.signed := rfl

end History

/-- Nobody writes the code of a payload that no preview has signed. -/
def Unforged (h : History δ) : ServiceCall → Prop
  | .preview .. => True
  | .execute _ _ _ token _ => ∀ payload signature, token.splitOn '.' = [payload, signature] →
      Base64.decode signature = some (rt.hmac h.service.secret payload) →
        ∃ d ∈ h.signed, payload = Base64.encode (rt.marshal d)

/-- The right signature is spelled as `sign` spells it. -/
def SpelledAsSigned (h : History δ) : ServiceCall → Prop
  | .preview .. => True
  | .execute _ _ _ token _ => ∀ payload signature, token.splitOn '.' = [payload, signature] →
      Base64.decode signature = some (rt.hmac h.service.secret payload) →
        signature = Base64.encode (rt.hmac h.service.secret payload)

/-! ## One call -/

variable {rt} {s : Service} {now : Int} {scope currentFingerprint token : Text} {confirmed : Bool}
  {d : TokenData}

theorem verify_ok (h : verify rt s now token = .ok d) :
    ∃ payload signature, token.splitOn '.' = [payload, signature] ∧
      Base64.decode signature = some (rt.hmac s.secret payload) ∧
        (Base64.decode payload).bind rt.unmarshal = some d := by
  rw [verify] at h
  split at h
  · next payload signature hsplit =>
      refine ⟨payload, signature, hsplit, ?_⟩
      cases hsig : Base64.decode signature with
      | none =>
        rw [hsig] at h
        cases h
      | some sig =>
        simp only [hsig] at h
        split at h
        · cases h
        · next hmac =>
            rw [not_not.1 hmac]
            refine ⟨rfl, ?_⟩
            cases hpayload : Base64.decode payload with
            | none =>
              rw [hpayload] at h
              cases h
            | some bytes =>
              simp only [hpayload] at h
              rw [Option.bind_some]
              cases hdata : rt.unmarshal bytes with
              | none =>
                rw [hdata] at h
                cases h
              | some data =>
                simp only [hdata] at h
                split at h
                · cases h
                · rw [Except.ok.inj h]
  · cases h

theorem passing_eq_some : passing rt s now scope currentFingerprint token confirmed = some d ↔
    verify rt s now token = .ok d ∧ d.scope = scope ∧ d.fingerprint = currentFingerprint ∧
      d.ddl.any (fun st => st.destructive && !confirmed) = false ∧ s.used.contains token = false := by
  rw [passing]
  cases verify rt s now token with
  | error e =>
    constructor
    · intro h
      cases h
    · rintro ⟨h, -⟩
      cases h
  | ok data =>
    dsimp only
    split_ifs with hpass
    · constructor
      · intro h
        cases h
        exact ⟨rfl, hpass⟩
      · rintro ⟨h, -⟩
        rw [Except.ok.inj h]
    · constructor
      · intro h
        cases h
      · rintro ⟨h, hpass'⟩
        rw [← Except.ok.inj h] at hpass'
        exact (hpass hpass').elim

/-- **`Execute` runs the statements of the token that passes.** -/
theorem execute_of_passing (x : δ)
    (h : passing rt s now scope currentFingerprint token confirmed = some d) :
    execute rt db s x now scope currentFingerprint token confirmed =
      ({ s with used := token :: s.used }, runDDL db x d) := by
  obtain ⟨hverify, hscope, hfingerprint, hconfirm, hused⟩ := passing_eq_some.1 h
  rw [execute, hverify]
  dsimp only
  rw [if_neg (not_not.2 hscope), if_neg (not_not.2 hfingerprint), if_neg (Bool.eq_false_iff.1 hconfirm),
    if_neg (Bool.eq_false_iff.1 hused)]

/-- A call that is refused changes nothing. -/
theorem execute_of_refused (x : δ)
    (h : passing rt s now scope currentFingerprint token confirmed = none) :
    (execute rt db s x now scope currentFingerprint token confirmed).1 = s ∧
      (execute rt db s x now scope currentFingerprint token confirmed).2.1 = x := by
  rw [execute]
  cases hverify : verify rt s now token with
  | error e => exact ⟨rfl, rfl⟩
  | ok d =>
    dsimp only
    split_ifs with hscope hfingerprint hconfirm hused
    · exact ⟨rfl, rfl⟩
    · exact ⟨rfl, rfl⟩
    · exact ⟨rfl, rfl⟩
    · exact ⟨rfl, rfl⟩
    · have hpass : passing rt s now scope currentFingerprint token confirmed = some d :=
        passing_eq_some.2 ⟨hverify, not_not.1 hscope, not_not.1 hfingerprint,
          Bool.eq_false_iff.2 hconfirm, Bool.eq_false_iff.2 hused⟩
      rw [h] at hpass
      cases hpass

/-! ## Whole runs -/

/-- What ran is remembered under the token that `sign` writes. -/
structure Remembered (rt : Runtime) (secret : Text) (h : History δ) : Prop where
  secret : h.service.secret = secret
  used : ∀ d ∈ h.ran, sign rt h.service d ∈ h.service.used
  nodup : h.ran.Nodup

/-- A token that passes, neither forged nor spelled otherwise, is the one that was handed out. -/
theorem token_eq_sign {h : History δ}
    (hforged : Unforged rt h (.execute now scope currentFingerprint token confirmed))
    (hspelled : SpelledAsSigned rt h (.execute now scope currentFingerprint token confirmed))
    (hverify : verify rt h.service now token = .ok d) : token = sign rt h.service d := by
  obtain ⟨payload, signature, hsplit, hsignature, hdata⟩ := verify_ok hverify
  obtain ⟨d', -, hpayload⟩ := hforged payload signature hsplit hsignature
  have hd : d' = d := by
    rw [hpayload, Base64.decode_encode, Option.bind_some, rt.unmarshal_marshal] at hdata
    exact Option.some.inj hdata
  have htoken : token = ['.'].intercalate [payload, signature] := by
    rw [← hsplit, List.intercalate_splitOn]
  rw [htoken, hspelled payload signature hsplit hsignature, hpayload, hd]
  simp [sign, List.intercalate]

theorem remembered_step {secret : Text} {h : History δ} {call : ServiceCall}
    (hforged : Unforged rt h call) (hspelled : SpelledAsSigned rt h call)
    (hinv : Remembered rt secret h) : Remembered rt secret (h.step rt db call) := by
  cases call with
  | preview now dialect scope before ops =>
    rw [History.step]
    split
    · exact hinv
    · exact ⟨hinv.secret, hinv.used, hinv.nodup⟩
  | execute now scope currentFingerprint token confirmed =>
    rw [History.step]
    cases hpass : passing rt h.service now scope currentFingerprint token confirmed with
    | none =>
      obtain ⟨hservice, -⟩ := execute_of_refused db h.database hpass
      simp only [hservice]
      exact ⟨hinv.secret, hinv.used, hinv.nodup⟩
    | some d =>
      obtain ⟨hverify, -, -, -, hunused⟩ := passing_eq_some.1 hpass
      have htoken := token_eq_sign hforged hspelled hverify
      rw [execute_of_passing db h.database hpass]
      refine ⟨hinv.secret, ?_, ?_⟩
      · intro d' hd'
        show sign rt h.service d' ∈ token :: h.service.used
        rcases List.mem_cons.1 hd' with rfl | hold
        · rw [← htoken]
          exact List.mem_cons_self
        · exact List.mem_cons_of_mem _ (hinv.used d' hold)
      · apply List.nodup_cons.2
        refine ⟨?_, hinv.nodup⟩
        -- Its token would have been remembered.
        intro hran
        have hmem := hinv.used d hran
        rw [← htoken] at hmem
        rw [List.contains_eq_mem, decide_eq_false_iff_not] at hunused
        exact hunused hmem

/-- **In a run in which no code is forged and every signature is spelled as it was signed, the statements
of a preview are run at most once.** -/
theorem ran_at_most_once {secret : Text} {ttl : Int} {x : δ} {h : History δ}
    (hrun : Runs (History.step rt db) (fun h call => Unforged rt h call ∧ SpelledAsSigned rt h call)
      (History.start secret ttl x) h) :
    ∀ d ∈ h.signed, h.ran.count d ≤ 1 := by
  have hinv : Remembered rt (newService secret ttl).secret h := by
    refine hrun.invariant (fun h call hcall hinv => ?_) ⟨rfl, ?_, List.nodup_nil⟩
    · exact remembered_step db hcall.1 hcall.2 hinv
    · intro d hd
      cases hd
  intro d _
  exact List.nodup_iff_count_le_one.1 hinv.nodup d

end

/-! ## What is executed -/

/-- A token of a preview among the calls: it has the statements that were generated then. -/
def Previewed (rt : Runtime) (ttl : Int) (calls : List ServiceCall) (d : TokenData) : Prop :=
  ∃ now before ops p, ServiceCall.preview now d.dialect d.scope before ops ∈ calls ∧
    generate d.dialect before.schema before.name ops = .ok p ∧
      d = ⟨d.dialect, d.scope, rt.fingerprint before, unix (now + ttl), p.statements⟩

section

variable {rt : Runtime} {δ τ : Type} {db : Database δ τ}

theorem verify_unexpired {s : Service} {now : Int} {token : Text} {d : TokenData}
    (h : verify rt s now token = .ok d) : unix now ≤ d.expires := by
  obtain ⟨payload, signature, hsplit, hsignature, hdata⟩ := verify_ok h
  obtain ⟨bytes, hbytes, hunmarshal⟩ := Option.bind_eq_some_iff.1 hdata
  rw [verify, hsplit] at h
  simp only [hsignature, hbytes, hunmarshal, ne_eq, not_true_eq_false, if_false] at h
  by_contra hlate
  rw [if_pos (Int.not_le.1 hlate)] at h
  cases h

/-- No call changes how long tokens live, and only previews sign. -/
theorem signed_previewed (secret : Text) (ttl : Int) (x : δ) (calls : List ServiceCall) :
    let h := calls.foldl (History.step rt db) (.start secret ttl x)
    h.service.ttl = (newService secret ttl).ttl ∧
      ∀ d ∈ h.signed, Previewed rt (newService secret ttl).ttl calls d := by
  induction calls using List.reverseRecOn with
  | nil => exact ⟨rfl, by rintro d ⟨⟩⟩
  | append_singleton calls call ih =>
    obtain ⟨httl, hsigned⟩ := ih
    have hold : ∀ d, Previewed rt (newService secret ttl).ttl calls d →
        Previewed rt (newService secret ttl).ttl (calls ++ [call]) d := by
      rintro d ⟨now, before, ops, p, hmem, hrest⟩
      exact ⟨now, before, ops, p, List.mem_append_left _ hmem, hrest⟩
    rw [List.foldl_concat]
    generalize calls.foldl (History.step rt db) (.start secret ttl x) = h at httl hsigned
    cases call with
    | preview now dialect scope before ops =>
      rw [History.step, preview]
      cases hp : generate dialect before.schema before.name ops with
      | error e => exact ⟨httl, fun d hd => hold d (hsigned d hd)⟩
      | ok p =>
        refine ⟨httl, fun d hd => ?_⟩
        rcases List.mem_cons.1 hd with rfl | hd
        · refine ⟨now, before, ops, p, List.mem_append_right _ (List.mem_singleton_self _), hp, ?_⟩
          rw [← httl]
          rfl
        · exact hold d (hsigned d hd)
    | execute now scope currentFingerprint token confirmed =>
      refine ⟨?_, fun d hd => hold d (hsigned d hd)⟩
      rw [← httl, History.step]
      cases hpass : passing rt h.service now scope currentFingerprint token confirmed with
      | none => exact congrArg Service.ttl (execute_of_refused db h.database hpass).1
      | some d => rw [execute_of_passing db h.database hpass]

/-- **Behind any calls, an execution without a forged code leaves the database as it is, or it runs the
statements that were generated in a preview of its scope, for the table as it is now, before they expire
and with a confirmation if one of them is destructive.** -/
theorem executes_previewed (rt : Runtime) (db : Database δ τ) (secret : Text) (ttl : Int) (x : δ)
    (calls : List ServiceCall) (now : Int) (scope currentFingerprint token : Text) (confirmed : Bool)
    (hunforged : Unforged rt (calls.foldl (History.step rt db) (.start secret ttl x))
      (.execute now scope currentFingerprint token confirmed)) :
    let h := calls.foldl (History.step rt db) (.start secret ttl x)
    let after := h.step rt db (.execute now scope currentFingerprint token confirmed)
    (after.database = h.database ∧ after.ran = h.ran) ∨
      ∃ d, Previewed rt (newService secret ttl).ttl calls d ∧ d.scope = scope ∧
        d.fingerprint = currentFingerprint ∧ unix now ≤ d.expires ∧
        (confirmed = false → ∀ st ∈ d.ddl, st.destructive = false) ∧
        after.database = (runDDL db h.database d).1 ∧ after.ran = d :: h.ran := by
  obtain ⟨-, hsigned⟩ := @signed_previewed rt _ _ db secret ttl x calls
  generalize calls.foldl (History.step rt db) (.start secret ttl x) = h at hunforged hsigned
  dsimp only [History.step]
  cases hpass : passing rt h.service now scope currentFingerprint token confirmed with
  | none => exact Or.inl ⟨(execute_of_refused db h.database hpass).2, rfl⟩
  | some d =>
    obtain ⟨hverify, hscope, hfingerprint, hconfirm, -⟩ := passing_eq_some.1 hpass
    rw [execute_of_passing db h.database hpass]
    refine Or.inr ⟨d, ?_, hscope, hfingerprint, verify_unexpired hverify, ?_, rfl, rfl⟩
    · -- the payload was signed, and so it is the one of the token
      obtain ⟨payload, signature, hsplit, hsignature, hdata⟩ := verify_ok hverify
      obtain ⟨d', hd', rfl⟩ := hunforged payload signature hsplit hsignature
      rw [Base64.decode_encode, Option.bind_some, rt.unmarshal_marshal] at hdata
      exact Option.some.inj hdata ▸ hsigned d' hd'
    · rintro rfl st hst
      simpa using List.any_eq_false.1 hconfirm st hst

end

/-! ## Another spelling of a signature -/

/-- The HMAC of the payload that `firstPreview` signs, under the secret of the service. -/
def firstCode : List UInt8 :=
  [208, 200, 156, 52, 207, 132, 211, 22, 12, 246, 60, 25, 201, 208, 4, 25, 90, 6, 204, 206, 198, 30, 92, 47, 138, 209, 61, 74, 183, 219, 41, 113]

def firstRuntime : Runtime := jsonRuntime (fun _ _ => firstCode) fun _ => ['f']

def firstPreview : ServiceCall :=
  .preview 0 Dialect.postgres.name ['s'] { (default : Table) with schema := ['p'], name := ['t'] }
    [{ (default : Operation) with kind := "drop_index".toList, name := ['i'] }]

def firstToken : TokenData :=
  ⟨Dialect.postgres.name, ['s'], ['f'], 600, [⟨"DROP INDEX \"i\"".toList, true⟩]⟩

/-- A database on which nothing fails. -/
def reliable : Database (List Text) (List Text) :=
  ⟨fun x sql => (x ++ [sql], none), fun x => (x, .ok []), fun tx sql => (tx ++ [sql], none),
    fun x _ => x, fun x tx => (x ++ tx, none)⟩

def firstService : Service := newService "secret".toList 0

def execution (token : Text) : ServiceCall := .execute 0 ['s'] ['f'] token true

/-- The token of `firstPreview` under a signature. -/
def firstText (signature : Text) : Text :=
  Base64.encode (firstRuntime.marshal firstToken) ++ '.' :: signature

theorem step_firstPreview :
    (History.start "secret".toList 0 []).step firstRuntime reliable firstPreview =
      ⟨firstService, [], [firstToken], []⟩ := rfl

section

variable {signature : Text} {h : History (List Text)}

/-- A spelling of the signature passes if it is not remembered. -/
theorem step_execution (hdot : '.' ∉ signature) (hdecode : Base64.decode signature = some firstCode)
    (hsecret : h.service.secret = firstService.secret) (hunused : firstText signature ∉ h.service.used) :
    (h.step firstRuntime reliable (execution (firstText signature))).ran = firstToken :: h.ran ∧
      (h.step firstRuntime reliable (execution (firstText signature))).service.secret =
        firstService.secret ∧
      (h.step firstRuntime reliable (execution (firstText signature))).service.used =
        firstText signature :: h.service.used ∧
      (h.step firstRuntime reliable (execution (firstText signature))).signed = h.signed := by
  have hverify : verify firstRuntime h.service 0 (firstText signature) = .ok firstToken :=
    verify_spelled firstRuntime h.service 0 firstToken hdot hdecode
  have hpass : passing firstRuntime h.service 0 ['s'] ['f'] (firstText signature) true =
      some firstToken := by
    rw [passing_eq_some]
    refine ⟨hverify, rfl, rfl, rfl, ?_⟩
    rw [List.contains_eq_mem]
    exact decide_eq_false hunused
  rw [execution, History.step]
  dsimp only
  rw [execute_of_passing reliable h.database hpass, hpass]
  exact ⟨rfl, hsecret, rfl, rfl⟩

/-- Its payload is signed. -/
theorem unforged_execution (hdot : '.' ∉ signature) (hsigned : firstToken ∈ h.signed) :
    Unforged firstRuntime h (execution (firstText signature)) := by
  intro payload signature' hsplit _
  rw [firstText, splitOn_token (dot_not_mem_encode _) hdot] at hsplit
  obtain ⟨hpayload, -⟩ := List.cons_eq_cons.1 hsplit
  exact ⟨firstToken, hsigned, hpayload.symm⟩

end

/-- The service behind the first preview. -/
def afterPreview : History (List Text) := ⟨firstService, [], [firstToken], []⟩

/-- The first execution, with the token as it was handed out. -/
def afterExecution : History (List Text) :=
  afterPreview.step firstRuntime reliable (execution (firstText (Base64.encode firstCode)))

theorem afterExecution_spec : afterExecution.ran = [firstToken] ∧
    afterExecution.service.secret = firstService.secret ∧
    afterExecution.service.used = [firstText (Base64.encode firstCode)] ∧
    afterExecution.signed = [firstToken] :=
  step_execution (dot_not_mem_encode _) (Base64.decode_encode _) rfl List.not_mem_nil

theorem spelledAsSigned_execution {h : History (List Text)} :
    SpelledAsSigned firstRuntime h (execution (firstText (Base64.encode firstCode))) := by
  intro payload signature hsplit _
  rw [firstText, splitOn_token (dot_not_mem_encode _) (dot_not_mem_encode _)] at hsplit
  obtain ⟨-, hsignature⟩ := List.cons_eq_cons.1 hsplit
  exact (List.cons_eq_cons.1 hsignature).1.symm

theorem unforged_afterExecution {signature : Text} (hdot : '.' ∉ signature) :
    Unforged firstRuntime afterExecution (execution (firstText signature)) := by
  apply unforged_execution hdot
  rw [afterExecution_spec.2.2.2]
  exact List.mem_cons_self

/-- The first preview and its execution. -/
theorem runs_afterExecution (cond : History (List Text) → ServiceCall → Prop)
    (hpreview : cond (History.start "secret".toList 0 []) firstPreview)
    (hexecution : cond afterPreview (execution (firstText (Base64.encode firstCode)))) :
    Runs (History.step firstRuntime reliable) cond (History.start "secret".toList 0 []) afterExecution := by
  have hfirst : Runs (History.step firstRuntime reliable) cond (History.start "secret".toList 0 [])
      afterPreview := by
    rw [afterPreview, ← step_firstPreview]
    exact (Runs.refl _).tail hpreview
  exact hfirst.tail hexecution

theorem ran_at_most_once_repeated :
    (afterExecution.step firstRuntime reliable
      (execution (firstText (Base64.encode firstCode)))).ran.count firstToken ≤ 1 := by
  have hfirst : Unforged firstRuntime afterPreview
      (execution (firstText (Base64.encode firstCode))) :=
    unforged_execution (dot_not_mem_encode _) List.mem_cons_self
  have hrun := runs_afterExecution (fun h call =>
    Unforged firstRuntime h call ∧ SpelledAsSigned firstRuntime h call) ⟨trivial, trivial⟩
      ⟨hfirst, spelledAsSigned_execution⟩
  have hsigned : firstToken ∈ (afterExecution.step firstRuntime reliable
      (execution (firstText (Base64.encode firstCode)))).signed := by
    rw [execution, History.signed_execute, afterExecution_spec.2.2.2]
    exact List.mem_singleton_self _
  exact ran_at_most_once reliable
    (hrun.tail ⟨unforged_afterExecution (dot_not_mem_encode _), spelledAsSigned_execution⟩) firstToken hsigned

/-- The first execution runs what the first preview was given. -/
theorem executes_previewed_first : ∃ d, Previewed firstRuntime firstService.ttl [firstPreview] d ∧
    d.scope = ['s'] ∧ afterExecution.database = (runDDL reliable [] d).1 := by
  have hstart : [firstPreview].foldl (History.step firstRuntime reliable) (.start "secret".toList 0 []) =
      afterPreview := step_firstPreview
  have hexecutes := executes_previewed firstRuntime reliable "secret".toList 0 [] [firstPreview] 0 ['s'] ['f']
    (firstText (Base64.encode firstCode)) true (by
      rw [hstart]
      exact unforged_execution (dot_not_mem_encode _) List.mem_cons_self)
  rw [hstart] at hexecutes
  rcases hexecutes with ⟨-, hran⟩ | ⟨d, hd, hscope, -, -, -, hdatabase, -⟩
  · cases afterExecution_spec.1.symm.trans hran
  · exact ⟨d, hd, hscope, hdatabase⟩

/-- A line feed behind the signature is not seen by the decoder. -/
theorem decode_append_lineFeed (text : Text) : Base64.decode (text ++ ['\n']) = Base64.decode text := by
  rw [Base64.decode, List.filter_append]
  exact congrArg (fun t : Text => (t.mapM Base64.value).bind Base64.decodeDigits) (List.append_nil _)

/-- The same token with a line feed behind it is run once more. -/
theorem ran_twice :
    ¬ ∀ (rt : Runtime) (secret : Text) (ttl : Int) (h : History (List Text)),
      Runs (History.step rt reliable) (Unforged rt) (History.start secret ttl []) h →
        ∀ d ∈ h.signed, h.ran.count d ≤ 1 := by
  intro hclaim
  have hdot : '.' ∉ Base64.encode firstCode ++ ['\n'] := by
    rw [List.mem_append, not_or]
    exact ⟨dot_not_mem_encode _, by decide⟩
  have hdecode : Base64.decode (Base64.encode firstCode ++ ['\n']) = some firstCode :=
    (decode_append_lineFeed _).trans (Base64.decode_encode _)
  obtain ⟨hran, hsecret, hused, hsigned⟩ := afterExecution_spec
  have hunused : firstText (Base64.encode firstCode ++ ['\n']) ∉ afterExecution.service.used := by
    rw [hused, List.mem_singleton]
    intro hsame
    have hlength := congrArg List.length hsame
    simp [firstText] at hlength
  obtain ⟨hran', -, -, hsigned'⟩ := step_execution hdot hdecode hsecret hunused
  have hfirst : Unforged firstRuntime afterPreview
      (execution (firstText (Base64.encode firstCode))) :=
    unforged_execution (dot_not_mem_encode _) List.mem_cons_self
  have hrun := (runs_afterExecution (Unforged firstRuntime) trivial hfirst).tail
    (unforged_afterExecution hdot)
  have hmem : firstToken ∈ (afterExecution.step firstRuntime reliable
      (execution (firstText (Base64.encode firstCode ++ ['\n'])))).signed := by
    rw [hsigned', hsigned]
    exact List.mem_cons_self
  have hcount := hclaim firstRuntime "secret".toList 0 _ hrun firstToken hmem
  rw [hran', hran, List.count_cons_self, List.count_singleton_self] at hcount
  exact absurd hcount (by decide)

end Workbench.Schema
