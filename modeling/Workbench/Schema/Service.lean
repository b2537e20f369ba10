import Workbench.Lib.Base64
import Workbench.Schema.Accepted

/-!
# Previews and their execution

`api/internal/schema/service.go`. A preview carries its statements in a token that the service signs;
`Execute` runs the statements of a token that it verifies. Times are nanoseconds since the epoch. The
database is a parameter, and so are JSON, HMAC and the fingerprint of a table; of JSON the service
uses that what `Marshal` writes of a token `Unmarshal` reads back.
-/

set_option autoImplicit false

namespace Workbench.Schema

open Workbench.Lib

structure TokenData where
  dialect : Text
  scope : Text
  fingerprint : Text
  expires : Int
  ddl : List Statement
  deriving DecidableEq, Repr

/-- What the service takes from the standard library. -/
structure Runtime where
  /-- `json.Marshal` of a token. -/
  marshal : TokenData → List UInt8
  /-- `json.Unmarshal` to a token. -/
  unmarshal : List UInt8 → Option TokenData
  unmarshal_marshal : ∀ d, unmarshal (marshal d) = some d
  /-- HMAC-SHA256 of a text under a secret. -/
  hmac : Text → Text → List UInt8
  /-- `Fingerprint`. -/
  fingerprint : Table → Text

/-- The handle that `Execute` gets and its transactions; the answers are the texts of errors. -/
structure Database (δ τ : Type) where
  exec : δ → Text → δ × Option Text
  begin : δ → δ × Except Text τ
  execTx : τ → Text → τ × Option Text
  rollback : δ → τ → δ
  commit : δ → τ → δ × Option Text

inductive ExecuteError where
  | invalidToken
  | expiredToken
  | structureDrift
  | confirmation
  | database (message : Text)
  deriving DecidableEq, Repr

inductive ExecutionStatus where
  | success
  | failed
  deriving DecidableEq, Repr

structure ExecutionResult where
  sql : Text
  status : ExecutionStatus
  error : Option Text
  deriving DecidableEq, Repr

/-- The service. Its lifetime of tokens is positive: `NewService` sees to it. -/
structure Service where
  secret : Text
  ttl : Int
  used : List Text
  ttl_pos : 0 < ttl

def second : Int := 1000000000

/-- `Time.Unix`. -/
def unix (time : Int) : Int := time / second

/-- `NewService`. -/
def newService (secret : Text) (ttl : Int) : Service :=
  if h : ttl ≤ 0 then ⟨secret, 10 * 60 * second, [], by decide⟩
  else ⟨secret, ttl, [], by omega⟩

section

variable (rt : Runtime)

def sign (s : Service) (d : TokenData) : Text :=
  let payload := Base64.encode (rt.marshal d)
  payload ++ '.' :: Base64.encode (rt.hmac s.secret payload)

def verify (s : Service) (now : Int) (token : Text) : Except ExecuteError TokenData :=
  match token.splitOn '.' with
  | [payload, signature] =>
    match Base64.decode signature with
    | none => .error .invalidToken
    | some sig =>
      if sig ≠ rt.hmac s.secret payload then .error .invalidToken
      else match Base64.decode payload with
      | none => .error .invalidToken
      | some bytes => match rt.unmarshal bytes with
        | none => .error .invalidToken
        | some d => if unix now > d.expires then .error .expiredToken else .ok d
  | _ => .error .invalidToken

/-- `Preview`. -/
def preview (s : Service) (now : Int) (dialect scope : Text) (before : Table)
    (ops : List Operation) : Except GenerateError Preview := do
  let p ← generate dialect before.schema before.name ops
  let p := { p with fingerprint := rt.fingerprint before, expiresAt := unix (now + s.ttl) }
  let d : TokenData := ⟨dialect, scope, p.fingerprint, p.expiresAt, p.statements⟩
  .ok { p with token := sign rt s d }

/-- The loop over the statements, up to the first that fails. -/
def runStatements {σ : Type} (exec : σ → Text → σ × Option Text) :
    σ → List Statement → σ × List ExecutionResult × Option Text
  | x, [] => (x, [], none)
  | x, st :: rest =>
    match exec x st.sql with
    | (y, some e) => (y, [⟨st.sql, .failed, some e⟩], some e)
    | (y, none) =>
      let (z, out, failure) := runStatements exec y rest
      (z, ⟨st.sql, .success, none⟩ :: out, failure)

/-- What `Execute` answers. -/
structure Answer where
  results : List ExecutionResult
  error : Option ExecuteError
  deriving DecidableEq, Repr

/-- The part of `Execute` behind the checks. -/
def runDDL {δ τ : Type} (db : Database δ τ) (x : δ) (d : TokenData) : δ × Answer :=
  if d.dialect = Dialect.postgres.name then
    match db.begin x with
    | (y, .error e) => (y, ⟨[], some (.database e)⟩)
    | (y, .ok tx) =>
      match runStatements db.execTx tx d.ddl with
      | (tx, out, some e) => (db.rollback y tx, ⟨out, some (.database e)⟩)
      | (tx, out, none) =>
        match db.commit y tx with
        | (z, some e) => (z, ⟨out, some (.database e)⟩)
        | (z, none) => (z, ⟨out, none⟩)
  else
    match runStatements db.exec x d.ddl with
    | (y, out, failure) => (y, ⟨out, failure.map .database⟩)

/-- `Execute`. -/
def execute {δ τ : Type} (db : Database δ τ) (s : Service) (x : δ) (now : Int)
    (scope currentFingerprint token : Text) (confirmed : Bool) : Service × δ × Answer :=
  match verify rt s now token with
  | .error e => (s, x, ⟨[], some e⟩)
  | .ok d =>
    if d.scope ≠ scope then (s, x, ⟨[], some .invalidToken⟩)
    else if d.fingerprint ≠ currentFingerprint then (s, x, ⟨[], some .structureDrift⟩)
    else if d.ddl.any (fun st => st.destructive && !confirmed) then
      (s, x, ⟨[], some .confirmation⟩)
    else if s.used.contains token then (s, x, ⟨[], some .invalidToken⟩)
    else
      let (y, answer) := runDDL db x d
      ({ s with used := token :: s.used }, y, answer)

/-! ## Signed tokens -/

/-- A token splits into its payload and its signature. -/
theorem splitOn_token {payload signature : Text} (hpayload : '.' ∉ payload)
    (hsignature : '.' ∉ signature) :
    (payload ++ '.' :: signature).splitOn '.' = [payload, signature] := by
  have hjoin : payload ++ '.' :: signature = ['.'].intercalate [payload, signature] := by
    simp [List.intercalate]
  rw [hjoin]
  apply List.splitOn_intercalate
  · intro l hl
    rcases List.mem_cons.1 hl with rfl | hl
    · exact hpayload
    · rw [List.mem_singleton.1 hl]
      exact hsignature
  · simp

theorem dot_not_mem_encode (bytes : List UInt8) : '.' ∉ Base64.encode bytes :=
  fun h => (Base64.encode_plain _ _ h).2 rfl

/-- A signed payload is verified with every text that decodes to its signature. -/
theorem verify_spelled (s : Service) (now : Int) (d : TokenData) {signature : Text}
    (hdot : '.' ∉ signature)
    (hdecode : Base64.decode signature = some (rt.hmac s.secret (Base64.encode (rt.marshal d)))) :
    verify rt s now (Base64.encode (rt.marshal d) ++ '.' :: signature) =
      if unix now > d.expires then .error .expiredToken else .ok d := by
  rw [verify, splitOn_token (dot_not_mem_encode _) hdot]
  simp only [hdecode, Base64.decode_encode, ne_eq, not_true_eq_false, if_false, rt.unmarshal_marshal]

/-- **A token that was signed with the secret is verified until it expires.** -/
theorem verify_sign {s t : Service} (hsecret : t.secret = s.secret) (now : Int) (d : TokenData) :
    verify rt t now (sign rt s d) =
      if unix now > d.expires then .error .expiredToken else .ok d := by
  rw [sign, ← hsecret]
  exact verify_spelled rt t now d (dot_not_mem_encode _) (Base64.decode_encode _)

/-- The token of an accepted preview. -/
theorem preview_ok {s : Service} {now : Int} {dialect scope : Text} {before : Table}
    {ops : List Operation} {p : Preview}
    (h : preview rt s now dialect scope before ops = .ok p) :
    ∃ q, generate dialect before.schema before.name ops = .ok q ∧
      p.statements = q.statements ∧ p.risks = q.risks ∧ p.fingerprint = rt.fingerprint before ∧
      p.token = sign rt s ⟨dialect, scope, p.fingerprint, unix (now + s.ttl), p.statements⟩ := by
  simp only [preview, bind_eq_ok] at h
  obtain ⟨q, hq, h⟩ := h
  rw [← Except.ok.inj h]
  exact ⟨q, hq, rfl, rfl, rfl, rfl⟩

/-- A token does not expire before it is signed. -/
theorem unix_le_expires (s : Service) (now : Int) : unix now ≤ unix (now + s.ttl) := by
  have hpos := s.ttl_pos
  unfold unix second
  omega

/-- Running the statements never asks for a confirmation. -/
theorem runDDL_error {δ τ : Type} (db : Database δ τ) (x : δ) (d : TokenData) :
    (runDDL db x d).2.error ≠ some .confirmation := by
  unfold runDDL
  split_ifs
  · split
    · simp
    · split
      · simp
      · split
        · simp
        · simp
  · split
    next y out failure _ => cases failure <;> simp

/-- The check of a token does not ask for one either. -/
theorem verify_ne_confirmation (s : Service) (now : Int) (token : Text) :
    verify rt s now token ≠ .error .confirmation := by
  unfold verify
  split
  · split
    · simp
    · split_ifs
      · simp
      · split
        · simp
        · split
          · simp
          · split_ifs <;> simp
  · simp

/-- **When `Execute` asks for a confirmation.** -/
theorem execute_confirmation_iff {δ τ : Type} (db : Database δ τ) (s : Service) (x : δ) (now : Int)
    (scope currentFingerprint token : Text) (confirmed : Bool) :
    (execute rt db s x now scope currentFingerprint token confirmed).2.2.error =
        some .confirmation ↔
      ∃ d, verify rt s now token = .ok d ∧ d.scope = scope ∧ d.fingerprint = currentFingerprint ∧
        confirmed = false ∧ d.ddl.any Statement.destructive = true := by
  have hany (d : TokenData) : d.ddl.any (fun st => st.destructive && !confirmed) = true ↔
      confirmed = false ∧ d.ddl.any Statement.destructive = true := by
    cases confirmed <;> simp
  unfold execute
  cases hverify : verify rt s now token with
  | error e =>
    have he : e ≠ .confirmation := by
      rintro rfl
      exact verify_ne_confirmation rt s now token hverify
    simp [he]
  | ok d =>
    simp only [Except.ok.injEq, exists_eq_left', ← hany]
    split_ifs with hscope hfingerprint hconfirm hused
    · simp [hscope]
    · simp [hfingerprint]
    · have hs : d.scope = scope := by simpa using hscope
      have hf : d.fingerprint = currentFingerprint := by simpa using hfingerprint
      simp [hs, hf, hconfirm]
    · simp [hconfirm]
    · simp [hconfirm, runDDL_error]

end

end Workbench.Schema
