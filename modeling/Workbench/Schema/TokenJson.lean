import Workbench.Schema.Service

/-!
# The JSON of a token

What `json.Marshal` writes of a token, with the escapes of Go, and a reader of such texts. The reader
gives the token back (`readToken_tokenJson`), so that the law which the service asks of JSON is that
of a real encoding (`jsonRuntime`).
-/

set_option autoImplicit false

namespace Workbench.Schema

/-! ## Strings -/

def hexDigit (n : Nat) : Char := "0123456789abcdef".toList.getD n '0'

def hexValue (c : Char) : Option Nat :=
  let n := "0123456789abcdef".toList.idxOf c
  if n < 16 then some n else none

/-- The four digits behind a backslash and a u. -/
def hexText (n : Nat) : Text :=
  [hexDigit (n / 4096 % 16), hexDigit (n / 256 % 16), hexDigit (n / 16 % 16), hexDigit (n % 16)]

/-- The characters that are written by their number: those of HTML, the two line separators and the
control characters that have no escape of their own. -/
def isNumbered (c : Char) : Bool :=
  c = '<' || c = '>' || c = '&' || c.toNat < 32 || c = '\u2028' || c = '\u2029'

/-- The short escapes. -/
def shortEscape (c : Char) : Option Char :=
  if c = '"' then some '"'
  else if c = '\\' then some '\\'
  else if c = '\x08' then some 'b'
  else if c = '\x0c' then some 'f'
  else if c = '\n' then some 'n'
  else if c = '\r' then some 'r'
  else if c = '\t' then some 't'
  else none

def shortUnescape (c : Char) : Option Char :=
  if c = '"' then some '"'
  else if c = '\\' then some '\\'
  else if c = 'b' then some '\x08'
  else if c = 'f' then some '\x0c'
  else if c = 'n' then some '\n'
  else if c = 'r' then some '\r'
  else if c = 't' then some '\t'
  else none

def escapeChar (c : Char) : Text :=
  match shortEscape c with
  | some e => ['\\', e]
  | none => if isNumbered c then '\\' :: 'u' :: hexText c.toNat else [c]

def jsonString (text : Text) : Text := '"' :: (text.flatMap escapeChar ++ ['"'])

/-- How far the reader is in an escape. -/
inductive Escape where
  | none
  | slash
  /-- That many digits of a number are read, and this is their value. -/
  | number (digits value : Nat)

/-- The rest of a string behind its opening mark: the text, and what follows the closing mark. -/
def readString : Escape → Text → Option (Text × Text)
  | _, [] => none
  | .none, c :: rest =>
    if c = '"' then some ([], rest)
    else if c = '\\' then readString .slash rest
    else (readString .none rest).map fun r => (c :: r.1, r.2)
  | .slash, c :: rest =>
    if c = 'u' then readString (.number 0 0) rest
    else match shortUnescape c with
      | none => none
      | some x => (readString .none rest).map fun r => (x :: r.1, r.2)
  | .number digits value, c :: rest =>
    match hexValue c with
    | none => none
    | some v =>
      if digits = 3 then
        (readString .none rest).map fun r => (Char.ofNat (value * 16 + v) :: r.1, r.2)
      else readString (.number (digits + 1) (value * 16 + v)) rest

theorem hexValue_hexDigit {n : Nat} (h : n < 16) : hexValue (hexDigit n) = some n := by
  have hall : ∀ k : Fin 16, hexValue (hexDigit k) = some k.val := by decide +kernel
  exact hall ⟨n, h⟩

/-- The four digits of a number are read. -/
theorem readString_hexText {n : Nat} (h : n < 65536) (rest : Text) :
    readString (.number 0 0) (hexText n ++ rest) =
      (readString .none rest).map fun r => (Char.ofNat n :: r.1, r.2) := by
  have hmod (k : Nat) : k % 16 < 16 := Nat.mod_lt k (by decide)
  have hvalue : (((0 * 16 + n / 4096 % 16) * 16 + n / 256 % 16) * 16 + n / 16 % 16) * 16 + n % 16 =
      n := by omega
  simp only [hexText, List.cons_append, List.nil_append, readString, hexValue_hexDigit (hmod _)]
  simp only [hvalue, Nat.reduceEqDiff, Nat.reduceAdd, if_false, if_true, OfNat.zero_ne_ofNat]

theorem shortUnescape_shortEscape {c e : Char} (h : shortEscape c = some e) :
    shortUnescape e = some c ∧ e ≠ 'u' := by
  unfold shortEscape at h
  split_ifs at h with h1 h2 h3 h4 h5 h6 h7 <;>
    (rw [← Option.some.inj h]; subst_vars; exact ⟨rfl, by decide⟩)

theorem isNumbered_lt {c : Char} (h : isNumbered c = true) : c.toNat < 65536 := by
  simp only [isNumbered, Bool.or_eq_true, decide_eq_true_eq] at h
  rcases h with ((((rfl | rfl) | rfl) | h) | rfl) | rfl
  · decide
  · decide
  · decide
  · omega
  · decide
  · decide

theorem readString_escapeChar (c : Char) (rest : Text) :
    readString .none (escapeChar c ++ rest) =
      (readString .none rest).map fun r => (c :: r.1, r.2) := by
  unfold escapeChar
  cases hshort : shortEscape c with
  | some e =>
    obtain ⟨hback, hu⟩ := shortUnescape_shortEscape hshort
    simp only [List.cons_append, List.nil_append]
    rw [readString, if_neg (by decide), if_pos rfl, readString, if_neg hu, hback]
  | none =>
    have hmark : c ≠ '"' := by
      rintro rfl
      exact absurd hshort (by decide)
    have hslash : c ≠ '\\' := by
      rintro rfl
      exact absurd hshort (by decide)
    dsimp only
    split_ifs with hnumbered
    · rw [List.cons_append, List.cons_append, readString, if_neg (by decide), if_pos rfl,
        readString, if_pos rfl, readString_hexText (isNumbered_lt hnumbered), Char.ofNat_toNat]
    · rw [List.singleton_append, readString, if_neg hmark, if_neg hslash]

theorem readString_flatMap (text rest : Text) :
    readString .none (text.flatMap escapeChar ++ '"' :: rest) = some (text, rest) := by
  induction text with
  | nil => rw [List.flatMap_nil, List.nil_append, readString, if_pos rfl]
  | cons c text ih =>
    rw [List.flatMap_cons, List.append_assoc, readString_escapeChar, ih]
    rfl

/-- A word that the encoder writes. -/
def readWord (word : Text) (text : Text) : Option Text :=
  if text.take word.length = word then some (text.drop word.length) else none

theorem readWord_append (word rest : Text) : readWord word (word ++ rest) = some rest := by
  rw [readWord, List.take_left, if_pos rfl, List.drop_left]

def readJsonString (text : Text) : Option (Text × Text) :=
  (readWord ['"'] text).bind (readString .none)

theorem readJsonString_append (text rest : Text) :
    readJsonString (jsonString text ++ rest) = some (text, rest) := by
  have hsplit : jsonString text ++ rest =
      ['"'] ++ (text.flatMap escapeChar ++ '"' :: rest) := by simp [jsonString]
  rw [readJsonString, hsplit, readWord_append, Option.bind_some, readString_flatMap]

/-! ## Numbers -/

def jsonNat (n : Nat) : Text := Nat.toDigits 10 n

def jsonInt (n : Int) : Text := if n < 0 then '-' :: jsonNat n.natAbs else jsonNat n.natAbs

def readNat (text : Text) : Nat × Text :=
  (Nat.ofDigitChars 10 (text.takeWhile Char.isDigit) 0, text.dropWhile Char.isDigit)

def readInt (text : Text) : Int × Text :=
  match readWord ['-'] text with
  | some rest => (-((readNat rest).1 : Int), (readNat rest).2)
  | none => ((readNat text).1, (readNat text).2)

theorem readNat_append (n : Nat) {rest : Text}
    (h : ∀ c, rest.head? = some c → c.isDigit = false) :
    readNat (jsonNat n ++ rest) = (n, rest) := by
  have hdigits : ∀ c ∈ jsonNat n, c.isDigit = true :=
    fun c hc => Nat.isDigit_of_mem_toDigits (by decide) (by decide) hc
  have htake : rest.takeWhile Char.isDigit = [] ∧ rest.dropWhile Char.isDigit = rest := by
    cases rest with
    | nil => exact ⟨rfl, rfl⟩
    | cons c more =>
      have hc := h c rfl
      simp [hc]
  rw [readNat, List.takeWhile_append_of_pos hdigits, List.dropWhile_append_of_pos hdigits,
    htake.1, htake.2, List.append_nil, jsonNat, Nat.ofDigitChars_toDigits (by decide) (by decide)]

theorem readInt_append (n : Int) {rest : Text}
    (h : ∀ c, rest.head? = some c → c.isDigit = false) :
    readInt (jsonInt n ++ rest) = (n, rest) := by
  unfold jsonInt
  split_ifs with hn
  · have hword : readWord ['-'] ('-' :: jsonNat n.natAbs ++ rest) =
        some (jsonNat n.natAbs ++ rest) := readWord_append ['-'] _
    rw [readInt, hword]
    simp only [readNat_append n.natAbs h]
    congr 1
    omega
  · have hword : readWord ['-'] (jsonNat n.natAbs ++ rest) = none := by
      rw [readWord, if_neg]
      intro htake
      have hne : jsonNat n.natAbs ≠ [] := Nat.toDigits_ne_nil
      obtain ⟨c, more, hc⟩ := List.exists_cons_of_ne_nil hne
      have hdigit : c.isDigit = true := by
        apply Nat.isDigit_of_mem_toDigits (b := 10) (n := n.natAbs) (by decide) (by decide)
        have hmem : c ∈ jsonNat n.natAbs := by rw [hc]; exact List.mem_cons_self
        exact hmem
      rw [hc, List.cons_append] at htake
      have hminus : c = '-' := by simpa using htake
      rw [hminus] at hdigit
      exact absurd hdigit (by decide)
    rw [readInt, hword]
    simp only [readNat_append n.natAbs h]
    congr 1
    omega

/-! ## Tokens -/

def jsonStatement (st : Statement) : Text :=
  "\x7b\"sql\":".toList ++ (jsonString st.sql ++
    ((if st.destructive then ",\"destructive\":true".toList else []) ++ ['}']))

def jsonStatements : List Statement → Text
  | [] => [']']
  | [st] => jsonStatement st ++ [']']
  | st :: rest => jsonStatement st ++ ',' :: jsonStatements rest

/-- `json.Marshal` of a token. -/
def tokenJson (d : TokenData) : Text :=
  "\x7b\"x\":".toList ++ (jsonString d.dialect ++ (",\"s\":".toList ++ (jsonString d.scope ++
    (",\"f\":".toList ++ (jsonString d.fingerprint ++ (",\"e\":".toList ++ (jsonInt d.expires ++
      (",\"d\":[".toList ++ (jsonStatements d.ddl ++ ['}'])))))))))

def readStatement (text : Text) : Option (Statement × Text) := do
  let text ← readWord "\x7b\"sql\":".toList text
  let (sql, text) ← readJsonString text
  match readWord ",\"destructive\":true".toList text with
  | some text => (readWord ['}'] text).map fun rest => (⟨sql, true⟩, rest)
  | none => (readWord ['}'] text).map fun rest => (⟨sql, false⟩, rest)

/-- The number bounds the statements that are read. -/
def readStatements : Nat → Text → Option (List Statement × Text)
  | 0, _ => none
  | n + 1, text =>
    match readWord [']'] text with
    | some rest => some ([], rest)
    | none => do
      let (st, text) ← readStatement text
      match readWord [','] text with
      | some text => (readStatements n text).map fun r => (st :: r.1, r.2)
      | none => (readWord [']'] text).map fun rest => ([st], rest)

/-- `json.Unmarshal` on what `json.Marshal` writes. -/
def readToken (text : Text) : Option TokenData := do
  let bound := text.length
  let text ← readWord "\x7b\"x\":".toList text
  let (dialect, text) ← readJsonString text
  let text ← readWord ",\"s\":".toList text
  let (scope, text) ← readJsonString text
  let text ← readWord ",\"f\":".toList text
  let (fingerprint, text) ← readJsonString text
  let text ← readWord ",\"e\":".toList text
  let (expires, text) := readInt text
  let text ← readWord ",\"d\":[".toList text
  let (ddl, text) ← readStatements bound text
  if text = ['}'] then some ⟨dialect, scope, fingerprint, expires, ddl⟩ else none

theorem readWord_cons_ne {word rest : Text} {c x : Char} (h : c ≠ x) :
    readWord (x :: word) (c :: rest) = none := by
  rw [readWord, if_neg]
  intro htake
  rw [List.length_cons, List.take_succ_cons, List.cons.injEq] at htake
  exact h htake.1

theorem readStatement_append (st : Statement) (rest : Text) :
    readStatement (jsonStatement st ++ rest) = some (st, rest) := by
  obtain ⟨sql, destructive⟩ := st
  have hsplit : jsonStatement ⟨sql, destructive⟩ ++ rest =
      "\x7b\"sql\":".toList ++ (jsonString sql ++
        ((if destructive then ",\"destructive\":true".toList else []) ++ (['}'] ++ rest))) := by
    unfold jsonStatement
    generalize "\x7b\"sql\":".toList = front
    generalize ",\"destructive\":true".toList = flag
    simp
  rw [hsplit, readStatement, readWord_append]
  simp only [Option.bind_eq_bind, Option.bind_some, readJsonString_append]
  cases destructive with
  | true =>
    rw [if_pos rfl, readWord_append]
    simp only [readWord_append, Option.map_some]
  | false =>
    have hword : readWord ",\"destructive\":true".toList (['}'] ++ rest) = none :=
      readWord_cons_ne (by decide)
    rw [if_neg (by decide), List.nil_append, hword]
    simp only [readWord_append, Option.map_some]

theorem readStatements_append (statements : List Statement) {n : Nat} (h : statements.length < n)
    (rest : Text) :
    readStatements n (jsonStatements statements ++ rest) = some (statements, rest) := by
  induction statements generalizing n with
  | nil =>
    obtain ⟨m, rfl⟩ : ∃ m, n = m + 1 := ⟨n - 1, by simp at h; omega⟩
    rw [jsonStatements, readStatements, readWord_append]
  | cons st more ih =>
    obtain ⟨m, rfl⟩ : ∃ m, n = m + 1 := ⟨n - 1, by simp at h; omega⟩
    -- a statement starts with a brace, so the list does not end in front of it
    have hnot (tail : Text) : readWord [']'] (jsonStatement st ++ tail) = none :=
      readWord_cons_ne (by decide)
    cases more with
    | nil =>
      have hcomma : readWord [','] ([']'] ++ rest) = none := readWord_cons_ne (by decide)
      rw [jsonStatements, List.append_assoc, readStatements, hnot]
      simp only [readStatement_append, Option.bind_eq_bind, Option.bind_some, hcomma,
        readWord_append, Option.map_some]
    | cons next more =>
      have hshort : (next :: more).length < m := by
        simp only [List.length_cons] at h ⊢
        omega
      have hcomma (tail : Text) : readWord [','] (',' :: tail) = some tail :=
        readWord_append [','] tail
      rw [jsonStatements, List.append_assoc, readStatements, hnot]
      · simp only [readStatement_append, Option.bind_eq_bind, Option.bind_some,
          List.cons_append, hcomma, ih hshort, Option.map_some]
      · simp

theorem length_jsonStatement (st : Statement) : 0 < (jsonStatement st).length := by
  have hfront : 0 < "\x7b\"sql\":".toList.length := by decide
  unfold jsonStatement
  generalize "\x7b\"sql\":".toList = front at hfront ⊢
  rw [List.length_append]
  omega

theorem length_jsonStatements (statements : List Statement) :
    statements.length < (jsonStatements statements).length := by
  induction statements with
  | nil => simp [jsonStatements]
  | cons st more ih =>
    have hpos := length_jsonStatement st
    cases more with
    | nil =>
      simp only [jsonStatements, List.length_append, List.length_cons, List.length_nil]
      omega
    | cons next more =>
      simp only [jsonStatements, List.length_append, List.length_cons] at ih ⊢
      omega

/-- **What is written of a token is read back.** -/
theorem readToken_tokenJson (d : TokenData) : readToken (tokenJson d) = some d := by
  have hbound : d.ddl.length < (tokenJson d).length := by
    have hlength := length_jsonStatements d.ddl
    simp only [tokenJson, List.length_append]
    omega
  have hcomma : ∀ c, (",\"d\":[".toList ++ (jsonStatements d.ddl ++ ['}'])).head? = some c →
      c.isDigit = false := by
    intro c hc
    have hhead : c = ',' := (Option.some.inj hc).symm
    rw [hhead]
    rfl
  unfold readToken
  dsimp only
  generalize (tokenJson d).length = bound at hbound
  rw [tokenJson]
  simp only [readWord_append, readJsonString_append, readInt_append d.expires hcomma,
    readStatements_append d.ddl hbound, Option.bind_eq_bind, Option.bind_some, if_true]

/-! ## The runtime -/

/-- The bytes of a text in UTF-8. -/
def utf8 (text : Text) : List UInt8 := (String.ofList text).toByteArray.data.toList

def ofUtf8 (bytes : List UInt8) : Option Text :=
  (String.fromUTF8? ⟨bytes.toArray⟩).map String.toList

theorem ofUtf8_utf8 (text : Text) : ofUtf8 (utf8 text) = some text := by
  have hbytes : (⟨(utf8 text).toArray⟩ : ByteArray) = (String.ofList text).toByteArray := by
    rw [utf8, Array.toArray_toList]
  have hvalid := (String.ofList text).isValidUTF8
  have hback : String.fromUTF8 (String.ofList text).toByteArray hvalid = String.ofList text := rfl
  rw [ofUtf8, hbytes, String.fromUTF8?, dif_pos hvalid, hback, Option.map_some,
    String.toList_ofList]

/-- A runtime with the JSON of Go. Any function may sign. -/
def jsonRuntime (hmac : Text → Text → List UInt8) (fingerprint : Table → Text) : Runtime where
  marshal d := utf8 (tokenJson d)
  unmarshal bytes := (ofUtf8 bytes).bind readToken
  unmarshal_marshal d := by
    rw [ofUtf8_utf8, Option.bind_some]
    exact readToken_tokenJson d
  hmac := hmac
  fingerprint := fingerprint

end Workbench.Schema
