import Workbench.Lib.Aead
import Workbench.Lib.Table
import Workbench.Schema.TokenJson

/-!
# The keyring

`api/internal/registry/keyring.go` and the secrets of `model.go`. AES-GCM is a parameter (`Lib.Aead`); the
nonces are given from outside.
-/

set_option autoImplicit false

namespace Workbench.Registry

open Workbench.Lib

structure Secret where
  username : Text
  password : Text
  privateKey : Text
  passphrase : Text
  deriving DecidableEq, Repr

def Secret.empty (s : Secret) : Bool :=
  s.username = [] && s.password = [] && s.privateKey = [] && s.passphrase = []

structure SealedSecret where
  keyID : Text
  ciphertext : Bytes
  deriving DecidableEq, Repr

inductive KeyringErr where
  | invalidEntry
  | decodeKey (keyID : Text)
  | keyLength (keyID : Text)
  | activeNotConfigured (active : Text)
  | notConfigured (keyID : Text)
  | tooShort
  | openSecret
  | decodeSecret
  deriving DecidableEq, Repr

/-- The keys by their ids, and the id that new secrets are sealed under. -/
structure Keyring where
  keys : Table Text Bytes
  active : Text

/-! ## Parsing -/

/-- `strings.Cut` at a character. -/
def cut (sep : Char) (s : Text) : Option (Text × Text) :=
  if sep ∈ s then some (s.takeWhile (· ≠ sep), (s.dropWhile (· ≠ sep)).tail) else none

/-- One round of the loop of `ParseKeyring`. -/
def parseEntry (keys : Table Text Bytes) (entry : Text) : Except KeyringErr (Table Text Bytes) :=
  let entry := trimSpace entry
  if entry = [] then .ok keys
  else
    match cut ':' entry with
    | none => .error .invalidEntry
    | some (keyID, value) =>
      if trimSpace keyID = [] ∨ trimSpace value = [] then .error .invalidEntry
      else
        match Base64.decodeStd (trimSpace value) with
        | none => .error (.decodeKey keyID)
        | some decoded =>
          if decoded.length ≠ 32 then .error (.keyLength keyID)
          else .ok (keys.insert (trimSpace keyID) decoded)

def parseKeyring (encoded active : Text) : Except KeyringErr Keyring := do
  let keys ← (encoded.splitOn ',').foldlM parseEntry ∅
  if keys.lookup active = none then .error (.activeNotConfigured active) else .ok ⟨keys, active⟩

/-! ## The JSON of a secret -/

/-- What stands in front of the value of a further member. -/
def memberFront (name : Text) : Text := ',' :: '"' :: (name ++ ['"', ':'])

/-- A member that is left out when it is empty. -/
def omitEmpty (name value : Text) : Text :=
  if value = [] then [] else memberFront name ++ Schema.jsonString value

/-- `json.Marshal` of a secret. -/
def secretJson (s : Secret) : Text :=
  "\x7b\"username\":".toList ++ (Schema.jsonString s.username ++
    (omitEmpty "password".toList s.password ++ (omitEmpty "privateKey".toList s.privateKey ++
      (omitEmpty "passphrase".toList s.passphrase ++ ['}']))))

/-- A member that may be missing. -/
def readOmitted (name text : Text) : Option (Text × Text) :=
  match Schema.readWord (memberFront name) text with
  | some rest => Schema.readJsonString rest
  | none => some ([], text)

/-- `json.Unmarshal` on what `json.Marshal` writes. -/
def readSecret (text : Text) : Option Secret := do
  let text ← Schema.readWord "\x7b\"username\":".toList text
  let (username, text) ← Schema.readJsonString text
  let (password, text) ← readOmitted "password".toList text
  let (privateKey, text) ← readOmitted "privateKey".toList text
  let (passphrase, text) ← readOmitted "passphrase".toList text
  if text = ['}'] then some ⟨username, password, privateKey, passphrase⟩ else none

theorem readWord_of_take_ne {word other rest : Text} (n : Nat) (hword : n ≤ word.length)
    (hother : n ≤ other.length) (hne : word.take n ≠ other.take n) :
    Schema.readWord word (other ++ rest) = none := by
  rw [Schema.readWord, if_neg]
  intro htake
  apply hne
  calc word.take n = ((other ++ rest).take word.length).take n := by rw [htake]
    _ = (other ++ rest).take n := by rw [List.take_take, Nat.min_eq_left hword]
    _ = other.take n := List.take_append_of_le_length hother

/-- A text that does not start with a member called `name`. -/
def Without (name text : Text) : Prop := Schema.readWord (memberFront name) text = none

theorem without_brace (name : Text) : Without name ['}'] := Schema.readWord_cons_ne (by decide)

/-- A member whose name differs within the first letters does not read as the other. -/
theorem Without.omitEmpty {name other value rest : Text} (h : Without name rest) (n : Nat)
    (hname : n ≤ (memberFront name).length) (hother : n ≤ (memberFront other).length)
    (hne : (memberFront name).take n ≠ (memberFront other).take n) :
    Without name (omitEmpty other value ++ rest) := by
  rw [Registry.omitEmpty]
  split
  · rwa [List.nil_append]
  · rw [List.append_assoc]
    exact readWord_of_take_ne n hname hother hne

theorem readOmitted_append {name value rest : Text} (h : Without name rest) :
    readOmitted name (omitEmpty name value ++ rest) = some (value, rest) := by
  rw [readOmitted, omitEmpty]
  by_cases hvalue : value = []
  · rw [if_pos hvalue, List.nil_append, h, hvalue]
  · rw [if_neg hvalue, List.append_assoc, Schema.readWord_append]
    exact Schema.readJsonString_append value rest

/-- Three names of which none starts like another. -/
structure Distinguished (password privateKey passphrase : Text) : Prop where
  key_phrase : ∃ n, n ≤ (memberFront privateKey).length ∧ n ≤ (memberFront passphrase).length ∧
    (memberFront privateKey).take n ≠ (memberFront passphrase).take n
  word_key : ∃ n, n ≤ (memberFront password).length ∧ n ≤ (memberFront privateKey).length ∧
    (memberFront password).take n ≠ (memberFront privateKey).take n
  word_phrase : ∃ n, n ≤ (memberFront password).length ∧ n ≤ (memberFront passphrase).length ∧
    (memberFront password).take n ≠ (memberFront passphrase).take n

theorem secret_members :
    Distinguished "password".toList "privateKey".toList "passphrase".toList :=
  ⟨⟨4, by decide⟩, ⟨4, by decide⟩, ⟨7, by decide⟩⟩

/-- The encoder and the reader for any names of the members. -/
theorem readMembers_append {front password privateKey passphrase : Text}
    (hnames : Distinguished password privateKey passphrase) (s : Secret) :
    (do
      let text ← Schema.readWord front (front ++ (Schema.jsonString s.username ++
        (omitEmpty password s.password ++ (omitEmpty privateKey s.privateKey ++
          (omitEmpty passphrase s.passphrase ++ ['}'])))))
      let (username, text) ← Schema.readJsonString text
      let (password, text) ← readOmitted password text
      let (privateKey, text) ← readOmitted privateKey text
      let (passphrase, text) ← readOmitted passphrase text
      if text = ['}'] then some (⟨username, password, privateKey, passphrase⟩ : Secret) else none) =
        some s := by
  obtain ⟨⟨a, ha, ha', hane⟩, ⟨b, hb, hb', hbne⟩, ⟨c, hc, hc', hcne⟩⟩ := hnames
  have hkey : Without privateKey (omitEmpty passphrase s.passphrase ++ ['}']) :=
    (without_brace privateKey).omitEmpty a ha ha' hane
  have hpassword : Without password (omitEmpty privateKey s.privateKey ++
      (omitEmpty passphrase s.passphrase ++ ['}'])) :=
    ((without_brace password).omitEmpty c hc hc' hcne).omitEmpty b hb hb' hbne
  rw [Schema.readWord_append]
  simp only [Option.bind_eq_bind, Option.bind_some, Schema.readJsonString_append,
    readOmitted_append hpassword, readOmitted_append hkey, readOmitted_append (without_brace _),
    if_true]

/-- **What is written of a secret is read back.** -/
theorem readSecret_secretJson (s : Secret) : readSecret (secretJson s) = some s :=
  readMembers_append secret_members s

/-! ## Sealing and opening -/

/-- `NonceSize` of GCM. -/
def nonceSize : Nat := 12

/-- What `rand.Reader` gives. -/
structure Nonce where
  bytes : Bytes
  length_eq : bytes.length = nonceSize

namespace Keyring

variable (aead : Aead) (k : Keyring)

def sealSecret (nonce : Nonce) (connectionID : Text) (secret : Secret) :
    Except KeyringErr SealedSecret :=
  match k.keys.lookup k.active with
  | none => .error (.activeNotConfigured k.active)
  | some key =>
    .ok ⟨k.active, nonce.bytes ++
      aead.sealWith key nonce.bytes (Schema.utf8 (secretJson secret)) (Schema.utf8 connectionID)⟩

def openSecret (connectionID keyID : Text) (ciphertext : Bytes) : Except KeyringErr Secret :=
  match k.keys.lookup keyID with
  | none => .error (.notConfigured keyID)
  | some key =>
    if ciphertext.length < nonceSize then .error .tooShort
    else
      let nonce := ciphertext.take nonceSize
      let payload := ciphertext.drop nonceSize
      match aead.openWith key nonce payload (Schema.utf8 connectionID) with
      | none => .error .openSecret
      | some plaintext =>
        match (Schema.ofUtf8 plaintext).bind readSecret with
        | none => .error .decodeSecret
        | some secret => .ok secret

end Keyring

theorem utf8_injective {s t : Text} (h : Schema.utf8 s = Schema.utf8 t) : s = t := by
  have hread := congrArg Schema.ofUtf8 h
  rw [Schema.ofUtf8_utf8, Schema.ofUtf8_utf8] at hread
  exact Option.some.inj hread

/-- A ciphertext is what sealing a secret under a key gives. -/
def Seals (aead : Aead) (key : Bytes) (connectionID : Text) (secret : Secret) (ciphertext : Bytes) :
    Prop :=
  ∃ nonce : Nonce, ciphertext = nonce.bytes ++
    aead.sealWith key nonce.bytes (Schema.utf8 (secretJson secret)) (Schema.utf8 connectionID)

section

variable {aead : Aead} {k : Keyring} {key ciphertext : Bytes} {connectionID keyID : Text}
  {secret : Secret}

theorem sealSecret_ok {nonce : Nonce} {sealed : SealedSecret}
    (h : k.sealSecret aead nonce connectionID secret = .ok sealed) :
    ∃ key, k.keys.lookup sealed.keyID = some key ∧
      Seals aead key connectionID secret sealed.ciphertext := by
  rw [Keyring.sealSecret] at h
  cases hkey : k.keys.lookup k.active with
  | none => simp [hkey] at h
  | some key =>
    rw [hkey] at h
    cases h
    exact ⟨key, hkey, nonce, rfl⟩

/-- A sealed secret opens under its own key and id. -/
theorem openSecret_of_seals (hkey : k.keys.lookup keyID = some key)
    (h : Seals aead key connectionID secret ciphertext) :
    k.openSecret aead connectionID keyID ciphertext = .ok secret := by
  obtain ⟨nonce, rfl⟩ := h
  have hlength : ∀ rest : Bytes, ¬ (nonce.bytes ++ rest).length < nonce.bytes.length := by
    intro rest
    rw [List.length_append]
    omega
  rw [Keyring.openSecret]
  simp only [hkey, ← nonce.length_eq, if_neg (hlength _), List.take_left, List.drop_left,
    aead.openWith_sealWith, Schema.ofUtf8_utf8, Option.bind_some, readSecret_secretJson]

/-- A sealed secret opens under no other id, whatever the keys. -/
theorem connectionID_of_openSecret (h : Seals aead key connectionID secret ciphertext) {k' : Keyring}
    {connectionID' keyID' : Text} {secret' : Secret}
    (hopen : k'.openSecret aead connectionID' keyID' ciphertext = .ok secret') :
    connectionID' = connectionID := by
  obtain ⟨nonce, rfl⟩ := h
  rw [Keyring.openSecret] at hopen
  cases hkey : k'.keys.lookup keyID' with
  | none => simp [hkey] at hopen
  | some key' =>
    simp only [hkey, guard_eq_ok, ← nonce.length_eq, List.take_left, List.drop_left] at hopen
    obtain ⟨-, hopen⟩ := hopen
    cases hplain : aead.openWith key' nonce.bytes (aead.sealWith key nonce.bytes
        (Schema.utf8 (secretJson secret)) (Schema.utf8 connectionID))
        (Schema.utf8 connectionID') with
    | none => simp [hplain] at hopen
    | some plaintext => exact utf8_injective (aead.data_eq_of_open hplain)

end

end Workbench.Registry
