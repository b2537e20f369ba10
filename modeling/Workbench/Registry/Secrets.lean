import Workbench.Lib.Runs
import Workbench.Storage.Principals

/-!
# The custody of secrets

What becomes of a secret over any run of the registry, with restarts under another keyring in between.
The row of a connection, its key id and its ciphertext stay those of the secret that was supplied last.
-/

set_option autoImplicit false

namespace Workbench.Registry

open Workbench.Lib Workbench.Storage
open Workbench.Identity (Principal)

/-! ## What each function does -/

section

variable {rt : Runtime} {keys : Keyring} {p : Principal} {db db' : Db} {id : Text} {nonce : Nonce}
  {input : SaveInput} {c : Connection}

theorem mapError_ok {ε ε' α : Type} {f : ε → ε'} {x : Except ε α} {a : α} :
    x.mapError f = .ok a ↔ x = .ok a := by
  cases x with
  | error e => simp [Except.mapError]
  | ok b => simp [Except.mapError]

theorem checked_ok {operation : Text} {violation : ConnectionRow → Option Violation}
    {attempt : Except Violation ConnectionRow} {row : ConnectionRow} :
    checked operation violation attempt = .ok row ↔ attempt = .ok row ∧ violation row = none := by
  cases attempt with
  | error v => simp [checked]
  | ok r =>
    simp only [checked, Except.ok.injEq]
    cases hv : violation r with
    | some v =>
      refine iff_of_false (by simp) ?_
      rintro ⟨rfl, hnone⟩
      cases hv.symm.trans hnone
    | none =>
      rw [Except.ok.injEq]
      constructor
      · rintro rfl
        exact ⟨rfl, hv⟩
      · exact And.left

theorem insertAudit_ok {actorUserID action outcome : Text}
    (h : insertAudit actorUserID action c outcome db = .ok db') :
    db'.connections = db.connections := by
  rw [insertAudit, guard_eq_ok] at h
  cases h.2
  rfl

theorem insertAudit_exists (action : Text) (c : Connection) (outcome : Text) {actorUserID : Text}
    (h : (db.users.lookup actorUserID).isSome) :
    ∃ db', insertAudit actorUserID action c outcome db = .ok db' := by
  rw [insertAudit, if_neg (Option.isSome_iff_ne_none.1 h)]
  exact ⟨_, rfl⟩

theorem insertedRow_secret {userID : Text} {sealed : SealedSecret} {row : ConnectionRow}
    (h : insertedRow rt userID c sealed = .ok row) :
    row.secretKeyID = sealed.keyID ∧ row.secretCiphertext = sealed.ciphertext := by
  rw [insertedRow] at h
  split at h
  · split at h
    · cases h
    · cases h
      exact ⟨rfl, rfl⟩
  · cases h

theorem updatedRow_secret {userID : Text} {sealed : SealedSecret} {row row' : ConnectionRow}
    (h : updatedRow rt userID c sealed row = .ok row') :
    row'.secretKeyID = sealed.keyID ∧ row'.secretCiphertext = sealed.ciphertext := by
  rw [updatedRow] at h
  split at h
  · cases h
    exact ⟨rfl, rfl⟩
  · cases h

theorem requiredSecret_ok {secret : Secret} :
    requiredSecret input = .ok secret ↔ input.secret = some secret ∧ secret.empty = false := by
  rw [requiredSecret]
  cases input.secret with
  | none => simp
  | some given =>
    rw [guard_eq_ok, Except.ok.injEq, Option.some.injEq, Bool.not_eq_true]
    constructor
    · rintro ⟨hempty, rfl⟩
      exact ⟨rfl, hempty⟩
    · rintro ⟨rfl, hempty⟩
      exact ⟨hempty, rfl⟩

/-- `Create` stores the secret that it is given, and refuses an empty one. -/
theorem create_ok {newID : Text} (h : create rt keys newID nonce p input db = .ok (c, db')) :
    ∃ secret row key, input.secret = some secret ∧ secret.empty = false ∧
      keys.keys.lookup row.secretKeyID = some key ∧
      Seals rt.aead key c.id secret row.secretCiphertext ∧
      db'.connections = db.connections.insert c.id row := by
  simp only [create, bind_eq_ok] at h
  obtain ⟨secret, hsecret, ⟨⟩, -, sealed, hsealed, row, hrow, db₁, haudit, hend⟩ := h
  obtain ⟨hgiven, hempty⟩ := requiredSecret_ok.1 hsecret
  obtain ⟨key, hkey, hseals⟩ := sealSecret_ok (mapError_ok.1 hsealed)
  obtain ⟨hkeyID, hciphertext⟩ := insertedRow_secret (checked_ok.1 hrow).1
  cases hend
  refine ⟨secret, row, key, hgiven, hempty, ?_, ?_, insertAudit_ok haudit⟩
  · rw [hkeyID]
    exact hkey
  · rw [hciphertext]
    exact hseals

theorem loadConnection_ok {row : ConnectionRow} :
    loadConnection id db = .ok row ↔ db.connections.lookup id = some row := by
  rw [loadConnection]
  cases db.connections.lookup id with
  | none => simp
  | some r => simp

/-- `Update` keeps the secret or stores the one that it is given. -/
theorem update_ok (h : update rt keys nonce p id input db = .ok (c, db')) :
    ∃ row row', db.connections.lookup id = some row ∧
      db'.connections = db.connections.insert id row' ∧
      (input.secret = none → row'.secretKeyID = row.secretKeyID ∧
        row'.secretCiphertext = row.secretCiphertext) ∧
      ∀ secret, input.secret = some secret → ∃ key, keys.keys.lookup row'.secretKeyID = some key ∧
        Seals rt.aead key id secret row'.secretCiphertext := by
  simp only [update, bind_eq_ok] at h
  obtain ⟨row, hload, ⟨⟩, -, sealed, hsealed, row', hrow, db₁, haudit, hend⟩ := h
  cases hend
  obtain ⟨hkeyID, hciphertext⟩ := updatedRow_secret (checked_ok.1 hrow).1
  refine ⟨row, row', loadConnection_ok.1 hload, insertAudit_ok haudit, fun hnone => ?_,
    fun secret hsecret => ?_⟩
  · rw [updatedSecret, hnone] at hsealed
    cases hsealed
    exact ⟨hkeyID, hciphertext⟩
  · rw [updatedSecret, hsecret] at hsealed
    obtain ⟨key, hkey, hseals⟩ := sealSecret_ok (mapError_ok.1 hsealed)
    rw [hkeyID, hciphertext]
    exact ⟨key, hkey, hseals⟩

theorem delete_ok (h : delete p id db = .ok db') :
    db'.connections = db.connections.erase id := by
  simp only [delete, bind_eq_ok] at h
  obtain ⟨row, -, ⟨⟩, -, haudit⟩ := h
  exact insertAudit_ok haudit

/-- `SecretForUse` gives what the row opens to. -/
theorem secretForUse_ok {r : Connection × Secret} (h : secretForUse rt keys p id db = .ok (r, db')) :
    db'.connections = db.connections ∧ ∃ row, db.connections.lookup id = some row ∧
      keys.openSecret rt.aead id row.secretKeyID row.secretCiphertext = .ok r.2 := by
  simp only [secretForUse, bind_eq_ok] at h
  obtain ⟨row, hload, ⟨⟩, -, secret, hopen, db₁, haudit, hend⟩ := h
  cases hend
  exact ⟨insertAudit_ok haudit, row, loadConnection_ok.1 hload, mapError_ok.1 hopen⟩

/-- `SecretForUse` by a principal that may use the connection. -/
theorem secretForUse_exists {row : ConnectionRow} {secret : Secret}
    (hrow : db.connections.lookup id = some row)
    (huse : authorizeUse p (connectionOf id row) = .ok ())
    (hopen : keys.openSecret rt.aead id row.secretKeyID row.secretCiphertext = .ok secret)
    (huser : (db.users.lookup p.user.id).isSome) :
    ∃ db', secretForUse rt keys p id db = .ok ((connectionOf id row, secret), db') := by
  obtain ⟨db', haudit⟩ := insertAudit_exists "connection.secret_use".toList (connectionOf id row)
    "success".toList huser
  refine ⟨db', ?_⟩
  simp only [secretForUse, bind_eq_ok]
  exact ⟨row, loadConnection_ok.2 hrow, (), huse, secret, mapError_ok.2 hopen, db', haudit, rfl⟩

end

/-! ## Runs -/

/-- The keyring that the process runs with, the database, and, as a history variable, the secrets last
supplied. -/
structure Custody where
  keys : Keyring
  db : Db
  supplied : Text → Option Secret

/-- What happens in a run: the calls of the registry, a restart with another keyring, and whatever the
other stores do to the database. -/
inductive Event where
  | create (newID : Text) (nonce : Nonce) (p : Principal) (input : SaveInput)
  | update (nonce : Nonce) (p : Principal) (id : Text) (input : SaveInput)
  | delete (p : Principal) (id : Text)
  | use (p : Principal) (id : Text)
  | restart (encoded active : Text)
  | others (db : Db)

/-- The secrets last supplied, behind one more that is stored. -/
def record (supplied : Text → Option Secret) (id : Text) : Option Secret → Text → Option Secret
  | none => supplied
  | some secret => Function.update supplied id (some secret)

/-- A call that fails leaves everything as it was, and a server that finds no keyring does not start. -/
def step (rt : Runtime) (s : Custody) : Event → Custody
  | .create newID nonce p input =>
    match create rt s.keys newID nonce p input s.db with
    | .error _ => s
    | .ok (c, db) => ⟨s.keys, db, record s.supplied c.id input.secret⟩
  | .update nonce p id input =>
    match update rt s.keys nonce p id input s.db with
    | .error _ => s
    | .ok (_, db) => ⟨s.keys, db, record s.supplied id input.secret⟩
  | .delete p id =>
    match delete p id s.db with
    | .error _ => s
    | .ok db => ⟨s.keys, db, s.supplied⟩
  | .use p id =>
    match secretForUse rt s.keys p id s.db with
    | .error _ => s
    | .ok (_, db) => ⟨s.keys, db, s.supplied⟩
  | .restart encoded active =>
    match parseKeyring encoded active with
    | .error _ => s
    | .ok keys => ⟨keys, s.db, s.supplied⟩
  | .others db => ⟨s.keys, db, s.supplied⟩

/-- A keyring that has all keys of another under the same ids. -/
def Keyring.Extends (old new : Keyring) : Prop :=
  ∀ keyID key, old.keys.lookup keyID = some key → new.keys.lookup keyID = some key

/-- A restart only adds keys under new ids, and the other stores change no secret and add no
connection. -/
def Custody.Allows (s : Custody) : Event → Prop
  | .restart encoded active => ∀ keys, parseKeyring encoded active = .ok keys → s.keys.Extends keys
  | .others db => ∀ id row, db.connections.lookup id = some row →
      ∃ old, s.db.connections.lookup id = some old ∧ row.secretKeyID = old.secretKeyID ∧
        row.secretCiphertext = old.secretCiphertext
  | _ => True

/-- The server in front of an empty database. -/
def start (keys : Keyring) : Custody := ⟨keys, Db.empty, fun _ => none⟩

/-- Every stored secret is the one last supplied, sealed for its connection under a key that is still
there. -/
def Custody.Kept (rt : Runtime) (s : Custody) : Prop :=
  ∀ id row, s.db.connections.lookup id = some row → ∃ secret key, s.supplied id = some secret ∧
    s.keys.keys.lookup row.secretKeyID = some key ∧ Seals rt.aead key id secret row.secretCiphertext

section

variable {rt : Runtime} {s : Custody}

theorem Custody.Kept.insert (h : s.Kept rt) {db : Db} {id : Text} {row : ConnectionRow}
    {supplied : Option Secret} {secret : Secret} {key : Bytes}
    (hdb : db.connections = s.db.connections.insert id row)
    (hsupplied : record s.supplied id supplied id = some secret)
    (hkey : s.keys.keys.lookup row.secretKeyID = some key)
    (hseals : Seals rt.aead key id secret row.secretCiphertext) :
    Custody.Kept rt ⟨s.keys, db, record s.supplied id supplied⟩ := by
  intro other r hr
  rw [hdb] at hr
  by_cases hid : other = id
  · subst hid
    rw [AList.lookup_insert] at hr
    cases hr
    exact ⟨secret, key, hsupplied, hkey, hseals⟩
  · rw [AList.lookup_insert_ne hid] at hr
    obtain ⟨secret', key', hsecret', hkey', hseals'⟩ := h other r hr
    refine ⟨secret', key', ?_, hkey', hseals'⟩
    cases supplied with
    | none => exact hsecret'
    | some given => exact (Function.update_of_ne hid ..).trans hsecret'

theorem Custody.Kept.shrink (h : s.Kept rt) {db : Db}
    (hdb : ∀ id row, db.connections.lookup id = some row →
      ∃ old, s.db.connections.lookup id = some old ∧ row.secretKeyID = old.secretKeyID ∧
        row.secretCiphertext = old.secretCiphertext) :
    Custody.Kept rt ⟨s.keys, db, s.supplied⟩ := by
  intro id row hrow
  obtain ⟨old, hold, hkeyID, hciphertext⟩ := hdb id row hrow
  obtain ⟨secret, key, hsecret, hkey, hseals⟩ := h id old hold
  refine ⟨secret, key, hsecret, ?_, ?_⟩
  · rw [hkeyID]
    exact hkey
  · rw [hciphertext]
    exact hseals

/-- One event keeps the secrets. -/
theorem Custody.Kept.step (h : s.Kept rt) {e : Event} (hallows : s.Allows e) :
    (step rt s e).Kept rt := by
  cases e with
  | create newID nonce p input =>
    rw [Registry.step]
    cases hcreate : create rt s.keys newID nonce p input s.db with
    | error e => exact h
    | ok r =>
      obtain ⟨secret, row, key, hgiven, -, hkey, hseals, hdb⟩ := create_ok hcreate
      -- The new row is sealed under the active key, and the record holds what was given for it.
      refine h.insert hdb ?_ hkey hseals
      rw [hgiven]
      exact Function.update_self ..
  | update nonce p id input =>
    rw [Registry.step]
    cases hupdate : update rt s.keys nonce p id input s.db with
    | error e => exact h
    | ok r =>
      obtain ⟨row, row', hrow, hdb, hkeeps, hreplaces⟩ := update_ok hupdate
      cases hgiven : input.secret with
      | none =>
        -- No secret given: the row keeps its key and its sealed text.
        obtain ⟨hkeyID, hciphertext⟩ := hkeeps hgiven
        obtain ⟨secret, key, hsecret, hkey, hseals⟩ := h id row hrow
        rw [← hkeyID] at hkey
        rw [← hciphertext] at hseals
        exact h.insert hdb hsecret hkey hseals
      | some secret =>
        -- A secret given: the row is sealed again, and the record changes with it.
        obtain ⟨key, hkey, hseals⟩ := hreplaces secret hgiven
        exact h.insert hdb (Function.update_self ..) hkey hseals
  | delete p id =>
    rw [Registry.step]
    cases hdelete : delete p id s.db with
    | error e => exact h
    | ok db =>
      apply h.shrink
      intro other row hrow
      rw [delete_ok hdelete] at hrow
      by_cases hid : other = id
      · subst hid
        rw [AList.lookup_erase] at hrow
        cases hrow
      · rw [AList.lookup_erase_ne hid] at hrow
        exact ⟨row, hrow, rfl, rfl⟩
  | use p id =>
    rw [Registry.step]
    cases huse : secretForUse rt s.keys p id s.db with
    | error e => exact h
    | ok r =>
      apply h.shrink
      intro other row hrow
      rw [(secretForUse_ok huse).1] at hrow
      exact ⟨row, hrow, rfl, rfl⟩
  | restart encoded active =>
    rw [Registry.step]
    cases hparse : parseKeyring encoded active with
    | error e => exact h
    | ok keys =>
      intro id row hrow
      obtain ⟨secret, key, hsecret, hkey, hseals⟩ := h id row hrow
      -- The keys in use stay in the new ring, which is what the event is allowed on.
      exact ⟨secret, key, hsecret, hallows keys hparse _ _ hkey, hseals⟩
  | others db => exact h.shrink hallows

theorem kept_of_runs {keys : Keyring} (h : Runs (step rt) Custody.Allows (start keys) s) :
    s.Kept rt := by
  refine h.invariant (fun s e hallows hkept => hkept.step hallows) ?_
  intro id row hrow
  cases hrow

end

/-! ## A connection to a shop -/

/-- A keyring with one key. -/
def firstKeyring : Keyring := ⟨AList.singleton "k1".toList (List.replicate 32 0), "k1".toList⟩

def zeroNonce : Nonce := ⟨List.replicate 12 0, rfl⟩

/-- The first administrator, as the identity store has written him. -/
def rootUser : Identity.UserRow := ⟨"root".toList, "root".toList, [], .admin, false⟩

def rootPrincipal : Principal := ⟨rootUser.toUser "usr_root".toList, []⟩

def rootDb : Db := { Db.empty with users := AList.singleton "usr_root".toList rootUser }

def shopConnection : Connection where
  id := []
  name := "shop".toList
  kind := "database".toList
  driver := "mysql".toList
  scope := "personal".toList
  ownerUserID := []
  teamID := []
  endpoint := "\x7b\"host\":\"db\",\"port\":3306\x7d".toList
  config := []
  hasSecret := false

def shopSecret : Secret := ⟨"app".toList, "pw".toList, [], []⟩

def createShop : Event :=
  .create "conn_a".toList zeroNonce rootPrincipal ⟨shopConnection, some shopSecret⟩

/-- An update with a secret that is there and has nothing in it. -/
def clearShop : Event :=
  .update zeroNonce rootPrincipal "conn_a".toList ⟨shopConnection, some ⟨[], [], [], []⟩⟩

def shop : Custody := step default (step default (start firstKeyring) (.others rootDb)) createShop

theorem allows_rootDb (s : Custody) : s.Allows (.others rootDb) := by
  intro id row hrow
  cases hrow

theorem runs_shop {cond : Custody → Event → Prop} (hroot : cond (start firstKeyring) (.others rootDb))
    (hcreate : cond (step default (start firstKeyring) (.others rootDb)) createShop) :
    Runs (step default) cond (start firstKeyring) shop :=
  ((Runs.refl _).tail hroot).tail hcreate

/-! ## The last secret -/

/-- Over every run, `SecretForUse` gives the secret last supplied for the connection, it gives it to each
principal of the database that may use the connection, and no ciphertext opens for another connection. -/
theorem secretForUse_last_supplied (rt : Runtime) (keys : Keyring) (s : Custody)
    (h : Runs (step rt) Custody.Allows (start keys) s) :
    (∀ p id c secret db', secretForUse rt s.keys p id s.db = .ok ((c, secret), db') →
      s.supplied id = some secret) ∧
    (∀ userID p id row, s.db.Loads userID p → s.db.connections.lookup id = some row →
      authorizeUse p (connectionOf id row) = .ok () →
      ∃ secret db', secretForUse rt s.keys p id s.db = .ok ((connectionOf id row, secret), db')) ∧
    ∀ id row, s.db.connections.lookup id = some row →
      ∀ (k : Keyring) (other keyID : Text) (secret : Secret),
        k.openSecret rt.aead other keyID row.secretCiphertext = .ok secret → other = id := by
  have hkept := kept_of_runs h
  refine ⟨fun p id c secret db' huse => ?_, fun userID p id row hloads hrow hauthorized => ?_,
    fun id row hrow k other keyID secret hopen => ?_⟩
  · obtain ⟨-, row, hrow, hopen⟩ := secretForUse_ok huse
    obtain ⟨last, key, hlast, hkey, hseals⟩ := hkept id row hrow
    have hsame := openSecret_of_seals hkey hseals
    rw [hopen] at hsame
    cases hsame
    exact hlast
  · obtain ⟨secret, key, -, hkey, hseals⟩ := hkept id row hrow
    obtain ⟨u, huser, -⟩ := hloads.user
    rw [← hloads.id] at huser
    have hopen := openSecret_of_seals hkey hseals
    exact ⟨secret, secretForUse_exists hrow hauthorized hopen (by rw [huser]; rfl)⟩
  · obtain ⟨last, key, -, -, hseals⟩ := hkept id row hrow
    exact connectionID_of_openSecret hseals hopen

/-- The first key and a new one, which is the active one. -/
def secondKeyring : Keyring :=
  ⟨firstKeyring.keys.insert "k2".toList (List.replicate 32 1), "k2".toList⟩

def encodedKeys : Text :=
  "k1:AAAAAAAAAAAAAAAAAAAAAAAAAAAAAAAAAAAAAAAAAAA=,k2:AQEBAQEBAQEBAQEBAQEBAQEBAQEBAQEBAQEBAQEBAQE=".toList

set_option maxRecDepth 4000 in
theorem parse_encodedKeys : parseKeyring encodedKeys "k2".toList = .ok secondKeyring := rfl

/-- The server starts again with these keys. -/
def rotation : Event := .restart encodedKeys "k2".toList

def laterSecret : Secret := ⟨"app".toList, "pw2".toList, [], []⟩

def updateShop : Event := .update zeroNonce rootPrincipal "conn_a".toList ⟨shopConnection, some laterSecret⟩

/-- The secret of the shop has been replaced under the new key. -/
def rotatedShop : Custody := step default (step default shop rotation) updateShop

theorem allows_rotation : shop.Allows rotation := by
  intro keys hkeys keyID key hkey
  have hlookup : (AList.singleton "k1".toList (List.replicate 32 0) : Table Text Bytes).lookup keyID = some key := hkey
  have hid : keyID = "k1".toList := by
    by_contra hne
    have hnone : (AList.singleton "k1".toList (List.replicate 32 0) : Table Text Bytes).lookup keyID = none :=
      AList.lookup_eq_none.2 fun hmem => hne (List.mem_singleton.1 hmem)
    cases hlookup.symm.trans hnone
  subst hid
  cases hkeys.symm.trans parse_encodedKeys
  exact hkey

theorem secretForUse_shop : ∃ db', secretForUse default rotatedShop.keys rootPrincipal "conn_a".toList rotatedShop.db =
    .ok ((connectionOf "conn_a".toList ((rotatedShop.db.connections.lookup "conn_a".toList).get rfl), laterSecret),
      db') := by
  obtain ⟨hlast, hauthorized, -⟩ := secretForUse_last_supplied default firstKeyring rotatedShop
    (((runs_shop (allows_rootDb _) trivial).tail allows_rotation).tail (e := updateShop) trivial)
  obtain ⟨secret, db', huse⟩ := hauthorized "usr_root".toList rootPrincipal "conn_a".toList _
    ⟨⟨_, rfl⟩, _, rfl⟩ rfl rfl
  cases hlast _ _ _ _ _ huse
  exact ⟨db', huse⟩

/-! ## Empty secrets -/

/-- A request that passes `validateConnectionInput`. -/
def Event.Validated (rt : Runtime) : Event → Prop
  | .create _ _ _ input => validateConnectionInput rt input.connection = .ok ()
  | .update _ _ _ input => validateConnectionInput rt input.connection = .ok ()
  | _ => True

/-- An update whose secret, if there is one, is not empty. -/
def Event.FullSecret : Event → Prop
  | .update _ _ _ input => ∀ secret, input.secret = some secret → secret.empty = false
  | _ => True

/-- Every stored secret opens, and is not empty. -/
def Custody.Full (rt : Runtime) (s : Custody) : Prop :=
  ∀ id row, s.db.connections.lookup id = some row → ∃ secret,
    s.keys.openSecret rt.aead id row.secretKeyID row.secretCiphertext = .ok secret ∧
      secret.empty = false

theorem record_full {supplied : Text → Option Secret} {id : Text} {given : Option Secret}
    (h : ∀ id secret, supplied id = some secret → secret.empty = false)
    (hgiven : ∀ secret, given = some secret → secret.empty = false) :
    ∀ other secret, record supplied id given other = some secret → secret.empty = false := by
  intro other secret hsecret
  cases given with
  | none => exact h other secret hsecret
  | some last =>
    by_cases hid : other = id
    · subst hid
      rw [record, Function.update_self] at hsecret
      exact hgiven secret hsecret
    · rw [record, Function.update_of_ne hid] at hsecret
      exact h other secret hsecret

/-- One event supplies no empty secret. -/
theorem step_supplied_full {rt : Runtime} {s : Custody} {e : Event} (hfull : e.FullSecret)
    (h : ∀ id secret, s.supplied id = some secret → secret.empty = false) :
    ∀ id secret, (step rt s e).supplied id = some secret → secret.empty = false := by
  cases e with
  | create newID nonce p input =>
    rw [step]
    cases hcreate : create rt s.keys newID nonce p input s.db with
    | error e => exact h
    | ok r =>
      obtain ⟨secret, row, key, hgiven, hempty, -⟩ := create_ok hcreate
      refine record_full h fun given heq => ?_
      rw [hgiven] at heq
      cases heq
      exact hempty
  | update nonce p id input =>
    rw [step]
    cases hupdate : update rt s.keys nonce p id input s.db with
    | error e => exact h
    | ok r => exact record_full h hfull
  | delete p id =>
    rw [step]
    cases delete p id s.db <;> exact h
  | use p id =>
    rw [step]
    cases secretForUse rt s.keys p id s.db <;> exact h
  | restart encoded active =>
    rw [step]
    cases parseKeyring encoded active <;> exact h
  | others db => exact h

/-- Where no update is given an empty secret, no stored secret is empty. -/
theorem stored_secrets_full (rt : Runtime) (keys : Keyring) (s : Custody)
    (h : Runs (step rt) (fun s e => s.Allows e ∧ e.FullSecret) (start keys) s) : s.Full rt := by
  have hboth : s.Kept rt ∧ ∀ id secret, s.supplied id = some secret → secret.empty = false := by
    refine h.invariant (P := fun s => s.Kept rt ∧ ∀ id secret, s.supplied id = some secret →
      secret.empty = false) (fun s e hcond hs => ?_) ⟨?_, ?_⟩
    · exact ⟨hs.1.step hcond.1, step_supplied_full hcond.2 hs.2⟩
    · intro id row hrow
      cases hrow
    · intro id secret hsecret
      cases hsecret
  intro id row hrow
  obtain ⟨secret, key, hsecret, hkey, hseals⟩ := hboth.1 id row hrow
  exact ⟨secret, openSecret_of_seals hkey hseals, hboth.2 id secret hsecret⟩

theorem stored_secrets_full_shop : shop.Full default :=
  stored_secrets_full default firstKeyring shop
    (runs_shop ⟨allows_rootDb _, trivial⟩ ⟨trivial, trivial⟩)

/-- An update empties the secret, although its request is valid. -/
theorem update_stores_empty_secret :
    ∃ s, Runs (step default) (fun s e => s.Allows e ∧ e.Validated default) (start firstKeyring) s ∧
      ¬ s.Full default := by
  have hrun : Runs (step default) (fun s e => s.Allows e ∧ e.Validated default) (start firstKeyring)
      (step default shop clearShop) :=
    (runs_shop ⟨allows_rootDb _, trivial⟩ ⟨trivial, rfl⟩).tail ⟨trivial, rfl⟩
  refine ⟨_, hrun, fun hfull => ?_⟩
  have hkept := kept_of_runs (hrun.mono fun _ _ hcond => hcond.1)
  obtain ⟨row, hrow⟩ : ∃ row, (step default shop clearShop).db.connections.lookup "conn_a".toList =
      some row := ⟨_, rfl⟩
  -- what the row opens to is what was supplied last
  obtain ⟨last, key, hlast, hkey, hseals⟩ := hkept _ _ hrow
  obtain ⟨secret, hopen, hne⟩ := hfull _ _ hrow
  have hsame := openSecret_of_seals hkey hseals
  rw [hopen] at hsame
  cases hsame
  cases (Option.some.inj hlast)
  cases hne

end Workbench.Registry
