import Mathlib.Data.List.Basic

/-!
# Authenticated encryption with associated data, idealised

A ciphertext determines the key, the nonce, the plaintext and the associated data it was made of, and
nothing else opens. Real schemes meet this up to a negligible probability; the scheme that writes its
four arguments one behind the other meets it (`transparent`).
-/

set_option autoImplicit false

namespace Workbench.Lib

abbrev Bytes : Type := List UInt8

structure Aead where
  sealWith : (key nonce plaintext data : Bytes) → Bytes
  openWith : (key nonce ciphertext data : Bytes) → Option Bytes
  openWith_sealWith : ∀ key nonce plaintext data,
    openWith key nonce (sealWith key nonce plaintext data) data = some plaintext
  sealWith_of_openWith : ∀ key nonce ciphertext data plaintext,
    openWith key nonce ciphertext data = some plaintext → ciphertext = sealWith key nonce plaintext data
  sealWith_injective : ∀ key nonce plaintext data key' nonce' plaintext' data',
    sealWith key nonce plaintext data = sealWith key' nonce' plaintext' data' →
      key = key' ∧ nonce = nonce' ∧ plaintext = plaintext' ∧ data = data'

namespace Aead

/-- What opens under some key, nonce and data was sealed with the same data. -/
theorem data_eq_of_open (a : Aead) {key nonce plaintext data key' nonce' plaintext' data' : Bytes}
    (h : a.openWith key' nonce' (a.sealWith key nonce plaintext data) data' = some plaintext') :
    data' = data := by
  have hsealed := a.sealWith_of_openWith _ _ _ _ _ h
  exact (a.sealWith_injective _ _ _ _ _ _ _ _ hsealed).2.2.2.symm

/-! ## A scheme that hides nothing -/

/-- A byte string that shows where it ends. -/
def frame (bytes : Bytes) : Bytes := bytes.flatMap (fun b => [1, b]) ++ [0]

/-- The first framed string, and what is behind it. -/
def unframe : Bytes → Option (Bytes × Bytes)
  | 0 :: rest => some ([], rest)
  | _ :: b :: rest => (unframe rest).map fun r => (b :: r.1, r.2)
  | _ => none

theorem unframe_frame (bytes rest : Bytes) : unframe (frame bytes ++ rest) = some (bytes, rest) := by
  induction bytes with
  | nil => rfl
  | cons b bytes ih =>
    have hsplit : frame (b :: bytes) ++ rest = 1 :: b :: (frame bytes ++ rest) := by simp [frame]
    rw [hsplit, unframe, ih]
    · rfl
    · decide

theorem frame_append_inj {a b rest rest' : Bytes} (h : frame a ++ rest = frame b ++ rest') :
    a = b ∧ rest = rest' := by
  have hread := congrArg unframe h
  rw [unframe_frame, unframe_frame, Option.some.injEq, Prod.mk.injEq] at hread
  exact hread

def frames (key nonce plaintext data : Bytes) : Bytes :=
  frame key ++ (frame nonce ++ (frame data ++ (frame plaintext ++ [])))

theorem frames_injective {key nonce plaintext data key' nonce' plaintext' data' : Bytes}
    (h : frames key nonce plaintext data = frames key' nonce' plaintext' data') :
    key = key' ∧ nonce = nonce' ∧ plaintext = plaintext' ∧ data = data' := by
  obtain ⟨hkey, h⟩ := frame_append_inj h
  obtain ⟨hnonce, h⟩ := frame_append_inj h
  obtain ⟨hdata, h⟩ := frame_append_inj h
  obtain ⟨hplaintext, -⟩ := frame_append_inj h
  exact ⟨hkey, hnonce, hplaintext, hdata⟩

/-- The plaintext of a ciphertext, if its other parts are the expected ones. -/
def openFrames (key nonce ciphertext data : Bytes) : Option Bytes := do
  let (_, rest) ← unframe ciphertext
  let (_, rest) ← unframe rest
  let (_, rest) ← unframe rest
  let (plaintext, _) ← unframe rest
  if ciphertext = frames key nonce plaintext data then some plaintext else none

def transparent : Aead where
  sealWith := frames
  openWith := openFrames
  openWith_sealWith key nonce plaintext data := by
    rw [openFrames]
    simp only [frames, unframe_frame, Option.bind_eq_bind, Option.bind_some, if_true]
  sealWith_of_openWith key nonce ciphertext data plaintext h := by
    simp only [openFrames, Option.bind_eq_bind, Option.bind_eq_some_iff] at h
    obtain ⟨r, -, r', -, r'', -, r''', -, h⟩ := h
    rw [Option.ite_none_right_eq_some] at h
    obtain ⟨heq, hplaintext⟩ := h
    cases hplaintext
    exact heq
  sealWith_injective _ _ _ _ _ _ _ _ h := frames_injective h

instance : Inhabited Aead := ⟨transparent⟩

end Aead

end Workbench.Lib
