import Mathlib.Tactic.Basic
import Mathlib.Data.Nat.Init

/-!
# An incremental decoder of UTF-8

The decoder of the Encoding Standard as a machine that is told one byte after the other, and the decoder of
a text that comes in chunks, which leaves out a byte order mark at the beginning. What it reads depends on
the bytes only, not on how they are cut. `runes` is the decoder of Go, which has all bytes at once.
-/

set_option autoImplicit false

namespace Workbench.Lib

/-- The bytes of a text in UTF-8. -/
def utf8Encode (text : List Char) : List UInt8 := text.flatMap String.utf8EncodeChar

theorem utf8Encode_append (a b : List Char) : utf8Encode (a ++ b) = utf8Encode a ++ utf8Encode b :=
  List.flatMap_append

/-- What a malformed sequence is read as. -/
def replacement : Char := '\uFFFD'

/-! ## Byte by byte -/

/-- The state of the decoder; the bounds are those of the next byte. -/
structure Utf8Decoder where
  codePoint : Nat
  bytesSeen : Nat
  bytesNeeded : Nat
  lower : Nat
  upper : Nat
  deriving DecidableEq, Repr

namespace Utf8Decoder

/-- Between two characters. -/
def ground : Utf8Decoder := ⟨0, 0, 0, 0x80, 0xBF⟩

/-- A first byte. -/
def lead (byte : Nat) : Utf8Decoder × List Char :=
  if byte ≤ 0x7F then (ground, [Char.ofNat byte])
  else if 0xC2 ≤ byte ∧ byte ≤ 0xDF then (⟨byte % 32, 0, 1, 0x80, 0xBF⟩, [])
  else if 0xE0 ≤ byte ∧ byte ≤ 0xEF then
    (⟨byte % 16, 0, 2, if byte = 0xE0 then 0xA0 else 0x80, if byte = 0xED then 0x9F else 0xBF⟩, [])
  else if 0xF0 ≤ byte ∧ byte ≤ 0xF4 then
    (⟨byte % 8, 0, 3, if byte = 0xF0 then 0x90 else 0x80, if byte = 0xF4 then 0x8F else 0xBF⟩, [])
  else (ground, [replacement])

/-- One byte; a byte that does not go on with a sequence ends it and is read again as a first byte. -/
def step (d : Utf8Decoder) (byte : Nat) : Utf8Decoder × List Char :=
  if d.bytesNeeded = 0 then lead byte
  else if byte < d.lower ∨ d.upper < byte then
    let (d, text) := lead byte
    (d, replacement :: text)
  else
    let codePoint := d.codePoint * 64 + byte % 64
    if d.bytesSeen + 1 = d.bytesNeeded then (ground, [Char.ofNat codePoint])
    else (⟨codePoint, d.bytesSeen + 1, d.bytesNeeded, 0x80, 0xBF⟩, [])

/-- The bytes of a chunk. -/
def feed (d : Utf8Decoder) : List UInt8 → Utf8Decoder × List Char
  | [] => (d, [])
  | byte :: rest =>
    let (d, text) := d.step byte.toNat
    let (d, more) := d.feed rest
    (d, text ++ more)

@[simp]
theorem feed_nil (d : Utf8Decoder) : d.feed [] = (d, []) := rfl

theorem feed_cons (d : Utf8Decoder) (byte : UInt8) (rest : List UInt8) :
    d.feed (byte :: rest) = (((d.step byte.toNat).1.feed rest).1,
      (d.step byte.toNat).2 ++ ((d.step byte.toNat).1.feed rest).2) := rfl

/-- Bytes in two parts. -/
theorem feed_append (a b : List UInt8) : ∀ d : Utf8Decoder,
    d.feed (a ++ b) = (((d.feed a).1.feed b).1, (d.feed a).2 ++ ((d.feed a).1.feed b).2) := by
  induction a with
  | nil => exact fun _ => rfl
  | cons byte rest ih =>
    intro d
    rw [List.cons_append, feed_cons, ih, feed_cons, List.append_assoc]

/-! ## What the encoder writes -/

theorem toNat_ofNat_byte {n : Nat} (h : n < 256) : (UInt8.ofNat n).toNat = n :=
  UInt8.toNat_ofNat_of_lt' h

theorem step_ground (byte : Nat) : ground.step byte = lead byte := if_pos rfl

/-- A first byte that others follow. -/
theorem feed_lead {byte : Nat} {d : Utf8Decoder} {rest : List UInt8} (hbyte : byte < 256)
    (hlead : lead byte = (d, [])) : ground.feed (UInt8.ofNat byte :: rest) = d.feed rest := by
  rw [feed_cons, toNat_ofNat_byte hbyte, step_ground, hlead]
  rfl

section

variable {codePoint seen needed lower upper n : Nat}

/-- A byte in the middle of a character. -/
theorem feed_continue {rest : List UInt8} (hlower : lower ≤ n % 64 + 0x80)
    (hupper : n % 64 + 0x80 ≤ upper) (hmore : seen + 1 < needed) :
    feed ⟨codePoint, seen, needed, lower, upper⟩ (UInt8.ofNat (n % 64 + 0x80) :: rest) =
      feed ⟨codePoint * 64 + n % 64, seen + 1, needed, 0x80, 0xBF⟩ rest := by
  have hbits : (n % 64 + 0x80) % 64 = n % 64 := by omega
  have hstep : step ⟨codePoint, seen, needed, lower, upper⟩ (n % 64 + 0x80) =
      (⟨codePoint * 64 + n % 64, seen + 1, needed, 0x80, 0xBF⟩, []) := by
    rw [step]
    dsimp only
    rw [if_neg (by omega), if_neg (by omega), if_neg (by omega), hbits]
  rw [feed_cons, toNat_ofNat_byte (by omega), hstep]
  rfl

/-- The last byte of a character. -/
theorem feed_last (hlower : lower ≤ n % 64 + 0x80) (hupper : n % 64 + 0x80 ≤ upper)
    (hlast : seen + 1 = needed) :
    feed ⟨codePoint, seen, needed, lower, upper⟩ [UInt8.ofNat (n % 64 + 0x80)] =
      (ground, [Char.ofNat (codePoint * 64 + n % 64)]) := by
  have hbits : (n % 64 + 0x80) % 64 = n % 64 := by omega
  have hstep : step ⟨codePoint, seen, needed, lower, upper⟩ (n % 64 + 0x80) =
      (ground, [Char.ofNat (codePoint * 64 + n % 64)]) := by
    rw [step]
    dsimp only
    rw [if_neg (by omega), if_neg (by omega), if_pos hlast, hbits]
  rw [feed_cons, toNat_ofNat_byte (by omega), hstep]
  rfl

end

theorem feed_two {v : Nat} (hlow : 0x7F < v) (hhigh : v ≤ 0x7FF) :
    ground.feed [UInt8.ofNat (v / 64 % 0x20 + 0xC0), UInt8.ofNat (v % 64 + 0x80)] =
      (ground, [Char.ofNat v]) := by
  have hlead : lead (v / 64 % 0x20 + 0xC0) = (⟨v / 64, 0, 1, 0x80, 0xBF⟩, []) := by
    rw [lead, if_neg (by omega), if_pos (by omega)]
    congr 2
    omega
  have hsum : v / 64 * 64 + v % 64 = v := by omega
  rw [feed_lead (by omega) hlead, feed_last (by omega) (by omega) rfl, hsum]

theorem feed_three {v : Nat} (hlow : 0x7FF < v) (hhigh : v ≤ 0xFFFF) (hvalid : v < 0xD800 ∨ 0xDFFF < v) :
    ground.feed [UInt8.ofNat (v / 4096 % 0x10 + 0xE0), UInt8.ofNat (v / 64 % 64 + 0x80),
      UInt8.ofNat (v % 64 + 0x80)] = (ground, [Char.ofNat v]) := by
  have hlead : lead (v / 4096 % 0x10 + 0xE0) =
      (⟨v / 4096, 0, 2, if v / 4096 = 0 then 0xA0 else 0x80, if v / 4096 = 0xD then 0x9F else 0xBF⟩, []) := by
    have hbits : (v / 4096 % 0x10 + 0xE0) % 16 = v / 4096 := by omega
    have hfirst : v / 4096 % 0x10 + 0xE0 = 0xE0 ↔ v / 4096 = 0 := by omega
    have hlast : v / 4096 % 0x10 + 0xE0 = 0xED ↔ v / 4096 = 0xD := by omega
    rw [lead, if_neg (by omega), if_neg (by omega), if_pos (by omega)]
    simp only [hbits, hfirst, hlast]
  -- the bounds of the second byte keep out overlong forms and surrogates
  have hlower : (if v / 4096 = 0 then 0xA0 else 0x80) ≤ v / 64 % 64 + 0x80 := by split <;> omega
  have hupper : v / 64 % 64 + 0x80 ≤ if v / 4096 = 0xD then 0x9F else 0xBF := by split <;> omega
  have hsum : (v / 4096 * 64 + v / 64 % 64) * 64 + v % 64 = v := by omega
  rw [feed_lead (by omega) hlead, feed_continue hlower hupper (by omega),
    feed_last (by omega) (by omega) rfl, hsum]

theorem feed_four {v : Nat} (hlow : 0xFFFF < v) (hvalid : v < 0x110000) :
    ground.feed [UInt8.ofNat (v / 262144 % 8 + 0xF0), UInt8.ofNat (v / 4096 % 64 + 0x80),
      UInt8.ofNat (v / 64 % 64 + 0x80), UInt8.ofNat (v % 64 + 0x80)] = (ground, [Char.ofNat v]) := by
  have hlead : lead (v / 262144 % 8 + 0xF0) =
      (⟨v / 262144, 0, 3, if v / 262144 = 0 then 0x90 else 0x80, if v / 262144 = 4 then 0x8F else 0xBF⟩,
        []) := by
    have hbits : (v / 262144 % 8 + 0xF0) % 8 = v / 262144 := by omega
    have hfirst : v / 262144 % 8 + 0xF0 = 0xF0 ↔ v / 262144 = 0 := by omega
    have hlast : v / 262144 % 8 + 0xF0 = 0xF4 ↔ v / 262144 = 4 := by omega
    rw [lead, if_neg (by omega), if_neg (by omega), if_neg (by omega), if_pos (by omega)]
    simp only [hbits, hfirst, hlast]
  have hlower : (if v / 262144 = 0 then 0x90 else 0x80) ≤ v / 4096 % 64 + 0x80 := by split <;> omega
  have hupper : v / 4096 % 64 + 0x80 ≤ if v / 262144 = 4 then 0x8F else 0xBF := by split <;> omega
  have hsum : ((v / 262144 * 64 + v / 4096 % 64) * 64 + v / 64 % 64) * 64 + v % 64 = v := by omega
  rw [feed_lead (by omega) hlead, feed_continue hlower hupper (by omega),
    feed_continue (by omega) (by omega) (by omega), feed_last (by omega) (by omega) rfl, hsum]

/-- A character is read back from its bytes. -/
theorem feed_utf8EncodeChar (c : Char) : ground.feed (String.utf8EncodeChar c) = (ground, [c]) := by
  have hvalid : c.val.toNat < 0xD800 ∨ 0xDFFF < c.val.toNat ∧ c.val.toNat < 0x110000 := c.valid
  have hchar : Char.ofNat c.val.toNat = c := Char.ofNat_toNat c
  rw [String.utf8EncodeChar]
  split
  · next hascii =>
      rw [feed_cons, toNat_ofNat_byte (by omega), step_ground, lead, if_pos hascii, hchar]
      rfl
  · next hone =>
      split
      · next htwo => rw [feed_two (by omega) htwo, hchar]
      · next hnot =>
          split
          · next hthree => rw [feed_three (by omega) hthree (by omega), hchar]
          · next hfour => rw [feed_four (by omega) (by omega), hchar]

/-- A text is read back from its bytes. -/
theorem feed_utf8Encode (text : List Char) : ground.feed (utf8Encode text) = (ground, text) := by
  induction text with
  | nil => rfl
  | cons c rest ih =>
    rw [utf8Encode, List.flatMap_cons, feed_append, feed_utf8EncodeChar]
    rw [utf8Encode] at ih
    rw [ih]
    rfl

end Utf8Decoder

/-! ## A whole text at once -/

/-- The bytes from the front on, character by character; a byte that no character starts at is read as the
replacement character by itself. Every round reads a byte, so the length of the bytes is enough fuel. -/
def decodeRunes : Nat → List UInt8 → List Char
  | 0, _ => []
  | _ + 1, [] => []
  | fuel + 1, byte :: rest =>
    match (byte :: rest).toByteArray.utf8DecodeChar? 0 with
    | some c => c :: decodeRunes fuel ((byte :: rest).drop c.utf8Size)
    | none => replacement :: decodeRunes fuel rest

/-- What Go writes into JSON for a string of these bytes. -/
def runes (bytes : List UInt8) : List Char := decodeRunes bytes.length bytes

theorem decodeRunes_utf8Encode (text : List Char) : ∀ fuel, (utf8Encode text).length ≤ fuel →
    decodeRunes fuel (utf8Encode text) = text := by
  induction text with
  | nil =>
    intro fuel _
    cases fuel <;> rfl
  | cons c rest ih =>
    intro fuel hfuel
    have hsplit : utf8Encode (c :: rest) = String.utf8EncodeChar c ++ utf8Encode rest := List.flatMap_cons
    rw [hsplit] at hfuel ⊢
    have hread : (String.utf8EncodeChar c ++ utf8Encode rest).toByteArray.utf8DecodeChar? 0 = some c := by
      rw [List.toByteArray_append']
      exact ByteArray.utf8DecodeChar?_utf8EncodeChar_append
    have hdrop : (String.utf8EncodeChar c ++ utf8Encode rest).drop c.utf8Size = utf8Encode rest := by
      rw [← String.length_utf8EncodeChar, List.drop_left]
    have hpos : 0 < (String.utf8EncodeChar c).length := by
      rw [String.length_utf8EncodeChar]
      exact c.utf8Size_pos
    rw [List.length_append] at hfuel
    cases fuel with
    | zero => omega
    | succ fuel =>
      cases hbytes : String.utf8EncodeChar c ++ utf8Encode rest with
      | nil =>
        rw [List.append_eq_nil_iff] at hbytes
        rw [hbytes.1] at hpos
        exact absurd hpos (by decide)
      | cons byte more =>
        rw [hbytes] at hread hdrop
        rw [decodeRunes, hread]
        simp only [hdrop]
        rw [ih fuel (by omega)]

/-- A text is read back from its bytes. -/
theorem runes_utf8Encode (text : List Char) : runes (utf8Encode text) = text :=
  decodeRunes_utf8Encode text _ (Nat.le_refl _)

/-! ## Chunk by chunk -/

/-- The decoder of a stream: it leaves out one byte order mark in front of everything else. -/
structure TextDecoder where
  decoder : Utf8Decoder
  bomSeen : Bool
  deriving DecidableEq, Repr

namespace TextDecoder

def new : TextDecoder := ⟨Utf8Decoder.ground, false⟩

def byteOrderMark : Char := '\uFEFF'

/-- Characters behind the decoder of bytes. -/
def serialize (bomSeen : Bool) (text : List Char) : Bool × List Char :=
  match bomSeen, text with
  | true, text => (true, text)
  | false, [] => (false, [])
  | false, c :: rest => (true, if c = byteOrderMark then rest else c :: rest)

/-- A chunk with others to come. -/
def decode (d : TextDecoder) (chunk : List UInt8) : TextDecoder × List Char :=
  let (decoder, text) := d.decoder.feed chunk
  let (bomSeen, text) := serialize d.bomSeen text
  (⟨decoder, bomSeen⟩, text)

theorem serialize_append (bomSeen : Bool) (a b : List Char) :
    serialize bomSeen (a ++ b) = ((serialize (serialize bomSeen a).1 b).1,
      (serialize bomSeen a).2 ++ (serialize (serialize bomSeen a).1 b).2) := by
  cases bomSeen with
  | true => simp [serialize]
  | false =>
    cases a with
    | nil => simp [serialize]
    | cons c rest =>
      simp only [serialize, List.cons_append, Prod.mk.injEq, true_and]
      split <;> rfl

theorem decode_append (d : TextDecoder) (a b : List UInt8) :
    d.decode (a ++ b) = (((d.decode a).1.decode b).1, (d.decode a).2 ++ ((d.decode a).1.decode b).2) := by
  simp only [decode, Utf8Decoder.feed_append, serialize_append]

/-- A text that does not begin with a byte order mark is read back from its bytes. -/
theorem decode_utf8Encode {text : List Char} (hbom : text.head? ≠ some byteOrderMark) :
    (new.decode (utf8Encode text)).2 = text := by
  rw [decode, new, Utf8Decoder.feed_utf8Encode]
  cases text with
  | nil => rfl
  | cons c rest =>
    have hc : c ≠ byteOrderMark := fun h => hbom (congrArg some h)
    simp [serialize, hc]

end TextDecoder

end Workbench.Lib
