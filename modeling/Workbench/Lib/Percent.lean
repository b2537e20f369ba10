import Mathlib.Data.List.Basic
import Workbench.Lib.Utf8

/-!
# Percent-encoding

Bytes that are written as they are or by their hexadecimal digits, read back in front of anything. Which bytes are kept
is a parameter; no other byte but the percent sign and digits comes out.
-/

set_option autoImplicit false

namespace Workbench.Lib

namespace Bytes

/-- What holds of the bytes of a list is decided by going through the list. -/
scoped instance (priority := 2000) decidableForallMem (p : UInt8 → Prop) [DecidablePred p] (x : List UInt8) :
    Decidable (∀ b ∈ x, p b) :=
  List.decidableBAll p x

end Bytes

/-- The byte of an ASCII character. -/
def byteOf (c : Char) : UInt8 := UInt8.ofNat c.toNat

/-- The bytes of an ASCII text. -/
def ascii (text : List Char) : List UInt8 := text.map byteOf

/-! ## ASCII characters of a text -/

theorem utf8EncodeChar_ascii {c : Char} (h : c.toNat < 128) : String.utf8EncodeChar c = [byteOf c] := by
  have hval : c.val.toNat ≤ 0x7F := by
    have hle : c.val.toNat < 128 := h
    omega
  rw [String.utf8EncodeChar]
  rw [if_pos hval]
  rfl

/-- The bytes of any other character are none of ASCII. -/
theorem le_of_mem_utf8EncodeChar {c : Char} (h : 128 ≤ c.toNat) {b : UInt8} (hb : b ∈ String.utf8EncodeChar c) :
    128 ≤ b.toNat := by
  have hbyte : ∀ x m k : Nat, 0 < m → m + k ≤ 256 → 128 ≤ k → 128 ≤ (UInt8.ofNat (x % m + k)).toNat := by
    intro x m k hm hbound hk
    have hlt : x % m < m := Nat.mod_lt x hm
    rw [Utf8Decoder.toNat_ofNat_byte (by omega)]
    omega
  have hval : ¬c.val.toNat ≤ 127 := by
    have hle : 128 ≤ c.val.toNat := h
    omega
  rw [String.utf8EncodeChar, if_neg hval] at hb
  split_ifs at hb
  · simp only [List.mem_cons, List.not_mem_nil, or_false] at hb
    rcases hb with rfl | rfl
    · exact hbyte _ _ _ (by decide) (by decide) (by decide)
    · exact hbyte _ _ _ (by decide) (by decide) (by decide)
  · simp only [List.mem_cons, List.not_mem_nil, or_false] at hb
    rcases hb with rfl | rfl | rfl
    all_goals exact hbyte _ _ _ (by decide) (by decide) (by decide)
  · simp only [List.mem_cons, List.not_mem_nil, or_false] at hb
    rcases hb with rfl | rfl | rfl | rfl
    all_goals exact hbyte _ _ _ (by decide) (by decide) (by decide)

theorem toNat_byteOf {c : Char} (h : c.toNat < 128) : (byteOf c).toNat = c.toNat :=
  Utf8Decoder.toNat_ofNat_byte (by omega)

/-- An ASCII character is in a text just if its byte is in the bytes of the text. -/
theorem byteOf_mem_utf8Encode {c : Char} (hc : c.toNat < 128) (text : List Char) :
    byteOf c ∈ utf8Encode text ↔ c ∈ text := by
  have hchar : ∀ d : Char, byteOf c ∈ String.utf8EncodeChar d ↔ d = c := by
    intro d
    -- A character of ASCII is one byte, and the bytes of any other are none of ASCII.
    rcases Nat.lt_or_ge d.toNat 128 with hd | hd
    · rw [utf8EncodeChar_ascii hd, List.mem_singleton]
      constructor
      · intro hbyte
        have hcode := congrArg UInt8.toNat hbyte
        rw [toNat_byteOf hc, toNat_byteOf hd] at hcode
        rw [← Char.ofNat_toNat d, ← hcode, Char.ofNat_toNat]
      · rintro rfl
        rfl
    · refine iff_of_false (fun hmem => ?_) ?_
      · have hle := le_of_mem_utf8EncodeChar hd hmem
        rw [toNat_byteOf hc] at hle
        omega
      · rintro rfl
        omega
  rw [utf8Encode, List.mem_flatMap]
  constructor
  · rintro ⟨d, hd, hmem⟩
    rw [← (hchar d).1 hmem]
    exact hd
  · intro hmem
    exact ⟨c, hmem, (hchar c).2 rfl⟩

theorem utf8Encode_eq_nil {text : List Char} : utf8Encode text = [] ↔ text = [] := by
  cases text with
  | nil => exact iff_of_true rfl rfl
  | cons c rest =>
    refine iff_of_false (fun h => ?_) (List.cons_ne_nil c rest)
    rw [utf8Encode, List.flatMap_cons, List.append_eq_nil_iff] at h
    exact String.utf8EncodeChar_ne_nil h.1

/-! ## Encoding -/

def percent : UInt8 := byteOf '%'

/-- A hexadecimal digit. -/
def hexByte (n : Nat) : UInt8 := if n < 10 then UInt8.ofNat (48 + n) else UInt8.ofNat (55 + n)

def unhex (b : UInt8) : Option Nat :=
  if 48 ≤ b.toNat ∧ b.toNat ≤ 57 then some (b.toNat - 48)
  else if 65 ≤ b.toNat ∧ b.toNat ≤ 70 then some (b.toNat - 55)
  else if 97 ≤ b.toNat ∧ b.toNat ≤ 102 then some (b.toNat - 87)
  else none

def encodeByte (keep : UInt8 → Bool) (b : UInt8) : List UInt8 :=
  if keep b then [b] else [percent, hexByte (b.toNat / 16), hexByte (b.toNat % 16)]

/-- The bytes that are kept stand for themselves. -/
def percentEncode (keep : UInt8 → Bool) (s : List UInt8) : List UInt8 := s.flatMap (encodeByte keep)

/-- A percent sign without two digits behind it is an error. -/
def percentDecode : List UInt8 → Option (List UInt8)
  | [] => some []
  | b :: rest =>
    if b = percent then
      match rest with
      | high :: low :: more => do
        let h ← unhex high
        let l ← unhex low
        let text ← percentDecode more
        some (UInt8.ofNat (16 * h + l) :: text)
      | _ => none
    else (percentDecode rest).map (List.cons b)

theorem unhex_hexByte {n : Nat} (h : n < 16) : unhex (hexByte n) = some n := by
  have hall : ∀ m < 16, unhex (hexByte m) = some m := by decide
  exact hall n h

/-- Any other byte than the percent sign is read as it is. -/
theorem percentDecode_kept {b : UInt8} (hb : b ≠ percent) (rest : List UInt8) :
    percentDecode (b :: rest) = (percentDecode rest).map (List.cons b) := by
  rcases rest with _ | ⟨high, _ | ⟨low, more⟩⟩
  · simp [percentDecode, hb]
  · simp [percentDecode, hb]
  · simp [percentDecode, hb]

section

variable {keep : UInt8 → Bool} (hkeep : keep percent = false)

include hkeep

theorem percentDecode_encodeByte (b : UInt8) (rest : List UInt8) :
    percentDecode (encodeByte keep b ++ rest) = (percentDecode rest).map (List.cons b) := by
  rw [encodeByte]
  split_ifs with hb
  · have hne : b ≠ percent := by
      rintro rfl
      rw [hkeep] at hb
      cases hb
    exact percentDecode_kept hne rest
  · have hbyte : b.toNat < 256 := b.toNat_lt
    have hsplit : 16 * (b.toNat / 16) + b.toNat % 16 = b.toNat := Nat.div_add_mod _ _
    rw [List.cons_append, List.cons_append, List.cons_append, List.nil_append, percentDecode, if_pos rfl]
    simp only [unhex_hexByte (show b.toNat / 16 < 16 by omega), unhex_hexByte (show b.toNat % 16 < 16 by omega),
      Option.bind_eq_bind, Option.bind_some, hsplit, UInt8.ofNat_toNat]
    cases percentDecode rest with
    | none => rfl
    | some text => rfl

theorem percentDecode_append (s rest : List UInt8) :
    percentDecode (percentEncode keep s ++ rest) = (percentDecode rest).map (s ++ ·) := by
  induction s with
  | nil => simp [percentEncode]
  | cons b more ih =>
    rw [percentEncode, List.flatMap_cons, List.append_assoc, percentDecode_encodeByte hkeep, ← percentEncode, ih,
      Option.map_map]
    rfl

/-- **What is encoded is read back.** -/
theorem percentDecode_percentEncode (s : List UInt8) : percentDecode (percentEncode keep s) = some s := by
  have happend := percentDecode_append hkeep s []
  rw [List.append_nil] at happend
  rw [happend, percentDecode, Option.map_some, List.append_nil]

end

/-- The bytes that come out. -/
theorem mem_percentEncode {keep : UInt8 → Bool} {s : List UInt8} {b : UInt8} (h : b ∈ percentEncode keep s) :
    (keep b = true ∧ b ∈ s) ∨ b = percent ∨ ∃ n < 16, b = hexByte n := by
  obtain ⟨a, ha, hb⟩ := List.mem_flatMap.1 h
  rw [encodeByte] at hb
  split_ifs at hb with hkeep
  · rw [List.mem_singleton.1 hb]
    exact Or.inl ⟨hkeep, ha⟩
  · have hbyte : a.toNat < 256 := a.toNat_lt
    simp only [List.mem_cons, List.not_mem_nil, or_false] at hb
    rcases hb with rfl | rfl | rfl
    · exact Or.inr (Or.inl rfl)
    · exact Or.inr (Or.inr ⟨_, by omega, rfl⟩)
    · exact Or.inr (Or.inr ⟨_, Nat.mod_lt _ (by decide), rfl⟩)

/-- A byte that is no digit comes out only if it is kept. -/
theorem not_mem_percentEncode {keep : UInt8 → Bool} {b : UInt8} (hkeep : keep b = false) (hpercent : b ≠ percent)
    (hhex : ∀ n < 16, b ≠ hexByte n) (s : List UInt8) : b ∉ percentEncode keep s := by
  intro hmem
  rcases mem_percentEncode hmem with ⟨hkept, -⟩ | heq | ⟨n, hn, heq⟩
  · rw [hkeep] at hkept
    cases hkept
  · exact hpercent heq
  · exact hhex n hn heq

/-! ## What `net/url` keeps -/

def isUnreserved (b : UInt8) : Bool :=
  (48 ≤ b.toNat && b.toNat ≤ 57) || (65 ≤ b.toNat && b.toNat ≤ 90) || (97 ≤ b.toNat && b.toNat ≤ 122) ||
    (ascii "-_.~".toList).contains b

/-- What is kept besides the unreserved bytes. -/
def keepAlso (others : List Char) (b : UInt8) : Bool := isUnreserved b || (ascii others).contains b

/-- `url.QueryEscape`. -/
def queryEscape (s : List UInt8) : List UInt8 :=
  s.flatMap fun b => if b = byteOf ' ' then [byteOf '+'] else encodeByte isUnreserved b

/-- `url.QueryUnescape`. -/
def queryUnescape (s : List UInt8) : Option (List UInt8) :=
  percentDecode (s.map fun b => if b = byteOf '+' then byteOf ' ' else b)

/-- A mark comes out only if it stands for a blank or is kept. -/
theorem not_mem_queryEscape {b : UInt8} (hplus : b ≠ byteOf '+') (hkeep : isUnreserved b = false)
    (hpercent : b ≠ percent) (hhex : ∀ n < 16, b ≠ hexByte n) (s : List UInt8) : b ∉ queryEscape s := by
  intro hmem
  obtain ⟨a, -, hb⟩ := List.mem_flatMap.1 hmem
  split_ifs at hb
  · exact hplus (List.mem_singleton.1 hb)
  · refine not_mem_percentEncode hkeep hpercent hhex [a] ?_
    rwa [percentEncode, List.flatMap_singleton]

/-- **A value of a query is read back.** -/
theorem queryUnescape_queryEscape (s : List UInt8) : queryUnescape (queryEscape s) = some s := by
  induction s with
  | nil => rfl
  | cons b rest ih =>
    rw [queryUnescape] at ih ⊢
    rw [queryEscape, List.flatMap_cons, List.map_append, ← queryEscape]
    split_ifs with hblank
    · -- A blank is written as a plus sign.
      rw [List.map_singleton, if_pos rfl, List.singleton_append, percentDecode_kept (by decide), ih, hblank]
      rfl
    · -- There is no plus sign that would stand for a blank.
      have hplus : byteOf '+' ∉ encodeByte isUnreserved b := by
        have hnot : byteOf '+' ∉ percentEncode isUnreserved [b] :=
          not_mem_percentEncode (by decide) (by decide) (by decide) [b]
        rwa [percentEncode, List.flatMap_singleton] at hnot
      have hsame : (encodeByte isUnreserved b).map (fun b => if b = byteOf '+' then byteOf ' ' else b) =
          encodeByte isUnreserved b := by
        refine (List.map_congr_left fun a ha => if_neg ?_).trans (List.map_id _)
        rintro rfl
        exact hplus ha
      rw [hsame, percentDecode_encodeByte (by decide), ih]
      rfl

end Workbench.Lib
