import Mathlib.Data.List.DropRight
import Mathlib.Tactic

/-!
# Base64 for URLs, without padding

The encoding of RFC 4648 with the alphabet for URLs and no padding. The decoder leaves out carriage
returns and line feeds and does not look at the bits that are left over behind the last byte, so that
several texts decode to the same bytes; what is encoded decodes to itself (`decode_encode`).
-/

set_option autoImplicit false

namespace Workbench.Lib.Base64

/-- The alphabet. -/
def alphabet : List Char :=
  "ABCDEFGHIJKLMNOPQRSTUVWXYZabcdefghijklmnopqrstuvwxyz0123456789-_".toList

/-- The character of six bits. -/
def digit (n : Nat) : Char := alphabet.getD n 'A'

/-- The six bits of a character. -/
def value (c : Char) : Option Nat :=
  let n := alphabet.idxOf c
  if n < 64 then some n else none

def encode : List UInt8 → List Char
  | [] => []
  | [a] => [digit (a.toNat / 4), digit (a.toNat % 4 * 16)]
  | [a, b] =>
    [digit (a.toNat / 4), digit (a.toNat % 4 * 16 + b.toNat / 16), digit (b.toNat % 16 * 4)]
  | a :: b :: c :: rest =>
    digit (a.toNat / 4) :: digit (a.toNat % 4 * 16 + b.toNat / 16) ::
      digit (b.toNat % 16 * 4 + c.toNat / 64) :: digit (c.toNat % 64) :: encode rest

/-- The bytes of a text that holds no line breaks. -/
def decodeDigits : List Nat → Option (List UInt8)
  | [] => some []
  | [_] => none
  | [x, y] => some [UInt8.ofNat (x * 4 + y / 16)]
  | [x, y, z] => some [UInt8.ofNat (x * 4 + y / 16), UInt8.ofNat (y % 16 * 16 + z / 4)]
  | x :: y :: z :: w :: rest =>
    (decodeDigits rest).map fun more =>
      UInt8.ofNat (x * 4 + y / 16) :: UInt8.ofNat (y % 16 * 16 + z / 4) ::
        UInt8.ofNat (z % 4 * 64 + w) :: more

def isBreak (c : Char) : Bool := c = '\r' || c = '\n'

def decode (text : List Char) : Option (List UInt8) :=
  ((text.filter fun c => !isBreak c).mapM value).bind decodeDigits

/-! ## With padding -/

/-- The six bits of a character of the standard alphabet. -/
def stdValue (c : Char) : Option Nat :=
  if c = '+' then some 62
  else if c = '/' then some 63
  else (value c).filter (· < 62)

/-- The decoder of the standard encoding: whole groups of four, the last one padded. -/
def decodeStd (text : List Char) : Option (List UInt8) :=
  let text := text.filter fun c => !isBreak c
  let digits := text.rdropWhile (· = '=')
  if text.length % 4 ≠ 0 ∨ 2 < text.length - digits.length then none
  else (digits.mapM stdValue).bind decodeDigits

/-! ## The round trip -/

theorem value_digit {n : Nat} (h : n < 64) : value (digit n) = some n := by
  have hall : ∀ k : Fin 64, value (digit k) = some k.val := by decide +kernel
  exact hall ⟨n, h⟩

theorem digit_plain {n : Nat} (h : n < 64) : isBreak (digit n) = false ∧ digit n ≠ '.' := by
  have hall : ∀ k : Fin 64, isBreak (digit k) = false ∧ digit k ≠ '.' := by decide +kernel
  exact hall ⟨n, h⟩

/-- The digits of an encoded text. -/
def digits : List UInt8 → List Nat
  | [] => []
  | [a] => [a.toNat / 4, a.toNat % 4 * 16]
  | [a, b] => [a.toNat / 4, a.toNat % 4 * 16 + b.toNat / 16, b.toNat % 16 * 4]
  | a :: b :: c :: rest =>
    a.toNat / 4 :: (a.toNat % 4 * 16 + b.toNat / 16) :: (b.toNat % 16 * 4 + c.toNat / 64) ::
      c.toNat % 64 :: digits rest

section

attribute [local simp] encode decodeDigits digits

theorem encode_eq_map (bytes : List UInt8) : encode bytes = (digits bytes).map digit := by
  induction bytes using encode.induct with
  | case1 => rfl
  | case2 a => rfl
  | case3 a b => rfl
  | case4 a b c rest ih => simp only [encode, digits, List.map_cons, ih]

theorem digits_lt (bytes : List UInt8) : ∀ n ∈ digits bytes, n < 64 := by
  induction bytes using digits.induct with
  | case1 => simp [digits]
  | case2 a =>
    have ha := a.toNat_lt
    simp only [digits, List.mem_cons, List.not_mem_nil, or_false, forall_eq_or_imp, forall_eq]
    omega
  | case3 a b =>
    have ha := a.toNat_lt
    have hb := b.toNat_lt
    simp only [digits, List.mem_cons, List.not_mem_nil, or_false, forall_eq_or_imp, forall_eq]
    omega
  | case4 a b c rest ih =>
    have ha := a.toNat_lt
    have hb := b.toNat_lt
    have hc := c.toNat_lt
    simp only [digits, List.mem_cons, forall_eq_or_imp]
    refine ⟨by omega, by omega, by omega, by omega, ih⟩

theorem decodeDigits_digits (bytes : List UInt8) : decodeDigits (digits bytes) = some bytes := by
  have hback (a : UInt8) {n : Nat} (h : n = a.toNat) : UInt8.ofNat n = a := by
    rw [h, UInt8.ofNat_toNat]
  induction bytes using digits.induct with
  | case1 => rfl
  | case2 a =>
    rw [digits, decodeDigits, hback a (by omega)]
  | case3 a b =>
    have hb := b.toNat_lt
    rw [digits, decodeDigits, hback a (by omega), hback b (by omega)]
  | case4 a b c rest ih =>
    have hb := b.toNat_lt
    have hc := c.toNat_lt
    rw [digits, decodeDigits, ih, Option.map_some, hback a (by omega), hback b (by omega),
      hback c (by omega)]

end

theorem mapM_value {ns : List Nat} (h : ∀ n ∈ ns, n < 64) : (ns.map digit).mapM value = some ns := by
  induction ns with
  | nil => rfl
  | cons n rest ih =>
    rw [List.forall_mem_cons] at h
    rw [List.map_cons, List.mapM_cons, value_digit h.1, ih h.2]
    rfl

/-- An encoded text has no dot and no line break. -/
theorem encode_plain (bytes : List UInt8) :
    ∀ c ∈ encode bytes, isBreak c = false ∧ c ≠ '.' := by
  intro c hc
  rw [encode_eq_map] at hc
  obtain ⟨n, hn, rfl⟩ := List.mem_map.1 hc
  exact digit_plain (digits_lt bytes n hn)

/-- **What is encoded decodes to itself.** -/
theorem decode_encode (bytes : List UInt8) : decode (encode bytes) = some bytes := by
  have hfilter : (encode bytes).filter (fun c => !isBreak c) = encode bytes := by
    apply List.filter_eq_self.2
    intro c hc
    rw [(encode_plain bytes c hc).1]
    rfl
  rw [decode, hfilter, encode_eq_map, mapM_value (digits_lt bytes)]
  exact decodeDigits_digits bytes

/-- Six bits a character, the last one filled up. -/
theorem length_encode (bytes : List UInt8) : (encode bytes).length = (8 * bytes.length + 5) / 6 := by
  induction bytes using encode.induct with
  | case1 => rfl
  | case2 a => simp [encode]
  | case3 a b => simp [encode]
  | case4 a b c rest ih =>
    rw [encode, List.length_cons, List.length_cons, List.length_cons, List.length_cons, ih, List.length_cons,
      List.length_cons, List.length_cons]
    omega

end Workbench.Lib.Base64
