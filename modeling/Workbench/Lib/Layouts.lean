import Mathlib.Data.List.Basic
import Mathlib.Data.List.Induction
import Mathlib.Tactic.Ring

/-!
# Times by layouts

What the `Parse` of Go's package time makes of a text, for layouts of year, month, day, hour, minute, second, a fraction
of nines and a zone; and the days of the proleptic Gregorian calendar. A text is read chunk by chunk. A fraction may
have any number of digits, of which nine count, and it is also read where the layout has none.
-/

set_option autoImplicit false

namespace Workbench.Lib.Layouts

/-! ## The calendar -/

def isLeap (year : Nat) : Bool := year % 4 = 0 && (year % 100 ≠ 0 || year % 400 = 0)

def daysIn (month year : Nat) : Nat :=
  if month = 2 then if isLeap year then 29 else 28
  else if month = 4 ∨ month = 6 ∨ month = 9 ∨ month = 11 then 30
  else 31

/-- The days of the years from 0 up to a year. -/
def daysBeforeYear (year : Nat) : Nat := 365 * year + (year + 3) / 4 - (year + 99) / 100 + (year + 399) / 400

def daysBeforeMonth (month year : Nat) : Nat := ((List.range (month - 1)).map fun i => daysIn (i + 1) year).sum

/-- A day, counted from the first of January 1970. -/
def dayNumber (year month day : Nat) : Int :=
  (daysBeforeYear year + daysBeforeMonth month year + (day - 1) : Nat) - 719528

/-- A time of a day on a clock, in seconds. -/
def clockSeconds (day : Int) (hour minute second : Nat) : Int :=
  day * 86400 + ((hour * 60 + minute) * 60 + second : Nat)

/-! ## Layouts -/

inductive Chunk where
  | year
  | month
  | monthName
  | day
  | hour
  | minute
  | second
  | fraction
  | zone
  | numZone
  | literal (c : Char)
  deriving DecidableEq, Repr

/-- The words of the reference time. -/
def words : List (List Char × Chunk) :=
  [("2006".toList, .year), ("01".toList, .month), ("Jan".toList, .monthName), ("02".toList, .day), ("15".toList, .hour),
    ("04".toList, .minute), ("05".toList, .second), ("Z07:00".toList, .zone), ("-0700".toList, .numZone)]

/-- The nines of a fraction behind a point, if no other digit follows. -/
def nines (rest : List Char) : Nat :=
  if (rest.dropWhile fun c => c = '9').head?.any Char.isDigit then 0 else (rest.takeWhile fun c => c = '9').length

/-- The chunks of a layout behind some characters that are read already. -/
def chunksFrom : Nat → List Char → List Chunk
  | _, [] => []
  | skip + 1, _ :: rest => chunksFrom skip rest
  | 0, c :: rest =>
    match words.find? fun w => w.1.isPrefixOf (c :: rest) with
    | some w => w.2 :: chunksFrom (w.1.length - 1) rest
    | none =>
      if c = '.' ∧ nines rest ≠ 0 then .fraction :: chunksFrom (nines rest) rest
      else .literal c :: chunksFrom 0 rest

def chunks (layout : List Char) : List Chunk := chunksFrom 0 layout

/-! ## Reading -/

/-- What is read so far; without a zone the offset is none. -/
structure Fields where
  year : Nat
  month : Nat
  day : Nat
  hour : Nat
  minute : Nat
  second : Nat
  nanosecond : Nat
  offset : Option Int
  deriving DecidableEq, Repr

def start : Fields := ⟨0, 1, 1, 0, 0, 0, 0, none⟩

/-- A number of two digits, or of one where that is not fixed. -/
def getnum (fixed : Bool) : List Char → Option (Nat × List Char)
  | [] => none
  | [c] => if c.isDigit && !fixed then some (Nat.ofDigitChars 10 [c] 0, []) else none
  | c :: d :: rest =>
    if !c.isDigit then none
    else if d.isDigit then some (Nat.ofDigitChars 10 [c, d] 0, rest)
    else if fixed then none
    else some (Nat.ofDigitChars 10 [c] 0, d :: rest)

def isFraction : List Char → Bool
  | point :: c :: _ => (point = '.' || point = ',') && c.isDigit
  | _ => false

/-- The nanoseconds of the digits of a fraction. -/
def nanoseconds (digits : List Char) : Nat := Nat.ofDigitChars 10 (digits.take 9) 0 * 10 ^ (9 - (digits.take 9).length)

def readFraction (f : Fields) (value : List Char) : Fields × List Char :=
  ({ f with nanosecond := nanoseconds (value.tail.takeWhile Char.isDigit) }, value.tail.dropWhile Char.isDigit)

/-- A sign with the two numbers of an offset, behind which the text goes on. -/
def readOffset (f : Fields) (sign : Char) (hour minute rest : List Char) : Option (Fields × List Char) :=
  match getnum true hour, getnum true minute with
  | some (hr, _), some (mm, _) =>
    if hr > 24 ∨ mm > 60 then none
    else if sign = '+' then some ({ f with offset := some ((hr * 60 + mm) * 60) }, rest)
    else if sign = '-' then some ({ f with offset := some (-((hr * 60 + mm) * 60)) }, rest)
    else none
  | _, _ => none

def monthNames : List (List Char) :=
  ["jan", "feb", "mar", "apr", "may", "jun", "jul", "aug", "sep", "oct", "nov", "dec"].map String.toList

/-- A blank of the layout stands for any number of them. -/
def skip (c : Char) (value : List Char) : Option (List Char) :=
  if c = ' ' then
    if value.head?.any fun d => d ≠ ' ' then none else some (value.dropWhile fun d => d = ' ')
  else if value.head? = some c then some value.tail
  else none

/-- The next chunk that is no literal. -/
def nextChunk (rest : List Chunk) : Option Chunk := rest.find? fun chunk => match chunk with
  | .literal _ => false
  | _ => true

/-- A number that has to be below a bound. -/
def readBelow (fixed : Bool) (bound : Nat) (value : List Char) (set : Nat → Fields) : Option (Fields × List Char) :=
  match getnum fixed value with
  | some (n, rest) => if n < bound then some (set n, rest) else none
  | none => none

def readChunk (later : List Chunk) (f : Fields) (value : List Char) : Chunk → Option (Fields × List Char)
  | .year =>
    if value.length < 4 ∨ (value.take 4).all Char.isDigit = false then none
    else some ({ f with year := Nat.ofDigitChars 10 (value.take 4) 0 }, value.drop 4)
  | .month =>
    match getnum true value with
    | some (n, rest) => if 1 ≤ n ∧ n ≤ 12 then some ({ f with month := n }, rest) else none
    | none => none
  | .monthName =>
    if monthNames.contains ((value.take 3).map Char.toLower) then
      some ({ f with month := monthNames.idxOf ((value.take 3).map Char.toLower) + 1 }, value.drop 3)
    else none
  | .day => (getnum true value).map fun (n, rest) => ({ f with day := n }, rest)
  | .hour => readBelow false 24 value fun n => { f with hour := n }
  | .minute => readBelow true 60 value fun n => { f with minute := n }
  | .second =>
    match readBelow true 60 value fun n => { f with second := n } with
    | some (g, rest) =>
      if isFraction rest && nextChunk later ≠ some .fraction then some (readFraction g rest) else some (g, rest)
    | none => none
  | .fraction => some (if isFraction value then readFraction f value else (f, value))
  | .zone =>
    if value.head? = some 'Z' then some ({ f with offset := some 0 }, value.tail)
    else if value.length < 6 ∨ value[3]? ≠ some ':' then none
    else readOffset f (value.headD ' ') ((value.drop 1).take 2) ((value.drop 4).take 2) (value.drop 6)
  | .numZone =>
    if value.length < 5 then none
    else readOffset f (value.headD ' ') ((value.drop 1).take 2) ((value.drop 3).take 2) (value.drop 5)
  | .literal c => (skip c value).map fun rest => (f, rest)

def readChunks : List Chunk → Fields → List Char → Option (Fields × List Char)
  | [], f, value => some (f, value)
  | chunk :: later, f, value => (readChunk later f value chunk).bind fun (g, rest) => readChunks later g rest

/-- The milliseconds from 1970 on of what is read; `zone` gives the seconds for a clock without an offset. -/
def unixMilli (zone : Int → Int) (f : Fields) : Option Int :=
  if f.day < 1 ∨ daysIn f.month f.year < f.day then none
  else
    let clock := clockSeconds (dayNumber f.year f.month f.day) f.hour f.minute f.second
    let seconds := match f.offset with
      | some offset => clock - offset
      | none => zone clock
    some (seconds * 1000 + (f.nanosecond / 1000000 : Nat))

/-- `time.ParseInLocation` in Unix milliseconds, and `time.Parse` where the zone changes nothing. -/
def parse (zone : Int → Int) (layout value : List Char) : Option Int :=
  (readChunks (chunks layout) start value).bind fun (f, rest) => if rest ≠ [] then none else unixMilli zone f

/-! ## Numbers of a fixed width -/

/-- A text of so many digits. -/
structure Digits (n : Nat) where
  text : List Char
  length : text.length = n
  digits : ∀ c ∈ text, c.isDigit = true

namespace Digits

variable {n : Nat}

def value (d : Digits n) : Nat := Nat.ofDigitChars 10 d.text 0

end Digits

theorem getnum_digits (d : Digits 2) (fixed : Bool) (rest : List Char) :
    getnum fixed (d.text ++ rest) = some (d.value, rest) := by
  obtain ⟨text, hlength, hdigits⟩ := d
  obtain ⟨a, b, rfl⟩ := List.length_eq_two.1 hlength
  have ha := hdigits a (by simp)
  have hb := hdigits b (by simp)
  simp [getnum, ha, hb, Digits.value]

theorem readChunk_year (later : List Chunk) (f : Fields) (d : Digits 4) (rest : List Char) :
    readChunk later f (d.text ++ rest) .year = some ({ f with year := d.value }, rest) := by
  have htake : (d.text ++ rest).take 4 = d.text := List.take_left' d.length
  have hdrop : (d.text ++ rest).drop 4 = rest := List.drop_left' d.length
  have hall : d.text.all Char.isDigit = true := List.all_eq_true.2 d.digits
  rw [readChunk, if_neg, htake, hdrop]
  · rfl
  · rw [htake, hall, List.length_append, d.length]
    simp

theorem readChunk_month (later : List Chunk) (f : Fields) (d : Digits 2) (rest : List Char)
    (h : 1 ≤ d.value ∧ d.value ≤ 12) :
    readChunk later f (d.text ++ rest) .month = some ({ f with month := d.value }, rest) := by
  rw [readChunk, getnum_digits]
  exact if_pos h

theorem readChunk_day (later : List Chunk) (f : Fields) (d : Digits 2) (rest : List Char) :
    readChunk later f (d.text ++ rest) .day = some ({ f with day := d.value }, rest) := by
  rw [readChunk, getnum_digits]
  rfl

theorem readBelow_digits (fixed : Bool) {bound : Nat} (d : Digits 2) (rest : List Char) (set : Nat → Fields)
    (h : d.value < bound) : readBelow fixed bound (d.text ++ rest) set = some (set d.value, rest) := by
  rw [readBelow, getnum_digits]
  exact if_pos h

theorem readChunk_hour (later : List Chunk) (f : Fields) (d : Digits 2) (rest : List Char) (h : d.value < 24) :
    readChunk later f (d.text ++ rest) .hour = some ({ f with hour := d.value }, rest) :=
  readBelow_digits false d rest _ h

theorem readChunk_minute (later : List Chunk) (f : Fields) (d : Digits 2) (rest : List Char) (h : d.value < 60) :
    readChunk later f (d.text ++ rest) .minute = some ({ f with minute := d.value }, rest) :=
  readBelow_digits true d rest _ h

/-- The seconds in front of what is no fraction, or of one that the layout has. -/
theorem readChunk_second (later : List Chunk) (f : Fields) (d : Digits 2) (rest : List Char) (h : d.value < 60)
    (hnext : isFraction rest = false ∨ nextChunk later = some .fraction) :
    readChunk later f (d.text ++ rest) .second = some ({ f with second := d.value }, rest) := by
  rw [readChunk, readBelow_digits true d rest _ h]
  refine if_neg ?_
  rcases hnext with hnone | hfraction
  · simp [hnone]
  · simp [hfraction]

theorem readChunk_literal (later : List Chunk) (f : Fields) {c : Char} (h : c ≠ ' ') (rest : List Char) :
    readChunk later f (c :: rest) (.literal c) = some (f, rest) := by
  simp [readChunk, skip, h]

/-! ## The fraction of a second -/

theorem isFraction_digits {digits : List Char} (hne : digits ≠ []) (hdigits : ∀ c ∈ digits, c.isDigit = true)
    (rest : List Char) : isFraction ('.' :: (digits ++ rest)) = true := by
  cases digits with
  | nil => exact absurd rfl hne
  | cons c more =>
    have hc := hdigits c List.mem_cons_self
    simp [isFraction, hc]

theorem readFraction_digits (f : Fields) {digits rest : List Char} (hdigits : ∀ c ∈ digits, c.isDigit = true)
    (hrest : ∀ c ∈ rest.head?, c.isDigit = false) :
    readFraction f ('.' :: (digits ++ rest)) = ({ f with nanosecond := nanoseconds digits }, rest) := by
  have hstop : rest.takeWhile Char.isDigit = [] ∧ rest.dropWhile Char.isDigit = rest := by
    cases rest with
    | nil => exact ⟨rfl, rfl⟩
    | cons c more =>
      have hc := hrest c rfl
      simp [hc]
  rw [readFraction, List.tail_cons, List.takeWhile_append_of_pos hdigits, List.dropWhile_append_of_pos hdigits,
    hstop.1, hstop.2, List.append_nil]

theorem ofDigitChars_append_ten (a b : List Char) :
    Nat.ofDigitChars 10 (a ++ b) 0 = Nat.ofDigitChars 10 a 0 * 10 ^ b.length + Nat.ofDigitChars 10 b 0 := by
  rw [Nat.ofDigitChars_append, Nat.ofDigitChars_eq_ofDigitChars_zero, Nat.mul_comm]

theorem ofDigitChars_lt {digits : List Char} (hdigits : ∀ c ∈ digits, c.isDigit = true) :
    Nat.ofDigitChars 10 digits 0 < 10 ^ digits.length := by
  induction digits using List.reverseRecOn with
  | nil => exact Nat.one_pos
  | append_singleton front c ih =>
    have hfront := ih fun d hd => hdigits d (List.mem_append_left _ hd)
    have hc := hdigits c (by simp)
    have hlast : Nat.ofDigitChars 10 [c] 0 < 10 := by
      have hbounds : 48 ≤ c.toNat ∧ c.toNat ≤ 57 := by
        simpa [Char.isDigit, UInt32.le_iff_toNat_le] using hc
      have hzero : '0'.toNat = 48 := rfl
      rw [Nat.ofDigitChars_cons, Nat.ofDigitChars_nil, hzero]
      omega
    rw [ofDigitChars_append_ten, List.length_append, List.length_singleton]
    omega

/-- The digits behind the ninth do not count for the milliseconds. -/
theorem nanoseconds_div {digits : List Char} (hdigits : ∀ c ∈ digits, c.isDigit = true) :
    nanoseconds digits / 1000000 = 1000 * Nat.ofDigitChars 10 digits 0 / 10 ^ digits.length := by
  by_cases hshort : digits.length ≤ 9
  · -- the missing digits are zeros
    have hsplit : 10 ^ digits.length * 10 ^ (9 - digits.length) = 1000 * 1000000 := by
      rw [← Nat.pow_add, Nat.add_sub_cancel' hshort]
    have hscale := Nat.mul_div_mul_right (1000 * Nat.ofDigitChars 10 digits 0) (10 ^ digits.length)
      (Nat.pow_pos (n := 9 - digits.length) (show 0 < 10 by decide))
    rw [hsplit, Nat.mul_assoc, Nat.mul_div_mul_left _ _ (show 0 < 1000 by decide)] at hscale
    rw [nanoseconds, List.take_of_length_le hshort]
    exact hscale
  · have hlong : 9 ≤ digits.length := Nat.le_of_not_le hshort
    have htake : (digits.take 9).length = 9 := by
      rw [List.length_take, Nat.min_eq_left hlong]
    have hdrop : (digits.drop 9).length = digits.length - 9 := List.length_drop
    have hvalue := ofDigitChars_append_ten (digits.take 9) (digits.drop 9)
    have hlast : ∀ c ∈ digits.drop 9, c.isDigit = true := fun c hc => hdigits c (List.mem_of_mem_drop hc)
    have hrest := ofDigitChars_lt hlast
    rw [List.take_append_drop, hdrop] at hvalue
    rw [hdrop] at hrest
    have hpow : 10 ^ digits.length = 1000 * (10 ^ (digits.length - 9) * 1000000) := by
      have hsum : digits.length = (digits.length - 9) + 9 := by omega
      rw [hsum, Nat.pow_add, Nat.add_sub_cancel]
      ring
    have hwhole : Nat.ofDigitChars 10 digits 0 / 10 ^ (digits.length - 9) =
        Nat.ofDigitChars 10 (digits.take 9) 0 := by
      rw [hvalue, Nat.mul_comm, Nat.mul_add_div (Nat.pow_pos (by decide)), Nat.div_eq_of_lt hrest, Nat.add_zero]
    rw [nanoseconds, htake, hpow, Nat.mul_div_mul_left _ _ (show 0 < 1000 by decide), ← Nat.div_div_eq_div_mul, hwhole,
      Nat.sub_self, Nat.pow_zero, Nat.mul_one]

end Workbench.Lib.Layouts
