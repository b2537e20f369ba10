import Workbench.Lib.Double
import Workbench.Lib.Table
import Workbench.Web.Normalize

/-!
# Cells in the front end

The value functions of `web/src/features/table/tableMutations.ts`. A cell of a result is what
`JSON.parse` makes of it: null, a truth value, a number or a string. `undefined` is what reading a missing
cell or property gives.
-/

set_option autoImplicit false

namespace Workbench.Table

open Workbench.Lib Workbench.Web

inductive Cell where
  | undefined
  | null
  | bool (b : Bool)
  | number (x : Number)
  | string (s : Text)
  deriving DecidableEq

namespace Cell

/-- `String(value)`. -/
def text : Cell → Text
  | undefined => "undefined".toList
  | null => "null".toList
  | bool true => "true".toList
  | bool false => "false".toList
  | number x => x.text
  | string s => s

/-- `value == null`. -/
def isNullish : Cell → Bool
  | undefined => true
  | null => true
  | _ => false

/-- `left === right`; no cell is `NaN`. -/
def strictEqual : Cell → Cell → Bool
  | undefined, undefined => true
  | null, null => true
  | bool a, bool b => a == b
  | number x, number y => x.same y
  | string s, string t => s == t
  | _, _ => false

/-- Equal as typed values, where a missing value is null. -/
def sameTyped (left right : Cell) : Bool := left.strictEqual right || (left.isNullish && right.isNullish)

end Cell

/-- `includes`. -/
def includes (text part : Text) : Bool := text.tails.any part.isPrefixOf

/-- `toLowerCase`, exact on the characters whose image is an ASCII letter of the words below. -/
def lowerCase (text : Text) : Text := text.map asciiLower

structure Column where
  name : Text
  dataType : Option Text
  deriving DecidableEq

def numericWords : List Text := ["int", "numeric", "decimal", "double", "real", "serial"].map String.toList

def isNumericType (dataType : Option Text) : Bool :=
  match dataType with
  | none => false
  | some t => numericWords.any (includes (lowerCase t))

def isBooleanType (dataType : Option Text) : Bool :=
  match dataType with
  | none => false
  | some t => includes (lowerCase t) "bool".toList

def valuesEqual (left right : Cell) : Bool :=
  left.strictEqual right || (left.isNullish && right.isNullish) || left.text == right.text

/-- One or more digits. -/
def isDigits (text : Text) : Bool := !text.isEmpty && text.all isDigit

/-- The regular expression `^-?\d+(\.\d+)?$`. -/
def isNumeral (text : Text) : Bool :=
  let body := if text.head? == some '-' then text.tail else text
  if body.contains '.' then
    isDigits (Decimal.cutAt '.' body).1 && isDigits (Decimal.cutAt '.' body).2
  else isDigits body

/-- What `coerceCellValue` makes of a string that is not blank. -/
def coerceText (raw text : Text) (dataType : Option Text) : Cell :=
  if isBooleanType dataType ∧ lowerCase text = "true".toList then .bool true
  else if isBooleanType dataType ∧ lowerCase text = "false".toList then .bool false
  -- `Number` and `parseInt` read a whole number alike
  else if isNumericType dataType ∧ isNumeral text then .number (Number.read text)
  else .string raw

def coerceCellValue (raw : Cell) (dataType : Option Text) : Cell :=
  match raw with
  | .undefined => .null
  | .null => .null
  | .string s => if trim s = [] then .null else coerceText s (trim s) dataType
  | value => value

/-! ## Comparing -/

theorem valuesEqual_eq (left right : Cell) :
    valuesEqual left right = (left.sameTyped right || left.text == right.text) := rfl

theorem Cell.strictEqual_self (value : Cell) : value.strictEqual value = true := by
  cases value with
  | undefined => rfl
  | null => rfl
  | bool b => exact beq_self_eq_true b
  | number x => exact x.same_self
  | string s => exact beq_self_eq_true s

theorem Cell.sameTyped_self (value : Cell) : value.sameTyped value = true := by
  rw [sameTyped, strictEqual_self, Bool.true_or]

/-! ## Coercing a cell that nobody touched -/

def isTruthWord (text : Text) : Prop := lowerCase text = "true".toList ∨ lowerCase text = "false".toList

/-- A cell that coercion turns into an equal one: a string that is not blank, spells a truth value as it
is written, and writes a number as the number is written. -/
def Kept (dataType : Option Text) : Cell → Prop
  | .string s =>
    trim s ≠ [] ∧
      (isBooleanType dataType = true → isTruthWord (trim s) → s = lowerCase (trim s)) ∧
      (isNumericType dataType = true → isNumeral (trim s) = true → (Number.read (trim s)).text = s)
  | _ => True

theorem valuesEqual_string (value : Cell) (s : Text) :
    valuesEqual value (.string s) = (value.text == s) := by
  have hnullish : (value.isNullish && (Cell.string s).isNullish) = false := Bool.and_false _
  rw [valuesEqual, hnullish, Bool.or_false]
  cases value with
  | string t => exact Bool.or_self _
  | _ => exact Bool.false_or _

theorem null_ne_blank {s : Text} (hblank : trim s = []) : valuesEqual .null (.string s) = false := by
  rw [valuesEqual_string, beq_eq_false_iff_ne]
  rintro rfl
  exact absurd hblank (by decide)

theorem head_of_isDigits {text : Text} (h : isDigits text = true) :
    ∃ c rest, text = c :: rest ∧ isDigit c = true := by
  cases text with
  | nil => cases h
  | cons c rest =>
    simp only [isDigits, List.all_cons, Bool.and_eq_true] at h
    exact ⟨c, rest, rfl, h.2.1⟩

theorem head_of_cutAt {mark c : Char} {text rest : Text} (h : (Decimal.cutAt mark text).1 = c :: rest) :
    ∃ more, text = c :: more := by
  cases text with
  | nil => cases h
  | cons d more =>
    have htake : (d :: more).takeWhile (fun x => x != mark) = c :: rest := h
    rw [List.takeWhile_cons] at htake
    split at htake
    · injection htake with hd
      exact ⟨more, by rw [hd]⟩
    · cases htake

theorem head_of_isNumeral {text : Text} (h : isNumeral text = true) :
    ∃ c rest, text = c :: rest ∧ (c = '-' ∨ isDigit c = true) := by
  cases text with
  | nil => cases h
  | cons c rest =>
    by_cases hc : c = '-'
    · exact ⟨c, rest, rfl, Or.inl hc⟩
    have hbody : (if (c :: rest).head? == some '-' then (c :: rest).tail else c :: rest) = c :: rest := by
      rw [if_neg]
      simp [hc]
    unfold isNumeral at h
    rw [hbody] at h
    refine ⟨c, rest, rfl, Or.inr ?_⟩
    dsimp only at h
    split at h
    · rw [Bool.and_eq_true] at h
      obtain ⟨d, more, hwhole, hd⟩ := head_of_isDigits h.1
      obtain ⟨tail, heq⟩ := head_of_cutAt hwhole
      injection heq with hcd
      rwa [hcd]
    · obtain ⟨d, more, heq, hd⟩ := head_of_isDigits h
      injection heq with hcd
      rwa [hcd]

theorem asciiLower_numeral {c : Char} (hc : c = '-' ∨ isDigit c = true) : asciiLower c = c := by
  unfold asciiLower
  rw [if_neg]
  rintro hupper
  simp only [isUpper, isDigit, Bool.and_eq_true, decide_eq_true_eq, char_le_iff] at hupper hc
  rcases hc with rfl | hdigit
  · exact absurd hupper.1 (by decide)
  · have h9 : '9'.toNat < 'A'.toNat := by decide
    omega

/-- A numeral is no truth value. -/
theorem not_truthWord_of_isNumeral {text : Text} (h : isNumeral text = true) : ¬isTruthWord text := by
  obtain ⟨c, rest, rfl, hc⟩ := head_of_isNumeral h
  have hlower : lowerCase (c :: rest) = c :: lowerCase rest := by
    rw [lowerCase, List.map_cons, asciiLower_numeral hc]
    rfl
  unfold isTruthWord
  rw [hlower]
  rintro (heq | heq)
  · have hct : c = 't' := (List.cons.inj (heq : c :: lowerCase rest = 't' :: "rue".toList)).1
    rw [hct] at hc
    exact absurd hc (by decide)
  · have hcf : c = 'f' := (List.cons.inj (heq : c :: lowerCase rest = 'f' :: "alse".toList)).1
    rw [hcf] at hc
    exact absurd hc (by decide)

/-- The string is kept exactly when its coerced text is the string. -/
theorem coerceText_text (s : Text) (dataType : Option Text) (hblank : trim s ≠ []) :
    (coerceText s (trim s) dataType).text = s ↔ Kept dataType (.string s) := by
  have hnumeral : isTruthWord (trim s) → isNumeral (trim s) = true → (Number.read (trim s)).text = s :=
    fun htruth hnumeral => absurd htruth (not_truthWord_of_isNumeral hnumeral)
  unfold coerceText
  split
  · rename_i htrue
    show "true".toList = s ↔ _
    constructor
    · intro hs
      exact ⟨hblank, fun _ _ => hs.symm.trans htrue.2.symm, fun _ => hnumeral (Or.inl htrue.2)⟩
    · rintro ⟨-, htruth, -⟩
      exact (htruth htrue.1 (Or.inl htrue.2)).trans htrue.2 |>.symm
  split
  · rename_i hfalse
    show "false".toList = s ↔ _
    constructor
    · intro hs
      exact ⟨hblank, fun _ _ => hs.symm.trans hfalse.2.symm, fun _ => hnumeral (Or.inr hfalse.2)⟩
    · rintro ⟨-, htruth, -⟩
      exact (htruth hfalse.1 (Or.inr hfalse.2)).trans hfalse.2 |>.symm
  -- no truth value is written here
  rename_i htrue hfalse
  have hword : isBooleanType dataType = true → isTruthWord (trim s) → s = lowerCase (trim s) :=
    fun hbool htruth => htruth.elim (fun h => absurd ⟨hbool, h⟩ htrue) fun h => absurd ⟨hbool, h⟩ hfalse
  split
  · rename_i hnumber
    show (Number.read (trim s)).text = s ↔ _
    exact ⟨fun h => ⟨hblank, hword, fun _ _ => h⟩, fun h => h.2.2 hnumber.1 hnumber.2⟩
  · rename_i hnumber
    exact iff_of_true rfl ⟨hblank, hword, fun htype hnum => absurd ⟨htype, hnum⟩ hnumber⟩

/-- Coercing a cell gives an equal one exactly for the cells that are kept. -/
theorem valuesEqual_coerced (value : Cell) (dataType : Option Text) :
    valuesEqual (coerceCellValue value dataType) value = true ↔ Kept dataType value := by
  cases value with
  | undefined => exact iff_of_true rfl trivial
  | null => exact iff_of_true rfl trivial
  | bool b =>
    refine iff_of_true ?_ trivial
    rw [valuesEqual_eq, coerceCellValue, Cell.sameTyped_self, Bool.true_or] <;> simp
  | number x =>
    refine iff_of_true ?_ trivial
    rw [valuesEqual_eq, coerceCellValue, Cell.sameTyped_self, Bool.true_or] <;> simp
  | string s =>
    show valuesEqual (if trim s = [] then .null else coerceText s (trim s) dataType) _ = true ↔ _
    split
    · rename_i hblank
      rw [null_ne_blank hblank]
      exact iff_of_false Bool.false_ne_true fun h => h.1 hblank
    · rename_i hblank
      rw [valuesEqual_string, beq_iff_eq]
      exact coerceText_text s dataType hblank

end Workbench.Table
