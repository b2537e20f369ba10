import Mathlib.Data.List.DropRight
import Mathlib.Tactic

/-!
# Texts and the string functions of the two languages

A text is the list of its Unicode code points. The server reads its texts from JSON, so they are
valid UTF-8, and every character its scanners test for is ASCII: reading them by code point or by
byte makes the same decisions. The same holds for the UTF-16 units of the front end.

The case mappings below are exact on the characters whose image is ASCII, which are the only ones
that a comparison with an ASCII keyword can see; every other character is left as it is.
-/

set_option autoImplicit false

namespace Workbench

/-- A text as its code points. -/
abbrev Text := List Char

/-- The instance under one name, so that definitions that test membership hold no proof of their own. -/
instance lawfulBEqText : LawfulBEq Text := inferInstance

namespace Characters

/-- What holds of the characters of a text is decided by going through the text, not through all characters. -/
scoped instance (priority := 2000) decidableForallMem (p : Char → Prop) [DecidablePred p] (x : Text) :
    Decidable (∀ c ∈ x, p c) :=
  List.decidableBAll p x

scoped instance (priority := 2000) decidableForallMemOption (p : Char → Prop) [DecidablePred p] (o : Option Char) :
    Decidable (∀ c ∈ o, p c) :=
  Option.decidableForallMem o

end Characters

/-- The backquote character. -/
def backtick : Char := Char.ofNat 96

def isLower (c : Char) : Bool := 'a' ≤ c && c ≤ 'z'

def isUpper (c : Char) : Bool := 'A' ≤ c && c ≤ 'Z'

def isDigit (c : Char) : Bool := '0' ≤ c && c ≤ '9'

def isLetter (c : Char) : Bool := isLower c || isUpper c

/-- The order of characters is the order of their code points. -/
theorem char_le_iff (a b : Char) : a ≤ b ↔ a.toNat ≤ b.toNat := UInt32.le_iff_toNat_le

/-- An ASCII letter in upper case. -/
def asciiUpper (c : Char) : Char := if isLower c then Char.ofNat (c.toNat - 32) else c

/-- An ASCII letter in lower case. -/
def asciiLower (c : Char) : Char := if isUpper c then Char.ofNat (c.toNat + 32) else c

/-! ## Go -/

/-- `unicode.ToUpper`: the dotless i and the long s are the two characters outside ASCII whose
upper case is ASCII. -/
def runeToUpper (c : Char) : Char :=
  if c = 'ı' then 'I' else if c = 'ſ' then 'S' else asciiUpper c

/-- `strings.ToUpper`. -/
def toUpper (s : Text) : Text := s.map runeToUpper

/-- `unicode.ToLower`: the Kelvin sign and the capital i with a dot are the two characters outside ASCII whose
lower case is ASCII. -/
def runeToLower (c : Char) : Char :=
  if c = '\u212A' then 'k' else if c = '\u0130' then 'i' else asciiLower c

/-- `strings.ToLower`. -/
def toLower (s : Text) : Text := s.map runeToLower

/-- `unicode.IsSpace`. -/
def isGoSpace (c : Char) : Bool :=
  c = '\t' || c = '\n' || c = '\x0b' || c = '\x0c' || c = '\r' || c = ' ' || c = '\u0085' ||
    c = '\u00a0' || c = '\u1680' || ('\u2000' ≤ c && c ≤ '\u200a') || c = '\u2028' ||
    c = '\u2029' || c = '\u202f' || c = '\u205f' || c = '\u3000'

/-- `strings.TrimSpace`. -/
def trimSpace (s : Text) : Text := (s.rdropWhile isGoSpace).dropWhile isGoSpace

/-- `len` of a Go string: its bytes in UTF-8. -/
def byteLength (s : Text) : Nat := (s.map fun c => c.utf8Size).sum

/-- The simple case folding behind `strings.EqualFold`: the long s and the Kelvin sign fold to
ASCII. -/
def foldRune (c : Char) : Char :=
  if c = 'ſ' then 's' else if c = '\u212A' then 'k' else asciiLower c

/-- `strings.EqualFold`. -/
def equalFold (s t : Text) : Bool := s.map foldRune == t.map foldRune

/-! ## Checks -/

theorem bind_eq_ok {ε α β : Type} {x : Except ε α} {f : α → Except ε β} {b : β} :
    (x >>= f) = .ok b ↔ ∃ a, x = .ok a ∧ f a = .ok b := by
  cases x with
  | error e => simp [bind, Except.bind]
  | ok a => simp [bind, Except.bind]

/-- A check in front of a result. -/
theorem guard_eq_ok {ε α : Type} {p : Prop} [Decidable p] {e : ε} {x : Except ε α} {b : α} :
    (if p then .error e else x) = .ok b ↔ ¬p ∧ x = .ok b := by
  by_cases hp : p
  · simp [hp]
  · simp [hp]

end Workbench

/-!
## Trimmed texts

What `strings.TrimSpace` leaves: which texts it leaves nothing of, and which it leaves as they are.
-/

namespace Workbench

theorem trimSpace_eq_nil {s : Text} : trimSpace s = [] ↔ ∀ c ∈ s, isGoSpace c = true := by
  rw [trimSpace, List.dropWhile_eq_nil_iff]
  constructor
  · intro h
    -- what is left of the back is all white space, so nothing is
    have hback : s.rdropWhile isGoSpace = [] := by
      by_contra hne
      apply List.rdropWhile_last_not isGoSpace s hne
      exact h _ (List.getLast_mem hne)
    exact List.rdropWhile_eq_nil_iff.1 hback
  · intro h c hc
    exact h c ((List.rdropWhile_prefix isGoSpace s).subset hc)

/-- Trimming leaves no text blank that was not blank before. -/
theorem trimSpace_trimSpace_ne_nil {s : Text} (h : trimSpace s ≠ []) :
    trimSpace (trimSpace s) ≠ [] := by
  intro hblank
  apply Bool.eq_false_iff.1 (List.head_dropWhile_not isGoSpace h)
  exact trimSpace_eq_nil.1 hblank _ (List.head_mem h)

theorem trimSpace_eq_self {s : Text} :
    trimSpace s = s ↔ (∀ c ∈ s.head?, isGoSpace c = false) ∧ ∀ c ∈ s.getLast?, isGoSpace c = false := by
  have hback : s.rdropWhile isGoSpace = s ↔ ∀ c ∈ s.getLast?, isGoSpace c = false := by
    rw [List.rdropWhile_eq_self_iff]
    constructor
    · intro h c hc
      obtain ⟨hne, rfl⟩ := List.mem_getLast?_eq_getLast hc
      exact Bool.eq_false_iff.2 (h hne)
    · intro h hne
      rw [h _ (List.getLast_mem_getLast? hne)]
      exact Bool.false_ne_true
  have hfront : s.dropWhile isGoSpace = s ↔ ∀ c ∈ s.head?, isGoSpace c = false := by
    cases s with
    | nil => simp
    | cons c rest => simp [List.dropWhile_eq_self_iff]
  rw [← hback, ← hfront, trimSpace]
  constructor
  · intro htrim
    -- neither end can have lost anything
    have hlength : s.length ≤ (s.rdropWhile isGoSpace).length := by
      calc s.length = ((s.rdropWhile isGoSpace).dropWhile isGoSpace).length := by rw [htrim]
        _ ≤ (s.rdropWhile isGoSpace).length := (List.dropWhile_suffix _).length_le
    have hkept := (List.rdropWhile_prefix isGoSpace s).eq_of_length_le hlength
    rw [hkept] at htrim
    exact ⟨htrim, hkept⟩
  · rintro ⟨hstart, hend⟩
    rw [hend, hstart]

/-- Trimming twice is trimming. -/
theorem trimSpace_trimSpace (s : Text) : trimSpace (trimSpace s) = trimSpace s := by
  have hsuffix : trimSpace s <:+ s.rdropWhile isGoSpace := List.dropWhile_suffix _
  have hback : (trimSpace s).rdropWhile isGoSpace = trimSpace s := by
    rw [List.rdropWhile_eq_self_iff]
    intro hne
    rw [hsuffix.getLast hne]
    exact List.rdropWhile_last_not _ _ _
  calc trimSpace (trimSpace s) = (trimSpace s).dropWhile isGoSpace := by rw [trimSpace, hback]
    _ = trimSpace s := List.dropWhile_idempotent _ _

/-- The printable characters of ASCII are no white space. -/
theorem isGoSpace_of_printable {c : Char} (hlow : 32 < c.toNat) (hhigh : c.toNat < 128) : isGoSpace c = false := by
  have hcodes : ∀ n ∈ List.range 128, 32 < n → isGoSpace (Char.ofNat n) = false := by decide +kernel
  have hcode := hcodes c.toNat (List.mem_range.2 hhigh) hlow
  rw [Char.ofNat_toNat] at hcode
  exact hcode

theorem isGoSpace_of_isDigit {c : Char} (h : c.isDigit = true) : isGoSpace c = false := by
  have hbounds : 48 ≤ c.toNat ∧ c.toNat ≤ 57 := by
    simpa [Char.isDigit, UInt32.le_iff_toNat_le] using h
  exact isGoSpace_of_printable (by omega) (by omega)

end Workbench
