import Mathlib.Data.List.Count
import Workbench.Lib.Infixes
import Workbench.Lib.Percent

/-!
# Hosts with ports

`net.JoinHostPort` and `net.SplitHostPort` of Go. A host with a colon is put in brackets, and what is split off never
has a bracket in it, so a host comes back just if it has none.
-/

set_option autoImplicit false

namespace Workbench.Lib

def colonByte : UInt8 := byteOf ':'

def openBracket : UInt8 := byteOf '['

def closeBracket : UInt8 := byteOf ']'

/-- `strconv.Itoa`. -/
def decimal (n : Nat) : List UInt8 := ascii (Nat.toDigits 10 n)

def joinHostPort (host port : List UInt8) : List UInt8 :=
  if colonByte ∈ host then openBracket :: (host ++ closeBracket :: colonByte :: port) else host ++ colonByte :: port

/-- The port is behind the last colon; a host in brackets ends right in front of it. -/
def splitHostPort (hostport : List UInt8) : Option (List UInt8 × List UInt8) := do
  let (front, port) ← cutLast colonByte hostport
  if hostport.head? = some openBracket then
    let (host, behind) ← cutFirst closeBracket hostport
    if behind ≠ colonByte :: port ∨ openBracket ∈ hostport.tail ∨ closeBracket ∈ behind then none
    else some (host.tail, port)
  else if colonByte ∈ front ∨ openBracket ∈ hostport ∨ closeBracket ∈ hostport then none
  else some (front, port)

/-- A text whose characters are the bytes. -/
def textOf (s : List UInt8) : List Char := s.map fun b => Char.ofNat b.toNat

/-- `strconv.ParseUint` with 16 bits. -/
def readPort (s : List UInt8) : Option Nat :=
  let n := Nat.ofDigitChars 10 (textOf s) 0
  if s ≠ [] ∧ (textOf s).all Char.isDigit = true ∧ n < 65536 then some n else none

theorem toNat_ofNat_toNat (b : UInt8) : (Char.ofNat b.toNat).toNat = b.toNat := by
  have hbyte : b.toNat < 256 := b.toNat_lt
  have hvalid : b.toNat.isValidChar := Or.inl (by omega)
  rw [Char.ofNat, dif_pos hvalid]
  rfl

/-- An ASCII character stands in the text as often as its byte. -/
theorem count_textOf {c : Char} (hc : c.toNat < 128) (s : List UInt8) : (textOf s).count c = s.count (byteOf c) := by
  have hinj : Function.Injective fun b : UInt8 => Char.ofNat b.toNat := by
    intro a b hab
    have hcode := congrArg Char.toNat hab
    dsimp only at hcode
    rw [toNat_ofNat_toNat, toNat_ofNat_toNat] at hcode
    exact UInt8.toNat_inj.1 hcode
  have hsame : Char.ofNat (byteOf c).toNat = c := by rw [toNat_byteOf hc, Char.ofNat_toNat]
  have hcount := List.count_map_of_injective s _ hinj (byteOf c)
  rw [hsame] at hcount
  exact hcount

theorem mem_textOf {c : Char} (hc : c.toNat < 128) {s : List UInt8} : c ∈ textOf s ↔ byteOf c ∈ s := by
  rw [← List.count_pos_iff, count_textOf hc, List.count_pos_iff]

theorem textOf_ascii {text : List Char} (h : ∀ c ∈ text, c.toNat < 128) : textOf (ascii text) = text := by
  induction text with
  | nil => rfl
  | cons c rest ih =>
    have hrest := ih fun d hd => h d (List.mem_cons_of_mem _ hd)
    rw [textOf, ascii] at hrest ⊢
    rw [List.map_cons, List.map_cons, hrest, toNat_byteOf (h c List.mem_cons_self), Char.ofNat_toNat]

theorem toNat_of_isDigit {c : Char} (h : c.isDigit = true) : 48 ≤ c.toNat ∧ c.toNat ≤ 57 := by
  rw [Char.isDigit, Bool.and_eq_true, decide_eq_true_eq, decide_eq_true_eq] at h
  exact h

theorem decimal_ne_nil (n : Nat) : decimal n ≠ [] := fun hnil => Nat.toDigits_ne_nil (List.map_eq_nil_iff.1 hnil)

/-- A port is read back. -/
theorem readPort_decimal {n : Nat} (h : n < 65536) : readPort (decimal n) = some n := by
  have hdigit : ∀ c ∈ Nat.toDigits 10 n, c.isDigit = true := fun c hc =>
    Nat.isDigit_of_mem_toDigits (by decide) (by decide) hc
  have htext : textOf (decimal n) = Nat.toDigits 10 n :=
    textOf_ascii fun c hc => lt_of_le_of_lt (toNat_of_isDigit (hdigit c hc)).2 (by decide)
  -- The digits are those of the number, and they read as it.
  rw [readPort, htext, Nat.ofDigitChars_ten_toDigits]
  exact if_pos ⟨decimal_ne_nil n, List.all_eq_true.2 hdigit, h⟩

/-- Decimal digits only. -/
theorem toNat_of_mem_decimal {n : Nat} {b : UInt8} (h : b ∈ decimal n) : 48 ≤ b.toNat ∧ b.toNat ≤ 57 := by
  obtain ⟨c, hc, rfl⟩ := List.mem_map.1 h
  have hdigit := toNat_of_isDigit (Nat.isDigit_of_mem_toDigits (by decide) (by decide) hc)
  rw [toNat_byteOf (by omega)]
  exact hdigit

theorem not_mem_decimal {b : UInt8} (hb : ¬(48 ≤ b.toNat ∧ b.toNat ≤ 57)) (n : Nat) : b ∉ decimal n := fun h =>
  hb (toNat_of_mem_decimal h)

section

variable {host port hostport : List UInt8}

/-- What is split off has no brackets, and the address is one of the two forms of it. -/
theorem splitHostPort_eq_some (h : splitHostPort hostport = some (host, port)) :
    (hostport = openBracket :: (host ++ closeBracket :: colonByte :: port) ∨ hostport = host ++ colonByte :: port) ∧
      openBracket ∉ host ∧ closeBracket ∉ host ∧ colonByte ∉ port := by
  rw [splitHostPort] at h
  obtain ⟨⟨front, back⟩, hlast, h⟩ := Option.bind_eq_some_iff.1 h
  dsimp only at h
  split_ifs at h with hbracket hbad
  · obtain ⟨⟨first, behind⟩, hfirst, h⟩ := Option.bind_eq_some_iff.1 h
    dsimp only at h
    split_ifs at h with hwrong
    cases h
    obtain ⟨rfl, hnot⟩ := cutFirst_eq_some hfirst
    simp only [not_or, Decidable.not_not] at hwrong
    obtain ⟨rfl, hopen, -⟩ := hwrong
    cases first with
    -- The address begins with a bracket, so something is in front of the closing one.
    | nil => exact absurd (Option.some.inj hbracket) (by decide)
    | cons c rest =>
      obtain rfl : c = openBracket := Option.some.inj hbracket
      exact ⟨Or.inl rfl, fun hmem => hopen (List.mem_append_left _ hmem),
        fun hmem => hnot (List.mem_cons_of_mem _ hmem), (cutLast_eq_some hlast).2⟩
  · cases h
    obtain ⟨rfl, hport⟩ := cutLast_eq_some hlast
    simp only [not_or, List.mem_append] at hbad
    exact ⟨Or.inr rfl, hbad.2.1.1, hbad.2.2.1, hport⟩

/-- What is split off stands in the address. -/
theorem mem_of_splitHostPort (h : splitHostPort hostport = some (host, port)) {b : UInt8} (hb : b ∈ host) :
    b ∈ hostport := by
  obtain ⟨hform, -⟩ := splitHostPort_eq_some h
  rcases hform with rfl | rfl
  · exact List.mem_cons_of_mem _ (List.mem_append_left _ hb)
  · exact List.mem_append_left _ hb

section

variable (hopen : openBracket ∉ host) (hclose : closeBracket ∉ host)
  (hport : ∀ b ∈ [colonByte, openBracket, closeBracket], b ∉ port)

include hopen hclose hport

/-- A host in brackets. -/
theorem splitHostPort_bracketed :
    splitHostPort (openBracket :: (host ++ closeBracket :: colonByte :: port)) = some (host, port) := by
  have hlast : cutLast colonByte (openBracket :: (host ++ closeBracket :: colonByte :: port)) =
      some (openBracket :: (host ++ [closeBracket]), port) := by
    have hsplit : openBracket :: (host ++ closeBracket :: colonByte :: port) =
        (openBracket :: (host ++ [closeBracket])) ++ colonByte :: port := by simp
    rw [hsplit, cutLast_append (hport colonByte (by decide))]
  -- The first closing bracket is the one in front of the last colon.
  have hfirst : cutFirst closeBracket (openBracket :: (host ++ closeBracket :: colonByte :: port)) =
      some (openBracket :: host, colonByte :: port) := by
    rw [← List.cons_append, cutFirst_append]
    rw [List.mem_cons, not_or]
    exact ⟨by decide, hclose⟩
  rw [splitHostPort, hlast]
  simp only [Option.bind_eq_bind, Option.bind_some, List.head?_cons, if_true, hfirst, List.tail_cons]
  refine if_neg ?_
  rw [not_or, not_or, List.mem_append, List.mem_cons, List.mem_cons, List.mem_cons]
  refine ⟨fun h => h rfl, ?_, ?_⟩
  · rintro (hmem | heq | heq | hmem)
    · exact hopen hmem
    · exact absurd heq (by decide)
    · exact absurd heq (by decide)
    · exact hport openBracket (by decide) hmem
  · rintro (heq | hmem)
    · exact absurd heq (by decide)
    · exact hport closeBracket (by decide) hmem

/-- **A host without brackets comes back with its port.** -/
theorem splitHostPort_joinHostPort : splitHostPort (joinHostPort host port) = some (host, port) := by
  rw [joinHostPort]
  split_ifs with hcolon
  · exact splitHostPort_bracketed hopen hclose hport
  · -- Without a colon the host stands there as it is.
    have hhead : (host ++ colonByte :: port).head? ≠ some openBracket := by
      cases host with
      | nil => exact fun h => absurd (Option.some.inj h) (by decide)
      | cons b rest => exact fun h => hopen (Option.some.inj h ▸ List.mem_cons_self)
    rw [splitHostPort, cutLast_append (hport colonByte (by decide))]
    simp only [Option.bind_eq_bind, Option.bind_some]
    rw [if_neg hhead, if_neg]
    rw [not_or, not_or, List.mem_append, List.mem_append, List.mem_cons, List.mem_cons]
    refine ⟨hcolon, ?_, ?_⟩
    · rintro (hmem | heq | hmem)
      · exact hopen hmem
      · exact absurd heq (by decide)
      · exact hport openBracket (by decide) hmem
    · rintro (hmem | heq | hmem)
      · exact hclose hmem
      · exact absurd heq (by decide)
      · exact hport closeBracket (by decide) hmem

end

/-- No host is split off only where there is none, or a pair of brackets. -/
theorem host_of_splitHostPort_nil {part : List UInt8} (hport : colonByte ∉ port)
    (h : splitHostPort (joinHostPort host port) = some ([], part)) :
    host = [] ∨ host = [openBracket, closeBracket] := by
  obtain ⟨hform, -, -, hpart⟩ := splitHostPort_eq_some h
  rw [joinHostPort] at hform
  split_ifs at hform with hcolon
  · rcases hform with hbracket | hplain
    · have hsame : host ++ [closeBracket] ++ colonByte :: port = [closeBracket] ++ colonByte :: part := by
        simpa using hbracket
      -- Both ports begin behind the last colon, so what is in front of it is the same.
      have hlast := @cutLast_append _ _ colonByte (host ++ [closeBracket]) port hport
      rw [hsame, cutLast_append hpart] at hlast
      have hfront := congrArg List.length (Prod.mk.inj (Option.some.inj hlast)).1
      rw [List.length_append] at hfront
      exact Or.inl (List.eq_nil_of_length_eq_zero (by omega))
    · exact absurd (List.cons.inj hplain).1 (by decide)
  · have hnot : colonByte ∉ [openBracket, closeBracket] := by decide
    rcases hform with hbracket | hplain
    · exact Or.inr (append_mark_inj hcolon hnot hbracket).1
    · exact Or.inl (append_mark_inj hcolon List.not_mem_nil hplain).1

end

end Workbench.Lib
