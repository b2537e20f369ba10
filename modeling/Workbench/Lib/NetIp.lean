import Mathlib.Tactic
import Workbench.Lib.Infixes

/-!
# IP addresses

The part of Go's `net/netip` that classifies addresses: IPv4 addresses, IPv6 addresses with their zones, the
IPv4 addresses that are mapped into IPv6, prefixes, and the texts of addresses.
-/

set_option autoImplicit false

namespace Workbench.Lib

/-- `netip.Addr`; the zero value is no address. -/
inductive Addr where
  | zero
  | v4 (bits : BitVec 32)
  | v6 (bits : BitVec 128) (zone : List Char)
  deriving DecidableEq, Repr

namespace Addr

/-- `Is4In6`: the 96 bits in front say that an IPv4 address follows. -/
def is4In6 : Addr → Bool
  | .v6 bits _ => bits >>> 32 = 0xffff#128
  | _ => false

/-- `Unmap`: a mapped address as an IPv4 address, without its zone. -/
def unmap : Addr → Addr
  | .v6 bits zone => if bits >>> 32 = 0xffff#128 then .v4 (bits.setWidth 32) else .v6 bits zone
  | a => a

/-- `IsUnspecified` compares with `0.0.0.0` and with `::` without a zone; it does not unmap. -/
def isUnspecified (a : Addr) : Bool := a = .v4 0 || a = .v6 0 []

/-- An octet of an IPv4 address. -/
def octet (bits : BitVec 32) (i : Nat) : BitVec 8 := bits.extractLsb' (24 - 8 * i) 8

/-- The first 16 bits of an IPv6 address. -/
def head16 (bits : BitVec 128) : BitVec 16 := bits.extractLsb' 112 16

def isLoopback (a : Addr) : Bool :=
  match a.unmap with
  | .zero => false
  | .v4 bits => octet bits 0 = 127
  | .v6 bits _ => bits = 1

def isMulticast (a : Addr) : Bool :=
  match a.unmap with
  | .zero => false
  | .v4 bits => octet bits 0 &&& 0xf0 = 0xe0
  | .v6 bits _ => head16 bits >>> 8 = 0xff

def isLinkLocalUnicast (a : Addr) : Bool :=
  match a.unmap with
  | .zero => false
  | .v4 bits => octet bits 0 = 169 && octet bits 1 = 254
  | .v6 bits _ => head16 bits &&& 0xffc0 = 0xfe80

def isLinkLocalMulticast (a : Addr) : Bool :=
  match a.unmap with
  | .zero => false
  | .v4 bits => octet bits 0 = 224 && octet bits 1 = 0 && octet bits 2 = 0
  | .v6 bits _ => head16 bits &&& 0xff0f = 0xff02

def zone : Addr → List Char
  | .v6 _ zone => zone
  | _ => []

@[simp]
theorem unmap_unmap (a : Addr) : a.unmap.unmap = a.unmap := by
  cases a with
  | zero => rfl
  | v4 bits => rfl
  | v6 bits zone =>
    by_cases hmapped : bits >>> 32 = 0xffff#128
    · simp [unmap, hmapped]
    · simp [unmap, hmapped]

/-- The classes but the unspecified addresses are those of the unmapped address. -/
@[simp]
theorem isLoopback_unmap (a : Addr) : a.unmap.isLoopback = a.isLoopback := by
  rw [isLoopback, unmap_unmap, isLoopback]

@[simp]
theorem isMulticast_unmap (a : Addr) : a.unmap.isMulticast = a.isMulticast := by
  rw [isMulticast, unmap_unmap, isMulticast]

@[simp]
theorem isLinkLocalUnicast_unmap (a : Addr) : a.unmap.isLinkLocalUnicast = a.isLinkLocalUnicast := by
  rw [isLinkLocalUnicast, unmap_unmap, isLinkLocalUnicast]

@[simp]
theorem isLinkLocalMulticast_unmap (a : Addr) :
    a.unmap.isLinkLocalMulticast = a.isLinkLocalMulticast := by
  rw [isLinkLocalMulticast, unmap_unmap, isLinkLocalMulticast]

/-- `::ffff:0.0.0.0`, with any zone. -/
def isMappedUnspecified (a : Addr) : Bool := a.is4In6 && a.unmap = .v4 0

theorem isUnspecified_unmap (a : Addr) :
    a.unmap.isUnspecified = (a.isUnspecified || a.isMappedUnspecified) := by
  cases a with
  | zero => rfl
  | v4 bits => simp [unmap, isMappedUnspecified, is4In6]
  | v6 bits zone =>
    by_cases hmapped : bits >>> 32 = 0xffff#128
    · -- A mapped address is not `::`.
      have hne : bits ≠ 0#128 := by
        rintro rfl
        exact absurd hmapped (by decide)
      simp [unmap, isMappedUnspecified, is4In6, isUnspecified, hmapped, hne]
    · simp [unmap, isMappedUnspecified, is4In6, isUnspecified, hmapped]

end Addr

/-- A valid `netip.Prefix`: an address without a zone and the number of bits that count. -/
inductive Prefix where
  | v4 (base : BitVec 32) (bits : Fin 33)
  | v6 (base : BitVec 128) (bits : Fin 129)
  deriving DecidableEq, Repr

/-- `Contains`: an address of the other family is in no prefix, nor is one with a zone. -/
def Prefix.contains : Prefix → Addr → Bool
  | .v4 base n, .v4 bits => (bits ^^^ base) >>> (32 - n.val) = 0
  | .v6 base n, .v6 bits zone => zone = [] && (bits ^^^ base) >>> (128 - n.val) = 0
  | _, _ => false

/-! ## Texts of addresses -/

def decimalDigit (c : Char) : Option Nat := if '0' ≤ c ∧ c ≤ '9' then some (c.toNat - 48) else none

/-- A field of an IPv4 address: no leading zero, and at most 255. -/
def octetOf (s : List Char) : Option (BitVec 8) := do
  let digits ← s.mapM decimalDigit
  let n := digits.foldl (fun acc d => 10 * acc + d) 0
  if s ≠ [] ∧ (s.head? ≠ some '0' ∨ s.length = 1) ∧ n ≤ 255 then some (BitVec.ofNat 8 n) else none

/-- `parseIPv4Fields`. -/
def parseFields (s : List Char) : Option (List (BitVec 8)) := do
  let fields ← (s.splitOn '.').mapM octetOf
  if fields.length = 4 then some fields else none

def ofBytes (w : Nat) (bytes : List (BitVec 8)) : BitVec w :=
  BitVec.ofNat w (bytes.foldl (fun acc b => 256 * acc + b.toNat) 0)

def parseIPv4 (s : List Char) : Option Addr := (parseFields s).map fun fields => .v4 (ofBytes 32 fields)

def hexadecimalDigit (c : Char) : Option Nat :=
  if '0' ≤ c ∧ c ≤ '9' then some (c.toNat - 48)
  else if 'a' ≤ c ∧ c ≤ 'f' then some (c.toNat - 87)
  else if 'A' ≤ c ∧ c ≤ 'F' then some (c.toNat - 55)
  else none

/-- The loop of `parseIPv6`: the bytes so far, where the ellipsis is, and what is left of the text. -/
def parseGroups : Nat → List (BitVec 8) → Option Nat → List Char →
    Option (List (BitVec 8) × Option Nat × List Char)
  | 0, ip, ellipsis, s => some (ip, ellipsis, s)
  | fuel + 1, ip, ellipsis, s =>
    let digits := s.takeWhile fun c => (hexadecimalDigit c).isSome
    let rest := s.dropWhile fun c => (hexadecimalDigit c).isSome
    if digits = [] ∨ 4 < digits.length then none
    else
      let n := (digits.filterMap hexadecimalDigit).foldl (fun acc d => 16 * acc + d) 0
      let next := ip ++ [BitVec.ofNat 8 (n / 256), BitVec.ofNat 8 n]
      match rest with
      | [] => some (next, ellipsis, [])
      | '.' :: _ =>
        if ellipsis = none ∧ ip.length ≠ 12 ∨ 16 < ip.length + 4 then none
        else (parseFields s).map fun fields => (ip ++ fields, ellipsis, [])
      | [':'] => none
      | [':', ':'] => if ellipsis = none then some (next, some next.length, []) else none
      | ':' :: ':' :: more =>
        if ellipsis = none then parseGroups fuel next (some next.length) more else none
      | ':' :: more => parseGroups fuel next ellipsis more
      | _ => none

/-- The zeros of the ellipsis. -/
def expand (ip : List (BitVec 8)) (ellipsis : Option Nat) : Option (List (BitVec 8)) :=
  match ellipsis with
  | none => if ip.length = 16 then some ip else none
  | some at_ =>
    if ip.length < 16 then
      some (ip.take at_ ++ List.replicate (16 - ip.length) 0 ++ ip.drop at_)
    else none

def parseIPv6 (s : List Char) : Option Addr := do
  let zone := (s.dropWhile (· ≠ '%')).tail
  let text := s.takeWhile (· ≠ '%')
  if s.contains '%' ∧ zone = [] then none
  else if text = [':', ':'] then some (.v6 0 zone)
  else
    let (ip, ellipsis, left) ←
      match text with
      | ':' :: ':' :: more => parseGroups 8 [] (some 0) more
      | _ => parseGroups 8 [] none text
    let bytes ← expand ip ellipsis
    if left = [] then some (.v6 (ofBytes 128 bytes) zone) else none

/-- `netip.ParseAddr`: the first separator decides. -/
def parseAddr (s : List Char) : Option Addr :=
  match s.find? fun c => c = '.' ∨ c = ':' ∨ c = '%' with
  | some '.' => parseIPv4 s
  | some ':' => parseIPv6 s
  | _ => none

/-- Whether `net.ParseIP` gives an address: those with a zone are left out. -/
def isIP (s : List Char) : Bool :=
  match parseAddr s with
  | some a => a.zone = []
  | none => false

example : parseAddr "::ffff:10.0.0.1".toList = some (.v6 0xffff0a000001#128 []) := by decide +kernel

/-! ## Characters of addresses -/

/-- What an address without a zone is made of. -/
def isAddrChar (c : Char) : Bool := (hexadecimalDigit c).isSome || c = '.' || c = ':'

theorem isSome_of_mapM {α β : Type} {f : α → Option β} {s : List α} {out : List β} (h : s.mapM f = some out) {a : α}
    (ha : a ∈ s) : (f a).isSome := by
  induction s generalizing out with
  | nil => cases ha
  | cons b rest ih =>
    rw [List.mapM_cons] at h
    obtain ⟨first, hfirst, h⟩ := Option.bind_eq_some_iff.1 h
    obtain ⟨more, hmore, -⟩ := Option.bind_eq_some_iff.1 h
    rcases List.mem_cons.1 ha with rfl | hrest
    · rw [hfirst]
      rfl
    · exact ih hmore hrest

/-- The fields of an IPv4 address. -/
theorem parseFields_eq_some {s : List Char} {fields : List (BitVec 8)} (h : parseFields s = some fields) :
    fields.length = 4 ∧ ∀ c ∈ s, (decimalDigit c).isSome ∨ c = '.' := by
  obtain ⟨found, hfound, h⟩ := Option.bind_eq_some_iff.1 h
  obtain ⟨hlength, heq⟩ := Option.ite_none_right_eq_some.1 h
  cases heq
  refine ⟨hlength, fun c hc => ?_⟩
  rcases mem_cut '.' hc with hdot | ⟨part, hpart, hmem⟩
  · exact Or.inr hdot
  · obtain ⟨octet, hoctet⟩ := Option.isSome_iff_exists.1 (isSome_of_mapM hfound hpart)
    obtain ⟨digits, hdigits, -⟩ := Option.bind_eq_some_iff.1 hoctet
    exact Or.inl (isSome_of_mapM hdigits hmem)

theorem isAddrChar_of_field {c : Char} (h : (decimalDigit c).isSome ∨ c = '.') : isAddrChar c = true := by
  rcases h with hdigit | rfl
  · rw [decimalDigit] at hdigit
    split_ifs at hdigit with hrange
    · rw [isAddrChar, hexadecimalDigit, if_pos hrange]
      rfl
    · cases hdigit
  · decide

/-- The loop takes two bytes to a group and four at the end, and an ellipsis has two colons. -/
theorem parseGroups_eq_some {fuel : Nat} {ip ip' : List (BitVec 8)} {ellipsis ellipsis' : Option Nat} {s : List Char}
    (h : parseGroups fuel ip ellipsis s = some (ip', ellipsis', [])) :
    (∀ c ∈ s, isAddrChar c = true) ∧ ip'.length ≤ ip.length + 2 * s.count ':' + 4 ∧
      (ellipsis' = ellipsis ∨ 2 ≤ s.count ':') := by
  induction fuel generalizing ip ellipsis s with
  | zero =>
    cases h
    simp
  | succ fuel ih =>
    have hsplit : s.takeWhile (fun c => (hexadecimalDigit c).isSome) ++
        s.dropWhile (fun c => (hexadecimalDigit c).isSome) = s := List.takeWhile_append_dropWhile
    have hdigits : ∀ c ∈ s.takeWhile fun c => (hexadecimalDigit c).isSome, isAddrChar c = true := by
      intro c hc
      rw [isAddrChar, List.mem_takeWhile_imp hc]
      rfl
    have hnone : (s.takeWhile fun c => (hexadecimalDigit c).isSome).count ':' = 0 :=
      List.count_eq_zero.2 fun hmem => absurd (List.mem_takeWhile_imp hmem) (by decide)
    rw [parseGroups] at h
    obtain ⟨-, h⟩ := Option.ite_none_left_eq_some.1 h
    -- The digits of a group are neither colons nor anything else that an address cannot have.
    have hcount : s.count ':' = (s.dropWhile fun c => (hexadecimalDigit c).isSome).count ':' := by
      rw [← hsplit, List.count_append, hnone, Nat.zero_add, hsplit]
    have hmem : (∀ c ∈ s.dropWhile fun c => (hexadecimalDigit c).isSome, isAddrChar c = true) →
        ∀ c ∈ s, isAddrChar c = true := by
      intro hrest c hc
      rw [← hsplit] at hc
      exact (List.mem_append.1 hc).elim (hdigits c) (hrest c)
    rw [hcount]
    split at h
    · next hrest =>
        cases h
        rw [hrest] at hmem ⊢
        refine ⟨hmem (by simp), by simp, Or.inl rfl⟩
    · next more hrest =>
        obtain ⟨-, h⟩ := Option.ite_none_left_eq_some.1 h
        obtain ⟨fields, hfields, heq⟩ := Option.map_eq_some_iff.1 h
        cases heq
        obtain ⟨hlength, hall⟩ := parseFields_eq_some hfields
        refine ⟨fun c hc => isAddrChar_of_field (hall c hc), ?_, Or.inl rfl⟩
        rw [List.length_append]
        omega
    · cases h
    · next hrest =>
        obtain ⟨-, h⟩ := Option.ite_none_right_eq_some.1 h
        cases h
        rw [hrest] at hmem ⊢
        exact ⟨hmem (by simp [isAddrChar]), by simp, Or.inr (by decide)⟩
    · next more hne hrest =>
        obtain ⟨-, h⟩ := Option.ite_none_right_eq_some.1 h
        obtain ⟨hall, hlength, -⟩ := ih h
        rw [hrest] at hmem ⊢
        rw [List.length_append] at hlength
        simp only [List.count_cons_self, List.length_cons, List.length_nil] at hlength ⊢
        refine ⟨hmem ?_, by omega, Or.inr (by omega)⟩
        simpa using ⟨by decide, hall⟩
    · next more hne hne' hrest =>
        obtain ⟨hall, hlength, hellipsis⟩ := ih h
        rw [hrest] at hmem ⊢
        rw [List.length_append] at hlength
        simp only [List.count_cons_self, List.length_cons, List.length_nil] at hlength ⊢
        refine ⟨hmem ?_, by omega, hellipsis.imp_right fun hle => by omega⟩
        simpa using ⟨by decide, hall⟩
    · cases h

/-- What is done with the groups: without an ellipsis there are sixteen bytes. -/
theorem expand_groups {ip : List (BitVec 8)} {ellipsis : Option Nat} {left zone : List Char} {a : Addr}
    (h : ((expand ip ellipsis).bind fun bytes =>
      if left = [] then some (Addr.v6 (ofBytes 128 bytes) zone) else none) = some a) :
    a.zone = zone ∧ left = [] ∧ (ellipsis = none → ip.length = 16) := by
  obtain ⟨bytes, hbytes, h⟩ := Option.bind_eq_some_iff.1 h
  obtain ⟨hleft, h⟩ := Option.ite_none_right_eq_some.1 h
  cases h
  refine ⟨rfl, hleft, ?_⟩
  rintro rfl
  exact (Option.ite_none_right_eq_some.1 hbytes).1

theorem parseIPv6_eq_some {s : List Char} {a : Addr} (h : parseIPv6 s = some a) (hzone : a.zone = []) :
    (∀ c ∈ s, isAddrChar c = true) ∧ s.count ':' ≠ 1 := by
  obtain ⟨hpercent, h⟩ := Option.ite_none_left_eq_some.1 h
  rw [not_and] at hpercent
  -- Without a zone the text is all of it.
  have hplain : (s.dropWhile (· ≠ '%')).tail = [] → s.takeWhile (· ≠ '%') = s := by
    intro htail
    have hnot : '%' ∉ s := fun hmem => hpercent (List.contains_iff_mem.2 hmem) htail
    refine List.takeWhile_eq_self_iff.2 fun c hc => decide_eq_true ?_
    rintro rfl
    exact hnot hc
  split_ifs at h with htext
  · cases h
    rw [← hplain hzone, htext]
    exact ⟨by simp [isAddrChar], by decide⟩
  · dsimp only at h
    split at h
    · next more hmore =>
        obtain ⟨⟨ip, ellipsis, left⟩, hgroups, hend⟩ := Option.bind_eq_some_iff.1 h
        obtain ⟨hsame, rfl, -⟩ := expand_groups hend
        obtain ⟨hall, -⟩ := parseGroups_eq_some hgroups
        rw [← hplain (hsame.symm.trans hzone), hmore]
        exact ⟨by simpa using ⟨by decide, hall⟩, by simp⟩
    · obtain ⟨⟨ip, ellipsis, left⟩, hgroups, hend⟩ := Option.bind_eq_some_iff.1 h
      obtain ⟨hsame, rfl, hsixteen⟩ := expand_groups hend
      rw [hplain (hsame.symm.trans hzone)] at hgroups
      obtain ⟨hall, hlength, hellipsis⟩ := parseGroups_eq_some hgroups
      refine ⟨hall, fun hone => ?_⟩
      -- With one colon there is no ellipsis, and two groups are too few.
      rcases hellipsis with rfl | htwo
      · rw [hone, hsixteen rfl] at hlength
        simp at hlength
      · omega

/-- **An address without a zone** has hexadecimal digits, points and colons only, and never one colon alone. -/
theorem isIP_eq_true {s : List Char} (h : isIP s = true) : (∀ c ∈ s, isAddrChar c = true) ∧ s.count ':' ≠ 1 := by
  rw [isIP] at h
  split at h
  · next a ha =>
      rw [parseAddr] at ha
      split at ha
      · obtain ⟨fields, hfields, -⟩ := Option.map_eq_some_iff.1 ha
        have hall := (parseFields_eq_some hfields).2
        -- An IPv4 address has no colon at all.
        have hcolon : ':' ∉ s := fun hmem => absurd (hall _ hmem) (by decide)
        rw [List.count_eq_zero.2 hcolon]
        exact ⟨fun c hc => isAddrChar_of_field (hall c hc), Nat.zero_ne_one⟩
      · exact parseIPv6_eq_some ha (of_decide_eq_true h)
      · cases ha
  · cases h

end Workbench.Lib
