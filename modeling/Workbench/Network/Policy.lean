import Workbench.Base.Text
import Workbench.Lib.NetIp

/-!
# The destination policy

`api/internal/network/policy.go`. A literal host is unmapped before it is checked, the answers of the
resolver are checked as they come; `IsUnspecified` is the one check for which that makes a difference
(`validate_sound_iff`).
-/

set_option autoImplicit false

namespace Workbench.Network

open Workbench.Lib

structure Policy where
  allowedCIDRs : List Prefix
  allowedPorts : List UInt16
  allowedSuffixes : List Text
  deriving DecidableEq, Repr

/-- What makes `ErrDestinationDenied`. -/
inductive Denial where
  | port (port : UInt16)
  | emptyHost
  | noAddresses
  | domainSuffix
  | specialAddress
  | outsideAllowlist
  deriving DecidableEq, Repr

inductive ValidateError where
  | denied (d : Denial)
  | resolve (message : Text)
  deriving DecidableEq, Repr

/-- What a resolver answers when it is asked. -/
abbrev Resolver := Text → Except Text (List Addr)

/-- `strings.TrimSuffix`. -/
def trimSuffix (s suffix : Text) : Text :=
  if suffix.isSuffixOf s then s.take (s.length - suffix.length) else s

/-- `strings.TrimPrefix`. -/
def trimPrefix (s front : Text) : Text := if front.isPrefixOf s then s.drop front.length else s

/-- The host that is looked at. -/
def hostOf (host : Text) : Text := trimSpace (trimSuffix host ['.'])

namespace Policy

variable (p : Policy)

def resolve (resolver : Resolver) (host : Text) : Except Text (List Addr) :=
  match parseAddr host with
  | some address => .ok [address.unmap]
  | none => resolver host

def suffixAllowed (host : Text) : Bool :=
  if p.allowedSuffixes = [] then true
  else
    let host := toLower host
    p.allowedSuffixes.any fun suffix =>
      let suffix := toLower (trimSpace suffix)
      suffix ≠ [] && (host = trimPrefix suffix ['.'] || suffix.isSuffixOf host)

def containedByAny (address : Addr) (prefixes : List Prefix) : Bool :=
  prefixes.any fun c => c.contains address.unmap

def isSpecial (address : Addr) : Bool :=
  address.isUnspecified || address.isLoopback || address.isMulticast || address.isLinkLocalUnicast ||
    address.isLinkLocalMulticast

/-- What a round of the loop over the addresses finds wrong. -/
def checkAddress (address : Addr) : Option Denial :=
  if isSpecial address then some .specialAddress
  else if p.allowedCIDRs ≠ [] ∧ containedByAny address p.allowedCIDRs = false then some .outsideAllowlist
  else none

def portDenied (port : UInt16) : Bool := port = 0 || (p.allowedPorts ≠ [] && port ∉ p.allowedPorts)

def suffixDenied (host : Text) : Bool :=
  p.allowedSuffixes ≠ [] && !p.suffixAllowed host && !isIP host

def validate (resolver : Resolver) (host : Text) (port : UInt16) :
    Except ValidateError (List Addr) :=
  if p.portDenied port then .error (.denied (.port port))
  else if hostOf host = [] then .error (.denied .emptyHost)
  else
    match resolve resolver (hostOf host) with
    | .error message => .error (.resolve message)
    | .ok addresses =>
      if addresses = [] then .error (.denied .noAddresses)
      else if p.suffixDenied (hostOf host) then .error (.denied .domainSuffix)
      else
        match addresses.findSome? p.checkAddress with
        | some d => .error (.denied d)
        | none => .ok addresses

/-! ## What the validation lets pass -/

variable {p}

theorem validate_eq_ok {resolver : Resolver} {host : Text} {port : UInt16} {addresses : List Addr} :
    p.validate resolver host port = .ok addresses ↔
      p.portDenied port = false ∧ hostOf host ≠ [] ∧ resolve resolver (hostOf host) = .ok addresses ∧
        addresses ≠ [] ∧ p.suffixDenied (hostOf host) = false ∧
        ∀ a ∈ addresses, p.checkAddress a = none := by
  rw [validate]
  constructor
  · intro h
    split at h
    · cases h
    · next hport =>
        split at h
        · cases h
        · next hhost =>
            split at h
            · cases h
            · next answers hanswers =>
                split at h
                · cases h
                · next hne =>
                    split at h
                    · cases h
                    · next hsuffix =>
                        split at h
                        · cases h
                        · next hcheck =>
                            cases h
                            exact ⟨Bool.not_eq_true _ ▸ hport, hhost, hanswers, hne,
                              Bool.not_eq_true _ ▸ hsuffix, List.findSome?_eq_none_iff.1 hcheck⟩
  · rintro ⟨hport, hhost, hanswers, hne, hsuffix, hcheck⟩
    rw [if_neg (by simp [hport]), if_neg hhost, hanswers]
    simp only [if_neg hne, hsuffix, Bool.false_eq_true, if_false, List.findSome?_eq_none_iff.2 hcheck]

theorem checkAddress_eq_none {a : Addr} :
    p.checkAddress a = none ↔
      isSpecial a = false ∧ (p.allowedCIDRs ≠ [] → containedByAny a p.allowedCIDRs = true) := by
  rw [checkAddress]
  cases hspecial : isSpecial a with
  | true => simp
  | false => simp

/-- An address as the policy means it: unmapped it is in no forbidden class, and in an allowed CIDR where
there are any. -/
structure Admissible (p : Policy) (a : Addr) : Prop where
  unspecified : a.unmap.isUnspecified = false
  loopback : a.unmap.isLoopback = false
  multicast : a.unmap.isMulticast = false
  linkLocalUnicast : a.unmap.isLinkLocalUnicast = false
  linkLocalMulticast : a.unmap.isLinkLocalMulticast = false
  allowed : p.allowedCIDRs ≠ [] → ∃ c ∈ p.allowedCIDRs, c.contains a.unmap = true

/-- An unmapped address is checked for just that. -/
theorem admissible_iff {a : Addr} : p.Admissible a ↔ p.checkAddress a.unmap = none := by
  rw [checkAddress_eq_none, isSpecial, containedByAny, List.any_eq_true, Addr.unmap_unmap]
  simp only [Bool.or_eq_false_iff]
  constructor
  · rintro ⟨hun, hloop, hmulti, hlocal, hlocal', hallowed⟩
    exact ⟨⟨⟨⟨⟨hun, hloop⟩, hmulti⟩, hlocal⟩, hlocal'⟩, hallowed⟩
  · rintro ⟨⟨⟨⟨⟨hun, hloop⟩, hmulti⟩, hlocal⟩, hlocal'⟩, hallowed⟩
    exact ⟨hun, hloop, hmulti, hlocal, hlocal', hallowed⟩

/-- An address that is checked as it comes may be the mapped unspecified one. -/
theorem checkAddress_unmap {a : Addr} :
    p.checkAddress a.unmap = none ↔ p.checkAddress a = none ∧ a.isMappedUnspecified = false := by
  rw [checkAddress_eq_none, checkAddress_eq_none, isSpecial, isSpecial, containedByAny, containedByAny,
    Addr.unmap_unmap, Addr.isUnspecified_unmap]
  simp only [Addr.isLoopback_unmap, Addr.isMulticast_unmap, Addr.isLinkLocalUnicast_unmap,
    Addr.isLinkLocalMulticast_unmap, Bool.or_eq_false_iff]
  tauto

theorem admissible_iff_check {a : Addr} :
    p.Admissible a ↔ p.checkAddress a = none ∧ a.isMappedUnspecified = false :=
  admissible_iff.trans checkAddress_unmap

/-! ## Soundness -/

/-- The validation of a host, as its policy means it: what it returns is admissible, and a literal of an
address is treated like a name that the resolver knows under this address alone. -/
structure Sound (p : Policy) (resolver : Resolver) (host : Text) (port : UInt16) : Prop where
  returned : ∀ addresses, p.validate resolver host port = .ok addresses →
    addresses ≠ [] ∧ (∀ a ∈ addresses, p.Admissible a) ∧ (p.allowedPorts ≠ [] → port ∈ p.allowedPorts)
  alike : ∀ literal a, parseAddr (hostOf literal) = some a → parseAddr (hostOf host) = none →
    hostOf host ≠ [] → p.suffixAllowed (hostOf host) = true → resolver (hostOf host) = .ok [a] →
    ((∃ l, p.validate resolver literal port = .ok l) ↔ ∃ l, p.validate resolver host port = .ok l)

/-- The host is a name, and all tests of the policy pass what the resolver answers. -/
structure Passes (p : Policy) (resolver : Resolver) (host : Text) (port : UInt16)
    (answers : List Addr) : Prop where
  name : parseAddr (hostOf host) = none
  nonempty : hostOf host ≠ []
  port : p.portDenied port = false
  suffix : p.suffixAllowed (hostOf host) = true
  resolved : resolver (hostOf host) = .ok answers
  answered : answers ≠ []
  checked : ∀ a ∈ answers, p.checkAddress a = none

/-- Where all tests pass the answers, the mapped unspecified address is not among them, and the suffixes
admit the literals of a single answer that has a zone. -/
def Escapes (p : Policy) (resolver : Resolver) (host : Text) (port : UInt16) : Prop :=
  ∃ answers, p.Passes resolver host port answers ∧
    ((∃ a ∈ answers, a.isMappedUnspecified = true) ∨
      ∃ a, answers = [a] ∧ a.zone ≠ [] ∧
        ∃ literal, parseAddr (hostOf literal) = some a ∧ p.suffixAllowed (hostOf literal) = false)

theorem suffixDenied_of_name {host : Text} (h : parseAddr host = none) :
    p.suffixDenied host = !p.suffixAllowed host := by
  rw [suffixDenied, isIP, h, suffixAllowed]
  by_cases hnone : p.allowedSuffixes = []
  · simp [hnone]
  · simp [hnone]

theorem suffixDenied_of_literal {host : Text} {a : Addr} (h : parseAddr host = some a) :
    p.suffixDenied host = (!p.suffixAllowed host && decide (a.zone ≠ [])) := by
  rw [suffixDenied, isIP, h, suffixAllowed]
  by_cases hnone : p.allowedSuffixes = []
  · simp [hnone]
  · simp [hnone]

section

variable {resolver : Resolver} {host : Text} {port : UInt16} {addresses : List Addr}

/-- A name is validated if all tests pass what the resolver answers. -/
theorem validate_name (hname : parseAddr (hostOf host) = none) :
    p.validate resolver host port = .ok addresses ↔ p.Passes resolver host port addresses := by
  rw [validate_eq_ok, suffixDenied_of_name hname, resolve, hname]
  constructor
  · rintro ⟨hport, hhost, hanswers, hne, hsuffix, hcheck⟩
    exact ⟨hname, hhost, hport, by simpa using hsuffix, hanswers, hne, hcheck⟩
  · rintro ⟨-, hhost, hport, hsuffix, hanswers, hne, hcheck⟩
    exact ⟨hport, hhost, hanswers, hne, by simpa using hsuffix, hcheck⟩

/-- A literal is unmapped, and the suffixes only count where it has a zone. -/
theorem validate_literal {a : Addr} (hliteral : parseAddr (hostOf host) = some a) :
    p.validate resolver host port = .ok addresses ↔
      addresses = [a.unmap] ∧ p.portDenied port = false ∧
        (p.suffixAllowed (hostOf host) = false → a.zone = []) ∧ p.checkAddress a.unmap = none := by
  have hhost : hostOf host ≠ [] := by
    intro hempty
    rw [hempty] at hliteral
    cases hliteral
  rw [validate_eq_ok, suffixDenied_of_literal hliteral, resolve, hliteral]
  constructor
  · rintro ⟨hport, -, hanswers, -, hsuffix, hcheck⟩
    cases hanswers
    refine ⟨rfl, hport, ?_, hcheck _ List.mem_cons_self⟩
    intro hdenied
    simpa [hdenied] using hsuffix
  · rintro ⟨rfl, hport, hsuffix, hcheck⟩
    refine ⟨hport, hhost, rfl, List.cons_ne_nil _ _, ?_, ?_⟩
    · cases hallowed : p.suffixAllowed (hostOf host) with
      | true => rfl
      | false => simp [hsuffix hallowed]
    · intro b hb
      rw [List.mem_singleton.1 hb]
      exact hcheck

theorem port_mem_of_not_denied (h : p.portDenied port = false) (hports : p.allowedPorts ≠ []) :
    port ∈ p.allowedPorts := by
  rw [portDenied, Bool.or_eq_false_iff] at h
  simpa [hports] using h.2

/-- What is returned is admissible unless the resolver answers the mapped unspecified address. -/
theorem admissible_of_validate (h : p.validate resolver host port = .ok addresses)
    (hescapes : ¬ p.Escapes resolver host port) {a : Addr} (ha : a ∈ addresses) : p.Admissible a := by
  cases hparse : parseAddr (hostOf host) with
  | some b =>
    obtain ⟨rfl, -, -, hcheck⟩ := (validate_literal hparse).1 h
    rw [List.mem_singleton.1 ha, admissible_iff, Addr.unmap_unmap]
    exact hcheck
  | none =>
    have hpasses := (validate_name hparse).1 h
    refine admissible_iff_check.2 ⟨hpasses.checked a ha, ?_⟩
    rw [← Bool.not_eq_true]
    intro hmapped
    exact hescapes ⟨addresses, hpasses, Or.inl ⟨a, ha, hmapped⟩⟩

/-- A literal passes where a name with this single address passes, and the other way round. -/
theorem literal_alike (hescapes : ¬ p.Escapes resolver host port) {literal : Text} {a : Addr}
    (hliteral : parseAddr (hostOf literal) = some a) (hname : parseAddr (hostOf host) = none)
    (hhost : hostOf host ≠ []) (hsuffix : p.suffixAllowed (hostOf host) = true)
    (hanswer : resolver (hostOf host) = .ok [a]) :
    (∃ l, p.validate resolver literal port = .ok l) ↔ ∃ l, p.validate resolver host port = .ok l := by
  constructor
  · rintro ⟨l, hl⟩
    obtain ⟨-, hport, -, hcheck⟩ := (validate_literal hliteral).1 hl
    refine ⟨[a], (validate_name hname).2 ⟨hname, hhost, hport, hsuffix, hanswer, by simp, ?_⟩⟩
    intro b hb
    rw [List.mem_singleton.1 hb]
    exact (checkAddress_unmap.1 hcheck).1
  · rintro ⟨l, hl⟩
    have hpasses := (validate_name hname).1 hl
    obtain rfl : l = [a] := Except.ok.inj (hpasses.resolved.symm.trans hanswer)
    refine ⟨[a.unmap], (validate_literal hliteral).2 ⟨rfl, hpasses.port, ?_, ?_⟩⟩
    · intro hdenied
      by_contra hzone
      exact hescapes ⟨[a], hpasses, Or.inr ⟨a, rfl, hzone, literal, hliteral, hdenied⟩⟩
    · refine checkAddress_unmap.2 ⟨hpasses.checked a List.mem_cons_self, ?_⟩
      rw [← Bool.not_eq_true]
      intro hmapped
      exact hescapes ⟨[a], hpasses, Or.inl ⟨a, List.mem_cons_self, hmapped⟩⟩

end

/-- The validation is sound exactly where nothing escapes it. -/
theorem validate_sound_iff (p : Policy) (resolver : Resolver) (host : Text) (port : UInt16) :
    p.Sound resolver host port ↔ ¬ p.Escapes resolver host port := by
  constructor
  · rintro hsound ⟨answers, hpasses, ⟨a, ha, hmapped⟩ | ⟨a, rfl, hzone, literal, hliteral, hdenied⟩⟩
    · obtain ⟨-, hadmissible, -⟩ := hsound.returned answers ((validate_name hpasses.name).2 hpasses)
      have hnot := (admissible_iff_check.1 (hadmissible a ha)).2
      rw [hmapped] at hnot
      cases hnot
    · have hvalid := (validate_name hpasses.name).2 hpasses
      obtain ⟨l, hl⟩ := (hsound.alike literal a hliteral hpasses.name hpasses.nonempty hpasses.suffix
        hpasses.resolved).2 ⟨[a], hvalid⟩
      obtain ⟨-, -, hsuffix, -⟩ := (validate_literal hliteral).1 hl
      exact hzone (hsuffix hdenied)
  · intro hescapes
    constructor
    · intro addresses h
      obtain ⟨hport, -, -, hne, -, -⟩ := validate_eq_ok.1 h
      refine ⟨hne, ?_, port_mem_of_not_denied hport⟩
      exact fun a ha => admissible_of_validate h hescapes ha
    · intro literal a hliteral hname hhost hsuffix hanswer
      exact literal_alike hescapes hliteral hname hhost hsuffix hanswer

/-- The unspecified address in its mapped form, as a resolver may answer it. -/
def mappedUnspecified : Addr := .v6 0xffff00000000#128 []

/-- A name that resolves to the mapped unspecified address is validated. -/
theorem validate_mapped_unspecified :
    ¬ Sound ⟨[], [], []⟩ (fun _ => .ok [mappedUnspecified]) "db.example.com".toList 3306 := by
  intro hsound
  have hvalid : Policy.validate ⟨[], [], []⟩ (fun _ => .ok [mappedUnspecified])
      "db.example.com".toList 3306 = .ok [mappedUnspecified] := by
    decide +kernel
  obtain ⟨-, hadmissible, -⟩ := hsound.returned _ hvalid
  have hunspecified := (hadmissible _ List.mem_cons_self).unspecified
  exact absurd hunspecified (by decide)

end Policy

end Workbench.Network
