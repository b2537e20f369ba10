import Workbench.Network.Policy

/-!
# What is validated and what is dialed

The way of a connection from the request to the drivers: `POST /api/connections` and the sessions of saved
connections in `api/internal/httpapi`, `OpenHandle` in `api/internal/db`, and the switches to other
databases. The validation's addresses are dropped in `cmd/server/main.go`, and a driver gets the host as it
stands in the request. What a driver dials for its configuration is a parameter; a host that is no literal
it looks up itself, each time.
-/

set_option autoImplicit false

namespace Workbench.Network

open Workbench.Lib

inductive Driver where
  | mySQL
  | postgreSQL
  | mongoDB
  | redis
  | unsupported (name : Text)
  deriving DecidableEq, Repr

structure ConnectionInput where
  driver : Driver
  host : Text
  port : UInt16
  database : Text
  user : Text
  password : Text
  tlsMode : Text
  deriving DecidableEq, Repr

/-- `strconv.Atoi` as far as `openRedis` lets it count: an index from 0 to 15. -/
def redisIndex (database : Text) : Option Nat :=
  let digits :=
    match database with
    | '+' :: rest => rest
    | '-' :: rest => rest
    | _ => database
  if digits = [] then none
  else
    match digits.mapM decimalDigit with
    | none => none
    | some ds =>
      let n := ds.foldl (fun acc d => 10 * acc + d) 0
      if database.head? = some '-' ∧ n ≠ 0 then none else if n ≤ 15 then some n else none

namespace ConnectionInput

/-- The default databases that the handlers fill in. -/
def withDefaults (input : ConnectionInput) : ConnectionInput :=
  if input.driver = .postgreSQL ∧ input.database = [] then
    { input with database := "postgres".toList }
  else if input.driver = .mongoDB ∧ input.database = [] then { input with database := "admin".toList }
  else input

/-- What is checked before a driver is asked to connect. -/
def accepted (input : ConnectionInput) : Bool :=
  input.host ≠ [] && input.port ≠ 0 &&
    match input.driver with
    | .mySQL =>
      input.user ≠ [] && (["", "disabled", "preferred", "required", "skip-verify"].map String.toList).contains
        input.tlsMode
    | .postgreSQL =>
      input.user ≠ [] && (["", "disable", "allow", "prefer", "require", "verify-ca",
        "verify-full"].map String.toList).contains input.tlsMode
    | .mongoDB => true
    | .redis => input.database = [] || (redisIndex input.database).isSome
    | .unsupported _ => false

/-- The configuration that the handle keeps. -/
def kept (input : ConnectionInput) : ConnectionInput :=
  match input.driver with
  | .redis =>
    { input with database := (toString ((redisIndex input.database).getD 0)).toList }
  | .mongoDB => if input.database = [] then { input with database := "admin".toList } else input
  | _ => input

/-- A request to open a connection gives this configuration to a driver, at once or after switches to other
databases. -/
inductive Given (input : ConnectionInput) : ConnectionInput → Prop
  | create (h : input.withDefaults.accepted = true) : Given input input.withDefaults
  | switch {config : ConnectionInput} {database : Text} (hgiven : Given input config)
      (hset : database ≠ []) (hother : database ≠ config.kept.database)
      (h : ({ config.kept with database := database } : ConnectionInput).accepted = true) :
      Given input { config.kept with database := database }

end ConnectionInput

/-- The addresses that a driver dials for a host: that of a literal, or the answers of the resolver at that
time. -/
def lookup (resolver : Resolver) (host : Text) : Except Text (List Addr) := Policy.resolve resolver host

/-- The hosts and ports that a driver comes to dial for a configuration. -/
abbrev Dials := ConnectionInput → Text → UInt16 → Prop

/-- Whatever the resolver answers at each time: what the drivers dial for a connection is what its
validation returned, an admissible address, on an allowed port. -/
def Pinned (p : Policy) (dials : Dials) (input : ConnectionInput) : Prop :=
  ∀ resolver addresses, p.validate resolver input.host input.port = .ok addresses →
    ∀ config, input.Given config → ∀ host port, dials config host port →
      ∀ resolver' answers, lookup resolver' host = .ok answers →
        ∀ a ∈ answers, a ∈ addresses ∧ p.Admissible a ∧ p.portDenied port = false

/-- The validation refuses the request whatever the resolver answers. -/
def Refused (p : Policy) (input : ConnectionInput) : Prop :=
  p.portDenied input.port = true ∨ hostOf input.host = [] ∨ p.suffixDenied (hostOf input.host) = true ∨
    match parseAddr (hostOf input.host) with
    | some a => p.checkAddress a.unmap ≠ none
    | none => ∀ a, p.checkAddress a ≠ none

/-- The one address that the validation can return. -/
def OnlyTarget (p : Policy) (input : ConnectionInput) (a : Addr) : Prop :=
  match parseAddr (hostOf input.host) with
  | some b => a = b.unmap
  | none => ∀ b, p.checkAddress b = none → b = a

section

variable {p : Policy} {dials : Dials} {input : ConnectionInput}

theorem Refused.not_valid (h : Refused p input) (resolver : Resolver) (addresses : List Addr) :
    p.validate resolver input.host input.port ≠ .ok addresses := by
  intro hvalid
  obtain ⟨hport, hhost, hresolve, hne, hsuffix, hcheck⟩ := Policy.validate_eq_ok.1 hvalid
  rcases h with hdenied | hempty | hdenied | htarget
  · rw [hport] at hdenied
    cases hdenied
  · exact hhost hempty
  · rw [hsuffix] at hdenied
    cases hdenied
  · rw [Policy.resolve] at hresolve
    cases hparse : parseAddr (hostOf input.host) with
    | some a =>
      rw [hparse] at hresolve htarget
      cases hresolve
      exact htarget (hcheck _ List.mem_cons_self)
    | none =>
      rw [hparse] at htarget
      obtain ⟨a, ha⟩ := List.exists_mem_of_ne_nil _ hne
      exact htarget a (hcheck a ha)

/-- A request that is not refused is validated with a literal, or with any single address that passes. -/
theorem valid_of_not_refused (h : ¬ Refused p input) :
    (∀ a, parseAddr (hostOf input.host) = some a →
      ∀ resolver, p.validate resolver input.host input.port = .ok [a.unmap]) ∧
    (parseAddr (hostOf input.host) = none →
      (∃ a, p.checkAddress a = none) ∧ ∀ a, p.checkAddress a = none →
        p.validate (fun _ => .ok [a]) input.host input.port = .ok [a]) := by
  simp only [Refused, not_or] at h
  obtain ⟨hport, hhost, hsuffix, htarget⟩ := h
  rw [Bool.not_eq_true] at hport hsuffix
  constructor
  · intro a hparse resolver
    rw [hparse, not_not] at htarget
    refine Policy.validate_eq_ok.2 ⟨hport, hhost, ?_, List.cons_ne_nil _ _, hsuffix, ?_⟩
    · rw [Policy.resolve, hparse]
    · intro b hb
      rw [List.mem_singleton.1 hb]
      exact htarget
  · intro hparse
    rw [hparse] at htarget
    refine ⟨by simpa using htarget, ?_⟩
    intro a ha
    refine Policy.validate_eq_ok.2 ⟨hport, hhost, ?_, List.cons_ne_nil _ _, hsuffix, ?_⟩
    · rw [Policy.resolve, hparse]
    · intro b hb
      rw [List.mem_singleton.1 hb]
      exact ha

/-- `127.0.0.1` is never admissible. -/
def loopback : Addr := .v4 0x7f000001

theorem not_admissible_loopback : ¬ p.Admissible loopback := by
  intro h
  exact absurd h.loopback (by decide)

/-- A validated request has only one address, if that is the only one it can have. -/
theorem onlyTarget_valid {resolver : Resolver} {addresses : List Addr} {a : Addr}
    (hvalid : p.validate resolver input.host input.port = .ok addresses)
    (htarget : OnlyTarget p input a) : a ∈ addresses := by
  obtain ⟨-, -, hresolve, hne, -, hcheck⟩ := Policy.validate_eq_ok.1 hvalid
  rw [OnlyTarget] at htarget
  rw [Policy.resolve] at hresolve
  cases hparse : parseAddr (hostOf input.host) with
  | some b =>
    rw [hparse] at hresolve htarget
    cases hresolve
    rw [htarget]
    exact List.mem_cons_self
  | none =>
    rw [hparse] at htarget
    obtain ⟨b, hb⟩ := List.exists_mem_of_ne_nil _ hne
    rw [← htarget b (hcheck b hb)]
    exact hb

end

/-- Validated and dialed addresses are the same, whatever the resolver does, exactly for the requests that
are refused in any case and for those whose drivers only dial literals of the one address that the
validation can return. -/
theorem pinned_iff (p : Policy) (dials : Dials) (input : ConnectionInput) :
    Pinned p dials input ↔ Refused p input ∨
      ∀ config, input.Given config → ∀ host port, dials config host port →
        p.portDenied port = false ∧ ∃ a, parseAddr host = some a ∧ OnlyTarget p input a.unmap := by
  constructor
  · intro hpinned
    by_cases hrefused : Refused p input
    · exact Or.inl hrefused
    refine Or.inr ?_
    obtain ⟨hliteral, hname⟩ := valid_of_not_refused hrefused
    intro config hgiven host port hdials
    obtain ⟨resolver, addresses, hvalid⟩ : ∃ resolver addresses,
        p.validate resolver input.host input.port = .ok addresses := by
      cases hparse : parseAddr (hostOf input.host) with
      | some a => exact ⟨fun _ => .ok [], _, hliteral a hparse _⟩
      | none =>
        obtain ⟨⟨a, ha⟩, hany⟩ := hname hparse
        exact ⟨_, _, hany a ha⟩
    cases hhost : parseAddr host with
    | none =>
      -- The resolver may answer the loopback address this time.
      have hlookup : lookup (fun _ => .ok [loopback]) host = .ok [loopback] := by
        rw [lookup, Policy.resolve, hhost]
      obtain ⟨-, hadmissible, -⟩ := hpinned resolver addresses hvalid config hgiven host port hdials _ _
        hlookup loopback List.mem_cons_self
      exact absurd hadmissible not_admissible_loopback
    | some b =>
      have hlookup : ∀ r, lookup r host = .ok [b.unmap] := by
        intro r
        rw [lookup, Policy.resolve, hhost]
      have hdialed : ∀ r l, p.validate r input.host input.port = .ok l →
          b.unmap ∈ l ∧ p.Admissible b.unmap ∧ p.portDenied port = false := by
        intro r l hl
        exact hpinned r l hl config hgiven host port hdials r _ (hlookup r) _ List.mem_cons_self
      refine ⟨(hdialed resolver addresses hvalid).2.2, b, rfl, ?_⟩
      rw [OnlyTarget]
      cases hparse : parseAddr (hostOf input.host) with
      | some a => exact List.mem_singleton.1 (hdialed (fun _ => .ok []) _ (hliteral a hparse _)).1
      | none =>
        intro c hc
        exact (List.mem_singleton.1 (hdialed _ _ ((hname hparse).2 c hc)).1).symm
  · rintro (hrefused | htargets) resolver addresses hvalid config hgiven host port hdials resolver' answers
      hlookup a ha
    · exact absurd hvalid (hrefused.not_valid resolver addresses)
    · obtain ⟨hport, b, hhost, htarget⟩ := htargets config hgiven host port hdials
      rw [lookup, Policy.resolve, hhost] at hlookup
      cases hlookup
      obtain rfl : a = b.unmap := List.mem_singleton.1 ha
      have hmem := onlyTarget_valid hvalid htarget
      refine ⟨hmem, ?_, hport⟩
      obtain ⟨-, -, -, -, -, hcheck⟩ := Policy.validate_eq_ok.1 hvalid
      rw [Policy.admissible_iff, Addr.unmap_unmap]
      exact hcheck _ hmem

/-- A driver that dials the host and the port it is given. -/
def dialsOwn : Dials := fun config host port => host = config.host ∧ port = config.port

/-- A request with a host name. -/
def byName : ConnectionInput :=
  ⟨.mySQL, "db.example.com".toList, 3306, "shop".toList, "app".toList, [], []⟩

/-- The resolver first answers an allowed address, and then the loopback address. -/
theorem not_pinned_name : ¬ Pinned ⟨[.v4 0x0a000000 8], [3306], []⟩ dialsOwn byName := by
  intro hpinned
  have hvalid : Policy.validate ⟨[.v4 0x0a000000 8], [3306], []⟩ (fun _ => .ok [.v4 0x0a000001])
      byName.host byName.port = .ok [.v4 0x0a000001] := by
    decide +kernel
  have hgiven : byName.Given byName := ConnectionInput.Given.create (by decide +kernel)
  obtain ⟨-, hadmissible, -⟩ := hpinned _ _ hvalid byName hgiven byName.host byName.port ⟨rfl, rfl⟩
    (fun _ => .ok [loopback]) [loopback] (by decide +kernel) loopback List.mem_cons_self
  exact not_admissible_loopback hadmissible

end Workbench.Network
