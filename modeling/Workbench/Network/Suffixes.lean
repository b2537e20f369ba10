import Workbench.Network.Policy

/-!
# Allowed suffixes

`splitList` of `api/internal/config/config.go` with `suffixAllowed` of `api/internal/network/policy.go`. An entry of
the list is a domain, which a dot may stand in front of. The end of a host is compared with the entry as a text:
`suffixAllowed_iff` says where that is the comparison of domains. `Validate` asks only when there is a list.
-/

set_option autoImplicit false

namespace Workbench.Network

def splitList (value : Text) : List Text := ((value.splitOn ',').map trimSpace).filter fun part => part ≠ []

/-- The policy that a list of suffixes is configured with. -/
def suffixPolicy (value : Text) : Policy := ⟨[], [], splitList value⟩

/-- A domain without its case and without its trailing dot. -/
def domainOf (name : Text) : Text := trimSuffix (toLower name) ['.']

/-- The host is the domain of an entry, or below it. -/
def Lists (suffix host : Text) : Prop :=
  domainOf host = domainOf (trimPrefix suffix ['.']) ∨ '.' :: domainOf (trimPrefix suffix ['.']) <:+ domainOf host

/-- Both end with a dot, or neither does. -/
def EndAlike (suffix host : Text) : Prop := (trimPrefix suffix ['.']).getLast? = some '.' ↔ host.getLast? = some '.'

/-- The host ends with the text of the entry inside a label: the entry begins with no dot, is not the host, and has no
dot in front of it there. An entry that is a dot alone strays at every host with a trailing dot. -/
def Strays (suffix host : Text) : Prop :=
  toLower suffix <:+ toLower host ∧
    (suffix = ['.'] ∨
      suffix.head? ≠ some '.' ∧ toLower suffix ≠ toLower host ∧ ¬ '.' :: toLower suffix <:+ toLower host)

/-- Where comparing texts comes to comparing domains: there is a list, an entry that strays does no harm, and not all
the entries that list the host differ from it in the trailing dot. -/
structure Bounded (suffixes : List Text) (host : Text) : Prop where
  nonempty : suffixes ≠ []
  strays : ∀ suffix ∈ suffixes, Strays suffix host → ∃ entry ∈ suffixes, Lists entry host
  listed : ∀ suffix ∈ suffixes, Lists suffix host →
    ∃ entry ∈ suffixes, (Lists entry host ∧ EndAlike entry host) ∨ Strays entry host

/-! ## Dots and case -/

theorem runeToLower_dot {c : Char} : runeToLower c = '.' ↔ c = '.' := by
  unfold runeToLower asciiLower
  split
  · next hkelvin =>
      rw [hkelvin]
      decide
  split
  · next hdotted =>
      rw [hdotted]
      decide
  split
  · next hupper =>
      simp only [isUpper, Bool.and_eq_true, decide_eq_true_eq, char_le_iff] at hupper
      have hcodes : ∀ n ∈ List.range 26, Char.ofNat (n + 97) ≠ '.' := by decide
      have hbounds : 65 ≤ c.toNat ∧ c.toNat ≤ 90 := hupper
      have hletter := hcodes (c.toNat - 65) (List.mem_range.2 (by omega))
      have hcode : c.toNat - 65 + 97 = c.toNat + 32 := by omega
      rw [hcode] at hletter
      refine iff_of_false hletter ?_
      rintro rfl
      exact absurd hbounds (by decide)
  · exact Iff.rfl

theorem trimPrefix_plain {c : Char} (h : c ≠ '.') (rest : Text) : trimPrefix (c :: rest) ['.'] = c :: rest := by
  rw [trimPrefix, if_neg]
  simp [Ne.symm h]

theorem trimPrefix_toLower (s : Text) : trimPrefix (toLower s) ['.'] = toLower (trimPrefix s ['.']) := by
  cases s with
  | nil => rfl
  | cons c rest =>
    by_cases hc : c = '.'
    · rw [hc]
      rfl
    · have hlower : runeToLower c ≠ '.' := fun h => hc (runeToLower_dot.1 h)
      rw [trimPrefix_plain hc]
      exact trimPrefix_plain hlower _

/-- A dot in front makes up for the one that is trimmed. -/
theorem suffix_dotted (s : Text) : s <:+ '.' :: trimPrefix s ['.'] := by
  cases s with
  | nil => exact List.nil_suffix
  | cons c rest =>
    by_cases hc : c = '.'
    · rw [hc]
      exact List.suffix_refl _
    · rw [trimPrefix_plain hc]
      exact List.suffix_cons _ _

theorem getLast?_toLower (s : Text) : (toLower s).getLast? = some '.' ↔ s.getLast? = some '.' := by
  rw [toLower, List.getLast?_map, Option.map_eq_some_iff]
  constructor
  · rintro ⟨c, hc, hdot⟩
    rw [hc, runeToLower_dot.1 hdot]
  · intro h
    exact ⟨'.', h, by decide⟩

theorem trimSuffix_dot (front : Text) : trimSuffix (front ++ ['.']) ['.'] = front := by
  have hsuffix : ['.'].isSuffixOf (front ++ ['.']) = true := by
    rw [List.isSuffixOf_iff_suffix]
    exact List.suffix_append _ _
  rw [trimSuffix, if_pos hsuffix, List.length_append, List.length_singleton, Nat.add_sub_cancel, List.take_left]

theorem trimSuffix_plain {s : Text} (h : s.getLast? ≠ some '.') : trimSuffix s ['.'] = s := by
  rw [trimSuffix, if_neg]
  rw [List.isSuffixOf_iff_suffix]
  rintro ⟨front, rfl⟩
  exact h List.getLast?_concat

/-- Of two texts that both end with a dot, or neither, the trailing dots can be left away. -/
theorem compare_trimSuffix {a b : Text} (halike : a.getLast? = some '.' ↔ b.getLast? = some '.') :
    (trimSuffix b ['.'] = trimSuffix a ['.'] ↔ b = a) ∧
      ('.' :: trimSuffix a ['.'] <:+ trimSuffix b ['.'] ↔ '.' :: a <:+ b) := by
  by_cases ha : a.getLast? = some '.'
  · obtain ⟨x, rfl⟩ := List.getLast?_eq_some_iff.1 ha
    obtain ⟨y, rfl⟩ := List.getLast?_eq_some_iff.1 (halike.1 ha)
    rw [trimSuffix_dot, trimSuffix_dot]
    constructor
    · exact (List.append_left_inj _).symm
    · constructor
      · rintro ⟨front, rfl⟩
        exact ⟨front, by simp⟩
      · rintro ⟨front, hfront⟩
        rw [← List.cons_append, ← List.append_assoc] at hfront
        exact ⟨front, List.append_cancel_right hfront⟩
  · rw [trimSuffix_plain ha, trimSuffix_plain (halike.not.1 ha)]
    exact ⟨Iff.rfl, Iff.rfl⟩

/-! ## One entry -/

section

variable {suffix host : Text}

theorem endAlike_iff : EndAlike suffix host ↔
    ((toLower (trimPrefix suffix ['.'])).getLast? = some '.' ↔ (toLower host).getLast? = some '.') := by
  rw [EndAlike, getLast?_toLower, getLast?_toLower]

/-- Where both end alike, the entry lists the host if its text does so. -/
theorem lists_iff (halike : EndAlike suffix host) :
    Lists suffix host ↔ toLower host = toLower (trimPrefix suffix ['.']) ∨
      '.' :: toLower (trimPrefix suffix ['.']) <:+ toLower host := by
  have hcompare := compare_trimSuffix (endAlike_iff.1 halike)
  exact or_congr hcompare.1 hcompare.2

/-- A host below the text of an entry ends as the entry does. -/
theorem endAlike_of_suffix (hne : trimPrefix suffix ['.'] ≠ [])
    (h : toLower (trimPrefix suffix ['.']) <:+ toLower host) : EndAlike suffix host := by
  have hlower : toLower (trimPrefix suffix ['.']) ≠ [] := fun hnil => hne (List.map_eq_nil_iff.1 hnil)
  have hlast := h.getLast hlower
  rw [endAlike_iff, List.getLast?_eq_some_getLast hlower, List.getLast?_eq_some_getLast (h.ne_nil hlower), hlast]

theorem lists_of_suffix (hne : trimPrefix suffix ['.'] ≠ [])
    (h : '.' :: toLower (trimPrefix suffix ['.']) <:+ toLower host) : Lists suffix host ∧ EndAlike suffix host := by
  have halike := endAlike_of_suffix hne ((List.suffix_cons _ _).trans h)
  exact ⟨(lists_iff halike).2 (Or.inr h), halike⟩

/-- A host that ends with the text of an entry is listed by it, or the entry strays. -/
theorem lists_or_strays (hne : suffix ≠ []) (h : toLower suffix <:+ toLower host) :
    (Lists suffix host ∧ EndAlike suffix host) ∨ Strays suffix host := by
  cases suffix with
  | nil => exact absurd rfl hne
  | cons c rest =>
    by_cases hc : c = '.'
    · rw [hc] at h ⊢
      by_cases hrest : rest = []
      · exact Or.inr ⟨h, Or.inl (by rw [hrest])⟩
      · exact Or.inl (lists_of_suffix hrest h)
    · have hplain := trimPrefix_plain hc rest
      by_cases hequal : toLower (c :: rest) = toLower host
      · have halike : EndAlike (c :: rest) host := by
          rw [endAlike_iff, hplain, hequal]
        refine Or.inl ⟨(lists_iff halike).2 (Or.inl ?_), halike⟩
        rw [hplain, hequal]
      · by_cases hdotted : '.' :: toLower (c :: rest) <:+ toLower host
        · refine Or.inl (lists_of_suffix ?_ ?_)
          · rw [hplain]
            exact hne
          · rwa [hplain]
        · exact Or.inr ⟨h, Or.inr ⟨fun hhead => hc (Option.some.inj hhead), hequal, hdotted⟩⟩

/-- The round of `suffixAllowed` for an entry. -/
theorem round_iff (hne : suffix ≠ []) :
    (toLower host = trimPrefix (toLower suffix) ['.'] ∨ toLower suffix <:+ toLower host) ↔
      (Lists suffix host ∧ EndAlike suffix host) ∨ Strays suffix host := by
  rw [trimPrefix_toLower]
  constructor
  · rintro (hequal | hsuffix)
    · have halike : EndAlike suffix host := by
        rw [endAlike_iff, hequal]
      exact Or.inl ⟨(lists_iff halike).2 (Or.inl hequal), halike⟩
    · exact lists_or_strays hne hsuffix
  · rintro (⟨hlists, halike⟩ | hstrays)
    · rcases (lists_iff halike).1 hlists with hequal | hbelow
      · exact Or.inl hequal
      · -- the entry itself is the domain, or the domain behind a dot
        refine Or.inr (List.IsSuffix.trans ?_ hbelow)
        rw [← trimPrefix_toLower]
        exact suffix_dotted _
    · exact Or.inr hstrays.1

end

/-! ## The list -/

/-- The entries of a list are trimmed and not empty. -/
theorem trimmed_of_mem_splitList {value suffix : Text} (h : suffix ∈ splitList value) :
    trimSpace suffix = suffix ∧ suffix ≠ [] := by
  obtain ⟨hpart, hne⟩ := List.mem_filter.1 h
  obtain ⟨part, -, rfl⟩ := List.mem_map.1 hpart
  exact ⟨trimSpace_trimSpace part, of_decide_eq_true hne⟩

theorem suffixAllowed_splitList {value host : Text} :
    (suffixPolicy value).suffixAllowed host = true ↔
      splitList value = [] ∨
        ∃ suffix ∈ splitList value, (Lists suffix host ∧ EndAlike suffix host) ∨ Strays suffix host := by
  by_cases hnone : splitList value = []
  · refine iff_of_true ?_ (Or.inl hnone)
    rw [Policy.suffixAllowed, if_pos]
    exact hnone
  · rw [Policy.suffixAllowed, if_neg (show (suffixPolicy value).allowedSuffixes ≠ [] from hnone), List.any_eq_true,
      or_iff_right hnone]
    apply exists_congr
    intro suffix
    apply and_congr_right
    intro hmem
    obtain ⟨htrimmed, hne⟩ := trimmed_of_mem_splitList hmem
    have hlower : toLower suffix ≠ [] := fun h => hne (List.map_eq_nil_iff.1 h)
    rw [htrimmed, ← round_iff hne]
    simp [hlower]

/-- **A host is admitted just where a listed domain is the host or above it, if the comparison is bounded, and only
then.** -/
theorem suffixAllowed_iff (value host : Text) :
    ((suffixPolicy value).suffixAllowed host = true ↔ ∃ suffix ∈ splitList value, Lists suffix host) ↔
      Bounded (splitList value) host := by
  rw [suffixAllowed_splitList]
  constructor
  · intro hagrees
    refine ⟨?_, ?_, ?_⟩
    · intro hnone
      obtain ⟨suffix, hmem, -⟩ := hagrees.1 (Or.inl hnone)
      rw [hnone] at hmem
      cases hmem
    · intro suffix hmem hstrays
      exact hagrees.1 (Or.inr ⟨suffix, hmem, Or.inr hstrays⟩)
    · intro suffix hmem hlists
      refine (hagrees.2 ⟨suffix, hmem, hlists⟩).resolve_left ?_
      intro hnone
      rw [hnone] at hmem
      cases hmem
  · intro hbounded
    constructor
    · rintro (hnone | ⟨suffix, hmem, hlists | hstrays⟩)
      · exact absurd hnone hbounded.nonempty
      · exact ⟨suffix, hmem, hlists.1⟩
      · exact hbounded.strays suffix hmem hstrays
    · rintro ⟨suffix, hmem, hlists⟩
      exact Or.inr (hbounded.listed suffix hmem hlists)

/-- A host of somebody else ends with the text of the listed domain. -/
theorem suffixAllowed_strays :
    ¬((suffixPolicy "example.com".toList).suffixAllowed (hostOf "badexample.com".toList) = true ↔
      ∃ suffix ∈ splitList "example.com".toList, Lists suffix (hostOf "badexample.com".toList)) := by
  have hlist : splitList "example.com".toList = ["example.com".toList] := by decide
  intro hagrees
  obtain ⟨suffix, hmem, hlists⟩ := hagrees.1 (by decide)
  rw [hlist, List.mem_singleton] at hmem
  rw [hmem] at hlists
  revert hlists
  unfold Lists
  decide

end Workbench.Network
