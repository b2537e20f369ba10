import Workbench.Web.ClientRisk
import Workbench.Web.Readings

/-!
# What the client reads in front of a target

The target that the editor makes the user type is read by a regular expression from the front of the
normalised text, the one of the server is a token. The expression is cut here into phases: what it
expects next. At a delimiter it finds nothing that the gate can ask for, at a keyword it goes on to
the next phase or finds the keyword itself, and at any other word it finds the word, or what is left of
it behind a kind of object (`phaseReads_keyword`, `phaseReads_word`).
-/

set_option autoImplicit false

namespace Workbench.Web

open Workbench.Lib Workbench.Query

/-! ## Phases -/

/-- What the regular expression expects next. -/
inductive Phase where
  | verb
  | kind
  | ifWord
  | existsWord
  | target
  deriving DecidableEq, Repr

/-- Group 2 of the match, read from the phase on. -/
def phaseReads (p : Phase) (source : Text) : Option Text :=
  match p with
  | .verb => (matchDestructive (source.dropWhile isScriptSpace)).map Prod.snd
  | .kind => readKind source
  | .ifWord => readIf source
  | .existsWord => readExists source
  | .target => readTarget source

/-- The phase behind a keyword. -/
def Phase.next (p : Phase) (word : Text) : Option Phase :=
  let upper := word.map asciiUpper
  match p with
  | .verb => if destructiveVerbs.contains upper then some .kind else none
  | .kind =>
    if objectKinds.contains upper then some .ifWord
    else if upper = "IF".toList then some .existsWord
    else none
  | .ifWord => if upper = "IF".toList then some .existsWord else none
  | .existsWord => if upper = "EXISTS".toList then some .target else none
  | .target => none

/-- White space in front is skipped in every phase. -/
theorem phaseReads_dropWhile (p : Phase) (source : Text) :
    phaseReads p (source.dropWhile isScriptSpace) = phaseReads p source := by
  cases p <;>
    simp only [phaseReads, readKind, readIf, readExists, readTarget, List.dropWhile_idempotent]

/-! ## Targets -/

/-- The text does not continue a target of the client. -/
def StopsTarget (text : Text) : Prop := ∀ c, text.head? = some c → isTargetChar c = false

theorem readTarget_shape {text w : Text} (h : w ∈ targetAt text) :
    w ≠ [] ∧ w.all isTargetChar = true ∧ w <:+: text := by
  rw [targetAt] at h
  split_ifs at h with hne
  · rw [List.mem_singleton.1 h]
    exact ⟨hne, List.all_takeWhile, (List.takeWhile_prefix _).isInfix⟩
  · exact absurd h List.not_mem_nil

/-- Behind the verb a target is a part of the text without white space. -/
theorem phaseReads_shape {p : Phase} (hp : p ≠ .verb) {source w : Text}
    (h : phaseReads p source = some w) :
    w ≠ [] ∧ w.all isTargetChar = true ∧ w <:+: source := by
  -- each reader is a matcher that reads from the front, with the target behind it
  have hmatcher : ∀ m : Matcher Char, Matcher.Consumes (fun _ => true) m →
      w ∈ (m (source.dropWhile isScriptSpace)).flatMap targetAt →
      w ≠ [] ∧ w.all isTargetChar = true ∧ w <:+: source := by
    intro m hm hmem
    obtain ⟨behind, hbehind, htarget⟩ := List.mem_flatMap.1 hmem
    obtain ⟨x, hx, -⟩ := hm _ behind hbehind
    obtain ⟨hne, hchars, hin⟩ := readTarget_shape htarget
    have hbehind : behind <:+ source.dropWhile isScriptSpace := ⟨x, hx.symm⟩
    have hsuffix := hbehind.trans (List.dropWhile_suffix isScriptSpace)
    exact ⟨hne, hchars, hin.trans hsuffix.isInfix⟩
  cases p with
  | verb => exact absurd rfl hp
  | kind => exact hmatcher _ (consumes_kind.opt.seq consumes_behindKind) (List.mem_of_mem_head? h)
  | ifWord => exact hmatcher _ consumes_ifExists.opt (List.mem_of_mem_head? h)
  | existsWord => exact hmatcher _ consumes_existsSpaces (List.mem_of_mem_head? h)
  | target =>
    obtain ⟨hne, hchars, hin⟩ := readTarget_shape (List.mem_of_mem_head? h)
    exact ⟨hne, hchars, hin.trans (List.dropWhile_suffix _).isInfix⟩

theorem readTarget_eq_some_iff {text w : Text} :
    readTarget text = some w ↔
      w ≠ [] ∧ (text.dropWhile isScriptSpace).takeWhile isTargetChar = w := by
  rw [readTarget, targetAt]
  generalize (text.dropWhile isScriptSpace).takeWhile isTargetChar = target
  by_cases hne : target ≠ []
  · rw [if_pos hne, List.head?_cons, Option.some_inj]
    constructor
    · rintro rfl
      exact ⟨hne, rfl⟩
    · exact fun h => h.2
  · rw [if_neg hne]
    rw [not_not] at hne
    subst hne
    constructor
    · intro h
      exact absurd h (by simp)
    · rintro ⟨hw, rfl⟩
      exact absurd rfl hw

/-- A run of target characters in front of a delimiter is all of the target, or the target holds the
delimiter. -/
theorem takeWhile_target_iff {u rest w : Text} (hu : u.all isTargetChar = true)
    (hrest : StopsWord rest) (hw : w.all isWordChar = true) :
    (u ++ rest).takeWhile isTargetChar = w ↔ u = w ∧ StopsTarget rest := by
  rw [List.takeWhile_append_of_pos (List.all_eq_true.1 hu)]
  have hnil : StopsTarget [] := fun c hc => absurd hc (by simp)
  cases rest with
  | nil =>
    rw [List.takeWhile_nil, List.append_nil]
    exact ⟨fun h => ⟨h, hnil⟩, fun h => h.1⟩
  | cons c rest =>
    by_cases hc : isTargetChar c = true
    · rw [List.takeWhile_cons_of_pos hc]
      constructor
      · rintro rfl
        have hmem : isWordChar c = true := List.all_eq_true.1 hw c (by simp)
        rw [hrest c rfl] at hmem
        exact absurd hmem Bool.false_ne_true
      · rintro ⟨-, hstops⟩
        rw [hstops c rfl] at hc
        exact absurd hc Bool.false_ne_true
    · rw [List.takeWhile_cons_of_neg hc, List.append_nil]
      refine ⟨fun h => ⟨h, ?_⟩, fun h => h.1⟩
      intro x hx
      obtain rfl : c = x := by simpa using hx
      exact Bool.eq_false_iff.2 hc

theorem not_space_of_targetChars {text : Text} (h : text.all isTargetChar = true) :
    ∀ c ∈ text, isScriptSpace c = false := by
  intro c hc
  have htarget := List.all_eq_true.1 h c hc
  rw [isTargetChar, Bool.and_eq_true, Bool.not_eq_true'] at htarget
  exact htarget.1

theorem noSpaceFirst_of_targetChars {u rest : Text} (hne : u ≠ [])
    (hu : u.all isTargetChar = true) : NoSpaceFirst (u ++ rest) := by
  cases u with
  | nil => exact absurd rfl hne
  | cons a u =>
    intro c hc
    obtain rfl : a = c := by simpa using hc
    exact not_space_of_targetChars hu a List.mem_cons_self

theorem readTarget_word_iff {u rest w : Text} (hne : u ≠ []) (hu : u.all isTargetChar = true)
    (hrest : StopsWord rest) (hw : w.all isWordChar = true) :
    readTarget (u ++ rest) = some w ↔ u = w ∧ StopsTarget rest := by
  rw [readTarget_eq_some_iff, (noSpaceFirst_of_targetChars hne hu).dropWhile,
    takeWhile_target_iff hu hrest hw]
  constructor
  · exact fun h => h.2
  · rintro ⟨rfl, hstops⟩
    exact ⟨hne, rfl, hstops⟩

/-! ## Keywords -/

/-- A keyword ends where the word does. -/
theorem literal_of_front {keyword u rest : Text} (hk : keyword.all isUpper = true)
    (hrest : StopsWord rest) (h : keyword <+: (u ++ rest).map asciiUpper) :
    keyword <+: u.map asciiUpper := by
  rw [List.map_append] at h
  rcases List.prefix_or_prefix_of_prefix h (List.prefix_append _ _) with hin | ⟨more, rfl⟩
  · exact hin
  · cases more with
    | nil => rw [List.append_nil]
    | cons k more =>
      -- the keyword would go on with the delimiter
      rw [List.prefix_append_right_inj] at h
      obtain ⟨rest', hrest'⟩ := h
      cases rest with
      | nil => exact absurd hrest' (by simp)
      | cons c rest =>
        obtain ⟨rfl, -⟩ : k = asciiUpper c ∧ more ++ rest' = rest.map asciiUpper := by
          simpa using hrest'
        rw [List.all_append, List.all_cons, Bool.and_eq_true, Bool.and_eq_true] at hk
        have hfalse := hrest c rfl
        rw [(wordChar_of_upper hk.2.1).2] at hfalse
        exact absurd hfalse.symm Bool.false_ne_true

theorem toUpper_of_front {keyword u : Text} (hk : keyword.all isUpper = true)
    (h : keyword <+: u.map asciiUpper) : keyword <+: toUpper u := by
  obtain ⟨more, hmore⟩ := h
  have hrune : ∀ c, isUpper (asciiUpper c) = true → runeToUpper c = asciiUpper c := by
    intro c hc
    rw [runeToUpper]
    split_ifs with h1 h2
    · subst h1
      exact absurd hc (by decide)
    · subst h2
      exact absurd hc (by decide)
    · rfl
  have htake : keyword = (u.take keyword.length).map asciiUpper := by
    rw [List.map_take, ← hmore, List.take_left]
  have hsame : toUpper (u.take keyword.length) = keyword := by
    conv_rhs => rw [htake]
    apply List.map_congr_left
    intro c hc
    apply hrune
    apply List.all_eq_true.1 hk
    rw [htake]
    exact List.mem_map_of_mem hc
  refine ⟨toUpper (u.drop keyword.length), ?_⟩
  conv_rhs => rw [← List.take_append_drop keyword.length u, toUpper, List.map_append]
  exact congrArg (· ++ toUpper (u.drop keyword.length)) hsame.symm

theorem mem_keywords_of_kind {kind : Text} (h : kind ∈ objectKinds) : kind ∈ targetKeywords := by
  have hall : ∀ k ∈ objectKinds, k ∈ targetKeywords := by decide
  exact hall _ h

/-- No keyword continues another. -/
theorem keyword_of_begins {keyword u : Text} (hk : keyword ∈ targetKeywords)
    (hu : toUpper u ∈ targetKeywords) (h : keyword <+: u.map asciiUpper) :
    u.map asciiUpper = keyword := by
  have hall : ∀ a ∈ targetKeywords, ∀ b ∈ targetKeywords, a <+: b → a = b := by decide
  have heq := hall _ hk _ hu (toUpper_of_front (keyword_spec _ hk).1 h)
  apply (List.IsPrefix.eq_of_length h ?_).symm
  rw [heq, toUpper, List.length_map, List.length_map]

/-- What a word has behind a keyword that it starts with. -/
theorem split_of_prefix {keyword v : Text} (h : keyword <+: v.map asciiUpper) :
    ∃ x y, v = x ++ y ∧ x.map asciiUpper = keyword := by
  obtain ⟨more, hmore⟩ := h
  refine ⟨v.take keyword.length, v.drop keyword.length,
    (List.take_append_drop keyword.length v).symm, ?_⟩
  rw [List.map_take, ← hmore, List.take_left]

/-! ## The readers at a delimiter -/

theorem not_prefix_delimiter {rest keyword : Text} (hrest : StopsWord rest)
    (hk : keyword.all isUpper = true) (hne : keyword ≠ []) :
    ¬ keyword <+: rest.map asciiUpper :=
  not_prefix_of_stops hne hk (stopsRegex_of_stopsWord hrest)

section Delimiter

variable {rest : Text} (hrest : StopsWord rest) (hfirst : NoSpaceFirst rest)
include hrest hfirst

/-- What is read starts with the delimiter. -/
theorem readTarget_delimiter {w : Text} (hw : w.all isWordChar = true) :
    readTarget rest ≠ some w := by
  intro h
  rw [readTarget_eq_some_iff, hfirst.dropWhile] at h
  have hempty := (takeWhile_target_iff (u := []) rfl hrest hw).1 h.2
  exact h.1 hempty.1.symm

theorem readExists_delimiter : readExists rest = none :=
  readExists_of_not hfirst (not_prefix_delimiter hrest (by decide) (by decide))

theorem readIf_delimiter : readIf rest = readTarget rest :=
  readIf_of_not hfirst (not_prefix_delimiter hrest (by decide) (by decide))

theorem readKind_delimiter : readKind rest = readTarget rest := by
  rw [readKind_of_not, readIf_delimiter hrest hfirst]
  intro kind hkind
  rw [hfirst.dropWhile]
  exact not_prefix_delimiter hrest (kind_spec kind hkind).1 (kind_spec kind hkind).2

end Delimiter

theorem stopsWord_cons {c : Char} (hc : isWordChar c = false) (rest : Text) :
    StopsWord (c :: rest) := by
  intro x hx
  obtain rfl : c = x := by simpa using hx
  exact hc

theorem noSpaceFirst_cons {c : Char} (hc : isScriptSpace c = false) (rest : Text) :
    NoSpaceFirst (c :: rest) := by
  intro x hx
  obtain rfl : c = x := by simpa using hx
  exact hc

/-- At a delimiter nothing is read that the gate can ask for. -/
theorem phaseReads_delimiter {rest w : Text} (hrest : StopsWord rest) (hfirst : NoSpaceFirst rest)
    (hw : w.all isWordChar = true) (p : Phase) : phaseReads p rest ≠ some w := by
  have htarget := readTarget_delimiter hrest hfirst hw
  cases p with
  | verb =>
    rw [phaseReads, hfirst.dropWhile, matchDestructive_of_not]
    · simp
    · intro verb hverb
      exact not_prefix_delimiter hrest (destructive_spec verb hverb).1 (destructive_spec verb hverb).2
  | kind => rwa [phaseReads, readKind_delimiter hrest hfirst]
  | ifWord => rwa [phaseReads, readIf_delimiter hrest hfirst]
  | existsWord =>
    rw [phaseReads, readExists_delimiter hrest hfirst]
    simp
  | target => exact htarget

/-- Where white space has to follow, a delimiter that follows ends the search. -/
theorem reads_if_space {rest w : Text} (hrest : StopsWord rest) (hw : w.all isWordChar = true)
    (p : Phase) :
    (if rest.head?.any isScriptSpace then phaseReads p rest else none) = some w ↔
      phaseReads p rest = some w := by
  split_ifs with hspace
  · exact Iff.rfl
  · have hfirst : NoSpaceFirst rest := by
      intro c hc
      rw [hc, Option.any_some] at hspace
      exact Bool.eq_false_iff.2 hspace
    exact iff_of_false (by simp) (phaseReads_delimiter hrest hfirst hw p)

/-! ## The readers at a keyword -/

/-- The regular expression behind the verb. -/
theorem phaseReads_verb {v rest w : Text} (hv : v.map asciiUpper ∈ destructiveVerbs)
    (hrest : StopsWord rest) (hw : w.all isWordChar = true) :
    phaseReads .verb (v ++ rest) = some w ↔ phaseReads .kind rest = some w := by
  have hdrop := noSpaceFirst_of_literal (s := rest) (destructive_spec _ hv).1 (destructive_spec _ hv).2 rfl
  rw [phaseReads, hdrop.dropWhile, matchDestructive_of_verb hv]
  exact reads_if_space hrest hw .kind

theorem targetChars_of_word {word : Text} (hchars : word.all isWordChar = true)
    (hspace : ∀ c ∈ word, isScriptSpace c = false) : word.all isTargetChar = true := by
  rw [List.all_eq_true] at hchars ⊢
  intro c hc
  have hsemicolon : c ≠ ';' := by
    rintro rfl
    exact absurd (hchars ';' hc) (by decide)
  rw [isTargetChar, hspace c hc, decide_eq_true hsemicolon]
  rfl

/-- One phase may follow, on a condition. -/
theorem exists_next_iff {c : Prop} [Decidable c] {q : Phase} {P : Phase → Prop} :
    (∃ p', (if c then some q else none) = some p' ∧ P p') ↔ c ∧ P q := by
  by_cases h : c <;> simp [h]

section Keyword

variable {u rest w : Text} (hkey : toUpper u ∈ targetKeywords) (hchars : u.all isWordChar = true)
  (hrest : StopsWord rest) (hw : w.all isWordChar = true) (hfree : isFree w = true)
include hkey

theorem not_prefix_of_keyword (hrest : StopsWord rest) {keyword : Text}
    (hk : keyword ∈ targetKeywords) (hne : u.map asciiUpper ≠ keyword) :
    ¬ keyword <+: (u ++ rest).map asciiUpper := by
  intro h
  exact hne (keyword_of_begins hk hkey (literal_of_front (keyword_spec _ hk).1 hrest h))

include hchars

theorem targetChars_of_keyword : u ≠ [] ∧ u.all isTargetChar = true := by
  refine ⟨fun hnil => (keyword_spec _ hkey).2 (by rw [hnil]; rfl), ?_⟩
  exact targetChars_of_word hchars (@plain_of_upper _ [] (keyword_upper hkey)).2

include hrest hw hfree

/-- The gate never asks for a keyword. -/
theorem readTarget_keyword : readTarget (u ++ rest) ≠ some w := by
  obtain ⟨hne, htarget⟩ := targetChars_of_keyword hkey hchars
  rw [ne_eq, readTarget_word_iff hne htarget hrest hw]
  rintro ⟨rfl, -⟩
  exact isFree_iff.1 hfree hkey

theorem readIf_keyword_iff :
    readIf (u ++ rest) = some w ↔ u.map asciiUpper = "IF".toList ∧ readExists rest = some w := by
  have hne := readTarget_keyword hkey hchars hrest hw hfree
  by_cases hif : u.map asciiUpper = "IF".toList
  · have hspace := reads_if_space hrest hw .existsWord
    change (if rest.head?.any isScriptSpace then readExists rest else none) = some w ↔
      readExists rest = some w at hspace
    rw [readIf_of_literal hif, Option.or_eq_some_iff, hspace]
    exact ⟨fun h => ⟨hif, h.resolve_right fun h' => hne h'.2⟩, fun h => Or.inl h.2⟩
  · obtain ⟨hune, htarget⟩ := targetChars_of_keyword hkey hchars
    rw [readIf_of_not (noSpaceFirst_of_targetChars hune htarget)
      (not_prefix_of_keyword hkey hrest (by decide) hif)]
    exact iff_of_false hne fun h => hif h.1

/-- **At a keyword the expression goes on to the next phase**, or it finds the keyword itself. -/
theorem phaseReads_keyword {p : Phase} (hp : p ≠ .verb) :
    phaseReads p (u ++ rest) = some w ↔
      ∃ p', p.next u = some p' ∧ phaseReads p' rest = some w := by
  obtain ⟨hune, htarget⟩ := targetChars_of_keyword hkey hchars
  have hfirst := @noSpaceFirst_of_targetChars _ rest hune htarget
  have hne := readTarget_keyword hkey hchars hrest hw hfree
  have hif := readIf_keyword_iff hkey hchars hrest hw hfree
  cases p with
  | verb => exact absurd rfl hp
  | kind =>
    rw [phaseReads, Phase.next]
    by_cases hkind : u.map asciiUpper ∈ objectKinds
    · -- the kind is read, or it would have to be the target itself
      have hnot : u.map asciiUpper ≠ "IF".toList := by
        have hall : ∀ k ∈ objectKinds, k ≠ "IF".toList := by decide
        exact hall _ hkind
      rw [if_pos (List.contains_iff_mem.2 hkind), readKind_of_literal hkind rfl,
        Option.or_eq_some_iff, hif]
      constructor
      · rintro (h | h)
        · exact ⟨_, rfl, h⟩
        · exact absurd h.2.1 hnot
      · rintro ⟨p', hp', h⟩
        rw [← Option.some.inj hp'] at h
        exact Or.inl h
    · have hnot : ¬ objectKinds.contains (u.map asciiUpper) = true := by
        rwa [List.contains_iff_mem]
      rw [if_neg hnot, readKind_of_not, hif]
      · rw [exists_next_iff]
        exact Iff.rfl
      · intro kind hmem
        rw [hfirst.dropWhile]
        refine not_prefix_of_keyword hkey hrest (mem_keywords_of_kind hmem) ?_
        rintro rfl
        exact hkind hmem
  | ifWord =>
    rw [phaseReads, hif, Phase.next, exists_next_iff]
    exact Iff.rfl
  | existsWord =>
    rw [phaseReads, Phase.next]
    split_ifs with h
    · have hspace := reads_if_space hrest hw .target
      change (if rest.head?.any isScriptSpace then readTarget rest else none) = some w ↔
        readTarget rest = some w at hspace
      rw [readExists_of_literal h, hspace]
      simp [phaseReads]
    · rw [readExists_of_not hfirst (not_prefix_of_keyword hkey hrest (by decide) h)]
      simp
  | target =>
    rw [phaseReads, Phase.next]
    exact iff_of_false hne (by simp)

end Keyword

/-! ## The readers at any other word -/

section FreeWord

variable {v more : Text} (hne : v ≠ []) (hv : v.all isTargetChar = true) (hmore : StopsWord more)
include hne hv hmore

/-- A keyword that is only the beginning of a word is not followed by white space. -/
theorem word_behind_keyword {keyword : Text} (hk : keyword.all isUpper = true) (h : v.map asciiUpper ≠ keyword) :
    (∃ x rest, v ++ more = x ++ rest ∧ x.map asciiUpper = keyword ∧ rest.head?.any isScriptSpace = false) ∨
      ¬ keyword <+: (v ++ more).map asciiUpper := by
  by_cases hprefix : keyword <+: v.map asciiUpper
  · obtain ⟨x, y, rfl, hx⟩ := split_of_prefix hprefix
    cases y with
    | nil => exact absurd (by rw [List.append_nil, hx]) h
    | cons c y =>
      exact .inl ⟨x, c :: (y ++ more), by simp, hx, not_space_of_targetChars hv c (by simp)⟩
  · exact .inr fun hcon => hprefix (literal_of_front hk hmore hcon)

theorem readIf_word (h : v.map asciiUpper ≠ "IF".toList) :
    readIf (v ++ more) = readTarget (v ++ more) := by
  rcases word_behind_keyword hne hv hmore (by decide) h with ⟨x, rest, hsplit, hx, hspace⟩ | hno
  · rw [hsplit, readIf_of_literal hx, hspace, if_neg Bool.false_ne_true, Option.none_or]
  · exact readIf_of_not (noSpaceFirst_of_targetChars hne hv) hno

theorem readExists_word (h : v.map asciiUpper ≠ "EXISTS".toList) : readExists (v ++ more) = none := by
  rcases word_behind_keyword hne hv hmore (by decide) h with ⟨x, rest, hsplit, hx, hspace⟩ | hno
  · rw [hsplit, readExists_of_literal hx, hspace, if_neg Bool.false_ne_true]
  · exact readExists_of_not (noSpaceFirst_of_targetChars hne hv) hno

/-- What is read of a word is not a longer word of the gate. -/
theorem readTarget_shorter {w : Text} (hw : w.all isWordChar = true) (hlen : v.length < w.length) :
    ∃ t, readTarget (v ++ more) = some t ∧ t ≠ w := by
  have hread : ((v ++ more).dropWhile isScriptSpace).takeWhile isTargetChar ≠ [] := by
    rw [(noSpaceFirst_of_targetChars hne hv).dropWhile,
      List.takeWhile_append_of_pos (List.all_eq_true.1 hv)]
    exact fun hnil => hne (List.append_eq_nil_iff.1 hnil).1
  refine ⟨_, readTarget_eq_some_iff.2 ⟨hread, rfl⟩, fun heq => ?_⟩
  rw [(noSpaceFirst_of_targetChars hne hv).dropWhile, takeWhile_target_iff hv hmore hw] at heq
  rw [heq.1] at hlen
  exact Nat.lt_irrefl _ hlen

omit hne hv hmore in
theorem not_keyword_of_free (hfree : isFree v = true) : ∀ k ∈ targetKeywords, v.map asciiUpper ≠ k := by
  intro k hk heq
  have hprefix := toUpper_of_front (u := v) (keyword_spec _ hk).1 (by rw [heq])
  have hsame : k = toUpper v := by
    apply List.IsPrefix.eq_of_length hprefix
    rw [← heq, toUpper, List.length_map, List.length_map]
  exact isFree_iff.1 hfree (hsame ▸ hk)

omit hne in
/-- A kind of object that a free word begins with is cut off, and what is behind it is no longer the word. -/
theorem readKind_cut (hfree : isFree v = true) {w : Text} (hw : w.all isWordChar = true)
    (hlen : v.length ≤ w.length) {kind : Text} (hkind : kind ∈ objectKinds) (hbegins : kind <+: v.map asciiUpper) :
    readKind (v ++ more) = some w ↔
      (∃ k ∈ objectKinds, v.map asciiUpper = k ++ "IF".toList) ∧ readExists more = some w := by
  obtain ⟨x, y, hxy, hx⟩ := split_of_prefix hbegins
  have hyne : y ≠ [] := by
    rintro rfl
    rw [List.append_nil] at hxy
    exact not_keyword_of_free hfree _ (mem_keywords_of_kind hkind) (by rw [hxy, hx])
  have hy : y.all isTargetChar = true := by
    rw [hxy, List.all_append, Bool.and_eq_true] at hv
    exact hv.2
  have hshort : y.length < w.length := by
    have hxne : x ≠ [] := by
      rintro rfl
      exact (kind_spec _ hkind).2 hx.symm
    have hpos := List.length_pos_iff.2 hxne
    rw [hxy, List.length_append] at hlen
    omega
  obtain ⟨t, ht, hneq⟩ := readTarget_shorter hyne hy hmore hw hshort
  have hread : readKind (v ++ more) = (readIf (y ++ more)).or (readIf (v ++ more)) := by
    rw [hxy, List.append_assoc]
    exact readKind_of_literal hkind hx
  -- no two kinds begin alike, so the kind of an `IF` that is joined is the one that is read
  have hjoined : (∃ k ∈ objectKinds, v.map asciiUpper = k ++ "IF".toList) ↔ y.map asciiUpper = "IF".toList := by
    constructor
    · rintro ⟨other, hother, heq⟩
      have hall : ∀ a ∈ objectKinds, ∀ b ∈ objectKinds, a <+: b ++ "IF".toList → a = b := by decide
      rw [heq] at hbegins
      rw [hxy, List.map_append, hx, hall kind hkind other hother hbegins] at heq
      exact List.append_cancel_left heq
    · intro heq
      exact ⟨kind, hkind, by rw [hxy, List.map_append, hx, heq]⟩
  rw [hread, hjoined]
  by_cases hyif : y.map asciiUpper = "IF".toList
  · have hspace := reads_if_space hmore hw .existsWord
    change (if more.head?.any isScriptSpace then readExists more else none) = some w ↔
      readExists more = some w at hspace
    have hor : ∀ first last : Option Text, (first.or (some t)).or last = some w ↔ first = some w := by
      intro first last
      cases first with
      | none => simpa using hneq
      | some a => simp
    rw [readIf_of_literal hyif, ht, hor, hspace]
    exact (and_iff_right hyif).symm
  · rw [readIf_word hyne hy hmore hyif, ht, Option.some_or, Option.some_inj]
    exact iff_of_false hneq fun h => hyif h.1

/-- **At a free word the expression finds the word as it stands.** A kind of object that it begins with
is cut off first, and an `IF` behind that is taken for the one in front of `EXISTS`. -/
theorem phaseReads_word {p : Phase} (hp : p ≠ .verb) (hfree : isFree v = true) {w : Text}
    (hw : w.all isWordChar = true) (hlen : v.length ≤ w.length) :
    phaseReads p (v ++ more) = some w ↔
      (p ≠ .existsWord ∧ (v = w ∧ StopsTarget more) ∧
        (p = .kind → ∀ kind ∈ objectKinds, ¬ kind <+: v.map asciiUpper)) ∨
      (p = .kind ∧ (∃ kind ∈ objectKinds, v.map asciiUpper = kind ++ "IF".toList) ∧
        phaseReads .existsWord more = some w) := by
  have hkeys := not_keyword_of_free hfree
  have htarget := @readTarget_word_iff _ more _ hne hv hmore hw
  have hif := readIf_word hne hv hmore (hkeys _ (by decide))
  cases p with
  | verb => exact absurd rfl hp
  | target => simp [phaseReads, htarget]
  | ifWord => simp [phaseReads, hif, htarget]
  | existsWord => simp [phaseReads, readExists_word hne hv hmore (hkeys _ (by decide))]
  | kind =>
    simp only [phaseReads, ne_eq, reduceCtorEq, not_false_eq_true, true_and, forall_const]
    by_cases h : ∃ kind ∈ objectKinds, kind <+: v.map asciiUpper
    · obtain ⟨kind, hkind, hprefix⟩ := h
      rw [readKind_cut hv hmore hfree hw hlen hkind hprefix]
      exact (or_iff_right fun hno => hno.2 kind hkind hprefix).symm
    push Not at h
    rw [readKind_of_not, hif, htarget]
    · constructor
      · exact fun heq => Or.inl ⟨heq, h⟩
      · rintro (heq | ⟨⟨kind, hkind, hjoined⟩, -⟩)
        · exact heq.1
        · exact absurd ⟨_, hjoined.symm⟩ (h kind hkind)
    · intro kind hkind hprefix
      rw [(noSpaceFirst_of_targetChars hne hv).dropWhile] at hprefix
      exact h kind hkind (literal_of_front (kind_spec _ hkind).1 hmore hprefix)

end FreeWord

end Workbench.Web
