import Workbench.Lib.Backtrack
import Workbench.Web.Ddl

/-!
# The risk check of the editor

`classifyClientRisk` of `web/src/app/DatabaseWorkbench.tsx`, with its three regular expressions, and
the request that the editor sends once the user has done what the dialog asks for.

The first regular expression backtracks: an optional keyword that matches is given up again when no
target follows it. The readers below say what its parts find behind leading white space.
-/

set_option autoImplicit false

namespace Workbench.Web

open Workbench.Lib Workbench.Query

/-! ## The regular expressions -/

/-- A literal under the flag `i`. -/
def literal (keyword : Text) : Matcher Char := Matcher.word asciiUpper keyword

def destructiveVerbs : List Text := ["DROP", "TRUNCATE"].map String.toList

def objectKinds : List Text := ["TABLE", "DATABASE", "SCHEMA", "VIEW"].map String.toList

/-- A character of the class in group 2: neither white space nor a semicolon. -/
def isTargetChar (c : Char) : Bool := !isScriptSpace c && c ≠ ';'

/-- White space, one character or more. -/
def spaces1 : Matcher Char := Matcher.many1 isScriptSpace

/-- Behind the `IF`. -/
def existsSpaces : Matcher Char :=
  Matcher.seq (literal "EXISTS".toList) spaces1

def ifExists : Matcher Char :=
  Matcher.seq (literal "IF".toList) (Matcher.seq spaces1 existsSpaces)

/-- Behind the kind of object. -/
def behindKind : Matcher Char :=
  Matcher.seq (Matcher.many isScriptSpace) (Matcher.opt ifExists)

def anyKind : Matcher Char := Matcher.oneOf (objectKinds.map literal)

/-- What stands between the two groups. -/
def behindVerb : Matcher Char :=
  Matcher.seq spaces1 (Matcher.seq (Matcher.opt anyKind) behindKind)

/-- Group 2: the longest run of its class is tried first, and no other is needed. -/
def targetAt (text : Text) : List Text :=
  let target := text.takeWhile isTargetChar
  if target ≠ [] then [target] else []

/-- The two groups of the first match. -/
def matchDestructive (text : Text) : Option (Text × Text) :=
  (destructiveVerbs.flatMap fun verb =>
    (literal verb text).flatMap fun rest =>
      ((behindVerb rest).flatMap targetAt).map fun target =>
        (text.take verb.length, target)).head?

/-- The class `\w`. -/
def isRegexWord (c : Char) : Bool := isLetter c || isDigit c || c = '_'

/-- `\b` between two characters, either of which may be missing. -/
def isBoundary (before after : Option Char) : Bool :=
  before.any isRegexWord != after.any isRegexWord

/-- The keyword in front of a word boundary. -/
def startsWith (keyword text : Text) : Bool :=
  (text.take keyword.length).map asciiUpper == keyword &&
    isBoundary (text.take keyword.length).getLast? (text.drop keyword.length).head?

/-- The search for the keyword between two word boundaries; `before` is the last character read. -/
def searchWord (keyword : Text) (before : Option Char) : Text → Bool
  | [] => isBoundary before none && startsWith keyword []
  | c :: rest =>
    (isBoundary before (some c) && startsWith keyword (c :: rest)) ||
      searchWord keyword (some c) rest

/-! ## The classifier -/

/-- `QueryRisk`; an absent field is empty. The levels are those of the server. -/
abbrev QueryRisk := Risk

def reasonTypeTarget : Text := "该操作将删除数据库对象，请输入对象名称确认。".toList

def reasonNoWhere : Text := "语句缺少 WHERE 条件，可能影响整张表。".toList

def classifyClientRisk (statement : Text) : QueryRisk :=
  let normalized := normalize statement
  match matchDestructive normalized with
  | some (verb, target) => ⟨.typeTarget, verb.map asciiLower, target, reasonTypeTarget⟩
  | none =>
    if writeVerbs.any (fun verb => startsWith verb normalized) ∧
        !searchWord "WHERE".toList none normalized then
      ⟨.confirm, "write_without_where".toList, [], reasonNoWhere⟩
    else Risk.none

/-- `execute` and `run`, with the dialog in between: nothing is asked of the user for a safe text, a
click confirms, and the button of a typed target is enabled once the input equals the target shown.
A blank text is not sent. -/
def editorRequest (sql : Text) : Option QueryInput :=
  if trim sql = [] then none
  else
    let risk := classifyClientRisk sql
    match risk.level with
    | .safe => some ⟨sql, false, []⟩
    | .confirm => some ⟨sql, true, []⟩
    | .typeTarget => some ⟨sql, true, risk.target⟩

/-- Whatever the editor sends for the text passes the gate. -/
def EditorPasses (sql : Text) : Prop :=
  ∀ input, editorRequest sql = some input → input.passes

/-! ## Reading behind the verb -/

/-- Behind `IF EXISTS`. -/
def readTarget (text : Text) : Option Text := (targetAt (text.dropWhile isScriptSpace)).head?

/-- Behind `IF` and white space. -/
def readExists (text : Text) : Option Text :=
  ((existsSpaces (text.dropWhile isScriptSpace)).flatMap targetAt).head?

/-- Behind the kind of object. -/
def readIf (text : Text) : Option Text :=
  ((Matcher.opt ifExists (text.dropWhile isScriptSpace)).flatMap targetAt).head?

/-- Behind the verb. -/
def readKind (text : Text) : Option Text :=
  ((Matcher.seq (Matcher.opt anyKind) behindKind (text.dropWhile isScriptSpace)).flatMap
    targetAt).head?

/-- The characters of `\w` belong to words on both sides. -/
theorem wordChar_of_regexWord {c : Char} (h : isRegexWord c = true) :
    isScriptSpace c = false ∧ isWordChar c = true := by
  have hnat : c.toNat = 95 ∨ 48 ≤ c.toNat ∧ c.toNat ≤ 57 ∨ 65 ≤ c.toNat ∧ c.toNat ≤ 90 ∨
      97 ≤ c.toNat ∧ c.toNat ≤ 122 := by
    simp only [isRegexWord, isLetter, isLower, isUpper, isDigit, Bool.or_eq_true,
      Bool.and_eq_true, decide_eq_true_eq, char_le_iff] at h
    rcases h with ((h | h) | h) | rfl
    · exact Or.inr (Or.inr (Or.inr h))
    · exact Or.inr (Or.inr (Or.inl h))
    · exact Or.inr (Or.inl h)
    · exact Or.inl rfl
  have hall : ∀ n, n < 128 → (n = 95 ∨ 48 ≤ n ∧ n ≤ 57 ∨ 65 ≤ n ∧ n ≤ 90 ∨ 97 ≤ n ∧ n ≤ 122) →
      isScriptSpace (Char.ofNat n) = false ∧ isWordChar (Char.ofNat n) = true := by
    decide
  have hlow : c.toNat < 128 := by omega
  have hspec := hall c.toNat hlow hnat
  rwa [Char.ofNat_toNat] at hspec

theorem regexWord_of_upper {c : Char} (h : isUpper (asciiUpper c) = true) :
    isRegexWord c = true := by
  have hletter : isLetter c = true := by
    rw [asciiUpper] at h
    split_ifs at h with hlow
    · rw [isLetter, hlow, Bool.true_or]
    · rw [isLetter, h, Bool.or_true]
  rw [isRegexWord, hletter, Bool.true_or, Bool.true_or]

theorem wordChar_of_upper {c : Char} (h : isUpper (asciiUpper c) = true) :
    isScriptSpace c = false ∧ isWordChar c = true :=
  wordChar_of_regexWord (regexWord_of_upper h)

/-- A keyword does not start with white space. -/
theorem literal_of_space {keyword : Text} (hk : keyword.all isUpper = true) (hne : keyword ≠ [])
    {c : Char} (hc : isScriptSpace c = true) (rest : Text) : literal keyword (c :: rest) = [] := by
  cases keyword with
  | nil => exact absurd rfl hne
  | cons k keyword =>
    rw [List.all_cons, Bool.and_eq_true] at hk
    apply Matcher.word_eq_nil
    rintro ⟨more, hmore⟩
    obtain ⟨heq, -⟩ : k = asciiUpper c ∧ keyword ++ more = rest.map asciiUpper := by
      simpa using hmore
    rw [heq] at hk
    rw [(wordChar_of_upper hk.1).1] at hc
    exact Bool.false_ne_true hc

theorem targetAt_of_space {c : Char} (hc : isScriptSpace c = true) (rest : Text) :
    targetAt (c :: rest) = [] := by
  have hnot : ¬ isTargetChar c = true := by
    rw [isTargetChar, hc]
    exact Bool.false_ne_true
  rw [targetAt, List.takeWhile_cons_of_neg hnot, if_neg fun h => h rfl]

theorem existsSpaces_of_space {c : Char} (hc : isScriptSpace c = true) (rest : Text) :
    existsSpaces (c :: rest) = [] := by
  rw [existsSpaces, Matcher.seq, literal_of_space (by decide) (by decide) hc, List.flatMap_nil]

theorem ifExists_of_space {c : Char} (hc : isScriptSpace c = true) (rest : Text) :
    ifExists (c :: rest) = [] := by
  rw [ifExists, Matcher.seq, literal_of_space (by decide) (by decide) hc, List.flatMap_nil]

theorem kind_spec : ∀ k ∈ objectKinds, k.all isUpper = true ∧ k ≠ [] := by decide

theorem destructive_spec : ∀ k ∈ destructiveVerbs, k.all isUpper = true ∧ k ≠ [] := by decide

theorem anyKind_of_space {c : Char} (hc : isScriptSpace c = true) (rest : Text) :
    anyKind (c :: rest) = [] := by
  rw [anyKind, Matcher.oneOf, List.flatMap_eq_nil_iff]
  intro m hm
  obtain ⟨keyword, hkeyword, rfl⟩ := List.mem_map.1 hm
  exact literal_of_space (kind_spec _ hkeyword).1 (kind_spec _ hkeyword).2 hc rest

/-- Behind the kind of object only the longest run of white space counts. -/
theorem behindKind_flatMap (text : Text) :
    (behindKind text).flatMap targetAt =
      (Matcher.opt ifExists (text.dropWhile isScriptSpace)).flatMap targetAt := by
  rw [behindKind, Matcher.seq, List.flatMap_assoc]
  apply Matcher.many_flatMap
  intro c rest hc
  rw [Matcher.opt, ifExists_of_space hc, List.nil_append, List.flatMap_singleton,
    targetAt_of_space hc]

theorem behindKind_head (text : Text) :
    ((behindKind text).flatMap targetAt).head? = readIf text := by
  rw [behindKind_flatMap, readIf]

/-- Behind the verb there must be white space, and again the longest run of it counts. -/
theorem behindVerb_head (text : Text) :
    ((behindVerb text).flatMap targetAt).head? =
      if text.head?.any isScriptSpace then readKind text else none := by
  cases text with
  | nil => rfl
  | cons c rest =>
    rw [behindVerb, Matcher.seq, List.flatMap_assoc, List.head?_cons, Option.any_some]
    by_cases hc : isScriptSpace c = true
    · rw [if_pos hc, readKind, spaces1]
      obtain ⟨more, hmore, hall⟩ := Matcher.many1_eq (s := rest) hc
      rw [hmore, List.flatMap_cons, List.head?_append]
      generalize hz : (c :: rest).dropWhile isScriptSpace = z at hall
      -- a shorter run finds nothing that the longest does not find without a kind
      have hnone : ((Matcher.seq (Matcher.opt anyKind) behindKind z).flatMap targetAt).head? =
          none → (more.flatMap fun r =>
            (Matcher.seq (Matcher.opt anyKind) behindKind r).flatMap targetAt) = [] := by
        intro hfirst
        rw [List.flatMap_eq_nil_iff]
        intro r hr
        obtain ⟨b, t, rfl, hb, hdrop⟩ := hall r hr
        rw [Matcher.seq, Matcher.opt, anyKind_of_space hb, List.nil_append,
          List.flatMap_singleton, behindKind_flatMap, hdrop]
        rw [Matcher.seq, Matcher.opt, List.flatMap_append, List.flatMap_append,
          List.head?_append, Option.or_eq_none_iff, List.flatMap_singleton,
          behindKind_flatMap] at hfirst
        rw [← hz, List.dropWhile_idempotent, hz] at hfirst
        exact List.head?_eq_none_iff.1 hfirst.2
      cases hfirst : ((Matcher.seq (Matcher.opt anyKind) behindKind z).flatMap targetAt).head? with
      | some target => rfl
      | none =>
        rw [hnone hfirst]
        rfl
    · rw [if_neg hc, spaces1, Matcher.many1, if_neg hc]
      rfl

/-! ### The readers, case by case -/

/-- A text that does not start with white space. -/
def NoSpaceFirst (text : Text) : Prop := ∀ c, text.head? = some c → isScriptSpace c = false

theorem NoSpaceFirst.dropWhile {text : Text} (h : NoSpaceFirst text) :
    text.dropWhile isScriptSpace = text := by
  cases text with
  | nil => rfl
  | cons c rest =>
    apply List.dropWhile_cons_of_neg
    rw [h c rfl]
    exact Bool.false_ne_true

theorem noSpaceFirst_of_literal {keyword x s : Text} (hk : keyword.all isUpper = true)
    (hne : keyword ≠ []) (hx : x.map asciiUpper = keyword) : NoSpaceFirst (x ++ s) := by
  intro c hc
  cases x with
  | nil => exact absurd hx.symm hne
  | cons a x =>
    obtain rfl : a = c := by simpa using hc
    rw [← hx, List.map_cons, List.all_cons, Bool.and_eq_true] at hk
    exact (wordChar_of_upper hk.1).1

/-- `EXISTS` must be followed by white space. -/
theorem readExists_of_literal {x s : Text} (hx : x.map asciiUpper = "EXISTS".toList) :
    readExists (x ++ s) = if s.head?.any isScriptSpace then readTarget s else none := by
  rw [readExists, (noSpaceFirst_of_literal (by decide) (by decide) hx).dropWhile, existsSpaces,
    Matcher.seq, literal, Matcher.word_append hx, List.flatMap_singleton]
  cases s with
  | nil => rfl
  | cons c rest =>
    rw [List.head?_cons, Option.any_some, spaces1]
    by_cases hc : isScriptSpace c = true
    · rw [if_pos hc, Matcher.many1_flatMap (fun a t ha => targetAt_of_space ha t) hc, readTarget]
    · rw [if_neg hc, Matcher.many1, if_neg hc]
      rfl

theorem readExists_of_not {text : Text} (hfirst : NoSpaceFirst text)
    (h : ¬ "EXISTS".toList <+: text.map asciiUpper) : readExists text = none := by
  rw [readExists, hfirst.dropWhile, existsSpaces, Matcher.seq, literal, Matcher.word_eq_nil h]
  rfl

/-- Behind `IF` and white space `EXISTS` is tried first; else the `IF` is the target. -/
theorem readIf_of_literal {x s : Text} (hx : x.map asciiUpper = "IF".toList) :
    readIf (x ++ s) =
      (if s.head?.any isScriptSpace then readExists s else none).or (readTarget (x ++ s)) := by
  have hdrop := (noSpaceFirst_of_literal (s := s) (by decide) (by decide) hx).dropWhile
  rw [readIf, hdrop, Matcher.opt, List.flatMap_append, List.head?_append, List.flatMap_singleton,
    readTarget, hdrop]
  congr 1
  rw [ifExists, Matcher.seq, literal, Matcher.word_append hx, List.flatMap_singleton, Matcher.seq]
  cases s with
  | nil => rfl
  | cons c rest =>
    rw [List.head?_cons, Option.any_some, spaces1]
    by_cases hc : isScriptSpace c = true
    · rw [if_pos hc, Matcher.many1_flatMap (fun a t ha => existsSpaces_of_space ha t) hc,
        readExists]
    · rw [if_neg hc, Matcher.many1, if_neg hc]
      rfl

theorem readIf_of_not {text : Text} (hfirst : NoSpaceFirst text)
    (h : ¬ "IF".toList <+: text.map asciiUpper) : readIf text = readTarget text := by
  rw [readIf, readTarget, hfirst.dropWhile, Matcher.opt, ifExists, Matcher.seq, literal,
    Matcher.word_eq_nil h, List.flatMap_nil, List.nil_append, List.flatMap_singleton]

theorem readIf_dropWhile (text : Text) : readIf (text.dropWhile isScriptSpace) = readIf text := by
  rw [readIf, readIf, List.dropWhile_idempotent]

/-- A kind of object is read first, and given up when nothing follows it. -/
theorem readKind_of_literal {kind x s : Text} (hkind : kind ∈ objectKinds)
    (hx : x.map asciiUpper = kind) : readKind (x ++ s) = (readIf s).or (readIf (x ++ s)) := by
  have hdrop := (noSpaceFirst_of_literal (s := s) (kind_spec _ hkind).1 (kind_spec _ hkind).2 hx).dropWhile
  have hany : anyKind (x ++ s) = [s] := by
    have hone : (objectKinds.flatMap fun k => (literal k (x ++ s)).flatMap fun r => [r]) = [s] :=
      -- no two kinds start alike
      Matcher.flatMap_word (by decide) (by decide) (by decide) hkind hx s fun _ r => [r]
    simp only [List.flatMap_singleton'] at hone
    rw [anyKind, Matcher.oneOf, List.flatMap_map]
    exact hone
  rw [readKind, hdrop, Matcher.seq, Matcher.opt, hany, List.flatMap_append, List.flatMap_append,
    List.head?_append, List.flatMap_singleton, List.flatMap_singleton, behindKind_head,
    behindKind_head]

theorem readKind_of_not {text : Text}
    (h : ∀ kind ∈ objectKinds, ¬ kind <+: (text.dropWhile isScriptSpace).map asciiUpper) :
    readKind text = readIf text := by
  have hany : anyKind (text.dropWhile isScriptSpace) = [] := by
    rw [anyKind, Matcher.oneOf, List.flatMap_map, List.flatMap_eq_nil_iff]
    exact fun kind hkind => Matcher.word_eq_nil (h kind hkind)
  rw [readKind, Matcher.seq, Matcher.opt, hany, List.nil_append, List.flatMap_singleton,
    behindKind_head, readIf_dropWhile]

/-! ## The first match -/

/-- Behind a verb the match is what the reader finds. -/
theorem matchDestructive_of_verb {v rest : Text} (hv : v.map asciiUpper ∈ destructiveVerbs) :
    (matchDestructive (v ++ rest)).map Prod.snd =
      if rest.head?.any isScriptSpace then readKind rest else none := by
  have hone : (destructiveVerbs.flatMap fun verb => (literal verb (v ++ rest)).flatMap fun r =>
      ((behindVerb r).flatMap targetAt).map fun target =>
        ((v ++ rest).take verb.length, target)) =
          ((behindVerb rest).flatMap targetAt).map fun target =>
            ((v ++ rest).take (v.map asciiUpper).length, target) :=
    Matcher.flatMap_word (by decide) (by decide) (by decide) hv rfl rest fun verb r =>
      ((behindVerb r).flatMap targetAt).map fun target => ((v ++ rest).take verb.length, target)
  rw [matchDestructive, hone, List.head?_map, Option.map_map, ← behindVerb_head]
  exact Option.map_id'

theorem matchDestructive_of_not {text : Text}
    (h : ∀ verb ∈ destructiveVerbs, ¬ verb <+: text.map asciiUpper) :
    matchDestructive text = none := by
  rw [matchDestructive, List.head?_eq_none_iff, List.flatMap_eq_nil_iff]
  intro verb hverb
  rw [literal, Matcher.word_eq_nil (h verb hverb), List.flatMap_nil]

/-! ### The matchers read from the front -/

theorem consumes_literal (keyword : Text) : Matcher.Consumes (fun _ => true) (literal keyword) :=
  Matcher.consumes_word fun x _ => by simp

theorem consumes_spaces1 : Matcher.Consumes (fun _ => true) spaces1 :=
  Matcher.consumes_many1 fun _ _ => rfl

theorem consumes_kind : Matcher.Consumes (fun _ => true) anyKind := by
  apply Matcher.consumes_oneOf
  intro m hm
  obtain ⟨keyword, -, rfl⟩ := List.mem_map.1 hm
  exact consumes_literal keyword

theorem consumes_existsSpaces : Matcher.Consumes (fun _ => true) existsSpaces :=
  (consumes_literal _).seq consumes_spaces1

theorem consumes_ifExists : Matcher.Consumes (fun _ => true) ifExists :=
  (consumes_literal _).seq (consumes_spaces1.seq consumes_existsSpaces)

theorem consumes_behindKind : Matcher.Consumes (fun _ => true) behindKind :=
  (Matcher.consumes_many fun _ _ => rfl).seq consumes_ifExists.opt

theorem prefix_of_startsWith {keyword text : Text} (h : startsWith keyword text = true) :
    keyword <+: text.map asciiUpper := by
  rw [startsWith, Bool.and_eq_true, beq_iff_eq] at h
  rw [← h.1, List.map_take]
  exact List.take_prefix _ _

/-! ## The search for a keyword -/

/-- The text does not go on with a character of `\w`. -/
def StopsRegex (text : Text) : Prop := ∀ c, text.head? = some c → isRegexWord c = false

theorem stopsRegex_of_stopsWord {text : Text} (h : StopsWord text) : StopsRegex text := by
  intro c hc
  by_contra hword
  have hfalse := h c hc
  rw [(wordChar_of_regexWord (Bool.not_eq_false _ ▸ hword)).2] at hfalse
  exact Bool.false_ne_true hfalse.symm

/-- A keyword starts with a character of `\w`. -/
theorem not_prefix_of_stops {keyword text : Text} (hne : keyword ≠ []) (hupper : keyword.all isUpper = true)
    (h : StopsRegex text) : ¬ keyword <+: text.map asciiUpper := by
  rintro ⟨more, hmore⟩
  cases keyword with
  | nil => exact absurd rfl hne
  | cons k keyword =>
    cases text with
    | nil => exact absurd hmore (by simp)
    | cons c rest =>
      rw [List.all_cons, Bool.and_eq_true] at hupper
      obtain ⟨rfl, -⟩ : k = asciiUpper c ∧ keyword ++ more = rest.map asciiUpper := by
        simpa using hmore
      have hfalse := h c rfl
      rw [regexWord_of_upper hupper.1] at hfalse
      exact Bool.false_ne_true hfalse.symm

/-! ## What the editor sends -/

/-- The request is confirmed unless the text is safe to the client, and it carries the target. -/
theorem editorRequest_eq {sql : Text} (h : trim sql ≠ []) :
    editorRequest sql = some ⟨sql, decide ((classifyClientRisk sql).level ≠ .safe),
      (classifyClientRisk sql).target⟩ := by
  rw [editorRequest, if_neg h]
  have htarget : (classifyClientRisk sql).level ≠ .typeTarget →
      (classifyClientRisk sql).target = [] := by
    rw [classifyClientRisk]
    cases matchDestructive (normalize sql) with
    | some found => exact fun hne => absurd rfl hne
    | none =>
      intro _
      simp only
      split_ifs <;> rfl
  cases hlevel : (classifyClientRisk sql).level with
  | safe =>
    rw [htarget (by rw [hlevel]; simp)]
    simp [hlevel]
  | confirm =>
    rw [htarget (by rw [hlevel]; simp)]
    simp [hlevel]
  | typeTarget => simp [hlevel]

theorem editorPasses_iff {sql : Text} (h : trim sql ≠ []) :
    EditorPasses sql ↔
      ((classify sql).level = .confirm → (classifyClientRisk sql).level ≠ .safe) ∧
      ((classify sql).level = .typeTarget → (classifyClientRisk sql).level ≠ .safe ∧
        (classifyClientRisk sql).target = (classify sql).target) := by
  have hne : sql ≠ [] := by
    rintro rfl
    exact h rfl
  rw [EditorPasses, editorRequest_eq h]
  constructor
  · intro hpasses
    have hgate := (passes_iff _).1 (hpasses _ rfl)
    simpa using hgate.2
  · rintro ⟨hconfirm, htype⟩ input hinput
    rw [Option.some_inj] at hinput
    subst hinput
    rw [passes_iff]
    exact ⟨hne, by simpa using hconfirm, by simpa using htype⟩

end Workbench.Web
