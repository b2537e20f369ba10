import Workbench.Base.Dialect
import Workbench.Web.Normalize

/-!
# The DDL helpers of the front end

`web/src/features/workspace/ddl.ts`: identifiers, the builders of the two drop statements, the
tokenizer and the target extraction; and the request that `executeAdminSql` of
`DatabaseWorkbench.tsx` sends with the extracted target.
-/

set_option autoImplicit false

namespace Workbench.Web

open Workbench.Lib Workbench.Query

/-! ## Identifiers and builders -/

def isIdentStart (c : Char) : Bool := isLetter c || c = '_'

def isIdentPart (c : Char) : Bool := isLetter c || isDigit c || c = '_'

/-- `isValidSqlIdent`. -/
def isValidSqlIdent : Text → Bool
  | [] => false
  | c :: rest => isIdentStart c && rest.all isIdentPart

/-- The mark that quotes a name. -/
def nameMark : Dialect → Char
  | .mysql => backtick
  | .postgres => '"'

/-- `quoteIdent`: the mark is doubled inside. -/
def quoteIdent (driver : Dialect) (name : Text) : Text :=
  let mark := nameMark driver
  mark :: (name.flatMap (fun c => if c = mark then [mark, mark] else [c]) ++ [mark])

def identRef (driver : Dialect) (name : Text) : Text :=
  if isValidSqlIdent name then name else quoteIdent driver name

def buildDropDatabaseSQL (driver : Dialect) (name : Text) : Text :=
  "DROP DATABASE ".toList ++ (identRef driver name ++ [';'])

def buildDropTableSQL (driver : Dialect) (schema name : Text) : Text :=
  match driver with
  | .postgres =>
    "DROP TABLE ".toList ++
      (identRef driver schema ++ ('.' :: (identRef driver name ++ [';'])))
  | .mysql => "DROP TABLE ".toList ++ (identRef driver name ++ [';'])

/-! ## The tokenizer -/

/-- `SqlToken`. -/
structure SqlToken where
  text : Text
  depth : Nat
  deriving DecidableEq, Repr

/-- A character of the last loop of `tokenizeSql`. -/
def isScriptWordChar (c : Char) : Bool := !isScriptSpace c && !"(),;'\"`".toList.contains c

/-- Quoted text from behind its opening mark: what is added to the token, and the rest. -/
def readQuoted (quote : Char) : Text → Text × Text
  | [] => ([], [])
  | [c] => ([c], [])
  | c :: d :: rest =>
    if c = quote then
      if d = quote then
        (quote :: quote :: (readQuoted quote rest).1, (readQuoted quote rest).2)
      else ([quote], d :: rest)
    else if c = '\\' then (c :: d :: (readQuoted quote rest).1, (readQuoted quote rest).2)
    else (c :: (readQuoted quote (d :: rest)).1, (readQuoted quote (d :: rest)).2)

/-- The main loop of `tokenizeSql`. The two comment loops are those of the server's tokenizer. -/
def tokenizeSqlFrom : Nat → Nat → Text → List SqlToken
  | 0, _, _ => []
  | _ + 1, _, [] => []
  | fuel + 1, depth, c :: rest =>
    if isScriptSpace c then tokenizeSqlFrom fuel depth rest
    else if c = '-' ∧ rest.head? = some '-' then tokenizeSqlFrom fuel depth (skipLine rest.tail)
    else if c = '/' ∧ rest.head? = some '*' then tokenizeSqlFrom fuel depth (skipBlock rest.tail)
    else if isQuote c then
      ⟨c :: (readQuoted c rest).1, depth⟩ :: tokenizeSqlFrom fuel depth (readQuoted c rest).2
    else if c = '(' then tokenizeSqlFrom fuel (depth + 1) rest
    else if c = ')' then tokenizeSqlFrom fuel (if depth > 0 then depth - 1 else depth) rest
    else
      let text := (c :: rest).takeWhile isScriptWordChar
      if text ≠ [] then
        ⟨text, depth⟩ :: tokenizeSqlFrom fuel depth ((c :: rest).dropWhile isScriptWordChar)
      else tokenizeSqlFrom fuel depth rest

def tokenizeSql (sql : Text) : List SqlToken := tokenizeSqlFrom sql.length 0 sql

/-- The test for the verb. -/
def isDropWord (text : Text) : Bool := dropVerbs.contains (text.map asciiUpper)

/-- A token that `extractDropConfirmationTarget` returns. -/
def isScriptTarget (item : SqlToken) : Bool :=
  item.depth = 0 && !targetKeywords.contains (scriptUpper item.text)

def extractDropConfirmationTarget (sql : Text) : Option Text :=
  match tokenizeSql (normalize sql) with
  | [] => none
  | head :: rest =>
    if isDropWord head.text then (rest.find? isScriptTarget).map SqlToken.text else none

/-- The request of `executeAdminSql`: it is confirmed when there is a target. -/
def adminRequest (sql : Text) : QueryInput :=
  let target := (extractDropConfirmationTarget sql).getD []
  ⟨sql, target ≠ [], target⟩

/-! ## Reading the tokens -/

theorem length_readQuoted_le (quote : Char) :
    ∀ text : Text, (readQuoted quote text).2.length ≤ text.length
  | [] => Nat.le_refl 0
  | [_] => Nat.zero_le _
  | c :: d :: rest => by
    have ih := length_readQuoted_le quote rest
    have ih' := length_readQuoted_le quote (d :: rest)
    have hlong : rest.length ≤ (c :: d :: rest).length := Nat.le_add_right _ 2
    rw [readQuoted]
    split_ifs
    · exact ih.trans hlong
    · exact Nat.le_succ _
    · exact ih.trans hlong
    · exact ih'.trans (Nat.le_succ _)

/-- With enough fuel the loop does not depend on it. -/
theorem tokenizeSqlFrom_eq (n : Nat) : ∀ (fuel d : Nat) (text : Text), text.length ≤ n →
    text.length ≤ fuel → tokenizeSqlFrom fuel d text = tokenizeSqlFrom n d text := by
  induction n with
  | zero =>
    intro fuel d text hn _
    obtain rfl : text = [] := List.length_eq_zero_iff.1 (Nat.le_zero.1 hn)
    cases fuel <;> rfl
  | succ n ih =>
    intro fuel d text hn hf
    cases text with
    | nil => cases fuel <;> rfl
    | cons c rest =>
      cases fuel with
      | zero => exact absurd hf (by simp)
      | succ fuel =>
        -- every branch goes on with a text that is no longer than the rest
        have hsub : ∀ d' (after : Text), after.length ≤ rest.length →
            tokenizeSqlFrom fuel d' after = tokenizeSqlFrom n d' after := by
          intro d' after hafter
          exact ih fuel d' after (hafter.trans (Nat.le_of_succ_le_succ hn))
            (hafter.trans (Nat.le_of_succ_le_succ hf))
        have htail : rest.tail.length ≤ rest.length := by
          rw [List.length_tail]
          omega
        have hdrop : ∀ h : isScriptWordChar c = true,
            ((c :: rest).dropWhile isScriptWordChar).length ≤ rest.length := by
          intro h
          rw [List.dropWhile_cons_of_pos h]
          exact length_dropWhile_le _ rest
        rw [tokenizeSqlFrom, tokenizeSqlFrom, hsub _ rest (Nat.le_refl _),
          hsub _ _ ((length_skipLine_le _).trans htail),
          hsub _ _ ((length_skipBlock_le _).trans htail),
          hsub _ _ (length_readQuoted_le c rest), hsub _ rest (Nat.le_refl _),
          hsub _ rest (Nat.le_refl _)]
        by_cases hword : isScriptWordChar c = true
        · rw [hsub _ _ (hdrop hword)]
        · simp only [List.takeWhile_cons_of_neg hword, ne_eq, not_true_eq_false, if_false]

/-- The tokens of a text read at a nesting depth. -/
def sqlTokens (d : Nat) (text : Text) : List SqlToken := tokenizeSqlFrom text.length d text

theorem tokenizeSqlFrom_eq_sqlTokens {fuel : Nat} (d : Nat) {text : Text}
    (h : text.length ≤ fuel) : tokenizeSqlFrom fuel d text = sqlTokens d text :=
  tokenizeSqlFrom_eq text.length fuel d text (Nat.le_refl _) h

theorem tokenizeSql_eq (text : Text) : tokenizeSql text = sqlTokens 0 text := rfl

theorem isWordChar_of_script {c : Char} (h : isScriptWordChar c = true) : isWordChar c = true := by
  simp only [isScriptWordChar, isWordChar, Bool.and_eq_true, Bool.not_eq_true'] at h ⊢
  refine ⟨?_, h.2⟩
  by_contra hspace
  rw [isScriptSpace_of_isSpace (Bool.not_eq_false _ ▸ hspace)] at h
  exact absurd h.1 (by decide)

theorem sqlTokens_space (d : Nat) {c : Char} (h : isScriptSpace c = true) (rest : Text) :
    sqlTokens d (c :: rest) = sqlTokens d rest := by
  rw [sqlTokens, List.length_cons, tokenizeSqlFrom, if_pos h]
  rfl

/-- Leading white space has no tokens. -/
theorem sqlTokens_dropWhile (d : Nat) (text : Text) :
    sqlTokens d (text.dropWhile isScriptSpace) = sqlTokens d text := by
  induction text with
  | nil => rfl
  | cons c rest ih =>
    by_cases hc : isScriptSpace c = true
    · rw [List.dropWhile_cons_of_pos hc, ih, sqlTokens_space d hc]
    · rw [List.dropWhile_cons_of_neg hc]

/-- A comma or a semicolon has no token. -/
theorem sqlTokens_separator (d : Nat) {c : Char} (h : c = ',' ∨ c = ';') (rest : Text) :
    sqlTokens d (c :: rest) = sqlTokens d rest := by
  rw [sqlTokens, List.length_cons]
  rcases h with rfl | rfl <;> rfl

theorem sqlTokens_quoted (d : Nat) {quote : Char} (h : isQuote quote = true) (rest : Text) :
    sqlTokens d (quote :: rest) =
      ⟨quote :: (readQuoted quote rest).1, d⟩ :: sqlTokens d (readQuoted quote rest).2 := by
  have hnot : isScriptSpace quote = false ∧ quote ≠ '-' ∧ quote ≠ '/' := by
    rcases (isQuote_iff quote).1 h with rfl | rfl | rfl <;> decide
  rw [sqlTokens, List.length_cons, tokenizeSqlFrom, hnot.1, if_neg Bool.false_ne_true,
    if_neg (fun hc => hnot.2.1 hc.1), if_neg (fun hc => hnot.2.2 hc.1), if_pos h,
    tokenizeSqlFrom_eq_sqlTokens d (length_readQuoted_le quote rest)]

/-- The text does not continue a word of the client. -/
def StopsScript (text : Text) : Prop := ∀ c, text.head? = some c → isScriptWordChar c = false

theorem stopsScript_of_stopsWord {text : Text} (h : StopsWord text) : StopsScript text := by
  intro c hc
  by_contra hword
  have hfalse := h c hc
  rw [isWordChar_of_script (Bool.not_eq_false _ ▸ hword)] at hfalse
  exact Bool.false_ne_true hfalse.symm

/-- A word that opens no comment is one token. -/
theorem sqlTokens_word (d : Nat) {w tail : Text} (hne : w ≠ [])
    (hchars : w.all isScriptWordChar = true) (hline : ¬ "--".toList <+: w)
    (hblock : ¬ "/*".toList <+: w) (htail : StopsScript tail) :
    sqlTokens d (w ++ tail) = ⟨w, d⟩ :: sqlTokens d tail := by
  cases w with
  | nil => exact absurd rfl hne
  | cons c rest =>
    have hall := hchars
    rw [List.all_cons, Bool.and_eq_true] at hchars
    have hc := hchars.1
    have hnot : isScriptSpace c = false ∧ isQuote c = false ∧ c ≠ '(' ∧ c ≠ ')' := by
      simp only [isScriptWordChar, Bool.and_eq_true, Bool.not_eq_true'] at hc
      refine ⟨hc.1, ?_, ?_, ?_⟩
      · rw [Bool.eq_false_iff]
        intro hq
        rcases (isQuote_iff c).1 hq with rfl | rfl | rfl <;> exact absurd hc.2 (by decide)
      · rintro rfl
        exact absurd hc.2 (by decide)
      · rintro rfl
        exact absurd hc.2 (by decide)
    -- the second character of an opener would be in the word or end it
    have hopen : ∀ x y : Char, isScriptWordChar y = true → ¬ [x, y] <+: c :: rest →
        ¬ (c = x ∧ (rest ++ tail).head? = some y) := by
      rintro x y hy hpre ⟨rfl, hhead⟩
      cases rest with
      | nil =>
        have hf := htail y hhead
        rw [hy] at hf
        exact Bool.false_ne_true hf.symm
      | cons e rest =>
        obtain rfl : e = y := by simpa using hhead
        exact hpre ⟨rest, rfl⟩
    have htake : (c :: rest ++ tail).takeWhile isScriptWordChar = c :: rest ∧
        (c :: rest ++ tail).dropWhile isScriptWordChar = tail := by
      refine ⟨?_, ?_⟩
      · rw [List.takeWhile_append_of_pos (List.all_eq_true.1 hall)]
        cases tail with
        | nil => simp
        | cons x tail =>
          rw [List.takeWhile_cons_of_neg, List.append_nil]
          rw [htail x rfl]
          exact Bool.false_ne_true
      · rw [List.dropWhile_append_of_pos (List.all_eq_true.1 hall)]
        cases tail with
        | nil => rfl
        | cons x tail =>
          rw [List.dropWhile_cons_of_neg]
          rw [htail x rfl]
          exact Bool.false_ne_true
    rw [sqlTokens, List.cons_append, List.length_cons, tokenizeSqlFrom, hnot.1,
      if_neg Bool.false_ne_true, if_neg (hopen '-' '-' (by decide) hline),
      if_neg (hopen '/' '*' (by decide) hblock), hnot.2.1, if_neg Bool.false_ne_true,
      if_neg hnot.2.2.1, if_neg hnot.2.2.2, ← List.cons_append, htake.1, htake.2,
      if_pos (List.cons_ne_nil _ _), tokenizeSqlFrom_eq_sqlTokens d (by simp)]

/-! ## The shape of a token -/

theorem skipLine_suffix (text : Text) : skipLine text <:+ text := by
  induction text with
  | nil => exact List.suffix_refl _
  | cons c rest ih =>
    rw [skipLine]
    split_ifs
    · exact List.suffix_refl _
    · exact ih.trans (List.suffix_cons c rest)

theorem skipBlock_suffix : ∀ text : Text, skipBlock text <:+ text
  | [] => List.suffix_refl _
  | [_] => List.suffix_refl _
  | c :: d :: rest => by
    rw [skipBlock]
    split_ifs
    · exact (List.suffix_cons d rest).trans (List.suffix_cons c _)
    · exact (skipBlock_suffix (d :: rest)).trans (List.suffix_cons c _)

theorem readQuoted_suffix (quote : Char) : ∀ text : Text, (readQuoted quote text).2 <:+ text
  | [] => List.suffix_refl _
  | [_] => List.nil_suffix
  | c :: d :: rest => by
    have hlong : rest <:+ c :: d :: rest :=
      (List.suffix_cons d rest).trans (List.suffix_cons c _)
    rw [readQuoted]
    split_ifs
    · exact (readQuoted_suffix quote rest).trans hlong
    · exact List.suffix_cons c _
    · exact (readQuoted_suffix quote rest).trans hlong
    · exact (readQuoted_suffix quote (d :: rest)).trans (List.suffix_cons c _)

/-- A token is a quoted text with its marks, or a word of the text. -/
def IsScriptToken (source text : Text) : Prop :=
  (∃ q, isQuote q = true ∧ text.head? = some q) ∨
    (text ≠ [] ∧ text.all isScriptWordChar = true ∧ text <:+: source)

theorem IsScriptToken.of_suffix {source after text : Text} (h : IsScriptToken after text)
    (hsuffix : after <:+ source) : IsScriptToken source text := by
  rcases h with h | ⟨hne, hchars, hin⟩
  · exact Or.inl h
  · exact Or.inr ⟨hne, hchars, hin.trans hsuffix.isInfix⟩

theorem isScriptToken_of_mem (fuel d : Nat) (source : Text) :
    ∀ item ∈ tokenizeSqlFrom fuel d source, IsScriptToken source item.text := by
  induction fuel generalizing d source with
  | zero => simp [tokenizeSqlFrom]
  | succ fuel ih =>
    cases source with
    | nil => simp [tokenizeSqlFrom]
    | cons c rest =>
      have hstep : ∀ d' (after : Text), after <:+ c :: rest →
          ∀ item ∈ tokenizeSqlFrom fuel d' after, IsScriptToken (c :: rest) item.text := by
        intro d' after hafter item hitem
        exact (ih d' after item hitem).of_suffix hafter
      have hrest : rest <:+ c :: rest := List.suffix_cons c rest
      have htail : rest.tail <:+ c :: rest := (List.tail_suffix rest).trans hrest
      rw [tokenizeSqlFrom]
      split_ifs with h1 h2 h3 h4 h5 h6 h7
      · exact hstep _ _ hrest
      · exact hstep _ _ ((skipLine_suffix _).trans htail)
      · exact hstep _ _ ((skipBlock_suffix _).trans htail)
      · intro item hitem
        rcases List.mem_cons.1 hitem with rfl | hitem
        · exact Or.inl ⟨c, h4, rfl⟩
        · exact hstep _ _ ((readQuoted_suffix c rest).trans hrest) item hitem
      · exact hstep _ _ hrest
      · exact hstep _ _ hrest
      · exact hstep _ _ hrest
      · intro item hitem
        change item ∈ if (c :: rest).takeWhile isScriptWordChar ≠ [] then _ else _ at hitem
        split_ifs at hitem with hne
        · rcases List.mem_cons.1 hitem with rfl | hitem
          · exact Or.inr ⟨hne, List.all_takeWhile, (List.takeWhile_prefix _).isInfix⟩
          · exact hstep _ _ (List.dropWhile_suffix _) item hitem
        · exact hstep _ _ hrest item hitem

end Workbench.Web
