import Mathlib.Data.List.DropRight
import Workbench.Query.Pieces

/-!
# Texts in the front end

The string functions of the front end and the normalisation that `extractDropConfirmationTarget` and
`classifyClientRisk` share: two regular expressions cut the comments out, then the text is trimmed.

What the client has left of a text from a place on is `kept`. It is compared here with what the gate
goes on with: behind a comment that both sides cut alike (`Gap.kept`), and behind a text in which
neither regular expression finds a comment (`kept_append`).
-/

set_option autoImplicit false

namespace Workbench.Web

open Workbench.Lib Workbench.Query

/-! ## String functions -/

/-- The class `\s` and the characters that `trim` removes. -/
def isScriptSpace (c : Char) : Bool :=
  c = ' ' || c = '\t' || c = '\n' || c = '\x0b' || c = '\x0c' || c = '\r' || c = '\u00a0' ||
    c = '\u1680' || ('\u2000' ≤ c && c ≤ '\u200a') || c = '\u2028' || c = '\u2029' ||
    c = '\u202f' || c = '\u205f' || c = '\u3000' || c = '\ufeff'

/-- The characters that `.` does not match and that `$` stops at. -/
def isLineTerminator (c : Char) : Bool := c = '\n' || c = '\r' || c = '\u2028' || c = '\u2029'

/-- `trim`. -/
def trim (text : Text) : Text := (text.rdropWhile isScriptSpace).dropWhile isScriptSpace

/-- The upper case of a character, which may be several: exact where the image is ASCII. -/
def scriptUpperChar (c : Char) : Text :=
  if c = 'ı' then ['I'] else if c = 'ſ' then ['S'] else if c = 'ß' then "SS".toList
  else if c = '\ufb00' then "FF".toList else if c = '\ufb01' then "FI".toList
  else if c = '\ufb02' then "FL".toList else if c = '\ufb03' then "FFI".toList
  else if c = '\ufb04' then "FFL".toList else if c = '\ufb05' then "ST".toList
  else if c = '\ufb06' then "ST".toList else [asciiUpper c]

/-- `toUpperCase`. -/
def scriptUpper (text : Text) : Text := text.flatMap scriptUpperChar

theorem isScriptSpace_of_isSpace {c : Char} (h : isSpace c = true) : isScriptSpace c = true := by
  simp only [isSpace, Bool.or_eq_true, decide_eq_true_eq] at h
  rcases h with ((rfl | rfl) | rfl) | rfl <;> decide

/-! ## Comments -/

/-- What follows the first `*/`. -/
def afterBlock : Text → Option Text
  | [] => none
  | [_] => none
  | c :: d :: rest => if c = '*' ∧ d = '/' then some rest else afterBlock (d :: rest)

/-- The loop of the first `replace`: from an opener to the nearest closing mark, over all lines, each
such comment gives way to a blank. An opener that is never closed stays. -/
def stripBlocksFrom : Nat → Text → Text
  | 0, _ => []
  | _ + 1, [] => []
  | fuel + 1, c :: rest =>
    if c = '/' ∧ rest.head? = some '*' then
      match afterBlock rest.tail with
      | some after => ' ' :: stripBlocksFrom fuel after
      | none => c :: stripBlocksFrom fuel rest
    else c :: stripBlocksFrom fuel rest

def stripBlocks (text : Text) : Text := stripBlocksFrom text.length text

/-- The second `replace`: from two dashes to the end of the line; `inside` is true in the part that is
cut out. -/
def stripLines (inside : Bool) : Text → Text
  | [] => []
  | c :: rest =>
    if inside then
      if isLineTerminator c then c :: stripLines false rest else stripLines true rest
    else if c = '-' ∧ rest.head? = some '-' then ' ' :: stripLines true rest
    else c :: stripLines false rest

def stripComments (text : Text) : Text := stripLines false (stripBlocks text)

/-- The text the client looks at. -/
def normalize (text : Text) : Text := trim (stripComments text)

/-! ## Blocks -/

theorem length_afterBlock {text after : Text} (h : afterBlock text = some after) :
    after.length < text.length := by
  induction text with
  | nil => exact absurd h (by simp [afterBlock])
  | cons c rest ih =>
    cases rest with
    | nil => exact absurd h (by simp [afterBlock])
    | cons d rest =>
      rw [afterBlock] at h
      split_ifs at h with hend
      · rw [Option.some_inj] at h
        subst h
        simp only [List.length_cons]
        omega
      · exact (ih h).trans (Nat.lt_succ_self _)

/-- With enough fuel the loop does not depend on it. -/
theorem stripBlocksFrom_eq (fuel : Nat) (text : Text) (h : text.length ≤ fuel) :
    stripBlocksFrom fuel text = stripBlocks text := by
  have key : ∀ n fuel text, text.length ≤ n → text.length ≤ fuel →
      stripBlocksFrom fuel text = stripBlocksFrom n text := by
    intro n
    induction n with
    | zero =>
      intro fuel text hn hf
      obtain rfl : text = [] := List.length_eq_zero_iff.1 (Nat.le_zero.1 hn)
      cases fuel <;> rfl
    | succ n ih =>
      intro fuel text hn hf
      cases text with
      | nil => cases fuel <;> rfl
      | cons c rest =>
        cases fuel with
        | zero => exact absurd hf (by simp)
        | succ fuel =>
          have hrest : stripBlocksFrom fuel rest = stripBlocksFrom n rest :=
            ih fuel rest (Nat.le_of_succ_le_succ hn) (Nat.le_of_succ_le_succ hf)
          rw [stripBlocksFrom, stripBlocksFrom, hrest]
          cases hafter : afterBlock rest.tail with
          | none => rfl
          | some after =>
            have hlen := length_afterBlock hafter
            rw [List.length_tail] at hlen
            have hsub : stripBlocksFrom fuel after = stripBlocksFrom n after :=
              ih fuel after (by simp only [List.length_cons] at hn; omega)
                (by simp only [List.length_cons] at hf; omega)
            simp only [hsub]
  exact key text.length fuel text (Nat.le_refl _) h

/-- A character that opens no comment. -/
theorem stripBlocks_cons {c : Char} {rest : Text} (h : ¬ (c = '/' ∧ rest.head? = some '*')) :
    stripBlocks (c :: rest) = c :: stripBlocks rest := by
  rw [stripBlocks, List.length_cons, stripBlocksFrom, if_neg h]
  rfl

/-- A comment that is closed. -/
theorem stripBlocks_block {rest after : Text} (h : afterBlock rest = some after) :
    stripBlocks ('/' :: '*' :: rest) = ' ' :: stripBlocks after := by
  rw [stripBlocks, List.length_cons, stripBlocksFrom, if_pos ⟨rfl, rfl⟩, List.tail_cons, h]
  have hlen := length_afterBlock h
  simp only
  rw [stripBlocksFrom_eq]
  simp only [List.length_cons]
  omega

/-- A text without a pair of characters, which the next text does not complete, has none at its front. -/
theorem not_pair_of_append {a b c : Char} {rest tail : Text} (h : ¬ [a, b] <:+: c :: rest)
    (hlast : (c :: rest).getLast? = some a → tail.head? ≠ some b) :
    ¬ (c = a ∧ (rest ++ tail).head? = some b) ∧ ¬ [a, b] <:+: rest ∧
      (rest.getLast? = some a → tail.head? ≠ some b) := by
  refine ⟨?_, fun hin => h (hin.trans (List.suffix_cons c _).isInfix), fun hl => ?_⟩
  · rintro ⟨rfl, hhead⟩
    cases rest with
    | nil => exact hlast rfl hhead
    | cons d rest =>
      obtain rfl : d = b := by simpa using hhead
      exact h ⟨[], rest, rfl⟩
  · cases rest with
    | nil => simp at hl
    | cons d rest => exact hlast (by rwa [List.getLast?_cons_cons])

/-- A text without an opener is kept when the next text does not complete one. -/
theorem stripBlocks_append {text tail : Text} (h : ¬ "/*".toList <:+: text)
    (hlast : text.getLast? = some '/' → tail.head? ≠ some '*') :
    stripBlocks (text ++ tail) = text ++ stripBlocks tail := by
  induction text with
  | nil => rfl
  | cons c rest ih =>
    obtain ⟨hopen, hrest, hlast⟩ := not_pair_of_append (a := '/') (b := '*') h hlast
    rw [List.cons_append, stripBlocks_cons hopen, ih hrest hlast, List.cons_append]

theorem afterBlock_eq_none_iff (text : Text) : afterBlock text = none ↔ ¬ "*/".toList <:+: text := by
  constructor
  · rintro h ⟨before, after, heq⟩
    induction before generalizing text with
    | nil =>
      subst heq
      exact absurd h (by simp [afterBlock])
    | cons c before ih =>
      subst heq
      have hrest : afterBlock (before ++ "*/".toList ++ after) = none := by
        cases hcons : before ++ "*/".toList ++ after with
        | nil => rfl
        | cons d rest =>
          rw [List.cons_append, List.cons_append, hcons, afterBlock] at h
          split_ifs at h
          exact h
      exact ih _ hrest rfl
  · intro h
    induction text with
    | nil => rfl
    | cons c rest ih =>
      cases rest with
      | nil => rfl
      | cons d rest =>
        have hend : ¬ (c = '*' ∧ d = '/') := by
          rintro ⟨rfl, rfl⟩
          exact h ⟨[], rest, rfl⟩
        rw [afterBlock, if_neg hend]
        exact ih fun hin => h (hin.trans (List.suffix_cons c _).isInfix)

/-- Without a closed comment nothing is cut. -/
theorem stripBlocks_eq_self {text : Text}
    (h : ∀ rest, '/' :: '*' :: rest <:+ text → ¬ "*/".toList <:+: rest) :
    stripBlocks text = text := by
  induction text with
  | nil => rfl
  | cons c rest ih =>
    have hrest := ih fun r hr => h r (hr.trans (List.suffix_cons c rest))
    by_cases hopen : c = '/' ∧ rest.head? = some '*'
    · obtain ⟨rfl, hhead⟩ := hopen
      obtain ⟨tail, rfl⟩ := List.head?_eq_some_iff.1 hhead
      have hnone := (afterBlock_eq_none_iff tail).2 (h tail (List.suffix_refl _))
      rw [stripBlocks, List.length_cons, stripBlocksFrom, if_pos ⟨rfl, hhead⟩, List.tail_cons,
        hnone]
      simp only
      rw [stripBlocksFrom_eq _ _ (Nat.le_refl _), hrest]
    · rw [stripBlocks_cons hopen, hrest]

/-- The text in front of the first block opener and the text behind it. -/
def splitOpener : Text → Option (Text × Text)
  | [] => none
  | c :: rest =>
    if c = '/' ∧ rest.head? = some '*' then some ([], rest.tail)
    else (splitOpener rest).map fun p => (c :: p.1, p.2)

theorem splitOpener_none {text : Text} (h : splitOpener text = none) :
    ¬ "/*".toList <:+: text := by
  rintro ⟨before, after, heq⟩
  induction before generalizing text with
  | nil =>
    subst heq
    simp [splitOpener] at h
  | cons c before ih =>
    subst heq
    rw [List.cons_append, List.cons_append, splitOpener] at h
    split_ifs at h
    rw [Option.map_eq_none_iff] at h
    exact ih h rfl

theorem splitOpener_some {text a b : Text} (h : splitOpener text = some (a, b)) :
    text = a ++ '/' :: '*' :: b ∧ ¬ "/*".toList <:+: a := by
  induction text generalizing a with
  | nil => simp [splitOpener] at h
  | cons c rest ih =>
    rw [splitOpener] at h
    split_ifs at h with hopen
    · obtain ⟨rfl, hhead⟩ := hopen
      obtain ⟨tail, rfl⟩ := List.head?_eq_some_iff.1 hhead
      obtain ⟨rfl, rfl⟩ : [] = a ∧ tail = b := by simpa using h
      exact ⟨rfl, by simp⟩
    · obtain ⟨⟨a', b'⟩, hp, heq⟩ := Option.map_eq_some_iff.1 h
      obtain ⟨rfl, rfl⟩ : c :: a' = a ∧ b' = b := by simpa using heq
      obtain ⟨rfl, hno⟩ := ih hp
      refine ⟨rfl, ?_⟩
      rintro ⟨before, after, hin⟩
      cases before with
      | nil =>
        -- an opener at the front is the one the split stops at
        obtain ⟨rfl, hrest⟩ : '/' = c ∧ '*' :: after = a' := by simpa using hin
        rw [← hrest] at hopen
        exact hopen ⟨rfl, rfl⟩
      | cons x before =>
        obtain ⟨-, hrest⟩ : x = c ∧ before ++ "/*".toList ++ after = a' := by simpa using hin
        exact hno ⟨before, after, hrest⟩

/-- A first character that is no slash stays the first. -/
theorem head?_stripBlocks {text : Text} (h : StopsWord text) :
    (stripBlocks text).head? = text.head? := by
  cases text with
  | nil => rfl
  | cons c rest =>
    have hslash : c ≠ '/' := by
      rintro rfl
      exact absurd (h '/' rfl) (by decide)
    rw [stripBlocks_cons fun hc => hslash hc.1]
    rfl

theorem stopsWord_stripBlocks {text : Text} (h : StopsWord text) : StopsWord (stripBlocks text) := by
  intro c hc
  rw [head?_stripBlocks h] at hc
  exact h c hc

/-! ## Lines -/

/-- A text without two dashes is kept when the next text does not complete them. -/
theorem stripLines_append {text tail : Text} (h : ¬ "--".toList <:+: text)
    (hlast : text.getLast? = some '-' → tail.head? ≠ some '-') :
    stripLines false (text ++ tail) = text ++ stripLines false tail := by
  induction text with
  | nil => rfl
  | cons c rest ih =>
    obtain ⟨hopen, hrest, hlast⟩ := not_pair_of_append (a := '-') (b := '-') h hlast
    rw [List.cons_append, stripLines, if_neg Bool.false_ne_true, if_neg hopen, ih hrest hlast,
      List.cons_append]

/-- No two dashes are left. -/
theorem no_dashes_stripLines (inside : Bool) (text : Text) :
    ¬ "--".toList <:+: stripLines inside text := by
  have hcons : ∀ (c : Char) (out : Text), ¬ "--".toList <:+: out →
      ¬ (c = '-' ∧ out.head? = some '-') → ¬ "--".toList <:+: c :: out := by
    rintro c out hout hfirst ⟨before, after, heq⟩
    cases before with
    | nil =>
      obtain ⟨rfl, hrest⟩ : '-' = c ∧ '-' :: after = out := by simpa using heq
      exact hfirst ⟨rfl, by rw [← hrest]; rfl⟩
    | cons x before =>
      obtain ⟨-, hrest⟩ : x = c ∧ before ++ "--".toList ++ after = out := by simpa using heq
      exact hout ⟨before, after, hrest⟩
  induction text generalizing inside with
  | nil => simp [stripLines]
  | cons c rest ih =>
    rw [stripLines]
    split_ifs with h1 h2 h3
    · refine hcons c _ (ih false) ?_
      rintro ⟨rfl, -⟩
      exact absurd h2 (by decide)
    · exact ih true
    · exact hcons ' ' _ (ih true) (fun h => absurd h.1 (by decide))
    · refine hcons c _ (ih false) ?_
      rintro ⟨rfl, hhead⟩
      -- a dash that is kept behind a dash would have been cut with it
      cases rest with
      | nil => exact absurd hhead (by simp [stripLines])
      | cons d rest =>
        rw [stripLines, if_neg Bool.false_ne_true] at hhead
        split_ifs at hhead with h4
        · exact absurd hhead (by simp)
        · obtain rfl : d = '-' := by simpa using hhead
          exact h3 ⟨rfl, rfl⟩

theorem head?_stripLines {text : Text} (h : StopsWord text) :
    (stripLines false text).head? = text.head? := by
  cases text with
  | nil => rfl
  | cons c rest =>
    have hdash : c ≠ '-' := by
      rintro rfl
      exact absurd (h '-' rfl) (by decide)
    rw [stripLines, if_neg Bool.false_ne_true, if_neg fun hc => hdash hc.1]
    rfl

theorem stopsWord_stripLines {text : Text} (h : StopsWord text) :
    StopsWord (stripLines false text) := by
  intro c hc
  rw [head?_stripLines h] at hc
  exact h c hc

theorem stripBlocks_single {c : Char} (h : c ≠ '/') (tail : Text) :
    stripBlocks (c :: tail) = c :: stripBlocks tail :=
  stripBlocks_cons fun hc => h hc.1

theorem stripLines_single {c : Char} (h : c ≠ '-') (tail : Text) :
    stripLines false (c :: tail) = c :: stripLines false tail := by
  rw [stripLines, if_neg Bool.false_ne_true, if_neg fun hc => h hc.1]

/-! ## Trimming -/

theorem rdropWhile_append {α : Type} (p : α → Bool) (xs ys : List α) :
    (xs ++ ys).rdropWhile p =
      if ys.rdropWhile p = [] then xs.rdropWhile p else xs ++ ys.rdropWhile p := by
  induction ys using List.reverseRecOn with
  | nil => simp
  | append_singleton ys y ih =>
    rw [← List.append_assoc]
    by_cases hy : p y = true
    · rw [List.rdropWhile_concat_pos p _ _ hy, List.rdropWhile_concat_pos p _ _ hy, ih]
    · rw [List.rdropWhile_concat_neg p _ _ hy, List.rdropWhile_concat_neg p _ _ hy,
        if_neg (by simp), List.append_assoc]

/-- A text in front of which nothing can be trimmed off the end of it. -/
theorem rdropWhile_append_of_last {p : Char → Bool} {xs ys : Text}
    (h : ∀ c, xs.getLast? = some c → p c = false) :
    (xs ++ ys).rdropWhile p = xs ++ ys.rdropWhile p := by
  rw [rdropWhile_append]
  split_ifs with hnil
  · rw [hnil, List.append_nil, List.rdropWhile_eq_self_iff]
    intro hl
    rw [h _ (List.getLast?_eq_some_getLast hl)]
    exact Bool.false_ne_true
  · rfl

/-- White space in front of a text that is trimmed at the end. -/
theorem dropWhile_rdropWhile_space {c : Char} (hc : isScriptSpace c = true) (text : Text) :
    ((c :: text).rdropWhile isScriptSpace).dropWhile isScriptSpace =
      (text.rdropWhile isScriptSpace).dropWhile isScriptSpace := by
  have happ := rdropWhile_append isScriptSpace [c] text
  rw [List.singleton_append] at happ
  rw [happ]
  split_ifs with hnil
  · rw [hnil, List.rdropWhile_singleton, if_pos hc]
  · exact List.dropWhile_cons_of_pos hc

theorem dropWhile_rdropWhile_spaces {spaces : Text} (h : spaces.all isScriptSpace = true)
    (text : Text) :
    ((spaces ++ text).rdropWhile isScriptSpace).dropWhile isScriptSpace =
      (text.rdropWhile isScriptSpace).dropWhile isScriptSpace := by
  induction spaces with
  | nil => rfl
  | cons c spaces ih =>
    rw [List.all_cons, Bool.and_eq_true] at h
    rw [List.cons_append, dropWhile_rdropWhile_space h.1, ih h.2]

theorem stopsWord_rdropWhile {text : Text} (h : StopsWord text) :
    StopsWord (text.rdropWhile isScriptSpace) := by
  intro c hc
  obtain ⟨more, hmore⟩ := List.rdropWhile_prefix isScriptSpace text
  apply h
  rw [← hmore, List.head?_append, hc]
  rfl

/-! ## What is left of a text -/

/-- What the client has left of the text from a place on. -/
def kept (text : Text) : Text := (stripComments text).rdropWhile isScriptSpace

theorem normalize_eq (text : Text) : normalize text = (kept text).dropWhile isScriptSpace := rfl

theorem stopsWord_kept {text : Text} (h : StopsWord text) : StopsWord (kept text) :=
  stopsWord_rdropWhile (stopsWord_stripLines (stopsWord_stripBlocks h))

/-- A character that opens no comment and is no white space stays. -/
theorem kept_cons {c : Char} (hslash : c ≠ '/') (hdash : c ≠ '-') (hspace : isScriptSpace c = false)
    (text : Text) : kept (c :: text) = c :: kept text := by
  rw [kept, stripComments, stripBlocks_single hslash, stripLines_single hdash]
  have hlast : ∀ x, [c].getLast? = some x → isScriptSpace x = false := by
    intro x hx
    obtain rfl : c = x := by simpa using hx
    exact hspace
  exact rdropWhile_append_of_last hlast

/-- It begins as the text does, or with the blank for a comment. -/
theorem head?_kept {text : Text} {c : Char} (h : (kept text).head? = some c) :
    c = ' ' ∨ text.head? = some c := by
  have hhead : (stripComments text).head? = some c := by
    obtain ⟨more, hmore⟩ := List.rdropWhile_prefix isScriptSpace (stripComments text)
    rw [← hmore, List.head?_append]
    change (kept text).head?.or _ = _
    rw [h]
    rfl
  have hlines : ∀ (x : Char) (rest : Text), (stripLines false (x :: rest)).head? = some c →
      c = ' ' ∨ x = c := by
    intro x rest hx
    rw [stripLines, if_neg Bool.false_ne_true] at hx
    split_ifs at hx
    · exact Or.inl (Option.some.inj hx).symm
    · exact Or.inr (Option.some.inj hx)
  cases text with
  | nil => exact absurd hhead (by simp [stripComments, stripBlocks, stripBlocksFrom, stripLines])
  | cons x rest =>
    have hfirst : ∃ y more, stripBlocks (x :: rest) = y :: more ∧ (y = ' ' ∨ y = x) := by
      rw [stripBlocks, List.length_cons, stripBlocksFrom]
      split_ifs
      · split
        · exact ⟨_, _, rfl, Or.inl rfl⟩
        · exact ⟨_, _, rfl, Or.inr rfl⟩
      · exact ⟨_, _, rfl, Or.inr rfl⟩
    obtain ⟨y, more, hblocks, hy⟩ := hfirst
    rw [stripComments, hblocks] at hhead
    rcases hlines y more hhead with hc | rfl
    · exact Or.inl hc
    · rcases hy with rfl | rfl
      · exact Or.inl rfl
      · exact Or.inr rfl

/-- No comment is left in it. -/
theorem no_dashes_kept (text : Text) : ¬ "--".toList <:+: kept text := by
  intro hin
  have hprefix := List.rdropWhile_prefix isScriptSpace (stripComments text)
  exact no_dashes_stripLines false _ (hin.trans hprefix.isInfix)

/-! ## Gaps -/

/-- Behind two dashes the regular expressions cut what the gate skips: the line leaves no block comment
open that is closed behind it, and what they keep of it behind another line break is white space. -/
def LineCutAlike (text : Text) : Prop :=
  ¬ ("/*".toList <:+: stripBlocks (text.takeWhile (· ≠ '\n')) ∧ "*/".toList <:+: skipLine text) ∧
    ((stripBlocks (text.takeWhile (· ≠ '\n'))).dropWhile fun c => !isLineTerminator c).all
      isScriptSpace = true

instance (text : Text) : Decidable (LineCutAlike text) := inferInstanceAs (Decidable (_ ∧ _))

/-- A blank or a comment that both sides pass over alike, and what follows it. -/
inductive Gap : Text → Text → Prop where
  | blank {c : Char} {rest : Text} (is_space : isSpace c = true) : Gap (c :: rest) rest
  | line {text : Text} (alike : LineCutAlike text) : Gap ('-' :: '-' :: text) (skipLine text)
  | block {text rest : Text} (closed : afterBlock text = some rest) :
      Gap ('/' :: '*' :: text) rest

theorem takeWhile_append_skipLine (text : Text) :
    text.takeWhile (· ≠ '\n') ++ skipLine text = text := by
  induction text with
  | nil => rfl
  | cons c rest ih =>
    rw [skipLine]
    by_cases hc : c = '\n'
    · rw [if_pos hc, List.takeWhile_cons_of_neg (by simpa using hc), List.nil_append]
    · rw [if_neg hc, List.takeWhile_cons_of_pos (by simpa using hc), List.cons_append, ih]

theorem head?_skipLine {text : Text} {c : Char} (h : (skipLine text).head? = some c) : c = '\n' := by
  induction text with
  | nil => exact absurd h (by simp [skipLine])
  | cons x rest ih =>
    rw [skipLine] at h
    split_ifs at h with hx
    · obtain rfl : x = c := by simpa using h
      exact hx
    · exact ih h

theorem skipBlock_of_closed : ∀ {text rest : Text}, afterBlock text = some rest →
    skipBlock text = rest
  | [], _, h => absurd h (by simp [afterBlock])
  | [_], _, h => absurd h (by simp [afterBlock])
  | c :: d :: text, rest, h => by
    rw [afterBlock] at h
    rw [skipBlock]
    split_ifs at h ⊢ with hend
    · exact Option.some.inj h
    · exact skipBlock_of_closed h

theorem afterBlock_append_some : ∀ {text rest : Text} (tail : Text), afterBlock text = some rest →
    afterBlock (text ++ tail) = some (rest ++ tail)
  | [], _, _, h => absurd h (by simp [afterBlock])
  | [_], _, _, h => absurd h (by simp [afterBlock])
  | c :: d :: text, rest, tail, h => by
    rw [afterBlock] at h
    rw [List.cons_append, List.cons_append, afterBlock]
    split_ifs at h ⊢ with hend
    · rw [← Option.some.inj h]
    · exact afterBlock_append_some tail h

/-- A closing mark does not lie across the end of a line. -/
theorem not_closed_append {text tail : Text} (htext : ¬ "*/".toList <:+: text)
    (htail : ¬ "*/".toList <:+: tail) (hhead : tail.head? ≠ some '/') :
    ¬ "*/".toList <:+: text ++ tail := by
  induction text with
  | nil => exact htail
  | cons c rest ih =>
    rintro ⟨before, after, heq⟩
    have hrest : ¬ "*/".toList <:+: rest := fun hin =>
      htext (hin.trans (List.suffix_cons c rest).isInfix)
    cases before with
    | nil =>
      obtain ⟨rfl, hnext⟩ : '*' = c ∧ '/' :: after = rest ++ tail := by simpa using heq
      cases rest with
      | nil =>
        rw [List.nil_append] at hnext
        exact hhead (by rw [← hnext]; rfl)
      | cons d rest =>
        obtain ⟨rfl, -⟩ : '/' = d ∧ after = rest ++ tail := by simpa using hnext
        exact htext ⟨[], rest, rfl⟩
    | cons x before =>
      obtain ⟨-, hnext⟩ : x = c ∧ before ++ "*/".toList ++ after = rest ++ tail := by
        simpa using heq
      exact ih hrest ⟨before, after, hnext⟩

/-- A text without a closing mark is kept. -/
theorem stripBlocks_not_closed {text : Text} (h : ¬ "*/".toList <:+: text) :
    stripBlocks text = text := by
  apply stripBlocks_eq_self
  intro rest hrest hin
  have hsub : rest <:+ text :=
    ((List.suffix_cons '*' rest).trans (List.suffix_cons '/' _)).trans hrest
  exact h (hin.trans hsub.isInfix)

/-- A comment that is never closed is kept. -/
theorem stripBlocks_unclosed {body : Text} (h : ¬ "*/".toList <:+: body) :
    stripBlocks ('/' :: '*' :: body) = '/' :: '*' :: body := by
  apply stripBlocks_eq_self
  intro rest hrest hin
  rcases List.suffix_cons_iff.1 hrest with heq | hrest
  · obtain rfl : rest = body := by simpa using heq
    exact h hin
  · rcases List.suffix_cons_iff.1 hrest with heq | hrest
    · exact absurd heq (by simp)
    · have hsub : rest <:+ body :=
        ((List.suffix_cons '*' rest).trans (List.suffix_cons '/' _)).trans hrest
      exact h (hin.trans hsub.isInfix)

/-- Block comments are cut on both sides of a place that lies in none. The induction is on the length
of the first part. -/
theorem stripBlocks_append_of_not_open {tail : Text} (hstar : tail.head? ≠ some '*')
    (hslash : tail.head? ≠ some '/') (text : Text)
    (h : ¬ ("/*".toList <:+: stripBlocks text ∧ "*/".toList <:+: tail)) :
    stripBlocks (text ++ tail) = stripBlocks text ++ stripBlocks tail := by
  induction hn : text.length using Nat.strong_induction_on generalizing text with
  | _ n ih =>
    cases text with
    | nil => rfl
    | cons c rest =>
      rw [List.length_cons] at hn
      by_cases hopen : c = '/' ∧ rest.head? = some '*'
      · obtain ⟨rfl, hhead⟩ := hopen
        obtain ⟨body, rfl⟩ := List.head?_eq_some_iff.1 hhead
        rw [List.length_cons] at hn
        cases hafter : afterBlock body with
        | some after =>
          have hlen := length_afterBlock hafter
          rw [stripBlocks_block hafter] at h
          rw [List.cons_append, List.cons_append, stripBlocks_block hafter,
            stripBlocks_block (afterBlock_append_some tail hafter), List.cons_append,
            ih after.length (by omega) after _ rfl]
          intro hcon
          exact h ⟨hcon.1.trans (List.suffix_cons _ _).isInfix, hcon.2⟩
        | none =>
          -- an opener that stays is closed nowhere
          have hbody := (afterBlock_eq_none_iff body).1 hafter
          rw [stripBlocks_unclosed hbody] at h ⊢
          have htail : ¬ "*/".toList <:+: tail := fun hin => h ⟨⟨[], body, rfl⟩, hin⟩
          rw [stripBlocks_not_closed htail]
          exact stripBlocks_unclosed (not_closed_append hbody htail hslash)
      · have hopen' : ¬ (c = '/' ∧ (rest ++ tail).head? = some '*') := by
          rintro ⟨hc, hhead⟩
          cases rest with
          | nil => exact hstar hhead
          | cons d rest => exact hopen ⟨hc, hhead⟩
        rw [stripBlocks_cons hopen] at h
        rw [List.cons_append, stripBlocks_cons hopen, stripBlocks_cons hopen', List.cons_append,
          ih rest.length (by omega) rest _ rfl]
        intro hcon
        exact h ⟨hcon.1.trans (List.suffix_cons _ _).isInfix, hcon.2⟩

theorem stripLines_true_append {text : Text} (h : text.all (fun c => !isLineTerminator c) = true)
    (tail : Text) : stripLines true (text ++ tail) = stripLines true tail := by
  induction text with
  | nil => rfl
  | cons c rest ih =>
    rw [List.all_cons, Bool.and_eq_true, Bool.not_eq_true'] at h
    rw [List.cons_append, stripLines, if_pos rfl, h.1, if_neg Bool.false_ne_true, ih h.2]

/-- White space holds no comment. -/
theorem stripLines_spaces {spaces : Text} (h : spaces.all isScriptSpace = true) (tail : Text) :
    stripLines false (spaces ++ tail) = spaces ++ stripLines false tail := by
  induction spaces with
  | nil => rfl
  | cons c spaces ih =>
    rw [List.all_cons, Bool.and_eq_true] at h
    have hdash : c ≠ '-' := by
      rintro rfl
      exact absurd h.1 (by decide)
    rw [List.cons_append, stripLines_single hdash, ih h.2, List.cons_append]

/-- What the client has behind a line that is cut alike. -/
theorem stripComments_line {text : Text} (h : LineCutAlike text) :
    ∃ spaces : Text, spaces.all isScriptSpace = true ∧
      stripComments ('-' :: '-' :: text) = spaces ++ stripComments (skipLine text) := by
  obtain ⟨hopen, hspaces⟩ := h
  generalize hbody : text.takeWhile (· ≠ '\n') = body at hopen hspaces
  have hsplit := takeWhile_append_skipLine text
  rw [hbody] at hsplit
  have hstar : (skipLine text).head? ≠ some '*' := fun hc => absurd (head?_skipLine hc) (by decide)
  have hslash : (skipLine text).head? ≠ some '/' := fun hc => absurd (head?_skipLine hc) (by decide)
  have hblocks := stripBlocks_append_of_not_open hstar hslash body hopen
  rw [hsplit] at hblocks
  have hlines : stripComments ('-' :: '-' :: text) =
      ' ' :: stripLines true (stripBlocks body ++ stripBlocks (skipLine text)) := by
    rw [stripComments, stripBlocks_single (by decide), stripBlocks_single (by decide), hblocks,
      stripLines, if_neg Bool.false_ne_true, if_pos ⟨rfl, rfl⟩, stripLines, if_pos rfl,
      if_neg (by decide)]
  rw [hlines, stripComments]
  -- the body up to its first line break, and from there on
  have hparts := List.takeWhile_append_dropWhile (p := fun c => !isLineTerminator c)
    (l := stripBlocks body)
  have hfirst : ((stripBlocks body).takeWhile fun c => !isLineTerminator c).all
      (fun c => !isLineTerminator c) = true := List.all_takeWhile
  rw [← hparts, List.append_assoc, stripLines_true_append hfirst]
  cases hrest : (stripBlocks body).dropWhile fun c => !isLineTerminator c with
  | nil =>
    refine ⟨[' '], rfl, ?_⟩
    rw [List.nil_append, List.singleton_append]
    cases hskip : skipLine text with
    | nil => rfl
    | cons c rest =>
      obtain rfl : c = '\n' := @head?_skipLine text _ (by rw [hskip]; rfl)
      rw [stripBlocks_single (by decide)]
      rfl
  | cons c rest =>
    rw [hrest] at hspaces
    have hc : isLineTerminator c = true := by
      have hhead := List.head?_dropWhile_not (fun c => !isLineTerminator c) (stripBlocks body)
      rw [hrest] at hhead
      simpa using hhead
    refine ⟨' ' :: c :: rest, ?_, ?_⟩
    · rw [List.all_cons, hspaces]
      rfl
    · rw [List.cons_append, stripLines, if_pos rfl, if_pos hc]
      rw [List.all_cons, Bool.and_eq_true] at hspaces
      rw [stripLines_spaces hspaces.2]
      rfl

theorem Gap.length_lt {text rest : Text} (h : Gap text rest) : rest.length < text.length := by
  cases h with
  | blank _ => exact Nat.lt_succ_self _
  | line _ => exact (Nat.lt_succ_of_le (length_skipLine_le _)).trans (Nat.lt_succ_self _)
  | block hclosed => exact ((length_afterBlock hclosed).trans (Nat.lt_succ_self _)).trans (Nat.lt_succ_self _)

/-- The gate has no token in a gap. -/
theorem Gap.scan {text rest : Text} (h : Gap text rest) (d : Nat) :
    gate.scan (betweenAt d) text = gate.scan (betweenAt d) rest := by
  cases h with
  | blank hc =>
    rw [Scanner.scan_cons, gate_step, gateStep_between, enter_space d ((charKind_space_iff _).2 hc)]
    rfl
  | line _ => exact scan_line d _
  | block hclosed =>
    rw [← skipBlock_of_closed hclosed]
    exact scan_block_none d _

/-- The client has white space for it. -/
theorem Gap.kept {text rest : Text} (h : Gap text rest) :
    (kept text).dropWhile isScriptSpace = (Web.kept rest).dropWhile isScriptSpace := by
  cases h with
  | @blank c _ hc =>
    have hne : c ≠ '/' ∧ c ≠ '-' := by
      refine ⟨?_, ?_⟩ <;> rintro rfl <;> exact absurd hc (by decide)
    rw [Web.kept, stripComments, stripBlocks_single hne.1, stripLines_single hne.2]
    exact dropWhile_rdropWhile_space (isScriptSpace_of_isSpace hc) _
  | line halike =>
    obtain ⟨spaces, hspaces, heq⟩ := stripComments_line halike
    rw [Web.kept, heq]
    exact dropWhile_rdropWhile_spaces hspaces _
  | block hclosed =>
    rw [Web.kept, stripComments, stripBlocks_block hclosed, stripLines_single (by decide)]
    exact dropWhile_rdropWhile_space rfl _

/-! ## Texts without comments -/

/-- Neither regular expression finds a comment in the text in front of the tail. -/
structure Whole (text tail : Text) : Prop where
  no_line : ¬ "--".toList <:+: text
  no_block : ∀ before after, splitOpener text = some (before, after) →
    ¬ "*/".toList <:+: after ++ tail

/-- The text is kept as it stands, and what follows it is read from its own beginning. -/
theorem stripComments_append {text tail : Text} (h : Whole text tail)
    (hslash : text.getLast? = some '/' → tail.head? ≠ some '*')
    (hdash : text.getLast? = some '-' → StopsWord tail) :
    stripComments (text ++ tail) = text ++ stripComments tail := by
  have hblocks : stripBlocks (text ++ tail) = text ++ stripBlocks tail := by
    cases hsplit : splitOpener text with
    | none => exact stripBlocks_append (splitOpener_none hsplit) hslash
    | some p =>
      obtain ⟨before, after⟩ := p
      obtain ⟨rfl, hno⟩ := splitOpener_some hsplit
      have hopen := h.no_block before after hsplit
      have htail : ¬ "*/".toList <:+: tail := fun hin =>
        hopen (hin.trans (List.suffix_append after tail).isInfix)
      rw [List.append_assoc, stripBlocks_append hno (fun _ => by simp), List.cons_append,
        List.cons_append, stripBlocks_unclosed hopen, stripBlocks_not_closed htail,
        List.append_assoc, List.cons_append, List.cons_append]
  rw [stripComments, hblocks, stripLines_append h.no_line]
  · rfl
  · intro hlast hhead
    rw [head?_stripBlocks (hdash hlast)] at hhead
    exact absurd (hdash hlast '-' hhead) (by decide)

/-- The same with the end trimmed. -/
theorem kept_append {text tail : Text} (h : Whole text tail)
    (hslash : text.getLast? = some '/' → tail.head? ≠ some '*')
    (hdash : text.getLast? = some '-' → StopsWord tail)
    (hspace : ∀ c, text.getLast? = some c → isScriptSpace c = false) :
    kept (text ++ tail) = text ++ kept tail := by
  rw [kept, stripComments_append h hslash hdash]
  exact rdropWhile_append_of_last hspace

/-- In front of a delimiter no comment begins across the end of the text. -/
theorem kept_append_of_stops {text tail : Text} (h : Whole text tail) (htail : StopsWord tail)
    (hspace : ∀ c ∈ text, isScriptSpace c = false) : kept (text ++ tail) = text ++ kept tail := by
  apply kept_append h
  · intro _ hhead
    exact absurd (htail '*' hhead) (by decide)
  · exact fun _ => htail
  · exact fun c hc => hspace c (List.mem_of_getLast? hc)

/-- A text with a closed comment in it is cut in front of the comment, and what is behind the comment
follows. -/
theorem kept_cut {before after rest : Text} (hblock : ¬ "/*".toList <:+: before)
    (hline : ¬ "--".toList <:+: before) (hspace : ∀ c ∈ before, isScriptSpace c = false)
    (hafter : afterBlock after = some rest) :
    ∃ more, StopsWord more ∧ more.dropWhile isScriptSpace = (kept rest).dropWhile isScriptSpace ∧
      kept (before ++ '/' :: '*' :: after) = before ++ more := by
  refine ⟨(' ' :: stripComments rest).rdropWhile isScriptSpace,
    stopsWord_rdropWhile (stopsWord_space _), dropWhile_rdropWhile_space rfl _, ?_⟩
  rw [kept, stripComments, stripBlocks_append hblock (fun _ => by simp),
    stripBlocks_block hafter, stripLines_append hline (fun _ => by simp),
    stripLines_single (by decide)]
  exact rdropWhile_append_of_last fun c hc => hspace c (List.mem_of_getLast? hc)

end Workbench.Web
