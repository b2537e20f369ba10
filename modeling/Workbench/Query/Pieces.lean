import Workbench.Query.Gate

/-!
# Texts as pieces

A statement is laid out here as a list of pieces: blanks, comments, bare words, quoted texts,
parentheses, commas and semicolons. A piece carries the proof that it is one: a word has no delimiter
and no comment opener in it, a comment does not end early, a quoted text is closed only by its last
mark. `Spaced` says that a word is not directly followed by another word or by a comment.

On such texts the tokenizer is a function of the pieces: one token for each word, at its nesting
depth, and nothing else (`tokenize_render`).
-/

set_option autoImplicit false

namespace Workbench.Query

open Workbench.Lib

/-- A bare word: everything up to the next delimiter, operators and dots included. -/
structure WordRun where
  text : Text
  ne_nil : text ≠ []
  chars : text.all isWordChar = true
  no_line : ¬ "--".toList <:+: text
  no_block : ¬ "/*".toList <:+: text

/-- The text is one bare word. -/
def IsWordRun (text : Text) : Prop :=
  text ≠ [] ∧ text.all isWordChar = true ∧ ¬ "--".toList <:+: text ∧ ¬ "/*".toList <:+: text

instance (text : Text) : Decidable (IsWordRun text) :=
  inferInstanceAs (Decidable (_ ∧ _ ∧ _ ∧ _))

def WordRun.of (text : Text) (h : IsWordRun text) : WordRun := ⟨text, h.1, h.2.1, h.2.2.1, h.2.2.2⟩

/-- What stands between the marks of a quoted text: a plain character, the doubled mark, or a
backslash with its character. -/
inductive QuoteUnit (mark : Char) where
  | plain (c : Char) (ne_mark : c ≠ mark) (ne_backslash : c ≠ '\\')
  | doubled
  | escaped (c : Char)

def QuoteUnit.render {mark : Char} : QuoteUnit mark → Text
  | .plain c _ _ => [c]
  | .doubled => [mark, mark]
  | .escaped c => ['\\', c]

/-- A quoted text as the tokenizer reads it. -/
structure Quoted where
  mark : Char
  is_mark : isQuote mark = true
  units : List (QuoteUnit mark)

def Quoted.body (q : Quoted) : Text := q.units.flatMap QuoteUnit.render

def Quoted.text (q : Quoted) : Text := q.mark :: (q.body ++ [q.mark])

inductive Piece where
  | blank (c : Char) (is_space : isSpace c = true)
  | lineComment (body : Text) (open_line : '\n' ∉ body)
  | blockComment (body : Text) (open_block : ¬ "*/".toList <:+: body)
  | word (w : WordRun)
  | quoted (q : Quoted)
  | opening
  | closing
  | comma
  | semicolon

/-- One space. -/
def Piece.space : Piece := .blank ' ' rfl

def Piece.render : Piece → Text
  | .blank c _ => [c]
  | .lineComment body _ => "--".toList ++ (body ++ ['\n'])
  | .blockComment body _ => "/*".toList ++ (body ++ "*/".toList)
  | .word w => w.text
  | .quoted q => q.text
  | .opening => ['(']
  | .closing => [')']
  | .comma => [',']
  | .semicolon => [';']

def render (pieces : List Piece) : Text := pieces.flatMap Piece.render

/-- Words and comments, which must not stand directly behind a word. -/
def Piece.joinsWord : Piece → Bool
  | .word _ => true
  | .lineComment _ _ => true
  | .blockComment _ _ => true
  | _ => false

/-- A blank or a comment. -/
def Piece.isGap : Piece → Bool
  | .blank _ _ => true
  | .lineComment _ _ => true
  | .blockComment _ _ => true
  | _ => false

/-- No word is directly followed by a word or a comment. -/
def Spaced : List Piece → Bool
  | [] => true
  | .word _ :: next :: rest => !next.joinsWord && Spaced (next :: rest)
  | _ :: rest => Spaced rest

/-- The tokens of the pieces from nesting depth `d` on. -/
def pieceTokens : Nat → List Piece → List Token
  | _, [] => []
  | d, .word w :: rest => ⟨w.text, d⟩ :: pieceTokens d rest
  | d, .opening :: rest => pieceTokens (d + 1) rest
  | d, .closing :: rest => pieceTokens (d - 1) rest
  | d, _ :: rest => pieceTokens d rest

/-! ## The scanner on one piece -/

theorem run_lineComment {body : Text} (h : '\n' ∉ body) (d : Nat) :
    gate.Run ⟨.line, d⟩ (body ++ ['\n']) [] (betweenAt d) := by
  induction body with
  | nil => exact ⟨rfl, rfl⟩
  | cons c body ih =>
    rw [List.mem_cons, not_or] at h
    have hstep : gateStep ⟨.line, d⟩ c = (⟨.line, d⟩, []) := by
      simp only [gateStep]
      rw [if_neg (Ne.symm h.1)]
    exact run_step_cons hstep (ih h.2)

/-- Inside a block comment the last character read and the rest of the body hold no `*/`. -/
theorem run_blockComment (d : Nat) (body : Text) (last : Option Char)
    (h : ¬ "*/".toList <:+: last.toList ++ body) :
    gate.Run ⟨.block last, d⟩ (body ++ "*/".toList) [] (betweenAt d) := by
  induction body generalizing last with
  | nil =>
    have hstep : gateStep ⟨.block last, d⟩ '*' = (⟨.block (some '*'), d⟩, []) := by
      simp [gateStep]
    exact run_step_cons hstep ⟨rfl, rfl⟩
  | cons c body ih =>
    have hstep : gateStep ⟨.block last, d⟩ c = (⟨.block (some c), d⟩, []) := by
      simp only [gateStep]
      rw [if_neg]
      rintro ⟨rfl, rfl⟩
      exact h ⟨[], body, rfl⟩
    have hrest : ¬ "*/".toList <:+: (some c).toList ++ body := by
      intro hin
      exact h (hin.trans (List.suffix_append _ _).isInfix)
    exact run_step_cons hstep (ih (some c) hrest)

theorem backslash_ne_mark {mark : Char} (h : isQuote mark = true) : '\\' ≠ mark := by
  rintro rfl
  exact absurd h (by decide)

theorem run_quoteUnit {mark : Char} (hm : isQuote mark = true) (d : Nat) (u : QuoteUnit mark) :
    gate.Run ⟨.quoted mark, d⟩ u.render [] ⟨.quoted mark, d⟩ := by
  cases u with
  | plain c hne hb =>
    have hstep : gateStep ⟨.quoted mark, d⟩ c = (⟨.quoted mark, d⟩, []) := by
      simp only [gateStep]
      rw [if_neg hne, if_neg hb]
    exact run_step hstep
  | doubled =>
    have hk : charKind mark = .quote := (charKind_quote_iff mark).2 ((isQuote_iff mark).1 hm)
    have hclose : gateStep ⟨.quoted mark, d⟩ mark = (betweenAt d, []) := by simp [gateStep]
    have hopen : gateStep (betweenAt d) mark = (⟨.quoted mark, d⟩, []) := by
      rw [gateStep_between, enter_quote d hk]
    exact run_step_cons hclose (run_step hopen)
  | escaped c =>
    have hstep : gateStep ⟨.quoted mark, d⟩ '\\' = (⟨.escaped mark, d⟩, []) := by
      simp only [gateStep]
      rw [if_neg (backslash_ne_mark hm), if_pos trivial]
    exact run_step_cons hstep (run_step rfl)

theorem run_quoteUnits {mark : Char} (hm : isQuote mark = true) (d : Nat)
    (units : List (QuoteUnit mark)) :
    gate.Run ⟨.quoted mark, d⟩ (units.flatMap QuoteUnit.render) [] ⟨.quoted mark, d⟩ := by
  induction units with
  | nil => exact Scanner.Run.nil _
  | cons u units ih =>
    rw [List.flatMap_cons]
    exact (run_quoteUnit hm d u).append ih

theorem run_quoted (q : Quoted) (d : Nat) :
    gate.Run (betweenAt d) q.text [] (betweenAt d) := by
  have hk : charKind q.mark = .quote :=
    (charKind_quote_iff q.mark).2 ((isQuote_iff q.mark).1 q.is_mark)
  have hopen : gateStep (betweenAt d) q.mark = (⟨.quoted q.mark, d⟩, []) := by
    rw [gateStep_between, enter_quote d hk]
  have hclose : gateStep ⟨.quoted q.mark, d⟩ q.mark = (betweenAt d, []) := by simp [gateStep]
  exact run_step_cons hopen ((run_quoteUnits q.is_mark d q.units).append (run_step hclose))

/-! ## Words -/

/-- The text does not begin with a character of a word. -/
def StopsWord (t : Text) : Prop := ∀ c, t.head? = some c → isWordChar c = false

theorem stopsWord_space (text : Text) : StopsWord (' ' :: text) := by
  intro c hc
  obtain rfl : ' ' = c := by simpa using hc
  decide

theorem takeWhile_append_of_stops {w t : Text} (hw : w.all isWordChar = true) (ht : StopsWord t) :
    (w ++ t).takeWhile isWordChar = w ∧ (w ++ t).dropWhile isWordChar = t := by
  induction w with
  | nil =>
    cases t with
    | nil => exact ⟨rfl, rfl⟩
    | cons c t =>
      have hc : ¬ isWordChar c = true := by
        rw [ht c rfl]
        exact Bool.false_ne_true
      exact ⟨List.takeWhile_cons_of_neg hc, List.dropWhile_cons_of_neg hc⟩
  | cons c w ih =>
    rw [List.all_cons, Bool.and_eq_true] at hw
    obtain ⟨h1, h2⟩ := ih hw.2
    refine ⟨?_, ?_⟩
    · rw [List.cons_append, List.takeWhile_cons_of_pos hw.1, h1]
    · rw [List.cons_append, List.dropWhile_cons_of_pos hw.1, h2]

/-- A word that opens no comment, in front of a text that does not continue it, is one token. -/
theorem scan_bareWord (d : Nat) {w t : Text} (hne : w ≠ []) (hchars : w.all isWordChar = true)
    (hline : ¬ "--".toList <+: w) (hblock : ¬ "/*".toList <+: w) (ht : StopsWord t) :
    gate.scan (betweenAt d) (w ++ t) = ⟨w, d⟩ :: gate.scan (betweenAt d) t := by
  cases w with
  | nil => exact absurd rfl hne
  | cons c rest =>
    rw [List.all_cons, Bool.and_eq_true] at hchars
    have hk : charKind c = .word := (isWordChar_iff c).1 hchars.1
    obtain ⟨htake, hdrop⟩ := takeWhile_append_of_stops hchars.2 ht
    -- a word of one character is not completed to an opener by `t`, which starts with a delimiter
    have hnext : ∀ x y : Char, isWordChar y = true → ¬ [x, y] <+: c :: rest →
        ¬ ([c] = [x] ∧ (rest ++ t).head? = some y) := by
      rintro x y hy hpre ⟨hcx, hhead⟩
      simp only [List.cons.injEq, and_true] at hcx
      subst hcx
      cases rest with
      | nil =>
        have hf := ht y hhead
        rw [hy] at hf
        exact Bool.false_ne_true hf.symm
      | cons e rest =>
        simp only [List.cons_append, List.head?_cons, Option.some.injEq] at hhead
        subst hhead
        exact hpre ⟨rest, rfl⟩
    rw [List.cons_append, Scanner.scan_cons, gate_step, gateStep_between, enter_word d hk,
      List.nil_append,
      scan_word d [c] (rest ++ t) (List.cons_ne_nil _ _) (hnext '-' '-' (by decide) hline)
        (hnext '/' '*' (by decide) hblock), htake, hdrop]
    rfl

theorem scan_wordRun (w : WordRun) (d : Nat) {t : Text} (ht : StopsWord t) :
    gate.scan (betweenAt d) (w.text ++ t) = ⟨w.text, d⟩ :: gate.scan (betweenAt d) t :=
  scan_bareWord d w.ne_nil w.chars (fun h => w.no_line h.isInfix) (fun h => w.no_block h.isInfix) ht

/-- A piece that may stand behind a word starts with a delimiter. -/
theorem stopsWord_render_cons {p : Piece} (h : p.joinsWord = false) (rest : List Piece) :
    StopsWord (render (p :: rest)) := by
  intro c hc
  rw [render, List.flatMap_cons] at hc
  have hspace : ∀ x : Char, isSpace x = true → isWordChar x = false := by
    intro x hx
    simp [isWordChar, hx]
  cases p with
  | blank x hx =>
    simp only [Piece.render, List.cons_append, List.head?_cons, Option.some.injEq] at hc
    subst hc
    exact hspace _ hx
  | quoted q =>
    simp only [Piece.render, Quoted.text, List.cons_append, List.head?_cons,
      Option.some.injEq] at hc
    subst hc
    rcases (isQuote_iff _).1 q.is_mark with hm | hm | hm <;> rw [hm] <;> decide
  | opening =>
    obtain rfl : '(' = c := by simpa [Piece.render] using hc
    decide
  | closing =>
    obtain rfl : ')' = c := by simpa [Piece.render] using hc
    decide
  | comma =>
    obtain rfl : ',' = c := by simpa [Piece.render] using hc
    decide
  | semicolon =>
    obtain rfl : ';' = c := by simpa [Piece.render] using hc
    decide
  | word w => simp [Piece.joinsWord] at h
  | lineComment body hb => simp [Piece.joinsWord] at h
  | blockComment body hb => simp [Piece.joinsWord] at h

/-- Every word of the pieces ends where its piece does, in front of the pieces that follow and of
the text `tail` behind them. -/
def Fits : List Piece → Text → Prop
  | [], _ => True
  | .word _ :: rest, tail => StopsWord (render rest ++ tail) ∧ Fits rest tail
  | _ :: rest, tail => Fits rest tail

theorem Fits.rest {p : Piece} {rest : List Piece} {tail : Text} (h : Fits (p :: rest) tail) :
    Fits rest tail := by
  cases p with
  | word w => exact h.2
  | _ => exact h

/-- The nesting depth behind the pieces. -/
def depthAfter : Nat → List Piece → Nat
  | d, [] => d
  | d, .opening :: rest => depthAfter (d + 1) rest
  | d, .closing :: rest => depthAfter (d - 1) rest
  | d, _ :: rest => depthAfter d rest

theorem fits_of_spaced {pieces : List Piece} (h : Spaced pieces = true) : Fits pieces [] := by
  induction pieces with
  | nil => trivial
  | cons p rest ih =>
    cases p with
    | word w =>
      cases rest with
      | nil => exact ⟨fun c hc => by simp [render] at hc, trivial⟩
      | cons next rest =>
        rw [Spaced, Bool.and_eq_true, Bool.not_eq_true'] at h
        refine ⟨?_, ih h.2⟩
        rw [List.append_nil]
        exact stopsWord_render_cons h.1 rest
    | _ => exact ih h

/-! ## The tokens of a text laid out as pieces -/

@[simp] theorem render_cons (p : Piece) (rest : List Piece) :
    render (p :: rest) = p.render ++ render rest := List.flatMap_cons

/-- The scanner reads the pieces and goes on with the text behind them. -/
theorem scan_render_append (d : Nat) (pieces : List Piece) {tail : Text} (h : Fits pieces tail) :
    gate.scan (betweenAt d) (render pieces ++ tail) =
      pieceTokens d pieces ++ gate.scan (betweenAt (depthAfter d pieces)) tail := by
  induction pieces generalizing d with
  | nil => rfl
  | cons p rest ih =>
    have hskip : gate.Run (betweenAt d) p.render [] (betweenAt d) →
        pieceTokens d (p :: rest) = pieceTokens d rest →
        depthAfter d (p :: rest) = depthAfter d rest →
        gate.scan (betweenAt d) (render (p :: rest) ++ tail) = pieceTokens d (p :: rest) ++
          gate.scan (betweenAt (depthAfter d (p :: rest))) tail := by
      intro hrun htok hdepth
      rw [render_cons, List.append_assoc, hrun.scan, ih d h.rest, htok, hdepth, List.nil_append]
    cases p with
    | blank c hc =>
      refine hskip ?_ rfl rfl
      exact run_step (by rw [gateStep_between, enter_space d ((charKind_space_iff c).2 hc)])
    | lineComment body hb =>
      refine hskip ?_ rfl rfl
      exact run_step_cons rfl (run_step_cons rfl (run_lineComment hb d))
    | blockComment body hb =>
      refine hskip ?_ rfl rfl
      exact run_step_cons rfl (run_step_cons rfl (run_blockComment d body none hb))
    | word w =>
      rw [render_cons, List.append_assoc, Piece.render, scan_wordRun w d h.1, ih d h.2]
      rfl
    | quoted q => exact hskip (run_quoted q d) rfl rfl
    | opening =>
      have hrun : gate.Run (betweenAt d) ['('] [] (betweenAt (d + 1)) := ⟨rfl, rfl⟩
      rw [render_cons, List.append_assoc, Piece.render, hrun.scan, ih (d + 1) h.rest]
      rfl
    | closing =>
      have hrun : gate.Run (betweenAt d) [')'] [] (betweenAt (d - 1)) := ⟨rfl, rfl⟩
      rw [render_cons, List.append_assoc, Piece.render, hrun.scan, ih (d - 1) h.rest]
      rfl
    | comma => exact hskip ⟨rfl, rfl⟩ rfl rfl
    | semicolon => exact hskip ⟨rfl, rfl⟩ rfl rfl

/-- **The tokens of a text laid out as pieces are its words with their depths.** -/
theorem tokenize_render (pieces : List Piece) (h : Spaced pieces = true) :
    tokenize (render pieces) = pieceTokens 0 pieces := by
  have hscan := scan_render_append 0 pieces (fits_of_spaced h)
  have hflush : gateFlush (betweenAt (depthAfter 0 pieces)) = [] := rfl
  rwa [List.append_nil, Scanner.scan_nil, gate_flush, hflush, List.append_nil,
    ← tokenize_eq_scan] at hscan

end Workbench.Query
