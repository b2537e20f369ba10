import Workbench.Lib.Scanner
import Workbench.Query.Risk

/-!
# The tokenizer as a scanner

`tokenize` is an index loop with inner loops that run ahead of it. This file defines the scanner
`gate` that reads the same text one character at a time and shows that the two give the same tokens
(`tokenize_eq_scan`). What the loop carries across a position of the text is then explicit: the
nesting depth and one of six modes. A doubled quote needs no mode of its own, since closing quoted
text and opening it again emits nothing.

The last section says what `classify` reads off the tokens.
-/

set_option autoImplicit false

namespace Workbench.Query

open Workbench.Lib

/-! ## Characters -/

/-- The branches of the main loop, by the character they start at. -/
inductive CharKind where
  | space
  | quote
  | opening
  | closing
  | separator
  | word
  deriving DecidableEq, Repr

def charKind (c : Char) : CharKind :=
  if isSpace c then .space
  else if isQuote c then .quote
  else if c = '(' then .opening
  else if c = ')' then .closing
  else if c = ',' ∨ c = ';' then .separator
  else .word

theorem isQuote_iff (c : Char) :
    isQuote c = true ↔ c = '\'' ∨ c = '"' ∨ c = backtick := by
  simp [isQuote, backtick, List.contains_eq_mem]

theorem isWordChar_iff (c : Char) : isWordChar c = true ↔ charKind c = .word := by
  have hd : "(),;'\"`".toList.contains c = true ↔
      c = '(' ∨ c = ')' ∨ c = ',' ∨ c = ';' ∨ isQuote c = true := by
    rw [isQuote_iff]
    simp [backtick, List.contains_eq_mem]
  unfold isWordChar charKind
  rw [Bool.and_eq_true, Bool.not_eq_true', Bool.not_eq_true', Bool.eq_false_iff,
    Bool.eq_false_iff, Ne, Ne, hd]
  split_ifs <;> simp_all

theorem charKind_space_iff (c : Char) : charKind c = .space ↔ isSpace c = true := by
  unfold charKind
  split_ifs <;> simp_all

theorem isQuote_of_isSpace {c : Char} (h : isSpace c = true) : isQuote c = false := by
  simp only [isSpace, Bool.or_eq_true, decide_eq_true_eq] at h
  rcases h with ((rfl | rfl) | rfl) | rfl <;> decide

theorem charKind_quote_iff (c : Char) :
    charKind c = .quote ↔ c = '\'' ∨ c = '"' ∨ c = backtick := by
  rw [← isQuote_iff]
  unfold charKind
  split_ifs with h1 h2
  · simp [isQuote_of_isSpace h1]
  · simp [h2]
  all_goals simp [h2]

theorem charKind_closing_iff (c : Char) : charKind c = .closing ↔ c = ')' := by
  constructor
  · intro h
    unfold charKind at h
    split_ifs at h
    assumption
  · rintro rfl
    decide

/-! ## The scanner -/

/-- Where the tokenizer stands: between tokens, inside a word, a line comment, a block comment
(with its last character), quoted text, or right behind a backslash in quoted text. -/
inductive Mode where
  | between
  | word (text : Text)
  | line
  | block (last : Option Char)
  | quoted (quote : Char)
  | escaped (quote : Char)
  deriving DecidableEq, Repr

structure GateState where
  mode : Mode
  depth : Nat
  deriving DecidableEq, Repr

/-- The state after a character that is read between tokens. -/
def enter (depth : Nat) (c : Char) : GateState :=
  match charKind c with
  | .space => ⟨.between, depth⟩
  | .quote => ⟨.quoted c, depth⟩
  | .opening => ⟨.between, depth + 1⟩
  | .closing => ⟨.between, depth - 1⟩
  | .separator => ⟨.between, depth⟩
  | .word => ⟨.word [c], depth⟩

/-- One character. A word that is a single dash or slash so far may turn out to be the first half of
a comment opener. -/
def gateStep : GateState → Char → GateState × List Token
  | ⟨.between, d⟩, c => (enter d c, [])
  | ⟨.word text, d⟩, c =>
    if text = ['-'] ∧ c = '-' then (⟨.line, d⟩, [])
    else if text = ['/'] ∧ c = '*' then (⟨.block none, d⟩, [])
    else if charKind c = .word then (⟨.word (text ++ [c]), d⟩, [])
    else (enter d c, [⟨text, d⟩])
  | ⟨.line, d⟩, c => if c = '\n' then (⟨.between, d⟩, []) else (⟨.line, d⟩, [])
  | ⟨.block last, d⟩, c =>
    if last = some '*' ∧ c = '/' then (⟨.between, d⟩, []) else (⟨.block (some c), d⟩, [])
  | ⟨.quoted quote, d⟩, c =>
    if c = quote then (⟨.between, d⟩, [])
    else if c = '\\' then (⟨.escaped quote, d⟩, [])
    else (⟨.quoted quote, d⟩, [])
  | ⟨.escaped quote, d⟩, _ => (⟨.quoted quote, d⟩, [])

/-- The end of the text ends a word. It also ends an unterminated block comment one character
early, and that character is read as a token of its own. -/
def gateFlush : GateState → List Token
  | ⟨.word text, d⟩ => [⟨text, d⟩]
  | ⟨.block (some c), d⟩ => if charKind c = .word then [⟨[c], d⟩] else []
  | _ => []

/-- The tokenizer as a scanner. -/
def gate : Scanner GateState Char Token := ⟨gateStep, gateFlush⟩

/-- Between tokens, at nesting depth `d`. -/
abbrev betweenAt (d : Nat) : GateState := ⟨.between, d⟩

@[simp] theorem gate_step (s : GateState) (c : Char) : gate.step s c = gateStep s c := rfl

@[simp] theorem gate_flush (s : GateState) : gate.flush s = gateFlush s := rfl

theorem gateStep_between (d : Nat) (c : Char) : gateStep (betweenAt d) c = (enter d c, []) := rfl

section

attribute [local simp] enter

theorem enter_space (d : Nat) {c : Char} (h : charKind c = .space) : enter d c = betweenAt d := by
  simp [h]

theorem enter_quote (d : Nat) {c : Char} (h : charKind c = .quote) :
    enter d c = ⟨.quoted c, d⟩ := by
  simp [h]

theorem enter_opening (d : Nat) {c : Char} (h : charKind c = .opening) :
    enter d c = betweenAt (d + 1) := by
  simp [h]

theorem enter_closing (d : Nat) {c : Char} (h : charKind c = .closing) :
    enter d c = betweenAt (d - 1) := by
  simp [h]

theorem enter_separator (d : Nat) {c : Char} (h : charKind c = .separator) :
    enter d c = betweenAt d := by
  simp [h]

theorem enter_word (d : Nat) {c : Char} (h : charKind c = .word) :
    enter d c = ⟨.word [c], d⟩ := by
  simp [h]

end

theorem run_step {s t : GateState} {c : Char} {out : List Token} (h : gateStep s c = (t, out)) :
    gate.Run s [c] out t := by
  have hsingle := Scanner.Run.single (M := gate) s c
  rw [gate_step, h] at hsingle
  exact hsingle

/-- A character that emits nothing, in front of a segment. -/
theorem run_step_cons {s t r : GateState} {c : Char} {xs : Text} {out : List Token}
    (h : gateStep s c = (t, [])) (hrun : gate.Run t xs out r) : gate.Run s (c :: xs) out r :=
  (run_step h).append hrun

/-! ## The scanner reads what the loop reads -/

/-- From inside a line comment the scanner goes on where the loop goes on. -/
theorem scan_line (d : Nat) (s : Text) :
    gate.scan ⟨.line, d⟩ s = gate.scan (betweenAt d) (skipLine s) := by
  induction s with
  | nil => rfl
  | cons c rest ih =>
    rw [skipLine]
    by_cases hc : c = '\n'
    · subst hc
      rfl
    · have hstep : gateStep ⟨.line, d⟩ c = (⟨.line, d⟩, []) := by simp [gateStep, hc]
      rw [if_neg hc, Scanner.scan_cons, gate_step, hstep, ← ih, List.nil_append]

/-- Inside a block comment, with the character read last put back in front of the input. -/
theorem scan_block_some (d : Nat) (c : Char) (s : Text) :
    gate.scan ⟨.block (some c), d⟩ s = gate.scan (betweenAt d) (skipBlock (c :: s)) := by
  induction s generalizing c with
  | nil =>
    have hend : skipBlock [c] = [c] := rfl
    rw [hend, Scanner.scan_cons, Scanner.scan_nil, Scanner.scan_nil, gate_step,
      gateStep_between, List.nil_append, gate_flush, gate_flush]
    cases hk : charKind c <;> simp [gateFlush, enter, hk]
  | cons e s ih =>
    rw [skipBlock]
    by_cases hend : c = '*' ∧ e = '/'
    · have hstep : gateStep ⟨.block (some c), d⟩ e = (betweenAt d, []) := by
        simp [gateStep, hend]
      rw [if_pos hend, Scanner.scan_cons, gate_step, hstep, List.nil_append]
    · have hstep : gateStep ⟨.block (some c), d⟩ e = (⟨.block (some e), d⟩, []) := by
        simp only [gateStep, Option.some.injEq]
        rw [if_neg hend]
      rw [if_neg hend, Scanner.scan_cons, gate_step, hstep, List.nil_append, ih]

theorem scan_block_none (d : Nat) (s : Text) :
    gate.scan ⟨.block none, d⟩ s = gate.scan (betweenAt d) (skipBlock s) := by
  cases s with
  | nil => rfl
  | cons c s => exact scan_block_some d c s

/-- From inside quoted text. The doubled quote of the loop is a close and an open here. -/
theorem scan_quoted {quote : Char} (hq : charKind quote = .quote) (d : Nat) :
    ∀ s : Text, gate.scan ⟨.quoted quote, d⟩ s = gate.scan (betweenAt d) (skipQuoted quote s)
  | [] => rfl
  | [c] => by
    rw [skipQuoted, Scanner.scan_cons, Scanner.scan_nil, Scanner.scan_nil, gate_step]
    simp only [gateStep]
    split_ifs <;> rfl
  | c :: e :: rest => by
    rw [skipQuoted, Scanner.scan_cons, gate_step]
    by_cases hc : c = quote
    · have hstep : gateStep ⟨.quoted quote, d⟩ c = (betweenAt d, []) := by simp [gateStep, hc]
      rw [if_pos hc, hstep, List.nil_append]
      by_cases he : e = quote
      · subst he
        rw [if_pos rfl, Scanner.scan_cons, gate_step, gateStep_between, enter_quote d hq,
          List.nil_append]
        exact scan_quoted hq d rest
      · rw [if_neg he]
    · rw [if_neg hc]
      by_cases hb : c = '\\'
      · have hstep : gateStep ⟨.quoted quote, d⟩ c = (⟨.escaped quote, d⟩, []) := by
          simp only [gateStep, if_neg hc, if_pos hb]
        rw [if_pos hb, hstep, List.nil_append, Scanner.scan_cons]
        exact scan_quoted hq d rest
      · have hstep : gateStep ⟨.quoted quote, d⟩ c = (⟨.quoted quote, d⟩, []) := by
          simp [gateStep, hc, hb]
        rw [if_neg hb, hstep, List.nil_append]
        exact scan_quoted hq d (e :: rest)

/-- A word that cannot turn into a comment any more is read up to the next delimiter. -/
theorem scan_word (d : Nat) (w s : Text) (hw : w ≠ [])
    (hline : ¬ (w = ['-'] ∧ s.head? = some '-')) (hblock : ¬ (w = ['/'] ∧ s.head? = some '*')) :
    gate.scan ⟨.word w, d⟩ s =
      ⟨w ++ s.takeWhile isWordChar, d⟩ :: gate.scan (betweenAt d) (s.dropWhile isWordChar) := by
  induction s generalizing w with
  | nil => simp [gateFlush]
  | cons c s ih =>
    rw [List.head?_cons, Option.some.injEq] at hline hblock
    rw [Scanner.scan_cons, gate_step]
    simp only [gateStep]
    rw [if_neg hline, if_neg hblock]
    by_cases hc : charKind c = .word
    · have hlong : ∀ x : Char, w ++ [c] ≠ [x] := by
        intro x h
        cases w with
        | nil => exact hw rfl
        | cons a w => simp at h
      have hwc : isWordChar c = true := (isWordChar_iff c).2 hc
      rw [if_pos hc, List.nil_append,
        ih (w ++ [c]) (by simp) (fun h => hlong _ h.1) (fun h => hlong _ h.1),
        List.takeWhile_cons_of_pos hwc, List.dropWhile_cons_of_pos hwc, List.append_assoc,
        List.singleton_append]
    · have hf : ¬ isWordChar c = true := fun h => hc ((isWordChar_iff c).1 h)
      rw [if_neg hc, List.takeWhile_cons_of_neg hf, List.dropWhile_cons_of_neg hf,
        List.append_nil, Scanner.scan_cons, gate_step, gateStep_between, List.nil_append,
        List.singleton_append]

theorem length_skipLine_le (s : Text) : (skipLine s).length ≤ s.length := by
  induction s with
  | nil => exact Nat.le_refl 0
  | cons c rest ih =>
    rw [skipLine]
    split_ifs
    · exact Nat.le_refl _
    · exact Nat.le_succ_of_le ih

theorem length_skipBlock_le : ∀ s : Text, (skipBlock s).length ≤ s.length
  | [] => Nat.le_refl 0
  | [_] => Nat.le_refl 1
  | c :: e :: rest => by
    have ih := length_skipBlock_le (e :: rest)
    rw [skipBlock]
    split_ifs
    · simp only [List.length_cons]
      omega
    · exact Nat.le_succ_of_le ih

theorem length_skipQuoted_le (quote : Char) : ∀ s : Text, (skipQuoted quote s).length ≤ s.length
  | [] => Nat.le_refl 0
  | [_] => Nat.zero_le _
  | c :: e :: rest => by
    have ih := length_skipQuoted_le quote rest
    have ih' := length_skipQuoted_le quote (e :: rest)
    simp only [skipQuoted, List.length_cons] at ih' ⊢
    split_ifs
    · omega
    · rw [List.length_cons]
      omega
    · omega
    · omega

theorem length_dropWhile_le (p : Char → Bool) (s : Text) : (s.dropWhile p).length ≤ s.length :=
  (List.dropWhile_suffix p).length_le

/-- With enough fuel the main loop and the scanner give the same tokens. The induction is on the
fuel: one round of the loop reads at least one character. -/
theorem tokenizeFrom_eq_scan (fuel d : Nat) (s : Text) (hs : s.length ≤ fuel) :
    tokenizeFrom fuel d s = gate.scan (betweenAt d) s := by
  induction fuel generalizing d s with
  | zero =>
    obtain rfl : s = [] := List.length_eq_zero_iff.1 (Nat.le_zero.1 hs)
    rfl
  | succ fuel ih =>
    cases s with
    | nil => rfl
    | cons c rest =>
      have hrest : rest.length ≤ fuel := Nat.le_of_succ_le_succ hs
      have htail : rest.tail.length ≤ fuel := by
        rw [List.length_tail]
        omega
      rw [tokenizeFrom, Scanner.scan_cons, gate_step, gateStep_between, List.nil_append]
      by_cases hspace : isSpace c = true
      · rw [if_pos hspace, ih d rest hrest, enter_space d ((charKind_space_iff c).2 hspace)]
      rw [if_neg hspace]
      by_cases hline : c = '-' ∧ rest.head? = some '-'
      · obtain ⟨rfl, hhead⟩ := hline
        obtain ⟨tail, rfl⟩ := List.head?_eq_some_iff.1 hhead
        rw [if_pos ⟨rfl, hhead⟩, ih d _ ((length_skipLine_le _).trans htail)]
        exact (scan_line d tail).symm
      rw [if_neg hline]
      by_cases hblock : c = '/' ∧ rest.head? = some '*'
      · obtain ⟨rfl, hhead⟩ := hblock
        obtain ⟨tail, rfl⟩ := List.head?_eq_some_iff.1 hhead
        rw [if_pos ⟨rfl, hhead⟩, ih d _ ((length_skipBlock_le _).trans htail)]
        exact (scan_block_none d tail).symm
      rw [if_neg hblock]
      by_cases hquote : isQuote c = true
      · have hk : charKind c = .quote := (charKind_quote_iff c).2 ((isQuote_iff c).1 hquote)
        rw [if_pos hquote, ih d _ ((length_skipQuoted_le c rest).trans hrest),
          enter_quote d hk, scan_quoted hk]
      rw [if_neg hquote]
      by_cases hopen : c = '('
      · subst hopen
        rw [if_pos rfl, ih (d + 1) rest hrest]
        rfl
      rw [if_neg hopen]
      by_cases hclose : c = ')'
      · subst hclose
        have hd : (if d > 0 then d - 1 else d) = d - 1 := by
          split_ifs <;> omega
        rw [if_pos rfl, ih _ rest hrest, hd]
        rfl
      rw [if_neg hclose]
      by_cases hword : isWordChar c = true
      · -- the default branch on a word character: the word is read to its end
        have hk : charKind c = .word := (isWordChar_iff c).1 hword
        have hlen : (rest.dropWhile isWordChar).length ≤ fuel :=
          (length_dropWhile_le _ rest).trans hrest
        rw [List.takeWhile_cons_of_pos hword, List.dropWhile_cons_of_pos hword,
          if_pos (List.cons_ne_nil _ _), ih d _ hlen, enter_word d hk,
          scan_word d [c] rest (List.cons_ne_nil _ _)
            (fun h => hline ⟨by simpa using h.1, h.2⟩)
            (fun h => hblock ⟨by simpa using h.1, h.2⟩)]
        rfl
      · -- a comma or a semicolon: the default branch makes no token
        have hk : charKind c = .separator := by
          rw [isWordChar_iff] at hword
          unfold charKind at hword ⊢
          rw [if_neg hspace, if_neg hquote, if_neg hopen, if_neg hclose] at hword ⊢
          by_contra hsep
          exact hword (if_neg fun h => hsep (if_pos h))
        rw [List.takeWhile_cons_of_neg hword, if_neg (not_not_intro rfl), ih d rest hrest,
          enter_separator d hk]

/-- **The tokenizer is the scanner.** -/
theorem tokenize_eq_scan (sql : Text) : tokenize sql = gate.scan (betweenAt 0) sql :=
  tokenizeFrom_eq_scan _ 0 sql (Nat.le_refl _)

/-! ## Invariants of the scanner -/

/-- The word the gate is in the middle of. -/
def GateState.pending : GateState → List Token
  | ⟨.word text, d⟩ => [⟨text, d⟩]
  | _ => []

/-- Quoted text was opened by one of the three marks. -/
theorem quote_of_reach (d : Nat) (text : Text) (q : Char)
    (h : (gate.reach (betweenAt d) text).mode = .quoted q ∨
      (gate.reach (betweenAt d) text).mode = .escaped q) : isQuote q = true := by
  have henter : ∀ d c q, ((enter d c).mode = .quoted q ∨ (enter d c).mode = .escaped q) →
      isQuote q = true := by
    intro d c q hq
    cases hk : charKind c with
    | quote =>
      rw [enter_quote d hk] at hq
      obtain rfl : c = q := by simpa using hq
      exact (isQuote_iff c).2 ((charKind_quote_iff c).1 hk)
    | _ => simp [enter, hk] at hq
  have hstep : ∀ (s : GateState) (c : Char),
      (∀ q, s.mode = .quoted q ∨ s.mode = .escaped q → isQuote q = true) →
      (∀ q, (gate.step s c).1.mode = .quoted q ∨ (gate.step s c).1.mode = .escaped q →
        isQuote q = true) ∧ ∀ x ∈ (gate.step s c).2, True := by
    rintro ⟨mode, d⟩ c hs
    refine ⟨fun q hq => ?_, fun _ _ => trivial⟩
    rw [gate_step] at hq
    cases mode with
    | between => exact henter d c q hq
    | word text =>
      simp only [gateStep] at hq
      split_ifs at hq
      · simp at hq
      · simp at hq
      · simp at hq
      · exact henter d c q hq
    | line =>
      simp only [gateStep] at hq
      split_ifs at hq <;> simp at hq
    | block last =>
      simp only [gateStep] at hq
      split_ifs at hq <;> simp at hq
    | quoted q' =>
      have hq' := hs q' (Or.inl rfl)
      simp only [gateStep] at hq
      split_ifs at hq
      · simp at hq
      · obtain rfl : q' = q := by simpa using hq
        exact hq'
      · obtain rfl : q' = q := by simpa using hq
        exact hq'
    | escaped q' =>
      obtain rfl : q' = q := by simpa [gateStep] using hq
      exact hs q' (Or.inr rfl)
  exact (Scanner.inv_of_step (P := fun _ => True) hstep (by simp) text).1 q h

theorem run_openings (d n : Nat) :
    gate.Run (betweenAt d) (List.replicate n '(') [] (betweenAt (d + n)) := by
  induction n generalizing d with
  | zero => exact Scanner.Run.nil _
  | succ n ih =>
    rw [List.replicate_succ, ← Nat.add_assoc, Nat.add_right_comm]
    exact run_step_cons rfl (ih (d + 1))

theorem run_closings (d n : Nat) :
    gate.Run (betweenAt d) (List.replicate n ')') [] (betweenAt (d - n)) := by
  induction n generalizing d with
  | zero => exact Scanner.Run.nil _
  | succ n ih =>
    rw [List.replicate_succ, ← Nat.sub_sub, Nat.sub_right_comm]
    exact run_step_cons rfl (ih (d - 1))

/-- One character closes at most one parenthesis, and a word has the depth it was read at. -/
theorem depth_gateStep (s : GateState) (c : Char) :
    s.depth ≤ (gateStep s c).1.depth + (if c = ')' then 1 else 0) ∧
      ∀ item ∈ (gateStep s c).2, item.depth = s.depth := by
  have henter : ∀ d, d ≤ (enter d c).depth + (if c = ')' then 1 else 0) := by
    intro d
    cases hk : charKind c with
    | closing =>
      rw [enter_closing d hk, if_pos ((charKind_closing_iff c).1 hk)]
      exact Nat.le_add_of_sub_le (Nat.le_refl _)
    | opening =>
      rw [enter_opening d hk]
      exact (Nat.le_succ d).trans (Nat.le_add_right _ _)
    | space => simp [enter, hk]
    | quote => simp [enter, hk]
    | separator => simp [enter, hk]
    | word => simp [enter, hk]
  obtain ⟨mode, d⟩ := s
  cases mode with
  | between => exact ⟨henter d, by simp [gateStep]⟩
  | word text =>
    simp only [gateStep]
    split_ifs <;> simp_all
  | line =>
    simp only [gateStep]
    split_ifs <;> simp
  | block last =>
    simp only [gateStep]
    split_ifs <;> simp
  | quoted q =>
    simp only [gateStep]
    split_ifs <;> simp
  | escaped q => simp [gateStep]

/-- Behind more open parentheses than the text closes, every token is nested. -/
theorem depth_scan (n : Nat) (s : GateState) (text : Text) (h : n + text.count ')' ≤ s.depth) :
    ∀ item ∈ gate.scan s text, n ≤ item.depth := by
  induction text generalizing s with
  | nil =>
    intro item hitem
    have hflush : ∀ item ∈ gateFlush s, item.depth = s.depth := by
      obtain ⟨mode, d⟩ := s
      cases mode with
      | block last =>
        cases last with
        | none => simp [gateFlush]
        | some c =>
          simp only [gateFlush]
          split_ifs <;> simp
      | _ => simp [gateFlush]
    rw [hflush item hitem]
    simpa using h
  | cons c text ih =>
    obtain ⟨hdepth, hout⟩ := depth_gateStep s c
    simp only [List.count_cons, beq_iff_eq] at h
    intro item hitem
    rw [Scanner.scan_cons, gate_step, List.mem_append] at hitem
    rcases hitem with hitem | hitem
    · rw [hout item hitem]
      omega
    · exact ih _ (by omega) item hitem

/-- Every token is a word. -/
theorem word_of_mem_scan (d : Nat) (text : Text) :
    ∀ item ∈ gate.scan (betweenAt d) text, item.text ≠ [] ∧ item.text.all isWordChar = true := by
  have henter : ∀ (d : Nat) (c : Char) (w : Text), (enter d c).mode = .word w →
      w ≠ [] ∧ w.all isWordChar = true := by
    intro d c w hw
    cases hk : charKind c with
    | word =>
      rw [enter_word d hk] at hw
      obtain rfl : [c] = w := by simpa using hw
      exact ⟨List.cons_ne_nil _ _, by simp [(isWordChar_iff c).2 hk]⟩
    | _ => simp [enter, hk] at hw
  refine Scanner.scan_of_step
    (I := fun s => ∀ w, s.mode = .word w → w ≠ [] ∧ w.all isWordChar = true) ?_ ?_ (by simp) text
  · rintro ⟨mode, d⟩ c hs
    rw [gate_step]
    cases mode with
    | between => exact ⟨henter d c, by simp [gateStep]⟩
    | word text =>
      have htext := hs text rfl
      simp only [gateStep]
      split_ifs with h1 h2 h3
      · exact ⟨by simp, by simp⟩
      · exact ⟨by simp, by simp⟩
      · refine ⟨fun w hw => ?_, by simp⟩
        obtain rfl : text ++ [c] = w := by simpa using hw
        exact ⟨by simp, by simp [htext.2, (isWordChar_iff c).2 h3]⟩
      · refine ⟨henter d c, fun item hitem => ?_⟩
        rw [List.mem_singleton.1 hitem]
        exact htext
    | line =>
      simp only [gateStep]
      split_ifs <;> simp
    | block last =>
      simp only [gateStep]
      split_ifs <;> simp
    | quoted q =>
      simp only [gateStep]
      split_ifs <;> simp
    | escaped q => simp [gateStep]
  · rintro ⟨mode, d⟩ hs item hitem
    cases mode with
    | word text =>
      rw [List.mem_singleton.1 hitem]
      exact hs text rfl
    | block last =>
      cases last with
      | none => exact absurd hitem List.not_mem_nil
      | some c =>
        simp only [gate_flush, gateFlush] at hitem
        split_ifs at hitem with hk
        · rw [List.mem_singleton.1 hitem]
          exact ⟨List.cons_ne_nil _ _, by simp [(isWordChar_iff c).2 hk]⟩
        · exact absurd hitem List.not_mem_nil
    | _ => exact absurd hitem List.not_mem_nil

/-! ## What the classifier reads off the tokens -/

/-- The first token, in upper case, is one of `verbs`. -/
def firstIn (verbs : List Text) : List Token → Bool
  | [] => false
  | head :: _ => verbs.contains (toUpper head.text)

/-- A token after the first is a top-level `WHERE`. -/
def hasWhere (tokens : List Token) : Bool := tokens.tail.any isTopLevelWhere

theorem firstIn_cons (verbs : List Text) (head : Token) (rest : List Token) :
    firstIn verbs (head :: rest) = verbs.contains (toUpper head.text) := rfl

theorem hasWhere_cons (head : Token) (rest : List Token) :
    hasWhere (head :: rest) = rest.any isTopLevelWhere := rfl

theorem returnsRowsTokens_eq (tokens : List Token) :
    returnsRowsTokens tokens = firstIn rowVerbs tokens := by
  cases tokens <;> rfl

theorem firstIn_append {verbs : List Text} {tokens : List Token} (h : tokens ≠ [])
    (more : List Token) : firstIn verbs (tokens ++ more) = firstIn verbs tokens := by
  cases tokens with
  | nil => exact absurd rfl h
  | cons head rest => rfl

theorem hasWhere_append {tokens : List Token} (h : tokens ≠ []) (more : List Token) :
    hasWhere (tokens ++ more) = (hasWhere tokens || more.any isTopLevelWhere) := by
  cases tokens with
  | nil => exact absurd rfl h
  | cons head rest => simp [hasWhere]

/-- No text is a write verb and a drop verb. -/
theorem firstIn_drop_of_write {tokens : List Token} (h : firstIn writeVerbs tokens = true) :
    firstIn dropVerbs tokens = false := by
  cases tokens with
  | nil => rfl
  | cons head rest =>
    have hw : toUpper head.text = "UPDATE".toList ∨ toUpper head.text = "DELETE".toList := by
      simpa [firstIn, writeVerbs] using h
    show dropVerbs.contains (toUpper head.text) = false
    rcases hw with hw | hw <;> rw [hw] <;> decide

/-- The level, by the first token and the search for `WHERE`. -/
theorem classifyTokens_level (tokens : List Token) :
    (classifyTokens tokens).level =
      if firstIn writeVerbs tokens then
        if hasWhere tokens then RiskLevel.safe else RiskLevel.confirm
      else if firstIn dropVerbs tokens then RiskLevel.typeTarget
      else RiskLevel.safe := by
  cases tokens with
  | nil => rfl
  | cons head rest =>
    rw [firstIn_cons, firstIn_cons, hasWhere_cons]
    simp only [classifyTokens]
    by_cases hw : writeVerbs.contains (toUpper head.text) = true
    · rw [if_pos hw, if_pos hw]
      by_cases hh : rest.any isTopLevelWhere = true
      · rw [if_pos hh, if_pos hh]
        rfl
      · rw [if_neg hh, if_neg hh]
    · rw [if_neg hw, if_neg hw]
      by_cases hd : dropVerbs.contains (toUpper head.text) = true
      · rw [if_pos hd, if_pos hd]
      · rw [if_neg hd, if_neg hd]
        rfl

theorem level_typeTarget_iff (tokens : List Token) :
    (classifyTokens tokens).level = .typeTarget ↔ firstIn dropVerbs tokens = true := by
  rw [classifyTokens_level]
  by_cases hw : firstIn writeVerbs tokens = true
  · rw [if_pos hw, firstIn_drop_of_write hw]
    split_ifs <;> simp
  · rw [if_neg hw]
    split_ifs with hd <;> simp [hd]

theorem level_confirm_iff (tokens : List Token) :
    (classifyTokens tokens).level = .confirm ↔
      firstIn writeVerbs tokens = true ∧ hasWhere tokens = false := by
  rw [classifyTokens_level]
  split_ifs with hw hh hd <;> simp [*]

theorem level_safe_iff (tokens : List Token) :
    (classifyTokens tokens).level = .safe ↔
      firstIn dropVerbs tokens = false ∧
        (firstIn writeVerbs tokens = true → hasWhere tokens = true) := by
  rw [classifyTokens_level]
  split_ifs with hw hh hd
  · simp [firstIn_drop_of_write hw, hh]
  · simp [hw, hh]
  · simp [hd]
  · simp [hd, hw]

/-- The target of a drop is the first top-level token that is no keyword. -/
theorem classifyTokens_target {head : Token} {rest : List Token}
    (h : firstIn dropVerbs (head :: rest) = true) :
    (classifyTokens (head :: rest)).target =
      ((rest.find? isTargetToken).map Token.text).getD [] := by
  have hw : ¬ firstIn writeVerbs (head :: rest) = true := by
    intro hw
    rw [firstIn_drop_of_write hw] at h
    exact Bool.false_ne_true h
  simp only [firstIn] at h hw
  simp only [classifyTokens]
  rw [if_neg hw, if_pos h]

/-! ## The checks of the handler -/

/-- What a request must carry to pass. -/
theorem passes_iff (input : QueryInput) :
    input.passes ↔ input.sql ≠ [] ∧
      ((classify input.sql).level = .confirm → input.confirmed = true) ∧
      ((classify input.sql).level = .typeTarget → input.confirmed = true ∧
        input.confirmationTarget = (classify input.sql).target) := by
  unfold QueryInput.passes queryGate
  by_cases hsql : input.sql = []
  · simp [hsql]
  · rw [if_neg hsql]
    cases hlevel : (classify input.sql).level with
    | safe => simp [hlevel, hsql]
    | confirm =>
      cases hc : input.confirmed <;> simp [hlevel, hsql]
    | typeTarget =>
      cases hc : input.confirmed
      · simp [hlevel, hsql]
      · by_cases ht : input.confirmationTarget = (classify input.sql).target <;>
          simp [hlevel, hsql, ht]

/-- A drop passes with its target typed. -/
theorem passes_iff_of_typeTarget {input : QueryInput}
    (h : (classify input.sql).level = .typeTarget) :
    input.passes ↔ input.confirmed = true ∧
      input.confirmationTarget = (classify input.sql).target := by
  have hsql : input.sql ≠ [] := by
    intro hnil
    rw [hnil] at h
    exact absurd h (by decide)
  rw [passes_iff, h]
  simp [hsql]

end Workbench.Query
