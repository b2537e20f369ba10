import Workbench.Base.Dialect
import Workbench.Lib.AlterActions
import Workbench.Query.Pieces

/-!
# Unfiltered writes behind a prefix

What a text writes is read off the tokens of its dialect. A scanner with one frame for each open
parenthesis follows a `WITH` clause into its common table expressions and an `EXPLAIN ANALYZE` to the
statement behind it, and gives out each `UPDATE` and `DELETE` that stands where a statement starts,
with the tokens at its own nesting level.

The classifier sees the first word of the text and, for a write, the bare words at depth zero.
`classify_safe_filtered_iff` says for which texts this approximation is enough.
-/

set_option autoImplicit false

namespace Workbench.Query

open Workbench.Lib

/-! ## Reading the writes of a text -/

/-- Where a `WITH` clause is read. -/
inductive CteStage where
  /-- In front of the name of an expression. -/
  | name
  /-- Behind it, in front of `AS`. -/
  | named
  /-- In front of the parenthesised statement. -/
  | query
  /-- Behind it. -/
  | behind
  /-- In a `SEARCH` or a `CYCLE` clause, up to its keyword `SET` or `USING`. -/
  | search
  | cycle
  /-- In front of the last column of such a clause. -/
  | column
  deriving DecidableEq, Repr

/-- What is read inside one pair of parentheses, or outside of all. -/
inductive Frame where
  /-- In front of a statement. -/
  | statement
  /-- Behind `EXPLAIN`. The flag says that the statement is executed. -/
  | explain (analyze : Bool)
  /-- Behind the word `FORMAT` of a MySQL `EXPLAIN`. -/
  | format (analyze : Bool)
  /-- In the parenthesised options of `EXPLAIN`. The second flag: the value of `ANALYZE` may follow. -/
  | options (analyze value : Bool)
  | ctes (stage : CteStage)
  /-- In a write, with its verb and the tokens read so far at its own level. -/
  | write (verb : Text) (own : List SqlToken)
  | other
  deriving DecidableEq, Repr

/-- A write: its verb and the tokens behind it at its own nesting level, where an opening parenthesis
stands for the group it opens. -/
structure Write where
  verb : Text
  own : List SqlToken
  deriving DecidableEq, Repr

namespace Frame

def hasKeyword (keywords : List String) (word : Text) : Bool :=
  keywords.any fun keyword => Place.isKeyword keyword word

/-- The first word of a statement. A number is the version of an executable comment. -/
def atVerb (word : Text) : Frame :=
  if Place.isNumber word then .statement
  else if hasKeyword ["UPDATE", "DELETE"] word then .write word []
  else if hasKeyword ["WITH"] word then .ctes .name
  else if hasKeyword ["EXPLAIN", "DESCRIBE", "DESC"] word then .explain false
  else .other

def onWord (word : Text) : Frame → Frame
  | .statement => atVerb word
  | .explain analyze =>
    if hasKeyword ["ANALYZE", "ANALYSE"] word then .explain true
    else if hasKeyword ["VERBOSE"] word then .explain analyze
    else if hasKeyword ["FORMAT"] word then .format analyze
    else if analyze then atVerb word
    else .other
  | .format analyze => .explain analyze
  | .options analyze value =>
    if hasKeyword ["ANALYZE", "ANALYSE"] word then .options true true
    else if value && hasKeyword ["FALSE", "OFF", "0"] word then .options false false
    else .options analyze false
  | .ctes .name => if hasKeyword ["RECURSIVE"] word then .ctes .name else .ctes .named
  | .ctes .named => if hasKeyword ["AS"] word then .ctes .query else .ctes .named
  | .ctes .query => .ctes .query
  | .ctes .behind =>
    if hasKeyword ["SEARCH"] word then .ctes .search
    else if hasKeyword ["CYCLE"] word then .ctes .cycle
    else atVerb word
  | .ctes .search => if hasKeyword ["SET"] word then .ctes .column else .ctes .search
  | .ctes .cycle => if hasKeyword ["USING"] word then .ctes .column else .ctes .cycle
  | .ctes .column => .ctes .behind
  | .write verb own => .write verb (own ++ [.word word])
  | .other => .other

def onQuoted (mark : Char) (value : Text) : Frame → Frame
  | .options analyze behind => onWord value (.options analyze behind)
  | .ctes .name => .ctes .named
  | .ctes .column => .ctes .behind
  | .ctes stage => .ctes stage
  | .write verb own => .write verb (own ++ [.quoted mark value])
  | _ => .other

/-- A symbol that is no parenthesis and no semicolon. -/
def onSymbol (c : Char) : Frame → Frame
  | .ctes .behind => if c = ',' then .ctes .name else .ctes .behind
  | .write verb own => .write verb (own ++ [.symbol c])
  | frame => frame

/-- The frame inside a parenthesis, and what becomes of the one it stands in. -/
def opened : Frame → Frame × Frame
  | .statement => (.other, .other)
  | .explain analyze => (.options analyze false, .explain analyze)
  | .ctes .query => (.statement, .ctes .behind)
  | .ctes .behind => (.other, .other)
  | .write verb own => (.other, .write verb (own ++ [.symbol '(']))
  | frame => (.other, frame)

/-- The frame behind the parenthesis that the first one ends with. -/
def closed : Frame → Frame → Frame
  | .options analyze _, .explain _ => .explain analyze
  | _, frame => frame

/-- The write that ends with a frame. -/
def writes : Frame → List Write
  | .write verb own => [⟨verb, own⟩]
  | _ => []

end Frame

/-- One token. The frames are those of the open parentheses, the innermost one first. -/
def writeStep : List Frame → SqlToken → List Frame × List Write
  | frame :: outer, .word word => (frame.onWord word :: outer, [])
  | frame :: outer, .quoted mark value => (frame.onQuoted mark value :: outer, [])
  | frame :: outer, .symbol c =>
    if c = ';' then ([.statement], (frame :: outer).flatMap Frame.writes)
    else if c = '(' then (frame.opened.1 :: frame.opened.2 :: outer, [])
    else if c = ')' then
      match outer with
      | [] => ([frame], [])
      | next :: outer => (frame.closed next :: outer, frame.writes)
    else (frame.onSymbol c :: outer, [])
  | frames, _ => (frames, [])

/-- The scanner of the writes. -/
def writeScanner : Scanner (List Frame) SqlToken Write := ⟨writeStep, fun frames => frames.flatMap Frame.writes⟩

/-- Every write that a text performs: its effective one, and those of its data-modifying common table
expressions. -/
def writesOf (D : Dialect) (sql : Text) : List Write :=
  writeScanner.scan [.statement] (D.rules.tokens sql)

/-- A token behind which a keyword is a name. -/
def namesNext : SqlToken → Bool
  | .word word => Place.isKeyword "AS" word
  | .symbol c => c = '.' || c = '@'
  | _ => false

/-- A `WHERE` that opens a clause, among tokens behind the token `prev`. -/
def opensWhere (prev : SqlToken) : List SqlToken → Bool
  | [] => false
  | .word word :: rest =>
    (Place.isKeyword "WHERE" word && !namesNext prev) || opensWhere (.word word) rest
  | token :: rest => opensWhere token rest

/-- The write carries a `WHERE` clause at its own nesting level. -/
def Write.filtered (w : Write) : Prop := opensWhere (.word w.verb) w.own = true

instance (w : Write) : Decidable w.filtered := inferInstanceAs (Decidable (_ = true))

/-! ## The first token of a text -/

/-- The text starts with the word, for the gate: in front of it the tokenizer reads no token, and it
ends with the text or in front of a delimiter. Behind it comes `rest`, at nesting depth `d`. -/
structure StartsWith (text word rest : Text) (d : Nat) : Prop where
  split : ∃ front, text = front ++ (word ++ rest) ∧ gate.Run (betweenAt 0) front [] (betweenAt d)
  stops : StopsWord rest

/-- Where the first token stands in a text that is read from a state: in the middle of a word it is
that word with what is left of it, elsewhere a front without tokens comes before it. -/
def FirstAt (s : GateState) (text : Text) (head : Token) (tokens : List Token) : Prop :=
  (∃ w more rest, s.mode = .word w ∧ head = ⟨w ++ more, s.depth⟩ ∧ text = more ++ rest ∧
      StopsWord rest ∧ tokens = gate.scan (betweenAt s.depth) rest) ∨
    ∃ front rest, text = front ++ (head.text ++ rest) ∧
      gate.Run s front [] (betweenAt head.depth) ∧ StopsWord rest ∧
      tokens = gate.scan (betweenAt head.depth) rest

/-- A step that emits nothing only makes the front, or the word that is being read, longer. -/
theorem FirstAt.of_silent {s s' : GateState} {c : Char} {text : Text} {head : Token} {tokens : List Token}
    (hstep : gateStep s c = (s', []))
    (hword : ∀ w', s'.mode = .word w' →
      (s = betweenAt s'.depth ∧ w' = [c]) ∨ ∃ w, s = ⟨.word w, s'.depth⟩ ∧ w' = w ++ [c])
    (h : FirstAt s' text head tokens) : FirstAt s (c :: text) head tokens := by
  rcases h with ⟨w', more, rest, hmode, hhead, htext, hstop, htokens⟩ |
    ⟨front, rest, htext, hrun, hstop, htokens⟩
  · rcases hword w' hmode with ⟨hs, rfl⟩ | ⟨w, hs, rfl⟩
    · refine Or.inr ⟨[], rest, ?_, ?_, hstop, ?_⟩
      · rw [hhead, htext]
        rfl
      · rw [hhead, hs]
        exact Scanner.Run.nil _
      · rw [hhead]
        exact htokens
    · refine Or.inl ⟨w, c :: more, rest, by rw [hs], ?_, by rw [htext]; rfl, hstop, ?_⟩
      · rw [hhead, hs]
        simp
      · rw [hs]
        exact htokens
  · exact Or.inr ⟨c :: front, rest, by rw [htext]; rfl, run_step_cons hstep hrun, hstop, htokens⟩

theorem gateStep_silent {s : GateState} (hbetween : s.mode ≠ .between) (hword : ∀ w, s.mode ≠ .word w)
    (c : Char) : (gateStep s c).2 = [] ∧ ∀ w, (gateStep s c).1.mode ≠ .word w := by
  obtain ⟨mode, d⟩ := s
  cases mode with
  | between => exact absurd rfl hbetween
  | word w => exact absurd rfl (hword w)
  | escaped quote => simp [gateStep]
  | _ =>
    simp only [gateStep]
    split_ifs <;> simp

/-- A token of one character may come from the end of an unterminated comment and is left out. -/
theorem scan_first {s : GateState} {text : Text} {head : Token} {tokens : List Token}
    (h : gate.scan s text = head :: tokens) (hlen : 2 ≤ head.text.length) :
    FirstAt s text head tokens := by
  induction text generalizing s with
  | nil =>
    obtain ⟨mode, d⟩ := s
    cases mode with
    | word w =>
      obtain ⟨rfl, rfl⟩ := List.cons.inj h
      exact Or.inl ⟨w, [], [], rfl, by rw [List.append_nil], rfl, fun c hc => by simp at hc, rfl⟩
    | block last =>
      cases last with
      | none => exact absurd h (by simp [gateFlush])
      | some c =>
        simp only [Scanner.scan_nil, gate_flush, gateFlush] at h
        split_ifs at h
        obtain ⟨rfl, -⟩ := List.cons.inj h
        exact absurd hlen (by simp)
    | _ => exact absurd h (by simp [gateFlush])
  | cons c text ih =>
    rw [Scanner.scan_cons, gate_step] at h
    have henter : ∀ d w', (enter d c).mode = .word w' → (enter d c).depth = d ∧ w' = [c] := by
      intro d w' hw
      cases hk : charKind c <;> simp [enter, hk] at hw
      exact ⟨by simp [enter, hk], hw.symm⟩
    by_cases hquiet : s.mode ≠ .between ∧ ∀ w, s.mode ≠ .word w
    · obtain ⟨hnone, hnoword⟩ := gateStep_silent hquiet.1 hquiet.2 c
      rw [hnone] at h
      exact FirstAt.of_silent (Prod.ext rfl hnone) (fun w' hw => absurd hw (hnoword w')) (ih h)
    obtain ⟨mode, d⟩ := s
    cases mode with
    | between =>
      refine FirstAt.of_silent rfl (fun w' hw => Or.inl ?_) (ih (by simpa [gateStep] using h))
      obtain ⟨hd, hc⟩ := henter d w' hw
      exact ⟨by rw [hd], hc⟩
    | word w =>
      simp only [gateStep] at h
      split_ifs at h with h1 h2 h3
      · exact FirstAt.of_silent (by simp only [gateStep, if_pos h1]) (fun w' hw => absurd hw (by simp)) (ih h)
      · exact FirstAt.of_silent (by simp only [gateStep, if_neg h1, if_pos h2])
          (fun w' hw => absurd hw (by simp)) (ih h)
      · refine FirstAt.of_silent (by simp only [gateStep, if_neg h1, if_neg h2, if_pos h3])
          (fun w' hw => Or.inr ⟨w, rfl, ?_⟩) (ih h)
        simpa using hw.symm
      · -- the character ends the word
        obtain ⟨rfl, htokens⟩ := List.cons.inj h
        refine Or.inl ⟨w, [], c :: text, rfl, by rw [List.append_nil], rfl, ?_, ?_⟩
        · intro x hx
          obtain rfl : c = x := by simpa using hx
          rw [Bool.eq_false_iff]
          exact fun hword => h3 ((isWordChar_iff c).1 hword)
        · rw [← htokens, Scanner.scan_cons, gate_step, gateStep_between]
          rfl
    | _ => exact absurd ⟨by simp, by simp⟩ hquiet

/-- The verbs that the gate asks about. -/
def askedVerbs : List Text := writeVerbs ++ dropVerbs

theorem isWordRun_of_verb {word : Text} (h : toUpper word ∈ askedVerbs) : IsWordRun word := by
  have hupper : ∀ c ∈ word, ∃ v ∈ askedVerbs, runeToUpper c ∈ v := fun c hc =>
    ⟨_, h, List.mem_map_of_mem hc⟩
  have hno : ∀ c, (∀ v ∈ askedVerbs, runeToUpper c ∉ v) → c ∉ word := by
    intro c hc hmem
    obtain ⟨v, hv, hin⟩ := hupper c hmem
    exact hc v hv hin
  refine ⟨?_, ?_, ?_, ?_⟩
  · rintro rfl
    exact absurd h (by decide)
  · rw [List.all_eq_true]
    intro c hc
    by_contra hword
    -- the delimiters are their own upper case, and no verb has one
    have hdelimiter : c ∈ [' ', '\t', '\n', '\r', '(', ')', ',', ';', '\'', '"', backtick] := by
      simp only [isWordChar, isSpace, Bool.and_eq_true, Bool.not_eq_true', Bool.or_eq_false_iff,
        decide_eq_false_iff_not, not_and_or, not_not, Bool.not_eq_false] at hword
      simp only [List.contains_iff_mem] at hword
      simp only [backtick]
      rcases hword with ((((h | h) | h) | h) | h)
      all_goals simp_all
    have hupper : [' ', '\t', '\n', '\r', '(', ')', ',', ';', '\'', '"', backtick].all
        (fun x => !isUpper (runeToUpper x)) = true := by decide
    have hletters : ∀ v ∈ askedVerbs, v.all isUpper = true := by decide
    refine hno c (fun v hv hmem => ?_) hc
    have hletter := List.all_eq_true.1 (hletters v hv) _ hmem
    have hother := List.all_eq_true.1 hupper c hdelimiter
    rw [hletter] at hother
    exact Bool.false_ne_true hother
  · intro hin
    exact hno '-' (by decide) (hin.subset (by decide))
  · intro hin
    exact hno '*' (by decide) (hin.subset (by decide))

/-- **The first token is an asked verb exactly when the text starts with one.** -/
theorem tokenize_verb_iff (text word : Text) (tokens : List Token) (d : Nat)
    (hverb : toUpper word ∈ askedVerbs) :
    tokenize text = ⟨word, d⟩ :: tokens ↔
      ∃ rest, StartsWith text word rest d ∧ tokens = gate.scan (betweenAt d) rest := by
  rw [tokenize_eq_scan]
  constructor
  · intro h
    have hlen : 2 ≤ word.length := by
      have hlong : ∀ v ∈ askedVerbs, 2 ≤ v.length := by decide
      simpa [toUpper] using hlong _ hverb
    rcases scan_first h hlen with ⟨w, more, rest, hmode, -⟩ | ⟨front, rest, htext, hrun, hstop, htokens⟩
    · exact absurd hmode (by simp)
    · exact ⟨rest, ⟨⟨front, htext, hrun⟩, hstop⟩, htokens⟩
  · rintro ⟨rest, ⟨⟨front, rfl, hrun⟩, hstop⟩, rfl⟩
    rw [hrun.scan, List.nil_append]
    exact scan_wordRun (WordRun.of word (isWordRun_of_verb hverb)) d hstop

/-! ## What the classifier sees -/

/-- The gate asks about the text: it starts with `DROP` or `TRUNCATE`, or it starts with `UPDATE` or
`DELETE` and no word `WHERE` at depth zero is read behind. -/
def Asked (text : Text) : Prop :=
  ∃ word rest d, StartsWith text word rest d ∧
    (toUpper word ∈ dropVerbs ∨
      toUpper word ∈ writeVerbs ∧ (gate.scan (betweenAt d) rest).any isTopLevelWhere = false)

theorem classify_safe_iff (text : Text) : (classify text).level = .safe ↔ ¬ Asked text := by
  rw [classify, level_safe_iff]
  constructor
  · rintro ⟨hdrop, hwhere⟩ ⟨word, rest, d, hstarts, hverb⟩
    have hasked : toUpper word ∈ askedVerbs := by
      rcases hverb with h | h
      · exact List.mem_append_right _ h
      · exact List.mem_append_left _ h.1
    rw [(tokenize_verb_iff text word _ d hasked).2 ⟨rest, hstarts, rfl⟩] at hdrop hwhere
    rw [firstIn_cons] at hdrop hwhere
    rcases hverb with h | ⟨h, hnone⟩
    · rw [List.contains_iff_mem.2 h] at hdrop
      exact Bool.false_ne_true hdrop.symm
    · have hfound := hwhere (List.contains_iff_mem.2 h)
      rw [hasWhere_cons, hnone] at hfound
      exact Bool.false_ne_true hfound
  · intro hasked
    cases htokens : tokenize text with
    | nil => exact ⟨rfl, fun h => absurd h Bool.false_ne_true⟩
    | cons head rest =>
      obtain ⟨word, d⟩ := head
      rw [firstIn_cons, firstIn_cons, hasWhere_cons]
      constructor
      · rw [Bool.eq_false_iff, Ne, List.contains_iff_mem]
        intro hdrop
        obtain ⟨tail, hstarts, -⟩ :=
          (tokenize_verb_iff text word rest d (List.mem_append_right _ hdrop)).1 htokens
        exact hasked ⟨word, tail, d, hstarts, Or.inl hdrop⟩
      · intro hwrite
        rw [List.contains_iff_mem] at hwrite
        obtain ⟨tail, hstarts, htail⟩ :=
          (tokenize_verb_iff text word rest d (List.mem_append_left _ hwrite)).1 htokens
        by_contra hnone
        rw [Bool.not_eq_true, htail] at hnone
        exact hasked ⟨word, tail, d, hstarts, Or.inr ⟨hwrite, hnone⟩⟩

end Workbench.Query
