import Workbench.Lib.Lexis
import Workbench.Query.Gate

/-!
# The level and the bodies of string literals

Two texts differ only in the bodies of their string literals when they have the same skeleton: the
events of the PostgreSQL lexer with the characters between the marks of `'…'` and between dollar
quotes taken out. The tokenizer reads a backslash as an escape in every quoted text, so a body can
take it out of the literal and show it whatever comes next.

`level_constant_iff` says for which statements the level does not depend on the bodies: those whose
verdict is settled by the tokens in front of the first literal. For any other statement the proof
writes two bodies: one closes what the tokenizer has open and writes a `WHERE`, the other opens more
parentheses than the rest of the text can close.
-/

set_option autoImplicit false

namespace Workbench.Query

open Workbench.Lib

/-! ## Skeletons -/

/-- The event opens a string literal whose backslashes are ordinary. -/
def isHole : LexEvent → Bool
  | .openQuote mark escapes => mark = '\'' && !escapes
  | .openDollar _ => true
  | _ => false

/-- The event is a character of such a literal. -/
def isBody : LexEvent → Bool
  | .part mark escapes _ _ => mark = '\'' && !escapes
  | .dollarPart _ => true
  | _ => false

/-- The text with the bodies of its string literals taken out. -/
def skeleton (text : Text) : List LexEvent :=
  (LexRules.postgres.lex text).filter fun e => !isBody e

/-- The events up to the first literal and its opening, if there is one. -/
def throughHole : List LexEvent → Option (List LexEvent)
  | [] => none
  | e :: rest => if isHole e then some [e] else (throughHole rest).map (e :: ·)

/-- The text up to its first literal, the opening mark included. -/
def literalHead (text : Text) : Option Text :=
  (throughHole (LexRules.postgres.lex text)).map fun events => events.flatMap LexEvent.raw

/-- No body before the first opening. -/
def BodyAfterHole : List LexEvent → Prop
  | [] => True
  | e :: rest => isHole e = true ∨ isBody e = false ∧ BodyAfterHole rest

/-- The first literal is found in the skeleton. -/
theorem throughHole_filter {events : List LexEvent} (h : BodyAfterHole events) :
    throughHole (events.filter fun e => !isBody e) = throughHole events := by
  induction events with
  | nil => rfl
  | cons e rest ih =>
    have hb : isBody e = false := by
      rcases h with h | h
      · cases e <;> simp_all [isHole, isBody]
      · exact h.1
    rw [List.filter_cons_of_pos (by simp [hb]), throughHole, throughHole]
    split_ifs with hh
    · rfl
    · rcases h with h | h
      · exact absurd h hh
      · rw [ih h.2]

theorem filter_eq_self_of_no_hole {events : List LexEvent} (h : BodyAfterHole events)
    (hn : throughHole events = none) : (events.filter fun e => !isBody e) = events := by
  induction events with
  | nil => rfl
  | cons e rest ih =>
    rw [throughHole] at hn
    split_ifs at hn with hh
    rw [Option.map_eq_none_iff] at hn
    rcases h with h | h
    · exact absurd h hh
    · rw [List.filter_cons_of_pos (by simp [h.1]), ih h.2 hn]

theorem bodyAfterHole_append {out rest : List LexEvent} (hout : ∀ e ∈ out, isBody e = false)
    (hrest : (∃ e ∈ out, isHole e = true) ∨ BodyAfterHole rest) : BodyAfterHole (out ++ rest) := by
  induction out with
  | nil => exact hrest.resolve_left (by simp)
  | cons e out ih =>
    by_cases he : isHole e = true
    · exact Or.inl he
    · refine Or.inr ⟨hout e List.mem_cons_self, ih (fun x hx => hout x (List.mem_cons_of_mem _ hx)) ?_⟩
      rcases hrest with ⟨x, hx, hhole⟩ | hrest
      · rcases List.mem_cons.1 hx with rfl | hx
        · exact absurd hhole he
        · exact Or.inl ⟨x, hx, hhole⟩
      · exact Or.inr hrest

theorem throughHole_append {pre rest : List LexEvent} (hpre : ∀ e ∈ pre, isHole e = false) :
    throughHole (pre ++ rest) = (throughHole rest).map (pre ++ ·) := by
  induction pre with
  | nil => simp
  | cons e pre ih =>
    rw [List.cons_append, throughHole, hpre e List.mem_cons_self,
      ih fun x hx => hpre x (List.mem_cons_of_mem _ hx)]
    simp [Function.comp_def]

/-! ## The lexer and its literals -/

/-- The modes in which a character may belong to a literal. -/
def inLiteral : LexMode → Bool
  | .quoted mark escapes => mark = '\'' && !escapes
  | .closed mark escapes => mark = '\'' && !escapes
  | .dollar _ _ => true
  | _ => false

/-- Right behind the opening of a literal. -/
def AtBody (m : LexMode) : Prop := m = .quoted '\'' false ∨ ∃ tag, m = .dollar tag none

/-- What one character does outside literals: it stays outside, or it opens a literal. -/
def OutsideStep (r : LexMode × List LexEvent) : Prop :=
  (inLiteral r.1 = false ∧ ∀ e ∈ r.2, isHole e = false ∧ isBody e = false) ∨
    ∃ pre e, r.2 = pre ++ [e] ∧ (∀ x ∈ pre, isHole x = false ∧ isBody x = false) ∧
      isHole e = true ∧ AtBody r.1

theorem outsideStep_enter (c : Char) : OutsideStep (LexRules.postgres.enter c) := by
  unfold LexRules.enter
  split_ifs with h1 h2
  · exact Or.inl ⟨rfl, by simp [isHole, isBody]⟩
  · by_cases hc : c = '\''
    · subst hc
      exact Or.inr ⟨[], _, rfl, by simp, rfl, Or.inl rfl⟩
    · exact Or.inl ⟨by simp [inLiteral, hc], by simp [isHole, isBody, hc]⟩
  all_goals exact Or.inl ⟨rfl, by simp [isHole, isBody]⟩

theorem outsideStep_enterAfter {events : List LexEvent}
    (h : ∀ e ∈ events, isHole e = false ∧ isBody e = false) (c : Char) :
    OutsideStep (LexRules.postgres.enterAfter events c) := by
  rcases outsideStep_enter c with ⟨hm, he⟩ | ⟨pre, e, heq, hpre, hhole, hat⟩
  · refine Or.inl ⟨hm, fun e hmem => ?_⟩
    rcases List.mem_append.1 hmem with hmem | hmem
    · exact h e hmem
    · exact he e hmem
  · refine Or.inr ⟨events ++ pre, e, ?_, fun x hx => ?_, hhole, hat⟩
    · rw [LexRules.enterAfter, heq, List.append_assoc]
    · rcases List.mem_append.1 hx with hx | hx
      · exact h x hx
      · exact hpre x hx

theorem outside_tagEvents (text : List Char) :
    ∀ e ∈ LexRules.tagEvents text, isHole e = false ∧ isBody e = false := by
  intro e he
  cases text with
  | nil =>
    obtain rfl : e = .symbol '$' := by simpa [LexRules.tagEvents] using he
    exact ⟨rfl, rfl⟩
  | cons a rest =>
    simp only [LexRules.tagEvents, List.mem_cons, List.mem_map] at he
    rcases he with rfl | rfl | ⟨x, -, rfl⟩ <;> exact ⟨rfl, rfl⟩

theorem outsideStep_step {m : LexMode} (hm : inLiteral m = false) (c : Char) :
    OutsideStep (LexRules.postgres.step m c) := by
  -- A line comment, however it was opened, ends at the line or goes on.
  have hline : ∀ events : List LexEvent, (∀ e ∈ events, isHole e = false ∧ isBody e = false) →
      OutsideStep (LexRules.postgres.lineStep events c) := by
    intro events hev
    unfold LexRules.lineStep
    have hlast : ∀ last : LexEvent, isHole last = false ∧ isBody last = false →
        ∀ e ∈ events ++ [last], isHole e = false ∧ isBody e = false := by
      intro last hl e he
      rcases List.mem_append.1 he with he | he
      · exact hev e he
      · rw [List.mem_singleton.1 he]
        exact hl
    split_ifs
    · exact Or.inl ⟨rfl, hlast _ ⟨rfl, rfl⟩⟩
    · exact Or.inl ⟨rfl, hlast _ ⟨rfl, rfl⟩⟩
  cases m with
  | start => exact outsideStep_enter c
  | word escapePrefix =>
    simp only [LexRules.step]
    split_ifs with h1 h2
    · exact Or.inl ⟨rfl, by simp [isHole, isBody]⟩
    · exact Or.inl ⟨by simp [inLiteral], by simp [isHole, isBody]⟩
    · exact outsideStep_enter c
  | dash =>
    simp only [LexRules.step]
    split_ifs
    · exact Or.inl ⟨rfl, by simp⟩
    · exact Or.inl ⟨rfl, by simp [isHole, isBody]⟩
    · exact outsideStep_enterAfter (by simp [isHole, isBody]) c
  | dashes =>
    simp only [LexRules.step]
    split_ifs
    · exact Or.inl ⟨rfl, by simp [isHole, isBody]⟩
    · exact hline _ (by simp [isHole, isBody])
    · exact outsideStep_enterAfter (by simp [isHole, isBody]) c
  | slash =>
    simp only [LexRules.step]
    split_ifs
    · exact Or.inl ⟨rfl, by simp⟩
    · exact Or.inl ⟨rfl, by simp [isHole, isBody]⟩
    · exact outsideStep_enterAfter (by simp [isHole, isBody]) c
  | opened =>
    simp only [LexRules.step]
    split_ifs <;> exact Or.inl ⟨rfl, by simp [isHole, isBody]⟩
  | line => exact hline [] (by simp)
  | block depth last =>
    simp only [LexRules.step]
    split_ifs <;> exact Or.inl ⟨rfl, by simp [isHole, isBody]⟩
  | quoted mark escapes =>
    simp only [LexRules.step]
    split_ifs
    · exact Or.inl ⟨hm, by simp⟩
    · exact Or.inl ⟨rfl, by simp⟩
    · exact Or.inl ⟨hm, by simpa [isHole, isBody, inLiteral] using hm⟩
  | slashed mark => exact Or.inl ⟨by simp [LexRules.step, inLiteral],
      by simp [LexRules.step, isHole, isBody]⟩
  | closed mark escapes =>
    simp only [LexRules.step]
    split_ifs
    · exact Or.inl ⟨hm, by simpa [isHole, isBody, inLiteral] using hm⟩
    · exact outsideStep_enterAfter (by simp [isHole, isBody]) c
  -- The second dollar sign closes the tag and opens a body, which is a hole.
  | tag text =>
    simp only [LexRules.step]
    split_ifs
    · exact Or.inr ⟨[], _, rfl, by simp, rfl, Or.inr ⟨text, rfl⟩⟩
    · exact Or.inl ⟨rfl, by simp⟩
    · exact outsideStep_enterAfter (outside_tagEvents text) c
  | dollar tag tail => simp [inLiteral] at hm

theorem outside_flush {m : LexMode} (hm : inLiteral m = false) :
    ∀ e ∈ LexRules.flush m, isHole e = false ∧ isBody e = false := by
  cases m with
  | tag text => exact outside_tagEvents text
  | dollar tag tail => simp [inLiteral] at hm
  | _ => simp [LexRules.flush, isHole, isBody]

theorem bodyAfterHole_scan {m : LexMode} (hm : inLiteral m = false) (text : Text) :
    BodyAfterHole (LexRules.postgres.lexer.scan m text) := by
  induction text generalizing m with
  | nil =>
    rw [Scanner.scan_nil, ← List.append_nil (LexRules.postgres.lexer.flush m)]
    exact bodyAfterHole_append (fun e he => (outside_flush hm e he).2) (Or.inr trivial)
  | cons c text ih =>
    rw [Scanner.scan_cons]
    rcases outsideStep_step hm c with ⟨hm', he⟩ | ⟨pre, e, heq, hpre, hhole, -⟩
    · exact bodyAfterHole_append (fun e h => (he e h).2) (Or.inr (ih hm'))
    · have hb : isBody e = false := by
        cases e <;> simp_all [isHole, isBody]
      rw [LexRules.lexer_step, heq]
      refine bodyAfterHole_append (fun x hx => ?_) (Or.inl ⟨e, by simp, hhole⟩)
      rcases List.mem_append.1 hx with hx | hx
      · exact (hpre x hx).2
      · rwa [List.mem_singleton.1 hx]

/-- The head of a text with a literal: the lexer reads it and stands at the body. -/
theorem exists_run_of_throughHole {m : LexMode} (hm : inLiteral m = false) (text : Text)
    {events : List LexEvent}
    (h : throughHole (LexRules.postgres.lexer.scan m text) = some events) :
    ∃ head rest m', text = head ++ rest ∧ LexRules.postgres.lexer.Run m head events m' ∧
      AtBody m' := by
  induction text generalizing m events with
  | nil =>
    -- The flush at the end opens no literal.
    have hnone : throughHole (LexRules.flush m ++ []) = none := by
      rw [throughHole_append fun e he => (outside_flush hm e he).1]
      rfl
    rw [Scanner.scan_nil, LexRules.lexer_flush, ← List.append_nil (LexRules.flush m), hnone] at h
    exact absurd h (by simp)
  | cons c text ih =>
    rw [Scanner.scan_cons] at h
    rcases outsideStep_step hm c with ⟨hm', he⟩ | ⟨pre, e, heq, hpre, hhole, hat⟩
    · rw [LexRules.lexer_step, throughHole_append fun e h => (he e h).1,
        Option.map_eq_some_iff] at h
      obtain ⟨events', hev, rfl⟩ := h
      obtain ⟨head, rest, m', rfl, hrun, hat⟩ := ih hm' hev
      exact ⟨c :: head, rest, m', rfl, hrun.cons, hat⟩
    · rw [LexRules.lexer_step, heq, List.append_assoc,
        throughHole_append fun x hx => (hpre x hx).1, List.singleton_append, throughHole,
        if_pos hhole, Option.map_some, Option.some.injEq] at h
      -- This step opens the literal, so the head ends here.
      subst h
      refine ⟨[c], text, _, rfl, ?_, hat⟩
      rw [← heq]
      exact Scanner.Run.single m c

theorem atBody_held {m : LexMode} (h : AtBody m) : m.held = [] := by
  rcases h with rfl | ⟨tag, rfl⟩ <;> rfl

/-- The head of a text, read by the lexer. -/
theorem literalHead_spec {text head : Text} (h : literalHead text = some head) :
    ∃ rest events m, text = head ++ rest ∧
      LexRules.postgres.lexer.Run .start head events m ∧ AtBody m := by
  rw [literalHead, Option.map_eq_some_iff] at h
  obtain ⟨events, hev, rfl⟩ := h
  obtain ⟨head, rest, m, rfl, hrun, hat⟩ := exists_run_of_throughHole rfl text hev
  have hraw := LexRules.postgres.raw_emits .start head
  rw [hrun.1, hrun.2, atBody_held hat, List.append_nil] at hraw
  rw [hraw]
  exact ⟨rest, events, m, rfl, hrun, hat⟩

/-- The head ends in the mark of the literal, or in a dollar sign. -/
theorem literalHead_concat {text head : Text} (h : literalHead text = some head) :
    ∃ init c, head = init ++ [c] ∧ (c = '\'' ∨ c = '$') := by
  -- The events up to the first hole end with it.
  have hlast : ∀ {all events : List LexEvent}, throughHole all = some events →
      ∃ pre e, events = pre ++ [e] ∧ isHole e = true := by
    intro all
    induction all with
    | nil =>
      intro events hev
      simp [throughHole] at hev
    | cons e all ih =>
      intro events hev
      rw [throughHole] at hev
      split_ifs at hev with he
      · obtain rfl : [e] = events := by simpa using hev
        exact ⟨[], e, rfl, he⟩
      · obtain ⟨events', hev', rfl⟩ := Option.map_eq_some_iff.1 hev
        obtain ⟨pre, e', rfl, he'⟩ := ih hev'
        exact ⟨e :: pre, e', rfl, he'⟩
  rw [literalHead, Option.map_eq_some_iff] at h
  obtain ⟨events, hev, rfl⟩ := h
  obtain ⟨pre, e, rfl, he⟩ := hlast hev
  rw [List.flatMap_append, List.flatMap_singleton]
  cases e with
  | openQuote mark escapes =>
    simp only [isHole, Bool.and_eq_true, decide_eq_true_eq] at he
    exact ⟨_, mark, rfl, Or.inl he.1⟩
  | openDollar tag =>
    exact ⟨pre.flatMap LexEvent.raw ++ '$' :: tag, '$', by simp [LexEvent.raw], Or.inr rfl⟩
  | _ => simp [isHole] at he

theorem literalHead_eq_of_skeleton {s t : Text} (h : skeleton s = skeleton t) :
    literalHead s = literalHead t := by
  have key : ∀ x : Text, literalHead x =
      (throughHole (skeleton x)).map fun events => events.flatMap LexEvent.raw := by
    intro x
    have hfilter : throughHole (skeleton x) = throughHole (LexRules.postgres.lex x) :=
      throughHole_filter (bodyAfterHole_scan (m := .start) rfl x)
    rw [hfilter, literalHead]
  rw [key, key, h]

/-- A text without literals is determined by its skeleton. -/
theorem eq_of_skeleton_of_no_literal {s t : Text} (h : skeleton t = skeleton s)
    (hs : literalHead s = none) : t = s := by
  have hlex : ∀ x : Text, literalHead x = none → skeleton x = LexRules.postgres.lex x := by
    intro x hx
    rw [literalHead, Option.map_eq_none_iff] at hx
    exact filter_eq_self_of_no_hole (bodyAfterHole_scan rfl x) hx
  have ht : literalHead t = none := by
    rw [literalHead_eq_of_skeleton h, hs]
  rw [hlex s hs, hlex t ht] at h
  exact LexRules.lex_injective _ h

/-! ## Bodies -/

/-- The chunk may stand in the body of the literal: the lexer stays there. -/
def IsChunk (m : LexMode) (chunk : Text) : Prop :=
  ∃ events, LexRules.postgres.lexer.Run m chunk events m ∧ ∀ e ∈ events, isBody e = true

theorem IsChunk.append {m : LexMode} {a b : Text} (ha : IsChunk m a) (hb : IsChunk m b) :
    IsChunk m (a ++ b) := by
  obtain ⟨ea, hra, hea⟩ := ha
  obtain ⟨eb, hrb, heb⟩ := hb
  refine ⟨ea ++ eb, hra.append hrb, fun e he => ?_⟩
  rcases List.mem_append.1 he with he | he
  · exact hea e he
  · exact heb e he

theorem isChunk_char {m : LexMode} (hm : AtBody m) {c : Char} (h1 : c ≠ '\'') (h2 : c ≠ '$') :
    IsChunk m [c] := by
  rcases hm with rfl | ⟨tag, rfl⟩
  · have hstep : LexRules.postgres.step (.quoted '\'' false) c =
        (.quoted '\'' false, [.part '\'' false [c] [c]]) := by
      simp [LexRules.step, h1]
    refine ⟨[.part '\'' false [c] [c]], ?_, by simp [isBody]⟩
    have hrun := Scanner.Run.single (M := LexRules.postgres.lexer) (.quoted '\'' false) c
    rw [LexRules.lexer_step, hstep] at hrun
    exact hrun
  · have hstep : LexRules.postgres.step (.dollar tag none) c =
        (.dollar tag none, [.dollarPart c]) := by
      simp [LexRules.step, h2]
    refine ⟨[.dollarPart c], ?_, by simp [isBody]⟩
    have hrun := Scanner.Run.single (M := LexRules.postgres.lexer) (.dollar tag none) c
    rw [LexRules.lexer_step, hstep] at hrun
    exact hrun

/-- A character that opens nothing in a body. -/
def isBodyChar (c : Char) : Bool := c ≠ '\'' && c ≠ '$'

theorem isChunk_of_chars {m : LexMode} (hm : AtBody m) (chunk : Text)
    (h : chunk.all isBodyChar = true) : IsChunk m chunk := by
  induction chunk with
  | nil => exact ⟨[], Scanner.Run.nil m, by simp⟩
  | cons c chunk ih =>
    simp only [List.all_cons, isBodyChar, Bool.and_eq_true, decide_eq_true_eq] at h
    exact (isChunk_char hm h.1.1 h.1.2).append (ih h.2)

/-- A backslash and a doubled quote. -/
theorem isChunk_escape {m : LexMode} (hm : AtBody m) : IsChunk m ['\\', '\'', '\''] := by
  rcases hm with rfl | ⟨tag, rfl⟩
  · exact ⟨[.part '\'' false ['\\'] ['\\'], .part '\'' false ['\'', '\''] ['\'']], ⟨rfl, rfl⟩,
      by simp [isBody]⟩
  · exact ⟨[.dollarPart '\\', .dollarPart '\'', .dollarPart '\''], ⟨rfl, rfl⟩, by simp [isBody]⟩

/-- A chunk put in front of a body does not change the skeleton. -/
theorem skeleton_insert {head : Text} {events : List LexEvent} {m : LexMode}
    (hrun : LexRules.postgres.lexer.Run .start head events m) {chunk : Text} (hc : IsChunk m chunk)
    (rest : Text) : skeleton (head ++ (chunk ++ rest)) = skeleton (head ++ rest) := by
  obtain ⟨body, hbody, hall⟩ := hc
  have hnil : (body.filter fun e => !isBody e) = [] := by
    rw [List.filter_eq_nil_iff]
    intro e he
    simp [hall e he]
  rw [skeleton, skeleton, LexRules.lex, LexRules.lex, hrun.scan, hrun.scan, hbody.scan]
  simp [List.filter_append, hnil]

/-! ## The gate at the first literal -/

/-- The tokens of the text in front of the first body, the one being read included. -/
def readBy (head : Text) : List Token :=
  gate.emits (betweenAt 0) head ++ (gate.reach (betweenAt 0) head).pending

/-- The level is settled: there is a first token, and if it is a write verb there is a `WHERE`. -/
def Decided (tokens : List Token) : Prop :=
  tokens ≠ [] ∧ (firstIn writeVerbs tokens = true → hasWhere tokens = true)

instance (tokens : List Token) : Decidable (Decided tokens) := inferInstanceAs (Decidable (_ ∧ _))

/-- Further tokens do not change a settled level. -/
theorem level_append_of_decided {tokens : List Token} (h : Decided tokens) (more : List Token) :
    (classifyTokens (tokens ++ more)).level = (classifyTokens tokens).level := by
  obtain ⟨hne, hwhere⟩ := h
  rw [classifyTokens_level, classifyTokens_level, firstIn_append hne, firstIn_append hne,
    hasWhere_append hne]
  by_cases hw : firstIn writeVerbs tokens = true
  · rw [hwhere hw, Bool.true_or]
  · rw [if_neg hw, if_neg hw]

/-- The word the gate is in behind a last character. -/
theorem mem_word_of_reach_concat {text w : Text} {c : Char}
    (h : (gate.reach (betweenAt 0) (text ++ [c])).mode = .word w) : charKind c = .word ∧ c ∈ w := by
  -- A character starts a word only where it is a word character itself.
  have henter : ∀ d, (enter d c).mode = .word w → charKind c = .word ∧ c ∈ w := by
    intro d hd
    cases hk : charKind c with
    | word =>
      rw [enter_word d hk] at hd
      obtain rfl : [c] = w := by simpa using hd
      exact ⟨rfl, List.mem_cons_self⟩
    | _ => simp [enter, hk] at hd
  rw [gate.reach_append, Scanner.reach_cons, Scanner.reach_nil, gate_step] at h
  generalize gate.reach (betweenAt 0) text = s at h
  obtain ⟨mode, d⟩ := s
  cases mode with
  | between => exact henter d h
  | word v =>
    simp only [gateStep] at h
    split_ifs at h with h1 h2 h3
    · obtain rfl : v ++ [c] = w := by simpa using h
      exact ⟨h3, by simp⟩
    · exact henter d h
  | line =>
    simp only [gateStep] at h
    split_ifs at h
  | block last =>
    simp only [gateStep] at h
    split_ifs at h
  | quoted q =>
    simp only [gateStep] at h
    split_ifs at h
  | escaped q => simp [gateStep] at h

/-- Behind the opening of a literal, a word the gate is in holds a dollar sign. -/
theorem dollar_mem_of_literalHead {text head w : Text} (h : literalHead text = some head)
    (hw : (gate.reach (betweenAt 0) head).mode = .word w) : '$' ∈ w := by
  obtain ⟨init, c, rfl, hc⟩ := literalHead_concat h
  obtain ⟨hk, hmem⟩ := mem_word_of_reach_concat hw
  rcases hc with rfl | rfl
  · exact absurd hk (by decide)
  · exact hmem

theorem firstIn_of_dollar {verbs : List Text} (hverbs : ∀ v ∈ verbs, '$' ∉ v) {head : Token}
    (h : '$' ∈ head.text) (rest : List Token) : firstIn verbs (head :: rest) = false := by
  rw [firstIn_cons, Bool.eq_false_iff, Ne, List.contains_iff_mem]
  intro hmem
  exact hverbs _ hmem (List.mem_map.2 ⟨'$', h, by decide⟩)

theorem isTopLevelWhere_of_dollar {item : Token} (h : '$' ∈ item.text) :
    isTopLevelWhere item = false := by
  rw [isTopLevelWhere, equalFold, Bool.and_eq_false_iff, beq_eq_false_iff_ne]
  refine Or.inr fun heq => ?_
  have hmem : '$' ∈ item.text.map foldRune := List.mem_map.2 ⟨'$', h, by decide⟩
  rw [heq] at hmem
  exact absurd hmem (by decide)

/-- A last word with a dollar sign decides nothing but that there is a first token. -/
theorem level_append_dollar {tokens : List Token} {last : Token} (hlast : '$' ∈ last.text)
    (h : Decided (tokens ++ [last])) {last' : Token} (hlast' : '$' ∈ last'.text)
    (more : List Token) :
    (classifyTokens (tokens ++ last' :: more)).level =
      (classifyTokens (tokens ++ [last])).level := by
  -- without a token before it, the last word is the first one, and no verb either way
  by_cases hne : tokens = []
  · subst hne
    rw [List.nil_append, List.nil_append, classifyTokens_level, classifyTokens_level,
      firstIn_of_dollar (by decide) hlast, firstIn_of_dollar (by decide) hlast',
      firstIn_of_dollar (by decide) hlast, firstIn_of_dollar (by decide) hlast']
    rfl
  · have hd : Decided tokens := by
      refine ⟨hne, fun hw => ?_⟩
      have hwhere := h.2 (by rwa [firstIn_append hne])
      rwa [hasWhere_append hne, List.any_cons, isTopLevelWhere_of_dollar hlast, List.any_nil,
        Bool.or_false, Bool.or_false] at hwhere
    rw [level_append_of_decided hd, level_append_of_decided hd]

/-- A level settled in front of the first body is the level of the whole text. -/
theorem level_of_decided {text head : Text} (hhead : literalHead text = some head)
    (h : Decided (readBy head)) (rest : Text) :
    (classify (head ++ rest)).level = (classifyTokens (readBy head)).level := by
  have hdollar := fun w => dollar_mem_of_literalHead (w := w) hhead
  rw [classify, tokenize_eq_scan, gate.scan_append]
  rw [readBy] at h ⊢
  generalize gate.reach (betweenAt 0) head = g at h hdollar ⊢
  obtain ⟨mode, d⟩ := g
  cases mode with
  | word w =>
    have hw := hdollar w rfl
    have hne : w ≠ [] := List.ne_nil_of_mem hw
    have hnot : ∀ x : Char, x ≠ '$' → w ≠ [x] := by
      rintro x hx rfl
      exact hx (List.mem_singleton.1 hw).symm
    rw [scan_word d w rest hne (fun h => hnot '-' (by decide) h.1)
      (fun h => hnot '/' (by decide) h.1)]
    have hlast : '$' ∈ (⟨w, d⟩ : Token).text := hw
    exact level_append_dollar hlast h (List.mem_append_left _ hw) _
  | _ =>
    simp only [GateState.pending, List.append_nil] at h ⊢
    exact level_append_of_decided h _

/-! ## Two bodies for an unsettled level -/

/-- From anywhere a body can bring the gate back between tokens. -/
theorem exists_closing_chunk {m : LexMode} (hm : AtBody m) (g : GateState)
    (hg : ∀ q, g.mode = .quoted q ∨ g.mode = .escaped q → isQuote q = true) :
    ∃ chunk, IsChunk m chunk ∧ gate.Run g chunk g.pending (betweenAt g.depth) := by
  obtain ⟨mode, d⟩ := g
  -- The same mark ends the quoted text; a single quote has to be escaped inside the body.
  have hquoted : ∀ q, isQuote q = true →
      ∃ chunk, IsChunk m chunk ∧ gate.Run ⟨.quoted q, d⟩ chunk [] (betweenAt d) := by
    intro q hq
    by_cases hsingle : q = '\''
    · subst hsingle
      exact ⟨_, isChunk_escape hm, rfl, rfl⟩
    · have hd : q ≠ '$' := by
        rintro rfl
        exact absurd hq (by decide)
      exact ⟨[q], isChunk_char hm hsingle hd, run_step (by simp [gateStep])⟩
  cases mode with
  | between => exact ⟨[], ⟨[], Scanner.Run.nil m, by simp⟩, Scanner.Run.nil _⟩
  -- A blank ends the word, a line feed the line and a star with a slash the block.
  | word text =>
    have hstep : gateStep ⟨.word text, d⟩ ' ' = (betweenAt d, [⟨text, d⟩]) := by
      have hk : ¬ charKind ' ' = .word := by decide
      simp only [gateStep]
      rw [if_neg (fun h => absurd h.2 (by decide)), if_neg (fun h => absurd h.2 (by decide)),
        if_neg hk, enter_space d (by decide)]
    exact ⟨[' '], isChunk_char hm (by decide) (by decide), run_step hstep⟩
  | line => exact ⟨['\n'], isChunk_char hm (by decide) (by decide), rfl, rfl⟩
  | block last =>
    have hstep : gateStep ⟨.block last, d⟩ '*' = (⟨.block (some '*'), d⟩, []) := by
      simp [gateStep]
    exact ⟨['*', '/'], isChunk_of_chars hm _ (by decide),
      run_step_cons hstep (run_step rfl)⟩
  | quoted q => exact hquoted q (hg q (Or.inl rfl))
  | escaped q =>
    obtain ⟨chunk, hc, hrun⟩ := hquoted q (hg q (Or.inr rfl))
    exact ⟨'x' :: chunk, (isChunk_char hm (by decide) (by decide)).append hc,
      run_step_cons rfl hrun⟩

theorem all_replicate_isBodyChar (n : Nat) {c : Char} (hc : isBodyChar c = true) :
    (List.replicate n c).all isBodyChar = true := by
  rw [List.all_eq_true]
  intro x hx
  rwa [List.eq_of_mem_replicate hx]

/-- Below more parentheses than a text closes, none of its words is at the top level. -/
theorem no_topLevelWhere_deep (d : Nat) (rest : Text) :
    (gate.scan (betweenAt (d + (rest.count ')' + 1))) rest).any isTopLevelWhere = false := by
  rw [List.any_eq_false]
  intro item hitem
  have hdepth := depth_scan 1 _ rest (by simp only; omega) item hitem
  have hzero : ¬ item.depth = 0 := by omega
  simp [isTopLevelWhere, hzero]

/-- **The level does not depend on the bodies of the literals exactly when the text in front of the
first body settles it.** -/
theorem level_constant_iff (s : Text) :
    (∀ t, skeleton t = skeleton s → (classify t).level = (classify s).level) ↔
      ∀ head, literalHead s = some head → Decided (readBy head) := by
  constructor
  · intro hconst head hhead
    by_contra hopen
    obtain ⟨rest, events, m, rfl, hrun, hm⟩ := literalHead_spec hhead
    -- a body that brings the gate back between tokens, and what the gate has read by then
    obtain ⟨chunk, hchunk, hgate⟩ := exists_closing_chunk hm (gate.reach (betweenAt 0) head)
      fun q hq => quote_of_reach 0 head q hq
    have hread : gate.Run (betweenAt 0) (head ++ chunk) (readBy head)
        (betweenAt (gate.reach (betweenAt 0) head).depth) :=
      (gate.run_reach (betweenAt 0) head).append hgate
    generalize hts : readBy head = tokens at hopen hread
    generalize (gate.reach (betweenAt 0) head).depth = d at hread
    -- any further characters of the body may follow
    have hlevel : ∀ more out d', IsChunk m more → gate.Run (betweenAt d) more out (betweenAt d') →
        (classifyTokens (tokens ++ out ++ gate.scan (betweenAt d') rest)).level =
          (classify (head ++ rest)).level := by
      intro more out d' hmore hout
      have hskel := skeleton_insert hrun (hchunk.append hmore) rest
      rw [← hconst _ hskel, classify, tokenize_eq_scan, ← List.append_assoc, ← List.append_assoc,
        (hread.append hout).scan]
    by_cases hne : tokens = []
    · subst hne
      -- two bodies that make different statements of the same text
      have hdrop := hlevel " drop ".toList [⟨"drop".toList, d⟩] d
        (isChunk_of_chars hm _ (by decide)) ⟨rfl, rfl⟩
      have hselect := hlevel " select ".toList [⟨"select".toList, d⟩] d
        (isChunk_of_chars hm _ (by decide)) ⟨rfl, rfl⟩
      rw [List.nil_append, List.singleton_append] at hdrop hselect
      have htarget : ∀ more, (classifyTokens (⟨"drop".toList, d⟩ :: more)).level = .typeTarget :=
        fun more => (level_typeTarget_iff _).2 rfl
      rw [← hdrop, htarget, level_typeTarget_iff] at hselect
      exact absurd hselect Bool.false_ne_true
    · have hw : firstIn writeVerbs tokens = true ∧ ¬ hasWhere tokens = true := by
        by_contra hcon
        exact hopen ⟨hne, fun hw => by_contra fun hno => hcon ⟨hw, hno⟩⟩
      -- a `WHERE` at depth zero, against more parentheses than the rest closes
      have hsafe := hlevel (List.replicate d ')' ++ " where ".toList) [⟨"where".toList, 0⟩] 0
        (isChunk_of_chars hm _ (by rw [List.all_append, all_replicate_isBodyChar d rfl]; rfl))
        (by
          have hclose := run_closings d d
          rw [Nat.sub_self] at hclose
          exact hclose.append ⟨rfl, rfl⟩)
      have hconfirm := hlevel (List.replicate (rest.count ')' + 1) '(') [] _
        (isChunk_of_chars hm _ (all_replicate_isBodyChar _ rfl))
        (run_openings d _)
      have hwhere : hasWhere (tokens ++ [⟨"where".toList, 0⟩] ++ gate.scan (betweenAt 0) rest) =
          true := by
        rw [List.append_assoc, hasWhere_append hne]
        have hword : isTopLevelWhere ⟨"where".toList, 0⟩ = true := by decide
        rw [List.singleton_append, List.any_cons, hword, Bool.true_or, Bool.or_true]
      rw [(level_safe_iff _).2, ← hconfirm, eq_comm, List.append_nil, level_safe_iff,
        firstIn_append hne, firstIn_append hne, hasWhere_append hne, no_topLevelWhere_deep, Bool.or_false] at hsafe
      · exact hw.2 (hsafe.2 hw.1)
      · rw [List.append_assoc, firstIn_append hne]
        exact ⟨firstIn_drop_of_write hw.1, fun _ => by rwa [List.append_assoc] at hwhere⟩
  · intro h t ht
    cases hhead : literalHead s with
    | none => rw [eq_of_skeleton_of_no_literal ht hhead]
    | some head =>
      have hhead' : literalHead t = some head := by rw [literalHead_eq_of_skeleton ht, hhead]
      obtain ⟨rest, -, -, rfl, -, -⟩ := literalHead_spec hhead
      obtain ⟨rest', -, -, rfl, -, -⟩ := literalHead_spec hhead'
      have hd := h head hhead
      rw [level_of_decided hhead hd, level_of_decided hhead' hd]

/-- A body that starts with a backslash and a quote ends early for the gate, and the rest of it
supplies a `WHERE` to an unfiltered `DELETE`. -/
theorem level_depends_on_body :
    ¬ ∀ s t : Text, skeleton t = skeleton s → (classify t).level = (classify s).level := by
  intro h
  have hlevel := h "DELETE FROM logs RETURNING 'x'".toList
    "DELETE FROM logs RETURNING '\\'' where '".toList (by decide)
  exact absurd hlevel (by decide)

end Workbench.Query
