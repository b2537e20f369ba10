import Workbench.Lib.AlterActions
import Workbench.Schema.Accepted

/-!
# How the database reads the emitted texts

`Reads` relates two states of the reader and of the places behind it: the text between them does no
harm and drops what the marks say. The lemmas read the parts that the generator writes, names, types
and fixed words, and compose them.
-/

set_option autoImplicit false

namespace Workbench

/-- `ALTER TABLE … DROP PARTITION` is MySQL only. -/
def Dialect.dropsPartitions : Dialect → Bool
  | mysql => true
  | postgres => false

end Workbench

namespace Workbench.Schema

open Workbench.Lib

/-! ## What is said about a text -/

/-- The text is one statement: it is not empty, all its quotes are closed, and outside quotes it holds
no semicolon and no opener of a comment. -/
def IsOneStatement (d : Dialect) (sql : Text) : Prop :=
  d.rules.tokens sql ≠ [] ∧ (d.rules.tokens sql).any SqlToken.harmful = false

/-- The text is read to its end and drops a column, a constraint, a key or an index. -/
def Drops (d : Dialect) (sql : Text) : Prop :=
  SqlToken.unclosed ∉ d.rules.tokens sql ∧
    (places d.dropsPartitions).scan .statement (d.rules.tokens sql) ≠ []

/-! ## Segments -/

abbrev ReadState := LexMode × TokenState

def start : ReadState := (.start, .idle)

/-- From one state to another a text does no harm and drops what the marks say. -/
def Reads (d : Dialect) (s : ReadState) (p : Place) (text : Text) (drops : List Place.Drop)
    (t : ReadState) (q : Place) : Prop :=
  ∃ tokens, d.rules.reader.Run s text tokens t ∧ tokens.any SqlToken.harmful = false ∧
    (places d.dropsPartitions).Run p tokens drops q

theorem Reads.append {d : Dialect} {s t r : ReadState} {p q o : Place} {x y : Text}
    {drops more : List Place.Drop} (h : Reads d s p x drops t q) (h' : Reads d t q y more r o) :
    Reads d s p (x ++ y) (drops ++ more) r o := by
  obtain ⟨tokens, hrun, hharm, hplace⟩ := h
  obtain ⟨tokens', hrun', hharm', hplace'⟩ := h'
  refine ⟨tokens ++ tokens', hrun.append hrun', ?_, hplace.append hplace'⟩
  rw [List.any_append, hharm, hharm', Bool.or_false]

theorem Reads.nil {d : Dialect} (s : ReadState) (p : Place) : Reads d s p [] [] s p :=
  ⟨[], Scanner.Run.nil _, rfl, Scanner.Run.nil _⟩

/-- `Reads` on a text that is known, as a test. -/
def readsTo (d : Dialect) (s : ReadState) (p : Place) (text : Text) (drops : List Place.Drop)
    (t : ReadState) (q : Place) : Bool :=
  let tokens := d.rules.reader.emits s text
  d.rules.reader.reach s text = t && !tokens.any SqlToken.harmful &&
    (places d.dropsPartitions).reach p tokens = q && (places d.dropsPartitions).emits p tokens = drops

theorem reads_of_readsTo {d : Dialect} {s t : ReadState} {p q : Place} {text : Text}
    {drops : List Place.Drop} (h : readsTo d s p text drops t q = true) :
    Reads d s p text drops t q := by
  simp only [readsTo, Bool.and_eq_true, decide_eq_true_eq, Bool.not_eq_true'] at h
  obtain ⟨⟨⟨hreach, hharm⟩, hplace⟩, hdrops⟩ := h
  exact ⟨_, ⟨hreach, rfl⟩, hharm, ⟨hplace, hdrops⟩⟩

/-- The next of a list of parts that drop nothing before the rest is read. -/
theorem Reads.cons {d : Dialect} {s t r : ReadState} {p q o : Place} {x : Text} {xs : List Text}
    {drops : List Place.Drop} (h : Reads d s p x [] t q) (h' : Reads d t q xs.flatten drops r o) :
    Reads d s p (x :: xs).flatten drops r o :=
  h.append h'

/-- A part behind which nothing is dropped. -/
theorem Reads.consDrops {d : Dialect} {s t r : ReadState} {p q o : Place} {x : Text}
    {xs : List Text} {drops : List Place.Drop} (h : Reads d s p x drops t q)
    (h' : Reads d t q xs.flatten [] r o) : Reads d s p (x :: xs).flatten drops r o := by
  have happend := h.append h'
  rw [List.append_nil] at happend
  exact happend

/-- The last part. -/
theorem Reads.last {d : Dialect} {s t : ReadState} {p q : Place} {x : Text}
    {drops : List Place.Drop} (h : Reads d s p x drops t q) :
    Reads d s p [x].flatten drops t q :=
  h.consDrops (Reads.nil t q)

/-- Outside everything, perhaps in a word. -/
def Calm (s : ReadState) : Prop := s.1 = .start ∨ ∃ escapePrefix, s.1 = .word escapePrefix

theorem calm_start : Calm start := Or.inl rfl

theorem pending_staysInside (s : TokenState) : s.pending.all SqlToken.staysInside = true := by
  cases s <;> rfl

theorem not_harmful_of_staysInside {tokens : List SqlToken}
    (h : tokens.all SqlToken.staysInside = true) : tokens.any SqlToken.harmful = false := by
  rw [List.any_eq_false]
  intro t ht
  have hstays := List.all_eq_true.1 h t ht
  cases t with
  | symbol c =>
    simp only [SqlToken.staysInside, Bool.and_eq_true, decide_eq_true_eq] at hstays
    simpa [SqlToken.harmful] using hstays.1.1.1
  | _ => simp_all [SqlToken.harmful, SqlToken.staysInside]

/-- Tokens that stay inside an action. -/
theorem reads_inside {d : Dialect} {s t : ReadState} {text : Text} {tokens : List SqlToken}
    (h : d.rules.reader.Run s text tokens t) (hstays : tokens.all SqlToken.staysInside = true)
    (depth : Nat) : Reads d s (.inside depth) text [] t (.inside depth) :=
  ⟨tokens, h, not_harmful_of_staysInside hstays, places_inside hstays depth⟩

/-! ## Single characters -/

/-- A character of a word of the generated text. -/
def isWordChar (c : Char) : Bool := isLetter c || isDigit c || c = '_'

theorem isIdentChar_of_isWordChar {c : Char} (h : isWordChar c = true) : isIdentChar c = true := by
  have hupper : c.isUpper = isUpper c := Bool.decide_and _ _
  have hchar : isIdentChar c =
      (c.isUpper || isLower c || isDigit c || c = '_' || c = '$' || 128 ≤ c.toNat) := rfl
  simp only [isWordChar, isLetter, Bool.or_eq_true, decide_eq_true_eq] at h
  simp only [hchar, hupper, Bool.or_eq_true, decide_eq_true_eq]
  rcases h with ((h | h) | h) | h
  · exact Or.inl (Or.inl (Or.inl (Or.inl (Or.inr h))))
  · exact Or.inl (Or.inl (Or.inl (Or.inl (Or.inl h))))
  · exact Or.inl (Or.inl (Or.inl (Or.inr h)))
  · exact Or.inl (Or.inl (Or.inr h))

theorem enter_wordChar (d : Dialect) {c : Char} (h : isWordChar c = true) :
    ∃ escapePrefix, d.rules.enter c = (.word escapePrefix, [.wordStart c]) := by
  have hne : ∀ x, isWordChar x = false → c ≠ x := by
    intro x hx hcx
    rw [hcx, hx] at h
    exact absurd h (by decide)
  have hblank : isBlank c = false := by
    simp [isBlank, hne ' ' rfl, hne '\t' rfl, hne '\n' rfl, hne '\r' rfl, hne '\x0b' rfl,
      hne '\x0c' rfl]
  have hmark : d.rules.isMark c = false := by
    cases d
    · simp [Dialect.rules, LexRules.mysql, hne '\'' rfl, hne '"' rfl, hne LexRules.backquote rfl]
    · simp [Dialect.rules, LexRules.postgres, hne '\'' rfl, hne '"' rfl]
  refine ⟨d.rules.escapePrefix && (c = 'E' || c = 'e'), ?_⟩
  rw [LexRules.enter, hblank, hmark, if_neg Bool.false_ne_true, if_neg Bool.false_ne_true,
    if_neg (hne '-' rfl), if_neg (hne '/' rfl), if_neg fun hh => hne '#' rfl hh.2,
    if_neg fun hh => hne '$' rfl hh.2, if_pos (isIdentChar_of_isWordChar h)]

theorem reads_wordChar {d : Dialect} {s : ReadState} (hs : Calm s) {c : Char}
    (h : isWordChar c = true) (depth : Nat) :
    ∃ t, Calm t ∧ Reads d s (.inside depth) [c] [] t (.inside depth) := by
  obtain ⟨m, ts⟩ := s
  have hpending := pending_staysInside ts
  rcases hs with hm | ⟨escapePrefix, hm⟩
  · obtain ⟨e, henter⟩ := enter_wordChar d h
    have hstep : d.rules.step m c = (.word e, [.wordStart c]) := by
      simp only at hm
      rw [hm]
      exact henter
    have htoken : tokenizer.Run ts [.wordStart c] ts.pending (.word [c]) := by
      cases ts <;> exact ⟨rfl, rfl⟩
    exact ⟨_, Or.inr ⟨e, rfl⟩,
      reads_inside ((LexRules.run_step hstep).pipe htoken) hpending depth⟩
  · have hstep : d.rules.step m c = (.word false, [.wordPart c]) := by
      simp only at hm
      rw [hm, LexRules.step, if_pos (isIdentChar_of_isWordChar h)]
    have htoken : ∃ w out, tokenizer.Run ts [.wordPart c] out (.word w) ∧
        out.all SqlToken.staysInside = true := by
      cases ts with
      | idle => exact ⟨_, _, ⟨rfl, rfl⟩, rfl⟩
      | word w => exact ⟨_, _, ⟨rfl, rfl⟩, rfl⟩
      | quoted mark value => exact ⟨_, _, ⟨rfl, rfl⟩, rfl⟩
    obtain ⟨w, out, htoken, hout⟩ := htoken
    exact ⟨_, Or.inr ⟨false, rfl⟩,
      reads_inside ((LexRules.run_step hstep).pipe htoken) hout depth⟩

/-- A blank ends the word in front of it. -/
theorem run_blank {d : Dialect} {s : ReadState} (hs : Calm s) :
    d.rules.reader.Run s [' '] s.2.pending start := by
  obtain ⟨m, ts⟩ := s
  have hstep : d.rules.step m ' ' = (.start, [.blank ' ']) := by
    rcases hs with hm | ⟨escapePrefix, hm⟩
    · simp only at hm
      rw [hm]
      cases d <;> rfl
    · simp only at hm
      rw [hm]
      cases d <;> cases escapePrefix <;> rfl
  have htoken : tokenizer.Run ts [.blank ' '] ts.pending .idle := by
    cases ts <;> exact ⟨rfl, rfl⟩
  exact (LexRules.run_step hstep).pipe htoken

theorem reads_blank {d : Dialect} {s : ReadState} (hs : Calm s) (depth : Nat) :
    Reads d s (.inside depth) [' '] [] start (.inside depth) :=
  reads_inside (run_blank hs) (pending_staysInside s.2) depth

/-- A symbol of a type. -/
theorem run_symbol {d : Dialect} {s : ReadState} (hs : Calm s) {c : Char} (hc : c ∈ "(),[]".toList) :
    d.rules.reader.Run s [c] (s.2.pending ++ [.symbol c]) start := by
  obtain ⟨m, ts⟩ := s
  have hchars : c = '(' ∨ c = ')' ∨ c = ',' ∨ c = '[' ∨ c = ']' := by simpa using hc
  have hstep : d.rules.step m c = (.start, [.symbol c]) := by
    rcases hs with hm | ⟨escapePrefix, hm⟩
    · simp only at hm
      rw [hm]
      rcases hchars with rfl | rfl | rfl | rfl | rfl <;> cases d <;> rfl
    · simp only at hm
      rw [hm]
      rcases hchars with rfl | rfl | rfl | rfl | rfl <;> cases d <;> cases escapePrefix <;> rfl
  have htoken : tokenizer.Run ts [.symbol c] (ts.pending ++ [.symbol c]) .idle := by
    cases ts <;> exact ⟨rfl, rfl⟩
  exact (LexRules.run_step hstep).pipe htoken

theorem reads_symbol {d : Dialect} {s : ReadState} (hs : Calm s) {c : Char}
    (hc : c ∈ "(),[]".toList) {depth after : Nat}
    (hplace : (Place.inside depth).onSymbol c = .inside after) :
    Reads d s (.inside depth) [c] [] start (.inside after) := by
  refine ⟨_, run_symbol hs hc, ?_, ?_⟩
  · have hchars : c = '(' ∨ c = ')' ∨ c = ',' ∨ c = '[' ∨ c = ']' := by simpa using hc
    rw [List.any_append, not_harmful_of_staysInside (pending_staysInside s.2), Bool.false_or]
    rcases hchars with rfl | rfl | rfl | rfl | rfl <;> rfl
  · have hsymbol : (places d.dropsPartitions).Run (.inside depth) [.symbol c] [] (.inside after) := by
      apply Scanner.Run.of_step
      exact congrArg (fun q => (q, [])) hplace
    exact (places_inside (pending_staysInside s.2) depth).append hsymbol

/-! ## Types -/

/-- From one depth to another a text is read calmly. -/
def ReadsCalmly (d : Dialect) (depth after : Nat) (text : Text) : Prop :=
  ∀ s, Calm s → ∃ t, Calm t ∧ Reads d s (.inside depth) (toUpper text) [] t (.inside after)

theorem ReadsCalmly.append {d : Dialect} {depth between after : Nat} {x y : Text}
    (hx : ReadsCalmly d depth between x) (hy : ReadsCalmly d between after y) :
    ReadsCalmly d depth after (x ++ y) := by
  intro s hs
  obtain ⟨t, ht, hread⟩ := hx s hs
  obtain ⟨r, hr, hread'⟩ := hy t ht
  refine ⟨r, hr, ?_⟩
  rw [toUpper, List.map_append]
  exact hread.append hread'

theorem readsCalmly_nil (d : Dialect) (depth : Nat) : ReadsCalmly d depth depth [] :=
  fun s hs => ⟨s, hs, Reads.nil s _⟩

/-- A letter in upper case is a letter. -/
theorem isWordChar_runeToUpper {c : Char} (h : isWordChar c = true) :
    isWordChar (runeToUpper c) = true := by
  have hdotless : c ≠ 'ı' := by
    rintro rfl
    exact absurd h (by decide)
  have hlong : c ≠ 'ſ' := by
    rintro rfl
    exact absurd h (by decide)
  rw [runeToUpper, if_neg hdotless, if_neg hlong, asciiUpper]
  split_ifs with hlower
  · have hupper : isUpper (Char.ofNat (c.toNat - 32)) = true := by
      simp only [isLower, Bool.and_eq_true, decide_eq_true_eq, char_le_iff] at hlower
      have hvalid : (c.toNat - 32).isValidChar := Or.inl (by
        have h1 : 'z'.toNat = 122 := rfl
        omega)
      have hnat : (Char.ofNat (c.toNat - 32)).toNat = c.toNat - 32 := by
        rw [Char.ofNat, dif_pos hvalid]
        rfl
      have ha : 'a'.toNat = 97 := rfl
      have hz : 'z'.toNat = 122 := rfl
      have hA : 'A'.toNat = 65 := rfl
      have hZ : 'Z'.toNat = 90 := rfl
      simp only [isUpper, Bool.and_eq_true, decide_eq_true_eq, char_le_iff, hnat]
      omega
    simp [isWordChar, isLetter, hupper]
  · exact h

theorem readsCalmly_word (d : Dialect) {c : Char} (h : isWordChar c = true) (depth : Nat) :
    ReadsCalmly d depth depth [c] :=
  fun _ hs => reads_wordChar hs (isWordChar_runeToUpper h) depth

theorem readsCalmly_of_all (d : Dialect) {p : Char → Bool}
    (hp : ∀ c, p c = true → isWordChar c = true ∨ c = ' ') (depth : Nat) {text : Text}
    (h : text.all p = true) : ReadsCalmly d depth depth text := by
  induction text with
  | nil => exact readsCalmly_nil d depth
  | cons c rest ih =>
    rw [List.all_cons, Bool.and_eq_true] at h
    have hc : ReadsCalmly d depth depth [c] := by
      rcases hp c h.1 with hword | rfl
      · exact readsCalmly_word d hword depth
      · exact fun s hs => ⟨start, calm_start, reads_blank hs depth⟩
    exact hc.append (ih h.2)

theorem readsCalmly_symbol (d : Dialect) {c : Char} (hc : c ∈ "(),[]".toList) {depth after : Nat}
    (hplace : (Place.inside depth).onSymbol c = .inside after) :
    ReadsCalmly d depth after [c] := by
  intro s hs
  have hupper : toUpper [c] = [c] := by
    have hchars : c = '(' ∨ c = ')' ∨ c = ',' ∨ c = '[' ∨ c = ']' := by simpa using hc
    rcases hchars with rfl | rfl | rfl | rfl | rfl <;> rfl
  rw [hupper]
  exact ⟨start, calm_start, reads_symbol hs hc hplace⟩

theorem yields_char (d : Dialect) {c : Char} (hc : c ∈ "(),[]".toList) {depth after : Nat}
    (hplace : (Place.inside depth).onSymbol c = .inside after) :
    Matcher.Yields (ReadsCalmly d depth after) (char c) := by
  apply Matcher.yields_one
  intro a ha
  rw [of_decide_eq_true ha]
  exact readsCalmly_symbol d hc hplace

theorem isWordChar_of_isDigit {c : Char} (h : isDigit c = true) : isWordChar c = true := by
  simp [isWordChar, h]

theorem isWordChar_of_isLetter {c : Char} (h : isLetter c = true) : isWordChar c = true := by
  simp [isWordChar, h]

/-- **A type that passes `typeRE` stays inside the action.** -/
theorem readsCalmly_type (d : Dialect) {type : Text} (h : ValidType type) :
    ReadsCalmly d 0 0 type := by
  have hdigits : Matcher.Yields (ReadsCalmly d 1 1) (Matcher.many1 isDigit) :=
    Matcher.yields_many1 fun x hx =>
      readsCalmly_of_all d (fun c hc => Or.inl (isWordChar_of_isDigit hc)) 1 hx
  have hscale : Matcher.Yields (ReadsCalmly d 1 1)
      (Matcher.opt (Matcher.seq (char ',') (Matcher.many1 isDigit))) := by
    apply Matcher.Yields.opt
    · exact (yields_char d (by decide) rfl).seq hdigits fun x y hx hy => hx.append hy
    · exact readsCalmly_nil d 1
  have hopen : Matcher.Yields (ReadsCalmly d 0 1) (char '(') := yields_char d (by decide) rfl
  have hclose : Matcher.Yields (ReadsCalmly d 1 0) (char ')') := yields_char d (by decide) rfl
  have hsizes : Matcher.Yields (ReadsCalmly d 0 0) typeSizes := by
    refine hopen.seq ?_ fun x y hx hy => hx.append hy
    refine hdigits.seq ?_ fun x y hx hy => hx.append hy
    exact hscale.seq hclose fun x y hx hy => hx.append hy
  have hbrackets : Matcher.Yields (ReadsCalmly d 0 0) (Matcher.seq (char '[') (char ']')) :=
    (yields_char d (by decide) rfl).seq (yields_char d (by decide) rfl)
      fun x y hx hy => hx.append hy
  have htype : Matcher.Yields (ReadsCalmly d 0 0) typeRE := by
    refine (Matcher.yields_one fun c hc =>
      readsCalmly_word d (isWordChar_of_isLetter hc) 0).seq ?_ fun x y hx hy => hx.append hy
    refine (Matcher.yields_many fun x hx => readsCalmly_of_all d ?_ 0 hx).seq ?_
      fun x y hx hy => hx.append hy
    · intro c hc
      simp only [isTypePart, Bool.or_eq_true, decide_eq_true_eq] at hc
      rcases hc with hc | hc
      · exact Or.inl (by simpa [isWordChar] using hc)
      · exact Or.inr hc
    · exact (hsizes.opt (readsCalmly_nil d 0)).seq (hbrackets.opt (readsCalmly_nil d 0))
        fun x y hx hy => hx.append hy
  exact htype.of_fullMatch h

/-! ## Names -/

/-- The state behind a name. -/
def behindName (d : Dialect) (name : Text) : ReadState :=
  (.closed (nameMark d) false, .quoted (nameMark d) name)

theorem nameMark_not_mem {d : Dialect} {name : Text} (h : ValidName name) :
    nameMark d ∉ name := by
  have hall : name.all isIdentPart = true := by
    apply Matcher.Consumes.all_of_fullMatch _ h
    apply Matcher.Consumes.seq
    · apply Matcher.consumes_one
      intro c hc
      simp only [isIdentStart, isIdentPart, Bool.or_eq_true] at hc ⊢
      rcases hc with hc | hc
      · exact Or.inl (Or.inl (Or.inl hc))
      · exact Or.inl (Or.inr hc)
    · exact Matcher.consumes_many fun _ hc => hc
  intro hmem
  have hmark := List.all_eq_true.1 hall _ hmem
  cases d
  · exact absurd hmark (by decide)
  · exact absurd hmark (by decide)

theorem sqlStringLiteral_eq (value : Text) :
    sqlStringLiteral value = '\'' :: (doubled '\'' value ++ ['\'']) := rfl

theorem run_named {d : Dialect} {name : Text} (h : ValidName name) :
    d.rules.reader.Run start (named d name) [] (behindName d name) := by
  have hrun : d.rules.reader.Run start (nameMark d :: (doubled (nameMark d) name ++ [nameMark d])) []
      (behindName d name) := by
    cases d
    · exact LexRules.run_quoted rfl rfl rfl name
    · exact LexRules.run_quoted rfl rfl rfl name
  rw [doubled_eq_self (nameMark_not_mem h)] at hrun
  exact hrun

/-- **A valid name is one quoted text.** -/
theorem reads_named {d : Dialect} {name : Text} (h : ValidName name) (p : Place) :
    Reads d start p (named d name) [] (behindName d name) p :=
  ⟨[], run_named h, rfl, Scanner.Run.nil _⟩

/-- A blank behind a name. -/
theorem reads_behindName {d : Dialect} {name rest : Text} {p q o : Place} {drops : List Place.Drop}
    {t : ReadState} (hp : p.onQuoted = (q, [])) (h : Reads d start q rest drops t o) :
    Reads d (behindName d name) p (' ' :: rest) drops t o := by
  have hblank : Reads d (behindName d name) p [' '] [] start q := by
    have hplace : (places d.dropsPartitions).Run p [.quoted (nameMark d) name] [] q :=
      Scanner.Run.of_step hp
    cases d
    · exact ⟨_, ⟨rfl, rfl⟩, rfl, hplace⟩
    · exact ⟨_, ⟨rfl, rfl⟩, rfl, hplace⟩
  exact hblank.append h

theorem reads_namedTable {d : Dialect} {schema table : Text} (hs : ValidName schema)
    (ht : ValidName table) :
    Reads d start .table (namedTable d schema table) [] (behindName d table) .table := by
  have hdot : Reads d (behindName d schema) .table ['.'] [] start .table := by
    cases d
    · exact ⟨_, ⟨rfl, rfl⟩, rfl, ⟨rfl, rfl⟩⟩
    · exact ⟨_, ⟨rfl, rfl⟩, rfl, ⟨rfl, rfl⟩⟩
  exact (reads_named hs .table).append (hdot.append (reads_named ht .table))

/-! ## Whole statements -/

theorem tokens_of_reads {d : Dialect} {text : Text} {p q : Place} {drops : List Place.Drop}
    {s : ReadState} (h : Reads d start p text drops s q) (rest : Text) :
    ∃ tokens, d.rules.tokens (text ++ rest) = tokens ++ d.rules.reader.scan s rest ∧
      tokens.any SqlToken.harmful = false ∧
      ∀ more, (places d.dropsPartitions).scan p (tokens ++ more) =
        drops ++ (places d.dropsPartitions).scan q more := by
  obtain ⟨tokens, hrun, hharm, hplace⟩ := h
  exact ⟨tokens, hrun.scan rest, hharm, hplace.scan⟩

/-- A pending token is not lost. -/
theorem scan_ne_nil_of_pending {s : TokenState} (h : s.pending ≠ []) (events : List LexEvent) :
    tokenizer.scan s events ≠ [] := by
  induction events generalizing s with
  | nil => exact h
  | cons e rest ih =>
    rw [Scanner.scan_cons]
    intro hnil
    obtain ⟨hstep, hrest⟩ := List.append_eq_nil_iff.1 hnil
    refine ih ?_ hrest
    cases s with
    | idle => exact absurd rfl h
    | word text => cases e <;> simp_all [tokenizer, tokenStep, TokenState.pending]
    | quoted mark value => cases e <;> simp_all [tokenizer, tokenStep, TokenState.pending]

/-- A text that starts with a word has a token. -/
theorem tokens_ne_nil (d : Dialect) {c : Char} (hc : isWordChar c = true) (rest : Text) :
    d.rules.tokens (c :: rest) ≠ [] := by
  obtain ⟨e, henter⟩ := enter_wordChar d hc
  have hlex : d.rules.lex (c :: rest) =
      .wordStart c :: d.rules.lexer.scan (.word e) rest := by
    rw [LexRules.lex, Scanner.scan_cons, LexRules.lexer_step, LexRules.step, henter]
    rfl
  rw [LexRules.tokens_eq, hlex, Scanner.scan_cons]
  intro hnil
  have hpending : (TokenState.word [c]).pending ≠ [] := List.cons_ne_nil _ _
  exact scan_ne_nil_of_pending hpending _ (List.append_eq_nil_iff.1 hnil).2

/-- The end of a statement: nothing is held back but a word or a quoted text, in an action or in a
statement of another kind. -/
structure Ends (d : Dialect) (s : ReadState) (p : Place) : Prop where
  tokens : (d.rules.reader.scan s []).all SqlToken.staysInside = true
  place : p = .other ∨ ∃ depth, p = .inside depth

theorem Ends.scan {d : Dialect} {s : ReadState} {p : Place} (h : Ends d s p) :
    (places d.dropsPartitions).scan p (d.rules.reader.scan s []) = [] := by
  have hplace : (places d.dropsPartitions).Run p (d.rules.reader.scan s []) [] p := by
    rcases h.place with rfl | ⟨depth, rfl⟩
    · exact places_other (not_harmful_of_staysInside h.tokens)
    · exact places_inside h.tokens depth
  have hscan := hplace.scan []
  rw [List.append_nil] at hscan
  exact hscan

theorem not_mem_unclosed {tokens : List SqlToken} (h : tokens.any SqlToken.harmful = false) :
    SqlToken.unclosed ∉ tokens := by
  intro hmem
  exact absurd (List.any_eq_false.1 h _ hmem) (by decide)

/-- **A text that is read to the end of a statement is one statement and drops what was found.** -/
theorem Reads.finish {d : Dialect} {sql : Text} {drops : List Place.Drop} {s : ReadState} {p : Place}
    (h : Reads d start .statement sql drops s p) (hend : Ends d s p)
    (hword : ∃ c rest, sql = c :: rest ∧ isWordChar c = true) :
    IsOneStatement d sql ∧ (Drops d sql ↔ drops ≠ []) := by
  obtain ⟨tokens, htokens, hharm, hplace⟩ := tokens_of_reads h []
  rw [List.append_nil] at htokens
  have hnone : (d.rules.tokens sql).any SqlToken.harmful = false := by
    rw [htokens, List.any_append, hharm, not_harmful_of_staysInside hend.tokens, Bool.or_false]
  have hscan : (places d.dropsPartitions).scan .statement (d.rules.tokens sql) = drops := by
    rw [htokens, hplace, hend.scan, List.append_nil]
  obtain ⟨c, rest, hsql, hc⟩ := hword
  refine ⟨⟨?_, hnone⟩, ?_⟩
  · rw [hsql]
    exact tokens_ne_nil d hc rest
  · rw [Drops, hscan]
    exact ⟨fun hdrops => hdrops.2, fun hdrops => ⟨not_mem_unclosed hnone, hdrops⟩⟩

/-- The last token of a text that ends with a quoted text. -/
theorem getLast?_tokens {d : Dialect} {sql : Text} {drops : List Place.Drop} {p q : Place}
    {mark : Char} {escapes : Bool} {value : Text}
    (h : Reads d start p sql drops (.closed mark escapes, .quoted mark value) q) :
    (d.rules.tokens sql).getLast? = some (.quoted mark value) := by
  obtain ⟨tokens, htokens, -, -⟩ := tokens_of_reads h []
  rw [List.append_nil] at htokens
  have hflush : d.rules.reader.scan (.closed mark escapes, .quoted mark value) [] =
      [.quoted mark value] := rfl
  rw [htokens, hflush, List.getLast?_append]
  rfl

theorem ends_behindName (d : Dialect) (name : Text) {p : Place}
    (hp : p = .other ∨ ∃ depth, p = .inside depth) : Ends d (behindName d name) p := by
  constructor
  · cases d
    · rfl
    · rfl
  · exact hp

theorem ends_calm {d : Dialect} {s : ReadState} (hs : Calm s) {p : Place}
    (hp : p = .other ∨ ∃ depth, p = .inside depth) : Ends d s p := by
  constructor
  · obtain ⟨m, ts⟩ := s
    have hflush : d.rules.reader.scan (m, ts) [] = ts.pending := by
      rcases hs with hm | ⟨escapePrefix, hm⟩
      · simp only at hm
        rw [hm]
        rfl
      · simp only at hm
        rw [hm]
        rfl
    rw [hflush]
    exact pending_staysInside ts
  · exact hp

/-! ## The free text -/

/-- Behind the type of a column the free text is read to its end and drops a column, a constraint, a
key or an index. -/
def FreeDrops (d : Dialect) (c : Column) : Prop :=
  SqlToken.unclosed ∉ d.rules.tokens (freeText d c) ∧
    (places d.dropsPartitions).scan (.inside 0) (d.rules.tokens (freeText d c)) ≠ []

/-- The free text does no harm. -/
def FreeHarmless (d : Dialect) (c : Column) : Prop :=
  (d.rules.tokens (freeText d c)).any SqlToken.harmful = false

/-- The free text is empty or starts with a blank. -/
theorem freeText_cases (d : Dialect) (c : Column) :
    freeText d c = [] ∨ ∃ rest, freeText d c = ' ' :: rest := by
  cases hdefault : c.default with
  | none =>
    cases d with
    | mysql => exact Or.inr ⟨_, by simp only [freeText, hdefault]; rfl⟩
    | postgres => exact Or.inl (by simp only [freeText, hdefault]; rfl)
  | some text => exact Or.inr ⟨_, by simp only [freeText, hdefault]; rfl⟩

/-- Outside everything the free text is read as at the beginning of a text, behind the word in front
of it. -/
theorem scan_freeText {d : Dialect} {s : ReadState} (hs : Calm s) (c : Column) :
    ∃ front, d.rules.reader.scan s (freeText d c) = front ++ d.rules.tokens (freeText d c) ∧
      front.all SqlToken.staysInside = true := by
  rcases freeText_cases d c with hnil | ⟨rest, hrest⟩
  · rw [hnil]
    refine ⟨d.rules.reader.scan s [], ?_, (ends_calm hs (Or.inl rfl)).tokens⟩
    exact (List.append_nil _).symm
  · have hfront := (run_blank (d := d) hs).scan rest
    have hself := (run_blank (d := d) calm_start).scan rest
    rw [hrest]
    refine ⟨s.2.pending, ?_, pending_staysInside s.2⟩
    rw [← List.singleton_append, hfront, LexRules.tokens]
    exact congrArg (s.2.pending ++ ·) hself.symm

/-- **A statement that ends with the free text of a column does what the free text does.** -/
theorem Reads.free {d : Dialect} {head : Text} {s : ReadState} {c : Column}
    (h : Reads d start .statement head [] s (.inside 0)) (hs : Calm s)
    (hword : ∃ x rest, head = x :: rest ∧ isWordChar x = true) :
    (IsOneStatement d (head ++ freeText d c) ↔ FreeHarmless d c) ∧
      (Drops d (head ++ freeText d c) ↔ FreeDrops d c) ∧
      (d.rules.tokens (freeText d c) ≠ [] →
        (d.rules.tokens (head ++ freeText d c)).getLast? =
          (d.rules.tokens (freeText d c)).getLast?) := by
  obtain ⟨tokens, htokens, hharm, hplace⟩ := tokens_of_reads h (freeText d c)
  obtain ⟨front, hfront, hstays⟩ := scan_freeText (d := d) hs c
  rw [hfront] at htokens
  have hfrontharm := not_harmful_of_staysInside hstays
  have hscan : (places d.dropsPartitions).scan .statement (d.rules.tokens (head ++ freeText d c)) =
      (places d.dropsPartitions).scan (.inside 0) (d.rules.tokens (freeText d c)) := by
    rw [htokens, hplace, (places_inside hstays 0).scan]
    rfl
  refine ⟨?_, ?_, ?_⟩
  · obtain ⟨x, rest, rfl, hx⟩ := hword
    have hne := tokens_ne_nil d hx (rest ++ freeText d c)
    rw [IsOneStatement, FreeHarmless, htokens, List.any_append, List.any_append, hharm, hfrontharm,
      Bool.false_or, Bool.false_or]
    exact ⟨fun hone => hone.2, fun hone => ⟨by rw [← htokens]; exact hne, hone⟩⟩
  · rw [Drops, FreeDrops, hscan, htokens, List.mem_append, List.mem_append]
    have htokens' := not_mem_unclosed hharm
    have hfront' := not_mem_unclosed hfrontharm
    simp [htokens', hfront']
  · intro hne
    rw [htokens, List.getLast?_append_of_ne_nil _ (by simp [hne]),
      List.getLast?_append_of_ne_nil _ hne]

end Workbench.Schema
