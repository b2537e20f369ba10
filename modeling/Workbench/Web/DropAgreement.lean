import Workbench.Web.Readings

/-!
# The drop target in the front end and in the server

`extractDropConfirmationTarget` has to return what the server compares with. Both sides are followed
through the text from its beginning, place by place. At most places they take the same stride; they
part where a regular expression of the client cuts a text that the gate reads, or keeps one that the
gate skips. At the top level a quoted name is a token to the client only.

`drop_targets_agree_iff` says when they agree, and for which names the statements that the client
builds itself pass the gate.
-/

set_option autoImplicit false

namespace Workbench.Web

open Workbench.Lib Workbench.Query

/-! ## The two readings -/

/-- What is read next: the verb, or behind it the target. -/
inductive Sought where
  | verb
  | target
  deriving DecidableEq, Repr

/-- The target of `Classify` among the tokens behind the verb. -/
def gateSubject (tokens : List Token) : Text := ((tokens.find? isTargetToken).map Token.text).getD []

/-- The target of `extractDropConfirmationTarget`; `null` stands for the empty one. -/
def clientSubject (tokens : List SqlToken) : Text :=
  ((tokens.find? isScriptTarget).map SqlToken.text).getD []

/-- What the gate makes of the text from a place on. -/
def gateReads (s : Sought) (d : Nat) (text : Text) : Text :=
  match s with
  | .verb => gateSubject (gate.scan (betweenAt d) text).tail
  | .target => gateSubject (gate.scan (betweenAt d) text)

/-- What the client makes of what it has left. -/
def scriptReads (s : Sought) (d : Nat) (source : Text) : Text :=
  match s with
  | .verb =>
    match sqlTokens d source with
    | [] => []
    | head :: rest => if isDropWord head.text then clientSubject rest else []
  | .target => clientSubject (sqlTokens d source)

/-- What the client makes of the text. -/
def clientReads (s : Sought) (d : Nat) (text : Text) : Text := scriptReads s d (kept text)

/-! ## Strides -/

/-- Both sides pass the same part of the text: a gap, a delimiter, the verb, a keyword of the target
search, and in parentheses a word or a quoted text in which the client finds no comment. -/
inductive Stride : Sought → Nat → Text → Sought → Nat → Text → Prop where
  | gap {s : Sought} {d : Nat} {text rest : Text} (is_gap : Gap text rest) : Stride s d text s d rest
  | separator {s : Sought} {d : Nat} {c : Char} {rest : Text} (is_separator : c = ',' ∨ c = ';') :
      Stride s d (c :: rest) s d rest
  | opening {s : Sought} {d : Nat} {rest : Text} : Stride s d ('(' :: rest) s (d + 1) rest
  | closing {s : Sought} {d : Nat} {rest : Text} : Stride s d (')' :: rest) s (d - 1) rest
  | verb {d : Nat} {word rest : Text} (is_word : GateWord word rest)
      (is_verb : toUpper word ∈ dropVerbs) : Stride .verb d (word ++ rest) .target d rest
  | keyword {d : Nat} {word rest : Text} (is_word : GateWord word rest)
      (is_keyword : toUpper word ∈ targetKeywords) :
      Stride .target d (word ++ rest) .target d rest
  | nested {d : Nat} {word rest : Text} (deep : d ≠ 0) (is_word : GateWord word rest)
      (whole : Whole word rest) (no_space : ∀ c ∈ word, isScriptSpace c = false) :
      Stride .target d (word ++ rest) .target d rest
  | quoted {d : Nat} {rest : Text} (deep : d ≠ 0) (q : Quoted) (closed : rest.head? ≠ some q.mark)
      (whole : Whole q.text rest) : Stride .target d (q.text ++ rest) .target d rest

/-- The places where the sides part, with the text that the gate goes on with and what the client has
left: a `--` comment that is not cut alike, of which the client reads what lies behind the first line
break or the block comment that it cuts; a block comment that is not closed, of which either side has
the last character left; a quoted text or a word in parentheses that is not closed or that the client
cuts; and a keyword of the client with a comment glued to it, behind which the client goes on while
the gate stops at the whole word. -/
inductive Parting : Sought → Nat → Text → Text → Text → Prop where
  | line {s : Sought} {d : Nat} {text : Text} (unlike : ¬ LineCutAlike text) :
      Parting s d ('-' :: '-' :: text) (skipLine text)
        ((stripLines true (stripBlocks text)).rdropWhile isScriptSpace)
  | unclosed {s : Sought} {d : Nat} {text : Text} (not_closed : afterBlock text = none) :
      Parting s d ('/' :: '*' :: text) (skipBlock text)
        (skipBlock ((stripLines false text).rdropWhile isScriptSpace))
  | quoted {d : Nat} {c : Char} {rest : Text} (deep : d ≠ 0) (is_quote : isQuote c = true)
      (cut : ∀ (q : Quoted) (after : Text), c :: rest = q.text ++ after →
        after.head? ≠ some q.mark → ¬ Whole q.text after) :
      Parting .target d (c :: rest) (skipQuoted c rest) (c :: kept rest)
  | nested {d : Nat} {word rest : Text} (deep : d ≠ 0) (is_word : GateWord word rest)
      (cut : ¬ (Whole word rest ∧ ∀ c ∈ word, isScriptSpace c = false)) :
      Parting .target d (word ++ rest) rest (kept (word ++ rest))
  | glued {word rest keyword body after : Text} (is_word : GateWord word rest)
      (split : splitOpener word = some (keyword, body)) (closed : afterBlock (body ++ rest) = some after)
      (is_keyword : isScriptFree keyword = false) :
      Parting .target 0 (word ++ rest) (word ++ rest) (kept after)

/-- Both sides read the text alike from the place on: they take the same strides up to the end, or up
to a bare word at the top level in which the client finds neither a comment nor white space and which
is no keyword to it. A quoted text in front of the verb leaves the client without a target; so must
the gate be. Where they part, the words that they come upon next are spelled alike. -/
inductive ReadAlike : Sought → Nat → Text → Prop where
  | nil {s : Sought} {d : Nat} : ReadAlike s d []
  | stride {s s' : Sought} {d d' : Nat} {text rest : Text} (stride : Stride s d text s' d' rest)
      (behind : ReadAlike s' d' rest) : ReadAlike s d text
  | unnamed {d : Nat} {c : Char} {rest : Text} (is_quote : isQuote c = true)
      (no_target : ∀ item ∈ (gate.scan (betweenAt d) (c :: rest)).tail, isTargetToken item = false) :
      ReadAlike .verb d (c :: rest)
  | subject {word rest : Text} (is_word : GateWord word rest) (whole : Whole word rest)
      (no_space : ∀ c ∈ word, isScriptSpace c = false) (free : isScriptFree word = true) :
      ReadAlike .target 0 (word ++ rest)
  | parted {s : Sought} {d : Nat} {text behind left : Text} (parting : Parting s d text behind left)
      (same : gateReads s d behind = scriptReads s d left) : ReadAlike s d text

/-! ### Quoted texts -/

/-- The client reads the quoted text to its closing mark. -/
theorem readQuoted_units {mark : Char} (hm : isQuote mark = true) (units : List (QuoteUnit mark))
    {tail : Text} (h : tail.head? ≠ some mark) :
    (readQuoted mark (units.flatMap QuoteUnit.render ++ mark :: tail)).2 = tail := by
  induction units with
  | nil =>
    cases tail with
    | nil => rfl
    | cons e tail =>
      have he : ¬ e = mark := fun heq => h (by rw [heq]; rfl)
      rw [List.flatMap_nil, List.nil_append, readQuoted, if_pos rfl, if_neg he]
  | cons u units ih =>
    rw [List.flatMap_cons, List.append_assoc]
    generalize units.flatMap QuoteUnit.render ++ mark :: tail = more at ih
    cases u with
    | plain c hmark hslash =>
      cases more with
      | nil => exact ih
      | cons e more =>
        show (readQuoted mark (c :: e :: more)).2 = tail
        rw [readQuoted, if_neg hmark, if_neg hslash]
        exact ih
    | doubled =>
      show (readQuoted mark (mark :: mark :: more)).2 = tail
      rw [readQuoted, if_pos rfl, if_pos rfl]
      exact ih
    | escaped c =>
      show (readQuoted mark ('\\' :: c :: more)).2 = tail
      rw [readQuoted, if_neg (backslash_ne_mark hm), if_pos rfl]
      exact ih

/-- Without a comment in it the quoted text is one token of the client. -/
theorem sqlTokens_quotedText (q : Quoted) {rest : Text} (hclosed : rest.head? ≠ some q.mark)
    (hwhole : Whole q.text rest) (d : Nat) :
    ∃ text, sqlTokens d (kept (q.text ++ rest)) = ⟨text, d⟩ :: sqlTokens d (kept rest) := by
  have hlast : q.text.getLast? = some q.mark := by
    rw [Quoted.text, ← List.cons_append, List.getLast?_concat]
  have hmark := plain_of_quote q.is_mark
  have hkept : kept (q.text ++ rest) = q.text ++ kept rest := by
    apply kept_append hwhole
    · intro hslash
      rw [hlast, Option.some_inj] at hslash
      exact absurd hslash hmark.1
    · intro hdash
      rw [hlast, Option.some_inj] at hdash
      exact absurd hdash hmark.2.1
    · intro c hc
      rw [hlast, Option.some_inj] at hc
      rw [← hc]
      exact hmark.2.2.1
  have happ : q.text ++ kept rest = q.mark :: (q.body ++ q.mark :: kept rest) := by
    simp [Quoted.text]
  have hhead : (kept rest).head? ≠ some q.mark := by
    intro hhead
    rcases head?_kept hhead with hspace | hhead
    · rw [hspace] at hmark
      exact absurd hmark.2.2.1 (by decide)
    · exact hclosed hhead
  refine ⟨q.mark :: (readQuoted q.mark (q.body ++ q.mark :: kept rest)).1, ?_⟩
  rw [hkept, happ, sqlTokens_quoted d q.is_mark, Quoted.body,
    readQuoted_units q.is_mark q.units hhead]

/-! ## One stride -/

theorem Stride.length_lt {s s' : Sought} {d d' : Nat} {text rest : Text}
    (h : Stride s d text s' d' rest) : rest.length < text.length := by
  cases h with
  | gap hgap => exact hgap.length_lt
  | separator _ => exact Nat.lt_succ_self _
  | opening => exact Nat.lt_succ_self _
  | closing => exact Nat.lt_succ_self _
  | verb his _ => exact his.length_lt
  | keyword his _ => exact his.length_lt
  | nested _ his _ _ => exact his.length_lt
  | quoted _ q _ _ =>
    rw [List.length_append]
    have hpos : 0 < q.text.length := Nat.succ_pos _
    omega

/-- Neither side stops in parentheses or at a keyword. -/
theorem gateSubject_passed {item : Token} (h : isTargetToken item = false) (tokens : List Token) :
    gateSubject (item :: tokens) = gateSubject tokens := by
  rw [gateSubject, List.find?_cons_of_neg (by rw [h]; exact Bool.false_ne_true)]
  rfl

theorem clientSubject_passed {item : SqlToken} (h : isScriptTarget item = false)
    (tokens : List SqlToken) : clientSubject (item :: tokens) = clientSubject tokens := by
  rw [clientSubject, List.find?_cons_of_neg (by rw [h]; exact Bool.false_ne_true)]
  rfl

theorem not_target_of_deep {d : Nat} (hd : d ≠ 0) (word : Text) :
    isTargetToken ⟨word, d⟩ = false ∧ isScriptTarget ⟨word, d⟩ = false := by
  simp [isTargetToken, isScriptTarget, hd]

theorem not_scriptTarget {word : Text} (h : isScriptFree word = false) (d : Nat) :
    isScriptTarget ⟨word, d⟩ = false := Bool.and_eq_false_iff.2 (Or.inr h)

theorem not_target_of_keyword {word : Text} (h : toUpper word ∈ targetKeywords) (d : Nat) :
    isTargetToken ⟨word, d⟩ = false ∧ isScriptTarget ⟨word, d⟩ = false := by
  have hscript : scriptUpper word ∈ targetKeywords := by
    rwa [scriptUpper_eq_toUpper (keyword_ascii h)]
  simp [isTargetToken, isScriptTarget, h, hscript]

theorem isDropWord_of_verb {word : Text} (h : toUpper word ∈ dropVerbs) : isDropWord word = true := by
  rw [isDropWord, (verb_upper h).2]
  exact List.contains_iff_mem.2 h

/-- **A stride leaves both readings as they are.** -/
theorem Stride.reads {s s' : Sought} {d d' : Nat} {text rest : Text}
    (h : Stride s d text s' d' rest) :
    gateReads s d text = gateReads s' d' rest ∧ clientReads s d text = clientReads s' d' rest := by
  -- where the sides have the same tokens the readings are the same in both states
  have hsame : ∀ {s : Sought} {d d' : Nat} {text rest : Text},
      gate.scan (betweenAt d) text = gate.scan (betweenAt d') rest →
      sqlTokens d (kept text) = sqlTokens d' (kept rest) →
      gateReads s d text = gateReads s d' rest ∧ clientReads s d text = clientReads s d' rest := by
    intro s d d' text rest hgate hclient
    cases s <;> simp only [gateReads, clientReads, scriptReads, hgate, hclient, and_self]
  cases h with
  | gap hgap => exact hsame (hgap.scan d) (hgap.sqlTokens d)
  | separator hc =>
    refine hsame (scan_separator d hc _) ?_
    rw [kept_separator hc, sqlTokens_separator d hc]
  | opening =>
    refine hsame (scan_opening d _) ?_
    rw [kept_opening, sqlTokens_opening]
  | closing =>
    refine hsame (scan_closing d _) ?_
    rw [kept_closing, sqlTokens_closing]
  | verb his hverb =>
    obtain ⟨hwhole, hspace⟩ := @plain_of_upper _ rest (verb_upper hverb).1
    refine ⟨?_, ?_⟩
    · simp only [gateReads, his.scan, List.tail_cons]
    · simp only [clientReads, scriptReads, his.kept hwhole hspace, isDropWord_of_verb hverb, if_true]
  | keyword his hkey =>
    obtain ⟨hwhole, hspace⟩ := @plain_of_upper _ rest (keyword_upper hkey)
    refine ⟨?_, ?_⟩
    · simp only [gateReads, his.scan, gateSubject_passed (not_target_of_keyword hkey _).1]
    · simp only [clientReads, scriptReads, his.kept hwhole hspace, clientSubject_passed (not_target_of_keyword hkey _).2]
  | nested hd his hwhole hspace =>
    refine ⟨?_, ?_⟩
    · simp only [gateReads, his.scan, gateSubject_passed (not_target_of_deep hd _).1]
    · simp only [clientReads, scriptReads, his.kept hwhole hspace, clientSubject_passed (not_target_of_deep hd _).2]
  | quoted hd q hclosed hwhole =>
    obtain ⟨word, htokens⟩ := sqlTokens_quotedText q hclosed hwhole d
    refine ⟨?_, ?_⟩
    · simp only [gateReads, (run_quoted q d).scan, List.nil_append]
    · simp only [clientReads, scriptReads, htokens, clientSubject_passed (not_target_of_deep hd _).2]

/-! ## Partings -/

theorem sqlTokens_block (d : Nat) (text : Text) :
    sqlTokens d ('/' :: '*' :: text) = sqlTokens d (skipBlock text) := by
  have hlen : (skipBlock text).length ≤ text.length + 1 :=
    (length_skipBlock_le text).trans (Nat.le_succ _)
  rw [← tokenizeSqlFrom_eq_sqlTokens d hlen, sqlTokens, List.length_cons, List.length_cons]
  rfl

/-- Of a `--` comment the client has a blank and what its second regular expression leaves. -/
theorem stripComments_dashes (text : Text) :
    stripComments ('-' :: '-' :: text) = ' ' :: stripLines true (stripBlocks text) := by
  rw [stripComments, stripBlocks_single (by decide), stripBlocks_single (by decide), stripLines,
    if_neg Bool.false_ne_true, if_pos ⟨rfl, rfl⟩, stripLines, if_pos rfl, if_neg (by decide)]

/-- A comment that is not closed stays up to the end, without the lines cut out of it. -/
theorem kept_unclosed {text : Text} (h : afterBlock text = none) :
    kept ('/' :: '*' :: text) = '/' :: '*' :: (stripLines false text).rdropWhile isScriptSpace := by
  rw [kept, stripComments, stripBlocks_unclosed ((afterBlock_eq_none_iff text).1 h),
    stripLines_single (by decide), stripLines_single (by decide)]
  have hlast : ∀ c, "/*".toList.getLast? = some c → isScriptSpace c = false := by
    intro c hc
    obtain rfl : '*' = c := by simpa using hc
    rfl
  exact rdropWhile_append_of_last hlast

theorem sqlTokens_front {word rest front body more : Text} (his : GateWord word rest)
    (hsplit : splitOpener word = some (front, body)) (hspace : ∀ c ∈ front, isScriptSpace c = false)
    (hline : ¬ "--".toList <:+: front) (hmore : StopsWord more) :
    sqlTokens 0 (front ++ more) = ⟨front, 0⟩ :: sqlTokens 0 more := by
  obtain ⟨hne, -, -, hchars⟩ := his.front hsplit
  exact sqlTokens_word 0 hne (script_of_word hchars hspace) (fun hin => hline hin.isInfix)
    (fun hin => (splitOpener_some hsplit).2 hin.isInfix) (stopsScript_of_stopsWord hmore)

/-- Behind a keyword the client takes up the text behind the comment. -/
theorem sqlTokens_glued {word rest keyword body after : Text} (his : GateWord word rest)
    (hsplit : splitOpener word = some (keyword, body)) (hclosed : afterBlock (body ++ rest) = some after)
    (hkey : isScriptFree keyword = false) :
    sqlTokens 0 (kept (word ++ rest)) = ⟨keyword, 0⟩ :: sqlTokens 0 (kept after) := by
  have hplain := plain_of_not_scriptFree hkey
  have hspace : ∀ c ∈ keyword, isScriptSpace c = false := fun c hc => (hplain c hc).1
  have hline : ¬ "--".toList <:+: keyword := fun hin =>
    (hplain '-' (hin.subset (by decide))).2 rfl
  obtain ⟨more, hmore, hbehind, hcut⟩ := kept_glued hspace hline hsplit hclosed
  rw [hcut, sqlTokens_front his hsplit hspace hline hmore, ← sqlTokens_dropWhile 0 more, hbehind,
    sqlTokens_dropWhile]

/-- **Where they part each side goes on with its own text.** -/
theorem Parting.reads {s : Sought} {d : Nat} {text behind left : Text}
    (h : Parting s d text behind left) :
    gateReads s d text = gateReads s d behind ∧ clientReads s d text = scriptReads s d left := by
  have hgate : ∀ {s : Sought} {text behind : Text},
      gate.scan (betweenAt d) text = gate.scan (betweenAt d) behind →
      gateReads s d text = gateReads s d behind := by
    intro s text behind heq
    cases s <;> simp only [gateReads, heq]
  have hclient : ∀ {s : Sought} {source left : Text}, sqlTokens d source = sqlTokens d left →
      scriptReads s d source = scriptReads s d left := by
    intro s source left heq
    cases s <;> simp only [scriptReads, heq]
  cases h with
  | line _ =>
    refine ⟨hgate (scan_line d _), hclient ?_⟩
    rw [kept, stripComments_dashes, ← sqlTokens_dropWhile, dropWhile_rdropWhile_space rfl,
      sqlTokens_dropWhile]
  | unclosed hnone =>
    refine ⟨hgate (scan_block_none d _), hclient ?_⟩
    rw [kept_unclosed hnone, sqlTokens_block]
  | quoted hd hc _ =>
    refine ⟨hgate (scan_quote d hc _), hclient ?_⟩
    rw [kept_quote hc]
  | nested hd his _ =>
    refine ⟨?_, rfl⟩
    simp only [gateReads, his.scan, gateSubject_passed (not_target_of_deep hd _).1]
  | glued his hsplit hclosed hkey =>
    refine ⟨rfl, ?_⟩
    rw [clientReads, scriptReads, scriptReads, sqlTokens_glued his hsplit hclosed hkey,
      clientSubject_passed (not_scriptTarget hkey _)]

/-! ## Where the sides stop -/

theorem gateSubject_free {word : Text} (h : isFree word = true) (tokens : List Token) :
    gateSubject (⟨word, 0⟩ :: tokens) = word := by
  have htarget : isTargetToken ⟨word, 0⟩ = true := by
    rw [isTargetToken, Bool.and_eq_true]
    exact ⟨rfl, h⟩
  rw [gateSubject, List.find?_cons_of_pos htarget]
  rfl

theorem clientSubject_free {word : Text} (h : isScriptFree word = true) (tokens : List SqlToken) :
    clientSubject (⟨word, 0⟩ :: tokens) = word := by
  have htarget : isScriptTarget ⟨word, 0⟩ = true := by
    rw [isScriptTarget, Bool.and_eq_true]
    exact ⟨rfl, h⟩
  rw [clientSubject, List.find?_cons_of_pos htarget]
  rfl

/-- The target of the gate is made of the characters of words. -/
theorem word_of_gateSubject {d : Nat} {text : Text} {tokens : List Token}
    (h : tokens <:+ gate.scan (betweenAt d) text) : (gateSubject tokens).all isWordChar = true := by
  rw [gateSubject]
  cases hfind : tokens.find? isTargetToken with
  | none => rfl
  | some item => exact (word_of_mem_scan d text item (h.subset (List.mem_of_find?_eq_some hfind))).2

theorem gateSubject_eq_nil_iff {d : Nat} {text : Text} {tokens : List Token}
    (h : tokens <:+ gate.scan (betweenAt d) text) :
    gateSubject tokens = [] ↔ ∀ item ∈ tokens, isTargetToken item = false := by
  rw [gateSubject]
  cases hfind : tokens.find? isTargetToken with
  | none =>
    rw [List.find?_eq_none] at hfind
    exact iff_of_true rfl fun item hitem => Bool.eq_false_iff.2 (hfind item hitem)
  | some item =>
    have hmem := List.mem_of_find?_eq_some hfind
    refine iff_of_false (word_of_mem_scan d text item (h.subset hmem)).1 fun hall => ?_
    have htarget := List.find?_some hfind
    rw [hall item hmem] at htarget
    exact Bool.false_ne_true htarget

/-- A target of the client begins with a quote mark, or it is a word of what the client has and no
keyword. -/
theorem clientSubject_shape {d : Nat} {source : Text} (h : clientSubject (sqlTokens d source) ≠ []) :
    (∃ q, isQuote q = true ∧ (clientSubject (sqlTokens d source)).head? = some q) ∨
      ((clientSubject (sqlTokens d source)).all isScriptWordChar = true ∧
        clientSubject (sqlTokens d source) <:+: source ∧
        isScriptFree (clientSubject (sqlTokens d source)) = true) := by
  rw [clientSubject] at h ⊢
  cases hfind : (sqlTokens d source).find? isScriptTarget with
  | none =>
    rw [hfind] at h
    exact absurd rfl h
  | some item =>
    have htarget := List.find?_some hfind
    simp only [isScriptTarget, Bool.and_eq_true] at htarget
    rcases isScriptToken_of_mem _ d source item (List.mem_of_find?_eq_some hfind) with hq | hw
    · exact Or.inl hq
    · exact Or.inr ⟨hw.2.1, hw.2.2, htarget.2⟩

/-- At the top level the client stops at a quoted text, which the gate never does. -/
theorem quoted_differs {c : Char} (hc : isQuote c = true) (rest : Text) :
    gateReads .target 0 (c :: rest) ≠ clientReads .target 0 (c :: rest) := by
  have hfree : isScriptFree (c :: (readQuoted c (kept rest)).1) = true := by
    have hupper : scriptUpperChar c = [c] ∧ ∀ k ∈ targetKeywords, k.head? ≠ some c := by
      rcases (isQuote_iff c).1 hc with rfl | rfl | rfl <;> decide
    refine isScriptFree_iff.2 fun hmem => hupper.2 _ hmem ?_
    rw [scriptUpper, List.flatMap_cons, hupper.1]
    rfl
  intro hsame
  have hwords : (gateReads .target 0 (c :: rest)).all isWordChar = true :=
    word_of_gateSubject (List.suffix_refl _)
  rw [hsame, clientReads, scriptReads, kept_quote hc, sqlTokens_quoted 0 hc, clientSubject_free hfree,
    List.all_cons, (plain_of_quote hc).2.2.2] at hwords
  exact Bool.false_ne_true hwords

/-- In front of the verb a quoted text is the first token of the client. -/
theorem clientReads_quote {c : Char} (hc : isQuote c = true) (d : Nat) (rest : Text) :
    clientReads .verb d (c :: rest) = [] := by
  have hnot : isDropWord (c :: (readQuoted c (kept rest)).1) = false := by
    have hupper : asciiUpper c = c ∧ ∀ k ∈ dropVerbs, k.head? ≠ some c := by
      rcases (isQuote_iff c).1 hc with rfl | rfl | rfl <;> decide
    rw [isDropWord, Bool.eq_false_iff, Ne, List.contains_iff_mem]
    intro hmem
    apply hupper.2 _ hmem
    rw [List.map_cons, hupper.1]
    rfl
  simp only [clientReads, scriptReads, kept_quote hc, sqlTokens_quoted d hc, hnot, Bool.false_eq_true, if_false]

theorem readAlike_of_parting {s : Sought} {d : Nat} {text behind left : Text}
    (h : Parting s d text behind left) (hsame : gateReads s d text = clientReads s d text) :
    ReadAlike s d text := by
  refine ReadAlike.parted h ?_
  rw [← h.reads.1, ← h.reads.2, hsame]

/-- **At a free word of the top level.** The sides agree only if the client reads the word as it
stands, or if it passes over a keyword that has a comment glued to it. -/
theorem readAlike_of_free {word rest : Text} (his : GateWord word rest) (hfree : isFree word = true)
    (hsame : gateReads .target 0 (word ++ rest) = clientReads .target 0 (word ++ rest)) :
    ReadAlike .target 0 (word ++ rest) := by
  have hclient : clientSubject (sqlTokens 0 (kept (word ++ rest))) = word := by
    rw [gateReads, his.scan, gateSubject_free hfree] at hsame
    exact hsame.symm
  have hshape := @clientSubject_shape 0 (kept (word ++ rest))
    (by rw [hclient]; exact his.ne_nil)
  rw [hclient] at hshape
  rcases hshape with ⟨q, hq, hhead⟩ | ⟨hscript, hin, hkey⟩
  · have hqw := List.all_eq_true.1 his.chars q (List.mem_of_mem_head? hhead)
    rw [(plain_of_quote hq).2.2.2] at hqw
    exact absurd hqw Bool.false_ne_true
  have hspace : ∀ c ∈ word, isScriptSpace c = false := by
    intro c hc
    have hchar := List.all_eq_true.1 hscript c hc
    simp only [isScriptWordChar, Bool.and_eq_true, Bool.not_eq_true'] at hchar
    exact hchar.1
  have hline : ¬ "--".toList <:+: word := fun hcon => no_dashes_kept _ (hcon.trans hin)
  rcases whole_or_cut rest hline with hwhole | ⟨front, body, after, hsplit, hafter⟩
  · exact ReadAlike.subject his hwhole hspace hkey
  · refine readAlike_of_parting (Parting.glued his hsplit hafter ?_) hsame
    rw [Bool.eq_false_iff]
    intro hfront
    -- the client would stop in front of the comment
    obtain ⟨-, hpre, hlen, -⟩ := his.front hsplit
    have hspace' : ∀ c ∈ front, isScriptSpace c = false := fun c hc => hspace c (hpre.subset hc)
    have hline' : ¬ "--".toList <:+: front := fun hcon => hline (hcon.trans hpre.isInfix)
    obtain ⟨more, hmore, -, hcut⟩ := kept_glued hspace' hline' hsplit hafter
    rw [hcut, sqlTokens_front his hsplit hspace' hline' hmore, clientSubject_free hfront] at hclient
    rw [hclient] at hlen
    exact Nat.lt_irrefl _ hlen

/-! ## Agreement -/

/-- Strides in front of the verb do not lose it. -/
theorem Stride.firstIn {d d' : Nat} {text rest : Text} (h : Stride .verb d text .verb d' rest) :
    gate.scan (betweenAt d) text = gate.scan (betweenAt d') rest := by
  cases h with
  | gap hgap => exact hgap.scan d
  | separator hc => exact scan_separator d hc _
  | opening => exact scan_opening d _
  | closing => exact scan_closing _ _

theorem same_of_readAlike {s : Sought} {d : Nat} {text : Text} (h : ReadAlike s d text) :
    gateReads s d text = clientReads s d text := by
  induction h with
  | @nil s d => cases s <;> rfl
  | stride hstride _ ih => rw [hstride.reads.1, hstride.reads.2, ih]
  | unnamed hc hnone =>
    rw [clientReads_quote hc, gateReads]
    exact (gateSubject_eq_nil_iff (List.tail_suffix _)).2 hnone
  | subject his hwhole hspace hfree =>
    rw [gateReads, clientReads, scriptReads, his.scan, his.kept hwhole hspace,
      gateSubject_free (isFree_of_scriptFree hfree), clientSubject_free hfree]
  | parted hparting hsame => rw [hparting.reads.1, hparting.reads.2, hsame]

/-- The readings are the same only if the text is read alike. The induction is on the length of the
text, and every place is looked at. -/
theorem readAlike_of_same (n : Nat) : ∀ (s : Sought) (d : Nat) (text : Text), text.length ≤ n →
    (s = .verb → firstIn dropVerbs (gate.scan (betweenAt d) text) = true) →
    gateReads s d text = clientReads s d text → ReadAlike s d text := by
  induction n with
  | zero =>
    intro s d text hn _ _
    obtain rfl : text = [] := List.length_eq_zero_iff.1 (Nat.le_zero.1 hn)
    exact ReadAlike.nil
  | succ n ih =>
    intro s d text hn hverb hsame
    -- a stride leads to a shorter text
    have hstride : ∀ {s' : Sought} {d' : Nat} {rest : Text}, Stride s d text s' d' rest →
        (s' = .verb → s = .verb) → ReadAlike s d text := by
      intro s' d' rest hstride hback
      have hlen := hstride.length_lt
      refine ReadAlike.stride hstride (ih s' d' rest (by omega) ?_ ?_)
      · rintro rfl
        obtain rfl := hback rfl
        rw [← hstride.firstIn]
        exact hverb rfl
      · rw [← hstride.reads.1, ← hstride.reads.2, hsame]
    cases head_of text with
    | nil => exact ReadAlike.nil
    | blank rest hc => exact hstride (Stride.gap (Gap.blank hc)) id
    | line rest =>
      by_cases halike : LineCutAlike rest
      · exact hstride (Stride.gap (Gap.line halike)) id
      · exact readAlike_of_parting (Parting.line halike) hsame
    | block rest =>
      cases hafter : afterBlock rest with
      | some after => exact hstride (Stride.gap (Gap.block hafter)) id
      | none => exact readAlike_of_parting (Parting.unclosed hafter) hsame
    | opening rest => exact hstride Stride.opening id
    | closing rest => exact hstride Stride.closing id
    | separator rest hc => exact hstride (Stride.separator hc) id
    | @quote c rest hc =>
      cases s with
      | verb =>
        rw [clientReads_quote hc, gateReads] at hsame
        exact ReadAlike.unnamed hc ((gateSubject_eq_nil_iff (List.tail_suffix _)).1 hsame)
      | target =>
        by_cases hd : d = 0
        · subst hd
          exact absurd hsame (quoted_differs hc rest)
        by_cases hcut : ∀ (q : Quoted) (after : Text), c :: rest = q.text ++ after →
            after.head? ≠ some q.mark → ¬ Whole q.text after
        · exact readAlike_of_parting (Parting.quoted hd hc hcut) hsame
        · push Not at hcut
          obtain ⟨q, after, heq, hclosed, hwhole⟩ := hcut
          rw [heq] at hstride ⊢
          exact hstride (Stride.quoted hd q hclosed hwhole) id
    | @word word rest his =>
      cases s with
      | verb =>
        have hfirst := hverb rfl
        rw [his.scan] at hfirst
        have hmem : toUpper word ∈ dropVerbs := List.contains_iff_mem.1 hfirst
        exact hstride (Stride.verb his hmem) fun h => absurd h (by decide)
      | target =>
        by_cases hkey : toUpper word ∈ targetKeywords
        · exact hstride (Stride.keyword his hkey) id
        by_cases hd : d = 0
        · subst hd
          exact readAlike_of_free his (isFree_iff.2 hkey) hsame
        by_cases hwhole : Whole word rest ∧ ∀ c ∈ word, isScriptSpace c = false
        · exact hstride (Stride.nested hd his hwhole.1 hwhole.2) id
        · exact readAlike_of_parting (Parting.nested hd his hwhole) hsame

theorem classify_target_eq {sql : Text} (h : firstIn dropVerbs (tokenize sql) = true) :
    (classify sql).target = gateReads .verb 0 sql := by
  rw [classify, gateReads, ← tokenize_eq_scan]
  cases htokens : tokenize sql with
  | nil =>
    rw [htokens] at h
    exact absurd h (by simp [firstIn])
  | cons head rest =>
    rw [htokens] at h
    exact classifyTokens_target h

theorem extract_eq (sql : Text) :
    (extractDropConfirmationTarget sql).getD [] = clientReads .verb 0 sql := by
  rw [extractDropConfirmationTarget, tokenizeSql_eq, normalize_eq, sqlTokens_dropWhile, clientReads,
    scriptReads]
  cases sqlTokens 0 (kept sql) with
  | nil => rfl
  | cons head rest =>
    simp only
    split_ifs <;> rfl

/-- **The sides agree on a drop exactly when they read it alike.** -/
theorem agree_iff {sql : Text} (h : firstIn dropVerbs (tokenize sql) = true) :
    (extractDropConfirmationTarget sql).getD [] = (classify sql).target ↔ ReadAlike .verb 0 sql := by
  rw [classify_target_eq h, extract_eq, eq_comm]
  constructor
  · intro hsame
    refine readAlike_of_same sql.length .verb 0 sql (Nat.le_refl _) (fun _ => ?_) hsame
    rwa [← tokenize_eq_scan]
  · exact same_of_readAlike

/-! ## The statements the client builds -/

/-- A character of an unquoted reference. -/
def isRefChar (c : Char) : Bool := isIdentPart c || c = '.'

theorem refChar_ne {c : Char} (h : isRefChar c = true) :
    isWordChar c = true ∧ c ≠ '-' ∧ c ≠ '/' ∧ isScriptSpace c = false ∧ c.toNat < 128 := by
  have hnat : c.toNat = 46 ∨ c.toNat = 95 ∨ 48 ≤ c.toNat ∧ c.toNat ≤ 57 ∨
      65 ≤ c.toNat ∧ c.toNat ≤ 90 ∨ 97 ≤ c.toNat ∧ c.toNat ≤ 122 := by
    simp only [isRefChar, isIdentPart, isLetter, isLower, isUpper, isDigit, Bool.or_eq_true,
      Bool.and_eq_true, decide_eq_true_eq, char_le_iff] at h
    rcases h with (((h | h) | h) | rfl) | rfl
    · exact Or.inr (Or.inr (Or.inr (Or.inr h)))
    · exact Or.inr (Or.inr (Or.inr (Or.inl h)))
    · exact Or.inr (Or.inr (Or.inl h))
    · exact Or.inr (Or.inl rfl)
    · exact Or.inl rfl
  have hof : c = Char.ofNat c.toNat := (Char.ofNat_toNat c).symm
  have hall : ∀ n, n < 128 → (n = 46 ∨ n = 95 ∨ 48 ≤ n ∧ n ≤ 57 ∨ 65 ≤ n ∧ n ≤ 90 ∨
      97 ≤ n ∧ n ≤ 122) → isWordChar (Char.ofNat n) = true ∧ Char.ofNat n ≠ '-' ∧
        Char.ofNat n ≠ '/' ∧ isScriptSpace (Char.ofNat n) = false := by
    decide
  have hlow : c.toNat < 128 := by omega
  obtain ⟨h1, h2, h3, h4⟩ := hall c.toNat hlow hnat
  rw [← hof] at h1 h2 h3 h4
  exact ⟨h1, h2, h3, h4, hlow⟩

theorem not_mem_infix {w pair : Text} {c : Char} (hc : c ∈ pair) (hw : c ∉ w) : ¬ pair <:+: w :=
  fun hin => hw (hin.subset hc)

/-- An unquoted reference. -/
structure RefText where
  text : Text
  ne_nil : text ≠ []
  chars : text.all isRefChar = true

namespace RefText

variable (r : RefText)

theorem spec : ∀ c ∈ r.text, isWordChar c = true ∧ c ≠ '-' ∧ c ≠ '/' ∧ isScriptSpace c = false ∧
    c.toNat < 128 :=
  fun c hc => refChar_ne (List.all_eq_true.1 r.chars c hc)

theorem no_dash : '-' ∉ r.text := fun h => (r.spec '-' h).2.1 rfl

theorem no_slash : '/' ∉ r.text := fun h => (r.spec '/' h).2.2.1 rfl

theorem gateWord {tail : Text} (htail : StopsWord tail) : GateWord r.text tail where
  ne_nil := r.ne_nil
  chars := List.all_eq_true.2 fun c hc => (r.spec c hc).1
  no_line h := not_mem_infix (by decide) r.no_dash h.isInfix
  no_block h := not_mem_infix (by decide) r.no_slash h.isInfix
  stops := htail

theorem whole (tail : Text) : Whole r.text tail where
  no_line := not_mem_infix (by decide) r.no_dash
  no_block := by
    intro before after hsplit
    obtain ⟨hw, -⟩ := splitOpener_some hsplit
    exact absurd (by rw [hw]; simp) r.no_slash

theorem isScriptFree_eq : isScriptFree r.text = isFree r.text := by
  have hascii : ∀ c ∈ toUpper r.text, c.toNat < 128 := by
    intro c hc
    obtain ⟨x, hx, rfl⟩ := List.mem_map.1 hc
    have hall : ∀ n, n < 128 → (runeToUpper (Char.ofNat n)).toNat < 128 := by decide
    have hlow := hall x.toNat (r.spec x hx).2.2.2.2
    rwa [Char.ofNat_toNat] at hlow
  rw [isScriptFree, isFree, scriptUpper_eq_toUpper hascii]

end RefText

theorem gateWord_of_run (w : WordRun) {tail : Text} (h : StopsWord tail) : GateWord w.text tail :=
  ⟨w.ne_nil, w.chars, fun hin => w.no_line hin.isInfix, fun hin => w.no_block hin.isInfix, h⟩

def dropWord : WordRun := WordRun.of "DROP".toList isWordRun_drop

def tableWord : WordRun := WordRun.of "TABLE".toList isWordRun_table

def databaseWord : WordRun := WordRun.of "DATABASE".toList (by decide)

theorem stopsWord_semicolon : StopsWord [';'] := by
  intro c hc
  obtain rfl : ';' = c := by simpa using hc
  decide

/-- `DROP`, a kind of object, and what follows. -/
def dropOf (kind : WordRun) (more : Text) : Text := "DROP ".toList ++ (kind.text ++ ' ' :: more)

section Builders

variable (kind : WordRun) (hkind : toUpper kind.text ∈ targetKeywords)
include hkind

/-- Both sides come to the text behind the kind of object. -/
theorem reads_dropOf (more : Text) :
    gateReads .verb 0 (dropOf kind more) = gateReads .target 0 more ∧
      clientReads .verb 0 (dropOf kind more) = clientReads .target 0 more := by
  have hspace : ∀ rest : Text, Gap (' ' :: rest) rest := fun rest => Gap.blank rfl
  have hverb : Stride .verb 0 (dropOf kind more) .target 0 (' ' :: (kind.text ++ ' ' :: more)) :=
    Stride.verb (gateWord_of_run dropWord (stopsWord_space _)) (by decide)
  have hword : Stride .target 0 (kind.text ++ ' ' :: more) .target 0 (' ' :: more) :=
    Stride.keyword (gateWord_of_run kind (stopsWord_space _)) hkind
  have h1 := hverb.reads
  have h2 := (Stride.gap (s := .target) (d := 0) (hspace (kind.text ++ ' ' :: more))).reads
  have h3 := hword.reads
  have h4 := (Stride.gap (s := .target) (d := 0) (hspace more)).reads
  exact ⟨h1.1.trans (h2.1.trans (h3.1.trans h4.1)), h1.2.trans (h2.2.trans (h3.2.trans h4.2))⟩

/-- The request passes when the client has a target and the gate has the same. -/
theorem passes_dropOf_iff (more : Text) :
    (adminRequest (dropOf kind more)).passes ↔
      clientReads .target 0 more ≠ [] ∧ gateReads .target 0 more = clientReads .target 0 more := by
  have hfirst : firstIn dropVerbs (tokenize (dropOf kind more)) = true := by
    have hword := (gateWord_of_run dropWord (stopsWord_space (kind.text ++ ' ' :: more))).scan 0
    rw [tokenize_eq_scan]
    change firstIn dropVerbs (gate.scan (betweenAt 0) (dropWord.text ++ ' ' :: (kind.text ++
      ' ' :: more))) = true
    rw [hword]
    exact (by decide : dropVerbs.contains (toUpper "DROP".toList) = true)
  have hlevel : (classify (adminRequest (dropOf kind more)).sql).level = .typeTarget :=
    (level_typeTarget_iff _).2 hfirst
  rw [passes_iff_of_typeTarget hlevel]
  change decide ((extractDropConfirmationTarget (dropOf kind more)).getD [] ≠ []) = true ∧
    (extractDropConfirmationTarget (dropOf kind more)).getD [] =
      (classify (dropOf kind more)).target ↔ _
  rw [decide_eq_true_eq, classify_target_eq hfirst, extract_eq, (reads_dropOf kind hkind more).1,
    (reads_dropOf kind hkind more).2, eq_comm (a := clientReads .target 0 more)]

/-- An unquoted name that is no keyword passes. -/
theorem drop_ref_passes (r : RefText) (hfree : isFree r.text = true) {tail : Text}
    (htail : StopsWord tail) : (adminRequest (dropOf kind (r.text ++ tail))).passes := by
  have his := r.gateWord htail
  have hspace : ∀ c ∈ r.text, isScriptSpace c = false := fun c hc => (r.spec c hc).2.2.2.1
  have hscript : isScriptFree r.text = true := by rwa [r.isScriptFree_eq]
  have hclient : clientReads .target 0 (r.text ++ tail) = r.text := by
    rw [clientReads, scriptReads, his.kept (r.whole tail) hspace, clientSubject_free hscript]
  rw [passes_dropOf_iff kind hkind, hclient]
  refine ⟨r.ne_nil, ?_⟩
  rw [gateReads, his.scan, gateSubject_free hfree]

/-- A name that the target search takes for a keyword does not pass: the client has no target and
does not confirm. -/
theorem drop_keyword_not_passes (r : RefText) (hkey : isFree r.text = false) :
    ¬ (adminRequest (dropOf kind (r.text ++ [';']))).passes := by
  rw [isFree, Bool.not_eq_false', List.contains_iff_mem] at hkey
  have hword : Stride .target 0 (r.text ++ [';']) .target 0 [';'] :=
    Stride.keyword (r.gateWord stopsWord_semicolon) hkey
  rw [passes_dropOf_iff kind hkind, hword.reads.2]
  exact fun h => h.1 rfl

/-- A quoted name does not pass. -/
theorem drop_quoted_not_passes {mark : Char} (hm : isQuote mark = true) (tail : Text) :
    ¬ (adminRequest (dropOf kind (mark :: tail))).passes := by
  rw [passes_dropOf_iff kind hkind]
  exact fun h => quoted_differs hm tail h.2

end Builders

/-- A valid identifier needs no quotes. -/
def refOfIdent (name : Text) (h : isValidSqlIdent name = true) : RefText where
  text := name
  ne_nil := by
    rintro rfl
    exact absurd h Bool.false_ne_true
  chars := by
    cases name with
    | nil => rfl
    | cons c rest =>
      rw [isValidSqlIdent, Bool.and_eq_true] at h
      rw [List.all_cons, Bool.and_eq_true, List.all_eq_true]
      refine ⟨?_, fun x hx => ?_⟩
      · have hstart := h.1
        simp only [isIdentStart, Bool.or_eq_true] at hstart
        simp only [isRefChar, isIdentPart, Bool.or_eq_true]
        tauto
      · have hpart := List.all_eq_true.1 h.2 x hx
        rw [isRefChar, hpart]
        rfl

/-- A schema and a dot, and possibly a name. -/
def refOfSchema (schema name : Text) (h : isValidSqlIdent schema = true)
    (hname : name = [] ∨ isValidSqlIdent name = true) : RefText where
  text := schema ++ '.' :: name
  ne_nil := by simp
  chars := by
    have hchars : name.all isRefChar = true := by
      rcases hname with rfl | hname
      · rfl
      · exact (refOfIdent name hname).chars
    rw [List.all_append, List.all_cons, hchars, Bool.and_true]
    exact Bool.and_eq_true_iff.2 ⟨(refOfIdent schema h).chars, by decide⟩

/-- A qualified name is no keyword. -/
theorem isFree_of_dot {text : Text} (h : '.' ∈ text) : isFree text = true := by
  have hall : ∀ k ∈ targetKeywords, '.' ∉ k := by decide
  exact isFree_iff.2 fun hmem => hall _ hmem (List.mem_map.2 ⟨'.', h, by decide⟩)

theorem isQuote_nameMark (driver : Dialect) : isQuote (nameMark driver) = true := by
  cases driver <;> decide

/-- One name behind a kind of object. -/
theorem drop_name_passes_iff (kind : WordRun) (hkind : toUpper kind.text ∈ targetKeywords)
    (driver : Dialect) (name : Text) :
    (adminRequest (dropOf kind (identRef driver name ++ [';']))).passes ↔
      isValidSqlIdent name = true ∧ isFree name = true := by
  by_cases hvalid : isValidSqlIdent name = true
  · rw [identRef, if_pos hvalid]
    by_cases hfree : isFree name = true
    · exact iff_of_true (drop_ref_passes kind hkind (refOfIdent name hvalid) hfree
        stopsWord_semicolon) ⟨hvalid, hfree⟩
    · refine iff_of_false ?_ fun h => hfree h.2
      exact drop_keyword_not_passes kind hkind (refOfIdent name hvalid) (Bool.eq_false_iff.2 hfree)
  · rw [identRef, if_neg hvalid]
    refine iff_of_false ?_ fun h => hvalid h.1
    rw [quoteIdent]
    exact drop_quoted_not_passes kind hkind (isQuote_nameMark driver) _

theorem stopsWord_quoteIdent (driver : Dialect) (name tail : Text) :
    StopsWord (quoteIdent driver name ++ tail) := by
  intro c hc
  obtain rfl : nameMark driver = c := by simpa [quoteIdent] using hc
  cases driver <;> decide

/-- A table of a PostgreSQL schema: with a valid schema name the sides agree on the part of the
reference in front of the first quoted name. -/
theorem drop_table_postgres_passes_iff (schema name : Text) :
    (adminRequest (buildDropTableSQL .postgres schema name)).passes ↔
      isValidSqlIdent schema = true := by
  have htext : buildDropTableSQL .postgres schema name = dropOf tableWord
      (identRef .postgres schema ++ ('.' :: (identRef .postgres name ++ [';']))) := rfl
  rw [htext]
  constructor
  · intro hpasses
    by_contra hschema
    rw [identRef, if_neg hschema] at hpasses
    exact drop_quoted_not_passes tableWord (by decide) (isQuote_nameMark .postgres) _ hpasses
  · intro hschema
    have hsplit : ∃ (r : RefText) (tail : Text), isFree r.text = true ∧ StopsWord tail ∧
        identRef .postgres schema ++ ('.' :: (identRef .postgres name ++ [';'])) =
          r.text ++ tail := by
      rw [identRef, if_pos hschema, identRef]
      split_ifs with hname
      · exact ⟨refOfSchema schema name hschema (Or.inr hname), [';'],
          isFree_of_dot (by simp [refOfSchema]), stopsWord_semicolon, by simp [refOfSchema]⟩
      · exact ⟨refOfSchema schema [] hschema (Or.inl rfl), quoteIdent .postgres name ++ [';'],
          isFree_of_dot (by simp [refOfSchema]), stopsWord_quoteIdent _ _ _, by simp [refOfSchema]⟩
    obtain ⟨r, tail, hfree, htail, heq⟩ := hsplit
    rw [heq]
    exact drop_ref_passes tableWord (by decide) r hfree htail

end Workbench.Web
