import Workbench.Lib.SqlTokens

/-!
# String literals whose marks are doubled and whose backslashes are not

In MySQL such a literal reads back to its text only if each backslash of the text stands in front of a
wildcard (`slashDecode_eq_self_iff`). Otherwise the text read is another one, or an escape takes the
closing mark and the input ends inside a quote or in a comment: a lexer that is not inside a string
literal at the beginning of a text with doubled marks and one more mark behind it never gets through
without harm (`harmful_of_astray`).
-/

set_option autoImplicit false

namespace Workbench.Lib

/-! ## Backslashes that stay -/

/-- Each backslash of the text stands in front of a wildcard. The flag says that the last character
was a backslash that escapes. -/
def keepsSlashes : Bool → List Char → Bool
  | false, [] => true
  | true, [] => false
  | false, c :: rest => keepsSlashes (c = '\\') rest
  | true, c :: rest => (c = '%' || c = '_') && keepsSlashes false rest

namespace LexRules

theorem length_mysqlUnescape (c : Char) :
    (mysqlUnescape c).length ≤ 2 ∧ ((mysqlUnescape c).length = 2 → c = '%' ∨ c = '_') := by
  unfold mysqlUnescape
  split_ifs with h1 h2 h3 h4 h5 h6 h7
  · simp
  · simp
  · simp
  · simp
  · simp
  · simp
  · exact ⟨le_refl 2, fun _ => h7⟩
  · simp

theorem mysqlUnescape_wildcard {c : Char} (h : c = '%' ∨ c = '_') :
    mysqlUnescape c = ['\\', c] := by
  rcases h with rfl | rfl
  · rfl
  · rfl

/-- The text that is read is not longer, and as long only if all backslashes stay. -/
theorem length_slashDecode {slashed : Bool} {text out : List Char}
    (h : slashDecode mysqlUnescape '\'' slashed text = some out) :
    out.length ≤ text.length + slashed.toNat ∧
      (out.length = text.length + slashed.toNat → keepsSlashes slashed text = true) := by
  induction text generalizing slashed out with
  | nil =>
    cases slashed with
    | false =>
      rw [← Option.some.inj h]
      exact ⟨le_refl 0, fun _ => rfl⟩
    | true => exact absurd h (by simp [slashDecode])
  | cons c rest ih =>
    cases slashed with
    | false =>
      rw [slashDecode] at h
      rw [keepsSlashes]
      split_ifs at h with hc
      · obtain ⟨hle, hkeeps⟩ := ih h
        simp only [hc, decide_true, List.length_cons, Bool.toNat_true, Bool.toNat_false] at *
        exact ⟨by omega, fun heq => hkeeps (by omega)⟩
      · obtain ⟨more, hmore, rfl⟩ := Option.map_eq_some_iff.1 h
        obtain ⟨hle, hkeeps⟩ := ih hmore
        simp only [hc, decide_false, List.length_cons, Bool.toNat_false] at *
        exact ⟨by omega, fun heq => hkeeps (by omega)⟩
    | true =>
      rw [slashDecode] at h
      split_ifs at h with hc
      obtain ⟨more, hmore, rfl⟩ := Option.map_eq_some_iff.1 h
      obtain ⟨hle, hkeeps⟩ := ih hmore
      obtain ⟨htwo, hwild⟩ := length_mysqlUnescape c
      simp only [List.length_append, List.length_cons, Bool.toNat_true,
        Bool.toNat_false] at *
      refine ⟨by omega, fun heq => ?_⟩
      have hc' : c = '%' ∨ c = '_' := hwild (by omega)
      rw [keepsSlashes, hkeeps (by omega)]
      simpa using hc'

theorem slashDecode_of_keepsSlashes {slashed : Bool} {text : List Char}
    (h : keepsSlashes slashed text = true) :
    slashDecode mysqlUnescape '\'' slashed text =
      some (if slashed then '\\' :: text else text) := by
  induction text generalizing slashed with
  | nil =>
    cases slashed with
    | false => rfl
    | true => exact absurd h (by simp [keepsSlashes])
  | cons c rest ih =>
    cases slashed with
    | false =>
      rw [keepsSlashes] at h
      rw [slashDecode]
      by_cases hc : c = '\\'
      · subst hc
        simpa using ih h
      · simp only [hc, decide_false] at h
        rw [if_neg hc, ih h]
        rfl
    | true =>
      rw [keepsSlashes, Bool.and_eq_true] at h
      have hc : c = '%' ∨ c = '_' := by simpa using h.1
      have hmark : c ≠ '\'' := by
        rcases hc with rfl | rfl
        · decide
        · decide
      rw [slashDecode, if_neg hmark, ih h.2, mysqlUnescape_wildcard hc]
      rfl

/-- **The text is read back if and only if its backslashes all stand in front of wildcards.** -/
theorem slashDecode_eq_self_iff (text : List Char) :
    slashDecode mysqlUnescape '\'' false text = some text ↔ keepsSlashes false text = true := by
  constructor
  · intro h
    apply (length_slashDecode h).2
    simp
  · intro h
    rw [slashDecode_of_keepsSlashes h]
    rfl

/-! ## The token of a literal

The first token behind an opening mark has the text that was written exactly when the backslashes stay:
once a backslash has been read away, what is read stays behind what is written. -/

section

variable {v : List Char}

/-- Inside a literal of which `v` has been read. -/
abbrev inLiteral (v : List Char) : LexMode × TokenState := (.quoted '\'' true, .quoted '\'' v)

theorem scan_literal_part {c : Char} (hmark : c ≠ '\'') (hslash : c ≠ '\\') (text : List Char) :
    mysql.reader.scan (inLiteral v) (c :: text) = mysql.reader.scan (inLiteral (v ++ [c])) text :=
  (run_part hmark (fun _ => hslash) v).scan text

theorem scan_literal_pair (text : List Char) :
    mysql.reader.scan (inLiteral v) ('\'' :: '\'' :: text) = mysql.reader.scan (inLiteral (v ++ ['\''])) text :=
  (run_pair '\'' true v).scan text

theorem scan_literal_escape (c : Char) (text : List Char) :
    mysql.reader.scan (inLiteral v) ('\\' :: c :: text) =
      mysql.reader.scan (inLiteral (v ++ mysqlUnescape c)) text :=
  ((run_slash (by decide) v).append (run_escaped '\'' c v)).scan text

/-- An escape begins with a backslash only if it is one of a backslash or of a wildcard. -/
theorem prefix_mysqlUnescape {c : Char} {more : List Char} (h : mysqlUnescape c <+: '\\' :: more) :
    c = '\\' ∨ ((c = '%' ∨ c = '_') ∧ [c] <+: more) := by
  unfold mysqlUnescape at h
  split_ifs at h with h1 h2 h3 h4 h5 h6 h7
  iterate 6 exact absurd (List.cons_prefix_cons.1 h).1 (by decide)
  · exact Or.inr ⟨h7, (List.cons_prefix_cons.1 h).2⟩
  · exact Or.inl (List.cons_prefix_cons.1 h).1

/-- What has been read begins what is to be read next. -/
theorem prefix_of_first_literal {read target text : List Char} {tokens : List SqlToken}
    (h : mysql.reader.scan (inLiteral (v ++ read)) text = .quoted '\'' (v ++ target) :: tokens) :
    read <+: target := (List.prefix_append_right_inj v).1 (prefix_of_first_quoted h)

/-- What is read first is the first character of the token. -/
theorem head_of_first_literal {a b : Char} {read target text : List Char} {tokens : List SqlToken}
    (h : mysql.reader.scan (inLiteral (v ++ a :: read)) text = .quoted '\'' (v ++ b :: target) :: tokens) :
    a = b := (List.cons_prefix_cons.1 (prefix_of_first_literal h)).1

variable {tail : List Char}

/-- A text that is read behind is never read to its end. -/
theorem not_first_behind (htail : tail.head? ≠ some '\'') : ∀ (text : List Char) (k : Nat) (v : List Char)
    (tokens : List SqlToken),
    mysql.reader.scan (inLiteral v) (doubled '\'' text ++ '\'' :: tail) ≠
      .quoted '\'' (v ++ '\\' :: (List.replicate k '\\' ++ text)) :: tokens
  | [], k, v, tokens => by
    intro h
    have hclose : mysql.reader.scan (inLiteral v) ('\'' :: tail) =
        mysql.reader.scan (.closed '\'' true, .quoted '\'' v) tail := (run_close '\'' true v).scan tail
    have hclosed := scan_closed (R := mysql) true v htail
    rw [doubled, List.flatMap_nil, List.nil_append, hclose, hclosed] at h
    injection (List.cons.inj h).1 with _ hvalue
    simp at hvalue
  | c :: text, k, v, tokens => by
    intro h
    by_cases hmark : c = '\''
    · subst hmark
      rw [doubled_cons_mark, List.cons_append, List.cons_append, scan_literal_pair] at h
      exact absurd (head_of_first_literal h) (by decide)
    rw [doubled_cons_ne hmark, List.cons_append] at h
    by_cases hslash : c = '\\'
    · subst hslash
      cases text with
      | nil =>
        -- the backslash takes the closing mark
        rw [doubled, List.flatMap_nil, List.nil_append, scan_literal_escape] at h
        exact absurd (head_of_first_literal h) (by decide)
      | cons d rest =>
      by_cases hd : d = '\''
      · subst hd
        rw [doubled_cons_mark, List.cons_append, scan_literal_escape] at h
        exact absurd (head_of_first_literal h) (by decide)
      rw [doubled_cons_ne hd, List.cons_append, scan_literal_escape] at h
      rcases prefix_mysqlUnescape (prefix_of_first_literal h) with rfl | ⟨hwild, hprefix⟩
      · -- two backslashes were read as one
        refine not_first_behind htail rest (k + 1) (v ++ ['\\']) tokens ?_
        have htarget : v ++ '\\' :: (List.replicate k '\\' ++ '\\' :: '\\' :: rest) =
            v ++ ['\\'] ++ '\\' :: (List.replicate (k + 1) '\\' ++ rest) := by
          have hmove : List.replicate k '\\' ++ '\\' :: '\\' :: rest =
              '\\' :: (List.replicate (k + 1) '\\' ++ rest) := by
            rw [List.replicate_succ', List.append_assoc, List.singleton_append,
              ← List.cons_append, ← List.replicate_succ, List.replicate_succ', List.append_assoc,
              List.singleton_append]
          rw [hmove, List.append_assoc, List.singleton_append]
        rw [← htarget]
        exact h
      · -- behind the backslash another one is written, and a wildcard is read
        have hnext : [d] <+: '\\' :: (List.replicate k '\\' ++ d :: rest) := by
          cases k with
          | zero => exact hprefix.trans (by simp)
          | succ k =>
            rw [List.replicate_succ, List.cons_append] at hprefix
            exact absurd (List.cons_prefix_cons.1 hprefix).1 (by rcases hwild with rfl | rfl <;> decide)
        exact absurd (List.cons_prefix_cons.1 hnext).1 (by rcases hwild with rfl | rfl <;> decide)
    · rw [scan_literal_part hmark hslash] at h
      exact hslash (head_of_first_literal h)

/-- The text is the first token only if its backslashes stay. -/
theorem keepsSlashes_of_first (htail : tail.head? ≠ some '\'') : ∀ (text v : List Char) (tokens : List SqlToken),
    mysql.reader.scan (inLiteral v) (doubled '\'' text ++ '\'' :: tail) = .quoted '\'' (v ++ text) :: tokens →
      keepsSlashes false text = true
  | [], _, _ => fun _ => rfl
  | c :: text, v, tokens => by
    intro h
    have hmove (u : List Char) : v ++ c :: u = v ++ [c] ++ u := by simp
    by_cases hslash : c = '\\'
    · subst hslash
      rw [doubled_cons_ne (by decide), List.cons_append] at h
      cases text with
      | nil =>
        -- the backslash takes the closing mark
        rw [doubled, List.flatMap_nil, List.nil_append, scan_literal_escape] at h
        exact absurd (head_of_first_literal h) (by decide)
      | cons d rest =>
      by_cases hd : d = '\''
      · subst hd
        rw [doubled_cons_mark, List.cons_append, scan_literal_escape] at h
        exact absurd (head_of_first_literal h) (by decide)
      rw [doubled_cons_ne hd, List.cons_append, scan_literal_escape] at h
      rcases prefix_mysqlUnescape (prefix_of_first_literal h) with rfl | ⟨hwild, -⟩
      · -- two backslashes are read as one, and from here on the reader stays behind
        rw [hmove] at h
        exact absurd h (not_first_behind htail rest 0 (v ++ ['\\']) tokens)
      · rw [mysqlUnescape_wildcard hwild] at h
        have hrest := keepsSlashes_of_first htail rest (v ++ ['\\', d]) tokens (by simpa using h)
        simpa [keepsSlashes, hrest] using hwild
    · have hread : mysql.reader.scan (inLiteral v) (doubled '\'' (c :: text) ++ '\'' :: tail) =
          mysql.reader.scan (inLiteral (v ++ [c])) (doubled '\'' text ++ '\'' :: tail) := by
        by_cases hmark : c = '\''
        · subst hmark
          rw [doubled_cons_mark, List.cons_append, List.cons_append, scan_literal_pair]
        · rw [doubled_cons_ne hmark, List.cons_append, scan_literal_part hmark hslash]
      rw [hread, hmove text] at h
      simpa [keepsSlashes, hslash] using keepsSlashes_of_first htail text (v ++ [c]) tokens h

/-- A literal whose backslashes stay is read with its own text. -/
theorem run_literal {text : List Char} (h : keepsSlashes false text = true) (v : List Char) :
    mysql.reader.Run (inLiteral v) (doubled '\'' text ++ ['\'']) []
      (.closed '\'' true, .quoted '\'' (v ++ text)) := by
  have hbody : mysql.reader.Run (inLiteral v) (doubled '\'' text) [] (inLiteral (v ++ text)) :=
    run_slashDecode (R := mysql) (by decide) (slashDecode_of_keepsSlashes h) v
  exact hbody.append (run_close '\'' true (v ++ text))

end

/-! ## Reading on the wrong side of the mark -/

/-- The modes of MySQL outside comments. -/
def outsideComments : LexMode → Bool
  | .start => true
  | .word escapePrefix => !escapePrefix
  | .dash => true
  | .dashes => true
  | .slash => true
  | .opened => true
  | .quoted mark _ => mysql.isMark mark
  | .slashed mark => mysql.isMark mark
  | .closed mark _ => mysql.isMark mark
  | _ => false

/-- Inside a text that the mark quotes. -/
def insideMark (mark : Char) : LexMode → Bool
  | .quoted m _ => m = mark
  | .slashed m => m = mark
  | _ => false

/-- Outside comments and not inside a text that the mark quotes. -/
def Astray (mark : Char) (m : LexMode) : Prop := outsideComments m = true ∧ insideMark mark m = false

/-- Inside a quoted text. -/
def Lost (m : LexMode) : Prop := ∃ mark escapes, m = .quoted mark escapes ∧ mysql.isMark mark = true

theorem mysql_mark_cases {mark : Char} (h : mysql.isMark mark = true) :
    mark = '\'' ∨ mark = '"' ∨ mark = backquote := by
  simpa [mysql, or_assoc] using h

/-- A character read outside everything opens a comment with harm, a quoted text with its mark, or
neither. -/
theorem mysql_enter (mark c : Char) :
    (mysql.enter c).2.any LexEvent.harmful = true ∨
      (outsideComments (mysql.enter c).1 = true ∧
        (c ≠ mark → insideMark mark (mysql.enter c).1 = false)) := by
  unfold enter
  split_ifs with h1 h2 h3 h4 h5 h6 h7
  · exact Or.inr ⟨rfl, fun _ => rfl⟩
  · exact Or.inr ⟨h2, fun hc => by simpa [insideMark] using hc⟩
  · exact Or.inr ⟨rfl, fun _ => rfl⟩
  · exact Or.inr ⟨rfl, fun _ => rfl⟩
  · exact Or.inl rfl
  · exact absurd h6.1 (by decide)
  · exact Or.inr ⟨rfl, fun _ => rfl⟩
  · exact Or.inr ⟨rfl, fun _ => rfl⟩

theorem mysql_enterAfter (mark : Char) (events : List LexEvent) (c : Char) :
    (mysql.enterAfter events c).2.any LexEvent.harmful = true ∨
      (outsideComments (mysql.enterAfter events c).1 = true ∧
        (c ≠ mark → insideMark mark (mysql.enterAfter events c).1 = false)) := by
  rw [enterAfter, List.any_append, Bool.or_eq_true]
  rcases mysql_enter mark c with h | h
  · exact Or.inl (Or.inr h)
  · exact Or.inr h

/-- One step outside comments: harm, or outside comments again, and into a quoted text only with its
mark or from such a text. -/
theorem mysql_step (mark : Char) {m : LexMode} (hm : outsideComments m = true) (c : Char) :
    (mysql.step m c).2.any LexEvent.harmful = true ∨
      (outsideComments (mysql.step m c).1 = true ∧
        (c ≠ mark → insideMark mark m = false → insideMark mark (mysql.step m c).1 = false)) := by
  have henter (events : List LexEvent) :
      (mysql.enterAfter events c).2.any LexEvent.harmful = true ∨
        (outsideComments (mysql.enterAfter events c).1 = true ∧
          (c ≠ mark → insideMark mark m = false →
            insideMark mark (mysql.enterAfter events c).1 = false)) := by
    rcases mysql_enterAfter mark events c with h | ⟨h, hc⟩
    · exact Or.inl h
    · exact Or.inr ⟨h, fun hne _ => hc hne⟩
  cases m with
  | start => exact henter []
  | word escapePrefix =>
    -- MySQL has no escape prefix
    have hprefix : escapePrefix = false := by simpa [outsideComments] using hm
    subst hprefix
    simp only [step]
    split_ifs with h1 h2
    · exact Or.inr ⟨rfl, fun _ _ => rfl⟩
    · exact absurd h2.1 (by decide)
    · exact henter []
  | dash =>
    simp only [step]
    split_ifs with h1 h2
    · exact Or.inr ⟨rfl, fun _ _ => rfl⟩
    · exact absurd rfl h2
    · exact henter _
  | dashes =>
    simp only [step]
    split_ifs with h1 h2
    · exact Or.inr ⟨rfl, fun _ _ => rfl⟩
    · refine Or.inl ?_
      unfold lineStep
      split_ifs
      · rfl
      · rfl
    · exact henter _
  | slash =>
    simp only [step]
    split_ifs with h1 h2
    · exact Or.inr ⟨rfl, fun _ _ => rfl⟩
    · exact absurd rfl h2
    · exact henter _
  | opened =>
    simp only [step]
    split_ifs
    · exact Or.inl rfl
    · exact Or.inl rfl
  | line => exact absurd hm (by decide)
  | block depth last => exact absurd hm (by simp [outsideComments])
  | quoted m escapes =>
    simp only [step]
    split_ifs
    · exact Or.inr ⟨hm, fun _ _ => rfl⟩
    · exact Or.inr ⟨hm, fun _ h => h⟩
    · exact Or.inr ⟨hm, fun _ h => h⟩
  | slashed m => exact Or.inr ⟨hm, fun _ h => h⟩
  | closed m escapes =>
    simp only [step]
    split_ifs with h1
    · -- a doubled mark leads back into the text that it quotes
      refine Or.inr ⟨hm, fun hc _ => ?_⟩
      simpa [insideMark, ← h1] using hc
    · exact henter _
  | tag text => exact absurd hm (by simp [outsideComments])
  | dollar tag tail => exact absurd hm (by simp [outsideComments])

/-- A mark that is read outside its text leaves the lexer inside a quoted text. -/
theorem mysql_step_mark {mark : Char} (hmark : mysql.isMark mark = true) {m : LexMode} (h : Astray mark m) :
    (mysql.step m mark).2.any LexEvent.harmful = true ∨ Lost (mysql.step m mark).1 := by
  have henter : Lost (mysql.enter mark).1 := by
    refine ⟨mark, mysql.escapes mark, ?_, hmark⟩
    rcases mysql_mark_cases hmark with rfl | rfl | rfl <;> rfl
  have hplain : mark ≠ '\\' ∧ mark ≠ '-' ∧ mark ≠ '*' ∧ isIdentChar mark = false := by
    rcases mysql_mark_cases hmark with rfl | rfl | rfl <;> decide
  obtain ⟨hslash, hdash, hstar, hword⟩ := hplain
  cases m with
  | start => exact Or.inr henter
  | word escapePrefix =>
    have hprefix : escapePrefix = false := by simpa [outsideComments] using h.1
    subst hprefix
    rw [step, hword, if_neg Bool.false_ne_true, if_neg fun hc => Bool.false_ne_true hc.1]
    exact Or.inr henter
  | dash =>
    rw [step, if_neg hdash]
    exact Or.inr henter
  | dashes =>
    have hblank : (isBlank mark || decide (mark.toNat < 32) || decide (mark.toNat = 127)) = false := by
      rcases mysql_mark_cases hmark with rfl | rfl | rfl <;> rfl
    rw [step, if_neg hdash, hblank, if_neg Bool.false_ne_true]
    exact Or.inr henter
  | slash =>
    rw [step, if_neg hstar]
    exact Or.inr henter
  | opened =>
    rw [step]
    split_ifs
    · exact Or.inl rfl
    · exact Or.inl rfl
  | line => exact absurd h.1 (by decide)
  | block depth last => exact absurd h.1 (by simp [outsideComments])
  | quoted m escapes =>
    have hother : ¬ mark = m := by simpa [insideMark, eq_comm] using h.2
    refine Or.inr ⟨m, escapes, ?_, h.1⟩
    rw [step, if_neg hother, if_neg fun hc => hslash hc.2]
  | slashed m => exact Or.inr ⟨_, _, rfl, h.1⟩
  | closed m escapes =>
    by_cases hsame : mark = m
    · exact Or.inr ⟨m, escapes, by rw [step, if_pos hsame], h.1⟩
    · rw [step, if_neg hsame]
      exact Or.inr henter
  | tag text => exact absurd h.1 (by simp [outsideComments])
  | dollar tag tail => exact absurd h.1 (by simp [outsideComments])

/-- A mark that is read inside a quoted text leads outside its own text. -/
theorem astray_of_lost {mark : Char} (hmark : mysql.isMark mark = true) {m : LexMode} (h : Lost m) :
    Astray mark (mysql.step m mark).1 := by
  obtain ⟨m, escapes, rfl, hm⟩ := h
  have hslash : mark ≠ '\\' := by
    rcases mysql_mark_cases hmark with rfl | rfl | rfl <;> decide
  by_cases hsame : mark = m
  · rw [step, if_pos hsame]
    exact ⟨hm, rfl⟩
  · rw [step, if_neg hsame, if_neg fun hc => hslash hc.2]
    exact ⟨hm, by simpa [insideMark, eq_comm] using hsame⟩

theorem harmful_scan_cons (m : LexMode) (c : Char) (text : List Char) :
    (mysql.lexer.scan m (c :: text)).any LexEvent.harmful =
      ((mysql.step m c).2.any LexEvent.harmful ||
        (mysql.lexer.scan (mysql.step m c).1 text).any LexEvent.harmful) := by
  rw [Scanner.scan_cons, List.any_append]
  rfl

/-! What a text leaves behind: harm, or a lexer inside a quoted text. -/

def Strays (m : LexMode) (text : List Char) : Prop :=
  (mysql.lexer.emits m text).any LexEvent.harmful = true ∨ Lost (mysql.lexer.reach m text)

theorem strays_nil {m : LexMode} (h : Lost m) : Strays m [] := Or.inr h

theorem strays_cons {m : LexMode} {c : Char} {text : List Char}
    (h : (mysql.step m c).2.any LexEvent.harmful = true ∨ Strays (mysql.step m c).1 text) :
    Strays m (c :: text) := by
  rw [Strays, Scanner.emits_cons, Scanner.reach_cons, List.any_append, Bool.or_eq_true, or_assoc]
  exact h

theorem Strays.append {m : LexMode} {text more : List Char} (h : Strays m text)
    (hmore : ∀ m', Lost m' → Strays m' more) : Strays m (text ++ more) := by
  rw [Strays, Scanner.emits_append, Scanner.reach_append, List.any_append, Bool.or_eq_true, or_assoc]
  rcases h with hharm | hlost
  · exact Or.inl hharm
  · exact Or.inr (hmore _ hlost)

/-- At the end of the input it is harm in any case. -/
theorem Strays.harmful {m : LexMode} {text : List Char} (h : Strays m text) :
    (mysql.lexer.scan m text).any LexEvent.harmful = true := by
  rw [Scanner.scan, List.any_append, Bool.or_eq_true]
  rcases h with hharm | ⟨mark, escapes, hreach, -⟩
  · exact Or.inl hharm
  · right
    rw [hreach]
    rfl

/-- A character that neither closes nor escapes stays inside. -/
theorem Lost.step {m : LexMode} (h : Lost m) {c : Char} (hmark : mysql.isMark c = false) (hslash : c ≠ '\\') :
    Lost (mysql.step m c).1 := by
  obtain ⟨m, escapes, rfl, hm⟩ := h
  have hc : ¬ c = m := by
    rintro rfl
    rw [hm] at hmark
    cases hmark
  rw [LexRules.step, if_neg hc, if_neg fun hs => hslash hs.2]
  exact ⟨m, escapes, rfl, hm⟩

theorem strays_plain {m : LexMode} (h : Lost m) {text : List Char}
    (htext : ∀ c ∈ text, mysql.isMark c = false ∧ c ≠ '\\') : Strays m text := by
  induction text generalizing m with
  | nil => exact strays_nil h
  | cons c rest ih =>
    obtain ⟨hmark, hslash⟩ := htext c List.mem_cons_self
    exact strays_cons (Or.inr (ih (h.step hmark hslash) fun d hd => htext d (List.mem_cons_of_mem c hd)))

/-- **On the wrong side of the mark there is no way through a text with doubled marks and the closing
mark behind it.** -/
theorem strays_of_astray {mark : Char} (hmark : mysql.isMark mark = true) {m : LexMode} (h : Astray mark m)
    (text : List Char) : Strays m (doubled mark text ++ [mark]) := by
  induction text generalizing m with
  | nil =>
    rw [doubled, List.flatMap_nil, List.nil_append]
    exact strays_cons ((mysql_step_mark hmark h).imp_right strays_nil)
  | cons c rest ih =>
    by_cases hc : c = mark
    · subst hc
      rw [doubled_cons_mark, List.cons_append, List.cons_append]
      refine strays_cons ((mysql_step_mark hmark h).imp_right fun hlost => ?_)
      exact strays_cons (Or.inr (ih (astray_of_lost hmark hlost)))
    · rw [doubled_cons_ne hc, List.cons_append]
      refine strays_cons ((mysql_step mark h.1 c).imp_right fun hstep => ?_)
      exact ih ⟨hstep.1, hstep.2 hc h.2⟩

/-- A text in quotes that is read from inside of another one. -/
theorem strays_quoted {mark : Char} (hmark : mysql.isMark mark = true) {m : LexMode} (h : Lost m)
    (text : List Char) : Strays m (mark :: (doubled mark text ++ [mark])) :=
  strays_cons (Or.inr (strays_of_astray hmark (astray_of_lost hmark h) text))

theorem harmful_of_astray {m : LexMode} (h : Astray '\'' m) (text : List Char) :
    (mysql.lexer.scan m (doubled '\'' text ++ ['\''])).any LexEvent.harmful = true :=
  (strays_of_astray rfl h text).harmful

/-- A literal in which an escape takes a mark or the end strays. -/
theorem strays_of_slashDecode_eq_none {slashed : Bool} {text : List Char}
    (h : slashDecode mysqlUnescape '\'' slashed text = none) :
    Strays (slashMode '\'' slashed) (doubled '\'' text ++ ['\'']) := by
  induction text generalizing slashed with
  | nil =>
    cases slashed with
    | false => exact absurd h (by simp [slashDecode])
    | true => exact strays_cons (Or.inr (strays_nil ⟨_, _, rfl, rfl⟩))
  | cons c rest ih =>
    cases slashed with
    | false =>
      rw [slashDecode] at h
      split_ifs at h with hc
      · subst hc
        rw [doubled_cons_ne (by decide), List.cons_append]
        exact strays_cons (Or.inr (ih h))
      · have hrest := Option.map_eq_none_iff.1 h
        by_cases hmark : c = '\''
        · subst hmark
          rw [doubled_cons_mark, List.cons_append, List.cons_append]
          exact strays_cons (Or.inr (strays_cons (Or.inr (ih hrest))))
        · have hstep : mysql.step (slashMode '\'' false) c =
              (slashMode '\'' false, [.part '\'' true [c] [c]]) := by
            show mysql.step (.quoted '\'' true) c = _
            rw [step, if_neg hmark, if_neg fun hs => hc hs.2]
            rfl
          rw [doubled_cons_ne hmark, List.cons_append]
          refine strays_cons (Or.inr ?_)
          rw [hstep]
          exact ih hrest
    | true =>
      rw [slashDecode] at h
      split_ifs at h with hc
      · -- the escape takes the first of the two marks, and the second closes the literal
        subst hc
        rw [doubled_cons_mark, List.cons_append, List.cons_append]
        exact strays_cons (Or.inr (strays_cons (Or.inr (strays_of_astray rfl ⟨rfl, rfl⟩ rest))))
      · have hrest := Option.map_eq_none_iff.1 h
        rw [doubled_cons_ne hc, List.cons_append]
        exact strays_cons (Or.inr (ih hrest))

theorem harmful_of_slashDecode_eq_none {slashed : Bool} {text : List Char}
    (h : slashDecode mysqlUnescape '\'' slashed text = none) :
    (mysql.lexer.scan (slashMode '\'' slashed) (doubled '\'' text ++ ['\''])).any
      LexEvent.harmful = true := (strays_of_slashDecode_eq_none h).harmful

/-! ## A literal behind a free text -/

theorem mysql_reach {m : LexMode} (hm : outsideComments m = true) (text : List Char) :
    (mysql.lexer.emits m text).any LexEvent.harmful = true ∨
      outsideComments (mysql.lexer.reach m text) = true := by
  induction text generalizing m with
  | nil => exact Or.inr hm
  | cons c rest ih =>
    rw [Scanner.emits_cons, Scanner.reach_cons, List.any_append, Bool.or_eq_true, lexer_step]
    rcases mysql_step '\'' hm c with h | ⟨h, -⟩
    · exact Or.inl (Or.inl h)
    · rcases ih h with hrest | hrest
      · exact Or.inl (Or.inr hrest)
      · exact Or.inr hrest

/-- A blank ends everything but a quoted text. -/
theorem mysql_step_blank {m : LexMode} (hm : outsideComments m = true) :
    (mysql.step m ' ').2.any LexEvent.harmful = true ∨ (mysql.step m ' ').1 = .start ∨
      ∃ mark escapes, (mysql.step m ' ').1 = .quoted mark escapes ∧ mysql.isMark mark = true := by
  cases m with
  | start => exact Or.inr (Or.inl rfl)
  | word escapePrefix => exact Or.inr (Or.inl (by cases escapePrefix <;> rfl))
  | dash => exact Or.inr (Or.inl rfl)
  | dashes => exact Or.inl rfl
  | slash => exact Or.inr (Or.inl rfl)
  | opened => exact Or.inl rfl
  | line => exact absurd hm (by decide)
  | block depth last => exact absurd hm (by simp [outsideComments])
  | quoted mark escapes =>
    have hmark : ¬ ' ' = mark := by
      rintro rfl
      have hblank : mysql.isMark ' ' = true := hm
      exact absurd hblank (by decide)
    refine Or.inr (Or.inr ⟨mark, escapes, ?_, hm⟩)
    rw [step, if_neg hmark, if_neg fun hc => absurd hc.2 (by decide)]
  | slashed mark => exact Or.inr (Or.inr ⟨_, _, rfl, hm⟩)
  | closed mark escapes =>
    have hmark : ¬ ' ' = mark := by
      rintro rfl
      have hblank : mysql.isMark ' ' = true := hm
      exact absurd hblank (by decide)
    refine Or.inr (Or.inl ?_)
    rw [step, if_neg hmark]
    rfl
  | tag text => exact absurd hm (by simp [outsideComments])
  | dollar tag tail => exact absurd hm (by simp [outsideComments])

/-- A free text with a blank behind it leaves the lexer outside everything, or inside a quoted text,
or it does harm. -/
theorem mysql_reach_blank (text : List Char) :
    (mysql.lexer.emits .start (text ++ [' '])).any LexEvent.harmful = true ∨
      mysql.lexer.reach .start (text ++ [' ']) = .start ∨
      ∃ mark escapes, mysql.lexer.reach .start (text ++ [' ']) = .quoted mark escapes ∧
        mysql.isMark mark = true := by
  rw [Scanner.emits_append, Scanner.reach_append, List.any_append, Bool.or_eq_true]
  rcases mysql_reach (m := .start) rfl text with h | h
  · exact Or.inl (Or.inl h)
  · rcases mysql_step_blank h with hstep | hstep
    · left
      right
      rw [Scanner.emits_cons, Scanner.emits_nil, List.append_nil]
      exact hstep
    · exact Or.inr hstep

end LexRules

end Workbench.Lib
