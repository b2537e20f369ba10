import Workbench.Schema.TokenJson

/-!
# JSON texts

Values as `JSON.stringify` and the encoder of Go write them, with or without an indent, and a reader of such texts,
which first takes a text apart into tokens. `read_write` says that it reads what was written.
-/

set_option autoImplicit false

namespace Workbench.Web

open Workbench.Schema

/-- A number is kept by its literal. -/
inductive Json where
  | null
  | bool (value : Bool)
  | number (literal : Text)
  | string (text : Text)
  | array (elements : List Json)
  | object (fields : List (Text × Json))

/-! ## Tokens -/

/-- A word is a number, `null`, `true` or `false`. -/
inductive JsonToken where
  | mark (c : Char)
  | string (text : Text)
  | word (text : Text)
  deriving DecidableEq, Repr

def isJsonMark (c : Char) : Bool := c = '[' || c = ']' || c = '\x7b' || c = '\x7d' || c = ',' || c = ':'

def isJsonSpace (c : Char) : Bool := c = ' ' || c = '\t' || c = '\n' || c = '\r'

/-- What a character may not be in a word. -/
def endsWord (c : Char) : Bool := isJsonSpace c || isJsonMark c || c = '"'

/-- Where a scanner stands: between tokens, or in a word or a string of which it has read some. -/
inductive JsonMode where
  | between
  | word (read : Text)
  | string (read : Text) (escape : Escape)

def lexJson : JsonMode → Text → Option (List JsonToken)
  | .between, [] => some []
  | .word w, [] => some [.word w]
  | .string _ _, [] => none
  | .between, c :: rest =>
    if isJsonSpace c then lexJson .between rest
    else if isJsonMark c then (lexJson .between rest).map (.mark c :: ·)
    else if c = '"' then lexJson (.string [] .none) rest
    else lexJson (.word [c]) rest
  | .word w, c :: rest =>
    if isJsonSpace c then (lexJson .between rest).map (.word w :: ·)
    else if isJsonMark c then (lexJson .between rest).map fun ts => .word w :: .mark c :: ts
    else if c = '"' then none
    else lexJson (.word (w ++ [c])) rest
  | .string s .none, c :: rest =>
    if c = '"' then (lexJson .between rest).map (.string s :: ·)
    else if c = '\\' then lexJson (.string s .slash) rest
    else if c.toNat < 32 then none
    else lexJson (.string (s ++ [c]) .none) rest
  | .string s .slash, c :: rest =>
    if c = 'u' then lexJson (.string s (.number 0 0)) rest
    else if c = '/' then lexJson (.string (s ++ ['/']) .none) rest
    else match shortUnescape c with
      | none => none
      | some x => lexJson (.string (s ++ [x]) .none) rest
  | .string s (.number digits value), c :: rest =>
    match hexValue c with
    | none => none
    | some v =>
      if digits = 3 then lexJson (.string (s ++ [Char.ofNat (value * 16 + v)]) .none) rest
      else lexJson (.string s (.number (digits + 1) (value * 16 + v))) rest

/-! ## Strings -/

section

attribute [local simp] lexJson

/-- The characters that are written by their number, besides those that have a short escape. -/
structure JsonEscapes where
  numbered : Char → Bool
  small : ∀ c, numbered c = true → c.toNat < 65536
  control : ∀ c : Char, c.toNat < 32 → numbered c = true

namespace JsonEscapes

def escape (q : JsonEscapes) (c : Char) : Text :=
  match shortEscape c with
  | some e => ['\\', e]
  | none => if q.numbered c then '\\' :: 'u' :: hexText c.toNat else [c]

def quote (q : JsonEscapes) (text : Text) : Text := '"' :: (text.flatMap q.escape ++ ['"'])

/-- `JSON.stringify`. -/
def browser : JsonEscapes where
  numbered c := decide (c.toNat < 32)
  small c h := by
    have hlt : c.toNat < 32 := of_decide_eq_true h
    omega
  control c h := decide_eq_true h

/-- `encoding/json`. -/
def server : JsonEscapes where
  numbered := isNumbered
  small _ h := isNumbered_lt h
  control c h := by simp [isNumbered, h]

/-- The four digits of a number are read. -/
theorem lexJson_hexText (s : Text) {n : Nat} (h : n < 65536) (rest : Text) :
    lexJson (.string s (.number 0 0)) (hexText n ++ rest) = lexJson (.string (s ++ [Char.ofNat n]) .none) rest := by
  have hmod (k : Nat) : k % 16 < 16 := Nat.mod_lt k (by decide)
  have hvalue : (((0 * 16 + n / 4096 % 16) * 16 + n / 256 % 16) * 16 + n / 16 % 16) * 16 + n % 16 = n := by omega
  simp only [hexText, List.cons_append, List.nil_append, lexJson, hexValue_hexDigit (hmod _)]
  simp only [hvalue, Nat.reduceEqDiff, Nat.reduceAdd, if_false, if_true, OfNat.zero_ne_ofNat]

theorem shortUnescape_slash : shortUnescape '/' = none := by decide

theorem lexJson_escape (q : JsonEscapes) (s : Text) (c : Char) (rest : Text) :
    lexJson (.string s .none) (q.escape c ++ rest) = lexJson (.string (s ++ [c]) .none) rest := by
  rw [escape]
  cases hshort : shortEscape c with
  | some e =>
    obtain ⟨hback, hu⟩ := shortUnescape_shortEscape hshort
    have hslash : e ≠ '/' := by
      rintro rfl
      rw [shortUnescape_slash] at hback
      cases hback
    simp only [List.cons_append, List.nil_append]
    rw [lexJson, if_neg (by decide), if_pos rfl, lexJson, if_neg hu, if_neg hslash, hback]
  | none =>
    have hmark : c ≠ '"' := by
      rintro rfl
      exact absurd hshort (by decide)
    have hslash : c ≠ '\\' := by
      rintro rfl
      exact absurd hshort (by decide)
    dsimp only
    split_ifs with hnumbered
    · rw [List.cons_append, List.cons_append, lexJson, if_neg (by decide), if_pos rfl, lexJson, if_pos rfl,
        lexJson_hexText s (q.small c hnumbered), Char.ofNat_toNat]
    · have hplain : ¬ c.toNat < 32 := fun hlt => hnumbered (q.control c hlt)
      rw [List.singleton_append, lexJson, if_neg hmark, if_neg hslash, if_neg hplain]

theorem lexJson_flatMap (q : JsonEscapes) (text s rest : Text) :
    lexJson (.string s .none) (text.flatMap q.escape ++ '"' :: rest) =
      (lexJson .between rest).map (.string (s ++ text) :: ·) := by
  induction text generalizing s with
  | nil => rw [List.flatMap_nil, List.nil_append, List.append_nil, lexJson, if_pos rfl]
  | cons c text ih =>
    rw [List.flatMap_cons, List.append_assoc, lexJson_escape, ih, List.append_assoc]
    rfl

/-- A quoted text is one token. -/
theorem lexJson_quote (q : JsonEscapes) (text rest : Text) :
    lexJson .between (q.quote text ++ rest) = (lexJson .between rest).map (.string text :: ·) := by
  have hsplit : q.quote text ++ rest = '"' :: (text.flatMap q.escape ++ '"' :: rest) := by simp [quote]
  rw [hsplit, lexJson, if_neg (by decide), if_neg (by decide), if_pos rfl, lexJson_flatMap, List.nil_append]

end JsonEscapes

/-! ## Marks, spaces and words -/

theorem lexJson_mark {c : Char} (h : isJsonMark c = true) (rest : Text) :
    lexJson .between (c :: rest) = (lexJson .between rest).map (.mark c :: ·) := by
  have hspace : isJsonSpace c = false := by
    simp only [isJsonMark, Bool.or_eq_true, decide_eq_true_eq] at h
    rcases h with ((((rfl | rfl) | rfl) | rfl) | rfl) | rfl <;> decide
  rw [lexJson, hspace, if_neg Bool.false_ne_true, if_pos h]

theorem lexJson_spaces {spaces : Text} (h : ∀ c ∈ spaces, isJsonSpace c = true) (rest : Text) :
    lexJson .between (spaces ++ rest) = lexJson .between rest := by
  induction spaces with
  | nil => rfl
  | cons c spaces ih =>
    rw [List.forall_mem_cons] at h
    rw [List.cons_append, lexJson, if_pos h.1, ih h.2]

/-- A text in front of which a word ends. -/
def Delimited (rest : Text) : Prop := ∀ c, rest.head? = some c → (isJsonSpace c || isJsonMark c) = true

theorem delimited_cons {c : Char} (h : (isJsonSpace c || isJsonMark c) = true) (rest : Text) :
    Delimited (c :: rest) := by
  rintro d ⟨⟩
  exact h

theorem lexJson_word_end (w : Text) {rest : Text} (h : Delimited rest) :
    lexJson (.word w) rest = (lexJson .between rest).map (.word w :: ·) := by
  cases rest with
  | nil => rfl
  | cons c rest =>
    rcases Bool.or_eq_true_iff.1 (h c rfl) with hspace | hmark
    · rw [lexJson, if_pos hspace, lexJson, if_pos hspace]
    · have hspace : ¬ isJsonSpace c = true := by
        simp only [isJsonMark, Bool.or_eq_true, decide_eq_true_eq] at hmark
        rcases hmark with ((((rfl | rfl) | rfl) | rfl) | rfl) | rfl <;> decide
      rw [lexJson_mark hmark, lexJson, if_neg hspace, if_pos hmark, Option.map_map]
      rfl

/-- A word that is written out is checked by running through it. -/
theorem plain_of_all {w : Text} (h : (w.all fun c => !endsWord c) = true) : ∀ c ∈ w, endsWord c = false := by
  simpa using h

theorem lexJson_word {w : Text} (h : ∀ c ∈ w, endsWord c = false) (hne : w ≠ []) {rest : Text}
    (hrest : Delimited rest) : lexJson .between (w ++ rest) = (lexJson .between rest).map (.word w :: ·) := by
  have hinside : ∀ (more read : Text), (∀ c ∈ more, endsWord c = false) →
      lexJson (.word read) (more ++ rest) = (lexJson .between rest).map (.word (read ++ more) :: ·) := by
    intro more
    induction more with
    | nil =>
      intro read _
      rw [List.nil_append, List.append_nil]
      exact lexJson_word_end read hrest
    | cons c more ih =>
      intro read hall
      rw [List.forall_mem_cons] at hall
      obtain ⟨hc, hmore⟩ := hall
      simp only [endsWord, Bool.or_eq_false_iff, decide_eq_false_iff_not] at hc
      obtain ⟨⟨hspace, hmark⟩, hquote⟩ := hc
      rw [List.cons_append, lexJson, hspace, if_neg Bool.false_ne_true, hmark, if_neg Bool.false_ne_true,
        if_neg hquote, ih (read ++ [c]) hmore, List.append_assoc]
      rfl
  cases w with
  | nil => exact absurd rfl hne
  | cons c more =>
    rw [List.forall_mem_cons] at h
    obtain ⟨hc, hmore⟩ := h
    simp only [endsWord, Bool.or_eq_false_iff, decide_eq_false_iff_not] at hc
    obtain ⟨⟨hspace, hmark⟩, hquote⟩ := hc
    rw [List.cons_append, lexJson, hspace, if_neg Bool.false_ne_true, hmark, if_neg Bool.false_ne_true,
      if_neg hquote, hinside more [c] hmore]
    rfl

end

/-! ## Values -/

def isNumberChar (c : Char) : Bool := c.isDigit || c = '-' || c = '+' || c = '.' || c = 'e' || c = 'E'

/-- At least one digit, and behind the digits what `next` takes. -/
def digitsThen (next : Text → Bool) (w : Text) : Bool :=
  (w.takeWhile Char.isDigit) ≠ [] && next (w.dropWhile Char.isDigit)

def isExponent : Text → Bool
  | [] => true
  | c :: rest =>
    (c = 'e' || c = 'E') &&
      digitsThen List.isEmpty (if rest.head? = some '+' ∨ rest.head? = some '-' then rest.tail else rest)

def isFraction : Text → Bool
  | '.' :: rest => digitsThen isExponent rest
  | w => isExponent w

/-- The numbers of JSON, without a sign before and a zero in front of more digits. -/
def isMagnitude : Text → Bool
  | '0' :: rest => isFraction rest
  | w => digitsThen isFraction w

def isJsonNumber (w : Text) : Bool :=
  w.all isNumberChar && isMagnitude (if w.head? = some '-' then w.tail else w)

/-- A positive number does not begin with a zero. -/
theorem head_jsonNat {n : Nat} (h : 0 < n) : (jsonNat n).head? ≠ some '0' := by
  induction n using Nat.strong_induction_on with
  | _ n ih =>
    rw [jsonNat, Nat.toDigits_eq_if (by decide)]
    split
    · next hsmall =>
        have hall : ∀ k : Fin 10, 0 < k.val → Nat.digitChar k ≠ '0' := by decide
        exact fun heq => hall ⟨n, hsmall⟩ h (Option.some.inj heq)
    · next hlarge =>
        have hquotient : 0 < n / 10 := by omega
        rw [List.head?_append_of_ne_nil _ Nat.toDigits_ne_nil]
        exact ih (n / 10) (by omega) hquotient

theorem isMagnitude_jsonNat (n : Nat) : isMagnitude (jsonNat n) = true := by
  by_cases hzero : n = 0
  · subst hzero
    rfl
  · have hdigits : ∀ c ∈ jsonNat n, c.isDigit = true := fun c hc =>
      Nat.isDigit_of_mem_toDigits (by decide) (by decide) hc
    have hhead := head_jsonNat (Nat.pos_of_ne_zero hzero)
    obtain ⟨c, rest, hcons⟩ := List.exists_cons_of_ne_nil (Nat.toDigits_ne_nil (n := n) (b := 10))
    rw [jsonNat] at hdigits hhead ⊢
    rw [hcons] at hdigits hhead ⊢
    have hdrop : (c :: rest).dropWhile Char.isDigit = [] := List.dropWhile_eq_nil_iff.2 hdigits
    have htake : (c :: rest).takeWhile Char.isDigit = c :: rest := List.takeWhile_eq_self_iff.2 hdigits
    rw [isMagnitude]
    · rw [digitsThen, htake, hdrop]
      rfl
    · rintro more ⟨⟩
      exact hhead rfl

/-- The integers of Go are numbers of JSON. -/
theorem isJsonNumber_jsonInt (n : Int) : isJsonNumber (jsonInt n) = true := by
  have hchars : ∀ k : Nat, (jsonNat k).all isNumberChar = true := by
    intro k
    rw [List.all_eq_true]
    intro c hc
    have hdigit : c.isDigit = true := Nat.isDigit_of_mem_toDigits (by decide) (by decide) hc
    simp [isNumberChar, hdigit]
  have hmagnitude := isMagnitude_jsonNat n.natAbs
  rw [jsonInt]
  split
  · rw [isJsonNumber, List.all_cons, hchars, List.head?_cons, if_pos rfl, List.tail_cons, hmagnitude]
    rfl
  · have hsign : (jsonNat n.natAbs).head? ≠ some '-' := by
      intro heq
      obtain ⟨rest, hcons⟩ := List.head?_eq_some_iff.1 heq
      have hdigit : '-'.isDigit = true := by
        apply Nat.isDigit_of_mem_toDigits (b := 10) (n := n.natAbs) (by decide) (by decide)
        rw [← jsonNat, hcons]
        exact List.mem_cons_self
      exact absurd hdigit (by decide)
    rw [isJsonNumber, hchars, if_neg hsign, hmagnitude]
    rfl

/-- The value of a word. -/
def wordValue (w : Text) : Option Json :=
  if w = "null".toList then some .null
  else if w = "true".toList then some (.bool true)
  else if w = "false".toList then some (.bool false)
  else if isJsonNumber w then some (.number w)
  else none

mutual

/-- A value in front of other tokens, with as much fuel as there are tokens. -/
def readValue : Nat → List JsonToken → Option (Json × List JsonToken)
  | _ + 1, .string text :: rest => some (.string text, rest)
  | _ + 1, .word w :: rest => (wordValue w).map fun v => (v, rest)
  | n + 1, .mark c :: rest =>
    if c = '[' then
      if rest.head? = some (.mark ']') then some (.array [], rest.tail)
      else (readElements n rest).map fun r => (.array r.1, r.2)
    else if c = '\x7b' then
      if rest.head? = some (.mark '\x7d') then some (.object [], rest.tail)
      else (readFields n rest).map fun r => (.object r.1, r.2)
    else none
  | _, _ => none

def readElements : Nat → List JsonToken → Option (List Json × List JsonToken)
  | 0, _ => none
  | n + 1, tokens =>
    (readValue n tokens).bind fun r =>
      match r.2 with
      | .mark c :: rest =>
        if c = ',' then (readElements n rest).map fun more => (r.1 :: more.1, more.2)
        else if c = ']' then some ([r.1], rest)
        else none
      | _ => none

def readFields : Nat → List JsonToken → Option (List (Text × Json) × List JsonToken)
  | n + 1, .string key :: .mark c :: tokens =>
    if c = ':' then
      (readValue n tokens).bind fun r =>
        match r.2 with
        | .mark c :: rest =>
          if c = ',' then (readFields n rest).map fun more => ((key, r.1) :: more.1, more.2)
          else if c = '\x7d' then some ([(key, r.1)], rest)
          else none
        | _ => none
    else none
  | _, _ => none

end

def readTokens (tokens : List JsonToken) : Option Json :=
  match readValue tokens.length tokens with
  | some (v, []) => some v
  | _ => none

/-- `JSON.parse`, as far as the writers below need it. -/
def readJson (text : Text) : Option Json := (lexJson .between text).bind readTokens

mutual

/-- The tokens of a value. -/
def Json.tokens : Json → List JsonToken
  | .null => [.word "null".toList]
  | .bool true => [.word "true".toList]
  | .bool false => [.word "false".toList]
  | .number literal => [.word literal]
  | .string text => [.string text]
  | .array [] => [.mark '[', .mark ']']
  | .array (v :: rest) => .mark '[' :: (v.tokens ++ tokensOfElements rest)
  | .object [] => [.mark '\x7b', .mark '\x7d']
  | .object ((key, v) :: rest) =>
    .mark '\x7b' :: .string key :: .mark ':' :: (v.tokens ++ tokensOfFields rest)

def tokensOfElements : List Json → List JsonToken
  | [] => [.mark ']']
  | v :: rest => .mark ',' :: (v.tokens ++ tokensOfElements rest)

def tokensOfFields : List (Text × Json) → List JsonToken
  | [] => [.mark '\x7d']
  | (key, v) :: rest => .mark ',' :: .string key :: .mark ':' :: (v.tokens ++ tokensOfFields rest)

end

mutual

/-- The literals of the numbers are numbers. -/
def Json.Valid : Json → Prop
  | .number literal => isJsonNumber literal = true
  | .array elements => ValidElements elements
  | .object fields => ValidFields fields
  | .null | .bool _ | .string _ => True

def ValidElements : List Json → Prop
  | [] => True
  | v :: rest => v.Valid ∧ ValidElements rest

def ValidFields : List (Text × Json) → Prop
  | [] => True
  | (_, v) :: rest => v.Valid ∧ ValidFields rest

end

theorem wordValue_number {literal : Text} (h : isJsonNumber literal = true) :
    wordValue literal = some (.number literal) := by
  have hother : ∀ w : Text, isJsonNumber w = false → literal ≠ w := by
    rintro w hw rfl
    rw [h] at hw
    cases hw
  rw [wordValue, if_neg (hother _ (by decide)), if_neg (hother _ (by decide)), if_neg (hother _ (by decide)),
    if_pos h]

/-- No value begins with a closing mark. -/
theorem head_tokens (v : Json) : ∃ t rest, v.tokens = t :: rest ∧ t ≠ .mark ']' ∧ t ≠ .mark '\x7d' := by
  cases v with
  | null => exact ⟨_, _, rfl, by simp, by simp⟩
  | bool b => cases b <;> exact ⟨_, _, rfl, by simp, by simp⟩
  | number literal => exact ⟨_, _, rfl, by simp, by simp⟩
  | string text => exact ⟨_, _, rfl, by simp, by simp⟩
  | array elements => cases elements <;> exact ⟨_, _, rfl, by simp, by simp⟩
  | object fields =>
    cases fields with
    | nil => exact ⟨_, _, rfl, by simp, by simp⟩
    | cons field rest => exact ⟨_, _, rfl, by simp, by simp⟩

theorem tokens_pos (v : Json) : 0 < v.tokens.length := by
  obtain ⟨t, rest, h, -, -⟩ := head_tokens v
  rw [h]
  exact Nat.succ_pos _

theorem head_append_ne {v : Json} {c : JsonToken} (hc : c = .mark ']' ∨ c = .mark '\x7d') (more : List JsonToken) :
    (v.tokens ++ more).head? ≠ some c := by
  obtain ⟨t, rest, h, hbracket, hbrace⟩ := head_tokens v
  rw [h]
  intro heq
  obtain rfl : t = c := Option.some.inj heq
  rcases hc with rfl | rfl
  · exact hbracket rfl
  · exact hbrace rfl

mutual

/-- The reader finds the value of its tokens, whatever is behind them. -/
theorem readValue_tokens (v : Json) (hv : v.Valid) (n : Nat) (hn : v.tokens.length ≤ n) (rest : List JsonToken) :
    readValue n (v.tokens ++ rest) = some (v, rest) := by
  obtain ⟨m, rfl⟩ : ∃ m, n = m + 1 := Nat.exists_eq_succ_of_ne_zero (by have := tokens_pos v; omega)
  match v with
  | .null => rfl
  | .bool true => rfl
  | .bool false => rfl
  | .number literal =>
    show (wordValue literal).map _ = _
    rw [wordValue_number hv]
    rfl
  | .string text => rfl
  | .array [] => rfl
  | .array (v :: vs) =>
    have hlen : (v.tokens ++ tokensOfElements vs).length ≤ m := by
      have hn' : (v.tokens ++ tokensOfElements vs).length + 1 ≤ m + 1 := hn
      omega
    have hread := readElements_tokens v vs hv.1 hv.2 m hlen rest
    have hopen : readValue (m + 1) (.mark '[' :: (v.tokens ++ tokensOfElements vs ++ rest)) =
        (readElements m (v.tokens ++ tokensOfElements vs ++ rest)).map fun r => (.array r.1, r.2) := by
      rw [readValue, if_pos rfl, if_neg]
      rw [List.append_assoc]
      exact head_append_ne (Or.inl rfl) _
    show readValue (m + 1) (.mark '[' :: (v.tokens ++ tokensOfElements vs ++ rest)) = _
    rw [hopen, hread]
    rfl
  | .object [] => rfl
  | .object ((key, v) :: fs) =>
    have hlen : (v.tokens ++ tokensOfFields fs).length + 2 ≤ m := by
      have hn' : (v.tokens ++ tokensOfFields fs).length + 3 ≤ m + 1 := hn
      omega
    have hread := readFields_tokens key v fs hv.1 hv.2 m hlen rest
    show readValue (m + 1) (.mark '\x7b' :: .string key :: .mark ':' :: (v.tokens ++ tokensOfFields fs ++ rest)) = _
    rw [readValue, if_neg (by decide), if_pos rfl, if_neg (by simp), hread]
    rfl
  termination_by n

theorem readElements_tokens (v : Json) (vs : List Json) (hv : v.Valid) (hvs : ValidElements vs) (n : Nat)
    (hn : (v.tokens ++ tokensOfElements vs).length ≤ n) (rest : List JsonToken) :
    readElements n (v.tokens ++ tokensOfElements vs ++ rest) = some (v :: vs, rest) := by
  obtain ⟨m, rfl⟩ : ∃ m, n = m + 1 := by
    apply Nat.exists_eq_succ_of_ne_zero
    have := tokens_pos v
    rw [List.length_append] at hn
    omega
  match vs with
  | [] =>
    have hlen : v.tokens.length ≤ m := by simpa [tokensOfElements] using hn
    rw [List.append_assoc, readElements, readValue_tokens v hv m hlen]
    rfl
  | w :: ws =>
    rw [List.length_append] at hn
    have hlast : (tokensOfElements (w :: ws)).length = (w.tokens ++ tokensOfElements ws).length + 1 := rfl
    have hread := readElements_tokens w ws hvs.1 hvs.2 m (by omega) rest
    rw [List.append_assoc, readElements, readValue_tokens v hv m (by omega), Option.bind_some]
    show (if ',' = ',' then (readElements m (w.tokens ++ tokensOfElements ws ++ rest)).map _ else _) = _
    rw [if_pos rfl, hread]
    rfl
  termination_by n

theorem readFields_tokens (key : Text) (v : Json) (fs : List (Text × Json)) (hv : v.Valid) (hfs : ValidFields fs)
    (n : Nat) (hn : (v.tokens ++ tokensOfFields fs).length + 2 ≤ n) (rest : List JsonToken) :
    readFields n (.string key :: .mark ':' :: (v.tokens ++ tokensOfFields fs ++ rest)) =
      some ((key, v) :: fs, rest) := by
  obtain ⟨m, rfl⟩ : ∃ m, n = m + 1 := Nat.exists_eq_succ_of_ne_zero (by omega)
  rw [List.length_append] at hn
  match fs with
  | [] =>
    rw [List.append_assoc, readFields, if_pos rfl, readValue_tokens v hv m (by omega)]
    rfl
  | (k, w) :: ws =>
    have hlast : (tokensOfFields ((k, w) :: ws)).length = (w.tokens ++ tokensOfFields ws).length + 3 := rfl
    have hread := readFields_tokens k w ws hfs.1 hfs.2 m (by omega) rest
    rw [List.append_assoc, readFields, if_pos rfl, readValue_tokens v hv m (by omega), Option.bind_some]
    show (if ',' = ',' then
      (readFields m (.string k :: .mark ':' :: (w.tokens ++ tokensOfFields ws ++ rest))).map _ else _) = _
    rw [if_pos rfl, hread]
    rfl
  termination_by n

end

theorem readTokens_tokens {v : Json} (hv : v.Valid) : readTokens v.tokens = some v := by
  have hread := readValue_tokens v hv v.tokens.length le_rfl []
  rw [List.append_nil] at hread
  rw [readTokens, hread]

/-! ## Writing -/

/-- The beginning of a line, if there are lines. -/
def newline (gap indent : Text) : Text := if gap = [] then [] else '\n' :: indent

def colon (gap : Text) : Text := if gap = [] then [':'] else [':', ' ']

section

variable (q : JsonEscapes) (gap : Text)

mutual

/-- A value as `JSON.stringify` writes it, whose lines begin with `indent`. -/
def writeJson : (indent : Text) → Json → Text
  | _, .null => "null".toList
  | _, .bool true => "true".toList
  | _, .bool false => "false".toList
  | _, .number literal => literal
  | _, .string text => q.quote text
  | _, .array [] => ['[', ']']
  | indent, .array (v :: rest) =>
    '[' :: (newline gap (indent ++ gap) ++ writeJson (indent ++ gap) v ++ writeElements indent rest)
  | _, .object [] => ['\x7b', '\x7d']
  | indent, .object ((key, v) :: rest) =>
    '\x7b' :: (newline gap (indent ++ gap) ++ q.quote key ++ colon gap ++ writeJson (indent ++ gap) v ++
      writeFields indent rest)

def writeElements : (indent : Text) → List Json → Text
  | indent, [] => newline gap indent ++ [']']
  | indent, v :: rest =>
    ',' :: (newline gap (indent ++ gap) ++ writeJson (indent ++ gap) v ++ writeElements indent rest)

def writeFields : (indent : Text) → List (Text × Json) → Text
  | indent, [] => newline gap indent ++ ['\x7d']
  | indent, (key, v) :: rest =>
    ',' :: (newline gap (indent ++ gap) ++ q.quote key ++ colon gap ++ writeJson (indent ++ gap) v ++
      writeFields indent rest)

end

end

section

variable {q : JsonEscapes} {gap : Text}

theorem lexJson_newline {indent : Text} (h : ∀ c ∈ indent, isJsonSpace c = true) (rest : Text) :
    lexJson .between (newline gap indent ++ rest) = lexJson .between rest := by
  rw [newline]
  split
  · rfl
  · exact lexJson_spaces (List.forall_mem_cons.2 ⟨rfl, h⟩) rest

theorem lexJson_colon (rest : Text) :
    lexJson .between (colon gap ++ rest) = (lexJson .between rest).map (.mark ':' :: ·) := by
  rw [colon]
  split
  · exact lexJson_mark rfl rest
  · show lexJson .between (':' :: ([' '] ++ rest)) = _
    rw [lexJson_mark rfl, lexJson_spaces (List.forall_mem_singleton.2 rfl)]

theorem delimited_newline {indent more : Text} (h : Delimited more) : Delimited (newline gap indent ++ more) := by
  rw [newline]
  split
  · exact h
  · exact delimited_cons rfl _

theorem delimited_elements (indent : Text) (vs : List Json) (rest : Text) :
    Delimited (writeElements q gap indent vs ++ rest) := by
  cases vs with
  | nil =>
    rw [writeElements, List.append_assoc]
    exact delimited_newline (delimited_cons rfl _)
  | cons v vs => exact delimited_cons rfl _

theorem delimited_fields (indent : Text) (fs : List (Text × Json)) (rest : Text) :
    Delimited (writeFields q gap indent fs ++ rest) := by
  cases fs with
  | nil =>
    rw [writeFields, List.append_assoc]
    exact delimited_newline (delimited_cons rfl _)
  | cons field fs => exact delimited_cons rfl _

theorem not_numberChar {c : Char} (h : endsWord c = true) : isNumberChar c = false := by
  simp only [endsWord, isJsonSpace, isJsonMark, Bool.or_eq_true, decide_eq_true_eq] at h
  rcases h with ((((rfl | rfl) | rfl) | rfl) | ((((rfl | rfl) | rfl) | rfl) | rfl) | rfl) | rfl <;> decide

/-- A literal is a word. -/
theorem word_of_number {w : Text} (h : isJsonNumber w = true) : (∀ c ∈ w, endsWord c = false) ∧ w ≠ [] := by
  rw [isJsonNumber, Bool.and_eq_true, List.all_eq_true] at h
  constructor
  · intro c hc
    by_contra hends
    rw [Bool.not_eq_false] at hends
    exact absurd (h.1 c hc) (by rw [not_numberChar hends]; decide)
  · rintro rfl
    exact absurd h.2 (by decide)

mutual

/-- What was written is read back token by token. -/
theorem lexJson_writeJson (hgap : ∀ c ∈ gap, isJsonSpace c = true) (v : Json) (hv : v.Valid) (indent : Text)
    (hindent : ∀ c ∈ indent, isJsonSpace c = true) (rest : Text) (hrest : Delimited rest) :
    lexJson .between (writeJson q gap indent v ++ rest) = (lexJson .between rest).map (v.tokens ++ ·) := by
  have hinner : ∀ c ∈ indent ++ gap, isJsonSpace c = true := by
    intro c hc
    exact (List.mem_append.1 hc).elim (hindent c) (hgap c)
  match v with
  | .null => exact lexJson_word (w := "null".toList) (plain_of_all rfl) (by decide) hrest
  | .bool true => exact lexJson_word (w := "true".toList) (plain_of_all rfl) (by decide) hrest
  | .bool false => exact lexJson_word (w := "false".toList) (plain_of_all rfl) (by decide) hrest
  | .number literal => exact lexJson_word (word_of_number hv).1 (word_of_number hv).2 hrest
  | .string text => exact q.lexJson_quote text rest
  | .array [] =>
    show lexJson .between ('[' :: ']' :: rest) = _
    rw [lexJson_mark rfl, lexJson_mark rfl, Option.map_map]
    rfl
  | .array (v :: vs) =>
    rw [writeJson, List.cons_append, List.append_assoc, List.append_assoc, lexJson_mark rfl,
      lexJson_newline hinner, lexJson_writeJson hgap v hv.1 _ hinner _ (delimited_elements _ _ _),
      lexJson_writeElements hgap vs hv.2 indent hindent rest, Option.map_map, Option.map_map]
    congr 1
    funext ts
    simp [Json.tokens]
  | .object [] =>
    show lexJson .between ('\x7b' :: '\x7d' :: rest) = _
    rw [lexJson_mark rfl, lexJson_mark rfl, Option.map_map]
    rfl
  | .object ((key, v) :: fs) =>
    rw [writeJson, List.cons_append, List.append_assoc, List.append_assoc, List.append_assoc, List.append_assoc,
      lexJson_mark rfl, lexJson_newline hinner, q.lexJson_quote, lexJson_colon,
      lexJson_writeJson hgap v hv.1 _ hinner _ (delimited_fields _ _ _),
      lexJson_writeFields hgap fs hv.2 indent hindent rest]
    simp only [Option.map_map]
    congr 1
    funext ts
    simp [Json.tokens]

theorem lexJson_writeElements (hgap : ∀ c ∈ gap, isJsonSpace c = true) (vs : List Json) (hvs : ValidElements vs)
    (indent : Text) (hindent : ∀ c ∈ indent, isJsonSpace c = true) (rest : Text) :
    lexJson .between (writeElements q gap indent vs ++ rest) =
      (lexJson .between rest).map (tokensOfElements vs ++ ·) := by
  have hinner : ∀ c ∈ indent ++ gap, isJsonSpace c = true := by
    intro c hc
    exact (List.mem_append.1 hc).elim (hindent c) (hgap c)
  match vs with
  | [] =>
    rw [writeElements, List.append_assoc, lexJson_newline hindent]
    exact lexJson_mark rfl rest
  | v :: vs =>
    rw [writeElements, List.cons_append, List.append_assoc, List.append_assoc, lexJson_mark rfl,
      lexJson_newline hinner, lexJson_writeJson hgap v hvs.1 _ hinner _ (delimited_elements _ _ _),
      lexJson_writeElements hgap vs hvs.2 indent hindent rest, Option.map_map, Option.map_map]
    congr 1
    funext ts
    simp [tokensOfElements]

theorem lexJson_writeFields (hgap : ∀ c ∈ gap, isJsonSpace c = true) (fs : List (Text × Json)) (hfs : ValidFields fs)
    (indent : Text) (hindent : ∀ c ∈ indent, isJsonSpace c = true) (rest : Text) :
    lexJson .between (writeFields q gap indent fs ++ rest) =
      (lexJson .between rest).map (tokensOfFields fs ++ ·) := by
  have hinner : ∀ c ∈ indent ++ gap, isJsonSpace c = true := by
    intro c hc
    exact (List.mem_append.1 hc).elim (hindent c) (hgap c)
  match fs with
  | [] =>
    rw [writeFields, List.append_assoc, lexJson_newline hindent]
    exact lexJson_mark rfl rest
  | (key, v) :: fs =>
    rw [writeFields, List.cons_append, List.append_assoc, List.append_assoc, List.append_assoc, List.append_assoc,
      lexJson_mark rfl, lexJson_newline hinner, q.lexJson_quote, lexJson_colon,
      lexJson_writeJson hgap v hfs.1 _ hinner _ (delimited_fields _ _ _),
      lexJson_writeFields hgap fs hfs.2 indent hindent rest]
    simp only [Option.map_map]
    congr 1
    funext ts
    simp [tokensOfFields]

end

/-- The reader reads what was written, with or without an indent. -/
theorem readJson_writeJson (hgap : ∀ c ∈ gap, isJsonSpace c = true) {v : Json} (hv : v.Valid) :
    readJson (writeJson q gap [] v) = some v := by
  have hlex := lexJson_writeJson (q := q) hgap v hv [] (fun _ hc => absurd hc List.not_mem_nil) []
    (by rintro c ⟨⟩)
  rw [List.append_nil] at hlex
  have hnil : lexJson .between [] = some [] := rfl
  rw [readJson, hlex, hnil, Option.map_some, List.append_nil]
  exact readTokens_tokens hv

end

end Workbench.Web

/-!
## Decoding into structs

`json.Unmarshal` into a struct: which field a name means, and what the values of the fields may be.
-/

namespace Workbench.Web

/-- A field with its name, and what a value does to the struct. -/
abbrev StructFields (S : Type) := List (Text × (S → Json → Option S))

/-- A field is found by its name, or else by its name in any case. -/
def findField {S : Type} (fields : StructFields S) (key : Text) : Option (Text × (S → Json → Option S)) :=
  (fields.find? fun f => f.1 = key) <|> fields.find? fun f => f.1.map foldRune = key.map foldRune

/-- An object into a struct, whose fields are set one after another; with `DisallowUnknownFields` any other name is
an error. -/
def decodeStruct {S : Type} (disallowUnknown : Bool) (fields : StructFields S) :
    S → List (Text × Json) → Option S
  | s, [] => some s
  | s, (key, v) :: rest =>
    match findField fields key with
    | none => if disallowUnknown then none else decodeStruct disallowUnknown fields s rest
    | some f => (f.2 s v).bind fun s' => decodeStruct disallowUnknown fields s' rest

/-- `null` leaves a struct as it is. -/
def decodeObject {S : Type} (disallowUnknown : Bool) (fields : StructFields S) (old : S) : Json → Option S
  | .object members => decodeStruct disallowUnknown fields old members
  | .null => some old
  | _ => none

/-- `null` leaves a text as it is. -/
def decodeText (old : Text) : Json → Option Text
  | .string text => some text
  | .null => some old
  | _ => none

def decodeBool (old : Bool) : Json → Option Bool
  | .bool value => some value
  | .null => some old
  | _ => none

/-- A `uint16`, which takes no sign, no fraction and no exponent. -/
def decodeUint16 (old : Nat) : Json → Option Nat
  | .number literal =>
    if literal.all Char.isDigit ∧ (Schema.readNat literal).1 < 65536 then some (Schema.readNat literal).1 else none
  | .null => some old
  | _ => none

/-- A `json.RawMessage` is the text of the value, here of one that the browser wrote. -/
def rawMessage (v : Json) : Text := writeJson .browser [] [] v

/-- A field that holds a text. -/
def textField {S : Type} (name : Text) (get : S → Text) (set : S → Text → S) : Text × (S → Json → Option S) :=
  (name, fun s v => (decodeText (get s) v).map (set s))

theorem isJsonNumber_jsonNat (n : Nat) : isJsonNumber (Schema.jsonNat n) = true := isJsonNumber_jsonInt n

theorem decodeUint16_jsonNat (old : Nat) {n : Nat} (h : n < 65536) :
    decodeUint16 old (.number (Schema.jsonNat n)) = some n := by
  have hdigits : (Schema.jsonNat n).all Char.isDigit = true := by
    rw [List.all_eq_true]
    intro c hc
    exact Nat.isDigit_of_mem_toDigits (by decide) (by decide) hc
  have hread : (Schema.readNat (Schema.jsonNat n)).1 = n := by
    have happend : Schema.readNat (Schema.jsonNat n ++ []) = (n, []) := Schema.readNat_append n (by simp)
    rw [List.append_nil] at happend
    rw [happend]
  rw [decodeUint16, hread, if_pos ⟨hdigits, h⟩]

end Workbench.Web
