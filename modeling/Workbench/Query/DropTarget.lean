import Workbench.Query.Pieces

/-!
# The objects of a drop and the target to type

A `DROP` or `TRUNCATE` statement is described as it is written: words in front of the names, a
comma-separated list of names, options. A name is one bare word, dots included, or it has quoted
parts or gaps around its dots. The target that the gate compares with is the first bare word behind
the verb that is not one of six keywords; quoted parts are no words at all.

`target_names_objects_iff` says for which statements the typed target names everything the statement
removes.
-/

set_option autoImplicit false

namespace Workbench.Query

open Workbench.Lib

/-! ## Statements -/

def isLexemeChar (c : Char) : Bool :=
  isLetter c || isDigit c || c = '_' || c = '$' || 128 ≤ c.toNat

/-- The SQL words and operator characters of a bare word. -/
def lexemes (text : Text) : List Text :=
  text.splitBy fun a b => isLexemeChar a && isLexemeChar b

/-- The lexemes of a piece; `none` is a lexeme that is no bare word. -/
def Piece.ownLexemes : Piece → List (Option Text)
  | .word w => (lexemes w.text).map some
  | .quoted _ => [none]
  | .comma => [none]
  | .semicolon => [none]
  | _ => []

/-- The words of the pieces, by their texts. -/
def bareWords : List Piece → List Text
  | [] => []
  | .word w :: rest => w.text :: bareWords rest
  | _ :: rest => bareWords rest

/-- No keyword of the target search. -/
def isFree (text : Text) : Bool := !targetKeywords.contains (toUpper text)

/-- The words that may stand between the verb and the names. -/
def frontWords : List Text :=
  targetKeywords ++ ["TEMPORARY", "MATERIALIZED", "ONLY"].map String.toList

/-- The words that may stand behind the names. -/
def optionWords : List Text :=
  ["CASCADE", "RESTRICT", "RESTART", "CONTINUE", "IDENTITY"].map String.toList

def Piece.isParen : Piece → Bool
  | .opening => true
  | .closing => true
  | _ => false

/-- A word or a gap. -/
def Piece.isPlain : Piece → Bool
  | .word _ => true
  | p => p.isGap

/-- A gap or a semicolon. -/
def Piece.endsStatement : Piece → Bool
  | .semicolon => true
  | p => p.isGap

/-- A quoted text or white space. -/
def Piece.setsApart : Piece → Bool
  | .quoted _ => true
  | .blank _ _ => true
  | _ => false

/-- The parts of a name with a dot between any two of them. -/
def isDotted : List (Option Text) → Bool
  | [part] => part ≠ some ".".toList
  | part :: some dot :: rest =>
    part ≠ some ".".toList && dot == ".".toList && isDotted rest
  | _ => false

/-- The name of an object: one bare word, or pieces with a quoted part or with white space. -/
inductive ObjectName where
  | bare (w : WordRun)
  | parts (pieces : List Piece) (flat : pieces.all (fun p => !p.isParen) = true)
      (set_apart : pieces.any Piece.setsApart = true)

def ObjectName.pieces : ObjectName → List Piece
  | .bare w => [.word w]
  | .parts pieces _ _ => pieces

/-- The name as the statement writes it. -/
def ObjectName.text (name : ObjectName) : Text := render name.pieces

/-- An object of the list, with the gaps around its name. -/
structure DropObject where
  before : List Piece
  name : ObjectName
  after : List Piece
  before_gaps : before.all Piece.isGap = true
  after_gaps : after.all Piece.isGap = true
  dotted : isDotted (name.pieces.flatMap Piece.ownLexemes) = true

def DropObject.pieces (o : DropObject) : List Piece := o.before ++ (o.name.pieces ++ o.after)

/-- The objects with commas between them. -/
def listPieces : List DropObject → List Piece
  | [] => []
  | [o] => o.pieces
  | o :: rest => o.pieces ++ .comma :: listPieces rest

/-- One `DROP` or `TRUNCATE` statement. -/
structure DropStatement where
  lead : List Piece
  verb : WordRun
  front : List Piece
  object : DropObject
  more : List DropObject
  options : List Piece
  ending : List Piece
  lead_gaps : lead.all Piece.isGap = true
  is_verb : dropVerbs.contains (toUpper verb.text) = true
  front_plain : front.all Piece.isPlain = true
  front_words : ∀ w ∈ bareWords front, w.map asciiUpper ∈ frontWords
  options_plain : options.all Piece.isPlain = true
  options_words : ∀ w ∈ bareWords options, w.map asciiUpper ∈ optionWords
  ending_open : ending.all Piece.endsStatement = true
  spaced : Spaced (lead ++
    .word verb :: (front ++ (listPieces (object :: more) ++ (options ++ ending)))) = true

namespace DropStatement

variable (st : DropStatement)

/-- Everything the statement removes. -/
def objects : List DropObject := st.object :: st.more

/-- What follows the verb. -/
def rest : List Piece := st.front ++ (listPieces st.objects ++ (st.options ++ st.ending))

def text : Text := render (st.lead ++ .word st.verb :: st.rest)

end DropStatement

/-! ## Targets -/

def trimSpaces (text : Text) : Text :=
  ((text.dropWhile isSpace).reverse.dropWhile isSpace).reverse

/-- The target, read as a comma-separated list, has the name as the statement writes it. -/
def Names (target : Text) (o : DropObject) : Prop :=
  o.name.text ∈ (target.splitOn ',').map trimSpaces

instance (target : Text) (o : DropObject) : Decidable (Names target o) :=
  inferInstanceAs (Decidable (_ ∈ _))

/-- Every name is one and the same bare word, and no other word that the target search stops at
stands in front of it. -/
def DropStatement.Exposed (st : DropStatement) : Prop :=
  ∃ w : WordRun, isFree w.text = true ∧ (∀ o ∈ st.objects, o.name.text = w.text) ∧
    ∀ m, (bareWords st.front).find? isFree = some m → m = w.text

/-! ## The words of a drop -/

theorem bareWords_append (ps qs : List Piece) :
    bareWords (ps ++ qs) = bareWords ps ++ bareWords qs := by
  induction ps with
  | nil => rfl
  | cons p ps ih =>
    cases p with
    | word w => exact congrArg (w.text :: ·) ih
    | _ => exact ih

theorem bareWords_gaps {pieces : List Piece} (h : pieces.all Piece.isGap = true) :
    bareWords pieces = [] := by
  induction pieces with
  | nil => rfl
  | cons p rest ih =>
    rw [List.all_cons, Bool.and_eq_true] at h
    cases p with
    | word w => exact absurd h.1 Bool.false_ne_true
    | _ => exact ih h.2

/-- A bare word is the text of a word. -/
theorem exists_word_of_mem {pieces : List Piece} {text : Text} (h : text ∈ bareWords pieces) :
    ∃ w : WordRun, w.text = text := by
  induction pieces with
  | nil => exact absurd h (List.not_mem_nil)
  | cons p rest ih =>
    cases p with
    | word w =>
      rcases List.mem_cons.1 h with rfl | h
      · exact ⟨w, rfl⟩
      · exact ih h
    | _ => exact ih h

/-- Without parentheses every word has the same depth. -/
theorem pieceTokens_flat (d : Nat) {pieces : List Piece}
    (h : pieces.all (fun p => !p.isParen) = true) :
    pieceTokens d pieces = (bareWords pieces).map fun text => ⟨text, d⟩ := by
  induction pieces with
  | nil => rfl
  | cons p rest ih =>
    rw [List.all_cons, Bool.and_eq_true] at h
    cases p with
    | word w => exact congrArg (⟨w.text, d⟩ :: ·) (ih h.2)
    | opening => exact absurd h.1 Bool.false_ne_true
    | closing => exact absurd h.1 Bool.false_ne_true
    | _ => exact ih h.2

theorem pieceTokens_gaps (d : Nat) {lead : List Piece} (h : lead.all Piece.isGap = true)
    (rest : List Piece) : pieceTokens d (lead ++ rest) = pieceTokens d rest := by
  induction lead with
  | nil => rfl
  | cons p lead ih =>
    rw [List.all_cons, Bool.and_eq_true] at h
    cases p with
    | blank c hc => exact ih h.2
    | lineComment body hb => exact ih h.2
    | blockComment body hb => exact ih h.2
    | _ => exact absurd h.1 Bool.false_ne_true

theorem flat_of_gaps {pieces : List Piece} (h : pieces.all Piece.isGap = true) :
    pieces.all (fun p => !p.isParen) = true := by
  rw [List.all_eq_true] at h ⊢
  intro p hp
  have hgap := h p hp
  cases p <;> first | rfl | exact absurd hgap Bool.false_ne_true

theorem flat_of_ending {pieces : List Piece} (h : pieces.all Piece.endsStatement = true) :
    pieces.all (fun p => !p.isParen) = true := by
  rw [List.all_eq_true] at h ⊢
  intro p hp
  have hends := h p hp
  cases p <;> first | rfl | exact absurd hends Bool.false_ne_true

theorem flat_of_plain {pieces : List Piece} (h : pieces.all Piece.isPlain = true) :
    pieces.all (fun p => !p.isParen) = true := by
  rw [List.all_eq_true] at h ⊢
  intro p hp
  have hplain := h p hp
  cases p <;> first | rfl | exact absurd hplain Bool.false_ne_true

theorem DropObject.flat (o : DropObject) : o.pieces.all (fun p => !p.isParen) = true := by
  have hname : o.name.pieces.all (fun p => !p.isParen) = true := by
    cases o.name with
    | bare w => rfl
    | parts pieces flat set_apart => exact flat
  rw [DropObject.pieces, List.all_append, List.all_append, flat_of_gaps o.before_gaps, hname,
    flat_of_gaps o.after_gaps]
  rfl

theorem flat_listPieces (objects : List DropObject) :
    (listPieces objects).all (fun p => !p.isParen) = true := by
  induction objects with
  | nil => rfl
  | cons o rest ih =>
    cases rest with
    | nil => exact o.flat
    | cons o' rest =>
      rw [listPieces, List.all_append, o.flat, List.all_cons, ih]
      · rfl
      · exact List.cons_ne_nil _ _

/-! ## What the gate asks for -/

namespace DropStatement

variable (st : DropStatement)

theorem tokenize_text :
    tokenize st.text =
      ⟨st.verb.text, 0⟩ :: (bareWords st.rest).map fun text => ⟨text, 0⟩ := by
  have hflat : st.rest.all (fun p => !p.isParen) = true := by
    rw [rest, List.all_append, List.all_append, List.all_append, flat_of_plain st.front_plain,
      flat_listPieces, flat_of_plain st.options_plain, flat_of_ending st.ending_open]
    rfl
  have hspaced : Spaced (st.lead ++ .word st.verb :: st.rest) = true := st.spaced
  rw [text, tokenize_render _ hspaced, pieceTokens_gaps 0 st.lead_gaps, pieceTokens,
    pieceTokens_flat 0 hflat]

theorem level_text : (classify st.text).level = .typeTarget := by
  rw [classify, st.tokenize_text, level_typeTarget_iff]
  exact st.is_verb

/-- The target is the first bare word behind the verb that is no keyword. -/
theorem target_text :
    (classify st.text).target = ((bareWords st.rest).find? isFree).getD [] := by
  have hdrop : firstIn dropVerbs
      (⟨st.verb.text, 0⟩ :: (bareWords st.rest).map fun text => ⟨text, 0⟩) = true := st.is_verb
  have hfree : (isTargetToken ∘ fun text : Text => (⟨text, 0⟩ : Token)) = isFree := by
    funext text
    simp [isTargetToken, isFree]
  rw [classify, st.tokenize_text, classifyTokens_target hdrop, List.find?_map, hfree,
    Option.map_map]
  cases (bareWords st.rest).find? isFree <;> rfl

end DropStatement

/-! ## Names and bare words -/

theorem WordRun.no_space (w : WordRun) : ∀ c ∈ w.text, isSpace c = false ∧ c ≠ ',' := by
  intro c hc
  have hword := List.all_eq_true.1 w.chars c hc
  refine ⟨?_, ?_⟩
  · simp only [isWordChar, Bool.and_eq_true, Bool.not_eq_true'] at hword
    exact hword.1
  · rintro rfl
    exact absurd hword (by decide)

theorem dropWhile_eq_self {p : Char → Bool} {text : Text} (h : ∀ c ∈ text, p c = false) :
    text.dropWhile p = text := by
  cases text with
  | nil => rfl
  | cons c rest =>
    apply List.dropWhile_cons_of_neg
    rw [h c List.mem_cons_self]
    exact Bool.false_ne_true

/-- A target that is one bare word is a list of one. -/
theorem names_word_iff (w : WordRun) (o : DropObject) : Names w.text o ↔ o.name.text = w.text := by
  have hsplit : w.text.splitOn ',' = [w.text] := by
    apply List.splitOnP_eq_singleton
    intro c hc
    rw [beq_eq_false_iff_ne]
    exact (w.no_space c hc).2
  have htrim : trimSpaces w.text = w.text := by
    rw [trimSpaces, dropWhile_eq_self fun c hc => (w.no_space c hc).1,
      dropWhile_eq_self fun c hc => (w.no_space c (List.mem_reverse.1 hc)).1, List.reverse_reverse]
  rw [Names, hsplit, List.map_singleton, htrim, List.mem_singleton]

/-- A name that reads like a bare word is one. -/
theorem ObjectName.eq_bare_of_text {name : ObjectName} {w : WordRun} (h : name.text = w.text) :
    ∃ w', name = .bare w' ∧ w'.text = w.text := by
  cases name with
  | bare w' =>
    refine ⟨w', rfl, ?_⟩
    rw [← h]
    simp [ObjectName.text, ObjectName.pieces, render, Piece.render]
  | parts pieces flat set_apart =>
    obtain ⟨p, hp, hapart⟩ := List.any_eq_true.1 set_apart
    have hmem : ∀ c ∈ p.render, isWordChar c = true := by
      intro c hc
      apply List.all_eq_true.1 w.chars
      rw [← h]
      exact List.mem_flatMap.2 ⟨p, hp, hc⟩
    cases p with
    | blank c hc =>
      have hword := hmem c (by simp [Piece.render])
      simp [isWordChar, hc] at hword
    | quoted q =>
      have hword := hmem q.mark (by simp [Piece.render, Quoted.text])
      rcases (isQuote_iff _).1 q.is_mark with hm | hm | hm <;> rw [hm] at hword <;>
        exact absurd hword (by decide)
    | _ => exact absurd hapart Bool.false_ne_true

/-- The name of an object is the first bare word of what follows when it is one. -/
theorem bareWords_object {o : DropObject} {w : WordRun} (h : o.name = .bare w) :
    bareWords o.pieces = [w.text] := by
  rw [DropObject.pieces, h, bareWords_append, bareWords_append, bareWords_gaps o.before_gaps,
    bareWords_gaps o.after_gaps]
  rfl

theorem bareWords_listPieces (o : DropObject) (rest : List DropObject) :
    ∃ more, bareWords (listPieces (o :: rest)) = bareWords o.pieces ++ more := by
  cases rest with
  | nil => exact ⟨[], (List.append_nil _).symm⟩
  | cons o' rest => exact ⟨_, bareWords_append o.pieces _⟩

/-- **When the typed target names everything the statement removes.** -/
theorem target_names_objects_iff (st : DropStatement) :
    (∀ input : QueryInput, input.sql = st.text → input.passes →
      input.confirmationTarget ≠ [] ∧ ∀ o ∈ st.objects, Names input.confirmationTarget o) ↔
      st.Exposed := by
  have hwords : bareWords st.rest = bareWords st.front ++
      (bareWords (listPieces st.objects) ++ (bareWords st.options ++ bareWords st.ending)) := by
    rw [DropStatement.rest, bareWords_append, bareWords_append, bareWords_append]
  constructor
  · intro h
    -- the request that types what the gate asks for
    obtain ⟨hne, hnames⟩ := h ⟨st.text, true, (classify st.text).target⟩ rfl
      ((passes_iff_of_typeTarget st.level_text).2 ⟨rfl, rfl⟩)
    simp only [st.target_text] at hne hnames
    cases hfind : (bareWords st.rest).find? isFree with
    | none =>
      rw [hfind] at hne
      exact absurd rfl hne
    | some target =>
      rw [hfind] at hnames
      obtain ⟨w, rfl⟩ := exists_word_of_mem (List.mem_of_find?_eq_some hfind)
      refine ⟨w, List.find?_some hfind, fun o ho => (names_word_iff w o).1 (hnames o ho), ?_⟩
      intro m hm
      rw [hwords, List.find?_append, hm] at hfind
      exact Option.some_inj.1 hfind
  · rintro ⟨w, hfree, hobjects, hfront⟩ input hsql hpasses
    obtain ⟨w', hname, hw'⟩ := ObjectName.eq_bare_of_text (hobjects st.object List.mem_cons_self)
    have hfind : (bareWords st.rest).find? isFree = some w.text := by
      obtain ⟨more, hmore⟩ := bareWords_listPieces st.object st.more
      rw [hwords, List.find?_append]
      cases hm : (bareWords st.front).find? isFree with
      | some m => rw [hfront m hm, Option.some_or]
      | none =>
        rw [Option.none_or, DropStatement.objects, hmore, bareWords_object hname, hw',
          List.append_assoc, List.singleton_append, List.find?_cons_of_pos hfree]
    have htarget : input.confirmationTarget = w.text := by
      have hlevel : (classify input.sql).level = .typeTarget := by rw [hsql, st.level_text]
      rw [((passes_iff_of_typeTarget hlevel).1 hpasses).2, hsql, st.target_text, hfind]
      rfl
    rw [htarget]
    exact ⟨w.ne_nil, fun o ho => (names_word_iff w o).2 (hobjects o ho)⟩

theorem isWordRun_drop : IsWordRun "DROP".toList := by decide

theorem isWordRun_table : IsWordRun "TABLE".toList := by decide

/-- `DROP TABLE audit, users`. -/
def dropTwoTables : DropStatement where
  lead := []
  verb := WordRun.of "DROP".toList isWordRun_drop
  front := [.space, .word (WordRun.of "TABLE".toList isWordRun_table), .space]
  object := {
    before := []
    name := .bare (WordRun.of "audit".toList (by decide))
    after := []
    before_gaps := rfl
    after_gaps := rfl
    dotted := by decide }
  more := [{
    before := [.space]
    name := .bare (WordRun.of "users".toList (by decide))
    after := []
    before_gaps := rfl
    after_gaps := rfl
    dotted := by decide }]
  options := []
  ending := []
  lead_gaps := rfl
  is_verb := by decide
  front_plain := rfl
  front_words := by decide
  options_plain := rfl
  options_words := by decide
  ending_open := rfl
  spaced := by decide

/-- Typing the first of two tables is enough to drop both. -/
theorem target_names_first_only :
    dropTwoTables.text = "DROP TABLE audit, users".toList ∧
      ¬ ∀ input : QueryInput, input.sql = dropTwoTables.text → input.passes →
        ∀ o ∈ dropTwoTables.objects, Names input.confirmationTarget o := by
  refine ⟨by decide, fun h => ?_⟩
  have hnames := h ⟨dropTwoTables.text, true, "audit".toList⟩ rfl (by decide)
  exact absurd hnames (by decide)

end Workbench.Query
