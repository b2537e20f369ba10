import Workbench.Query.Gate

/-!
# Statement sequences at the gate

The query endpoint classifies the whole text of a request once. This file relates the level of a
text of several statements to the levels of its statements. A statement that is lexically complete
hands the scanner over to the next one between tokens and at depth zero, so the tokens of the joined
text are the tokens of the statements one after the other (`tokenize_joinStatements`); the level is
then read off the first of them alone, and one `WHERE` anywhere counts for all.
-/

set_option autoImplicit false

namespace Workbench.Query

open Workbench.Lib

/-- Severity: safe, then confirm, then type target. -/
def RiskLevel.rank : RiskLevel → Nat
  | .safe => 0
  | .confirm => 1
  | .typeTarget => 2

instance : LE RiskLevel := ⟨fun a b => a.rank ≤ b.rank⟩

instance (a b : RiskLevel) : Decidable (a ≤ b) := inferInstanceAs (Decidable (a.rank ≤ b.rank))

theorem RiskLevel.safe_le (a : RiskLevel) : RiskLevel.safe ≤ a := Nat.zero_le _

theorem RiskLevel.le_typeTarget (a : RiskLevel) : a ≤ RiskLevel.typeTarget := by
  cases a <;> decide

/-- Outside quoted text and comments. -/
def Mode.isOpen : Mode → Bool
  | .between => true
  | .word _ => true
  | _ => false

/-- The text closes its quotes and comments and has no open parenthesis at its end. -/
def LexicallyComplete (statement : Text) : Prop :=
  (gate.reach (betweenAt 0) statement).mode.isOpen = true ∧
    (gate.reach (betweenAt 0) statement).depth = 0

instance (statement : Text) : Decidable (LexicallyComplete statement) :=
  inferInstanceAs (Decidable (_ ∧ _))

/-- The statements in one text, joined with semicolons. -/
def joinStatements (statements : List Text) : Text := List.intercalate [';'] statements

/-- A complete statement and its semicolon leave the scanner where the next statement starts. -/
theorem run_statement {statement : Text} (h : LexicallyComplete statement) :
    gate.Run (betweenAt 0) (statement ++ [';']) (tokenize statement) (betweenAt 0) := by
  obtain ⟨hmode, hdepth⟩ := h
  have hrun := gate.run_reach (betweenAt 0) statement
  rw [tokenize_eq_scan, Scanner.scan]
  generalize gate.reach (betweenAt 0) statement = s at hmode hdepth hrun ⊢
  obtain ⟨mode, depth⟩ := s
  simp only at hmode hdepth
  subst hdepth
  refine hrun.append ?_
  cases mode with
  | between => exact ⟨rfl, rfl⟩
  | word text =>
    have hstep : gateStep ⟨.word text, 0⟩ ';' = (betweenAt 0, [⟨text, 0⟩]) := by
      have hk : ¬ charKind ';' = .word := by decide
      have hs : enter 0 ';' = betweenAt 0 := by decide
      simp only [gateStep]
      rw [if_neg (fun h => absurd h.2 (by decide)), if_neg (fun h => absurd h.2 (by decide)),
        if_neg hk, hs]
    exact run_step hstep
  | line => simp [Mode.isOpen] at hmode
  | block last => simp [Mode.isOpen] at hmode
  | quoted quote => simp [Mode.isOpen] at hmode
  | escaped quote => simp [Mode.isOpen] at hmode

/-- The tokens of the joined text are the tokens of its statements. The induction is on the list;
every statement but the last one is followed by its semicolon. -/
theorem tokenize_joinStatements (statements : List Text)
    (hc : ∀ s ∈ statements, LexicallyComplete s) :
    tokenize (joinStatements statements) = (statements.map tokenize).flatten := by
  induction statements with
  | nil => rfl
  | cons s rest ih =>
    cases rest with
    | nil => simp [joinStatements]
    | cons s' rest =>
      have ih' := ih fun x hx => hc x (List.mem_cons_of_mem _ hx)
      have hjoin : joinStatements (s :: s' :: rest) =
          (s ++ [';']) ++ joinStatements (s' :: rest) := by
        simp [joinStatements, List.intercalate]
      rw [hjoin, tokenize_eq_scan, (run_statement (hc s List.mem_cons_self)).scan,
        ← tokenize_eq_scan, ih']
      simp

/-- The first statement with a token; the empty text if there is none. -/
def leading (statements : List Text) : Text :=
  (statements.find? fun s => tokenize s ≠ []).getD []

/-- What the gate needs to see every statement of a text: the text leads with a drop, or there is no
drop and either every write has its own top-level `WHERE`, or the text leads with a write and no
statement has a top-level `WHERE`. -/
def GateSeesAll (statements : List Text) : Prop :=
  firstIn dropVerbs (tokenize (leading statements)) = true ∨
    (∀ s ∈ statements, firstIn dropVerbs (tokenize s) = false) ∧
      ((∀ s ∈ statements, firstIn writeVerbs (tokenize s) = true → hasWhere (tokenize s) = true) ∨
        firstIn writeVerbs (tokenize (leading statements)) = true ∧
          ∀ s ∈ statements, (tokenize s).any isTopLevelWhere = false)

/-- The first token of the joined text is the first token of the leading statement. -/
theorem firstIn_flatten (verbs : List Text) (statements : List Text) :
    firstIn verbs (statements.map tokenize).flatten = firstIn verbs (tokenize (leading statements)) := by
  induction statements with
  | nil => rfl
  | cons s rest ih =>
    rw [List.map_cons, List.flatten_cons, leading, List.find?_cons]
    by_cases hs : tokenize s = []
    · rw [hs, List.nil_append, ih]
      simp [leading]
    · rw [firstIn_append hs]
      simp [hs]

/-- A write verb is no `WHERE`: the lengths differ. -/
theorem isTopLevelWhere_of_write {head : Token} {rest : List Token}
    (h : firstIn writeVerbs (head :: rest) = true) : isTopLevelWhere head = false := by
  have hlen : head.text.length = 6 := by
    have hw : toUpper head.text = "UPDATE".toList ∨ toUpper head.text = "DELETE".toList := by
      simpa [firstIn, writeVerbs] using h
    rcases hw with hw | hw <;> simpa [toUpper] using congrArg List.length hw
  have hfold : equalFold head.text "WHERE".toList = false := by
    rw [equalFold, beq_eq_false_iff_ne]
    intro heq
    have hl := congrArg List.length heq
    simp [hlen] at hl
  rw [isTopLevelWhere, hfold, Bool.and_false]

/-- Behind a leading write, a top-level `WHERE` in any statement is the one the gate finds. -/
theorem hasWhere_of_write {tokens : List Token} (h : firstIn writeVerbs tokens = true) :
    hasWhere tokens = tokens.any isTopLevelWhere := by
  cases tokens with
  | nil => rfl
  | cons head rest => simp [hasWhere, isTopLevelWhere_of_write h]

/-- **The gate is compositional exactly on the texts it sees all of.** -/
theorem classify_joinStatements_ge_iff (statements : List Text)
    (hc : ∀ s ∈ statements, LexicallyComplete s) :
    (∀ s ∈ statements, (classify s).level ≤ (classify (joinStatements statements)).level) ↔
      GateSeesAll statements := by
  have hdrop := firstIn_flatten dropVerbs statements
  have hwrite := firstIn_flatten writeVerbs statements
  simp only [classify, tokenize_joinStatements statements hc]
  unfold GateSeesAll
  rw [← hdrop, ← hwrite]
  generalize hall : (statements.map tokenize).flatten = all
  -- The whole sees a top-level filter where some statement has one.
  have hany : all.any isTopLevelWhere = false ↔
      ∀ s ∈ statements, (tokenize s).any isTopLevelWhere = false := by
    rw [← hall]
    simp only [List.any_flatten, List.any_map, List.any_eq_false, Function.comp_apply,
      Bool.not_eq_true]
  constructor
  · intro h
    by_cases hd : firstIn dropVerbs all = true
    · exact Or.inl hd
    · -- No statement drops anything, so the whole is not classified above confirmation.
      have hlevel : (classifyTokens all).level ≠ .typeTarget := by
        rwa [Ne, level_typeTarget_iff]
      refine Or.inr ⟨fun s hs => ?_, ?_⟩
      · rw [Bool.eq_false_iff, Ne, ← level_typeTarget_iff]
        intro hs'
        have hle := h s hs
        rw [hs'] at hle
        exact hlevel (by revert hle; cases (classifyTokens all).level <;> decide)
      · -- A safe whole needs every statement safe; a whole to confirm writes without a filter.
        by_cases hsafe : (classifyTokens all).level = .safe
        · refine Or.inl fun s hs => ?_
          have hle := h s hs
          rw [hsafe] at hle
          have hs' : (classifyTokens (tokenize s)).level = .safe := by
            revert hle
            cases (classifyTokens (tokenize s)).level <;> decide
          exact ((level_safe_iff _).1 hs').2
        · have hconfirm : (classifyTokens all).level = .confirm := by
            cases hl : (classifyTokens all).level with
            | safe => exact absurd hl hsafe
            | confirm => rfl
            | typeTarget => exact absurd hl hlevel
          obtain ⟨hw, hh⟩ := (level_confirm_iff all).1 hconfirm
          rw [hasWhere_of_write hw] at hh
          exact Or.inr ⟨hw, hany.1 hh⟩
  · rintro (hd | ⟨hnd, hfiltered | ⟨hw, hno⟩⟩) s hs
    · rw [(level_typeTarget_iff all).2 hd]
      exact RiskLevel.le_typeTarget _
    · rw [(level_safe_iff (tokenize s)).2 ⟨hnd s hs, hfiltered s hs⟩]
      exact RiskLevel.safe_le _
    · have hconfirm : (classifyTokens all).level = .confirm := by
        rw [level_confirm_iff, hasWhere_of_write hw]
        exact ⟨hw, hany.2 hno⟩
      have hs' : (classifyTokens (tokenize s)).level ≠ .typeTarget := by
        rw [Ne, level_typeTarget_iff, hnd s hs]
        exact Bool.false_ne_true
      rw [hconfirm]
      revert hs'
      cases (classifyTokens (tokenize s)).level <;> decide

/-- Two statements the gate sees both of. -/
theorem classify_joinStatements_ge_iff_pair :
    (∀ s ∈ ["DELETE FROM a".toList, "UPDATE b SET c = (1)".toList],
      (classify s).level ≤ (classify (joinStatements
        ["DELETE FROM a".toList, "UPDATE b SET c = (1)".toList])).level) ↔
      GateSeesAll ["DELETE FROM a".toList, "UPDATE b SET c = (1)".toList] :=
  classify_joinStatements_ge_iff _ (by decide)

/-- A `DROP TABLE` behind another statement is not seen. -/
theorem classify_joinStatements_misses_drop :
    ¬ ∀ statements : List Text, statements ≠ [] → (∀ s ∈ statements, LexicallyComplete s) →
      ∀ s ∈ statements, (classify s).level ≤ (classify (joinStatements statements)).level := by
  intro h
  have hlevel := h ["SET search_path = app".toList, "DROP TABLE users".toList] (by decide)
    (by decide) "DROP TABLE users".toList (by decide)
  exact absurd hlevel (by decide)

end Workbench.Query
