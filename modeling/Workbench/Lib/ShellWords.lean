import Mathlib.Data.List.Basic

/-!
# Shell commands

How a POSIX shell takes a text apart: quoting, operators and words, and from them simple commands with their
redirections and what joins them. What a word becomes where something of it is expanded depends on more than the
text, so such a word is not read, and neither are compound commands: the reader then gives nothing.
-/

set_option autoImplicit false

namespace Workbench.Lib

/-- A character of a word, and whether it was quoted. -/
abbrev ShellWord := List (Char × Bool)

inductive ShellToken where
  | word (w : ShellWord)
  /-- An operator, with the number that may stand in front of a redirection. -/
  | op (descriptor : Option (List Char)) (text : List Char)
  deriving DecidableEq, Repr

namespace Shell

def isBlank (c : Char) : Bool := c = ' ' || c = '\t'

def operators : List (List Char) :=
  ["&", "&&", "|", "||", ";", ";;", "(", ")", "<", "<<", "<<-", "<&", "<>", ">", ">>", ">&", ">|", "\n"].map
    String.toList

/-- The characters that an operator begins with. -/
def isOperatorStart (c : Char) : Bool :=
  c = '&' || c = '|' || c = ';' || c = '(' || c = ')' || c = '<' || c = '>' || c = '\n'

/-- The character that begins an expansion besides the backquote. -/
def isExpansion (c : Char) : Bool := c = '$' || c = Char.ofNat 96

inductive Mode where
  | between
  | comment
  | operator (descriptor : Option (List Char)) (read : List Char)
  | word (read : ShellWord)
  | escaped (read : ShellWord)
  | single (read : ShellWord)
  | double (read : ShellWord)
  | doubleEscaped (read : ShellWord)
  deriving DecidableEq, Repr

/-- An unquoted character of a word. -/
def inWord (read : ShellWord) (c : Char) : Option Mode :=
  if c = '\'' then some (.single read)
  else if c = '"' then some (.double read)
  else if c = '\\' then some (.escaped read)
  else if isExpansion c then none
  else some (.word (read ++ [(c, false)]))

/-- A character that begins a token. -/
def start (c : Char) : Option Mode :=
  if isBlank c then some .between
  else if c = '#' then some .comment
  else if isOperatorStart c then some (.operator none [c])
  else inWord [] c

/-- Plain digits in front of a redirection belong to it. -/
def isDescriptor (read : ShellWord) (c : Char) : Bool :=
  (c = '<' || c = '>') && !read.isEmpty && read.all fun x => x.1.isDigit && !x.2

/-- The token that a character ends, and the mode behind it. No text that a shell is given holds a NUL. -/
def step (m : Mode) (c : Char) : Option (Option ShellToken × Mode) :=
  if c = Char.ofNat 0 then none
  else
    match m with
    | .between => (start c).map (none, ·)
    | .comment => some (none, if c = '\n' then .operator none [c] else .comment)
    | .operator descriptor read =>
      if operators.contains (read ++ [c]) then some (none, .operator descriptor (read ++ [c]))
      else (start c).map (some (.op descriptor read), ·)
    | .word read =>
      if isBlank c then some (some (.word read), .between)
      else if isDescriptor read c then some (none, .operator (some (read.map Prod.fst)) [c])
      else if isOperatorStart c then some (some (.word read), .operator none [c])
      else (inWord read c).map (none, ·)
    | .escaped read => some (none, .word (if c = '\n' then read else read ++ [(c, true)]))
    | .single read => some (none, if c = '\'' then .word read else .single (read ++ [(c, true)]))
    | .double read =>
      if c = '"' then some (none, .word read)
      else if c = '\\' then some (none, .doubleEscaped read)
      else if isExpansion c then none
      else some (none, .double (read ++ [(c, true)]))
    | .doubleEscaped read =>
      if c = '\n' then some (none, .double read)
      else if c = '"' ∨ c = '\\' ∨ isExpansion c then some (none, .double (read ++ [(c, true)]))
      else some (none, .double (read ++ [('\\', true), (c, true)]))

/-- The last token; a text may not end inside a quote. -/
def finish : Mode → Option (List ShellToken)
  | .between => some []
  | .comment => some []
  | .operator descriptor read => some [.op descriptor read]
  | .word read => some [.word read]
  | _ => none

/-- The tokens that end in a text, and the mode behind it. -/
def run (m : Mode) : List Char → Option (List ShellToken × Mode)
  | [] => some ([], m)
  | c :: rest =>
    (step m c).bind fun s => (run s.2 rest).map fun read => (s.1.toList ++ read.1, read.2)

/-- The tokens of a text. -/
def lex (text : List Char) : Option (List ShellToken) :=
  (run .between text).bind fun read => (finish read.2).map (read.1 ++ ·)

/-! ## Words -/

/-- The text of a word in which nothing is expanded. -/
def literal (w : ShellWord) : Option (List Char) :=
  if w.any (fun x => !x.2 && (x.1 = '*' || x.1 = '?' || x.1 = '[')) || w.head? == some ('~', false) then none
  else some (w.map Prod.fst)

def wordOf : ShellToken → Option (List Char)
  | .word w => literal w
  | _ => none

/-- The words of a text that is nothing but words. -/
def words (text : List Char) : Option (List (List Char)) := (lex text).bind fun tokens => tokens.mapM wordOf

/-! ## Commands -/

structure Redirect where
  descriptor : Option (List Char)
  operator : List Char
  target : List Char
  deriving DecidableEq, Repr

structure SimpleCommand where
  args : List (List Char)
  redirects : List Redirect
  deriving DecidableEq, Repr

def reserved : List (List Char) :=
  ["!", "\x7b", "\x7d", "case", "do", "done", "elif", "else", "esac", "fi", "for", "if", "in", "then", "until",
    "while"].map String.toList

/-- The first word begins no simple command, or it assigns. -/
def isSpecialFirst (w : ShellWord) : Bool :=
  (w.all (fun x => !x.2) && reserved.contains (w.map Prod.fst)) || w.contains ('=', false)

/-- The operators in front of the name of a file. -/
def isRedirection (text : List Char) : Bool :=
  ["<", ">", ">>", "<>", ">|"].map String.toList |>.contains text

/-- The operators between commands. -/
def isConnector (text : List Char) : Bool :=
  ["&", "&&", "|", "||", ";", "\n"].map String.toList |>.contains text

/-- The operators that may stand behind the last command. -/
def isTerminator (text : List Char) : Bool := ["&", ";", "\n"].map String.toList |>.contains text

namespace SimpleCommand

def addWord (command : SimpleCommand) (w : ShellWord) : Option SimpleCommand :=
  if command.args = [] ∧ isSpecialFirst w then none
  else (literal w).map fun arg => { command with args := command.args ++ [arg] }

def addRedirect (command : SimpleCommand) (descriptor : Option (List Char)) (operator : List Char) (w : ShellWord) :
    Option SimpleCommand :=
  (literal w).map fun target => { command with redirects := command.redirects ++ [⟨descriptor, operator, target⟩] }

end SimpleCommand

/-- The simple commands in their order, each with the operator behind it. -/
def readCommands (current : SimpleCommand) : List ShellToken → Option (List (SimpleCommand × Option (List Char)))
  | [] => if current.args = [] then none else some [(current, none)]
  | .word w :: rest => (current.addWord w).bind fun current => readCommands current rest
  | [.op _ o] => if isTerminator o ∧ current.args ≠ [] then some [(current, some o)] else none
  | .op descriptor o :: .word w :: rest =>
    if isRedirection o then (current.addRedirect descriptor o w).bind fun current => readCommands current rest
    else if isConnector o ∧ current.args ≠ [] then
      (SimpleCommand.addWord ⟨[], []⟩ w).bind fun next => (readCommands next rest).map ((current, some o) :: ·)
    else none
  | _ => none

/-- What a shell executes for a text. -/
def commands (text : List Char) : Option (List (SimpleCommand × Option (List Char))) :=
  (lex text).bind (readCommands ⟨[], []⟩)

/-! ## What is read -/

section

variable {m next last : Mode} {front back : List Char} {tokens more : List ShellToken}

theorem run_cons {c : Char} {token : Option ShellToken} (hstep : step m c = some (token, next))
    (hrest : run next back = some (tokens, last)) : run m (c :: back) = some (token.toList ++ tokens, last) := by
  rw [run, hstep, Option.bind_some, hrest]
  rfl

/-- Texts are read one behind the other. -/
theorem run_append (hfront : run m front = some (tokens, next)) (hback : run next back = some (more, last)) :
    run m (front ++ back) = some (tokens ++ more, last) := by
  induction front generalizing m tokens with
  | nil =>
    cases hfront
    exact hback
  | cons c rest ih =>
    rw [run] at hfront
    obtain ⟨⟨token, behind⟩, hstep, hbehind⟩ := Option.bind_eq_some_iff.1 hfront
    obtain ⟨⟨others, after⟩, hrest, hresult⟩ := Option.map_eq_some_iff.1 hbehind
    cases hresult
    rw [List.cons_append, run_cons hstep (ih hrest), List.append_assoc]

theorem lex_of_run (hrun : run .between front = some (tokens, last)) (hfinish : finish last = some more) :
    lex front = some (tokens ++ more) := by
  rw [lex, hrun, Option.bind_some, hfinish]
  rfl

end

/-- A character that means nothing to the shell, wherever it stands. -/
def isPlain (c : Char) : Bool :=
  !isBlank c && !isOperatorStart c && !isExpansion c && c != '\'' && c != '"' && c != '\\' && c != '#' && c != '*' &&
    c != '?' && c != '[' && c != '~' && c != '=' && c != Char.ofNat 0

theorem isPlain_of_isDigit {c : Char} (h : c.isDigit = true) : isPlain c = true := by
  have hdigits : ∀ n ∈ List.range 10, isPlain (Char.ofNat (n + 48)) = true := by decide
  have hbounds : 48 ≤ c.toNat ∧ c.toNat ≤ 57 := by
    simpa [Char.isDigit, UInt32.le_iff_toNat_le] using h
  have hdigit := hdigits (c.toNat - 48) (List.mem_range.2 (by omega))
  have hcode : c.toNat - 48 + 48 = c.toNat := by omega
  rwa [hcode, Char.ofNat_toNat] at hdigit

/-- The token of an unquoted text. -/
def plainWord (text : List Char) : ShellWord := text.map (·, false)

def quotedWord (text : List Char) : ShellWord := text.map (·, true)

theorem step_word_plain {c : Char} (h : isPlain c = true) (read : ShellWord) :
    step (.word read) c = some (none, .word (read ++ [(c, false)])) := by
  simp only [isPlain, Bool.and_eq_true, Bool.not_eq_true', bne_iff_ne, ne_eq] at h
  obtain ⟨⟨⟨⟨⟨⟨⟨⟨⟨⟨⟨⟨hblank, hoperator⟩, hexpansion⟩, hsingle⟩, hdouble⟩, hslash⟩, -⟩, -⟩, -⟩, -⟩, -⟩, -⟩, hnul⟩ := h
  have hdescriptor : isDescriptor read c = false := by
    simp only [isOperatorStart, Bool.or_eq_false_iff, decide_eq_false_iff_not] at hoperator
    simp [isDescriptor, hoperator.1.1.2, hoperator.1.2]
  simp [step, inWord, hnul, hblank, hoperator, hdescriptor, hexpansion, hsingle, hdouble, hslash]

theorem run_word_plain {text : List Char} (h : ∀ c ∈ text, isPlain c = true) (read : ShellWord) :
    run (.word read) text = some ([], .word (read ++ plainWord text)) := by
  induction text generalizing read with
  | nil =>
    rw [plainWord, List.map_nil, List.append_nil]
    rfl
  | cons c rest ih =>
    rw [List.forall_mem_cons] at h
    rw [run_cons (step_word_plain h.1 read) (ih h.2 _), List.append_assoc]
    rfl

/-- A plain text begins a word. -/
theorem run_plain {text : List Char} (h : ∀ c ∈ text, isPlain c = true) (hne : text ≠ []) :
    run .between text = some ([], .word (plainWord text)) := by
  cases text with
  | nil => exact absurd rfl hne
  | cons c rest =>
    rw [List.forall_mem_cons] at h
    have hstart : step .between c = some (none, .word [(c, false)]) := by
      have hc := h.1
      simp only [isPlain, Bool.and_eq_true, Bool.not_eq_true', bne_iff_ne, ne_eq] at hc
      obtain ⟨⟨⟨⟨⟨⟨⟨⟨⟨⟨⟨⟨hblank, hoperator⟩, hexpansion⟩, hsingle⟩, hdouble⟩, hslash⟩, hcomment⟩, -⟩, -⟩, -⟩, -⟩,
        -⟩, hnul⟩ := hc
      simp [step, start, inWord, hnul, hblank, hcomment, hoperator, hexpansion, hsingle, hdouble, hslash]
    exact run_cons hstart (run_word_plain h.2 _)

/-- Nothing means anything between single quotes but the quote. -/
theorem step_single {c : Char} (hnul : c ≠ Char.ofNat 0) (hquote : c ≠ '\'') (read : ShellWord) :
    step (.single read) c = some (none, .single (read ++ [(c, true)])) := by
  rw [step, if_neg hnul]
  simp only [if_neg hquote]

theorem literal_of {w : ShellWord}
    (hany : w.any (fun x => !x.2 && (x.1 = '*' || x.1 = '?' || x.1 = '[')) = false)
    (hhead : (w.head? == some ('~', false)) = false) : literal w = some (w.map Prod.fst) := by
  rw [literal, hany, hhead]
  rfl

/-- In a quoted word nothing is expanded. -/
theorem literal_quoted (text : List Char) : literal (quotedWord text) = some text := by
  have hhead : ((quotedWord text).head? == some ('~', false)) = false := by
    cases text with
    | nil => rfl
    | cons c rest => simp [quotedWord]
  rw [literal_of (by simp [quotedWord]) hhead, quotedWord, List.map_map]
  exact congrArg some (List.map_id text)

theorem literal_plain {text : List Char} (h : ∀ c ∈ text, isPlain c = true) : literal (plainWord text) = some text := by
  have hplain : ∀ c ∈ text, c ≠ '*' ∧ c ≠ '?' ∧ c ≠ '[' ∧ c ≠ '~' := by
    intro c hc
    have hc := h c hc
    simp only [isPlain, Bool.and_eq_true, bne_iff_ne, ne_eq] at hc
    exact ⟨hc.1.1.1.1.1.2, hc.1.1.1.1.2, hc.1.1.1.2, hc.1.1.2⟩
  have hany : (plainWord text).any (fun x => !x.2 && (x.1 = '*' || x.1 = '?' || x.1 = '[')) = false := by
    rw [plainWord, List.any_map, List.any_eq_false]
    intro c hc
    simp [(hplain c hc).1, (hplain c hc).2.1, (hplain c hc).2.2.1]
  have hhead : ((plainWord text).head? == some ('~', false)) = false := by
    cases text with
    | nil => rfl
    | cons c rest => simp [plainWord, (hplain c List.mem_cons_self).2.2.2]
  rw [literal_of hany hhead, plainWord, List.map_map]
  exact congrArg some (List.map_id text)

theorem addWord_of {command : SimpleCommand} {w : ShellWord} {arg : List Char} (hliteral : literal w = some arg)
    (hfirst : command.args ≠ [] ∨ isSpecialFirst w = false) :
    command.addWord w = some { command with args := command.args ++ [arg] } := by
  rw [SimpleCommand.addWord, if_neg, hliteral]
  · rfl
  · rintro ⟨hempty, hspecial⟩
    rcases hfirst with hargs | hplain
    · exact hargs hempty
    · rw [hplain] at hspecial
      cases hspecial

/-- A word behind the first one is the next argument. -/
theorem readCommands_word {current : SimpleCommand} {w : ShellWord} {arg : List Char} {rest : List ShellToken}
    (hliteral : literal w = some arg) (hargs : current.args ≠ []) :
    readCommands current (.word w :: rest) =
      readCommands { current with args := current.args ++ [arg] } rest := by
  rw [readCommands, addWord_of hliteral (Or.inl hargs)]
  rfl

end Shell

end Workbench.Lib
