import Workbench.Lib.Double
import Workbench.Lib.ShellWords
import Workbench.Logs.RemotePaths

/-!
# The tail command

`ShellQuote` and the command of `Tail` in `api/internal/sshlog/service.go`, read as a POSIX shell reads it: what is
quoted is one word (`words_shellQuote`), so that the command is the two invocations that were meant
(`tail_shell_safe`).
-/

set_option autoImplicit false

namespace Workbench.Logs

open Workbench.Lib
open scoped Workbench.Characters

/-- A quote is closed, written between double quotes, and opened again. -/
def quoteChar (c : Char) : Text := if c = '\'' then "'\"'\"'".toList else [c]

def shellQuote (value : Text) : Text := '\'' :: (value.flatMap quoteChar ++ ['\''])

def clampLines (lines : Int) : Nat := if lines < 0 then 0 else if lines > 5000 then 5000 else lines.toNat

/-- The command that `Tail` starts. -/
def tailCommand (remotePath : Text) (lines : Int) : Except Text Text := do
  let safePath ← validateRemotePath remotePath
  let count := Nat.toDigits 10 (clampLines lines)
  return "tail -n ".toList ++ count ++ " -F -- ".toList ++ shellQuote safePath ++
    " 2>/dev/null || tail -n ".toList ++ count ++ " -f -- ".toList ++ shellQuote safePath

example : tailCommand "/var/log/it's.log".toList (-1) =
    .ok "tail -n 0 -F -- '/var/log/it'\"'\"'s.log' 2>/dev/null || tail -n 0 -f -- '/var/log/it'\"'\"'s.log'".toList := by
  decide

/-! ## Quoting -/

open Shell in
/-- A character is read as it is, also a quote, behind which the single quotes are open again. -/
theorem run_quoteChar {c : Char} (hnul : c ≠ Char.ofNat 0) (read : ShellWord) :
    run (.single read) (quoteChar c) = some ([], .single (read ++ [(c, true)])) := by
  unfold quoteChar
  split
  · next hquote =>
      rw [hquote]
      rfl
  · next hquote =>
      exact run_cons (step_single hnul hquote read) rfl

open Shell in
theorem run_quoted {value : Text} (hnul : Char.ofNat 0 ∉ value) (read : ShellWord) :
    run (.single read) (value.flatMap quoteChar) = some ([], .single (read ++ quotedWord value)) := by
  induction value generalizing read with
  | nil =>
    rw [quotedWord, List.map_nil, List.append_nil]
    rfl
  | cons c rest ih =>
    rw [List.mem_cons, not_or] at hnul
    rw [List.flatMap_cons, run_append (run_quoteChar (Ne.symm hnul.1) read) (ih hnul.2 _), List.append_assoc]
    rfl

open Shell in
/-- What is quoted is one word. -/
theorem run_shellQuote {value : Text} (hnul : Char.ofNat 0 ∉ value) :
    run .between (shellQuote value) = some ([], .word (quotedWord value)) := by
  have hopened : step .between '\'' = some (none, .single []) := rfl
  have hclosed : run (.single (quotedWord value)) ['\''] = some ([], .word (quotedWord value)) := rfl
  exact run_cons hopened (run_append (run_quoted hnul []) hclosed)

theorem words_shellQuote {value : Text} (hnul : Char.ofNat 0 ∉ value) :
    Shell.words (shellQuote value) = some [value] := by
  rw [Shell.words, Shell.lex_of_run (run_shellQuote hnul) rfl, Option.bind_some]
  show (Shell.literal (Shell.quotedWord value)).bind _ = _
  rw [Shell.literal_quoted]
  rfl

/-! ## The command -/

/-- One invocation of `tail`. -/
def tailArgs (count : Nat) (follow path : Text) : List Text :=
  ["tail".toList, "-n".toList, Nat.toDigits 10 count, follow, "--".toList, path]

/-- What the shell is meant to execute: the second invocation only if the first one fails. -/
def tailInvocations (count : Nat) (path : Text) : List (Shell.SimpleCommand × Option Text) :=
  [(⟨tailArgs count "-F".toList path, [⟨some "2".toList, ">".toList, "/dev/null".toList⟩]⟩, some "||".toList),
    (⟨tailArgs count "-f".toList path, []⟩, none)]

section

open Shell

theorem plain_count (count : Nat) : ∀ c ∈ Nat.toDigits 10 count, isPlain c = true :=
  fun _ hc => isPlain_of_isDigit (Decimal.digits_isDigit hc)

/-- The tokens of an invocation behind its first word, in front of its path. -/
def tailTokens (count : Nat) (follow : Text) : List ShellToken :=
  ["-n".toList, Nat.toDigits 10 count, follow, "--".toList].map fun word => .word (plainWord word)

/-- An invocation is read up to the end of its path. -/
theorem run_invocation {m : Mode} {front path : Text} {tokens : List ShellToken} (option follow : Text) (count : Nat)
    (hnul : Char.ofNat 0 ∉ path) (hfront : run m front = some (tokens ++ [.word (plainWord "-n".toList)], .between))
    (hoption : ∀ w, run (.word w) option =
      some ([.word w, .word (plainWord follow), .word (plainWord "--".toList)], .between)) :
    run m (front ++ Nat.toDigits 10 count ++ option ++ shellQuote path) =
      some (tokens ++ tailTokens count follow, .word (quotedWord path)) := by
  have hcount := run_plain (plain_count count) Nat.toDigits_ne_nil
  rw [run_append (run_append (run_append hfront hcount) (hoption _)) (run_shellQuote hnul)]
  simp [tailTokens]

theorem readCommands_invocation {follow path : Text} (hfollow : ∀ c ∈ follow, isPlain c = true) (count : Nat)
    (rest : List ShellToken) :
    readCommands ⟨["tail".toList], []⟩ (tailTokens count follow ++ .word (quotedWord path) :: rest) =
      readCommands ⟨tailArgs count follow path, []⟩ rest := by
  have hne : ∀ (arg : Text) (args : List Text), arg :: args ≠ [] := List.cons_ne_nil
  show readCommands ⟨["tail".toList], []⟩ (.word (plainWord "-n".toList) :: .word (plainWord (Nat.toDigits 10 count)) ::
    .word (plainWord follow) :: .word (plainWord "--".toList) :: .word (quotedWord path) :: rest) = _
  rw [readCommands_word (literal_plain (by decide)) (hne _ _), readCommands_word (literal_plain (plain_count count)),
    readCommands_word (literal_plain hfollow), readCommands_word (literal_plain (by decide)),
    readCommands_word (literal_quoted path)]
  · rfl
  all_goals exact hne _ _

/-- The two invocations are read from the command. -/
theorem commands_tail {path : Text} (hnul : Char.ofNat 0 ∉ path) (count : Nat) :
    commands ("tail -n ".toList ++ Nat.toDigits 10 count ++ " -F -- ".toList ++ shellQuote path ++
      " 2>/dev/null || tail -n ".toList ++ Nat.toDigits 10 count ++ " -f -- ".toList ++ shellQuote path) =
      some (tailInvocations count path) := by
  have hopened : run .between "tail -n ".toList =
      some ([.word (plainWord "tail".toList)] ++ [.word (plainWord "-n".toList)], .between) := rfl
  have hfirst := run_invocation " -F -- ".toList "-F".toList count hnul hopened fun _ => rfl
  have hbetween : run (.word (quotedWord path)) " 2>/dev/null || tail -n ".toList =
      some ([.word (quotedWord path), .op (some "2".toList) ">".toList, .word (plainWord "/dev/null".toList),
        .op none "||".toList, .word (plainWord "tail".toList)] ++ [.word (plainWord "-n".toList)], .between) := rfl
  have hjoined := run_append hfirst hbetween
  rw [← List.append_assoc] at hjoined
  have hboth := run_invocation " -f -- ".toList "-f".toList count hnul hjoined fun _ => rfl
  rw [commands, lex_of_run hboth rfl, Option.bind_some]
  simp only [List.append_assoc, List.cons_append, List.nil_append]
  -- the second invocation, behind the operator
  have hsecond : readCommands ⟨["tail".toList], []⟩ (tailTokens count "-f".toList ++ [.word (quotedWord path)]) =
      some [(⟨tailArgs count "-f".toList path, []⟩, none)] :=
    readCommands_invocation (by decide) count []
  show readCommands ⟨["tail".toList], []⟩ (tailTokens count "-F".toList ++ .word (quotedWord path) ::
    .op (some "2".toList) ">".toList :: .word (plainWord "/dev/null".toList) :: .op none "||".toList ::
    .word (plainWord "tail".toList) :: (tailTokens count "-f".toList ++ [.word (quotedWord path)])) = _
  rw [readCommands_invocation (by decide)]
  show (readCommands ⟨["tail".toList], []⟩ (tailTokens count "-f".toList ++ [.word (quotedWord path)])).map _ = _
  rw [hsecond]
  rfl

end

/-- **The shell executes the two invocations of `tail` and nothing else, each with the validated path as one
argument; a quoted text is read as itself.** -/
theorem tail_shell_safe {remotePath path : Text} (h : validateRemotePath remotePath = .ok path) (lines : Int) :
    (∃ command, tailCommand remotePath lines = .ok command ∧
      Shell.commands command = some (tailInvocations (clampLines lines) path)) ∧
      ∀ value : Text, Char.ofNat 0 ∉ value → Shell.words (shellQuote value) = some [value] := by
  obtain ⟨rest, -, hnul, rfl⟩ := validateRemotePath_eq_ok.1 h
  refine ⟨?_, fun _ => words_shellQuote⟩
  have hcommand := commands_tail (fun hmem => hnul (mem_of_mem_clean hmem)) (clampLines lines)
  refine ⟨_, ?_, hcommand⟩
  rw [tailCommand, h]
  rfl

/-- A path that tries to leave its quotes and run a command of its own. -/
theorem tail_shell_safe_quote :
    (∃ command, tailCommand "/tmp/x'; reboot; '".toList 100 = .ok command ∧
      Shell.commands command = some (tailInvocations 100 "/tmp/x'; reboot; '".toList)) ∧
      ∀ value : Text, Char.ofNat 0 ∉ value → Shell.words (shellQuote value) = some [value] := by
  have haccepted : validateRemotePath "/tmp/x'; reboot; '".toList = .ok "/tmp/x'; reboot; '".toList := by decide
  exact tail_shell_safe haccepted 100

end Workbench.Logs
