import Mathlib.Data.List.Basic
import Workbench.Base.Text

/-!
# The Redis console

`ExecuteCommands` and `splitCommand` of `api/internal/redisdb/service.go`. A double quote only turns the quoting on or
off, and a word without characters is dropped, so the argument lists that a line can give are those without empty
arguments and double quotes (`keeps_arguments_iff`).
-/

set_option autoImplicit false

namespace Workbench.Redis

/-! ## Words -/

/-- The words so far, the one that is being read, and whether a quote is open. -/
structure Splitting where
  parts : List Text
  current : Text
  inQuotes : Bool
  deriving DecidableEq

def Splitting.step (s : Splitting) (r : Char) : Splitting :=
  if r = '"' then { s with inQuotes := !s.inQuotes }
  else if (r = ' ' ∨ r = '\t') ∧ s.inQuotes = false then
    if s.current = [] then s else { s with parts := s.parts ++ [s.current], current := [] }
  else { s with current := s.current ++ [r] }

def Splitting.finish (s : Splitting) : List Text := if s.current = [] then s.parts else s.parts ++ [s.current]

def splitCommand (line : Text) : List Text := (line.foldl Splitting.step ⟨[], [], false⟩).finish

/-- Each argument in double quotes, with blanks between. -/
def wrap (args : List Text) : Text := [' '].intercalate (args.map fun arg => '"' :: (arg ++ ['"']))

theorem wrap_cons_cons (arg next : Text) (more : List Text) :
    wrap (arg :: next :: more) = '"' :: (arg ++ ['"']) ++ ' ' :: wrap (next :: more) := by
  rw [wrap, wrap, List.map_cons, List.map_cons, List.intercalate_cons_cons, List.append_assoc]
  rfl

theorem head_wrap {args : List Text} (hne : args ≠ []) : (wrap args).head? = some '"' := by
  cases args with
  | nil => exact absurd rfl hne
  | cons arg rest =>
    cases rest with
    | nil => rw [wrap, List.map_singleton, List.intercalate_singleton, List.head?_cons]
    | cons next more => rw [wrap_cons_cons, List.cons_append, List.head?_cons]

/-! ## Commands -/

def blockedCommands : List Text :=
  ["FLUSHALL", "FLUSHDB", "CONFIG", "DEBUG", "SHUTDOWN", "SLAVEOF", "REPLICAOF"].map String.toList

/-- Whether the console refuses a command. -/
def isBlocked (args : List Text) : Bool := args.head?.any fun name => blockedCommands.contains (toUpper name)

def maxCommandLines : Nat := 50

structure CommandOutput (R : Type) where
  command : Text
  output : Option R
  error : Text

/-- The outputs so far, and the commands that were sent. -/
structure Console (R : Type) where
  outputs : List (CommandOutput R)
  sent : List (List Text)

section

variable {R : Type}

/-- One round of the loop. The server answers a command behind those that were sent before. -/
def Console.execute (server : List (List Text) → List Text → Except Text R) (console : Console R) (line : Text) :
    Console R :=
  let line := trimSpace line
  if line = [] ∨ line.head? = some '#' then console
  else
    match splitCommand line with
    | [] => console
    | name :: args =>
      if toUpper name ∈ blockedCommands then
        { console with outputs := console.outputs ++ [⟨line, none, "command blocked for safety".toList⟩] }
      else
        let output :=
          match server console.sent (name :: args) with
          | .error e => ⟨line, none, e⟩
          | .ok value => ⟨line, some value, []⟩
        ⟨console.outputs ++ [output], console.sent ++ [name :: args]⟩

def executeCommands (server : List (List Text) → List Text → Except Text R) (commands : List Text) :
    Except Text (Console R) :=
  if commands = [] then .error "commands are required".toList
  else if maxCommandLines < commands.length then
    .error ("too many commands, max ".toList ++ Nat.toDigits 10 maxCommandLines)
  else .ok (commands.foldl (Console.execute server) ⟨[], []⟩)

end

/-! ## What a line can give -/

/-- A word that is kept. -/
def IsWord (word : Text) : Prop := word ≠ [] ∧ '"' ∉ word

/-- No word has been read that is empty or has a quote. -/
structure Splitting.Sound (s : Splitting) : Prop where
  parts : ∀ word ∈ s.parts, IsWord word
  current : '"' ∉ s.current

namespace Splitting

variable {s : Splitting} {line arg : Text} {parts : List Text}

theorem Sound.close (h : s.Sound) (hne : s.current ≠ []) : ∀ word ∈ s.parts ++ [s.current], IsWord word := by
  intro word hword
  rcases List.mem_append.1 hword with hpart | hlast
  · exact h.parts word hpart
  · rw [List.mem_singleton.1 hlast]
    exact ⟨hne, h.current⟩

theorem Sound.step (h : s.Sound) (r : Char) : (s.step r).Sound := by
  rw [Splitting.step]
  split_ifs with hquote hblank hempty
  · exact ⟨h.parts, h.current⟩
  · exact h
  · exact ⟨h.close hempty, List.not_mem_nil⟩
  · refine ⟨h.parts, fun hmem => ?_⟩
    rcases List.mem_append.1 hmem with hcurrent | hlast
    · exact h.current hcurrent
    · exact hquote (List.mem_singleton.1 hlast).symm

theorem Sound.foldl (h : s.Sound) (line : Text) : (line.foldl Splitting.step s).Sound := by
  induction line generalizing s with
  | nil => exact h
  | cons r rest ih => exact ih (h.step r)

theorem Sound.finish (h : s.Sound) : ∀ word ∈ s.finish, IsWord word := by
  rw [Splitting.finish]
  split_ifs with hempty
  · exact h.parts
  · exact h.close hempty

/-! ## Quoted arguments -/

/-- What stands between quotes is taken as it is. -/
theorem foldl_quoted (hquote : '"' ∉ arg) : ∀ current : Text,
    arg.foldl Splitting.step ⟨parts, current, true⟩ = ⟨parts, current ++ arg, true⟩ := by
  induction arg with
  | nil =>
    intro current
    rw [List.foldl_nil, List.append_nil]
  | cons r rest ih =>
    intro current
    rw [List.mem_cons, not_or] at hquote
    have hstep : Splitting.step ⟨parts, current, true⟩ r = ⟨parts, current ++ [r], true⟩ := by
      rw [Splitting.step, if_neg (Ne.symm hquote.1), if_neg (fun h => Bool.false_ne_true h.2.symm)]
    rw [List.foldl_cons, hstep, ih hquote.2, List.append_assoc, List.singleton_append]

theorem foldl_wrapped (hquote : '"' ∉ arg) :
    ('"' :: (arg ++ ['"'])).foldl Splitting.step ⟨parts, [], false⟩ = ⟨parts, arg, false⟩ := by
  rw [List.foldl_cons, List.foldl_append]
  show List.foldl _ (arg.foldl Splitting.step ⟨parts, [], true⟩) ['"'] = _
  rw [foldl_quoted hquote]
  rfl

/-- A blank behind an argument ends it; one without characters is gone. -/
theorem step_blank : Splitting.step ⟨parts, arg, false⟩ ' ' = ⟨parts ++ [arg].filter (· ≠ []), [], false⟩ := by
  cases arg with
  | nil => simp [Splitting.step]
  | cons c rest => simp [Splitting.step]

/-- The line of arguments in quotes gives those that have characters. -/
theorem finish_wrap {args : List Text} (hquotes : ∀ arg ∈ args, '"' ∉ arg) : ∀ parts : List Text,
    ((wrap args).foldl Splitting.step ⟨parts, [], false⟩).finish = parts ++ args.filter (· ≠ []) := by
  -- By induction over the arguments, between two of which there is a blank outside of quotes.
  induction args with
  | nil =>
    intro parts
    exact (List.append_nil parts).symm
  | cons arg rest ih =>
    intro parts
    have harg : '"' ∉ arg := hquotes arg List.mem_cons_self
    cases rest with
    | nil =>
      rw [wrap, List.map_singleton, List.intercalate_singleton, foldl_wrapped harg]
      cases arg with
      | nil => simp [Splitting.finish]
      | cons c more => simp [Splitting.finish]
    | cons next more =>
      rw [wrap_cons_cons, List.foldl_append, foldl_wrapped harg, List.foldl_cons, step_blank,
        ih (fun a ha => hquotes a (List.mem_cons_of_mem _ ha)), List.append_assoc, ← List.filter_append]
      rfl

end Splitting

theorem isWord_of_mem_splitCommand {line word : Text} (h : word ∈ splitCommand line) : IsWord word := by
  have hstart : (⟨[], [], false⟩ : Splitting).Sound := ⟨fun _ hmem => absurd hmem List.not_mem_nil, List.not_mem_nil⟩
  exact (hstart.foldl line).finish word h

theorem splitCommand_wrap {args : List Text} (hquotes : ∀ arg ∈ args, '"' ∉ arg) :
    splitCommand (wrap args) = args.filter (· ≠ []) := by
  rw [splitCommand, Splitting.finish_wrap hquotes, List.nil_append]

/-! ## What is sent -/

/-- A line of arguments in quotes has nothing around it to trim. -/
theorem trimSpace_wrap {args : List Text} (hne : args ≠ []) : trimSpace (wrap args) = wrap args := by
  have hends : ∀ args : List Text, args ≠ [] → ∃ front, wrap args = front ++ ['"'] := by
    intro args hne
    induction args with
    | nil => exact absurd rfl hne
    | cons arg rest ih =>
      cases rest with
      | nil => exact ⟨'"' :: arg, by rw [wrap, List.map_singleton, List.intercalate_singleton, List.cons_append]⟩
      | cons next more =>
        obtain ⟨front, hfront⟩ := ih (List.cons_ne_nil _ _)
        refine ⟨'"' :: (arg ++ ['"']) ++ ' ' :: front, ?_⟩
        rw [wrap_cons_cons, hfront, List.append_assoc]
        rfl
  -- It begins and ends with a quote, which is no blank.
  rw [trimSpace_eq_self]
  obtain ⟨front, hfront⟩ := hends args hne
  constructor
  · intro c hc
    rw [head_wrap hne, Option.mem_some_iff] at hc
    rw [← hc]
    decide
  · intro c hc
    rw [hfront, List.getLast?_concat, Option.mem_some_iff] at hc
    rw [← hc]
    decide

section

variable {R : Type} {server : List (List Text) → List Text → Except Text R} {console : Console R}

/-- A line that is split into the words of a command sends just these, unless the command is blocked. -/
theorem sent_execute {line : Text} {args : List Text} (hne : args ≠ []) (hline : trimSpace line = line)
    (hhead : line.head? = some '"') (hsplit : splitCommand line = args) :
    (console.execute server line).sent = console.sent ++ if isBlocked args then [] else [args] := by
  have hthrough : ¬(line = [] ∨ line.head? = some '#') := by
    rw [hhead]
    rintro (rfl | hcomment)
    · cases hhead
    · exact absurd (Option.some.inj hcomment) (by decide)
  cases args with
  | nil => exact absurd rfl hne
  | cons name rest =>
    rw [Console.execute, hline]
    dsimp only
    rw [if_neg hthrough, hsplit, isBlocked, List.head?_cons, Option.any_some]
    dsimp only
    -- Only a command that is not blocked comes to the server.
    by_cases hblocked : toUpper name ∈ blockedCommands
    · rw [if_pos hblocked, if_pos (List.contains_iff_mem.2 hblocked), List.append_nil]
    · rw [if_neg hblocked, if_neg fun h => hblocked (List.contains_iff_mem.1 h)]

/-- What arguments in quotes send; those without characters are missing. -/
theorem sent_wrap {args : List Text} (hquotes : ∀ arg ∈ args, '"' ∉ arg) (hne : args ≠ [])
    (hall : ∀ arg ∈ args, arg ≠ []) :
    (console.execute server (wrap args)).sent = console.sent ++ if isBlocked args then [] else [args] := by
  refine sent_execute hne (trimSpace_wrap hne) (head_wrap hne) ?_
  rw [splitCommand_wrap hquotes, List.filter_eq_self]
  intro arg harg
  exact decide_eq_true (hall arg harg)

end

/-! ## What the console sends -/

/-- The command of a line; there is none in a comment. -/
def commandOf (line : Text) : List Text :=
  if (trimSpace line).head? = some '#' then [] else splitCommand (trimSpace line)

/-- Each line that is read comes out, and the commands that are not blocked are sent. -/
structure Console.Through {R : Type} (console after : Console R) (lines : List Text) : Prop where
  sent : after.sent = console.sent ++ (lines.map commandOf).filter fun args => args ≠ [] && !isBlocked args
  outputs : after.outputs.map CommandOutput.command =
    console.outputs.map CommandOutput.command ++ (lines.filter fun line => commandOf line ≠ []).map trimSpace

section

variable {R : Type} (server : List (List Text) → List Text → Except Text R)

theorem through_execute (console : Console R) (line : Text) :
    console.Through (console.execute server line) [line] := by
  rw [Console.execute]
  dsimp only
  split_ifs with hskipped
  · -- an empty line has no words, and a comment is no command
    have hnone : commandOf line = [] := by
      rcases hskipped with hempty | hcomment
      · simp [commandOf, hempty, splitCommand, Splitting.finish]
      · simp [commandOf, hcomment]
    constructor <;> simp [hnone]
  · have hcommand : commandOf line = splitCommand (trimSpace line) := if_neg fun h => hskipped (Or.inr h)
    cases hsplit : splitCommand (trimSpace line) with
    | nil =>
      rw [hsplit] at hcommand
      constructor <;> simp [hcommand]
    | cons name args =>
      rw [hsplit] at hcommand
      dsimp only
      split_ifs with hblocked
      · constructor <;> simp [hcommand, isBlocked, hblocked]
      · constructor
        · simp [hcommand, isBlocked, hblocked]
        · cases server console.sent (name :: args) <;> simp [hcommand]

theorem through_foldl (lines : List Text) (console : Console R) :
    console.Through (lines.foldl (Console.execute server) console) lines := by
  induction lines generalizing console with
  | nil => exact ⟨by simp, by simp⟩
  | cons line rest ih =>
    have hfirst := through_execute server console line
    have hrest := ih (console.execute server line)
    constructor
    · rw [List.foldl_cons, hrest.sent, hfirst.sent, List.append_assoc, ← List.filter_append, ← List.map_append]
      rfl
    · rw [List.foldl_cons, hrest.outputs, hfirst.outputs, List.append_assoc, ← List.map_append, ← List.filter_append]
      rfl

/-- **The console sends the commands of its lines in order but for those that are blocked, however these are spelled,
and has an output for each line with a command; or it has no lines, or too many, and sends nothing.** -/
theorem executeCommands_through (commands : List Text) :
    match executeCommands server commands with
    | .ok console => Console.Through ⟨[], []⟩ console commands
    | .error _ => commands = [] ∨ maxCommandLines < commands.length := by
  rw [executeCommands]
  split_ifs with hnone hmany
  · exact Or.inl hnone
  · exact Or.inr hmany
  · exact through_foldl server commands _

end

/-- The line of the arguments in quotes is read and sent as just these, if they have no quotes; and some line is read
as just these. -/
structure Kept (args : List Text) : Prop where
  wrapped : args ≠ [] → (∀ arg ∈ args, '"' ∉ arg) → splitCommand (wrap args) = args
  sent : args ≠ [] → (∀ arg ∈ args, '"' ∉ arg) → ∀ {R : Type} (server : List (List Text) → List Text → Except Text R)
    (console : Console R), (console.execute server (wrap args)).sent =
      console.sent ++ if isBlocked args then [] else [args]
  some_line : ∃ line, splitCommand line = args

/-- **Arguments are kept just if none is empty and none has a double quote.** -/
theorem keeps_arguments_iff (args : List Text) : Kept args ↔ ∀ arg ∈ args, arg ≠ [] ∧ '"' ∉ arg := by
  constructor
  · intro h arg harg
    obtain ⟨line, rfl⟩ := h.some_line
    exact isWord_of_mem_splitCommand harg
  · intro h
    have hquotes : ∀ arg ∈ args, '"' ∉ arg := fun arg harg => (h arg harg).2
    have hsplit : splitCommand (wrap args) = args := by
      rw [splitCommand_wrap hquotes, List.filter_eq_self]
      intro arg harg
      exact decide_eq_true (h arg harg).1
    exact {
      wrapped := fun _ _ => hsplit
      sent := fun hne _ _ _ _ => sent_wrap hquotes hne fun arg harg => (h arg harg).1
      some_line := ⟨wrap args, hsplit⟩ }

/-- `SET key ""` becomes `SET key`. -/
theorem set_empty_not_kept :
    splitCommand (wrap ["SET".toList, "key".toList, []]) = ["SET".toList, "key".toList] ∧
      ¬Kept ["SET".toList, "key".toList, []] := by
  have hsplit : splitCommand (wrap ["SET".toList, "key".toList, []]) = ["SET".toList, "key".toList] := by decide
  refine ⟨hsplit, fun h => ?_⟩
  have hkept := h.wrapped (by decide) (by decide)
  rw [hsplit] at hkept
  exact absurd (congrArg List.length hkept) (by decide)

end Workbench.Redis
