import Workbench.Lib.Splits
import Workbench.Logs.Import

/-!
# Reading a log line

`ParseLogLine` of `api/internal/logs/store.go` with its regular expressions, and the scanner of `indexFile`.

`time.Parse` and `json.Unmarshal` are taken as they come. The regular expressions of Go prefer what a
backtracking engine finds first, so they are matchers.
-/

set_option autoImplicit false

namespace Workbench.Logs

open Workbench.Lib

/-! ## What comes from the library -/

/-- A value of `map[string]any`: a number with what `int64` makes of it, and what `fmt.Sprint` prints of the
values that are looked at no further. -/
inductive JsonAny where
  | null
  | float64 (int64 : Int) (printed : Text)
  | string (text : Text)
  | other (printed : Text)
  deriving DecidableEq, Repr

/-- `fmt.Sprint`. -/
def JsonAny.sprint : JsonAny → Text
  | .null => "<nil>".toList
  | .float64 _ printed => printed
  | .string text => text
  | .other printed => printed

/-- `time.Parse` and `time.ParseInLocation` with the local zone, both as Unix milliseconds, and `json.Unmarshal`
into an object. -/
structure LineRuntime where
  timeParse : (layout value : Text) → Option Int
  timeParseInLocation : (layout value : Text) → Option Int
  unmarshal : Text → Option (List (Text × JsonAny))

/-- A runtime that reads no time and no object, for the runs on fixed inputs. -/
instance : Inhabited LineRuntime where
  default := ⟨fun _ _ => none, fun _ _ => none, fun _ => none⟩

/-! ## The regular expressions -/

/-- The class `\s` of Go. -/
def isLineSpace (c : Char) : Bool := c = '\t' || c = '\n' || c = '\x0c' || c = '\r' || c = ' '

def char (c : Char) : Matcher Char := Matcher.one fun d => d = c

def digits (n : Nat) : Matcher Char := Matcher.times n (Matcher.one isDigit)

def spaces : Matcher Char := Matcher.many1 isLineSpace

def datePart : Matcher Char := Matcher.inTurn [digits 4, char '-', digits 2, char '-', digits 2]

def clockPart : Matcher Char := Matcher.inTurn [digits 2, char ':', digits 2, char ':', digits 2]

def signPart : Matcher Char := Matcher.one fun c => c = '+' || c = '-'

/-- Group 1 of `springBracketPattern` and of `springPattern`. -/
def springStamp : Matcher Char :=
  Matcher.inTurn [datePart, Matcher.one fun c => c = ' ' || c = 'T', clockPart,
    Matcher.opt (Matcher.inTurn [char '.', Matcher.one isDigit, Matcher.upTo isDigit 8])]

/-- Between the groups of `springBracketPattern`. -/
def bracketPart : Matcher Char :=
  Matcher.inTurn [spaces, char '[', Matcher.many1 fun c => c ≠ ']', char ']', spaces]

/-- Group 1 of `isoPattern`. -/
def isoStamp : Matcher Char :=
  Matcher.inTurn [datePart, char 'T', clockPart, Matcher.opt (Matcher.inTurn [char '.', Matcher.many1 isDigit]),
    Matcher.opt (Matcher.oneOf [char 'Z',
      Matcher.inTurn [signPart, digits 2, Matcher.opt (char ':'), digits 2]])]

/-- Group 1 of `nginxPattern`. -/
def nginxStamp : Matcher Char :=
  Matcher.inTurn [digits 2, char '/', Matcher.times 3 (Matcher.one isLetter), char '/', digits 4, char ':',
    clockPart, char ' ', signPart, digits 4]

def levelWords : List Text := ["ERROR", "WARN", "WARNING", "INFO", "DEBUG", "TRACE"].map String.toList

/-- What a text has in front of one of its rests. -/
def before (text rest : Text) : Text := text.take (text.length - rest.length)

/-- The groups of the two spring patterns, and what is behind the match. -/
def matchSpring (between : Matcher Char) (line : Text) : Option (Text × Text × Text) :=
  ((springStamp line).flatMap fun behindStamp =>
    (between behindStamp).flatMap fun atLevel =>
      levelWords.flatMap fun level =>
        ((Matcher.word id level atLevel).flatMap spaces).map fun rest =>
          (before line behindStamp, level, rest)).head?

/-- Group 1 of the first match of `nginxPattern`. -/
def matchNginx : Text → Option Text
  | [] => none
  | c :: rest =>
    let stamps := (nginxStamp rest).filter fun behind => behind.head? = some ']'
    if c = '[' ∧ stamps ≠ [] then stamps.head?.map (before rest) else matchNginx rest

/-- The class `\w`. -/
def isLineWord (c : Char) : Bool := isLetter c || isDigit c || c = '_'

/-- The level in front of a message, up to a word boundary. -/
def leadingLevel (upper : Text) : Option Text :=
  levelWords.find? fun level =>
    level.isPrefixOf upper && !(upper.drop level.length).head?.any isLineWord

/-- `text[n:]` for a number of bytes. -/
def dropBytes : Nat → Text → Text
  | 0, text => text
  | _, [] => []
  | n, c :: rest => dropBytes (n - c.utf8Size) rest

/-! ## The parser -/

section

variable (rt : LineRuntime)

def timeLayouts : List Text :=
  ["2006-01-02T15:04:05.999999999Z07:00", "2006-01-02T15:04:05.999999999", "2006-01-02T15:04:05.999",
    "2006-01-02T15:04:05", "2006-01-02 15:04:05.999999999", "2006-01-02 15:04:05.999",
    "2006-01-02 15:04:05"].map String.toList

def parseLogTimestamp (value : Text) : Option Int :=
  let value := trimSpace value
  timeLayouts.findSome? fun layout =>
    if "Z07".toList <:+: layout ∨ ['Z'] <:+ value ∨ '+' ∈ value then rt.timeParse layout value
    else rt.timeParseInLocation layout value

def normalizeLevel (raw : Text) : Text :=
  let level := toUpper (trimSpace raw)
  if level = "ERROR".toList ∨ level = "ERR".toList then "ERROR".toList
  else if level = "WARN".toList ∨ level = "WARNING".toList then "WARN".toList
  else if level = "INFO".toList then "INFO".toList
  else if level = "DEBUG".toList then "DEBUG".toList
  else if level = "TRACE".toList then "TRACE".toList
  else "UNKNOWN".toList

def firstValue (obj : List (Text × JsonAny)) (keys : List Text) : JsonAny :=
  (keys.findSome? fun key => (obj.find? fun entry => entry.1 = key).map Prod.snd).getD .null

def LineParse.withFallback (p : LineParse) (last : Option Int) : LineParse :=
  if p.timestampMs = none ∧ last ≠ none then { p with timestampMs := last } else p

def parsePattern (between : Matcher Char) (line : Text) : Option LineParse :=
  (matchSpring between line).map fun (stamp, level, rest) =>
    ⟨parseLogTimestamp rt stamp, normalizeLevel level, trimSpace rest⟩

def parseISO (line : Text) : Option LineParse :=
  (isoStamp line).head?.map fun rest =>
    let ts := parseLogTimestamp rt (before line rest)
    let message := trimSpace rest
    match leadingLevel (toUpper message) with
    | some level => ⟨ts, normalizeLevel level, trimSpace (dropBytes level.length message)⟩
    | none => ⟨ts, "UNKNOWN".toList, message⟩

def parseJSON (line : Text) : Option LineParse :=
  if (trimSpace line).head? ≠ some (Char.ofNat 123) then none
  else
    (rt.unmarshal line).map fun obj =>
      let ts := match firstValue obj (["timestamp", "time", "@timestamp"].map String.toList) with
        | .float64 int64 _ => some int64
        | .string text => parseLogTimestamp rt text
        | _ => none
      let level := normalizeLevel (firstValue obj (["level", "severity"].map String.toList)).sprint
      let message := (firstValue obj (["message", "msg"].map String.toList)).sprint
      ⟨ts, level, if message = "<nil>".toList ∨ message = [] then line else message⟩

def parseNginx (line : Text) : Option LineParse :=
  (matchNginx line).map fun stamp =>
    ⟨rt.timeParse "02/Jan/2006:15:04:05 -0700".toList stamp, "INFO".toList, line⟩

/-- The formats in the order in which they are tried. -/
def parseFormats (line : Text) : Option LineParse :=
  (parsePattern rt bracketPart line).or <| (parsePattern rt spaces line).or <| (parseISO rt line).or <|
    (parseJSON rt line).or (parseNginx rt line)

/-- `ParseLogLine`. -/
def parseLogLine : LineParser := fun line last =>
  let trimmed := trimLine line
  if trimSpace trimmed = [] then ⟨last, "UNKNOWN".toList, []⟩
  else
    match parseFormats rt trimmed with
    | some parsed => parsed.withFallback last
    | none => ⟨last, "UNKNOWN".toList, trimmed⟩

end

/-! ## What does not depend on the line before -/

/-- A parser that takes the timestamp of the line before where a line has none, and nothing else. -/
def LineParser.FallsBack (parse : LineParser) : Prop :=
  ∀ line last, parse line last = (parse line none).withFallback last

theorem timestampMs_withFallback (p : LineParse) (last : Option Int) :
    (p.withFallback last).timestampMs = p.timestampMs.or last := by
  rw [LineParse.withFallback]
  cases hts : p.timestampMs with
  | none =>
    cases last with
    | none => simp [hts]
    | some t => simp
  | some t => simp [hts]

theorem message_withFallback (p : LineParse) (last : Option Int) :
    (p.withFallback last).message = p.message := by
  rw [LineParse.withFallback]
  split <;> rfl

theorem level_withFallback (p : LineParse) (last : Option Int) : (p.withFallback last).level = p.level := by
  rw [LineParse.withFallback]
  split <;> rfl

/-- Falling back twice is falling back to the first. -/
theorem withFallback_none (p : LineParse) : p.withFallback none = p := by
  simp [LineParse.withFallback]

theorem parseLogLine_fallsBack (rt : LineRuntime) : (parseLogLine rt).FallsBack := by
  intro line last
  have hunread : ∀ message, (⟨last, "UNKNOWN".toList, message⟩ : LineParse) =
      (⟨none, "UNKNOWN".toList, message⟩ : LineParse).withFallback last := by
    intro message
    cases last <;> rfl
  simp only [parseLogLine]
  by_cases hblank : trimSpace (Logs.trimLine line) = []
  · rw [if_pos hblank, if_pos hblank]
    exact hunread []
  · rw [if_neg hblank, if_neg hblank]
    cases parseFormats rt (Logs.trimLine line) with
    | some parsed =>
      dsimp only
      rw [withFallback_none]
    | none => exact hunread _

def levels : List Text := ["ERROR", "WARN", "INFO", "DEBUG", "TRACE", "UNKNOWN"].map String.toList

theorem normalizeLevel_mem (raw : Text) : normalizeLevel raw ∈ levels := by
  rw [normalizeLevel]
  repeat' split
  all_goals simp [levels]

theorem level_parseFormats {rt : LineRuntime} {line : Text} {parsed : LineParse}
    (h : parseFormats rt line = some parsed) : parsed.level ∈ levels := by
  have hpattern : ∀ between, parsePattern rt between line = some parsed → parsed.level ∈ levels := by
    intro between hsome
    obtain ⟨⟨stamp, level, rest⟩, -, rfl⟩ := Option.map_eq_some_iff.1 hsome
    exact normalizeLevel_mem level
  rw [parseFormats] at h
  rcases Option.or_eq_some_iff.1 h with h | ⟨-, h⟩
  · exact hpattern _ h
  rcases Option.or_eq_some_iff.1 h with h | ⟨-, h⟩
  · exact hpattern _ h
  rcases Option.or_eq_some_iff.1 h with h | ⟨-, h⟩
  · obtain ⟨rest, -, rfl⟩ := Option.map_eq_some_iff.1 h
    dsimp only
    split
    · exact normalizeLevel_mem _
    · simp [levels]
  rcases Option.or_eq_some_iff.1 h with h | ⟨-, h⟩
  · rw [parseJSON] at h
    split at h
    · cases h
    · obtain ⟨obj, -, rfl⟩ := Option.map_eq_some_iff.1 h
      exact normalizeLevel_mem _
  · obtain ⟨stamp, -, rfl⟩ := Option.map_eq_some_iff.1 h
    simp [levels]

/-- Every line gets one of six levels. -/
theorem level_parseLogLine (rt : LineRuntime) (line : Text) (last : Option Int) :
    (parseLogLine rt line last).level ∈ levels := by
  rw [parseLogLine]
  split
  · simp [levels]
  · split
    · next parsed hparsed =>
        rw [level_withFallback]
        exact level_parseFormats hparsed
    · simp [levels]

/-! ## The scanner -/

/-- The longest line that the scanner of `indexFile` takes has one byte less. -/
def scanLimit : Nat := 10 * 1024 * 1024

/-- The lines of a file as the scanner finds them; behind the last line feed there is none. -/
def rawLines (content : Text) : List Text :=
  let pieces := splitAtAll ['\n'] content
  if pieces.getLast? = some [] then pieces.dropLast else pieces

/-- The lines that the scanner gives, and whether it stops at one that is too long. -/
def scanLines (limit : Nat) (content : Text) : List Text × Bool :=
  let raw := rawLines content
  let fitting := raw.takeWhile fun line => byteLength line < limit
  (fitting.map (dropCR '\r'), fitting.length < raw.length)

/-- An upload that could be stored. -/
def Upload.ofContent (storagePath content : Text) : Upload :=
  ⟨some storagePath, (scanLines scanLimit content).1,
    if (scanLines scanLimit content).2 then
      some "scan uploaded log file: bufio.Scanner: token too long".toList
    else none⟩

/-- A line of valid text without the characters that a line cannot have. -/
structure CleanLine (line : Text) : Prop where
  nul : Char.ofNat 0 ∉ line
  cr : '\r' ∉ line
  lf : '\n' ∉ line

theorem CleanLine.trimLine {line : Text} (h : CleanLine line) : trimLine line = line := by
  rw [Logs.trimLine, List.rdropWhile_eq_self_iff]
  intro hne hend
  have hlast := List.getLast_mem hne
  rw [Bool.or_eq_true, decide_eq_true_eq, decide_eq_true_eq] at hend
  rcases hend with hcr | hlf
  · rw [hcr] at hlast
    exact h.cr hlast
  · rw [hlf] at hlast
    exact h.lf hlast

/-- Lines that end with a line feed each are the lines that the scanner gives. -/
theorem scanLines_flatMap {limit : Nat} {lines : List Text}
    (h : ∀ line ∈ lines, CleanLine line ∧ byteLength line < limit) :
    scanLines limit (lines.flatMap fun line => line ++ ['\n']) = (lines, false) := by
  have hraw : rawLines (lines.flatMap fun line => line ++ ['\n']) = lines := by
    rw [rawLines, splitAtAll_flatMap lines fun line hline => (h line hline).1.lf]
    simp
  have hfitting : lines.takeWhile (fun line => byteLength line < limit) = lines := by
    rw [List.takeWhile_eq_self_iff]
    intro line hline
    exact decide_eq_true (h line hline).2
  have hkept : lines.map (dropCR '\r') = lines := by
    have hsame : ∀ line ∈ lines, dropCR '\r' line = id line := by
      intro line hline
      rw [dropCR, if_neg fun hlast => (h line hline).1.cr (List.mem_of_getLast? hlast)]
      rfl
    rw [List.map_congr_left hsame, List.map_id]
  simp only [scanLines, hraw, hfitting, hkept, lt_irrefl, decide_false]

end Workbench.Logs
