import Workbench.Lib.Splits
import Workbench.Lib.Runs
import Workbench.Base.Text

/-!
# Following a remote file

`Tail` of `api/internal/sshlog/service.go` behind the start of the remote command: a goroutine that scans the
output of the command and passes its lines on, one that waits for the exit of the command, and the `select`
that ends the call with whatever is reported first. Every step of any of them, of the remote command and of
the connection is an event.
-/

set_option autoImplicit false

namespace Workbench.Logs.RemoteTail

open Workbench.Lib

abbrev Bytes := List UInt8

def lineFeed : UInt8 := 10

def carriageReturn : UInt8 := 13

/-- The room of the scanner. -/
def maxTokenSize : Nat := 1024 * 1024

/-! ## The parties -/

/-- A remote command: the lines it writes before it exits, the error that its exit is reported with, and what
it writes to its error output, trimmed. -/
structure Remote where
  lines : List Bytes
  exitErr : Option Text
  stderrText : Text

/-- The goroutine that scans: at its buffer, about to pass a line on, or at its end. -/
inductive Reader where
  | scanning (buffer : Bytes)
  | passing (line buffer : Bytes)
  | ended (buffer : Bytes)
  deriving DecidableEq, Repr

def Reader.buffer : Reader → Bytes
  | .scanning buffer => buffer
  | .passing _ buffer => buffer
  | .ended buffer => buffer

/-- The line that is taken from the buffer and not yet passed on. -/
def Reader.hand : Reader → List Bytes
  | .scanning _ => []
  | .passing line _ => [line]
  | .ended _ => []

inductive Result where
  | done
  | canceled
  | failed (message : Text)
  deriving DecidableEq, Repr

/-- `Tail`: at its `select`, at `<-waitErr` behind the end of the lines, or at its end. -/
inductive Phase where
  | selecting
  | awaitingExit
  | returned (result : Result)
  deriving DecidableEq, Repr

def Phase.hasReturned : Phase → Bool
  | .selecting => false
  | .awaitingExit => false
  | .returned _ => true

/-- The state of a call. What is sent to a channel stays to be seen there: each channel is received from
once at most. The lines passed to `onLine` are told apart by whether `Tail` had returned before. -/
structure State where
  unwritten : Bytes
  pipe : Bytes
  closed : Bool
  reader : Reader
  lineErr : Option (Option Text)
  waitErr : Option (Option Text)
  phase : Phase
  passed : List Bytes
  late : List Bytes
  deriving DecidableEq, Repr

inductive Event where
  /-- The next bytes of the command's output come in. -/
  | write (count : Nat)
  /-- The command has exited, and its channel is closed. -/
  | close
  /-- `Read` of the scanner. -/
  | read (count : Nat)
  /-- The scanner looks at its buffer. -/
  | scan
  /-- `onLine` with the line that was scanned, and the error it returns. -/
  | pass (err : Option Text)
  /-- `session.Wait()` returns. -/
  | exit
  /-- The `select` takes `ctx.Done()`. -/
  | cancel
  /-- The `select` takes `lineErr`. -/
  | takeLineErr
  /-- The `select`, or the receive behind the end of the lines, takes `waitErr`. -/
  | takeWaitErr
  deriving DecidableEq, Repr

namespace State

/-- The command is started. -/
def start (remote : Remote) : State where
  unwritten := remote.lines.flatMap fun line => line ++ [lineFeed]
  pipe := []
  closed := false
  reader := .scanning []
  lineErr := none
  waitErr := none
  phase := .selecting
  passed := []
  late := []

/-- One look of the scanner at its buffer. -/
def scan (s : State) (buffer : Bytes) : State :=
  match nextLine lineFeed buffer with
  | some (line, rest) => { s with reader := .passing (dropCR carriageReturn line) rest }
  | none =>
    if maxTokenSize ≤ buffer.length then
      { s with reader := .ended buffer, lineErr := some (some "bufio.Scanner: token too long".toList) }
    else if s.closed && s.pipe = [] then
      if buffer = [] then { s with reader := .ended [], lineErr := some none }
      else { s with reader := .passing (dropCR carriageReturn buffer) [] }
    else s

/-- `onLine` is called with a line. -/
def record (s : State) (line : Bytes) : State :=
  { s with
    passed := if s.phase.hasReturned then s.passed else s.passed ++ [line]
    late := if s.phase.hasReturned then s.late ++ [line] else s.late }

/-- What `Tail` returns for the exit of the command. -/
def exitResult (remote : Remote) : Option Text → Result
  | none => .done
  | some err =>
    if remote.stderrText = [] then .failed err else .failed (remote.stderrText ++ ": ".toList ++ err)

/-- An event; one that is not possible changes nothing. -/
def step (remote : Remote) (s : State) : Event → State
  | .write count => { s with pipe := s.pipe ++ s.unwritten.take count, unwritten := s.unwritten.drop count }
  | .close => if s.unwritten = [] then { s with closed := true } else s
  | .read count =>
    match s.reader with
    | .scanning buffer =>
      if nextLine lineFeed buffer = none then
        let count := min count (maxTokenSize - buffer.length)
        { s with reader := .scanning (buffer ++ s.pipe.take count), pipe := s.pipe.drop count }
      else s
    | _ => s
  | .scan =>
    match s.reader with
    | .scanning buffer => s.scan buffer
    | _ => s
  | .pass err =>
    match s.reader with
    | .passing line buffer =>
      match err with
      | none => { s.record line with reader := .scanning buffer }
      | some err => { s.record line with reader := .ended buffer, lineErr := some (some err) }
    | _ => s
  | .exit => if s.closed then { s with waitErr := some remote.exitErr } else s
  | .cancel => if s.phase = .selecting then { s with phase := .returned .canceled } else s
  | .takeLineErr =>
    match s.phase, s.lineErr with
    | .selecting, some none => { s with phase := .awaitingExit }
    | .selecting, some (some err) => { s with phase := .returned (.failed err) }
    | _, _ => s
  | .takeWaitErr =>
    match s.phase, s.waitErr with
    | .selecting, some err => { s with phase := .returned (exitResult remote err) }
    | .awaitingExit, some err => { s with phase := .returned (exitResult remote err) }
    | _, _ => s

/-- All lines of the command, as the scanner gives them. -/
def texts (remote : Remote) : List Bytes := remote.lines.map (dropCR carriageReturn)

/-- A `Tail` that returned without an error and without being canceled has passed on every line, and passes
on none any more. -/
def Delivered (remote : Remote) (s : State) : Prop :=
  s.phase = .returned .done → s.passed = texts remote ∧ s.late = []

/-- No byte of the output is left, and no line is in hand. -/
def Drained (s : State) : Prop := s.unwritten = [] ∧ s.pipe = [] ∧ s.reader.buffer = [] ∧ s.reader.hand = []

/-- If the `select` takes the exit of a command that did not fail, nothing of its output is left. -/
def TakesExitDrained (s : State) (e : Event) : Prop :=
  e = .takeWaitErr → s.phase = .selecting → s.waitErr = some none → s.Drained

/-! ## Where the lines are -/

/-- What holds in every state of a call. -/
structure Sound (remote : Remote) (s : State) : Prop where
  /-- The lines passed on, the one in hand and the ones to come are the lines of the command. -/
  accounted : ∃ left, EndsLines lineFeed (s.reader.buffer ++ s.pipe ++ s.unwritten) left ∧
    s.passed ++ s.late ++ s.reader.hand ++ left.map (dropCR carriageReturn) = texts remote
  closed : s.closed = true → s.unwritten = []
  exited : s.waitErr ≠ none → s.closed = true
  ended : s.lineErr = some none → s.reader = .ended [] ∧ s.pipe = [] ∧ s.unwritten = []
  awaiting : s.phase = .awaitingExit → s.lineErr = some none
  late : s.late ≠ [] → s.phase.hasReturned = true

variable {remote : Remote} {s : State}

theorem sound_start (hlines : ∀ line ∈ remote.lines, lineFeed ∉ line) : Sound remote (start remote) where
  accounted := ⟨remote.lines, endsLines_flatMap hlines, rfl⟩
  closed := fun h => absurd h Bool.false_ne_true
  exited := fun h => absurd rfl h
  ended := fun h => by cases h
  awaiting := fun h => by cases h
  late := fun h => absurd rfl h

namespace Sound

/-- Bytes that go on to the next buffer. -/
theorem write (h : Sound remote s) (count : Nat) : Sound remote (s.step remote (.write count)) where
  accounted := by
    obtain ⟨left, hends, hlines⟩ := h.accounted
    refine ⟨left, ?_, hlines⟩
    simpa [step] using hends
  closed := fun hclosed => by simp [step, h.closed hclosed]
  exited := h.exited
  ended := fun hended => by
    obtain ⟨hreader, hpipe, hunwritten⟩ := h.ended hended
    exact ⟨hreader, by simp [step, hpipe, hunwritten], by simp [step, hunwritten]⟩
  awaiting := h.awaiting
  late := h.late

theorem close (h : Sound remote s) : Sound remote (s.step remote .close) := by
  rw [step]
  split
  · next hwritten =>
      exact ⟨h.accounted, fun _ => hwritten, fun _ => rfl, h.ended, h.awaiting, h.late⟩
  · exact h

theorem read (h : Sound remote s) (count : Nat) : Sound remote (s.step remote (.read count)) := by
  rw [step]
  split
  · next buffer hreader =>
      split
      · refine ⟨?_, h.closed, h.exited, ?_, h.awaiting, h.late⟩
        · obtain ⟨left, hends, hlines⟩ := h.accounted
          rw [hreader] at hends hlines
          exact ⟨left, by simpa [Reader.buffer] using hends, hlines⟩
        · intro hended
          have hnot := (h.ended hended).1
          rw [hreader] at hnot
          cases hnot
      · exact h
  · exact h

/-- A reader that has reported no end yet. -/
theorem lineErr_ne (h : Sound remote s) (hreader : s.reader ≠ .ended []) : s.lineErr ≠ some none :=
  fun hended => hreader (h.ended hended).1

theorem scan (h : Sound remote s) : Sound remote (s.step remote .scan) := by
  rw [step]
  split
  · next buffer hreader =>
      have hrunning : s.lineErr ≠ some none := h.lineErr_ne (by simp [hreader])
      obtain ⟨left, hends, hlines⟩ := h.accounted
      rw [hreader] at hends hlines
      simp only [Reader.buffer, Reader.hand] at hends hlines
      rw [State.scan]
      split
      · -- the next line of the buffer is taken in hand
        next line rest hnext =>
          obtain ⟨rfl, hline⟩ := nextLine_eq_some hnext
          rw [List.append_assoc, List.append_assoc, List.cons_append] at hends
          obtain ⟨more, rfl, hmore⟩ := hends.next hline
          refine ⟨⟨more, by simpa [Reader.buffer] using hmore, by simpa [Reader.hand] using hlines⟩,
            h.closed, h.exited, fun hended => absurd hended hrunning, h.awaiting, h.late⟩
      · next hnext =>
          split
          · -- the scanner has no room for the line
            refine ⟨⟨left, hends, by simpa [Reader.hand] using hlines⟩, h.closed, h.exited,
              fun hended => (by cases hended), fun hawaiting => absurd (h.awaiting hawaiting) hrunning, h.late⟩
          · split
            · next hclosed =>
                simp only [Bool.and_eq_true, decide_eq_true_eq] at hclosed
                obtain ⟨hclosed, hpipe⟩ := hclosed
                have hunwritten := h.closed hclosed
                rw [hpipe, hunwritten, List.append_nil, List.append_nil] at hends
                -- the output ends with a line feed, so nothing of a line is left
                have hbuffer : buffer = [] := hends.of_absent (nextLine_eq_none.1 hnext)
                rw [if_pos hbuffer]
                subst hbuffer
                refine ⟨⟨left, ?_, by simpa [Reader.hand] using hlines⟩, h.closed, h.exited,
                  fun _ => ⟨rfl, hpipe, hunwritten⟩, fun _ => rfl, h.late⟩
                simpa [Reader.buffer, hpipe, hunwritten] using hends
            · exact h
  · exact h

/-- A call of `onLine` puts its line behind those that were passed on. -/
theorem record_lines (h : Sound remote s) (line : Bytes) :
    (s.record line).passed ++ (s.record line).late = s.passed ++ s.late ++ [line] := by
  rw [record]
  cases hreturned : s.phase.hasReturned with
  | true => simp
  | false =>
    have hlate : s.late = [] := by
      by_contra hne
      exact Bool.false_ne_true (hreturned.symm.trans (h.late hne))
    simp [hlate]

theorem record_late (h : Sound remote s) (line : Bytes) (hlate : (s.record line).late ≠ []) :
    s.phase.hasReturned = true := by
  rw [record] at hlate
  cases hreturned : s.phase.hasReturned with
  | true => rfl
  | false =>
    simp only [hreturned, Bool.false_eq_true, if_false] at hlate
    exact hreturned.symm.trans (h.late hlate)

theorem pass (h : Sound remote s) (err : Option Text) : Sound remote (s.step remote (.pass err)) := by
  rw [step]
  split
  · next line buffer hreader =>
      have hrunning : s.lineErr ≠ some none := h.lineErr_ne (by simp [hreader])
      obtain ⟨left, hends, hlines⟩ := h.accounted
      rw [hreader] at hends hlines
      simp only [Reader.buffer, Reader.hand] at hends hlines
      have haccounted : (s.record line).passed ++ (s.record line).late ++ [] ++
          left.map (dropCR carriageReturn) = texts remote := by
        rw [h.record_lines line, List.append_nil]
        exact hlines
      cases err with
      | none =>
        exact ⟨⟨left, hends, haccounted⟩, h.closed, h.exited, fun hended => absurd hended hrunning,
          h.awaiting, h.record_late line⟩
      | some err =>
        exact ⟨⟨left, hends, haccounted⟩, h.closed, h.exited, fun hended => (by cases hended),
          fun hawaiting => absurd (h.awaiting hawaiting) hrunning, h.record_late line⟩
  · exact h

theorem exit (h : Sound remote s) : Sound remote (s.step remote .exit) := by
  rw [step]
  split
  · next hclosed => exact ⟨h.accounted, h.closed, fun _ => hclosed, h.ended, h.awaiting, h.late⟩
  · exact h

theorem cancel (h : Sound remote s) : Sound remote (s.step remote .cancel) := by
  rw [step]
  split
  · exact ⟨h.accounted, h.closed, h.exited, h.ended, fun hawaiting => (by cases hawaiting),
      fun _ => rfl⟩
  · exact h

theorem takeLineErr (h : Sound remote s) : Sound remote (s.step remote .takeLineErr) := by
  rw [step]
  split
  · next hphase hend =>
      refine ⟨h.accounted, h.closed, h.exited, h.ended, fun _ => hend, fun hlate => ?_⟩
      have hreturned := h.late hlate
      rw [hphase] at hreturned
      cases hreturned
  · exact ⟨h.accounted, h.closed, h.exited, h.ended, fun hawaiting => (by cases hawaiting),
      fun _ => rfl⟩
  · exact h

theorem takeWaitErr (h : Sound remote s) : Sound remote (s.step remote .takeWaitErr) := by
  have hreturned : ∀ result, Sound remote { s with phase := .returned result } := fun result =>
    ⟨h.accounted, h.closed, h.exited, h.ended, fun hawaiting => (by cases hawaiting), fun _ => rfl⟩
  rw [step]
  split
  · exact hreturned _
  · exact hreturned _
  · exact h

/-- Every event keeps the account of the lines. -/
theorem step (h : Sound remote s) (e : Event) : Sound remote (s.step remote e) := by
  cases e with
  | write count => exact h.write count
  | close => exact h.close
  | read count => exact h.read count
  | scan => exact h.scan
  | pass err => exact h.pass err
  | exit => exact h.exit
  | cancel => exact h.cancel
  | takeLineErr => exact h.takeLineErr
  | takeWaitErr => exact h.takeWaitErr

/-- Where nothing is left, every line was passed on. -/
theorem passed_of_drained (h : Sound remote s) (hdrained : s.Drained) : s.passed ++ s.late = texts remote := by
  obtain ⟨left, hends, hlines⟩ := h.accounted
  obtain ⟨hunwritten, hpipe, hbuffer, hhand⟩ := hdrained
  rw [hbuffer, hpipe, hunwritten] at hends
  have hleft : left = [] := by
    have hlength := congrArg List.length hends
    simpa [splitAtAll, splitFrom] using hlength
  simpa [hhand, hleft] using hlines

/-- Where every line was passed on, nothing is left. -/
theorem drained_of_passed (h : Sound remote s) (hpassed : s.passed ++ s.late = texts remote) : s.Drained := by
  obtain ⟨left, hends, hlines⟩ := h.accounted
  rw [List.append_assoc, hpassed] at hlines
  have hrest : s.reader.hand ++ left.map (dropCR carriageReturn) = [] := by simpa using hlines
  obtain ⟨hhand, hleft⟩ := List.append_eq_nil_iff.1 hrest
  obtain rfl : left = [] := List.map_eq_nil_iff.1 hleft
  have hnothing := hends.eq_nil
  simp only [List.append_eq_nil_iff] at hnothing
  exact ⟨hnothing.2, hnothing.1.2, hnothing.1.1, hhand⟩

/-- Before it returns, `Tail` has passed on nothing late. -/
theorem late_eq_nil (h : Sound remote s) (hnot : s.phase.hasReturned = false) : s.late = [] := by
  by_contra hne
  exact Bool.false_ne_true (hnot.symm.trans (h.late hne))

end Sound

/-! ## What was delivered -/

/-- An exit that is taken at the `select`. -/
theorem delivered_takeWaitErr (h : Sound remote s) (hdelivered : s.Delivered remote) :
    (s.step remote .takeWaitErr).Delivered remote ↔ s.TakesExitDrained .takeWaitErr := by
  cases hphase : s.phase with
  | returned result =>
    have hsame : s.step remote .takeWaitErr = s := by simp [step, hphase]
    rw [hsame]
    exact iff_of_true hdelivered fun _ hselecting => by rw [hphase] at hselecting; cases hselecting
  | awaitingExit =>
    -- behind the end of the lines nothing is left
    obtain ⟨hreader, hpipe, hunwritten⟩ := h.ended (h.awaiting hphase)
    have hpassed := h.passed_of_drained ⟨hunwritten, hpipe, by rw [hreader]; rfl, by rw [hreader]; rfl⟩
    have hlate := h.late_eq_nil (by rw [hphase]; rfl)
    rw [hlate, List.append_nil] at hpassed
    refine iff_of_true ?_ fun _ hselecting => by rw [hphase] at hselecting; cases hselecting
    rw [step]
    split
    · exact fun _ => ⟨hpassed, hlate⟩
    · exact fun _ => ⟨hpassed, hlate⟩
    · exact hdelivered
  | selecting =>
    have hlate := h.late_eq_nil (by rw [hphase]; rfl)
    cases hexit : s.waitErr with
    | none =>
      have hsame : s.step remote .takeWaitErr = s := by simp [step, hphase, hexit]
      rw [hsame]
      exact iff_of_true hdelivered fun _ _ hnone => by rw [hexit] at hnone; cases hnone
    | some err =>
      have hreturned : s.step remote .takeWaitErr =
          { s with phase := .returned (exitResult remote err) } := by
        simp [step, hphase, hexit]
      rw [hreturned]
      cases err with
      | some err =>
        refine iff_of_true (fun hdone => ?_) fun _ _ hnone => by rw [hexit] at hnone; cases hnone
        rw [exitResult] at hdone
        split at hdone <;> cases hdone
      | none =>
        constructor
        · intro hafter _ _ _
          have hpassed : s.passed = texts remote := (hafter rfl).1
          exact h.drained_of_passed (by rw [hpassed, hlate, List.append_nil])
        · intro hdrained _
          have hpassed := h.passed_of_drained (hdrained rfl hphase hexit)
          rw [hlate, List.append_nil] at hpassed
          exact ⟨hpassed, hlate⟩

/-- A scan passes nothing on. -/
theorem kept_scan (remote : Remote) (s : State) : (s.step remote .scan).phase = s.phase ∧
    (s.step remote .scan).passed = s.passed ∧ (s.step remote .scan).late = s.late := by
  rw [step]
  split
  · rw [State.scan]
    repeat' split
    all_goals exact ⟨rfl, rfl, rfl⟩
  · exact ⟨rfl, rfl, rfl⟩

theorem phase_pass (remote : Remote) (s : State) (err : Option Text) :
    (s.step remote (.pass err)).phase = s.phase := by
  rw [step]
  split
  · cases err <;> rfl
  · rfl

/-- Every other event delivers what it has to. -/
theorem delivered_other (h : Sound remote s) (hdelivered : s.Delivered remote) {e : Event}
    (he : e ≠ .takeWaitErr) : (s.step remote e).Delivered remote := by
  cases e with
  | write count => exact hdelivered
  | close =>
    rw [step]
    split <;> exact hdelivered
  | read count =>
    rw [step]
    split
    · split <;> exact hdelivered
    · exact hdelivered
  | scan =>
    obtain ⟨hphase, hpassed, hlate⟩ := kept_scan remote s
    rw [Delivered, hphase, hpassed, hlate]
    exact hdelivered
  | pass err =>
    intro hdone
    rw [phase_pass] at hdone
    obtain ⟨hpassed, hlate⟩ := hdelivered hdone
    -- with every line passed on there is none in hand
    have hhand := (h.drained_of_passed (by rw [hpassed, hlate, List.append_nil])).2.2.2
    have hsame : s.step remote (.pass err) = s := by
      rw [step]
      split
      · next line buffer hreader =>
          rw [hreader] at hhand
          cases hhand
      · rfl
    rw [hsame]
    exact ⟨hpassed, hlate⟩
  | exit =>
    rw [step]
    split <;> exact hdelivered
  | cancel =>
    rw [step]
    split
    · exact fun hdone => by cases hdone
    · exact hdelivered
  | takeLineErr =>
    rw [step]
    split
    · exact fun hdone => by cases hdone
    · exact fun hdone => by cases hdone
    · exact hdelivered
  | takeWaitErr => exact absurd rfl he

end State

/-- **In every interleaving, a `Tail` that returned without an error and without being canceled has passed on
every line once, in order and in time, exactly if no exit was taken at the `select` while something of the
output was left.** -/
theorem tail_delivers_iff (remote : Remote) (hlines : ∀ line ∈ remote.lines, lineFeed ∉ line)
    (events : List Event) :
    (∀ front, front <+: events →
      (front.foldl (State.step remote) (State.start remote)).Delivered remote) ↔
      Runs.Meets (State.step remote) State.TakesExitDrained (State.start remote) events := by
  have hstep : ∀ s e, State.Sound remote s ∧ s.Delivered remote →
      ((State.Sound remote (s.step remote e) ∧ (s.step remote e).Delivered remote) ↔
        s.TakesExitDrained e) := by
    rintro s e ⟨hsound, hdelivered⟩
    rw [and_iff_right (hsound.step e)]
    rcases eq_or_ne e .takeWaitErr with rfl | he
    · exact State.delivered_takeWaitErr hsound hdelivered
    · exact iff_of_true (State.delivered_other hsound hdelivered he) fun htake => absurd htake he
  have hstart : State.Sound remote (State.start remote) := State.sound_start hlines
  have hrun := Runs.meets_iff_always hstep events ⟨hstart, fun hdone => by cases hdone⟩
  rw [hrun]
  -- the account of the lines holds in every state of the run anyway
  have hsound : ∀ front : List Event, State.Sound remote (front.foldl (State.step remote) (State.start remote)) := by
    intro front
    exact List.foldlRecOn front (State.step remote) hstart fun s hs e _ => hs.step e
  exact ⟨fun hall front hfront => ⟨hsound front, hall front hfront⟩, fun hall front hfront => (hall front hfront).2⟩

/-- A command that writes two lines. -/
def twoLines : Remote := ⟨[[97], [98]], none, []⟩

/-- The command has written both lines and exited, and the second one is still in the scanner's buffer when the
`select` takes the exit. -/
def exitFirst : List Event :=
  [.write 4, .read 4, .scan, .pass none, .close, .exit, .takeWaitErr]

/-- The second line is not passed on in time: `Tail` has returned, and then `onLine` is called with it. -/
theorem tail_loses_line :
    (exitFirst.foldl (State.step twoLines) (State.start twoLines)).phase = .returned .done ∧
      (exitFirst.foldl (State.step twoLines) (State.start twoLines)).passed = [[97]] ∧
      ((exitFirst ++ [Event.scan, Event.pass none]).foldl (State.step twoLines) (State.start twoLines)).late = [[98]] ∧
      ¬(exitFirst.foldl (State.step twoLines) (State.start twoLines)).Delivered twoLines := by
  refine ⟨by decide, by decide, by decide, fun hdelivered => ?_⟩
  have hpassed := (hdelivered (by decide)).1
  revert hpassed
  decide

/-- The exit is taken behind the end of the lines. -/
theorem tail_delivers_twoLines :
    ([Event.write 4, .read 4, .scan, .pass none, .scan, .pass none, .close, .exit, .scan, .takeLineErr,
      .takeWaitErr].foldl (State.step twoLines) (State.start twoLines)).Delivered twoLines := by
  refine (tail_delivers_iff twoLines (by decide) _).2 ?_ _ List.prefix_rfl
  refine ⟨?_, ?_, ?_, ?_, ?_, ?_, ?_, ?_, ?_, ?_, fun _ hphase => absurd hphase (by decide), trivial⟩
  all_goals
    intro htake
    cases htake

end Workbench.Logs.RemoteTail
