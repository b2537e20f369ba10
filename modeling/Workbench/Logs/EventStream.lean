import Workbench.Lib.Splits
import Workbench.Lib.Utf8
import Workbench.Logs.Import
import Workbench.Logs.Search

/-!
# The event stream of a remote file

`sendEvent` of `api/internal/httpapi/log_handlers.go` writes events to the response of a tail, and `tailSsh`
of `web/src/logs/client.ts` reads them from the chunks in which the bytes come in. The JSON of both sides is
left open.
-/

set_option autoImplicit false

namespace Workbench.Logs

open Workbench.Lib

/-- What the handler of a tail sends. -/
inductive TailEvent where
  | ready (path : Text) (sourceFile : SourceFile)
  | line (line : Text) (entry : Entry)
  | stopped
  | error (message : Text)
  | done
  deriving DecidableEq, Repr

/-! ## The server -/

section

variable (marshal : TailEvent → Option Text)

/-- What is written between two events. -/
def frameEnd : Text := ['\n', '\n']

def dataPrefix : Text := "data: ".toList

/-- `sendEvent`: the bytes that it writes; an event that cannot be encoded writes nothing. -/
def sendEvent (payload : TailEvent) : List UInt8 :=
  match marshal payload with
  | none => []
  | some encoded => utf8Encode (dataPrefix ++ encoded ++ frameEnd)

/-- The body of the response. -/
def eventStream (events : List TailEvent) : List UInt8 := events.flatMap (sendEvent marshal)

/-- The events that could be encoded. -/
def sentEvents (events : List TailEvent) : List TailEvent := events.filter fun e => (marshal e).isSome

end

/-! ## The client -/

section

variable (parse : Text → Option TailEvent)

/-- `chunk.split('\n').find(row => row.startsWith('data: '))`. -/
def dataLine (chunk : Text) : Option Text :=
  (splitAtAll ['\n'] chunk).find? fun row => dataPrefix.isPrefixOf row

/-- The events of complete frames, and whether all of them could be read: an exception of `JSON.parse` ends
`tailSsh`. -/
def readFrames : List Text → List TailEvent × Bool
  | [] => ([], true)
  | chunk :: rest =>
    match dataLine chunk with
    | none => readFrames rest
    | some line =>
      match parse (line.drop 6) with
      | none => ([], false)
      | some event =>
        let (events, complete) := readFrames rest
        (event :: events, complete)

/-- The loop of `tailSsh`, and whether it went on to the end of the response. -/
def readChunks : TextDecoder → (buffer : Text) → List (List UInt8) → List TailEvent × Bool
  | _, _, [] => ([], true)
  | decoder, buffer, value :: rest =>
    let (decoder, text) := decoder.decode value
    let chunks := splitAtAll frameEnd (buffer ++ text)
    match readFrames parse chunks.dropLast with
    | (events, false) => (events, false)
    | (events, true) =>
      let (more, complete) := readChunks decoder (lastPiece chunks) rest
      (events ++ more, complete)

/-- `tailSsh`: the events it passes to `onEvent` for the chunks of a response. -/
def tailSsh (chunks : List (List UInt8)) : List TailEvent × Bool := readChunks parse TextDecoder.new [] chunks

end

/-! ## Chunks do not matter -/

section

variable {parse : Text → Option TailEvent}

theorem readFrames_append (a b : List Text) :
    readFrames parse (a ++ b) =
      if (readFrames parse a).2 then
        ((readFrames parse a).1 ++ (readFrames parse b).1, (readFrames parse b).2)
      else readFrames parse a := by
  induction a with
  | nil => simp [readFrames]
  | cons chunk rest ih =>
    rw [List.cons_append, readFrames, readFrames]
    cases dataLine chunk with
    | none => exact ih
    | some line =>
      cases hparse : parse (line.drop 6) with
      | none => simp [hparse]
      | some event =>
        simp only [hparse, ih]
        split
        · rfl
        · rfl

/-- A text that is one frame that has not ended yet. -/
def Unended (buffer : Text) : Prop := splitAtAll frameEnd buffer = [buffer]

/-- **Whatever the chunks, the events are those of the frames of the whole text.** -/
theorem readChunks_eq (chunks : List (List UInt8)) : ∀ (decoder : TextDecoder) (buffer : Text), Unended buffer →
    readChunks parse decoder buffer chunks =
      readFrames parse (splitAtAll frameEnd (buffer ++ (decoder.decode chunks.flatten).2)).dropLast := by
  induction chunks with
  | nil =>
    intro decoder buffer hbuffer
    have hnothing : (decoder.decode []).2 = [] := by
      rw [TextDecoder.decode, Utf8Decoder.feed_nil]
      cases decoder.bomSeen <;> rfl
    rw [List.flatten_nil, hnothing, List.append_nil, hbuffer]
    rfl
  | cons value rest ih =>
    intro decoder buffer _
    have hne : frameEnd ≠ [] := by simp [frameEnd]
    have hrest := ih (decoder.decode value).1
      (lastPiece (splitAtAll frameEnd (buffer ++ (decoder.decode value).2))) (splitAtAll_lastPiece hne _)
    rw [List.flatten_cons, TextDecoder.decode_append, ← List.append_assoc, splitAtAll_append hne,
      List.dropLast_append_of_ne_nil (splitAtAll_ne_nil _ _), readFrames_append, ← hrest, readChunks]
    dsimp only
    -- the frames that end in this chunk may already end the loop
    split
    · next events hframes => rw [hframes, if_neg (by simp)]
    · next events hframes => rw [hframes, if_pos rfl]

/-! ## The round trip -/

/-- What is relied on in the JSON of an event: the encoder escapes control characters, and what it writes is
read back. -/
structure JsonRoundTrip (marshal : TailEvent → Option Text) (parse : Text → Option TailEvent)
    (event : TailEvent) : Prop where
  escaped : ∀ encoded, marshal event = some encoded → ∀ c ∈ encoded, ' ' ≤ c
  parsed : ∀ encoded, marshal event = some encoded → parse encoded = some event

variable {marshal : TailEvent → Option Text}

/-- The frame of an event without its end. -/
def frame (encoded : Text) : Text := dataPrefix ++ encoded

theorem lineFeed_not_mem_frame {encoded : Text} (h : ∀ c ∈ encoded, ' ' ≤ c) : '\n' ∉ frame encoded := by
  rw [frame, List.mem_append, not_or]
  exact ⟨by decide, fun hmem => absurd (h '\n' hmem) (by decide)⟩

theorem dataLine_frame {encoded : Text} (h : ∀ c ∈ encoded, ' ' ≤ c) :
    dataLine (frame encoded) = some (frame encoded) := by
  have hone : splitAtAll ['\n'] (frame encoded) = [frame encoded] :=
    splitAtAll_absent (lineFeed_not_mem_frame h)
  rw [dataLine, hone]
  rfl

/-- The frames of the events, one after the other. -/
theorem eventStream_eq (events : List TailEvent) : eventStream marshal events =
    utf8Encode ((events.filterMap marshal).flatMap fun encoded => frame encoded ++ frameEnd) := by
  induction events with
  | nil => rfl
  | cons event rest ih =>
    rw [eventStream] at ih
    rw [eventStream, List.flatMap_cons, ih, sendEvent, List.filterMap_cons]
    cases marshal event with
    | none => rfl
    | some encoded =>
      dsimp only
      rw [List.flatMap_cons, utf8Encode_append (frame encoded ++ frameEnd)]
      rfl

/-- The frames of events are read as these events. -/
theorem readFrames_frames (events : List TailEvent)
    (hjson : ∀ event ∈ events, JsonRoundTrip marshal parse event) :
    readFrames parse ((events.filterMap marshal).map frame) = (sentEvents marshal events, true) := by
  induction events with
  | nil => rfl
  | cons event rest ih =>
    have hrest := ih fun other hother => hjson other (List.mem_cons_of_mem _ hother)
    have hevent := hjson event List.mem_cons_self
    rw [sentEvents] at hrest
    rw [sentEvents, List.filter_cons, List.filterMap_cons]
    cases hmarshal : marshal event with
    | none => simpa using hrest
    | some encoded =>
      -- behind the prefix of six characters stands what the encoder wrote
      have hparse : parse ((frame encoded).drop 6) = some event := hevent.parsed encoded hmarshal
      simp only [List.map_cons, readFrames, dataLine_frame (hevent.escaped encoded hmarshal), hparse, hrest,
        Option.isSome_some, if_true]

/-- **`tailSsh` passes on exactly the events that were sent, in their order, however their bytes are cut into
chunks.** -/
theorem tailSsh_receives_sent_events (marshal : TailEvent → Option Text) (parse : Text → Option TailEvent)
    (events : List TailEvent) (hjson : ∀ event ∈ events, JsonRoundTrip marshal parse event)
    (chunks : List (List UInt8)) (hchunks : chunks.flatten = eventStream marshal events) :
    tailSsh parse chunks = (sentEvents marshal events, true) := by
  have hbom : ((events.filterMap marshal).flatMap fun encoded => frame encoded ++ frameEnd).head? ≠
      some TextDecoder.byteOrderMark := by
    cases events.filterMap marshal with
    | nil => simp
    | cons encoded rest => simp [frame, dataPrefix, TextDecoder.byteOrderMark]
  have hpieces : ∀ piece ∈ (events.filterMap marshal).map frame, '\n' ∉ piece := by
    intro piece hpiece
    obtain ⟨encoded, hencoded, rfl⟩ := List.mem_map.1 hpiece
    obtain ⟨event, hevent, hmarshal⟩ := List.mem_filterMap.1 hencoded
    exact lineFeed_not_mem_frame ((hjson event hevent).escaped encoded hmarshal)
  have hframes : splitAtAll frameEnd
      ((events.filterMap marshal).flatMap fun encoded => frame encoded ++ frameEnd) =
        (events.filterMap marshal).map frame ++ [[]] := by
    have hsplit : splitAtAll frameEnd _ = _ := splitAtAll_flatMap _ hpieces
    rwa [List.flatMap_map] at hsplit
  have hbuffer : Unended [] := rfl
  rw [tailSsh, readChunks_eq _ _ _ hbuffer, List.nil_append, hchunks, eventStream_eq,
    TextDecoder.decode_utf8Encode hbom, hframes, List.dropLast_concat]
  exact readFrames_frames events hjson

end

/-- The JSON of the events that end a tail. -/
def endingJson : TailEvent → Option Text
  | .error message => some ("\x7b\"message\":\"".toList ++ message ++ "\",\"type\":\"error\"\x7d".toList)
  | .stopped => some "\x7b\"type\":\"stopped\"\x7d".toList
  | .done => some "\x7b\"type\":\"done\"\x7d".toList
  | .ready _ _ => none
  | .line _ _ => none

/-- Two events of which every byte comes in a chunk of its own. -/
theorem tailSsh_receives_bytes :
    tailSsh (fun text => [.error ['é'], .done].find? fun event => endingJson event = some text)
      ((eventStream endingJson [.error ['é'], .done]).map fun byte => [byte]) =
        ([.error ['é'], .done], true) := by
  apply tailSsh_receives_sent_events endingJson _ [.error ['é'], .done]
  · have hplain : ∀ text : Text, (text.all fun c => decide (' ' ≤ c)) = true → ∀ c ∈ text, ' ' ≤ c :=
      fun text h c hc => of_decide_eq_true (List.all_eq_true.1 h c hc)
    intro event hevent
    rcases List.mem_pair.1 hevent with rfl | rfl
    · exact ⟨fun encoded h => by cases h; exact hplain _ rfl, fun encoded h => by cases h; rfl⟩
    · exact ⟨fun encoded h => by cases h; exact hplain _ rfl, fun encoded h => by cases h; rfl⟩
  · rw [← List.flatMap_def, List.flatMap_singleton']

end Workbench.Logs
