import Mathlib.Data.Rat.Floor
import Workbench.Lib.Layouts
import Workbench.Logs.Lines

/-!
# ISO timestamps

The texts that `isoPattern` of `api/internal/logs/store.go` takes for a timestamp, the instants they denote, and what
`parseLogTimestamp` makes of them, with the library's reading of times by layouts. The pattern takes an offset with
and without a colon, the layouts have the one with a colon only (`parseLogTimestamp_text`).
-/

set_option autoImplicit false

namespace Workbench.Logs

open Workbench.Lib Workbench.Lib.Layouts
open scoped Workbench.Characters

/-! ## Stamps -/

inductive Zone where
  | absent
  | utc
  | colon (negative : Bool) (hour minute : Digits 2)
  | plain (negative : Bool) (hour minute : Digits 2)

namespace Zone

def signChar (negative : Bool) : Char := if negative then '-' else '+'

def text : Zone → Text
  | absent => []
  | utc => ['Z']
  | colon negative hour minute => signChar negative :: (hour.text ++ ':' :: minute.text)
  | plain negative hour minute => signChar negative :: (hour.text ++ minute.text)

/-- An offset without a colon. -/
def isPlain : Zone → Bool
  | plain _ _ _ => true
  | _ => false

def Valid : Zone → Prop
  | colon _ hour minute => hour.value < 24 ∧ minute.value < 60
  | plain _ hour minute => hour.value < 24 ∧ minute.value < 60
  | _ => True

/-- The seconds that a clock is ahead of UTC. -/
def offset (negative : Bool) (hour minute : Digits 2) : Int :=
  if negative then -((hour.value * 60 + minute.value) * 60) else (hour.value * 60 + minute.value) * 60

end Zone

/-- A date and a time as the pattern takes them; without a fraction there are no digits of it. -/
structure Stamp where
  year : Digits 4
  month : Digits 2
  day : Digits 2
  hour : Digits 2
  minute : Digits 2
  second : Digits 2
  fraction : Text
  fractionDigits : ∀ c ∈ fraction, c.isDigit = true
  zone : Zone

namespace Stamp

variable (s : Stamp)

def dateText : Text := s.year.text ++ '-' :: (s.month.text ++ '-' :: s.day.text)

def clockText : Text := s.hour.text ++ ':' :: (s.minute.text ++ ':' :: s.second.text)

def fractionText : Text := if s.fraction = [] then [] else '.' :: s.fraction

def text : Text := s.dateText ++ 'T' :: (s.clockText ++ (s.fractionText ++ s.zone.text))

/-- A date of the calendar, a time of the day and an offset of less than a day. -/
structure Valid : Prop where
  month : 1 ≤ s.month.value ∧ s.month.value ≤ 12
  day : 1 ≤ s.day.value ∧ s.day.value ≤ daysIn s.month.value s.year.value
  hour : s.hour.value < 24
  minute : s.minute.value < 60
  second : s.second.value < 60
  zone : s.zone.Valid

/-- The seconds on the clock that the stamp shows. -/
def clock : Int :=
  clockSeconds (dayNumber s.year.value s.month.value s.day.value) s.hour.value s.minute.value s.second.value

/-- The whole seconds from 1970 on; `zone` gives them for a clock of the local time. -/
def seconds (zone : Int → Int) : Int :=
  match s.zone with
  | .absent => zone s.clock
  | .utc => s.clock
  | .colon negative hour minute => s.clock - Zone.offset negative hour minute
  | .plain negative hour minute => s.clock - Zone.offset negative hour minute

/-- The instant that the stamp denotes, in seconds from 1970 on. -/
def instant (zone : Int → Int) : ℚ :=
  s.seconds zone + (Nat.ofDigitChars 10 s.fraction 0 : ℚ) / 10 ^ s.fraction.length

end Stamp

/-- The library with the reading of times by layouts. -/
def goRuntime (zone : Int → Int) (unmarshal : Text → Option (List (Text × JsonAny))) : LineRuntime where
  timeParse := Layouts.parse id
  timeParseInLocation := Layouts.parse zone
  unmarshal := unmarshal

/-! ## The layouts -/

/-- The chunks of the date and the time of day. -/
def dateTime (separator : Char) : List Chunk :=
  [.year, .literal '-', .month, .literal '-', .day, .literal separator,
    .hour, .literal ':', .minute, .literal ':', .second]

theorem chunks_timeLayouts : timeLayouts.map chunks =
    [dateTime 'T' ++ [.fraction, .zone], dateTime 'T' ++ [.fraction], dateTime 'T' ++ [.fraction], dateTime 'T',
      dateTime ' ' ++ [.fraction], dateTime ' ' ++ [.fraction], dateTime ' '] := by
  decide

namespace Stamp

variable (s : Stamp)

/-- What the date and the time of day are read as. -/
def fields : Fields :=
  ⟨s.year.value, s.month.value, s.day.value, s.hour.value, s.minute.value, s.second.value, 0, none⟩

end Stamp

theorem readChunks_step {later : List Chunk} {f g : Fields} {value rest : Text} {chunk : Chunk}
    (h : readChunk later f value chunk = some (g, rest)) :
    Layouts.readChunks (chunk :: later) f value = Layouts.readChunks later g rest := by
  rw [Layouts.readChunks, h]
  rfl

variable {s : Stamp}

/-- The date, up to what separates it from the time of day. -/
theorem readChunks_date (hvalid : s.Valid) (later : List Chunk) (tail : Text) :
    Layouts.readChunks (.year :: .literal '-' :: .month :: .literal '-' :: .day :: later) start (s.dateText ++ tail) =
      Layouts.readChunks later ⟨s.year.value, s.month.value, s.day.value, 0, 0, 0, 0, none⟩ tail := by
  rw [Stamp.dateText, List.append_assoc, readChunks_step (readChunk_year _ _ _ _), List.cons_append,
    readChunks_step (readChunk_literal _ _ (by decide) _), List.append_assoc,
    readChunks_step (readChunk_month _ _ _ _ hvalid.month), List.cons_append,
    readChunks_step (readChunk_literal _ _ (by decide) _), readChunks_step (readChunk_day _ _ _ _)]
  rfl

/-- The time of day up to the seconds. -/
theorem readChunks_clock (hvalid : s.Valid) (later : List Chunk) (tail : Text) :
    Layouts.readChunks (dateTime 'T' ++ later) start (s.dateText ++ 'T' :: (s.clockText ++ tail)) =
      Layouts.readChunks (.second :: later) { s.fields with second := 0 } (s.second.text ++ tail) := by
  rw [dateTime]
  simp only [List.cons_append, List.nil_append]
  rw [readChunks_date hvalid, readChunks_step (readChunk_literal _ _ (by decide) _), Stamp.clockText, List.append_assoc,
    readChunks_step (readChunk_hour _ _ _ _ hvalid.hour), List.cons_append,
    readChunks_step (readChunk_literal _ _ (by decide) _), List.append_assoc,
    readChunks_step (readChunk_minute _ _ _ _ hvalid.minute), List.cons_append,
    readChunks_step (readChunk_literal _ _ (by decide) _)]
  rfl

theorem head_zoneText (s : Stamp) : ∀ c ∈ s.zone.text.head?, c.isDigit = false ∧ c ≠ '.' ∧ c ≠ ',' := by
  intro c hc
  cases hzone : s.zone with
  | absent =>
    rw [hzone] at hc
    cases hc
  | utc =>
    rw [hzone] at hc
    cases hc
    decide
  | colon negative hour minute =>
    rw [hzone] at hc
    cases hc
    cases negative <;> decide
  | plain negative hour minute =>
    rw [hzone] at hc
    cases hc
    cases negative <;> decide

theorem isFraction_zoneText (s : Stamp) : isFraction s.zone.text = false := by
  cases htext : s.zone.text with
  | nil => rfl
  | cons c rest =>
    have hc := head_zoneText s c (by rw [htext]; rfl)
    cases rest with
    | nil => rfl
    | cons d more => simp [isFraction, hc]

/-- The fraction is read, whether the stamp has one or not. -/
theorem readChunk_fraction (later : List Chunk) :
    readChunk later s.fields (s.fractionText ++ s.zone.text) .fraction =
      some ({ s.fields with nanosecond := nanoseconds s.fraction }, s.zone.text) := by
  rw [readChunk, Stamp.fractionText]
  by_cases hnone : s.fraction = []
  · rw [if_pos hnone, List.nil_append, isFraction_zoneText, hnone]
    rfl
  · rw [if_neg hnone, List.cons_append, isFraction_digits hnone s.fractionDigits, if_pos rfl,
      readFraction_digits _ s.fractionDigits fun c hc => (head_zoneText s c hc).1]

/-- A layout with a fraction. -/
theorem readChunks_fraction (hvalid : s.Valid) (later : List Chunk) :
    Layouts.readChunks (dateTime 'T' ++ .fraction :: later) start s.text =
      Layouts.readChunks later { s.fields with nanosecond := nanoseconds s.fraction } s.zone.text := by
  rw [Stamp.text, readChunks_clock hvalid,
    readChunks_step (readChunk_second _ _ _ _ hvalid.second (Or.inr rfl))]
  exact readChunks_step (readChunk_fraction later)

/-- A layout without one reads it all the same. -/
theorem readChunks_noFraction (hvalid : s.Valid) :
    ∃ f, Layouts.readChunks (dateTime 'T') start s.text = some (f, s.zone.text) := by
  have hclock := readChunks_clock hvalid [] (s.fractionText ++ s.zone.text)
  rw [List.append_nil] at hclock
  rw [Stamp.text, hclock, Layouts.readChunks, readChunk, readBelow_digits true _ _ _ hvalid.second, Stamp.fractionText]
  by_cases hnone : s.fraction = []
  · rw [if_pos hnone, List.nil_append]
    dsimp only
    rw [isFraction_zoneText, Bool.false_and, if_neg Bool.false_ne_true]
    exact ⟨_, rfl⟩
  · rw [if_neg hnone, List.cons_append]
    dsimp only
    rw [isFraction_digits hnone s.fractionDigits, if_pos (by decide),
      readFraction_digits _ s.fractionDigits fun c hc => (head_zoneText s c hc).1]
    exact ⟨_, rfl⟩

/-- A blank of the layout does not read the letter of the stamp. -/
theorem readChunks_blank (hvalid : s.Valid) (later : List Chunk) :
    Layouts.readChunks (dateTime ' ' ++ later) start s.text = none := by
  rw [Stamp.text, dateTime]
  simp only [List.cons_append, List.nil_append]
  rw [readChunks_date hvalid]
  rfl

/-! ## What the stamp is read as -/

theorem getnum_digits_self (d : Digits 2) : getnum true d.text = some (d.value, []) := by
  have hd := getnum_digits d true []
  rwa [List.append_nil] at hd

/-- An offset with a colon. -/
theorem readChunk_colon (later : List Chunk) (f : Fields) (negative : Bool) {hour minute : Digits 2}
    (hhour : hour.value < 24) (hminute : minute.value < 60) :
    readChunk later f (Zone.colon negative hour minute).text .zone =
      some ({ f with offset := some (Zone.offset negative hour minute) }, []) := by
  have hsign : Zone.signChar negative ≠ 'Z' := by cases negative <;> decide
  have hbounds : ¬(hour.value > 24 ∨ minute.value > 60) := by omega
  obtain ⟨a, b, hab⟩ := List.length_eq_two.1 hour.length
  obtain ⟨c, d, hcd⟩ := List.length_eq_two.1 minute.length
  have htwo : getnum true [a, b] = some (hour.value, []) := hab ▸ getnum_digits_self hour
  have hmin : getnum true [c, d] = some (minute.value, []) := hcd ▸ getnum_digits_self minute
  rw [Zone.text, hab, hcd, readChunk]
  simp only [List.cons_append, List.nil_append, List.head?_cons, Option.some.injEq, hsign, if_false]
  rw [if_neg (by simp)]
  simp only [List.headD_cons, List.drop_succ_cons, List.drop_zero, List.take_succ_cons, List.take_zero, readOffset,
    htwo, hmin, hbounds, if_false]
  cases negative with
  | true => rfl
  | false => rfl

/-- An offset without one is too short. -/
theorem readChunk_plain (later : List Chunk) (f : Fields) (negative : Bool) (hour minute : Digits 2) :
    readChunk later f (Zone.plain negative hour minute).text .zone = none := by
  have hsign : Zone.signChar negative ≠ 'Z' := by cases negative <;> decide
  rw [Zone.text, readChunk]
  simp [hsign, hour.length, minute.length]

section

variable {zone : Int → Int} {layout value : Text} {f : Fields}

theorem parse_of_read (h : Layouts.readChunks (chunks layout) start value = some (f, [])) :
    Layouts.parse zone layout value = unixMilli zone f := by
  rw [Layouts.parse, h]
  rfl

theorem parse_of_rest {rest : Text} (h : Layouts.readChunks (chunks layout) start value = some (f, rest))
    (hrest : rest ≠ []) :
    Layouts.parse zone layout value = none := by
  rw [Layouts.parse, h]
  exact if_pos hrest

theorem parse_of_none (h : Layouts.readChunks (chunks layout) start value = none) :
    Layouts.parse zone layout value = none := by
  rw [Layouts.parse, h]
  rfl

end

/-- The whole milliseconds of an instant. -/
theorem floor_instant (zone : Int → Int) :
    ⌊s.instant zone * 1000⌋ = s.seconds zone * 1000 + (nanoseconds s.fraction / 1000000 : Nat) := by
  have hsplit : s.instant zone * 1000 = ((s.seconds zone * 1000 : Int) : ℚ) +
      (((1000 * Nat.ofDigitChars 10 s.fraction 0 : Nat) : Int) : ℚ) / ((10 ^ s.fraction.length : Nat) : ℚ) := by
    rw [Stamp.instant]
    push_cast
    ring
  rw [hsplit, Int.floor_intCast_add, Rat.floor_intCast_div_natCast, nanoseconds_div s.fractionDigits]
  norm_cast

theorem unixMilli_fields (hvalid : s.Valid) (zone : Int → Int) (offset : Option Int) :
    unixMilli zone { s.fields with nanosecond := nanoseconds s.fraction, offset := offset } =
      some (offset.elim (zone s.clock) (fun seconds => s.clock - seconds) * 1000 +
        ((nanoseconds s.fraction / 1000000 : Nat) : Int)) := by
  have hday := hvalid.day
  rw [unixMilli, if_neg]
  · cases offset with
    | none => rfl
    | some seconds => rfl
  · simp only [Stamp.fields]
    omega

/-- The first layout reads a stamp with Z or with a colon in its offset. -/
theorem parse_zoned (hvalid : s.Valid) (habsent : s.zone ≠ .absent) (hplain : s.zone.isPlain = false)
    {layout : Text} (hlayout : chunks layout = dateTime 'T' ++ [.fraction, .zone]) (local' zone : Int → Int) :
    Layouts.parse local' layout s.text = some ⌊s.instant zone * 1000⌋ := by
  have hread := readChunks_fraction hvalid [.zone]
  rw [← hlayout] at hread
  rw [floor_instant, Stamp.seconds]
  cases hzone : s.zone with
  | absent => exact absurd hzone habsent
  | utc =>
    rw [hzone] at hread
    rw [parse_of_read (hread.trans (readChunks_step rfl)), unixMilli_fields hvalid local' (some 0), Option.elim_some,
      Int.sub_zero]
  | colon negative hour minute =>
    obtain ⟨hhour, hminute⟩ : hour.value < 24 ∧ minute.value < 60 := by
      have hvalidZone := hvalid.zone
      rwa [hzone] at hvalidZone
    rw [hzone] at hread
    rw [parse_of_read (hread.trans (readChunks_step (readChunk_colon [] _ negative hhour hminute)))]
    exact unixMilli_fields hvalid local' (some (Zone.offset negative hour minute))
  | plain negative hour minute =>
    rw [hzone] at hplain
    cases hplain

/-- The second layout reads a stamp without a zone. -/
theorem parse_absent (hvalid : s.Valid) (habsent : s.zone = .absent) {layout : Text}
    (hlayout : chunks layout = dateTime 'T' ++ [.fraction]) (zone : Int → Int) :
    Layouts.parse zone layout s.text = some ⌊s.instant zone * 1000⌋ := by
  have hread := readChunks_fraction hvalid []
  rw [← hlayout, habsent] at hread
  rw [parse_of_read (hread.trans rfl), floor_instant, Stamp.seconds, habsent]
  exact unixMilli_fields hvalid zone none

/-- No zone is not read as one. -/
theorem parse_absent_zone (hvalid : s.Valid) (habsent : s.zone = .absent) {layout : Text}
    (hlayout : chunks layout = dateTime 'T' ++ [.fraction, .zone]) (zone : Int → Int) :
    Layouts.parse zone layout s.text = none := by
  have hread := readChunks_fraction hvalid [.zone]
  rw [← hlayout, habsent] at hread
  exact parse_of_none (hread.trans rfl)

/-- No layout reads an offset without a colon. -/
theorem parse_plain (hvalid : s.Valid) (hplain : s.zone.isPlain = true) {layout : Text} (h : layout ∈ timeLayouts)
    (zone : Int → Int) : Layouts.parse zone layout s.text = none := by
  cases hzone : s.zone with
  | plain negative hour minute =>
    have hleft : s.zone.text ≠ [] := by
      rw [hzone]
      exact List.cons_ne_nil _ _
    have hchunks : chunks layout ∈ timeLayouts.map chunks := List.mem_map_of_mem h
    rw [chunks_timeLayouts] at hchunks
    have hfraction := readChunks_fraction hvalid []
    obtain ⟨f, hnone⟩ := readChunks_noFraction hvalid
    have hlast : chunks layout = dateTime 'T' ++ [.fraction] → Layouts.parse zone layout s.text = none := by
      intro hlayout
      rw [← hlayout] at hfraction
      exact parse_of_rest (hfraction.trans rfl) hleft
    have hblank : ∀ later, chunks layout = dateTime ' ' ++ later → Layouts.parse zone layout s.text = none := by
      intro later hlayout
      exact parse_of_none (hlayout ▸ readChunks_blank hvalid later)
    simp only [List.mem_cons, List.not_mem_nil, or_false] at hchunks
    rcases hchunks with hlayout | hlayout | hlayout | hlayout | hlayout | hlayout | hlayout
    · have hread := readChunks_fraction hvalid [.zone]
      rw [← hlayout, Layouts.readChunks, hzone, readChunk_plain] at hread
      exact parse_of_none hread
    · exact hlast hlayout
    · exact hlast hlayout
    · rw [← hlayout] at hnone
      exact parse_of_rest hnone hleft
    · exact hblank _ hlayout
    · exact hblank _ hlayout
    · exact hblank [] (hlayout.trans (List.append_nil _).symm)
  | _ =>
    rw [hzone] at hplain
    cases hplain

/-! ## The timestamp -/

section

variable (zone : Int → Int) (unmarshal : Text → Option (List (Text × JsonAny)))

/-- The characters of a stamp in front of its zone. -/
theorem mem_text {s : Stamp} {c : Char} (h : c ∈ s.text) :
    c.isDigit = true ∨ c ∈ "-T:.".toList ∨ c ∈ s.zone.text := by
  have hdigits : ∀ {n : Nat} (d : Digits n), c ∈ d.text → c.isDigit = true ∨ c ∈ "-T:.".toList ∨ c ∈ s.zone.text :=
    fun d hc => Or.inl (d.digits c hc)
  have hmark : ∀ mark ∈ "-T:.".toList, c = mark → c.isDigit = true ∨ c ∈ "-T:.".toList ∨ c ∈ s.zone.text :=
    fun mark hmem heq => Or.inr (Or.inl (heq ▸ hmem))
  simp only [Stamp.text, Stamp.dateText, Stamp.clockText, List.mem_append, List.mem_cons] at h
  rcases h with (hy | hm | hmo | hm | hd) | hm | (hh | hm | hmi | hm | hs) | hf | hz
  · exact hdigits _ hy
  · exact hmark '-' (by decide) hm
  · exact hdigits _ hmo
  · exact hmark '-' (by decide) hm
  · exact hdigits _ hd
  · exact hmark 'T' (by decide) hm
  · exact hdigits _ hh
  · exact hmark ':' (by decide) hm
  · exact hdigits _ hmi
  · exact hmark ':' (by decide) hm
  · exact hdigits _ hs
  · rw [Stamp.fractionText] at hf
    split_ifs at hf
    · cases hf
    · rcases List.mem_cons.1 hf with hpoint | hdigit
      · exact hmark '.' (by decide) hpoint
      · exact Or.inl (s.fractionDigits c hdigit)
  · exact Or.inr (Or.inr hz)

theorem mem_zoneText {z : Zone} {c : Char} (h : c ∈ z.text) : c.isDigit = true ∨ c ∈ "-+:Z".toList := by
  have hmark : ∀ mark ∈ "-+:Z".toList, c = mark → c.isDigit = true ∨ c ∈ "-+:Z".toList :=
    fun mark hmem heq => Or.inr (heq ▸ hmem)
  have hsign : ∀ negative, Zone.signChar negative ∈ "-+:Z".toList := by decide
  cases z with
  | absent => cases h
  | utc => exact hmark 'Z' (by decide) (List.mem_singleton.1 h)
  | colon negative hour minute =>
    rw [Zone.text, List.mem_cons, List.mem_append, List.mem_cons] at h
    rcases h with hs | hh | hcolon | hm
    · exact hmark _ (hsign negative) hs
    · exact Or.inl (hour.digits c hh)
    · exact hmark ':' (by decide) hcolon
    · exact Or.inl (minute.digits c hm)
  | plain negative hour minute =>
    rw [Zone.text, List.mem_cons, List.mem_append] at h
    rcases h with hs | hh | hm
    · exact hmark _ (hsign negative) hs
    · exact Or.inl (hour.digits c hh)
    · exact Or.inl (minute.digits c hm)

theorem isGoSpace_of_mem_text {s : Stamp} {c : Char} (h : c ∈ s.text) : isGoSpace c = false := by
  have hmarks : ∀ mark ∈ "-T:.+Z".toList, isGoSpace mark = false := by decide
  rcases mem_text h with hdigit | hmark | hzone
  · exact isGoSpace_of_isDigit hdigit
  · exact hmarks c (List.mem_append_left "+Z".toList hmark)
  · rcases mem_zoneText hzone with hdigit | hmark
    · exact isGoSpace_of_isDigit hdigit
    · have hall : ∀ mark ∈ "-+:Z".toList, mark ∈ "-T:.+Z".toList := by decide
      exact hmarks c (hall c hmark)

theorem trimSpace_text (s : Stamp) : trimSpace s.text = s.text :=
  trimSpace_eq_self.2 ⟨fun _ hc => isGoSpace_of_mem_text (List.mem_of_head? hc),
    fun _ hc => isGoSpace_of_mem_text (List.mem_of_getLast? hc)⟩

/-- A stamp without a zone has no Z and no plus. -/
theorem local_text (habsent : s.zone = .absent) : ¬(['Z'] <:+ s.text ∨ '+' ∈ s.text) := by
  have hothers : ∀ mark ∈ "Z+".toList, mark.isDigit = false ∧ mark ∉ "-T:.".toList := by decide
  have hnone : ∀ mark ∈ "Z+".toList, mark ∉ s.text := by
    intro mark hmem hmark
    have hother := hothers mark hmem
    rcases mem_text hmark with hdigit | hlisted | hzone
    · rw [hother.1] at hdigit
      cases hdigit
    · exact hother.2 hlisted
    · rw [habsent] at hzone
      cases hzone
  rintro (hsuffix | hplus)
  · exact hnone 'Z' (by decide) (hsuffix.subset (List.mem_singleton_self 'Z'))
  · exact hnone '+' (by decide) hplus

/-- The layout with a zone and the first one without. -/
theorem timeLayouts_eq : ∃ zoned plain rest, timeLayouts = zoned :: plain :: rest ∧
    chunks zoned = dateTime 'T' ++ [.fraction, .zone] ∧ chunks plain = dateTime 'T' ++ [.fraction] ∧
    "Z07".toList <:+: zoned ∧ ¬ "Z07".toList <:+: plain := by
  refine ⟨_, _, _, rfl, ?_, ?_, ?_, ?_⟩
  · exact (List.cons.inj chunks_timeLayouts).1
  · exact (List.cons.inj (List.cons.inj chunks_timeLayouts).2).1
  · decide
  · decide

theorem parseLogTimestamp_text (hvalid : s.Valid) : parseLogTimestamp (goRuntime zone unmarshal) s.text =
    if s.zone.isPlain then none else some ⌊s.instant zone * 1000⌋ := by
  rw [parseLogTimestamp, trimSpace_text]
  cases hplain : s.zone.isPlain with
  | true =>
    rw [if_pos rfl, List.findSome?_eq_none_iff]
    intro layout hlayout
    split
    · exact parse_plain hvalid hplain hlayout id
    · exact parse_plain hvalid hplain hlayout zone
  | false =>
    obtain ⟨zoned, plain, rest, hlayouts, hzoned, hlocal, hasZone, hnoZone⟩ := timeLayouts_eq
    rw [if_neg Bool.false_ne_true, hlayouts, List.findSome?_cons, if_pos (Or.inl hasZone)]
    by_cases habsent : s.zone = .absent
    · -- the first layout asks for a zone, the second reads the local time
      have hfirst : (goRuntime zone unmarshal).timeParse zoned s.text = none :=
        parse_absent_zone hvalid habsent hzoned id
      have hsecond : (goRuntime zone unmarshal).timeParseInLocation plain s.text = some ⌊s.instant zone * 1000⌋ :=
        parse_absent hvalid habsent hlocal zone
      rw [hfirst]
      dsimp only
      rw [List.findSome?_cons, if_neg (not_or.2 ⟨hnoZone, local_text habsent⟩), hsecond]
    · have hfirst : (goRuntime zone unmarshal).timeParse zoned s.text = some ⌊s.instant zone * 1000⌋ :=
        parse_zoned hvalid habsent hplain hzoned id zone
      rw [hfirst]

end

end Workbench.Logs
