import Workbench.Logs.IsoStamps

/-!
# Lines with an ISO timestamp

What `ParseLogLine` of `api/internal/logs/store.go` makes of a line that `isoPattern` matches. A line that one of the
spring patterns matches too is read by that one, and has the same stamp (`before_spring`). A line whose stamp has an
offset without a colon takes the timestamp of the line before (`iso_timestamp_iff`).
-/

set_option autoImplicit false

namespace Workbench.Logs

open Workbench.Lib Workbench.Lib.Layouts
open scoped Workbench.Characters

/-- Group 1 of the match of `isoPattern`. -/
def matchISO (line : Text) : Option Text := (isoStamp line).head?.map fun rest => before line rest

/-! ## The matchers on a stamp -/

theorem digits_text {text : Text} (hdigits : ∀ c ∈ text, c.isDigit = true) (rest : Text) :
    digits text.length (text ++ rest) = [rest] := by
  induction text with
  | nil => rfl
  | cons c more ih =>
    have hc : isDigit c = true := hdigits c List.mem_cons_self
    have hmore := ih fun d hd => hdigits d (List.mem_cons_of_mem c hd)
    show (Matcher.one isDigit (c :: (more ++ rest))).flatMap (digits more.length) = [rest]
    rw [Matcher.one, if_pos hc, List.flatMap_singleton, hmore]

theorem digits_append {n : Nat} (d : Digits n) (rest : Text) : digits n (d.text ++ rest) = [rest] := by
  have htext := digits_text d.digits rest
  rwa [d.length] at htext

theorem char_cons (c : Char) (rest : Text) : char c (c :: rest) = [rest] := by
  simp [char, Matcher.one]

theorem datePart_append (s : Stamp) (tail : Text) : datePart (s.dateText ++ tail) = [tail] := by
  simp [datePart, Matcher.inTurn, Matcher.seq, Stamp.dateText, digits_append, char_cons]

theorem clockPart_append (s : Stamp) (tail : Text) : clockPart (s.clockText ++ tail) = [tail] := by
  simp [clockPart, Matcher.inTurn, Matcher.seq, Stamp.clockText, digits_append, char_cons]

def fractionPart : Matcher Char := Matcher.inTurn [char '.', Matcher.many1 isDigit]

def zonePart : Matcher Char :=
  Matcher.oneOf [char 'Z', Matcher.inTurn [signPart, digits 2, Matcher.opt (char ':'), digits 2]]

theorem seq_done (m : Matcher Char) : (m.seq fun s => [s]) = m := by
  funext s
  exact List.flatMap_singleton' (m s)

theorem isoStamp_append (s : Stamp) (tail : Text) :
    isoStamp (s.dateText ++ 'T' :: (s.clockText ++ tail)) = (fractionPart.opt tail).flatMap zonePart.opt := by
  show Matcher.seq datePart (Matcher.seq (char 'T') (Matcher.seq clockPart (Matcher.seq fractionPart.opt
    (Matcher.seq zonePart.opt fun s => [s])))) _ = _
  rw [seq_done]
  simp [Matcher.seq, datePart_append, char_cons, clockPart_append]

/-- A point with a digit behind it. -/
def hasFraction (tail : Text) : Bool := tail.head? = some '.' && tail.tail.head?.any isDigit

/-- What is left behind the longest fraction. -/
def behindFraction (tail : Text) : Text := if hasFraction tail then tail.tail.dropWhile isDigit else tail

theorem fractionPart_opt (tail : Text) : ∃ more, fractionPart.opt tail = behindFraction tail :: more := by
  have hpart : fractionPart tail = (char '.' tail).flatMap (Matcher.many1 isDigit) := by
    show Matcher.seq (char '.') (Matcher.seq (Matcher.many1 isDigit) fun s => [s]) tail = _
    rw [seq_done]
    rfl
  rw [Matcher.opt, hpart, behindFraction]
  cases hfraction : hasFraction tail with
  | true =>
    simp only [hasFraction, Bool.and_eq_true, decide_eq_true_eq] at hfraction
    obtain ⟨rest, rfl⟩ := List.head?_eq_some_iff.1 hfraction.1
    rw [if_pos rfl, char_cons, List.flatMap_singleton, List.tail_cons]
    cases rest with
    | nil => cases hfraction.2
    | cons c more =>
      have hc : isDigit c = true := hfraction.2
      obtain ⟨others, hothers, -⟩ := Matcher.many_eq isDigit more
      rw [Matcher.many1, if_pos hc, hothers, List.dropWhile_cons_of_pos hc]
      exact ⟨_, rfl⟩
  | false =>
    rw [if_neg Bool.false_ne_true]
    refine ⟨[], ?_⟩
    have hnone : (char '.' tail).flatMap (Matcher.many1 isDigit) = [] := by
      cases tail with
      | nil => rfl
      | cons c rest =>
        by_cases hc : c = '.'
        · rw [hc, char_cons, List.flatMap_singleton]
          cases rest with
          | nil => rfl
          | cons d more =>
            have hd : isDigit d = false := by
              rw [hc] at hfraction
              simpa [hasFraction] using hfraction
            rw [Matcher.many1, hd, if_neg Bool.false_ne_true]
        · simp [char, Matcher.one, hc]
    rw [hnone, List.nil_append]

/-! ## What the matchers read -/

/-- A text of one kind with one of another behind it. -/
def Cat (P Q : Text → Prop) (z : Text) : Prop := ∃ x y, z = x ++ y ∧ P x ∧ Q y

theorem yields_seq {P Q : Text → Prop} {m n : Matcher Char} (hm : Matcher.Yields P m) (hn : Matcher.Yields Q n) :
    Matcher.Yields (Cat P Q) (m.seq n) := hm.seq hn fun x y hx hy => ⟨x, y, rfl, hx, hy⟩

theorem yields_mono {P Q : Text → Prop} {m : Matcher Char} (hm : Matcher.Yields P m) (h : ∀ x, P x → Q x) :
    Matcher.Yields Q m := by
  intro s r hr
  obtain ⟨x, hx, hP⟩ := hm s r hr
  exact ⟨x, hx, h x hP⟩

theorem yields_done : Matcher.Yields (fun x => x = []) fun s : Text => [s] := by
  intro s r hr
  exact ⟨[], by rw [List.mem_singleton.1 hr, List.nil_append], rfl⟩

theorem yields_oneOf {P : Text → Prop} {ms : List (Matcher Char)} (h : ∀ m ∈ ms, Matcher.Yields P m) :
    Matcher.Yields P (Matcher.oneOf ms) := by
  intro s r hr
  obtain ⟨m, hm, hrest⟩ := List.mem_flatMap.1 hr
  exact h m hm s r hrest

theorem yields_char (c : Char) : Matcher.Yields (fun x => x = [c]) (char c) :=
  Matcher.yields_one fun _ hd => congrArg (fun e => [e]) (of_decide_eq_true hd)

def IsDigits (n : Nat) (x : Text) : Prop := ∃ d : Digits n, x = d.text

theorem yields_digits (n : Nat) : Matcher.Yields (IsDigits n) (digits n) := by
  induction n with
  | zero => exact yields_mono yields_done fun x hx => ⟨⟨[], rfl, by simp⟩, hx⟩
  | succ n ih =>
    have hone : Matcher.Yields (fun x => ∃ c, x = [c] ∧ c.isDigit = true) (Matcher.one isDigit) :=
      Matcher.yields_one fun c hc => ⟨c, rfl, hc⟩
    refine hone.seq ih ?_
    rintro x y ⟨c, rfl, hc⟩ ⟨d, rfl⟩
    refine ⟨⟨c :: d.text, congrArg (· + 1) d.length, ?_⟩, rfl⟩
    intro e he
    rcases List.mem_cons.1 he with rfl | he
    · exact hc
    · exact d.digits e he

def IsDate (x : Text) : Prop := ∃ (y : Digits 4) (m d : Digits 2), x = y.text ++ '-' :: (m.text ++ '-' :: d.text)

def IsClock (x : Text) : Prop := ∃ h m s : Digits 2, x = h.text ++ ':' :: (m.text ++ ':' :: s.text)

theorem yields_datePart : Matcher.Yields IsDate datePart := by
  refine yields_mono (yields_seq (yields_digits 4) (yields_seq (yields_char '-') (yields_seq (yields_digits 2)
    (yields_seq (yields_char '-') (yields_seq (yields_digits 2) yields_done))))) ?_
  rintro x ⟨_, _, rfl, ⟨y, rfl⟩, _, _, rfl, rfl, _, _, rfl, ⟨m, rfl⟩, _, _, rfl, rfl, _, _, rfl, ⟨d, rfl⟩, rfl⟩
  exact ⟨y, m, d, by simp⟩

theorem yields_clockPart : Matcher.Yields IsClock clockPart := by
  refine yields_mono (yields_seq (yields_digits 2) (yields_seq (yields_char ':') (yields_seq (yields_digits 2)
    (yields_seq (yields_char ':') (yields_seq (yields_digits 2) yields_done))))) ?_
  rintro x ⟨_, _, rfl, ⟨h, rfl⟩, _, _, rfl, rfl, _, _, rfl, ⟨m, rfl⟩, _, _, rfl, rfl, _, _, rfl, ⟨s, rfl⟩, rfl⟩
  exact ⟨h, m, s, by simp⟩

/-- No fraction, or a point with digits. -/
def IsFraction (x : Text) : Prop := x = [] ∨ ∃ ds : Text, ds ≠ [] ∧ (∀ c ∈ ds, c.isDigit = true) ∧ x = '.' :: ds

def IsZone (x : Text) : Prop := ∃ z : Zone, x = z.text

def SomeDigits (x : Text) : Prop := x ≠ [] ∧ ∀ c ∈ x, c.isDigit = true

/-- A digit with digits behind it. -/
theorem yields_someDigits {m : Matcher Char} (hm : Matcher.Yields (fun x => ∀ c ∈ x, c.isDigit = true) m) :
    Matcher.Yields SomeDigits ((Matcher.one isDigit).seq m) := by
  have hone : Matcher.Yields (fun x => ∃ c, x = [c] ∧ c.isDigit = true) (Matcher.one isDigit) :=
    Matcher.yields_one fun c hc => ⟨c, rfl, hc⟩
  refine hone.seq hm ?_
  rintro x y ⟨c, rfl, hc⟩ hy
  refine ⟨List.cons_ne_nil _ _, ?_⟩
  intro d hd
  rcases List.mem_cons.1 hd with rfl | hd
  · exact hc
  · exact hy d hd

theorem many1_eq_seq : Matcher.many1 isDigit = (Matcher.one isDigit).seq (Matcher.many isDigit) := by
  funext s
  cases s with
  | nil => rfl
  | cons c rest =>
    rw [Matcher.many1, Matcher.seq, Matcher.one]
    split_ifs
    · rw [List.flatMap_singleton]
    · rfl

theorem yields_upTo (n : Nat) : Matcher.Yields (fun x => ∀ c ∈ x, c.isDigit = true) (Matcher.upTo isDigit n) := by
  induction n with
  | zero => exact yields_mono yields_done fun x hx => by simp [hx]
  | succ n ih =>
    intro s r hr
    cases s with
    | nil => exact ⟨[], by rw [List.mem_singleton.1 hr, List.nil_append], by simp⟩
    | cons c rest =>
      rw [Matcher.upTo] at hr
      split_ifs at hr with hc
      · rcases List.mem_append.1 hr with hr | hr
        · obtain ⟨x, rfl, hx⟩ := ih rest r hr
          exact ⟨c :: x, rfl, List.forall_mem_cons.2 ⟨hc, hx⟩⟩
        · exact ⟨[], by rw [List.mem_singleton.1 hr, List.nil_append], by simp⟩
      · exact ⟨[], by rw [List.mem_singleton.1 hr, List.nil_append], by simp⟩

theorem yields_fraction {m : Matcher Char} (hm : Matcher.Yields SomeDigits m) :
    Matcher.Yields IsFraction (Matcher.opt (Matcher.seq (char '.') m)) := by
  refine Matcher.Yields.opt ((yields_char '.').seq hm ?_) (Or.inl rfl)
  rintro x y rfl ⟨hne, hdigits⟩
  exact Or.inr ⟨y, hne, hdigits, rfl⟩

theorem yields_zonePart : Matcher.Yields IsZone zonePart := by
  apply yields_oneOf
  intro m hm
  rcases List.mem_cons.1 hm with rfl | hm
  · exact yields_mono (yields_char 'Z') fun x hx => ⟨.utc, hx⟩
  · rw [List.mem_singleton.1 hm]
    have hsign : Matcher.Yields (fun x => ∃ negative, x = [Zone.signChar negative]) signPart := by
      apply Matcher.yields_one
      intro c hc
      rcases Bool.or_eq_true_iff.1 hc with hplus | hminus
      · exact ⟨false, congrArg (fun e => [e]) (of_decide_eq_true hplus)⟩
      · exact ⟨true, congrArg (fun e => [e]) (of_decide_eq_true hminus)⟩
    have hcolon : Matcher.Yields (fun x => x = [':'] ∨ x = []) (Matcher.opt (char ':')) :=
      Matcher.Yields.opt (yields_mono (yields_char ':') fun x hx => Or.inl hx) (Or.inr rfl)
    refine yields_mono (yields_seq hsign (yields_seq (yields_digits 2) (yields_seq hcolon (yields_seq (yields_digits 2)
      yields_done)))) ?_
    rintro x ⟨_, _, rfl, ⟨negative, rfl⟩, _, _, rfl, ⟨hour, rfl⟩, _, _, rfl, rfl | rfl, _, _, rfl, ⟨minute, rfl⟩, rfl⟩
    · exact ⟨.colon negative hour minute, by simp [Zone.text]⟩
    · exact ⟨.plain negative hour minute, by simp [Zone.text]⟩

/-- What the pattern matches is the text of a stamp. -/
theorem yields_isoStamp : Matcher.Yields (fun x => ∃ s : Stamp, x = s.text) isoStamp := by
  have hdigits : Matcher.Yields SomeDigits (Matcher.seq (Matcher.many1 isDigit) fun s => [s]) := by
    rw [seq_done, many1_eq_seq]
    exact yields_someDigits (Matcher.yields_many fun x hx => List.all_eq_true.1 hx)
  have hzone : Matcher.Yields IsZone zonePart.opt := yields_zonePart.opt ⟨.absent, rfl⟩
  refine yields_mono (yields_seq yields_datePart (yields_seq (yields_char 'T') (yields_seq yields_clockPart
    (yields_seq (yields_fraction hdigits) (yields_seq hzone yields_done))))) ?_
  rintro x ⟨_, _, rfl, ⟨year, month, day, rfl⟩, _, _, rfl, rfl, _, _, rfl, ⟨hour, minute, second, rfl⟩, _, _, rfl,
    hfraction, _, _, rfl, ⟨z, rfl⟩, rfl⟩
  rcases hfraction with rfl | ⟨ds, hne, hds, rfl⟩
  · refine ⟨⟨year, month, day, hour, minute, second, [], by simp, z⟩, ?_⟩
    simp [Stamp.text, Stamp.dateText, Stamp.clockText, Stamp.fractionText]
  · refine ⟨⟨year, month, day, hour, minute, second, ds, hds, z⟩, ?_⟩
    simp [Stamp.text, Stamp.dateText, Stamp.clockText, Stamp.fractionText, hne]

/-- A date, a time of day and perhaps a fraction, as the spring patterns take them. -/
def IsSpring (x : Text) : Prop := ∃ front fraction, x = front ++ fraction ∧ front.length = 19 ∧ IsFraction fraction

theorem length_isDate {x : Text} (h : IsDate x) : x.length = 10 := by
  obtain ⟨y, m, d, rfl⟩ := h
  simp [y.length, m.length, d.length]

theorem length_isClock {x : Text} (h : IsClock x) : x.length = 8 := by
  obtain ⟨a, m, s, rfl⟩ := h
  simp [a.length, m.length, s.length]

theorem yields_springStamp : Matcher.Yields IsSpring springStamp := by
  have hseparator : Matcher.Yields (fun x => x.length = 1) (Matcher.one fun c => c = ' ' || c = 'T') :=
    Matcher.yields_one fun c _ => rfl
  have hdigits : Matcher.Yields SomeDigits ((Matcher.one isDigit).seq ((Matcher.upTo isDigit 8).seq fun s => [s])) := by
    rw [seq_done]
    exact yields_someDigits (yields_upTo 8)
  refine yields_mono (yields_seq yields_datePart (yields_seq hseparator (yields_seq yields_clockPart
    (yields_seq (yields_fraction hdigits) yields_done)))) ?_
  rintro x ⟨date, _, rfl, hdate, separator, _, rfl, hlength, clock, _, rfl, hclock, fraction, _, rfl, hfraction, rfl⟩
  refine ⟨date ++ (separator ++ clock), fraction, by simp, ?_, hfraction⟩
  rw [List.length_append, List.length_append, length_isDate hdate, hlength, length_isClock hclock]

/-! ## One stamp -/

theorem length_of_mem_opt {m : Matcher Char} {P : Text → Prop} (hm : Matcher.Yields P m) {tail rest : Text}
    (h : rest ∈ m.opt tail) : rest.length ≤ tail.length := by
  rcases List.mem_append.1 h with hrest | hrest
  · obtain ⟨x, rfl, -⟩ := hm tail rest hrest
    rw [List.length_append]
    exact Nat.le_add_left _ _
  · rw [List.mem_singleton.1 hrest]

/-- The pattern takes the longest fraction, and then a zone if there is one. -/
theorem length_of_isoStamp {s : Stamp} {tail rest : Text}
    (h : (isoStamp (s.dateText ++ 'T' :: (s.clockText ++ tail))).head? = some rest) :
    rest.length ≤ (behindFraction tail).length := by
  obtain ⟨more, hmore⟩ := fractionPart_opt tail
  have hzone : zonePart.opt (behindFraction tail) ≠ [] := by simp [Matcher.opt]
  rw [isoStamp_append, hmore, List.flatMap_cons, List.head?_append_of_ne_nil _ hzone] at h
  exact length_of_mem_opt yields_zonePart (List.mem_of_head? h)

theorem hasFraction_digits {fraction : Text} (hne : fraction ≠ []) (hdigits : ∀ c ∈ fraction, c.isDigit = true)
    (rest : Text) : hasFraction ('.' :: (fraction ++ rest)) = true := by
  cases fraction with
  | nil => exact absurd rfl hne
  | cons c more => exact hdigits c List.mem_cons_self

theorem before_append (x rest : Text) : before (x ++ rest) rest = x := by
  rw [before, List.length_append, Nat.add_sub_cancel, List.take_left]

/-- What the match says of the line: no fraction is left behind it, and its fraction is the whole one. -/
structure Matches (s : Stamp) (rest : Text) : Prop where
  noFraction : s.zone = .absent → s.fraction = [] → hasFraction rest = false
  wholeFraction : s.zone = .absent → s.fraction ≠ [] → ∀ c ∈ rest.head?, c.isDigit = false

theorem matchISO_eq_some {line : Text} {s : Stamp} (h : matchISO line = some s.text) :
    ∃ rest, line = s.text ++ rest ∧ (isoStamp line).head? = some rest ∧ Matches s rest := by
  obtain ⟨rest, hrest, hbefore⟩ := Option.map_eq_some_iff.1 h
  obtain ⟨x, hline, -⟩ := yields_isoStamp line rest (List.mem_of_head? hrest)
  have htext : line = s.text ++ rest := by
    rw [hline, before_append] at hbefore
    rw [hline, hbefore]
  refine ⟨rest, htext, hrest, ?_⟩
  have hsplit : line = s.dateText ++ 'T' :: (s.clockText ++ (s.fractionText ++ s.zone.text ++ rest)) := by
    rw [htext, Stamp.text]
    simp
  rw [hsplit] at hrest
  have hlength := length_of_isoStamp hrest
  constructor
  · intro habsent hnone
    rw [habsent, Stamp.fractionText, if_pos hnone] at hlength
    have hshort : rest.length ≤ (behindFraction rest).length := hlength
    by_contra hfraction
    rw [Bool.not_eq_false] at hfraction
    rw [behindFraction, if_pos hfraction] at hshort
    have hdrop : (rest.tail.dropWhile isDigit).length ≤ rest.tail.length := (List.dropWhile_suffix _).length_le
    cases rest with
    | nil => cases hfraction
    | cons c more =>
      simp only [List.length_cons, List.tail_cons] at hshort hdrop
      omega
  · intro habsent hsome
    rw [habsent, Stamp.fractionText, if_neg hsome, Zone.text, List.append_nil, List.cons_append, behindFraction,
      if_pos (hasFraction_digits hsome s.fractionDigits rest), List.tail_cons,
      List.dropWhile_append_of_pos (show ∀ c ∈ s.fraction, isDigit c = true from s.fractionDigits)] at hlength
    have hkept : rest.dropWhile isDigit = rest := (List.dropWhile_suffix _).eq_of_length_le hlength
    intro c hc
    cases rest with
    | nil => cases hc
    | cons d more =>
      cases hc
      rw [List.dropWhile_eq_self_iff] at hkept
      exact Bool.eq_false_iff.2 (hkept (Nat.zero_lt_succ _))

/-- A zone begins with a letter or a sign. -/
theorem zone_absent {z : Zone} {rest more : Text} {c : Char} (h : z.text ++ rest = c :: more)
    (hc : c ∉ "Z+-".toList) : z = .absent := by
  have hsign : ∀ negative, Zone.signChar negative ∈ "Z+-".toList := by decide
  cases z with
  | absent => rfl
  | utc =>
    cases h
    exact absurd (by decide) hc
  | colon negative hour minute =>
    rw [Zone.text, List.cons_append] at h
    rw [← (List.cons.inj h).1] at hc
    exact absurd (hsign negative) hc
  | plain negative hour minute =>
    rw [Zone.text, List.cons_append] at h
    rw [← (List.cons.inj h).1] at hc
    exact absurd (hsign negative) hc

/-- Digits in front of a blank are the whole fraction. -/
theorem fraction_unique {s : Stamp} {ds more rest : Text} {c : Char} (hm : Matches s rest) (hne : s.fraction ≠ [])
    (hds : ∀ d ∈ ds, d.isDigit = true) (hc : c.isDigit = false)
    (h : ds ++ c :: more = s.fraction ++ (s.zone.text ++ rest)) :
    ds = s.fraction ∧ c :: more = s.zone.text ++ rest := by
  have hstop : (s.zone.text ++ rest).takeWhile Char.isDigit = [] := by
    cases hz : s.zone.text ++ rest with
    | nil => rfl
    | cons d tail =>
      have hd : d.isDigit = false := by
        cases hzone : s.zone with
        | absent =>
          rw [hzone] at hz
          exact hm.wholeFraction hzone hne d (by rw [show rest = d :: tail from hz]; rfl)
        | _ =>
          refine (head_zoneText s d ?_).1
          rw [hzone] at hz ⊢
          rw [Zone.text] at hz ⊢
          rw [(List.cons.inj hz).1]
          rfl
      rw [List.takeWhile_cons, hd, if_neg Bool.false_ne_true]
  have htake := congrArg (List.takeWhile Char.isDigit) h
  rw [List.takeWhile_append_of_pos hds, List.takeWhile_append_of_pos s.fractionDigits, hstop, List.takeWhile_cons, hc,
    if_neg Bool.false_ne_true, List.append_nil, List.append_nil] at htake
  rw [htake] at h
  exact ⟨htake, List.append_cancel_left h⟩

theorem fraction_eq {s : Stamp} {fraction more rest : Text} {c : Char} (hm : Matches s rest)
    (hfraction : IsFraction fraction) (hspace : isLineSpace c = true)
    (h : fraction ++ c :: more = s.fractionText ++ (s.zone.text ++ rest)) :
    fraction = s.fractionText ∧ s.zone = .absent := by
  have hspaces : ∀ mark ∈ "Z+-.".toList, isLineSpace mark = false := by decide
  have hmark : c ∉ "Z+-.".toList := by
    intro hmem
    rw [hspaces c hmem] at hspace
    cases hspace
  have hdigit : c.isDigit = false := by
    cases hc : c.isDigit with
    | false => rfl
    | true =>
      have hgo := isGoSpace_of_isDigit hc
      simp only [isLineSpace, Bool.or_eq_true, decide_eq_true_eq] at hspace
      rcases hspace with (((rfl | rfl) | rfl) | rfl) | rfl <;> cases hgo
  have hzone : ∀ tail, s.zone.text ++ rest = c :: tail → s.zone = .absent :=
    fun tail htail => zone_absent htail fun hmem => hmark (List.mem_append_left ['.'] hmem)
  rcases hfraction with rfl | ⟨ds, hne, hds, rfl⟩
  · by_cases hnone : s.fraction = []
    · rw [Stamp.fractionText, if_pos hnone] at h ⊢
      exact ⟨rfl, hzone _ h.symm⟩
    · rw [Stamp.fractionText, if_neg hnone] at h
      have hpoint : c = '.' := (List.cons.inj h).1
      rw [hpoint] at hmark
      exact absurd (by decide) hmark
  · by_cases hnone : s.fraction = []
    · -- the pattern would have taken the fraction
      rw [Stamp.fractionText, if_pos hnone] at h
      have habsent : s.zone = .absent := zone_absent h.symm (by decide)
      rw [habsent] at h
      have hrest : rest = '.' :: (ds ++ c :: more) := h.symm
      have hleft := hm.noFraction habsent hnone
      rw [hrest, hasFraction_digits hne hds] at hleft
      cases hleft
    · rw [Stamp.fractionText, if_neg hnone] at h ⊢
      obtain ⟨heq, htail⟩ := fraction_unique hm hnone hds hdigit (List.cons.inj h).2
      exact ⟨congrArg ('.' :: ·) heq, hzone _ htail.symm⟩

/-- **A spring pattern that matches the line of a stamp has the same stamp.** -/
theorem before_spring {line : Text} {s : Stamp} (h : matchISO line = some s.text) {between : Matcher Char}
    (hbetween : ∀ text, between text ≠ [] → text.head?.any isLineSpace = true) {stamp level rest : Text}
    (hspring : matchSpring between line = some (stamp, level, rest)) : stamp = s.text := by
  obtain ⟨behind, hbehind, hmem⟩ := List.mem_flatMap.1 (List.mem_of_head? hspring)
  obtain ⟨atLevel, hatLevel, hmem⟩ := List.mem_flatMap.1 hmem
  obtain ⟨word, -, hmem⟩ := List.mem_flatMap.1 hmem
  obtain ⟨last, -, hgroups⟩ := List.mem_map.1 hmem
  cases hgroups
  obtain ⟨x, hline, front, fraction, rfl, hfront, hfraction⟩ := yields_springStamp line behind hbehind
  have hspace := hbetween behind (List.ne_nil_of_mem hatLevel)
  obtain ⟨isoRest, hiso, -, hm⟩ := matchISO_eq_some h
  cases behind with
  | nil => cases hspace
  | cons c more =>
    have hclock : (s.dateText ++ 'T' :: s.clockText).length = 19 := by
      simp [Stamp.dateText, Stamp.clockText, s.year.length, s.month.length, s.day.length, s.hour.length,
        s.minute.length, s.second.length]
    have htext : s.text = (s.dateText ++ 'T' :: s.clockText) ++ (s.fractionText ++ s.zone.text) := by
      rw [Stamp.text]
      simp
    have hboth : front ++ (fraction ++ c :: more) =
        (s.dateText ++ 'T' :: s.clockText) ++ (s.fractionText ++ (s.zone.text ++ isoRest)) := by
      rw [← List.append_assoc, ← hline, hiso, htext]
      simp
    obtain ⟨hfrontEq, htail⟩ := List.append_inj hboth (hfront.trans hclock.symm)
    obtain ⟨hfractionEq, habsent⟩ := fraction_eq hm hfraction hspace htail
    rw [hline, before_append, htext, hfrontEq, hfractionEq, habsent, Zone.text, List.append_nil]

/-- Behind its stamp a spring pattern goes on with a blank. -/
theorem spaces_blank {text : Text} (h : spaces text ≠ []) : text.head?.any isLineSpace = true := by
  cases text with
  | nil => exact absurd rfl h
  | cons c rest =>
    cases hc : isLineSpace c with
    | true => exact hc
    | false =>
      refine absurd ?_ h
      rw [spaces, Matcher.many1, hc, if_neg Bool.false_ne_true]

theorem bracketPart_blank {text : Text} (h : bracketPart text ≠ []) : text.head?.any isLineSpace = true := by
  apply spaces_blank
  intro hnone
  apply h
  show Matcher.seq spaces _ text = []
  rw [Matcher.seq, hnone]
  rfl

/-! ## The timestamp of a line -/

section

variable {zone : Int → Int} {unmarshal : Text → Option (List (Text × JsonAny))} {line : Text} {s : Stamp}

theorem timestampMs_parsePattern {rt : LineRuntime} {between : Matcher Char} {parsed : LineParse}
    (hmatch : matchISO line = some s.text) (hbetween : ∀ text, between text ≠ [] → text.head?.any isLineSpace = true)
    (h : parsePattern rt between line = some parsed) : parsed.timestampMs = parseLogTimestamp rt s.text := by
  obtain ⟨⟨stamp, level, rest⟩, hspring, rfl⟩ := Option.map_eq_some_iff.1 h
  exact congrArg (parseLogTimestamp rt) (before_spring hmatch hbetween hspring)

/-- Whichever format reads the line, it reads the stamp. -/
theorem parseFormats_stamp (rt : LineRuntime) (hmatch : matchISO line = some s.text) :
    ∃ parsed, parseFormats rt line = some parsed ∧ parsed.timestampMs = parseLogTimestamp rt s.text := by
  cases hbracket : parsePattern rt bracketPart line with
  | some parsed =>
    refine ⟨parsed, ?_, timestampMs_parsePattern hmatch (fun _ => bracketPart_blank) hbracket⟩
    rw [parseFormats, hbracket, Option.some_or]
  | none =>
    cases hspring : parsePattern rt spaces line with
    | some parsed =>
      refine ⟨parsed, ?_, timestampMs_parsePattern hmatch (fun _ => spaces_blank) hspring⟩
      rw [parseFormats, hbracket, hspring, Option.none_or, Option.some_or]
    | none =>
      obtain ⟨rest, hrest, hstamp⟩ := Option.map_eq_some_iff.1 hmatch
      have hiso : ∃ parsed, parseISO rt line = some parsed ∧
          parsed.timestampMs = parseLogTimestamp rt s.text := by
        rw [parseISO, hrest, Option.map_some, ← hstamp]
        dsimp only
        split
        · exact ⟨_, rfl, rfl⟩
        · exact ⟨_, rfl, rfl⟩
      obtain ⟨parsed, hparsed, hts⟩ := hiso
      refine ⟨parsed, ?_, hts⟩
      rw [parseFormats, hbracket, hspring, hparsed, Option.none_or, Option.none_or, Option.some_or]

/-- A line with a stamp is not blank. -/
theorem trimSpace_stampLine (hmatch : matchISO line = some s.text) : trimSpace line ≠ [] := by
  obtain ⟨rest, hline, -⟩ := matchISO_eq_some hmatch
  intro hblank
  have hmark : 'T' ∈ line := by
    rw [hline, Stamp.text]
    simp
  exact absurd (trimSpace_eq_nil.1 hblank 'T' hmark) (by decide)

/-- What a line with a stamp has for its timestamp: the reading of the stamp, else that of the line before. -/
theorem timestampMs_parseLogLine (rt : LineRuntime) (hmatch : matchISO (trimLine line) = some s.text)
    (last : Option Int) : (parseLogLine rt line last).timestampMs = (parseLogTimestamp rt s.text).or last := by
  obtain ⟨parsed, hparsed, hts⟩ := parseFormats_stamp rt hmatch
  simp only [parseLogLine]
  rw [if_neg (trimSpace_stampLine hmatch), hparsed]
  dsimp only
  rw [timestampMs_withFallback, hts]

/-- **A line with the stamp of a valid time gets the instant that it denotes, whatever the line before has, exactly
if no offset without a colon is in it.** -/
theorem iso_timestamp_iff (hvalid : s.Valid) (hmatch : matchISO (trimLine line) = some s.text) :
    (∀ last, (parseLogLine (goRuntime zone unmarshal) line last).timestampMs = some ⌊s.instant zone * 1000⌋) ↔
      s.zone.isPlain = false := by
  simp only [timestampMs_parseLogLine _ hmatch, parseLogTimestamp_text zone unmarshal hvalid]
  cases s.zone.isPlain with
  | true =>
    -- the stamp is not read, and there need not be a line before
    rw [if_pos rfl]
    constructor
    · intro hall
      exact absurd (hall none) (by simp)
    · intro hfalse
      cases hfalse
  | false =>
    rw [if_neg Bool.false_ne_true]
    exact ⟨fun _ => rfl, fun _ _ => Option.some_or⟩

/-- Noon of a day in January. -/
def noon (zone : Zone) : Stamp where
  year := ⟨"2026".toList, rfl, by decide⟩
  month := ⟨"01".toList, rfl, by decide⟩
  day := ⟨"02".toList, rfl, by decide⟩
  hour := ⟨"12".toList, rfl, by decide⟩
  minute := ⟨"00".toList, rfl, by decide⟩
  second := ⟨"00".toList, rfl, by decide⟩
  fraction := []
  fractionDigits := by simp
  zone := zone

/-- Eight hours ahead, without a colon. -/
def eightAhead : Zone := .plain false ⟨"08".toList, rfl, by decide⟩ ⟨"00".toList, rfl, by decide⟩

theorem noon_valid {zone : Zone} (h : zone.Valid) : (noon zone).Valid where
  month := (by decide : 1 ≤ (noon .utc).month.value ∧ (noon .utc).month.value ≤ 12)
  day := (by decide : 1 ≤ (noon .utc).day.value ∧ (noon .utc).day.value ≤ daysIn 1 2026)
  hour := (by decide : (noon .utc).hour.value < 24)
  minute := (by decide : (noon .utc).minute.value < 60)
  second := (by decide : (noon .utc).second.value < 60)
  zone := h

/-- The stamp of a line, where the pattern takes its fraction and its zone. -/
theorem matchISO_text {rest : Text}
    (h : ((fractionPart.opt (s.fractionText ++ (s.zone.text ++ rest))).flatMap zonePart.opt).head? = some rest) :
    matchISO (s.text ++ rest) = some s.text := by
  have hsplit : s.text ++ rest = s.dateText ++ 'T' :: (s.clockText ++ (s.fractionText ++ (s.zone.text ++ rest))) := by
    rw [Stamp.text]
    simp
  rw [matchISO, hsplit, isoStamp_append, h, ← hsplit, Option.map_some, before_append]

theorem matchISO_noon : matchISO (trimLine "2026-01-02T12:00:00Z started".toList) = some (noon .utc).text := by
  have hline : trimLine "2026-01-02T12:00:00Z started".toList = (noon .utc).text ++ " started".toList := by decide
  rw [hline]
  exact matchISO_text (by rfl)

theorem matchISO_eightAhead :
    matchISO (trimLine "2026-01-02T12:00:00+0800 started".toList) = some (noon eightAhead).text := by
  have hline : trimLine "2026-01-02T12:00:00+0800 started".toList = (noon eightAhead).text ++ " started".toList := by
    decide
  rw [hline]
  exact matchISO_text (by rfl)

theorem iso_timestamp_noon :
    (∀ last, (parseLogLine (goRuntime id fun _ => none) "2026-01-02T12:00:00Z started".toList last).timestampMs =
      some ⌊(noon .utc).instant id * 1000⌋) ↔ Zone.utc.isPlain = false :=
  iso_timestamp_iff (noon_valid trivial) matchISO_noon

/-- The line of a stamp that is eight hours ahead has the timestamp of the line before. -/
theorem iso_timestamp_inherited :
    (noon eightAhead).Valid ∧
      matchISO (trimLine "2026-01-02T12:00:00+0800 started".toList) = some (noon eightAhead).text ∧
      ⌊(noon eightAhead).instant id * 1000⌋ = 1767326400000 ∧
      (parseLogLine (goRuntime id fun _ => none) "2026-01-02T12:00:00+0800 started".toList (some 5)).timestampMs =
        some 5 := by
  have hvalid : (noon eightAhead).Valid := noon_valid ⟨by decide, by decide⟩
  refine ⟨hvalid, matchISO_eightAhead, ?_, ?_⟩
  · rw [floor_instant]
    have hseconds : (noon eightAhead).seconds id = 1767326400 := by decide +kernel
    rw [hseconds]
    rfl
  · rw [timestampMs_parseLogLine _ matchISO_eightAhead, parseLogTimestamp_text id _ hvalid]
    rfl

end

end Workbench.Logs
