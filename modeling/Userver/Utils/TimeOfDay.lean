import Userver.Lib.CType
import Userver.Lib.Codec

/-!
# `utils::datetime::TimeOfDay`

`TimeOfDay<Duration>` (`time_of_day.hpp`) is a time since midnight, kept as a count of ticks of
`Duration` in `[0, 24 h)`.  It is built from a duration, normalised modulo a day
(`NormalizeTimeOfDay`), or from a string by the state machine `TimeOfDayParser`, which reads
`H:MM`, `H:MM:SS` and `H:MM:SS.F`, one character a step.  `fmt::formatter<TimeOfDay>` parses a
format spec of `%H`, `%M`, `%S`, `%%` and literal text into a list of `fmt` format strings and
prints the hours, minutes and seconds through them.

Every duration here is a whole number of nanoseconds, so a duration of any of the six standard
periods is its length in nanoseconds, and `duration_cast` to a period is a division by its tick.

The default format of the millisecond, microsecond and nanosecond resolutions is `HH:MM:SS`,
with no fraction, so `TimeOfDay(fmt::format("{}", t))` loses the fraction of `t`
(`timeOfDay_default_format_loses_subseconds`); and the parser takes no fraction at all at the
resolutions of hours, minutes and seconds (`timeOfDayParser_rejects_fraction`).
-/

namespace Userver

namespace Utils

namespace Datetime

open CType

/-! ## Periods -/

/-- Nanoseconds in an hour, a minute and a second. -/
def nsPerHour : Nat := 3600000000000

/-- Nanoseconds in a minute. -/
def nsPerMinute : Nat := 60000000000

/-- Nanoseconds in a second. -/
def nsPerSecond : Nat := 1000000000

/-- The periods of `std::chrono::hours` down to `std::chrono::nanoseconds`. -/
inductive Resolution where
  | hours
  | minutes
  | seconds
  | milli
  | micro
  | nano
  deriving DecidableEq, Repr

namespace Resolution

/-- The period in nanoseconds. -/
def tick : Resolution → Nat
  | hours => nsPerHour
  | minutes => nsPerMinute
  | seconds => nsPerSecond
  | milli => 1000000
  | micro => 1000
  | nano => 1

/-- `kDecimalPositions<Period>`: the digits of a fraction of a second the period keeps. -/
def kDecimalPositions : Resolution → Nat
  | milli => 3
  | micro => 6
  | nano => 9
  | _ => 0

/-- `kHasMinutes<Period>`: `Num <= 60`. -/
def kHasMinutes : Resolution → Bool
  | hours => false
  | _ => true

/-- `kHasSeconds<Period>`: `Num == 1`. -/
def kHasSeconds : Resolution → Bool
  | hours | minutes => false
  | _ => true

/-- `kHasSubseconds<Period>`: `Den > 1`. -/
def kHasSubseconds : Resolution → Bool
  | milli | micro | nano => true
  | _ => false

theorem tick_pos (res : Resolution) : 0 < res.tick := by
  cases res <;> simp [tick, nsPerHour, nsPerMinute, nsPerSecond]

end Resolution

/-- `kTwentyFourHours<Rep, Period>`: a day in ticks. -/
def kTwentyFourHours (res : Resolution) : Nat := 24 * nsPerHour / res.tick

/-- A day is a whole number of ticks of every period. -/
theorem kTwentyFourHours_mul_tick (res : Resolution) :
    kTwentyFourHours res * res.tick = 24 * nsPerHour := by
  cases res <;> simp [kTwentyFourHours, Resolution.tick, nsPerHour, nsPerMinute, nsPerSecond]

theorem kTwentyFourHours_pos (res : Resolution) : 0 < kTwentyFourHours res := by
  cases res <;> simp [kTwentyFourHours, Resolution.tick, nsPerHour, nsPerMinute, nsPerSecond]

/-- `NormalizeTimeOfDay<Rep, Period>(d)` of a duration of `d` nanoseconds: `duration_cast` to the
period, `%` a day (both rounding toward zero), and a day added to a negative rest. -/
def normalizeTimeOfDay (res : Resolution) (d : Int) : Int :=
  let r := (d.tdiv res.tick).tmod (kTwentyFourHours res)
  if r < 0 then r + kTwentyFourHours res else r

theorem normalizeTimeOfDay_nonneg (res : Resolution) (d : Int) : 0 ≤ normalizeTimeOfDay res d := by
  have hlt := Int.lt_tmod_of_pos (d.tdiv res.tick)
    (Int.natCast_pos.2 (kTwentyFourHours_pos res))
  dsimp only [normalizeTimeOfDay]
  split <;> omega

theorem normalizeTimeOfDay_lt (res : Resolution) (d : Int) :
    normalizeTimeOfDay res d < kTwentyFourHours res := by
  have hlt := Int.tmod_lt_of_pos (d.tdiv res.tick)
    (Int.natCast_pos.2 (kTwentyFourHours_pos res))
  dsimp only [normalizeTimeOfDay]
  split <;> omega

/-- A duration shorter than a day is its own count of ticks, rounded down. -/
theorem normalizeTimeOfDay_of_lt (res : Resolution) {d : Nat} (hd : d < 24 * nsPerHour) :
    normalizeTimeOfDay res d = (d / res.tick : Nat) := by
  have hday := kTwentyFourHours_mul_tick res
  have hpos := res.tick_pos
  have hq : d / res.tick < kTwentyFourHours res := by
    rw [Nat.div_lt_iff_lt_mul hpos]
    omega
  dsimp only [normalizeTimeOfDay]
  rw [← Int.ofNat_tdiv, ← Int.ofNat_tmod, Nat.mod_eq_of_lt hq,
    if_neg (Int.not_lt.2 (Int.natCast_nonneg _))]

/-! ## `TimeOfDay` -/

/-- `TimeOfDay<Duration>`: `since_midnight_`, a count of ticks in `[0, 24 h)`.  `==` compares
the counts. -/
structure TimeOfDay (res : Resolution) where
  sinceMidnight : Nat
  lt_day : sinceMidnight < kTwentyFourHours res
  deriving DecidableEq

namespace TimeOfDay

variable {res : Resolution}

/-- The constructor from a duration of `d` nanoseconds. -/
def ofDuration (res : Resolution) (d : Int) : TimeOfDay res where
  sinceMidnight := (normalizeTimeOfDay res d).toNat
  lt_day := by
    have h0 := normalizeTimeOfDay_nonneg res d
    have h1 := normalizeTimeOfDay_lt res d
    omega

theorem ofDuration_of_lt (res : Resolution) {d : Nat} (hd : d < 24 * nsPerHour) :
    (ofDuration res d).sinceMidnight = d / res.tick := by
  simp only [ofDuration, normalizeTimeOfDay_of_lt res hd, Int.toNat_natCast]

/-- `Hours()`: `duration_cast<hours>(since_midnight_)`. -/
def hours (t : TimeOfDay res) : Nat := t.sinceMidnight * res.tick / nsPerHour

/-- `Minutes()`: the whole minutes since midnight less those of `Hours()`, or `0` when the
period is longer than a minute. -/
def minutes (t : TimeOfDay res) : Nat :=
  if res.kHasMinutes then t.sinceMidnight * res.tick / nsPerMinute - t.hours * 60 else 0

/-- `Seconds()`: the whole seconds since midnight less those of the whole minutes, or `0` when the
period is longer than a second. -/
def seconds (t : TimeOfDay res) : Nat :=
  if res.kHasSeconds then
    t.sinceMidnight * res.tick / nsPerSecond - t.sinceMidnight * res.tick / nsPerMinute * 60
  else 0

/-- `Subseconds()`: the ticks since midnight less those of the whole seconds, or `0` when the
period is no shorter than a second. -/
def subseconds (t : TimeOfDay res) : Nat :=
  if res.kHasSubseconds then
    t.sinceMidnight - t.sinceMidnight * res.tick / nsPerSecond * nsPerSecond / res.tick
  else 0

theorem hours_lt (t : TimeOfDay res) : t.hours < 24 := by
  have hlt := t.lt_day
  have hday := kTwentyFourHours_mul_tick res
  have hpos := res.tick_pos
  have hmul : t.sinceMidnight * res.tick < 24 * nsPerHour := by
    rw [← hday]
    exact Nat.mul_lt_mul_of_pos_right hlt hpos
  rw [hours, Nat.div_lt_iff_lt_mul (by simp [nsPerHour])]
  omega

theorem minutes_lt (t : TimeOfDay res) : t.minutes < 60 := by
  unfold minutes hours
  split
  · simp only [nsPerMinute, nsPerHour]
    omega
  · omega

theorem seconds_lt (t : TimeOfDay res) : t.seconds < 60 := by
  unfold seconds
  split
  · simp only [nsPerSecond, nsPerMinute]
    omega
  · omega

/-- The hours, minutes and seconds of a time of day, in nanoseconds, and its subseconds make up
its count of ticks. -/
theorem sinceMidnight_eq (t : TimeOfDay res) :
    (t.hours * nsPerHour + t.minutes * nsPerMinute + t.seconds * nsPerSecond) / res.tick +
      t.subseconds = t.sinceMidnight := by
  have hlt := t.lt_day
  obtain ⟨x, hx⟩ := t
  simp only [hours, minutes, seconds, subseconds] at hlt ⊢
  -- at each period the accessors are divisions of `x` by constants
  cases res <;>
    simp only [kTwentyFourHours, Resolution.tick, Resolution.kHasMinutes,
      Resolution.kHasSeconds, Resolution.kHasSubseconds, nsPerHour, nsPerMinute, nsPerSecond,
      if_true, if_false, Bool.false_eq_true] at hlt ⊢ <;>
    omega

end TimeOfDay

/-! ## `TimeOfDayParser` -/

/-- `TimePart`, the part of the string the parser is in. -/
inductive TimePart where
  | kHour
  | kMinutes
  | kSeconds
  | kSubseconds
  | kOverflow
  deriving DecidableEq, Repr

/-- The value of the enumerator. -/
def TimePart.toNat : TimePart → Nat
  | kHour => 0
  | kMinutes => 1
  | kSeconds => 2
  | kSubseconds => 3
  | kOverflow => 4

/-- `static_cast<TimePart>(position_ + 1)`; the parser never steps past `kOverflow`. -/
def TimePart.next : TimePart → TimePart
  | kHour => kMinutes
  | kMinutes => kSeconds
  | kSeconds => kSubseconds
  | kSubseconds => kOverflow
  | kOverflow => kOverflow

/-- The `std::runtime_error`s of the parser, by message. -/
inductive TimeOfDayError where
  /-- "Extra colon in TimeOfDay string" -/
  | extraColon
  /-- "Unexpected decimal point in TimeOfDay string" -/
  | unexpectedDecimalPoint
  /-- "Unexpected character {c} in TimeOfDay string" -/
  | unexpectedCharacter (c : UInt8)
  /-- "Too much digits in TimeOfDay string" -/
  | tooMuchDigits
  /-- "Expected to have at least minutes after hours in TimeOfDay string" -/
  | expectedMinutes
  /-- "TimeOfDay value is out of range [00:00, 24:00)" -/
  | outOfRange
  /-- "Not enough digits for hours", "minutes", "seconds" or "subseconds" -/
  | notEnoughDigits (part : TimePart)
  /-- "Invalid value for hours", "minutes" or "seconds" -/
  | invalidValue (part : TimePart)
  deriving DecidableEq, Repr

/-- The members of `TimeOfDayParser`: the durations as their counts, `subseconds_` in ticks. -/
structure ParserState where
  position : TimePart
  hours : Nat
  minutes : Nat
  seconds : Nat
  subseconds : Nat
  digitCount : Nat
  currentNumber : Nat
  deriving DecidableEq, Repr

/-- A parser before the first character. -/
def ParserState.init : ParserState := ⟨.kHour, 0, 0, 0, 0, 0, 0⟩

/-- The number read so far with the current part's checks: at least one digit and at most `24`
for the hours, two digits and at most `59` for the minutes and the seconds. -/
def assignPart (s : ParserState) (part : TimePart) (enoughDigits : Bool) (maxValue : Nat) :
    Except TimeOfDayError Nat :=
  if !enoughDigits then throw (.notEnoughDigits part)
  else if s.currentNumber > maxValue then throw (.invalidValue part)
  else pure s.currentNumber

/-- `AssignCurrentPosition`: the number read so far becomes the current part, and the digits
start again.  A fraction with fewer digits than the period keeps is scaled up by
`MissingDigits`, ten to the missing digits. -/
def assignCurrentPosition (res : Resolution) (s : ParserState) :
    Except TimeOfDayError ParserState := do
  let s ← match s.position with
    | .kHour => do
      let n ← assignPart s .kHour (s.digitCount ≥ 1) 24
      pure { s with hours := n }
    | .kMinutes => do
      let n ← assignPart s .kMinutes (s.digitCount = 2) 59
      pure { s with minutes := n }
    | .kSeconds => do
      let n ← assignPart s .kSeconds (s.digitCount = 2) 59
      pure { s with seconds := n }
    | .kSubseconds =>
      if s.digitCount < 1 then throw (.notEnoughDigits .kSubseconds)
      else if res.kHasSubseconds then
        let n := if s.digitCount < res.kDecimalPositions then
          s.currentNumber * 10 ^ (res.kDecimalPositions - s.digitCount) else s.currentNumber
        pure { s with subseconds := n }
      else pure s
    | .kOverflow => pure s
  pure { s with currentNumber := 0, digitCount := 0 }

/-- One character of the loop of `operator()`: a colon or the decimal point closes the current
part, a digit goes into the current number (past the period's decimal positions it closes the
fraction and the rest is skipped), and anything else is an error. -/
def parseChar (res : Resolution) (s : ParserState) (c : UInt8) :
    Except TimeOfDayError ParserState :=
  if c = 58 then
    if s.position.toNat ≥ TimePart.kSeconds.toNat then throw .extraColon
    else do
      let s ← assignCurrentPosition res s
      pure { s with position := s.position.next }
  else if c = 46 then
    if s.position ≠ .kSeconds then throw .unexpectedDecimalPoint
    else do
      let s ← assignCurrentPosition res s
      pure { s with position := s.position.next }
  else if !isDigit c then throw (.unexpectedCharacter c)
  else if s.position = .kOverflow then pure s
  else if s.position = .kSubseconds ∧ s.digitCount ≥ res.kDecimalPositions then do
    let s ← assignCurrentPosition res s
    pure { s with position := .kOverflow }
  else if s.position ≠ .kSubseconds ∧ s.digitCount ≥ 2 then throw .tooMuchDigits
  else pure { s with digitCount := s.digitCount + 1, currentNumber := s.currentNumber * 10 + (c.toNat - 48) }

/-- `TimeOfDayParser<Rep, Period>{}(str)`, and the time of day `TimeOfDay(std::string_view)`
builds of it: the characters, the last part, the sum of the parts checked against a day, and
`NormalizeTimeOfDay` of the sum. -/
def timeOfDayParser (res : Resolution) (str : List UInt8) :
    Except TimeOfDayError (TimeOfDay res) := do
  let s ← str.foldlM (parseChar res) ParserState.init
  if s.position = .kHour then throw .expectedMinutes
  let s ← assignCurrentPosition res s
  let sum : Nat := s.hours * nsPerHour + s.minutes * nsPerMinute + s.seconds * nsPerSecond +
    s.subseconds * res.tick
  if sum > kTwentyFourHours res * res.tick then throw .outOfRange
  pure (TimeOfDay.ofDuration res sum)

example : (timeOfDayParser .milli (ascii "10:20:30.0012345")).toOption.map
    TimeOfDay.sinceMidnight = some 37230001 := by
  decide

example : timeOfDayParser .seconds (ascii "10:20:30.1") = .error (.notEnoughDigits .kSubseconds) :=
  rfl

/-! ## `fmt::formatter<TimeOfDay>` -/

/-- The entries of `representation_`: the format strings of the keys, and literal text. -/
inductive FormatItem where
  /-- `kLongHourFormat`, `{0:0>#2d}` -/
  | longHour
  /-- `kMinutesFormat`, `{1:0>#2d}` -/
  | minutesFormat
  /-- `kSecondsFormat`, `{2:0>#2d}` -/
  | secondsFormat
  /-- A run of the format spec, or `kLiteralPercent` -/
  | literal (text : List UInt8)
  deriving DecidableEq, Repr

/-- `kDefaultFormat<Period>`: `HH:MM` for hours and minutes, `HH:MM:SS` for the rest. -/
def kDefaultFormat : Resolution → List FormatItem
  | .hours | .minutes => [.longHour, .literal [58], .minutesFormat]
  | _ => [.longHour, .literal [58], .minutesFormat, .literal [58], .secondsFormat]

/-- `{:0>#2d}`: the decimal digits, padded with `'0'` on the left to two. -/
def padTwo (n : Nat) : List UInt8 := ((Nat.toDigits 10 n).map Char.toUInt8).leftpad 2 48

/-- One entry of the representation, with the hours, minutes and seconds as arguments. -/
def formatItem {res : Resolution} (t : TimeOfDay res) : FormatItem → List UInt8
  | .longHour => padTwo t.hours
  | .minutesFormat => padTwo t.minutes
  | .secondsFormat => padTwo t.seconds
  | .literal text => text

/-- `format(value, ctx)`: the entries of the representation one after another. -/
def format {res : Resolution} (representation : List FormatItem) (t : TimeOfDay res) :
    List UInt8 :=
  representation.flatMap (formatItem t)

/-- The `format_error`s of the formatter, by message. -/
inductive FormatError where
  /-- "Unsupported format key {key}" -/
  | unsupportedKey (key : UInt8)
  /-- "No format key after percent character" -/
  | noKeyAfterPercent
  /-- "Format string complexity exceeds TimeOfDay limits" -/
  | tooComplex
  deriving DecidableEq, Repr

/-- `kRepresentationCapacity`. -/
def kRepresentationCapacity : Nat := 10

/-- `PushBackFmt(fmt)`. -/
def pushBackFmt (representation : List FormatItem) (item : FormatItem) :
    Except FormatError (List FormatItem) :=
  if representation.length ≥ kRepresentationCapacity then throw .tooComplex
  else pure (representation ++ [item])

/-- `GetFormatForKey(key)`. -/
def getFormatForKey (key : UInt8) : Except FormatError FormatItem :=
  if key = 72 then pure .longHour
  else if key = 77 then pure .minutesFormat
  else if key = 83 then pure .secondsFormat
  else throw (.unsupportedKey key)

/-- The states of `parse`. -/
inductive SpecState where
  | kChar
  | kPercent
  | kKey
  deriving DecidableEq, Repr

/-- The locals of `parse`: the state, the representation so far, and the literal run from
`begin` of `size` characters. -/
structure SpecParser where
  state : SpecState
  representation : List FormatItem
  literal : List UInt8
  deriving DecidableEq, Repr

/-- One character of the loop of `parse`. -/
def parseSpecChar (p : SpecParser) (c : UInt8) : Except FormatError SpecParser :=
  if c = 37 then
    match p.state with
    | .kPercent => do
      let representation ← pushBackFmt p.representation (.literal [37])
      pure { p with representation := representation, state := .kKey }
    | .kChar => do
      let representation ← if p.literal.length > 0 then
        pushBackFmt p.representation (.literal p.literal) else pure p.representation
      pure { p with representation := representation, state := .kPercent }
    | .kKey => pure { p with state := .kPercent }
  else
    match p.state with
    | .kPercent => do
      let item ← getFormatForKey c
      let representation ← pushBackFmt p.representation item
      pure { p with representation := representation, state := .kKey }
    -- a new literal starts
    | .kKey => pure { p with literal := [c], state := .kChar }
    | .kChar => pure { p with literal := p.literal ++ [c] }

/-- `parse(ctx)` of the format spec up to the closing brace: an empty spec takes the default
format. -/
def parseFormatSpec (res : Resolution) (spec : List UInt8) :
    Except FormatError (List FormatItem) := do
  let p ← spec.foldlM parseSpecChar ⟨.kChar, [], []⟩
  let representation ← if spec.isEmpty then (kDefaultFormat res).foldlM pushBackFmt []
    else pure p.representation
  match p.state with
  | .kChar =>
    if p.literal.length > 0 then pushBackFmt representation (.literal p.literal)
    else pure representation
  | .kPercent => throw .noKeyAfterPercent
  | .kKey => pure representation

/-- `fmt::format("{:spec}", t)`. -/
def fmtFormat {res : Resolution} (spec : List UInt8) (t : TimeOfDay res) :
    Except FormatError (List UInt8) := do
  let representation ← parseFormatSpec res spec
  pure (format representation t)

example : (fmtFormat (ascii "%Hh %Mm %Ss") (⟨3723000, by decide⟩ : TimeOfDay .milli)).toOption =
    some (ascii "01h 02m 03s") := by
  decide

example : parseFormatSpec .milli (ascii "%H%") = .error .noKeyAfterPercent := rfl

/-! ## What the parser does with two digits and a colon -/

section Steps

variable (res : Resolution)

/-- The bytes `padTwo` writes for a number below a hundred. -/
theorem padTwo_of_lt {n : Nat} (hn : n < 100) :
    padTwo n = [(48 + n / 10).toUInt8, (48 + n % 10).toUInt8] := by
  have hall : ∀ n < 100, padTwo n = [(48 + n / 10).toUInt8, (48 + n % 10).toUInt8] := by
    decide
  exact hall n hn

theorem isDigit_digitByte {d : Nat} (hd : d < 10) : isDigit (48 + d).toUInt8 = true := by
  have hall : ∀ d < 10, isDigit (48 + d).toUInt8 = true := by decide
  exact hall d hd

theorem digitByte_toNat {d : Nat} (hd : d < 10) : (48 + d).toUInt8.toNat - 48 = d := by
  have hall : ∀ d < 10, (48 + d).toUInt8.toNat - 48 = d := by decide
  exact hall d hd

/-- A digit of the hours, the minutes or the seconds, with room for it, goes into the current
number. -/
theorem parseChar_digit (s : ParserState) (hpart : s.position.toNat < 3)
    (hcount : s.digitCount < 2) {c : UInt8} (hc : isDigit c = true) :
    parseChar res s c = .ok { s with
      digitCount := s.digitCount + 1, currentNumber := s.currentNumber * 10 + (c.toNat - 48) } := by
  have hcolon : c ≠ 58 := by
    rintro rfl
    exact absurd hc (by decide)
  have hpoint : c ≠ 46 := by
    rintro rfl
    exact absurd hc (by decide)
  have hover : s.position ≠ .kOverflow := by
    intro h
    rw [h] at hpart
    exact absurd hpart (by decide)
  have hsub : s.position ≠ .kSubseconds := by
    intro h
    rw [h] at hpart
    exact absurd hpart (by decide)
  simp only [parseChar, hcolon, hpoint, hc, hover, hsub, if_false, Bool.not_true,
    Bool.false_eq_true, false_and, ne_eq, not_false_eq_true, true_and, Nat.not_le.2 hcount]
  rfl

/-- `padTwo n` read into an empty current number of the hours, the minutes or the seconds. -/
theorem foldlM_padTwo (s : ParserState) (hpart : s.position.toNat < 3)
    (hcount : s.digitCount = 0) (hnum : s.currentNumber = 0) {n : Nat} (hn : n < 100) :
    (padTwo n).foldlM (parseChar res) s = .ok { s with digitCount := 2, currentNumber := n } := by
  have hhigh : n / 10 < 10 := by omega
  have hlow : n % 10 < 10 := Nat.mod_lt _ (by decide)
  -- the tens, then the units
  have hfirst := parseChar_digit res s hpart (by omega) (isDigit_digitByte hhigh)
  rw [digitByte_toNat hhigh, hnum] at hfirst
  have hsecond := parseChar_digit res
    { s with digitCount := s.digitCount + 1, currentNumber := 0 * 10 + n / 10 } hpart
    (by simp [hcount]) (isDigit_digitByte hlow)
  rw [digitByte_toNat hlow] at hsecond
  rw [padTwo_of_lt hn, List.foldlM_cons, hfirst, Codec.ok_bind, List.foldlM_cons, hsecond,
    Codec.ok_bind, List.foldlM_nil]
  simp only [hcount]
  congr 2
  omega

theorem assignPart_ok (s : ParserState) (part : TimePart) {maxValue : Nat}
    (hv : s.currentNumber ≤ maxValue) : assignPart s part true maxValue = .ok s.currentNumber := by
  simp [assignPart, Nat.not_lt.2 hv]
  rfl

/-- The hours read so far, one or two digits and at most `24`, are assigned. -/
theorem assignCurrentPosition_hour (s : ParserState) (hpos : s.position = .kHour)
    (hcount : 1 ≤ s.digitCount) (hv : s.currentNumber ≤ 24) :
    assignCurrentPosition res s =
      .ok { s with hours := s.currentNumber, currentNumber := 0, digitCount := 0 } := by
  simp only [assignCurrentPosition, hpos, ge_iff_le, hcount, decide_true,
    assignPart_ok s .kHour hv]
  rfl

/-- The minutes read so far, two digits and at most `59`, are assigned. -/
theorem assignCurrentPosition_minutes (s : ParserState) (hpos : s.position = .kMinutes)
    (hcount : s.digitCount = 2) (hv : s.currentNumber ≤ 59) :
    assignCurrentPosition res s =
      .ok { s with minutes := s.currentNumber, currentNumber := 0, digitCount := 0 } := by
  simp only [assignCurrentPosition, hpos, hcount, decide_true, assignPart_ok s .kMinutes hv]
  rfl

/-- The seconds read so far, two digits and at most `59`, are assigned. -/
theorem assignCurrentPosition_seconds (s : ParserState) (hpos : s.position = .kSeconds)
    (hcount : s.digitCount = 2) (hv : s.currentNumber ≤ 59) :
    assignCurrentPosition res s =
      .ok { s with seconds := s.currentNumber, currentNumber := 0, digitCount := 0 } := by
  simp only [assignCurrentPosition, hpos, hcount, decide_true, assignPart_ok s .kSeconds hv]
  rfl

/-- A colon after the hours or the minutes assigns them and moves on to the next part. -/
theorem parseChar_colon (s s' : ParserState) (hpart : s.position.toNat < 2)
    (hassign : assignCurrentPosition res s = .ok s') (hpos : s'.position = s.position) :
    parseChar res s 58 = .ok { s' with position := s.position.next } := by
  have hlt : ¬ s.position.toNat ≥ TimePart.kSeconds.toNat := by
    have hseconds : TimePart.kSeconds.toNat = 2 := rfl
    omega
  simp only [parseChar, if_true, hlt, if_false, hassign, Codec.ok_bind, hpos]
  rfl

/-- The decimal point after the seconds assigns them and opens the fraction. -/
theorem parseChar_point (s s' : ParserState) (hpart : s.position = .kSeconds)
    (hassign : assignCurrentPosition res s = .ok s') (hpos : s'.position = s.position) :
    parseChar res s 46 = .ok { s' with position := .kSubseconds } := by
  have hnotColon : (46 : UInt8) ≠ 58 := by decide
  simp only [parseChar, hnotColon, if_false, if_true, hpart, ne_eq, not_true_eq_false, hassign,
    Codec.ok_bind, hpos]
  rfl

/-- A period that keeps no decimal position closes the fraction at its first digit, before the
fraction has any: an error. -/
theorem parseChar_subseconds_of_kDecimalPositions (hres : res.kDecimalPositions = 0)
    (s : ParserState) (hpart : s.position = .kSubseconds) (hcount : s.digitCount = 0)
    {c : UInt8} (hc : isDigit c = true) :
    parseChar res s c = .error (.notEnoughDigits .kSubseconds) := by
  have hcolon : c ≠ 58 := by
    rintro rfl
    exact absurd hc (by decide)
  have hpoint : c ≠ 46 := by
    rintro rfl
    exact absurd hc (by decide)
  simp only [parseChar, hcolon, hpoint, hc, hpart, hres, hcount, if_false, Bool.not_true,
    Bool.false_eq_true, reduceCtorEq, ge_iff_le, Nat.le_refl, and_self, if_true,
    assignCurrentPosition, Nat.lt_irrefl, Nat.zero_lt_one]
  rfl

/-- `H:MM` with at most `24` hours and `59` minutes leaves the minutes to be assigned. -/
theorem foldlM_hhmm {h m : Nat} (hh : h ≤ 24) (hm : m < 60) :
    (padTwo h ++ 58 :: padTwo m).foldlM (parseChar res) ParserState.init =
      .ok ⟨.kMinutes, h, 0, 0, 0, 2, m⟩ := by
  have hhours := foldlM_padTwo res ParserState.init (by decide) rfl rfl (show h < 100 by omega)
  have hcolon := parseChar_colon res _ _ (by decide : TimePart.kHour.toNat < 2)
    (assignCurrentPosition_hour res { ParserState.init with digitCount := 2, currentNumber := h }
      rfl (by decide : 1 ≤ 2) hh) rfl
  have hminutes := foldlM_padTwo res ⟨.kMinutes, h, 0, 0, 0, 0, 0⟩
    (by decide : TimePart.kMinutes.toNat < 3) rfl rfl (show m < 100 by omega)
  rw [List.foldlM_append, hhours, Codec.ok_bind, List.foldlM_cons, hcolon, Codec.ok_bind]
  exact hminutes

/-- `H:MM:SS` leaves the seconds to be assigned. -/
theorem foldlM_hhmmss {h m sec : Nat} (hh : h ≤ 24) (hm : m < 60) (hs : sec < 60) :
    (padTwo h ++ 58 :: padTwo m ++ 58 :: padTwo sec).foldlM (parseChar res) ParserState.init =
      .ok ⟨.kSeconds, h, m, 0, 0, 2, sec⟩ := by
  have hcolon := parseChar_colon res _ _ (by decide : TimePart.kMinutes.toNat < 2)
    (assignCurrentPosition_minutes res ⟨.kMinutes, h, 0, 0, 0, 2, m⟩ rfl rfl
      (show m ≤ 59 by omega)) rfl
  have hseconds := foldlM_padTwo res ⟨.kSeconds, h, m, 0, 0, 0, 0⟩
    (by decide : TimePart.kSeconds.toNat < 3) rfl rfl (show sec < 100 by omega)
  rw [show padTwo h ++ 58 :: padTwo m ++ 58 :: padTwo sec =
      (padTwo h ++ 58 :: padTwo m) ++ 58 :: padTwo sec by simp,
    List.foldlM_append, foldlM_hhmm res hh hm, Codec.ok_bind, List.foldlM_cons, hcolon,
    Codec.ok_bind]
  exact hseconds

end Steps

/-! ## Reading the default format back -/

section RoundTrip

variable (res : Resolution)

/-- The end of `operator()` on a parser left in the minutes or the seconds: the last part
assigned, and the sum, no more than a day, normalised. -/
theorem timeOfDayParser_of_foldlM {str : List UInt8} {s s' : ParserState}
    (hrun : str.foldlM (parseChar res) ParserState.init = .ok s) (hpos : s.position ≠ .kHour)
    (hassign : assignCurrentPosition res s = .ok s')
    (hday : s'.hours * nsPerHour + s'.minutes * nsPerMinute + s'.seconds * nsPerSecond +
      s'.subseconds * res.tick ≤ 24 * nsPerHour) :
    timeOfDayParser res str = .ok (TimeOfDay.ofDuration res ((s'.hours * nsPerHour +
      s'.minutes * nsPerMinute + s'.seconds * nsPerSecond + s'.subseconds * res.tick : Nat))) := by
  have hrange : ¬ s'.hours * nsPerHour + s'.minutes * nsPerMinute + s'.seconds * nsPerSecond +
      s'.subseconds * res.tick > kTwentyFourHours res * res.tick := by
    rw [kTwentyFourHours_mul_tick]
    omega
  rw [timeOfDayParser, hrun, Codec.ok_bind]
  dsimp only
  rw [if_neg hpos, hassign, Codec.ok_bind, if_neg hrange]
  rfl

/-- `HH:MM` with fewer than `24` hours is read as its hours and minutes. -/
theorem timeOfDayParser_hhmm {h m : Nat} (hh : h < 24) (hm : m < 60) :
    timeOfDayParser res (padTwo h ++ 58 :: padTwo m) =
      .ok (TimeOfDay.ofDuration res ((h * nsPerHour + m * nsPerMinute : Nat))) := by
  have hassign := assignCurrentPosition_minutes res ⟨.kMinutes, h, 0, 0, 0, 2, m⟩ rfl rfl
    (show m ≤ 59 by omega)
  have hday : h * nsPerHour + m * nsPerMinute ≤ 24 * nsPerHour := by
    simp only [nsPerHour, nsPerMinute]
    omega
  have hparse := timeOfDayParser_of_foldlM res (foldlM_hhmm res (by omega) hm)
    (by decide : TimePart.kMinutes ≠ .kHour)
    hassign (by simpa using hday)
  simpa using hparse

/-- `HH:MM:SS` with fewer than `24` hours is read as its hours, minutes and seconds. -/
theorem timeOfDayParser_hhmmss {h m sec : Nat} (hh : h < 24) (hm : m < 60) (hs : sec < 60) :
    timeOfDayParser res (padTwo h ++ 58 :: padTwo m ++ 58 :: padTwo sec) =
      .ok (TimeOfDay.ofDuration res ((h * nsPerHour + m * nsPerMinute + sec * nsPerSecond : Nat))) := by
  have hassign := assignCurrentPosition_seconds res ⟨.kSeconds, h, m, 0, 0, 2, sec⟩ rfl rfl
    (show sec ≤ 59 by omega)
  have hday : h * nsPerHour + m * nsPerMinute + sec * nsPerSecond ≤ 24 * nsPerHour := by
    simp only [nsPerHour, nsPerMinute, nsPerSecond]
    omega
  have hparse := timeOfDayParser_of_foldlM res (foldlM_hhmmss res (by omega) hm hs)
    (by decide : TimePart.kSeconds ≠ .kHour)
    hassign (by simpa using hday)
  simpa using hparse

/-- `PushBackFmt` of entries that fit. -/
theorem foldlM_pushBackFmt (items : List FormatItem) :
    ∀ acc : List FormatItem, acc.length + items.length ≤ kRepresentationCapacity →
      items.foldlM pushBackFmt acc = .ok (acc ++ items) := by
  induction items with
  | nil =>
    intro acc _
    simp
    rfl
  | cons item items ih =>
    intro acc hfit
    rw [List.length_cons] at hfit
    have hroom : ¬ acc.length ≥ kRepresentationCapacity := by omega
    have hlen : (acc ++ [item]).length + items.length ≤ kRepresentationCapacity := by
      rw [List.length_append, List.length_singleton]
      omega
    rw [List.foldlM_cons, pushBackFmt, if_neg hroom]
    simpa using ih (acc ++ [item]) hlen

/-- An empty format spec is the default format. -/
theorem parseFormatSpec_nil : parseFormatSpec res [] = .ok (kDefaultFormat res) := by
  have hfit : ([] : List FormatItem).length + (kDefaultFormat res).length ≤
      kRepresentationCapacity := by
    cases res <;> decide
  rw [parseFormatSpec, List.foldlM_nil]
  simp only [List.isEmpty_nil, if_true, pure_bind, foldlM_pushBackFmt _ [] hfit, Codec.ok_bind,
    List.nil_append]
  rfl

/-- `fmt::format("{}", t)`: the default format, with no fraction at any resolution. -/
theorem fmtFormat_nil (t : TimeOfDay res) : fmtFormat [] t = .ok (format (kDefaultFormat res) t) := by
  rw [fmtFormat, parseFormatSpec_nil, Codec.ok_bind]
  rfl

theorem format_kDefaultFormat (t : TimeOfDay res) :
    format (kDefaultFormat res) t = if res.kHasSeconds then
      padTwo t.hours ++ 58 :: padTwo t.minutes ++ 58 :: padTwo t.seconds
    else padTwo t.hours ++ 58 :: padTwo t.minutes := by
  have hdefault : kDefaultFormat res = if res.kHasSeconds then
      [.longHour, .literal [58], .minutesFormat, .literal [58], .secondsFormat]
    else [.longHour, .literal [58], .minutesFormat] := by
    cases res <;> rfl
  rw [hdefault]
  split <;>
    simp only [format, List.flatMap_cons, List.flatMap_nil, formatItem, List.append_nil,
      List.nil_append, List.append_assoc, List.cons_append]

/-- The default format of a time of day is read back as the time of day without its
subseconds. -/
theorem timeOfDayParser_format_default (t : TimeOfDay res) :
    ∃ t', timeOfDayParser res (format (kDefaultFormat res) t) = .ok t' ∧
      t'.sinceMidnight + t.subseconds = t.sinceMidnight := by
  have hh := t.hours_lt
  have hm := t.minutes_lt
  have hs := t.seconds_lt
  have hsum := t.sinceMidnight_eq
  rw [format_kDefaultFormat]
  split
  · -- `HH:MM:SS`
    refine ⟨_, timeOfDayParser_hhmmss res hh hm hs, ?_⟩
    rw [TimeOfDay.ofDuration_of_lt res (by simp only [nsPerHour, nsPerMinute, nsPerSecond]; omega)]
    exact hsum
  · -- `HH:MM`: there are no seconds at a period of a minute or more
    next hseconds =>
    have hzero : t.seconds = 0 := by simp [TimeOfDay.seconds, hseconds]
    refine ⟨_, timeOfDayParser_hhmm res hh hm, ?_⟩
    rw [TimeOfDay.ofDuration_of_lt res (by simp only [nsPerHour, nsPerMinute]; omega)]
    simpa [hzero] using hsum

/-- At the resolutions of milli-, micro- and nanoseconds, `TimeOfDay(fmt::format("{}", t))` is
another time of day whenever `t` has subseconds. -/
theorem timeOfDay_default_format_loses_subseconds (t : TimeOfDay res) (hsub : t.subseconds ≠ 0) :
    ∃ text t', fmtFormat [] t = .ok text ∧ timeOfDayParser res text = .ok t' ∧ t' ≠ t := by
  obtain ⟨t', hparse, hsum⟩ := timeOfDayParser_format_default res t
  refine ⟨_, t', fmtFormat_nil res t, hparse, ?_⟩
  rintro rfl
  omega

/-- At the resolutions of hours, minutes and seconds a fraction after `HH:MM:SS` is an error,
whatever follows its first digit. -/
theorem timeOfDayParser_rejects_fraction (hres : res.kDecimalPositions = 0) {h m sec : Nat}
    (hh : h < 24) (hm : m < 60) (hs : sec < 60) {c : UInt8} (hc : isDigit c = true)
    (rest : List UInt8) :
    timeOfDayParser res (padTwo h ++ 58 :: padTwo m ++ 58 :: padTwo sec ++ 46 :: c :: rest) =
      .error (.notEnoughDigits .kSubseconds) := by
  have hpoint := parseChar_point res ⟨.kSeconds, h, m, 0, 0, 2, sec⟩ _ rfl
    (assignCurrentPosition_seconds res ⟨.kSeconds, h, m, 0, 0, 2, sec⟩ rfl rfl
      (show sec ≤ 59 by omega)) rfl
  have hdigit := parseChar_subseconds_of_kDecimalPositions res hres
    ⟨.kSubseconds, h, m, sec, 0, 0, 0⟩ rfl rfl hc
  have hrun : (padTwo h ++ 58 :: padTwo m ++ 58 :: padTwo sec ++ 46 :: c :: rest).foldlM
      (parseChar res) ParserState.init = .error (.notEnoughDigits .kSubseconds) := by
    rw [show padTwo h ++ 58 :: padTwo m ++ 58 :: padTwo sec ++ 46 :: c :: rest =
        (padTwo h ++ 58 :: padTwo m ++ 58 :: padTwo sec) ++ 46 :: c :: rest by simp,
      List.foldlM_append, foldlM_hhmmss res (by omega) hm hs, Codec.ok_bind, List.foldlM_cons,
      hpoint, Codec.ok_bind, List.foldlM_cons, hdigit]
    rfl
  rw [timeOfDayParser, hrun]
  rfl

/-- `01:02:03.500` at millisecond resolution. -/
theorem timeOfDay_default_format_loses_subseconds_milli :
    let t : TimeOfDay .milli := ⟨3723500, by decide⟩
    t.subseconds ≠ 0 ∧
      ∃ text t', fmtFormat [] t = .ok text ∧ timeOfDayParser .milli text = .ok t' ∧ t' ≠ t :=
  ⟨by decide, timeOfDay_default_format_loses_subseconds .milli _ (by decide)⟩

end RoundTrip

end Datetime

end Utils

end Userver
