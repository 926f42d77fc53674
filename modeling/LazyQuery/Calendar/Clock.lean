import LazyQuery.Calendar.Day

/-! Times of day, moments and spans, all counted in microseconds, and their texts. -/
namespace LazyQuery.Calendar

def microsPerSecond : Int := 1000000
def microsPerDay : Int := 86400 * 1000000

/-- Hours, minutes, seconds and microseconds of a time of day. -/
structure Clock where
  hour : Nat
  minute : Nat
  second : Nat
  micro : Nat
deriving DecidableEq, Repr

def Clock.ofMicros (t : Nat) : Clock :=
  ⟨t / 3600000000, t / 60000000 % 60, t / 1000000 % 60, t % 1000000⟩

def Clock.toMicros (c : Clock) : Nat :=
  ((c.hour * 60 + c.minute) * 60 + c.second) * 1000000 + c.micro

theorem Clock.toMicros_ofMicros (t : Nat) : (Clock.ofMicros t).toMicros = t := by
  simp only [toMicros, ofMicros]
  omega

def Clock.isValid (c : Clock) : Bool :=
  c.hour < 24 && c.minute < 60 && c.second < 60 && c.micro < 1000000

/-- A moment on the wall clock, with the distance of that clock from universal time where one is
known. Both are counted in microseconds; the distance is positive to the east. -/
structure Moment where
  wall : Int
  offset : Option Int
deriving DecidableEq, Repr

/-- The same moment on the clock of universal time; a moment without an offset is taken as it is. -/
def Moment.universal (m : Moment) : Int := m.wall - m.offset.getD 0

def Moment.day (m : Moment) : Civil := .ofDays (m.wall / microsPerDay)
def Moment.clock (m : Moment) : Clock := .ofMicros (m.wall % microsPerDay).toNat

/-- At least `width` digits, with zeros in front. -/
def padded (width n : Nat) : String :=
  let ds := toString n
  String.ofList (List.replicate (width - ds.length) '0') ++ ds

def Civil.text (c : Civil) : String :=
  (if c.year < 0 then "-" else "") ++ padded 4 c.year.natAbs ++ "-" ++ padded 2 c.month ++ "-" ++
    padded 2 c.day

/-- A fraction is written, with six digits, only when there is one. -/
def fractionText (micro : Nat) : String := if micro = 0 then "" else "." ++ padded 6 micro

def Clock.text (c : Clock) : String :=
  padded 2 c.hour ++ ":" ++ padded 2 c.minute ++ ":" ++ padded 2 c.second ++ fractionText c.micro

def dateText (days : Int) : String := (Civil.ofDays days).text
def timeText (micros : Nat) : String := (Clock.ofMicros micros).text

/-- A sign, hours and minutes; seconds and their fraction only when they are not zero. -/
def offsetText (micros : Int) : String :=
  let c := Clock.ofMicros micros.natAbs
  (if micros < 0 then "-" else "+") ++ padded 2 c.hour ++ ":" ++ padded 2 c.minute ++
    if c.second = 0 && c.micro = 0 then "" else ":" ++ padded 2 c.second ++ fractionText c.micro

/-- The day, a separator, the time of day and the offset where there is one. -/
def Moment.text (m : Moment) (separator : String) : String :=
  m.day.text ++ separator ++ m.clock.text ++ (m.offset.map offsetText).getD ""

/-- A span split into whole days, rounded down, and the seconds and microseconds that remain. -/
structure Span where
  days : Int
  seconds : Nat
  micros : Nat
deriving DecidableEq, Repr

def Span.ofMicros (t : Int) : Span :=
  ⟨t / microsPerDay, (t % microsPerDay / microsPerSecond).toNat, (t % microsPerSecond).toNat⟩

def Span.toMicros (s : Span) : Int :=
  s.days * microsPerDay + s.seconds * microsPerSecond + s.micros

theorem Span.toMicros_ofMicros (t : Int) : (Span.ofMicros t).toMicros = t := by
  simp only [toMicros, ofMicros, microsPerDay, microsPerSecond]
  omega

/-- Days only when there are some, then hours without padding, minutes, seconds, fraction. -/
def Span.text (s : Span) : String :=
  let c := Clock.ofMicros (s.seconds * 1000000 + s.micros)
  let days := if s.days = 0 then ""
    else toString s.days ++ (if s.days.natAbs = 1 then " day, " else " days, ")
  days ++ toString c.hour ++ ":" ++ padded 2 c.minute ++ ":" ++ padded 2 c.second ++
    fractionText c.micro

/-- The duration notation of the date and time standard: days, then seconds with a fraction that
ends in no zero; a negative span has its sign in front of everything. -/
def Span.standardText (s : Span) : String :=
  let t := s.toMicros
  let days := t.natAbs / 86400000000
  let seconds := t.natAbs / 1000000 % 86400
  let micro := t.natAbs % 1000000
  let fraction := ((padded 6 micro).toList.reverse.dropWhile (· = '0')).reverse
  let tail := if seconds = 0 && micro = 0 then ""
    else "T" ++ toString seconds ++
      (if micro = 0 then "" else "." ++ String.ofList fraction) ++ "S"
  (if t < 0 then "-P" else "P") ++
    (if days = 0 then if tail.isEmpty then "0D" else "" else toString days ++ "D") ++ tail

end LazyQuery.Calendar
