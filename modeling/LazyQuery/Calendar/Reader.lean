import LazyQuery.Calendar.Clock
import LazyQuery.Number.Rounding
import LazyQuery.Text.Digit

/-! Reading dates, times of day and moments from their standard texts. -/
namespace LazyQuery.Calendar

/-- A number of exactly `width` ASCII digits, and the rest. -/
def takeDigits (width : Nat) (cs : List Char) : Option (Nat × List Char) :=
  let ds := cs.take width
  if ds.length = width && ds.all Text.isAsciiDigit then some (Text.asciiValue ds, cs.drop width)
  else none

def takeChar (c : Char) : List Char → Option (List Char)
  | d :: cs => if c = d then some cs else none
  | [] => none

/-- Year, month and day with hyphens between them; the day must exist. -/
def takeDate (cs : List Char) : Option (Int × List Char) := do
  let (y, cs) ← takeDigits 4 cs
  let cs ← takeChar '-' cs
  let (m, cs) ← takeDigits 2 cs
  let cs ← takeChar '-' cs
  let (d, cs) ← takeDigits 2 cs
  let c : Civil := ⟨y, m, d⟩
  if c.isValid then some (c.toDays, cs) else none

/-- A point and up to `most` digits, as a number of units of `10 ^ (-most)`; more digits than
`most` are an error. -/
def takeFraction (most : Nat) : List Char → Option (Nat × List Char)
  | '.' :: cs =>
    let ds := cs.takeWhile Text.isAsciiDigit
    if ds.isEmpty || most < ds.length then none
    else some (Text.asciiValue ds * 10 ^ (most - ds.length), cs.drop ds.length)
  | cs => some (0, cs)

def takeHour (cs : List Char) : Option (Nat × List Char) := do
  let (h, cs) ← takeDigits 2 cs
  if h < 24 then some (h * 3600, cs) else none

/-- Hours and minutes, then seconds where they follow, as a number of seconds. -/
def takeClock (cs : List Char) : Option (Nat × List Char) := do
  let (h, cs) ← takeDigits 2 cs
  let cs ← takeChar ':' cs
  let (m, cs) ← takeDigits 2 cs
  let (s, cs) ← match cs with
    | ':' :: rest => takeDigits 2 rest
    | rest => some (0, rest)
  if h < 24 && m < 60 && s < 60 then some ((h * 60 + m) * 60 + s, cs) else none

/-- A time of day in units of `10 ^ (-places)` seconds. -/
def takeTime (places : Nat) (cs : List Char) : Option (Nat × List Char) := do
  let (s, cs) ← takeClock cs
  let (f, cs) ← takeFraction places cs
  some (s * 10 ^ places + f, cs)

/-- The offset of a clock in seconds: `Z`, or a sign, hours and minutes with or without a colon. -/
def takeOffset : List Char → Option (Int × List Char)
  | 'Z' :: cs => some (0, cs)
  | c :: cs => do
    let (h, cs) ← takeDigits 2 cs
    let (m, cs) ← match cs with
      | ':' :: rest => takeDigits 2 rest
      | [] => some (0, [])
      | rest => takeDigits 2 rest
    if c = '+' then some ((h * 60 + m) * 60, cs)
    else if c = '-' then some (-((h * 60 + m) * 60), cs)
    else none
  | [] => none

def finished {α : Type} : α × List Char → Option α
  | (a, []) => some a
  | _ => none

def readDate? (s : String) : Option Int := takeDate s.toList >>= finished

def readTime? (s : String) : Option Nat := takeTime 6 s.toList >>= finished

/-- A moment: a date, `T` or a space, a time of day and perhaps an offset. -/
def readMoment? (s : String) : Option Moment := do
  let (d, cs) ← takeDate s.toList
  let cs ← (takeChar 'T' cs).orElse fun _ => takeChar ' ' cs
  let (t, cs) ← takeTime 6 cs
  let wall := d * microsPerDay + t
  if cs.isEmpty then some ⟨wall, none⟩
  else
    let offset ← takeOffset cs >>= finished
    some ⟨wall, some (offset * microsPerSecond)⟩

/-! Lenient reading: numbers may be shorter than their fields and may have blanks in front. -/

/-- A number of at most `width` digits, below a limit. -/
def takeNumber (width limit : Nat) (cs : List Char) : Option (Nat × List Char) :=
  let cs := cs.dropWhile Text.isBlank
  let ds := (cs.take width).takeWhile Text.isAsciiDigit
  let n := Text.asciiValue ds
  if ds.isEmpty || limit ≤ n then none else some (n, cs.drop ds.length)

/-- Year, month and day with hyphens between them; the day must exist. -/
def takeLooseDate (cs : List Char) : Option (Int × List Char) := do
  let (y, cs) ← takeNumber 4 10000 cs
  let cs ← takeChar '-' cs
  let (m, cs) ← takeNumber 2 13 cs
  let cs ← takeChar '-' cs
  let (d, cs) ← takeNumber 2 32 cs
  let c : Civil := ⟨y, m, d⟩
  if c.isValid then some (c.toDays, cs) else none

def takeNanos : List Char → Nat × List Char
  | '.' :: cs =>
    let ds := cs.takeWhile Text.isAsciiDigit
    let kept := ds.take 9
    if ds.isEmpty then (0, '.' :: cs)
    else (Text.asciiValue kept * 10 ^ (9 - kept.length), cs.drop ds.length)
  | cs => (0, cs)

/-- Hours and minutes, then seconds and their fraction where they follow, in nanoseconds. -/
def takeLooseTime (cs : List Char) : Option (Nat × List Char) := do
  let (h, cs) ← takeNumber 2 24 cs
  let cs ← takeChar ':' cs
  let (m, cs) ← takeNumber 2 60 cs
  match takeChar ':' cs >>= takeNumber 2 60 with
  | some (s, cs) =>
    let (f, cs) := takeNanos cs
    some (((h * 60 + m) * 60 + s) * 10 ^ 9 + f, cs)
  | none => some ((h * 60 + m) * 60 * 10 ^ 9, cs)

/-- The days of a date, with blanks behind it or not. -/
def readLooseDate? (s : String) : Option Int := do
  let (d, cs) ← takeLooseDate s.toList
  if cs.all Text.isBlank then some d else none

/-- The days of a date and, after the letter `T`, a time of day in nanoseconds; what follows. -/
def takeLooseMoment (s : String) : Option (Int × Nat × List Char) := do
  let (d, cs) ← takeLooseDate s.toList
  let cs ← takeChar 'T' cs
  let (t, cs) ← takeLooseTime cs
  some (d, t, cs)

end LazyQuery.Calendar
