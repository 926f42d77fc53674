import LazyQuery.Calendar.Reader
import LazyQuery.Cell
import LazyQuery.DataType
import LazyQuery.Datum.Text
import LazyQuery.Number.Reader
import LazyQuery.Number.Shortest

/-! Cells of declared types written as texts and read from them. Counts of time are written with as
many digits of a fraction of a second as their unit has, and read with at most so many. -/
namespace LazyQuery

def TimeUnit.places : TimeUnit → Nat
  | .second => 0 | .milli => 3 | .micro => 6 | .nano => 9

def TimeUnit.perDay (u : TimeUnit) : Int := 86400 * u.perSecond

namespace Cell

def hexDigit? (c : Char) : Option Nat :=
  if '0' ≤ c && c ≤ '9' then some (c.toNat - 48)
  else if 'a' ≤ c && c ≤ 'f' then some (c.toNat - 87)
  else if 'A' ≤ c && c ≤ 'F' then some (c.toNat - 55)
  else none

/-- The number with these digits to the base sixteen, as its bits stand for it in an integer type
that has room for the digits. -/
def ofHex? (k : IntegerType) (cs : List Char) : Option Int := do
  let ds ← cs.mapM hexDigit?
  let count := (k.range.2 - k.range.1 + 1).toNat
  let n : Nat := ds.foldl (fun n d => 16 * n + d) 0
  if ds.isEmpty || count < 16 ^ ds.length then none
  else some (if (n : Int) ≤ k.range.2 then n else (n : Int) - count)

/-- Digits, after a minus sign where the type has negative numbers. -/
def ofDigits? (k : IntegerType) (cs : List Char) : Option Int :=
  let (negative, ds) := match cs with
    | '-' :: ds => if k.range.1 < 0 then (true, ds) else (false, cs)
    | ds => (false, ds)
  if ds.isEmpty || !ds.all Text.isAsciiDigit then none
  else
    let i := if negative then -(Text.asciiValue ds : Int) else Text.asciiValue ds
    if k.holds i then some i else none

def integer? (k : IntegerType) (s : String) : Option Int :=
  match s.toList with
  | '0' :: 'x' :: cs | '0' :: 'X' :: cs => ofHex? k cs
  | cs => ofDigits? k cs

def bool? (s : String) : Option Bool :=
  let word := String.ofList (Number.lowerAscii s.toList)
  if word = "true" || word = "1" then some true
  else if word = "false" || word = "0" then some false
  else none

def time? (u : TimeUnit) (s : String) : Option Int := do
  let n ← Calendar.takeTime u.places s.toList >>= Calendar.finished
  some n

/-- A point in time as a count of units: a date alone or a date and a time of day, with the offset
of the clock exactly where one is called for. -/
def stamp? (u : TimeUnit) (zoned : Bool) (s : String) : Option Int := do
  let (d, cs) ← Calendar.takeDate s.toList
  let (t, cs) ← match cs with
    | 'T' :: cs | ' ' :: cs => Calendar.takeTime u.places cs
    | cs => some (0, cs)
  let wall := d * u.perDay + t
  match zoned, cs with
  | false, [] => some wall
  | true, _ :: _ => do
    let offset ← Calendar.takeOffset cs >>= Calendar.finished
    some (wall - offset * u.perSecond)
  | _, _ => none

def clockText (u : TimeUnit) (i : Int) : String :=
  let seconds := (i / u.perSecond).toNat
  let fraction := (i % u.perSecond).toNat
  Calendar.timeText (seconds * 1000000) ++
    if u.places = 0 then "" else "." ++ Calendar.padded u.places fraction

/-- Day and time of day, and the sign of universal time where there is a zone. -/
def stampText (u : TimeUnit) (zoned : Bool) (i : Int) : String :=
  Calendar.dateText (i / u.perDay) ++ " " ++ clockText u (i % u.perDay) ++ if zoned then "Z" else ""

def decimalText (scale i : Int) : String := (Decimal.mk (i < 0) i.natAbs (-scale)).text

end Cell
end LazyQuery
