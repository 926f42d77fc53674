import LazyQuery.Datum
import LazyQuery.Number.Reader
import LazyQuery.Number.Shortest
import LazyQuery.Text.Quoted

/-! The two texts of a value: the exact form, which shows what the value is made of, and the plain
form, which differs from it for texts, decimals, types and calendar values outside containers. -/
namespace LazyQuery

/-- Positional while the leading digit is at most six places behind the point and no zeros would
have to be added; else one digit before the point and an exponent. -/
def Decimal.text (d : Decimal) : String :=
  let ds := (toString d.coefficient).toList
  let n : Int := ds.length
  let point := n + d.exponent
  let positional := d.exponent ≤ 0 && -6 < point
  let place := if positional then point else 1
  let body :=
    if place ≤ 0 then '0' :: '.' :: (List.replicate (-place).toNat '0' ++ ds)
    else if n ≤ place then ds ++ List.replicate (place - n).toNat '0'
    else ds.take place.toNat ++ '.' :: ds.drop place.toNat
  let e := point - place
  (if d.negative then "-" else "") ++ String.ofList body ++
    if e = 0 then "" else (if e < 0 then "E-" else "E+") ++ toString e.natAbs

namespace Datum

/-- A component of a complex number: a whole number has no point. -/
def componentText (x : Float) : String :=
  let s := Number.text x
  if s.endsWith ".0" then String.ofList (s.toList.take (s.length - 2)) else s

def complexText (re im : Float) : String :=
  let i := componentText im
  let signed := if i.startsWith "-" then i else "+" ++ i
  if re = 0.0 && !Number.isNegative re then i ++ "j"
  else "(" ++ componentText re ++ signed ++ "j)"

/-- The arguments of a time of day: seconds and microseconds only when needed. -/
def clockArguments (c : Calendar.Clock) : List String :=
  [toString c.hour, toString c.minute] ++
    (if c.second = 0 && c.micro = 0 then [] else [toString c.second]) ++
    if c.micro = 0 then [] else [toString c.micro]

def call (name : String) (arguments : List String) : String :=
  name ++ "(" ++ ", ".intercalate arguments ++ ")"

def spanText (t : Int) : String :=
  let s := Calendar.Span.ofMicros t
  let part (name : String) (n : Int) := if n = 0 then [] else [name ++ "=" ++ toString n]
  let parts := part "days" s.days ++ part "seconds" s.seconds ++ part "microseconds" s.micros
  call "datetime.timedelta" (if parts.isEmpty then ["0"] else parts)

def zoneText (offset : Int) : String :=
  if offset = 0 then "datetime.timezone.utc" else call "datetime.timezone" [spanText offset]

def momentText (m : Calendar.Moment) : String :=
  let zone := (m.offset.map fun o => ["tzinfo=" ++ zoneText o]).getD []
  call "datetime.datetime"
    ([toString m.day.year, toString m.day.month, toString m.day.day] ++ clockArguments m.clock ++
      zone)

def dayText (days : Int) : String :=
  let c := Calendar.Civil.ofDays days
  call "datetime.date" [toString c.year, toString c.month, toString c.day]

mutual
/-- The exact form. A list in a key cannot change, and shows that by round brackets, with a comma
behind a member that stands alone. -/
def shown (inKey : Bool) : Datum → String
  | .null => "None"
  | .bool true => "True"
  | .bool false => "False"
  | .int i => toString i
  | .float x => Number.text x
  | .complex re im => complexText re im
  | .decimal d => call "Decimal" ["'" ++ d.text ++ "'"]
  | .text s => Text.quoted s
  | .bytes bs => Text.quotedBytes bs
  | .date days => dayText days
  | .moment m => momentText m
  | .time t => call "datetime.time" (clockArguments (.ofMicros t))
  | .span t => spanText t
  | .list items =>
    let members := ", ".intercalate (shownItems inKey items)
    if !inKey then "[" ++ members ++ "]"
    else if items.length = 1 then "(" ++ members ++ ",)" else "(" ++ members ++ ")"
  | .record entries => "\x7b" ++ ", ".intercalate (shownEntries entries) ++ "\x7d"
  | .type t => t.fullText
  | .schema s => s.text
  | .batch b => "pyarrow.RecordBatch\n" ++ b.schema.text

def shownItems (inKey : Bool) : List Datum → List String
  | [] => []
  | d :: ds => shown inKey d :: shownItems inKey ds

def shownEntries : List (Datum × Datum) → List String
  | [] => []
  | (k, v) :: es => (shown true k ++ ": " ++ shown false v) :: shownEntries es
end

/-- The exact form of a value that is no key. -/
def exact (d : Datum) : String := shown false d

/-- The plain form. -/
def plain : Datum → String
  | .text s => s
  | .decimal d => d.text
  | .date days => Calendar.dateText days
  | .moment m => m.text " "
  | .time t => Calendar.timeText t
  | .span t => (Calendar.Span.ofMicros t).text
  | .type t => t.text
  | d => d.exact

mutual
def numbers : Datum → List Int
  | .int i => [i]
  | .list items => numbersOfAll items
  | .record entries => numbersOfEntries entries
  | _ => []

def numbersOfAll : List Datum → List Int
  | [] => []
  | d :: ds => d.numbers ++ numbersOfAll ds

def numbersOfEntries : List (Datum × Datum) → List Int
  | [] => []
  | (k, v) :: es => k.numbers ++ v.numbers ++ numbersOfEntries es
end

/-- A value with a longer whole number in it can be written in neither form. What the forms above
show of such a value stands for nothing. -/
def Writable (d : Datum) : Prop := ∀ i ∈ d.numbers, i.natAbs < 10 ^ Number.digitLimit

end Datum
end LazyQuery
