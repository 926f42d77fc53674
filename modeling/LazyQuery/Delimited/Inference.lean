import LazyQuery.Delimited
import LazyQuery.Files
import LazyQuery.Calendar.Reader
import LazyQuery.Number.Reader

/-! The schema of a delimited file: names from its first line, or numbered names, and for each
column the first type in a fixed order that holds all its values. -/
namespace LazyQuery.Delimited

/-- Spellings of a missing value. They count as missing for every type but text and bytes. -/
def nullSpellings : List String :=
  ["", "#N/A", "#N/A N/A", "#NA", "-1.#IND", "-1.#QNAN", "-NaN", "-nan", "1.#IND", "1.#QNAN",
    "N/A", "NA", "NULL", "NaN", "n/a", "nan", "null"]

def trimmed (s : String) : List Char :=
  let blank := fun c : Char => c = ' ' || c = '\t'
  ((s.toList.dropWhile blank).reverse.dropWhile blank).reverse

def hexDigit? (c : Char) : Option Nat :=
  if '0' ≤ c && c ≤ '9' then some (c.toNat - 48)
  else if 'a' ≤ c && c ≤ 'f' then some (c.toNat - 87)
  else if 'A' ≤ c && c ≤ 'F' then some (c.toNat - 55)
  else none

/-- Decimal digits with an optional minus sign, or up to sixteen hexadecimal
ones, within 64 bits. -/
def isInt64 (s : String) : Bool :=
  match trimmed s with
  | '0' :: x :: ds =>
    if x = 'x' || x = 'X' then
      !ds.isEmpty && ds.length ≤ 16 && ds.all fun c => (hexDigit? c).isSome
    else decimal ('0' :: x :: ds) false
  | '-' :: ds => decimal ds true
  | ds => decimal ds false
where
  decimal (ds : List Char) (negative : Bool) : Bool :=
    !ds.isEmpty && ds.all Text.isAsciiDigit &&
      Text.asciiValue ds ≤ 2 ^ 63 - (if negative then 0 else 1)

def isTruthValue (s : String) : Bool :=
  ["1", "True", "TRUE", "true", "0", "False", "FALSE", "false"].contains s

def isDate (s : String) : Bool := (Calendar.readDate? (String.ofList (trimmed s))).isSome

def isTime (s : String) : Bool :=
  (Calendar.takeClock (trimmed s) >>= Calendar.finished).isSome

/-- A moment with at most `places` digits of fraction or of the hour alone, and whether it has an
offset. -/
def moment? (places : Nat) (s : String) : Option Bool := do
  let (_, cs) ← Calendar.takeDate s.toList
  if cs.isEmpty then some false
  else
    let cs ← (Calendar.takeChar 'T' cs).orElse fun _ => Calendar.takeChar ' ' cs
    let (_, cs) ← (if places = 0 then Calendar.takeClock cs else Calendar.takeTime places
        cs).orElse fun _ => Calendar.takeHour cs
    if cs.isEmpty then some false
    else
      let _ ← Calendar.takeOffset cs >>= Calendar.finished
      some true

def isReal (s : String) : Bool := (Number.readDouble? (trimmed s)).isSome

/-- The types that are tried, in order, with the test of a value that is not missing. -/
def candidates : List (DataType × (String → Bool)) :=
  [(.null, fun _ => false), (.int64, isInt64), (.bool, isTruthValue), (.date32, isDate),
    (.leaf (.time32 .second), isTime),
    (.leaf (.timestamp .second none), fun s => moment? 0 s = some false),
    (.leaf (.timestamp .second (some "UTC")), fun s => moment? 0 s = some true),
    (.leaf (.timestamp .nano none), fun s => moment? 9 s = some false),
    (.leaf (.timestamp .nano (some "UTC")), fun s => moment? 9 s = some true),
    (.double, isReal)]

def columnType (values : List (List UInt8)) : DataType :=
  match values.mapM fun v => String.fromUTF8? ⟨v.toArray⟩ with
  | none => .binary
  | some texts =>
    let present := texts.filter fun s => !nullSpellings.contains s
    ((candidates.find? fun c => present.all c.2).map (·.1)).getD .string

/-- The first line that is not blank has to be ended. -/
def hasFirstLine (t : Text) : Bool :=
  match t.lines.filter fun l => !isBlank l with
  | [] => false
  | [_] => t.ended
  | _ => true

def nameOf (f : Field) : Outcome String :=
  match String.fromUTF8? ⟨f.content.toArray⟩ with
  | some s => .ok s
  | none => fail .invalidData

/-- The schema of a text; all its lines must have as many fields as the first. -/
def schemaOf (t : Text) (hasHeader : Bool) : Outcome Schema :=
  let lines := t.lines.filter fun l => !isBlank l
  match lines with
  | [] => fail .invalidData
  | first :: rest =>
    if !hasFirstLine t || t.unclosed || rest.any fun l => l.length ≠ first.length then
      fail .invalidData
    else do
      let names ← if hasHeader then first.mapM nameOf
        else .ok ((List.range first.length).map fun i => "f" ++ toString i)
      let data := if hasHeader then rest else lines
      .ok (names.mapIdx fun i name =>
        ⟨name, columnType (data.map fun l => ((l[i]?).map (·.content)).getD []), true⟩)

def inferSchema (files : Files) (path : String) (hasHeader : Bool) (delimiter : String) :
    Outcome Schema := do
  let separator ← separatorByte delimiter
  match ← files.find path with
  | .bytes content =>
    if separator = newline || separator = returnMark then fail .invalidData
    else schemaOf (parse .newlineOrReturn separator content) hasHeader
  | .columnar _ => fail .invalidData

end LazyQuery.Delimited
