import LazyQuery.Delimited
import LazyQuery.Engine.Extent

/-! The rows of a delimited text, read by the types that are declared for its columns. Columns are
told apart by position alone. A field that cannot be read is a failure that stays in its place. -/
namespace LazyQuery.Engine

def isReadable : ColumnType → Bool
  | .bool | .integer _ | .single | .double | .string | .date | .time | .datetime .. => true
  | _ => false

def dropSpaces (cs : List Char) : List Char := cs.dropWhile fun c => c = ' ' || c = '\t'

def orUncomputed {α : Type} (f : α → Cell) : Option α → Deferred
  | some a => .ok (f a)
  | none => fail .failedComputation

/-- A date with or without a time of day, and perhaps an offset, in universal time. -/
def readPoint? (u : Resolution) (cs : List Char) : Option Int := do
  let (d, cs) ← Calendar.takeDate cs
  if cs.isEmpty then some (d * unitsPerDay u)
  else
    let cs ← (Calendar.takeChar 'T' cs).orElse fun _ => Calendar.takeChar ' ' cs
    let (t, cs) ← Calendar.takeTime 9 cs
    let (offset, _) ← if cs.isEmpty then some (0, []) else Calendar.takeOffset cs
    some (rescale .nano u (d * unitsPerDay .nano + t - offset * Resolution.nano.perSecond))

def readTime? (cs : List Char) : Option Nat :=
  if cs.length < "00:00:00".length then none
  else Calendar.takeTime 9 cs >>= Calendar.finished

def readTruthValue? (cs : List Char) : Option Bool :=
  let word := String.ofList (Number.lowerAscii cs)
  if word = "true" then some true else if word = "false" then some false else none

/-- A field that is not empty as a cell of a type. -/
def readField (t : ColumnType) (s : String) : Deferred :=
  match t with
  | .string => .ok (.text s)
  | .bool => orUncomputed .bool (readTruthValue? s.toList)
  | .integer k =>
    match readWhole? (String.ofList (dropSpaces s.toList)) with
    | some i => if k.holds i then .ok (.int i) else fail .failedComputation
    | none => fail .failedComputation
  | .single | .double =>
    orUncomputed (fun x => .float (floatOfFloat t x)) (Number.readDouble? (dropSpaces s.toList))
  | .date => orUncomputed .int (Calendar.readDate? s)
  | .time =>
    orUncomputed (fun n : Nat => .int n) (readTime? s.toList)
  | .datetime u _ => orUncomputed .int (readPoint? u s.toList)
  | _ => fail .failedComputation

/-- The bytes of a field; a return at the end of one without quotes does not count. -/
def contentOf (f : Delimited.Field) : List UInt8 :=
  if !f.quoted && f.content.getLast? = some Delimited.returnMark then f.content.dropLast
  else f.content

/-- The cell of a field. Without quotes an empty field is missing; with quotes it
is an empty text. -/
def cellOfField (t : ColumnType) (f : Delimited.Field) : Deferred :=
  let content := contentOf f
  if !isReadable t then fail .failedComputation
  else if content.isEmpty then .ok (if f.quoted && t = .string then .text "" else .null)
  else
    match String.fromUTF8? ⟨content.toArray⟩ with
    | some s => readField t s
    | none => fail .failedComputation

/-- The cell of a row at a position; rows may be shorter than they should be. -/
def cellAt (t : ColumnType) (position : Nat) (line : Delimited.Line) : Deferred :=
  cellOfField t (line.getD position ⟨[], false⟩)

/-- In a table of several columns, lines with nothing on them do not count. -/
def countedLines (width : Nat) (t : Delimited.Text) : List Delimited.Line :=
  if width = 1 then t.lines else t.lines.filter fun l => !Delimited.isBlank l

def within {α : Type} (bound : Option Nat) (xs : List α) : List α :=
  match bound with
  | some n => xs.take n
  | none => xs

/-- The number of rows of a text and its columns. The first line must not have more fields than
there are columns, nor may any row that is read. -/
def readRows (types : List ColumnType) (hasHeader : Bool) (bound : Option Nat)
    (t : Delimited.Text) : Outcome (Nat × List (List Deferred)) :=
  match countedLines types.length t with
  | [] => fail .noData
  | first :: rest =>
    let rows := within bound (if hasHeader then rest else first :: rest)
    if types.length < first.length then fail .differingSchema
    else if rows.any fun l => types.length < l.length then fail .failedComputation
    else .ok (rows.length, types.mapIdx fun i t => rows.map (cellAt t i))

end LazyQuery.Engine
