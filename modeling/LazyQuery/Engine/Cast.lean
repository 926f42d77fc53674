import LazyQuery.Engine.ColumnType
import LazyQuery.Calendar.Reader
import LazyQuery.Number.Reader
import LazyQuery.Number.Shortest
import LazyQuery.Fault

/-! Casts between execution types. A cast is strict: one cell that the target cannot hold fails the
whole cast. Some pairs of types cannot be cast at all, whatever the cells. -/
namespace LazyQuery.Engine

def unitsPerDay (u : Resolution) : Int := 86400 * u.perSecond

/-- A count of one unit in another; what is finer than the target is dropped downwards. -/
def rescale (source target : Resolution) (i : Int) : Int := i * target.perSecond / source.perSecond

def toInteger (k : IntegerType) (i : Int) : Outcome Cell :=
  if k.holds i then .ok (.int i) else fail .invalidOperation

def floatOfInt (t : ColumnType) (i : Int) : Float :=
  match t with
  | .single => Number.toSingle (Number.ofInt i)
  | .half => Number.toHalf (Number.ofInt i)
  | _ => Number.ofInt i

def floatOfFloat (t : ColumnType) (x : Float) : Float :=
  match t with
  | .single => Number.toSingle x
  | .half => Number.toHalf x
  | _ => x

def fractionDigits : Resolution → Nat
  | .milli => 3 | .micro => 6 | .nano => 9

def datetimeText (u : Resolution) (i : Int) : String :=
  let day := i / unitsPerDay u
  let rest := i % unitsPerDay u
  let seconds := (rest / u.perSecond).toNat
  let fraction := (rest % u.perSecond).toNat
  Calendar.dateText day ++ " " ++ Calendar.timeText (seconds * 1000000) ++ "." ++
    Calendar.padded (fractionDigits u) fraction

def timeText (i : Int) : String :=
  let fraction := (i % 1000000000).toNat
  Calendar.timeText ((i / 1000000000).toNat * 1000000) ++
    if fraction = 0 then "" else "." ++ Calendar.padded 9 fraction

def integerCellText (t : ColumnType) (i : Int) : Outcome Cell :=
  match t with
  | .integer _ => .ok (.text (toString i))
  | .date => .ok (.text (Calendar.dateText i))
  | .time => .ok (.text (timeText i))
  | .datetime u _ => .ok (.text (datetimeText u i))
  | _ => fail .invalidOperation

def readWhole? (s : String) : Option Int :=
  let (negative, ds) := Number.splitSign s.toList
  if !ds.isEmpty && ds.all Text.isAsciiDigit then
    some (if negative then -(Text.asciiValue ds : Int) else Text.asciiValue ds)
  else none

/-- A moment on the clock; what follows it does not count, an offset included. -/
def readWall? (u : Resolution) (s : String) : Option Int := do
  let (d, t, _) ← Calendar.takeLooseMoment s
  some (rescale .nano u (d * unitsPerDay .nano + t))

def readUniversal? (u : Resolution) (s : String) : Option Int := do
  let (d, t, cs) ← Calendar.takeLooseMoment s
  let offset ← if cs.length < "+0000".length then none
    else Calendar.takeOffset cs >>= Calendar.finished
  some (rescale .nano u (d * unitsPerDay .nano + t - offset * Resolution.nano.perSecond))

def orInvalid {α : Type} (f : α → Cell) : Option α → Outcome Cell
  | some a => .ok (f a)
  | none => fail .invalidOperation

def readText (t : ColumnType) (s : String) : Outcome Cell :=
  match t with
  | .integer k =>
    match readWhole? s with
    | some i => toInteger k i
    | none => fail .invalidOperation
  | .half | .single | .double =>
    orInvalid (fun x => .float (floatOfFloat t x)) (Number.readDouble? s.toList)
  | .date => orInvalid .int (Calendar.readLooseDate? s)
  | .datetime u none => orInvalid .int (readWall? u s)
  | .datetime u (some _) => orInvalid .int (readUniversal? u s)
  | .binary => .ok (.bytes s.toUTF8.toList)
  | .string | .category => .ok (.text s)
  | _ => fail .invalidOperation

/-- Counts of days and of units of time in other types. The target is neither text nor nested. -/
def castCount (source target : ColumnType) (i : Int) : Outcome Cell :=
  match source, target with
  | .date, .datetime u _ => .ok (.int (i * unitsPerDay u))
  | .datetime u _, .date => .ok (.int (i / unitsPerDay u))
  | .datetime u _, .datetime v _ => .ok (.int (rescale u v i))
  | .datetime u _, .time => .ok (.int (rescale u .nano (i % unitsPerDay u)))
  | .duration u, .duration v => .ok (.int (rescale u v i))
  | .integer _, .date => toInteger .int32 i
  | .integer _, .datetime .. | .integer _, .duration _ => toInteger .int64 i
  | .integer _, .time =>
    if 0 ≤ i && i < unitsPerDay .nano then .ok (.int i) else fail .invalidOperation
  | .integer _, .bool => .ok (.bool (i ≠ 0))
  | .integer _, .binary => .ok (.bytes (toString i).toUTF8.toList)
  | _, .integer k => toInteger k i
  | _, .half | _, .single | _, .double => .ok (.float (floatOfInt target i))
  | _, _ => fail .invalidOperation

/-- A decimal, counted in units of its last place, in another type. Fractions of integers are
dropped, and no place is lost between decimals. -/
def castDecimal (scale : Int) (target : ColumnType) (i : Int) : Outcome Cell :=
  match target with
  | .half | .single | .double =>
    .ok (.float (floatOfFloat target (Number.ofInt i / Number.ofInt (10 ^ scale.toNat))))
  | .integer k => toInteger k (Int.tdiv i (10 ^ scale.toNat))
  | .string => .ok (.text (Decimal.mk (i < 0) i.natAbs (-scale)).text)
  | .decimal _ finer => .ok (.int (i * 10 ^ (finer - scale).toNat))
  | _ => fail .invalidOperation

def ColumnType.grid : ColumnType → Number.Grid
  | .half => .half
  | .single => .single
  | _ => .double

def castFloat (source target : ColumnType) (x : Float) : Outcome Cell :=
  match target with
  | .half | .single | .double => .ok (.float (floatOfFloat target x))
  | .bool => .ok (.bool (x != 0.0))
  | .string => .ok (.text (Number.Layout.compact.textOn source.grid x))
  | .integer k =>
    match Number.truncate? x with
    | some i => toInteger k i
    | none => fail .invalidOperation
  | .date =>
    match Number.truncate? x with
    | some i => toInteger .int32 i
    | none => fail .invalidOperation
  | .datetime .. | .duration _ | .time =>
    match Number.truncate? x with
    | some i => toInteger .int64 i
    | none => fail .invalidOperation
  | _ => fail .invalidOperation

def castBool (target : ColumnType) (b : Bool) : Outcome Cell :=
  match target with
  | .bool => .ok (.bool b)
  | .integer _ => .ok (.int (if b then 1 else 0))
  | .half | .single | .double => .ok (.float (if b then 1.0 else 0.0))
  | .string => .ok (.text (if b then "true" else "false"))
  | .binary => .ok (.bytes (if b then "1" else "0").toUTF8.toList)
  | _ => fail .invalidOperation

def castBytes (target : ColumnType) (bs : List UInt8) : Outcome Cell :=
  match target with
  | .binary => .ok (.bytes bs)
  | .string => orInvalid .text (String.fromUTF8? ⟨bs.toArray⟩)
  | _ => fail .invalidOperation

/-- A cell of a type without components as a cell of another such type. -/
def castFlat (source target : ColumnType) : Cell → Outcome Cell
  | .null => .ok .null
  | .bool b => castBool target b
  | .float x => castFloat source target x
  | .text s => readText target s
  | .bytes bs => castBytes target bs
  | .int i =>
    match source, target with
    | .decimal _ scale, t => castDecimal scale t i
    | .integer _, .decimal _ scale => .ok (.int (i * 10 ^ scale.toNat))
    | s, .string => integerCellText s i
    | s, t => castCount s t i
  | _ => fail .invalidOperation

def castable : ColumnType → ColumnType → Bool
  | s, .list t => match s with
    | .list s => castable s t
    | .array s _ => castable s t
    | .struct _ => s = t
    | s => castable s t
  | s, t =>
    if s = t || s = .null then true
    else match s, t with
      | _, .null | .list _, _ | .array .., _ | .struct _, _ | _, .array .. | _, .struct _ => false
      | .string, .bool | .string, .time | .string, .duration _ => false
      | .binary, t => t = .string
      | .decimal .., t => t.isNumeric || t.isDecimal || t = .string
      | s, .decimal .. => s.isInteger
      | .category, t => t = .string
      | .bool, t => t.isNumeric || t = .string || t = .binary
      | _, .category => s = .string
      | .date, .bool | .datetime .., .bool | .time, .bool | .duration _, .bool => false
      | .date, .duration _ | .date, .time | .time, .date | .duration _, .date => false
      | .time, .datetime .. | .duration _, .time | .time, .duration _ => s = t
      | .datetime .., .duration _ | .duration _, .datetime .. => true
      | _, _ => true

def castCell (source : ColumnType) : ColumnType → Cell → Outcome Cell
  | .list t, c =>
    match source, c with
    | _, .null => .ok .null
    | .list s, .list cs => do .ok (.list (← cs.mapM (castCell s t)))
    | .array s _, .list cs => do .ok (.list (← cs.mapM (castCell s t)))
    | s, c => do .ok (.list [← castCell s t c])
  | t, c => if source = t then .ok c else castFlat source t c

end LazyQuery.Engine
