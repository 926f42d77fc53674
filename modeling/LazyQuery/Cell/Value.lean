import LazyQuery.Datum
import LazyQuery.Calendar.Reader
import LazyQuery.Number.Double

/-! What the cells of a declared type denote, and the cells that represent values. -/
namespace LazyQuery

/-- The offset of a zone that is given by one; every other zone is taken as universal time. -/
def zoneOffset (zone : String) : Int :=
  match Calendar.takeOffset zone.toList >>= Calendar.finished with
  | some seconds => seconds * Calendar.microsPerSecond
  | none => 0

def TimeUnit.toMicros (u : TimeUnit) (i : Int) : Int := i * Calendar.microsPerSecond / u.perSecond
def TimeUnit.ofMicros (u : TimeUnit) (i : Int) : Int := i * u.perSecond / Calendar.microsPerSecond

def millisPerDay : Int := 86400000

def Leaf.valueOf : Leaf → Cell → Datum
  | .date32, .int i => .date i
  | .date64, .int i => .date (i / millisPerDay)
  | .timestamp u none, .int i => .moment ⟨u.toMicros i, none⟩
  | .timestamp u (some zone), .int i =>
    .moment ⟨u.toMicros i + zoneOffset zone, some (zoneOffset zone)⟩
  | .duration u, .int i => .span (u.toMicros i)
  | .time32 u, .int i | .time64 u, .int i => .time (u.toMicros i).toNat
  | .decimal128 _ s, .int i | .decimal256 _ s, .int i => .decimal ⟨i < 0, i.natAbs, -s⟩
  | _, .bool b => .bool b
  | _, .int i => .int i
  | _, .float x => .float x
  | _, .text s => .text s
  | _, .bytes bs => .bytes bs
  | _, .null | _, .list _ | _, .struct _ => .null

mutual
def DataType.valueOf : DataType → Cell → Datum
  | _, .null => .null
  | .leaf k, c => k.valueOf c
  | .list f, .list cs | .largeList f, .list cs | .fixedList f _, .list cs =>
    .list (cs.map f.valueOf)
  | .struct fs, .struct cs => .record (memberValues fs cs)
  | .dictionary _ v, c => v.valueOf c
  | .map k v, .list cs => .list (cs.map fun
    | .struct [a, b] => .list [k.valueOf a, v.valueOf b]
    | _ => .null)
  | _, _ => .null

def Field.valueOf : Field → Cell → Datum
  | ⟨_, t, _⟩, c => t.valueOf c

def memberValues : List Field → List Cell → List (Datum × Datum)
  | ⟨name, t, _⟩ :: fs, c :: cs => (.text name, t.valueOf c) :: memberValues fs cs
  | _, _ => []
end

/-- The digits of a decimal in units of `10 ^ (-scale)`, if it is a whole number of them. -/
def Decimal.inUnits? (d : Decimal) (scale : Int) : Option Int :=
  let shift := d.exponent + scale
  let size := d.coefficient * 10 ^ shift.toNat
  let unit := 10 ^ (-shift).toNat
  if size % unit = 0 then some ((if d.negative then -1 else 1) * (size / unit : Nat)) else none

def Leaf.cellOf? : Leaf → Datum → Option Cell
  | .bool, .bool b => some (.bool b)
  | .integer k, .int i => if k.holds i then some (.int i) else none
  | .half, .float x => some (.float (Number.toHalf x))
  | .single, .float x => some (.float (Number.toSingle x))
  | .double, .float x => some (.float x)
  | .half, .int i => some (.float (Number.toHalf (Number.ofInt i)))
  | .single, .int i => some (.float (Number.toSingle (Number.ofInt i)))
  | .double, .int i => some (.float (Number.ofInt i))
  | .string, .text s | .largeString, .text s | .stringView, .text s => some (.text s)
  | .binary, .bytes bs | .largeBinary, .bytes bs => some (.bytes bs)
  | .fixedBinary n, .bytes bs => if bs.length = n then some (.bytes bs) else none
  | .date32, .date d => some (.int d)
  | .date64, .date d => some (.int (d * millisPerDay))
  | .timestamp u _, .moment m => some (.int (u.ofMicros m.universal))
  | .timestamp u _, .date d => some (.int (u.ofMicros (d * Calendar.microsPerDay)))
  | .duration u, .span t => some (.int (u.ofMicros t))
  | .time32 u, .time t | .time64 u, .time t => some (.int (u.ofMicros t))
  | .decimal128 _ s, .decimal d | .decimal256 _ s, .decimal d => (d.inUnits? s).map .int
  | .decimal128 _ s, .int i | .decimal256 _ s, .int i =>
    ((⟨i < 0, i.natAbs, 0⟩ : Decimal).inUnits? s).map .int
  | _, _ => none

def entry? (name : String) (es : List (Datum × Datum)) : Option Datum :=
  (es.find? fun e => match e.1 with | .text s => s = name | _ => false).map (·.2)

mutual
def DataType.cellOf? : DataType → Datum → Option Cell
  | _, .null => some .null
  | .leaf k, d => k.cellOf? d
  | .list f, .list ds | .largeList f, .list ds => (ds.mapM f.cellOf?).map Cell.list
  | .fixedList f n, .list ds =>
    if ds.length = n then (ds.mapM f.cellOf?).map Cell.list else none
  | .struct fs, .record es => (memberCells? fs es).map Cell.struct
  | .dictionary _ v, d => v.cellOf? d
  | .map k v, .record es =>
    (es.mapM fun (e : Datum × Datum) => do
      let a ← k.cellOf? e.1
      let b ← v.cellOf? e.2
      some (Cell.struct [a, b])).map Cell.list
  | _, _ => none

def Field.cellOf? : Field → Datum → Option Cell
  | ⟨_, t, _⟩, d => t.cellOf? d

def memberCells? : List Field → List (Datum × Datum) → Option (List Cell)
  | [], _ => some []
  | ⟨name, t, _⟩ :: fs, es => do
    let c ← match entry? name es with
      | some d => t.cellOf? d
      | none => some .null
    some (c :: (← memberCells? fs es))
end

end LazyQuery
