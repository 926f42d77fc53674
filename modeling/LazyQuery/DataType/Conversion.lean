import LazyQuery.Batch
import LazyQuery.Cell.Text
import LazyQuery.Fault

/-! Conversions between declared types that lose nothing: a cell that the target does not hold
exactly is a failure. Whether two types have a conversion at all does not depend on the cells. -/
namespace LazyQuery

abbrev Converter : Type := Cell → Outcome Cell

namespace Converter

def ofInt (f : Int → Outcome Cell) : Converter
  | .int i => f i
  | c => .ok c

def ofBool (f : Bool → Cell) : Converter
  | .bool b => .ok (f b)
  | c => .ok c

def ofFloat (f : Float → Outcome Cell) : Converter
  | .float x => f x
  | c => .ok c

def ofText (f : String → Outcome Cell) : Converter
  | .text s => f s
  | c => .ok c

def ofBytes (f : List UInt8 → Outcome Cell) : Converter
  | .bytes bs => f bs
  | c => .ok c

end Converter

def exactly (c : Option Cell) : Outcome Cell :=
  match c with
  | some c => .ok c
  | none => fail .invalidData

def IntegerType.cell (k : IntegerType) (i : Int) : Outcome Cell :=
  if k.holds i then .ok (.int i) else fail .invalidData

def Leaf.round (k : Leaf) (x : Float) : Float :=
  match k with
  | .half => Number.toHalf x
  | .single => Number.toSingle x
  | _ => x

def Leaf.grid : Leaf → Number.Grid
  | .half => .half
  | .single => .single
  | _ => .double

def Leaf.isText : Leaf → Bool
  | .string | .largeString | .stringView => true
  | _ => false

/-- A whole number as a floating point number, if it lies where all of them are held. -/
def Leaf.wholeCell (k : Leaf) (precision : Nat) (i : Int) : Outcome Cell :=
  if i.natAbs ≤ 2 ^ precision then .ok (.float (k.round (Number.ofInt i))) else fail .invalidData

/-- A floating point number without a fraction as a whole number. -/
def IntegerType.ofFloat (k : IntegerType) (x : Float) : Outcome Cell :=
  match Number.truncate? x with
  | some i => if Number.ofInt i == x then k.cell i else fail .invalidData
  | none => fail .invalidData

/-- A count of one unit as a count of another, if it is a whole number of them. -/
def rescaled (source target : TimeUnit) (i : Int) : Outcome Cell :=
  if i * target.perSecond % source.perSecond = 0 then
    .ok (.int (i * target.perSecond / source.perSecond))
  else fail .invalidData

def IntegerType.digits : IntegerType → Nat
  | .int8 | .uint8 => 3
  | .int16 | .uint16 => 5
  | .int32 | .uint32 => 10
  | .int64 => 19
  | .uint64 => 20

def decimalCell (precision : Int) (i : Int) : Outcome Cell :=
  if i.natAbs < 10 ^ precision.toNat then .ok (.int i) else fail .invalidData

def rescaleDecimal (source target precision : Int) (i : Int) : Outcome Cell :=
  let size := i.natAbs * 10 ^ (target - source).toNat
  let unit := 10 ^ (source - target).toNat
  if size % unit = 0 then decimalCell precision (i.sign * (size / unit : Nat)) else
    fail .invalidData

def unsupported {α : Type} : Outcome α := fail .unsupportedConversion

def textConverter (t : Leaf) : Outcome Converter :=
  match t with
  | .bool => .ok (.ofText fun s => exactly ((Cell.bool? s).map .bool))
  | .integer k => .ok (.ofText fun s => exactly ((Cell.integer? k s).map .int))
  | .half | .single | .double => .ok (.ofText fun s =>
      exactly ((Number.readDouble? s.toList).map fun x => .float (t.round x)))
  | .binary | .largeBinary => .ok (.ofText fun s => .ok (.bytes s.toUTF8.toList))
  | .date32 => .ok (.ofText fun s => exactly ((Calendar.readDate? s).map .int))
  | .date64 => .ok (.ofText fun s =>
      exactly ((Calendar.readDate? s).map fun d => .int (d * TimeUnit.milli.perDay)))
  | .timestamp u zone => .ok (.ofText fun s => exactly ((Cell.stamp? u zone.isSome s).map .int))
  | .time32 u | .time64 u => .ok (.ofText fun s => exactly ((Cell.time? u s).map .int))
  | .decimal128 p s | .decimal256 p s => .ok (.ofText fun text =>
      match Number.readDecimal? text.toList with
      | some (negative, digits, e) =>
        rescaleDecimal (-e) s p (if negative then -(digits : Int) else digits)
      | none => fail .invalidData)
  | t => if t.isText then .ok .ok else unsupported

/-- What writing a type as text does. Points in time are written where they have no zone or that of
universal time. -/
def toTextConverter (s : Leaf) : Outcome Converter :=
  match s with
  | .bool => .ok (.ofBool fun b => .text (if b then "true" else "false"))
  | .integer _ => .ok (.ofInt fun i => .ok (.text (toString i)))
  | .half | .single | .double => .ok (.ofFloat fun x =>
      .ok (.text (Number.Layout.bare.textOn s.grid x)))
  | .binary | .largeBinary | .fixedBinary _ => .ok (.ofBytes fun bs =>
      exactly ((String.fromUTF8? ⟨bs.toArray⟩).map .text))
  | .date32 => .ok (.ofInt fun i => .ok (.text (Calendar.dateText i)))
  | .date64 => .ok (.ofInt fun i => .ok (.text (Calendar.dateText (i / TimeUnit.milli.perDay))))
  | .time32 u | .time64 u => .ok (.ofInt fun i => .ok (.text (Cell.clockText u i)))
  | .timestamp u none => .ok (.ofInt fun i => .ok (.text (Cell.stampText u false i)))
  | .timestamp u (some "UTC") => .ok (.ofInt fun i => .ok (.text (Cell.stampText u true i)))
  | .decimal128 _ scale | .decimal256 _ scale => .ok (.ofInt fun i =>
      .ok (.text (Cell.decimalText scale i)))
  | _ => unsupported

def integerConverter (k : IntegerType) (t : Leaf) : Outcome Converter :=
  match t with
  | .bool => .ok (.ofInt fun i => .ok (.bool (i ≠ 0)))
  | .integer l => .ok (.ofInt l.cell)
  | .half => .ok (.ofInt (t.wholeCell 11))
  | .single => .ok (.ofInt (t.wholeCell 24))
  | .double => .ok (.ofInt (t.wholeCell 53))
  | .date32 | .time32 _ => if k = .int32 then .ok .ok else unsupported
  | .date64 | .timestamp .. | .duration _ | .time64 _ =>
    if k = .int64 then .ok .ok else unsupported
  | .decimal128 p s | .decimal256 p s =>
    if p < k.digits + s then fail .invalidData
    else .ok (.ofInt fun i => decimalCell p (i * 10 ^ s.toNat))
  | _ => unsupported

def floatConverter (t : Leaf) : Outcome Converter :=
  match t with
  | .bool => .ok (.ofFloat fun x => .ok (.bool (x != 0.0)))
  | .integer k => .ok (.ofFloat k.ofFloat)
  | .half | .single | .double => .ok (.ofFloat fun x => .ok (.float (t.round x)))
  | .decimal128 p s | .decimal256 p s => .ok (.ofFloat fun x =>
      match Number.roundedAt? s x with
      | some i => decimalCell p i
      | none => fail .invalidData)
  | _ => unsupported

def boolConverter (t : Leaf) : Outcome Converter :=
  match t with
  | .integer _ => .ok (.ofBool fun b => .int (if b then 1 else 0))
  | .half | .single | .double => .ok (.ofBool fun b => .float (if b then 1.0 else 0.0))
  | _ => unsupported

def timeConverter (s t : Leaf) : Outcome Converter :=
  match s, t with
  | .date32, .date64 => .ok (.ofInt fun i => .ok (.int (i * 86400000)))
  | .date64, .date32 => .ok (.ofInt fun i => .ok (.int (i / 86400000)))
  | .date32, .timestamp u _ => .ok (.ofInt fun i => .ok (.int (i * u.perDay)))
  | .date64, .timestamp u _ => .ok (.ofInt (rescaled .milli u))
  | .timestamp u _, .date32 => .ok (.ofInt fun i => .ok (.int (i / u.perDay)))
  | .timestamp u _, .date64 =>
    .ok (.ofInt fun i => .ok (.int (i / u.perDay * 86400000)))
  | .timestamp u _, .timestamp v _ => .ok (.ofInt (rescaled u v))
  | .timestamp u _, .time32 v | .timestamp u _, .time64 v =>
    .ok (.ofInt fun i => rescaled u v (i % u.perDay))
  | .duration u, .duration v => .ok (.ofInt (rescaled u v))
  | .time32 u, .time32 v | .time32 u, .time64 v | .time64 u, .time32 v | .time64 u, .time64 v =>
    .ok (.ofInt (rescaled u v))
  | .date32, .integer .int32 | .time32 _, .integer .int32 => .ok .ok
  | .date64, .integer .int64 | .timestamp .., .integer .int64 | .duration _, .integer .int64
  | .time64 _, .integer .int64 => .ok .ok
  | _, _ => unsupported

def Leaf.isDecimal : Leaf → Bool
  | .decimal128 .. | .decimal256 .. => true
  | _ => false

def decimalConverter (s t : Leaf) : Outcome Converter :=
  match s, t with
  | .decimal128 _ a, .decimal128 p b | .decimal128 _ a, .decimal256 p b
  | .decimal256 _ a, .decimal128 p b | .decimal256 _ a, .decimal256 p b =>
    .ok (.ofInt (rescaleDecimal a b p))
  | .decimal128 _ a, .integer k | .decimal256 _ a, .integer k =>
    .ok (.ofInt fun i =>
      if i.natAbs % 10 ^ a.toNat = 0 then k.cell (i.sign * (i.natAbs / 10 ^ a.toNat : Nat))
      else fail .invalidData)
  | .decimal128 _ a, .single | .decimal256 _ a, .single | .decimal128 _ a, .double
  | .decimal256 _ a, .double =>
    .ok (.ofInt fun i => .ok (.float (t.round (Number.ofDecimal (i < 0) i.natAbs (-a)))))
  | _, _ => unsupported

/-- The conversion between two leaves, where there is one. -/
def Leaf.converter (s t : Leaf) : Outcome Converter :=
  if s = t || s = .null then .ok .ok
  else if s.isText then textConverter t
  else if t.isText then toTextConverter s
  else if s.isDecimal then decimalConverter s t
  else match s with
    | .bool => boolConverter t
    | .integer k => integerConverter k t
    | .half | .single | .double => floatConverter t
    | .binary | .largeBinary =>
      match t with
      | .binary | .largeBinary => .ok .ok
      | .fixedBinary n =>
        .ok (.ofBytes fun bs => if bs.length = n then .ok (.bytes bs) else fail .invalidData)
      | _ => unsupported
    | .fixedBinary _ =>
      match t with
      | .binary | .largeBinary => .ok .ok
      | .fixedBinary _ => fail .invalidData
      | _ => unsupported
    | _ => timeConverter s t

namespace Converter

/-- Members one by one; a missing list stays missing. -/
def members (f : Converter) : Converter
  | .list cs => do .ok (.list (← cs.mapM fun c => if c.isNull then .ok c else f c))
  | c => .ok c

def sized (n : Nat) (f : Converter) : Converter
  | .list cs => if cs.length = n then members f (.list cs) else fail .invalidData
  | c => members f c

/-- The member at a position, converted; nothing where there is none. -/
def picked (cs : List Cell) : Option (Nat × Converter) → Outcome Cell
  | some (i, f) => match cs[i]? with
    | some c => if c.isNull then .ok c else f c
    | none => .ok .null
  | none => .ok .null

def rearranged (picks : List (Option (Nat × Converter))) : Converter
  | .struct cs => do .ok (.struct (← picks.mapM (picked cs)))
  | c => .ok c

end Converter

abbrev NamedConverter : Type := Nat × String × Option Converter

/-- Where each member of a struct comes from among named converters, each of which is used once; a
member that may be null can be missing. -/
def arrangement (found : List NamedConverter) :
    List Field → Outcome (List (Option (Nat × Converter)))
  | [] => .ok []
  | f :: fs =>
    match found.find? (·.2.1 = f.name) with
    | some (i, _, c) => do
      let rest ← arrangement (found.eraseP (·.2.1 = f.name)) fs
      .ok (c.map (fun c => (i, c)) :: rest)
    | none => if f.nullable then do .ok (none :: (← arrangement found fs)) else fail .mistypedData

mutual
/-- The conversion between two types, where there is one. -/
def DataType.converter : DataType → DataType → Outcome Converter
  | .leaf .null, _ => .ok .ok
  | .leaf a, .leaf b => a.converter b
  | .leaf a, .dictionary _ (.leaf b) => a.converter b
  | .list f, t | .largeList f, t => f.listConverter t
  | .fixedList f n, t =>
    match t with
    | .fixedList _ m => if m = n then f.listConverter t else unsupported
    | t => f.listConverter t
  | .struct fs, .struct gs => do
    .ok (.rearranged (← arrangement (← memberConverters gs 0 fs) gs))
  | .dictionary _ v, .dictionary _ w => v.converter w
  | .dictionary _ v, t => v.converter t
  | .map _ a, .map _ b => do
    let f ← a.converter b
    .ok (.members fun
      | .struct [k, v] => do .ok (.struct [k, ← if v.isNull then .ok v else f v])
      | c => .ok c)
  | _, _ => unsupported

def Field.listConverter : Field → DataType → Outcome Converter
  | ⟨_, s, _⟩, t =>
    match t with
    | .list g | .largeList g => do .ok (.members (← s.converter g.type))
    | .fixedList g n => do .ok (.sized n (← s.converter g.type))
    | .map k v => if s = .struct [⟨"key", k, true⟩, ⟨"value", v, true⟩] then .ok .ok else
      unsupported
    | _ => unsupported

/-- The converters of those members that the target has, by name; of members of one name each goes
to the next of that name. -/
def memberConverters (targets : List Field) (start : Nat) : List Field →
    Outcome (List NamedConverter)
  | [] => .ok []
  | ⟨name, s, _⟩ :: fs => do
    let c ← match targets.find? (·.name = name) with
      | some g => (s.converter g.type).map some
      | none => .ok none
    let rest ← memberConverters (targets.eraseP (·.name = name)) (start + 1) fs
    .ok ((start, name, c) :: rest)
end

/-- All cells of a column, converted; missing cells stay missing. -/
def DataType.convert (source target : DataType) (cells : List Cell) : Outcome (List Cell) := do
  if source = target then .ok cells
  else
    let f ← source.converter target
    cells.mapM fun c => if c.isNull then .ok c else f c

mutual
/-- A member that has to be there is missing in the cell. Members of a missing
struct are missing. -/
def DataType.lacks : DataType → Cell → Bool
  | .struct fs, .struct cs => membersLack fs cs
  | .struct fs, .null => membersLack fs (fs.map fun _ => .null)
  | .list f, .list cs | .largeList f, .list cs | .fixedList f _, .list cs => cs.any f.lacks
  | _, _ => false

def Field.lacks : Field → Cell → Bool
  | ⟨_, t, _⟩, c => t.lacks c

def membersLack : List Field → List Cell → Bool
  | ⟨_, t, nullable⟩ :: fs, c :: cs => (c.isNull && !nullable) || t.lacks c || membersLack fs cs
  | _, _ => false
end

end LazyQuery
