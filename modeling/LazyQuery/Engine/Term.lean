import LazyQuery.Engine.Cast
import LazyQuery.Engine.Reduction
import LazyQuery.Engine.TypeMapping
import LazyQuery.Schema

/-! Terms: expressions with every column found by name in a layout and every type mapped. A literal
becomes a constant of the type its value has, cast to the type it was declared with. -/
namespace LazyQuery.Engine

inductive Term
  | column (name : String)
  | constant (cell : Cell) (type : ColumnType)
  | reduce (reduction : Reduction) (inner : Term)
  | binary (op : Operator) (left right : Term)
  | not (inner : Term)
  | isNull (inner : Term)
  | isNotNull (inner : Term)
  | cast (inner : Term) (target : ColumnType)
  | named (inner : Term) (name : String)

def clockZone (offset : Int) : String :=
  if offset = 0 then "UTC" else "UTC" ++ Calendar.offsetText offset

def unitOf : ColumnType → Resolution
  | .datetime u _ | .duration u => u
  | _ => .micro

def zoneNameOf : ColumnType → Option String
  | .datetime _ z => z
  | _ => none

/-- The zone of a constant: the declared one, the value's own, or both when they agree. -/
def momentZone (declared : Option String) (offset : Option Int) : Outcome (Option String) :=
  match offset, declared with
  | none, z => .ok z
  | some o, none => if o = 0 then .ok (some "UTC") else fail .failedComputation
  | some o, some z => if clockZone o = z then .ok (some z) else fail .mistyped

def momentConstant (t : ColumnType) (m : Calendar.Moment) : Outcome Term :=
  match t with
  | .date => .ok (.constant (.int (m.wall / Calendar.microsPerDay)) .date)
  | t => do
    let zone ← momentZone (zoneNameOf t) m.offset
    .ok (.constant (.int (rescale .micro (unitOf t) m.wall)) (.datetime (unitOf t) zone))

def decimalConstant (t : ColumnType) (d : Decimal) : Term :=
  let float := Number.ofDecimal d.negative d.coefficient d.exponent
  match t with
  | .string => .constant (.text d.text) .string
  | .integer _ =>
    let size : Int := d.coefficient * 10 ^ d.exponent.toNat / 10 ^ (-d.exponent).toNat
    .cast (.constant (.int (if d.negative then -size else size)) .int64) t
  | .half | .single | .double => .cast (.constant (.float float) .double) t
  | t => .cast (.constant .null (.decimal 38 0)) t

mutual
/-- A value inside a container as a cell of the type that the container's members have. -/
def memberCell : ColumnType → Datum → Outcome Cell
  | _, .null => .ok .null
  | .bool, .bool b => .ok (.bool b)
  | .integer k, .int i => if k.holds i then .ok (.int i) else fail .mistyped
  | .half, .int i | .single, .int i | .double, .int i => .ok (.float (Number.ofInt i))
  | .single, .float x => .ok (.float (Number.toSingle x))
  | .half, .float x | .double, .float x => .ok (.float x)
  | .string, .text s => .ok (.text s)
  | .binary, .bytes bs => .ok (.bytes bs)
  | .date, .date d => .ok (.int d)
  | .time, .time t => .ok (.int (t * 1000))
  | .datetime u _, .moment m => .ok (.int (rescale .micro u m.universal))
  | .duration u, .span t => .ok (.int (rescale .micro u t))
  | .list t, .list ds => do .ok (.list (← memberCells t ds))
  | .struct fs, .record es => do .ok (.struct (← recordCells fs es))
  | _, _ => fail .mistyped

def memberCells : ColumnType → List Datum → Outcome (List Cell)
  | _, [] => .ok []
  | t, d :: ds => do
    let c ← memberCell t d
    .ok (c :: (← memberCells t ds))

/-- The members of a record in the order of a struct's members, whatever the order of entries. -/
def recordCells : List (String × ColumnType) → List (Datum × Datum) → Outcome (List Cell)
  | fs, es => do
    let found ← entryCells fs es
    .ok (fs.map fun f => ((found.find? (·.1 = f.1)).map (·.2)).getD .null)

def entryCells : List (String × ColumnType) → List (Datum × Datum) →
    Outcome (List (String × Cell))
  | _, [] => .ok []
  | fs, (k, v) :: es => do
    let rest ← entryCells fs es
    match k with
    | .text s =>
      match fs.find? (·.1 = s) with
      | some (_, t) => .ok ((s, ← memberCell t v) :: rest)
      | none => .ok rest
    | _ => .ok rest
end

/-- The type of a whole number before it is cast. Where 64 bits with a sign are wanted and do not
hold it, the type is another one, so that the cast fails. -/
def wholeType (t : ColumnType) (i : Int) : ColumnType :=
  if t = .int64 && !IntegerType.int64.holds i then .integer .uint64 else .int64

def constant (t : ColumnType) : Datum → Outcome Term
  | .null => .ok (.cast (.constant .null .null) t)
  | .bool b => .ok (.cast (.constant (.bool b) .bool) t)
  | .int i => .ok (.cast (.constant (.int i) (wholeType t i)) t)
  | .float x => .ok (.cast (.constant (.float x) .double) t)
  | .text s => .ok (.cast (.constant (.text s) .string) t)
  | .bytes bs => .ok (.cast (.constant (.bytes bs) .binary) t)
  | .date d =>
    match t with
    | .datetime u z => .ok (.constant (.int (d * unitsPerDay u)) (.datetime u z))
    | _ => .ok (.constant (.int d) .date)
  | .moment m => momentConstant t m
  | .time m => .ok (.constant (.int (m * 1000)) .time)
  | .span m =>
    match t with
    | .datetime u _ | .duration u => .ok (.constant (.int (rescale .micro u m)) (.duration u))
    | _ => .ok (.constant (.int m) (.duration .micro))
  | .decimal d => .ok (decimalConstant t d)
  | .list ds =>
    match t with
    | .list item => do .ok (.constant (.list (← memberCells item ds)) t)
    | _ => fail .mistyped
  | .record es =>
    match t with
    | .struct fs => do .ok (.constant (.struct (← recordCells fs es)) t)
    | _ => fail .mistyped
  | .complex .. | .type _ | .schema _ | .batch _ => fail .mistyped

def term (layout : Schema) : Expr → Outcome Term
  | .column i =>
    match layout.at? i with
    | some f => .ok (.column f.name)
    | none => fail .positionOutOfRange
  | .literal v t => do constant (← t.column) v
  | .aggregate name args returns =>
    match Reduction.ofName? name with
    | none => .error (.unknownAggregate name)
    | some r =>
      match args with
      | [] => fail .positionOutOfRange
      | e :: _ => do
        let inner ← term layout e
        .ok (.cast (.reduce r inner) (← returns.column))
  | .binary l op r => do
    let left ← term layout l
    let right ← term layout r
    match Operator.ofText? op with
    | some o => .ok (.binary o left right)
    | none => .error (.unknownOperator op)
  | .not e => do .ok (.not (← term layout e))
  | .isNull e => do .ok (.isNull (← term layout e))
  | .isNotNull e => do .ok (.isNotNull (← term layout e))
  | .cast e t => do
    let inner ← term layout e
    .ok (.cast inner (← t.column))
  | .alias e name => do .ok (.named (← term layout e) name)
  | .wildcard => .error (.unknownExpression "Wildcard")
  | .bare => .error (.unknownExpression "Expr")

end LazyQuery.Engine
