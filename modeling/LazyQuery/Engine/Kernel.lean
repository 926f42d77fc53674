import LazyQuery.Engine.Coercion
import LazyQuery.Cell
import LazyQuery.Number.Double

/-! What the operators compute from one pair of cells. A null on either side gives a null, except in
conjunctions and disjunctions that the other side already decides. -/
namespace LazyQuery.Engine

/-- Numbers in order, zero without a sign; what is no number is equal to itself and above all. -/
def compareFloats (x y : Float) : Ordering :=
  if x.isNaN then if y.isNaN then .eq else .gt
  else if y.isNaN then .lt
  else if x < y then .lt
  else if y < x then .gt
  else .eq

def compareBytes : List UInt8 → List UInt8 → Ordering
  | [], [] => .eq
  | [], _ => .lt
  | _, [] => .gt
  | a :: as, b :: bs => if a < b then .lt else if b < a then .gt else compareBytes as bs

def compareTexts (s t : String) : Ordering := if s < t then .lt else if t < s then .gt else .eq

def compareBools : Bool → Bool → Ordering
  | false, true => .lt
  | true, false => .gt
  | _, _ => .eq

def kindOf : Cell → Nat
  | .null => 0
  | .bool _ => 1
  | .int _ => 2
  | .float _ => 3
  | .text _ => 4
  | .bytes _ => 5
  | .list _ => 6
  | .struct _ => 7

mutual
/-- The order of two cells. Nulls are equal to one another and below everything else. -/
def compareCells : Cell → Cell → Ordering
  | .bool a, .bool b => compareBools a b
  | .int i, .int j => compare i j
  | .float x, .float y => compareFloats x y
  | .text s, .text t => compareTexts s t
  | .bytes a, .bytes b => compareBytes a b
  | .list as, .list bs | .struct as, .struct bs => compareMembers as bs
  | a, b => compare (kindOf a) (kindOf b)

def compareMembers : List Cell → List Cell → Ordering
  | [], [] => .eq
  | [], _ => .lt
  | _, [] => .gt
  | a :: as, b :: bs => (compareCells a b).then (compareMembers as bs)
end

def holds (op : Operator) (o : Ordering) : Bool :=
  match op with
  | .eq => o == .eq
  | .ne => o != .eq
  | .lt => o == .lt
  | .le => o != .gt
  | .gt => o == .gt
  | .ge => o != .lt
  | _ => false

def wrap (k : IntegerType) (i : Int) : Int :=
  let (width, signed) := integerShape k
  if signed then i.bmod (2 ^ width) else i % 2 ^ width

/-- Quotients are taken downwards and remainders take the sign of the divisor; there are none for a
zero divisor. -/
def wholeArithmetic (op : Operator) (k : IntegerType) (i j : Int) : Cell :=
  match op with
  | .add => .int (wrap k (i + j))
  | .sub => .int (wrap k (i - j))
  | .mul => .int (wrap k (i * j))
  | .div => if j = 0 then .null else .int (wrap k (Int.fdiv i j))
  | .mod => if j = 0 then .null else .int (wrap k (Int.fmod i j))
  | _ => .null

def rounded (single : Bool) (x : Float) : Float := if single then Number.toSingle x else x

def realArithmetic (op : Operator) (single : Bool) (x y : Float) : Float :=
  let r := rounded single
  match op with
  | .add => r (x + y)
  | .sub => r (x - y)
  | .mul => r (x * y)
  | .div => r (x / y)
  | .mod => r (x - r (y * (r (x / y)).floor))
  | _ => x

/-- Dividing a whole column by one number multiplies it by that number's reciprocal. -/
def realByScalar (op : Operator) (single : Bool) (x y : Float) : Float :=
  let r := rounded single
  let inverse := r (1.0 / y)
  match op with
  | .div => r (x * inverse)
  | .mod => r (x - r (y * (r (x * inverse)).floor))
  | _ => realArithmetic op single x y

def bitwise (op : Operator) (k : IntegerType) (i j : Int) : Int :=
  let (width, _) := integerShape k
  let m := (i % 2 ^ width).toNat
  let n := (j % 2 ^ width).toNat
  wrap k (match op with | .and => m &&& n | _ => m ||| n : Nat)

def spanSum (op : Operator) (i j : Int) : Int := wrap .int64 (if op = .sub then i - j else i + j)

def millisPerDay : Int := 86400 * Resolution.milli.perSecond

/-- A number without its fraction, if 64 bits hold it. -/
def wholeCell (x : Float) : Cell :=
  match Number.truncate? x with
  | some i => if IntegerType.int64.holds i then .int i else .null
  | none => .null

def connectCells (op : Operator) (a b : Cell) : Cell :=
  let decisive := op = .or
  match a, b with
  | .bool x, .bool y => .bool (if op = .or then x || y else x && y)
  | .bool x, .null | .null, .bool x => if x = decisive then .bool x else .null
  | _, _ => .null

def scaleCells (compute : Float → Float → Float) (single : Bool) (a b : Cell) : Cell :=
  match a, b with
  | .int i, .float y => wholeCell (compute (rounded single (Number.ofInt i)) y)
  | .float x, .int j => wholeCell (compute x (rounded single (Number.ofInt j)))
  | _, _ => .null

def ratioCells (compute : Float → Float → Float) (a b : Cell) : Cell :=
  match a, b with
  | .int i, .int j => .float (compute (Number.ofInt i) (Number.ofInt j))
  | _, _ => .null

def Kernel.apply (k : Kernel) (a b : Cell) : Cell :=
  match k with
  | .connect op => connectCells op a b
  | .compare op => if a.isNull || b.isNull then .null else .bool (holds op (compareCells a b))
  | .bits op kind =>
    match a, b with
    | .int i, .int j => .int (bitwise op kind i j)
    | _, _ => .null
  | .whole op kind =>
    match a, b with
    | .int i, .int j => wholeArithmetic op kind i j
    | _, _ => .null
  | .real op single =>
    match a, b with
    | .float x, .float y => .float (realArithmetic op single x y)
    | _, _ => .null
  | .join =>
    match a, b with
    | .text s, .text t => .text (s ++ t)
    | .bytes bs, .bytes cs => .bytes (bs ++ cs)
    | _, _ => .null
  | .span op =>
    match a, b with
    | .int i, .int j => .int (spanSum op i j)
    | _, _ => .null
  | .days op =>
    match a, b with
    | .int i, .int j => .int (spanSum op i j / millisPerDay)
    | _, _ => .null
  | .scale op single => scaleCells (realArithmetic op single) single a b
  | .ratio => ratioCells (realArithmetic .div false) a b
  | .nothing => .null

def Kernel.applyScalar (k : Kernel) (a b : Cell) : Cell :=
  match k, a, b with
  | .real op single, .float x, .float y => .float (realByScalar op single x y)
  | .scale op single, a, b => scaleCells (realByScalar op single) single a b
  | .ratio, a, b => ratioCells (realByScalar .div false) a b
  | k, a, b => k.apply a b

/-- The opposite of a truth value, and the complement of the bits of an integer. -/
def negate (type : ColumnType) : Cell → Cell
  | .bool b => .bool (!b)
  | .int i =>
    match type with
    | .integer k => .int (wrap k (-i - 1))
    | _ => .null
  | _ => .null

end LazyQuery.Engine
