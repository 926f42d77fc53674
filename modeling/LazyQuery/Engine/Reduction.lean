import LazyQuery.Engine.Kernel

/-! Aggregates: one cell from all cells of a column. Nulls do not count; without any other cell a
sum is zero and every other aggregate but the count is null. -/
namespace LazyQuery.Engine

inductive Reduction
  | min | max | sum | count | mean
deriving DecidableEq, Repr

/-- Upper case of the letters that names of aggregates are made of, and of the two letters outside
ASCII whose upper case is one of them. -/
def upperLetter (c : Char) : Char :=
  if c = 'ı' then 'I' else if c = 'ſ' then 'S' else c.toUpper

def upperName (name : String) : String := String.ofList (name.toList.map upperLetter)

def Reduction.ofName? (name : String) : Option Reduction :=
  match upperName name with
  | "MIN" => some .min
  | "MAX" => some .max
  | "SUM" => some .sum
  | "COUNT" => some .count
  | "AVG" => some .mean
  | _ => none

def sumType : ColumnType → Outcome ColumnType
  | .integer k => .ok (.integer (if (integerShape k).1 ≤ 16 then .int64 else k))
  | .bool => .ok .uint32
  | .null => .ok .null
  | .half => .ok .single
  | .single => .ok .single
  | .double => .ok .double
  | .duration u => .ok (.duration u)
  | .decimal _ scale => .ok (.decimal 38 scale)
  | _ => fail .invalidOperation

/-- What is neither a number nor a point in time has no mean but a null of its own type. -/
def meanType : ColumnType → ColumnType
  | .bool | .integer _ | .half | .double | .decimal .. => .double
  | .date => .datetime .micro none
  | t => t

namespace Reduction

def type (r : Reduction) (t : ColumnType) : Outcome ColumnType :=
  match r with
  | .min | .max => .ok t
  | .sum => sumType t
  | .count => .ok .uint32
  | .mean => .ok (meanType t)

def present (cs : List Cell) : List Cell := cs.filter fun c => !c.isNull

/-- The first of the cells that no other cell precedes in the given order. -/
def best (before : Cell → Cell → Bool) : List Cell → Cell
  | [] => .null
  | c :: cs => cs.foldl (fun b d => if before d b then d else b) c

def isNaNCell : Cell → Bool
  | .float x => x.isNaN
  | _ => false

/-- What is no number is left out unless there is nothing else. -/
def ranked (cs : List Cell) : List Cell :=
  let numbers := cs.filter fun c => !isNaNCell c
  if numbers.isEmpty then cs else numbers

def smallest (cs : List Cell) : Cell :=
  best (fun a b => compareCells a b == .lt) (ranked (present cs))

def largest (cs : List Cell) : Cell :=
  best (fun a b => compareCells a b == .gt) (ranked (present cs))

def intOf : Cell → Int
  | .int i => i
  | .bool b => if b then 1 else 0
  | _ => 0

def floatOf : Cell → Float
  | .float x => x
  | .int i => Number.ofInt i
  | .bool b => if b then 1.0 else 0.0
  | _ => 0.0

def sumInts (cs : List Cell) : Int := cs.foldl (fun n c => n + intOf c) 0
def sumFloats (cs : List Cell) : Float := cs.foldl (fun x c => x + floatOf c) 0.0

def total (t : ColumnType) (cs : List Cell) : Cell :=
  match t with
  | .integer k => .int (wrap (if (integerShape k).1 ≤ 16 then .int64 else k) (sumInts cs))
  | .bool => .int (sumInts cs)
  | .half | .single => .float (Number.toSingle (sumFloats cs))
  | .double => .float (sumFloats cs)
  | .duration _ | .decimal .. => .int (sumInts cs)
  | _ => .null

def average (t : ColumnType) (cs : List Cell) : Cell :=
  if cs.isEmpty then .null
  else match t with
    | .integer _ | .bool | .half | .double => .float (sumFloats cs / Number.ofInt cs.length)
    | .single => .float (Number.toSingle (sumFloats cs / Number.ofInt cs.length))
    | .decimal _ scale =>
      .float (Number.ofInt (sumInts cs) / Number.ofInt cs.length / Number.ofInt (10 ^ scale.toNat))
    | .date => .int (sumInts cs * 86400000000 / cs.length)
    | .datetime .. | .duration _ | .time => .int (sumInts cs / cs.length)
    | _ => .null

def apply (r : Reduction) (t : ColumnType) (cs : List Cell) : Cell :=
  match r with
  | .min => if t.isNested then .null else smallest cs
  | .max => if t.isNested then .null else largest cs
  | .sum => total t (present cs)
  | .count => .int (present cs).length
  | .mean => average t (present cs)

end Reduction
end LazyQuery.Engine
