import LazyQuery.Engine.Pattern
import LazyQuery.Engine.Term

/-! Formulas: terms whose columns are found, whose operators have their kernels and whose casts are
explicit. A formula is one value for all rows, or one value for each; which of the two is plain from
the formula alone. -/
namespace LazyQuery.Engine

abbrev Header := List (String × ColumnType)

inductive Formula
  | column (position : Nat)
  | constant (cell : Cell)
  | cast (source target : ColumnType) (inner : Formula)
  | combine (kernel : Kernel) (left right : Formula)
  | negate (type : ColumnType) (inner : Formula)
  | isNull (inner : Formula)
  | isNotNull (inner : Formula)
  | reduce (reduction : Reduction) (type : ColumnType) (inner : Formula)

namespace Formula

def isScalar : Formula → Bool
  | .column _ => false
  | .constant _ | .reduce .. => true
  | .cast _ _ f | .negate _ f | .isNull f | .isNotNull f => f.isScalar
  | .combine _ l r => l.isScalar && r.isScalar

def isRowwise : Formula → Bool
  | .column _ | .constant _ => true
  | .reduce .. => false
  | .cast _ _ f | .negate _ f | .isNull f | .isNotNull f => f.isRowwise
  | .combine _ l r => l.isRowwise && r.isRowwise

def coerced (source target : ColumnType) (f : Formula) : Formula :=
  if source = target then f else .cast source target f

def conjuncts : Formula → List Formula
  | .combine (.connect .and) l r => l.conjuncts ++ r.conjuncts
  | f => [f]

/-- A formula over a selection as one over the input of that, if the columns that it gets to are
handed on as they are. -/
def before? (fs : List Formula) : Formula → Option Formula
  | .column i =>
    match fs[i]? with
    | some (.column k) => some (.column k)
    | _ => none
  | .constant c => some (.constant c)
  | .cast s t f => do some (.cast s t (← f.before? fs))
  | .combine k l r => do some (.combine k (← l.before? fs) (← r.before? fs))
  | .negate t f => do some (.negate t (← f.before? fs))
  | .isNull f => do some (.isNull (← f.before? fs))
  | .isNotNull f => do some (.isNotNull (← f.before? fs))
  | .reduce r t f => do some (.reduce r t (← f.before? fs))

end Formula

/-- The columns whose names are of the pattern that a name is, each with its position. -/
def matching (h : Header) (name : String) : Outcome (List (Nat × String × ColumnType)) :=
  match Pattern.ofName? name with
  | some p => .ok ((h.mapIdx fun i e => (i, e)).filter fun (_, e) => p.occurs e.1.toList)
  | none => fail .failedComputation

/-- The position and type of a column. A star stands for the only column of a table that has just
one, and a pattern for the only column with a name of that pattern; neither stands for several. A
pattern that no column has fails at once, although it is harmless where nothing asks for what is
missing then. -/
def findColumn (h : Header) (name : String) : Outcome (Nat × ColumnType) :=
  if name = "*" then
    match h with
    | [(_, t)] => .ok (0, t)
    | [] => fail .missingColumn
    | _ => fail .repeatedColumn
  else if isPattern name then do
    match ← matching h name with
    | [(i, _, t)] => .ok (i, t)
    | [] => fail .missingColumn
    | _ => fail .repeatedColumn
  else
    match h.findIdx? (·.1 = name) with
    | some i => .ok (i, ((h[i]?).map (·.2)).getD .null)
    | none => fail .missingColumn

def resolve (h : Header) : Term → Outcome (Formula × ColumnType)
  | .column name => do
    let (i, t) ← findColumn h name
    .ok (.column i, t)
  | .constant c t => .ok (.constant c, t)
  | .reduce r e => do
    let (f, t) ← resolve h e
    .ok (.reduce r t f, ← r.type t)
  | .binary op l r => do
    let (f, s) ← resolve h l
    let (g, t) ← resolve h r
    let m ← meet op s t
    .ok (.combine m.kernel (f.coerced s m.left) (g.coerced t m.right), m.result)
  | .not e => do
    let (f, t) ← resolve h e
    match t with
    | .bool | .integer _ | .null => .ok (.negate t f, t)
    | _ => fail .invalidOperation
  | .isNull e => do .ok (.isNull (← resolve h e).1, .bool)
  | .isNotNull e => do .ok (.isNotNull (← resolve h e).1, .bool)
  | .cast e t => do
    let (f, s) ← resolve h e
    if castable s t then .ok (f.coerced s t, t) else fail .invalidOperation
  | .named e _ => resolve h e

end LazyQuery.Engine
