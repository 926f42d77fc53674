import LazyQuery.Engine.ColumnType
import LazyQuery.Expr
import LazyQuery.Fault

/-! How operators meet their operands: the common type that both sides are cast to, the kernel that
then works on them, and the type of the result. -/
namespace LazyQuery.Engine

def integerShape : IntegerType → Nat × Bool
  | .int8 => (8, true) | .int16 => (16, true) | .int32 => (32, true) | .int64 => (64, true)
  | .uint8 => (8, false) | .uint16 => (16, false) | .uint32 => (32, false) | .uint64 => (64, false)

def signedOf : Nat → IntegerType
  | 8 => .int8 | 16 => .int16 | 32 => .int32 | _ => .int64

def unsignedOf : Nat → IntegerType
  | 8 => .uint8 | 16 => .uint16 | 32 => .uint32 | _ => .uint64

/-- The narrowest integer type that holds both; a double where 64 unsigned bits meet a sign. -/
def commonInteger (a b : IntegerType) : ColumnType :=
  let (m, s) := integerShape a
  let (n, t) := integerShape b
  if s = t then .integer (if s then signedOf (max m n) else unsignedOf (max m n))
  else
    let signed := if s then m else n
    let unsigned := if s then n else m
    if unsigned = 64 then .double else .integer (signedOf (max signed (2 * unsigned)))

/-- A single precision number holds integers of up to 16 bits. -/
def withInteger (float : ColumnType) (k : IntegerType) : ColumnType :=
  match float with
  | .double => .double
  | _ => if (integerShape k).1 ≤ 16 then .single else .double

def commonResolution (a b : Resolution) : Resolution :=
  match a, b with
  | .nano, .micro => .micro
  | _, .milli => .milli
  | a, _ => a

/-- The numeric type in which counts of days or of units of time are set against numbers. -/
def countType? (counted number : ColumnType) : Option ColumnType :=
  match number with
  | .integer .int32 => some (if counted = .date then .integer .int32 else .int64)
  | .integer .int64 => some .int64
  | .integer .uint32 | .integer .uint64 => if counted = .time then none else some .int64
  | .single => some (if counted = .date then .single else .double)
  | .double => some .double
  | _ => none

def commonType? (a b : ColumnType) : Option ColumnType :=
  if a = b then some a
  else match a, b with
    | .null, t | t, .null => some t
    | .bool, .integer k | .integer k, .bool => some (.integer k)
    | .bool, .single | .single, .bool => some .single
    | .bool, .double | .double, .bool => some .double
    | .integer j, .integer k => some (commonInteger j k)
    | .integer k, .half | .half, .integer k => some (withInteger .half k)
    | .integer k, .single | .single, .integer k => some (withInteger .single k)
    | .integer _, .double | .double, .integer _ => some .double
    | .half, .single | .single, .half => some .single
    | .half, .double | .double, .half => some .double
    | .single, .double | .double, .single => some .double
    | .date, .datetime u z | .datetime u z, .date => some (.datetime u z)
    | .datetime u z, .datetime v y =>
      if z = y then some (.datetime (commonResolution u v) z) else none
    | .duration u, .duration v => some (.duration (commonResolution u v))
    | .string, .bool | .bool, .string => some .string
    | .string, .binary | .binary, .string => some .binary
    | .string, .category | .category, .string => some .string
    | .decimal p s, .integer _ | .integer _, .decimal p s => some (.decimal p s)
    | .decimal .., .single | .single, .decimal .. => some .double
    | .decimal .., .double | .double, .decimal .. => some .double
    | .decimal p s, .decimal q t => some (.decimal (max p q) (max s t))
    | .list s, .list t => (commonType? s t).map .list
    | s, t =>
      if s.isTemporal then countType? s t else if t.isTemporal then countType? t s else none

/-- What is computed from two cells of the operand types. -/
inductive Kernel
  | compare (op : Operator)
  /-- Conjunction or disjunction in three-valued logic. -/
  | connect (op : Operator)
  | bits (op : Operator) (kind : IntegerType)
  | whole (op : Operator) (kind : IntegerType)
  /-- Arithmetic of floating point numbers, rounded to single precision or not. -/
  | real (op : Operator) (single : Bool)
  | join
  /-- Sums and differences of points in time and spans, both in one unit. -/
  | span (op : Operator)
  /-- Days moved by a span, as whole days again. -/
  | days (op : Operator)
  /-- A span times or over a floating point number. -/
  | scale (op : Operator) (single : Bool)
  /-- How often a span fits into another. -/
  | ratio
  | nothing
deriving DecidableEq, Repr

/-- Types for the two operands, the kernel between them, and the type of the result. -/
structure Meeting where
  left : ColumnType
  right : ColumnType
  kernel : Kernel
  result : ColumnType
deriving DecidableEq

def sameSides (t : ColumnType) (kernel : Kernel) (result : ColumnType) : Outcome Meeting :=
  .ok ⟨t, t, kernel, result⟩

def isTextual : ColumnType → Bool
  | .string | .category => true
  | _ => false

/-- Texts are never compared with numbers, nor with points in time. -/
def comparable (a b : ColumnType) : Outcome Unit :=
  if a = .string && b.isNumeric || b = .string && a.isNumeric then fail .failedComputation
  else if isTextual a && b.isTemporal || isTextual b && a.isTemporal then fail .invalidOperation
  else .ok ()

def meetComparison (op : Operator) (a b : ColumnType) : Outcome Meeting := do
  comparable a b
  match commonType? a b with
  | some t =>
    if t.isNested && op ≠ .eq && op ≠ .ne then fail .invalidOperation
    else sameSides t (.compare op) .bool
  | none => fail .invalidOperation

def meetLogic (op : Operator) (a b : ColumnType) : Outcome Meeting := do
  comparable a b
  match commonType? a b with
  | some .bool => sameSides .bool (.connect op) .bool
  | some .null => sameSides .null .nothing .null
  | some (.integer k) => sameSides (.integer k) (.bits op k) (.integer k)
  | _ => fail .invalidOperation

/-- Numbers meet at their common type; a quotient is a floating point number. -/
def meetNumbers (op : Operator) (t : ColumnType) : Outcome Meeting :=
  match t with
  | .integer k =>
    if op = .div then sameSides .double (.real op false) .double
    else sameSides t (.whole op k) t
  | .single => sameSides .single (.real op true) .single
  | .double => sameSides .double (.real op false) .double
  | .half => sameSides .single (.real op true) .single
  | .bool =>
    match op with
    | .add | .sub => sameSides .uint32 (.whole op .uint32) .uint32
    | .div => sameSides .double (.real op false) .double
    | _ => fail .invalidOperation
  | .null => sameSides .null .nothing .null
  | .string => if op = .add then sameSides .string .join .string else fail .invalidOperation
  | .binary => if op = .add then sameSides .binary .join .binary else fail .invalidOperation
  | _ => fail .invalidOperation

def meetTimes (op : Operator) (a b : ColumnType) : Outcome Meeting :=
  match op, a, b with
  | .sub, .date, .date =>
    .ok ⟨.datetime .micro none, .datetime .micro none, .span op, .duration .micro⟩
  | .sub, .datetime u none, .date | .sub, .date, .datetime u none =>
    .ok ⟨.datetime u none, .datetime u none, .span op, .duration u⟩
  | .sub, .datetime u z, .datetime v y =>
    if z = y then
      let w := commonResolution u v
      .ok ⟨.datetime w z, .datetime w z, .span op, .duration w⟩
    else fail .invalidOperation
  | .sub, .time, .time => .ok ⟨.time, .time, .span op, .duration .nano⟩
  | .add, .date, .duration _ | .sub, .date, .duration _ =>
    .ok ⟨.datetime .milli none, .duration .milli, .days op, .date⟩
  | .add, .duration _, .date => .ok ⟨.duration .milli, .datetime .milli none, .days op, .date⟩
  | .add, .duration u, .duration v | .sub, .duration u, .duration v =>
    sameSides (.duration (commonResolution u v)) (.span op) (.duration (commonResolution u v))
  | .add, .datetime u z, .duration v | .sub, .datetime u z, .duration v =>
    let w := commonResolution u v
    .ok ⟨.datetime w z, .duration w, .span op, .datetime w z⟩
  | .add, .duration v, .datetime u z =>
    let w := commonResolution u v
    .ok ⟨.duration w, .datetime w z, .span op, .datetime w z⟩
  | .div, .duration u, .duration _ => sameSides (.duration u) .ratio .double
  | _, _, _ => fail .invalidOperation

def meetSpan (op : Operator) (a b : ColumnType) : Outcome Meeting :=
  match op, a, b with
  | .mul, .duration u, .integer _ | .div, .duration u, .integer _ =>
    .ok ⟨.duration u, .int64, .whole op .int64, .duration u⟩
  | .mul, .integer _, .duration u => .ok ⟨.int64, .duration u, .whole op .int64, .duration u⟩
  | .mul, .duration u, .single | .div, .duration u, .single =>
    .ok ⟨.duration u, .single, .scale op true, .duration u⟩
  | .mul, .duration u, .double | .div, .duration u, .double =>
    .ok ⟨.duration u, .double, .scale op false, .duration u⟩
  | .mul, .single, .duration u => .ok ⟨.single, .duration u, .scale op true, .duration u⟩
  | .mul, .double, .duration u => .ok ⟨.double, .duration u, .scale op false, .duration u⟩
  | _, _, _ => fail .invalidOperation

def meetArithmetic (op : Operator) (a b : ColumnType) : Outcome Meeting :=
  if a.isTemporal && b.isTemporal then meetTimes op a b
  else if a = .null && b.isTemporal then sameSides b .nothing b
  else if a.isTemporal && b = .null then sameSides a .nothing a
  else if a.isTemporal || b.isTemporal then meetSpan op a b
  else if (a = .string) ≠ (b = .string) && a ≠ .null && b ≠ .null then fail .invalidOperation
  else
    match commonType? a b with
    | some t => meetNumbers op t
    | none => fail .invalidOperation

def meet (op : Operator) (a b : ColumnType) : Outcome Meeting :=
  if op.isComparison then meetComparison op a b
  else if op.isLogical then meetLogic op a b
  else meetArithmetic op a b

theorem meet_comparison_result {op : Operator} {a b : ColumnType} {m : Meeting}
    (h : op.isComparison = true) (hm : meet op a b = .ok m) : m.result = .bool := by
  simp only [meet, h, if_true, meetComparison] at hm
  cases hc : comparable a b with
  | error f => simp [hc, bind, Except.bind] at hm
  | ok u =>
    simp only [hc, bind, Except.bind] at hm
    split at hm
    · split at hm
      · simp [fail] at hm
      · simp only [sameSides, Except.ok.injEq] at hm
        rw [← hm]
    · simp [fail] at hm

end LazyQuery.Engine
