import LazyQuery.Batch
import LazyQuery.Calendar.Clock
import LazyQuery.DataType.Text

/-! Values without a declared type: what literals, settings and limits hold. Their own equality
looks through the kinds of number, as arithmetic does, and through the order of record entries. -/
namespace LazyQuery

/-- The number `± coefficient * 10 ^ exponent`, which remembers its trailing zeros. -/
structure Decimal where
  negative : Bool
  coefficient : Nat
  exponent : Int
deriving DecidableEq, Repr

inductive Datum
  | null
  | bool (b : Bool)
  | int (i : Int)
  | float (x : Float)
  | complex (re im : Float)
  | decimal (d : Decimal)
  | text (s : String)
  | bytes (bs : List UInt8)
  | date (days : Int)
  | moment (m : Calendar.Moment)
  | time (micros : Nat)
  | span (micros : Int)
  | list (items : List Datum)
  | record (entries : List (Datum × Datum))
  | type (t : DataType)
  | schema (s : Schema)
  | batch (b : Batch)

namespace Datum

def kind : Datum → String
  | .null => "NoneType"
  | .bool _ => "bool"
  | .int _ => "int"
  | .float _ => "float"
  | .complex .. => "complex"
  | .decimal _ => "Decimal"
  | .text _ => "str"
  | .bytes _ => "bytes"
  | .date _ => "date"
  | .moment _ => "datetime"
  | .time _ => "time"
  | .span _ => "timedelta"
  | .list _ => "list"
  | .record _ => "dict"
  | .type t => t.family
  | .schema _ => "Schema"
  | .batch _ => "RecordBatch"

end Datum
end LazyQuery
