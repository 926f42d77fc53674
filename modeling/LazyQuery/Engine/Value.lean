import LazyQuery.Cell.Value
import LazyQuery.Engine.Planning

/-! What the cells of execution types denote. -/
namespace LazyQuery.Engine

mutual
def ColumnType.valueOf : ColumnType → Cell → Datum
  | _, .null => .null
  | .date, .int i => .date i
  | .time, .int i => .time (rescale .nano .micro i).toNat
  | .datetime u none, .int i => .moment ⟨rescale u .micro i, none⟩
  | .datetime u (some z), .int i =>
    .moment ⟨rescale u .micro i + zoneOffset z, some (zoneOffset z)⟩
  | .duration u, .int i => .span (rescale u .micro i)
  | .decimal _ s, .int i => .decimal ⟨i < 0, i.natAbs, -s⟩
  | .list t, .list cs | .array t _, .list cs => .list (cs.map t.valueOf)
  | .struct ms, .struct cs => .record (membersValue ms cs)
  | _, .bool b => .bool b
  | _, .int i => .int i
  | _, .float x => .float x
  | _, .text s => .text s
  | _, .bytes bs => .bytes bs
  | _, _ => .null

def membersValue : List (String × ColumnType) → List Cell → List (Datum × Datum)
  | (name, t) :: ms, c :: cs => (.text name, t.valueOf c) :: membersValue ms cs
  | _, _ => []
end

/-- The one column that an expression makes of a batch: its type and its values. -/
def evaluate (layout : Schema) (b : Batch) (e : Expr) : Outcome (ColumnType × List Datum) := do
  let t ← term layout e
  let r ← memoryTable b.schema [b]
  match ← (Relation.select (.terms [("value", t)]) r).collect [] with
  | ([(_, type)], _, [cells]) => .ok (type, cells.map type.valueOf)
  | _ => fail .positionOutOfRange

end LazyQuery.Engine
