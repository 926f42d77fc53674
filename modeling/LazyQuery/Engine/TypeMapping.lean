import LazyQuery.Engine.ColumnType
import LazyQuery.Fault

/-! Declared types and execution types: the mapping that casts and literals go through, which
refuses some types, and the types that stored batches take when they enter, which are more. -/
namespace LazyQuery

/-- There is no resolution of a second during execution; a millisecond takes its place. -/
def TimeUnit.resolution : TimeUnit → Engine.Resolution
  | .second | .milli => .milli
  | .micro => .micro
  | .nano => .nano

open Engine

/-- The execution type of a leaf, where it has one. -/
def Leaf.column? : Leaf → Option ColumnType
  | .null => some .null
  | .bool => some .bool
  | .integer k => some (.integer k)
  | .single => some .single
  | .double => some .double
  | .string | .largeString => some .string
  | .binary | .largeBinary => some .binary
  | .date32 | .date64 => some .date
  | .timestamp u z => some (.datetime u.resolution z)
  | .duration u => some (.duration u.resolution)
  | .time32 _ | .time64 _ => some .time
  | .half | .stringView | .monthDayNano | .decimal128 .. | .decimal256 .. | .fixedBinary _ => none

mutual
/-- The execution type of a declared type. The fault names the innermost type that has none. -/
def DataType.column : DataType → Outcome ColumnType
  | .leaf k =>
    match k.column? with
    | some t => .ok t
    | none => .error (.unmappedType (.leaf k))
  | .list f | .largeList f => do .ok (.list (← f.column))
  | .struct fs => do .ok (.struct (← fieldColumns fs))
  | .fixedList f n => .error (.unmappedType (.fixedList f n))
  | .dictionary i v => .error (.unmappedType (.dictionary i v))
  | .map k v => .error (.unmappedType (.map k v))

def Field.column : Field → Outcome ColumnType
  | ⟨_, t, _⟩ => t.column

def fieldColumns : List Field → Outcome (List (String × ColumnType))
  | [] => .ok []
  | ⟨name, t, _⟩ :: fs => do
    let c ← t.column
    .ok ((name, c) :: (← fieldColumns fs))
end

def Schema.columns (s : Schema) : Outcome (List (String × ColumnType)) := fieldColumns s

def Leaf.stored : Leaf → ColumnType
  | .half => .half
  | .stringView => .string
  | .fixedBinary _ => .binary
  | .date64 => .datetime .milli none
  | .decimal128 p s | .decimal256 p s => .decimal p s
  | .monthDayNano => .struct []
  | k => (k.column?).getD .null

mutual
def DataType.stored : DataType → ColumnType
  | .leaf k => k.stored
  | .list f | .largeList f => .list f.stored
  | .fixedList f n => .array f.stored n
  | .struct fs => .struct (fieldsStored fs)
  | .dictionary _ v => match v.stored with | .string => .category | t => t
  | .map k v => .list (.struct [("key", k.stored), ("value", v.stored)])

def Field.stored : Field → ColumnType
  | ⟨_, t, _⟩ => t.stored

def fieldsStored : List Field → List (String × ColumnType)
  | [] => []
  | ⟨name, t, _⟩ :: fs => (name, t.stored) :: fieldsStored fs
end

/-- Decimals have at most this many digits during execution. -/
def maxPrecision : Int := 38

mutual
def DataType.isHeld : DataType → Bool
  | .leaf (.decimal128 p _) | .leaf (.decimal256 p _) => p ≤ maxPrecision
  | .leaf _ => true
  | .list f | .largeList f | .fixedList f _ => f.isHeld
  | .struct fs => allHeld fs
  | .dictionary _ v => v.isHeld
  | .map k v => k.isHeld && v.isHeld

def Field.isHeld : Field → Bool
  | ⟨_, t, _⟩ => t.isHeld

def allHeld : List Field → Bool
  | [] => true
  | f :: fs => f.isHeld && allHeld fs
end

def Cell.times (n : Int) : Cell → Cell
  | .int i => .int ((i * n).bmod (2 ^ 64))
  | c => c

mutual
def DataType.store : DataType → Cell → Cell
  | .leaf (.timestamp .second _), c | .leaf (.duration .second), c => c.times 1000
  | .leaf (.time32 u), c | .leaf (.time64 u), c => c.times (1000000000 / u.perSecond)
  | .leaf _, c => c
  | .list f, .list cs | .largeList f, .list cs | .fixedList f _, .list cs => .list (cs.map f.store)
  | .struct fs, .struct cs => .struct (storeMembers fs cs)
  | .dictionary _ v, c => v.store c
  | .map k v, .list cs => .list (cs.map fun
    | .struct [a, b] => .struct [k.store a, v.store b]
    | c => c)
  | _, c => c

def Field.store : Field → Cell → Cell
  | ⟨_, t, _⟩, c => t.store c

def storeMembers : List Field → List Cell → List Cell
  | ⟨_, t, _⟩ :: fs, c :: cs => t.store c :: storeMembers fs cs
  | _, cs => cs
end

end LazyQuery
