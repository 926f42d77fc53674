import LazyQuery.DataType.Conversion
import LazyQuery.Engine.ColumnType

/-! The way out: columns are converted to the types that a schema declares, by position, and cut
into batches of limited size. -/
namespace LazyQuery

def Engine.Resolution.unit : Engine.Resolution → TimeUnit
  | .milli => .milli | .micro => .micro | .nano => .nano

def Leaf.isFixedWidth : Leaf → Bool
  | .bool | .integer _ | .half | .single | .double | .date32 | .date64 | .timestamp .. | .duration _
  | .time32 _ | .time64 _ | .decimal128 .. | .decimal256 .. => true
  | _ => false

def Leaf.sameStorage : Leaf → Leaf → Bool
  | .integer .int32, .date32 | .integer .int32, .time32 _ | .date32, .integer .int32
  | .time32 _, .integer .int32 => true
  | .integer .int64, .date64 | .integer .int64, .timestamp .. | .integer .int64, .duration _
  | .integer .int64, .time64 _ | .date64, .integer .int64 | .timestamp .., .integer .int64
  | .duration _, .integer .int64 | .time64 _, .integer .int64 => true
  | _, _ => false

def DataType.isNested : DataType → Bool
  | .list _ | .largeList _ | .fixedList .. | .struct _ | .map .. => true
  | .leaf _ | .dictionary .. => false

namespace Engine

mutual
def ColumnType.exported : ColumnType → DataType
  | .null => .null
  | .bool => .bool
  | .integer k => .leaf (.integer k)
  | .half => .leaf .half
  | .single => .leaf .single
  | .double => .double
  | .string => .leaf .largeString
  | .binary => .leaf .largeBinary
  | .date => .date32
  | .time => .leaf (.time64 .nano)
  | .datetime u z => .leaf (.timestamp u.unit z)
  | .duration u => .leaf (.duration u.unit)
  | .decimal p s => .leaf (.decimal128 p s)
  | .category => .dictionary (.leaf (.integer .uint32)) (.leaf .largeString)
  | .list t => .largeList (.item t.exported)
  | .array t n => .fixedList (.item t.exported) n
  | .struct ms => .struct (membersExported ms)

def membersExported : List (String × ColumnType) → List Field
  | [] => []
  | (name, t) :: ms => ⟨name, t.exported, true⟩ :: membersExported ms
end

end Engine

/-- Stored columns by position: for each its type and its cells, in the chunks in which they are
held. -/
abbrev Chunks := List (DataType × List (List Cell))

namespace Export

/-- A column in chunks as a column of another type. There has to be a conversion also where there is
no chunk. What the engine holds may be missing everywhere; where the other type does not let it,
there must be none missing. -/
def convertColumn (source target : DataType) (chunks : List (List Cell)) :
    Outcome (List (List Cell)) := do
  let _ ← source.convert target []
  let converted ← chunks.mapM (source.convert target)
  if source ≠ target && converted.any (·.any target.lacks) then fail .invalidData
  else .ok converted

def convertAll : Schema → Chunks → Outcome (List (List (List Cell)))
  | [], _ => .ok []
  | _ :: _, [] => fail .positionOutOfRange
  | f :: fs, (t, chunks) :: cs => do
    let converted ← convertColumn t f.type chunks
    .ok (converted :: (← convertAll fs cs))

def maxBatchSize : Int := 2 ^ 63

def batchSizeOf (size : Int) : Outcome Nat :=
  if maxBatchSize ≤ size || size < -maxBatchSize then fail .overflow
  else if size ≤ 0 then fail .badValue
  else .ok size.toNat

/-- A list in pieces of at most `size` items, all but the last of exactly that size. -/
def pieces {α : Type} (size : Nat) (xs : List α) : List (List α) :=
  (List.range ((xs.length + size - 1) / size)).map fun i => (xs.drop (i * size)).take size

theorem flatMap_pieces {α : Type} (xs : List α) (size count : Nat) :
    (List.range count).flatMap (fun i => (xs.drop (i * size)).take size) =
      xs.take (count * size) := by
  induction count with
  | zero => simp
  | succ n ih => simp [List.range_succ, ih, Nat.succ_mul, List.take_add]

theorem flatten_pieces {α : Type} {size : Nat} (h : 0 < size) (xs : List α) :
    (pieces size xs).flatten = xs := by
  rw [pieces, ← List.flatMap_def, flatMap_pieces]
  apply List.take_of_length_le
  have quotient := Nat.div_add_mod (xs.length + size - 1) size
  have rest := Nat.mod_lt (xs.length + size - 1) h
  rw [Nat.mul_comm] at quotient
  omega

/-- The batches of one chunk of every column. A chunk without rows gives none. -/
def slices (s : Schema) (size : Nat) (columns : List (List Cell)) : List Batch :=
  let cut := columns.map (pieces size)
  let count := (cut.head?.map List.length).getD 0
  (List.range count).filterMap fun i => Batch.ofColumns? s (cut.map fun c => c.getD i [])

/-- What a conversion makes of the chunks of a column: they stay as they are, or all cells come into
one chunk, or the chunks that have rows are converted one by one. -/
inductive Passage
  | kept | joined | parted
deriving DecidableEq, Repr

/-- A column that has its type already is kept. Cells that are computed and take up the same room
each are computed into one chunk. -/
def passage : DataType → DataType → Passage
  | .leaf s, .leaf t =>
    if s = t then .kept
    else if t.isFixedWidth && s ≠ .null && !s.sameStorage t then .joined
    else .parted
  | source, target => if source = target && !source.isNested then .kept else .parted

def passages (s : Schema) (columns : Chunks) : List Passage :=
  s.zipWith (fun f c => passage c.1 f.type) columns

def isRowless (chunk : List (List Cell)) : Bool := chunk.all List.isEmpty

def aligned (columns : List (List (List Cell))) : List (List (List Cell)) :=
  (List.range ((columns.head?.map List.length).getD 0)).map fun i => columns.map fun c =>
  c.getD i []

/-- The stretches of rows that no boundary between chunks divides. A chunk without rows is one only
where some column has kept it. -/
def stretches (ways : List Passage) (columns : List (List (List Cell))) : List (List (List Cell)) :=
  if ways.all (· = .joined) then [columns.map List.flatten]
  else if ways.any (· = .kept) then aligned columns
  else (aligned columns).filter (!isRowless ·)

/-- The batches of one stretch. Without rows it gives one batch without rows. -/
def stretch (s : Schema) (size : Nat) (chunk : List (List Cell)) : List Batch :=
  if isRowless chunk then (Batch.ofColumns? s chunk).toList else slices s size chunk

/-- The batches of one stretch after another, up to the last row. -/
def read (s : Schema) (size : Nat) : List (List (List Cell)) → List Batch
  | [] => []
  | chunk :: rest =>
    if (chunk :: rest).all isRowless then [] else stretch s size chunk ++ read s size rest

/-- The batches of columns in chunks: the columns converted to the types of the schema, then cut
into batches of at most `size` rows, none of which reaches over a boundary between chunks. A schema
without fields has no batches. -/
def batches (s : Schema) (columns : Chunks) (size : Int) : Outcome (List Batch) := do
  let converted ← convertAll s columns
  let n ← batchSizeOf size
  .ok (read s n (stretches (passages s columns) converted))

end Export
end LazyQuery
