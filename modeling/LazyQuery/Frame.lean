import LazyQuery.Context
import LazyQuery.Delimited.Inference
import LazyQuery.Expr.Field
import LazyQuery.Plan.Equality

/-! Frames: queries that are built step by step over a context. Every step checks its expressions
against the schema so far and derives the next one; nothing is run before the rows are asked for. -/
namespace LazyQuery

structure Frame where
  plan : Plan
  context : Context

namespace Frame

def schema (f : Frame) : Outcome Schema := f.plan.schema

def empty (c : Context) (s : Schema) : Frame := ⟨.empty s, c⟩

/-- The positions of batches whose schema is not the first one's. -/
def mismatched (s : Schema) (batches : List Batch) : List Int :=
  (batches.mapIdx fun i b => (i, b)).filterMap fun (i, b) =>
    if b.schema = s then none else some (Int.ofNat i)

def ofBatches (c : Context) (batches : List Batch) : Outcome Frame :=
  let s := (batches.head?.map (·.schema)).getD []
  let bad := mismatched s batches
  if bad.isEmpty then .ok ⟨.memory batches s, c⟩
  else .error (.schema { mismatchedBatches := bad })

def checkPositions (s : Schema) : Option (List Int) → Outcome Unit
  | none => .ok ()
  | some ps =>
    let bad := ps.filter fun i => !Schema.inRange s.length i
    if bad.isEmpty then .ok ()
    else .error (.schema { invalidIndices := bad, fieldCount := some s.length })

/-- How a delimited file is to be read. -/
structure ScanOptions where
  schema : Option Schema := none
  projection : Option (List Int) := none
  hasHeader : Bool := true
  delimiter : String := ","

def scan (c : Context) (path format : String) (s : Schema) (o : ScanOptions) : Outcome Frame := do
  checkPositions s o.projection
  match s.narrow? o.projection with
  | some projected =>
    .ok ⟨.file ⟨path, format, s, projected, o.projection, o.hasHeader, o.delimiter⟩, c⟩
  | none => fail .positionOutOfRange

/-- The schema of a delimited file: the given one, or the one inferred. -/
def delimitedSchema (files : Files) (path : String) (o : ScanOptions) : Outcome Schema :=
  match o.schema with
  | some s => .ok s
  | none => Delimited.inferSchema files path o.hasHeader o.delimiter

def scanDelimited (files : Files) (c : Context) (path : String) (o : ScanOptions) :
    Outcome Frame := do
  scan c path "csv" (← delimitedSchema files path o) o

def columnarSchema (files : Files) (path : String) : Outcome Schema := do
  match ← files.find path with
  | .columnar b => .ok b.schema
  | .bytes _ => fail .invalidData

def scanColumnar (files : Files) (c : Context) (path : String) (projection : Option (List Int)) :
    Outcome Frame := do
  scan c path "parquet" (← columnarSchema files path) { projection := projection }

def column (f : Frame) (name : String) : Outcome Expr := do
  match (← f.schema).indexOf? name with
  | some i => .ok (.column (Int.ofNat i))
  | none => .error (.schema { unknownNames := [name] })

/-- New columns for each row; a wildcard stands for all columns there are. -/
def project (f : Frame) (es : List Expr) : Outcome Frame := do
  let s ← f.schema
  let expanded := Expr.expandWildcards s.length es
  .ok ⟨.projection expanded f.plan (← Expr.fields s expanded), f.context⟩

/-- A predicate has truth values, or nothing but nulls. -/
def isPredicateType (t : DataType) : Bool := t = .bool || t = .null

def filter (f : Frame) (predicate : Expr) : Outcome Frame := do
  let field ← Expr.field (← f.schema) predicate
  if isPredicateType field.type then .ok ⟨.selection predicate f.plan, f.context⟩
  else .error (.schema { nonBooleanPredicate := some field.type.text })

/-- The first rows, at most as many as a whole number that is not negative says. -/
def limit (f : Frame) (count : Datum) : Outcome Frame := do
  match count with
  | .int (.ofNat n) => .ok ⟨.limit (.literal (.int n) .uint64) f.plan (← f.schema), f.context⟩
  | d => .error (.badLimit d)

/-- One row for each group of rows: first what they have in common, then the aggregates. -/
def aggregate (f : Frame) (groups aggregates : List Expr) : Outcome Frame := do
  let s ← Expr.fields (← f.schema) (groups ++ aggregates)
  .ok ⟨.aggregate f.plan groups aggregates s, f.context⟩

/-- The rows, run where the frame's context is. -/
def collect (files : Files) (f : Frame) : Traced (List Batch) := f.context.collect files f.plan

def collectAsync (files : Files) (f : Frame) : Traced (List Batch) :=
  f.context.collectAsync files f.plan

def write (f : Frame) (operation : String) : Outcome Unit :=
  .error (.notImplemented operation f.context.stateText)

def text (f : Frame) : Outcome String := do
  .ok ("DataFrame[" ++ ", ".intercalate ((← f.schema).map fun c => c.name ++ ": " ++
    c.type.text) ++
    "]")

end Frame
end LazyQuery
